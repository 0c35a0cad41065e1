import S5.Importers.Proof.Http

/-!
# Which crawls end

The runs that reach the calls of a crawl: with two permits and nothing stored, a call can be reached
along every trail (`Clean.reach`), and it fetches what it is for (`Clean.fetch_page`, `fetch_files`).

* `requests_unbounded`: where trails get longer and longer, so do the requests.
* `crawls_once_iff`: a crawl of a finite site ends, and fetches nothing twice, exactly if no URL can be
  reached along two trails.
-/

namespace HttpImport

open Fs

variable {Url : Type} [DecidableEq Url] {imp : HttpImporter Url} {server : Server Url} {start : Url}

/-- The server answers with a page. -/
def ServesPage (server : Server Url) (url : Url) : Prop :=
  ∃ res, server.get url = .ok res ∧ HttpImporter.isPage res = true

theorem servesPage_of_link {url link : Url} {i : Nat} (h : (links imp server url)[i]? = some link) :
    ServesPage server url := by
  cases hget : server.get url with
  | error e =>
    rw [links, hget] at h
    cases h
  | ok res =>
    refine ⟨res, hget, ?_⟩
    by_contra hno
    rw [links, hget] at h
    dsimp only at h
    rw [if_neg hno] at h
    cases h

namespace State

variable {s : State Url} {t : Trail} {url : Url}

/-- Nothing that a call does here depends on it. -/
def anyOutcome : Outcome := ⟨⟨0, 0⟩, false⟩

theorem run_append (s : State Url) (es fs : List (Trail × Outcome)) :
    s.run imp server (es ++ fs) = (s.run imp server es).run imp server fs :=
  List.foldl_append ..

theorem step_of_calls {phase : Phase} (o : Outcome) (hc : s.calls t = some ⟨url, phase⟩)
    (hf : s.failed = false) :
    s.step imp server (t, o) = s.advance imp server t url o phase := by
  rw [State.step, hf, if_neg (by simp)]
  dsimp only
  rw [hc]

/-- A call takes a permit, and finds no entry. -/
theorem run_queued (o : Outcome) (hf : s.failed = false) (hfiles : s.files = fun _ => none)
    (hfree : 0 < s.free) (hc : s.calls t = some ⟨url, .queued⟩) :
    s.run imp server [(t, o), (t, o)] = { s with free := s.free - 1 }.move t url .fetching := by
  have htake : s.step imp server (t, o) = { s with free := s.free - 1 }.move t url .permitted := by
    rw [step_of_calls o hc hf, State.advance, if_neg (Nat.ne_of_gt hfree)]
  have hself : ({ s with free := s.free - 1 }.move t url .permitted).calls t = some ⟨url, .permitted⟩ :=
    calls_move_self ..
  have hget : ({ s with free := s.free - 1 }.move t url .permitted).fileGet (imp.keyForUrl url) = none := by
    simp [fileGet, State.move, hfiles]
  have hlook : ({ s with free := s.free - 1 }.move t url .permitted).step imp server (t, o) =
      ({ s with free := s.free - 1 }.move t url .permitted).move t url .fetching := by
    rw [step_of_calls o hself hf, State.advance, hget]
  rw [State.run, List.foldl_cons, List.foldl_cons, List.foldl_nil, htake, hlook]
  simp only [State.move, Function.update_idem]

/-- A call fetches a page, and calls for its links. -/
theorem step_fetch_page {res : Response} (o : Outcome) (hc : s.calls t = some ⟨url, .fetching⟩)
    (hf : s.failed = false) (hget : server.get url = .ok res) (hpage : HttpImporter.isPage res = true) :
    s.step imp server (t, o) =
      (((s.request t .get url).move t url .page).release).spawn t (links imp server url) := by
  rw [step_of_calls o hc hf, State.advance, hget]
  dsimp only
  rw [if_pos hpage, ← links_of_page hget hpage]

/-- A call fetches a file, which is to be stored. -/
theorem step_fetch_file {res : Response} (o : Outcome) (hc : s.calls t = some ⟨url, .fetching⟩)
    (hf : s.failed = false) (hget : server.get url = .ok res) (hfile : HttpImporter.isPage res = false) :
    s.step imp server (t, o) = (s.request t .get url).move t url (.storing res) := by
  rw [step_of_calls o hc hf, State.advance, hget]
  dsimp only
  rw [hfile, if_neg (by simp)]

/-! ## Clean states -/

/-- All calls wait for a permit or for the calls of their links, and nothing is stored. -/
structure Clean (imp : HttpImporter Url) (server : Server Url) (start : Url) (s : State Url) : Prop
    extends Traced imp server start s where
  free : s.free = 2
  files : s.files = fun _ => none
  failed : s.failed = false
  phases : ∀ t c, s.calls t = some c → c.phase = .queued ∨ c.phase = .page
  served : ∀ t url, s.calls t = some ⟨url, .page⟩ → ServesPage server url
  spawned : ∀ t url i, s.calls t = some ⟨url, .page⟩ → ((links imp server url)[i]?).isSome →
    s.calls (i :: t) ≠ none
  fetched : ∀ t url, s.calls t = some ⟨url, .page⟩ → ⟨t, .get, url⟩ ∈ s.requests

/-- What a run of a clean state keeps. -/
structure Extends (s s' : State Url) : Prop where
  calls : ∀ t, s.calls t ≠ none → s'.calls t ≠ none
  requests : s.requests ⊆ s'.requests

omit [DecidableEq Url] in
theorem Extends.refl (s : State Url) : Extends s s := ⟨fun _ => id, List.Subset.refl _⟩

omit [DecidableEq Url] in
theorem Extends.trans {a b c : State Url} (h : Extends a b) (k : Extends b c) : Extends a c :=
  ⟨fun t ht => k.calls t (h.calls t ht), List.Subset.trans h.requests k.requests⟩

/-- There is a run to a clean state of which `P` holds. -/
def Leads (imp : HttpImporter Url) (server : Server Url) (start : Url) (s : State Url)
    (P : State Url → Prop) : Prop :=
  ∃ es, Clean imp server start (s.run imp server es) ∧ Extends s (s.run imp server es) ∧
    P (s.run imp server es)

theorem Leads.refl {P : State Url → Prop} (h : Clean imp server start s) (hP : P s) :
    Leads imp server start s P :=
  ⟨[], h, .refl s, hP⟩

theorem Leads.trans {P Q : State Url → Prop} (h : Leads imp server start s P)
    (k : ∀ s', Extends s s' → Clean imp server start s' → P s' → Leads imp server start s' Q) :
    Leads imp server start s Q := by
  obtain ⟨es, hclean, hext, hP⟩ := h
  obtain ⟨fs, hclean', hext', hQ⟩ := k _ hext hclean hP
  refine ⟨es ++ fs, ?_⟩
  rw [run_append]
  exact ⟨hclean', hext.trans hext', hQ⟩

omit [DecidableEq Url] in
theorem calls_start_ne_page (permits : Nat) (files : String → Option FileRef) :
    (State.start start permits files).calls t ≠ some ⟨url, .page⟩ := by
  intro hc
  simp only [State.start, Function.update_apply] at hc
  split at hc
  · simp at hc
  · cases hc

theorem clean_start : Clean imp server start (State.start start 2 fun _ => none) where
  toTraced := traced_start 2 _
  free := rfl
  files := rfl
  failed := rfl
  phases t c hc := by
    simp only [State.start, Function.update_apply] at hc
    split at hc
    · exact .inl (Option.some.inj hc ▸ rfl)
    · cases hc
  served t url hc := (calls_start_ne_page _ _ hc).elim
  spawned t url i hc := (calls_start_ne_page _ _ hc).elim
  fetched t url hc := (calls_start_ne_page _ _ hc).elim

/-- The call at `t` has fetched a page. -/
theorem Clean.visit {res : Response} (h : Clean imp server start s) (hc : s.calls t = some ⟨url, .queued⟩)
    (hget : server.get url = .ok res) (hpage : HttpImporter.isPage res = true) :
    Leads imp server start s fun s' => s'.calls t = some ⟨url, .page⟩ := by
  have hnone : ∀ i, s.calls (i :: t) = none := by
    intro i
    by_contra hsome
    obtain ⟨url', hparent⟩ := h.parent i t hsome
    rw [hc] at hparent
    simp at hparent
  let s' := ((((({ s with free := s.free - 1 }.move t url .fetching).request t .get url).move t url
    .page).release).spawn t (links imp server url))
  have hrun : s.run imp server [(t, anyOutcome), (t, anyOutcome), (t, anyOutcome)] = s' := by
    have hqueued : s.run imp server [(t, anyOutcome), (t, anyOutcome)] = _ :=
      run_queued _ h.failed h.files (by rw [h.free]; decide) hc
    have hfetch : ({ s with free := s.free - 1 }.move t url .fetching).step imp server (t, anyOutcome) = s' :=
      step_fetch_page _ (calls_move_self ..) h.failed hget hpage
    have hsplit : s.run imp server [(t, anyOutcome), (t, anyOutcome), (t, anyOutcome)] =
        (s.run imp server [(t, anyOutcome), (t, anyOutcome)]).run imp server [(t, anyOutcome)] :=
      run_append s [(t, anyOutcome), (t, anyOutcome)] [(t, anyOutcome)]
    rw [hsplit, hqueued]
    exact hfetch
  have hself : s'.calls t = some ⟨url, .page⟩ := by
    rw [calls_spawn_of_ne fun i => List.ne_cons_self]
    exact calls_move_self ..
  -- the calls of `s'` are `t`, its links and those of `s`
  have hcalls : ∀ p, p ≠ t → (∀ i, p ≠ i :: t) → s'.calls p = s.calls p := by
    intro p hne hchild
    rw [calls_spawn_of_ne hchild]
    exact ((calls_move ..).trans (if_neg hne)).trans ((calls_move ..).trans (if_neg hne))
  have hchild : ∀ i, s'.calls (i :: t) = ((links imp server url)[i]?).map (⟨·, .queued⟩) := by
    intro i
    rw [calls_spawn_cons, if_pos rfl]
  have hpages : ∀ p u, s'.calls p = some ⟨u, .page⟩ →
      p = t ∧ u = url ∨ p ≠ t ∧ s.calls p = some ⟨u, .page⟩ := by
    intro p u hp
    by_cases hne : p = t
    · rw [hne, hself] at hp
      exact .inl ⟨hne, (by simpa using hp.symm)⟩
    · refine .inr ⟨hne, ?_⟩
      rw [← hcalls p hne, hp]
      rintro i rfl
      rw [hchild] at hp
      simp at hp
  have hext : Extends s s' := by
    refine ⟨fun p hp => ?_, List.subset_append_left _ _⟩
    by_cases hne : p = t
    · rw [hne, hself]
      simp
    · rw [hcalls p hne]
      · exact hp
      · rintro i rfl
        exact hp (hnone i)
  have hclean : Clean imp server start s' := by
    constructor
    · rw [← hrun]
      exact h.toTraced.run _
    · have hfree : s'.free = s.free - 1 + 1 := rfl
      rw [hfree, h.free]
    · exact h.files
    · exact h.failed
    · intro p c hp
      by_cases hne : p = t
      · rw [hne, hself] at hp
        exact .inr (Option.some.inj hp ▸ rfl)
      · by_cases hlink : ∃ i, p = i :: t
        · obtain ⟨i, rfl⟩ := hlink
          rw [hchild] at hp
          obtain ⟨link, -, rfl⟩ := Option.map_eq_some_iff.1 hp
          exact .inl rfl
        · rw [hcalls p hne fun i he => hlink ⟨i, he⟩] at hp
          exact h.phases p c hp
    · intro p u hp
      rcases hpages p u hp with ⟨-, rfl⟩ | ⟨-, hold⟩
      · exact ⟨res, hget, hpage⟩
      · exact h.served p u hold
    · intro p u i hp hi
      rcases hpages p u hp with ⟨rfl, rfl⟩ | ⟨-, hold⟩
      · rw [hchild]
        obtain ⟨link, hlink⟩ := Option.isSome_iff_exists.1 hi
        rw [hlink]
        simp
      · exact hext.calls _ (h.spawned p u i hold hi)
    · intro p u hp
      rcases hpages p u hp with ⟨rfl, rfl⟩ | ⟨-, hold⟩
      · exact List.mem_append_right _ (.head _)
      · exact hext.requests (h.fetched p u hold)
  refine ⟨[(t, anyOutcome), (t, anyOutcome), (t, anyOutcome)], ?_⟩
  rw [hrun]
  exact ⟨hclean, hext, hself⟩

/-- Where a call is that a trail leads to. -/
theorem Clean.call_of_follow (h : Clean imp server start s)
    (hfollow : follow imp server start t = some url) (hc : s.calls t ≠ none) :
    s.calls t = some ⟨url, .queued⟩ ∨ s.calls t = some ⟨url, .page⟩ := by
  obtain ⟨⟨u, phase⟩, hcall⟩ := Option.ne_none_iff_exists'.1 hc
  obtain rfl : u = url := Option.some.inj ((h.follow t _ hcall).symm.trans hfollow)
  rcases h.phases t _ hcall with hphase | hphase
  · exact .inl (hphase ▸ hcall)
  · exact .inr (hphase ▸ hcall)

/-- A call for a page fetches it. -/
theorem Clean.fetch_page (h : Clean imp server start s) (hfollow : follow imp server start t = some url)
    (hc : s.calls t ≠ none) (hpage : ServesPage server url) :
    Leads imp server start s fun s' => s'.calls t = some ⟨url, .page⟩ := by
  rcases h.call_of_follow hfollow hc with hqueued | hfetched
  · obtain ⟨res, hget, hres⟩ := hpage
    exact h.visit hqueued hget hres
  · exact .refl h hfetched

/-- **Every call** is reached: the pages on its trail are fetched, the first one first. -/
theorem Clean.reach (h : Clean imp server start s) (hroot : s.calls [] ≠ none)
    (hfollow : follow imp server start t = some url) :
    Leads imp server start s fun s' => s'.calls t ≠ none := by
  induction t generalizing url with
  | nil => exact .refl h hroot
  | cons i t ih =>
    obtain ⟨parent, hparent, hlink⟩ := Option.bind_eq_some_iff.1 hfollow
    have hfetch : Leads imp server start s fun s' => s'.calls t = some ⟨parent, .page⟩ :=
      (ih hparent).trans fun s' _ hclean hc => hclean.fetch_page hparent hc (servesPage_of_link hlink)
    refine hfetch.trans fun s' _ hclean hc => .refl hclean (hclean.spawned t parent i hc ?_)
    rw [hlink]
    rfl

/-! ## Longer and longer trails -/

theorem Clean.length_le (h : Clean imp server start s) (hc : s.calls t ≠ none) :
    t.length ≤ s.requests.length := by
  have hlengths : ∀ k < t.length, ∃ r ∈ s.requests, r.call.length = k := by
    induction t with
    | nil => simp
    | cons i t ih =>
      obtain ⟨url, hparent⟩ := h.parent i t hc
      intro k hk
      rcases Nat.lt_succ_iff_lt_or_eq.1 hk with hk | rfl
      · exact ih (by simp [hparent]) k hk
      · exact ⟨_, h.fetched t url hparent, rfl⟩
  have hsub : List.range t.length ⊆ s.requests.map fun r => r.call.length := by
    intro k hk
    obtain ⟨r, hr, hlen⟩ := hlengths k (List.mem_range.1 hk)
    exact List.mem_map.2 ⟨r, hr, hlen⟩
  have hle := (List.nodup_range.subperm hsub).length_le
  rwa [List.length_range, List.length_map] at hle

/-- **No bound** on the requests, where there are trails of any length: every page on a trail has been
fetched when the trail's last call starts. -/
theorem requests_unbounded (h : ∀ n, ∃ t url, n ≤ t.length ∧ follow imp server start t = some url)
    (n : Nat) :
    ∃ es, n ≤ ((State.start start 2 fun _ => none).run imp server es).requests.length := by
  obtain ⟨t, url, hlen, hfollow⟩ := h n
  obtain ⟨es, hclean, -, hc⟩ := clean_start.reach (by simp [State.start]) hfollow
  exact ⟨es, hlen.trans (hclean.length_le hc)⟩

/-! ## Two trails to one URL -/

theorem two_le_fetches {p q : Trail} (hp : ⟨p, .get, url⟩ ∈ s.requests) (hq : ⟨q, .get, url⟩ ∈ s.requests)
    (hne : p ≠ q) : 2 ≤ s.fetches url := by
  rw [fetches, List.countP_eq_length_filter]
  have hnodup : [(⟨p, .get, url⟩ : Request Url), ⟨q, .get, url⟩].Nodup := by simp [hne]
  have hsub : [(⟨p, .get, url⟩ : Request Url), ⟨q, .get, url⟩] ⊆
      s.requests.filter fun r => r.method = .get ∧ r.url = url := by
    intro r hr
    rcases List.mem_pair.1 hr with rfl | rfl
    · exact List.mem_filter.2 ⟨hp, by simp⟩
    · exact List.mem_filter.2 ⟨hq, by simp⟩
  exact (hnodup.subperm hsub).length_le

/-- Two calls for a file, neither of which sees the entry of the other. -/
theorem Clean.fetch_files {p q : Trail} {res : Response} (h : Clean imp server start s)
    (hp : s.calls p = some ⟨url, .queued⟩) (hq : s.calls q = some ⟨url, .queued⟩) (hne : p ≠ q)
    (hget : server.get url = .ok res) (hfile : HttpImporter.isPage res = false) :
    ∃ es, 2 ≤ (s.run imp server es).fetches url := by
  let s₁ := { s with free := s.free - 1 }.move p url .fetching
  let s₂ := { s₁ with free := s₁.free - 1 }.move q url .fetching
  let s₃ := (s₂.request p .get url).move p url (.storing res)
  let s₄ := (s₃.request q .get url).move q url (.storing res)
  have hrun₁ : s.run imp server [(p, anyOutcome), (p, anyOutcome)] = s₁ :=
    run_queued _ h.failed h.files (by rw [h.free]; decide) hp
  have hq₁ : s₁.calls q = some ⟨url, .queued⟩ := (calls_move ..).trans ((if_neg hne.symm).trans hq)
  have hfree₁ : 0 < s₁.free := by
    have hfree : s₁.free = s.free - 1 := rfl
    rw [hfree, h.free]
    decide
  have hrun₂ : s₁.run imp server [(q, anyOutcome), (q, anyOutcome)] = s₂ :=
    run_queued _ h.failed h.files hfree₁ hq₁
  have hp₂ : s₂.calls p = some ⟨url, .fetching⟩ :=
    (calls_move ..).trans ((if_neg hne).trans (calls_move_self ..))
  have hstep₃ : s₂.step imp server (p, anyOutcome) = s₃ := step_fetch_file _ hp₂ h.failed hget hfile
  have hq₃ : s₃.calls q = some ⟨url, .fetching⟩ :=
    (calls_move ..).trans ((if_neg hne.symm).trans (calls_move_self ..))
  have hstep₄ : s₃.step imp server (q, anyOutcome) = s₄ := step_fetch_file _ hq₃ h.failed hget hfile
  refine ⟨[(p, anyOutcome), (p, anyOutcome)] ++ ([(q, anyOutcome), (q, anyOutcome)] ++
    [(p, anyOutcome), (q, anyOutcome)]), ?_⟩
  rw [run_append, hrun₁, run_append, hrun₂, State.run, List.foldl_cons, List.foldl_cons, List.foldl_nil,
    hstep₃, hstep₄]
  have hrequests : s₄.requests = s.requests ++ [⟨p, .get, url⟩] ++ [⟨q, .get, url⟩] := rfl
  refine two_le_fetches ?_ ?_ hne
  · rw [hrequests]
    exact List.mem_append_left _ (List.mem_append_right _ (.head _))
  · rw [hrequests]
    exact List.mem_append_right _ (.head _)

/-- **Two trails** to one URL: some run fetches it twice. -/
theorem oneTrail_of_fetches (site : FiniteSite imp server) (hstart : start ∈ site.urls)
    (h : ∀ es url, ((State.start start 2 fun _ => none).run imp server es).fetches url ≤ 1) :
    OneTrail imp server start := by
  intro p q url hp hq
  by_contra hne
  have hroot : (State.start start 2 fun _ => none).calls [] ≠ none := by simp [State.start]
  have hreach : Leads imp server start (State.start start 2 fun _ => none) fun s =>
      s.calls p ≠ none ∧ s.calls q ≠ none :=
    (clean_start.reach hroot hp).trans fun s hext hclean hcp =>
      (hclean.reach (hext.calls [] hroot) hq).trans fun s' hext' hclean' hcq =>
        .refl hclean' ⟨hext'.calls p hcp, hcq⟩
  have htwice : ∃ es, 2 ≤ ((State.start start 2 fun _ => none).run imp server es).fetches url := by
    by_cases hpage : ServesPage server url
    · have hfetch : Leads imp server start (State.start start 2 fun _ => none) fun s =>
          ⟨p, .get, url⟩ ∈ s.requests ∧ ⟨q, .get, url⟩ ∈ s.requests :=
        hreach.trans fun s hext hclean hc =>
          (hclean.fetch_page hp hc.1 hpage).trans fun s' hext' hclean' hcp =>
            (hclean'.fetch_page hq (hext'.calls q hc.2) hpage).trans fun s'' hext'' hclean'' hcq =>
              .refl hclean'' ⟨hext''.requests (hclean'.fetched p url hcp), hclean''.fetched q url hcq⟩
      obtain ⟨es, -, -, hfp, hfq⟩ := hfetch
      exact ⟨es, two_le_fetches hfp hfq hne⟩
    · obtain ⟨es, hclean, -, hcp, hcq⟩ := hreach
      obtain ⟨res, hget⟩ := site.get_ok url (site.follow_mem hstart hp)
      have hfile : HttpImporter.isPage res = false := by
        by_contra hno
        exact hpage ⟨res, hget, by simpa using hno⟩
      have hqueued : ∀ t, follow imp server start t = some url →
          ((State.start start 2 fun _ => none).run imp server es).calls t ≠ none →
          ((State.start start 2 fun _ => none).run imp server es).calls t = some ⟨url, .queued⟩ := by
        intro t hfollow hc
        rcases hclean.call_of_follow hfollow hc with hqueued | hfetched
        · exact hqueued
        · exact (hpage (hclean.served t url hfetched)).elim
      obtain ⟨fs, hfs⟩ := hclean.fetch_files (hqueued p hp hcp) (hqueued q hq hcq) hne hget hfile
      exact ⟨es ++ fs, by rwa [run_append]⟩
  obtain ⟨es, hes⟩ := htwice
  exact absurd (h es url) (Nat.not_le.2 hes)

end State

open State

/-- **A crawl of a finite site** makes finitely many requests and fetches no body twice exactly if no URL
can be reached along two trails of links. -/
theorem crawls_once_iff (site : FiniteSite imp server) (hstart : start ∈ site.urls) :
    CrawlsOnce imp server start ↔ OneTrail imp server start := by
  constructor
  · intro h
    exact oneTrail_of_fetches site hstart (h 2 fun _ => none).2
  · intro hone permits files
    refine ⟨⟨site.urls.length * 2, fun es => ?_⟩, fun es url => ?_⟩
    · exact ((traced_start permits files).run es).length_requests hone site hstart
    · exact ((traced_start permits files).run es).fetches_le_one hone url

/-! ## A directory listing -/

/-- `https://example.com/root/`, a directory in it, and a file in that. -/
inductive ListingUrl where
  | root
  | assets
  | logo
  deriving DecidableEq

namespace ListingUrl

def asStr : ListingUrl → String
  | root => "https://example.com/root/"
  | assets => "https://example.com/root/assets/"
  | logo => "https://example.com/root/assets/logo.png"

def path : ListingUrl → String
  | root => "/root/"
  | assets => "/root/assets/"
  | logo => "/root/assets/logo.png"

def join : ListingUrl → String → Option ListingUrl
  | _, "/root/" => some root
  | root, "assets/" => some assets
  | assets, "logo.png" => some logo
  | _, _ => none

def makeRelative : ListingUrl → ListingUrl → Option String
  | root, root => some ""
  | root, assets => some "assets/"
  | root, logo => some "assets/logo.png"
  | _, _ => none

def lib : UrlLib ListingUrl where
  asStr := asStr
  scheme _ := "https"
  hostStr _ := some "example.com"
  path := path
  join := join
  makeRelative := makeRelative

end ListingUrl

/-- The text of a page, one `a` element after the other. -/
def listing (hrefs : List String) : Bytes :=
  hrefs.flatMap fun href => ("<a href='" ++ href ++ "'></a>").toUTF8.toList

/-- `root` lists `assets`, which lists `logo`, an empty file, and with `up` before it `root`. -/
def listingServer (up : Bool) : Server ListingUrl where
  head _ := .ok ⟨none, none⟩
  get
    | .root => .ok ⟨"text/html", none, listing ["assets/"]⟩
    | .assets => .ok ⟨"text/html", none, listing (if up then ["/root/", "logo.png"] else ["logo.png"])⟩
    | .logo => .ok ⟨"image/png", none, []⟩

def listingImporter : HttpImporter ListingUrl where
  lib := ListingUrl.lib
  hrefs body :=
    if body = listing ["assets/"] then ["assets/"]
    else if body = listing ["logo.png"] then ["logo.png"]
    else if body = listing ["/root/", "logo.png"] then ["/root/", "logo.png"]
    else []
  -- of the empty file
  blake3 _ := 0xaf1349b9f5f9a1a6a0404dea36dcc9499bcb25c9adc112b7cc9a93cae41f3262
  baseUrl := .root
  useBaseRelativeKeys := true

theorem links_root (up : Bool) : links listingImporter (listingServer up) .root = [.assets] := by
  cases up <;> decide +kernel

theorem links_assets_up : links listingImporter (listingServer true) .assets = [.root, .logo] := by
  decide +kernel

theorem links_assets : links listingImporter (listingServer false) .assets = [.logo] := by decide +kernel

theorem links_logo (up : Bool) : links listingImporter (listingServer up) .logo = [] := by
  cases up <;> decide +kernel

/-- The three URLs, all of them under `root`. -/
def listingSite (up : Bool) : FiniteSite listingImporter (listingServer up) where
  urls := [.root, .assets, .logo]
  head_ok _ _ := ⟨_, rfl⟩
  get_ok url _ := by cases url <;> exact ⟨_, rfl⟩
  closed _ _ link _ := by cases link <;> decide

theorem getElem?_singleton_eq_some {α : Type} {a b : α} {i : Nat} (h : [a][i]? = some b) :
    i = 0 ∧ b = a := by
  cases i with
  | zero => exact ⟨rfl, (Option.some.inj h).symm⟩
  | succ i => cases h

/-- Without `up`, the one trail to a URL. -/
def ListingUrl.trail : ListingUrl → Trail
  | root => []
  | assets => [0]
  | logo => [0, 0]

theorem crawls_once_iff_listing : CrawlsOnce listingImporter (listingServer false) .root := by
  have htrail : ∀ p url, follow listingImporter (listingServer false) .root p = some url →
      p = url.trail := by
    intro p
    induction p with
    | nil =>
      intro url h
      obtain rfl := Option.some.inj h
      rfl
    | cons i p ih =>
      intro url h
      obtain ⟨parent, hparent, hlink⟩ := Option.bind_eq_some_iff.1 h
      rw [ih parent hparent]
      cases parent with
      | root =>
        rw [links_root] at hlink
        obtain ⟨rfl, rfl⟩ := getElem?_singleton_eq_some hlink
        rfl
      | assets =>
        rw [links_assets] at hlink
        obtain ⟨rfl, rfl⟩ := getElem?_singleton_eq_some hlink
        rfl
      | logo =>
        rw [links_logo] at hlink
        cases hlink
  exact (crawls_once_iff (listingSite false) (.head _)).2 fun p q url hp hq =>
    (htrail p url hp).trans (htrail q url hq).symm

/-- A directory that lists the one above it: the crawl goes to and fro between the two pages. -/
theorem crawl_to_and_fro :
    (∃ site : FiniteSite listingImporter (listingServer true), ListingUrl.root ∈ site.urls ∧
      ∀ url ∈ site.urls, listingImporter.baseUrl.asStr.toList.isPrefixOf url.asStr.toList = true) ∧
    ¬ CrawlsOnce listingImporter (listingServer true) .root ∧
    ∀ n, ∃ es, n ≤ ((State.start .root 2 fun _ => none).run listingImporter (listingServer true)
      es).requests.length := by
  have htrail : ∀ n, follow listingImporter (listingServer true) .root (List.replicate n 0) =
      some (if n % 2 = 0 then .root else .assets) := by
    intro n
    induction n with
    | zero => rfl
    | succ n ih =>
      rw [List.replicate_succ, follow, ih, Option.bind_some]
      rcases Nat.mod_two_eq_zero_or_one n with hn | hn
      · rw [if_pos hn, links_root, if_neg (by omega)]
        rfl
      · rw [if_neg (by omega), links_assets_up, if_pos (by omega)]
        rfl
  have hunbounded : ∀ n, ∃ es, n ≤ ((State.start .root 2 fun _ => none).run listingImporter
      (listingServer true) es).requests.length :=
    requests_unbounded fun n => ⟨List.replicate n 0, _, by simp, htrail n⟩
  refine ⟨⟨listingSite true, .head _, fun url _ => ?_⟩, fun h => ?_, hunbounded⟩
  · cases url <;> decide +kernel
  · obtain ⟨n, hn⟩ := (h 2 fun _ => none).1
    obtain ⟨es, hes⟩ := hunbounded (n + 1)
    exact absurd (hn es) (Nat.not_le.2 hes)

end HttpImport
