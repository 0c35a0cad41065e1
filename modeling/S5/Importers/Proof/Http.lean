import S5.Importers.Http
import Mathlib.Data.List.ProdSigma
import Mathlib.Data.List.Nodup

/-!
# What a crawl requests

Every call of a crawl has come along a trail of links of its own, and no call sends a request twice
(`Traced`).

* `Traced.fetches_le_one`, `Traced.length_requests`: where no URL can be reached along two trails
  (`OneTrail`), a body is fetched once at most, and there are two requests for a URL at most.
-/

namespace HttpImport

open Fs

variable {Url : Type} [DecidableEq Url]

section
variable (imp : HttpImporter Url) (server : Server Url)

/-- The links of a URL that are followed. -/
def links (url : Url) : List Url :=
  match server.get url with
  | .ok res => if HttpImporter.isPage res then imp.urlsToVisit url res else []
  | .error _ => []

/-- Where a trail leads. -/
def follow (start : Url) : Trail → Option Url
  | [] => some start
  | i :: t => (follow start t).bind fun url => (links imp server url)[i]?

/-- Finitely many URLs with any links among them, and a server that answers. -/
structure FiniteSite where
  urls : List Url
  head_ok : ∀ url ∈ urls, ∃ head, server.head url = .ok head
  get_ok : ∀ url ∈ urls, ∃ res, server.get url = .ok res
  closed : ∀ url ∈ urls, ∀ link ∈ links imp server url, link ∈ urls

/-- Whatever is stored already, however many permits there are and in which order its calls go on: a
crawl makes finitely many requests, and fetches every body once at most. -/
def CrawlsOnce (start : Url) : Prop :=
  ∀ (permits : Nat) (files : String → Option FileRef),
    (∃ n, ∀ es, ((State.start start permits files).run imp server es).requests.length ≤ n) ∧
      ∀ es url, ((State.start start permits files).run imp server es).fetches url ≤ 1

end

variable {imp : HttpImporter Url} {server : Server Url} {start : Url}

theorem FiniteSite.follow_mem (site : FiniteSite imp server) (hstart : start ∈ site.urls) {t : Trail}
    {url : Url} (h : follow imp server start t = some url) : url ∈ site.urls := by
  induction t generalizing url with
  | nil =>
    obtain rfl := Option.some.inj h
    exact hstart
  | cons i t ih =>
    obtain ⟨parent, hparent, hlink⟩ := Option.bind_eq_some_iff.1 h
    exact site.closed parent (ih hparent) url (List.mem_of_getElem? hlink)

/-! ## Calls and trails -/

/-- A call may have sent such a request. -/
def Phase.Past : Phase → Method → Prop
  | .queued, _ => False
  | .permitted, _ => False
  | .comparing _, _ => False
  | .fetching, m => m = .head
  | .page, _ => True
  | .storing _, _ => True
  | .finished, _ => True

namespace State

/-- Calls and requests are at the ends of trails, and no call sends a request twice. -/
structure Traced (imp : HttpImporter Url) (server : Server Url) (start : Url) (s : State Url) : Prop where
  follow : ∀ t c, s.calls t = some c → follow imp server start t = some c.url
  parent : ∀ i t, s.calls (i :: t) ≠ none → ∃ url, s.calls t = some ⟨url, .page⟩
  sent : ∀ r ∈ s.requests, HttpImport.follow imp server start r.call = some r.url
  past : s.failed = false → ∀ r ∈ s.requests, ∃ c, s.calls r.call = some c ∧ c.phase.Past r.method
  nodup : (s.requests.map fun r => (r.call, r.method)).Nodup

variable {s s' : State Url}

theorem Traced.of_eq (h : Traced imp server start s) (hcalls : s'.calls = s.calls)
    (hrequests : s'.requests = s.requests) (hfailed : s'.failed = s.failed) :
    Traced imp server start s' where
  follow := hcalls ▸ h.follow
  parent := hcalls ▸ h.parent
  sent := hrequests ▸ h.sent
  past := by
    rw [hcalls, hrequests, hfailed]
    exact h.past
  nodup := hrequests ▸ h.nodup

theorem traced_start (permits : Nat) (files : String → Option FileRef) :
    Traced imp server start (State.start start permits files) where
  follow t c hc := by
    simp only [State.start, Function.update_apply] at hc
    split at hc
    · rename_i ht
      obtain rfl := Option.some.inj hc
      rw [ht]
      rfl
    · cases hc
  parent i t hc := absurd (by simp [State.start]) hc
  sent := List.forall_mem_nil _
  past _ := List.forall_mem_nil _
  nodup := List.nodup_nil

theorem Traced.fail (h : Traced imp server start s) (hs : s'.calls = s.calls) (hf : s'.failed = true)
    (hsent : ∀ r ∈ s'.requests, HttpImport.follow imp server start r.call = some r.url)
    (hnodup : (s'.requests.map fun r => (r.call, r.method)).Nodup) : Traced imp server start s' where
  follow := hs ▸ h.follow
  parent := hs ▸ h.parent
  sent := hsent
  past hno := absurd (hf.symm.trans hno) (by simp)
  nodup := hnodup

omit [DecidableEq Url] in
theorem calls_move (t p : Trail) (url : Url) (phase : Phase) :
    (s.move t url phase).calls p = if p = t then some ⟨url, phase⟩ else s.calls p := by
  simp [move, Function.update_apply]

omit [DecidableEq Url] in
theorem calls_move_self (t : Trail) (url : Url) (phase : Phase) :
    (s.move t url phase).calls t = some ⟨url, phase⟩ :=
  (calls_move ..).trans (if_pos rfl)

theorem Traced.move {t : Trail} {url : Url} {phase phase' : Phase} (h : Traced imp server start s)
    (hc : s.calls t = some ⟨url, phase⟩) (hpage : phase ≠ .page)
    (hpast : ∀ m, phase.Past m → phase'.Past m) : Traced imp server start (s.move t url phase') where
  follow p c hp := by
    rw [calls_move] at hp
    split at hp
    · rename_i he
      obtain rfl := Option.some.inj hp
      have hfollow := h.follow t _ hc
      rw [he]
      exact hfollow
    · exact h.follow p c hp
  parent i p hp := by
    have hp' : s.calls (i :: p) ≠ none := by
      rw [calls_move] at hp
      split at hp
      · rename_i he
        rw [he, hc]
        simp
      · exact hp
    obtain ⟨url', hparent⟩ := h.parent i p hp'
    refine ⟨url', ?_⟩
    rw [calls_move, if_neg]
    · exact hparent
    · rintro rfl
      rw [hc, Option.some.injEq, Call.mk.injEq] at hparent
      exact hpage hparent.2
  sent := h.sent
  past hno r hr := by
    obtain ⟨c, hcall, hpast'⟩ := h.past hno r hr
    rw [calls_move]
    split
    · rename_i he
      rw [he, hc] at hcall
      obtain rfl := Option.some.inj hcall
      exact ⟨_, rfl, hpast _ hpast'⟩
    · exact ⟨c, hcall, hpast'⟩
  nodup := h.nodup

/-- A request that a call had not sent. -/
theorem Traced.request_nodup {t : Trail} {url : Url} {phase : Phase} {m : Method}
    (h : Traced imp server start s) (hf : s.failed = false) (hc : s.calls t = some ⟨url, phase⟩)
    (hnot : ¬ phase.Past m) :
    ((s.request t m url).requests.map fun r => (r.call, r.method)).Nodup := by
  rw [request, List.map_append, List.map_singleton, List.nodup_append]
  refine ⟨h.nodup, List.nodup_singleton _, fun a ha b hb => ?_⟩
  obtain ⟨r, hr, rfl⟩ := List.mem_map.1 ha
  obtain rfl := List.mem_singleton.1 hb
  intro he
  obtain ⟨hcall, hmethod⟩ := Prod.mk.inj he
  obtain ⟨c, hcall', hpast⟩ := h.past hf r hr
  rw [hcall, hc] at hcall'
  obtain rfl := Option.some.inj hcall'
  have hm : r.method = m := hmethod
  exact hnot (hm ▸ hpast)

theorem Traced.request_sent {t : Trail} {url : Url} {phase : Phase} (m : Method)
    (h : Traced imp server start s) (hc : s.calls t = some ⟨url, phase⟩) :
    ∀ r ∈ (s.request t m url).requests, HttpImport.follow imp server start r.call = some r.url := by
  intro r hr
  rcases List.mem_append.1 hr with hr | hr
  · exact h.sent r hr
  · obtain rfl := List.mem_singleton.1 hr
    exact h.follow t _ hc

theorem Traced.moveRequest {t : Trail} {url : Url} {phase phase' : Phase} {m : Method}
    (h : Traced imp server start s) (hf : s.failed = false) (hc : s.calls t = some ⟨url, phase⟩)
    (hpage : phase ≠ .page) (hnot : ¬ phase.Past m) (hnew : phase'.Past m)
    (hpast : ∀ m, phase.Past m → phase'.Past m) :
    Traced imp server start ((s.request t m url).move t url phase') where
  follow := (h.move hc hpage hpast).follow
  parent := (h.move hc hpage hpast).parent
  sent := h.request_sent m hc
  past hno r hr := by
    rcases List.mem_append.1 hr with hr | hr
    · exact (h.move hc hpage hpast).past hno r hr
    · obtain rfl := List.mem_singleton.1 hr
      exact ⟨⟨url, phase'⟩, calls_move_self .., hnew⟩
  nodup := h.request_nodup hf hc hnot

omit [DecidableEq Url] in
theorem calls_spawn_cons (t q : Trail) (i : Nat) (urls : List Url) :
    (s.spawn t urls).calls (i :: q) =
      if q = t then (urls[i]?).map (⟨·, .queued⟩) else s.calls (i :: q) := rfl

omit [DecidableEq Url] in
theorem calls_spawn_of_ne {t p : Trail} {urls : List Url} (h : ∀ i, p ≠ i :: t) :
    (s.spawn t urls).calls p = s.calls p := by
  cases p with
  | nil => rfl
  | cons i q =>
    rw [calls_spawn_cons, if_neg]
    rintro rfl
    exact h i rfl

theorem Traced.spawn {t : Trail} {url : Url} (h : Traced imp server start s)
    (hc : s.calls t = some ⟨url, .page⟩) (hnone : ∀ i, s.calls (i :: t) = none) :
    Traced imp server start (s.spawn t (links imp server url)) := by
  have hself : (s.spawn t (links imp server url)).calls t = some ⟨url, .page⟩ := by
    rw [calls_spawn_of_ne fun i => List.ne_cons_self, hc]
  have hold : ∀ p c, s.calls p = some c → (s.spawn t (links imp server url)).calls p = some c := by
    intro p c hp
    rw [calls_spawn_of_ne, hp]
    rintro i rfl
    rw [hnone] at hp
    cases hp
  constructor
  · intro p c hp
    cases p with
    | nil => exact h.follow [] c hp
    | cons i q =>
      rw [calls_spawn_cons] at hp
      split at hp
      · rename_i hq
        obtain ⟨link, hlink, rfl⟩ := Option.map_eq_some_iff.1 hp
        rw [hq, HttpImport.follow, h.follow t _ hc, Option.bind_some, hlink]
      · exact h.follow _ c hp
  · intro i p hp
    rw [calls_spawn_cons] at hp
    split at hp
    · rename_i hq
      rw [hq]
      exact ⟨url, hself⟩
    · obtain ⟨url', hparent⟩ := h.parent i p hp
      exact ⟨url', hold p _ hparent⟩
  · exact h.sent
  · intro hno r hr
    obtain ⟨c, hcall, hpast⟩ := h.past hno r hr
    exact ⟨c, hold _ c hcall, hpast⟩
  · exact h.nodup

theorem links_of_page {url : Url} {res : Response} (hget : server.get url = .ok res)
    (hp : HttpImporter.isPage res = true) : links imp server url = imp.urlsToVisit url res := by
  rw [links, hget]
  exact if_pos hp

theorem Traced.advance (h : Traced imp server start s) (hf : s.failed = false) {t : Trail} {url : Url}
    {phase : Phase} (hc : s.calls t = some ⟨url, phase⟩) (o : Outcome) :
    Traced imp server start (s.advance imp server t url o phase) := by
  have hchild : phase ≠ .page → ∀ i, s.calls (i :: t) = none := by
    intro hne i
    by_contra hsome
    obtain ⟨url', hparent⟩ := h.parent i t hsome
    rw [hc, Option.some.injEq, Call.mk.injEq] at hparent
    exact hne hparent.2
  cases phase with
  | queued =>
    rw [State.advance]
    split
    · exact h
    · have htaken : Traced imp server start { s with free := s.free - 1 } := h.of_eq rfl rfl rfl
      exact htaken.move hc (by simp) fun m => id
  | permitted =>
    rw [State.advance]
    cases s.fileGet (imp.keyForUrl url) with
    | none => exact h.move hc (by simp) fun m => False.elim
    | some current => exact h.move hc (by simp) fun m => id
  | comparing current =>
    have hfinished : Traced imp server start ((s.request t .head url).move t url .finished) :=
      h.moveRequest hf hc (by simp) id trivial fun m => False.elim
    rw [State.advance]
    cases server.head url with
    | error e =>
      cases e with
      | send => exact h.fail rfl rfl (h.request_sent .head hc) (h.request_nodup hf hc id)
      | status code => exact hfinished.of_eq rfl rfl rfl
    | ok head =>
      dsimp only
      split
      · exact h.moveRequest hf hc (by simp) id rfl fun m => False.elim
      · exact hfinished.of_eq rfl rfl rfl
  | fetching =>
    have hnot : ¬ Phase.fetching.Past .get := fun he => by cases he
    rw [State.advance]
    cases hget : server.get url with
    | error e => exact h.fail rfl rfl (h.request_sent .get hc) (h.request_nodup hf hc hnot)
    | ok res =>
      dsimp only
      split
      · rename_i hpage
        have hmoved : Traced imp server start ((s.request t .get url).move t url .page) :=
          h.moveRequest hf hc (by simp) hnot trivial fun m _ => trivial
        have hreleased : Traced imp server start ((s.request t .get url).move t url .page).release :=
          hmoved.of_eq rfl rfl rfl
        rw [← links_of_page hget hpage]
        refine hreleased.spawn ?_ fun i => ?_
        · exact calls_move_self ..
        · exact ((calls_move ..).trans (if_neg (List.cons_ne_self _ _))).trans (hchild (by simp) i)
      · exact h.moveRequest hf hc (by simp) hnot trivial fun m _ => trivial
  | page => exact h
  | storing res =>
    rw [State.advance]
    split
    · exact h.fail rfl rfl h.sent h.nodup
    · have hput : Traced imp server start (s.filePut (imp.keyForUrl url) (imp.fileRef res o.now)) :=
        h.of_eq rfl rfl rfl
      have hmoved : Traced imp server start
          ((s.filePut (imp.keyForUrl url) (imp.fileRef res o.now)).move t url .finished) :=
        hput.move hc (by simp) fun m _ => trivial
      exact hmoved.of_eq rfl rfl rfl
  | finished => exact h

/-- **One step**: the call that goes on is traced. -/
theorem Traced.step (h : Traced imp server start s) (e : Trail × Outcome) :
    Traced imp server start (s.step imp server e) := by
  unfold State.step
  cases hf : s.failed with
  | true => exact h
  | false =>
    rw [if_neg (by simp)]
    cases hc : s.calls e.1 with
    | none => exact h
    | some c => exact h.advance hf hc e.2

/-- **Every run** is traced. -/
theorem Traced.run (h : Traced imp server start s) (es : List (Trail × Outcome)) :
    Traced imp server start (s.run imp server es) := by
  induction es generalizing s with
  | nil => exact h
  | cons e es ih => exact ih (h.step e)

/-! ## One trail for every URL -/

/-- No URL can be reached along two trails. -/
def OneTrail (imp : HttpImporter Url) (server : Server Url) (start : Url) : Prop :=
  ∀ p q url, HttpImport.follow imp server start p = some url →
    HttpImport.follow imp server start q = some url → p = q

theorem countP_le_one {α β : Type} [DecidableEq β] {f : α → β} {P : α → Bool} {l : List α}
    (hnodup : (l.map f).Nodup) (heq : ∀ a ∈ l, ∀ b ∈ l, P a = true → P b = true → f a = f b) :
    l.countP P ≤ 1 := by
  induction l with
  | nil => simp
  | cons a l ih =>
    obtain ⟨hnot, hnodup⟩ := List.nodup_cons.1 hnodup
    have htail := ih hnodup fun x hx y hy => heq x (.tail _ hx) y (.tail _ hy)
    by_cases ha : P a = true
    · -- the others that count are all `a`
      have hzero : l.countP P = 0 := by
        rw [List.countP_eq_zero]
        intro b hb hP
        exact hnot (heq a (.head _) b (.tail _ hb) ha hP ▸ List.mem_map_of_mem hb)
      rw [List.countP_cons_of_pos ha, hzero]
    · rw [List.countP_cons_of_neg ha]
      exact htail

theorem Traced.fetches_le_one (h : Traced imp server start s) (hone : OneTrail imp server start)
    (url : Url) : s.fetches url ≤ 1 := by
  refine countP_le_one h.nodup fun a ha b hb hPa hPb => ?_
  simp only [decide_eq_true_eq] at hPa hPb
  have hfa := h.sent a ha
  have hfb := h.sent b hb
  rw [hPa.2] at hfa
  rw [hPb.2] at hfb
  rw [hone _ _ _ hfa hfb, hPa.1, hPb.1]

/-- A HEAD and a GET for every URL. -/
theorem Traced.length_requests (h : Traced imp server start s) (hone : OneTrail imp server start)
    (site : FiniteSite imp server) (hstart : start ∈ site.urls) :
    s.requests.length ≤ site.urls.length * 2 := by
  have hnodup : (s.requests.map fun r => (r.url, r.method)).Nodup := by
    refine (List.Nodup.of_map _ h.nodup).map_on fun a ha b hb he => ?_
    obtain ⟨hurl, hmethod⟩ := Prod.mk.inj he
    have hcall : a.call = b.call := hone _ _ _ (h.sent a ha) (hurl ▸ h.sent b hb)
    obtain ⟨ca, ma, ua⟩ := a
    obtain ⟨cb, mb, ub⟩ := b
    exact Request.mk.injEq .. |>.mpr ⟨hcall, hmethod, hurl⟩
  have hsub : (s.requests.map fun r => (r.url, r.method)) ⊆ site.urls ×ˢ [Method.head, Method.get] := by
    intro x hx
    obtain ⟨r, hr, rfl⟩ := List.mem_map.1 hx
    refine List.mem_product.2 ⟨site.follow_mem hstart (h.sent r hr), ?_⟩
    cases r.method <;> simp
  have hle := (hnodup.subperm hsub).length_le
  rwa [List.length_map, List.length_product] at hle

end State

end HttpImport
