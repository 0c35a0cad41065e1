import S5.Fs.Proof.KeysRun
import S5.Fs.Proof.System
import S5.Fs.Symbolic
import S5.Lib.Run

/-!
# Everything below the root opens

In every run of a file system in which directories are saved when they are ready and no directory
takes the name of one that has gone to a shard, all that is stored below the root opens from the root's
context alone (`System.keys_closed`).
-/

open Std

namespace Fs

namespace System

variable {β : Type} {env : Env β} {taken : Bytes32 → Prop} {root : DirContext ActorId}
  {s : System β} {S S' : Sealing}

/-- All actors of the system are good under a store typing, and so is the root. -/
structure Good (env : Env β) (taken : Bytes32 → Prop) (root : DirContext ActorId) (S : Sealing)
    (s : System β) : Prop where
  world : S.Good env taken s.world
  rootGood : RootGood env S s.world root
  linked : LinkGood S root [] rootId root
  rootActor : ∃ a, s.actors[rootId]? = some a ∧ a.context = root
  actors : ∀ (i : ActorId) (a : DirActor), s.actors[i]? = some a → ActorGood S root s.actors i a

/-! ## Deliveries -/

theorem extends_modify (l : List DirActor) (i : ActorId) {f : DirActor → DirActor}
    (hf : ∀ a : DirActor, a.Grows (f a)) : Extends l (l.modify i f) := by
  intro c b hb
  rw [List.getElem?_modify, hb]
  by_cases hc : i = c
  · exact ⟨f b, by simp [hc], hf b⟩
  · exact ⟨b, by simp [hc], .refl b⟩

/-- Somebody gets a message or an answer. -/
theorem Good.modify (h : s.Good env taken root S) {i : ActorId} {f : DirActor → DirActor}
    (hf : ∀ a : DirActor, a.Grows (f a)) (hctx : ∀ a, (f a).context = a.context)
    (ha : ∀ a l, Extends s.actors l → ActorGood S root l i a → ActorGood S root l i (f a)) :
    (s.modify i f).Good env taken root S := by
  have he := extends_modify s.actors i hf
  refine ⟨h.world, h.rootGood, h.linked, ?_, fun j b hb => ?_⟩
  · obtain ⟨a, hroot, hc⟩ := h.rootActor
    show ∃ b, (s.actors.modify i f)[rootId]? = some b ∧ b.context = root
    rw [List.getElem?_modify, hroot]
    by_cases hi : i = rootId
    · exact ⟨f a, by simp [hi], (hctx a).trans hc⟩
    · exact ⟨a, by simp [hi], hc⟩
  · have hb' : (s.actors.modify i f)[j]? = some b := hb
    rw [List.getElem?_modify] at hb'
    obtain ⟨a, haj, rfl⟩ := Option.map_eq_some_iff.1 hb'
    have hg := (h.actors j a haj).mono (.refl S) he
    show ActorGood S root (s.actors.modify i f) j _
    by_cases hi : i = j
    · subst hi
      simpa using ha a _ he hg
    · simpa [hi] using hg

/-- What is delivered changes no actor that others know of. -/
structure Delivered (env : Env β) (taken : Bytes32 → Prop) (root : DirContext ActorId) (S : Sealing)
    (s s' : System β) : Prop where
  world : s'.world = s.world
  ext : Extends s.actors s'.actors
  good : s'.Good env taken root S

theorem Good.delivered (h : s.Good env taken root S) : Delivered env taken root S s s :=
  ⟨rfl, .refl _, h⟩

theorem Delivered.trans {s s' s'' : System β} (h : Delivered env taken root S s s')
    (h' : Delivered env taken root S s' s'') : Delivered env taken root S s s'' :=
  ⟨h'.world.trans h.world, h.ext.trans h'.ext, h'.good⟩

theorem grows_storeReply (path : DirHandlePath) (result : Except String (Option Hash))
    (a : DirActor) : a.Grows (storeReply path result a) ∧
      (storeReply path result a).context = a.context := by
  unfold storeReply
  split
  · exact ⟨DirActor.grows_of_eq rfl rfl rfl, rfl⟩
  · exact ⟨.refl a, rfl⟩

theorem Good.storeReply (h : s.Good env taken root S) {i : ActorId} {path : DirHandlePath}
    {result : Except String (Option Hash)}
    (ht : ∀ k, result = .ok (some k) → Tells S s.actors i path k) :
    Delivered env taken root S s (s.modify i (storeReply path result)) := by
  have hf := fun a => (grows_storeReply path result a).1
  refine ⟨rfl, extends_modify s.actors i hf,
    h.modify hf (fun a => (grows_storeReply path result a).2) fun a l he hg => ?_⟩
  unfold System.storeReply
  split
  · rename_i replies responder hph
    have hp := hg.phase
    unfold PhaseGood at hp
    rw [hph] at hp
    refine ⟨hg.sealed, hg.linked, hg.refs, fun p c hc => ?_, nofun, nofun, hg.unsplit, hg.mail, ?_,
      hp.2.1, hp.2.2⟩
    · have hc' : a.handleAt p = some c := by cases p <;> exact hc
      exact hg.children p c hc'
    · intro p k hm
      obtain ⟨⟨q, r⟩, hqr, heq⟩ := List.mem_map.1 hm
      obtain ⟨rfl, hres⟩ := Prod.mk.inj heq
      split at hres
      · rename_i hq
        subst hq
        exact (ht k (Option.some.inj hres)).mono (.refl S) he
      · subst hres
        exact hp.1 q k hqr
  · exact hg

theorem Good.storeMerged (h : s.Good env taken root S) (i : ActorId) (result : Except String Unit) :
    Delivered env taken root S s (s.modify i (storeMerged result)) := by
  have hf : ∀ a, a.Grows (System.storeMerged result a) ∧
      (System.storeMerged result a).context = a.context := by
    intro a
    unfold System.storeMerged
    split
    · exact ⟨DirActor.grows_of_eq rfl rfl rfl, rfl⟩
    · exact ⟨.refl a, rfl⟩
  refine ⟨rfl, extends_modify s.actors i fun a => (hf a).1,
    h.modify (fun a => (hf a).1) (fun a => (hf a).2) fun a l _ hg => ?_⟩
  unfold System.storeMerged
  split
  · rename_i hph
    have hp := hg.phase
    unfold PhaseGood at hp
    rw [hph] at hp
    exact hp.elim
  · exact hg

theorem Good.resume (h : s.Good env taken root S) (i : ActorId) :
    Delivered env taken root S s (s.modify i resume) := by
  have hsame : ∀ a, Turn.Same a (System.resume a) := by
    intro a
    unfold System.resume
    split
    · exact .of_eq rfl rfl rfl rfl rfl (.inr rfl)
    · exact .refl a
  exact ⟨rfl, extends_modify s.actors i fun a => (hsame a).grows,
    h.modify (fun a => (hsame a).grows) (fun a => (hsame a).context) fun a _ _ hg =>
      (hsame a).actorGood hg⟩

theorem Good.resumeAll : ∀ (waiting : List ActorId) {s : System β}, s.Good env taken root S →
    Delivered env taken root S s (waiting.foldl (fun s i => s.modify i System.resume) s)
  | [], _, h => h.delivered
  | i :: waiting, _, h => (h.resume i).trans (Good.resumeAll waiting (h.resume i).good)

theorem Good.enqueue (h : s.Good env taken root S) {i : ActorId} {msg : ActorMessage}
    (hm : MsgGood S s.actors i msg) : Delivered env taken root S s (s.enqueue i msg) := by
  have hf : ∀ a : DirActor, a.Grows { a with mailbox := a.mailbox ++ [msg] } :=
    fun a => DirActor.grows_of_eq rfl rfl rfl
  refine ⟨rfl, extends_modify s.actors i hf, h.modify hf (fun _ => rfl) fun a l he hg => ?_⟩
  refine ⟨hg.sealed, hg.linked, hg.refs, fun p c hc => ?_, fun hst p => ?_, hg.initial, hg.unsplit,
    fun m hmem => ?_, hg.phase⟩
  · have hc' : a.handleAt p = some c := by cases p <;> exact hc
    exact hg.children p c hc'
  · have := hg.unopened hst p
    cases p <;> exact this
  · rcases List.mem_append.1 hmem with hmem | hmem
    · exact hg.mail m hmem
    · rw [List.mem_singleton.1 hmem]
      exact hm.mono (.refl S) he

/-- Clients and answers are of no matter. -/
theorem Good.of_eq {s s' : System β} (h : s.Good env taken root S) (hw : s'.world = s.world)
    (ha : s'.actors = s.actors) : Delivered env taken root S s s' := by
  refine ⟨hw, ha ▸ .refl _, hw ▸ h.world, hw ▸ h.rootGood, h.linked, ha ▸ h.rootActor, ?_⟩
  rw [ha]
  exact h.actors

theorem Good.reply (h : s.Good env taken root S) {o : Output} (ho : OutGood S s.actors o) :
    Delivered env taken root S s (s.reply o) := by
  unfold System.reply
  split
  · exact h.of_eq rfl rfl
  · rename_i waiting request result
    have hr := h.resumeAll waiting
    dsimp only
    split
    · exact hr.trans (hr.good.of_eq rfl rfl)
    · exact hr.trans (hr.good.of_eq rfl rfl)
  · exact h.of_eq rfl rfl
  · rename_i i path result
    refine h.storeReply fun k hk => ?_
    subst hk
    exact ho
  · exact h.of_eq rfl rfl
  · exact h.storeMerged _ _
  · exact h.delivered

theorem Good.replies : ∀ (os : List Output) {s : System β}, s.Good env taken root S →
    (∀ o ∈ os, ∀ S l, OutGood S l o) → Delivered env taken root S s (os.foldl System.reply s)
  | [], _, h, _ => h.delivered
  | o :: os, _, h, ho => by
    have h1 := h.reply (ho o (.head _) S _)
    exact h1.trans (h1.good.replies os fun o' hm => ho o' (.tail _ hm))

theorem Good.emit (h : s.Good env taken root S) {o : Output} (ho : OutGood S s.actors o) :
    Delivered env taken root S s (s.emit o) := by
  unfold System.emit
  split
  · rename_i i msg
    split
    · exact h.replies _ fun o hm => Turn.outGood_dropped hm
    · exact h.enqueue ho
  · split
    · exact h.enqueue ho
    · exact h.delivered
  · exact h.reply ho

theorem Good.emits : ∀ (os : List Output) {s : System β}, s.Good env taken root S →
    (∀ o ∈ os, OutGood S s.actors o) → Delivered env taken root S s (os.foldl System.emit s)
  | [], _, h, _ => h.delivered
  | o :: os, _, h, ho => by
    have h1 := h.emit (ho o (.head _))
    refine h1.trans (h1.good.emits os fun o' hm => ?_)
    exact (ho o' (.tail _ hm)).mono (.refl S) h1.ext

theorem Good.submit (h : s.Good env taken root S) (handle : List String × ActorId)
    {request : Request} (hr : ∀ snapshot, request ≠ .mergeFromSnapshot snapshot) :
    Delivered env taken root S s (s.submit handle request) := by
  have h0 : Delivered env taken root S s { s with requests := s.requests + 1 } :=
    h.of_eq rfl rfl
  unfold System.submit
  dsimp only
  split
  case h_3 => split <;> exact h0.trans (h0.good.emit trivial)
  case h_9 => exact absurd rfl (hr _)
  all_goals exact h0.trans (h0.good.emit trivial)

/-! ## Turns -/

theorem actorsOf_turn {i : ActorId} {a : DirActor} (ha : s.actors[i]? = some a) :
    (s.turn i a).actorsOf s = s.actors := by
  obtain ⟨hlt, rfl⟩ := List.getElem?_eq_some_iff.1 ha
  show s.actors.set i s.actors[i] ++ [] = s.actors
  rw [List.append_nil, List.set_getElem_self hlt]

theorem Good.turn (h : s.Good env taken root S) {i : ActorId} {a : DirActor}
    (ha : s.actors[i]? = some a) : Turn.Good env taken root s S (s.turn i a) := by
  refine ⟨(List.getElem?_eq_some_iff.1 ha).1, rfl, h.world, h.rootGood, fun j b hb => ?_,
    List.forall_mem_nil _⟩
  rw [actorsOf_turn ha] at hb ⊢
  exact h.actors j b hb

/-- The turn of an actor with all that it sends. -/
theorem Good.commit (h : s.Good env taken root S) {i : ActorId} {a : DirActor}
    (ha : s.actors[i]? = some a) {t : Turn β} (ht : Turn.Goes env taken root s (s.turn i a) t)
    (hw : t.world.Sane env taken) :
    ∃ S', (s.commit t).Good env taken root S' ∧ (s.commit t).world = t.world := by
  obtain ⟨S', hle, hg⟩ := ht.good S (h.turn ha) hw
  have hsettle : (s.settle t).Good env taken root S' := by
    refine ⟨hg.world, hg.rootGood, h.linked.mono hle (.refl _), ?_, hg.actors⟩
    obtain ⟨r, hr, hc⟩ := h.rootActor
    show ∃ b, (t.actorsOf s)[rootId]? = some b ∧ b.context = root
    have hself : t.self = i := ht.forward.self
    by_cases hi : i = rootId
    · subst hi
      obtain rfl := Option.some.inj (ha.symm.trans hr)
      refine ⟨t.actor, hself ▸ Turn.getElem?_self (hself ▸ (List.getElem?_eq_some_iff.1 ha).1), ?_⟩
      refine (ht.forward.context ?_).trans hc
      -- a root is not linked to a parent
      have hlink : ∀ path p hash level, a.context.link ≠ .dirHandle path p hash level := by
        intro path p hash level hlink
        obtain ⟨-, b, hb, -⟩ := h.linked.parent_of_dirHandle (hc ▸ hlink)
        cases hb
      exact Turn.isRoot_of_ne hlink
    · refine ⟨r, ?_, hc⟩
      have hb : ((s.turn i a).actorsOf s)[rootId]? = some r := by
        rw [actorsOf_turn ha]
        exact hr
      exact Turn.getElem?_spawned hself ht.forward.spawned (Ne.symm hi) hb
  have hd := hsettle.emits t.out hg.out
  exact ⟨S', hd.good, hd.world⟩

/-! ## Events -/

section
variable [DecidableEq β]

/-- No snapshot is merged in, and actors go about their turns in order. -/
def Orderly (env : Env β) (s : System β) : Event → Prop
  | .request _ (.mergeFromSnapshot _) => False
  | .run i => ∀ a ∈ s.actors[i]?, (s.turn i a).Orderly env
  | .halt i => ∀ a ∈ s.actors[i]?,
    match a.phase, a.mailbox, s.held i with
    | .idle, [], false => a.dirty = true → a.Ready env
    | _, _, _ => True
  | _ => True

instance (env : Env β) (s : System β) : DecidablePred (s.Orderly env) := by
  intro e
  unfold Orderly
  split
  · infer_instance
  · infer_instance
  · refine @Option.decidableForallMem _ _ ?_ _
    intro a
    dsimp only
    split <;> infer_instance
  · infer_instance

omit [DecidableEq β] in
theorem Good.not_merging (h : s.Good env taken root S) {i : ActorId} {a : DirActor}
    (ha : s.actors[i]? = some a) : ¬ (s.turn i a).Merging := by
  have hg := h.actors i a ha
  rintro (⟨reply, rest, snapshot, responder, hph⟩ | ⟨-, snapshot, responder, rest, hm⟩)
  · have hp := hg.phase
    unfold PhaseGood at hp
    rw [show a.phase = _ from hph] at hp
    exact hp
  · refine hg.mail (.mergeSnapshot snapshot responder) ?_
    rw [show a.mailbox = _ from hm]
    exact .head _

omit [DecidableEq β] in
theorem good_opened {w : World β} (r : LocalRoot) (hw : S.Good env taken w)
    (hr : RootGood env S w root) (hl : LinkGood S root [] rootId root) :
    (opened root w r).Good env taken root S := by
  refine ⟨hw, hr, hl, ⟨_, rfl, rfl⟩, fun i b hb => ?_⟩
  obtain ⟨s', hs', -⟩ := hr
  cases i with
  | zero =>
    obtain rfl := Option.some.inj hb
    have he : Extends [] (opened root w r).actors := by
      intro c b hb
      simp at hb
    exact Turn.actorGood_new hs' (hl.mono (.refl S) he) none fun d hd => nomatch hd
  | succ n => exact nomatch hb

/-- **An orderly event** keeps all actors good, in a world in which it can. -/
theorem good_step (law : env.Lawful) (h : s.world.Sane env taken → ∃ S, s.Good env taken root S)
    {e : Event} (ho : s.Orderly env e) (hw : (s.step env e).world.Sane env taken) :
    ∃ S, (s.step env e).Good env taken root S := by
  cases e with
  | request handle request =>
    simp only [step] at hw ⊢
    split at hw
    · rename_i hmem
      rw [if_pos hmem]
      rw [(delivers_submit s handle request).world] at hw
      obtain ⟨S, hS⟩ := h hw
      refine ⟨S, (hS.submit handle ?_).good⟩
      rintro snapshot rfl
      exact ho
    · rename_i hmem
      rw [if_neg hmem]
      exact h hw
  | release handle =>
    obtain ⟨S, hS⟩ := h hw
    have hd : Delivered env taken root S s (s.step env (.release handle)) := hS.of_eq rfl rfl
    exact ⟨S, hd.good⟩
  | autosave i =>
    have hw' : s.world.Sane env taken := by
      have hd := (delivers_emit s (.notifyParent i .autosaveTick)).world
      exact hd ▸ hw
    obtain ⟨S, hS⟩ := h hw'
    have hd : Delivered env taken root S s (s.emit (.notifyParent i .autosaveTick)) :=
      hS.emit trivial
    exact ⟨S, hd.good⟩
  | run i =>
    simp only [step] at hw ⊢
    cases ha : s.actors[i]? with
    | none =>
      rw [ha] at hw
      exact h hw
    | some a =>
      rw [ha] at hw
      dsimp only at hw ⊢
      rw [commit_world] at hw
      by_cases hm : (s.turn i a).Merging
      · rw [Turn.world_run_merging hm] at hw
        obtain ⟨S, hS⟩ := h hw
        exact absurd hm (hS.not_merging ha)
      · have hgoes : Turn.Goes env taken root s (s.turn i a) ((s.turn i a).run env) :=
          Turn.goes_run law (ho a ha) hm
        obtain ⟨S, hS⟩ := h (hgoes.sane hw)
        obtain ⟨S', hS', -⟩ := hS.commit ha hgoes hw
        exact ⟨S', hS'⟩
  | halt i =>
    simp only [step] at hw ⊢
    cases ha : s.actors[i]? with
    | none =>
      rw [ha] at hw
      exact h hw
    | some a =>
      rw [ha] at hw
      have hready := ho a ha
      dsimp only at hw ⊢
      split at hw
      · rename_i hph hmail hheld
        rw [hph, hmail, hheld] at hready
        rw [commit_world] at hw
        have hgoes : Turn.Goes env taken root s (s.turn i a) ((s.turn i a).close env) :=
          Turn.goes_close law hph hready
        obtain ⟨S, hS⟩ := h (hgoes.sane hw)
        obtain ⟨S', hS', -⟩ := hS.commit ha hgoes hw
        exact ⟨S', hS'⟩
      · exact h hw
  | reopen =>
    simp only [step] at hw ⊢
    cases ha : s.actors[rootId]? with
    | none =>
      rw [ha] at hw
      exact h hw
    | some a =>
      rw [ha] at hw
      obtain ⟨S, hS⟩ := h hw
      obtain ⟨r, hr, hc⟩ := hS.rootActor
      obtain rfl := Option.some.inj (ha.symm.trans hr)
      have hopened := good_opened s.localRoot hS.world hS.rootGood hS.linked
      rw [← hc] at hopened ⊢
      have hd : Delivered env taken a.context S (opened a.context s.world s.localRoot)
          { opened a.context s.world s.localRoot with
            answers := s.answers, requests := s.requests } := hopened.of_eq rfl rfl
      exact ⟨S, hd.good⟩

end

/-! ## Whole runs -/

/-- The root of a new file system: an unencrypted local one, or one behind an unused registry key,
encrypted or not. -/
inductive NewRoot (env : Env β) (w : World β) (ctx : DirContext ActorId) : Prop where
  | localFile (b : β) (hlink : ctx.link = .localFile) (ht : ctx.encryptionType = none)
      (hb : w.rootFile = some b) (hd : env.fromBytes b = some .new)
  | registry (key : Bytes32) (signingKey : Option Bytes32) (s : Seal)
      (hlink : ctx.link = .registryKey key signingKey) (hs : ctx.Sealed s)
      (hn : w.registry[key]? = none)

/-- The registry keys that are not free for new directories: those in use and the root's. -/
def Taken (w : World β) (ctx : DirContext ActorId) (key : Bytes32) : Prop :=
  w.registry[key]?.isSome = true ∨ ∃ signingKey, ctx.link = .registryKey key signingKey

theorem good_new {w : World β} {ctx : DirContext ActorId} (r : LocalRoot)
    (h : NewRoot env w ctx) : ∃ S, (opened ctx w r).Good env (Taken w ctx) ctx S := by
  cases h with
  | localFile b hlink ht hb hd =>
    refine ⟨fun _ _ => False, good_opened r ⟨nofun, nofun, nofun, fun k hk => .inl (.inl hk)⟩ ?_ ?_⟩
    · exact ⟨none, ht, .inr ⟨hlink, rfl, b, .new, hb, hd, refs_new none⟩⟩
    · unfold LinkGood
      rw [hlink]
  | registry key signingKey s hlink hs hn =>
    refine ⟨fun s' l => s' = s ∧ l = .pointer key, good_opened r ⟨?_, ?_, ?_, ?_⟩ ?_ ?_⟩
    · rintro _ _ ⟨rfl, rfl⟩
      exact ⟨.new, by simp [World.stored, hn], refs_new _⟩
    · rintro _ _ _ ⟨rfl, -⟩ ⟨rfl, -⟩
      rfl
    · rintro _ k ⟨-, hk⟩
      exact .inl (.inr ⟨signingKey, Loc.pointer.inj hk ▸ hlink⟩)
    · exact fun k hk => .inl (.inl hk)
    · exact ⟨s, hs, .inl ⟨.pointer key, by simp [DirContext.loc, hlink], rfl, rfl⟩⟩
    · unfold LinkGood
      rw [hlink]
      exact ⟨hs.sealOf_eq, rfl⟩

variable (env)

/-- Everything stored below the root can be opened from the root's context. -/
def KeysClosed (ctx : DirContext ActorId) (s : System β) : Prop :=
  ∀ c, Descendant env s.world rootId ctx c → ∃ d n, load env c s.world = .ok (d, n)

/-- **Everything below the root of a new file system opens** in every run in which no snapshot is
merged in, actors are ready when they save, and no directory takes the name of one that has gone to a
shard. -/
theorem keys_closed [DecidableEq β] (law : env.Lawful) (ctx : DirContext ActorId) (w : World β)
    (r : LocalRoot) (events : List Event) (hnew : NewRoot env w ctx)
    (ho : Run.Steps (step env) (Orderly env) (opened ctx w r) events) :
    Run.Always (step env) (fun s => s.world.Sane env (Taken w ctx) → KeysClosed env ctx s)
      (opened ctx w r) events := by
  have hinv : Run.Always (step env)
      (fun s => s.world.Sane env (Taken w ctx) → ∃ S, s.Good env (Taken w ctx) ctx S)
      (opened ctx w r) events :=
    Run.always_of_steps (fun s e h hc => good_step law h hc) (fun _ => good_new r hnew) ho
  intro pre hpre hw c hc
  obtain ⟨S, hS⟩ := hinv pre hpre hw
  obtain ⟨s, d, n, -, hl, -⟩ := load_descendant hS.world hS.rootGood hc
  exact ⟨d, n, hl⟩

/-! ### A directory that is split -/

/-- Symbolic bytes with another length and hash: a directory with an entry "big" is large, and
ciphertexts are told apart by their nonces. -/
def bigEnv : Env Sym where
  __ := symbolic xxh3Short
  len
    | .plain d => if "big" ∈ d.files then 70000 else 64
    | .sealed _ _ _ => 0
  blake3
    | .plain d => BitVec.ofNat 256 (Sym.plain d).digest
    | .sealed _ nonce _ => BitVec.ofNat 256 (nonce.toNat + 1)

theorem bigEnv_lawful : bigEnv.Lawful :=
  ⟨fun _ => rfl, (symbolic_lawful xxh3Short).decrypt_encrypt⟩

def encryptedRoot : DirContext ActorId := .newEncryptedRegistry 0 0 0

/-- A directory "d" and a large file in an encrypted root, which is saved, opened again and saved with
one more file. -/
def splitRun (enableEncryption : Bool) : List Event :=
  [.run 0, .request ([], 0) (.createDir "d" enableEncryption), .run 0, .run 1,
    .request ([], 0) (.fileOp "big" (.put (.new 1 1))), .run 0, .run 0,
    .request ([], 0) .save, .run 0, .run 1, .run 1, .run 0, .reopen, .run 0,
    .request ([], 0) (.fileOp "x" (.put (.new 1 1))), .run 0, .run 0,
    .request ([], 0) .save, .run 0, .run 1, .run 2, .run 3, .run 1, .run 2, .run 3, .run 0]

/-- The system after such a run. -/
def afterSplit (enableEncryption : Bool) : System Sym :=
  (splitRun enableEncryption).foldl (step bigEnv) (opened encryptedRoot emptyWorld ⟨.new, none, false⟩)

theorem newRoot_encrypted : NewRoot bigEnv emptyWorld encryptedRoot :=
  .registry 0 (some 0) (some 0) rfl ⟨rfl, rfl⟩ rfl

theorem sane_bigEnv {w : World Sym} (hc : w.collided = false) (hz : w.store[(0 : Hash)]? = none)
    (ht : w.tick < 100) : w.Sane bigEnv (Taken emptyWorld encryptedRoot) := by
  have hrandom : ∀ n < 100, (bigEnv.random n).toNat = n + 1 := by
    intro n hn
    show (BitVec.ofNat 256 (n + 1)).toNat = n + 1
    rw [BitVec.toNat_ofNat]
    omega
  refine ⟨hc, hz, fun m n hmn hn he => ?_, fun n hn htaken => ?_⟩
  · have := congrArg BitVec.toNat he
    rw [hrandom m (by omega), hrandom n (by omega)] at this
    omega
  · rcases htaken with hreg | ⟨sk, hlink⟩
    · cases hreg
    · have hzero : bigEnv.random n = 0 := (DirContextParentLink.registryKey.inj hlink).1.symm
      have := congrArg BitVec.toNat hzero
      rw [hrandom n (by omega)] at this
      cases this

/-- The root is split, and "d", which has a key of its own, opens. -/
theorem keys_closed_split : KeysClosed bigEnv encryptedRoot (afterSplit true) := by
  refine keys_closed bigEnv bigEnv_lawful encryptedRoot emptyWorld _ (splitRun true)
    newRoot_encrypted ?_ (splitRun true) List.prefix_rfl (sane_bigEnv ?_ ?_ ?_)
  all_goals decide +kernel

/-- The root is split, and "d", which shared its key, lies below a shard with another one. -/
theorem inherited_key_lost :
    ¬ Run.Always (step bigEnv) (fun s => s.world.Sane bigEnv (Taken emptyWorld encryptedRoot) →
      KeysClosed bigEnv encryptedRoot s) (opened encryptedRoot emptyWorld ⟨.new, none, false⟩)
      (splitRun false) := by
  intro h
  have hclosed : KeysClosed bigEnv encryptedRoot (afterSplit false) := by
    refine h (splitRun false) List.prefix_rfl (sane_bigEnv ?_ ?_ ?_)
    all_goals decide +kernel
  have hlost : (descend bigEnv (afterSplit false).world rootId [.shard 202, .path "d"]
      encryptedRoot).any fun c => !(load bigEnv c (afterSplit false).world).isOk := by
    decide +kernel
  obtain ⟨c, hc, hl⟩ := (Option.any_eq_true _ _).1 hlost
  obtain ⟨d, n, hload⟩ := hclosed c (descendant_descend bigEnv _ .root hc)
  rw [hload] at hl
  exact nomatch hl

end System

end Fs
