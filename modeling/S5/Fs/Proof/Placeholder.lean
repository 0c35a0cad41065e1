import S5.Fs.Proof.StoredRun
import S5.Fs.Proof.Replaced

/-!
# When the placeholder of a new directory is stored

A new directory is first referred to by a hash of zeros, until its child has saved itself and its
parent has taken the report (`build_child_dir_ref`). Nothing in the source makes a save wait for that.

* `System.nothing_dangles`: in every run in which no directory is written before the first hash of a
  new subdirectory has arrived, and none of these hashes gets lost, every directory that is stored
  refers to stored blobs only.
-/

open Std

namespace Fs

namespace System

variable {β : Type}

/-! ## The condition -/

/-- The actor has still to save its directory for the first time. -/
def startsNew (a : DirActor) : Bool :=
  match a.phase with
  | .starting (some _) => true
  | _ => false

/-- The reference under a name is a placeholder, and the first hash of its child is still to come:
the child has not started yet, or its report waits. -/
def awaits (s : System β) (a : DirActor) (name : String) : Bool :=
  (a.state.dirs[name]?.any fun r => r.loc (.path name) = .blob 0) &&
    (((a.handleAt (.path name)).bind (s.actors[·]?)).any startsNew ||
      a.mailbox.any fun msg => reportedName msg = some name)

def noneAwaited (s : System β) (a : DirActor) : Bool :=
  a.state.dirs.keys.all fun name => !s.awaits a name

/-- The child at a name has answered a save with a hash. -/
def answered (replies : List (DirHandlePath × Option (Except String (Option Hash)))) (name : String) :
    Bool :=
  replies.any fun reply => reply.1 = .path name && match reply.2 with
    | some (.ok (some _)) => true
    | _ => false

/-- A context has the key that it saves with, and the blob store takes what it saves now. -/
def accepts (env : Env β) (ctx : DirContext ActorId) (w : World β) : Bool :=
  match ctx.encryptionType with
  | none => !env.storeFails w.tick
  | some t => decide (t = encryptionTypeXChaCha20Poly1305) && ctx.keys[keySlot]?.isSome &&
    !env.storeFails (w.tick + 1)

/-- If the actor writes its directory next, no first hash is still to come but those that have been
answered. If it starts on a new directory, its first hash gets to its parent. -/
def inTime [DecidableEq β] (env : Env β) (s : System β) (i : ActorId) (a : DirActor) : Bool :=
  match a.phase, a.mailbox with
  | .starting (some _), _ => accepts env a.context s.world &&
    a.context.parent.all fun place => s.held place.2 || s.closed place.2
  | .idle, .saveIfDirty _ :: _ =>
    !((a.dirty || (s.turn i a).isRoot) && decide (a.Splits env)) || s.noneAwaited a
  | .idle, .autosaveTick :: _ => !a.dirty || s.noneAwaited a
  | .idle, .exportSnapshotHash _ :: _ => s.noneAwaited a
  | .idle, .createSnapshot _ :: _ => !a.context.isLocal || s.noneAwaited a
  | .saving replies _, _ => !replies.all (·.2.isSome) ||
    a.state.dirs.keys.all fun name => !s.awaits a name || answered replies name
  | _, _ => true

/-- The same for the end of the run loop. -/
def closesInTime (s : System β) (i : ActorId) (a : DirActor) : Bool :=
  match a.phase, a.mailbox, s.held i with
  | .idle, [], false => !a.dirty || s.noneAwaited a
  | _, _, _ => true

/-- No snapshot is merged in, every new directory gets a child, and no directory is written before the
first hashes of its new subdirectories are in. -/
def firstHashFirst [DecidableEq β] (env : Env β) (s : System β) : Event → Bool
  | .request _ (.mergeFromSnapshot _) => false
  | .run i => s.actors[i]?.all fun a => s.inTime env i a && (s.turn i a).newChildren env
  | .halt i => s.actors[i]?.all fun a => s.closesInTime i a
  | _ => true

/-! ## What is still to come -/

/-- As `awaits`, with the child's side of it. -/
def Awaits (s : System β) (i : ActorId) (a : DirActor) (name : String) : Prop :=
  (∃ c b d, a.handleAt (.path name) = some c ∧ s.actors[c]? = some b ∧
    b.phase = .starting (some d) ∧ b.context.parent = some (.path name, i)) ∨
  ∃ h, .updateDirRefHash (.path name) h ∈ a.mailbox

/-- The first hash of every placeholder is still to come. -/
def Pending (s : System β) : Prop :=
  ∀ (i : ActorId) (a : DirActor) (name : String) (r : DirRef), s.actors[i]? = some a →
    isStopped a = false → a.state.dirs[name]? = some r → r.loc (.path name) = .blob 0 →
    0 ∈ s.world.store ∨ s.Awaits i a name

variable {s s' : System β} {i : ActorId} {a a' : DirActor}

theorem awaits_of_awaits {name : String} {r : DirRef} (hr : a.state.dirs[name]? = some r)
    (hz : r.loc (.path name) = .blob 0) (h : s.Awaits i a name) : s.awaits a name = true := by
  unfold awaits
  rw [Bool.and_eq_true, Bool.or_eq_true]
  refine ⟨by simp [hr, hz], ?_⟩
  rcases h with ⟨c, b, d, hc, hb, hp, -⟩ | ⟨k, hk⟩
  · left
    simp [hc, hb, startsNew, hp]
  · right
    exact List.any_eq_true.2 ⟨_, hk, by simp [reportedName]⟩

/-- A directory of whose subdirectories none is awaited is whole. -/
theorem Pending.has {env : Env β} (h : s.Pending) (hf : s.Filled env) (ha : s.actors[i]? = some a)
    (hs : isStopped a = false) (hn : s.noneAwaited a = true) : s.world.Has a.state := by
  intro path r k hr hloc
  rcases (hf.actors a (List.mem_of_getElem? ha)).refs path r k hr hloc with hk | ⟨rfl, name, rfl⟩
  · exact hk
  · have hdir : a.state.dirs[name]? = some r := hr
    rcases h i a name r ha hs hdir hloc with hz | hawait
    · exact hz
    · have hmem : name ∈ a.state.dirs.keys := by
        rw [ExtTreeMap.mem_keys, ExtTreeMap.mem_iff_isSome_getElem?, hdir]
        rfl
      have hnot := List.all_eq_true.1 hn name hmem
      rw [awaits_of_awaits hdir hloc hawait] at hnot
      cases hnot

theorem hash_of_loc {r : DirRef} {name : String} {k : Hash} (h : r.loc (.path name) = .blob k) :
    r.hash = k := by
  unfold DirRef.loc at h
  dsimp only at h
  split at h
  · exact Loc.blob.inj h
  · cases h

/-- A reference whose child has answered has one of the hashes that it has been answered with. -/
theorem takeReplies_told {name : String} :
    ∀ (replies : List (DirHandlePath × Option (Except String (Option Hash)))) {a : DirActor}
      {r : DirRef}, (∃ k, (.path name, some (.ok (some k))) ∈ replies) →
      (replies.foldl Turn.takeReply a).state.dirs[name]? = some r →
      (.path name, some (.ok (some r.hash))) ∈ replies
  | [], _, _, ⟨_, hk⟩, _ => absurd hk List.not_mem_nil
  | reply :: replies, a, r, hk, hr => by
    by_cases hrest : ∃ k, (.path name, some (.ok (some k))) ∈ replies
    · exact .tail _ (takeReplies_told replies hrest hr)
    · obtain ⟨k, hk⟩ := hk
      rcases List.mem_cons.1 hk with rfl | hk
      · -- no later answer changes what this one has put in
        obtain ⟨r1, hr1, he⟩ := Turn.takeReplies_dirs name replies _ hr
        obtain rfl : r = r1 := by
          rcases he with he | ⟨k', hk', -⟩
          · exact he
          · exact absurd ⟨k', hk'⟩ hrest
        have hhash : r.hash = k := by
          unfold Turn.takeReply at hr1
          dsimp only at hr1
          split at hr1
          · rename_i a' hu
            obtain ⟨r0, -, he⟩ := Turn.updateHash_dirs hu name hr1
            rw [he, if_pos rfl]
          · rename_i hu
            exact congrArg DirRef.hash (Turn.updateHash_none hu rfl hr1)
        rw [hhash]
        exact .head _
      · exact absurd ⟨k, hk⟩ hrest

section
variable {env : Env β}

/-- All children have answered, and those that are awaited with a hash. -/
theorem Pending.has_replies (h : s.Pending) (hf : s.Filled env) (ha : s.actors[i]? = some a)
    {replies : List (DirHandlePath × Option (Except String (Option Hash)))} {responder : Responder}
    (hp : a.phase = .saving replies responder)
    (hn : (a.state.dirs.keys.all fun name => !s.awaits a name || answered replies name) = true) :
    s.world.Has (replies.foldl Turn.takeReply a).state := by
  have hin := hf.actors a (List.mem_of_getElem? ha)
  have hreplies : ∀ path k, (path, some (.ok (some k))) ∈ replies → k ∈ s.world.store := by
    have hphase := hin.phase
    rw [hp] at hphase
    exact hphase
  have hs : isStopped a = false := by simp [isStopped, hp]
  intro path r k hr hloc
  rcases Turn.nearly_takeReplies replies hin.refs hreplies path r k hr hloc with hk | ⟨rfl, name, rfl⟩
  · exact hk
  · have hdir : (replies.foldl Turn.takeReply a).state.dirs[name]? = some r := hr
    have hzero : r.hash = 0 := hash_of_loc hloc
    obtain ⟨r0, hr0, he⟩ := Turn.takeReplies_dirs name replies a hdir
    rcases he with rfl | ⟨k, hk, rfl⟩
    · rcases h i a name r ha hs hr0 hloc with hz | hawait
      · exact hz
      · have hmem : name ∈ a.state.dirs.keys := by
          rw [ExtTreeMap.mem_keys, ExtTreeMap.mem_iff_isSome_getElem?, hr0]
          rfl
        have hanswer := List.all_eq_true.1 hn name hmem
        rw [awaits_of_awaits hr0 hloc hawait, Bool.not_true, Bool.false_or] at hanswer
        obtain ⟨⟨p, x⟩, hx, hpx⟩ := List.any_eq_true.1 hanswer
        rw [Bool.and_eq_true, decide_eq_true_eq] at hpx
        obtain ⟨rfl, hok⟩ := hpx
        rcases x with _ | (_ | (_ | k))
        · cases hok
        · cases hok
        · cases hok
        · have htold := takeReplies_told replies ⟨k, hx⟩ hdir
          rw [hzero] at htold
          exact hreplies _ _ htold
    · have hk0 : k = 0 := hzero
      exact hk0 ▸ hreplies _ _ hk

/-- **Who writes a directory in time has it whole.** -/
theorem Pending.whole [DecidableEq β] (h : s.Pending) (hf : s.Filled env) (ha : s.actors[i]? = some a)
    (ht : s.inTime env i a = true) : (s.turn i a).Whole env := by
  have hhas : isStopped a = false → s.noneAwaited a = true → s.world.Has a.state :=
    fun hs hn => h.has hf ha hs hn
  unfold inTime at ht
  unfold Turn.Whole
  split
  · rename_i hp hm
    have hp' : a.phase = .idle := hp
    rw [hp', show a.mailbox = _ from hm] at ht
    intro hd hsplits
    have hd' : (a.dirty || (s.turn i a).isRoot) = true := hd
    have hsplits' : a.Splits env := hsplits
    simp only [hd', hsplits', decide_true, Bool.and_self, Bool.not_true, Bool.false_or] at ht
    exact hhas (by simp [isStopped, hp']) ht
  · rename_i hp hm
    have hp' : a.phase = .idle := hp
    rw [hp', show a.mailbox = _ from hm] at ht
    intro hd
    have hd' : a.dirty = true := hd
    simp only [hd', Bool.not_true, Bool.false_or] at ht
    exact hhas (by simp [isStopped, hp']) ht
  · rename_i hp hm
    have hp' : a.phase = .idle := hp
    rw [hp', show a.mailbox = _ from hm] at ht
    exact hhas (by simp [isStopped, hp']) ht
  · rename_i hp hm
    have hp' : a.phase = .idle := hp
    rw [hp', show a.mailbox = _ from hm] at ht
    intro hlink
    have hlink' : a.context.link = .localFile := hlink
    simp only [DirContext.isLocal, hlink', Bool.not_true, Bool.false_or] at ht
    exact hhas (by simp [isStopped, hp']) ht
  · rename_i replies responder hp
    have hp' : a.phase = .saving replies responder := hp
    rw [hp'] at ht
    intro hall
    simp only [hall, Bool.not_true, Bool.false_or] at ht
    exact h.has_replies hf ha hp' ht
  · trivial

theorem Pending.has_closing (h : s.Pending) (hf : s.Filled env) (ha : s.actors[i]? = some a)
    (ht : s.closesInTime i a = true) (hp : a.phase = .idle) (hm : a.mailbox = [])
    (hheld : s.held i = false) (hd : a.dirty = true) : s.world.Has a.state := by
  simp only [closesInTime, hp, hm, hheld, hd, Bool.not_true, Bool.false_or] at ht
  exact h.has hf ha (by simp [isStopped, hp]) ht

/-- Whoever writes a directory in a step that meets the condition has it whole. -/
theorem Pending.writesWhole [DecidableEq β] (h : s.Pending) (hf : s.Filled env) {e : Event}
    (hc : s.firstHashFirst env e = true) : s.WritesWhole env e := by
  cases e with
  | request handle request =>
    cases request with
    | mergeFromSnapshot snapshot => cases hc
    | _ => trivial
  | run i =>
    intro a ha
    simp only [firstHashFirst, ha, Option.all_some, Bool.and_eq_true] at hc
    exact h.whole hf ha hc.1
  | halt i =>
    intro a ha hp hm hheld
    simp only [firstHashFirst, ha, Option.all_some] at hc
    exact h.has_closing hf ha hc hp hm hheld
  | _ => trivial

end

/-! ## Deliveries -/

theorem Mailed.forth {os : List Output} (h : Mailed s s' os) {j : ActorId} {b : DirActor}
    (hb : s.actors[j]? = some b) : ∃ b' msgs, s'.actors[j]? = some b' ∧ Heard msgs b b' := by
  have hlt : j < s'.actors.length := by
    rw [h.length]
    exact (List.getElem?_eq_some_iff.1 hb).1
  obtain ⟨b0, msgs, hb0, hheard, -⟩ := h.heard j s'.actors[j] (List.getElem?_eq_getElem hlt)
  obtain rfl := Option.some.inj (hb.symm.trans hb0)
  exact ⟨s'.actors[j], msgs, List.getElem?_eq_getElem hlt, hheard⟩

theorem Awaits.mailed {os : List Output} {msgs : List ActorMessage} {name : String}
    (h : s.Awaits i a name) (hm : Mailed s s' os) (ha : Heard msgs a a') : s'.Awaits i a' name := by
  rcases h with ⟨c, b, d, hc, hb, hp, hpar⟩ | ⟨k, hk⟩
  · obtain ⟨b', msgs', hb', hheard⟩ := hm.forth hb
    refine .inl ⟨c, b', d, (ha.handles _).trans hc, hb', (hheard.starting _).2 hp, ?_⟩
    rw [hheard.context]
    exact hpar
  · refine .inr ⟨k, ?_⟩
    rw [ha.mailbox]
    exact List.mem_append_left _ hk

theorem Pending.mailed {os : List Output} (h : s.Pending) (hm : Mailed s s' os)
    (hw : s'.world = s.world) : s'.Pending := by
  intro j b' name r hb' hs hr hz
  obtain ⟨b, msgs, hb, hheard, -⟩ := hm.heard j b' hb'
  rw [hheard.stopped] at hs
  rw [hheard.state] at hr
  rw [hw]
  exact (h j b name r hb hs hr hz).imp_right fun ho => ho.mailed hm hheard

/-- What is told to a parent that is held and runs reaches it. -/
theorem notified_emits {j : ActorId} {msg : ActorMessage} :
    ∀ (os : List Output) {s : System β} {b : DirActor}, .notifyParent j msg ∈ os →
      s.held j = true → s.actors[j]? = some b → isStopped b = false →
      ∃ b', (os.foldl System.emit s).actors[j]? = some b' ∧ msg ∈ b'.mailbox
  | [], _, _, hmem, _, _, _ => absurd hmem List.not_mem_nil
  | o :: os, s, b, hmem, hheld, hb, hs => by
    rw [List.foldl_cons]
    rcases List.mem_cons.1 hmem with ho | hmem
    · subst ho
      have hopen : s.closed j = false := by simp [closed, hb, hs]
      have hsaid : s.emit (.notifyParent j msg) = s.enqueue j msg := by
        simp [System.emit, hheld, hopen]
      rw [hsaid]
      have hb1 : (s.enqueue j msg).actors[j]? = some { b with mailbox := b.mailbox ++ [msg] } := by
        show (s.actors.modify j _)[j]? = _
        rw [List.getElem?_modify, hb]
        simp
      obtain ⟨b', msgs, hb', hheard⟩ := (mailed_emits os (s.enqueue j msg)).forth hb1
      refine ⟨b', hb', ?_⟩
      rw [hheard.mailbox]
      exact List.mem_append_left _ (List.mem_append_right _ List.mem_cons_self)
    · obtain ⟨b1, msgs, hb1, hheard⟩ := (mailed_emit s o).forth hb
      exact notified_emits os hmem (held_emit hheld o) hb1 (hheard.stopped.trans hs)

/-! ## Turns -/

section
variable {t' : Turn β}

/-- Who is held stays so in a turn in which the actor lets go of nobody. -/
theorem held_settle {j : ActorId} (ha : s.actors[i]? = some a) (hself : t'.self = i)
    (hh : ∀ path c, a.handleAt path = some c → t'.actor.handleAt path = some c)
    (hs : isStopped t'.actor = false) (hr : t'.registryDirHandles = s.registryDirHandles)
    (h : s.held j = true) : (s.settle t').held j = true := by
  rw [held_iff] at h ⊢
  rcases h with h | ⟨k, hk⟩ | ⟨x, b, hb, hsb, path, hp⟩
  · exact .inl h
  · refine .inr (.inl ⟨k, ?_⟩)
    show t'.registryDirHandles[k]? = some j
    rw [hr]
    exact hk
  · refine .inr (.inr ?_)
    by_cases hx : x = i
    · subst hx
      obtain rfl := Option.some.inj (ha.symm.trans hb)
      exact ⟨x, t'.actor, settle_self ha hself, hs, path, hh path j hp⟩
    · exact ⟨x, b, settle_other hb (hself ▸ hx), hsb, path, hp⟩

/-- An actor takes a turn, after which its own placeholders are awaited, and if it has started on a new
directory its parent has its report. -/
theorem Pending.commit (h : s.Pending) (ha : s.actors[i]? = some a)
    (hm : Turn.Moves (s.turn i a) t') (hle : s.world.Below t'.world)
    (hself : isStopped t'.actor = false → ∀ name r, t'.actor.state.dirs[name]? = some r →
      r.loc (.path name) = .blob 0 → 0 ∈ t'.world.store ∨ (s.settle t').Awaits i t'.actor name)
    (hstarts : ∀ d name j b, a.phase = .starting (some d) →
      a.context.parent = some (.path name, j) → j ≠ i → s.actors[j]? = some b → isStopped b = false →
      ∃ k b', (s.commit t').actors[j]? = some b' ∧ .updateDirRefHash (.path name) k ∈ b'.mailbox) :
    (s.commit t').Pending := by
  have hmailed : Mailed (s.settle t') (s.commit t') t'.out := mailed_emits t'.out _
  have hworld : (s.commit t').world = t'.world := (delivers_emits t'.out (s.settle t')).world
  have hi : t'.self = i := hm.self
  intro j b' name r hb' hs hr hz
  obtain ⟨b, msgs, hb, hheard, -⟩ := hmailed.heard j b' hb'
  rw [hheard.stopped] at hs
  rw [hheard.state] at hr
  rw [hworld]
  rcases getElem?_moved hm hb with ⟨rfl, rfl⟩ | ⟨hj, hb⟩ | ⟨ctx, initial, rfl⟩
  · exact (hself hs name r hr hz).imp_right fun ho => ho.mailed hmailed hheard
  · rcases h j b name r hb hs hr hz with hz | ⟨c, x, d, hc, hx, hp, hpar⟩ | ⟨k, hk⟩
    · exact .inl (hle 0 hz)
    · right
      by_cases hci : c = i
      · subst hci
        obtain rfl := Option.some.inj (ha.symm.trans hx)
        obtain ⟨k, b1, hb1, hk⟩ := hstarts d name j b hp hpar hj hb hs
        obtain rfl := Option.some.inj (hb'.symm.trans hb1)
        exact .inr ⟨k, hk⟩
      · have hx' : (s.settle t').actors[c]? = some x := settle_other hx (hi.symm ▸ hci)
        have hawait : (s.settle t').Awaits j b name := .inl ⟨c, x, d, hc, hx', hp, hpar⟩
        exact hawait.mailed hmailed hheard
    · right
      refine .inr ⟨k, ?_⟩
      rw [hheard.mailbox]
      exact List.mem_append_left _ hk
  · simp [DirActor.new, DirV1.new] at hr

end

section
variable [DecidableEq β] {env : Env β}

theorem persist_ok {ctx : DirContext ActorId} {w : World β} (h : accepts env ctx w = true)
    (d : DirV1) : (persist env ctx d w).2.isOk = true := by
  have hencode : ∃ w1 b, encodeStateBytes env ctx d w = (w1, .ok b) ∧
      env.storeFails w1.tick = false := by
    unfold accepts at h
    unfold encodeStateBytes
    cases ht : ctx.encryptionType with
    | none =>
      rw [ht] at h
      exact ⟨w, env.toBytes d, rfl, by simpa using h⟩
    | some t =>
      rw [ht] at h
      simp only [Bool.and_eq_true, decide_eq_true_eq, Option.isSome_iff_exists] at h
      obtain ⟨⟨rfl, key, hkey⟩, hstore⟩ := h
      refine ⟨w.next, env.encrypt key (env.nonce w.tick) (env.toBytes d), ?_, ?_⟩
      · dsimp only
        rw [if_pos rfl, hkey]
      · simpa [World.next] using hstore
  obtain ⟨w1, b, hencode, hstore⟩ := hencode
  obtain ⟨w2, ctx', k, hp⟩ := persist_encoded hencode hstore
  rw [hp]
  rfl

/-- The report of a new directory. -/
theorem start_reports {t : Turn β} {d : DirV1} (hp : t.actor.phase = .starting (some d))
    {path : DirHandlePath} {p : ActorId} (hpar : t.actor.context.parent = some (path, p))
    (haccepts : accepts env t.actor.context t.world = true) :
    (∃ k, .notifyParent p (.updateDirRefHash path k) ∈ (t.run env).out) ∧
      (∀ path, (t.run env).actor.handleAt path = t.actor.handleAt path) ∧
      (t.run env).registryDirHandles = t.registryDirHandles ∧ isStopped (t.run env).actor = false := by
  obtain ⟨h0, level, hlink⟩ : ∃ h0 level, t.actor.context.link = .dirHandle path p h0 level := by
    unfold DirContext.parent at hpar
    split at hpar
    · rename_i path' p' h0 level hlink
      obtain ⟨rfl, rfl⟩ := Prod.mk.inj (Option.some.inj hpar)
      exact ⟨h0, level, hlink⟩
    · cases hpar
  have hok := persist_ok haccepts d
  have hpersist : ∃ w ctx k, persist env t.actor.context d t.world = (w, .ok (ctx, some k)) ∧
      ctx.link = .dirHandle path p k level := by
    unfold persist at hok ⊢
    generalize encodeStateBytes env t.actor.context d t.world = r1 at hok ⊢
    rcases r1 with ⟨w1, e | b⟩
    · cases hok
    · dsimp only at hok ⊢
      generalize w1.importBytes env b = r2 at hok ⊢
      rcases r2 with ⟨w2, e | k⟩
      · cases hok
      · simp only [hlink]
        exact ⟨w2, _, k, rfl, rfl⟩
  obtain ⟨w, ctx, k, hpersist, hctx⟩ := hpersist
  have hrun : t.run env = { t with
      world := w
      actor.context := ctx
      actor.state := d
      actor.phase := .idle
      out := t.out ++ [.notifyParent p (.updateDirRefHash path k)] } := by
    simp only [Turn.run, hp, Turn.start, Turn.save, hpersist, hctx]
    rfl
  rw [hrun]
  refine ⟨⟨k, List.mem_append_right _ List.mem_cons_self⟩, fun path => ?_, rfl, rfl⟩
  cases path <;> rfl

/-- An actor that has started has its directory whole. -/
theorem has_started {t : Turn β} (auth : env.Authentic) (h : t.Filled env) {initial : Option DirV1}
    (hp : t.actor.phase = .starting initial) (hs : isStopped (t.run env).actor = false) :
    (t.run env).world.Has (t.run env).actor.state := by
  have hle := (Turn.fills_start auth hp h).2
  have hphase := h.actor.phase
  rw [hp] at hphase
  have hrun : t.run env = t.start env initial := by simp only [Turn.run, hp]
  rw [hrun] at hs ⊢
  cases initial with
  | some d =>
    obtain ⟨hst, -⟩ := Turn.save_unchanged env { t with actor.state := d, actor.phase := .idle } true
    have hhas : t.world.Has d := hphase
    have hstate : (t.start env (some d)).actor.state = d := hst
    rw [hstate]
    exact hhas.mono hle
  | none =>
    unfold Turn.start at hs ⊢
    dsimp only at hs ⊢
    split
    · rename_i d len hload
      exact h.closed.load hload
    · rename_i hload
      rw [hload] at hs
      cases hs

omit [DecidableEq β] in
/-- The child that a turn has opened for a new reference. -/
theorem awaits_opened {t1 t' : Turn β} {name : String} (hcount : ∃ n : Nat,
      t1.fresh = s.actors.length + n ∧ t1.spawned.length = n) (hself : t1.self = i)
    (ho : t1.Opened name) (hh : t'.actor.handleAt (.path name) = t1.actor.handleAt (.path name))
    (hsp : t'.spawned = t1.spawned) : (s.settle t').Awaits i t'.actor name := by
  obtain ⟨c, k, n, ctx, d, hc, hpar, hk, hlen, hfresh⟩ := ho
  obtain ⟨m, hm, hl⟩ := hcount
  have hplace : c = s.actors.length + k := by
    have h1 : (c : Nat) + n = s.actors.length + (k + n) := by rw [← hfresh, hm, ← hl, hlen]
    exact Nat.add_right_cancel (h1.trans (Nat.add_assoc _ _ _).symm)
  refine .inl ⟨c, .new ctx (some d), d, hh.trans hc, ?_, rfl, hself ▸ hpar⟩
  show (s.actors.set t'.self t'.actor ++ t'.spawned)[c]? = _
  rw [hplace, List.getElem?_append_right (by simp), List.length_set, Nat.add_sub_cancel_left, hsp]
  exact hk

/-- After a turn, the placeholders of its own actor are awaited. -/
theorem Pending.self (auth : env.Authentic) (h : s.Pending) (hf : s.Filled env)
    (ha : s.actors[i]? = some a) (hnew : (s.turn i a).newChildren env = true)
    (hle : s.world.Below ((s.turn i a).run env).world)
    (hs : isStopped ((s.turn i a).run env).actor = false) {name : String} {r : DirRef}
    (hr : ((s.turn i a).run env).actor.state.dirs[name]? = some r)
    (hz : r.loc (.path name) = .blob 0) : 0 ∈ ((s.turn i a).run env).world.store ∨
      (s.settle ((s.turn i a).run env)).Awaits i ((s.turn i a).run env).actor name := by
  have hin := hf.actors a (List.mem_of_getElem? ha)
  have hacts : Turn.Acts (s.turn i a) ((s.turn i a).run env) := Turn.acts_run _
  by_cases hstart : ∃ initial, a.phase = .starting initial
  · obtain ⟨initial, hp⟩ := hstart
    exact .inl (has_started auth (hf.turn ha) hp hs (.path name) r 0 hr hz)
  have hedits : Turn.Edits True (s.turn i a) ((s.turn i a).run env) :=
    Turn.edits_run _ fun _ => hnew
  have hs0 : isStopped a = false := by
    cases hp : isStopped a with
    | false => rfl
    | true =>
      have hstop : a.phase = .stopped := by
        unfold isStopped at hp
        split at hp
        · assumption
        · cases hp
      have hrun : (s.turn i a).run env = s.turn i a := by
        simp only [Turn.run, turn, hstop]
      rw [hrun] at hs
      exact absurd (hp.symm.trans hs) Bool.noConfusion
  -- only the message that the turn handles leaves the mailbox
  have hmail : ∀ msg ∈ a.mailbox, msg ∈ ((s.turn i a).run env).actor.mailbox ∨
      a.phase = .idle ∧ ∃ rest, a.mailbox = msg :: rest := by
    intro msg hmem
    rcases taken_acts hacts with he | ⟨hp, head, hm⟩ | ⟨hstop, -⟩
    · left
      rw [he]
      exact hmem
    · have hm' : a.mailbox = head :: ((s.turn i a).run env).actor.mailbox := hm
      rw [hm'] at hmem
      rcases List.mem_cons.1 hmem with rfl | hmem
      · exact .inr ⟨hp, _, hm'⟩
      · exact .inl hmem
    · rw [hs] at hstop
      cases hstop
  have hreport : ∀ path k rest, a.phase = .idle → a.mailbox = .updateDirRefHash path k :: rest →
      Turn.Holds (s.turn i a) ((s.turn i a).run env) ∧ ∀ (name : String) (r' : DirRef),
        ((s.turn i a).run env).actor.state.dirs[name]? = some r' →
        ∃ r, a.state.dirs[name]? = some r ∧
          r' = if path = .path name then { r with hash := k } else r := by
    intro path k rest hp hm
    have hrun : (s.turn i a).run env =
        ((s.turn i a).take rest).processMsg env (.updateDirRefHash path k) := by
      simp only [Turn.run, turn, hp, hm, Turn.take]
    rw [hrun]
    obtain ⟨hholds, hdirs⟩ := Turn.processMsg_report env ((s.turn i a).take rest) path k
    refine ⟨⟨fun path => (hholds.handles path).trans ?_, hholds.fresh, hholds.spawned⟩, hdirs⟩
    cases path <;> rfl
  generalize (s.turn i a).run env = t' at hacts hedits hle hs hr hmail hreport ⊢
  have hself : t'.self = i := hacts.moves.self
  have hold : a.state.dirs[name]? = some r →
      (∀ c, a.handleAt (.path name) = some c → t'.actor.handleAt (.path name) = some c) →
      (∀ k rest, a.phase = .idle → a.mailbox ≠ .updateDirRefHash (.path name) k :: rest) →
      0 ∈ t'.world.store ∨ (s.settle t').Awaits i t'.actor name := by
    intro hr0 hh hhead
    rcases h i a name r ha hs0 hr0 hz with hz | ⟨c, b, d, hc, hb, hp, hpar⟩ | ⟨k, hk⟩
    · exact .inl (hle 0 hz)
    · have hci : c ≠ i := by
        rintro rfl
        obtain rfl := Option.some.inj (ha.symm.trans hb)
        exact hstart ⟨_, hp⟩
      exact .inr (.inl ⟨c, b, d, hh c hc, settle_other hb (hself.symm ▸ hci), hp, hpar⟩)
    · rcases hmail _ hk with hk | ⟨hp, rest, hm⟩
      · exact .inr (.inr ⟨k, hk⟩)
      · exact absurd hm (hhead k rest hp)
  by_cases hhead : a.phase = .idle ∧ ∃ path k rest, a.mailbox = .updateDirRefHash path k :: rest
  · -- a report is taken
    obtain ⟨hp, path, k, rest, hm⟩ := hhead
    obtain ⟨hholds, hdirs⟩ := hreport path k rest hp hm
    obtain ⟨r0, hr0, he⟩ := hdirs name r hr
    split at he
    · left
      have hk : k ∈ s.world.store := by
        refine hin.mail (.updateDirRefHash path k) ?_
        rw [hm]
        exact .head _
      have hk0 : r.hash = k := congrArg DirRef.hash he
      rw [hash_of_loc hz] at hk0
      exact hle 0 (hk0 ▸ hk)
    · rename_i hpath
      subst he
      refine hold hr0 (fun c hc => (hholds.handles _).trans hc) fun k' rest' _ hm' => hpath ?_
      rw [hm] at hm'
      injection hm' with hmsg _
      injection hmsg
  · have hquiet : ∀ k rest, a.phase = .idle → a.mailbox ≠ .updateDirRefHash (.path name) k :: rest :=
      fun k rest hp hm => hhead ⟨hp, _, k, rest, hm⟩
    cases hedits with
    | thins hthins =>
      obtain ⟨t1, hstays, hdirs, hh, -, hsp⟩ := hthins
      have hr1 : t1.actor.state.dirs[name]? = some r := by
        rcases hdirs with hdirs | hdirs
        · rw [← hdirs]
          exact hr
        · rw [hdirs] at hr
          simp at hr
      rcases Option.eq_none_or_eq_some a.state.dirs[name]? with hnone | ⟨r0, hr0⟩
      · rcases hstays.new trivial name r hr1 hnone with htype | hopened
        · simp [DirRef.loc, htype] at hz
        · obtain ⟨n, hfresh, hlen⟩ := hstays.count
          refine .inr (awaits_opened ⟨n, hfresh, ?_⟩ hstays.self hopened (hh _) hsp)
          rw [hlen]
          exact Nat.zero_add n
      · obtain rfl := Option.some.inj ((hstays.dirs name r0 hr0).symm.trans hr1)
        exact hold hr0 (fun c hc => (hh _).trans (hstays.handles _ c hc)) hquiet
    | reported path k rest hp hm => exact absurd ⟨hp, path, k, rest, hm⟩ hhead
    | saved replies responder hp hholds hdirs =>
      obtain ⟨r0, hr0, he⟩ := hdirs name r hr
      rcases he with rfl | ⟨k, hk, rfl⟩
      · exact hold hr0 (fun c hc => (hholds.handles _).trans hc) hquiet
      · left
        have hphase := hin.phase
        rw [show a.phase = _ from hp] at hphase
        have hk0 : k = 0 := hash_of_loc hz
        exact hle 0 (hk0 ▸ hphase _ k hk)
    | merged snapshot responder rest hp hm hl hh =>
      have hnone : ActorMessage.In s.world (.mergeSnapshot snapshot responder) := by
        refine hin.mail _ ?_
        rw [show a.mailbox = _ from hm]
        exact .head _
      exact hnone.elim
    | started initial hp hholds => exact absurd ⟨initial, hp⟩ hstart

/-- The report of an actor that starts on a new directory gets to its parent. -/
theorem reported_started (ha : s.actors[i]? = some a) (ht : s.inTime env i a = true) {d : DirV1}
    (hp : a.phase = .starting (some d)) {name : String} {j : ActorId}
    (hpar : a.context.parent = some (.path name, j)) (hj : j ≠ i) {b : DirActor}
    (hb : s.actors[j]? = some b) (hs : isStopped b = false) :
    ∃ k b', (s.commit ((s.turn i a).run env)).actors[j]? = some b' ∧
      .updateDirRefHash (.path name) k ∈ b'.mailbox := by
  simp only [inTime, hp, hpar, Bool.and_eq_true, Option.all_some, Bool.or_eq_true] at ht
  obtain ⟨hok, hheld | hclosed⟩ := ht
  · have hacts : Turn.Acts (s.turn i a) ((s.turn i a).run env) := Turn.acts_run _
    have hself : ((s.turn i a).run env).self = i := hacts.moves.self
    obtain ⟨⟨k, hk⟩, hh, hregs, hrun⟩ := start_reports (t := s.turn i a) hp hpar hok
    generalize (s.turn i a).run env = t' at hacts hself hk hh hregs hrun ⊢
    have hheld' : (s.settle t').held j = true :=
      held_settle ha hself (fun path c hc => (hh path).trans hc) hrun hregs hheld
    have hb' : (s.settle t').actors[j]? = some b := settle_other hb (hself.symm ▸ hj)
    exact ⟨k, notified_emits t'.out hk hheld' hb' hs⟩
  · simp [closed, hb, hs] at hclosed

omit [DecidableEq β] in
/-- A file system that has just been opened. -/
theorem pending_opened {ctx : DirContext ActorId} (hs : s.actors = [.new ctx none]) : s.Pending := by
  intro j b name r hb _ hr
  rw [Traced.actors_opened hs hb] at hr
  simp [DirActor.new, DirV1.new] at hr

/-- **Every step leaves the first hashes to come** that meets the condition. -/
theorem pending_step (auth : env.Authentic) (h : s.Pending) (hf : s.Filled env) {e : Event}
    (hc : s.firstHashFirst env e = true) : (s.step env e).Pending := by
  cases e with
  | request handle request =>
    simp only [step]
    split
    · obtain ⟨o, hmailed, -⟩ := Traced.mailed_submit s handle request
      exact h.mailed hmailed (delivers_submit s handle request).world
    · exact h
  | release handle =>
    have hmailed : Mailed s (s.step env (.release handle)) [] := Traced.mailed_refl rfl
    exact h.mailed hmailed rfl
  | autosave i =>
    have hsaid : (s.emit (.notifyParent i .autosaveTick)).Pending :=
      h.mailed (mailed_emit s _) (delivers_emit s _).world
    exact hsaid
  | run i =>
    cases ha : s.actors[i]? with
    | none =>
      simp only [step, ha]
      exact h
    | some a =>
      simp only [step, ha]
      simp only [firstHashFirst, ha, Option.all_some, Bool.and_eq_true] at hc
      obtain ⟨htime, hnew⟩ := hc
      obtain ⟨-, hle⟩ := Turn.fills_run auth (h.whole hf ha htime) (hf.turn ha)
      have hacts : Turn.Acts (s.turn i a) ((s.turn i a).run env) := Turn.acts_run _
      refine h.commit ha hacts.moves hle ?_ ?_
      · intro hs name r hr hz
        exact h.self auth hf ha hnew hle hs hr hz
      · intro d name j b hp hpar hj hb hs
        exact reported_started ha htime hp hpar hj hb hs
  | halt i =>
    cases ha : s.actors[i]? with
    | none =>
      simp only [step, ha]
      exact h
    | some a =>
      simp only [step, ha]
      split
      · rename_i hp hm hheld
        simp only [firstHashFirst, ha, Option.all_some] at hc
        have hhas := h.has_closing hf ha hc hp hm hheld
        obtain ⟨-, hle⟩ := Turn.fills_close auth _ hhas (hf.turn ha)
        obtain ⟨t1, hstirs, hclose⟩ : ∃ t1, Turn.Stirs (s.turn i a) t1 ∧
            (s.turn i a).close env = t1.enter .stopped := Turn.stirs_close _
        have hmoves : Turn.Moves (s.turn i a) (t1.enter .stopped) :=
          hstirs.moves.trans (Turn.moves_actor t1 rfl rfl rfl)
        rw [hclose] at hle ⊢
        refine h.commit ha hmoves hle (fun hs => ?_) fun d _ _ _ hstart => ?_
        · cases hs
        · rw [hp] at hstart
          cases hstart
      · exact h
  | reopen =>
    cases ha : s.actors[rootId]? with
    | none =>
      simp only [step, ha]
      exact h
    | some a =>
      simp only [step, ha]
      exact pending_opened rfl

/-! ## Runs -/

/-- The directory that `save` writes in a step refers to stored blobs only. -/
def SavesWhole (env : Env β) (s : System β) : Event → Prop
  | .run i => ∀ a, s.actors[i]? = some a → ∀ t, (s.turn i a).saving env = some t →
    t.world.Has t.actor.state
  | .halt i => ∀ a, s.actors[i]? = some a → a.phase = .idle → a.mailbox = [] → s.held i = false →
    ∀ t, (s.turn i a).closing env = some t → t.world.Has t.actor.state
  | _ => True

theorem savesWhole (auth : env.Authentic) (hf : s.Filled env) {e : Event} (hw : s.WritesWhole env e) :
    s.SavesWhole env e := by
  cases e with
  | run i =>
    intro a ha t ht
    exact Turn.has_saving auth (hf.turn ha) (hw a ha) ht
  | halt i =>
    intro a ha hp hm hheld t ht
    exact Turn.has_closing auth (hf.turn ha) (hw a ha hp hm hheld) ht
  | _ => trivial

/-- **Nothing that is stored leads nowhere**, in every run in which no directory is written before the
first hashes of its new subdirectories are in. -/
theorem nothing_dangles (auth : env.Authentic) (ctx : DirContext ActorId) (w : World β) (r : LocalRoot)
    (events : List Event) (hw : w.Closed env)
    (hc : Run.Steps (step env) (fun s e => s.firstHashFirst env e = true)
      (opened ctx w r) events) :
    Run.Steps (step env) (SavesWhole env) (opened ctx w r) events ∧
    Run.Always (step env) (fun s => s.world.Closed env) (opened ctx w r) events := by
  have hinv : Run.Always (step env) (fun s => s.Pending ∧ s.Filled env) (opened ctx w r) events := by
    refine Run.always_of_steps (fun s e h hc => ?_) ⟨pending_opened rfl, filled_opened ctx r hw⟩ hc
    obtain ⟨hp, hf⟩ := h
    exact ⟨pending_step auth hp hf hc, filled_step auth hf (hp.writesWhole hf hc)⟩
  refine ⟨fun pre e hpre => ?_, fun pre hpre => (hinv pre hpre).2.closed⟩
  obtain ⟨hp, hf⟩ := hinv pre ((List.prefix_append _ _).trans hpre)
  exact savesWhole auth hf (hp.writesWhole hf (hc pre e hpre))

end

/-! ### A save that is asked for before the first hash is in -/

theorem symbolic_authentic (xxh3_64 : String → UInt64) : (symbolic xxh3_64).Authentic where
  plain s d d' h := by
    cases s with
    | none => exact (Option.some.inj h).symm
    | some key => cases h
  sealed s key nonce d d' h := by
    cases s with
    | none => cases h
    | some key' =>
      by_cases hkey : key' = key
      · subst hkey
        simp only [unsealed, symbolic, Sym.open?, if_true, Option.bind_some, Sym.decode] at h
        exact (Option.some.inj h).symm
      · simp [unsealed, symbolic, Sym.open?, hkey] at h

theorem closed_newLocal (xxh3_64 : String → UInt64) : newLocal.world.Closed (symbolic xxh3_64) where
  store h b s d hb := by
    have hnone : newLocal.world.store[h]? = none := by simp [newLocal, opened, emptyWorld]
    rw [hnone] at hb
    cases hb
  rootFile b d hb hd := by
    obtain rfl := Option.some.inj hb
    obtain rfl := Option.some.inj hd
    exact World.has_new

def systemAfter (events : List Event) : System Sym :=
  events.foldl (step (symbolic xxh3Short)) newLocal

/-- The hash under a name in the local root's file. -/
def fileHash (s : System Sym) (name : String) : Option Bytes32 :=
  (s.world.rootFile.bind Sym.decode).bind fun d => d.dirs[name]?.map (·.hash)

/-- The next turn of the root saves it with a reference that leads nowhere. -/
def savesDangling (s : System Sym) (name : String) : Bool :=
  s.actors[rootId]?.any fun a => ((s.turn rootId a).saving (symbolic xxh3Short)).any fun t =>
    t.actor.state.dirs[name]?.any fun r =>
      r.loc (.path name) = .blob r.hash && !t.world.store.contains r.hash

theorem not_savesWhole {s : System Sym} {name : String} (h : s.savesDangling name = true) :
    ¬ s.SavesWhole (symbolic xxh3Short) (.run rootId) := by
  simp only [savesDangling, Option.any_eq_true, Bool.and_eq_true, decide_eq_true_eq,
    Bool.not_eq_true'] at h
  obtain ⟨a, ha, t, ht, r, hr, hloc, hnot⟩ := h
  intro hwhole
  have hmem : r.hash ∈ t.world.store := hwhole a ha t ht (.path name) r r.hash hr hloc
  rw [ExtTreeMap.mem_iff_contains, hnot] at hmem
  cases hmem

/-- Two directories are created one after the other, the parent takes the first hash of each, and then
everything is saved. -/
def savedInTime : List Event :=
  [.run 0, .request rootHandle (.createDir "d" false), .run 0, .run 1, .run 0,
    .request rootHandle (.createDir "e" false), .run 0,
    .request rootHandle (.fileOp "e/x" (.put (.new 1 1))), .run 0,
    .request rootHandle .save, .run 0, .run 1, .run 2, .run 2, .run 2, .run 2, .run 2,
    .run 0, .run 0, .run 0]

/-- A directory is created and a save asked for at once; it is answered before the first hash of the
directory is taken. -/
def savedTooEarly : List Event :=
  [.run 0, .request rootHandle (.createDir "d" false), .run 0, .request rootHandle .save, .run 0,
    .run 1, .run 1]

theorem nothing_dangles_savedInTime :
    (Run.Steps (step (symbolic xxh3Short)) (SavesWhole (symbolic xxh3Short)) newLocal savedInTime ∧
      Run.Always (step (symbolic xxh3Short)) (fun s => s.world.Closed (symbolic xxh3Short)) newLocal
        savedInTime) ∧
    ((systemAfter savedInTime).fileHash "d").isSome ∧ ((systemAfter savedInTime).fileHash "e").isSome :=
  ⟨nothing_dangles (symbolic_authentic xxh3Short) .localRoot _ _ savedInTime (closed_newLocal xxh3Short)
    (by decide +kernel), by decide +kernel, by decide +kernel⟩

/-- The placeholder is saved and gets to the file of the root. -/
theorem placeholder_saved :
    ¬ Run.Steps (step (symbolic xxh3Short)) (SavesWhole (symbolic xxh3Short)) newLocal
      (savedTooEarly ++ [.run rootId]) ∧
    (systemAfter (savedTooEarly ++ [.run rootId])).fileHash "d" = some 0 ∧
    (0 : Hash) ∉ (systemAfter (savedTooEarly ++ [.run rootId])).world.store := by
  refine ⟨fun h => ?_, by decide +kernel, by decide +kernel⟩
  have hsaves : (systemAfter savedTooEarly).savesDangling "d" = true := by decide +kernel
  exact not_savesWhole hsaves (h savedTooEarly (.run rootId) List.prefix_rfl)

end System

end Fs
