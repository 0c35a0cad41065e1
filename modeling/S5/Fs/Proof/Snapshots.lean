import S5.Fs.Proof.System
import S5.Fs.Symbolic
import S5.Lib.Run

/-!
# Snapshots and pins of a local root

A file system whose root is a local one with pins, under every order of events.

* `System.snapshot_pins_follow_iff`: the snapshot pins follow the index exactly as long as no
  snapshot is deleted whose hash another one has.
* `System.head_pin_tracks`: the head pin follows the root file as long as every snapshot is taken of
  what is in the root file.
-/

open Std

namespace Fs

namespace System

variable {β : Type}

theorem rooted_opened (w : World β) (r : LocalRoot) : (opened .localRoot w r).Rooted := by
  refine ⟨⟨.new .localRoot none, rfl, rfl, nofun⟩, fun i a ha hi => ?_⟩
  cases i with
  | zero => exact absurd rfl hi
  | succ n => exact nomatch ha

/-! ## Snapshot pins -/

variable [DecidableEq β] (env : Env β)

/-- The root does not handle the deletion of a snapshot whose hash another snapshot has. -/
def SoleSnapshot (s : System β) (e : Event) : Prop :=
  e = .run rootId → ∀ a name request rest, s.actors[rootId]? = some a → a.phase = .idle →
    a.mailbox = .deleteSnapshot name request :: rest →
    ∀ h, (name, h) ∈ s.localRoot.snapshots.list →
      ∀ other, (other, h) ∈ s.localRoot.snapshots.list → other = name

/-- What the deletion of a snapshot does to the head. -/
theorem head_deleteSnapshot {s : System β} {a : DirActor} {name : String} {request : Nat}
    {rest : List ActorMessage} (hr : s.Rooted) (ha : s.actors[rootId]? = some a)
    (hp : a.phase = .idle) (hm : a.mailbox = .deleteSnapshot name request :: rest) :
    (s.step env (.run rootId)).head = s.head.deleteSnapshot name := by
  obtain ⟨r, hroot, hc, -⟩ := hr.root
  obtain rfl := Option.some.inj (ha.symm.trans hroot)
  have hrun : (s.turn rootId a).run env =
      Turn.deleteSnapshot { s.turn rootId a with actor.mailbox := rest } name request := by
    unfold Turn.run turn
    dsimp only
    rw [hp]
    dsimp only
    rw [hm]
    rfl
  obtain ⟨hf, hh⟩ := Turn.deleteSnapshot_local
    { s.turn rootId a with actor.mailbox := rest } name request hc
  have hf' : Turn.Frame (s.turn rootId a) ((s.turn rootId a).run env) := by
    rw [hrun]
    exact ⟨hf.self, hf.context, hf.started, hf.spawned⟩
  simp only [step]
  rw [ha]
  dsimp only
  unfold commit
  rw [(delivers_emits _ _).head, (settle_local hr ha hf').2.1, hrun, hh, ← head_turn ha]
  rfl

theorem follows_step_iff (s : System β) (e : Event) (hr : s.Rooted)
    (hp : s.localRoot.pins.isSome) (hf : s.localRoot.Follows) :
    (s.step env e).localRoot.Follows ↔ SoleSnapshot s e := by
  by_cases hdel : e = .run rootId ∧ ∃ a name request rest, s.actors[rootId]? = some a ∧
      a.phase = .idle ∧ a.mailbox = .deleteSnapshot name request :: rest
  · obtain ⟨rfl, a, name, request, rest, ha, hph, hm⟩ := hdel
    have hh := head_deleteSnapshot env hr ha hph hm
    have hroot : (s.step env (.run rootId)).localRoot = (s.head.deleteSnapshot name).localRoot :=
      congrArg Head.localRoot hh
    rw [hroot, Head.follows_deleteSnapshot_iff (s := s.head) hp name hf]
    constructor
    · intro h _ a' name' request' rest' ha' _ hm'
      obtain rfl := Option.some.inj (ha.symm.trans ha')
      rw [hm] at hm'
      obtain ⟨hmsg, -⟩ := List.cons.inj hm'
      obtain ⟨rfl, -⟩ := ActorMessage.deleteSnapshot.inj hmsg
      exact h
    · intro h
      exact h rfl a name request rest ha hph hm
  · have hsole : SoleSnapshot s e := by
      intro he a name request rest ha hph hm
      exact absurd ⟨he, a, name, request, rest, ha, hph, hm⟩ hdel
    refine iff_of_true ?_ hsole
    have hroot : ∀ {x : Head β}, (s.step env e).head = x →
        x.localRoot.Follows → (s.step env e).localRoot.Follows := by
      intro x hx h
      rw [← hx] at h
      exact h
    obtain ⟨-, hstep⟩ := step_head env hr e
    cases hstep with
    | keep _ h => exact hroot h hf
    | load h => exact hroot h hf
    | save _ bytes h => exact hroot h ((Head.follows_save (s := s.head) hp bytes).2 hf)
    | createSnapshot a request rest now _ _ _ _ h =>
      exact hroot h (Head.follows_createSnapshot (s := s.head) hp now _ hf)
    | deleteSnapshot a name request rest he ha hph hm _ =>
      exact absurd ⟨he, a, name, request, rest, ha, hph, hm⟩ hdel
    | reopen _ h => exact hroot h hf

theorem isSome_pins_step {s : System β} (e : Event) (hr : s.Rooted)
    (hp : s.localRoot.pins.isSome) : (s.step env e).localRoot.pins.isSome := by
  have hroot : ∀ {x : Head β}, (s.step env e).head = x → x.localRoot.pins.isSome →
      (s.step env e).localRoot.pins.isSome := by
    intro x hx h
    rw [← hx] at h
    exact h
  obtain ⟨-, hstep⟩ := step_head env hr e
  cases hstep with
  | keep _ h => exact hroot h hp
  | load h => exact hroot h hp
  | save _ bytes h => exact hroot h ((Head.isSome_pins_save (s := s.head) bytes).trans hp)
  | createSnapshot a request rest now _ _ _ _ h =>
    exact hroot h ((Head.isSome_pins_createSnapshot (s := s.head) now _).trans hp)
  | deleteSnapshot a name request rest _ _ _ _ h =>
    exact hroot h ((Head.isSome_pins_deleteSnapshot (s := s.head) name).trans hp)
  | reopen _ h => exact hroot h hp

/-- **The snapshot pins follow the index** of a local root with pins exactly when no snapshot is
deleted whose hash another one has. -/
theorem snapshot_pins_follow_iff (w : World β) (r : LocalRoot) (events : List Event)
    (hp : r.pins.isSome) (hf : r.Follows) :
    Run.Always (step env) (·.localRoot.Follows) (opened .localRoot w r) events ↔
      Run.Steps (step env) SoleSnapshot (opened .localRoot w r) events := by
  refine Run.always_iff_of_invariant (J := fun s => s.Rooted ∧ s.localRoot.pins.isSome) ?_ ?_
    ⟨rooted_opened w r, hp⟩ hf
  · rintro s e ⟨hr, hp⟩
    exact ⟨(step_head env hr e).1, isSome_pins_step env e hr hp⟩
  · rintro s e ⟨hr, hp⟩ hf
    exact follows_step_iff env s e hr hp hf

/-- A new local root, as `open_local_root` leaves it. -/
def newLocal : System Sym :=
  opened .localRoot { emptyWorld with rootFile := some (.plain .new) } ⟨.new, some .empty, false⟩

/-- The handle that opening a root gives. -/
abbrev rootHandle : List String × ActorId := ([], rootId)

theorem follows_new : LocalRoot.Follows ⟨.new, some .empty, false⟩ := by
  intro h root
  refine iff_of_false (Finset.notMem_empty _) ?_
  rintro ⟨-, name, hn⟩
  exact List.not_mem_nil hn

def isDeleteSnapshot : ActorMessage → Bool
  | .deleteSnapshot _ _ => true
  | _ => false

/-- A snapshot of a new root. -/
theorem snapshot_pins_follow_new :
    Run.Always (step (symbolic xxh3Short)) (·.localRoot.Follows) newLocal
      [.run rootId, .request rootHandle .createSnapshot, .run rootId] := by
  refine (snapshot_pins_follow_iff _ _ _ _ rfl follows_new).2 ?_
  refine Run.steps_cons.2 ⟨?_, Run.steps_cons.2 ⟨?_, Run.steps_cons.2 ⟨?_, Run.steps_nil⟩⟩⟩
  · intro _ a name request rest ha hp _
    obtain rfl := Option.some.inj ha
    cases hp
  · intro he
    cases he
  · intro _ a name request rest ha _ hm
    have hdel : ∀ b ∈ ((newLocal.step (symbolic xxh3Short) (.run rootId)).step (symbolic xxh3Short)
        (.request rootHandle .createSnapshot)).actors[rootId]?,
        ∀ msg ∈ b.mailbox, isDeleteSnapshot msg = false := by
      decide +kernel
    have hcontra := hdel a ha (.deleteSnapshot name request) (hm ▸ List.mem_cons_self)
    cases hcontra

/-- Two snapshots of one state, of which the first is deleted: the second stays listed and has lost
its pin. -/
theorem shared_snapshot_unpinned :
    ¬ Run.Always (step (symbolic xxh3Short)) (·.localRoot.Follows) newLocal
      [.run rootId, .request rootHandle .save, .run rootId, .run rootId,
        .request rootHandle .createSnapshot, .run rootId,
        .request rootHandle .save, .run rootId, .run rootId,
        .request rootHandle .createSnapshot, .run rootId,
        .request rootHandle (.deleteSnapshot "1970-01-01T00:00:02+00:00"), .run rootId] := by
  intro h
  have hf := h _ List.prefix_rfl 1000 1000
  have hkept := hf.2 ⟨rfl, "1970-01-01T00:00:04+00:00", by decide +kernel⟩
  exact absurd hkept (by decide +kernel)

/-! ## The head pin -/

/-- The root takes no snapshot of a state that is not the one in the root file. -/
def SnapshotOfFile (s : System β) (e : Event) : Prop :=
  e = .run rootId → ∀ a request rest, s.actors[rootId]? = some a → a.phase = .idle →
    a.mailbox = .createSnapshot request :: rest → s.world.rootFile = some (env.toBytes a.state)

theorem tracks_step {s : System β} {e : Event} (hr : s.Rooted)
    (ht : s.head.Tracks env s.rootRunning) (hc : SnapshotOfFile env s e) :
    (s.step env e).head.Tracks env (s.step env e).rootRunning := by
  obtain ⟨-, hstep⟩ := step_head env hr e
  cases hstep with
  | keep hrun h =>
    rw [h]
    exact ⟨ht.pins, ht.unsaved, ht.pinned, fun hn => ht.current (hrun hn)⟩
  | load h =>
    rw [h]
    exact ht.load.mono
  | save hrun bytes h =>
    rw [h]
    rw [hrun] at ht
    exact (ht.save bytes).mono
  | createSnapshot a request rest now he ha hp hm h =>
    rw [h]
    have hrun : s.rootRunning = true := by
      rw [rootRunning_eq ha, hp]
      rfl
    rw [hrun] at ht
    exact (ht.createSnapshot now (hc he a request rest ha hp hm)).mono
  | deleteSnapshot a name request rest _ ha hp _ h =>
    rw [h]
    have hrun : s.rootRunning = true := by
      rw [rootRunning_eq ha, hp]
      rfl
    rw [hrun] at ht
    exact (ht.deleteSnapshot name).mono
  | reopen hrun h =>
    rw [h, hrun]
    exact ht.reopen

/-- **The head pin follows the root file** in every run in which each snapshot is taken of what is in
the root file. -/
theorem head_pin_tracks (w : World β) (r : LocalRoot) (events : List Event) (hp : r.pins.isSome)
    (hu : r.saved = false → ∀ h, .localFsHead ∉ r.pinners h)
    (hs : r.saved = true → ∀ h, .localFsHead ∈ r.pinners h ↔ w.rootFile.map env.blake3 = some h)
    (hc : Run.Steps (step env) (SnapshotOfFile env) (opened .localRoot w r) events) :
    Run.Always (step env) (fun s => s.head.HeadPinned env) (opened .localRoot w r) events := by
  have hinv : Run.Always (step env) (fun s => s.Rooted ∧ s.head.Tracks env s.rootRunning)
      (opened .localRoot w r) events := by
    refine Run.always_of_steps (fun s e h hc => ?_) ⟨rooted_opened w r, ⟨hp, hu, hs, nofun⟩⟩ hc
    exact ⟨(step_head env h.1 e).1, tracks_step env h.1 h.2 hc⟩
  intro pre hpre
  exact (hinv pre hpre).2.pinned

/-- The next thing an actor does is to create a snapshot. -/
def takesSnapshot (a : DirActor) : Bool :=
  match a.phase, a.mailbox with
  | .idle, .createSnapshot _ :: _ => true
  | _, _ => false

omit [DecidableEq β] in
theorem snapshotOfFile_of_next {s : System β} (e : Event)
    (h : ∀ a ∈ s.actors[rootId]?, takesSnapshot a = true →
      s.world.rootFile = some (env.toBytes a.state)) : SnapshotOfFile env s e := by
  intro _ a request rest ha hp hm
  refine h a ha ?_
  unfold takesSnapshot
  rw [hp, hm]

/-- A file is put and saved, a snapshot is taken of that, and then another file is put and saved. -/
def savedTwice : List Event :=
  [.run rootId, .request rootHandle (.fileOp "a" (.put (.new 1 1))), .run rootId, .run rootId,
    .request rootHandle .save, .run rootId, .run rootId,
    .request rootHandle .createSnapshot, .run rootId,
    .request rootHandle (.fileOp "b" (.put (.new 2 1))), .run rootId, .run rootId,
    .request rootHandle .save, .run rootId, .run rootId]

/-- Both saves have moved the head pin. -/
theorem head_pin_tracks_savedTwice :
    Run.Always (step (symbolic xxh3Short)) (fun s => s.head.HeadPinned (symbolic xxh3Short)) newLocal
        savedTwice ∧
      ((savedTwice.take 7).foldl (step (symbolic xxh3Short)) newLocal).localRoot.saved = true ∧
      ((savedTwice.take 7).foldl (step (symbolic xxh3Short)) newLocal).world.rootFile ≠
        (savedTwice.foldl (step (symbolic xxh3Short)) newLocal).world.rootFile := by
  refine ⟨head_pin_tracks _ _ _ _ rfl (fun _ _ => Finset.notMem_empty _) nofun ?_,
    by decide +kernel, by decide +kernel⟩
  have hnext : Run.Steps (step (symbolic xxh3Short))
      (fun s _ => ∀ a ∈ s.actors[rootId]?, takesSnapshot a = true →
        s.world.rootFile = some ((symbolic xxh3Short).toBytes a.state)) newLocal savedTwice := by
    decide +kernel
  exact fun pre e hpre => snapshotOfFile_of_next _ e (hnext pre e hpre)

/-- A client creates a snapshot: it saves, another client puts a file, and the snapshot is taken of
the unsaved state. The next save takes that for the old head, so the old one stays pinned. -/
theorem old_head_stays_pinned :
    ¬ Run.Always (step (symbolic xxh3Short)) (fun s => s.head.HeadPinned (symbolic xxh3Short))
      newLocal
      [.run rootId, .request rootHandle (.fileOp "a" (.put (.new 1 1))), .run rootId, .run rootId,
        .request rootHandle .save, .run rootId, .run rootId,
        .request rootHandle (.fileOp "b" (.put (.new 2 1))), .run rootId, .run rootId,
        .request rootHandle .createSnapshot, .run rootId,
        .request rootHandle .save, .run rootId, .run rootId] := by
  intro h
  have hf := h _ List.prefix_rfl (by decide +kernel) 5002
  have hstored := hf.1 (by decide +kernel)
  exact absurd hstored (by decide +kernel)

end System

end Fs
