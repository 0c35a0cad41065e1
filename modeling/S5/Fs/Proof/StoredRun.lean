import S5.Fs.Proof.Stored
import S5.Fs.Proof.Dirty

/-!
# Turns that store directories

What a turn writes is the directory of its actor (`Turn.Whole` says when it must be whole for that, that
is, without placeholders). A turn that writes only whole directories keeps what is stored closed
(`Turn.fills_run`, `Turn.fills_close`), and so does the delivery of what it says (`System.Filled`).
-/

open Std

namespace Fs

namespace Turn

variable {β : Type} {env : Env β} {t t' : Turn β}

/-! ## Hashes of children -/

/-- The hash of a stored blob is taken over. -/
theorem nearly_updateHash {w : World β} {a a' : DirActor} {path : DirHandlePath} {k : Hash}
    (h : w.Nearly a.state) (hk : k ∈ w.store) (hu : updateHash a path k = some a') :
    w.Nearly a'.state := by
  obtain ⟨dirRef, state, hat, rfl, hstate, -⟩ := updateHash_some hu
  intro p r k' hr hloc
  have hr' : state.refAt p = some r := hr
  rw [hstate] at hr'
  split at hr'
  · obtain rfl := Option.some.inj hr'
    left
    cases p with
    | shard index =>
      obtain rfl := Loc.blob.inj hloc
      exact hk
    | path name =>
      unfold DirRef.loc DirRef.refTypeD at hloc
      dsimp only at hloc
      split at hloc
      · obtain rfl := Loc.blob.inj hloc
        exact hk
      · cases hloc
  · exact h p r k' hr' hloc

theorem nearly_takeReplies {w : World β} :
    ∀ (replies : List (DirHandlePath × Option (Except String (Option Hash)))) {a : DirActor},
      w.Nearly a.state → (∀ path h, (path, some (.ok (some h))) ∈ replies → h ∈ w.store) →
      w.Nearly (replies.foldl takeReply a).state
  | [], _, h, _ => h
  | reply :: replies, a, h, hin => by
    refine nearly_takeReplies replies ?_ fun path k hk => hin path k (.tail _ hk)
    unfold takeReply
    split
    · rename_i path k
      split
      · rename_i a' hu
        have hnear := nearly_updateHash h (hin path k (.head _)) hu
        exact hnear
      · exact h
    · exact h

theorem fills_take (t : Turn β) {msg : ActorMessage} {rest : List ActorMessage}
    (hm : t.actor.mailbox = msg :: rest) : Fills env t (t.take rest) := by
  intro h
  refine h.update (.refl _) h.closed h.actor.refs (fun m hmem => ?_) (.inl rfl) (fun b => .inl)
    fun o => .inl
  rw [hm]
  exact .tail _ hmem

section
variable [DecidableEq β]

theorem fills_saveIfDirty (auth : env.Authentic) (t : Turn β) (responder : Responder)
    (hd : (t.actor.dirty || t.isRoot) = true → t.actor.Splits env → t.world.Has t.actor.state) :
    Fills env t (t.saveIfDirty env responder) := by
  intro h
  unfold saveIfDirty
  split
  · rename_i hdirty
    have h1 := (kept_shardIfNeeded auth h (hd hdirty)).fills
    generalize t.shardIfNeeded env = r at h1 ⊢
    rcases r with ⟨t1, e | u⟩
    · obtain ⟨hf, hle⟩ := h1
      obtain ⟨hf2, hle2⟩ : Turn.Filled env (t1.emit (.saved responder (.error e))) ∧ _ :=
        fills_emit t1 (fun _ => trivial) hf
      exact ⟨hf2, hle.trans hle2⟩
    · obtain ⟨hf, hle⟩ := h1
      refine ⟨⟨hf.closed, ⟨hf.actor.refs, hf.actor.mail, fun path k hk => ?_⟩, hf.spawned,
        fun o ho => ?_⟩, hle⟩
      · obtain ⟨c, -, hc⟩ := List.mem_map.1 hk
        cases hc
      · rcases List.mem_append.1 ho with ho | ho
        · exact hf.out o ho
        · obtain ⟨c, -, rfl⟩ := List.mem_map.1 ho
          trivial
  · exact fills_emit t (fun _ => trivial) h

/-- All children have answered. -/
theorem fills_finishSave (auth : env.Authentic) (t : Turn β)
    {replies : List (DirHandlePath × Option (Except String (Option Hash)))} {responder : Responder}
    (hp : t.actor.phase = .saving replies responder)
    (hd : t.world.Has (replies.foldl takeReply t.actor).state) :
    Fills env t (t.finishSave env replies responder) := by
  intro h
  have hin : ∀ path k, (path, some (.ok (some k))) ∈ replies → k ∈ t.world.store := by
    have hphase := h.actor.phase
    rw [hp] at hphase
    exact hphase
  have hnear := nearly_takeReplies replies h.actor.refs hin
  obtain ⟨state, dirty, hfold, -⟩ := takeReplies_eq replies t.actor
  simp only [finishSave, hfold] at hd hnear ⊢
  set t0 : Turn β := { t with
    actor.state := state, actor.dirty := dirty, actor.phase := .idle } with ht0
  obtain ⟨hf0, -⟩ : t0.Filled env ∧ t.world.Below t0.world :=
    h.update (.refl _) h.closed hnear (fun msg => id) (.inr rfl) (fun b => .inl) fun o => .inl
  split
  · obtain ⟨⟨hf1, hle⟩, hk⟩ := hf0.save auth hd false
    generalize t0.save env false = r at hf1 hle hk ⊢
    rcases r with ⟨t1, e | hash⟩
    · obtain ⟨hf2, hle2⟩ : Turn.Filled env (t1.emit (.saved responder (.error e))) ∧ _ :=
        fills_emit t1 (fun _ => trivial) hf1
      exact ⟨hf2, hle.trans hle2⟩
    · refine ⟨⟨hf1.closed, ⟨hf1.actor.refs, hf1.actor.mail, hf1.actor.phase⟩, hf1.spawned,
        fun o ho => ?_⟩, hle⟩
      rcases List.mem_append.1 ho with ho | ho
      · exact hf1.out o ho
      · rw [List.mem_singleton.1 ho]
        cases hash with
        | none => trivial
        | some k => exact hk k rfl
  · exact fills_emit t0 (fun _ => trivial) hf0

theorem fills_autosaveTick (auth : env.Authentic) (t : Turn β)
    (hd : t.actor.dirty = true → t.world.Has t.actor.state) : Fills env t (t.autosaveTick env) := by
  intro h
  unfold autosaveTick
  split
  · rename_i hdirty
    have h1 := kept_shardIfNeeded auth h fun _ => hd hdirty
    generalize t.shardIfNeeded env = r at h1 ⊢
    rcases r with ⟨t1, e | u⟩
    · exact h1.fills
    · dsimp only
      obtain ⟨⟨hf2, hle2⟩, -⟩ := h1.fills.1.save auth (h1.has (hd hdirty)) true
      have hle := h1.fills.2.trans hle2
      generalize t1.save env true = r at hf2 hle ⊢
      rcases r with ⟨t2, e | hash⟩
      · exact ⟨hf2, hle⟩
      · exact ⟨⟨hf2.closed, ⟨hf2.actor.refs, hf2.actor.mail, hf2.actor.phase⟩, hf2.spawned, hf2.out⟩,
          hle⟩
  · exact ⟨h, .refl _⟩

/-! ## Snapshots -/

theorem fills_exportSnapshotHash (auth : env.Authentic) (t : Turn β)
    (hd : t.world.Has t.actor.state) : Fills env t (t.exportSnapshotHash env).1 := by
  intro h
  unfold exportSnapshotHash
  have hle1 := (onward_encodeStateBytes env t.actor.context t.actor.state t.world).below
  generalize he : encodeStateBytes env t.actor.context t.actor.state t.world = r at hle1 ⊢
  rcases r with ⟨w1, e | bytes⟩
  · refine fills_world t hle1 (fun hc => ?_) h
    unfold encodeStateBytes at he
    dsimp only at he
    repeat' split at he
    all_goals cases he
    all_goals exact hc
  · obtain ⟨hb, hs, hr⟩ := encodes_encodeStateBytes he
    obtain ⟨hc2, -⟩ := (h.closed.of_eq hs hr).importBytes auth (hd.mono hle1) hb
    have hle2 := hle1.trans (w1.onward_importBytes env bytes).below
    dsimp only
    generalize w1.importBytes env bytes = r at hc2 hle2 ⊢
    rcases r with ⟨w2, e | k⟩
    · exact fills_world t hle2 (fun _ => hc2) h
    · exact fills_world t hle2 (fun _ => hc2) h

theorem fills_createSnapshot (auth : env.Authentic) (t : Turn β) (request : Nat)
    (hd : t.actor.context.link = .localFile → t.world.Has t.actor.state) :
    Fills env t (t.createSnapshot env request) := by
  unfold createSnapshot
  split
  · rename_i hlink
    have h1 := fills_exportSnapshotHash auth t (hd hlink)
    generalize t.exportSnapshotHash env = r at h1 ⊢
    rcases r with ⟨t1, e | k⟩
    · exact h1.trans (fills_emit _ fun _ => trivial)
    · dsimp only at h1 ⊢
      set t2 : Turn β := { t1 with world := t1.world.next, actor.currentHash := some k } with ht2
      have h2 : Fills env t t2 :=
        h1.trans (fills_same rfl rfl (fun _ => rfl) rfl (.inl rfl) rfl fun _ => .inl)
      split
      · exact h2.trans (fills_enter t2 rfl)
      · exact h2.trans (fills_same rfl rfl (fun _ => rfl) rfl (.inl rfl) rfl fun o ho =>
          out_emit ho fun _ => trivial)
  · exact fills_emit _ fun _ => trivial

omit [DecidableEq β] in
theorem fills_deleteSnapshot (t : Turn β) (name : String) (request : Nat) :
    Fills env t (t.deleteSnapshot name request) := by
  unfold deleteSnapshot
  split
  · split
    · exact fills_emit _ fun _ => trivial
    · exact fills_same rfl rfl (fun _ => rfl) rfl (.inl rfl) rfl fun o ho =>
        out_emit ho fun _ => trivial
  · exact fills_emit _ fun _ => trivial

/-! ## Paths -/

omit [DecidableEq β] in
theorem fills_pathOp (t : Turn β) (path : String) (op : ActorMessageOp) :
    Fills env t (t.pathOp env path op) := by
  unfold pathOp
  have h1 : Fills env t (t.routeToChild env path).1 := fills_routeToChild t path
  generalize t.routeToChild env path = r at h1 ⊢
  rcases r with ⟨t1, e | _ | ⟨child, rest, entered⟩⟩
  · exact h1
  · dsimp only at h1 ⊢
    split
    · refine h1.trans (fills_same rfl rfl (fun path => ?_) rfl (.inr rfl) rfl fun o ho =>
        out_emit ho fun _ => trivial)
      cases path <;> rfl
    · rename_i enable request
      have h2 := h1.trans (fills_createDirAt t1 path enable)
      generalize t1.createDirAt env path enable = r at h2 ⊢
      obtain ⟨t2, result⟩ := r
      exact h2.trans (fills_emit _ fun _ => trivial)
  · exact h1.trans (fills_emit _ fun _ => trivial)

theorem fills_finishFileOp (auth : env.Authentic) (t : Turn β) (path : String) (stored : Bool) :
    Fills env t (t.finishFileOp env path stored) := by
  unfold finishFileOp
  have h0 : Fills env t (t.enter .idle) := fills_enter t rfl
  dsimp only
  split
  · have h1 := h0.trans (fills_checkAutoPromote auth (t.enter .idle) path)
    generalize (t.enter .idle).checkAutoPromote env path = r at h1 ⊢
    rcases r with ⟨t1, e | u⟩
    · exact h1
    · exact h1.trans (fills_markAsDirty t1)
  · exact h0.trans (fills_markAsDirty _)

omit [DecidableEq β] in
theorem fills_enterSubdir (t : Turn β) (base : List String) (child : ActorId) (rest : String)
    (waiting : List ActorId) (request : Nat) :
    Fills env t (t.enterSubdir base child rest waiting request) := by
  unfold enterSubdir
  split
  · exact fills_emit t fun _ => trivial
  · exact (fills_enter t rfl).trans (fills_emit _ fun _ => trivial)

omit [DecidableEq β] in
theorem fills_openSubdir (t : Turn β) (base : List String) (path : String) (waiting : List ActorId)
    (request : Nat) : Fills env t (t.openSubdir env base path waiting request) := by
  unfold openSubdir
  have h1 : Fills env t (t.routeToChild env path).1 := fills_routeToChild t path
  generalize t.routeToChild env path = r at h1 ⊢
  rcases r with ⟨t1, e | _ | ⟨child, rest, entered⟩⟩
  · exact h1.trans (fills_emit t1 fun _ => trivial)
  · dsimp only at h1 ⊢
    generalize hcreated : (if (splitPath path).1 ∈ t1.actor.state.dirs then (t1, Except.ok ())
      else t1.createDirAt env (splitPath path).1 t1.actor.context.encryptionType.isSome) = created
    have h2 : Fills env t created.1 := by
      rw [← hcreated]
      split
      · exact h1
      · exact h1.trans (fills_createDirAt t1 _ _)
    rcases created with ⟨t2, e | u⟩
    · exact h2.trans (fills_emit t2 fun _ => trivial)
    · dsimp only at h2 ⊢
      have h3 := h2.trans (fills_openDir t2 (splitPath path).1 none fun d hd => by cases hd)
      generalize t2.openDir (splitPath path).1 none = r at h3 ⊢
      rcases r with ⟨t3, e | child⟩
      · exact h3.trans (fills_emit t3 fun _ => trivial)
      · exact h3.trans (fills_enterSubdir t3 _ _ _ _ _)
  · exact h1.trans (fills_enterSubdir t1 _ _ _ _ _)

/-! ## The run loop -/

/-- The directory is whole if the actor writes it next. -/
def Whole (env : Env β) (t : Turn β) : Prop :=
  match t.actor.phase, t.actor.mailbox with
  | .idle, .saveIfDirty _ :: _ =>
    (t.actor.dirty || t.isRoot) = true → t.actor.Splits env → t.world.Has t.actor.state
  | .idle, .autosaveTick :: _ => t.actor.dirty = true → t.world.Has t.actor.state
  | .idle, .exportSnapshotHash _ :: _ => t.world.Has t.actor.state
  | .idle, .createSnapshot _ :: _ => t.actor.context.link = .localFile → t.world.Has t.actor.state
  | .saving replies _, _ =>
    replies.all (·.2.isSome) = true → t.world.Has (replies.foldl takeReply t.actor).state
  | _, _ => True

theorem fills_processMsg (auth : env.Authentic) {msg : ActorMessage} {rest : List ActorMessage}
    (hidle : t.actor.phase = .idle) (hm : t.actor.mailbox = msg :: rest) (hw : t.Whole env) :
    Fills env t ((t.take rest).processMsg env msg) := by
  have h0 : Fills env t (t.take rest) := fills_take t hm
  unfold Whole at hw
  rw [hidle, hm] at hw
  cases msg with
  | pathOp path op => exact h0.trans (fills_pathOp _ path op)
  | openSubdir base path waiting request => exact h0.trans (fills_openSubdir _ base path waiting request)
  | updateDirRefHash path k =>
    intro h
    have hk : k ∈ t.world.store := h.actor.mail (.updateDirRefHash path k) (by rw [hm]; exact .head _)
    obtain ⟨hf, -⟩ := h0 h
    simp only [processMsg]
    split
    · rename_i a' hu
      have hnear := nearly_updateHash hf.actor.refs hk hu
      obtain ⟨state, rfl⟩ := updateHash_eq hu
      set t1 : Turn β := { t.take rest with actor := { (t.take rest).actor with state := state } }
        with ht1
      obtain ⟨hf1, hle1⟩ : t1.Filled env ∧ t.world.Below t1.world :=
        hf.update (.refl _) hf.closed hnear (fun msg => id) (.inl rfl) (fun b => .inl) fun o => .inl
      obtain ⟨hf2, hle2⟩ := fills_markAsDirty t1 hf1
      exact ⟨hf2, hle1.trans hle2⟩
    · exact ⟨hf, .refl _⟩
  | saveIfDirty responder =>
    have hd : ((t.take rest).actor.dirty || (t.take rest).isRoot) = true →
        (t.take rest).actor.Splits env → (t.take rest).world.Has (t.take rest).actor.state := hw
    exact h0.trans (fills_saveIfDirty auth _ responder hd)
  | exportSnapshotHash request =>
    have h1 := h0.trans (fills_exportSnapshotHash auth (t.take rest) hw)
    simp only [processMsg]
    generalize (t.take rest).exportSnapshotHash env = r at h1 ⊢
    obtain ⟨t1, result⟩ := r
    exact h1.trans (fills_emit t1 fun _ => trivial)
  | createSnapshot request => exact h0.trans (fills_createSnapshot auth (t.take rest) request hw)
  | deleteSnapshot name request => exact h0.trans (fills_deleteSnapshot _ name request)
  | exportSnapshot request => exact h0.trans (fills_emit _ fun _ => trivial)
  | mergeSnapshot snapshot responder =>
    intro h
    have hnone : ActorMessage.In t.world (.mergeSnapshot snapshot responder) :=
      h.actor.mail _ (by rw [hm]; exact .head _)
    exact hnone.elim
  | autosaveTick => exact h0.trans (fills_autosaveTick auth (t.take rest) hw)
  | markAsDirty => exact h0.trans (fills_markAsDirty _)

omit [DecidableEq β] in
/-- An actor starts on a directory that is whole. -/
theorem Filled.begin (h : t.Filled env) {d : DirV1} (hd : t.world.Has d) (len : Nat)
    (current : Option Hash) : Turn.Filled env { t with
      actor.state := d
      actor.lastSerializedLen := len
      actor.currentHash := current
      actor.phase := .idle } :=
  ⟨h.closed, ⟨hd.nearly, h.actor.mail, trivial⟩, h.spawned, h.out⟩

theorem fills_start (auth : env.Authentic) {initial : Option DirV1}
    (hp : t.actor.phase = .starting initial) : Fills env t (t.start env initial) := by
  intro h
  have hphase := h.actor.phase
  rw [hp] at hphase
  unfold start
  cases initial with
  | some d =>
    have hf := h.begin hphase t.actor.lastSerializedLen t.actor.currentHash
    exact (hf.save auth hphase true).1
  | none =>
    dsimp only
    split
    · rename_i d len hload
      exact ⟨h.begin (h.closed.load hload) len _, .refl _⟩
    · refine ⟨⟨h.closed, ⟨h.actor.refs, fun msg hm => absurd hm List.not_mem_nil, trivial⟩, h.spawned,
        fun o ho => ?_⟩, .refl _⟩
      rcases List.mem_append.1 ho with ho | ho
      · exact h.out o ho
      · obtain ⟨msg, -, hm⟩ := List.mem_flatMap.1 ho
        cases msg with
        | openSubdir | mergeSnapshot | saveIfDirty =>
          rw [List.mem_singleton.1 hm]
          trivial
        | _ => exact absurd hm List.not_mem_nil

/-- **A turn that writes only whole directories.** -/
theorem fills_run (auth : env.Authentic) (hw : t.Whole env) : Fills env t (t.run env) := by
  unfold run
  split
  · rename_i initial hp
    exact fills_start auth hp
  · rename_i hp
    split
    · exact .refl t
    · rename_i msg rest hm
      exact fills_processMsg auth hp hm hw
  · exact fills_finishFileOp auth t _ _
  · exact .refl t
  · rename_i replies responder hp
    split
    · rename_i hall
      unfold Whole at hw
      rw [hp] at hw
      exact fills_finishSave auth t hp (hw hall)
    · exact .refl t
  · rename_i reply rest snapshot responder hp
    intro h
    have hphase := h.actor.phase
    rw [hp] at hphase
    exact hphase.elim
  · exact .refl t
  · exact .refl t

theorem fills_close (auth : env.Authentic) (t : Turn β)
    (hd : t.actor.dirty = true → t.world.Has t.actor.state) : Fills env t (t.close env) := by
  intro h
  unfold close
  dsimp only
  split
  · rename_i hdirty
    have h1 := kept_shardIfNeeded auth h fun _ => hd hdirty
    obtain ⟨⟨hf2, hle2⟩, -⟩ := h1.fills.1.save auth (h1.has (hd hdirty)) false
    generalize ((t.shardIfNeeded env).1.save env false).1 = t2 at hf2 hle2 ⊢
    have h3 : Fills env t2 (t2.enter .stopped) := fills_enter t2 rfl
    obtain ⟨hf3, hle3⟩ := h3 hf2
    exact ⟨hf3, (h1.fills.2.trans hle2).trans hle3⟩
  · exact fills_enter t rfl h

/-! ## Saves -/

variable (env) in
/-- The turn at the moment when it calls `save`, if it does. -/
def saving (t : Turn β) : Option (Turn β) :=
  match t.actor.phase, t.actor.mailbox with
  | .starting (some d), _ => some { t with actor.state := d, actor.phase := .idle }
  | .idle, .autosaveTick :: rest =>
    if t.actor.dirty then
      match (t.take rest).shardIfNeeded env with
      | (t, .ok ()) => some t
      | (_, .error _) => none
    else none
  | .saving replies _, _ =>
    if replies.all (·.2.isSome) && (replies.foldl takeReply t.actor).dirty then
      some { t with actor := { replies.foldl takeReply t.actor with phase := .idle } }
    else none
  | _, _ => none

variable (env) in
/-- The same for the end of the run loop. -/
def closing (t : Turn β) : Option (Turn β) :=
  if t.actor.dirty then some (t.shardIfNeeded env).1 else none

/-- The world after a turn is the one that its save leaves. -/
theorem run_saving {t1 : Turn β} (h : t.saving env = some t1) :
    ∃ notify, (t.run env).world = (t1.save env notify).1.world := by
  unfold saving at h
  split at h
  · rename_i d hp
    obtain rfl := Option.some.inj h
    exact ⟨true, by simp only [run, hp, start]⟩
  · rename_i rest hp hm
    split at h
    · rename_i hd
      have hrun : t.run env = (t.take rest).autosaveTick env := by
        simp only [run, hp, hm, processMsg, take]
      have hd' : (t.take rest).actor.dirty = true := hd
      refine ⟨true, ?_⟩
      rw [hrun]
      unfold autosaveTick
      rw [if_pos hd']
      generalize (t.take rest).shardIfNeeded env = r at h ⊢
      rcases r with ⟨t2, e | u⟩
      · cases h
      · obtain rfl := Option.some.inj h
        dsimp only
        generalize t2.save env true = r
        rcases r with ⟨t3, e | hash⟩
        · rfl
        · rfl
    · cases h
  · rename_i replies responder hp
    split at h
    · rename_i hall
      rw [Bool.and_eq_true] at hall
      obtain rfl := Option.some.inj h
      refine ⟨false, ?_⟩
      simp only [run, hp, hall.1, if_true, finishSave, hall.2]
      generalize Turn.save env _ false = r
      rcases r with ⟨t3, e | hash⟩
      · rfl
      · rfl
    · cases h
  · cases h

/-- **What a turn saves refers to stored blobs only.** -/
theorem has_saving (auth : env.Authentic) (h : t.Filled env) (hw : t.Whole env) {t1 : Turn β}
    (h1 : t.saving env = some t1) : t1.world.Has t1.actor.state := by
  unfold saving at h1
  unfold Whole at hw
  split at h1
  · rename_i d hp
    obtain rfl := Option.some.inj h1
    have hphase := h.actor.phase
    rw [hp] at hphase
    exact hphase
  · rename_i rest hp hm
    rw [hp, hm] at hw
    split at h1
    · rename_i hd
      obtain ⟨hf, -⟩ := fills_take t hm h
      have hkept := kept_shardIfNeeded auth hf fun _ => hw hd
      generalize (t.take rest).shardIfNeeded env = r at h1 hkept
      rcases r with ⟨t2, e | u⟩
      · cases h1
      · obtain rfl := Option.some.inj h1
        exact hkept.has (hw hd)
    · cases h1
  · rename_i replies responder hp
    rw [hp] at hw
    split at h1
    · rename_i hall
      rw [Bool.and_eq_true] at hall
      obtain rfl := Option.some.inj h1
      exact hw hall.1
    · cases h1
  · cases h1

theorem has_closing (auth : env.Authentic) (h : t.Filled env)
    (hd : t.actor.dirty = true → t.world.Has t.actor.state) {t1 : Turn β}
    (h1 : t.closing env = some t1) : t1.world.Has t1.actor.state := by
  unfold closing at h1
  split at h1
  · rename_i hdirty
    obtain rfl := Option.some.inj h1
    exact (kept_shardIfNeeded auth h fun _ => hd hdirty).has (hd hdirty)
  · cases h1

end

end Turn

/-! ## The system -/

namespace System

variable {β : Type} {env : Env β} {s : System β}

/-- What is stored is closed, and all actors know of stored blobs only, up to placeholders. -/
structure Filled (env : Env β) (s : System β) : Prop where
  closed : s.world.Closed env
  actors : ∀ a ∈ s.actors, a.In s.world

theorem Filled.modify (h : s.Filled env) {i : ActorId} {f : DirActor → DirActor}
    (hf : ∀ a : DirActor, a.In s.world → (f a).In s.world) : (s.modify i f).Filled env := by
  refine ⟨h.closed, fun b hb => ?_⟩
  obtain ⟨j, hj⟩ := List.mem_iff_getElem?.1 hb
  obtain ⟨a, ha, rfl⟩ := getElem?_modify hj
  have hin := h.actors a (List.mem_of_getElem? ha)
  show DirActor.In s.world (if i = j then f a else a)
  split
  · exact hf a hin
  · exact hin

theorem Filled.enqueue (h : s.Filled env) (i : ActorId) {msg : ActorMessage}
    (hm : msg.In s.world) : (s.enqueue i msg).Filled env := by
  refine h.modify fun a hin => ⟨hin.refs, fun m hmem => ?_, hin.phase⟩
  rcases List.mem_append.1 hmem with hmem | hmem
  · exact hin.mail m hmem
  · rw [List.mem_singleton.1 hmem]
    exact hm

theorem Filled.storeReply (h : s.Filled env) (i : ActorId) (path : DirHandlePath)
    {result : Except String (Option Hash)} (hr : ∀ k, result = .ok (some k) → k ∈ s.world.store) :
    (s.modify i (storeReply path result)).Filled env := by
  refine h.modify fun a hin => ?_
  unfold System.storeReply
  split
  · rename_i replies responder hp
    refine ⟨hin.refs, hin.mail, fun p k hm => ?_⟩
    have hphase := hin.phase
    rw [hp] at hphase
    obtain ⟨⟨q, r⟩, hqr, heq⟩ := List.mem_map.1 hm
    obtain ⟨rfl, hres⟩ := Prod.mk.inj heq
    split at hres
    · exact hr k (Option.some.inj hres)
    · subst hres
      exact hphase q k hqr
  · exact hin

theorem Filled.storeMerged (h : s.Filled env) (i : ActorId) (result : Except String Unit) :
    (s.modify i (storeMerged result)).Filled env := by
  refine h.modify fun a hin => ?_
  unfold System.storeMerged
  split
  · rename_i hp
    have hphase := hin.phase
    rw [hp] at hphase
    exact hphase.elim
  · exact hin

theorem Filled.resume : ∀ (waiting : List ActorId) {s : System β}, s.Filled env →
    (waiting.foldl (fun s i => s.modify i System.resume) s).Filled env
  | [], _, h => h
  | i :: waiting, s, h => by
    refine Filled.resume waiting (h.modify fun a hin => ?_)
    unfold System.resume
    split
    · exact ⟨hin.refs, hin.mail, trivial⟩
    · exact hin

/-- Clients and answers are of no matter. -/
theorem Filled.of_eq {s' : System β} (h : s.Filled env) (hw : s'.world = s.world)
    (ha : s'.actors = s.actors) : s'.Filled env := by
  refine ⟨hw ▸ h.closed, ?_⟩
  rw [hw, ha]
  exact h.actors

theorem Filled.reply (h : s.Filled env) {o : Output} (ho : o.In s.world) :
    (s.reply o).Filled env := by
  unfold System.reply
  split
  · exact h.of_eq rfl rfl
  · rename_i waiting request result
    have hr := Filled.resume waiting h
    dsimp only
    split
    · exact hr.of_eq rfl rfl
    · exact hr.of_eq rfl rfl
  · exact h.of_eq rfl rfl
  · rename_i i path result
    refine h.storeReply i path fun k hk => ?_
    subst hk
    exact ho
  · exact h.of_eq rfl rfl
  · exact h.storeMerged _ _
  · exact h

theorem Filled.emit (h : s.Filled env) {o : Output} (ho : o.In s.world) :
    (s.emit o).Filled env := by
  unfold System.emit
  split
  · rename_i i msg
    split
    · cases msg with
      | openSubdir base path waiting request =>
        show (s.reply (.subdir waiting request (.error "channel closed"))).Filled env
        exact h.reply trivial
      | saveIfDirty responder =>
        show (s.reply (.saved responder (.error "channel closed"))).Filled env
        exact h.reply trivial
      | mergeSnapshot snapshot responder => exact ho.elim
      | _ => exact h
    · exact h.enqueue i ho
  · split
    · exact h.enqueue _ ho
    · exact h
  · exact h.reply ho

theorem Filled.emits : ∀ (os : List Output) {s : System β}, s.Filled env →
    (∀ o ∈ os, o.In s.world) → (os.foldl System.emit s).Filled env
  | [], _, h, _ => h
  | o :: os, s, h, ho => by
    refine Filled.emits os (h.emit (ho o (.head _))) fun o' hm => ?_
    rw [(delivers_emit s o).world]
    exact ho o' (.tail _ hm)

theorem Filled.submit (h : s.Filled env) (handle : List String × ActorId) {request : Request}
    (hr : ∀ snapshot, request ≠ .mergeFromSnapshot snapshot) :
    (s.submit handle request).Filled env := by
  have h0 : Filled env { s with requests := s.requests + 1 } := h.of_eq rfl rfl
  cases request with
  | mergeFromSnapshot snapshot => exact absurd rfl (hr snapshot)
  | subdir path =>
    simp only [System.submit]
    split
    · exact h0.emit trivial
    · exact h0.emit trivial
  | _ =>
    simp only [System.submit]
    exact h0.emit trivial

theorem Filled.turn (h : s.Filled env) {i : ActorId} {a : DirActor} (ha : s.actors[i]? = some a) :
    (s.turn i a).Filled env :=
  ⟨h.closed, h.actors a (List.mem_of_getElem? ha), fun _ hb => absurd hb List.not_mem_nil,
    fun _ ho => absurd ho List.not_mem_nil⟩

/-- The turn of an actor with all that it says. -/
theorem Filled.commit (h : s.Filled env) {i : ActorId} {a : DirActor} (ha : s.actors[i]? = some a)
    {t : Turn β} (ht : Turn.Fills env (s.turn i a) t) : (s.commit t).Filled env := by
  obtain ⟨hf, hle⟩ := ht (h.turn ha)
  refine Filled.emits t.out ⟨hf.closed, fun b hb => ?_⟩ hf.out
  have hb' : b ∈ s.actors.set t.self t.actor ++ t.spawned := hb
  rcases List.mem_append.1 hb' with hb | hb
  · rcases List.mem_or_eq_of_mem_set hb with hb | rfl
    · exact (h.actors b hb).mono hle
    · exact hf.actor
  · exact hf.spawned b hb

theorem filled_opened (ctx : DirContext ActorId) {w : World β} (r : LocalRoot)
    (hw : w.Closed env) : (opened ctx w r).Filled env := by
  refine ⟨hw, fun a ha => ?_⟩
  rw [List.mem_singleton.1 ha]
  exact DirActor.in_new ctx fun d hd => by cases hd

/-- No snapshot is merged in, and who writes a directory has it whole. -/
def WritesWhole [DecidableEq β] (env : Env β) (s : System β) : Event → Prop
  | .request _ (.mergeFromSnapshot _) => False
  | .run i => ∀ a, s.actors[i]? = some a → (s.turn i a).Whole env
  | .halt i => ∀ a, s.actors[i]? = some a → a.phase = .idle → a.mailbox = [] → s.held i = false →
    a.dirty = true → s.world.Has a.state
  | _ => True

/-- **An event in which only whole directories are written** keeps what is stored closed. -/
theorem filled_step [DecidableEq β] (auth : env.Authentic) (h : s.Filled env) {e : Event}
    (hw : s.WritesWhole env e) : (s.step env e).Filled env := by
  cases e with
  | request handle request =>
    simp only [step]
    split
    · refine h.submit handle fun snapshot he => ?_
      subst he
      exact hw
    · exact h
  | release handle => exact h.of_eq rfl rfl
  | autosave i =>
    have hsaid : (s.emit (.notifyParent i .autosaveTick)).Filled env := h.emit trivial
    exact hsaid
  | run i =>
    cases ha : s.actors[i]? with
    | none =>
      simp only [step, ha]
      exact h
    | some a =>
      simp only [step, ha]
      exact h.commit ha (Turn.fills_run auth (hw a ha))
  | halt i =>
    cases ha : s.actors[i]? with
    | none =>
      simp only [step, ha]
      exact h
    | some a =>
      simp only [step, ha]
      split
      · rename_i hp hm hheld
        exact h.commit ha (Turn.fills_close auth _ (hw a ha hp hm hheld))
      · exact h
  | reopen =>
    cases ha : s.actors[rootId]? with
    | none =>
      simp only [step, ha]
      exact h
    | some a =>
      simp only [step, ha]
      exact (filled_opened a.context s.localRoot h.closed).of_eq rfl rfl

end System

end Fs
