import S5.Fs.Panics
import S5.Fs.Proof.Keys
import S5.Fs.Symbolic

/-!
# Shard levels that are out of range

The level of a directory comes with its stored bytes, the level under which it is opened from the
actor that opens it. The second is checked there, the first never is.

* `leveled_handle`: no call takes a level out of range that is in it.
* `no_panic_iff`: an actor never panics exactly if the level its directory is stored with is in range.
-/

open Std

namespace Fs

/-- The level under which a directory is opened is in range. -/
def DirContext.LevelOk {ι : Type} (ctx : DirContext ι) : Prop :=
  ∀ path handle h level, ctx.link = .dirHandle path handle h level → level ≤ maxShardLevel

theorem shiftBucket_isSome {h : UInt64} {level : UInt8} (hl : level ≤ maxShardLevel) :
    (shiftBucket h level).isSome := by
  have hn : level.toNat ≤ 7 := UInt8.le_iff_toNat_le.1 hl
  unfold shiftBucket
  rw [if_pos (by omega)]
  rfl

theorem assertedBucket_isSome {β : Type} {env : Env β} {name : String} {level : UInt8} :
    (assertedBucket env name level).isSome ↔ level ≤ maxShardLevel := by
  unfold assertedBucket
  by_cases hl : level ≤ maxShardLevel
  · rw [if_pos hl]
    exact iff_of_true (shiftBucket_isSome hl) hl
  · rw [if_neg hl]
    exact iff_of_false Bool.false_ne_true hl

/-- Where `shard_bucket_for` does not panic it is the byte of the hash that the level picks. -/
theorem shardBucketFor_eq {β : Type} (env : Env β) (name : String) (level : UInt8) :
    shardBucketFor env name level = (assertedBucket env name level).elim
      (.error s!"shard_level {level} exceeds maximum {maxShardLevel}") .ok := by
  unfold shardBucketFor assertedBucket
  by_cases hl : level ≤ maxShardLevel
  · have hn : level.toNat ≤ 7 := UInt8.le_iff_toNat_le.1 hl
    rw [if_pos hl, if_pos hl, shiftBucket, if_pos (by omega)]
    rfl
  · rw [if_neg hl, if_neg hl]
    rfl

/-- The link of a child directory has level zero. -/
theorem levelOk_dirLink (ctx : DirContext ActorId) (self : ActorId) (name : String) (dirRef : DirRef) :
    (ctx.withNewRef dirRef (dirLink ctx self name dirRef)).LevelOk := by
  intro path handle h level hl
  have hlink : dirLink ctx self name dirRef = .dirHandle path handle h level := hl
  unfold dirLink at hlink
  split at hlink
  · cases hlink
    decide
  · cases hlink

/-- The link of a shard is only made with a level in range. -/
theorem levelOk_shardLink {ctx : DirContext ActorId} {state : DirV1} {self : ActorId} {index : UInt8}
    {dirRef : DirRef} {link : DirContextParentLink ActorId}
    (h : shardLink state self index = .ok (dirRef, link)) : (ctx.withNewRef dirRef link).LevelOk := by
  intro path handle hash level hl
  replace hl : link = .dirHandle path handle hash level := hl
  unfold shardLink at h
  repeat' split at h
  all_goals cases h
  cases hl
  exact UInt8.not_lt.1 ‹_›

namespace Turn

variable {β : Type} {good : Prop} {t t' : Turn β}

/-- All levels are in range: the one the actor is linked by, those it has opened children under and, if
`good`, the one of its directory. -/
structure Leveled (good : Prop) (t : Turn β) : Prop where
  link : t.actor.context.LevelOk
  spawned : ∀ a ∈ t.spawned, a.context.LevelOk
  header : good → ∀ level, t.actor.state.header.shardLevel = some level → level ≤ maxShardLevel

theorem Leveled.of_eq (h : Leveled good t) (hc : t'.actor.context = t.actor.context)
    (hl : t'.actor.state.header.shardLevel = t.actor.state.header.shardLevel)
    (hs : t'.spawned = t.spawned) : Leveled good t' := by
  obtain ⟨h1, h2, h3⟩ := h
  exact ⟨hc ▸ h1, hs ▸ h2, hl ▸ h3⟩

theorem Leveled.splitLevel_le (h : Leveled good t) : t.splitLevel ≤ maxShardLevel := by
  unfold splitLevel
  split
  · rename_i hl
    exact h.link _ _ _ _ hl
  · decide

/-! ## Opening children -/

theorem Leveled.spawn (h : Leveled good t) {ctx : DirContext ActorId} (initial : Option DirV1)
    (hc : ctx.LevelOk) : Leveled good (t.spawn ctx initial) := by
  refine ⟨h.link, fun a ha => ?_, h.header⟩
  rcases List.mem_append.1 ha with ha | ha
  · exact h.spawned a ha
  · obtain rfl := List.mem_singleton.1 ha
    exact hc

theorem Leveled.openDir (h : Leveled good t) (name : String) (initial : Option DirV1) :
    Leveled good (t.openDir name initial).1 := by
  unfold Turn.openDir
  split
  · exact h
  · split
    · exact h
    · rename_i dirRef _
      have hs := h.spawn initial (levelOk_dirLink t.actor.context t.self name dirRef)
      dsimp only
      split
      · exact hs.of_eq rfl rfl rfl
      · split
        · exact h
        · exact hs.of_eq rfl rfl rfl

theorem Leveled.openDirShard (h : Leveled good t) (index : UInt8) :
    Leveled good (t.openDirShard index).1 := by
  unfold Turn.openDirShard
  split
  · exact h
  · cases hl : shardLink t.actor.state t.self index with
    | error e => exact h
    | ok x =>
      obtain ⟨dirRef, link⟩ := x
      exact (h.spawn none (levelOk_shardLink hl)).of_eq rfl rfl rfl

theorem Leveled.openShards (is : List UInt8) (h : Leveled good t) : Leveled good (openShards is t) := by
  induction is generalizing t with
  | nil => exact h
  | cons index rest ih =>
    have h1 := h.openDirShard index
    unfold Turn.openShards
    generalize t.openDirShard index = r at h1 ⊢
    obtain ⟨t1, e | c⟩ := r
    · exact h1
    · exact ih h1

variable (env : Env β)

theorem Leveled.routeToChild (h : Leveled good t) (path : String) :
    Leveled good (t.routeToChild env path).1 := by
  unfold Turn.routeToChild
  split
  · exact h
  · exact h
  · rename_i index _
    have h1 := h.openDirShard index
    generalize t.openDirShard index = r at h1 ⊢
    obtain ⟨t1, e | c⟩ := r
    · exact h1
    · exact h1
  · rename_i name rest _
    have h1 := h.openDir name none
    generalize t.openDir name none = r at h1 ⊢
    obtain ⟨t1, e | c⟩ := r
    · exact h1
    · exact h1

/-! ## Changing the directory -/

omit env in
theorem Leveled.emit (h : Leveled good t) (o : Output) : Leveled good (t.emit o) := h.of_eq rfl rfl rfl

omit env in
theorem Leveled.enter (h : Leveled good t) (phase : Phase) : Leveled good (t.enter phase) :=
  h.of_eq rfl rfl rfl

omit env in
theorem Leveled.markAsDirty (h : Leveled good t) : Leveled good t.markAsDirty := h.of_eq rfl rfl rfl

theorem Leveled.createDirAt (h : Leveled good t) (path : String) (enable : Bool) :
    Leveled good (t.createDirAt env path enable).1 := by
  unfold Turn.createDirAt
  split
  · exact h
  · dsimp only
    generalize buildChildDirRef env t.actor.context enable t.world = built
    obtain ⟨world, dirRef⟩ := built
    dsimp only
    have h1 : Leveled good { t with
        world
        actor.state := { (extractChildDirState t.actor.state path).1 with
          dirs := (extractChildDirState t.actor.state path).1.dirs.insert path dirRef } } :=
      h.of_eq rfl rfl rfl
    have h2 := h1.openDir path (some (extractChildDirState t.actor.state path).2)
    generalize Turn.openDir _ path _ = r at h2 ⊢
    obtain ⟨t1, e | c⟩ := r
    · exact h2
    · exact h2.markAsDirty

variable [DecidableEq β]

theorem Leveled.promotePrefix (h : Leveled good t) (dir : String) :
    Leveled good (t.promotePrefix env dir).1 := by
  unfold Turn.promotePrefix
  split
  · exact h
  · dsimp only
    generalize buildChildDirRef env t.actor.context _ t.world = built
    obtain ⟨world, dirRef⟩ := built
    dsimp only
    generalize optimizeDirStructure env t.actor.context _ world = res
    obtain ⟨world1, e | optimized⟩ := res
    · exact h.of_eq rfl rfl rfl
    · dsimp only
      have h1 : Leveled good { t with
          actor.state := { (extractChildDirState t.actor.state dir).1 with
            dirs := (extractChildDirState t.actor.state dir).1.dirs.insert dir dirRef }
          world := world1 } := h.of_eq rfl rfl rfl
      have h2 := h1.openDir dir (some optimized)
      generalize Turn.openDir _ dir _ = r at h2 ⊢
      obtain ⟨t1, e | c⟩ := r
      · exact h2
      · exact h2

theorem Leveled.checkAutoPromote (h : Leveled good t) (path : String) :
    Leveled good (t.checkAutoPromote env path).1 := by
  unfold Turn.checkAutoPromote
  split
  · exact h
  · split
    · exact h.promotePrefix env _
    · exact h

/-! ## Saving -/

omit [DecidableEq β] env in
theorem Leveled.moveHead (h : Leveled good t) (hash : Hash) : Leveled good (t.moveHead hash) := by
  unfold Turn.moveHead
  split
  · exact h
  · exact h.of_eq rfl rfl rfl

/-- A saved child keeps its level. -/
theorem Leveled.persisted (h : Leveled good t) {world : World β} {ctx : DirContext ActorId}
    {hash : Option Hash} (hp : (persist env t.actor.context t.actor.state t.world).2 = .ok (ctx, hash)) :
    Leveled good { t with world, actor.context := ctx } := by
  refine ⟨?_, h.spawned, h.header⟩
  rcases persist_context env _ _ _ hp with rfl | ⟨k, path, i, h₀, level, hl, rfl⟩
  · exact h.link
  · intro path' i' k' level' hl'
    cases hl'
    exact h.link _ _ _ _ hl

theorem Leveled.save (h : Leveled good t) (notify : Bool) : Leveled good (t.save env notify).1 := by
  have hp := fun (world : World β) (ctx : DirContext ActorId) (hash : Option Hash) =>
    @Leveled.persisted β good t env _ h world ctx hash
  unfold Turn.save
  generalize persist env t.actor.context t.actor.state t.world = res at hp ⊢
  obtain ⟨world, e | ⟨ctx, hash⟩⟩ := res
  · exact h.of_eq rfl rfl rfl
  · have h1 := hp world ctx hash rfl
    dsimp only
    split
    · split
      · exact (h1.moveHead _).of_eq rfl rfl rfl
      · exact h1
    · split
      · exact h1.emit _
      · exact h1
    · exact h1

theorem Leveled.shardBuckets (level : UInt8) (old : DirV1) (is : List UInt8) (h : Leveled good t) :
    Leveled good (Turn.shardBuckets env level old is t).1 := by
  induction is generalizing t with
  | nil => exact h
  | cons index rest ih =>
    unfold Turn.shardBuckets
    dsimp only
    split
    · exact ih h
    · generalize encodeChildDirBytes env t.actor.context _ t.world = r
      obtain ⟨w1, bytes, keys⟩ := r
      dsimp only
      generalize w1.importBytes env bytes = r
      obtain ⟨w2, e | k⟩ := r
      · exact h.of_eq rfl rfl rfl
      · dsimp only
        have h1 : Leveled good { t with
            world := w2
            actor.state.header.shards := some ((t.actor.state.header.shards.getD ∅).insert index
              (storedDirRef t.actor.context k keys (env.utcNow t.world.tick))) } := h.of_eq rfl rfl rfl
        have h2 := h1.openDirShard index
        generalize Turn.openDirShard _ index = r at h2 ⊢
        obtain ⟨t3, e | c⟩ := r
        · exact h2
        · exact ih h2

/-- A directory that is split takes the level it is linked by. -/
theorem Leveled.shard (h : Leveled good t) : Leveled good (t.shard env).1 := by
  have h1 : Leveled good { t with actor.state.header.shardLevel := some t.splitLevel } :=
    ⟨h.link, h.spawned, fun _ level hl => Option.some.inj hl ▸ h.splitLevel_le⟩
  have h2 := h1.shardBuckets env t.splitLevel t.actor.state ((List.range 256).map UInt8.ofNat)
  unfold splitLevel at h2
  unfold Turn.shard
  dsimp only
  generalize Turn.shardBuckets env _ _ _ _ = r at h2 ⊢
  obtain ⟨t3, e | u⟩ := r
  · exact h2
  · exact h2.of_eq rfl rfl rfl

theorem Leveled.shardIfNeeded (h : Leveled good t) : Leveled good (t.shardIfNeeded env).1 := by
  unfold Turn.shardIfNeeded
  split
  · exact h
  · split
    · exact h
    · dsimp only
      have h1 : Leveled good { t with
          actor.lastSerializedLen := env.len (env.toBytes t.actor.state)
          actor.shardSizeCheckOps := 0 } := h.of_eq rfl rfl rfl
      split
      · exact h1.shard env
      · exact h1

theorem Leveled.saveIfDirty (h : Leveled good t) (responder : Responder) :
    Leveled good (t.saveIfDirty env responder) := by
  unfold Turn.saveIfDirty
  split
  · have h1 := h.shardIfNeeded env
    generalize t.shardIfNeeded env = r at h1 ⊢
    obtain ⟨t1, e | u⟩ := r
    · exact h1.emit _
    · exact h1.of_eq rfl rfl rfl
  · exact h.emit _

omit [DecidableEq β] env in
theorem updateHash_level {a a' : DirActor} {path : DirHandlePath} {h : Hash}
    (hu : updateHash a path h = some a') :
    a'.context = a.context ∧ a'.state.header.shardLevel = a.state.header.shardLevel := by
  unfold updateHash at hu
  repeat' split at hu
  all_goals cases hu
  · exact ⟨rfl, rfl⟩
  · exact ⟨rfl, rfl⟩

omit [DecidableEq β] env in
theorem takeReplies_level (replies : List (DirHandlePath × Option (Except String (Option Hash))))
    (a : DirActor) : (replies.foldl takeReply a).context = a.context ∧
      (replies.foldl takeReply a).state.header.shardLevel = a.state.header.shardLevel := by
  induction replies generalizing a with
  | nil => exact ⟨rfl, rfl⟩
  | cons x rest ih =>
    obtain ⟨h1, h2⟩ := ih (takeReply a x)
    have hx : (takeReply a x).context = a.context ∧
        (takeReply a x).state.header.shardLevel = a.state.header.shardLevel := by
      unfold takeReply
      split
      · split
        · rename_i a1 ha
          obtain ⟨hcontext, hlevel⟩ := updateHash_level ha
          exact ⟨hcontext, hlevel⟩
        · exact ⟨rfl, rfl⟩
      · exact ⟨rfl, rfl⟩
    exact ⟨h1.trans hx.1, h2.trans hx.2⟩

theorem Leveled.finishSave (h : Leveled good t)
    (replies : List (DirHandlePath × Option (Except String (Option Hash)))) (responder : Responder) :
    Leveled good (t.finishSave env replies responder) := by
  obtain ⟨hc, hl⟩ := takeReplies_level replies t.actor
  have h1 : Leveled good { t with
      actor := { replies.foldl takeReply t.actor with phase := .idle } } := h.of_eq hc hl rfl
  unfold Turn.finishSave
  dsimp only
  split
  · have h2 := h1.save env false
    generalize Turn.save env _ false = r at h2 ⊢
    obtain ⟨t2, e | k⟩ := r
    · exact h2.emit _
    · exact h2.of_eq rfl rfl rfl
  · exact h1.emit _

theorem Leveled.autosaveTick (h : Leveled good t) : Leveled good (t.autosaveTick env) := by
  unfold Turn.autosaveTick
  split
  · have h1 := h.shardIfNeeded env
    generalize t.shardIfNeeded env = r at h1 ⊢
    obtain ⟨t1, e | u⟩ := r
    · exact h1
    · have h2 := h1.save env true
      dsimp only
      generalize t1.save env true = r at h2 ⊢
      obtain ⟨t2, e | k⟩ := r
      · exact h2
      · exact h2.of_eq rfl rfl rfl
  · exact h

/-! ## Merging -/

omit [DecidableEq β] in
/-- The level is not merged. -/
theorem Leveled.mergeNext (level : UInt8) (snapshot : DirV1) (responder : Responder) (is : List UInt8)
    (h : Leveled good t) : Leveled good (t.mergeNext env level snapshot responder is) := by
  induction is generalizing t with
  | nil => exact h.of_eq rfl rfl rfl
  | cons index rest ih =>
    unfold Turn.mergeNext
    dsimp only
    split
    · exact ih h
    · split
      · exact ih h
      · have h1 := h.openDirShard index
        generalize t.openDirShard index = r at h1 ⊢
        obtain ⟨t1, e | c⟩ := r
        · exact (h1.enter _).emit _
        · exact (h1.enter _).emit _

omit [DecidableEq β] in
theorem Leveled.mergeSnapshot (h : Leveled good t) (snapshot : DirV1) (responder : Responder) :
    Leveled good (t.mergeSnapshot env snapshot responder) := by
  unfold Turn.mergeSnapshot
  split
  · exact h.of_eq rfl rfl rfl
  · split
    · exact h.emit _
    · exact h.mergeNext env _ snapshot responder _

/-! ## Snapshots -/

theorem Leveled.exportSnapshotHash (h : Leveled good t) : Leveled good (t.exportSnapshotHash env).1 := by
  unfold Turn.exportSnapshotHash
  repeat' split
  all_goals exact h.of_eq rfl rfl rfl

theorem Leveled.createSnapshot (h : Leveled good t) (request : Nat) :
    Leveled good (t.createSnapshot env request) := by
  unfold Turn.createSnapshot
  split
  · have h1 := h.exportSnapshotHash env
    generalize t.exportSnapshotHash env = r at h1 ⊢
    obtain ⟨t1, e | k⟩ := r
    · exact h1.emit _
    · dsimp only
      split
      · exact h1.of_eq rfl rfl rfl
      · exact h1.of_eq rfl rfl rfl
  · exact h.emit _

omit [DecidableEq β] env in
theorem Leveled.deleteSnapshot (h : Leveled good t) (name : String) (request : Nat) :
    Leveled good (t.deleteSnapshot name request) := by
  unfold Turn.deleteSnapshot
  split
  · split
    · exact h.emit _
    · exact h.of_eq rfl rfl rfl
  · exact h.emit _

/-! ## Messages -/

omit [DecidableEq β] in
theorem Leveled.pathOp (h : Leveled good t) (path : String) (op : ActorMessageOp) :
    Leveled good (t.pathOp env path op) := by
  have h1 := h.routeToChild env path
  unfold Turn.pathOp
  generalize t.routeToChild env path = r at h1 ⊢
  obtain ⟨t1, e | (_ | ⟨child, rest, entered⟩)⟩ := r
  · exact h1
  · cases op with
    | fileOp task request => exact h1.of_eq rfl rfl rfl
    | createDir enable request =>
      have h2 := h1.createDirAt env path enable
      dsimp only
      generalize t1.createDirAt env path enable = r at h2 ⊢
      obtain ⟨t2, result⟩ := r
      exact h2.emit _
  · exact h1.emit _

theorem Leveled.finishFileOp (h : Leveled good t) (path : String) (stored : Bool) :
    Leveled good (t.finishFileOp env path stored) := by
  unfold Turn.finishFileOp
  dsimp only
  split
  · have h1 := (h.enter .idle).checkAutoPromote env path
    generalize Turn.checkAutoPromote env _ path = r at h1 ⊢
    obtain ⟨t1, e | u⟩ := r
    · exact h1
    · exact h1.markAsDirty
  · exact (h.enter .idle).markAsDirty

omit [DecidableEq β] env in
theorem Leveled.enterSubdir (h : Leveled good t) (base : List String) (child : ActorId) (rest : String)
    (waiting : List ActorId) (request : Nat) :
    Leveled good (t.enterSubdir base child rest waiting request) := by
  unfold Turn.enterSubdir
  split
  · exact h.emit _
  · exact (h.enter _).emit _

omit [DecidableEq β] in
theorem Leveled.openSubdir (h : Leveled good t) (base : List String) (path : String)
    (waiting : List ActorId) (request : Nat) :
    Leveled good (t.openSubdir env base path waiting request) := by
  have h1 := h.routeToChild env path
  unfold Turn.openSubdir
  generalize t.routeToChild env path = r at h1 ⊢
  obtain ⟨t1, e | (_ | ⟨child, rest, entered⟩)⟩ := r
  · exact h1.emit _
  · obtain ⟨first, rest⟩ := splitPath path
    dsimp only at h1 ⊢
    have h2 : Leveled good (if first ∈ t1.actor.state.dirs then (t1, Except.ok ())
        else t1.createDirAt env first t1.actor.context.encryptionType.isSome).1 := by
      split
      · exact h1
      · exact h1.createDirAt env _ _
    generalize (if first ∈ t1.actor.state.dirs then (t1, Except.ok ())
        else t1.createDirAt env first t1.actor.context.encryptionType.isSome) = r at h2 ⊢
    obtain ⟨t2, e | u⟩ := r
    · exact h2.emit _
    · have h3 := h2.openDir first none
      dsimp only
      generalize t2.openDir first none = r at h3 ⊢
      obtain ⟨t3, e | c⟩ := r
      · exact h3.emit _
      · exact h3.enterSubdir _ _ _ _ _
  · exact h1.enterSubdir _ _ _ _ _

theorem Leveled.processMsg (h : Leveled good t) (msg : ActorMessage) :
    Leveled good (t.processMsg env msg) := by
  cases msg with
  | pathOp path op => exact h.pathOp env path op
  | updateDirRefHash path hash =>
    unfold Turn.processMsg
    dsimp only
    split
    · rename_i a ha
      obtain ⟨hc, hl⟩ := updateHash_level ha
      have h1 : Leveled good { t with actor := a } := h.of_eq hc hl rfl
      exact h1.markAsDirty
    · exact h
  | saveIfDirty responder => exact h.saveIfDirty env responder
  | openSubdir base path waiting request => exact h.openSubdir env base path waiting request
  | exportSnapshotHash request =>
    have h1 := h.exportSnapshotHash env
    unfold Turn.processMsg
    dsimp only
    generalize t.exportSnapshotHash env = r at h1 ⊢
    exact h1.emit _
  | createSnapshot request => exact h.createSnapshot env request
  | deleteSnapshot name request => exact h.deleteSnapshot name request
  | exportSnapshot request => exact h.emit _
  | mergeSnapshot snapshot responder => exact h.mergeSnapshot env snapshot responder
  | autosaveTick => exact h.autosaveTick env
  | markAsDirty => exact h.markAsDirty

/-! ## The life of an actor -/

/-- **No call takes a level out of range.** -/
theorem leveled_handle (h : Leveled good t) {c : ActorCall} (hc : t.handle env c = .ok t') :
    Leveled good t' := by
  have hif : ∀ {b : Bool} {t1 : Turn β}, (if b then Outcome.ok t1 else .panic) = .ok t' → t' = t1 := by
    intro b t1 he
    cases b with
    | false => cases he
    | true => exact (Outcome.ok.inj he).symm
  cases c with
  | message msg =>
    have hmsg : ∀ b : Bool, (if b then Outcome.ok (t.processMsg env msg) else .panic) = .ok t' →
        Leveled good t' := by
      intro b he
      rw [hif he]
      exact h.processMsg env msg
    cases msg with
    | pathOp path op => exact hmsg _ hc
    | openSubdir base path waiting request => exact hmsg _ hc
    | mergeSnapshot snapshot responder => exact hmsg _ hc
    | saveIfDirty responder => exact hmsg _ hc
    | autosaveTick => exact hmsg _ hc
    | updateDirRefHash path hash => exact hmsg true hc
    | exportSnapshotHash request => exact hmsg true hc
    | createSnapshot request => exact hmsg true hc
    | deleteSnapshot name request => exact hmsg true hc
    | exportSnapshot request => exact hmsg true hc
    | markAsDirty => exact hmsg true hc
  | list =>
    obtain rfl := Outcome.ok.inj hc
    exact h.openShards _
  | exportMergedSnapshot =>
    obtain rfl := Outcome.ok.inj hc
    exact h.openShards _
  | listAt path =>
    unfold handle at hc
    dsimp only at hc
    split at hc
    · obtain rfl := Outcome.ok.inj hc
      exact h.openShards _
    · rw [hif hc]
      exact h.routeToChild env path
  | exportSnapshotAt path =>
    unfold handle at hc
    dsimp only at hc
    split at hc
    · obtain rfl := Outcome.ok.inj hc
      exact h
    · rw [hif hc]
      exact h.routeToChild env path
  | exportMergedSnapshotAt path =>
    unfold handle at hc
    dsimp only at hc
    split at hc
    · obtain rfl := Outcome.ok.inj hc
      exact h.openShards _
    · rw [hif hc]
      exact h.routeToChild env path

theorem Leveled.run (h : Leveled good t) (hp : t.actor.phase.isStarting = false)
    (hidle : t.actor.phase ≠ .idle) : Leveled good (t.run env) := by
  unfold Turn.run
  cases hphase : t.actor.phase with
  | starting initial =>
    rw [hphase] at hp
    cases hp
  | idle => exact absurd hphase hidle
  | executed path stored => exact h.finishFileOp env path stored
  | openingSubdir => exact h
  | saving replies responder =>
    dsimp only
    split
    · exact h.finishSave env replies responder
    · exact h
  | merging reply rest snapshot responder =>
    dsimp only
    split
    · exact h
    · exact (h.enter _).emit _
    · split
      · exact h.mergeNext env _ snapshot responder rest
      · exact h
  | looping => exact h
  | stopped => exact h

theorem run_loaded {ctx : DirContext ActorId} {d : DirV1} {len : Nat}
    (hp : t.actor.phase = .starting none) (hc : t.actor.context = ctx)
    (hl : load env ctx t.world = .ok (d, len)) :
    (t.run env).actor.context = ctx ∧ (t.run env).actor.state = d ∧ (t.run env).spawned = t.spawned := by
  subst hc
  unfold Turn.run
  rw [hp]
  unfold start
  dsimp only
  rw [hl]
  exact ⟨rfl, rfl, rfl⟩

variable {env}

variable (good) in
/-- The levels of an actor that has loaded its directory stay in range. -/
theorem Life.leveled {ctx : DirContext ActorId} {d : DirV1} (hctx : ctx.LevelOk)
    (hd : good → ∀ level, d.header.shardLevel = some level → level ≤ maxShardLevel)
    (h : Life env ctx d t) : Leveled good t := by
  induction h with
  | loaded hp hc hl hs =>
    obtain ⟨h1, h2, h3⟩ := run_loaded env hp hc hl
    refine ⟨h1 ▸ hctx, ?_, h2 ▸ hd⟩
    rw [h3, hs]
    exact List.forall_mem_nil _
  | call _ c _ hc ih => exact leveled_handle env ih hc
  | resume _ hs hp ih => exact ih.run env hs hp
  | others _ mailbox phase _ ha hs ih =>
    refine ih.of_eq ?_ ?_ hs
    · rw [ha]
    · rw [ha]

/-- Whatever is stored, children are opened under levels in range. -/
theorem Life.spawned_levelOk {ctx : DirContext ActorId} {d : DirV1} (hctx : ctx.LevelOk)
    (h : Life env ctx d t) : ∀ a ∈ t.spawned, a.context.LevelOk :=
  (h.leveled False hctx fun hf => hf.elim).spawned

omit [DecidableEq β] in
variable (env) in
theorem Leveled.shards (h : Leveled good t) : t.shards env = true := by
  unfold Turn.shards
  rw [Bool.or_eq_true]
  refine .inr (List.all_eq_true.2 fun name _ => ?_)
  exact shiftBucket_isSome h.splitLevel_le

/-- **An actor never panics exactly if its directory is stored with a shard level in range.** -/
theorem no_panic_iff {b : β} {d : DirV1} (hb : env.fromBytes b = some d) :
    (∀ ctx, ctx.LevelOk → ∀ t, Life env ctx d t →
      (∀ c, t.handle env c ≠ .panic) ∧ t.finish env ≠ .panic) ↔
      ∀ level, d.header.shardLevel = some level → level ≤ maxShardLevel := by
  constructor
  · intro h level hlevel
    -- the local root that has been stored as these bytes
    let t : Turn β := {
      self := 0
      fresh := 1
      actor := .new .localRoot none
      world := ⟨∅, some b, ∅, 0, false⟩
      localRoot := ⟨.new, none, false⟩
      registryDirHandles := ∅
      spawned := []
      out := [] }
    have hload : load env (DirContext.localRoot : DirContext ActorId) t.world = .ok (d, env.len b) := by
      simp only [load, DirContext.localRoot, t, decodeDir, hb]
    have hlife : Life env .localRoot d (t.run env) := .loaded rfl rfl hload rfl
    have hno := (h .localRoot (fun _ _ _ _ hl => by cases hl) _ hlife).1 (.listAt "x")
    by_contra hlt
    refine hno ?_
    unfold handle
    dsimp only
    have hroutes : (t.run env).routes env "x" = false := by
      unfold routes
      rw [(run_loaded env (t := t) rfl rfl hload).2.1, hlevel]
      exact Bool.eq_false_iff.2 (mt assertedBucket_isSome.1 hlt)
    rw [if_neg (by decide), hroutes]
    rfl
  · intro hd ctx hctx t hlife
    have hl := hlife.leveled True hctx fun _ => hd
    have hroutes : ∀ path, t.routes env path = true := by
      intro path
      unfold routes
      rw [Option.all_eq_true]
      exact fun level hlevel => assertedBucket_isSome.2 (hl.header trivial level hlevel)
    have hgroups : ∀ snapshot, t.groups env snapshot = true := by
      intro snapshot
      unfold groups
      rw [Option.all_eq_true]
      exact fun level hlevel => List.all_eq_true.2 fun name _ =>
        assertedBucket_isSome.2 (hl.header trivial level hlevel)
    have hshards := hl.shards env
    constructor
    · intro c
      unfold handle
      split
      all_goals simp [hroutes, hgroups, hshards]
      all_goals split <;> simp
    · unfold finish
      simp [hshards]

/-! A directory stored with a level above the maximum. -/

def deepDir : DirV1 := { DirV1.new with header.shardLevel := some 8 }

theorem no_panic_deepDir : ¬ ∀ ctx, ctx.LevelOk → ∀ t, Life (symbolic xxh3Short) ctx deepDir t →
    (∀ c, t.handle (symbolic xxh3Short) c ≠ .panic) ∧ t.finish (symbolic xxh3Short) ≠ .panic := by
  rw [no_panic_iff (b := .plain deepDir) rfl]
  intro h
  exact absurd (h 8 rfl) (by decide)

/-- The local root with `deepDir` in its file, about to start. -/
def deepTurn : Turn Sym where
  self := 0
  fresh := 1
  actor := .new .localRoot none
  world := { emptyWorld with rootFile := some (.plain deepDir) }
  localRoot := ⟨.new, none, false⟩
  registryDirHandles := ∅
  spawned := []
  out := []

/-- The bytes are accepted, and every path operation and every merge of an entry panics. -/
theorem deepDir_panics : (symbolic xxh3Short).fromBytes (.plain deepDir) = some deepDir ∧
    Life (symbolic xxh3Short) .localRoot deepDir (deepTurn.run (symbolic xxh3Short)) ∧
    (∀ path op, (deepTurn.run (symbolic xxh3Short)).handle (symbolic xxh3Short)
      (.message (.pathOp path op)) = .panic) ∧
    ∀ (snapshot : DirV1) (name : String) (file : FileRef) (responder : Responder),
      (deepTurn.run (symbolic xxh3Short)).handle (symbolic xxh3Short)
        (.message (.mergeSnapshot { snapshot with files := snapshot.files.insert name file } responder)) =
          .panic := by
  have hnone : ∀ name, assertedBucket (symbolic xxh3Short) name 8 = none := fun _ => rfl
  have hlevel : (deepTurn.run (symbolic xxh3Short)).actor.state.header.shardLevel = some 8 := by
    decide +kernel
  refine ⟨rfl, .loaded rfl rfl rfl rfl, fun path op => ?_, fun snapshot name file responder => ?_⟩
  · unfold handle routes
    dsimp only
    rw [hlevel, Option.all_some, hnone]
    rfl
  · unfold handle groups
    dsimp only
    rw [hlevel, Option.all_some, if_neg]
    intro hall
    have hmem : name ∈ (snapshot.files.insert name file).keys := by
      rw [ExtTreeMap.mem_keys]
      exact ExtTreeMap.mem_insert_self
    have hname := List.all_eq_true.1 hall name (List.mem_append_right _ hmem)
    rw [hnone] at hname
    cases hname

end Turn

end Fs
