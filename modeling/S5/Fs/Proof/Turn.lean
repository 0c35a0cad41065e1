import S5.Fs.Head
import S5.Fs.System
import S5.Fs.Proof.Lookup

/-!
# What a turn leaves as it is

Most of what an actor does touches neither the root file, nor what lies beside it, nor the hash it
takes for the stored one (`Turn.Keeps`). What a turn of a local root can do besides is said once
(`Turn.LocalStep`, `Turn.run_local`, `Turn.close_local`); all other actors touch nothing of it
(`Turn.run_child`, `Turn.close_child`).
-/

open Std

namespace Fs

variable {β : Type}

def DirContext.isLocal {ι : Type} (ctx : DirContext ι) : Bool :=
  match ctx.link with
  | .localFile => true
  | _ => false

namespace Turn

def head (t : Turn β) : Head β := ⟨t.localRoot, t.world.rootFile, t.actor.currentHash⟩

/-- The turn goes on without touching the head; the actor stays linked as it is, and whom it spawns
is no local root. -/
structure Keeps (t t' : Turn β) : Prop where
  head : t'.head = t.head
  self : t'.self = t.self
  context : t'.actor.context = t.actor.context ∨
    t.actor.context.isLocal = false ∧ t'.actor.context.isLocal = false
  started : t'.actor.phase.isStarting = true → t'.actor.phase = t.actor.phase
  spawned : ∀ a ∈ t'.spawned, a ∈ t.spawned ∨ a.context.isLocal = false

theorem Keeps.refl (t : Turn β) : Keeps t t := ⟨rfl, rfl, .inl rfl, fun _ => rfl, fun _ => .inl⟩

theorem Keeps.trans {t t' t'' : Turn β} (h : Keeps t t') (h' : Keeps t' t'') : Keeps t t'' where
  head := h'.head.trans h.head
  self := h'.self.trans h.self
  context := by
    rcases h.context with hc | ⟨hn, hn'⟩
    · rcases h'.context with hc' | ⟨hn, hn'⟩
      · exact .inl (hc'.trans hc)
      · exact .inr ⟨hc ▸ hn, hn'⟩
    · rcases h'.context with hc' | ⟨-, hn''⟩
      · exact .inr ⟨hn, hc' ▸ hn'⟩
      · exact .inr ⟨hn, hn''⟩
  started hs := by
    have h2 := h'.started hs
    rw [h2]
    exact h.started (h2 ▸ hs)
  spawned a ha := by
    rcases h'.spawned a ha with hm | hn
    · exact h.spawned a hm
    · exact .inr hn

theorem Keeps.child {t t' : Turn β} (h : Keeps t t') (hc : t.actor.context.isLocal = false) :
    t'.actor.context.isLocal = false := by
  rcases h.context with hctx | ⟨-, hn⟩
  · rw [hctx]
    exact hc
  · exact hn

/-- The turn stays within the actor and spawns no local root. -/
structure Frame (t t' : Turn β) : Prop where
  self : t'.self = t.self
  context : t'.actor.context = t.actor.context
  started : t'.actor.phase.isStarting = true → t'.actor.phase = t.actor.phase
  spawned : ∀ a ∈ t'.spawned, a ∈ t.spawned ∨ a.context.isLocal = false

theorem isLocal_of_localRoot {ctx : DirContext ActorId} (h : ctx = .localRoot) :
    ctx.isLocal = true := by
  rw [h]
  rfl

theorem Keeps.frame {t t' : Turn β} (h : Keeps t t') (hc : t.actor.context.isLocal = true) :
    Frame t t' := by
  refine ⟨h.self, ?_, h.started, h.spawned⟩
  rcases h.context with hctx | ⟨hn, -⟩
  · exact hctx
  · exact absurd (hn.symm.trans hc) (by decide)

theorem Frame.trans {t t' t'' : Turn β} (h : Frame t t') (h' : Frame t' t'') : Frame t t'' where
  self := h'.self.trans h.self
  context := h'.context.trans h.context
  started hs := by
    have h2 := h'.started hs
    rw [h2]
    exact h.started (h2 ▸ hs)
  spawned a ha := by
    rcases h'.spawned a ha with hm | hn
    · exact h.spawned a hm
    · exact .inr hn

theorem keeps_emit (t : Turn β) (o : Output) : Keeps t (t.emit o) :=
  ⟨rfl, rfl, .inl rfl, fun _ => rfl, fun _ => .inl⟩

theorem keeps_enter (t : Turn β) {phase : Phase} (h : phase.isStarting = false) :
    Keeps t (t.enter phase) :=
  ⟨rfl, rfl, .inl rfl, fun hs => absurd (hs.symm.trans h) (by decide), fun _ => .inl⟩

theorem keeps_world (t : Turn β) {w : World β} (h : w.rootFile = t.world.rootFile) :
    Keeps t { t with world := w } :=
  ⟨by simp [Turn.head, h], rfl, .inl rfl, fun _ => rfl, fun _ => .inl⟩

theorem keeps_markAsDirty (t : Turn β) : Keeps t t.markAsDirty :=
  ⟨rfl, rfl, .inl rfl, fun _ => rfl, fun _ => .inl⟩

/-! ## Opening children -/

theorem isLocal_withNewRef (ctx : DirContext ActorId) (dirRef : DirRef)
    {link : DirContextParentLink ActorId} (h : link ≠ .localFile) :
    (ctx.withNewRef dirRef link).isLocal = false := by
  cases link with
  | localFile => exact absurd rfl h
  | registryKey => rfl
  | dirHandle => rfl

theorem dirLink_ne_local (ctx : DirContext ActorId) (self : ActorId) (name : String)
    (dirRef : DirRef) : dirLink ctx self name dirRef ≠ .localFile := by
  unfold dirLink
  split <;> simp

theorem shardLink_ne_local {state : DirV1} {self : ActorId} {index : UInt8} {dirRef : DirRef}
    {link : DirContextParentLink ActorId} (h : shardLink state self index = .ok (dirRef, link)) :
    link ≠ .localFile := by
  unfold shardLink at h
  repeat' split at h
  all_goals cases h
  simp

/-- Spawning an actor that is no local root, whatever becomes of the handles. -/
theorem keeps_spawn (t : Turn β) {context : DirContext ActorId} (state : Option DirV1)
    (h : context.isLocal = false) : Keeps t (t.spawn context state) := by
  refine ⟨rfl, rfl, .inl rfl, fun _ => rfl, fun a ha => ?_⟩
  rcases List.mem_append.1 ha with hm | hm
  · exact .inl hm
  · rw [List.mem_singleton.1 hm]
    exact .inr h

theorem keeps_openDir (t : Turn β) (name : String) (state : Option DirV1) :
    Keeps t (t.openDir name state).1 := by
  unfold openDir
  cases t.actor.dirHandles[name]? with
  | some child => exact Keeps.refl t
  | none =>
    cases t.actor.state.dirs[name]? with
    | none => exact Keeps.refl t
    | some dirRef =>
      have hs := keeps_spawn t state (isLocal_withNewRef t.actor.context dirRef
        (dirLink_ne_local t.actor.context t.self name dirRef))
      dsimp only
      cases dirRef.refTypeD with
      | blake3Hash => exact ⟨hs.head, hs.self, hs.context, hs.started, hs.spawned⟩
      | registryKey =>
        cases t.registryDirHandles[dirRef.hash]? with
        | some child => exact Keeps.refl t
        | none => exact ⟨hs.head, hs.self, hs.context, hs.started, hs.spawned⟩

theorem keeps_openDirShard (t : Turn β) (index : UInt8) :
    Keeps t (t.openDirShard index).1 := by
  unfold openDirShard
  cases t.actor.dirShardHandles[index]? with
  | some child => exact Keeps.refl t
  | none =>
    dsimp only
    cases hl : shardLink t.actor.state t.self index with
    | error e => exact Keeps.refl t
    | ok p =>
      obtain ⟨dirRef, link⟩ := p
      have hs := keeps_spawn t none
        (isLocal_withNewRef t.actor.context dirRef (shardLink_ne_local hl))
      exact ⟨hs.head, hs.self, hs.context, hs.started, hs.spawned⟩

variable (env : Env β)

theorem keeps_routeToChild (t : Turn β) (path : String) :
    Keeps t (t.routeToChild env path).1 := by
  unfold routeToChild
  cases route env t.actor.state path with
  | error e => exact Keeps.refl t
  | ok r =>
    cases r with
    | here => exact Keeps.refl t
    | shard index =>
      have h := keeps_openDirShard t index
      dsimp only
      generalize t.openDirShard index = r at h ⊢
      rcases r with ⟨t', e | child⟩ <;> exact h
    | dir name rest =>
      have h := keeps_openDir t name none
      dsimp only
      generalize t.openDir name none = r at h ⊢
      rcases r with ⟨t', e | child⟩ <;> exact h

/-! ## Changing the directory -/

/-- The actor's entries and the counters change, nothing else. -/
theorem keeps_state (t : Turn β) {w : World β} (state : DirV1) (h : w.rootFile = t.world.rootFile) :
    Keeps t { t with world := w, actor.state := state } :=
  ⟨by simp [Turn.head, h], rfl, .inl rfl, fun _ => rfl, fun _ => .inl⟩

theorem keeps_createDirAt (t : Turn β) (path : String) (enable : Bool) :
    Keeps t (t.createDirAt env path enable).1 := by
  unfold createDirAt
  split
  · exact Keeps.refl t
  · dsimp only
    generalize hd : buildChildDirRef env t.actor.context enable t.world = p
    obtain ⟨w, dirRef⟩ := p
    have hw : w.rootFile = t.world.rootFile := by
      rw [show w = _ from congrArg Prod.fst hd.symm]
      rfl
    have h1 := keeps_state t { (extractChildDirState t.actor.state path).1 with
      dirs := (extractChildDirState t.actor.state path).1.dirs.insert path dirRef } hw
    have h2 := h1.trans (keeps_openDir _ path (some (extractChildDirState t.actor.state path).2))
    dsimp only
    generalize openDir _ path _ = r at h2 ⊢
    rcases r with ⟨t', e | child⟩
    · exact h2
    · exact h2.trans (keeps_markAsDirty t')

/-- The actor changes its entries only. -/
structure SameRoot (a a' : DirActor) : Prop where
  currentHash : a'.currentHash = a.currentHash
  context : a'.context = a.context
  phase : a'.phase = a.phase

theorem sameRoot_updateHash {a a' : DirActor} {path : DirHandlePath} {h : Hash}
    (hu : updateHash a path h = some a') : SameRoot a a' := by
  unfold updateHash at hu
  repeat' split at hu
  all_goals cases hu
  all_goals exact ⟨rfl, rfl, rfl⟩

theorem sameRoot_takeReply (a : DirActor)
    (r : DirHandlePath × Option (Except String (Option Hash))) : SameRoot a (takeReply a r) := by
  unfold takeReply
  split
  · split
    · rename_i hu
      have h := sameRoot_updateHash hu
      exact ⟨h.currentHash, h.context, h.phase⟩
    · exact ⟨rfl, rfl, rfl⟩
  · exact ⟨rfl, rfl, rfl⟩

theorem sameRoot_replies : ∀ (rs : List (DirHandlePath × Option (Except String (Option Hash))))
    (a : DirActor), SameRoot a (rs.foldl takeReply a)
  | [], _ => ⟨rfl, rfl, rfl⟩
  | r :: rs, a => by
    have h := sameRoot_takeReply a r
    have hs := sameRoot_replies rs (takeReply a r)
    exact ⟨hs.currentHash.trans h.currentHash, hs.context.trans h.context, hs.phase.trans h.phase⟩

theorem keeps_actor (t : Turn β) {a : DirActor} (h : SameRoot t.actor a) :
    Keeps t { t with actor := a } :=
  ⟨by simp [head, h.currentHash], rfl, .inl h.context, fun _ => h.phase, fun _ => .inl⟩

/-! ## Merging -/

theorem keeps_mergeNext (level : UInt8) (snapshot : DirV1) (responder : Responder) :
    ∀ (is : List UInt8) (t : Turn β), Keeps t (t.mergeNext env level snapshot responder is)
  | [], t => by
    unfold mergeNext
    exact (keeps_state t _ rfl).trans ((keeps_markAsDirty _).trans
      ((keeps_enter _ rfl).trans (keeps_emit _ _)))
  | index :: rest, t => by
    unfold mergeNext
    dsimp only
    split
    · exact keeps_mergeNext level snapshot responder rest t
    · split
      · exact keeps_mergeNext level snapshot responder rest t
      · have h := keeps_openDirShard t index
        generalize t.openDirShard index = r at h ⊢
        rcases r with ⟨t', e | child⟩
        · exact h.trans ((keeps_enter t' rfl).trans (keeps_emit _ _))
        · exact h.trans ((keeps_enter t' rfl).trans (keeps_emit _ _))

theorem keeps_mergeSnapshot (t : Turn β) (snapshot : DirV1) (responder : Responder) :
    Keeps t (t.mergeSnapshot env snapshot responder) := by
  unfold mergeSnapshot
  split
  · have h : Keeps t ((t.mergeLocal snapshot).mergeHeader snapshot.header) :=
      ⟨rfl, rfl, .inl rfl, fun _ => rfl, fun _ => .inl⟩
    exact h.trans ((keeps_markAsDirty _).trans (keeps_emit _ _))
  · split
    · exact keeps_emit t _
    · exact keeps_mergeNext env _ snapshot responder _ t

/-! ## Routed messages -/

theorem keeps_pathOp (t : Turn β) (path : String) (op : ActorMessageOp) :
    Keeps t (t.pathOp env path op) := by
  unfold pathOp
  have h := keeps_routeToChild env t path
  generalize t.routeToChild env path = r at h ⊢
  rcases r with ⟨t', e | _ | ⟨child, rest, entered⟩⟩
  · exact h
  · cases op with
    | fileOp task request =>
      exact h.trans ⟨rfl, rfl, .inl rfl, nofun, fun _ => .inl⟩
    | createDir enable request =>
      exact h.trans ((keeps_createDirAt env t' path enable).trans (keeps_emit _ _))
  · exact h.trans (keeps_emit t' _)

theorem keeps_enterSubdir (t : Turn β) (base : List String) (child : ActorId) (rest : String)
    (waiting : List ActorId) (request : Nat) :
    Keeps t (t.enterSubdir base child rest waiting request) := by
  unfold enterSubdir
  split
  · exact keeps_emit t _
  · exact (keeps_enter t rfl).trans (keeps_emit _ _)

theorem keeps_openSubdir (t : Turn β) (base : List String) (path : String)
    (waiting : List ActorId) (request : Nat) :
    Keeps t (t.openSubdir env base path waiting request) := by
  unfold openSubdir
  have h := keeps_routeToChild env t path
  generalize t.routeToChild env path = r at h ⊢
  rcases r with ⟨t', e | _ | ⟨child, rest, entered⟩⟩
  · exact h.trans (keeps_emit t' _)
  · dsimp only
    generalize hr : (if (splitPath path).1 ∈ t'.actor.state.dirs then _ else _ :
      Turn β × Except String Unit) = r
    have h1 : Keeps t r.1 := by
      rw [← hr]
      split
      · exact h
      · exact h.trans (keeps_createDirAt env t' _ _)
    rcases r with ⟨t1, e | u⟩
    · exact h1.trans (keeps_emit t1 _)
    · dsimp only
      have h2 := h1.trans (keeps_openDir t1 (splitPath path).1 none)
      generalize t1.openDir (splitPath path).1 none = r2 at h2 ⊢
      rcases r2 with ⟨t2, e | child⟩
      · exact h2.trans (keeps_emit t2 _)
      · exact h2.trans (keeps_enterSubdir t2 _ _ _ _ _)
  · exact h.trans (keeps_enterSubdir t' _ _ _ _ _)

/-! ## Promotion -/

variable [DecidableEq β]

theorem promoteGroups_rootFile {optimize : DirV1 → World β → World β × Except String DirV1}
    (ctx : DirContext ActorId) (ho : ∀ d w, (optimize d w).1.rootFile = w.rootFile) :
    ∀ (dirs : List String) (state : DirV1) (w : World β),
      (promoteGroups env optimize ctx dirs state w).1.rootFile = w.rootFile
  | [], _, _ => rfl
  | dir :: rest, state, w => by
    unfold promoteGroups
    split
    · exact promoteGroups_rootFile ctx ho rest state w
    · dsimp only
      have h1 := ho (extractChildDirState state dir).2 w
      generalize optimize (extractChildDirState state dir).2 w = r1 at h1 ⊢
      rcases r1 with ⟨w1, e | child⟩
      · exact h1
      · dsimp only
        have h2 := encodeChildDirBytes_rootFile env ctx child w1
        generalize encodeChildDirBytes env ctx child w1 = r2 at h2 ⊢
        obtain ⟨w2, bytes, keys⟩ := r2
        have h3 := World.importBytes_rootFile env w2 bytes
        dsimp only
        generalize w2.importBytes env bytes = r3 at h3 ⊢
        have hw : r3.1.rootFile = w.rootFile := h3.trans (h2.trans h1)
        rcases r3 with ⟨w3, e | h⟩
        · exact hw
        · exact (promoteGroups_rootFile ctx ho rest _ w3).trans hw

theorem optimizeFrom_rootFile (order : GroupOrder) (ctx : DirContext ActorId) :
    ∀ (depth : Nat) (state : DirV1) (w : World β),
      (optimizeFrom env (fun state w => (w, .ok state)) order ctx depth state w).1.rootFile = w.rootFile
  | 0, _, _ => rfl
  | depth + 1, state, w =>
    promoteGroups_rootFile env ctx (optimizeFrom_rootFile order ctx depth) _ state w

theorem keeps_promotePrefix (t : Turn β) (dir : String) :
    Keeps t (t.promotePrefix env dir).1 := by
  unfold promotePrefix
  split
  · exact Keeps.refl t
  · dsimp only
    generalize hd : buildChildDirRef env t.actor.context t.actor.context.encryptionType.isSome
      t.world = p
    obtain ⟨w, dirRef⟩ := p
    have hw : w.rootFile = t.world.rootFile := by
      rw [show w = _ from congrArg Prod.fst hd.symm]
      rfl
    have ho : (optimizeDirStructure env t.actor.context
        (extractChildDirState t.actor.state dir).2 w).1.rootFile = w.rootFile :=
      optimizeFrom_rootFile env _ t.actor.context _ _ w
    generalize optimizeDirStructure env t.actor.context (extractChildDirState t.actor.state dir).2 w = r
      at ho ⊢
    have h1 := keeps_state t { (extractChildDirState t.actor.state dir).1 with
      dirs := (extractChildDirState t.actor.state dir).1.dirs.insert dir dirRef } (ho.trans hw)
    rcases r with ⟨w', e | optimized⟩
    · exact h1
    · have h2 := h1.trans (keeps_openDir _ dir (some optimized))
      dsimp only
      generalize openDir _ dir _ = r at h2 ⊢
      rcases r with ⟨t', e | child⟩ <;> exact h2

theorem keeps_checkAutoPromote (t : Turn β) (path : String) :
    Keeps t (t.checkAutoPromote env path).1 := by
  unfold checkAutoPromote
  split
  · exact Keeps.refl t
  · split
    · exact keeps_promotePrefix env t _
    · exact Keeps.refl t

/-! ## Sharding -/

theorem keeps_shardBuckets (level : UInt8) (old : DirV1) : ∀ (is : List UInt8) (t : Turn β),
    Keeps t (shardBuckets env level old is t).1
  | [], t => Keeps.refl t
  | index :: rest, t => by
    unfold shardBuckets
    dsimp only
    split
    · exact keeps_shardBuckets level old rest t
    · have h1 := encodeChildDirBytes_rootFile env t.actor.context (shardState env old level index)
        t.world
      generalize encodeChildDirBytes env t.actor.context (shardState env old level index)
        t.world = r1 at h1 ⊢
      obtain ⟨w1, bytes, keys⟩ := r1
      have h2 := (World.importBytes_rootFile env w1 bytes).trans h1
      dsimp only
      generalize w1.importBytes env bytes = r2 at h2 ⊢
      rcases r2 with ⟨w2, e | h⟩
      · exact keeps_state t _ h2
      · have h3 := (keeps_state t { t.actor.state with
          header.shards := some ((t.actor.state.header.shards.getD ∅).insert index
            (storedDirRef t.actor.context h keys (env.utcNow t.world.tick))) } h2).trans
          (keeps_openDirShard _ index)
        dsimp only
        generalize openDirShard _ index = r3 at h3 ⊢
        rcases r3 with ⟨t', e | child⟩
        · exact h3
        · exact h3.trans (keeps_shardBuckets level old rest t')

theorem keeps_shard (t : Turn β) : Keeps t (t.shard env).1 := by
  unfold shard
  dsimp only
  generalize hr : shardBuckets env _ t.actor.state _ _ = r
  have h : Keeps t r.1 := by
    rw [← hr]
    exact (keeps_state t _ rfl).trans (keeps_shardBuckets env _ _ _ _)
  rcases r with ⟨t', e | u⟩
  · exact h
  · exact h.trans (keeps_state t' _ rfl)

theorem keeps_shardIfNeeded (t : Turn β) : Keeps t (t.shardIfNeeded env).1 := by
  unfold shardIfNeeded
  split
  · exact Keeps.refl t
  · split
    · exact Keeps.refl t
    · have h : Keeps t { t with
          actor.lastSerializedLen := env.len (env.toBytes t.actor.state)
          actor.shardSizeCheckOps := 0 } := ⟨rfl, rfl, .inl rfl, fun _ => rfl, fun _ => .inl⟩
      dsimp only
      split
      · exact h.trans (keeps_shard env _)
      · exact h

/-! ## Saving -/

theorem keeps_saveIfDirty (t : Turn β) (responder : Responder) :
    Keeps t (t.saveIfDirty env responder) := by
  unfold saveIfDirty
  split
  · have h := keeps_shardIfNeeded env t
    generalize t.shardIfNeeded env = r at h ⊢
    rcases r with ⟨t', e | u⟩
    · exact h.trans (keeps_emit t' _)
    · exact h.trans ⟨rfl, rfl, .inl rfl, nofun, fun _ => .inl⟩
  · exact keeps_emit t _

/-- A child saves itself elsewhere. -/
theorem keeps_save (t : Turn β) (notify : Bool) (hl : t.actor.context.isLocal = false) :
    Keeps t (t.save env notify).1 := by
  unfold save persist
  have h1 := encodeStateBytes_rootFile env t.actor.context t.actor.state t.world
  generalize encodeStateBytes env t.actor.context t.actor.state t.world = r1 at h1 ⊢
  rcases r1 with ⟨w1, e | bytes⟩
  · exact keeps_world t h1
  · dsimp only
    have h2 := (World.importBytes_rootFile env w1 bytes).trans h1
    generalize w1.importBytes env bytes = r2 at h2 ⊢
    rcases r2 with ⟨w2, e | h⟩
    · exact keeps_world t h2
    · cases hlink : t.actor.context.link with
      | localFile => simp [DirContext.isLocal, hlink] at hl
      | registryKey publicKey signingKey =>
        cases signingKey with
        | none =>
          simp only [hlink]
          exact ⟨by simpa [head] using h2, rfl, .inl rfl, fun _ => rfl, fun _ => .inl⟩
        | some key =>
          simp only [hlink]
          refine ⟨?_, rfl, .inl rfl, fun _ => rfl, fun _ => .inl⟩
          simp only [head, Head.mk.injEq, true_and, and_true]
          exact (World.setRegistry_rootFile _ _ _).trans h2
      | dirHandle path parent hash level =>
        dsimp only
        split
        all_goals exact ⟨by simpa [head, emit] using h2, rfl, .inr ⟨hl, rfl⟩, fun _ => rfl, fun _ => .inl⟩

/-! ## Other messages -/

theorem keeps_exportSnapshotHash (t : Turn β) : Keeps t (t.exportSnapshotHash env).1 := by
  unfold exportSnapshotHash
  have h1 := encodeStateBytes_rootFile env t.actor.context t.actor.state t.world
  generalize encodeStateBytes env t.actor.context t.actor.state t.world = r1 at h1 ⊢
  rcases r1 with ⟨w1, e | bytes⟩
  · exact keeps_world t h1
  · dsimp only
    have h2 := (World.importBytes_rootFile env w1 bytes).trans h1
    generalize w1.importBytes env bytes = r2 at h2 ⊢
    rcases r2 with ⟨w2, e | h⟩ <;> exact keeps_world t h2

theorem keeps_finishFileOp (t : Turn β) (path : String) (stored : Bool) :
    Keeps t (t.finishFileOp env path stored) := by
  unfold finishFileOp
  have he : Keeps t (t.enter .idle) := keeps_enter t rfl
  dsimp only
  split
  · have h := he.trans (keeps_checkAutoPromote env _ path)
    generalize checkAutoPromote env _ path = r at h ⊢
    rcases r with ⟨t', e | u⟩
    · exact h
    · exact h.trans (keeps_markAsDirty t')
  · exact he.trans (keeps_markAsDirty _)

/-- All messages but these leave the head. -/
theorem keeps_processMsg (t : Turn β) (msg : ActorMessage) :
    Keeps t (processMsg env t msg) ∨ msg = .autosaveTick ∨
      (∃ request, msg = .createSnapshot request) ∨
      ∃ name request, msg = .deleteSnapshot name request := by
  cases msg with
  | pathOp path op => exact .inl (keeps_pathOp env t path op)
  | openSubdir base path waiting request =>
    exact .inl (keeps_openSubdir env t base path waiting request)
  | updateDirRefHash path hash =>
    left
    simp only [processMsg]
    split
    · rename_i a hu
      exact (keeps_actor t (sameRoot_updateHash hu)).trans (keeps_markAsDirty _)
    · exact Keeps.refl t
  | saveIfDirty responder => exact .inl (keeps_saveIfDirty env t responder)
  | exportSnapshotHash request =>
    exact .inl ((keeps_exportSnapshotHash env t).trans (keeps_emit _ _))
  | createSnapshot request => exact .inr (.inr (.inl ⟨request, rfl⟩))
  | deleteSnapshot name request => exact .inr (.inr (.inr ⟨name, request, rfl⟩))
  | exportSnapshot request => exact .inl (keeps_emit t _)
  | mergeSnapshot snapshot responder => exact .inl (keeps_mergeSnapshot env t snapshot responder)
  | autosaveTick => exact .inr (.inl rfl)
  | markAsDirty => exact .inl (keeps_markAsDirty t)

theorem keeps_merged (t : Turn β) (reply : Option (Except String Unit)) (rest : List UInt8)
    (snapshot : DirV1) (responder : Responder)
    (hp : t.actor.phase = .merging reply rest snapshot responder) : Keeps t (t.run env) := by
  unfold run
  rw [hp]
  dsimp only
  split
  · exact Keeps.refl t
  · exact (keeps_enter t rfl).trans (keeps_emit _ _)
  · split
    · exact keeps_mergeNext env _ snapshot responder rest t
    · exact Keeps.refl t

/-! ## A local root -/

/-- What a turn of a local root does to its head. -/
inductive LocalStep (t t' : Turn β) : Prop where
  | keep (hp : t.actor.phase.isRunning = true) (h : t'.head = t.head)
  | stop (hp : t'.actor.phase = .stopped) (h : t'.head = t.head)
  | load (h : t'.head = t.head.load env)
  | save (hp : t.actor.phase.isRunning = true) (bytes : β) (h : t'.head = t.head.save env bytes)
  | createSnapshot (request : Nat) (rest : List ActorMessage) (now : UInt32 × UInt32)
      (hp : t.actor.phase = .idle) (hm : t.actor.mailbox = .createSnapshot request :: rest)
      (h : t'.head = t.head.createSnapshot env now (env.toBytes t.actor.state))
  | deleteSnapshot (name : String) (request : Nat) (rest : List ActorMessage)
      (hp : t.actor.phase = .idle) (hm : t.actor.mailbox = .deleteSnapshot name request :: rest)
      (h : t'.head = t.head.deleteSnapshot name)

variable {env}

omit [DecidableEq β] in
theorem LocalStep.of_keeps {t t' : Turn β} (hc : t.actor.context.isLocal = true)
    (hs : t.actor.phase.isRunning = true) (h : Keeps t t') : Frame t t' ∧ LocalStep env t t' :=
  ⟨h.frame hc, .keep hs h.head⟩

/-- A local root writes its root file, or the blob store fails. -/
theorem save_local (t : Turn β) (notify : Bool) (hc : t.actor.context = .localRoot) :
    Keeps t (t.save env notify).1 ∨ Frame t (t.save env notify).1 ∧
      (t.save env notify).1.head = t.head.save env (env.toBytes t.actor.state) := by
  unfold save persist encodeStateBytes
  rw [hc]
  dsimp only [DirContext.localRoot]
  have h2 := World.importBytes_rootFile env t.world (env.toBytes t.actor.state)
  generalize t.world.importBytes env (env.toBytes t.actor.state) = r2 at h2 ⊢
  rcases r2 with ⟨w2, e | h⟩
  · left
    exact keeps_world t h2
  · right
    dsimp only
    unfold moveHead
    cases hp : t.localRoot.pins with
    | none =>
      refine ⟨⟨rfl, hc.symm, fun _ => rfl, fun _ => .inl⟩, ?_⟩
      simp [head, Head.save, hp]
    | some pins =>
      refine ⟨⟨rfl, hc.symm, fun _ => rfl, fun _ => .inl⟩, ?_⟩
      cases hcur : t.actor.currentHash <;> simp [head, Head.save, hp, hcur]

theorem LocalStep.of_save {t t1 t' : Turn β} {notify : Bool} (hc : t.actor.context = .localRoot)
    (hs : t.actor.phase.isRunning = true) (h1 : Keeps t t1)
    (h2 : Keeps (t1.save env notify).1 t') : Frame t t' ∧ LocalStep env t t' := by
  have hloc := isLocal_of_localRoot hc
  have hf1 := h1.frame hloc
  have hc1 : t1.actor.context = .localRoot := hf1.context.trans hc
  rcases save_local t1 notify hc1 with hk | ⟨hf, hh⟩
  · exact LocalStep.of_keeps hloc hs (h1.trans (hk.trans h2))
  · have hloc2 : (t1.save env notify).1.actor.context.isLocal = true := by
      rw [hf.context, hc1]
      rfl
    refine ⟨hf1.trans (hf.trans (h2.frame hloc2)), .save hs (env.toBytes t1.actor.state) ?_⟩
    rw [h2.head, hh, h1.head]

theorem finishSave_local (t : Turn β)
    (replies : List (DirHandlePath × Option (Except String (Option Hash)))) (responder : Responder)
    (hc : t.actor.context = .localRoot) (hs : t.actor.phase.isRunning = true) :
    Frame t (t.finishSave env replies responder) ∧
      LocalStep env t (t.finishSave env replies responder) := by
  have hloc := isLocal_of_localRoot hc
  have h1 : Keeps t { t with actor := { replies.foldl takeReply t.actor with phase := .idle } } :=
    (keeps_actor t (sameRoot_replies replies t.actor)).trans (keeps_enter _ rfl)
  unfold finishSave
  dsimp only
  split
  · generalize hr : save env _ false = r
    have h2 : ∀ {t'}, Keeps r.1 t' → Frame t t' ∧ LocalStep env t t' := by
      intro t' h2
      rw [← hr] at h2
      exact LocalStep.of_save hc hs h1 h2
    rcases r with ⟨t1, e | hash⟩
    · exact h2 (keeps_emit t1 _)
    · exact h2 ⟨rfl, rfl, .inl rfl, fun _ => rfl, fun _ => .inl⟩
  · exact LocalStep.of_keeps hloc hs (h1.trans (keeps_emit _ _))

theorem autosaveTick_local {t t0 : Turn β} (h0 : Keeps t t0) (hc : t.actor.context = .localRoot)
    (hs : t.actor.phase.isRunning = true) :
    Frame t (t0.autosaveTick env) ∧ LocalStep env t (t0.autosaveTick env) := by
  have hloc := isLocal_of_localRoot hc
  unfold autosaveTick
  split
  · have h1 := h0.trans (keeps_shardIfNeeded env t0)
    generalize t0.shardIfNeeded env = r1 at h1 ⊢
    rcases r1 with ⟨t1, e | u⟩
    · exact LocalStep.of_keeps hloc hs h1
    · dsimp only
      generalize hr : t1.save env true = r
      have h2 : ∀ {t'}, Keeps r.1 t' → Frame t t' ∧ LocalStep env t t' := by
        intro t' h2
        rw [← hr] at h2
        exact LocalStep.of_save hc hs h1 h2
      rcases r with ⟨t2, e | hash⟩
      · exact h2 (Keeps.refl t2)
      · exact h2 ⟨rfl, rfl, .inl rfl, fun _ => rfl, fun _ => .inl⟩
  · exact LocalStep.of_keeps hloc hs h0

/-- The hash under which the state of a local root is exported. -/
theorem exportSnapshotHash_local {t t' : Turn β} {h : Hash} (hc : t.actor.context = .localRoot)
    (he : t.exportSnapshotHash env = (t', .ok h)) : h = env.blake3 (env.toBytes t.actor.state) := by
  unfold exportSnapshotHash encodeStateBytes at he
  rw [hc] at he
  dsimp only [DirContext.localRoot] at he
  generalize hi : t.world.importBytes env (env.toBytes t.actor.state) = r at he
  rcases r with ⟨w, e | k⟩
  · exact nomatch he
  · obtain rfl : k = h := by simpa using congrArg Prod.snd he
    exact World.importBytes_hash hi

variable (env) in
theorem createSnapshot_local (t : Turn β) (request : Nat) (hc : t.actor.context = .localRoot) :
    Keeps t (t.createSnapshot env request) ∨ Frame t (t.createSnapshot env request) ∧
      ∃ now, (t.createSnapshot env request).head =
        t.head.createSnapshot env now (env.toBytes t.actor.state) := by
  have hloc := isLocal_of_localRoot hc
  unfold createSnapshot
  have hlink : t.actor.context.link = .localFile := by rw [hc]; rfl
  rw [hlink]
  dsimp only
  have h1 := keeps_exportSnapshotHash env t
  generalize he : t.exportSnapshotHash env = r at h1 ⊢
  rcases r with ⟨t1, e | h⟩
  · left
    exact h1.trans (keeps_emit t1 _)
  · right
    obtain rfl := exportSnapshotHash_local hc he
    have hf := h1.frame hloc
    have hroot : t1.localRoot = t.localRoot := congrArg Head.localRoot h1.head
    have hfile : t1.world.rootFile = t.world.rootFile := congrArg Head.rootFile h1.head
    dsimp only
    cases hi : t1.localRoot.snapshots.insertSnapshot (env.rfc3339 (env.utcNow t1.world.tick))
        (env.utcNow t1.world.tick) (env.blake3 (env.toBytes t.actor.state)) with
    | none =>
      refine ⟨hf.trans ⟨rfl, rfl, nofun, fun _ => .inl⟩, env.utcNow t1.world.tick, ?_⟩
      rw [hroot] at hi
      simp [Head.createSnapshot, head, enter, hi, hroot, hfile, World.next]
    | some p =>
      obtain ⟨index, name⟩ := p
      refine ⟨hf.trans ⟨rfl, rfl, fun _ => rfl, fun _ => .inl⟩, env.utcNow t1.world.tick, ?_⟩
      rw [hroot] at hi
      simp [Head.createSnapshot, head, emit, hi, hroot, hfile, World.next]

omit [DecidableEq β] in
theorem deleteSnapshot_local (t : Turn β) (name : String) (request : Nat)
    (hc : t.actor.context = .localRoot) :
    Frame t (t.deleteSnapshot name request) ∧
      (t.deleteSnapshot name request).head = t.head.deleteSnapshot name := by
  have hlink : t.actor.context.link = .localFile := by rw [hc]; rfl
  unfold deleteSnapshot Head.deleteSnapshot
  rw [hlink]
  dsimp only [head]
  generalize t.localRoot.snapshots.removeSnapshot name = r
  rcases r with ⟨index, _ | h⟩
  · exact ⟨⟨rfl, rfl, fun _ => rfl, fun _ => .inl⟩, rfl⟩
  · exact ⟨⟨rfl, rfl, fun _ => rfl, fun _ => .inl⟩, rfl⟩

/-- Handling a message, `rest` being the messages behind it. -/
theorem processMsg_local (t : Turn β) (msg : ActorMessage) (rest : List ActorMessage)
    (hc : t.actor.context = .localRoot) (hp : t.actor.phase = .idle)
    (hm : t.actor.mailbox = msg :: rest) :
    Frame t (processMsg env { t with actor.mailbox := rest } msg) ∧
      LocalStep env t (processMsg env { t with actor.mailbox := rest } msg) := by
  have hloc := isLocal_of_localRoot hc
  have hs : t.actor.phase.isRunning = true := by rw [hp]; rfl
  generalize ht1 : ({ t with actor.mailbox := rest } : Turn β) = t1
  have h1 : Keeps t t1 := ht1 ▸ ⟨rfl, rfl, .inl rfl, fun _ => rfl, fun _ => .inl⟩
  have hst : t1.actor.state = t.actor.state := ht1 ▸ rfl
  have hf1 := h1.frame hloc
  have hc1 : t1.actor.context = .localRoot := hf1.context.trans hc
  rcases keeps_processMsg env t1 msg with hk | rfl | ⟨request, rfl⟩ | ⟨name, request, rfl⟩
  · exact LocalStep.of_keeps hloc hs (h1.trans hk)
  · exact autosaveTick_local h1 hc hs
  · rcases createSnapshot_local env t1 request hc1 with hk | ⟨hf, now, hh⟩
    · exact LocalStep.of_keeps hloc hs (h1.trans hk)
    · refine ⟨hf1.trans hf, .createSnapshot request rest now hp hm ?_⟩
      rw [← h1.head, ← hst]
      exact hh
  · obtain ⟨hf, hh⟩ := deleteSnapshot_local t1 name request hc1
    refine ⟨hf1.trans hf, .deleteSnapshot name request rest hp hm ?_⟩
    rw [← h1.head]
    exact hh

variable (env) in
/-- **What a turn of a local root can do.** -/
theorem run_local (t : Turn β) (hc : t.actor.context = .localRoot)
    (hi : ∀ d, t.actor.phase ≠ .starting (some d)) :
    Frame t (t.run env) ∧ LocalStep env t (t.run env) := by
  have hloc := isLocal_of_localRoot hc
  unfold run
  cases hp : t.actor.phase with
  | starting initial =>
    cases initial with
    | some d => exact absurd hp (hi d)
    | none =>
      dsimp only [start]
      split
      · refine ⟨⟨rfl, rfl, (fun hs => by cases hs), fun _ => .inl⟩, .load ?_⟩
        simp [head, Head.load, Head.fileHash, storedHash, hc, DirContext.localRoot]
      · exact ⟨⟨rfl, rfl, (fun hs => by cases hs), fun _ => .inl⟩, .stop rfl rfl⟩
  | idle =>
    dsimp only
    split
    · exact LocalStep.of_keeps hloc (by rw [hp]; rfl) (Keeps.refl t)
    · rename_i msg rest hm
      exact processMsg_local t msg rest hc hp hm
  | executed path stored =>
    exact LocalStep.of_keeps hloc (by rw [hp]; rfl) (keeps_finishFileOp env t path stored)
  | openingSubdir => exact LocalStep.of_keeps hloc (by rw [hp]; rfl) (Keeps.refl t)
  | saving replies responder =>
    dsimp only
    split
    · exact finishSave_local t replies responder hc (by rw [hp]; rfl)
    · exact LocalStep.of_keeps hloc (by rw [hp]; rfl) (Keeps.refl t)
  | merging reply rest snapshot responder =>
    have h := keeps_merged env t reply rest snapshot responder hp
    simp only [run, hp] at h
    exact LocalStep.of_keeps hloc (by rw [hp]; rfl) h
  | looping => exact LocalStep.of_keeps hloc (by rw [hp]; rfl) (Keeps.refl t)
  | stopped => exact ⟨(Keeps.refl t).frame hloc, .stop hp rfl⟩

variable (env) in
theorem close_local (t : Turn β) (hc : t.actor.context = .localRoot)
    (hs : t.actor.phase.isRunning = true) :
    Frame t (t.close env) ∧ LocalStep env t (t.close env) := by
  have hloc := isLocal_of_localRoot hc
  unfold close
  dsimp only
  split
  · exact LocalStep.of_save hc hs (keeps_shardIfNeeded env t) (keeps_enter _ rfl)
  · exact LocalStep.of_keeps hloc hs (keeps_enter t rfl)

/-! ## Everybody else -/

theorem finishSave_child (t : Turn β)
    (replies : List (DirHandlePath × Option (Except String (Option Hash)))) (responder : Responder)
    (hc : t.actor.context.isLocal = false) : Keeps t (t.finishSave env replies responder) := by
  have hr := sameRoot_replies replies t.actor
  have h1 : Keeps t { t with actor := { replies.foldl takeReply t.actor with phase := .idle } } :=
    (keeps_actor t hr).trans (keeps_enter _ rfl)
  unfold finishSave
  dsimp only
  split
  · have h2 := h1.trans (keeps_save env _ false (by rw [hr.context]; exact hc))
    generalize save env _ false = r at h2 ⊢
    rcases r with ⟨t', e | hash⟩
    · exact h2.trans (keeps_emit t' _)
    · exact h2.trans ⟨rfl, rfl, .inl rfl, fun _ => rfl, fun _ => .inl⟩
  · exact h1.trans (keeps_emit _ _)

theorem processMsg_child (t : Turn β) (msg : ActorMessage)
    (hc : t.actor.context.isLocal = false) : Keeps t (processMsg env t msg) := by
  rcases keeps_processMsg env t msg with hk | rfl | ⟨request, rfl⟩ | ⟨name, request, rfl⟩
  · exact hk
  · simp only [processMsg, autosaveTick]
    split
    · have h1 := keeps_shardIfNeeded env t
      generalize t.shardIfNeeded env = r1 at h1 ⊢
      rcases r1 with ⟨t1, e | u⟩
      · exact h1
      · have h2 := h1.trans (keeps_save env t1 true (h1.child hc))
        dsimp only
        generalize t1.save env true = r2 at h2 ⊢
        rcases r2 with ⟨t2, e | hash⟩
        · exact h2
        · exact h2.trans ⟨rfl, rfl, .inl rfl, fun _ => rfl, fun _ => .inl⟩
    · exact Keeps.refl t
  · simp only [processMsg, createSnapshot]
    split
    · rename_i hl
      simp [DirContext.isLocal, hl] at hc
    · exact keeps_emit t _
  · simp only [processMsg, deleteSnapshot]
    split
    · rename_i hl
      simp [DirContext.isLocal, hl] at hc
    · exact keeps_emit t _

/-- **A turn of any other actor leaves the head.** -/
theorem run_child (t : Turn β) (hc : t.actor.context.isLocal = false) : Keeps t (t.run env) := by
  unfold run
  cases hp : t.actor.phase with
  | starting initial =>
    cases initial with
    | some d =>
      have h1 : Keeps t { t with actor.state := d, actor.phase := .idle } :=
        ⟨rfl, rfl, .inl rfl, nofun, fun _ => .inl⟩
      exact h1.trans (keeps_save env _ true hc)
    | none =>
      dsimp only [start]
      split
      · refine ⟨?_, rfl, .inl rfl, nofun, fun _ => .inl⟩
        have hst : t.storedHash env = t.actor.currentHash := by
          unfold storedHash
          split
          · rename_i hl
            simp [DirContext.isLocal, hl] at hc
          · rfl
        simp [head, hst]
      · exact ⟨rfl, rfl, .inl rfl, nofun, fun _ => .inl⟩
  | idle =>
    dsimp only
    split
    · exact Keeps.refl t
    · rename_i msg rest hm
      have h1 : Keeps t { t with actor.mailbox := rest } :=
        ⟨rfl, rfl, .inl rfl, fun _ => rfl, fun _ => .inl⟩
      refine h1.trans (processMsg_child _ msg ?_)
      exact hc
  | executed path stored => exact keeps_finishFileOp env t path stored
  | openingSubdir => exact Keeps.refl t
  | saving replies responder =>
    dsimp only
    split
    · exact finishSave_child t replies responder hc
    · exact Keeps.refl t
  | merging reply rest snapshot responder =>
    have h := keeps_merged env t reply rest snapshot responder hp
    simp only [run, hp] at h
    exact h
  | looping => exact Keeps.refl t
  | stopped => exact Keeps.refl t

theorem close_child (t : Turn β) (hc : t.actor.context.isLocal = false) :
    Keeps t (t.close env) := by
  unfold close
  dsimp only
  split
  · have h1 := keeps_shardIfNeeded env t
    exact h1.trans ((keeps_save env _ false (h1.child hc)).trans (keeps_enter _ rfl))
  · exact keeps_enter t rfl

end Turn

end Fs
