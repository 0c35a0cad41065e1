import S5.Fs.Proof.Acts

/-!
# What a turn does to the references of a directory

A turn keeps the references to subdirectories and the handles of open ones, and a new reference comes
with a new child that has still to save itself (`Turn.Stays`). The exceptions are a split, which
empties the directory (`Turn.Thins`), a hash that a child has reported or has answered with, and a
merge (`Turn.Edits`, `Turn.edits_run`).
-/

open Std

namespace Fs

namespace Turn

variable {β : Type}

/-- The child at a name has just been spawned on an initial state. -/
def Opened (t : Turn β) (name : String) : Prop :=
  ∃ (c : ActorId) (k n : Nat) (ctx : DirContext ActorId) (d : DirV1),
    t.actor.handleAt (.path name) = some c ∧ ctx.parent = some (.path name, t.self) ∧
    t.spawned[k]? = some (.new ctx (some d)) ∧ t.spawned.length = k + n ∧ t.fresh = c + n

/-- References and handles are kept, and if `ok` a new reference to a blob has a new child. -/
structure Stays (ok : Prop) (t t' : Turn β) : Prop where
  self : t'.self = t.self
  handles : ∀ path c, t.actor.handleAt path = some c → t'.actor.handleAt path = some c
  dirs : ∀ (name : String) (r : DirRef), t.actor.state.dirs[name]? = some r →
    t'.actor.state.dirs[name]? = some r
  count : ∃ n : Nat, t'.fresh = t.fresh + n ∧ t'.spawned.length = t.spawned.length + n
  spawned : t.spawned <+: t'.spawned
  new : ok → ∀ (name : String) (r : DirRef), t'.actor.state.dirs[name]? = some r →
    t.actor.state.dirs[name]? = none → r.refTypeD = .registryKey ∨ t'.Opened name

variable {ok : Prop} {t t' t'' : Turn β}

theorem Stays.refl (t : Turn β) : Stays ok t t where
  self := rfl
  handles _ _ := id
  dirs _ _ := id
  count := ⟨0, rfl, rfl⟩
  spawned := List.prefix_rfl
  new _ name r h h' := by
    rw [h] at h'
    cases h'

theorem Stays.opened (h : Stays ok t t') {name : String} (ho : t.Opened name) : t'.Opened name := by
  obtain ⟨c, k, n, ctx, d, hc, hpar, hk, hlen, hfresh⟩ := ho
  obtain ⟨m, hfresh', hlen'⟩ := h.count
  obtain ⟨new, hnew⟩ := h.spawned
  refine ⟨c, k, n + m, ctx, d, h.handles _ c hc, h.self ▸ hpar, ?_, ?_, ?_⟩
  · rw [← hnew, List.getElem?_append_left (List.getElem?_eq_some_iff.1 hk).1]
    exact hk
  · rw [hlen', hlen, Nat.add_assoc]
  · rw [hfresh', hfresh, Nat.add_assoc]

theorem Stays.trans (h : Stays ok t t') (h' : Stays ok t' t'') : Stays ok t t'' where
  self := h'.self.trans h.self
  handles path c hc := h'.handles path c (h.handles path c hc)
  dirs name r hr := h'.dirs name r (h.dirs name r hr)
  count := by
    obtain ⟨n, hf, hl⟩ := h.count
    obtain ⟨n', hf', hl'⟩ := h'.count
    exact ⟨n + n', by rw [hf', hf, Nat.add_assoc], by rw [hl', hl, Nat.add_assoc]⟩
  spawned := h.spawned.trans h'.spawned
  new hok name r hr hnone := by
    rcases Option.eq_none_or_eq_some t'.actor.state.dirs[name]? with hmid | ⟨r', hmid⟩
    · exact h'.new hok name r hr hmid
    · obtain rfl := Option.some.inj (hr.symm.trans (h'.dirs name r' hmid))
      exact (h.new hok name r hmid hnone).imp_right h'.opened

/-- Neither the references nor the handles change. -/
theorem Stays.of_eq (hself : t'.self = t.self) (hfresh : t'.fresh = t.fresh)
    (hsp : t'.spawned = t.spawned)
    (hst : t'.actor.state.dirs = t.actor.state.dirs) (hd : t'.actor.dirHandles = t.actor.dirHandles)
    (hs : t'.actor.dirShardHandles = t.actor.dirShardHandles) : Stays ok t t' where
  self := hself
  handles path c h := by
    cases path with
    | path name =>
      show t'.actor.dirHandles[name]? = some c
      rw [hd]
      exact h
    | shard index =>
      show t'.actor.dirShardHandles[index]? = some c
      rw [hs]
      exact h
  dirs name r h := by
    rw [hst]
    exact h
  count := ⟨0, hfresh, by rw [hsp, Nat.add_zero]⟩
  spawned := by rw [hsp]
  new _ name r h h' := by
    rw [hst, h'] at h
    cases h

theorem stays_emit (t : Turn β) (o : Output) : Stays ok t (t.emit o) := .of_eq rfl rfl rfl rfl rfl rfl

theorem stays_enter (t : Turn β) (phase : Phase) : Stays ok t (t.enter phase) :=
  .of_eq rfl rfl rfl rfl rfl rfl

theorem stays_take (t : Turn β) (rest : List ActorMessage) : Stays ok t (t.take rest) :=
  .of_eq rfl rfl rfl rfl rfl rfl

theorem stays_markAsDirty (t : Turn β) : Stays ok t t.markAsDirty := .of_eq rfl rfl rfl rfl rfl rfl

theorem stays_mergeHeader (t : Turn β) (remote : DirHeader) : Stays ok t (t.mergeHeader remote) :=
  .of_eq rfl rfl rfl rfl rfl rfl

/-! ## Opening children -/

/-- The child at a name or of a shard is spawned. -/
theorem stays_spawn (t : Turn β) (ctx : DirContext ActorId) (initial : Option DirV1) {a : DirActor}
    {regs : ExtTreeMap Bytes32 ActorId} {at' : DirHandlePath} (hno : t.actor.handleAt at' = none)
    (hst : a.state = t.actor.state)
    (hh : ∀ path, a.handleAt path = if path = at' then some t.fresh else t.actor.handleAt path) :
    Stays ok t { t.spawn ctx initial with actor := a, registryDirHandles := regs } where
  self := rfl
  handles path c h := by
    show a.handleAt path = some c
    rw [hh]
    split
    · rename_i hp
      rw [hp, hno] at h
      cases h
    · exact h
  dirs name r h := by
    show a.state.dirs[name]? = some r
    rw [hst]
    exact h
  count := ⟨1, rfl, List.length_append⟩
  spawned := List.prefix_append _ _
  new _ name r h h' := by
    have hr : a.state.dirs[name]? = some r := h
    rw [hst, h'] at hr
    cases hr

theorem stays_openDir (t : Turn β) (name : String) (initial : Option DirV1) :
    Stays ok t (t.openDir name initial).1 := by
  unfold openDir
  split
  · exact .refl t
  · rename_i hno
    split
    · exact .refl t
    · have hno' : t.actor.handleAt (.path name) = none := hno
      have hhandles := handleAt_insert_dir t.actor name t.fresh
      dsimp only
      split
      · exact stays_spawn t _ initial hno' rfl hhandles
      · split
        · exact .refl t
        · exact stays_spawn t _ initial hno' rfl hhandles

/-- A reference to a blob that has no child open gets one. -/
theorem opened_openDir (t : Turn β) {name : String} {r : DirRef} {d : DirV1}
    (hr : t.actor.state.dirs[name]? = some r) (hh : t.actor.dirHandles[name]? = none) :
    r.refTypeD = .registryKey ∨ (t.openDir name (some d)).1.Opened name := by
  cases ht : r.refTypeD with
  | registryKey => exact .inl rfl
  | blake3Hash =>
    right
    simp only [openDir, hh, hr, ht]
    refine ⟨t.fresh, t.spawned.length, 1, t.actor.context.withNewRef r
      (dirLink t.actor.context t.self name r), d, ?_, ?_, List.getElem?_concat_length,
      List.length_append, rfl⟩
    · simp [DirActor.handleAt]
    · simp [DirContext.parent, DirContext.withNewRef, dirLink, ht, spawn]

theorem stays_openDirShard (t : Turn β) (index : UInt8) : Stays ok t (t.openDirShard index).1 := by
  unfold openDirShard
  split
  · exact .refl t
  · rename_i hno
    split
    · exact .refl t
    · have hno' : t.actor.handleAt (.shard index) = none := hno
      exact stays_spawn t _ none hno' rfl (handleAt_insert_shard t.actor index t.fresh)

variable {env : Env β}

variable (env) in
theorem stays_routeToChild (t : Turn β) (path : String) :
    Stays ok t (t.routeToChild env path).1 := by
  unfold routeToChild
  split
  · exact .refl t
  · exact .refl t
  · rename_i index _
    have h : Stays ok t (t.openDirShard index).1 := stays_openDirShard t index
    generalize t.openDirShard index = r at h ⊢
    rcases r with ⟨t', e | child⟩ <;> exact h
  · rename_i name rest _
    have h : Stays ok t (t.openDir name none).1 := stays_openDir t name none
    generalize t.openDir name none = r at h ⊢
    rcases r with ⟨t', e | child⟩ <;> exact h

/-! ## Changing the directory -/

/-- A new reference is put in and its child opened. -/
theorem stays_newDir (t : Turn β) {w : World β} {state : DirV1} {name : String} {dirRef : DirRef}
    {initial : DirV1} (hno : t.actor.state.dirs[name]? = none)
    (hst : state.dirs = t.actor.state.dirs.insert name dirRef) (hok : ok → t.actor.NoStale name) :
    Stays ok t (openDir { t with world := w, actor.state := state } name (some initial)).1 := by
  set t0 : Turn β := { t with world := w, actor.state := state } with ht0
  have hdirs : ∀ n, t0.actor.state.dirs[n]? =
      if n = name then some dirRef else t.actor.state.dirs[n]? := by
    intro n
    show state.dirs[n]? = _
    rw [hst, ExtTreeMap.getElem?_insert]
    by_cases hn : n = name
    · simp [hn]
    · have hn' : name ≠ n := fun he => hn he.symm
      simp [hn, hn']
  have hh : ∀ path, t0.actor.handleAt path = t.actor.handleAt path := by
    intro path
    cases path <;> rfl
  have h : Stays ok t0 (t0.openDir name (some initial)).1 := stays_openDir t0 name _
  refine ⟨h.self, fun path c hc => h.handles path c ((hh path).trans hc), fun n r hr => ?_, h.count,
    h.spawned, fun ho n r hr hn => ?_⟩
  · refine h.dirs n r ?_
    rw [hdirs, if_neg]
    · exact hr
    · rintro rfl
      rw [hno] at hr
      cases hr
  · by_cases hname : n = name
    · subst hname
      have hr0 : t0.actor.state.dirs[n]? = some dirRef := by rw [hdirs, if_pos rfl]
      obtain rfl := Option.some.inj ((h.dirs n dirRef hr0).symm.trans hr)
      exact opened_openDir t0 hr0 (hok ho hno)
    · have hr0 : t0.actor.state.dirs[n]? = none := by rw [hdirs, if_neg hname, hn]
      exact h.new ho n r hr hr0

theorem stays_createDirAt (t : Turn β) {path : String} (hok : ok → t.actor.NoStale path)
    (enableEncryption : Bool) : Stays ok t (t.createDirAt env path enableEncryption).1 := by
  unfold createDirAt
  split
  · exact .refl t
  · rename_i hno
    have hno' : t.actor.state.dirs[path]? = none := by simpa using hno
    dsimp only
    generalize buildChildDirRef env t.actor.context enableEncryption t.world = r
    obtain ⟨w, dirRef⟩ := r
    have h : Stays ok t (openDir { t with
        world := w
        actor.state := { (extractChildDirState t.actor.state path).1 with
          dirs := (extractChildDirState t.actor.state path).1.dirs.insert path dirRef } } path
        (some (extractChildDirState t.actor.state path).2)).1 := stays_newDir t hno' rfl hok
    dsimp only
    generalize openDir _ path _ = r at h ⊢
    rcases r with ⟨t', e | c⟩
    · exact h
    · exact h.trans (stays_markAsDirty t')

section
variable [DecidableEq β]

/-- A promotion that fails leaves a reference without a child. -/
theorem stays_promotePrefix (t : Turn β) {dir : String}
    (hok : ok → t.actor.NoStale dir ∧ (t.promotePrefix env dir).2.isOk = true) :
    Stays ok t (t.promotePrefix env dir).1 := by
  unfold promotePrefix at hok ⊢
  split
  · exact .refl t
  · rename_i hno
    have hno' : t.actor.state.dirs[dir]? = none := by simpa using hno
    rw [if_neg hno] at hok
    dsimp only at hok ⊢
    generalize buildChildDirRef env t.actor.context t.actor.context.encryptionType.isSome t.world = r
      at hok ⊢
    obtain ⟨w, dirRef⟩ := r
    dsimp only at hok ⊢
    generalize optimizeDirStructure env t.actor.context
      (extractChildDirState t.actor.state dir).2 w = r at hok ⊢
    rcases r with ⟨w', e | optimized⟩
    · refine ⟨rfl, fun path c hc => ?_, fun name r hr => ?_, ⟨0, rfl, rfl⟩, List.prefix_rfl,
        fun h => ?_⟩
      · cases path <;> exact hc
      · show (t.actor.state.dirs.insert dir dirRef)[name]? = some r
        rw [ExtTreeMap.getElem?_insert, if_neg]
        · exact hr
        · rw [Std.compare_eq_iff_eq]
          rintro rfl
          rw [hno'] at hr
          cases hr
      · cases (hok h).2
    · have h : Stays ok t (openDir { t with
          world := w'
          actor.state := { (extractChildDirState t.actor.state dir).1 with
            dirs := (extractChildDirState t.actor.state dir).1.dirs.insert dir dirRef } } dir
          (some optimized)).1 := stays_newDir t hno' rfl fun ho => (hok ho).1
      dsimp only
      generalize openDir _ dir _ = r at h ⊢
      rcases r with ⟨t', e | c⟩ <;> exact h

theorem stays_checkAutoPromote (t : Turn β) {path : String}
    (hok : ok → (t.checkAutoPromote env path).2.isOk = true ∧ ∀ p ∈ splitOnce path,
      promotionThreshold < countBelow t.actor.state p.1 → t.actor.NoStale p.1) :
    Stays ok t (t.checkAutoPromote env path).1 := by
  unfold checkAutoPromote at hok ⊢
  split
  · exact .refl t
  · rename_i p hp
    rw [hp] at hok
    dsimp only at hok
    split
    · rename_i hlarge
      rw [if_pos hlarge] at hok
      exact stays_promotePrefix t fun ho => ⟨(hok ho).2 _ rfl hlarge, (hok ho).1⟩
    · exact .refl t

/-! ## Saving -/

theorem stays_shardBuckets (level : UInt8) (old : DirV1) : ∀ (is : List UInt8) (t : Turn β),
    Stays ok t (shardBuckets env level old is t).1
  | [], t => .refl t
  | index :: rest, t => by
    unfold shardBuckets
    dsimp only
    split
    · exact stays_shardBuckets level old rest t
    · generalize encodeChildDirBytes env t.actor.context (shardState env old level index) t.world = r
      obtain ⟨w1, bytes, keys⟩ := r
      dsimp only
      generalize w1.importBytes env bytes = r
      rcases r with ⟨w2, e | h⟩
      · exact .of_eq rfl rfl rfl rfl rfl rfl
      · dsimp only
        set t2 : Turn β := { t with
          world := w2
          actor.state.header.shards := some ((t.actor.state.header.shards.getD ∅).insert index
            (storedDirRef t.actor.context h keys (env.utcNow t.world.tick))) } with ht2
        have h2 : Stays ok t t2 := .of_eq rfl rfl rfl rfl rfl rfl
        have h3 := h2.trans (stays_openDirShard t2 index)
        generalize t2.openDirShard index = r at h3 ⊢
        rcases r with ⟨t3, e | c⟩
        · exact h3
        · exact h3.trans (stays_shardBuckets level old rest t3)

end

/-- As `Stays`, but the directory may have been emptied. -/
def Thins (ok : Prop) (t t' : Turn β) : Prop :=
  ∃ t1, Stays ok t t1 ∧ (t'.actor.state.dirs = t1.actor.state.dirs ∨ t'.actor.state.dirs = ∅) ∧
    (∀ path, t'.actor.handleAt path = t1.actor.handleAt path) ∧ t'.fresh = t1.fresh ∧
    t'.spawned = t1.spawned

theorem Stays.thins (h : Stays ok t t') : Thins ok t t' :=
  ⟨t', h, .inl rfl, fun _ => rfl, rfl, rfl⟩

theorem Stays.thins_trans (h : Stays ok t t') (h' : Thins ok t' t'') : Thins ok t t'' := by
  obtain ⟨t1, h1, hrest⟩ := h'
  exact ⟨t1, h.trans h1, hrest⟩

/-- After a split, the references and handles stay as they are. -/
theorem Thins.of_eq (h : Thins ok t t') (hst : t''.actor.state.dirs = t'.actor.state.dirs)
    (hd : t''.actor.dirHandles = t'.actor.dirHandles)
    (hs : t''.actor.dirShardHandles = t'.actor.dirShardHandles) (hfresh : t''.fresh = t'.fresh)
    (hsp : t''.spawned = t'.spawned) : Thins ok t t'' := by
  obtain ⟨t1, h1, hdirs, hh, hf, hp⟩ := h
  refine ⟨t1, h1, ?_, fun path => ?_, hfresh.trans hf, hsp.trans hp⟩
  · rw [hst]
    exact hdirs
  · rw [← hh]
    cases path with
    | path name =>
      show t''.actor.dirHandles[name]? = t'.actor.dirHandles[name]?
      rw [hd]
    | shard index =>
      show t''.actor.dirShardHandles[index]? = t'.actor.dirShardHandles[index]?
      rw [hs]

section
variable [DecidableEq β]

variable (env) in
/-- Saving changes neither references nor handles. -/
theorem save_unchanged (t : Turn β) (notify : Bool) :
    (t.save env notify).1.actor.state = t.actor.state ∧
      (t.save env notify).1.actor.dirHandles = t.actor.dirHandles ∧
      (t.save env notify).1.actor.dirShardHandles = t.actor.dirShardHandles ∧
      (t.save env notify).1.fresh = t.fresh ∧ (t.save env notify).1.spawned = t.spawned := by
  have hhead : ∀ (t : Turn β) (h : Hash), (t.moveHead h).actor.state = t.actor.state ∧
      (t.moveHead h).actor.dirHandles = t.actor.dirHandles ∧
      (t.moveHead h).actor.dirShardHandles = t.actor.dirShardHandles ∧
      (t.moveHead h).fresh = t.fresh ∧ (t.moveHead h).spawned = t.spawned := by
    intro t h
    unfold moveHead
    split
    · exact ⟨rfl, rfl, rfl, rfl, rfl⟩
    · exact ⟨rfl, rfl, rfl, rfl, rfl⟩
  unfold save
  generalize persist env t.actor.context t.actor.state t.world = r
  rcases r with ⟨w, e | ⟨ctx, hash⟩⟩
  · exact ⟨rfl, rfl, rfl, rfl, rfl⟩
  · dsimp only
    repeat' split
    all_goals first | exact ⟨rfl, rfl, rfl, rfl, rfl⟩ | exact hhead _ _

theorem thins_shard (t : Turn β) : Thins ok t (t.shard env).1 := by
  obtain ⟨level, r, hr, hshard⟩ := shard_cases env t
  have h0 : Stays ok t { t with actor.state.header.shardLevel := some level } :=
    .of_eq rfl rfl rfl rfl rfl rfl
  have h1 : Stays ok t r.1 := by
    rw [← hr]
    exact h0.trans (stays_shardBuckets level _ _ _)
  rcases hshard with hshard | hshard
  · rw [hshard]
    exact h1.thins
  · rw [hshard]
    refine ⟨r.1, h1, .inr rfl, fun path => ?_, rfl, rfl⟩
    cases path <;> rfl

theorem thins_shardIfNeeded (t : Turn β) : Thins ok t (t.shardIfNeeded env).1 := by
  unfold shardIfNeeded
  split
  · exact (Stays.refl t).thins
  · split
    · exact (Stays.refl t).thins
    · have h0 : Stays ok t { t with
          actor.lastSerializedLen := env.len (env.toBytes t.actor.state)
          actor.shardSizeCheckOps := 0 } := .of_eq rfl rfl rfl rfl rfl rfl
      dsimp only
      split
      · exact h0.thins_trans (thins_shard _)
      · exact h0.thins

end

/-! ## Messages -/

theorem stays_mergeNext (level : UInt8) (snapshot : DirV1) (responder : Responder) :
    ∀ (is : List UInt8) (t : Turn β), Stays ok t (t.mergeNext env level snapshot responder is)
  | [], t => by
    unfold mergeNext
    have h : Stays ok t (t.mergeHeader snapshot.header).markAsDirty :=
      (stays_mergeHeader t snapshot.header).trans (stays_markAsDirty _)
    exact (h.trans (stays_enter _ _)).trans (stays_emit _ _)
  | index :: rest, t => by
    unfold mergeNext
    dsimp only
    split
    · exact stays_mergeNext level snapshot responder rest t
    · split
      · exact stays_mergeNext level snapshot responder rest t
      · have h : Stays ok t (t.openDirShard index).1 := stays_openDirShard t index
        generalize t.openDirShard index = r at h ⊢
        rcases r with ⟨t', e | c⟩
        · exact (h.trans (stays_enter _ _)).trans (stays_emit _ _)
        · exact (h.trans (stays_enter _ _)).trans (stays_emit _ _)

theorem stays_enterSubdir (t : Turn β) (base : List String) (c : ActorId) (rest : String)
    (waiting : List ActorId) (request : Nat) :
    Stays ok t (t.enterSubdir base c rest waiting request) := by
  unfold enterSubdir
  split
  · exact stays_emit _ _
  · exact (stays_enter _ _).trans (stays_emit _ _)

theorem stays_openSubdir (t : Turn β) (base : List String) (path : String) (waiting : List ActorId)
    (request : Nat) (hok : ok → route env t.actor.state path = .ok .here →
      t.actor.NoStale (splitPath path).1) :
    Stays ok t (t.openSubdir env base path waiting request) := by
  unfold openSubdir
  have h : Stays ok t (t.routeToChild env path).1 := stays_routeToChild env t path
  generalize hr : t.routeToChild env path = r at h ⊢
  rcases r with ⟨t1, e | (_ | ⟨child, below, entered⟩)⟩
  · exact h.trans (stays_emit _ _)
  · obtain ⟨rfl, hhere⟩ := routeToChild_here hr
    dsimp only at h ⊢
    generalize hcreated : (if (splitPath path).1 ∈ t1.actor.state.dirs then (t1, Except.ok ()) else
      t1.createDirAt env (splitPath path).1 t1.actor.context.encryptionType.isSome) = created
    have h1 : Stays ok t1 created.1 := by
      rw [← hcreated]
      split
      · exact h
      · exact h.trans (stays_createDirAt t1 (fun ho => hok ho hhere) _)
    obtain ⟨t2, e | u⟩ := created
    · exact h1.trans (stays_emit _ _)
    · dsimp only at h1 ⊢
      have h2 := h1.trans (stays_openDir t2 (splitPath path).1 none)
      generalize t2.openDir (splitPath path).1 none = r at h2 ⊢
      rcases r with ⟨t3, e | c⟩
      · exact h2.trans (stays_emit _ _)
      · exact h2.trans (stays_enterSubdir t3 _ _ _ _ _)
  · exact h.trans (stays_enterSubdir t1 _ _ _ _ _)

theorem stays_pathOp (t : Turn β) (path : String) (op : ActorMessageOp)
    (hok : ok → ∀ enable request, op = .createDir enable request →
      route env t.actor.state path = .ok .here → t.actor.NoStale path) :
    Stays ok t (t.pathOp env path op) := by
  unfold pathOp
  have h : Stays ok t (t.routeToChild env path).1 := stays_routeToChild env t path
  generalize hr : t.routeToChild env path = r at h ⊢
  rcases r with ⟨t', e | (_ | ⟨child, rest, entered⟩)⟩
  · exact h
  · obtain ⟨rfl, hhere⟩ := routeToChild_here hr
    dsimp only at h ⊢
    split
    · exact h.trans (.of_eq rfl rfl rfl rfl rfl rfl)
    · rename_i enable request
      have h1 : Stays ok t' (t'.createDirAt env path enable).1 :=
        stays_createDirAt t' (fun ho => hok ho enable request rfl hhere) enable
      generalize t'.createDirAt env path enable = r at h1 ⊢
      obtain ⟨t2, result⟩ := r
      exact (h.trans h1).trans (stays_emit _ _)
  · exact h.trans (stays_emit _ _)

section
variable [DecidableEq β]

theorem stays_finishFileOp (t : Turn β) {path : String} {stored : Bool}
    (hok : ok → stored = true → ((t.enter .idle).checkAutoPromote env path).2.isOk = true ∧
      ∀ p ∈ splitOnce path, promotionThreshold < countBelow t.actor.state p.1 →
        t.actor.NoStale p.1) : Stays ok t (t.finishFileOp env path stored) := by
  unfold finishFileOp
  have h0 : Stays ok t (t.enter .idle) := stays_enter t _
  dsimp only
  split
  · rename_i hstored
    have h1 : Stays ok t ((t.enter .idle).checkAutoPromote env path).1 :=
      h0.trans (stays_checkAutoPromote _ fun ho => hok ho hstored)
    generalize (t.enter .idle).checkAutoPromote env path = r at h1 ⊢
    rcases r with ⟨t', e | u⟩
    · exact h1
    · exact h1.trans (stays_markAsDirty t')
  · exact h0.trans (stays_markAsDirty _)

theorem stays_exportSnapshotHash (t : Turn β) : Stays ok t (t.exportSnapshotHash env).1 := by
  unfold exportSnapshotHash
  repeat' split
  all_goals exact .of_eq rfl rfl rfl rfl rfl rfl

theorem stays_createSnapshot (t : Turn β) (request : Nat) :
    Stays ok t (t.createSnapshot env request) := by
  unfold createSnapshot
  split
  · have h : Stays ok t (t.exportSnapshotHash env).1 := stays_exportSnapshotHash t
    generalize t.exportSnapshotHash env = r at h ⊢
    rcases r with ⟨t', e | k⟩
    · exact h.trans (stays_emit _ _)
    · dsimp only
      split
      · exact h.trans (.of_eq rfl rfl rfl rfl rfl rfl)
      · exact h.trans (.of_eq rfl rfl rfl rfl rfl rfl)
  · exact stays_emit _ _

omit [DecidableEq β] in
theorem stays_deleteSnapshot (t : Turn β) (name : String) (request : Nat) :
    Stays ok t (t.deleteSnapshot name request) := by
  unfold deleteSnapshot
  split
  · split
    · exact stays_emit _ _
    · exact .of_eq rfl rfl rfl rfl rfl rfl
  · exact stays_emit _ _

theorem thins_saveIfDirty (t : Turn β) (responder : Responder) :
    Thins ok t (t.saveIfDirty env responder) := by
  unfold saveIfDirty
  split
  · have h : Thins ok t (t.shardIfNeeded env).1 := thins_shardIfNeeded t
    generalize t.shardIfNeeded env = r at h ⊢
    rcases r with ⟨t1, e | u⟩
    · exact h.of_eq rfl rfl rfl rfl rfl
    · exact h.of_eq rfl rfl rfl rfl rfl
  · exact (stays_emit t _).thins

theorem thins_autosaveTick (t : Turn β) : Thins ok t (t.autosaveTick env) := by
  unfold autosaveTick
  split
  · have h : Thins ok t (t.shardIfNeeded env).1 := thins_shardIfNeeded t
    generalize t.shardIfNeeded env = r at h ⊢
    rcases r with ⟨t1, e | u⟩
    · exact h
    · dsimp only
      obtain ⟨hst, hd, hs, hf, hp⟩ := save_unchanged env t1 true
      have h1 := h.of_eq (congrArg DirV1.dirs hst) hd hs hf hp
      generalize t1.save env true = r at h1
      rcases r with ⟨t2, e | k⟩
      · exact h1
      · exact h1.of_eq rfl rfl rfl rfl rfl
  · exact (Stays.refl t).thins

theorem thins_close (t : Turn β) : Thins ok t (t.close env) := by
  unfold close
  dsimp only
  split
  · obtain ⟨hst, hd, hs, hf, hp⟩ := save_unchanged env (t.shardIfNeeded env).1 false
    have h0 : Thins ok t (t.shardIfNeeded env).1 := thins_shardIfNeeded t
    have h1 := h0.of_eq (congrArg DirV1.dirs hst) hd hs hf hp
    exact h1.of_eq rfl rfl rfl rfl rfl
  · exact (stays_enter t _).thins

end

/-! ## Turns -/

/-- The handles and the number of actors are as before. -/
structure Holds (t t' : Turn β) : Prop where
  handles : ∀ path, t'.actor.handleAt path = t.actor.handleAt path
  fresh : t'.fresh = t.fresh
  spawned : t'.spawned = t.spawned

theorem Holds.of_eq (hd : t'.actor.dirHandles = t.actor.dirHandles)
    (hs : t'.actor.dirShardHandles = t.actor.dirShardHandles) (hf : t'.fresh = t.fresh)
    (hp : t'.spawned = t.spawned) : Holds t t' := by
  refine ⟨fun path => ?_, hf, hp⟩
  cases path with
  | path name =>
    show t'.actor.dirHandles[name]? = t.actor.dirHandles[name]?
    rw [hd]
  | shard index =>
    show t'.actor.dirShardHandles[index]? = t.actor.dirShardHandles[index]?
    rw [hs]

/-- What a turn can do to the references of its directory. -/
inductive Edits (ok : Prop) (t t' : Turn β) : Prop where
  | thins (h : Thins ok t t')
  | reported (path : DirHandlePath) (hash : Hash) (rest : List ActorMessage)
      (hp : t.actor.phase = .idle) (hm : t.actor.mailbox = .updateDirRefHash path hash :: rest)
      (h : Holds t t')
      (hdirs : ∀ (name : String) (r' : DirRef), t'.actor.state.dirs[name]? = some r' →
        ∃ r, t.actor.state.dirs[name]? = some r ∧
          r' = if path = .path name then { r with hash := hash } else r)
  | saved (replies : List (DirHandlePath × Option (Except String (Option Hash))))
      (responder : Responder) (hp : t.actor.phase = .saving replies responder) (h : Holds t t')
      (hdirs : ∀ (name : String) (r' : DirRef), t'.actor.state.dirs[name]? = some r' →
        ∃ r, t.actor.state.dirs[name]? = some r ∧ (r' = r ∨ ∃ hash,
          (.path name, some (.ok (some hash))) ∈ replies ∧ r' = { r with hash := hash }))
  | merged (snapshot : DirV1) (responder : Responder) (rest : List ActorMessage)
      (hp : t.actor.phase = .idle) (hm : t.actor.mailbox = .mergeSnapshot snapshot responder :: rest)
      (hl : t.actor.state.header.shardLevel = none)
      (hh : ∀ path c, t.actor.handleAt path = some c → (∀ name, path = .path name →
        name ∉ (mergeEntriesLocal t.actor.state snapshot.dirs snapshot.files).dropped) →
        t'.actor.handleAt path = some c)
  | started (initial : Option DirV1) (hp : t.actor.phase = .starting initial) (h : Holds t t')

/-- The turn gives every directory that it creates a child: it puts none in the place of a directory
that has gone to a shard and is still open, and a promotion does not fail. -/
def newChildren [DecidableEq β] (env : Env β) (t : Turn β) : Bool :=
  match t.actor.phase, t.actor.mailbox with
  | .idle, .pathOp path (.createDir _ _) :: _ =>
    decide (route env t.actor.state path = .ok .here → t.actor.NoStale path)
  | .idle, .openSubdir _ path _ _ :: _ =>
    decide (route env t.actor.state path = .ok .here → t.actor.NoStale (splitPath path).1)
  | .executed path stored, _ => decide (stored = true →
    ((t.enter .idle).checkAutoPromote env path).2.isOk = true ∧ ∀ p ∈ splitOnce path,
      promotionThreshold < countBelow t.actor.state p.1 → t.actor.NoStale p.1)
  | _, _ => true

/-- A hash that is taken over goes into the reference at its place, and no other changes. -/
theorem updateHash_dirs {a a' : DirActor} {path : DirHandlePath} {h : Hash}
    (hu : updateHash a path h = some a') (name : String) {r' : DirRef}
    (hr : a'.state.dirs[name]? = some r') : ∃ r, a.state.dirs[name]? = some r ∧
      r' = if path = .path name then { r with hash := h } else r := by
  obtain ⟨dirRef, state, hat, rfl, hstate, -⟩ := updateHash_some hu
  have hname : state.refAt (.path name) = some r' := hr
  rw [hstate] at hname
  by_cases hp : DirHandlePath.path name = path
  · subst hp
    rw [if_pos rfl] at hname
    exact ⟨dirRef, hat, (Option.some.inj hname).symm.trans (if_pos rfl).symm⟩
  · rw [if_neg hp] at hname
    exact ⟨r', hname, (if_neg fun he => hp he.symm).symm⟩

/-- A hash is not taken over if it is there already. -/
theorem updateHash_none {a : DirActor} {path : DirHandlePath} {h : Hash}
    (hu : updateHash a path h = none) {name : String} (hp : path = .path name) {r : DirRef}
    (hr : a.state.dirs[name]? = some r) : r = { r with hash := h } := by
  subst hp
  simp only [updateHash, hr] at hu
  split at hu
  · rename_i heq
    rw [← heq]
  · cases hu

theorem takeReplies_dirs (name : String) :
    ∀ (replies : List (DirHandlePath × Option (Except String (Option Hash)))) (a : DirActor)
      {r' : DirRef}, (replies.foldl takeReply a).state.dirs[name]? = some r' →
      ∃ r, a.state.dirs[name]? = some r ∧ (r' = r ∨ ∃ hash,
        (.path name, some (.ok (some hash))) ∈ replies ∧ r' = { r with hash := hash })
  | [], a, r', hr => ⟨r', hr, .inl rfl⟩
  | reply :: replies, a, r', hr => by
    obtain ⟨r1, hr1, h1⟩ := takeReplies_dirs name replies (takeReply a reply) hr
    have hstep : ∃ r, a.state.dirs[name]? = some r ∧ (r1 = r ∨ ∃ hash,
        (.path name, some (.ok (some hash))) = reply ∧ r1 = { r with hash := hash }) := by
      unfold takeReply at hr1
      split at hr1
      · rename_i path h
        split at hr1
        · rename_i a' hu
          obtain ⟨r, hr, he⟩ := updateHash_dirs hu name hr1
          refine ⟨r, hr, ?_⟩
          split at he
          · rename_i hp
            exact .inr ⟨h, by rw [hp], he⟩
          · exact .inl he
        · exact ⟨r1, hr1, .inl rfl⟩
      · exact ⟨r1, hr1, .inl rfl⟩
    obtain ⟨r, hr, h0⟩ := hstep
    refine ⟨r, hr, ?_⟩
    rcases h1 with rfl | ⟨hash, hmem, rfl⟩
    · rcases h0 with rfl | ⟨hash, rfl, rfl⟩
      · exact .inl rfl
      · exact .inr ⟨hash, .head _, rfl⟩
    · rcases h0 with rfl | ⟨hash', -, rfl⟩
      · exact .inr ⟨hash, .tail _ hmem, rfl⟩
      · exact .inr ⟨hash, .tail _ hmem, rfl⟩

/-- The handles of names that a merge does not replace stay. -/
theorem handleAt_mergeLocal (t : Turn β) (snapshot : DirV1) {path : DirHandlePath} {c : ActorId}
    (hc : t.actor.handleAt path = some c) (hn : ∀ name, path = .path name →
      name ∉ (mergeEntriesLocal t.actor.state snapshot.dirs snapshot.files).dropped) :
    (t.mergeLocal snapshot).actor.handleAt path = some c := by
  cases path with
  | shard index => exact hc
  | path name =>
    show (t.actor.dirHandles.filter fun n _ =>
      n ∉ (mergeEntriesLocal t.actor.state snapshot.dirs snapshot.files).dropped)[name]? = some c
    rw [ExtTreeMap.getElem?_filter']
    refine Option.filter_eq_some_iff.2 ⟨hc, ?_⟩
    exact decide_eq_true (hn name rfl)

section
variable [DecidableEq β]

theorem edits_finishSave {replies : List (DirHandlePath × Option (Except String (Option Hash)))}
    {responder : Responder} (hp : t.actor.phase = .saving replies responder) :
    Edits ok t (t.finishSave env replies responder) := by
  obtain ⟨state, dirty, hfold, -⟩ := takeReplies_eq replies t.actor
  have hdirs := fun name r' (h : (replies.foldl takeReply t.actor).state.dirs[name]? = some r') =>
    takeReplies_dirs name replies t.actor h
  set t0 : Turn β := { t with
    actor.state := state, actor.dirty := dirty, actor.phase := .idle } with ht0
  rw [hfold] at hdirs
  simp only [finishSave, hfold]
  rw [← ht0]
  split
  · obtain ⟨hst, hd, hs, hf, hsp⟩ := save_unchanged env t0 false
    have hdirs' := fun name r' (h : (t0.save env false).1.actor.state.dirs[name]? = some r') =>
      hdirs name r' (hst ▸ h)
    have hholds : Holds t (t0.save env false).1 := .of_eq hd hs hf hsp
    generalize t0.save env false = r at hdirs' hholds
    rcases r with ⟨t2, e | k⟩
    · exact .saved replies responder hp ⟨hholds.handles, hholds.fresh, hholds.spawned⟩ hdirs'
    · exact .saved replies responder hp ⟨fun path => by
        rw [← hholds.handles]
        cases path <;> rfl, hholds.fresh, hholds.spawned⟩ hdirs'
  · exact .saved replies responder hp (.of_eq rfl rfl rfl rfl) hdirs

variable (env) in
/-- A report is taken. -/
theorem processMsg_report (t : Turn β) (path : DirHandlePath) (hash : Hash) :
    Holds t (t.processMsg env (.updateDirRefHash path hash)) ∧
    ∀ (name : String) (r' : DirRef),
      (t.processMsg env (.updateDirRefHash path hash)).actor.state.dirs[name]? = some r' →
      ∃ r, t.actor.state.dirs[name]? = some r ∧
        r' = if path = .path name then { r with hash := hash } else r := by
  simp only [processMsg]
  split
  · rename_i a' hu
    refine ⟨?_, fun name r' hr => updateHash_dirs hu name hr⟩
    obtain ⟨state, rfl⟩ := updateHash_eq hu
    exact .of_eq rfl rfl rfl rfl
  · rename_i hu
    refine ⟨.of_eq rfl rfl rfl rfl, fun name r' hr => ⟨r', hr, ?_⟩⟩
    split
    · rename_i hpath
      exact updateHash_none hu hpath hr
    · rfl

theorem edits_processMsg {msg : ActorMessage} {rest : List ActorMessage}
    (hp : t.actor.phase = .idle) (hm : t.actor.mailbox = msg :: rest) (hok : ok → t.newChildren env = true) :
    Edits ok t ((t.take rest).processMsg env msg) := by
  have h0 : Stays ok t (t.take rest) := stays_take t rest
  unfold newChildren at hok
  rw [hp, hm] at hok
  cases msg with
  | pathOp path op =>
    refine .thins (h0.trans (stays_pathOp _ path op fun ho enable request he => ?_)).thins
    subst he
    exact of_decide_eq_true (hok ho)
  | openSubdir base path waiting request =>
    exact .thins (h0.trans (stays_openSubdir _ base path waiting request fun ho =>
      of_decide_eq_true (hok ho))).thins
  | updateDirRefHash path hash =>
    obtain ⟨hholds, hdirs⟩ := processMsg_report env (t.take rest) path hash
    exact .reported path hash rest hp hm ⟨fun path => (hholds.handles path).trans (by
      cases path <;> rfl), hholds.fresh, hholds.spawned⟩ hdirs
  | saveIfDirty responder => exact .thins (h0.thins_trans (thins_saveIfDirty _ responder))
  | exportSnapshotHash request =>
    have h : Stays ok (t.take rest) ((t.take rest).exportSnapshotHash env).1 :=
      stays_exportSnapshotHash _
    exact .thins ((h0.trans h).trans (stays_emit _ _)).thins
  | createSnapshot request => exact .thins (h0.trans (stays_createSnapshot _ request)).thins
  | deleteSnapshot name request => exact .thins (h0.trans (stays_deleteSnapshot _ name request)).thins
  | exportSnapshot request => exact .thins (h0.trans (stays_emit _ _)).thins
  | mergeSnapshot snapshot responder =>
    simp only [processMsg, mergeSnapshot]
    split
    · rename_i hl
      refine .merged snapshot responder rest hp hm hl fun path c hc hn => ?_
      have hc' : (t.take rest).actor.handleAt path = some c := h0.handles path c hc
      have h1 := handleAt_mergeLocal (t.take rest) snapshot hc' hn
      cases path <;> exact h1
    · split
      · exact .thins (h0.trans (stays_emit _ _)).thins
      · exact .thins (h0.trans (stays_mergeNext _ _ _ _ _)).thins
  | autosaveTick => exact .thins (h0.thins_trans (thins_autosaveTick _))
  | markAsDirty => exact .thins (h0.trans (stays_markAsDirty _)).thins

/-- **What a turn does to the references of its directory.** -/
theorem edits_run (t : Turn β) (hok : ok → t.newChildren env = true) : Edits ok t (t.run env) := by
  have hwait : Edits ok t t := .thins (Stays.refl t).thins
  unfold run
  split
  · rename_i initial hp
    unfold start
    cases initial with
    | some d =>
      obtain ⟨-, hd, hs, hf, hsp⟩ :=
        save_unchanged env { t with actor.state := d, actor.phase := .idle } true
      exact .started (some d) hp (.of_eq hd hs hf hsp)
    | none =>
      dsimp only
      split
      · exact .started none hp (.of_eq rfl rfl rfl rfl)
      · exact .started none hp (.of_eq rfl rfl rfl rfl)
  · rename_i hp
    split
    · exact hwait
    · rename_i hm
      exact edits_processMsg hp hm hok
  · rename_i path stored hp
    unfold newChildren at hok
    rw [hp] at hok
    exact .thins (stays_finishFileOp t fun ho => of_decide_eq_true (hok ho)).thins
  · exact hwait
  · rename_i hp
    split
    · exact edits_finishSave hp
    · exact hwait
  · split
    · exact hwait
    · exact .thins ((stays_enter t _).trans (stays_emit _ _)).thins
    · split
      · exact .thins (stays_mergeNext _ _ _ _ t).thins
      · exact hwait
  · exact hwait
  · exact hwait

end

end Turn

end Fs
