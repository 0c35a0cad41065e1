import S5.Fs.Proof.ShardLookup

/-!
# Shutdown

A shutdown saves a directory before its children and the children do not tell it their new hashes,
so the root that is found again is the root as it was, with the references it had.

* `shutdown_root`: what a shutdown leaves in the root file.
* `shutdown_lossless_iff`: the reopened root resolves every path as the live tree did, exactly when
  every child the root has open resolves as its reference does (`Flushed`), or, if the root is split
  at that moment, under the condition of that (`ShardKeeps`).
-/

open Std

namespace Fs

namespace Actor

/-! ## The tree below the root -/

/-- The context of a directory that hangs on its parent by a hash. -/
def IsChild (ctx : DirContext Unit) : Prop := ∃ path k level, ctx.link = .dirHandle path () k level

mutual
/-- An actor and all actors below it hang on their parents by hashes. -/
def HashLinked : Actor → Prop
  | ⟨context, _, _, dirHandles, dirShardHandles, _, _⟩ =>
    IsChild context ∧ HashLinkedDirs dirHandles ∧ HashLinkedShards dirShardHandles
def HashLinkedDirs : List (String × Actor) → Prop
  | [] => True
  | (_, child) :: rest => HashLinked child ∧ HashLinkedDirs rest
def HashLinkedShards : List (UInt8 × Actor) → Prop
  | [] => True
  | (_, child) :: rest => HashLinked child ∧ HashLinkedShards rest
end

variable {β : Type} [DecidableEq β] (env : Env β)

/-- The store has grown, and nothing else has changed that the rest of the tree sees. -/
structure Kept (w w' : World β) : Prop where
  grows : w.Grows w'
  rootFile : w'.rootFile = w.rootFile

omit [DecidableEq β] in
theorem Kept.refl (w : World β) : Kept w w := ⟨World.Grows.refl w, rfl⟩

omit [DecidableEq β] in
theorem Kept.trans {w w' w'' : World β} (h : Kept w w') (h' : Kept w' w'') : Kept w w'' :=
  ⟨h.grows.trans h'.grows, h'.rootFile.trans h.rootFile⟩

/-- What the loop over the buckets keeps, however it ends. -/
theorem kept_shardBuckets (level : UInt8) (old : DirV1) (is : List UInt8) (w : World β) (a : Actor) :
    Kept w (shardBuckets env level old is w a).1 ∧
      (shardBuckets env level old is w a).2.1.context = a.context ∧
      (shardBuckets env level old is w a).2.1.dirty = a.dirty ∧
      (shardBuckets env level old is w a).2.1.state.header.shardLevel =
        a.state.header.shardLevel := by
  induction is generalizing w a with
  | nil => exact ⟨Kept.refl w, rfl, rfl, rfl⟩
  | cons index rest ih =>
    unfold shardBuckets
    simp only [setShards_context]
    split
    · exact ih w a
    · have h1 : Kept w (encodeChildDirBytes env a.context (shardState env old level index) w).1 :=
        ⟨grows_encodeChildDirBytes env _ _ w, encodeChildDirBytes_rootFile env _ _ w⟩
      generalize encodeChildDirBytes env a.context (shardState env old level index) w = enc at h1
      obtain ⟨w1, bytes, keys⟩ := enc
      have h2 : Kept w (w1.importBytes env bytes).1 :=
        h1.trans ⟨World.grows_importBytes env w1 bytes, World.importBytes_rootFile env w1 bytes⟩
      dsimp only
      generalize w1.importBytes env bytes = imp at h2
      obtain ⟨w2, res⟩ := imp
      cases res with
      | error e => exact ⟨h2, rfl, rfl, rfl⟩
      | ok h =>
        dsimp only
        split
        · exact ⟨h2, rfl, rfl, rfl⟩
        · rename_i a3 ho
          have ha3 : a3.context = a.context ∧ a3.dirty = a.dirty ∧
              a3.state.header.shardLevel = a.state.header.shardLevel := by
            unfold openDirShardImpl at ho
            split at ho
            · obtain rfl := Except.ok.inj ho
              exact ⟨rfl, rfl, rfl⟩
            · simp only [bind, Except.bind] at ho
              split at ho
              · cases ho
              · split at ho
                · obtain rfl := Except.ok.inj ho
                  exact ⟨rfl, rfl, rfl⟩
                · obtain rfl := Except.ok.inj ho
                  exact ⟨rfl, rfl, rfl⟩
          obtain ⟨hk, hc, hd, hl⟩ := ih w2 a3
          exact ⟨h2.trans hk, hc.trans ha3.1, hd.trans ha3.2.1, hl.trans ha3.2.2⟩

theorem kept_shard (w : World β) (a : Actor) :
    Kept w (shard env w a).1 ∧ (shard env w a).2.1.context = a.context ∧
      (shard env w a).2.1.dirty = a.dirty ∧
      (shard env w a).2.1.state.header.shardLevel.isSome := by
  unfold shard
  split
  · rename_i level hlevel
    exact ⟨Kept.refl w, rfl, rfl, by simp [hlevel]⟩
  · dsimp only
    have hk := kept_shardBuckets env a.splitLevel a.state buckets w
      { a with state.header.shardLevel := some a.splitLevel }
    generalize shardBuckets env a.splitLevel a.state buckets w
      { a with state.header.shardLevel := some a.splitLevel } = res at hk
    obtain ⟨w1, a1, r⟩ := res
    obtain ⟨hk, hc, hd, hl⟩ := hk
    have hsome : a1.state.header.shardLevel.isSome := by rw [hl]; rfl
    cases r with
    | error e => exact ⟨hk, hc, hd, hsome⟩
    | ok u => exact ⟨hk, hc, hd, hsome⟩

theorem kept_shardIfNeeded (w : World β) (a : Actor) :
    Kept w (shardIfNeeded env w a).1 ∧ (shardIfNeeded env w a).2.1.context = a.context ∧
      (shardIfNeeded env w a).2.1.dirty = a.dirty := by
  unfold shardIfNeeded
  dsimp only
  split
  · exact ⟨Kept.refl w, rfl, rfl⟩
  · split
    · exact ⟨Kept.refl w, rfl, rfl⟩
    · split
      · obtain ⟨hk, hc, hd, -⟩ := kept_shard env w
          { a with lastSerializedLen := env.len (env.toBytes a.state), shardSizeCheckOps := 0 }
        exact ⟨hk, hc, hd⟩
      · exact ⟨Kept.refl w, rfl, rfl⟩

theorem kept_save {w : World β} {a : Actor} (hchild : IsChild a.context) :
    Kept w (save env w a).1 ∧ IsChild (save env w a).2.1.context := by
  obtain ⟨path, k, level, hlink⟩ := hchild
  have h1 : Kept w (encodeStateBytes env a.context a.state w).1 :=
    ⟨grows_encodeStateBytes env _ _ w, encodeStateBytes_rootFile env _ _ w⟩
  unfold save persist
  generalize encodeStateBytes env a.context a.state w = enc at h1
  obtain ⟨w1, r⟩ := enc
  cases r with
  | error e => exact ⟨h1, path, k, level, hlink⟩
  | ok b =>
    have h2 : Kept w (w1.importBytes env b).1 :=
      h1.trans ⟨World.grows_importBytes env w1 b, World.importBytes_rootFile env w1 b⟩
    dsimp only
    generalize w1.importBytes env b = imp at h2
    obtain ⟨w2, res⟩ := imp
    cases res with
    | error e => exact ⟨h2, path, k, level, hlink⟩
    | ok h =>
      simp only [hlink]
      exact ⟨h2, path, h, level, rfl⟩

theorem kept_saveOnExit {w : World β} {a : Actor} (hchild : IsChild a.context) :
    Kept w (saveOnExit env w a).1 ∧ IsChild (saveOnExit env w a).2.context := by
  unfold saveOnExit
  split
  · obtain ⟨hk, hc, -⟩ := kept_shardIfNeeded env w a
    generalize shardIfNeeded env w a = res at hk hc
    obtain ⟨w1, a1, r⟩ := res
    obtain ⟨hk', hc'⟩ := @kept_save β _ env w1 a1 (by rw [hc]; exact hchild)
    exact ⟨hk.trans hk', hc'⟩
  · exact ⟨Kept.refl w, hchild⟩

mutual
/-- The shutdown of a child only adds blobs to the store. -/
theorem kept_shutdown : (a : Actor) → a.HashLinked → ∀ w, Kept w (shutdown env a w).1
  | ⟨context, state, dirty, dirHandles, dirShardHandles, len, ops⟩, h, w => by
    rw [HashLinked] at h
    obtain ⟨hchild, hdirs, hshards⟩ := h
    unfold shutdown
    dsimp only
    have h1 := @kept_saveOnExit β _ env w
      ⟨context, state, dirty, dirHandles, dirShardHandles, len, ops⟩ hchild
    generalize saveOnExit env w
      ⟨context, state, dirty, dirHandles, dirShardHandles, len, ops⟩ = res at h1
    obtain ⟨w1, a1⟩ := res
    have h2 := kept_shutdownDirs dirHandles hdirs w1
    have h3 := kept_shutdownShards dirShardHandles hshards (shutdownDirs env dirHandles w1)
    exact h1.1.trans (h2.trans (h3.trans (kept_saveOnExit env h1.2).1))
theorem kept_shutdownDirs : (l : List (String × Actor)) → HashLinkedDirs l →
    ∀ w, Kept w (shutdownDirs env l w)
  | [], _, w => by
    rw [shutdownDirs]
    exact Kept.refl w
  | (_, child) :: rest, h, w => by
    rw [HashLinkedDirs] at h
    rw [shutdownDirs]
    exact (kept_shutdown child h.1 w).trans (kept_shutdownDirs rest h.2 _)
theorem kept_shutdownShards : (l : List (UInt8 × Actor)) → HashLinkedShards l →
    ∀ w, Kept w (shutdownShards env l w)
  | [], _, w => by
    rw [shutdownShards]
    exact Kept.refl w
  | (_, child) :: rest, h, w => by
    rw [HashLinkedShards] at h
    rw [shutdownShards]
    exact (kept_shutdown child h.1 w).trans (kept_shutdownShards rest h.2 _)
end

/-! ## The root -/

/-- An actor that holds no handle. -/
def closed (a : Actor) : Actor := { a with dirHandles := [], dirShardHandles := [] }

/-- The local root of a tree of hash-linked directories. -/
structure IsRoot (env : Env β) (w : World β) (a : Actor) : Prop where
  context : a.context = .localRoot
  dirs : HashLinkedDirs a.dirHandles
  shards : HashLinkedShards a.dirShardHandles
  unsharded : a.state.header.shardLevel = none → a.Unsharded
  /-- A root without unsaved changes is what its file says. -/
  clean : a.dirty = false → ∃ b, w.rootFile = some b ∧ env.fromBytes b = some a.state

/-- The root is split by a shutdown. -/
def WillShard (env : Env β) (a : Actor) : Prop :=
  a.dirty = true ∧ a.state.header.shardLevel = none ∧
    ¬ (a.lastSerializedLen < maxDirBytesBeforeShard ∧
      a.shardSizeCheckOps.toNat < shardSizeCheckOpInterval) ∧
    maxDirBytesBeforeShard ≤ env.len (env.toBytes a.state)

/-- The size check is not repeated within one shutdown. -/
theorem shardIfNeeded_again (w w' : World β) (a : Actor) :
    shardIfNeeded env w' (shardIfNeeded env w a).2.1 =
      (w', (shardIfNeeded env w a).2.1, .ok ()) := by
  by_cases hsome : a.state.header.shardLevel.isSome
  · simp [shardIfNeeded, hsome]
  · by_cases hfast : a.lastSerializedLen < maxDirBytesBeforeShard ∧
        a.shardSizeCheckOps.toNat < shardSizeCheckOpInterval
    · simp [shardIfNeeded, hsome, hfast]
    · by_cases hlen : maxDirBytesBeforeShard ≤ env.len (env.toBytes a.state)
      · have hs := (kept_shard env w
          { a with lastSerializedLen := env.len (env.toBytes a.state), shardSizeCheckOps := 0 }).2.2.2
        have he : shardIfNeeded env w a = shard env w
            { a with lastSerializedLen := env.len (env.toBytes a.state), shardSizeCheckOps := 0 } := by
          simp only [shardIfNeeded, hsome, hfast, hlen, if_true, if_false]
          rfl
        rw [he]
        simp only [shardIfNeeded, hs, if_true]
      · have he : shardIfNeeded env w a = (w, { a with
            lastSerializedLen := env.len (env.toBytes a.state), shardSizeCheckOps := 0 }, .ok ()) := by
          simp only [shardIfNeeded, hsome, hfast, hlen, if_false]
          rfl
        rw [he]
        have hfast' : env.len (env.toBytes a.state) < maxDirBytesBeforeShard ∧
            (0 : UInt64).toNat < shardSizeCheckOpInterval :=
          ⟨by omega, by decide⟩
        simp only [shardIfNeeded, hsome, hfast']
        rfl

section
variable {env} {w : World β} {a : Actor}

/-- A save at the local root writes the root file. -/
theorem save_root (hstore : ∀ n, env.storeFails n = false) (hctx : a.context = .localRoot) :
    save env w a = ({ (w.importBytes env (env.toBytes a.state)).1 with
      rootFile := some (env.toBytes a.state) }, a, .ok none) := by
  have henc : encodeStateBytes env a.context a.state w = (w, .ok (env.toBytes a.state)) := by
    simp [encodeStateBytes, hctx, DirContext.localRoot]
  have himp : (w.importBytes env (env.toBytes a.state)).2 =
      .ok (env.blake3 (env.toBytes a.state)) := by
    unfold World.importBytes
    simp only [hstore, Bool.false_eq_true, if_false]
    split
    · rfl
    · rfl
  unfold save persist
  rw [henc]
  dsimp only
  generalize w.importBytes env (env.toBytes a.state) = imp at himp ⊢
  obtain ⟨w1, r⟩ := imp
  subst himp
  have hlink : a.context.link = .localFile := by rw [hctx]; rfl
  simp only [hlink]
  cases a
  rfl

/-- What the root is when a shutdown saves it. -/
def exitActor (env : Env β) (w : World β) (a : Actor) : World β × Actor :=
  if a.dirty then ((shardIfNeeded env w a).1, (shardIfNeeded env w a).2.1) else (w, a)

/-- What a shutdown leaves in the root file. -/
theorem shutdown_root (law : env.Lawful) (hstore : ∀ n, env.storeFails n = false)
    (hroot : IsRoot env w a) :
    (exitActor env w a).1.Grows (shutdown env a w).1 ∧
      ∃ b, (shutdown env a w).1.rootFile = some b ∧
        env.fromBytes b = some (exitActor env w a).2.state := by
  have hdirs := hroot.dirs
  have hshards := hroot.shards
  have hclean := hroot.clean
  have hctx := hroot.context
  obtain ⟨context, state, dirty, dirHandles, dirShardHandles, len, ops⟩ := a
  unfold shutdown exitActor
  dsimp only at hdirs hshards hclean hctx ⊢
  have hdown : ∀ w1 : World β, Kept w1 (shutdownShards env dirShardHandles
      (shutdownDirs env dirHandles w1)) := fun w1 =>
    (kept_shutdownDirs env dirHandles hdirs w1).trans (kept_shutdownShards env _ hshards _)
  cases dirty with
  | false =>
    obtain ⟨b, hb, hdec⟩ := hclean rfl
    simp only [saveOnExit, Bool.false_eq_true, if_false]
    exact ⟨(hdown w).grows, b, by rw [(hdown w).rootFile]; exact hb, hdec⟩
  | true =>
    obtain ⟨hk, hc, hd⟩ := kept_shardIfNeeded env w
      ⟨context, state, true, dirHandles, dirShardHandles, len, ops⟩
    have hagain := fun w' => shardIfNeeded_again env w w'
      ⟨context, state, true, dirHandles, dirShardHandles, len, ops⟩
    generalize hx : shardIfNeeded env w
      ⟨context, state, true, dirHandles, dirShardHandles, len, ops⟩ = x at hk hc hd hagain
    obtain ⟨w1, a1, r⟩ := x
    dsimp only at hk hc hd hagain
    have ha1 : a1.context = .localRoot := hc.trans hctx
    have hexit : ∀ w' : World β, saveOnExit env w' a1 =
        ({ (w'.importBytes env (env.toBytes a1.state)).1 with
          rootFile := some (env.toBytes a1.state) }, a1) := by
      intro w'
      simp only [saveOnExit, hd, if_true, hagain w', save_root hstore ha1]
    have hfirst : saveOnExit env w ⟨context, state, true, dirHandles, dirShardHandles, len, ops⟩ =
        ({ (w1.importBytes env (env.toBytes a1.state)).1 with
          rootFile := some (env.toBytes a1.state) }, a1) := by
      simp only [saveOnExit, hx, if_true, save_root hstore ha1]
    have hg : ∀ w' : World β, w'.Grows { (w'.importBytes env (env.toBytes a1.state)).1 with
        rootFile := some (env.toBytes a1.state) } := fun w' =>
      let h := World.grows_importBytes env w' (env.toBytes a1.state)
      ⟨h.store, h.registry, h.collided⟩
    rw [hfirst]
    dsimp only
    rw [hexit]
    refine ⟨(hg w1).trans ((hdown _).grows.trans (hg _)), _, rfl, law.fromBytes_toBytes _⟩

/-! ## What is found again -/

/-- Every child that the root has open resolves the paths routed to it as its reference does. -/
structure Flushed (env : Env β) (w : World β) (a : Actor) : Prop where
  dirs : ∀ n child path rest, a.dirHandles.lookup n = some child →
    route env a.state path = .ok (.dir n rest) → ∀ r,
      Reaches env w [] child rest r ↔ ReachesIn env w [] (openDir env w [] a.closed n) rest r
  shards : ∀ i child path, a.dirShardHandles.lookup i = some child →
    route env a.state path = .ok (.shard i) → ∀ r,
      Reaches env w [] child path r ↔ ReachesIn env w [] (openDirShard env w a.closed i) path r

omit [DecidableEq β] in
/-- Without its handles a directory resolves as before exactly when it is flushed. -/
theorem reaches_closed_iff :
    (∀ path r, Reaches env w [] a path r ↔ Reaches env w [] a.closed path r) ↔ Flushed env w a := by
  constructor
  · intro h
    refine ⟨fun n child path rest hn hroute r => ?_, fun i child path hi hroute r => ?_⟩
    · have hp := h path r
      rw [reaches_iff, reaches_iff] at hp
      have hopen : openDir env w [] a n = .ok child := by
        unfold openDir
        simp only [hn]
      simp only [closed, hroute, hopen] at hp
      exact hp
    · have hp := h path r
      rw [reaches_iff, reaches_iff] at hp
      have hopen : openDirShard env w a i = .ok child := by
        unfold openDirShard
        simp only [hi]
      simp only [closed, hroute, hopen] at hp
      exact hp
  · intro h path r
    rw [reaches_iff, reaches_iff]
    have hstate : a.closed.state = a.state := rfl
    rw [hstate]
    cases hroute : route env a.state path with
    | error e => rfl
    | ok rt =>
      cases rt with
      | here => rfl
      | dir n rest =>
        dsimp only
        cases hn : a.dirHandles.lookup n with
        | some child =>
          have hopen : openDir env w [] a n = .ok child := by
            unfold openDir
            simp only [hn]
          rw [hopen]
          exact h.dirs n child path rest hn hroute r
        | none =>
          have hopen : openDir env w [] a n = openDir env w [] a.closed n := by
            unfold openDir
            simp only [hn, closed, List.lookup_nil]
          rw [hopen]
      | shard i =>
        dsimp only
        cases hi : a.dirShardHandles.lookup i with
        | some child =>
          have hopen : openDirShard env w a i = .ok child := by
            unfold openDirShard
            simp only [hi]
          rw [hopen]
          exact h.shards i child path hi hroute r
        | none =>
          have hopen : openDirShard env w a i = openDirShard env w a.closed i := by
            unfold openDirShard
            simp only [hi, closed, List.lookup_nil]
          rw [hopen]

omit [DecidableEq β] in
/-- The reopened root reads the root file. -/
theorem spawn_root {w' : World β} {b : β} {state : DirV1} (hfile : w'.rootFile = some b)
    (hdec : env.fromBytes b = some state) :
    spawn env .localRoot w' = .ok ⟨.localRoot, state, false, [], [], env.len b, 0⟩ := by
  apply spawn_ok
  simp [load, DirContext.localRoot, hfile, decodeDir, hdec]

/-- Unless it is split, the root is saved as it is. -/
theorem exitActor_of_not_willShard (h : ¬ WillShard env a) :
    (exitActor env w a).2.state = a.state := by
  unfold exitActor
  split
  · rename_i hdirty
    unfold shardIfNeeded
    dsimp only
    split
    · rfl
    · rename_i hnone
      split
      · rfl
      · rename_i hfast
        split
        · rename_i hlen
          exact absurd ⟨hdirty, by simpa using hnone, hfast, hlen⟩ h
        · rfl
  · rfl

/-- If it is split, the root is saved as `shard` leaves it. -/
theorem exitActor_of_willShard (law : env.Lawful) (hstore : ∀ n, env.storeFails n = false)
    (hroot : IsRoot env w a) (h : WillShard env a)
    (hc : (exitActor env w a).1.collided = false) :
    IsSplit env a (exitActor env w a).1 (exitActor env w a).2 := by
  obtain ⟨hdirty, hnone, hfast, hlen⟩ := h
  have hu := hroot.unsharded hnone
  let a0 : Actor := { a with lastSerializedLen := env.len (env.toBytes a.state), shardSizeCheckOps := 0 }
  have hexit : exitActor env w a = ((shard env w a0).1, (shard env w a0).2.1) := by
    have he : shardIfNeeded env w a = shard env w a0 := by
      simp only [shardIfNeeded, hnone, Option.isSome_none, Bool.false_eq_true, hfast, hlen, if_true,
        if_false]
      rfl
    simp only [exitActor, hdirty, if_true, he]
  have hlevel : a0.splitLevel = 0 := by
    have hctx : a0.context = .localRoot := hroot.context
    simp [splitLevel, hctx, DirContext.localRoot]
  have hu0 : a0.Unsharded := ⟨hu.shardLevel, hu.shards, hu.dirShardHandles⟩
  have hok : (shard env w a0).2.2 = .ok () := by
    have hloop : (shardBuckets env a0.splitLevel a0.state buckets w
        { a0 with state.header.shardLevel := some a0.splitLevel }).2.2 = .ok () :=
      shardBuckets_ok hstore (by rw [hlevel]; decide) buckets rfl
    unfold shard
    simp only [hu0.shardLevel]
    generalize shardBuckets env a0.splitLevel a0.state buckets w
      { a0 with state.header.shardLevel := some a0.splitLevel } = res at hloop
    obtain ⟨w1, a1, r⟩ := res
    subst hloop
    rfl
  rw [hexit] at hc ⊢
  have hrun : shard env w a0 = ((shard env w a0).1, (shard env w a0).2.1, .ok ()) :=
    Prod.ext rfl (Prod.ext rfl hok)
  have hsplit := shard_isSplit law hu0 hrun hc
  exact ⟨hsplit.context, hsplit.dirs, hsplit.files, hsplit.shardLevel, hsplit.shard, hsplit.other⟩

omit [DecidableEq β] in
/-- At a local root a child is opened under a shard as it is opened without a handle. -/
theorem reopenDir_root (hctx : a.context = .localRoot) {n : String} {d : DirRef}
    (hd : a.state.dirs[n]? = some d) : reopenDir env w [] a n d = openDir env w [] a.closed n := by
  have hshard : shardContext a.context = a.context := by rw [hctx]; rfl
  have hplain : ¬ (a.context.encryptionType.isSome ∧ d.ownKey = none) := by
    simp [hctx, DirContext.localRoot]
  unfold reopenDir openDir
  cases ht : d.refTypeD <;> simp [closed, hd, hplain, hshard, ht]

/-- **A shutdown loses nothing** exactly when the root's open children are flushed or, if the root
is split by it, when splitting is transparent. -/
theorem shutdown_lossless_iff (law : env.Lawful) (hstore : ∀ n, env.storeFails n = false)
    (hroot : IsRoot env w a) (hc : (shutdown env a w).1.collided = false)
    (hunread : ∀ path r, Reaches env w [] a.closed path r ↔
      Reaches env (shutdown env a w).1 [] a.closed path r) :
    (∃ b, spawn env .localRoot (shutdown env a w).1 = .ok b ∧
      ∀ path r, Reaches env w [] a path r ↔ Reaches env (shutdown env a w).1 [] b path r) ↔
    (WillShard env a → ShardKeeps env w [] a) ∧ (¬ WillShard env a → Flushed env w a) := by
  obtain ⟨hg, b, hfile, hdec⟩ := shutdown_root law hstore hroot
  generalize (shutdown env a w).1 = w' at hg hfile hc hunread ⊢
  have hspawn := spawn_root hfile hdec
  have hiff : (∃ b, spawn env .localRoot w' = .ok b ∧
        ∀ path r, Reaches env w [] a path r ↔ Reaches env w' [] b path r) ↔
      ∀ path r, Reaches env w [] a path r ↔ Reaches env w' []
        ⟨.localRoot, (exitActor env w a).2.state, false, [], [], env.len b, 0⟩ path r := by
    rw [hspawn]
    constructor
    · rintro ⟨b', hb', h⟩
      obtain rfl := Except.ok.inj hb'
      exact h
    · intro h
      exact ⟨_, rfl, h⟩
  rw [hiff]
  by_cases hw : WillShard env a
  · -- the root is split: its shards are found in the store
    have hsplit := exitActor_of_willShard law hstore hroot hw (hg.collided hc)
    have hsplit' : IsSplit env a w'
        ⟨.localRoot, (exitActor env w a).2.state, false, [], [], env.len b, 0⟩ :=
      hsplit.reopened hg (hroot.context.symm.trans hsplit.context.symm) rfl rfl
    have hu := hroot.unsharded hw.2.1
    have hplain : a.context.encryptionType = none := by rw [hroot.context]; rfl
    have hkeys : KeysFresh env w' a
        ⟨.localRoot, (exitActor env w a).2.state, false, [], [], env.len b, 0⟩ :=
      hsplit'.keysFresh hplain
    have hunread' : Unread env w w' [] a := by
      intro n d hn hd rest r
      have hp := hunread (n ++ "/" ++ rest) r
      have huc : a.closed.Unsharded := ⟨hu.shardLevel, hu.shards, rfl⟩
      have hdc : a.closed.state.dirs[n]? = some d := hd
      rw [reaches_unsharded huc, reaches_unsharded huc, splitPath_append hn, hdc] at hp
      rw [reopenDir_root hroot.context hd, reopenDir_root hroot.context hd]
      exact hp
    rw [split_transparent_iff hu hsplit' hunread' hkeys]
    exact ⟨fun h => ⟨fun _ => h, fun hn => absurd hw hn⟩, fun h => h.1 hw⟩
  · have hstate : (exitActor env w a).2.state = a.state := exitActor_of_not_willShard hw
    have hsame : ∀ path r, Reaches env w' []
        ⟨.localRoot, (exitActor env w a).2.state, false, [], [], env.len b, 0⟩ path r ↔
        Reaches env w [] a.closed path r := by
      intro path r
      rw [hunread path r]
      refine reaches_congr ?_ ?_ ?_ ?_
      · exact hroot.context.symm
      · exact hstate
      · rfl
      · rfl
    simp only [hsame]
    rw [reaches_closed_iff]
    exact ⟨fun h => ⟨fun hn => absurd hn hw, fun _ => h⟩, fun h => h.2 hw⟩

end

/-! A root with unsaved files and an open subdirectory, and one whose only unsaved file is in a
subdirectory. -/

/-- The root with files and a subdirectory, which is open. -/
def openRoot : Actor where
  context := .localRoot
  state := (mixedRoot childOfFile).state
  dirty := true
  dirHandles := [("d", openedChild childOfFile)]
  dirShardHandles := []
  lastSerializedLen := 0
  shardSizeCheckOps := 0

theorem openRoot_isRoot : IsRoot (symbolic xxh3Short) (mixedWorld childOfFile) openRoot where
  context := rfl
  dirs := ⟨⟨⟨_, _, _, rfl⟩, trivial, trivial⟩, trivial⟩
  shards := trivial
  unsharded _ := ⟨rfl, rfl, rfl⟩
  clean h := absurd h (by decide)

theorem openRoot_flushed : Flushed (symbolic xxh3Short) (mixedWorld childOfFile) openRoot where
  dirs n child path rest hn _ r := by
    have hn' : n = "d" ∧ child = openedChild childOfFile := by
      by_cases hd : n = "d"
      · subst hd
        exact ⟨rfl, (Option.some.inj hn).symm⟩
      · have hb : (n == "d") = false := beq_eq_false_iff_ne.2 hd
        simp [openRoot, List.lookup_cons, hb] at hn
    obtain ⟨rfl, rfl⟩ := hn'
    have hopen : openDir (symbolic xxh3Short) (mixedWorld childOfFile) [] openRoot.closed "d" =
        .ok (openedChild childOfFile) := openDir_mixedRoot (by decide +kernel)
    rw [hopen]
    rfl
  shards i child path hi := by cases hi

theorem shutdown_lossless_openRoot :
    IsRoot (symbolic xxh3Short) (mixedWorld childOfFile) openRoot ∧
    ∃ b, spawn (symbolic xxh3Short) .localRoot
        (shutdown (symbolic xxh3Short) openRoot (mixedWorld childOfFile)).1 = .ok b ∧
      ∀ path r, Reaches (symbolic xxh3Short) (mixedWorld childOfFile) [] openRoot path r ↔
        Reaches (symbolic xxh3Short) (shutdown (symbolic xxh3Short) openRoot
          (mixedWorld childOfFile)).1 [] b path r := by
  have hchild : (openedChild childOfFile).Unsharded := ⟨rfl, rfl, rfl⟩
  have hclosed : openRoot.closed = mixedRoot childOfFile := rfl
  refine ⟨openRoot_isRoot, (shutdown_lossless_iff (symbolic_lawful xxh3Short) (fun _ => rfl)
    openRoot_isRoot (by decide +kernel) fun path r => ?_).2
      ⟨fun h => absurd h.2.2.1 (by decide), fun _ => openRoot_flushed⟩⟩
  rw [hclosed, reaches_mixedRoot hchild rfl (by decide +kernel),
    reaches_mixedRoot hchild rfl (by decide +kernel)]

/-- The reference of a subdirectory that has been saved empty. -/
def savedRef : DirRef :=
  storedDirRef (DirContext.localRoot : DirContext Unit)
    ((symbolic xxh3Short).blake3 (.plain DirV1.new)) none (1, 0)

/-- A subdirectory that has got the file `x` since it was saved. -/
def unsavedDir : Actor where
  context := DirContext.localRoot.withNewRef savedRef (.dirHandle (.path "d") () savedRef.hash 0)
  state := { DirV1.new with files := (∅ : ExtTreeMap String FileRef).insert "x" (FileRef.new 1 1) }
  dirty := true
  dirHandles := []
  dirShardHandles := []
  lastSerializedLen := 64
  shardSizeCheckOps := 1

def unsavedRoot : Actor where
  context := .localRoot
  state := { DirV1.new with dirs := (∅ : ExtTreeMap String DirRef).insert "d" savedRef }
  dirty := true
  dirHandles := [("d", unsavedDir)]
  dirShardHandles := []
  lastSerializedLen := 164
  shardSizeCheckOps := 1

def savedWorld : World Sym :=
  { emptyWorld with
    store := (∅ : ExtTreeMap Hash Sym).insert savedRef.hash (.plain DirV1.new)
    rootFile := some (.plain unsavedRoot.state) }

theorem subdir_file_lost :
    IsRoot (symbolic xxh3Short) savedWorld unsavedRoot ∧
    (shutdown (symbolic xxh3Short) unsavedRoot savedWorld).1.collided = false ∧
    ¬ ∃ b, spawn (symbolic xxh3Short) .localRoot
        (shutdown (symbolic xxh3Short) unsavedRoot savedWorld).1 = .ok b ∧
      ∀ path r, Reaches (symbolic xxh3Short) savedWorld [] unsavedRoot path r ↔
        Reaches (symbolic xxh3Short) (shutdown (symbolic xxh3Short) unsavedRoot savedWorld).1 [] b
          path r := by
  refine ⟨⟨rfl, ⟨⟨⟨_, _, _, rfl⟩, trivial, trivial⟩, trivial⟩, trivial, fun _ => ⟨rfl, rfl, rfl⟩,
    fun h => absurd h (by decide)⟩, by decide +kernel, ?_⟩
  rintro ⟨b, hb, h⟩
  have hlive : Reaches (symbolic xxh3Short) savedWorld [] unsavedRoot "d/x"
      (some (FileRef.new 1 1)) := ⟨2, by decide +kernel⟩
  obtain ⟨fuel, hlook⟩ := (h "d/x" _).1 hlive
  have hgone : (spawn (symbolic xxh3Short) .localRoot
      (shutdown (symbolic xxh3Short) unsavedRoot savedWorld).1).toOption.bind (fun b =>
        lookup (symbolic xxh3Short) (shutdown (symbolic xxh3Short) unsavedRoot savedWorld).1 [] 2 b
          "d/x") = some none := by
    decide +kernel
  rw [hb] at hgone
  cases (Reaches.unique ⟨fuel, hlook⟩ ⟨2, hgone⟩)

end Actor

end Fs
