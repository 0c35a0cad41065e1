import S5.Fs.Proof.Lookup

/-!
# Sharding and lookups

* `part_shardBuckets`: what the loop of `shard` leaves, however it ends.
* `shard_isSplit`: what a `shard` that succeeds leaves.
-/

open Std

namespace Fs

/-! ## Written children can be loaded -/

section
variable {β : Type} {env : Env β}

theorem load_grows {ι : Type} {ctx : DirContext ι} {w w' : World β} {x : DirV1 × Nat}
    (hg : w.Grows w') (hlink : ctx.link ≠ .localFile) (h : load env ctx w = .ok x) :
    load env ctx w' = .ok x := by
  have hread : ∀ (k : Hash) (b : β), w.readAsBytes k = .ok b → w'.readAsBytes k = .ok b := by
    intro k b hb
    unfold World.readAsBytes at hb ⊢
    cases hs : w.store[k]? with
    | none => rw [hs] at hb; cases hb
    | some b' => rw [hs] at hb; rw [hg.store k b' hs]; exact hb
  have hbind : ∀ (k : Hash), (do
        let b ← w.readAsBytes k
        let plain ← decryptIfNeeded env ctx b
        decodeDir env plain) = .ok x → (do
        let b ← w'.readAsBytes k
        let plain ← decryptIfNeeded env ctx b
        decodeDir env plain) = .ok x := by
    intro k hk
    cases hb : w.readAsBytes k with
    | error e => rw [hb] at hk; cases hk
    | ok b => rw [hb] at hk; rw [hread k b hb]; exact hk
  unfold load at h ⊢
  cases hl : ctx.link with
  | localFile => exact absurd hl hlink
  | dirHandle path handle k level => rw [hl] at h; exact hbind k h
  | registryKey key signingKey =>
    rw [hl] at h
    dsimp only at h ⊢
    rw [hg.registry]
    cases hr : w.registry[key]? with
    | none => rw [hr] at h; exact h
    | some entry => rw [hr] at h; exact hbind entry.hash h

/-- A reference's own key is the key of the child. -/
theorem withNewRef_key {ι : Type} (ctx : DirContext ι) {d : DirRef} (link : DirContextParentLink ι)
    {dirKeys : ExtTreeMap UInt8 Bytes32} {key : Bytes32} (hd : d.keys = some dirKeys)
    (hk : dirKeys[keySlot]? = some key) : (ctx.withNewRef d link).keys[keySlot]? = some key := by
  unfold DirContext.withNewRef
  simp only [hd, Option.elim_some, ExtTreeMap.getElem?_union, hk, Option.some_or]

/-- The plaintext under the context's own key. -/
theorem decryptIfNeeded_of_key {ι : Type} {ctx : DirContext ι} {key : Bytes32} {b plain : β}
    (ht : ctx.encryptionType = some encryptionTypeXChaCha20Poly1305)
    (hk : ctx.keys[keySlot]? = some key) (hd : env.decrypt key b = some plain) :
    decryptIfNeeded env ctx b = .ok plain := by
  simp only [decryptIfNeeded, ht, hk, hd, if_true]

/-- A child that `encode_child_dir_bytes` has written is loaded through its reference. -/
theorem load_written {ι : Type} (law : env.Lawful) {ctx : DirContext ι} {part : DirV1}
    {w w1 w2 : World β} {bytes : β} {keys : Option (ExtTreeMap UInt8 Bytes32)} {h : Hash}
    {now : UInt32 × UInt32} {path : DirHandlePath} {self : ι} {level : UInt8}
    (henc : encodeChildDirBytes env ctx part w = (w1, bytes, keys))
    (hs : w2.store[h]? = some bytes) :
    load env (ctx.withNewRef (storedDirRef ctx h keys now) (.dirHandle path self h level)) w2 =
      .ok (part, env.len (env.toBytes part)) := by
  unfold encodeChildDirBytes at henc
  cases ht : ctx.encryptionType with
  | none =>
    simp only [ht, Option.isSome_none, Bool.false_eq_true, if_false, Prod.mk.injEq] at henc
    obtain ⟨-, rfl, rfl⟩ := henc
    simp [load, DirContext.withNewRef, storedDirRef, ht, World.readAsBytes, hs, decryptIfNeeded,
      decodeDir, law.fromBytes_toBytes, bind, Except.bind]
  | some t =>
    simp only [ht, Option.isSome_some, if_true, Prod.mk.injEq] at henc
    obtain ⟨-, rfl, rfl⟩ := henc
    have hdec := @decryptIfNeeded_of_key β env ι
      (ctx.withNewRef (storedDirRef ctx h
        (some ((∅ : ExtTreeMap UInt8 Bytes32).insert keySlot (env.random w.tick))) now)
        (.dirHandle path self h level)) _ _ _
      (by simp [DirContext.withNewRef, storedDirRef, ht])
      (withNewRef_key ctx _ rfl (by simp))
      (law.decrypt_encrypt (env.random w.tick) (env.nonce w.tick) (env.toBytes part))
    have hread : w2.readAsBytes h =
        .ok (env.encrypt (env.random w.tick) (env.nonce w.tick) (env.toBytes part)) := by
      simp only [World.readAsBytes, hs]
    have hdecode : decodeDir env (env.toBytes part) = .ok (part, env.len (env.toBytes part)) := by
      simp only [decodeDir, law.fromBytes_toBytes]
    simp only [load, DirContext.withNewRef] at hdec ⊢
    simp only [hread, bind, Except.bind, hdec, hdecode]

end

/-- The link of a shard whose reference `shard` has written. -/
theorem shardLink_stored {ι : Type} {state : DirV1} {self : ι} {i level : UInt8}
    {ctx : DirContext ι} {k : Hash} {keys : Option (ExtTreeMap UInt8 Bytes32)}
    {now : UInt32 × UInt32}
    (href : state.header.shards.bind (·[i]?) = some (storedDirRef ctx k keys now))
    (hlevel : state.header.shardLevel = some level) (hlt : level < maxShardLevel) :
    shardLink state self i =
      .ok (storedDirRef ctx k keys now, .dirHandle (.shard i) self k (level + 1)) := by
  unfold shardLink
  simp only [href, hlevel, DirRef.refTypeD, storedDirRef, Option.getD_none]
  simp only [maxShardLevel, UInt8.lt_iff_toNat_lt, UInt8.toNat_add, ← UInt8.toNat_inj] at hlt ⊢
  have h7 : (7 : UInt8).toNat = 7 := rfl
  have h1 : (1 : UInt8).toNat = 1 := rfl
  have h255 : (255 : UInt8).toNat = 255 := rfl
  rw [h7] at hlt
  rw [if_neg (by omega), if_neg (by omega)]

/-- No shard of the last level can be opened. -/
theorem shardLink_lt {ι : Type} {state : DirV1} {self : ι} {i level : UInt8}
    {link : DirRef × DirContextParentLink ι} (hlevel : state.header.shardLevel = some level)
    (h : shardLink state self i = .ok link) : level < maxShardLevel := by
  unfold shardLink at h
  simp only [hlevel] at h
  cases href : state.header.shards.bind (·[i]?) with
  | none =>
    rw [href] at h
    cases h
  | some ref =>
    rw [href] at h
    dsimp only at h
    cases ht : ref.refTypeD with
    | registryKey =>
      rw [ht] at h
      cases h
    | blake3Hash =>
      rw [ht] at h
      dsimp only at h
      split at h
      · cases h
      · rename_i h255
        split at h
        · cases h
        · rename_i hmax
          simp only [maxShardLevel, UInt8.lt_iff_toNat_lt, UInt8.toNat_add, ← UInt8.toNat_inj]
            at h255 hmax ⊢
          have h256 := level.toNat_lt
          simp at h255 hmax h256 ⊢
          omega

namespace Actor

/-- The reference of a shard in the header. -/
def shardRef (a : Actor) (index : UInt8) : Option DirRef := a.state.header.shards.bind (·[index]?)

/-- The bucket has an entry. -/
def Occupied (d : DirV1) : Prop := ¬ (d.dirs.isEmpty && d.files.isEmpty) = true

section
variable {β : Type} {env : Env β}

theorem spawn_ok {ctx : DirContext Unit} {w : World β} {state : DirV1} {len : Nat}
    (h : load env ctx w = .ok (state, len)) :
    spawn env ctx w = .ok ⟨ctx, state, false, [], [], len, 0⟩ := by
  simp [spawn, h, bind, Except.bind, pure, Except.pure]

/-- `child` is the shard `index` of a directory with the entries `old`, as stored under `ref`. -/
structure IsShard (env : Env β) (ctx : DirContext Unit) (level : UInt8) (old : DirV1)
    (w : World β) (index : UInt8) (ref : DirRef) (child : Actor) : Prop where
  level_lt : level < maxShardLevel
  state : child.state = shardState env old level index
  context : child.context = ctx.withNewRef ref (.dirHandle (.shard index) () ref.hash (level + 1))
  dirHandles : child.dirHandles = []
  dirShardHandles : child.dirShardHandles = []
  stored : ∃ h keys now, ref = storedDirRef ctx h keys now ∧
    (ctx.encryptionType = none → keys = none) ∧
    (ctx.encryptionType.isSome → ∃ key, keys = some ((∅ : ExtTreeMap UInt8 Bytes32).insert keySlot key))
  spawned : spawn env child.context w = .ok child

theorem IsShard.grows {ctx : DirContext Unit} {level : UInt8} {old : DirV1} {w w' : World β}
    {index : UInt8} {ref : DirRef} {child : Actor} (h : IsShard env ctx level old w index ref child)
    (hg : w.Grows w') : IsShard env ctx level old w' index ref child where
  level_lt := h.level_lt
  state := h.state
  context := h.context
  dirHandles := h.dirHandles
  dirShardHandles := h.dirShardHandles
  stored := h.stored
  spawned := by
    have hs := h.spawned
    unfold spawn at hs ⊢
    cases hl : load env child.context w with
    | error e => rw [hl] at hs; cases hs
    | ok x => rw [hl] at hs; rw [load_grows hg (by rw [h.context]; nofun) hl]; exact hs

variable [DecidableEq β]

/-- What the loop over the buckets leaves: shards for the occupied ones, all else as it was. -/
structure Split (env : Env β) (level : UInt8) (old : DirV1) (is : List UInt8) (w : World β)
    (a : Actor) (w' : World β) (a' : Actor) : Prop where
  grows : w.Grows w'
  context : a'.context = a.context
  dirHandles : a'.dirHandles = a.dirHandles
  dirty : a'.dirty = a.dirty
  dirs : a'.state.dirs = a.state.dirs
  files : a'.state.files = a.state.files
  shardLevel : a'.state.header.shardLevel = a.state.header.shardLevel
  shard : ∀ i ∈ is, Occupied (shardState env old level i) → ∃ ref child,
    a'.shardRef i = some ref ∧ a'.dirShardHandles.lookup i = some child ∧
      IsShard env a.context level old w' i ref child
  other : ∀ i, ¬ (i ∈ is ∧ Occupied (shardState env old level i)) →
    a'.shardRef i = a.shardRef i ∧ a'.dirShardHandles.lookup i = a.dirShardHandles.lookup i

omit [DecidableEq β] in
/-- A shard that has just been written is opened with the entries of its bucket. -/
theorem openDirShardImpl_written (law : env.Lawful) {level : UInt8} {old : DirV1} {w w1 w2 : World β}
    {a a' : Actor} {index : UInt8} {bytes : β} {keys : Option (ExtTreeMap UInt8 Bytes32)} {h : Hash}
    {now : UInt32 × UInt32} {shards : ExtTreeMap UInt8 DirRef}
    (hfree : a.dirShardHandles.lookup index = none)
    (hlevel : a.state.header.shardLevel = some level)
    (henc : encodeChildDirBytes env a.context (shardState env old level index) w = (w1, bytes, keys))
    (hs : w2.store[h]? = some bytes)
    (ho : openDirShardImpl env w2
      (a.setShards (shards.insert index (storedDirRef a.context h keys now))) index = .ok a') :
    ∃ child, a' = { a.setShards (shards.insert index (storedDirRef a.context h keys now)) with
        dirShardHandles := (index, child) :: a.dirShardHandles } ∧
      IsShard env a.context level old w2 index (storedDirRef a.context h keys now) child := by
  have hload : load env (a.context.withNewRef (storedDirRef a.context h keys now)
      (.dirHandle (.shard index) () h (level + 1))) w2 =
        .ok (shardState env old level index, env.len (env.toBytes (shardState env old level index))) :=
    load_written law henc hs
  unfold openDirShardImpl at ho
  simp only [setShards_dirShardHandles, setShards_context, hfree] at ho
  cases hl : shardLink
      (a.setShards (shards.insert index (storedDirRef a.context h keys now))).state () index with
  | error e => rw [hl] at ho; cases ho
  | ok e =>
    have hlevel' : (a.setShards (shards.insert index
        (storedDirRef a.context h keys now))).state.header.shardLevel = some level := hlevel
    have href : (a.setShards (shards.insert index
        (storedDirRef a.context h keys now))).state.header.shards.bind (·[index]?) =
          some (storedDirRef a.context h keys now) := by
      simp
    have hlt := shardLink_lt hlevel' hl
    rw [shardLink_stored href hlevel' hlt] at ho
    simp only [bind, Except.bind] at ho
    rw [spawn_ok hload] at ho
    refine ⟨_, (Except.ok.inj ho).symm, ⟨hlt, rfl, rfl, rfl, rfl, ⟨h, keys, now, rfl, ?_, ?_⟩, ?_⟩⟩
    · intro ht
      simp only [encodeChildDirBytes, ht, Option.isSome_none, Bool.false_eq_true, if_false] at henc
      exact (Prod.mk.inj (Prod.mk.inj henc).2).2.symm
    · intro ht
      simp only [encodeChildDirBytes, ht, if_true] at henc
      exact ⟨_, (Prod.mk.inj (Prod.mk.inj henc).2).2.symm⟩
    · exact spawn_ok hload

theorem grows_shardBuckets {level : UInt8} {old : DirV1} (is : List UInt8) (w : World β)
    (a : Actor) : w.Grows (shardBuckets env level old is w a).1 := by
  induction is generalizing w a with
  | nil => exact World.Grows.refl w
  | cons index rest ih =>
    unfold shardBuckets
    simp only [setShards_context]
    split
    · exact ih w a
    · have h1 := grows_encodeChildDirBytes env a.context (shardState env old level index) w
      generalize encodeChildDirBytes env a.context (shardState env old level index) w = enc at h1
      obtain ⟨w1, bytes, keys⟩ := enc
      have h2 := h1.trans (World.grows_importBytes env w1 bytes)
      dsimp only
      generalize w1.importBytes env bytes = imp at h2
      obtain ⟨w2, res⟩ := imp
      cases res with
      | error e => exact h2
      | ok h =>
        dsimp only
        split
        · exact h2
        · exact h2.trans (ih w2 _)

/-- The buckets that the loop writes if it starts at `n`, until the store fails or a shard cannot be
opened. -/
def written (env : Env β) (ctx : DirContext Unit) (level : UInt8) (old : DirV1) :
    List UInt8 → Nat → List UInt8
  | [], _ => []
  | index :: rest, n =>
    let part := shardState env old level index
    if part.dirs.isEmpty && part.files.isEmpty then written env ctx level old rest n
    else
      let n := if ctx.encryptionType.isSome then n + 1 else n
      if env.storeFails n then []
      else if level < maxShardLevel then index :: written env ctx level old rest (n + 1)
      else [index]

/-- What the loop over the buckets leaves, however it ends: shards for the buckets `ws`, which cannot
be opened at the last level, and all else as it was. -/
structure Part (env : Env β) (level : UInt8) (old : DirV1) (ws : List UInt8) (w : World β) (a : Actor)
    (w' : World β) (a' : Actor) : Prop where
  grows : w.Grows w'
  context : a'.context = a.context
  dirHandles : a'.dirHandles = a.dirHandles
  dirty : a'.dirty = a.dirty
  dirs : a'.state.dirs = a.state.dirs
  files : a'.state.files = a.state.files
  shardLevel : a'.state.header.shardLevel = a.state.header.shardLevel
  shard : ∀ i ∈ ws, level < maxShardLevel → ∃ ref child,
    a'.shardRef i = some ref ∧ a'.dirShardHandles.lookup i = some child ∧
      IsShard env a.context level old w' i ref child
  stuck : ∀ i ∈ ws, ¬ level < maxShardLevel → (a'.shardRef i).isSome ∧
    a'.dirShardHandles.lookup i = none
  other : ∀ i, i ∉ ws → a'.shardRef i = a.shardRef i ∧
    a'.dirShardHandles.lookup i = a.dirShardHandles.lookup i

omit [DecidableEq β] in
theorem encodeChildDirBytes_tick (env : Env β) (ctx : DirContext Unit) (d : DirV1) (w : World β) :
    (encodeChildDirBytes env ctx d w).1.tick =
      if ctx.encryptionType.isSome then w.tick + 1 else w.tick := by
  unfold encodeChildDirBytes
  cases ctx.encryptionType.isSome with
  | true => rfl
  | false => rfl

omit [DecidableEq β] in
/-- A shard that has been written opens, but at the last level. -/
theorem openDirShardImpl_error {level : UInt8} {w : World β} {a : Actor} {index : UInt8} {e : String}
    {k : Hash} {keys : Option (ExtTreeMap UInt8 Bytes32)} {now : UInt32 × UInt32}
    {ctx : DirContext Unit} (hlevel : a.state.header.shardLevel = some level)
    (href : a.state.header.shards.bind (·[index]?) = some (storedDirRef ctx k keys now))
    (ho : openDirShardImpl env w a index = .error e) : ¬ level < maxShardLevel := by
  intro hlt
  unfold openDirShardImpl at ho
  split at ho
  · cases ho
  · rw [shardLink_stored href hlevel hlt] at ho
    simp only [bind, Except.bind] at ho
    split at ho
    · cases ho
    · cases ho

omit [DecidableEq β] in
/-- Only buckets with entries are written. -/
theorem mem_written {ctx : DirContext Unit} {level : UInt8} {old : DirV1} {is : List UInt8} {n : Nat}
    {i : UInt8} (h : i ∈ written env ctx level old is n) :
    i ∈ is ∧ Occupied (shardState env old level i) := by
  induction is generalizing n with
  | nil => cases h
  | cons index rest ih =>
    have hrest : ∀ m, i ∈ written env ctx level old rest m →
        i ∈ index :: rest ∧ Occupied (shardState env old level i) :=
      fun m hm => ⟨List.mem_cons_of_mem _ (ih hm).1, (ih hm).2⟩
    unfold written at h
    dsimp only at h
    split at h
    · exact hrest _ h
    · rename_i hocc
      generalize (if ctx.encryptionType.isSome then n + 1 else n) = m at h
      split at h
      · cases h
      · split at h
        · rcases List.mem_cons.1 h with rfl | h
          · exact ⟨List.mem_cons_self, hocc⟩
          · exact hrest _ h
        · obtain rfl := List.mem_singleton.1 h
          exact ⟨List.mem_cons_self, hocc⟩

/-- The loop over the buckets, without a hash collision. -/
theorem part_shardBuckets (law : env.Lawful) {level : UInt8} {old : DirV1} (is : List UInt8)
    {w w' : World β} {a a' : Actor} {r : Except String Unit} (hnd : is.Nodup)
    (hfree : ∀ i ∈ is, a.dirShardHandles.lookup i = none)
    (hlevel : a.state.header.shardLevel = some level)
    (hrun : shardBuckets env level old is w a = (w', a', r)) (hc : w'.collided = false) :
    Part env level old (written env a.context level old is w.tick) w a w' a' ∧
      (r = .ok () → ∀ i ∈ is, Occupied (shardState env old level i) →
        i ∈ written env a.context level old is w.tick ∧ level < maxShardLevel) := by
  induction is generalizing w a with
  | nil =>
    obtain ⟨rfl, rfl, -⟩ := by simpa [shardBuckets] using hrun
    exact ⟨⟨World.Grows.refl w, rfl, rfl, rfl, rfl, rfl, rfl, by simp [written], by simp [written],
      fun _ _ => ⟨rfl, rfl⟩⟩, by simp⟩
  | cons index rest ih =>
    obtain ⟨hnot, hnd⟩ := List.nodup_cons.1 hnd
    have hfree' : ∀ i ∈ rest, a.dirShardHandles.lookup i = none :=
      fun i hi => hfree i (List.mem_cons_of_mem _ hi)
    unfold shardBuckets at hrun
    unfold written
    simp only [setShards_context] at hrun
    dsimp only
    by_cases hempty : ((shardState env old level index).dirs.isEmpty &&
        (shardState env old level index).files.isEmpty) = true
    · -- an empty bucket is skipped
      rw [if_pos hempty] at hrun ⊢
      obtain ⟨hp, hall⟩ := ih hnd hfree' hlevel hrun
      refine ⟨hp, fun hr i hi hocc => ?_⟩
      rcases List.mem_cons.1 hi with rfl | hi
      · exact absurd hempty hocc
      · exact hall hr i hi hocc
    · rw [if_neg hempty] at hrun ⊢
      have h1 := grows_encodeChildDirBytes env a.context (shardState env old level index) w
      have ht := encodeChildDirBytes_tick env a.context (shardState env old level index) w
      generalize henc : encodeChildDirBytes env a.context (shardState env old level index) w = enc
        at h1 ht hrun
      obtain ⟨w1, bytes, keys⟩ := enc
      dsimp only at ht hrun
      rw [← ht]
      have h2 := h1.trans (World.grows_importBytes env w1 bytes)
      obtain ⟨ht2, hfails⟩ := World.importBytes_turn env w1 bytes
      generalize himp : w1.importBytes env bytes = imp at h2 ht2 hfails hrun
      obtain ⟨w2, e | h⟩ := imp
      · -- the store does not take the shard
        rw [if_pos (by simpa [Except.isOk, Except.toBool] using hfails.symm)]
        obtain ⟨rfl, rfl, rfl⟩ := by simpa using hrun
        refine ⟨⟨h2, rfl, rfl, rfl, rfl, rfl, rfl, by simp, by simp, fun i _ => ⟨?_, rfl⟩⟩,
          fun hr => by cases hr⟩
        cases hs : a.state.header.shards with
        | none => simp [shardRef, hs]
        | some shards => simp [shardRef, hs]
      · rw [if_neg (by simpa [Except.isOk, Except.toBool] using hfails.symm)]
        dsimp only at hrun ht2
        -- the bucket has its reference now, and no other bucket's has changed
        have href : ∀ i ≠ index, (a.setShards ((a.state.header.shards.getD ∅).insert index
            (storedDirRef a.context h keys (env.utcNow w.tick)))).shardRef i = a.shardRef i := by
          intro i hi
          cases hs : a.state.header.shards with
          | none => simp [shardRef, hs, Ne.symm hi]
          | some shards => simp [shardRef, hs, ExtTreeMap.getElem?_insert, Ne.symm hi]
        split at hrun
        · rename_i e ho
          obtain ⟨rfl, rfl, rfl⟩ := by simpa using hrun
          have hstored : (a.setShards ((a.state.header.shards.getD ∅).insert index
              (storedDirRef a.context h keys (env.utcNow w.tick)))).state.header.shards.bind (·[index]?) =
                some (storedDirRef a.context h keys (env.utcNow w.tick)) := by
            simp
          have hlast := openDirShardImpl_error (by exact hlevel) hstored ho
          rw [if_neg hlast]
          refine ⟨⟨h2, rfl, rfl, rfl, rfl, rfl, rfl, fun _ _ hlt => absurd hlt hlast, fun i hi _ => ?_,
            fun i hi => ⟨href i (by simpa using hi), rfl⟩⟩, fun hr => by cases hr⟩
          obtain rfl := List.mem_singleton.1 hi
          exact ⟨by simp [shardRef], hfree i List.mem_cons_self⟩
        · rename_i a3 ho
          have hg3 : w2.Grows w' := by
            have hg : w2.Grows (shardBuckets env level old rest w2 a3).1 := grows_shardBuckets rest w2 a3
            rwa [hrun] at hg
          have hstore := (World.importBytes_ok himp (hg3.collided hc)).2
          obtain ⟨child, ha3, hchild⟩ := openDirShardImpl_written law
            (hfree index List.mem_cons_self) hlevel henc hstore ho
          have hfree3 : ∀ i ∈ rest, a3.dirShardHandles.lookup i = none := by
            intro i hi
            have hne : (i == index) = false := by
              rw [beq_eq_false_iff_ne]
              rintro rfl
              exact hnot hi
            simp only [ha3, List.lookup_cons, hne, hfree' i hi]
          obtain ⟨hp, hall⟩ := ih hnd hfree3 (by rw [ha3]; exact hlevel) hrun
          subst ha3
          rw [if_pos hchild.level_lt, ← ht2]
          have hkeep := hp.other index fun h => hnot (mem_written h).1
          refine ⟨⟨h2.trans hp.grows, hp.context, hp.dirHandles, hp.dirty, hp.dirs, hp.files,
            hp.shardLevel, fun i hi hlt => ?_, fun i hi hlast => absurd hchild.level_lt hlast,
            fun i hi => ?_⟩, fun hr i hi hocc => ?_⟩
          · rcases List.mem_cons.1 hi with rfl | hi
            · refine ⟨_, child, ?_, ?_, hchild.grows hg3⟩
              · rw [hkeep.1]; simp [shardRef]
              · rw [hkeep.2]; simp
            · exact hp.shard i hi hlt
          · obtain ⟨hne, hi⟩ := List.mem_cons.not.1 hi |> not_or.1
            obtain ⟨hr, hl⟩ := hp.other i hi
            have hne' : (i == index) = false := beq_eq_false_iff_ne.2 hne
            refine ⟨hr.trans (href i hne), hl.trans ?_⟩
            simp only [List.lookup_cons, hne']
          · rcases List.mem_cons.1 hi with rfl | hi
            · exact ⟨List.mem_cons_self, hchild.level_lt⟩
            · exact ⟨List.mem_cons_of_mem _ (hall hr i hi hocc).1, hchild.level_lt⟩

/-- The loop over the buckets, when it succeeds without a hash collision. -/
theorem split_shardBuckets (law : env.Lawful) {level : UInt8} {old : DirV1} (is : List UInt8)
    {w w' : World β} {a a' : Actor} (hnd : is.Nodup)
    (hfree : ∀ i ∈ is, a.dirShardHandles.lookup i = none)
    (hlevel : a.state.header.shardLevel = some level)
    (hrun : shardBuckets env level old is w a = (w', a', .ok ())) (hc : w'.collided = false) :
    Split env level old is w a w' a' := by
  obtain ⟨hp, hall⟩ := part_shardBuckets law is hnd hfree hlevel hrun hc
  refine ⟨hp.grows, hp.context, hp.dirHandles, hp.dirty, hp.dirs, hp.files, hp.shardLevel,
    fun i hi hocc => ?_, fun i hi => hp.other i fun h => hi (mem_written h)⟩
  obtain ⟨hw, hlt⟩ := hall rfl i hi hocc
  exact hp.shard i hw hlt

/-- Above the last level the loop over the buckets fails only if the store does. -/
theorem shardBuckets_ok (hstore : ∀ n, env.storeFails n = false) {level : UInt8} {old : DirV1}
    (hlt : level < maxShardLevel) (is : List UInt8) {w : World β} {a : Actor}
    (hlevel : a.state.header.shardLevel = some level) :
    (shardBuckets env level old is w a).2.2 = .ok () := by
  induction is generalizing w a with
  | nil => rfl
  | cons index rest ih =>
    unfold shardBuckets
    simp only [setShards_context]
    split
    · exact ih hlevel
    · generalize encodeChildDirBytes env a.context (shardState env old level index) w = enc
      obtain ⟨w1, bytes, keys⟩ := enc
      dsimp only
      have himp : ∃ h, (w1.importBytes env bytes).2 = .ok h := by
        unfold World.importBytes
        simp only [hstore, Bool.false_eq_true, if_false]
        split
        · exact ⟨_, rfl⟩
        · exact ⟨_, rfl⟩
      obtain ⟨h, himp⟩ := himp
      generalize w1.importBytes env bytes = imp at himp ⊢
      obtain ⟨w2, res⟩ := imp
      subst himp
      dsimp only
      have hopen : ∀ b : Actor, b.state.header.shardLevel = some level →
          b.state.header.shards.bind (·[index]?) =
            some (storedDirRef a.context h keys (env.utcNow w.tick)) →
          ∃ b', openDirShardImpl env w2 b index = .ok b' ∧
            b'.state.header.shardLevel = some level := by
        intro b hb href
        unfold openDirShardImpl
        split
        · exact ⟨b, rfl, hb⟩
        · rw [shardLink_stored href hb hlt]
          simp only [bind, Except.bind]
          split
          · exact ⟨_, rfl, hb⟩
          · exact ⟨_, rfl, hb⟩
      obtain ⟨b', hb', hl'⟩ := hopen ((a.setShards (a.state.header.shards.getD ∅)).setShards
        ((a.state.header.shards.getD ∅).insert index
          (storedDirRef a.context h keys (env.utcNow w.tick)))) hlevel (by simp)
      rw [hb']
      exact ih hl'

/-! ## What `shard` leaves -/

omit [DecidableEq β] in
theorem mem_buckets (i : UInt8) : i ∈ buckets :=
  List.mem_map.2 ⟨i.toNat, List.mem_range.2 i.toNat_lt, by simp⟩

theorem buckets_nodup : buckets.Nodup := by
  refine List.Nodup.map_on (fun x hx y hy h => ?_) List.nodup_range
  have hn := congrArg UInt8.toNat h
  rw [List.mem_range] at hx hy
  simp only [UInt8.toNat_ofNat'] at hn
  omega

/-- A directory that has not been sharded. -/
structure Unsharded (a : Actor) : Prop where
  shardLevel : a.state.header.shardLevel = none
  shards : a.state.header.shards = none
  dirShardHandles : a.dirShardHandles = []

/-- `a'` is the directory `a` split into shards, which it has open or finds in the store of `w'`. -/
structure IsSplit (env : Env β) (a : Actor) (w' : World β) (a' : Actor) : Prop where
  context : a'.context = a.context
  dirs : a'.state.dirs = ∅
  files : a'.state.files = ∅
  shardLevel : a'.state.header.shardLevel = some a.splitLevel
  shard : ∀ i, Occupied (shardState env a.state a.splitLevel i) → ∃ ref child,
    a'.shardRef i = some ref ∧ openDirShard env w' a' i = .ok child ∧
      IsShard env a.context a.splitLevel a.state w' i ref child
  other : ∀ i, ¬ Occupied (shardState env a.state a.splitLevel i) → a'.shardRef i = none

theorem shard_isSplit (law : env.Lawful) {w w' : World β} {a a' : Actor} (hu : a.Unsharded)
    (hs : shard env w a = (w', a', .ok ())) (hc : w'.collided = false) : IsSplit env a w' a' := by
  unfold shard at hs
  simp only [hu.shardLevel] at hs
  generalize hrun : shardBuckets env a.splitLevel a.state buckets w
    { a with state.header.shardLevel := some a.splitLevel } = res at hs
  obtain ⟨w1, a1, r⟩ := res
  cases r with
  | error e => cases hs
  | ok u =>
    obtain ⟨rfl, rfl, -⟩ := by simpa using hs
    have hsplit := split_shardBuckets law buckets buckets_nodup
      (by simp [hu.dirShardHandles]) rfl hrun hc
    refine ⟨hsplit.context, rfl, rfl, hsplit.shardLevel, fun i hocc => ?_, fun i hocc => ?_⟩
    · obtain ⟨ref, child, href, hlook, hchild⟩ := hsplit.shard i (mem_buckets i) hocc
      refine ⟨ref, child, href, ?_, hchild⟩
      unfold openDirShard
      simp only [hlook]
    · have hother := (hsplit.other i fun h => hocc h.2).1
      have hnone : (Actor.mk a.context { a.state with
          header.shardLevel := some a.splitLevel } a.dirty a.dirHandles a.dirShardHandles
          a.lastSerializedLen a.shardSizeCheckOps).shardRef i = none := by
        simp [shardRef, hu.shards]
      exact hother.trans hnone

omit [DecidableEq β] in
/-- A split directory is found again in a store that has grown by an actor without handles. -/
theorem IsSplit.reopened {a a' b : Actor} {w w' : World β} (h : IsSplit env a w a')
    (hg : w.Grows w') (hcontext : b.context = a'.context) (hstate : b.state = a'.state)
    (hclosed : b.dirShardHandles = []) : IsSplit env a w' b := by
  have href : ∀ i, b.shardRef i = a'.shardRef i := fun i => by rw [shardRef, shardRef, hstate]
  refine ⟨hcontext.trans h.context, by rw [hstate]; exact h.dirs, by rw [hstate]; exact h.files,
    by rw [hstate]; exact h.shardLevel, fun i hocc => ?_, fun i hocc => (href i).trans (h.other i hocc)⟩
  obtain ⟨ref, child, hri, -, hchild⟩ := h.shard i hocc
  refine ⟨ref, child, (href i).trans hri, ?_, hchild.grows hg⟩
  have hlink : shardLink b.state () i =
      .ok (ref, .dirHandle (.shard i) () ref.hash (a.splitLevel + 1)) := by
    obtain ⟨k, keys, now, rfl, -, -⟩ := hchild.stored
    exact shardLink_stored ((href i).trans hri) (by rw [hstate]; exact h.shardLevel) hchild.level_lt
  unfold openDirShard
  simp only [hclosed, List.lookup_nil, hlink, bind, Except.bind, hcontext, h.context, ← hchild.context]
  exact (hchild.grows hg).spawned

omit [DecidableEq β] in
theorem shardState_dirs_getElem? {d : DirV1} {level i : UInt8} {n : String} :
    (shardState env d level i).dirs[n]? =
      if shardIndex env n level = i then d.dirs[n]? else none := by
  unfold shardState
  rw [ExtTreeMap.getElem?_filter']
  by_cases h : shardIndex env n level = i
  · cases d.dirs[n]? <;> simp [h]
  · simp [h]

omit [DecidableEq β] in
theorem shardState_files_getElem? {d : DirV1} {level i : UInt8} {n : String} :
    (shardState env d level i).files[n]? =
      if shardIndex env n level = i then d.files[n]? else none := by
  unfold shardState
  rw [ExtTreeMap.getElem?_filter']
  by_cases h : shardIndex env n level = i
  · cases d.files[n]? <;> simp [h]
  · simp [h]

end

end Actor

end Fs
