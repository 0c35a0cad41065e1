import S5.Fs.Proof.Shard
import S5.Fs.Symbolic

/-!
# Lookups through shards

`shard` spreads the entries over buckets by the hash of their whole name, lookups pick the bucket by
the hash of the first segment, and a shard opens the child directories anew from their references.

* `reaches_split`: what a lookup reaches after `shard`.
* `shard_transparent_iff`: every path reaches after `shard` what it reached before, exactly when the
  two hashes pick one bucket for every file key that lookups see and the child directories are found
  again through their references (`ShardKeeps`).
-/

open Std

namespace Fs

/-- The encryption key a reference brings along. -/
def DirRef.ownKey (d : DirRef) : Option Bytes32 := d.keys.bind (·[keySlot]?)

/-- The blob a reference names. -/
def World.namedBlob {β : Type} (w : World β) (d : DirRef) : Option β :=
  match d.refTypeD with
  | .blake3Hash => w.store[d.hash]?
  | .registryKey => w.registry[d.hash]?.bind fun entry => w.store[entry.hash]?

namespace Actor

variable {β : Type} {env : Env β} {w w' : World β} {regs : RegistryDirHandles} {a a' : Actor}

/-! ## Children of a shard -/

/-- A context as its shards pass it on, but for the shards' own keys. -/
def shardContext (ctx : DirContext Unit) : DirContext Unit :=
  { ctx with encryptionType := ctx.encryptionType.map fun _ => encryptionTypeXChaCha20Poly1305 }

/-- The child directory `name` as a shard of `a` opens it: by its registry actor if it has one, else
from its blob. In an encrypted directory a child without a key of its own is not found, since a
shard has another key. -/
def reopenDir (env : Env β) (w : World β) (regs : RegistryDirHandles) (a : Actor) (name : String)
    (dirRef : DirRef) : Except String Actor :=
  match dirRef.refTypeD, regs.lookup dirRef.hash with
  | .registryKey, some child => .ok child
  | _, _ =>
    if a.context.encryptionType.isSome ∧ dirRef.ownKey = none then .error "no key"
    else
      spawn env ((shardContext a.context).withNewRef dirRef (dirLink a.context () name dirRef)) w

section
variable {level i : UInt8} {old : DirV1} {ref d : DirRef} {child : Actor} {n : String}

theorem dirLink_child (h : IsShard env a.context level old w i ref child) :
    dirLink child.context () n d = dirLink a.context () n d := by
  have hk : child.context.signingKey = a.context.signingKey := by rw [h.context]; rfl
  simp only [dirLink, hk]

theorem encryptionType_child (h : IsShard env a.context level old w i ref child) :
    child.context.encryptionType = (shardContext a.context).encryptionType := by
  obtain ⟨h', keys, now, rfl, -, -⟩ := h.stored
  rw [h.context]
  cases ht : a.context.encryptionType with
  | none => simp [DirContext.withNewRef, storedDirRef, shardContext, ht]
  | some t => simp [DirContext.withNewRef, storedDirRef, shardContext, ht]

/-- The shard's own key does not matter to a child that has one. -/
theorem withNewRef_child (h : IsShard env a.context level old w i ref child)
    (hown : ¬ (a.context.encryptionType.isSome ∧ d.ownKey = none)) :
    child.context.withNewRef d (dirLink child.context () n d) =
      (shardContext a.context).withNewRef d (dirLink a.context () n d) := by
  have henc := encryptionType_child h
  have hsign : child.context.signingKey = a.context.signingKey := by rw [h.context]; rfl
  rw [dirLink_child h]
  obtain ⟨h', keys, now, rfl, hplain, hkeyed⟩ := h.stored
  have hkeys : d.keys.elim child.context.keys (child.context.keys ∪ ·) =
      d.keys.elim a.context.keys (a.context.keys ∪ ·) := by
    cases ht : a.context.encryptionType with
    | none =>
      have hk : child.context.keys = a.context.keys := by
        rw [h.context]
        simp [DirContext.withNewRef, storedDirRef, hplain ht]
      rw [hk]
    | some t =>
      obtain ⟨key, rfl⟩ := hkeyed (by simp [ht])
      have hk : child.context.keys =
          a.context.keys ∪ (∅ : ExtTreeMap UInt8 Bytes32).insert keySlot key := by
        rw [h.context]
        simp [DirContext.withNewRef, storedDirRef]
      simp only [ht, Option.isSome_some, true_and, DirRef.ownKey] at hown
      cases hd : d.keys with
      | none => simp [hd] at hown
      | some dirKeys =>
        rw [hd, Option.bind_some] at hown
        obtain ⟨own, hown⟩ := Option.ne_none_iff_exists'.1 hown
        rw [hk, Option.elim_some, Option.elim_some]
        apply ExtTreeMap.ext_getElem?
        intro k
        simp only [ExtTreeMap.getElem?_union]
        by_cases hslot : k = keySlot
        · subst hslot
          simp [hown]
        · simp [Ne.symm hslot]
  unfold DirContext.withNewRef
  rw [henc, hsign, hkeys]
  rfl

/-- A child that inherits the key of the directory is sealed from its shards. -/
theorem reachesIn_sealed (h : IsShard env a.context level old w i ref child)
    (hsome : a.context.encryptionType.isSome) (hnone : d.ownKey = none)
    (hfresh : ∀ key b, ref.ownKey = some key → w.namedBlob d = some b → env.decrypt key b = none)
    (rest : String) (r : Option FileRef) :
    ReachesIn env w regs (spawn env (child.context.withNewRef d (dirLink child.context () n d)) w)
      rest r ↔ r = none := by
  have hsealed : ∀ b, w.namedBlob d = some b → ∃ e,
      decryptIfNeeded env (child.context.withNewRef d (dirLink child.context () n d)) b = .error e := by
    intro b hb
    have henc := encryptionType_child h
    obtain ⟨h', keys, now, rfl, -, hkeyed⟩ := h.stored
    obtain ⟨key, rfl⟩ := hkeyed hsome
    obtain ⟨t, ht⟩ := Option.isSome_iff_exists.1 hsome
    have hchild : child.context.keys[keySlot]? = some key := by
      rw [h.context]
      exact withNewRef_key _ _ rfl (by simp)
    have hkey : (child.context.withNewRef d (dirLink child.context () n d)).keys[keySlot]? =
        some key := by
      unfold DirContext.withNewRef
      cases hd : d.keys with
      | none => exact hchild
      | some dirKeys =>
        simp only [DirRef.ownKey, hd, Option.bind_some] at hnone
        simp only [Option.elim_some, ExtTreeMap.getElem?_union, hnone, Option.none_or, hchild]
    have htype : ∃ t', (child.context.withNewRef d (dirLink child.context () n d)).encryptionType =
        some t' := by
      unfold DirContext.withNewRef
      cases d.encryptionType with
      | none => exact ⟨_, by simp [henc, shardContext, ht]; rfl⟩
      | some t' => exact ⟨t', rfl⟩
    obtain ⟨t', htype⟩ := htype
    have hdec := hfresh key b (by simp [DirRef.ownKey, storedDirRef]) hb
    unfold decryptIfNeeded
    simp only [htype, hkey, hdec]
    split
    · exact ⟨_, rfl⟩
    · exact ⟨_, rfl⟩
  have hread : ∀ (k : Hash) (f : DirV1 × Nat → Except String Actor),
      (∀ b, w.store[k]? = some b → w.namedBlob d = some b) →
      ∃ e, ((do
        let b ← w.readAsBytes k
        let plain ← decryptIfNeeded env
          (child.context.withNewRef d (dirLink child.context () n d)) b
        decodeDir env plain) >>= f) = .error e := by
    intro k f hk
    unfold World.readAsBytes
    cases hb : w.store[k]? with
    | none => exact ⟨_, rfl⟩
    | some b =>
      obtain ⟨e, he⟩ := hsealed b (hk b hb)
      refine ⟨e, ?_⟩
      simp only [bind, Except.bind, he]
  unfold spawn load
  cases ht : d.refTypeD with
  | blake3Hash =>
    have hlink : (child.context.withNewRef d (dirLink child.context () n d)).link =
        .dirHandle (.path n) () d.hash 0 := by simp only [DirContext.withNewRef, dirLink, ht]
    obtain ⟨e, he⟩ := hread d.hash _ fun b hb => by simp only [World.namedBlob, ht, hb]
    simp only [hlink]
    rw [he]
    rfl
  | registryKey =>
    have hlink : (child.context.withNewRef d (dirLink child.context () n d)).link =
        .registryKey d.hash child.context.signingKey := by
      simp only [DirContext.withNewRef, dirLink, ht]
    simp only [hlink]
    cases hr : w.registry[d.hash]? with
    | none =>
      -- a registry directory that was never published opens empty
      dsimp only [bind, Except.bind, pure, Except.pure, ReachesIn]
      rw [reaches_iff]
      simp [route, routeDirect, DirV1.new, DirHeader.new]
    | some entry =>
      obtain ⟨e, he⟩ := hread entry.hash _ fun b hb => by
        simp only [World.namedBlob, ht, hr, Option.bind_some, hb]
      dsimp only
      rw [he]
      rfl

/-- A child directory opened by a shard. -/
theorem reachesIn_openDir_child (h : IsShard env a.context level old w i ref child)
    (hi : shardIndex env n level = i) (hd : old.dirs[n]? = some d)
    (hfresh : ∀ key b, ref.ownKey = some key → w.namedBlob d = some b → env.decrypt key b = none)
    (rest : String) (r : Option FileRef) :
    ReachesIn env w regs (openDir env w regs child n) rest r ↔
      ReachesIn env w regs (reopenDir env w regs a n d) rest r := by
  have hd' : child.state.dirs[n]? = some d := by
    rw [h.state, shardState_dirs_getElem?, if_pos hi, hd]
  have hspawn : ReachesIn env w regs
        (spawn env (child.context.withNewRef d (dirLink child.context () n d)) w) rest r ↔
      ReachesIn env w regs (if a.context.encryptionType.isSome ∧ d.ownKey = none then
        .error "no key"
      else spawn env ((shardContext a.context).withNewRef d (dirLink a.context () n d)) w)
        rest r := by
    by_cases hown : a.context.encryptionType.isSome ∧ d.ownKey = none
    · rw [if_pos hown, reachesIn_sealed h hown.1 hown.2 hfresh]
      rfl
    · rw [if_neg hown, withNewRef_child h hown]
  unfold openDir reopenDir
  simp only [h.dirHandles, List.lookup_nil, hd']
  cases ht : d.refTypeD with
  | blake3Hash => exact hspawn
  | registryKey =>
    cases hl : regs.lookup d.hash with
    | none => exact hspawn
    | some c => exact Iff.rfl

end

/-! ## Lookups after `shard` -/

theorem not_occupied {d : DirV1} {level i : UInt8} (h : ¬ Occupied (shardState env d level i))
    {n : String} (hi : shardIndex env n level = i) : d.dirs[n]? = none ∧ d.files[n]? = none := by
  rw [Occupied, not_not, Bool.and_eq_true, ExtTreeMap.isEmpty_iff, ExtTreeMap.isEmpty_iff] at h
  have hdirs : (shardState env d level i).dirs[n]? = d.dirs[n]? := by
    rw [shardState_dirs_getElem?, if_pos hi]
  have hfiles : (shardState env d level i).files[n]? = d.files[n]? := by
    rw [shardState_files_getElem?, if_pos hi]
  rw [← hdirs, ← hfiles, h.1, h.2]
  exact ⟨ExtTreeMap.getElem?_empty, ExtTreeMap.getElem?_empty⟩

theorem routeDirect_eq (state : DirV1) (path : String) :
    routeDirect state path = match state.dirs[(splitPath path).1]? with
      | some _ => .dir (splitPath path).1 (splitPath path).2
      | none => .here := by
  unfold routeDirect
  cases hd : state.dirs[(splitPath path).1]? with
  | none => simp [ExtTreeMap.mem_iff_isSome_getElem?, hd]
  | some d => simp [ExtTreeMap.mem_iff_isSome_getElem?, hd]

/-- A lookup in a split directory goes to the shard of its first segment. -/
theorem route_split (hs : IsSplit env a w' a') {path : String} {i : UInt8} {ref : DirRef}
    (hlevel : a.splitLevel ≤ maxShardLevel)
    (hi : shardIndex env (splitPath path).1 a.splitLevel = i) (href : a'.shardRef i = some ref) :
    route env a'.state path = .ok (.shard i) := by
  obtain ⟨shards, hsh, hri⟩ := Option.bind_eq_some_iff.1 href
  have hmem : i ∈ shards := by
    rw [ExtTreeMap.mem_iff_isSome_getElem?]
    simp [hri]
  simp only [route, hs.shardLevel, shardBucketFor, hlevel, if_true, hi, hsh, bind, Except.bind, hmem]
  rfl

/-- A lookup whose shard does not exist finds nothing: the directory itself is empty. -/
theorem reaches_split_absent (hs : IsSplit env a w' a') {path : String} {r : Option FileRef}
    (href : a'.shardRef (shardIndex env (splitPath path).1 a.splitLevel) = none) :
    Reaches env w' regs a' path r ↔ r = none := by
  have hdirect : routeDirect a'.state path = .here := by
    simp [routeDirect_eq, hs.dirs]
  have hfiles : a'.state.files[path]? = none := by simp [hs.files]
  have hroute : route env a'.state path = .ok .here ∨ ∃ e, route env a'.state path = .error e := by
    unfold route shardBucketFor
    simp only [hs.shardLevel]
    split
    · refine .inl ?_
      simp only [bind, Except.bind, hdirect]
      cases hsh : a'.state.header.shards with
      | none => rfl
      | some shards =>
        have hnot : shardIndex env (splitPath path).1 a.splitLevel ∉ shards := by
          rw [ExtTreeMap.mem_iff_isSome_getElem?]
          simpa [shardRef, hsh] using href
        simp only [hnot, if_false]
        rfl
    · exact .inr ⟨_, rfl⟩
  rw [reaches_iff]
  rcases hroute with hroute | ⟨e, hroute⟩
  · simp only [hroute, hfiles]
  · simp only [hroute]

/-- What a lookup reaches in the shard of its first segment. -/
theorem reaches_isShard {level i : UInt8} {ref : DirRef} {child : Actor}
    (h : IsShard env a.context level a.state w' i ref child) {path : String}
    (hi : shardIndex env (splitPath path).1 level = i)
    (hfresh : ∀ (n : String) (d : DirRef), a.state.dirs[n]? = some d → ∀ key b, ref.ownKey = some key →
      w'.namedBlob d = some b → env.decrypt key b = none) {r : Option FileRef} :
    Reaches env w' regs child path r ↔
      match a.state.dirs[(splitPath path).1]? with
      | some d =>
        ReachesIn env w' regs (reopenDir env w' regs a (splitPath path).1 d) (splitPath path).2 r
      | none =>
        r = if shardIndex env path level = shardIndex env (splitPath path).1 level
          then a.state.files[path]? else none := by
  have hroute : route env child.state path = .ok (routeDirect child.state path) := by
    rw [h.state]
    rfl
  have hdir : child.state.dirs[(splitPath path).1]? = a.state.dirs[(splitPath path).1]? := by
    rw [h.state, shardState_dirs_getElem?, if_pos hi]
  rw [reaches_iff, hroute, routeDirect_eq, hdir]
  cases hd : a.state.dirs[(splitPath path).1]? with
  | none =>
    dsimp only
    rw [h.state, shardState_files_getElem?, hi]
  | some d => exact reachesIn_openDir_child h hi hd (hfresh _ d hd) _ r

/-- No blob that a reference of `a` names opens under the key of a shard. -/
def KeysFresh (env : Env β) (w : World β) (a a' : Actor) : Prop :=
  ∀ (n : String) (d : DirRef) (b : β), a.state.dirs[n]? = some d → w.namedBlob d = some b →
    ∀ i ref key, a'.shardRef i = some ref → ref.ownKey = some key → env.decrypt key b = none

/-- The shards of a directory that is not encrypted have no keys. -/
theorem IsSplit.keysFresh (hs : IsSplit env a w' a') (hplain : a.context.encryptionType = none) :
    KeysFresh env w' a a' := by
  intro n d b hd hb i ref key href hkey
  by_cases hocc : Occupied (shardState env a.state a.splitLevel i)
  · obtain ⟨ref', child, href', -, hchild⟩ := hs.shard i hocc
    obtain rfl := Option.some.inj (href.symm.trans href')
    obtain ⟨k, keys, now, rfl, hnone, -⟩ := hchild.stored
    simp [DirRef.ownKey, storedDirRef, hnone hplain] at hkey
  · rw [hs.other i hocc] at href
    cases href

/-- What a lookup reaches after `shard`. -/
theorem reaches_split (hs : IsSplit env a w' a') (hkeys : KeysFresh env w' a a') {path : String}
    {r : Option FileRef} :
    Reaches env w' regs a' path r ↔
      match a.state.dirs[(splitPath path).1]? with
      | some d =>
        ReachesIn env w' regs (reopenDir env w' regs a (splitPath path).1 d) (splitPath path).2 r
      | none =>
        r = if shardIndex env path a.splitLevel = shardIndex env (splitPath path).1 a.splitLevel
          then a.state.files[path]? else none := by
  by_cases hocc : Occupied (shardState env a.state a.splitLevel
      (shardIndex env (splitPath path).1 a.splitLevel))
  · obtain ⟨ref, child, href, hopen, hchild⟩ := hs.shard _ hocc
    rw [reaches_iff, route_split hs (UInt8.le_of_lt hchild.level_lt) rfl href]
    dsimp only
    rw [hopen]
    exact reaches_isShard hchild rfl fun n d hd key b hkey hb => hkeys n d b hd hb _ ref key href hkey
  · have hnone := not_occupied hocc rfl
    rw [reaches_split_absent hs (hs.other _ hocc), hnone.1]
    dsimp only
    split
    · rename_i heq
      rw [(not_occupied hocc heq).2]
    · rfl

/-! ## Transparency -/

/-- The blobs that `w'` has and `w` lacks answer no lookup below `a`: no reference was waiting for
them. -/
def Unread (env : Env β) (w w' : World β) (regs : RegistryDirHandles) (a : Actor) : Prop :=
  ∀ n d, '/' ∉ n.toList → a.state.dirs[n]? = some d → ∀ rest r,
    ReachesIn env w regs (reopenDir env w regs a n d) rest r ↔
      ReachesIn env w' regs (reopenDir env w' regs a n d) rest r

/-- The condition under which `shard` is transparent. -/
structure ShardKeeps (env : Env β) (w : World β) (regs : RegistryDirHandles) (a : Actor) :
    Prop where
  /-- Every file key that is not hidden behind a directory of its first segment falls into the
  bucket of that segment. -/
  files : ∀ k f, a.state.files[k]? = some f → a.state.dirs[(splitPath k).1]? = none →
    shardIndex env k a.splitLevel = shardIndex env (splitPath k).1 a.splitLevel
  /-- Every child directory resolves paths as its reference, opened anew under a shard, does. -/
  dirs : ∀ n d, '/' ∉ n.toList → a.state.dirs[n]? = some d → ∀ rest r,
    ReachesIn env w regs (openDir env w regs a n) rest r ↔
      ReachesIn env w regs (reopenDir env w regs a n d) rest r

/-- What a lookup reaches in an unsharded directory. -/
theorem reaches_unsharded (hu : a.Unsharded) {path : String} {r : Option FileRef} :
    Reaches env w regs a path r ↔
      match a.state.dirs[(splitPath path).1]? with
      | some _ => ReachesIn env w regs (openDir env w regs a (splitPath path).1) (splitPath path).2 r
      | none => r = a.state.files[path]? := by
  have hroute : route env a.state path = .ok (routeDirect a.state path) := by
    simp only [route, hu.shardLevel]
  rw [reaches_iff, hroute, routeDirect_eq]
  cases a.state.dirs[(splitPath path).1]? with
  | none => rfl
  | some d => rfl

theorem split_transparent_iff (hu : a.Unsharded) (hsplit : IsSplit env a w' a')
    (hunread : Unread env w w' regs a) (hkeys : KeysFresh env w' a a') :
    (∀ path r, Reaches env w regs a path r ↔ Reaches env w' regs a' path r) ↔
      ShardKeeps env w regs a := by
  constructor
  · intro h
    refine ⟨fun k f hf hd => ?_, fun n d hn hd rest r => ?_⟩
    · have hk := h k (some f)
      rw [reaches_unsharded hu, reaches_split hsplit hkeys, hd] at hk
      have hk' := hk.1 hf.symm
      by_contra hne
      rw [if_neg hne] at hk'
      cases hk'
    · have hp := h (n ++ "/" ++ rest) r
      rw [reaches_unsharded hu, reaches_split hsplit hkeys, splitPath_append hn, hd] at hp
      exact hp.trans (hunread n d hn hd rest r).symm
  · intro h path r
    rw [reaches_unsharded hu, reaches_split hsplit hkeys]
    cases hd : a.state.dirs[(splitPath path).1]? with
    | none =>
      dsimp only
      cases hf : a.state.files[path]? with
      | none => rw [ite_self]
      | some f => rw [if_pos (h.files path f hf hd)]
    | some d =>
      have hn := splitPath_fst_slash_free path
      exact (h.dirs _ d hn hd _ r).trans (hunread _ d hn hd _ r)

/-- **Sharding is transparent** exactly under `ShardKeeps`. -/
theorem shard_transparent_iff [DecidableEq β] (law : env.Lawful) (hu : a.Unsharded)
    (hs : shard env w a = (w', a', .ok ())) (hc : w'.collided = false)
    (hunread : Unread env w w' regs a) (hkeys : KeysFresh env w' a a') :
    (∀ path r, Reaches env w regs a path r ↔ Reaches env w' regs a' path r) ↔
      ShardKeeps env w regs a :=
  split_transparent_iff hu (shard_isSplit law hu hs hc) hunread hkeys

/-! A root with one file. -/

/-- A local root that holds one file under the key `k`. -/
def oneFile (k : String) : Actor where
  context := .localRoot
  state := { DirV1.new with files := (∅ : ExtTreeMap String FileRef).insert k (FileRef.new 1 1) }
  dirty := true
  dirHandles := []
  dirShardHandles := []
  lastSerializedLen := 0
  shardSizeCheckOps := 0

/-- A run that ends well, spelled out. -/
theorem eq_of_isOk {x : World β × Actor × Except String Unit} (h : x.2.2.isOk = true) :
    x = (x.1, x.2.1, .ok ()) := by
  obtain ⟨w1, a1, r⟩ := x
  cases r with
  | error e => cases h
  | ok u => rfl

theorem oneFile_unsharded (k : String) : (oneFile k).Unsharded := ⟨rfl, rfl, rfl⟩

/-! A root with files, one of them under a key of two segments, and a subdirectory. -/

/-- The reference of a subdirectory that is stored as `child`. -/
def storedRef (child : DirV1) : DirRef :=
  storedDirRef (DirContext.localRoot : DirContext Unit)
    ((symbolic xxh3Short).blake3 (.plain child)) none (1, 0)

def mixedRoot (child : DirV1) : Actor where
  context := .localRoot
  state := { DirV1.new with
    dirs := (∅ : ExtTreeMap String DirRef).insert "d" (storedRef child)
    files := (((∅ : ExtTreeMap String FileRef).insert "a" (.new 1 1)).insert "b" (.new 2 2)).insert
      "x/v" (.new 3 3) }
  dirty := true
  dirHandles := []
  dirShardHandles := []
  lastSerializedLen := 0
  shardSizeCheckOps := 0

/-- The world in which the subdirectory is stored. -/
def mixedWorld (child : DirV1) : World Sym :=
  { emptyWorld with
    store := (∅ : ExtTreeMap Hash Sym).insert (storedRef child).hash (.plain child) }

theorem mixedRoot_unsharded (child : DirV1) : (mixedRoot child).Unsharded := ⟨rfl, rfl, rfl⟩

theorem mixedRoot_dirs {child : DirV1} {n : String} {d : DirRef}
    (h : (mixedRoot child).state.dirs[n]? = some d) : n = "d" ∧ d = storedRef child := by
  have hn : "d" = n := by
    by_contra hne
    simp [mixedRoot, DirV1.new, hne] at h
  subst hn
  refine ⟨rfl, ?_⟩
  simpa [mixedRoot] using h.symm

/-- The subdirectory, once it has been opened. -/
def openedChild (child : DirV1) : Actor :=
  ⟨DirContext.localRoot.withNewRef (storedRef child)
    (dirLink DirContext.localRoot () "d" (storedRef child)), child, false, [], [],
    (symbolic xxh3Short).len (.plain child), 0⟩

/-- The subdirectory is opened as it is stored. -/
theorem spawn_storedRef {child : DirV1} {w : World Sym}
    (h : w.store[(storedRef child).hash]? = some (.plain child)) :
    spawn (symbolic xxh3Short) (DirContext.localRoot.withNewRef (storedRef child)
      (dirLink DirContext.localRoot () "d" (storedRef child))) w = .ok (openedChild child) := by
  refine spawn_ok ?_
  have hlink : (DirContext.localRoot.withNewRef (storedRef child)
      (dirLink (DirContext.localRoot : DirContext Unit) () "d" (storedRef child))).link =
        .dirHandle (.path "d") () (storedRef child).hash 0 := rfl
  have hread : w.readAsBytes (storedRef child).hash = .ok (.plain child) := by
    simp only [World.readAsBytes, h]
  simp only [load, hlink, hread, bind, Except.bind]
  rfl

theorem openDir_mixedRoot {child : DirV1} {w : World Sym}
    (h : w.store[(storedRef child).hash]? = some (.plain child)) :
    openDir (symbolic xxh3Short) w [] (mixedRoot child) "d" = .ok (openedChild child) := by
  have hd : (mixedRoot child).state.dirs["d"]? = some (storedRef child) := by simp [mixedRoot]
  have hh : (mixedRoot child).dirHandles.lookup "d" = none := rfl
  have ht : (storedRef child).refTypeD = .blake3Hash := rfl
  unfold openDir
  simp only [hh, hd, ht]
  exact spawn_storedRef h

theorem reopenDir_mixedRoot {child : DirV1} {w : World Sym}
    (h : w.store[(storedRef child).hash]? = some (.plain child)) :
    reopenDir (symbolic xxh3Short) w [] (mixedRoot child) "d" (storedRef child) =
      .ok (openedChild child) := by
  have ht : (storedRef child).refTypeD = .blake3Hash := rfl
  have hplain : ¬ ((mixedRoot child).context.encryptionType.isSome ∧
      (storedRef child).ownKey = none) := fun h => by cases h.1
  unfold reopenDir
  simp only [ht, hplain, if_false]
  exact spawn_storedRef h

/-- What a lookup finds in the opened subdirectory does not depend on the world if that holds files
only. -/
theorem reachesIn_openedChild {child : DirV1} (hu : (openedChild child).Unsharded)
    (hd : child.dirs = ∅) (w : World Sym) (rest : String) (r : Option FileRef) :
    ReachesIn (symbolic xxh3Short) w [] (.ok (openedChild child)) rest r ↔ r = child.files[rest]? := by
  have hnone : (openedChild child).state.dirs[(splitPath rest).1]? = none := by
    show child.dirs[(splitPath rest).1]? = none
    rw [hd, ExtTreeMap.getElem?_empty]
  show Reaches (symbolic xxh3Short) w [] (openedChild child) rest r ↔ _
  rw [reaches_unsharded hu, hnone]
  rfl

theorem reaches_mixedRoot {child : DirV1} {w : World Sym} (hu : (openedChild child).Unsharded)
    (hd : child.dirs = ∅) (h : w.store[(storedRef child).hash]? = some (.plain child)) (path : String)
    (r : Option FileRef) : Reaches (symbolic xxh3Short) w [] (mixedRoot child) path r ↔
      r = if (splitPath path).1 = "d" then child.files[(splitPath path).2]?
        else (mixedRoot child).state.files[path]? := by
  rw [reaches_unsharded (mixedRoot_unsharded child)]
  by_cases hp : (splitPath path).1 = "d"
  · have hdir : (mixedRoot child).state.dirs["d"]? = some (storedRef child) := by simp [mixedRoot]
    rw [if_pos hp, hp, hdir]
    dsimp only
    rw [openDir_mixedRoot h, reachesIn_openedChild hu hd]
  · have hdir : (mixedRoot child).state.dirs[(splitPath path).1]? = none := by
      cases hd : (mixedRoot child).state.dirs[(splitPath path).1]? with
      | none => rfl
      | some d => exact absurd (mixedRoot_dirs hd).1 hp
    rw [if_neg hp, hdir]

/-- A subdirectory of one file. -/
def childOfFile : DirV1 :=
  { DirV1.new with files := (∅ : ExtTreeMap String FileRef).insert "f" (.new 4 4) }

theorem shard_transparent_mixedRoot :
    (mixedRoot childOfFile).Unsharded ∧ ∀ path r,
      Reaches (symbolic xxh3Short) (mixedWorld childOfFile) [] (mixedRoot childOfFile) path r ↔
        Reaches (symbolic xxh3Short)
          (shard (symbolic xxh3Short) (mixedWorld childOfFile) (mixedRoot childOfFile)).1 []
          (shard (symbolic xxh3Short) (mixedWorld childOfFile) (mixedRoot childOfFile)).2.1 path r := by
  have hrun := eq_of_isOk
    (x := shard (symbolic xxh3Short) (mixedWorld childOfFile) (mixedRoot childOfFile))
    (by decide +kernel)
  have hcollided : (shard (symbolic xxh3Short) (mixedWorld childOfFile)
      (mixedRoot childOfFile)).1.collided = false := by decide +kernel
  have hsplit := shard_isSplit (symbolic_lawful xxh3Short) (mixedRoot_unsharded childOfFile) hrun
    hcollided
  have hbefore : (mixedWorld childOfFile).store[(storedRef childOfFile).hash]? =
      some (.plain childOfFile) := by decide +kernel
  have hafter : (shard (symbolic xxh3Short) (mixedWorld childOfFile)
      (mixedRoot childOfFile)).1.store[(storedRef childOfFile).hash]? = some (.plain childOfFile) := by
    decide +kernel
  have hchild : (openedChild childOfFile).Unsharded := ⟨rfl, rfl, rfl⟩
  refine ⟨mixedRoot_unsharded _, (shard_transparent_iff (symbolic_lawful xxh3Short)
    (mixedRoot_unsharded _) hrun hcollided (fun n d _ hd rest r => ?_)
    (hsplit.keysFresh rfl)).2 ⟨fun k f hf _ => ?_, fun n d _ hd rest r => ?_⟩⟩
  · obtain ⟨rfl, rfl⟩ := mixedRoot_dirs hd
    rw [reopenDir_mixedRoot hbefore, reopenDir_mixedRoot hafter, reachesIn_openedChild hchild rfl,
      reachesIn_openedChild hchild rfl]
  · have hk : k = "x/v" ∨ k = "b" ∨ k = "a" := by
      by_contra hne
      obtain ⟨h1, hne⟩ := not_or.1 hne
      obtain ⟨h2, h3⟩ := not_or.1 hne
      simp [mixedRoot, DirV1.new, Ne.symm h1, Ne.symm h2, Ne.symm h3] at hf
    rcases hk with rfl | rfl | rfl <;> decide
  · obtain ⟨rfl, rfl⟩ := mixedRoot_dirs hd
    rw [reopenDir_mixedRoot hbefore, openDir_mixedRoot hbefore]

/-- The key `a/b` falls into another bucket than `a`, the segment its lookups are routed by. -/
theorem slash_key_lost :
    (oneFile "a/b").Unsharded ∧
      (shard (symbolic xxh3Short) emptyWorld (oneFile "a/b")).2.2.isOk = true ∧
      ¬ ∀ path r, Reaches (symbolic xxh3Short) emptyWorld [] (oneFile "a/b") path r ↔
        Reaches (symbolic xxh3Short) (shard (symbolic xxh3Short) emptyWorld (oneFile "a/b")).1 []
          (shard (symbolic xxh3Short) emptyWorld (oneFile "a/b")).2.1 path r := by
  refine ⟨oneFile_unsharded "a/b", by decide +kernel, fun h => ?_⟩
  have hbefore : Reaches (symbolic xxh3Short) emptyWorld [] (oneFile "a/b") "a/b"
      (some (FileRef.new 1 1)) := ⟨1, by decide +kernel⟩
  have hafter : Reaches (symbolic xxh3Short)
      (shard (symbolic xxh3Short) emptyWorld (oneFile "a/b")).1 []
      (shard (symbolic xxh3Short) emptyWorld (oneFile "a/b")).2.1 "a/b" none :=
    ⟨2, by decide +kernel⟩
  cases ((h "a/b" _).1 hbefore).unique hafter

end Actor

end Fs
