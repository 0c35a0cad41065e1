import S5.Fs.Context
import S5.Fs.Path

/-!
# Child directories and shards

The parts of `s5_fs/src/actor.rs` and `s5_fs/src/actor/sharding.rs` that only look at a directory's
state: where a path is routed, which link a child is opened under, the references new children get
and how entries are spread over shards.
-/

open Std

namespace Fs

variable {β : Type} (env : Env β)

/-! ## Buckets -/

/-- From this serialized size on a directory is sharded. -/
def maxDirBytesBeforeShard : Nat := 65536

def maxShardLevel : UInt8 := 7

/-- Mutations since the last size check below which a small directory is not measured again. -/
def shardSizeCheckOpInterval : Nat := 128

/-- The byte of the name's hash that `shardLevel` picks. -/
def shardIndex (name : String) (shardLevel : UInt8) : UInt8 :=
  (env.xxh3_64 name >>> (8 * shardLevel.toUInt64)).toUInt8

/-- `shard_bucket_for`, which panics above the maximum level. -/
def shardBucketFor (name : String) (shardLevel : UInt8) : Except String UInt8 :=
  if shardLevel ≤ maxShardLevel then .ok (shardIndex env name shardLevel)
  else .error s!"shard_level {shardLevel} exceeds maximum {maxShardLevel}"

/-- The entries of `state` that belong to one bucket. -/
def shardState (state : DirV1) (shardLevel index : UInt8) : DirV1 :=
  { DirV1.new with
    dirs := state.dirs.filter fun name _ => shardIndex env name shardLevel = index
    files := state.files.filter fun name _ => shardIndex env name shardLevel = index }

/-! ## Routing -/

/-- Who handles a path: a shard (with the whole path), a child directory (with the rest), or the
directory itself. -/
inductive Route where
  | shard (index : UInt8)
  | dir (name rest : String)
  | here
  deriving DecidableEq

def routeDirect (state : DirV1) (path : String) : Route :=
  let (dirName, rest) := splitPath path
  if dirName ∈ state.dirs then .dir dirName rest else .here

/-- `route_to_child`, up to opening the child. -/
def route (state : DirV1) (path : String) : Except String Route :=
  match state.header.shardLevel with
  | none => .ok (routeDirect state path)
  | some shardLevel => do
    let index ← shardBucketFor env (splitPath path).1 shardLevel
    match state.header.shards with
    | some shards => if index ∈ shards then return .shard index else return routeDirect state path
    | none => return routeDirect state path

/-! ## Links -/

variable {ι : Type}

/-- The link under which `open_dir` opens a child directory. -/
def dirLink (ctx : DirContext ι) (self : ι) (name : String) (dirRef : DirRef) :
    DirContextParentLink ι :=
  match dirRef.refTypeD with
  | .blake3Hash => .dirHandle (.path name) self dirRef.hash 0
  | .registryKey => .registryKey dirRef.hash ctx.signingKey

/-- The shard's reference and the link under which `open_dir_shard_impl` opens it. -/
def shardLink (state : DirV1) (self : ι) (index : UInt8) :
    Except String (DirRef × DirContextParentLink ι) :=
  match state.header.shards.bind (·[index]?) with
  | none => .error "shard not found"
  | some dirRef =>
    match dirRef.refTypeD with
    | .registryKey => .error "dir shards can only be blake3 hash dir refs"
    | .blake3Hash =>
      match state.header.shardLevel with
      | none => .error "missing shard level in parent when opening shard"
      | some parent =>
        if parent = 255 then
          .error s!"shard level overflow: parent level {parent} exceeds maximum"
        else if maxShardLevel < parent + 1 then
          .error s!"shard level {parent + 1} exceeds maximum allowed level {maxShardLevel}"
        else .ok (dirRef, .dirHandle (.shard index) self dirRef.hash (parent + 1))

/-! ## New children -/

/-- The entries below `dir/`, under their paths below it, and the directory without them. -/
def extractChildDirState (state : DirV1) (dir : String) : DirV1 × DirV1 :=
  let moved := state.files.filter fun k _ => (stripDir dir k).isSome
  ({ state with files := state.files.filter fun k _ => (stripDir dir k).isNone },
    { DirV1.new with
      files := moved.foldl (fun m k f => m.insert ((stripDir dir k).getD k) f) ∅ })

/-- The reference of a new child directory, and the world after drawing its key and pointer. The
hash is a placeholder until the child has saved itself; in a context that publishes to the registry
it is a random registry key. -/
def buildChildDirRef (ctx : DirContext ι) (enableEncryption : Bool) (w : World β) :
    World β × DirRef :=
  let now := env.utcNow w.tick
  let key := env.random w.tick
  let w := w.next
  let pointer := env.random w.tick
  let dirRef := {
    refType := if ctx.signingKey.isSome then some .registryKey else none
    hash := if ctx.signingKey.isSome then pointer else 0
    tsSeconds := some now.1
    tsNanos := some now.2
    keys :=
      if enableEncryption then some ((∅ : ExtTreeMap UInt8 Bytes32).insert keySlot key) else none
    encryptionType := if enableEncryption then some encryptionTypeXChaCha20Poly1305 else none
    extra := none }
  (w.next, dirRef)

/-- The reference of a child that has been written under `hash`, for the encryption of `ctx`. -/
def storedDirRef (ctx : DirContext ι) (hash : Hash) (keys : Option (ExtTreeMap UInt8 Bytes32))
    (now : UInt32 × UInt32) : DirRef where
  refType := none
  hash := hash
  tsSeconds := some now.1
  tsNanos := some now.2
  keys := keys
  encryptionType := if ctx.encryptionType.isSome then some encryptionTypeXChaCha20Poly1305 else none
  extra := none

/-! ## Promotion -/

/-- More files than this below one segment become a directory. -/
def promotionThreshold : Nat := 10

/-- How many files lie below `dir/`. -/
def countBelow (state : DirV1) (dir : String) : Nat :=
  (state.files.keys.filter fun k => (stripDir dir k).isSome).length

/-- The first segments of the keys that have more than one. -/
def firstSegments (state : DirV1) : List String :=
  (state.files.keys.filterMap fun k => (splitOnce k).map (·.1)).eraseDups

variable [DecidableEq β]

/-- Writes every large group of files as a child directory, which `optimize` has worked on first. -/
def promoteGroups (optimize : DirV1 → World β → World β × Except String DirV1)
    (ctx : DirContext ι) : List String → DirV1 → World β → World β × Except String DirV1
  | [], state, w => (w, .ok state)
  | dir :: rest, state, w =>
    if countBelow state dir ≤ promotionThreshold then promoteGroups optimize ctx rest state w
    else
      let (others, child) := extractChildDirState state dir
      match optimize child w with
      | (w, .error e) => (w, .error e)
      | (w, .ok child) =>
        let now := env.utcNow w.tick
        match encodeChildDirBytes env ctx child w with
        | (w, bytes, keys) =>
          match w.importBytes env bytes with
          | (w, .error e) => (w, .error e)
          | (w, .ok h) =>
            let dirRef := storedDirRef ctx h keys now
            promoteGroups optimize ctx rest { others with dirs := others.dirs.insert dir dirRef } w

/-- The groups that a state has come out of a hash map, at a given time. -/
abbrev GroupOrder := Nat → DirV1 → List String → List String

/-- `optimize_dir_structure`, down to `depth` segments, where `stop` takes over. -/
def optimizeFrom (stop : DirV1 → World β → World β × Except String DirV1) (order : GroupOrder)
    (ctx : DirContext ι) : Nat → DirV1 → World β → World β × Except String DirV1
  | 0, state, w => stop state w
  | depth + 1, state, w =>
    promoteGroups env (optimizeFrom stop order ctx depth) ctx
      (order w.tick state (firstSegments state)) state w

/-- No key has more segments than the longest key has characters. -/
def promotionDepth (state : DirV1) : Nat := state.files.keys.foldl (fun n k => max n k.length) 0 + 1

/-- `optimize_dir_structure` that visits its groups in some order. -/
def optimizeDirStructureIn (order : GroupOrder) (ctx : DirContext ι) (state : DirV1) (w : World β) :
    World β × Except String DirV1 :=
  optimizeFrom env (fun state w => (w, .ok state)) order ctx (promotionDepth state) state w

/-- `optimize_dir_structure` in the order of the keys. -/
def optimizeDirStructure (ctx : DirContext ι) (state : DirV1) (w : World β) :
    World β × Except String DirV1 :=
  optimizeDirStructureIn env (fun _ _ groups => groups) ctx state w

end Fs
