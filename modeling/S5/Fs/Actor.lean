import S5.Fs.Sharding
import S5.Fs.Merge

/-!
# Directory actors

A directory actor (`s5_fs/src/actor.rs`) together with the child actors it holds handles of, when no
message is on its way: a call that awaits the reply of a child is a call of the function on that
child. `load`, `save` and `shutdown` come from `actor/persistence.rs` and the run loop, `shard` from
`actor/sharding.rs`, the merges and exports from `actor/merge.rs` and `actor/snapshots.rs`.

An actor whose `load` fails stops, and every call to it fails; opening it is an error here.
-/

open Std

namespace Fs

structure Actor where
  context : DirContext Unit
  state : DirV1
  dirty : Bool
  dirHandles : List (String × Actor)
  dirShardHandles : List (UInt8 × Actor)
  lastSerializedLen : Nat
  shardSizeCheckOps : UInt64

namespace Actor

variable {β : Type} [DecidableEq β] (env : Env β)

/-- Starts an actor on the stored state of its directory. -/
def spawn (ctx : DirContext Unit) (w : World β) : Except String Actor := do
  let (state, len) ← load env ctx w
  return ⟨ctx, state, false, [], [], len, 0⟩

/-! ## Lookups -/

/-- The actors of registry-backed directories by public key (`registry_dir_handles`). -/
abbrev RegistryDirHandles := List (Bytes32 × Actor)

def openDir (w : World β) (regs : RegistryDirHandles) (a : Actor) (name : String) :
    Except String Actor :=
  match a.dirHandles.lookup name with
  | some child => .ok child
  | none =>
    match a.state.dirs[name]? with
    | none => .error "dir not found"
    | some dirRef =>
      let link := dirLink a.context () name dirRef
      match dirRef.refTypeD, regs.lookup dirRef.hash with
      | .registryKey, some child => .ok child
      | _, _ => spawn env (a.context.withNewRef dirRef link) w

def openDirShard (w : World β) (a : Actor) (index : UInt8) : Except String Actor :=
  match a.dirShardHandles.lookup index with
  | some child => .ok child
  | none => do
    let (dirRef, link) ← shardLink a.state () index
    spawn env (a.context.withNewRef dirRef link) w

/-- `open_dir_shard_impl` as it changes the actor: the handle of the shard is kept. -/
def openDirShardImpl (w : World β) (a : Actor) (index : UInt8) : Except String Actor :=
  match a.dirShardHandles.lookup index with
  | some _ => .ok a
  | none => do
    let (dirRef, link) ← shardLink a.state () index
    match spawn env (a.context.withNewRef dirRef link) w with
    | .ok child => return { a with dirShardHandles := (index, child) :: a.dirShardHandles }
    | .error _ => return a

/-- The child a path is routed to, with the path it is asked for there. -/
def routeToChild (w : World β) (regs : RegistryDirHandles) (a : Actor) (path : String) :
    Except String (Option (Actor × String)) := do
  match ← route env a.state path with
  | .shard index => return some (← openDirShard env w a index, path)
  | .dir name rest => return some (← openDir env w regs a name, rest)
  | .here => return none

/-- The entry that a `FileOp` on `path` reaches: `none` inside if there is none or if no actor takes
the operation. The outer `none` stands for a lookup that `fuel` hops do not finish. -/
def lookup (w : World β) (regs : RegistryDirHandles) : Nat → Actor → String → Option (Option FileRef)
  | 0, _, _ => none
  | fuel + 1, a, path =>
    match routeToChild env w regs a path with
    | .error _ => some none
    | .ok (some (child, rest)) => lookup w regs fuel child rest
    | .ok none => some a.state.files[path]?

/-- A `FileOp` on `path` reaches `r`. -/
def Reaches (w : World β) (regs : RegistryDirHandles) (a : Actor) (path : String)
    (r : Option FileRef) : Prop :=
  ∃ fuel, lookup env w regs fuel a path = some r

/-- `file_get`: what a lookup reaches, unless it is a tombstone. -/
def live (r : Option FileRef) : Option FileRef := r.filter (!·.isTombstone)

/-! ## Saving -/

/-- `DirActor::save(false)`. -/
def save (w : World β) (a : Actor) : World β × Actor × Except String (Option Hash) :=
  match persist env a.context a.state w with
  | (w, .error e) => (w, a, .error e)
  | (w, .ok (context, h)) => (w, { a with context }, .ok h)

/-- `mark_as_dirty`, without the message to the parent. -/
def markAsDirty (a : Actor) : Actor :=
  { a with
    dirty := true
    shardSizeCheckOps :=
      if a.shardSizeCheckOps.toNat + 1 < 2 ^ 64 then a.shardSizeCheckOps + 1
      else a.shardSizeCheckOps }

/-! ## Sharding -/

def setShards (a : Actor) (shards : ExtTreeMap UInt8 DirRef) : Actor :=
  { a with state.header.shards := some shards }

section
variable (a : Actor) (shards : ExtTreeMap UInt8 DirRef)

@[simp] theorem setShards_context : (a.setShards shards).context = a.context := rfl
@[simp] theorem setShards_dirty : (a.setShards shards).dirty = a.dirty := rfl
@[simp] theorem setShards_dirHandles : (a.setShards shards).dirHandles = a.dirHandles := rfl
@[simp] theorem setShards_dirShardHandles :
    (a.setShards shards).dirShardHandles = a.dirShardHandles := rfl
@[simp] theorem setShards_dirs : (a.setShards shards).state.dirs = a.state.dirs := rfl
@[simp] theorem setShards_files : (a.setShards shards).state.files = a.state.files := rfl
@[simp] theorem setShards_shardLevel :
    (a.setShards shards).state.header.shardLevel = a.state.header.shardLevel := rfl
@[simp] theorem setShards_shards : (a.setShards shards).state.header.shards = some shards := rfl

end

/-- Writes the shards of `old` one bucket after the other, skipping empty ones, and opens each. -/
def shardBuckets (shardLevel : UInt8) (old : DirV1) :
    List UInt8 → World β → Actor → World β × Actor × Except String Unit
  | [], w, a => (w, a, .ok ())
  | index :: rest, w, a =>
    let part := shardState env old shardLevel index
    if part.dirs.isEmpty && part.files.isEmpty then shardBuckets shardLevel old rest w a
    else
      let shards := a.state.header.shards.getD ∅
      let now := env.utcNow w.tick
      let a := a.setShards shards
      match encodeChildDirBytes env a.context part w with
      | (w, bytes, keys) =>
        match w.importBytes env bytes with
        | (w, .error e) => (w, a, .error e)
        | (w, .ok h) =>
          let dirRef := storedDirRef a.context h keys now
          let a := a.setShards (shards.insert index dirRef)
          match openDirShardImpl env w a index with
          | .error e => (w, a, .error e)
          | .ok a => shardBuckets shardLevel old rest w a

/-- The level at which a directory that is split now hashes its names. -/
def splitLevel (a : Actor) : UInt8 :=
  match a.context.link with
  | .dirHandle _ _ _ shardLevel => shardLevel
  | _ => 0

/-- All bucket indices, in order. -/
def buckets : List UInt8 := (List.range 256).map UInt8.ofNat

def shard (w : World β) (a : Actor) : World β × Actor × Except String Unit :=
  match a.state.header.shardLevel with
  | some _ => (w, a, .error "already sharded; cannot shard again")
  | none =>
    let shardLevel := a.splitLevel
    let old := a.state
    let a := { a with state.header.shardLevel := some shardLevel }
    match shardBuckets env shardLevel old buckets w a with
    | (w, a, .error e) => (w, a, .error e)
    | (w, a, .ok ()) => (w, { a with state.dirs := ∅, state.files := ∅ }, .ok ())

def shardIfNeeded (w : World β) (a : Actor) : World β × Actor × Except String Unit :=
  if a.state.header.shardLevel.isSome then (w, a, .ok ())
  else if a.lastSerializedLen < maxDirBytesBeforeShard ∧
      a.shardSizeCheckOps.toNat < shardSizeCheckOpInterval then (w, a, .ok ())
  else
    let exactLen := env.len (env.toBytes a.state)
    let a := { a with lastSerializedLen := exactLen, shardSizeCheckOps := 0 }
    if maxDirBytesBeforeShard ≤ exactLen then shard env w a else (w, a, .ok ())

/-! ## Saving a tree -/

/-- Roots walk their children even when they are not marked dirty. -/
def isRoot (ctx : DirContext Unit) : Bool :=
  match ctx.link with
  | .dirHandle _ _ _ _ => false
  | _ => true

/-- Takes over the hash under which a child directory has been saved. -/
def updateDirHash (a : Actor) (name : String) : Except String (Option Hash) → Actor
  | .ok (some h) =>
    match a.state.dirs[name]? with
    | some dirRef =>
      if dirRef.hash ≠ h then
        { a with state.dirs := a.state.dirs.insert name { dirRef with hash := h }, dirty := true }
      else a
    | none => a
  | _ => a

/-- Takes over the hash under which a shard has been saved. -/
def updateShardHash (a : Actor) (index : UInt8) : Except String (Option Hash) → Actor
  | .ok (some h) =>
    match a.state.header.shards with
    | some shards =>
      match shards[index]? with
      | some dirRef =>
        if dirRef.hash ≠ h then
          { a.setShards (shards.insert index { dirRef with hash := h }) with dirty := true }
        else a
      | none => a
    | none => a
  | _ => a

mutual
/-- `save_if_dirty`: the children save first. Shards that `shardIfNeeded` has just opened are clean
and stay as they are. -/
def saveIfDirty : Actor → World β → World β × Actor × Except String (Option Hash)
  | ⟨context, state, dirty, dirHandles, dirShardHandles, lastSerializedLen, shardSizeCheckOps⟩, w =>
    let a : Actor :=
      ⟨context, state, dirty, dirHandles, dirShardHandles, lastSerializedLen, shardSizeCheckOps⟩
    if dirty || isRoot context then
      match shardIfNeeded env w a with
      | (w, a, .error e) => (w, a, .error e)
      | (w, a, .ok ()) =>
        match saveShards dirShardHandles w with
        | (w, shards) =>
          match saveDirs dirHandles w with
          | (w, dirs) =>
            let a := { a with
              dirHandles := dirs.map fun (name, child, _) => (name, child)
              dirShardHandles :=
                if state.header.shardLevel.isSome then
                  shards.map fun (index, child, _) => (index, child)
                else a.dirShardHandles }
            let a := shards.foldl (fun a (index, _, r) => a.updateShardHash index r) a
            let a := dirs.foldl (fun a (name, _, r) => a.updateDirHash name r) a
            if a.dirty then
              match save env w a with
              | (w, a, .ok h) => (w, { a with dirty := false }, .ok h)
              | (w, a, .error e) => (w, a, .error e)
            else (w, a, .ok none)
    else (w, a, .ok none)
def saveDirs : List (String × Actor) → World β →
    World β × List (String × Actor × Except String (Option Hash))
  | [], w => (w, [])
  | (name, child) :: rest, w =>
    match saveIfDirty child w with
    | (w, child, r) =>
      match saveDirs rest w with
      | (w, saved) => (w, (name, child, r) :: saved)
def saveShards : List (UInt8 × Actor) → World β →
    World β × List (UInt8 × Actor × Except String (Option Hash))
  | [], w => (w, [])
  | (index, child) :: rest, w =>
    match saveIfDirty child w with
    | (w, child, r) =>
      match saveShards rest w with
      | (w, saved) => (w, (index, child, r) :: saved)
end

/-! ## Shutdown -/

/-- What the run loop does when it ends with unsaved changes: errors are only logged. -/
def saveOnExit (w : World β) (a : Actor) : World β × Actor :=
  if a.dirty then
    match shardIfNeeded env w a with
    | (w, a, _) =>
      match save env w a with
      | (w, a, _) => (w, a)
  else (w, a)

mutual
/-- `Shutdown`: the directory saves itself, then its children do, and as it stays marked dirty it
saves itself once more after the loop. Shards that the first save has just opened are clean and have
no children. -/
def shutdown : Actor → World β → World β × Actor
  | ⟨context, state, dirty, dirHandles, dirShardHandles, lastSerializedLen, shardSizeCheckOps⟩, w =>
    let a : Actor :=
      ⟨context, state, dirty, dirHandles, dirShardHandles, lastSerializedLen, shardSizeCheckOps⟩
    match saveOnExit env w a with
    | (w, a) =>
      let w := shutdownDirs dirHandles w
      let w := shutdownShards dirShardHandles w
      saveOnExit env w a
def shutdownDirs : List (String × Actor) → World β → World β
  | [], w => w
  | (_, child) :: rest, w => shutdownDirs rest (shutdown child w).1
def shutdownShards : List (UInt8 × Actor) → World β → World β
  | [], w => w
  | (_, child) :: rest, w => shutdownShards rest (shutdown child w).1
end

/-! ## Merged views and merges -/

/-- Adds the entries of a shard to a merged view; they replace those of the same name. -/
def addEntries (merged part : DirV1) : DirV1 :=
  { merged with dirs := merged.dirs ∪ part.dirs, files := merged.files ∪ part.files }

/-- The directory as a flat snapshot. Shards are visited in the order of their indices; `fuel` bounds
how deep they nest. -/
def exportMergedSnapshot (w : World β) : Nat → Actor → Except String DirV1
  | 0, _ => .error "shards nest too deep"
  | fuel + 1, a => do
    let indices := match a.state.header.shards with
      | some shards => shards.keys
      | none => []
    let merged ← indices.foldlM (fun merged index => do
      let child ← openDirShard env w a index
      let part ← exportMergedSnapshot w fuel child
      return addEntries merged part) a.state
    return { merged with header.shardLevel := none, header.shards := none }

/-- Keeps a shard actor under its index. -/
def keepShard (a : Actor) (index : UInt8) (child : Actor) : Actor :=
  { a with dirShardHandles := (index, child) :: a.dirShardHandles.filter (·.1 ≠ index) }

/-- Hands each bucket's entries of a snapshot to its shard; entries of a bucket that does not exist
are dropped. The source visits the buckets in no fixed order; they do not touch each other. -/
def mergeBuckets (merge : Actor → DirV1 → Actor × Except String Unit) (w : World β)
    (part : UInt8 → DirV1) : List UInt8 → Actor → Actor × Except String Unit
  | [], a => (a, .ok ())
  | index :: rest, a =>
    if (part index).dirs.isEmpty && (part index).files.isEmpty then mergeBuckets merge w part rest a
    else
      match a.state.header.shards.bind (·[index]?) with
      | none => mergeBuckets merge w part rest a
      | some _ =>
        match openDirShard env w a index with
        | .error e => (a, .error e)
        | .ok child =>
          match merge child (part index) with
          | (child, .error e) => (a.keepShard index child, .error e)
          | (child, .ok ()) => mergeBuckets merge w part rest (a.keepShard index child)

def mergeHeader (a : Actor) (remote : DirHeader) : Actor :=
  { a with state.header := mergeHeaderFields a.state.header remote }

/-- `merge_entries_local` as it changes the actor: handles of replaced children are dropped. -/
def mergeLocal (a : Actor) (snapshot : DirV1) : Actor :=
  let merged := mergeEntriesLocal a.state snapshot.dirs snapshot.files
  { a with
    state.dirs := merged.dirs
    state.files := merged.files
    dirHandles := a.dirHandles.filter (·.1 ∉ merged.dropped) }

/-- `merge_snapshot_into_shards`, where `merge` merges into a shard. -/
def mergeSnapshotIntoShards (merge : Actor → DirV1 → Actor × Except String Unit) (w : World β)
    (level : UInt8) (a : Actor) (snapshot : DirV1) : Actor × Except String Unit :=
  if maxShardLevel < level ∧ ¬ (snapshot.dirs.isEmpty && snapshot.files.isEmpty) then
    (a, .error s!"shard_level {level} exceeds maximum {maxShardLevel}")
  else
    match mergeBuckets env merge w (shardState env snapshot level) buckets a with
    | (a, .error e) => (a, .error e)
    | (a, .ok ()) => ((a.mergeHeader snapshot.header).markAsDirty, .ok ())

/-- `merge_snapshot`; `fuel` bounds how deep shards nest. -/
def mergeSnapshot (w : World β) : Nat → Actor → DirV1 → Actor × Except String Unit
  | 0, a, _ => (a, .error "shards nest too deep")
  | fuel + 1, a, snapshot =>
    match a.state.header.shardLevel with
    | none => (((a.mergeLocal snapshot).mergeHeader snapshot.header).markAsDirty, .ok ())
    | some level => mergeSnapshotIntoShards env (mergeSnapshot w fuel) w level a snapshot

end Actor

end Fs
