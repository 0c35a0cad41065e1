import S5.Fs.Turn

/-!
# Where an actor panics

The arithmetic on shard levels that a directory actor does while it handles what it is asked for: the
assertion and the shift of `shard_bucket_for`, and the shift of `shard` (`s5_fs/src/actor/sharding.rs`).
The level that a child shard gets is checked and never panics.

Beside the messages of a turn these are the reads that look at shards: `list_entries`, `list_at_path`
(`actor/listing.rs`) and the exports (`actor/snapshots.rs`), up to what they hand on to a child.
-/

open Std

namespace Fs

/-! ## Buckets -/

/-- `h >> (8 * shard_level)`: shifting out all bits is an overflow, which panics. -/
def shiftBucket (h : UInt64) (shardLevel : UInt8) : Option UInt8 :=
  if 8 * shardLevel.toNat < 64 then some (h >>> (8 * shardLevel.toUInt64)).toUInt8 else none

/-- `shard_bucket_for`: its assertion and its shift. -/
def assertedBucket {β : Type} (env : Env β) (name : String) (shardLevel : UInt8) : Option UInt8 :=
  if shardLevel ≤ maxShardLevel then shiftBucket (env.xxh3_64 name) shardLevel else none

/-- What an actor is asked for. -/
inductive ActorCall where
  | message (msg : ActorMessage)
  | list
  | listAt (path : String)
  | exportMergedSnapshot
  | exportSnapshotAt (path : String)
  | exportMergedSnapshotAt (path : String)

inductive Outcome (β : Type) where
  | ok (t : Turn β)
  | panic

namespace Turn

variable {β : Type}

/-- Opens the shards one after the other, up to the first that cannot be opened. -/
def openShards : List UInt8 → Turn β → Turn β
  | [], t => t
  | index :: rest, t =>
    match t.openDirShard index with
    | (t, .error _) => t
    | (t, .ok _) => openShards rest t

/-- `export_merged_snapshot` and `list_entries`, which calls it: all shards are asked. -/
def exportMergedSnapshot (t : Turn β) : Turn β :=
  openShards (t.actor.state.header.shards.elim [] (·.keys)) t

variable (env : Env β)

/-- Whether `route_to_child` gets past `shard_bucket_for`. -/
def routes (t : Turn β) (path : String) : Bool :=
  t.actor.state.header.shardLevel.all fun level =>
    (assertedBucket env (splitPath path).1 level).isSome

/-- Whether `merge_snapshot` gets past `shard_bucket_for` for every entry of the snapshot. -/
def groups (t : Turn β) (snapshot : DirV1) : Bool :=
  t.actor.state.header.shardLevel.all fun level =>
    (snapshot.dirs.keys ++ snapshot.files.keys).all fun name => (assertedBucket env name level).isSome

/-- The level that `shard` hashes the names by. -/
def splitLevel (t : Turn β) : UInt8 :=
  match t.actor.context.link with
  | .dirHandle _ _ _ shardLevel => shardLevel
  | _ => 0

/-- Whether `shard_if_needed` now calls `shard`. -/
def splits (t : Turn β) : Bool :=
  t.actor.state.header.shardLevel.isNone &&
    !(t.actor.lastSerializedLen < maxDirBytesBeforeShard &&
      t.actor.shardSizeCheckOps.toNat < shardSizeCheckOpInterval) &&
    maxDirBytesBeforeShard ≤ env.len (env.toBytes t.actor.state)

/-- Whether `shard_if_needed` gets past the shifts of `shard`. -/
def shards (t : Turn β) : Bool :=
  !t.splits env || (t.actor.state.dirs.keys ++ t.actor.state.files.keys).all fun name =>
    (shiftBucket (env.xxh3_64 name) t.splitLevel).isSome

variable [DecidableEq β]

/-- What comes of a call. -/
def handle (t : Turn β) (call : ActorCall) : Outcome β :=
  match call with
  | .message (.pathOp path op) => if t.routes env path then .ok (t.pathOp env path op) else .panic
  | .message (.openSubdir base path waiting request) =>
    if t.routes env path then .ok (t.openSubdir env base path waiting request) else .panic
  | .message (.mergeSnapshot snapshot responder) =>
    if t.groups env snapshot then .ok (t.mergeSnapshot env snapshot responder) else .panic
  | .message (.saveIfDirty responder) =>
    if !(t.actor.dirty || t.isRoot) || t.shards env then .ok (t.saveIfDirty env responder) else .panic
  | .message .autosaveTick =>
    if !t.actor.dirty || t.shards env then .ok (t.autosaveTick env) else .panic
  | .message msg => .ok (t.processMsg env msg)
  | .list => .ok t.exportMergedSnapshot
  | .exportMergedSnapshot => .ok t.exportMergedSnapshot
  | .exportSnapshotAt path =>
    if path = "" then .ok t
    else if t.routes env path then .ok (t.routeToChild env path).1 else .panic
  | .listAt path =>
    if path = "" then .ok t.exportMergedSnapshot
    else if t.routes env path then .ok (t.routeToChild env path).1 else .panic
  | .exportMergedSnapshotAt path =>
    if path = "" then .ok t.exportMergedSnapshot
    else if t.routes env path then .ok (t.routeToChild env path).1 else .panic

/-- What comes of the end of the run loop. -/
def finish (t : Turn β) : Outcome β :=
  if !t.actor.dirty || t.shards env then .ok (t.close env) else .panic

/-- The states of an actor that has loaded its directory under the context `ctx`, until it panics. -/
inductive Life (env : Env β) (ctx : DirContext ActorId) (d : DirV1) : Turn β → Prop where
  | loaded {t : Turn β} {len : Nat} (hp : t.actor.phase = .starting none) (hc : t.actor.context = ctx)
      (hl : load env ctx t.world = .ok (d, len)) (hs : t.spawned = []) : Life env ctx d (t.run env)
  | call {t t' : Turn β} (h : Life env ctx d t) (c : ActorCall) (hp : t.actor.phase = .idle)
      (hc : t.handle env c = .ok t') : Life env ctx d t'
  /-- The rest of an operation, after what it has awaited. -/
  | resume {t : Turn β} (h : Life env ctx d t) (hs : t.actor.phase.isStarting = false)
      (hp : t.actor.phase ≠ .idle) : Life env ctx d (t.run env)
  /-- What others do: to the world, to the mailbox and to what the actor awaits. -/
  | others {t t' : Turn β} (h : Life env ctx d t) (mailbox : List ActorMessage) (phase : Phase)
      (hp : phase.isStarting = false) (ha : t'.actor = { t.actor with mailbox, phase })
      (hs : t'.spawned = t.spawned) : Life env ctx d t'

end Turn

end Fs
