import S5.Fs.Merge
import S5.Fs.Sharding
import S5.Fs.Snapshots

/-!
# What an actor does in its turn

A directory actor (`s5_fs/src/actor.rs`) as one of many that run at the same time. Its turn goes from
one point where it awaits something to the next: the next message, or the answers of its children.
A `Turn` collects what it does meanwhile: to itself, to the world, which actors it spawns and what it
sends. Between an acknowledged `FileOp` and the rest of its handling other actors may run, since the
caller does.

A local root also keeps a snapshot index and pins beside its root file (`actor/snapshots.rs`, the
`LocalFile` case of `save`).

Mailboxes are not bounded here; the source's hold 1024 messages and make senders wait.
-/

open Std

namespace Fs

/-- A handle of a running actor. -/
abbrev ActorId := Nat

/-! ## Messages -/

/-- The closures that `FS5` runs on a file entry. -/
inductive FileTask where
  | put (file : FileRef)
  | delete
  | get

def FileTask.execute (now : UInt32 × UInt32) : FileTask → Option FileRef → Option FileRef
  | put file, _ => some file
  | delete, value => value.map (·.fromDeleted now.1 now.2)
  | get, value => value

inductive ActorMessageOp where
  | fileOp (task : FileTask) (request : Nat)
  | createDir (enableEncryption : Bool) (request : Nat)

/-- Who gets the answer of a `SaveIfDirty` or a `MergeSnapshot`: a client, or a parent that asked its
child at `path`. -/
inductive Responder where
  | client (request : Nat)
  | parent (id : ActorId) (path : DirHandlePath)

inductive ActorMessage where
  | pathOp (path : String) (op : ActorMessageOp)
  | updateDirRefHash (path : DirHandlePath) (hash : Hash)
  | saveIfDirty (responder : Responder)
  /-- `base` are the directories passed so far, which no actor looks at; `waiting` are the actors
  that hand the answer on to the client. -/
  | openSubdir (base : List String) (path : String) (waiting : List ActorId) (request : Nat)
  | exportSnapshotHash (request : Nat)
  | createSnapshot (request : Nat)
  | deleteSnapshot (name : String) (request : Nat)
  | exportSnapshot (request : Nat)
  | mergeSnapshot (snapshot : DirV1) (responder : Responder)
  | autosaveTick
  | markAsDirty

/-- What a client is answered. -/
inductive Answer where
  /-- What the task found. -/
  | file (value : Option FileRef)
  | created (result : Except String Unit)
  | subdir (result : Except String (List String × ActorId))
  | saved (result : Except String (Option Hash))
  | snapshotHash (result : Except String Hash)
  | snapshotCreated (result : Except String (String × Hash))
  | snapshotDeleted (result : Except String Unit)
  | snapshot (snapshot : DirV1)
  | merged (result : Except String Unit)

/-! ## Actors -/

/-- Where an actor is in its run loop. -/
inductive Phase where
  | starting (initialState : Option DirV1)
  | idle
  /-- A task has been executed and acknowledged; `stored` if it left an entry. -/
  | executed (path : String) (stored : Bool)
  /-- Awaits the answer to an `OpenSubdir` it has passed on. -/
  | openingSubdir
  /-- Awaits the answers of the children it has asked to save. -/
  | saving (replies : List (DirHandlePath × Option (Except String (Option Hash))))
      (responder : Responder)
  /-- Awaits the answer of the shard it has sent entries to; `rest` are the buckets to come. -/
  | merging (reply : Option (Except String Unit)) (rest : List UInt8) (snapshot : DirV1)
      (responder : Responder)
  /-- Looks for a free snapshot name forever. -/
  | looping
  | stopped

def Phase.isStarting : Phase → Bool
  | .starting _ => true
  | _ => false

/-- The actor has started and not stopped. -/
def Phase.isRunning : Phase → Bool
  | .starting _ => false
  | .stopped => false
  | _ => true

structure DirActor where
  context : DirContext ActorId
  state : DirV1
  dirty : Bool
  dirHandles : ExtTreeMap String ActorId
  dirShardHandles : ExtTreeMap UInt8 ActorId
  /-- The hash of the snapshot of a local root that is stored, if known. -/
  currentHash : Option Hash
  lastSerializedLen : Nat
  shardSizeCheckOps : UInt64
  mailbox : List ActorMessage
  phase : Phase

/-- A freshly spawned actor. -/
def DirActor.new (context : DirContext ActorId) (initialState : Option DirV1) : DirActor where
  context := context
  state := .new
  dirty := false
  dirHandles := ∅
  dirShardHandles := ∅
  currentHash := none
  lastSerializedLen := 0
  shardSizeCheckOps := 0
  mailbox := []
  phase := .starting initialState

/-! ## Turns -/

inductive Output where
  | send (target : ActorId) (msg : ActorMessage)
  /-- Over the weak handle that a child has of its parent. -/
  | notifyParent (parent : ActorId) (msg : ActorMessage)
  | answer (request : Nat) (answer : Answer)
  | subdir (waiting : List ActorId) (request : Nat) (result : Except String (List String × ActorId))
  | saved (responder : Responder) (result : Except String (Option Hash))
  | merged (responder : Responder) (result : Except String Unit)

/-- What lies beside the root file of a local root. -/
structure LocalRoot where
  /-- `snapshots.fs5.cbor`. -/
  snapshots : SnapshotIndex
  pins : Option Pins
  /-- Whether a save has written the root file. -/
  saved : Bool

structure Turn (β : Type) where
  self : ActorId
  /-- The handle the next spawned actor gets. -/
  fresh : ActorId
  actor : DirActor
  world : World β
  localRoot : LocalRoot
  registryDirHandles : ExtTreeMap Bytes32 ActorId
  spawned : List DirActor
  out : List Output

namespace Turn

variable {β : Type}

def emit (t : Turn β) (o : Output) : Turn β := { t with out := t.out ++ [o] }

def enter (t : Turn β) (phase : Phase) : Turn β := { t with actor.phase := phase }

def spawn (t : Turn β) (context : DirContext ActorId) (initialState : Option DirV1) : Turn β :=
  { t with fresh := t.fresh + 1, spawned := t.spawned ++ [.new context initialState] }

/-! ### Opening children -/

def openDir (t : Turn β) (name : String) (initialState : Option DirV1) :
    Turn β × Except String ActorId :=
  match t.actor.dirHandles[name]? with
  | some child => (t, .ok child)
  | none =>
    match t.actor.state.dirs[name]? with
    | none => (t, .error "dir not found")
    | some dirRef =>
      let context := t.actor.context.withNewRef dirRef (dirLink t.actor.context t.self name dirRef)
      let opened :=
        { t.spawn context initialState with
          actor.dirHandles := t.actor.dirHandles.insert name t.fresh }
      match dirRef.refTypeD with
      | .blake3Hash => (opened, .ok t.fresh)
      | .registryKey =>
        match t.registryDirHandles[dirRef.hash]? with
        | some child => (t, .ok child)
        | none =>
          ({ opened with registryDirHandles := t.registryDirHandles.insert dirRef.hash t.fresh },
            .ok t.fresh)

def openDirShard (t : Turn β) (index : UInt8) : Turn β × Except String ActorId :=
  match t.actor.dirShardHandles[index]? with
  | some child => (t, .ok child)
  | none =>
    match shardLink t.actor.state t.self index with
    | .error e => (t, .error e)
    | .ok (dirRef, link) =>
      ({ t.spawn (t.actor.context.withNewRef dirRef link) none with
          actor.dirShardHandles := t.actor.dirShardHandles.insert index t.fresh }, .ok t.fresh)

variable (env : Env β)

/-- The child a path is routed to, the path it is asked for there and the directory entered. -/
def routeToChild (t : Turn β) (path : String) :
    Turn β × Except String (Option (ActorId × String × List String)) :=
  match route env t.actor.state path with
  | .error e => (t, .error e)
  | .ok .here => (t, .ok none)
  | .ok (.shard index) =>
    match t.openDirShard index with
    | (t, .error e) => (t, .error e)
    | (t, .ok child) => (t, .ok (some (child, path, [])))
  | .ok (.dir name rest) =>
    match t.openDir name none with
    | (t, .error e) => (t, .error e)
    | (t, .ok child) => (t, .ok (some (child, rest, [name])))

/-! ### Changing the directory -/

def markAsDirty (t : Turn β) : Turn β :=
  let ops := t.actor.shardSizeCheckOps
  { t with
    actor.dirty := true
    actor.shardSizeCheckOps := if ops.toNat + 1 < 2 ^ 64 then ops + 1 else ops
    out := match t.actor.dirty, t.actor.context.link with
      | false, .dirHandle _ parent _ _ => t.out ++ [.notifyParent parent .markAsDirty]
      | _, _ => t.out }

/-- Gives the entries below `path/` to a new child directory. -/
def createDirAt (t : Turn β) (path : String) (enableEncryption : Bool) :
    Turn β × Except String Unit :=
  if path ∈ t.actor.state.dirs then (t, .ok ())
  else
    let (state, newDirState) := extractChildDirState t.actor.state path
    match buildChildDirRef env t.actor.context enableEncryption t.world with
    | (world, dirRef) =>
      let t := { t with
        world
        actor.state := { state with dirs := state.dirs.insert path dirRef } }
      match t.openDir path (some newDirState) with
      | (t, .error e) => (t, .error e)
      | (t, .ok _) => (t.markAsDirty, .ok ())

variable [DecidableEq β]

def promotePrefix (t : Turn β) (dir : String) : Turn β × Except String Unit :=
  if dir ∈ t.actor.state.dirs then (t, .ok ())
  else
    let (state, newDirState) := extractChildDirState t.actor.state dir
    match buildChildDirRef env t.actor.context t.actor.context.encryptionType.isSome t.world with
    | (world, dirRef) =>
      let t := { t with actor.state := { state with dirs := state.dirs.insert dir dirRef } }
      match optimizeDirStructure env t.actor.context newDirState world with
      | (world, .error e) => ({ t with world }, .error e)
      | (world, .ok optimized) =>
        match openDir { t with world } dir (some optimized) with
        | (t, .error e) => (t, .error e)
        | (t, .ok _) => (t, .ok ())

def checkAutoPromote (t : Turn β) (path : String) : Turn β × Except String Unit :=
  match splitOnce path with
  | none => (t, .ok ())
  | some (dir, _) =>
    if promotionThreshold < countBelow t.actor.state dir then t.promotePrefix env dir
    else (t, .ok ())

/-! ### Saving -/

/-- The head pin goes from the hash that the actor takes for the stored one to `h`. -/
def moveHead (t : Turn β) (h : Hash) : Turn β :=
  match t.localRoot.pins with
  | none => t
  | some pins =>
    let pins := match t.actor.currentHash with
      | some prev => (pins.unpinHash prev .localFsHead).1
      | none => pins
    { t with
      localRoot.pins := some (pins.pinHash h .localFsHead)
      actor.currentHash := some h }

def save (t : Turn β) (notify : Bool) : Turn β × Except String (Option Hash) :=
  match persist env t.actor.context t.actor.state t.world with
  | (world, .error e) => ({ t with world }, .error e)
  | (world, .ok (context, hash)) =>
    let t := { t with world, actor.context := context }
    match context.link with
    | .localFile =>
      match world.rootFile with
      | some bytes => ({ t.moveHead (env.blake3 bytes) with localRoot.saved := true }, .ok hash)
      | none => (t, .ok hash)
    | .dirHandle path parent _ _ =>
      match notify, hash with
      | true, some h => (t.emit (.notifyParent parent (.updateDirRefHash path h)), .ok hash)
      | _, _ => (t, .ok hash)
    | .registryKey _ _ => (t, .ok hash)

/-- Writes the shards of `old` one bucket after the other, skipping empty ones, and opens each. -/
def shardBuckets (shardLevel : UInt8) (old : DirV1) :
    List UInt8 → Turn β → Turn β × Except String Unit
  | [], t => (t, .ok ())
  | index :: rest, t =>
    let part := shardState env old shardLevel index
    if part.dirs.isEmpty && part.files.isEmpty then shardBuckets shardLevel old rest t
    else
      let shards := t.actor.state.header.shards.getD ∅
      let now := env.utcNow t.world.tick
      let t := { t with actor.state.header.shards := some shards }
      match encodeChildDirBytes env t.actor.context part t.world with
      | (world, bytes, keys) =>
        match world.importBytes env bytes with
        | (world, .error e) => ({ t with world }, .error e)
        | (world, .ok h) =>
          let dirRef := storedDirRef t.actor.context h keys now
          let t := { t with world, actor.state.header.shards := some (shards.insert index dirRef) }
          match t.openDirShard index with
          | (t, .error e) => (t, .error e)
          | (t, .ok _) => shardBuckets shardLevel old rest t

def shard (t : Turn β) : Turn β × Except String Unit :=
  let shardLevel := match t.actor.context.link with
    | .dirHandle _ _ _ shardLevel => shardLevel
    | _ => 0
  let old := t.actor.state
  let t := { t with actor.state.header.shardLevel := some shardLevel }
  match shardBuckets env shardLevel old ((List.range 256).map UInt8.ofNat) t with
  | (t, .error e) => (t, .error e)
  | (t, .ok ()) => ({ t with actor.state.dirs := ∅, actor.state.files := ∅ }, .ok ())

def shardIfNeeded (t : Turn β) : Turn β × Except String Unit :=
  if t.actor.state.header.shardLevel.isSome then (t, .ok ())
  else if t.actor.lastSerializedLen < maxDirBytesBeforeShard ∧
      t.actor.shardSizeCheckOps.toNat < shardSizeCheckOpInterval then (t, .ok ())
  else
    let exactLen := env.len (env.toBytes t.actor.state)
    let t := { t with actor.lastSerializedLen := exactLen, actor.shardSizeCheckOps := 0 }
    if maxDirBytesBeforeShard ≤ exactLen then t.shard env else (t, .ok ())

/-- Roots walk their children even when they are not marked dirty. -/
def isRoot (t : Turn β) : Bool :=
  match t.actor.context.link with
  | .dirHandle _ _ _ _ => false
  | _ => true

/-- The open children, shards first. -/
def children (a : DirActor) : List (DirHandlePath × ActorId) :=
  a.dirShardHandles.toList.map (fun (index, child) => (.shard index, child)) ++
    a.dirHandles.toList.map fun (name, child) => (.path name, child)

/-- The first half of `save_if_dirty`: asks the children. -/
def saveIfDirty (t : Turn β) (responder : Responder) : Turn β :=
  if t.actor.dirty || t.isRoot then
    match t.shardIfNeeded env with
    | (t, .error e) => t.emit (.saved responder (.error e))
    | (t, .ok ()) =>
      { t with
        actor.phase := .saving ((children t.actor).map fun (path, _) => (path, none)) responder
        out := t.out ++ (children t.actor).map fun (path, child) =>
          .send child (.saveIfDirty (.parent t.self path)) }
  else t.emit (.saved responder (.ok none))

/-- Takes over the hash under which a child has been saved, if it is another one. -/
def updateHash (a : DirActor) (path : DirHandlePath) (h : Hash) : Option DirActor :=
  match path with
  | .path name =>
    match a.state.dirs[name]? with
    | some dirRef =>
      if dirRef.hash = h then none
      else some { a with state.dirs := a.state.dirs.insert name { dirRef with hash := h } }
    | none => none
  | .shard index =>
    match a.state.header.shards with
    | some shards =>
      match shards[index]? with
      | some dirRef =>
        if dirRef.hash = h then none
        else
          let shards := shards.insert index { dirRef with hash := h }
          some { a with state.header.shards := some shards }
      | none => none
    | none => none

/-- One answer of a child that has been asked to save. -/
def takeReply (a : DirActor) :
    DirHandlePath × Option (Except String (Option Hash)) → DirActor
  | (path, some (.ok (some h))) =>
    match updateHash a path h with
    | some a => { a with dirty := true }
    | none => a
  | _ => a

/-- The second half of `save_if_dirty`, when all children have answered. -/
def finishSave (t : Turn β) (replies : List (DirHandlePath × Option (Except String (Option Hash))))
    (responder : Responder) : Turn β :=
  let t := { t with actor := { replies.foldl takeReply t.actor with phase := .idle } }
  if t.actor.dirty then
    match t.save env false with
    | (t, .error e) => t.emit (.saved responder (.error e))
    | (t, .ok hash) => { t with actor.dirty := false }.emit (.saved responder (.ok hash))
  else t.emit (.saved responder (.ok none))

/-! ### Merging -/

def mergeHeader (t : Turn β) (remote : DirHeader) : Turn β :=
  { t with actor.state.header := mergeHeaderFields t.actor.state.header remote }

/-- `merge_entries_local`: the handles of replaced directories are dropped. -/
def mergeLocal (t : Turn β) (snapshot : DirV1) : Turn β :=
  let merged := mergeEntriesLocal t.actor.state snapshot.dirs snapshot.files
  { t with
    actor.state.dirs := merged.dirs
    actor.state.files := merged.files
    actor.dirHandles := t.actor.dirHandles.filter fun name _ => name ∉ merged.dropped }

/-- Hands the entries of the next bucket to its shard; entries of a bucket that does not exist are
dropped. -/
def mergeNext (t : Turn β) (level : UInt8) (snapshot : DirV1) (responder : Responder) :
    List UInt8 → Turn β
  | [] =>
    ((t.mergeHeader snapshot.header).markAsDirty.enter .idle).emit (.merged responder (.ok ()))
  | index :: rest =>
    let part := shardState env snapshot level index
    if part.dirs.isEmpty && part.files.isEmpty then t.mergeNext level snapshot responder rest
    else
      match t.actor.state.header.shards.bind (·[index]?) with
      | none => t.mergeNext level snapshot responder rest
      | some _ =>
        match t.openDirShard index with
        | (t, .error e) => (t.enter .idle).emit (.merged responder (.error e))
        | (t, .ok child) =>
          (t.enter (.merging none rest snapshot responder)).emit
            (.send child (.mergeSnapshot part (.parent t.self (.shard index))))

def mergeSnapshot (t : Turn β) (snapshot : DirV1) (responder : Responder) : Turn β :=
  match t.actor.state.header.shardLevel with
  | none =>
    ((t.mergeLocal snapshot).mergeHeader snapshot.header).markAsDirty.emit (.merged responder (.ok ()))
  | some level =>
    if maxShardLevel < level ∧ ¬ (snapshot.dirs.isEmpty && snapshot.files.isEmpty) then
      t.emit (.merged responder (.error s!"shard_level {level} exceeds maximum {maxShardLevel}"))
    else t.mergeNext env level snapshot responder ((List.range 256).map UInt8.ofNat)

/-! ### Snapshots -/

def exportSnapshotHash (t : Turn β) : Turn β × Except String Hash :=
  match encodeStateBytes env t.actor.context t.actor.state t.world with
  | (world, .error e) => ({ t with world }, .error e)
  | (world, .ok bytes) =>
    match world.importBytes env bytes with
    | (world, .error e) => ({ t with world }, .error e)
    | (world, .ok h) => ({ t with world }, .ok h)

def createSnapshot (t : Turn β) (request : Nat) : Turn β :=
  match t.actor.context.link with
  | .localFile =>
    match t.exportSnapshotHash env with
    | (t, .error e) => t.emit (.answer request (.snapshotCreated (.error e)))
    | (t, .ok h) =>
      let now := env.utcNow t.world.tick
      let t := { t with world := t.world.next, actor.currentHash := some h }
      match t.localRoot.snapshots.insertSnapshot (env.rfc3339 now) now h with
      | none => t.enter .looping
      | some (snapshots, name) =>
        { t with
          localRoot.snapshots := snapshots
          localRoot.pins := t.localRoot.pins.map (Pins.pinHash · h (.localFsSnapshot h)) }.emit
            (.answer request (.snapshotCreated (.ok (name, h))))
  | _ =>
    t.emit (.answer request
      (.snapshotCreated (.error "create_snapshot is only supported on local FS5 roots")))

/-- Deleting an unknown name is no error. -/
def deleteSnapshot (t : Turn β) (name : String) (request : Nat) : Turn β :=
  match t.actor.context.link with
  | .localFile =>
    match t.localRoot.snapshots.removeSnapshot name with
    | (_, none) => t.emit (.answer request (.snapshotDeleted (.ok ())))
    | (snapshots, some h) =>
      { t with
        localRoot.snapshots := snapshots
        localRoot.pins :=
          t.localRoot.pins.map fun pins => (Pins.unpinHash pins h (.localFsSnapshot h)).1 }.emit
            (.answer request (.snapshotDeleted (.ok ())))
  | _ =>
    t.emit (.answer request
      (.snapshotDeleted (.error "delete_snapshot is only supported on local FS5 roots")))

/-! ### Messages -/

/-- The autosave timer: a directory that cannot be split is not saved. -/
def autosaveTick (t : Turn β) : Turn β :=
  if t.actor.dirty then
    match t.shardIfNeeded env with
    | (t, .error _) => t
    | (t, .ok ()) =>
      match t.save env true with
      | (t, .error _) => t
      | (t, .ok _) => { t with actor.dirty := false }
  else t

def pathOp (t : Turn β) (path : String) (op : ActorMessageOp) : Turn β :=
  match t.routeToChild env path with
  | (t, .error _) => t
  | (t, .ok (some (child, rest, _))) => t.emit (.send child (.pathOp rest op))
  | (t, .ok none) =>
    match op with
    | .fileOp task request =>
      let found := t.actor.state.files[path]?
      let value := task.execute (env.utcNow t.world.tick) found
      let files := match value with
        | some file => t.actor.state.files.insert path file
        | none => t.actor.state.files.erase path
      { t with
        world := t.world.next
        actor.state.files := files
        actor.phase := .executed path value.isSome }.emit (.answer request (.file found))
    | .createDir enableEncryption request =>
      match t.createDirAt env path enableEncryption with
      | (t, result) => t.emit (.answer request (.created result))

/-- The rest of a `FileOp`, after its task has been acknowledged. -/
def finishFileOp (t : Turn β) (path : String) (stored : Bool) : Turn β :=
  let t := t.enter .idle
  if stored then
    match t.checkAutoPromote env path with
    | (t, .error _) => t
    | (t, .ok ()) => t.markAsDirty
  else t.markAsDirty

/-- Answers with the handle of the directory, or passes the request on to it. -/
def enterSubdir (t : Turn β) (base : List String) (child : ActorId) (rest : String)
    (waiting : List ActorId) (request : Nat) : Turn β :=
  if rest = "" then t.emit (.subdir waiting request (.ok (base, child)))
  else (t.enter .openingSubdir).emit (.send child (.openSubdir base rest (t.self :: waiting) request))

def openSubdir (t : Turn β) (base : List String) (path : String) (waiting : List ActorId)
    (request : Nat) : Turn β :=
  match t.routeToChild env path with
  | (t, .error e) => t.emit (.subdir waiting request (.error e))
  | (t, .ok (some (child, rest, entered))) => t.enterSubdir (base ++ entered) child rest waiting request
  | (t, .ok none) =>
    let (first, rest) := splitPath path
    let created :=
      if first ∈ t.actor.state.dirs then (t, .ok ())
      else t.createDirAt env first t.actor.context.encryptionType.isSome
    match created with
    | (t, .error e) => t.emit (.subdir waiting request (.error e))
    | (t, .ok ()) =>
      match t.openDir first none with
      | (t, .error e) => t.emit (.subdir waiting request (.error e))
      | (t, .ok child) => t.enterSubdir (base ++ [first]) child rest waiting request

/-- `process_msg`. -/
def processMsg (t : Turn β) : ActorMessage → Turn β
  | .pathOp path op => t.pathOp env path op
  | .openSubdir base path waiting request => t.openSubdir env base path waiting request
  | .updateDirRefHash path hash =>
    match updateHash t.actor path hash with
    | some actor => { t with actor }.markAsDirty
    | none => t
  | .saveIfDirty responder => t.saveIfDirty env responder
  | .exportSnapshotHash request =>
    match t.exportSnapshotHash env with
    | (t, result) => t.emit (.answer request (.snapshotHash result))
  | .createSnapshot request => t.createSnapshot env request
  | .deleteSnapshot name request => t.deleteSnapshot name request
  | .exportSnapshot request => t.emit (.answer request (.snapshot t.actor.state))
  | .mergeSnapshot snapshot responder => t.mergeSnapshot env snapshot responder
  | .autosaveTick => t.autosaveTick env
  | .markAsDirty => t.markAsDirty

/-! ### The run loop -/

/-- The answers that those who wait for a message get if it is never handled. -/
def dropped : ActorMessage → List Output
  | .openSubdir _ _ waiting request => [.subdir waiting request (.error "channel closed")]
  | .saveIfDirty responder => [.saved responder (.error "channel closed")]
  | .mergeSnapshot _ responder => [.merged responder (.error "channel closed")]
  | _ => []

/-- What `load` takes for the hash of the stored snapshot. -/
def storedHash (t : Turn β) : Option Hash :=
  match t.actor.context.link with
  | .localFile => t.world.rootFile.map env.blake3
  | _ => t.actor.currentHash

/-- Starts the actor on its initial state, which it saves, or on the stored one. -/
def start (t : Turn β) : Option DirV1 → Turn β
  | some initialState => (save env { t with actor.state := initialState, actor.phase := .idle } true).1
  | none =>
    match load env t.actor.context t.world with
    | .ok (state, len) =>
      { t with
        actor.state := state
        actor.lastSerializedLen := len
        actor.currentHash := t.storedHash env
        actor.phase := .idle }
    | .error _ =>
      { t with
        actor.mailbox := []
        actor.phase := .stopped
        out := t.out ++ t.actor.mailbox.flatMap dropped }

/-- The next turn of an actor, which has nothing to do if what it awaits is not there. -/
def run (t : Turn β) : Turn β :=
  match t.actor.phase with
  | .starting initialState => t.start env initialState
  | .idle =>
    match t.actor.mailbox with
    | [] => t
    | msg :: rest => processMsg env { t with actor.mailbox := rest } msg
  | .executed path stored => t.finishFileOp env path stored
  | .openingSubdir => t
  | .saving replies responder =>
    if replies.all (·.2.isSome) then t.finishSave env replies responder else t
  | .merging reply rest snapshot responder =>
    match reply with
    | none => t
    | some (.error e) => (t.enter .idle).emit (.merged responder (.error e))
    | some (.ok ()) =>
      match t.actor.state.header.shardLevel with
      | some level => t.mergeNext env level snapshot responder rest
      | none => t
  | .looping => t
  | .stopped => t

/-- The end of the run loop when nobody can send any more. -/
def close (t : Turn β) : Turn β :=
  let t := if t.actor.dirty then (save env (t.shardIfNeeded env).1 false).1 else t
  t.enter .stopped

end Turn

end Fs
