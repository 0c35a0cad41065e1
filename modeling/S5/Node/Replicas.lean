import S5.Node.Sync
import S5.Fs.FileOps
import S5.Fs.Session

/-!
# Nodes that keep in sync

Nodes that share the keys of one file system (`run_file_sync` of `s5_node/src/sync.rs`). On every tick
a node opens the encrypted file system, pushes its plaintext file system into it and pulls from it;
clients use the plaintext file systems all the time. The nodes take turns in any order.

Between two steps of a node the others may do anything, so a push is cut where its node waits for an
answer: after the merge, and within the save of the encrypted root between `get` and `set` of the
registry entry (`DirActor::save`). `turn` is a tick in which nobody comes between.
-/

open Std

namespace Node

open Fs Actor

variable {β : Type} [DecidableEq β] (env : Env β)

/-- One tick of `run_file_sync`. Errors are logged; an encrypted root that cannot be loaded answers
none of the calls. -/
def syncTick (keys : SyncKeys) (cloud : World β) (plaintext : FS5 β) : World β × FS5 β :=
  match FS5.openRoot env keys.context cloud with
  | .error _ => (cloud, plaintext)
  | .ok encrypted =>
    match pushSnapshot env plaintext encrypted with
    | (encrypted, _) =>
      match pullSnapshot env encrypted plaintext with
      | (plaintext, _) => (encrypted.world, plaintext)

/-! ## A save in two halves -/

/-- The save of a registry root without open children, up to the entry that it is going to set. -/
def prepareSave (publicKey : Bytes32) (w : World β) (a : Actor) :
    World β × Actor × Except String (Option RegistryEntry) :=
  match shardIfNeeded env w a with
  | (w, a, .error e) => (w, a, .error e)
  | (w, a, .ok ()) =>
    if a.dirty then
      match encodeStateBytes env a.context a.state w with
      | (w, .error e) => (w, a, .error e)
      | (w, .ok b) =>
        match w.importBytes env b with
        | (w, .error e) => (w, a, .error e)
        | (w, .ok hash) =>
          let revision := match w.registry[publicKey]? with
            | some entry => entry.revision + 1
            | none => 0
          (w, a, .ok (some ⟨revision, hash⟩))
    else (w, a, .ok none)

/-- The rest of the save. -/
def publishSave (publicKey : Bytes32) (w : World β) (a : Actor) (entry : RegistryEntry) :
    World β × Actor :=
  (w.setRegistry publicKey entry, { a with dirty := false })

/-! ## Nodes and their steps -/

structure SyncNode (β : Type) where
  plaintext : FS5 β
  /-- The encrypted root as the node has it open. -/
  encrypted : Option Actor
  /-- The entry that a save of the encrypted root is about to set. -/
  pending : Option RegistryEntry

structure SyncState (ι β : Type) where
  /-- The blobs and registry entries of the untrusted peer. -/
  cloud : World β
  nodes : ι → SyncNode β
  /-- Every entry that a client has made, under its name. No node looks at it. -/
  written : List (String × FileRef)

inductive SyncAct (ι : Type) where
  /-- A client asks a node for a `FileOp` in the root. -/
  | request (i : ι) (name : Name) (task : FileTask)
  /-- The plaintext file system is saved. -/
  | save (i : ι)
  /-- The first step of a tick: the encrypted file system is opened. -/
  | openEncrypted (i : ι)
  /-- The merge of a push. -/
  | push (i : ι)
  /-- The save of a push, up to the registry. -/
  | prepare (i : ι)
  | publish (i : ι)
  /-- The merge of a pull. -/
  | pull (i : ι)

/-- A tick in which nobody comes between. -/
def turn {ι : Type} (i : ι) : List (SyncAct ι) :=
  [.openEncrypted i, .push i, .prepare i, .publish i, .pull i, .save i]

/-- The entry of a name in the root. -/
def SyncNode.entry (node : SyncNode β) (name : Name) : Option FileRef :=
  node.plaintext.root.state.files[name.1]?

/-- The entry that a task makes of it. -/
def SyncNode.entryAfter (node : SyncNode β) (name : Name) (task : FileTask) : Option FileRef :=
  task.execute (env.utcNow node.plaintext.world.tick) (node.entry name)

namespace SyncState

variable {ι : Type} [DecidableEq ι]

def setNode (s : SyncState ι β) (i : ι) (node : SyncNode β) : SyncState ι β :=
  { s with nodes := Function.update s.nodes i node }

/-- One step of a node. An encrypted root is asked nothing before it has been opened. -/
def step (order : GroupOrder) (keys : SyncKeys) (s : SyncState ι β) : SyncAct ι → SyncState ι β
  | .request i name task =>
    let node := s.nodes i
    let after := node.entryAfter env name task
    { s.setNode i
        { node with plaintext := node.plaintext.request env order (.file name.1 task) } with
      written :=
        if after = node.entry name then s.written
        else s.written ++ (after.map (name.1, ·)).toList }
  | .save i =>
    let node := s.nodes i
    s.setNode i { node with plaintext := (node.plaintext.save env).1 }
  | .openEncrypted i =>
    match FS5.openRoot env keys.context s.cloud with
    | .error _ => s.setNode i { s.nodes i with encrypted := none }
    | .ok encrypted => s.setNode i { s.nodes i with encrypted := some encrypted.root }
  | .push i =>
    let node := s.nodes i
    match node.encrypted with
    | none => s
    | some root =>
      let encrypted := (FS5.mergeFromSnapshot env ⟨s.cloud, root, []⟩ node.plaintext.exportSnapshot).1
      s.setNode i { node with encrypted := some encrypted.root }
  | .prepare i =>
    let node := s.nodes i
    match node.encrypted with
    | none => s
    | some root =>
      match prepareSave env keys.publicKey s.cloud root with
      | (cloud, root, .ok (some entry)) =>
        { s.setNode i { node with encrypted := some root, pending := some entry } with cloud }
      | (cloud, root, _) => { s.setNode i { node with encrypted := some root, pending := none } with cloud }
  | .publish i =>
    let node := s.nodes i
    match node.encrypted, node.pending with
    | some root, some entry =>
      match publishSave keys.publicKey s.cloud root entry with
      | (cloud, root) =>
        { s.setNode i { node with encrypted := some root, pending := none } with cloud }
    | _, _ => s
  | .pull i =>
    let node := s.nodes i
    match node.encrypted with
    | none => s
    | some root =>
      let plaintext := (node.plaintext.mergeFromSnapshot env root.state).1
      s.setNode i { node with plaintext }

/-- A whole tick of a node. -/
def tick (keys : SyncKeys) (s : SyncState ι β) (i : ι) : SyncState ι β :=
  match syncTick env keys s.cloud (s.nodes i).plaintext with
  | (cloud, plaintext) => { s.setNode i { s.nodes i with plaintext } with cloud }

/-! ## Runs -/

/-- Nodes with empty file systems that have not met yet. -/
structure IsFresh (keys : SyncKeys) (s : SyncState ι β) : Prop where
  cloud : s.cloud.registry[keys.publicKey]? = none
  plaintext : ∀ i, ∃ now,
    FS5.openRoot env .localRoot (FS5.newLocalWorld env now) = .ok (s.nodes i).plaintext
  encrypted : ∀ i, (s.nodes i).encrypted = none
  pending : ∀ i, (s.nodes i).pending = none
  written : s.written = []

/-- What a client makes is of the kind `W`, and newer than what its node had under the name. -/
def Admitted (W : String → FileRef → Prop) (s : SyncState ι β) : SyncAct ι → Prop
  | .request i name task =>
    let node := s.nodes i
    let after := node.entryAfter env name task
    after = node.entry name ∨
      ∀ f ∈ after, W name.1 f ∧ ∀ g ∈ node.entry name, fileTs g < fileTs f
  | _ => True

/-- The latest of the entries that clients have made under a name. -/
def IsLatest (s : SyncState ι β) (name : String) (f : FileRef) : Prop :=
  (name, f) ∈ s.written ∧ ∀ g, (name, g) ∈ s.written → fileTs g ≤ fileTs f

end SyncState

end Node
