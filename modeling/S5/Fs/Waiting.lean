import S5.Fs.Session

/-!
# A client that waits

Runs of a file system whose client makes its next request when all directory actors are at rest. In
between the actors take their turns in any order, and the process may be killed at any moment at which
no save is going on. `Actor.stepFs` is the same client where the order of the turns does not show.
-/

open Std

namespace Fs

/-- The actor waits for a message, or is going to after it has read its directory. -/
def Phase.isWaiting : Phase → Bool
  | .starting none => true
  | .idle => true
  | _ => false

/-- The actor has nothing to do but to read its directory. -/
def DirActor.atRest (a : DirActor) : Bool := a.phase.isWaiting && a.mailbox.isEmpty

/-- The actor has been asked to save itself. -/
def DirActor.isSaving (a : DirActor) : Bool :=
  (match a.phase with
    | .saving _ _ => true
    | _ => false) ||
  a.mailbox.any fun msg => match msg with
    | .saveIfDirty _ => true
    | _ => false

namespace System

variable {β : Type}

def atRest (s : System β) : Bool := s.actors.all (·.atRest)

/-- A save of the file system is going on. -/
def isSaving (s : System β) : Bool := s.actors[rootId]?.any (·.isSaving)

/-- A request at the root, the end of the process, or a turn of some actor. -/
inductive Waiting where
  | ask (op : Actor.FsOp)
  | run (i : ActorId)

def Waiting.event : Waiting → Event
  | .ask (.file path task) => .request ([], rootId) (.fileOp path task)
  | .ask (.createDir path enableEncryption) => .request ([], rootId) (.createDir path enableEncryption)
  | .ask .save => .request ([], rootId) .save
  | .ask .reopen => .reopen
  | .run i => .run i

variable [DecidableEq β] (env : Env β)

/-- An event, with what the client expects. -/
def stepWaiting (x : System β × Durable FileMap) (e : Waiting) : System β × Durable FileMap :=
  (x.1.step env e.event, match e with
    | .ask op => specFs (env.utcNow x.1.world.tick) x.2 op
    | .run _ => x.2)

/-- The directory is not split when it is saved. -/
def small (a : DirActor) : Bool :=
  (a.lastSerializedLen < maxDirBytesBeforeShard &&
      a.shardSizeCheckOps.toNat < shardSizeCheckOpInterval) ||
    env.len (env.toBytes a.state) < maxDirBytesBeforeShard

/-- What is asked of a turn: a save does not split the directory, and a new directory is made in one
that is there. -/
def orderly (a : DirActor) : Bool :=
  match a.mailbox with
  | .saveIfDirty _ :: _ => small env a
  | .pathOp path (.createDir _ _) :: _ =>
    a.phase.isStarting || (splitPath path).1 ∈ a.state.dirs || path ≠ "" && '/' ∉ path.toList
  | _ => true

/-- Requests are made when the actors are at rest, and the process does not end during a save. -/
def ready (s : System β) : Waiting → Bool
  | .ask .reopen => !s.isSaving
  | .ask _ => s.atRest
  | .run i => s.actors[i]?.all (orderly env)

end System

end Fs
