import S5.Fs.Turn

/-!
# A file system as a system of actors

All directory actors of a file system with their mailboxes, and the clients. A `System` moves by
events: a client sends a request through a handle it holds or drops it, an actor takes its next turn,
an actor that nobody holds a handle of ends, or the whole process ends and the file system is opened
again. Every order of events is a run.

`Reaches` is what a lookup sees in a system if nothing else happens meanwhile.
-/

open Std

namespace Fs

structure System (β : Type) where
  world : World β
  localRoot : LocalRoot
  /-- An actor's handle is its place in this list. -/
  actors : List DirActor
  registryDirHandles : ExtTreeMap Bytes32 ActorId
  /-- The handles clients hold, each with the directories it was opened along. -/
  clientHandles : List (List String × ActorId)
  answers : List (Nat × Answer)
  /-- How many requests have been made. -/
  requests : Nat

/-- The root's actor. -/
abbrev rootId : ActorId := 0

namespace System

variable {β : Type}

/-- A file system that has just been opened under a context. -/
def opened (context : DirContext ActorId) (w : World β) (r : LocalRoot) : System β where
  world := w
  localRoot := r
  actors := [.new context none]
  registryDirHandles := ∅
  clientHandles := [([], rootId)]
  answers := []
  requests := 0

/-! ## Mailboxes -/

def isStopped (a : DirActor) : Bool :=
  match a.phase with
  | .stopped => true
  | _ => false

/-- Whether sending to an actor fails. -/
def closed (s : System β) (i : ActorId) : Bool := s.actors[i]?.all isStopped

/-- Whether anybody holds a handle of the actor. -/
def held (s : System β) (i : ActorId) : Bool :=
  s.clientHandles.any (·.2 = i) || s.registryDirHandles.any (fun _ j => j = i) ||
    s.actors.any fun a => !isStopped a &&
      (a.dirHandles.any (fun _ j => j = i) || a.dirShardHandles.any fun _ j => j = i)

def modify (s : System β) (i : ActorId) (f : DirActor → DirActor) : System β :=
  { s with actors := s.actors.modify i f }

def enqueue (s : System β) (i : ActorId) (msg : ActorMessage) : System β :=
  s.modify i fun a => { a with mailbox := a.mailbox ++ [msg] }

def answer (s : System β) (request : Nat) (answer : Answer) : System β :=
  { s with answers := (request, answer) :: s.answers }

/-- A child's answer arrives at an actor that saves. -/
def storeReply (path : DirHandlePath) (result : Except String (Option Hash)) (a : DirActor) :
    DirActor :=
  match a.phase with
  | .saving replies responder =>
    let replies := replies.map fun (p, r) => (p, if p = path then some result else r)
    { a with phase := .saving replies responder }
  | _ => a

/-- A shard's answer arrives at an actor that merges. -/
def storeMerged (result : Except String Unit) (a : DirActor) : DirActor :=
  match a.phase with
  | .merging _ rest snapshot responder =>
    { a with phase := .merging (some result) rest snapshot responder }
  | _ => a

/-- An actor that only hands on the answer to an `OpenSubdir` goes on. -/
def resume (a : DirActor) : DirActor :=
  match a.phase with
  | .openingSubdir => { a with phase := .idle }
  | _ => a

/-- An answer reaches whoever waits for it. -/
def reply (s : System β) : Output → System β
  | .answer request a => s.answer request a
  | .subdir waiting request result =>
    let s := waiting.foldl (fun s i => s.modify i resume) s
    let s := s.answer request (.subdir result)
    match result with
    | .ok handle => { s with clientHandles := handle :: s.clientHandles }
    | .error _ => s
  | .saved (.client request) result => s.answer request (.saved result)
  | .saved (.parent i path) result => s.modify i (storeReply path result)
  | .merged (.client request) result => s.answer request (.merged result)
  | .merged (.parent i _) result => s.modify i (storeMerged result)
  | _ => s

def emit (s : System β) : Output → System β
  | .send i msg => if s.closed i then (Turn.dropped msg).foldl reply s else s.enqueue i msg
  | .notifyParent i msg => if s.held i && !s.closed i then s.enqueue i msg else s
  | o => s.reply o

/-! ## Steps -/

/-- What a client asks for through a handle. -/
inductive Request where
  | fileOp (path : String) (task : FileTask)
  | createDir (path : String) (enableEncryption : Bool)
  | subdir (path : String)
  | save
  | snapshotHash
  /-- The second half of `create_snapshot`, which saves first. -/
  | createSnapshot
  | deleteSnapshot (name : String)
  | exportSnapshot
  | mergeFromSnapshot (snapshot : DirV1)

def trimSlashes (path : String) : String :=
  let trim (cs : List Char) := cs.dropWhile (· = '/')
  String.ofList (trim (trim path.toList).reverse).reverse

def submit (s : System β) (handle : List String × ActorId) (request : Request) : System β :=
  let k := s.requests
  let s := { s with requests := k + 1 }
  match request with
  | .fileOp path task => s.emit (.send handle.2 (.pathOp path (.fileOp task k)))
  | .createDir path enableEncryption =>
    s.emit (.send handle.2 (.pathOp path (.createDir enableEncryption k)))
  | .subdir path =>
    if trimSlashes path = "" then s.emit (.subdir [] k (.ok handle))
    else s.emit (.send handle.2 (.openSubdir handle.1 (trimSlashes path) [] k))
  | .save => s.emit (.send handle.2 (.saveIfDirty (.client k)))
  | .snapshotHash => s.emit (.send handle.2 (.exportSnapshotHash k))
  | .createSnapshot => s.emit (.send handle.2 (.createSnapshot k))
  | .deleteSnapshot name => s.emit (.send handle.2 (.deleteSnapshot name k))
  | .exportSnapshot => s.emit (.send handle.2 (.exportSnapshot k))
  | .mergeFromSnapshot snapshot => s.emit (.send handle.2 (.mergeSnapshot snapshot (.client k)))

/-- The turn of an actor, before it does anything. -/
def turn (s : System β) (i : ActorId) (a : DirActor) : Turn β where
  self := i
  fresh := s.actors.length
  actor := a
  world := s.world
  localRoot := s.localRoot
  registryDirHandles := s.registryDirHandles
  spawned := []
  out := []

/-- What a turn leaves, before its outputs have gone out. -/
def settle (s : System β) (t : Turn β) : System β :=
  { s with
    world := t.world
    localRoot := t.localRoot
    registryDirHandles := t.registryDirHandles
    actors := s.actors.set t.self t.actor ++ t.spawned }

def commit (s : System β) (t : Turn β) : System β := t.out.foldl emit (s.settle t)

inductive Event where
  | request (handle : List String × ActorId) (request : Request)
  /-- A client drops its handles. -/
  | release (handle : List String × ActorId)
  | run (i : ActorId)
  /-- The autosave timer of an actor goes off. -/
  | autosave (i : ActorId)
  | halt (i : ActorId)
  /-- The process ends, wherever its actors are, and the root is opened again. -/
  | reopen

variable [DecidableEq β] (env : Env β)

/-- An event that cannot happen changes nothing. -/
def step (s : System β) : Event → System β
  | .request handle request => if handle ∈ s.clientHandles then s.submit handle request else s
  | .release handle => { s with clientHandles := s.clientHandles.filter (· ≠ handle) }
  | .run i =>
    match s.actors[i]? with
    | some a => s.commit ((s.turn i a).run env)
    | none => s
  | .autosave i => s.emit (.notifyParent i .autosaveTick)
  | .halt i =>
    match s.actors[i]? with
    | some a =>
      match a.phase, a.mailbox, s.held i with
      | .idle, [], false => s.commit ((s.turn i a).close env)
      | _, _, _ => s
    | none => s
  | .reopen =>
    match s.actors[rootId]? with
    | some a =>
      { opened a.context s.world s.localRoot with answers := s.answers, requests := s.requests }
    | none => s

/-! ## Lookups -/

omit [DecidableEq β]

/-- What a lookup sees of a directory, open or not. -/
structure View where
  context : DirContext ActorId
  state : DirV1
  dirHandles : ExtTreeMap String ActorId
  dirShardHandles : ExtTreeMap UInt8 ActorId

/-- The view of a directory that no actor has open. -/
def storedView (s : System β) (context : DirContext ActorId) : Except String View := do
  let (state, _) ← load env context s.world
  return ⟨context, state, ∅, ∅⟩

/-- The view of an actor's directory, as it will be when the actor has started. -/
def view (s : System β) (i : ActorId) : Except String View :=
  match s.actors[i]? with
  | none => .error "no such actor"
  | some a =>
    match a.phase with
    | .starting none => s.storedView env a.context
    | .starting (some state) => .ok ⟨a.context, state, ∅, ∅⟩
    | .stopped => .error "Actor task has been closed."
    | _ => .ok ⟨a.context, a.state, a.dirHandles, a.dirShardHandles⟩

def dirView (s : System β) (v : View) (name : String) : Except String View :=
  match v.dirHandles[name]? with
  | some child => s.view env child
  | none =>
    match v.state.dirs[name]? with
    | none => .error "dir not found"
    | some dirRef =>
      let context := v.context.withNewRef dirRef (dirLink v.context rootId name dirRef)
      match dirRef.refTypeD, s.registryDirHandles[dirRef.hash]? with
      | .registryKey, some child => s.view env child
      | _, _ => s.storedView env context

def shardView (s : System β) (v : View) (index : UInt8) : Except String View :=
  match v.dirShardHandles[index]? with
  | some child => s.view env child
  | none => do
    let (dirRef, link) ← shardLink v.state rootId index
    s.storedView env (v.context.withNewRef dirRef link)

/-- The entry that a lookup of `path` finds; the outer `none` stands for a lookup that `fuel` hops do
not finish. -/
def lookup (s : System β) : Nat → Except String View → String → Option (Option FileRef)
  | 0, _, _ => none
  | _ + 1, .error _, _ => some none
  | fuel + 1, .ok v, path =>
    match route env v.state path with
    | .error _ => some none
    | .ok .here => some v.state.files[path]?
    | .ok (.shard index) => lookup s fuel (s.shardView env v index) path
    | .ok (.dir name rest) => lookup s fuel (s.dirView env v name) rest

/-- A lookup of `path` at the root finds `r`. -/
def Reaches (s : System β) (path : String) (r : Option FileRef) : Prop :=
  ∃ fuel, s.lookup env fuel (s.view env rootId) path = some r

end System

end Fs
