import S5.Fs.Create
import S5.Fs.Segments
import S5.Fs.Api
import S5.Lib.Durable
import Mathlib.Logic.Function.Basic

/-!
# One request after the other

A client that makes its next request when the directory actors are at rest: every message that a
request sets off between them has been handled (`process_msg` of `s5_fs/src/actor.rs`, `save_if_dirty` of
`actor/persistence.rs`), and the actor of a new directory has had its first turn, in which it saves
itself, and its parent has heard of the hash. The process may be killed between two requests, and the file
system is opened again. In `System` these are turns of their own, in any order; where the client waits for
them, it finds the same files (`System.waiting_refines_session`).

`FileMap` is what such a client has in mind: a file at every path, in memory and as last saved.
-/

open Std

namespace Fs

namespace Actor

variable {β : Type} [DecidableEq β]

/-- `UpdateDirRefHash` from a child directory. -/
def hearHash (a : Actor) (name : String) (h : Hash) : Actor :=
  match a.state.dirs[name]? with
  | some dirRef =>
    if dirRef.hash = h then a
    else { a with state.dirs := a.state.dirs.insert name { dirRef with hash := h } }.markAsDirty
  | none => a

section
variable (env : Env β)

/-- The first turn of the actor of a new directory: it saves itself and tells its parent. -/
def startNew (w : World β) (a : Actor) (name : String) : World β × Actor :=
  match a.dirHandles.lookup name with
  | none => (w, a)
  | some child =>
    match save env w child with
    | (w, child, .ok (some h)) => (w, (a.keepDir name child).hearHash name h)
    | (w, child, _) => (w, a.keepDir name child)

/-- Does something that may make the directory `name`, whose actor then has its first turn. -/
def andStart (name : String) (a : Actor) :
    World β × Actor × Except String Unit → World β × Actor × Except String Unit
  | (w, a', r) =>
    if name ∉ a.state.dirs ∧ name ∈ a'.state.dirs then
      match startNew env w a' name with
      | (w, a') => (w, a', r)
    else (w, a', r)

/-- A `FileOp` where it is handled. It may promote the first segment of the path. -/
def fileOpStarted (order : GroupOrder) (task : FileTask) (w : World β) (a : Actor) (path : String) :
    World β × Actor × Except String Unit :=
  andStart env (splitPath path).1 a (fileOpAt env order [] task w a path)

/-- A `CreateDir` where it is handled. -/
def createDirStarted (enableEncryption : Bool) (w : World β) (a : Actor) (path : String) :
    World β × Actor × Except String Unit :=
  andStart env path a (createDirAt env [] enableEncryption w a path)

/-! ## Runs -/

inductive FsOp where
  | file (path : String) (task : FileTask)
  | createDir (path : String) (enableEncryption : Bool)
  | save
  /-- The process is killed, and the file system is opened again. -/
  | reopen

/-- One request at the root with all that it sets off, up to where the actors are at rest, or the end of
the process. A path is handed on at most once for each of its characters. -/
def stepFs (order : GroupOrder) (s : World β × Actor) : FsOp → World β × Actor
  | .file path task =>
    match pathOp env (fileOpStarted env order task) [] (path.length + 1) s.1 s.2 path with
    | some (w, a, _) => (w, a)
    | none => s
  | .createDir path enableEncryption =>
    match pathOp env (createDirStarted env enableEncryption) [] (path.length + 1) s.1 s.2 path with
    | some (w, a, _) => (w, a)
    | none => s
  | .save =>
    match saveIfDirty env s.2 s.1 with
    | (w, a, _) => (w, a)
  | .reopen =>
    match spawn env s.2.context s.1 with
    | .ok a => (s.1, a)
    | .error _ => s

end

end Actor

/-! ## Calls of a file system -/

namespace FS5

variable {β : Type} [DecidableEq β] (env : Env β) (order : GroupOrder)

/-- What a request makes of the file system. -/
def request (fs : FS5 β) (op : Actor.FsOp) : FS5 β :=
  match Actor.stepFs env order (fs.world, fs.root) op with
  | (world, root) => { fs with world, root }

/-- Whether some directory handles a request for `path`, which answers then. -/
def handles (fs : FS5 β) (path : String) : Bool :=
  match Actor.pathOp env (fun w a _ => (w, a, .ok ())) [] (path.length + 1) fs.world fs.root path with
  | some (_, _, .ok ()) => true
  | _ => false

/-- `file_put`: nobody waits for an answer. -/
def filePut (fs : FS5 β) (path : String) (file : FileRef) : FS5 β :=
  request env order fs (.file path (.put file))

/-- `file_put_sync`: the answer comes before what the entry sets off. -/
def filePutSync (fs : FS5 β) (path : String) (file : FileRef) : FS5 β × Except String Unit :=
  (filePut env order fs path file, if handles env fs path then .ok () else .error "channel closed")

/-- `file_get`, which is a request like any other. -/
def fileGet (fs : FS5 β) (path : String) : FS5 β × Option FileRef :=
  (request env order fs (.file path .get),
    Actor.live (Actor.lookup env fs.world [] (path.length + 1) fs.root path).join)

def createDir (fs : FS5 β) (path : String) (enableEncryption : Bool) : FS5 β × Except String Unit :=
  match Actor.pathOp env (Actor.createDirStarted env enableEncryption) [] (path.length + 1) fs.world
    fs.root path with
  | some (world, root, r) => ({ fs with world, root }, r)
  | none => (fs, .error "channel closed")

end FS5

/-! ## The plain map -/

/-- The file entry at every path, given by its segments. -/
abbrev FileMap := List String → Option FileRef

/-- A task on the entry of a path. -/
def FileMap.execute (now : UInt32 × UInt32) (m : FileMap) (op : List String × FileTask) : FileMap :=
  Function.update m op.1 (op.2.execute now (m op.1))

/-- What a client expects of a request; new directories change no file. -/
def specFs (now : UInt32 × UInt32) (m : Durable FileMap) : Actor.FsOp → Durable FileMap
  | .file path task => m.change (FileMap.execute now) (segments path, task)
  | .createDir _ _ => m
  | .save => m.save
  | .reopen => m.crash

end Fs
