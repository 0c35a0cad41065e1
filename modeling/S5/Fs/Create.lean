import S5.Fs.Actor
import S5.Fs.System

/-!
# New directories and promotion

How a directory actor makes new directories (`create_dir_at` and `OpenSubdir` of
`s5_fs/src/actor.rs`) and promotes prefixes (`check_auto_promote` and `promote_prefix` of
`actor/sharding.rs`), with the way of a `PathOp` or `OpenSubdir` through the actors before it, when no
other message is on its way.

The actor of a new directory saves itself in its first turn (`Turn.start`), and its parent takes over
the hash then. That changes no entry of a directory and is left out here.
-/

open Std

namespace Fs

namespace Actor

variable {β : Type}

/-- A freshly spawned actor of a new directory. -/
def ofNew (context : DirContext Unit) (initialState : DirV1) : Actor :=
  ⟨context, initialState, false, [], [], 0, 0⟩

/-- `open_dir` with an initial state, which an actor that is there already does not get. -/
def openNewDir (regs : RegistryDirHandles) (a : Actor) (name : String) (initialState : DirV1) :
    Except String Actor :=
  match a.dirHandles.lookup name with
  | some _ => .ok a
  | none =>
    match a.state.dirs[name]? with
    | none => .error "dir not found"
    | some dirRef =>
      let link := dirLink a.context () name dirRef
      match dirRef.refTypeD, regs.lookup dirRef.hash with
      | .registryKey, some _ => .ok a
      | _, _ =>
        let child := ofNew (a.context.withNewRef dirRef link) initialState
        .ok { a with dirHandles := (name, child) :: a.dirHandles }

/-- Keeps the actor of a child directory under its name. -/
def keepDir (a : Actor) (name : String) (child : Actor) : Actor :=
  { a with dirHandles := (name, child) :: a.dirHandles.filter (·.1 ≠ name) }

/-- `MarkAsDirty` from a child that was clean; registry-backed children send none. -/
def hear (a child child' : Actor) : Actor :=
  if child'.dirty && !child.dirty && !isRoot child.context then a.markAsDirty else a

section
variable (env : Env β)

/-- `create_dir_at`: the entries below `path/` go to a new child directory. -/
def createDirAt (regs : RegistryDirHandles) (enableEncryption : Bool) (w : World β) (a : Actor)
    (path : String) : World β × Actor × Except String Unit :=
  if path ∈ a.state.dirs then (w, a, .ok ())
  else
    let (state, newDirState) := extractChildDirState a.state path
    match buildChildDirRef env a.context enableEncryption w with
    | (w, dirRef) =>
      let a := { a with state := { state with dirs := state.dirs.insert path dirRef } }
      match openNewDir regs a path newDirState with
      | .error e => (w, a, .error e)
      | .ok a => (w, a.markAsDirty, .ok ())

/-- A `PathOp` on its way: the directory that no child takes it from acts on it. The outer `none`
stands for a way that `fuel` hops do not finish. -/
def pathOp (act : World β → Actor → String → World β × Actor × Except String Unit)
    (regs : RegistryDirHandles) :
    Nat → World β → Actor → String → Option (World β × Actor × Except String Unit)
  | 0, _, _, _ => none
  | fuel + 1, w, a, path =>
    match route env a.state path with
    | .error e => some (w, a, .error e)
    | .ok .here => some (act w a path)
    | .ok (.shard index) =>
      match openDirShard env w a index with
      | .error e => some (w, a, .error e)
      | .ok child =>
        (pathOp act regs fuel w child path).map fun (w, child', r) =>
          (w, (a.keepShard index child').hear child child', r)
    | .ok (.dir name rest) =>
      match openDir env w regs a name with
      | .error e => some (w, a, .error e)
      | .ok child =>
        (pathOp act regs fuel w child rest).map fun (w, child', r) =>
          (w, (a.keepDir name child').hear child child', r)

/-- `CreateDir`. -/
def createDir (regs : RegistryDirHandles) (enableEncryption : Bool) :
    Nat → World β → Actor → String → Option (World β × Actor × Except String Unit) :=
  pathOp env (createDirAt env regs enableEncryption) regs

/-- `OpenSubdir`: directories that are not there are made, one for each segment. -/
def openSubdir (regs : RegistryDirHandles) :
    Nat → World β → Actor → String → Option (World β × Actor × Except String Unit)
  | 0, _, _, _ => none
  | fuel + 1, w, a, path =>
    match route env a.state path with
    | .error e => some (w, a, .error e)
    | .ok (.shard index) =>
      match openDirShard env w a index with
      | .error e => some (w, a, .error e)
      | .ok child =>
        if path = "" then some (w, a.keepShard index child, .ok ())
        else
          (openSubdir regs fuel w child path).map fun (w, child', r) =>
            (w, (a.keepShard index child').hear child child', r)
    | .ok (.dir name rest) =>
      match openDir env w regs a name with
      | .error e => some (w, a, .error e)
      | .ok child =>
        if rest = "" then some (w, a.keepDir name child, .ok ())
        else
          (openSubdir regs fuel w child rest).map fun (w, child', r) =>
            (w, (a.keepDir name child').hear child child', r)
    | .ok .here =>
      let (first, rest) := splitPath path
      let created :=
        if first ∈ a.state.dirs then (w, a, .ok ())
        else createDirAt env regs a.context.encryptionType.isSome w a first
      match created with
      | (w, a, .error e) => some (w, a, .error e)
      | (w, a, .ok ()) =>
        match openDir env w regs a first with
        | .error e => some (w, a, .error e)
        | .ok child =>
          if rest = "" then some (w, a.keepDir first child, .ok ())
          else
            (openSubdir regs fuel w child rest).map fun (w, child', r) =>
              (w, (a.keepDir first child').hear child child', r)

/-- `FS5::subdir`. -/
def subdir (regs : RegistryDirHandles) (fuel : Nat) (w : World β) (a : Actor) (path : String) :
    Option (World β × Actor × Except String Unit) :=
  if System.trimSlashes path = "" then some (w, a, .ok ())
  else openSubdir env regs fuel w a (System.trimSlashes path)

variable [DecidableEq β]

/-- The new directory is opened on the state that `optimize_dir_structure` makes of the entries below
`dir/`, visiting its groups in some order. -/
def promotePrefix (order : GroupOrder) (regs : RegistryDirHandles) (w : World β) (a : Actor)
    (dir : String) : World β × Actor × Except String Unit :=
  if dir ∈ a.state.dirs then (w, a, .ok ())
  else
    let (state, newDirState) := extractChildDirState a.state dir
    match buildChildDirRef env a.context a.context.encryptionType.isSome w with
    | (w, dirRef) =>
      let a := { a with state := { state with dirs := state.dirs.insert dir dirRef } }
      match optimizeDirStructureIn env order a.context newDirState w with
      | (w, .error e) => (w, a, .error e)
      | (w, .ok optimized) =>
        match openNewDir regs a dir optimized with
        | .error e => (w, a, .error e)
        | .ok a => (w, a, .ok ())

def checkAutoPromote (order : GroupOrder) (regs : RegistryDirHandles) (w : World β) (a : Actor)
    (path : String) : World β × Actor × Except String Unit :=
  match splitOnce path with
  | none => (w, a, .ok ())
  | some (dir, _) =>
    if promotionThreshold < countBelow a.state dir then promotePrefix env order regs w a dir
    else (w, a, .ok ())

/-- The task of a `FileOp` is executed and acknowledged; what comes after may still fail. -/
def fileOpAt (order : GroupOrder) (regs : RegistryDirHandles) (task : FileTask) (w : World β)
    (a : Actor) (path : String) : World β × Actor × Except String Unit :=
  match task.execute (env.utcNow w.tick) a.state.files[path]? with
  | some file =>
    match checkAutoPromote env order regs w.next
      { a with state.files := a.state.files.insert path file } path with
    | (w, a, .error e) => (w, a, .error e)
    | (w, a, .ok ()) => (w, a.markAsDirty, .ok ())
  | none => (w.next, { a with state.files := a.state.files.erase path }.markAsDirty, .ok ())

/-- `file_get` on one path after another. -/
def readFiles (order : GroupOrder) (regs : RegistryDirHandles) (fuel : Nat) :
    World β → Actor → List String → Option (World β × Actor)
  | w, a, [] => some (w, a)
  | w, a, path :: rest =>
    (pathOp env (fileOpAt env order regs .get) regs fuel w a path).bind fun (w, a, _) =>
      readFiles order regs fuel w a rest

/-! ## What makes directories -/

inductive Creation where
  | createDir (path : String) (enableEncryption : Bool)
  | subdir (path : String)
  /-- What a `FileOp` on a path does after its task. -/
  | promote (path : String)

/-- The path a request is sent with. -/
def Creation.path : Creation → String
  | createDir path _ => path
  | subdir path => System.trimSlashes path
  | promote path => path

def create (order : GroupOrder) (regs : RegistryDirHandles) (fuel : Nat) (w : World β) (a : Actor) :
    Creation → Option (World β × Actor × Except String Unit)
  | .createDir path enableEncryption => createDir env regs enableEncryption fuel w a path
  | .subdir path => subdir env regs fuel w a path
  | .promote path => pathOp env (checkAutoPromote env order regs) regs fuel w a path

end

end Actor

end Fs
