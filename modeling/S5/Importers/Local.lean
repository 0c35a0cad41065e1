import S5.Blobs.Concurrent
import S5.Fs.Session
import S5.Fuse.Mount

/-!
# The local importer

`LocalFileSystemImporter` (`importers/local/src/lib.rs`): `import_path` over the entries of a walk, at most
`max_concurrent_ops` of which are processed at the same time. What processes an entry goes on where it is
scheduled, from one call to the next: a lookup in the file system, the calls that its import makes of the
blob store (`Blobs.Import`), and the put of its entry. The file system may save itself meanwhile.

The walk and its filters, and what `std::path` makes of paths, come from libraries.
-/

open Fs Blobs

namespace LocalImport

/-! ## Entries -/

/-- What `std::path` makes of paths. -/
structure PathLib (Path : Type) where
  /-- `to_str`: none for a path that is not valid UTF-8. -/
  toStr : Path → Option String
  stripPrefix : Path → Path → Option Path

/-- The fields of the file's metadata that are used. -/
structure Metadata where
  len : UInt64
  mtime : Int64
  mtimeNsec : Int64

structure DirEntry (Path : Type) where
  path : Path
  isFile : Bool
  metadata : Except String Metadata
  /-- The chunks that are read from the file. -/
  content : List Bytes

inductive ImportError where
  /-- "Failed to get metadata". -/
  | metadata (e : String)
  /-- "Path is not valid UTF-8". -/
  | notUtf8
  /-- The `TryFromIntError` of a time. -/
  | tryFromInt
  /-- "Failed to import file into blob store". -/
  | importFile (e : String)

/-- `u32::try_from`. -/
def tryU32 (n : Int64) : Except ImportError UInt32 :=
  if 0 ≤ n.toInt ∧ n.toInt < 2 ^ 32 then .ok (UInt32.ofNat n.toInt.toNat) else .error .tryFromInt

structure LocalFileSystemImporter (Path : Type) where
  lib : PathLib Path
  maxConcurrentOps : Nat
  useBaseRelativeKeys : Bool
  alwaysImport : Bool

namespace LocalFileSystemImporter

variable {Path : Type} (imp : LocalFileSystemImporter Path)

/-- The key of a file: its path below the base, or its path without leading slashes. -/
def key (basePath path : Path) : Except ImportError String :=
  if imp.useBaseRelativeKeys then
    match imp.lib.toStr ((imp.lib.stripPrefix path basePath).getD path) with
    | some relative => .ok relative
    | none => .error .notUtf8
  else
    match imp.lib.toStr path with
    | some path => .ok (Fuse.trimStart path)
    | none => .error .notUtf8

/-- Whether a file that is there has changed. The nanoseconds are only looked at if the seconds are the
same. -/
def changed (current : FileRef) (m : Metadata) : Except ImportError Bool := do
  let sizeChanged := m.len ≠ current.size
  let seconds ← tryU32 m.mtime
  if current.timestamp ≠ some seconds then return true
  let nanos ← tryU32 m.mtimeNsec
  return sizeChanged || current.timestampSubsecNanos ≠ some nanos

/-- `should_update`, from what `file_get` finds. -/
def shouldUpdate (current : Option FileRef) (m : Metadata) : Except ImportError Bool :=
  match current with
  | some current => changed current m
  | none => .ok true

/-- The entry of an imported file. -/
def fileRef (blob : BlobId) (m : Metadata) : Except ImportError FileRef := do
  let seconds ← tryU32 m.mtime
  let nanos ← tryU32 m.mtimeNsec
  return { FileRef.new blob.hash (UInt64.ofNat blob.size) with
    timestamp := some seconds
    timestampSubsecNanos := some nanos }

end LocalFileSystemImporter

/-! ## Runs -/

/-- How far an entry has been processed. -/
inductive Phase where
  | started
  /-- Its file is imported, by the import of this number. -/
  | importing (key : String) (m : Metadata) (i : Nat)
  | done

structure Task (Path : Type) where
  entry : DirEntry Path
  phase : Phase

/-- `import_path` on its way, with the file system and the blob store it works on. -/
structure State (β Path : Type) where
  /-- The entries that have not been taken from the walk yet. -/
  waiting : List (DirEntry Path)
  tasks : List (Task Path)
  fs : FS5 β
  imports : Imports
  /-- What an entry failed with, so that `try_collect` drops all others. -/
  failed : Option ImportError

inductive Event where
  /-- The next entry is taken from the walk. -/
  | pull
  /-- The entry of this number goes on; `uuid` names the temporary object if it begins an import. -/
  | go (k : Nat) (uuid : String)
  /-- The file system saves itself. -/
  | autosave

def Phase.isDone : Phase → Bool
  | .done => true
  | _ => false

namespace State

variable {β Path : Type} [DecidableEq β]

/-- The start of `import_path`, with what is found below the path. -/
def start (entries : List (DirEntry Path)) (fs : FS5 β) (store : BlobFiles) : State β Path where
  waiting := entries
  tasks := []
  fs := fs
  imports := .idle store
  failed := none

/-- How many entries are being processed. -/
def running (s : State β Path) : Nat := s.tasks.countP (!·.phase.isDone)

/-- `import_path` returns `Ok`. -/
def completed (s : State β Path) : Bool :=
  s.failed.isNone && s.waiting.isEmpty && s.tasks.all (·.phase.isDone)

def move (s : State β Path) (k : Nat) (entry : DirEntry Path) (phase : Phase) : State β Path :=
  { s with tasks := s.tasks.set k ⟨entry, phase⟩ }

def fail (s : State β Path) (e : ImportError) : State β Path := { s with failed := some e }

variable (env : Env β) (order : GroupOrder) (benv : BlobEncoding) (imp : LocalFileSystemImporter Path)
  (basePath : Path)

/-- What is to be imported is handed to the blob store. -/
def beginImport (s : State β Path) (k : Nat) (entry : DirEntry Path) (key : String) (m : Metadata)
    (uuid : String) : State β Path :=
  { s with imports := s.imports.step benv (.begin uuid (.file entry.content)) }.move k entry
    (.importing key m s.imports.calls.length)

/-- `process_entry`, to its import if there is one. -/
def processEntry (s : State β Path) (k : Nat) (entry : DirEntry Path) (uuid : String) : State β Path :=
  match entry.metadata with
  | .error e => s.fail (.metadata e)
  | .ok m =>
    match imp.key basePath entry.path with
    | .error e => s.fail e
    | .ok key =>
      if imp.alwaysImport then s.beginImport benv k entry key m uuid
      else
        match FS5.fileGet env order s.fs key with
        | (fs, current) =>
          match LocalFileSystemImporter.shouldUpdate current m with
          | .error e => { s with fs }.fail e
          | .ok true => { s with fs }.beginImport benv k entry key m uuid
          | .ok false => { s with fs }.move k entry .done

/-- The rest of `process_entry`. -/
def putEntry (s : State β Path) (k : Nat) (entry : DirEntry Path) (key : String) (m : Metadata) :
    Except String BlobId → State β Path
  | .error e => s.fail (.importFile e)
  | .ok blob =>
    match LocalFileSystemImporter.fileRef blob m with
    | .error e => s.fail e
    | .ok file => { s with fs := FS5.filePut env order s.fs key file }.move k entry .done

/-- An entry goes on. -/
def advance (s : State β Path) (k : Nat) (entry : DirEntry Path) (uuid : String) :
    Phase → State β Path
  | .started =>
    if entry.isFile then s.processEntry env order benv imp basePath k entry uuid
    else s.move k entry .done
  | .importing key m i =>
    match s.imports.calls[i]? with
    | some ⟨_, _, .finished res⟩ => s.putEntry env order k entry key m res
    | _ => { s with imports := s.imports.step benv (.run i) }
  | .done => s

def step (s : State β Path) : Event → State β Path
  | .pull =>
    match s.waiting with
    | entry :: waiting =>
      if s.failed.isNone ∧ s.running < imp.maxConcurrentOps then
        { s with waiting, tasks := s.tasks ++ [⟨entry, .started⟩] }
      else s
    | [] => s
  | .go k uuid =>
    match s.tasks[k]? with
    | some t => if s.failed.isNone then s.advance env order benv imp basePath k t.entry uuid t.phase else s
    | none => s
  | .autosave => { s with fs := (s.fs.save env).1 }

end State

end LocalImport
