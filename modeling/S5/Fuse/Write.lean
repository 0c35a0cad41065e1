import S5.Fs.Session
import S5.Fuse.Mount
import S5.Blobs.Import

/-!
# Writing to the mounted file system

The calls of `ReadOnlyS5Fs` (`s5_fuse/src/fs.rs`) beside `lookup` and `readdir`: files are created,
written from their start to their end and released, which imports their bytes and saves the file
system; directories are made; files are read. Calls come one after the other, and between two of them
the mount may be killed and mounted again.

The file system is a local root; its directory actors have handled what a call sends before the next
one comes (`Fs.Actor.stepFs`).
-/

open Std Fs

namespace Fuse

structure OpenFile where
  path : String
  buf : Bytes

/-- All fields of the source's `ReadOnlyS5Fs`; those that lookups and listings use are in `tree`. -/
structure S5Fs (β σ : Type) where
  tree : ReadOnlyS5Fs β σ
  store : Blobs.BlobFiles
  openFiles : ExtTreeMap UInt64 OpenFile
  nextFh : UInt64
  readOnly : Bool

inductive CallError where
  | noFileDir
  | readOnly
  | invalidArgument
  | unimplemented
  /-- No answer. -/
  | panic
  deriving DecidableEq

def Error.toCall : Error → CallError
  | .noFileDir => .noFileDir
  | .panic => .panic

namespace S5Fs

variable {β σ : Type} [DecidableEq β] (env : Env β) (order : GroupOrder) (benv : Blobs.BlobEncoding)
  (rodeo : Interner String σ) (fuel : Nat)

def new (fs : FS5 β) (store : Blobs.BlobFiles) (readOnly : Bool) : S5Fs β σ where
  tree := .new rodeo fs
  store := store
  openFiles := ∅
  nextFh := 1
  readOnly := readOnly

/-- `mount`: the root is loaded before the first call. -/
def mount (fs : FS5 β) (store : Blobs.BlobFiles) (readOnly : Bool) : S5Fs β σ :=
  let m : S5Fs β σ := new rodeo fs store readOnly
  { m with tree := (m.tree.ensureDirCached env rodeo fuel 1).1 }

def setFs (m : S5Fs β σ) (fs : FS5 β) : S5Fs β σ := { m with tree.fs := fs }

/-! ## Attributes -/

def getattr (m : S5Fs β σ) (ino : Nat) : Except CallError FileAttr :=
  if ino = 1 then .ok rootAttr
  else
    match m.tree.cache.attrs[ino]? with
    | some attr => .ok attr
    | none => .error .noFileDir

def setattr (m : S5Fs β σ) : Except CallError FileAttr :=
  if m.readOnly then .error .readOnly else .error .unimplemented

/-- Files that are there are opened without a handle of their own. -/
def openFile : UInt64 := 0

/-! ## Writing -/

def create (m : S5Fs β σ) (parent : Nat) (name : String) :
    S5Fs β σ × Except CallError (FileAttr × UInt64) :=
  if m.readOnly then (m, .error .readOnly)
  else
    match m.tree.pathForIno rodeo parent with
    | none => (m, .error .noFileDir)
    | some parentPath =>
      match m.tree.ensureDirCached env rodeo fuel parent with
      | (tree, .error _) => ({ m with tree }, .error .noFileDir)
      | (tree, .ok ()) =>
        let filePath := childPath parentPath name
        match tree.inoForPath rodeo filePath with
        | (tree, ino) =>
          let attr := makeFileAttr ino 0 none
          ({ m with
            tree := (tree.cacheAttr attr).cacheParent ino parent
            openFiles := m.openFiles.insert m.nextFh ⟨filePath, []⟩
            nextFh := m.nextFh + 1 }, .ok (attr, m.nextFh))

/-- Only at the end of what has been written so far. -/
def write (m : S5Fs β σ) (fh : UInt64) (data : Bytes) (offset : Int64) :
    S5Fs β σ × Except CallError UInt32 :=
  if m.readOnly then (m, .error .readOnly)
  else if offset < 0 then (m, .error .invalidArgument)
  else
    match m.openFiles[fh]? with
    | none => (m, .error .noFileDir)
    | some file =>
      if offset.toNatClampNeg ≠ file.buf.length then (m, .error .invalidArgument)
      else ({ m with openFiles := m.openFiles.insert fh { file with buf := file.buf ++ data } },
        .ok (UInt32.ofNat data.length))

/-- The directory whose listing a new file is shown in; `fsPath` is that of the file. -/
def parentPath (fsPath : String) : String :=
  match (segments fsPath).dropLast with
  | [] => ""
  | segs => joinPath segs

/-- The file is taken from the open files first, so a release that fails loses it. -/
def release (uuid : String) (m : S5Fs β σ) (fh : UInt64) : S5Fs β σ × Except CallError Unit :=
  if m.readOnly then (m, .ok ())
  else
    match m.openFiles[fh]? with
    | none => (m, .ok ())
    | some file =>
      let m := { m with openFiles := m.openFiles.erase fh }
      match m.store.importBytes benv uuid file.buf with
      | (store, .error _) => ({ m with store }, .error .noFileDir)
      | (store, .ok blob) =>
        let m := { m with store }
        let fsPath := trimStart file.path
        match FS5.filePutSync env order m.tree.fs fsPath (.new blob.hash (UInt64.ofNat blob.size)) with
        | (fs, .error _) => (m.setFs fs, .error .noFileDir)
        | (fs, .ok ()) =>
          match fs.save env with
          | (fs, .error _) => (m.setFs fs, .error .noFileDir)
          | (fs, .ok ()) =>
            let m := m.setFs fs
            let parent := parentPath fsPath
            match (if parent = "" then (m.tree, 1) else m.tree.inoForPath rodeo ("/" ++ parent)) with
            | (tree, parentIno) =>
              match (tree.refreshDirCache env rodeo fuel parentIno).1.inoForPath rodeo file.path with
              | (tree, ino) =>
                ({ m with
                  tree := tree.cacheAttr (makeFileAttr ino (UInt64.ofNat file.buf.length) none) }, .ok ())

/-- The path of a new directory in the file system. -/
def mkdirPath (parentPath name : String) : String :=
  let fsParent := trimStart parentPath
  if fsParent = "" then name else fsParent ++ "/" ++ name

def mkdir (m : S5Fs β σ) (parent : Nat) (name : String) : S5Fs β σ × Except CallError FileAttr :=
  if m.readOnly then (m, .error .readOnly)
  else
    match m.tree.pathForIno rodeo parent with
    | none => (m, .error .noFileDir)
    | some parentPath =>
      match FS5.createDir env m.tree.fs (mkdirPath parentPath name) false with
      | (fs, .error _) => (m.setFs fs, .error .noFileDir)
      | (fs, .ok ()) =>
        match fs.save env with
        | (fs, .error _) => (m.setFs fs, .error .noFileDir)
        | (fs, .ok ()) =>
          match ((m.setFs fs).tree.refreshDirCache env rodeo fuel parent).1.inoForPath rodeo
            (childPath parentPath name) with
          | (tree, ino) =>
            let attr := makeDirAttr ino none
            ({ m with tree := (tree.cacheAttr attr).cacheParent ino parent }, .ok attr)

/-! ## Reading -/

/-- The content that a reference has itself. -/
def inlineBytes (f : FileRef) : Option Bytes :=
  (f.locations.getD []).findSome? fun
    | .identityRawBinary v => some v
    | _ => none

def read (m : S5Fs β σ) (ino : Nat) (offset : Int64) (size : UInt32) :
    S5Fs β σ × Except CallError Bytes :=
  if offset < 0 then (m, .error .invalidArgument)
  else
    match m.tree.pathForIno rodeo ino with
    | none => (m, .error .noFileDir)
    | some path =>
      match FS5.fileGet env order m.tree.fs (trimStart path) with
      | (fs, none) => (m.setFs fs, .error .noFileDir)
      | (fs, some f) =>
        match inlineBytes f with
        | some data =>
          let start := min offset.toNatClampNeg data.length
          let stop := min (start + size.toNat) data.length
          (m.setFs fs, .ok ((data.take stop).drop start))
        | none =>
          match m.store.readAsBytes benv f.hash (UInt64.ofNat offset.toNatClampNeg)
            (some size.toUInt64) with
          | .ok bytes => (m.setFs fs, .ok bytes)
          | .error _ => (m.setFs fs, .error .noFileDir)

end S5Fs

/-! ## Calls -/

inductive Call where
  | lookup (parent : Nat) (name : String)
  | getattr (ino : Nat)
  | setattr (ino : Nat) (size : Option UInt64)
  | readdir (ino offset : Nat)
  | openFile (ino : Nat)
  | create (parent : Nat) (name : String)
  | write (fh : UInt64) (data : Bytes) (offset : Int64)
  /-- `uuid` names the temporary object of the import. -/
  | release (uuid : String) (fh : UInt64)
  | mkdir (parent : Nat) (name : String)
  | read (ino : Nat) (offset : Int64) (size : UInt32)
  /-- The process is killed, and the file system is opened and mounted again. -/
  | remount

inductive Answer where
  | attr (r : Except CallError FileAttr)
  | entries (r : Except CallError (List DirEntry))
  | handle (fh : UInt64)
  | created (r : Except CallError (FileAttr × UInt64))
  | wrote (r : Except CallError UInt32)
  | done (r : Except CallError Unit)
  | bytes (r : Except CallError Bytes)

namespace S5Fs

variable {β σ : Type} [DecidableEq β] (env : Env β) (order : GroupOrder) (benv : Blobs.BlobEncoding)
  (rodeo : Interner String σ) (fuel : Nat)

def run (m : S5Fs β σ) : Call → S5Fs β σ × Answer
  | .lookup parent name =>
    match m.tree.lookup env rodeo fuel parent name with
    | (tree, r) => ({ m with tree }, .attr (r.mapError Error.toCall))
  | .getattr ino => (m, .attr (m.getattr ino))
  | .setattr _ _ => (m, .attr m.setattr)
  | .readdir ino offset =>
    match m.tree.readdir env rodeo fuel ino offset with
    | (tree, r) => ({ m with tree }, .entries (r.mapError Error.toCall))
  | .openFile _ => (m, .handle openFile)
  | .create parent name =>
    match m.create env rodeo fuel parent name with
    | (m, r) => (m, .created r)
  | .write fh data offset =>
    match m.write fh data offset with
    | (m, r) => (m, .wrote r)
  | .release uuid fh =>
    match m.release env order benv rodeo fuel uuid fh with
    | (m, r) => (m, .done r)
  | .mkdir parent name =>
    match m.mkdir env rodeo fuel parent name with
    | (m, r) => (m, .attr r)
  | .read ino offset size =>
    match m.read env order benv rodeo ino offset size with
    | (m, r) => (m, .bytes r)
  | .remount =>
    (mount env rodeo fuel (FS5.request env order m.tree.fs .reopen) m.store m.readOnly, .done (.ok ()))

end S5Fs

end Fuse
