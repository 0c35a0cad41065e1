import S5.Fs.Exports
import S5.Fs.Segments
import S5.Lib.Interner

/-!
# The mounted file system

How `ReadOnlyS5Fs` (`s5_fuse/src/fs.rs`) finds and lists directories, with its caches
(`s5_fuse/src/cache.rs`). An inode is the key of its path in a string interner, lasso's
`ThreadedRodeo`. The reads leave the file system below as it is; `fuel` bounds its calls.
-/

open Std Fs

namespace Fuse

inductive FileType where
  | directory
  | regularFile
  deriving DecidableEq

/-- Times are in seconds. -/
structure FileAttr where
  ino : Nat
  size : UInt64
  blocks : UInt64
  atime : UInt32
  mtime : UInt32
  ctime : UInt32
  crtime : UInt32
  kind : FileType
  perm : UInt16
  nlink : UInt32
  uid : UInt32
  gid : UInt32
  rdev : UInt32
  flags : UInt32
  blksize : UInt32
  deriving DecidableEq

structure CachedDir where
  dir : DirV1
  keys : ExtTreeMap UInt8 Bytes32

structure DirEntry where
  inode : Nat
  fileType : FileType
  name : String
  deriving DecidableEq

structure FsCache where
  attrs : ExtTreeMap Nat FileAttr
  parents : ExtTreeMap Nat Nat
  dirs : ExtTreeMap Nat CachedDir
  dirEntries : ExtTreeMap Nat (List DirEntry)

inductive Error where
  | noFileDir
  /-- No answer: `lookup` unwraps a directory that is not in the cache. -/
  | panic
  deriving DecidableEq

structure ReadOnlyS5Fs (β σ : Type) where
  fs : FS5 β
  inodes : σ
  cache : FsCache

/-! ## Paths and attributes -/

def childPath (parentPath name : String) : String :=
  if parentPath = "/" then "/" ++ name else parentPath ++ "/" ++ name

/-- `str::trim_start_matches('/')`. -/
def trimStart (path : String) : String := String.ofList (path.toList.dropWhile (· = '/'))

def blockSize : Nat := 512

def rootAttr : FileAttr where
  ino := 1
  size := 0
  blocks := 0
  atime := 0
  mtime := 0
  ctime := 0
  crtime := 0
  kind := .directory
  perm := 0o755
  nlink := 2
  uid := 0
  gid := 0
  rdev := 0
  flags := 0
  blksize := 512

def makeDirAttr (ino : Nat) (ts : Option UInt32) : FileAttr :=
  let time := ts.getD 0
  { rootAttr with ino, atime := time, mtime := time, ctime := time, crtime := time }

def makeFileAttr (ino : Nat) (size : UInt64) (ts : Option UInt32) : FileAttr where
  ino := ino
  size := size
  blocks := UInt64.ofNat ((size.toNat + (blockSize - 1)) / blockSize)
  atime := ts.getD 0
  mtime := ts.getD 0
  ctime := ts.getD 0
  crtime := ts.getD 0
  kind := .regularFile
  perm := 0o644
  nlink := 1
  uid := 0
  gid := 0
  rdev := 0
  flags := 0
  blksize := 512

namespace ReadOnlyS5Fs

variable {β σ : Type}

section
variable (rodeo : Interner String σ)

/-- `/` gets the inode 1. -/
def new (fs : FS5 β) : ReadOnlyS5Fs β σ where
  fs := fs
  inodes := (rodeo.getOrIntern (rodeo.getOrIntern rodeo.new "").1 "/").1
  cache := ⟨∅, ∅, ∅, ∅⟩

def pathForIno (m : ReadOnlyS5Fs β σ) (ino : Nat) : Option String := rodeo.resolve m.inodes ino

def inoForPath (m : ReadOnlyS5Fs β σ) (path : String) : ReadOnlyS5Fs β σ × Nat :=
  match rodeo.getOrIntern m.inodes path with
  | (inodes, ino) => ({ m with inodes }, ino)

end

/-! ## The caches -/

def cacheDir (m : ReadOnlyS5Fs β σ) (ino : Nat) (d : CachedDir) : ReadOnlyS5Fs β σ :=
  { m with cache.dirs := m.cache.dirs.insert ino d }

def cacheAttr (m : ReadOnlyS5Fs β σ) (attr : FileAttr) : ReadOnlyS5Fs β σ :=
  { m with cache.attrs := m.cache.attrs.insert attr.ino attr }

def cacheParent (m : ReadOnlyS5Fs β σ) (ino parent : Nat) : ReadOnlyS5Fs β σ :=
  { m with cache.parents := m.cache.parents.insert ino parent }

/-- The entries of a directory, or that they have to be made again. -/
def cacheEntries (m : ReadOnlyS5Fs β σ) (ino : Nat) (entries : Option (List DirEntry)) :
    ReadOnlyS5Fs β σ :=
  { m with cache.dirEntries := m.cache.dirEntries.alter ino fun _ => entries }

variable (env : Env β) (rodeo : Interner String σ) (fuel : Nat)

def loadRootDir (m : ReadOnlyS5Fs β σ) : Except String CachedDir := do
  return ⟨← m.fs.exportMergedSnapshot env fuel, ∅⟩

def loadChildDir (m : ReadOnlyS5Fs β σ) (parent : CachedDir) (childFsPath : String) :
    Except String CachedDir := do
  return ⟨← m.fs.exportMergedSnapshotAt env fuel (trimStart childFsPath), parent.keys⟩

/-- The root of `ensure_dir_cached`. -/
def ensureRootCached (m : ReadOnlyS5Fs β σ) : ReadOnlyS5Fs β σ × Except String Unit :=
  match m.cache.dirs[1]? with
  | some _ => (m, .ok ())
  | none =>
    match m.loadRootDir env fuel with
    | .error e => (m, .error e)
    | .ok root => ((m.cacheDir 1 root).cacheAttr rootAttr, .ok ())

/-- The walk of `ensure_dir_cached`, from a directory that is in the cache. -/
def ensureSegmentsCached :
    List String → String → Nat → ReadOnlyS5Fs β σ → ReadOnlyS5Fs β σ × Except String Unit
  | [], _, _, m => (m, .ok ())
  | seg :: segs, curPath, curIno, m =>
    let path := childPath curPath seg
    match m.inoForPath rodeo path with
    | (m, ino) =>
      match m.cache.dirs[ino]? with
      | some _ => ensureSegmentsCached segs path ino m
      | none =>
        match m.cache.dirs[curIno]? with
        | none => (m, .error "parent not cached")
        | some parent =>
          match parent.dir.dirs[seg]? with
          | none => (m, .error "dir not found")
          | some dr =>
            match m.loadChildDir env fuel parent path with
            | .error e => (m, .error e)
            | .ok child =>
              ensureSegmentsCached segs path ino
                (((m.cacheDir ino child).cacheParent ino curIno).cacheAttr
                  (makeDirAttr ino dr.tsSeconds))

def ensureDirCached (m : ReadOnlyS5Fs β σ) (ino : Nat) : ReadOnlyS5Fs β σ × Except String Unit :=
  match m.ensureRootCached env fuel with
  | (m, .error e) => (m, .error e)
  | (m, .ok ()) =>
    if ino = 1 ∨ m.cache.dirs[ino]?.isSome then (m, .ok ())
    else
      match m.pathForIno rodeo ino with
      | none => (m, .error "unknown inode")
      | some path => ensureSegmentsCached env rodeo fuel ((segments path).filter (· ≠ "")) "/" 1 m

def refreshDirCache (m : ReadOnlyS5Fs β σ) (ino : Nat) : ReadOnlyS5Fs β σ × Except String Unit :=
  match m.pathForIno rodeo ino with
  | none => (m, .error "unknown inode")
  | some path =>
    let fsPath := trimStart path
    match (if fsPath = "" then m.fs.exportMergedSnapshot env fuel
      else m.fs.exportMergedSnapshotAt env fuel fsPath) with
    | .error e => (m, .error e)
    | .ok dir => ((m.cacheDir ino ⟨dir, ∅⟩).cacheEntries ino none, .ok ())

/-! ## Lookups -/

/-- The attributes of a child that has been found. -/
def answerChild (m : ReadOnlyS5Fs β σ) (parent : Nat) (path : String) (attr : Nat → FileAttr) :
    ReadOnlyS5Fs β σ × Except Error FileAttr :=
  match m.inoForPath rodeo path with
  | (m, ino) => ((m.cacheAttr (attr ino)).cacheParent ino parent, .ok (attr ino))

def lookup (m : ReadOnlyS5Fs β σ) (parent : Nat) (name : String) :
    ReadOnlyS5Fs β σ × Except Error FileAttr :=
  match m.pathForIno rodeo parent with
  | none => (m, .error .noFileDir)
  | some parentPath =>
    match m.ensureDirCached env rodeo fuel parent with
    | (m, .error _) => (m, .error .noFileDir)
    | (m, .ok ()) =>
      match m.cache.dirs[parent]? with
      | none => (m, .error .panic)
      | some parentDir =>
        match parentDir.dir.dirs[name]?, parentDir.dir.files[name]? with
        | some dr, _ =>
          m.answerChild rodeo parent (childPath parentPath name) (makeDirAttr · dr.tsSeconds)
        | none, some fr =>
          m.answerChild rodeo parent (childPath parentPath name) (makeFileAttr · fr.size fr.timestamp)
        | none, none => (m, .error .noFileDir)

/-! ## Listings -/

/-- The children of one kind, with their attributes. -/
def listChildren {α : Type} (ino : Nat) (path : String) (attr : Nat → α → FileAttr) :
    List (String × α) → ReadOnlyS5Fs β σ → ReadOnlyS5Fs β σ × List DirEntry
  | [], m => (m, [])
  | (name, x) :: rest, m =>
    match m.inoForPath rodeo (childPath path name) with
    | (m, child) =>
      let m := (m.cacheParent child ino).cacheAttr (attr child x)
      match listChildren ino path attr rest m with
      | (m, entries) => (m, ⟨child, (attr child x).kind, name⟩ :: entries)

/-- All entries of a cached directory. -/
def listDir (m : ReadOnlyS5Fs β σ) (ino : Nat) (cached : CachedDir) :
    ReadOnlyS5Fs β σ × List DirEntry :=
  let parentInode := (m.cache.parents[ino]?).getD 1
  let path := (m.pathForIno rodeo ino).getD "/"
  match listChildren rodeo ino path (fun child (dref : DirRef) => makeDirAttr child dref.tsSeconds)
    cached.dir.dirs.toList m with
  | (m, dirs) =>
    match listChildren rodeo ino path
      (fun child (fr : FileRef) => makeFileAttr child fr.size fr.timestamp)
      cached.dir.files.toList m with
    | (m, files) =>
      (m, ⟨ino, .directory, "."⟩ :: ⟨parentInode, .directory, ".."⟩ :: (dirs ++ files))

/-- The entries that the iterator of the source yields. -/
def readdir (m : ReadOnlyS5Fs β σ) (ino offset : Nat) :
    ReadOnlyS5Fs β σ × Except Error (List DirEntry) :=
  let refreshed :=
    if m.cache.dirs[ino]?.isSome then (m, .ok ()) else m.refreshDirCache env rodeo fuel ino
  match refreshed with
  | (m, .error _) => (m, .error .noFileDir)
  | (m, .ok ()) =>
    match m.ensureDirCached env rodeo fuel ino with
    | (m, .error _) => (m, .error .noFileDir)
    | (m, .ok ()) =>
      match m.cache.dirs[ino]? with
      | none => (m, .error .noFileDir)
      | some cached =>
        match m.cache.dirEntries[ino]? with
        | some entries => (m, .ok (entries.drop offset))
        | none =>
          match m.listDir rodeo ino cached with
          | (m, entries) => (m.cacheEntries ino (some entries), .ok (entries.drop offset))

/-! ## Walks -/

/-- A lookup that has found something. -/
structure Visit where
  parent : Nat
  name : String
  attr : FileAttr

/-- Looks the segments of a path up one after the other, from an inode on, up to the first that is not
found. -/
def walk : List String → ReadOnlyS5Fs β σ → Nat → ReadOnlyS5Fs β σ × List Visit
  | [], m, _ => (m, [])
  | seg :: segs, m, ino =>
    match m.lookup env rodeo fuel ino seg with
    | (m, .error _) => (m, [])
    | (m, .ok attr) =>
      match walk segs m attr.ino with
      | (m, visits) => (m, ⟨ino, seg, attr⟩ :: visits)

/-- The size of the regular file that a walk along `segs` has ended in. -/
def fileAtEnd (segs : List String) (visits : List Visit) : Option UInt64 :=
  if visits.length = segs.length then
    (visits.getLast?.filter (·.attr.kind = .regularFile)).map (·.attr.size)
  else none

end ReadOnlyS5Fs

end Fuse
