import S5.Fs.Dir
import S5.Lib.Map

/-!
# Last-write-wins merge

`merge_entries_local` and its timestamps (`s5_fs/src/actor/merge.rs`): the entries of a remote
snapshot are merged one by one, directories first, an entry winning over the local one of its name
if it is strictly newer. An absent timestamp counts as zero.

* `mergeEntriesLocal_at`: the merge works name by name, as `lww` says.
-/

open Std

namespace Fs

def dirTs (d : DirRef) : Nat :=
  (d.tsSeconds.getD 0).toNat * 1000000000 + (d.tsNanos.getD 0).toNat

def fileTs (f : FileRef) : Nat :=
  (f.timestamp.getD 0).toNat * 1000000000 + (f.timestampSubsecNanos.getD 0).toNat

/-- The maps under merge, and the names whose child handles have been dropped. -/
structure Merging where
  dirs : ExtTreeMap String DirRef
  files : ExtTreeMap String FileRef
  dropped : List String

/-- One remote directory against the local entries of its name. -/
def mergeDirEntry (s : Merging) (name : String) (remoteDir : DirRef) : Merging :=
  match s.files[name]? with
  | some localFile =>
    if fileTs localFile < dirTs remoteDir then
      { dirs := s.dirs.insert name remoteDir
        files := s.files.erase name
        dropped := name :: s.dropped }
    else s
  | none =>
    match s.dirs[name]? with
    | some localDir =>
      if dirTs localDir < dirTs remoteDir then
        { s with dirs := s.dirs.insert name remoteDir, dropped := name :: s.dropped }
      else s
    | none => { s with dirs := s.dirs.insert name remoteDir }

/-- One remote file or tombstone against the local entries of its name. -/
def mergeFileEntry (s : Merging) (name : String) (remoteFile : FileRef) : Merging :=
  match s.dirs[name]? with
  | some localDir =>
    if dirTs localDir < fileTs remoteFile then
      { dirs := s.dirs.erase name
        files := s.files.insert name remoteFile
        dropped := name :: s.dropped }
    else s
  | none =>
    match s.files[name]? with
    | some localFile =>
      if fileTs localFile < fileTs remoteFile then
        { s with files := s.files.insert name remoteFile }
      else s
    | none => { s with files := s.files.insert name remoteFile }

/-- The merge of remote entries into an unsharded directory. -/
def mergeEntriesLocal (state : DirV1) (dirs : ExtTreeMap String DirRef)
    (files : ExtTreeMap String FileRef) : Merging :=
  files.foldl mergeFileEntry (dirs.foldl mergeDirEntry ⟨state.dirs, state.files, []⟩)

/-- Hints for web serving are taken over where there are none; the shard layout is not. -/
def mergeHeaderFields (header remote : DirHeader) : DirHeader :=
  { header with
    tryFiles := header.tryFiles.or remote.tryFiles
    errorPages := header.errorPages.or remote.errorPages }

/-! ## Name by name -/

/-- What a directory holds under one name, and whether its child handle has been dropped. -/
structure Named where
  dir : Option DirRef
  file : Option FileRef
  dropped : Bool

def Merging.at (s : Merging) (name : String) : Named :=
  ⟨s.dirs[name]?, s.files[name]?, name ∈ s.dropped⟩

/-- A remote directory against a local entry. -/
def lwwDir (e : Named) (remoteDir : DirRef) : Named :=
  match e.file with
  | some localFile => if fileTs localFile < dirTs remoteDir then ⟨some remoteDir, none, true⟩ else e
  | none =>
    match e.dir with
    | some localDir =>
      if dirTs localDir < dirTs remoteDir then ⟨some remoteDir, none, true⟩ else e
    | none => { e with dir := some remoteDir }

/-- A remote file against a local entry. -/
def lwwFile (e : Named) (remoteFile : FileRef) : Named :=
  match e.dir with
  | some localDir => if dirTs localDir < fileTs remoteFile then ⟨none, some remoteFile, true⟩ else e
  | none =>
    match e.file with
    | some localFile =>
      if fileTs localFile < fileTs remoteFile then { e with file := some remoteFile } else e
    | none => { e with file := some remoteFile }

/-- The remote entries of one name against the local one. -/
def lww (e : Named) (dir : Option DirRef) (file : Option FileRef) : Named :=
  let e := match dir with
    | some d => lwwDir e d
    | none => e
  match file with
  | some f => lwwFile e f
  | none => e

theorem mergeDirEntry_at (s : Merging) (k : String) (d : DirRef) (n : String) :
    (mergeDirEntry s k d).at n = if k = n then lwwDir (s.at n) d else s.at n := by
  by_cases hk : k = n
  · subst hk
    unfold mergeDirEntry lwwDir
    cases hf : s.files[k]? with
    | some f =>
      by_cases ht : fileTs f < dirTs d
      · simp [Merging.at, hf, ht]
      · simp [Merging.at, hf, ht]
    | none =>
      cases hd : s.dirs[k]? with
      | some l =>
        by_cases ht : dirTs l < dirTs d
        · simp [Merging.at, hf, hd, ht]
        · simp [Merging.at, hf, hd, ht]
      | none => simp [Merging.at, hf, hd]
  · have hk' : n ≠ k := Ne.symm hk
    unfold mergeDirEntry
    simp only [hk, if_false]
    repeat' split
    all_goals simp [Merging.at, ExtTreeMap.getElem?_insert, ExtTreeMap.getElem?_erase, hk, hk']

theorem mergeFileEntry_at (s : Merging) (k : String) (f : FileRef) (n : String) :
    (mergeFileEntry s k f).at n = if k = n then lwwFile (s.at n) f else s.at n := by
  by_cases hk : k = n
  · subst hk
    unfold mergeFileEntry lwwFile
    cases hd : s.dirs[k]? with
    | some l =>
      by_cases ht : dirTs l < fileTs f
      · simp [Merging.at, hd, ht]
      · simp [Merging.at, hd, ht]
    | none =>
      cases hf : s.files[k]? with
      | some l =>
        by_cases ht : fileTs l < fileTs f
        · simp [Merging.at, hf, hd, ht]
        · simp [Merging.at, hf, hd, ht]
      | none => simp [Merging.at, hf, hd]
  · have hk' : n ≠ k := Ne.symm hk
    unfold mergeFileEntry
    simp only [hk, if_false]
    repeat' split
    all_goals simp [Merging.at, ExtTreeMap.getElem?_insert, ExtTreeMap.getElem?_erase, hk, hk']

/-- **The merge works name by name.** -/
theorem mergeEntriesLocal_at (state : DirV1) (dirs : ExtTreeMap String DirRef)
    (files : ExtTreeMap String FileRef) (n : String) :
    (mergeEntriesLocal state dirs files).at n =
      lww ⟨state.dirs[n]?, state.files[n]?, false⟩ dirs[n]? files[n]? := by
  unfold mergeEntriesLocal lww
  rw [ExtTreeMap.foldl_at mergeFileEntry_at, ExtTreeMap.foldl_at mergeDirEntry_at]
  cases files[n]? <;> cases dirs[n]? <;> simp [Merging.at]

end Fs
