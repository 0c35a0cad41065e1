import S5.Fs.Api
import S5.Fs.Create

/-!
# Exports by path, and what a file system goes through

`export_merged_snapshot_at` (`s5_fs/src/actor/snapshots.rs`) with the calls of `FS5` that the mounted
file system reads by, and the calls that change an `FS5` (`s5_fs/src/api.rs`). Prefixes are promoted
in a `file_put`, directories are sharded in a `save`.
-/

open Std

namespace Fs

namespace Actor

variable {β : Type} (env : Env β)

/-- `export_merged_snapshot_at`; `fuel` bounds the hops and how deep shards nest. -/
def exportMergedSnapshotAt (w : World β) (regs : RegistryDirHandles) :
    Nat → Actor → String → Except String DirV1
  | 0, _, _ => .error "too many hops"
  | fuel + 1, a, path =>
    if path = "" then exportMergedSnapshot env w (fuel + 1) a
    else do
      match ← routeToChild env w regs a path with
      | some (child, rest) => exportMergedSnapshotAt w regs fuel child rest
      | none => .error "directory not found"

end Actor

namespace FS5

variable {β : Type} (env : Env β)

def exportMergedSnapshot (fuel : Nat) (fs : FS5 β) : Except String DirV1 :=
  Actor.exportMergedSnapshot env fs.world fuel fs.root

def exportMergedSnapshotAt (fuel : Nat) (fs : FS5 β) (path : String) : Except String DirV1 :=
  Actor.exportMergedSnapshotAt env fs.world fs.registryDirHandles fuel fs.root path

variable [DecidableEq β]

/-- A call that changes the file system. It may fail and leave a part of its changes behind. -/
inductive Step (order : GroupOrder) (fs : FS5 β) : FS5 β → Prop where
  | fileOp (task : FileTask) (path : String) {fuel : Nat} {w : World β} {root : Actor}
      {r : Except String Unit}
      (h : Actor.pathOp env (Actor.fileOpAt env order fs.registryDirHandles task) fs.registryDirHandles
        fuel fs.world fs.root path = some (w, root, r)) :
      Step order fs ⟨w, root, fs.registryDirHandles⟩
  | createDir (path : String) (enableEncryption : Bool) {fuel : Nat} {w : World β} {root : Actor}
      {r : Except String Unit}
      (h : Actor.createDir env fs.registryDirHandles enableEncryption fuel fs.world fs.root path =
        some (w, root, r)) :
      Step order fs ⟨w, root, fs.registryDirHandles⟩
  | save : Step order fs (save env fs).1

/-- What a new local file system can become. -/
inductive Reached (order : GroupOrder) : FS5 β → Prop where
  | opened {tick : Nat} {fs : FS5 β}
      (h : openRoot env (.localRoot : DirContext Unit) (newLocalWorld env tick) = .ok fs) :
      Reached order fs
  | step {fs fs' : FS5 β} (h : Reached order fs) (hs : fs.Step env order fs') : Reached order fs'

end FS5

end Fs
