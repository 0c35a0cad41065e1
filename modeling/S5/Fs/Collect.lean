import S5.Fs.Context
import S5.Fs.Versions
import S5.Lib.Search

/-!
# The content in use

`collect_fs_reachable_hashes` (`s5_fs/src/gc.rs`): the walk over the directories of a local root and its
snapshots that gathers the content hashes in use. A directory is read by the key that the reference to
it brings along, the root and the snapshots by the root key.

`dir_queue`, `hash_queue` and `visited_dirs` are the queues and the visited ids of a search. Failures
below the root are only printed, which is left out.
-/

open Std

namespace Fs

namespace Gc

/-- What the walk reads; a file that cannot be read is `none`. -/
structure LocalFiles (β : Type) where
  /-- `root.fs5.cbor`. -/
  root : Option β
  /-- `snapshots.fs5.cbor`. -/
  snapshots : Option β
  metaStore : ExtTreeMap Hash β

section
variable {β : Type} (env : Env β)

def decryptDirBytes (bytes : β) (key : Option Bytes32) : Except String β :=
  match key with
  | none => .ok bytes
  | some key =>
    match env.decrypt key bytes with
    | some plaintext => .ok plaintext
    | none => .error "Failed to decrypt directory"

/-- The key that a reference brings along. -/
def getKey (d : DirRef) : Option Bytes32 := d.keys.bind (·[keySlot]?)

/-- The child directories of a snapshot, shards first. -/
def childRefs (dir : DirV1) : List (Hash × Option Bytes32) :=
  (match dir.header.shards with
    | some shards => shards.toList.map fun (_, dirRef) => (dirRef.hash, getKey dirRef)
    | none => []) ++ dir.dirs.toList.map fun (_, dirRef) => (dirRef.hash, getKey dirRef)

/-- Loads a directory from the meta blob store; `none` if that fails. -/
def loadDir (metaStore : ExtTreeMap Hash β) (h : Hash) (key : Option Bytes32) : Option DirV1 :=
  match metaStore[h]? with
  | none => none
  | some bytes =>
    match decryptDirBytes env bytes key with
    | .error _ => none
    | .ok decrypted => env.fromBytes decrypted

/-- The directories of a meta blob store. -/
def metaGraph (metaStore : ExtTreeMap Hash β) : Search.Graph Hash (Option Bytes32) DirV1 where
  load := loadDir env metaStore
  names := childRefs
  ids := metaStore.keys.toFinset
  mem_ids := by
    intro h key n hl
    rw [List.mem_toFinset, ExtTreeMap.mem_keys, ExtTreeMap.mem_iff_isSome_getElem?]
    unfold loadDir at hl
    cases hb : metaStore[h]? with
    | none =>
      rw [hb] at hl
      cases hl
    | some b => rfl

/-- The live root. A file that cannot be read is no root, one that is damaged ends the walk. -/
def rootDirs (root : Option β) (rootKey : Option Bytes32) : Except String (List DirV1) :=
  match root with
  | none => .ok []
  | some bytes =>
    match decryptDirBytes env bytes rootKey with
    | .error e => .error ("failed to decrypt root.fs5.cbor: " ++ e)
    | .ok decrypted =>
      match env.fromBytes decrypted with
      | none => .error "failed to parse root.fs5.cbor"
      | some dir => .ok [dir]

/-- The roots of the listed snapshots. -/
def snapshotRefs (snapshots : Option β) (rootKey : Option Bytes32) : List (Hash × Option Bytes32) :=
  match snapshots.bind env.fromBytes with
  | none => []
  | some snapshotsDir => snapshotsDir.dirs.toList.map fun (_, dirRef) => (dirRef.hash, rootKey)

def collectFsReachableHashes (fsRoot : LocalFiles β) (rootKey : Option Bytes32) :
    Except String (Finset Hash) :=
  match rootDirs env fsRoot.root rootKey with
  | .error e => .error e
  | .ok dirQueue =>
    .ok (Search.search (metaGraph env fsRoot.metaStore)
      (fun reachable dir => collectHashesFromDir dir reachable) dirQueue
      (snapshotRefs env fsRoot.snapshots rootKey) ∅ ∅)

end

end Gc

end Fs
