import S5.Fs.Actor

/-!
# File systems

The parts of `FS5` (`s5_fs/src/api.rs`) that work on a file system as a whole: a root actor, the
world it is stored in and the registry-backed directories it has open.
-/

open Std

namespace Fs

structure FS5 (β : Type) where
  world : World β
  root : Actor
  registryDirHandles : Actor.RegistryDirHandles

namespace FS5

variable {β : Type} [DecidableEq β] (env : Env β)

/-- `FS5::open`: a root whose state cannot be loaded answers no call. -/
def openRoot (ctx : DirContext Unit) (w : World β) : Except String (FS5 β) := do
  return ⟨w, ← Actor.spawn env ctx w, []⟩

/-- A world with an empty local root, as `open_local_root` creates it. -/
def newLocalWorld (tick : Nat) : World β where
  store := ∅
  rootFile := some (env.toBytes .new)
  registry := ∅
  tick := tick
  collided := false

def exportSnapshot (fs : FS5 β) : DirV1 := fs.root.state

/-- Shards nest at most this deep: every level hashes by another byte. -/
def shardDepth : Nat := maxShardLevel.toNat + 2

def mergeFromSnapshot (fs : FS5 β) (snapshot : DirV1) : FS5 β × Except String Unit :=
  match Actor.mergeSnapshot env fs.world shardDepth fs.root snapshot with
  | (root, r) => ({ fs with root }, r)

def save (fs : FS5 β) : FS5 β × Except String Unit :=
  match Actor.saveIfDirty env fs.root fs.world with
  | (world, root, .ok _) => ({ fs with world, root }, .ok ())
  | (world, root, .error e) => ({ fs with world, root }, .error e)

/-- `file_get` on `path` answers `r`. -/
def FileGet (fs : FS5 β) (path : String) (r : Option FileRef) : Prop :=
  ∃ q, Actor.Reaches env fs.world fs.registryDirHandles fs.root path q ∧ r = Actor.live q

end FS5

end Fs
