import S5.Core.Pins
import Mathlib.Logic.Function.Basic

/-!
# Stores

The trait `Store` (`s5_core/src/store.rs`) over a backend that behaves as a map from paths to objects
and does not fail: reading, measuring or renaming what is not there is an error, deleting it is not. A
stream is the list of its chunks.
-/

structure StoreFeatures where
  supportsRename : Bool
  caseSensitive : Bool
  recommendedMaxDirSize : UInt64

structure Store where
  features : StoreFeatures
  object : String → Option Bytes

namespace Store

variable (s : Store) (path : String)

/-- The error of a call on a path without an object. -/
def noSuchKey : String := s!"no such key: {path}"

/-- `exists`. -/
def contains : Bool := (s.object path).isSome

def putBytes (bytes : Bytes) : Store :=
  { s with object := Function.update s.object path (some bytes) }

def putStream (chunks : List Bytes) : Store := s.putBytes path chunks.flatten

/-- At most `maxLen` bytes from `offset` on. -/
def slice (bytes : Bytes) (offset : UInt64) (maxLen : Option UInt64) : Bytes :=
  let rest := bytes.drop offset.toNat
  match maxLen with
  | some n => rest.take n.toNat
  | none => rest

def openReadBytes (offset : UInt64) (maxLen : Option UInt64) : Except String Bytes :=
  match s.object path with
  | some bytes => .ok (slice bytes offset maxLen)
  | none => .error (noSuchKey path)

def openReadStream (offset : UInt64) (maxLen : Option UInt64) : Except String (List Bytes) :=
  (s.openReadBytes path offset maxLen).map ([·])

def size : Except String Nat :=
  match s.object path with
  | some bytes => .ok bytes.length
  | none => .error (noSuchKey path)

def delete : Store := { s with object := Function.update s.object path none }

def rename (newPath : String) : Except String Store :=
  match s.object path with
  | some bytes => .ok ((s.delete path).putBytes newPath bytes)
  | none => .error (noSuchKey path)

/-- The path of a temporary object; `uuid` is `Uuid::new_v4()`. -/
def tempPath (uuid : String) : String := ".tmp/" ++ uuid

/-- `put_temp`. -/
def putTemp (uuid : String) (chunks : List Bytes) : Store × String :=
  (s.putStream (tempPath uuid) chunks, tempPath uuid)

/-! ## What the calls leave -/

variable {s} {path}

@[simp] theorem putBytes_features (bytes : Bytes) : (s.putBytes path bytes).features = s.features :=
  rfl

@[simp] theorem delete_features : (s.delete path).features = s.features := rfl

@[simp] theorem object_putBytes (bytes : Bytes) (p : String) :
    (s.putBytes path bytes).object p = if p = path then some bytes else s.object p := by
  simp [putBytes, Function.update_apply]

@[simp] theorem object_delete (p : String) :
    (s.delete path).object p = if p = path then none else s.object p := by
  simp [delete, Function.update_apply]

theorem openReadBytes_zero_none (s : Store) (path : String) :
    s.openReadBytes path 0 none =
      (s.object path).elim (.error (noSuchKey path)) (.ok ·) := by
  unfold openReadBytes slice
  cases s.object path <;> simp

end Store
