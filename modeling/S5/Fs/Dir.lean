import S5.Core.Location
import Mathlib.Algebra.Group.Nat.Defs

/-!
# Directory snapshots

The data structures of `s5_fs/src/dir.rs`: `DirV1`, its header, and the references to child
directories (`DirRef`) and files (`FileRef`) it holds. Maps are the source's `BTreeMap`s.
-/

open Std

namespace Fs

/-! ## File references -/

inductive FileRefType where
  | blake3Hash
  | registryKey
  /-- A logical deletion; earlier versions are kept in `prev` and `firstVersion`. -/
  | tombstone
  deriving DecidableEq

structure WebArchiveMetadata where
  ipAddr : String
  reqHttpVersion : UInt8
  reqHeaders : List (String × String)
  resHttpVersion : UInt8
  resStatusCode : UInt16
  resStatusReason : String
  resHeaders : List (String × String)
  deriving DecidableEq

structure FileRef where
  refType : Option FileRefType
  hash : Bytes32
  size : UInt64
  timestamp : Option UInt32
  timestampSubsecNanos : Option UInt32
  locations : Option (List BlobLocation)
  mediaType : Option String
  warc : Option WebArchiveMetadata
  extra : Option (ExtTreeMap String Unit)
  prev : Option FileRef
  versionCount : Option UInt32
  firstVersion : Option FileRef

namespace FileRef

mutual
/-- Equality of file references, field by field and down the version chains. -/
def decEq : (a b : FileRef) → Decidable (a = b)
  | ⟨t, h, s, ts, tn, l, m, w, e, p, v, f⟩, ⟨t', h', s', ts', tn', l', m', w', e', p', v', f'⟩ =>
    have := decEqOption p p'
    have := decEqOption f f'
    decidable_of_iff (t = t' ∧ h = h' ∧ s = s' ∧ ts = ts' ∧ tn = tn' ∧ l = l' ∧ m = m' ∧ w = w' ∧
      e = e' ∧ p = p' ∧ v = v' ∧ f = f') (by simp)
def decEqOption : (a b : Option FileRef) → Decidable (a = b)
  | none, none => isTrue rfl
  | none, some _ => isFalse nofun
  | some _, none => isFalse nofun
  | some a, some b =>
    have := decEq a b
    decidable_of_iff (a = b) (by simp)
end

instance : DecidableEq FileRef := decEq

/-- A reference to content by hash and size; also what `From<BlobId>` makes. -/
def new (hash : Hash) (size : UInt64) : FileRef where
  refType := none
  hash := hash
  size := size
  timestamp := none
  timestampSubsecNanos := none
  locations := none
  mediaType := none
  warc := none
  extra := none
  prev := none
  versionCount := none
  firstVersion := none

/-- `ref_type()`: a missing type is a hash reference. -/
def refTypeD (f : FileRef) : FileRefType := f.refType.getD .blake3Hash

def isTombstone (f : FileRef) : Bool := f.refTypeD = .tombstone

/-- The tombstone of a deleted file: the deleted version goes to `prev`, the oldest one known to
`firstVersion`. -/
def fromDeleted (previous : FileRef) (deletedAtS deletedAtNs : UInt32) : FileRef where
  refType := some .tombstone
  hash := previous.hash
  size := previous.size
  mediaType := previous.mediaType
  timestamp := some deletedAtS
  timestampSubsecNanos := some deletedAtNs
  locations := none
  extra := previous.extra
  prev := some previous
  versionCount := some (saturatingAddOne (previous.versionCount.getD 1))
  warc := previous.warc
  firstVersion := some (previous.firstVersion.getD previous)
where
  /-- `u32::saturating_add(1)`. -/
  saturatingAddOne (n : UInt32) : UInt32 := if n.toNat + 1 < 2 ^ 32 then n + 1 else n

end FileRef

/-! ## Directory references -/

inductive DirRefType where
  | blake3Hash
  | registryKey
  deriving DecidableEq

structure DirRef where
  refType : Option DirRefType
  hash : Bytes32
  tsSeconds : Option UInt32
  tsNanos : Option UInt32
  keys : Option (ExtTreeMap UInt8 Bytes32)
  encryptionType : Option UInt8
  extra : Option Unit
  deriving DecidableEq

/-- `ref_type()`: a missing type is a hash reference. -/
def DirRef.refTypeD (d : DirRef) : DirRefType := d.refType.getD .blake3Hash

/-! ## Snapshots -/

structure DirHeader where
  shardLevel : Option UInt8
  shards : Option (ExtTreeMap UInt8 DirRef)
  tryFiles : Option (List String)
  errorPages : Option (ExtTreeMap UInt16 String)
  opsCounter : Option UInt64
  lastWrittenBy : Option (ExtTreeMap (BitVec 128) UInt64)
  deriving DecidableEq

def DirHeader.new : DirHeader := ⟨none, none, none, none, none, none⟩

structure DirV1 where
  magic : String
  header : DirHeader
  dirs : ExtTreeMap String DirRef
  files : ExtTreeMap String FileRef
  deriving DecidableEq

def DirV1.new : DirV1 := ⟨"S5.pro", .new, ∅, ∅⟩

/-- The encryption type of XChaCha20-Poly1305, the only one supported. -/
def encryptionTypeXChaCha20Poly1305 : UInt8 := 0x02

/-- The slot of the encryption key in a key table. -/
def keySlot : UInt8 := 0x0e

end Fs
