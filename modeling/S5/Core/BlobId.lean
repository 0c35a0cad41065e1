import S5.Core.Stream
import S5.Lib.LittleEndian

/-!
# Blob identifiers

`BlobId` (`s5_core/src/blob/identifier.rs`): a hash and a size, and their bytes in a text that says its
base. The texts come from a library (`Multibase`).
-/

namespace Identifier

/-- The library `multibase`: its bases, and texts that start with the code of their base. -/
structure Multibase where
  Base : Type
  Error : Type
  base16Lower : Base
  base32Lower : Base
  base58Btc : Base
  base64Url : Base
  encode : Base → Bytes → String
  decode : String → Except Error (Base × Bytes)

/-- What is encoded is decoded. -/
structure Multibase.Lawful (m : Multibase) : Prop where
  decode_encode : ∀ base bytes, m.decode (m.encode base bytes) = .ok (base, bytes)

/-- No two texts of this base say the same bytes. Base 36, whose letters may be of either case, is no
such base. -/
def Multibase.Unambiguous (m : Multibase) (base : m.Base) : Prop :=
  ∀ {s s' bytes}, m.decode s = .ok (base, bytes) → m.decode s' = .ok (base, bytes) → s' = s

structure BlobId where
  hash : Hash
  size : UInt64
  deriving DecidableEq

inductive BlobIdError (E : Type) where
  | multibase (e : E)
  | invalidLength (len : Nat)
  | invalidMagicByte (expected got : UInt8)
  | invalidBlobType (expected got : UInt8)
  | invalidMultihashType (expected got : UInt8)
  deriving DecidableEq

namespace BlobId

def s5MagicByte : UInt8 := 0x5b
def blobTypeDefault : UInt8 := 0x82
def multihashBlake3 : UInt8 := 0x1e

/-- `u64::to_le_bytes`. -/
def toLeBytes (size : UInt64) : Bytes := LittleEndian.bytes 8 size.toNat

/-- `u64::from_le_bytes`. -/
def fromLeBytes (bs : Bytes) : UInt64 := UInt64.ofNat (LittleEndian.value bs)

/-- `rposition`: the index of the last byte that meets `p`. -/
def rposition (p : UInt8 → Bool) (bs : Bytes) : Option Nat :=
  (bs.reverse.findIdx? p).map (bs.length - 1 - ·)

/-- Without the zero bytes at the end. -/
def truncate (sizeBytes : Bytes) : Bytes :=
  match rposition (· ≠ 0) sizeBytes with
  | some pos => sizeBytes.take (pos + 1)
  | none => []

def toBytes (id : BlobId) : Bytes :=
  let prefixBytes := [s5MagicByte, blobTypeDefault, multihashBlake3]
  let sizeBytes := truncate (toLeBytes id.size)
  prefixBytes ++ (Bytes32.toBytes id.hash ++ sizeBytes)

/-- `parse`, of the bytes of the text. -/
def parseBytes {E : Type} (bytes : Bytes) : Except (BlobIdError E) BlobId :=
  if bytes.length < 35 then .error (.invalidLength bytes.length)
  else
    let byte (i : Nat) := bytes.getD i 0
    if byte 0 ≠ s5MagicByte then .error (.invalidMagicByte s5MagicByte (byte 0))
    else if byte 1 ≠ blobTypeDefault then .error (.invalidBlobType blobTypeDefault (byte 1))
    else if byte 2 ≠ multihashBlake3 then
      .error (.invalidMultihashType multihashBlake3 (byte 2))
    else
      let hash := (bytes.drop 3).take 32
      let sizeSlice := bytes.drop 35
      if sizeSlice.length > 8 then .error (.invalidLength bytes.length)
      else
        -- the bytes there are, padded with zeros
        let sizeBytes := sizeSlice ++ List.replicate (8 - sizeSlice.length) 0
        .ok ⟨Bytes32.ofBytes hash, fromLeBytes sizeBytes⟩

section
variable (m : Multibase)

def parse (s : String) : Except (BlobIdError m.Error) BlobId :=
  match m.decode s with
  | .error e => .error (.multibase e)
  | .ok (_, bytes) => parseBytes bytes

def toBase16 (id : BlobId) : String := m.encode m.base16Lower id.toBytes

def toBase32 (id : BlobId) : String := m.encode m.base32Lower id.toBytes

def toBase58 (id : BlobId) : String := m.encode m.base58Btc id.toBytes

def toBase64Url (id : BlobId) : String := m.encode m.base64Url id.toBytes

end

end BlobId

end Identifier
