import S5.Core.Pins
import S5.Lib.BigEndian
import Mathlib.Data.Prod.Lex

/-!
# Stream messages

`StreamKey`, `MessageType` and `StreamMessage` with their wire format and their order
(`s5_core/src/stream/types/mod.rs`, `order.rs`).

* `deserialize_serialize`: a message survives the wire, up to an empty payload, which the wire
  cannot tell from a missing one (`StreamMessage.wire`).
* `cmp_eq_gt`: the order of messages is that of their ranks.
-/

/-- The bytes of a `[u8; 32]`. -/
def Bytes32.toBytes (x : Bytes32) : Bytes := BigEndian.bytes 32 x.toNat

def Bytes32.ofBytes (bs : Bytes) : Bytes32 := BitVec.ofNat 256 (BigEndian.value bs)

@[simp] theorem Bytes32.length_toBytes (x : Bytes32) : (Bytes32.toBytes x).length = 32 :=
  BigEndian.length_bytes ..

@[simp] theorem Bytes32.ofBytes_toBytes (x : Bytes32) :
    Bytes32.ofBytes (Bytes32.toBytes x) = x := by
  have hx : x.toNat < 256 ^ 32 := x.isLt
  unfold Bytes32.ofBytes Bytes32.toBytes
  rw [BigEndian.value_bytes, Nat.mod_eq_of_lt hx]
  simp

/-- `put_u64`. -/
def putU64 (x : UInt64) : Bytes := BigEndian.bytes 8 x.toNat

/-- `get_u64` of eight bytes. -/
def getU64 (bs : Bytes) : UInt64 := UInt64.ofNat (BigEndian.value bs)

@[simp] theorem length_putU64 (x : UInt64) : (putU64 x).length = 8 := BigEndian.length_bytes ..

@[simp] theorem getU64_putU64 (x : UInt64) : getU64 (putU64 x) = x := by
  have hx : x.toNat < 256 ^ 8 := x.toNat_lt
  unfold getU64 putU64
  rw [BigEndian.value_bytes, Nat.mod_eq_of_lt hx]
  simp

def maxInlineDataSize : Nat := 1024
def keySize : Nat := 32
def hashSize : Nat := 32
def signatureSize : Nat := 64

/-! ## Keys and message types -/

/-- The key of a stream or registry entry. -/
inductive StreamKey where
  | localId (id : Bytes32)
  | publicKeyEd25519 (key : Bytes32)
  | blake3HashPin (hash : Bytes32)
  deriving DecidableEq

inductive MessageType where
  | stream
  | registry
  deriving DecidableEq

inductive StreamKeyDeserializeError where
  | invalidLength (expected actual : Nat)
  | unknownId (id : UInt8)
  deriving DecidableEq

/-- `MessageTypeTryFromError(pub u8)`. -/
structure MessageTypeTryFromError where
  value : UInt8
  deriving DecidableEq

inductive StreamMessageError where
  | invalidKey (err : StreamKeyDeserializeError)
  | invalidMessageType (err : MessageTypeTryFromError)
  | signatureRequired
  | invalidSignatureLength (expected actual : Nat)
  | dataTooLarge (size max : Nat)
  | insufficientBytes
  | invalidSignature
  deriving DecidableEq

def StreamKeyDeserializeError.display : StreamKeyDeserializeError → String
  | .invalidLength expected actual => s!"invalid data length: expected {expected}, got {actual}"
  | .unknownId id => s!"unknown stream key type: {id}"

def MessageTypeTryFromError.display (e : MessageTypeTryFromError) : String :=
  s!"invalid message type: {e.value}"

def StreamMessageError.display : StreamMessageError → String
  | .invalidKey err => s!"invalid key: {err.display}"
  | .invalidMessageType err => s!"invalid message type: {err.display}"
  | .signatureRequired => "signature required for public key"
  | .invalidSignatureLength expected actual =>
    s!"invalid signature length: expected {expected}, got {actual}"
  | .dataTooLarge size max => s!"inline data too large: {size} bytes (max: {max})"
  | .insufficientBytes => "insufficient bytes for deserialization"
  | .invalidSignature => "signature verification failed"

namespace StreamKey

/-- The type id of the key and its 32 bytes. -/
def toBytes : StreamKey → UInt8 × Bytes
  | localId id => (0, Bytes32.toBytes id)
  | publicKeyEd25519 key => (1, Bytes32.toBytes key)
  | blake3HashPin hash => (3, Bytes32.toBytes hash)

def fromBytes (id : UInt8) (data : Bytes) : Except StreamKeyDeserializeError StreamKey :=
  if data.length ≠ keySize then .error (.invalidLength keySize data.length)
  else if id = 0 then .ok (localId (Bytes32.ofBytes data))
  else if id = 1 then .ok (publicKeyEd25519 (Bytes32.ofBytes data))
  else if id = 3 then .ok (blake3HashPin (Bytes32.ofBytes data))
  else .error (.unknownId id)

def signatureLen : StreamKey → Nat
  | publicKeyEd25519 _ => signatureSize
  | _ => 0

def requiresSignature (key : StreamKey) : Bool := 0 < key.signatureLen

def enforceInlineLimit : StreamKey → Bool
  | blake3HashPin _ => false
  | _ => true

@[simp] theorem length_toBytes (key : StreamKey) : key.toBytes.2.length = keySize := by
  cases key <;> exact Bytes32.length_toBytes _

@[simp] theorem fromBytes_toBytes (key : StreamKey) :
    fromBytes key.toBytes.1 key.toBytes.2 = .ok key := by
  unfold fromBytes
  rw [if_neg (not_not.2 key.length_toBytes)]
  cases key <;> simp [toBytes]

theorem toBytes_injective : Function.Injective toBytes := by
  intro a b h
  have hb : fromBytes a.toBytes.1 a.toBytes.2 = .ok b := by rw [h]; exact fromBytes_toBytes b
  rw [fromBytes_toBytes] at hb
  exact Except.ok.inj hb

end StreamKey

namespace MessageType

/-- `type_id as u8`. -/
def toByte : MessageType → UInt8
  | stream => 0
  | registry => 1

def tryFrom (value : UInt8) : Except MessageTypeTryFromError MessageType :=
  if value = 0 then .ok stream
  else if value = 1 then .ok registry
  else .error ⟨value⟩

@[simp] theorem tryFrom_toByte (t : MessageType) : tryFrom t.toByte = .ok t := by
  cases t <;> rfl

end MessageType

/-! ## Messages -/

/-- A message of a stream or an update of a registry entry, as `StreamMessage::new` admits it:
with a signature of the length its key asks for, and inline data within the limit. -/
@[ext] structure StreamMessage where
  typeId : MessageType
  key : StreamKey
  revision : UInt64
  hash : Hash
  signature : Bytes
  data : Option Bytes
  signature_length : signature.length = key.signatureLen
  data_length : key.enforceInlineLimit → data.elim 0 List.length ≤ maxInlineDataSize
  deriving DecidableEq

namespace StreamMessage

/-- `StreamMessage::new`: lengths are checked, the signature is not verified. -/
def new (typeId : MessageType) (key : StreamKey) (revision : UInt64) (hash : Hash)
    (signature : Bytes) (data : Option Bytes) : Except StreamMessageError StreamMessage :=
  if key.requiresSignature ∧ signature.isEmpty then .error .signatureRequired
  else if hs : signature.length ≠ key.signatureLen then
    .error (.invalidSignatureLength key.signatureLen signature.length)
  else if hd : key.enforceInlineLimit ∧ maxInlineDataSize < data.elim 0 List.length then
    .error (.dataTooLarge (data.elim 0 List.length) maxInlineDataSize)
  else .ok {
    typeId, key, revision, hash, signature, data
    signature_length := not_not.1 hs
    data_length := fun he => Nat.not_lt.1 fun hlt => hd ⟨he, hlt⟩ }

def serialize (m : StreamMessage) : Bytes :=
  m.typeId.toByte :: m.key.toBytes.1 ::
    (m.key.toBytes.2 ++ (putU64 m.revision ++ (Bytes32.toBytes m.hash ++
      (m.signature ++ m.data.getD []))))

/-- `StreamMessage::deserialize`; what follows the signature is the inline data. -/
def deserialize : Bytes → Except StreamMessageError StreamMessage
  | typeByte :: keyId :: bytes =>
    if bytes.length < keySize + 8 + hashSize then .error .insufficientBytes
    else
      match MessageType.tryFrom typeByte with
      | .error e => .error (.invalidMessageType e)
      | .ok typeId =>
        match StreamKey.fromBytes keyId (bytes.take keySize) with
        | .error e => .error (.invalidKey e)
        | .ok key =>
          let bytes := bytes.drop keySize
          let revision := getU64 (bytes.take 8)
          let bytes := bytes.drop 8
          let hash := Bytes32.ofBytes (bytes.take hashSize)
          let bytes := bytes.drop hashSize
          if bytes.length < key.signatureLen then .error .insufficientBytes
          else
            let signature := bytes.take key.signatureLen
            let bytes := bytes.drop key.signatureLen
            new typeId key revision hash signature (if bytes.isEmpty then none else some bytes)
  | _ => .error .insufficientBytes

/-- The message the wire carries: an empty payload is a missing one. -/
def wire (m : StreamMessage) : StreamMessage :=
  { m with
    data := if m.data.getD [] = [] then none else m.data
    data_length := fun he => by
      split
      · exact Nat.zero_le _
      · exact m.data_length he }

theorem new_self (m : StreamMessage) :
    new m.typeId m.key m.revision m.hash m.signature m.data = .ok m := by
  have hs : ¬ (m.key.requiresSignature ∧ m.signature.isEmpty) := by
    rintro ⟨hr, he⟩
    have h0 : m.signature.length = 0 := by simpa using he
    simp [StreamKey.requiresSignature, ← m.signature_length, h0] at hr
  have hd : ¬ (m.key.enforceInlineLimit ∧ maxInlineDataSize < m.data.elim 0 List.length) :=
    fun h => absurd (m.data_length h.1) (Nat.not_le.2 h.2)
  unfold new
  rw [if_neg hs, dif_neg (not_not.2 m.signature_length), dif_neg hd]

/-- **A message survives the wire.** -/
theorem deserialize_serialize (m : StreamMessage) : deserialize m.serialize = .ok m.wire := by
  have hk : (m.key.toBytes.2 ++ (putU64 m.revision ++ (Bytes32.toBytes m.hash ++
      (m.signature ++ m.data.getD [])))).length ≥ keySize + 8 + hashSize := by
    simp [hashSize]; omega
  have hh : (Bytes32.toBytes m.hash).length = hashSize := Bytes32.length_toBytes _
  have hd : (if (m.data.getD []).isEmpty then none else some (m.data.getD [])) = m.wire.data := by
    cases hm : m.data with
    | none => simp [wire, hm]
    | some d => cases d <;> simp [wire, hm]
  unfold serialize deserialize
  dsimp only
  rw [if_neg (Nat.not_lt.2 hk), MessageType.tryFrom_toByte]
  dsimp only
  rw [List.take_left' m.key.length_toBytes, StreamKey.fromBytes_toBytes]
  dsimp only
  rw [List.drop_left' m.key.length_toBytes, List.take_left' (length_putU64 _), getU64_putU64,
    List.drop_left' (length_putU64 _), List.take_left' hh, Bytes32.ofBytes_toBytes,
    List.drop_left' hh,
    if_neg (by simp [m.signature_length]), List.take_left' m.signature_length,
    List.drop_left' m.signature_length, hd]
  exact new_self m.wire

@[simp] theorem wire_wire (m : StreamMessage) : m.wire.wire = m.wire := by
  unfold wire
  congr 1
  split <;> simp_all

theorem wire_eq_self {m : StreamMessage} (h : m.data ≠ some []) : m.wire = m := by
  have hd : m.wire.data = m.data := by
    show (if m.data.getD [] = [] then none else m.data) = m.data
    cases hm : m.data with
    | none => rfl
    | some d =>
      have hne : d ≠ [] := fun he => h (by rw [hm, he])
      simp [hne]
  exact StreamMessage.ext rfl rfl rfl rfl rfl hd

/-- What `StreamMessage::new` has checked and built. -/
theorem new_eq_ok {typeId : MessageType} {key : StreamKey} {revision : UInt64} {hash : Hash}
    {signature : Bytes} {data : Option Bytes} {m : StreamMessage}
    (h : new typeId key revision hash signature data = .ok m) :
    m.typeId = typeId ∧ m.key = key ∧ m.revision = revision ∧ m.hash = hash ∧
      m.signature = signature ∧ m.data = data := by
  unfold new at h
  split at h
  · exact nomatch h
  · split at h
    · exact nomatch h
    · split at h
      · exact nomatch h
      · cases h
        exact ⟨rfl, rfl, rfl, rfl, rfl, rfl⟩

/-- A message from the wire is as the wire carries it. -/
theorem wire_of_deserialize {bytes : Bytes} {m : StreamMessage}
    (h : deserialize bytes = .ok m) : m.wire = m := by
  unfold deserialize at h
  split at h
  · split at h
    · exact nomatch h
    · split at h
      · exact nomatch h
      · split at h
        · exact nomatch h
        · dsimp only at h
          split at h
          · exact nomatch h
          · apply wire_eq_self
            rw [(new_eq_ok h).2.2.2.2.2]
            split
            · simp
            · rename_i hne
              simpa using hne
  · exact nomatch h

/-! ## The order -/

/-- `Ord::cmp`: the higher revision is greater, and of two equal ones that of the smaller hash. -/
def cmp (a b : StreamMessage) : Ordering :=
  (compare a.revision.toNat b.revision.toNat).then (compare b.hash.toNat a.hash.toNat)

def shouldStore (m : StreamMessage) (existing : Option StreamMessage) : Bool :=
  match m.typeId with
  | .stream => true
  | .registry => existing.all fun e => m.cmp e = .gt

/-- What the order compares: the revision, then the hash, the smaller one first. -/
def rank (m : StreamMessage) : Lex (Nat × Natᵒᵈ) :=
  toLex (m.revision.toNat, OrderDual.toDual m.hash.toNat)

@[simp] theorem rank_wire (m : StreamMessage) : m.wire.rank = m.rank := rfl

@[simp] theorem key_wire (m : StreamMessage) : m.wire.key = m.key := rfl

/-- **The order of messages is that of their ranks.** -/
theorem cmp_eq_gt {a b : StreamMessage} : a.cmp b = .gt ↔ b.rank < a.rank := by
  unfold cmp rank
  rw [Prod.Lex.toLex_lt_toLex, Ordering.then_eq_gt, compare_gt_iff_gt, compare_gt_iff_gt,
    compare_eq_iff_eq, eq_comm]
  rfl

end StreamMessage
