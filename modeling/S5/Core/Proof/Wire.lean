import S5.Core.Stream

/-!
# The wire format of stream messages

`StreamMessage::deserialize` reads its bytes through a buffer that panics when it is read past its
end (`StreamMessage.deserializeBuf`).

* `decode_encode_iff`: a message is read back as it was exactly if its payload is not an empty one.
* `accepts_wire_format`: `deserialize` never reads past the end, takes exactly the byte strings of the
  wire format (`WireFormat`), with the fields at their places in the table (`Table`), and each of them
  is what its message is serialized as.
-/

/-! ## Numbers and keys from their bytes -/

theorem BigEndian.value_lt : ∀ bs : Bytes, value bs < 256 ^ bs.length := by
  intro bs
  induction bs using List.reverseRecOn with
  | nil => exact Nat.one_pos
  | append_singleton bs b ih =>
    have hb : b.toNat < 256 := b.toNat_lt
    rw [value_append_singleton, List.length_append, List.length_singleton, Nat.pow_succ]
    omega

/-- Bytes are those of the number they spell. -/
theorem BigEndian.bytes_value : ∀ bs : Bytes, bytes bs.length (value bs) = bs := by
  intro bs
  induction bs using List.reverseRecOn with
  | nil => rfl
  | append_singleton bs b ih =>
    have hb : b.toNat < 256 := b.toNat_lt
    have hdiv : (256 * value bs + b.toNat) / 256 = value bs := by omega
    have hmod : UInt8.ofNat (256 * value bs + b.toNat) = b := by
      apply UInt8.toNat.inj
      rw [UInt8.toNat_ofNat']
      omega
    rw [List.length_append, List.length_singleton, value_append_singleton, bytes, hdiv, hmod, ih]

theorem Bytes32.toBytes_ofBytes {bs : Bytes} (h : bs.length = 32) : toBytes (ofBytes bs) = bs := by
  have hlt : BigEndian.value bs < 2 ^ 256 := by
    have hv := BigEndian.value_lt bs
    rw [h] at hv
    exact hv
  unfold toBytes ofBytes
  rw [BitVec.toNat_ofNat, Nat.mod_eq_of_lt hlt, ← h]
  exact BigEndian.bytes_value bs

theorem toNat_getU64 {bs : Bytes} (h : bs.length = 8) : (getU64 bs).toNat = BigEndian.value bs := by
  have hlt : BigEndian.value bs < 2 ^ 64 := by
    have hv := BigEndian.value_lt bs
    rw [h] at hv
    exact hv
  unfold getU64
  rw [UInt64.toNat_ofNat', Nat.mod_eq_of_lt hlt]

theorem putU64_getU64 {bs : Bytes} (h : bs.length = 8) : putU64 (getU64 bs) = bs := by
  unfold putU64
  rw [toNat_getU64 h, ← h]
  exact BigEndian.bytes_value bs

theorem MessageType.toByte_of_tryFrom {b : UInt8} {t : MessageType} (h : tryFrom b = .ok t) :
    t.toByte = b := by
  unfold tryFrom at h
  split at h
  · rename_i hb
    cases h
    exact hb.symm
  · split at h
    · rename_i hb
      cases h
      exact hb.symm
    · cases h

theorem StreamKey.toBytes_of_fromBytes {id : UInt8} {data : Bytes} {key : StreamKey}
    (h : fromBytes id data = .ok key) : key.toBytes = (id, data) := by
  unfold fromBytes at h
  split at h
  · cases h
  · rename_i hlen
    have hdata : Bytes32.toBytes (Bytes32.ofBytes data) = data :=
      Bytes32.toBytes_ofBytes (not_not.1 hlen)
    repeat' split at h
    all_goals cases h
    all_goals simp [toBytes, *]

/-! ## Buffers -/

namespace Buf

/-- `Buf::get_u8`; past the end it panics. -/
def getU8 : Bytes → Option (UInt8 × Bytes)
  | [] => none
  | b :: bytes => some (b, bytes)

/-- `Buf::copy_to_slice` of `n` bytes. -/
def copyToSlice (n : Nat) (bytes : Bytes) : Option (Bytes × Bytes) :=
  if bytes.length < n then none else some (bytes.take n, bytes.drop n)

theorem copyToSlice_append {n : Nat} {front : Bytes} (h : front.length = n) (rest : Bytes) :
    copyToSlice n (front ++ rest) = some (front, rest) := by
  unfold copyToSlice
  rw [if_neg (by simp [h]), List.take_left' h, List.drop_left' h]

end Buf

namespace StreamMessage

/-- `StreamMessage::deserialize` on its buffer; `none` is a panic. -/
def deserializeBuf (bytes : Bytes) : Option (Except StreamMessageError StreamMessage) :=
  if bytes.length < 1 + 1 + keySize + 8 + hashSize then some (.error .insufficientBytes)
  else do
    let (typeByte, bytes) ← Buf.getU8 bytes
    match MessageType.tryFrom typeByte with
    | .error e => return .error (.invalidMessageType e)
    | .ok typeId =>
      let (keyId, bytes) ← Buf.getU8 bytes
      let (keyBytes, bytes) ← Buf.copyToSlice keySize bytes
      match StreamKey.fromBytes keyId keyBytes with
      | .error e => return .error (.invalidKey e)
      | .ok key =>
        let (revision, bytes) ← Buf.copyToSlice 8 bytes
        let (hashBytes, bytes) ← Buf.copyToSlice hashSize bytes
        if bytes.length < key.signatureLen then return .error .insufficientBytes
        else
          let (signature, bytes) ← Buf.copyToSlice key.signatureLen bytes
          return new typeId key (getU64 revision) (Bytes32.ofBytes hashBytes) signature
            (if bytes.isEmpty then none else some bytes)

/-! ## The table -/

/-- The fields of a message at their places in the wire format. -/
structure Table (bytes : Bytes) (m : StreamMessage) : Prop where
  messageType : bytes[0]? = some m.typeId.toByte
  keyType : bytes[1]? = some m.key.toBytes.1
  keyData : (bytes.drop 2).take 32 = m.key.toBytes.2
  revision : BigEndian.value ((bytes.drop 34).take 8) = m.revision.toNat
  hash : (bytes.drop 42).take 32 = Bytes32.toBytes m.hash
  signature : (bytes.drop 74).take m.key.signatureLen = m.signature
  data : m.data = match bytes.drop (74 + m.key.signatureLen) with
    | [] => none
    | rest => some rest

/-- What follows the signature. -/
def tailOf (bytes : Bytes) : Bytes := bytes.drop (if bytes[1]? = some 1 then 138 else 74)

/-- The byte strings of the wire format. -/
def WireFormat (bytes : Bytes) : Prop :=
  74 ≤ bytes.length ∧ (bytes[0]? = some 0 ∨ bytes[0]? = some 1) ∧
    (bytes[1]? = some 0 ∨ bytes[1]? = some 1 ∨ bytes[1]? = some 3) ∧
    (bytes[1]? = some 1 → 64 ≤ (bytes.drop 74).length) ∧
    (bytes[1]? ≠ some 3 → (tailOf bytes).length ≤ 1024)

/-- The header and what follows it. -/
structure Layout (bytes : Bytes) where
  typeByte : UInt8
  keyId : UInt8
  key : Bytes
  revision : Bytes
  hash : Bytes
  rest : Bytes
  key_length : key.length = keySize
  revision_length : revision.length = 8
  hash_length : hash.length = hashSize
  eq : bytes = typeByte :: keyId :: (key ++ (revision ++ (hash ++ rest)))

/-- Enough bytes for a header have one. -/
theorem exists_layout {bytes : Bytes} (h : ¬ bytes.length < 1 + 1 + keySize + 8 + hashSize) :
    Nonempty (Layout bytes) := by
  have hlen : 74 ≤ bytes.length := Nat.not_lt.1 h
  match bytes, hlen with
  | typeByte :: keyId :: tail, hlen =>
    have hlen' : 72 ≤ tail.length := by
      simp only [List.length_cons] at hlen
      omega
    refine ⟨typeByte, keyId, tail.take 32, (tail.drop 32).take 8, (tail.drop 40).take 32, tail.drop 72,
      ?_, ?_, ?_, ?_⟩
    · simp [keySize]
      omega
    · simp
      omega
    · simp [hashSize]
      omega
    · have h1 : tail.drop 40 = (tail.drop 40).take 32 ++ tail.drop 72 := by
        rw [← List.drop_drop (i := 32) (j := 40), List.take_append_drop]
      have h2 : tail.drop 32 = (tail.drop 32).take 8 ++ tail.drop 40 := by
        rw [← List.drop_drop (i := 8) (j := 32), List.take_append_drop]
      rw [← h1, ← h2, List.take_append_drop]

namespace Layout

variable {bytes : Bytes} (l : Layout bytes)

/-- What is read from the header and what follows it. -/
def read : Except StreamMessageError StreamMessage :=
  match MessageType.tryFrom l.typeByte with
  | .error e => .error (.invalidMessageType e)
  | .ok typeId =>
    match StreamKey.fromBytes l.keyId l.key with
    | .error e => .error (.invalidKey e)
    | .ok key =>
      if l.rest.length < key.signatureLen then .error .insufficientBytes
      else new typeId key (getU64 l.revision) (Bytes32.ofBytes l.hash) (l.rest.take key.signatureLen)
        (if (l.rest.drop key.signatureLen).isEmpty then none else some (l.rest.drop key.signatureLen))

theorem deserialize_eq : deserialize bytes = l.read := by
  obtain ⟨typeByte, keyId, key, revision, hash, rest, hk, hr, hh, rfl⟩ := l
  have hlen : ¬ (key ++ (revision ++ (hash ++ rest))).length < keySize + 8 + hashSize := by
    simp only [List.length_append, hk, hr, hh]
    omega
  simp only [deserialize, if_neg hlen, List.take_left' hk, List.drop_left' hk, List.take_left' hr,
    List.drop_left' hr, List.take_left' hh, List.drop_left' hh]
  rfl

/-- No read goes past the end. -/
theorem deserializeBuf_eq : deserializeBuf bytes = some l.read := by
  obtain ⟨typeByte, keyId, key, revision, hash, rest, hk, hr, hh, rfl⟩ := l
  have hlen : ¬ (typeByte :: keyId :: (key ++ (revision ++ (hash ++ rest)))).length <
      1 + 1 + keySize + 8 + hashSize := by
    simp only [List.length_cons, List.length_append, hk, hr, hh]
    omega
  simp only [deserializeBuf, if_neg hlen, Buf.getU8, Buf.copyToSlice_append hk,
    Buf.copyToSlice_append hr, Buf.copyToSlice_append hh, Option.bind_eq_bind, Option.bind_some, read]
  cases MessageType.tryFrom typeByte with
  | error e => rfl
  | ok typeId =>
    dsimp only
    cases StreamKey.fromBytes keyId key with
    | error e => rfl
    | ok key =>
      dsimp only
      split
      · rfl
      · rename_i hs
        simp only [Buf.copyToSlice, if_neg hs, Option.bind_some]
        rfl

end Layout

theorem deserializeBuf_eq (bytes : Bytes) : deserializeBuf bytes = some (deserialize bytes) := by
  by_cases h : bytes.length < 1 + 1 + keySize + 8 + hashSize
  · have herr : deserialize bytes = .error .insufficientBytes := by
      unfold deserialize
      split
      · rename_i typeByte keyId tail
        rw [if_pos]
        simp only [List.length_cons] at h
        omega
      · rfl
    rw [herr, deserializeBuf, if_pos h]
  · obtain ⟨l⟩ := exists_layout h
    rw [l.deserializeBuf_eq, l.deserialize_eq]

/-! ## What is accepted -/

/-- What is read is serialized as the bytes it was read from. -/
theorem serialize_of_deserialize {bytes : Bytes} {m : StreamMessage} (h : deserialize bytes = .ok m) :
    m.serialize = bytes := by
  by_cases hlen : bytes.length < 1 + 1 + keySize + 8 + hashSize
  · have hbuf := deserializeBuf_eq bytes
    rw [deserializeBuf, if_pos hlen, h] at hbuf
    cases hbuf
  · obtain ⟨l⟩ := exists_layout hlen
    rw [l.deserialize_eq, Layout.read] at h
    split at h
    · cases h
    · rename_i typeId htype
      split at h
      · cases h
      · rename_i key hkey
        split at h
        · cases h
        · obtain ⟨h1, h2, h3, h4, h5, h6⟩ := new_eq_ok h
          have hrest : m.signature ++ m.data.getD [] = l.rest := by
            have hdata : m.data.getD [] = l.rest.drop key.signatureLen := by
              rw [h6]
              split
              · rename_i he
                exact (List.isEmpty_iff.1 he).symm
              · rfl
            rw [h5, hdata, List.take_append_drop]
          have hhash : Bytes32.toBytes (Bytes32.ofBytes l.hash) = l.hash :=
            Bytes32.toBytes_ofBytes l.hash_length
          rw [serialize, h1, h2, MessageType.toByte_of_tryFrom htype,
            StreamKey.toBytes_of_fromBytes hkey, h3, putU64_getU64 l.revision_length, h4, hhash,
            hrest]
          exact l.eq.symm

/-- The places of the fields in what a message is serialized as. -/
theorem serialize_drop (m : StreamMessage) :
    m.serialize.drop 2 =
        m.key.toBytes.2 ++ (putU64 m.revision ++ (Bytes32.toBytes m.hash ++
          (m.signature ++ m.data.getD []))) ∧
      m.serialize.drop 34 = putU64 m.revision ++ (Bytes32.toBytes m.hash ++
        (m.signature ++ m.data.getD [])) ∧
      m.serialize.drop 42 = Bytes32.toBytes m.hash ++ (m.signature ++ m.data.getD []) ∧
      m.serialize.drop 74 = m.signature ++ m.data.getD [] := by
  have h2 : m.serialize.drop 2 =
      m.key.toBytes.2 ++ (putU64 m.revision ++ (Bytes32.toBytes m.hash ++
        (m.signature ++ m.data.getD []))) := rfl
  have h34 : m.serialize.drop 34 = putU64 m.revision ++ (Bytes32.toBytes m.hash ++
      (m.signature ++ m.data.getD [])) := by
    have hkey : m.key.toBytes.2.length = 32 := m.key.length_toBytes
    rw [show 34 = 2 + 32 from rfl, ← List.drop_drop, h2, List.drop_left' hkey]
  have h42 : m.serialize.drop 42 = Bytes32.toBytes m.hash ++ (m.signature ++ m.data.getD []) := by
    rw [show 42 = 34 + 8 from rfl, ← List.drop_drop, h34, List.drop_left' (length_putU64 _)]
  refine ⟨h2, h34, h42, ?_⟩
  rw [show 74 = 42 + 32 from rfl, ← List.drop_drop, h42, List.drop_left' (Bytes32.length_toBytes _)]

theorem table_serialize {m : StreamMessage} (h : m.data ≠ some []) : Table m.serialize m := by
  obtain ⟨h2, h34, h42, h74⟩ := m.serialize_drop
  refine ⟨rfl, rfl, ?_, ?_, ?_, ?_, ?_⟩
  · have hkey : m.key.toBytes.2.length = 32 := m.key.length_toBytes
    rw [h2, List.take_left' hkey]
  · have hlt : m.revision.toNat < 256 ^ 8 := m.revision.toNat_lt
    rw [h34, List.take_left' (length_putU64 _), putU64, BigEndian.value_bytes, Nat.mod_eq_of_lt hlt]
  · rw [h42, List.take_left' (Bytes32.length_toBytes _)]
  · rw [h74, List.take_left' m.signature_length]
  · rw [← List.drop_drop, h74, List.drop_left' m.signature_length]
    rcases hm : m.data with _ | (_ | ⟨b, bs⟩)
    · rfl
    · exact absurd hm h
    · rfl

/-- **What a message is serialized as is of the wire format.** -/
theorem wireFormat_serialize (m : StreamMessage) : WireFormat m.serialize := by
  obtain ⟨-, -, -, h74⟩ := m.serialize_drop
  have hlen : m.serialize.length = 74 + (m.signature.length + (m.data.getD []).length) := by
    simp only [serialize, List.length_cons, List.length_append, StreamKey.length_toBytes, keySize,
      length_putU64, Bytes32.length_toBytes]
    omega
  have hkey : m.serialize[1]? = some m.key.toBytes.1 := rfl
  have hdata : m.data.elim 0 List.length = (m.data.getD []).length := by
    cases m.data <;> rfl
  have hsig := m.signature_length
  have hlimit := m.data_length
  rw [hdata] at hlimit
  refine ⟨by omega, ?_, ?_, ?_, ?_⟩
  · show some m.typeId.toByte = some 0 ∨ some m.typeId.toByte = some 1
    cases m.typeId with
    | stream => exact .inl rfl
    | registry => exact .inr rfl
  · rw [hkey]
    cases m.key with
    | localId id => exact .inl rfl
    | publicKeyEd25519 key => exact .inr (.inl rfl)
    | blake3HashPin hash => exact .inr (.inr rfl)
  · intro h1
    rw [h74, List.length_append, hsig]
    rw [hkey] at h1
    cases hk : m.key with
    | publicKeyEd25519 key => exact Nat.le_add_right _ _
    | localId id => simp [hk, StreamKey.toBytes] at h1
    | blake3HashPin hash => simp [hk, StreamKey.toBytes] at h1
  · intro h3
    rw [hkey] at h3
    have htail : (tailOf m.serialize).length = (m.data.getD []).length := by
      unfold tailOf
      rw [hkey, List.length_drop, hlen, hsig]
      cases m.key with
      | localId id => simp [StreamKey.toBytes, StreamKey.signatureLen]
      | publicKeyEd25519 key => simp [StreamKey.toBytes, StreamKey.signatureLen, signatureSize]; omega
      | blake3HashPin hash => simp [StreamKey.toBytes, StreamKey.signatureLen]
    rw [htail]
    refine hlimit ?_
    cases hk : m.key with
    | blake3HashPin hash => simp [hk, StreamKey.toBytes] at h3
    | localId id => rfl
    | publicKeyEd25519 key => rfl

/-- **Every byte string of the wire format is read.** -/
theorem exists_of_wireFormat {bytes : Bytes} (h : WireFormat bytes) : ∃ m, deserialize bytes = .ok m := by
  obtain ⟨hlen, htype, hkey, hsig, htail⟩ := h
  obtain ⟨l⟩ := exists_layout (Nat.not_lt.2 hlen)
  have h0 : bytes[0]? = some l.typeByte := by
    conv_lhs => rw [l.eq]
    rfl
  have h1 : bytes[1]? = some l.keyId := by
    conv_lhs => rw [l.eq]
    rfl
  have h74 : bytes.drop 74 = l.rest := by
    conv_lhs => rw [l.eq]
    have hk : l.key.length = 32 := l.key_length
    have hh : l.hash.length = 32 := l.hash_length
    rw [show 74 = 2 + (32 + (8 + 32)) from rfl, ← List.drop_drop, ← List.drop_drop, ← List.drop_drop]
    show List.drop 32 (List.drop 8 (List.drop 32 (l.key ++ (l.revision ++ (l.hash ++ l.rest))))) = _
    rw [List.drop_left' hk, List.drop_left' l.revision_length, List.drop_left' hh]
  rw [h0, Option.some.injEq, Option.some.injEq] at htype
  rw [h1, Option.some.injEq, Option.some.injEq, Option.some.injEq] at hkey
  rw [h1, Option.some.injEq, h74] at hsig
  obtain ⟨typeId, htypeId⟩ : ∃ t, MessageType.tryFrom l.typeByte = .ok t := by
    rcases htype with ht | ht
    · exact ⟨.stream, by rw [ht]; rfl⟩
    · exact ⟨.registry, by rw [ht]; rfl⟩
  obtain ⟨key, hkeyId⟩ : ∃ k, StreamKey.fromBytes l.keyId l.key = .ok k := by
    unfold StreamKey.fromBytes
    rw [if_neg (not_not.2 l.key_length)]
    rcases hkey with hk | hk | hk
    · exact ⟨_, by rw [hk]; rfl⟩
    · exact ⟨_, by rw [hk]; rfl⟩
    · exact ⟨_, by rw [hk]; rfl⟩
  have hid : key.toBytes.1 = l.keyId := by rw [StreamKey.toBytes_of_fromBytes hkeyId]
  have hlimit : key.enforceInlineLimit = true →
      (l.rest.drop key.signatureLen).length ≤ maxInlineDataSize := by
    intro he
    have h3 : bytes[1]? ≠ some 3 := by
      rw [h1, ← hid]
      cases key with
      | blake3HashPin hash => cases he
      | localId id => simp [StreamKey.toBytes]
      | publicKeyEd25519 key => simp [StreamKey.toBytes]
    have ht := htail h3
    unfold tailOf at ht
    rw [h1, ← hid] at ht
    cases key with
    | blake3HashPin hash => cases he
    | localId id =>
      rw [if_neg (by simp [StreamKey.toBytes]), h74] at ht
      exact ht
    | publicKeyEd25519 key =>
      rw [if_pos (by simp [StreamKey.toBytes]), show 138 = 74 + 64 from rfl, ← List.drop_drop, h74] at ht
      exact ht
  have henough : ¬ l.rest.length < key.signatureLen := by
    cases key with
    | publicKeyEd25519 key => exact Nat.not_lt.2 (hsig hid.symm)
    | localId id => exact Nat.not_lt_zero _
    | blake3HashPin hash => exact Nat.not_lt_zero _
  let m : StreamMessage := {
    typeId, key
    revision := getU64 l.revision
    hash := Bytes32.ofBytes l.hash
    signature := l.rest.take key.signatureLen
    data := if (l.rest.drop key.signatureLen).isEmpty then none
      else some (l.rest.drop key.signatureLen)
    signature_length := by rw [List.length_take, Nat.min_eq_left (Nat.not_lt.1 henough)]
    data_length := by
      intro he
      split
      · exact Nat.zero_le _
      · exact hlimit he }
  refine ⟨m, ?_⟩
  rw [l.deserialize_eq]
  simp only [Layout.read, htypeId, hkeyId, if_neg henough]
  exact new_self m

/-- **`deserialize` accepts exactly the wire format**: it does not panic, the fields are where the
table has them, and only one byte string is read as a given message. -/
theorem accepts_wire_format (bytes : Bytes) :
    deserializeBuf bytes = some (deserialize bytes) ∧
      ((∃ m, deserialize bytes = .ok m) ↔ WireFormat bytes) ∧
      (∀ m, deserialize bytes = .ok m → Table bytes m ∧ m.serialize = bytes) ∧
      ∀ bytes' m, deserialize bytes = .ok m → deserialize bytes' = .ok m → bytes = bytes' := by
  refine ⟨deserializeBuf_eq bytes, ⟨?_, exists_of_wireFormat⟩, ?_, ?_⟩
  · rintro ⟨m, hm⟩
    have hw := wireFormat_serialize m
    rw [serialize_of_deserialize hm] at hw
    exact hw
  · intro m hm
    have hne : m.data ≠ some [] := by
      intro he
      have hd := congrArg StreamMessage.data (wire_of_deserialize hm)
      rw [he] at hd
      simp [wire, he] at hd
    have htable := table_serialize hne
    rw [serialize_of_deserialize hm] at htable
    exact ⟨htable, serialize_of_deserialize hm⟩
  · intro bytes' m hm hm'
    rw [← serialize_of_deserialize hm, serialize_of_deserialize hm']

/-! ## The round trip -/

/-- **Decoding undoes encoding** exactly if the payload is not an empty one: it comes back as none. -/
theorem decode_encode_iff (m : StreamMessage) :
    deserialize m.serialize = .ok m ↔ m.data ≠ some [] := by
  rw [deserialize_serialize]
  constructor
  · intro h he
    have hd := congrArg StreamMessage.data (Except.ok.inj h)
    rw [he] at hd
    simp [wire, he] at hd
  · intro h
    rw [wire_eq_self h]

theorem unsigned_localId : ([] : Bytes).length = (StreamKey.localId 7).signatureLen := rfl

/-- A message for a local key with an empty payload. -/
def emptyPayload : StreamMessage where
  typeId := .registry
  key := .localId 7
  revision := 1
  hash := 0
  signature := []
  data := some []
  signature_length := unsigned_localId
  data_length _ := Nat.zero_le _

/-- `StreamMessage::new` admits an empty payload, and the wire loses it. -/
theorem empty_payload_lost :
    new .registry (.localId 7) 1 0 [] (some []) = .ok emptyPayload ∧
      deserialize emptyPayload.serialize ≠ .ok emptyPayload := by
  refine ⟨new_self emptyPayload, fun h => ?_⟩
  rw [deserialize_serialize] at h
  have hd := congrArg StreamMessage.data (Except.ok.inj h)
  exact absurd hd (by decide)

end StreamMessage
