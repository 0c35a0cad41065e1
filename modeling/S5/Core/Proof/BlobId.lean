import S5.Core.BlobId
import S5.Core.Proof.Wire
import S5.Lib.Base58

/-!
# Blob identifiers and their texts

* `parseBytes_eq_ok`: the bytes that are accepted, and what they are accepted as.
* `blob_id_round_trip`: every text of an identifier is parsed as it.
* `blob_id_canonical`: an accepted text has the bytes of its identifier, up to zeros at the end of its
  size.
-/

namespace Identifier

namespace BlobId

/-- The bytes before the size. -/
def header (hash : Hash) : Bytes :=
  [s5MagicByte, blobTypeDefault, multihashBlake3] ++ Bytes32.toBytes hash

theorem length_header (hash : Hash) : (header hash).length = 35 := by
  simp [header]

/-- What is kept of the size are its bytes up to the last that is not zero. -/
theorem truncate_eq_trim (bs : Bytes) : truncate bs = LittleEndian.trim bs := by
  unfold LittleEndian.trim
  induction bs using List.reverseRecOn with
  | nil => rfl
  | append_singleton bs b ih =>
    unfold truncate rposition at ih ⊢
    rw [List.reverse_append, List.reverse_singleton, List.singleton_append, List.findIdx?_cons,
      List.length_append, List.length_singleton, Nat.add_sub_cancel]
    by_cases hb : b = 0
    · subst hb
      rw [List.rdropWhile_concat_pos _ _ _ (by simp), ← ih, if_neg (by simp)]
      cases hj : bs.reverse.findIdx? (· ≠ 0) with
      | none => rfl
      | some j =>
        have hlt : j < bs.reverse.length := (List.findIdx?_eq_some_iff_getElem.1 hj).1
        rw [List.length_reverse] at hlt
        have hpos : bs.length - (j + 1) = bs.length - 1 - j := by omega
        simp only [Option.map_some, hpos]
        rw [List.take_append_of_le_length (by omega)]
    · rw [List.rdropWhile_concat_neg _ _ _ (by simpa using hb), if_pos (by simpa using hb)]
      simp

theorem toBytes_eq (id : BlobId) :
    id.toBytes = header id.hash ++ LittleEndian.trim (toLeBytes id.size) := by
  unfold toBytes header
  dsimp only
  rw [truncate_eq_trim, List.append_assoc]

theorem value_toLeBytes (size : UInt64) : LittleEndian.value (toLeBytes size) = size.toNat := by
  have hlt : size.toNat < 256 ^ 8 := size.toNat_lt
  rw [toLeBytes, LittleEndian.value_bytes, Nat.mod_eq_of_lt hlt]

theorem length_trim_toLeBytes (size : UInt64) :
    (LittleEndian.trim (toLeBytes size)).length ≤ 8 := by
  have hle := (List.rdropWhile_prefix (· = 0) (toLeBytes size)).length_le
  rwa [toLeBytes, LittleEndian.length_bytes] at hle

/-- Bytes of an identifier are its header and the rest. -/
theorem exists_header {bytes : Bytes} (hlen : 35 ≤ bytes.length)
    (h0 : bytes.getD 0 0 = s5MagicByte) (h1 : bytes.getD 1 0 = blobTypeDefault)
    (h2 : bytes.getD 2 0 = multihashBlake3) :
    bytes = header (Bytes32.ofBytes ((bytes.drop 3).take 32)) ++ bytes.drop 35 := by
  obtain ⟨a, b, c, rest, rfl⟩ : ∃ a b c rest, bytes = a :: b :: c :: rest := by
    match bytes, hlen with
    | a :: b :: c :: rest, _ => exact ⟨a, b, c, rest, rfl⟩
  simp only [List.getD_cons_zero, List.getD_cons_succ] at h0 h1 h2
  subst h0 h1 h2
  have hrest : 32 ≤ rest.length := by
    simp only [List.length_cons] at hlen
    omega
  have htake : (rest.take 32).length = 32 := by
    rw [List.length_take]
    omega
  simp only [header, List.drop_succ_cons, List.drop_zero, Bytes32.toBytes_ofBytes htake,
    List.cons_append, List.nil_append, List.take_append_drop]

/-- **What is accepted**: the bytes before the size, and at most eight bytes that spell it. -/
theorem parseBytes_eq_ok {E : Type} {bytes : Bytes} {id : BlobId} :
    parseBytes (E := E) bytes = .ok id ↔
      ∃ size : Bytes, size.length ≤ 8 ∧ bytes = header id.hash ++ size ∧
        UInt64.ofNat (LittleEndian.value size) = id.size := by
  have hpad : ∀ size : Bytes, fromLeBytes (size ++ List.replicate (8 - size.length) 0) =
      UInt64.ofNat (LittleEndian.value size) := by
    intro size
    rw [fromLeBytes, LittleEndian.value_append_zeros]
  constructor
  · intro h
    unfold parseBytes at h
    dsimp only at h
    split at h
    · cases h
    rename_i hlen
    split at h
    · cases h
    rename_i h0
    split at h
    · cases h
    rename_i h1
    split at h
    · cases h
    rename_i h2
    split at h
    · cases h
    rename_i hsize
    obtain rfl := Except.ok.inj h
    refine ⟨bytes.drop 35, by omega, ?_, (hpad _).symm⟩
    exact exists_header (by omega) (not_not.1 h0) (not_not.1 h1) (not_not.1 h2)
  · rintro ⟨size, hsize, rfl, hid⟩
    have hhash := Bytes32.length_toBytes id.hash
    have hdrop : (header id.hash ++ size).drop 35 = size := by
      rw [← length_header id.hash, List.drop_left]
    have htake : ((header id.hash ++ size).drop 3).take 32 = Bytes32.toBytes id.hash := by
      rw [← hhash]
      simp [header]
    have hlen : ¬ (header id.hash ++ size).length < 35 := by
      rw [List.length_append, length_header]
      omega
    unfold parseBytes
    dsimp only
    rw [if_neg hlen, if_neg (by simp [header]), if_neg (by simp [header]),
      if_neg (by simp [header]), hdrop, if_neg (by omega), htake, hpad, hid,
      Bytes32.ofBytes_toBytes]

/-- The bytes of an identifier are accepted as it. -/
theorem parseBytes_toBytes {E : Type} (id : BlobId) : parseBytes (E := E) id.toBytes = .ok id :=
  parseBytes_eq_ok.2 ⟨_, length_trim_toLeBytes id.size, toBytes_eq id, by
    rw [LittleEndian.value_trim, value_toLeBytes, UInt64.ofNat_toNat]⟩

theorem toBytes_injective : Function.Injective toBytes := by
  intro id id' h
  have hparse := parseBytes_toBytes (E := Empty) id
  rw [h, parseBytes_toBytes] at hparse
  exact (Except.ok.inj hparse).symm

/-- Bytes that are accepted are those of the identifier, with zeros after them where their size ends in
zeros. -/
theorem eq_of_parseBytes {E : Type} {bytes : Bytes} {id : BlobId}
    (h : parseBytes (E := E) bytes = .ok id) :
    bytes.length ≤ 43 ∧
      bytes = id.toBytes ++ List.replicate (bytes.length - id.toBytes.length) 0 ∧
        (bytes = id.toBytes ↔ (bytes.drop 35).getLast? ≠ some 0) := by
  obtain ⟨size, hsize, rfl, hid⟩ := parseBytes_eq_ok.1 h
  have hlt : LittleEndian.value size < 2 ^ 64 := by
    have hv := LittleEndian.value_lt size
    have hp := Nat.pow_le_pow_right (show 0 < 256 by omega) hsize
    omega
  have htrim : id.toBytes = header id.hash ++ LittleEndian.trim size := by
    rw [toBytes_eq, ← hid, toLeBytes, UInt64.toNat_ofNat_of_lt' hlt,
      LittleEndian.trim_bytes hsize]
  have hdrop : (header id.hash ++ size).drop 35 = size := by
    rw [← length_header id.hash, List.drop_left]
  refine ⟨?_, ?_, ?_⟩
  · rw [List.length_append, length_header]
    omega
  · rw [htrim, List.length_append, List.length_append, Nat.add_sub_add_left, List.append_assoc,
      ← LittleEndian.trim_append_zeros]
  · rw [htrim, hdrop, ← LittleEndian.trim_eq_self, List.append_cancel_left_eq]
    exact eq_comm

end BlobId

/-! ## Bases -/

inductive KnownBase where
  | base16Lower
  | base32Lower
  | base58Btc
  | base64Url
  deriving DecidableEq

inductive KnownError where
  | unknownBase
  | invalidBaseString
  deriving DecidableEq

namespace KnownBase

def hexLower : Alphabet (2 ^ 4) := ⟨"0123456789abcdef".toList, by decide, by decide⟩

def bitcoin : Alphabet 58 :=
  ⟨"123456789ABCDEFGHJKLMNPQRSTUVWXYZabcdefghijkmnopqrstuvwxyz".toList, by decide, by decide⟩

def urlSafe : Alphabet (2 ^ 6) :=
  ⟨"ABCDEFGHIJKLMNOPQRSTUVWXYZabcdefghijklmnopqrstuvwxyz0123456789-_".toList, by decide, by decide⟩

/-- The code that a text in the base starts with. -/
def code : KnownBase → Char
  | base16Lower => 'f'
  | base32Lower => 'b'
  | base58Btc => 'z'
  | base64Url => 'u'

def ofCode (c : Char) : Option KnownBase :=
  [base16Lower, base32Lower, base58Btc, base64Url].find? (·.code = c)

def encode : KnownBase → Bytes → String
  | base16Lower => BitText.encode hexLower
  | base32Lower => BitText.encode Alphabet.rfc4648Lower
  | base58Btc => Base58.encode bitcoin
  | base64Url => BitText.encode urlSafe

def decode : KnownBase → String → Option Bytes
  | base16Lower => BitText.decode hexLower
  | base32Lower => BitText.decode Alphabet.rfc4648Lower
  | base58Btc => Base58.decode bitcoin
  | base64Url => BitText.decode urlSafe

theorem ofCode_code (b : KnownBase) : ofCode b.code = some b := by
  cases b <;> decide

theorem code_of_ofCode {c : Char} {b : KnownBase} (h : ofCode c = some b) : b.code = c := by
  simpa using List.find?_some h

theorem decode_encode (b : KnownBase) (bytes : Bytes) : b.decode (b.encode bytes) = some bytes := by
  cases b with
  | base16Lower => exact BitText.decode_encode (by omega) (by omega) bytes
  | base32Lower => exact BitText.decode_encode (by omega) (by omega) bytes
  | base58Btc => exact Base58.decode_encode (by omega) bytes
  | base64Url => exact BitText.decode_encode (by omega) (by omega) bytes

theorem encode_decode {b : KnownBase} {s : String} {bytes : Bytes}
    (h : b.decode s = some bytes) : b.encode bytes = s := by
  cases b with
  | base16Lower => exact BitText.encode_decode h
  | base32Lower => exact BitText.encode_decode h
  | base58Btc => exact Base58.encode_decode (by omega) h
  | base64Url => exact BitText.encode_decode h

/-- The text of bytes, with the code of the base in front. -/
def write (b : KnownBase) (bytes : Bytes) : String := String.ofList (b.code :: (b.encode bytes).toList)

def read (s : String) : Except KnownError (KnownBase × Bytes) :=
  match s.toList with
  | [] => .error .invalidBaseString
  | c :: cs =>
    match ofCode c with
    | none => .error .unknownBase
    | some b =>
      match b.decode (String.ofList cs) with
      | none => .error .invalidBaseString
      | some bytes => .ok (b, bytes)

theorem read_write (b : KnownBase) (bytes : Bytes) : read (b.write bytes) = .ok (b, bytes) := by
  simp only [read, write, String.toList_ofList, ofCode_code, String.ofList_toList, decode_encode]

theorem write_read {s : String} {b : KnownBase} {bytes : Bytes} (h : read s = .ok (b, bytes)) :
    b.write bytes = s := by
  unfold read at h
  split at h
  · cases h
  rename_i c cs hs
  split at h
  · cases h
  rename_i b' hb
  split at h
  · cases h
  rename_i bytes' hbytes
  obtain ⟨rfl, rfl⟩ := Prod.mk.inj (Except.ok.inj h)
  rw [write, code_of_ofCode hb, encode_decode hbytes, String.toList_ofList, ← hs,
    String.ofList_toList]

end KnownBase

/-- The four bases that identifiers are written in. -/
def knownBases : Multibase where
  Base := KnownBase
  Error := KnownError
  base16Lower := .base16Lower
  base32Lower := .base32Lower
  base58Btc := .base58Btc
  base64Url := .base64Url
  encode := KnownBase.write
  decode := KnownBase.read

theorem knownBases_lawful : knownBases.Lawful :=
  ⟨KnownBase.read_write⟩

theorem knownBases_unambiguous (b : KnownBase) : knownBases.Unambiguous b := by
  intro s s' bytes hs hs'
  rw [← KnownBase.write_read hs, ← KnownBase.write_read hs']

/-! ## The texts of an identifier -/

namespace BlobId

variable {m : Multibase}

theorem parse_write (law : m.Lawful) (base : m.Base) (bytes : Bytes) :
    parse m (m.encode base bytes) = parseBytes bytes := by
  unfold parse
  rw [law.decode_encode]

theorem parse_encode (law : m.Lawful) (base : m.Base) (id : BlobId) :
    parse m (m.encode base id.toBytes) = .ok id :=
  (parse_write law base _).trans (parseBytes_toBytes id)

theorem parseBytes_of_parse {s : String} {base : m.Base} {bytes : Bytes} {id : BlobId}
    (hs : m.decode s = .ok (base, bytes)) (h : parse m s = .ok id) :
    parseBytes (E := m.Error) bytes = .ok id := by
  unfold parse at h
  rwa [hs] at h

/-- **Every text of an identifier is parsed as it**, and its bytes tell it. -/
theorem blob_id_round_trip (m : Multibase) (law : m.Lawful) :
    (∀ id : BlobId, parse m (id.toBase16 m) = .ok id ∧ parse m (id.toBase32 m) = .ok id ∧
      parse m (id.toBase58 m) = .ok id ∧ parse m (id.toBase64Url m) = .ok id) ∧
      Function.Injective toBytes :=
  ⟨fun id => ⟨parse_encode law _ id, parse_encode law _ id, parse_encode law _ id,
    parse_encode law _ id⟩, toBytes_injective⟩

theorem blob_id_round_trip_256 :
    parse knownBases (toBase58 knownBases ⟨7, 256⟩) = .ok ⟨7, 256⟩ :=
  ((blob_id_round_trip knownBases knownBases_lawful).1 ⟨7, 256⟩).2.2.1

/-- **The bytes of an accepted text** are those of its identifier, up to zeros that the size ends in.
Texts of one identifier without such zeros say the same bytes, and in one base are one text, if the
base is not ambiguous. -/
theorem blob_id_canonical (m : Multibase) {s : String} {base : m.Base} {bytes : Bytes} {id : BlobId}
    (hs : m.decode s = .ok (base, bytes)) (h : parse m s = .ok id) :
    (bytes.length ≤ 43 ∧
      bytes = id.toBytes ++ List.replicate (bytes.length - id.toBytes.length) 0) ∧
    (bytes = id.toBytes ↔ (bytes.drop 35).getLast? ≠ some 0) ∧
    ∀ s' base' bytes', m.decode s' = .ok (base', bytes') → parse m s' = .ok id →
      (bytes.drop 35).getLast? ≠ some 0 → (bytes'.drop 35).getLast? ≠ some 0 →
      bytes' = bytes ∧ (base' = base → m.Unambiguous base → s' = s) := by
  obtain ⟨hlen, hzeros, hiff⟩ := eq_of_parseBytes (parseBytes_of_parse hs h)
  refine ⟨⟨hlen, hzeros⟩, hiff, fun s' base' bytes' hs' h' hlast hlast' => ?_⟩
  obtain ⟨-, -, hiff'⟩ := eq_of_parseBytes (parseBytes_of_parse hs' h')
  have hbytes : bytes' = bytes := (hiff'.2 hlast').trans (hiff.2 hlast).symm
  refine ⟨hbytes, ?_⟩
  rintro rfl hbase
  rw [hbytes] at hs'
  exact hbase hs hs'

/-- The bytes of an empty blob, and its size as a byte. -/
def zeroSize : Bytes := header 7 ++ [0]

theorem parseBytes_zeroSize {E : Type} : parseBytes (E := E) zeroSize = .ok ⟨7, 0⟩ :=
  parseBytes_eq_ok.2 ⟨[0], by simp, rfl, rfl⟩

theorem blob_id_canonical_zeroSize :
    zeroSize = toBytes ⟨7, 0⟩ ++ List.replicate (zeroSize.length - (toBytes ⟨7, 0⟩).length) 0 :=
  (blob_id_canonical knownBases
    (knownBases_lawful.decode_encode KnownBase.base16Lower zeroSize)
    ((parse_write knownBases_lawful _ _).trans parseBytes_zeroSize)).1.2

/-- The size of an empty blob need not be left out. -/
theorem zero_size_accepted :
    parse knownBases (KnownBase.base16Lower.write zeroSize) = .ok ⟨7, 0⟩ ∧
      parse knownBases (toBase16 knownBases ⟨7, 0⟩) = .ok ⟨7, 0⟩ ∧
      zeroSize ≠ toBytes ⟨7, 0⟩ ∧
      KnownBase.base16Lower.write zeroSize ≠ toBase16 knownBases ⟨7, 0⟩ := by
  have hne : zeroSize ≠ toBytes ⟨7, 0⟩ := by
    intro h
    have hiff := (eq_of_parseBytes (parseBytes_zeroSize (E := Empty))).2.2
    exact hiff.1 h rfl
  have hparse : parse knownBases (KnownBase.base16Lower.write zeroSize) = parseBytes zeroSize :=
    parse_write knownBases_lawful _ _
  refine ⟨hparse.trans parseBytes_zeroSize, parse_encode knownBases_lawful _ _, hne, fun h => hne ?_⟩
  have hread := congrArg KnownBase.read h
  rw [KnownBase.read_write] at hread
  exact congrArg Prod.snd (Except.ok.inj (hread.trans (KnownBase.read_write _ _)))

end BlobId

end Identifier
