import S5.Core.CborValue
import S5.Lib.Cbor
import Mathlib.Algebra.BigOperators.Group.List.Basic

/-!
# The lengths of CBOR values

* `cbor_len_exact_iff`: the length of a token is that of its bytes for all but halves, the simple values
  from 20 to 23, and byte strings with a byte that is no number of one byte.
-/

namespace CborValue

namespace Value

/-- The tokens whose length is right. -/
def Measured : Value → Prop
  | f16 _ => False
  | bytes val => ∀ x ∈ val, x < 24
  | simple val => val < 20 ∨ 24 ≤ val
  | _ => True

end Value

variable {m : Minicbor}

/-- An array of numbers is as long as the numbers if each is a byte. -/
theorem sum_cborLen (doc : m.Documented) (b : Bytes) :
    b.length ≤ (b.map m.u8.cborLen).sum ∧
      ((b.map m.u8.cborLen).sum = b.length ↔ ∀ x ∈ b, x < 24) := by
  induction b with
  | nil => simp
  | cons x b ih =>
    have hx : m.u8.cborLen x = if x < 24 then 1 else 2 := by rw [doc.u8 x, doc.u8_len]
    rw [List.map_cons, List.sum_cons, List.length_cons, List.forall_mem_cons, hx, ← ih.2]
    obtain ⟨hle, -⟩ := ih
    split
    · rename_i hlt
      simp only [hlt, true_and]
      omega
    · rename_i hlt
      simp only [hlt, false_and, iff_false]
      omega

theorem Impl.Exact.measured {α : Type} {i : Impl α} (hi : i.Exact) {x : α} {bs : Bytes}
    (h : some (i.encode x) = some bs) : i.cborLen x = bs.length ↔ True := by
  obtain rfl := Option.some.inj h
  exact iff_true_intro (hi x)

theorem single_measured {token bs : Bytes} (hlen : token.length = 1) (h : some token = some bs) :
    1 = bs.length ↔ True := by
  obtain rfl := Option.some.inj h
  exact iff_true_intro hlen.symm

/-- **The length of a token** is that of what it is encoded as exactly if the token is measured as it is
encoded. -/
theorem cbor_len_exact_iff (m : Minicbor) (doc : m.Documented) (v : Value) {bs : Bytes}
    (h : v.encode m = some bs) : v.cborLen m = bs.length ↔ v.Measured := by
  have hsingle := doc.single_len
  simp only [List.forall_mem_cons] at hsingle
  obtain ⟨hend, hnull, hundefined, hbytes, hstr, harray, hmap, -⟩ := hsingle
  cases v with
  | bool val => exact doc.bool.measured h
  | u8 val => exact doc.u8.measured h
  | u16 val => exact doc.u16.measured h
  | u32 val => exact doc.u32.measured h
  | u64 val => exact doc.u64.measured h
  | i8 val => exact doc.i8.measured h
  | i16 val => exact doc.i16.measured h
  | i32 val => exact doc.i32.measured h
  | i64 val => exact doc.i64.measured h
  | int val => exact doc.int.measured h
  | f16 val =>
    -- measured as a number of 32 bits
    obtain rfl := Option.some.inj h
    rw [Value.cborLen, doc.f32 val, doc.f32_len, doc.f16_len]
    exact iff_of_false (by omega) id
  | f32 val => exact doc.f32.measured h
  | f64 val => exact doc.f64.measured h
  | bytes val =>
    -- measured as an array
    obtain rfl := Option.some.inj h
    rw [Value.cborLen, doc.slice_len, doc.bytes_len, Nat.add_left_cancel_iff]
    exact (sum_cborLen doc val).2
  | string val => exact doc.str.measured h
  | array val =>
    obtain rfl := Option.some.inj h
    rw [Value.cborLen, doc.u64 val, doc.array_len]
    exact iff_true_intro rfl
  | map val =>
    obtain rfl := Option.some.inj h
    rw [Value.cborLen, doc.u64 val, doc.map_len]
    exact iff_true_intro rfl
  | tag val => exact doc.tag.measured h
  | simple val =>
    -- measured as a number, whose head has room for four more
    have hle : ¬ val < 24 ↔ 24 ≤ val := UInt8.not_lt
    rw [Value.cborLen, doc.u8 val, doc.u8_len, doc.simple_len h, Value.Measured, ← hle]
    by_cases h24 : val < 24
    · by_cases h20 : val < 20
      · simp [h20, h24]
      · simp [h20, h24]
    · have h20 : ¬ val < 20 := fun hlt => h24 (UInt8.lt_trans hlt (by decide))
      simp [h20, h24]
  | «break» => exact single_measured hend h
  | null => exact single_measured hnull h
  | undefined => exact single_measured hundefined h
  | beginBytes => exact single_measured hbytes h
  | beginString => exact single_measured hstr h
  | beginArray => exact single_measured harray h
  | beginMap => exact single_measured hmap h

/-! ## A library -/

/-- A type measured by writing it. -/
def Impl.written {α : Type} (encode : α → Bytes) : Impl α := ⟨encode, fun x => (encode x).length⟩

theorem Impl.written_exact {α : Type} (encode : α → Bytes) : (Impl.written encode).Exact := fun _ => rfl

/-- A signed integer: what is below zero counts from -1 down. -/
def integer (i : Int) : Bytes :=
  if 0 ≤ i then Cbor.head 0 i.toNat else Cbor.head 1 (-1 - i).toNat

/-- The half of a number that a half holds without a loss. -/
def half (x : F32) : Nat :=
  let sign := x.toNat / 2 ^ 31
  let exponent := x.toNat / 2 ^ 23 % 2 ^ 8
  let mantissa := x.toNat % 2 ^ 23
  2 ^ 15 * sign + (if exponent = 0 then 0 else 2 ^ 10 * (exponent - 112) + mantissa / 2 ^ 13)

def utf8 (s : String) : Bytes := s.toUTF8.data.toList

/-- Deterministic encoding. -/
def rfc8949 : Minicbor where
  bool := .written fun b => [if b then 0xf5 else 0xf4]
  u8 := .written fun x => Cbor.head 0 x.toNat
  u16 := .written fun x => Cbor.head 0 x.toNat
  u32 := .written fun x => Cbor.head 0 x.toNat
  u64 := .written fun x => Cbor.head 0 x.toNat
  i8 := .written fun x => integer x.toInt
  i16 := .written fun x => integer x.toInt
  i32 := .written fun x => integer x.toInt
  i64 := .written fun x => integer x.toInt
  int := .written fun x => Cbor.head (if x.neg then 1 else 0) x.val.toNat
  f32 := .written fun x => 0xfa :: BigEndian.bytes 4 x.toNat
  f64 := .written fun x => 0xfb :: BigEndian.bytes 8 x.toNat
  str := .written fun s => Cbor.head 3 (utf8 s).length ++ utf8 s
  tag := .written fun x => Cbor.head 6 x.toNat
  sliceLen b := (Cbor.head 4 (UInt64.ofNat b.length).toNat).length +
    (b.map fun x => (Cbor.head 0 x.toNat).length).sum
  f16 x := 0xf9 :: BigEndian.bytes 2 (half x)
  bytes b := Cbor.head 2 (UInt64.ofNat b.length).toNat ++ b
  array n := Cbor.head 4 n.toNat
  map n := Cbor.head 5 n.toNat
  simple x := some (if x < 20 then [0xe0 + x] else [0xf8, x])
  endOfItem := [0xff]
  null := [0xf6]
  undefined := [0xf7]
  beginBytes := [0x5f]
  beginStr := [0x7f]
  beginArray := [0x9f]
  beginMap := [0xbf]

/-- How long a head is, whatever its major type. -/
theorem length_head (major major' n : Nat) :
    (Cbor.head major n).length = (Cbor.head major' n).length := by
  unfold Cbor.head
  repeat' split
  all_goals simp

theorem rfc8949_documented : rfc8949.Documented where
  bool := Impl.written_exact _
  u8 := Impl.written_exact _
  u16 := Impl.written_exact _
  u32 := Impl.written_exact _
  u64 := Impl.written_exact _
  i8 := Impl.written_exact _
  i16 := Impl.written_exact _
  i32 := Impl.written_exact _
  i64 := Impl.written_exact _
  int := Impl.written_exact _
  f32 := Impl.written_exact _
  f64 := Impl.written_exact _
  str := Impl.written_exact _
  tag := Impl.written_exact _
  u8_len x := by
    have hlt := x.toNat_lt
    have hiff : x < 24 ↔ x.toNat < 24 := UInt8.lt_iff_toNat_lt
    show (Cbor.head 0 x.toNat).length = _
    unfold Cbor.head
    by_cases h : x.toNat < 24
    · rw [if_pos (hiff.2 h), if_pos h]
      rfl
    · rw [if_neg (mt hiff.1 h), if_neg h, if_pos hlt]
      rfl
  f32_len x := by simp [rfc8949, Impl.written]
  f16_len x := by simp [rfc8949]
  slice_len b := rfl
  bytes_len b := by
    show (Cbor.head 2 _ ++ b).length = (Cbor.head 4 _).length + _
    rw [List.length_append, length_head 2 4]
  array_len n := length_head 4 0 _
  map_len n := length_head 5 0 _
  simple_len {x bs} h := by
    obtain rfl := Option.some.inj h
    split <;> rfl
  single_len := by decide

theorem cbor_len_exact_bytes :
    (Value.bytes [1, 200]).cborLen rfc8949 = 3 ↔ (Value.bytes [1, 200]).Measured :=
  cbor_len_exact_iff rfc8949 rfc8949_documented (.bytes [1, 200]) rfl

/-- One as a half is measured as a single, a byte string as an array, and `simple(20)` as a number. -/
theorem tokens_measured_wrong :
    ((Value.f16 0x3f800000).encode rfc8949 = some [0xf9, 0x3c, 0x00] ∧
      (Value.f16 0x3f800000).cborLen rfc8949 = 5) ∧
    ((Value.bytes [200]).encode rfc8949 = some [0x41, 200] ∧
      (Value.bytes [200]).cborLen rfc8949 = 3) ∧
    ((Value.simple 20).encode rfc8949 = some [0xf8, 20] ∧
      (Value.simple 20).cborLen rfc8949 = 1) := by
  decide

end CborValue
