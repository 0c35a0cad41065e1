import Mathlib.Data.List.Basic

/-!
# Base64 text without padding

The alphabet that is safe in URLs and file names (RFC 4648 section 5): three bytes are four letters,
and one or two bytes at the end are two or three. The bits of the last letter that belong to no byte
are zero, and decoding wants them so.

* `decode_encode`: the round trip.
-/

namespace Base64Url

def alphabet : List Char :=
  "ABCDEFGHIJKLMNOPQRSTUVWXYZabcdefghijklmnopqrstuvwxyz0123456789-_".toList

/-- The letter of a number below 64. -/
def letter (n : Nat) : Char := alphabet.getD n 'A'

/-- The number of a letter. -/
def value (c : Char) : Option Nat := alphabet.findIdx? (· = c)

def encodeList : List UInt8 → List Char
  | a :: b :: c :: rest =>
    letter (a.toNat / 4) :: letter (a.toNat % 4 * 16 + b.toNat / 16) ::
      letter (b.toNat % 16 * 4 + c.toNat / 64) :: letter (c.toNat % 64) :: encodeList rest
  | [a, b] =>
    [letter (a.toNat / 4), letter (a.toNat % 4 * 16 + b.toNat / 16), letter (b.toNat % 16 * 4)]
  | [a] => [letter (a.toNat / 4), letter (a.toNat % 4 * 16)]
  | [] => []

def decodeList : List Char → Option (List UInt8)
  | w :: x :: y :: z :: rest => do
    let w ← value w
    let x ← value x
    let y ← value y
    let z ← value z
    let bytes ← decodeList rest
    return .ofNat (w * 4 + x / 16) :: .ofNat (x % 16 * 16 + y / 4) :: .ofNat (y % 4 * 64 + z) :: bytes
  | [w, x, y] => do
    let w ← value w
    let x ← value x
    let y ← value y
    if y % 4 = 0 then return [.ofNat (w * 4 + x / 16), .ofNat (x % 16 * 16 + y / 4)] else none
  | [w, x] => do
    let w ← value w
    let x ← value x
    if x % 16 = 0 then return [.ofNat (w * 4 + x / 16)] else none
  | [_] => none
  | [] => some []

def encode (bytes : List UInt8) : String := String.ofList (encodeList bytes)

def decode (text : String) : Option (List UInt8) := decodeList text.toList

/-! ## The round trip -/

theorem value_letter {n : Nat} (h : n < 64) : value (letter n) = some n := by
  have hall : ∀ m : Fin 64, value (letter m) = some m.val := by decide +kernel
  exact hall ⟨n, h⟩

theorem ofNat_eq {n : Nat} {a : UInt8} (h : n = a.toNat) : UInt8.ofNat n = a := by
  rw [h, UInt8.ofNat_toNat]

theorem decodeList_encodeList : ∀ bytes, decodeList (encodeList bytes) = some bytes
  | a :: b :: c :: rest => by
    have ha := a.toNat_lt
    have hb := b.toNat_lt
    have hc := c.toNat_lt
    have h1 : UInt8.ofNat (a.toNat / 4 * 4 + (a.toNat % 4 * 16 + b.toNat / 16) / 16) = a :=
      ofNat_eq (by omega)
    have h2 : UInt8.ofNat ((a.toNat % 4 * 16 + b.toNat / 16) % 16 * 16 +
        (b.toNat % 16 * 4 + c.toNat / 64) / 4) = b := ofNat_eq (by omega)
    have h3 : UInt8.ofNat ((b.toNat % 16 * 4 + c.toNat / 64) % 4 * 64 + c.toNat % 64) = c :=
      ofNat_eq (by omega)
    simp only [encodeList, decodeList, value_letter (show a.toNat / 4 < 64 by omega),
      value_letter (show a.toNat % 4 * 16 + b.toNat / 16 < 64 by omega),
      value_letter (show b.toNat % 16 * 4 + c.toNat / 64 < 64 by omega),
      value_letter (show c.toNat % 64 < 64 by omega), decodeList_encodeList rest, Option.bind_eq_bind, Option.bind_some, h1, h2, h3]
    rfl
  | [a, b] => by
    have ha := a.toNat_lt
    have hb := b.toNat_lt
    have h1 : UInt8.ofNat (a.toNat / 4 * 4 + (a.toNat % 4 * 16 + b.toNat / 16) / 16) = a :=
      ofNat_eq (by omega)
    have h2 : UInt8.ofNat ((a.toNat % 4 * 16 + b.toNat / 16) % 16 * 16 + b.toNat % 16 * 4 / 4) = b :=
      ofNat_eq (by omega)
    have hzero : b.toNat % 16 * 4 % 4 = 0 := by omega
    simp only [encodeList, decodeList, value_letter (show a.toNat / 4 < 64 by omega),
      value_letter (show a.toNat % 4 * 16 + b.toNat / 16 < 64 by omega),
      value_letter (show b.toNat % 16 * 4 < 64 by omega), Option.bind_eq_bind, Option.bind_some, hzero, if_true, h1, h2]
    rfl
  | [a] => by
    have ha := a.toNat_lt
    have h1 : UInt8.ofNat (a.toNat / 4 * 4 + a.toNat % 4 * 16 / 16) = a := ofNat_eq (by omega)
    have hzero : a.toNat % 4 * 16 % 16 = 0 := by omega
    simp only [encodeList, decodeList, value_letter (show a.toNat / 4 < 64 by omega),
      value_letter (show a.toNat % 4 * 16 < 64 by omega), Option.bind_eq_bind, Option.bind_some, hzero, if_true, h1]
    rfl
  | [] => rfl

/-- **The round trip.** -/
theorem decode_encode (bytes : List UInt8) : decode (encode bytes) = some bytes := by
  unfold decode encode
  rw [String.toList_ofList, decodeList_encodeList]

/-! ## Letters -/

theorem letter_mem (n : Nat) : letter n ∈ alphabet := by
  unfold letter
  rw [List.getD_eq_getElem?_getD]
  cases h : alphabet[n]? with
  | none => decide
  | some c => exact List.mem_of_getElem? h

theorem mem_encodeList : ∀ (bytes : List UInt8), ∀ c ∈ encodeList bytes, c ∈ alphabet
  | a :: b :: c :: rest => by
    have hrest := mem_encodeList rest
    simp only [encodeList, List.forall_mem_cons]
    exact ⟨letter_mem _, letter_mem _, letter_mem _, letter_mem _, hrest⟩
  | [a, b] => by
    simp only [encodeList, List.forall_mem_cons]
    exact ⟨letter_mem _, letter_mem _, letter_mem _, List.forall_mem_nil _⟩
  | [a] => by
    simp only [encodeList, List.forall_mem_cons]
    exact ⟨letter_mem _, letter_mem _, List.forall_mem_nil _⟩
  | [] => List.forall_mem_nil _

theorem not_mem_encode {c : Char} (h : c ∉ alphabet) (bytes : List UInt8) :
    c ∉ (encode bytes).toList := by
  unfold encode
  rw [String.toList_ofList]
  exact fun hc => h (mem_encodeList bytes c hc)

theorem slash_not_mem_encode (bytes : List UInt8) : '/' ∉ (encode bytes).toList :=
  not_mem_encode (by decide) bytes

theorem length_encodeList : ∀ bytes : List UInt8, bytes.length ≤ (encodeList bytes).length
  | a :: b :: c :: rest => by
    have hrest := length_encodeList rest
    simp only [encodeList, List.length_cons]
    omega
  | [a, b] => by simp [encodeList]
  | [a] => by simp [encodeList]
  | [] => by simp [encodeList]

theorem encode_injective : Function.Injective encode := by
  intro a b h
  have hdecode := congrArg decode h
  rw [decode_encode, decode_encode] at hdecode
  exact Option.some.inj hdecode

end Base64Url
