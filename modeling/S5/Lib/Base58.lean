import S5.Lib.BitText
import Mathlib.Data.List.TakeWhile
import Mathlib.Data.Nat.Digits.Lemmas

/-!
# Text of a number's digits

Bytes as one number, in the digits of another base; every zero byte at the front is a zero digit. With
58 letters this is Base58.

* `decode_encode`, `encode_decode`: text and bytes tell each other.
-/

namespace Base58

/-- The number of `ds` in base `b`, in the digits of base `c`, most significant first. -/
def convert (b c : Nat) (ds : List Nat) : List Nat :=
  ds.takeWhile (· = 0) ++ (Nat.digits c (Nat.ofDigits b (ds.dropWhile (· = 0)).reverse)).reverse

theorem takeWhile_zeros {zs ds : List Nat} (hz : ∀ z ∈ zs, z = 0) (hd : ds.head? ≠ some 0) :
    (zs ++ ds).takeWhile (· = 0) = zs ∧ (zs ++ ds).dropWhile (· = 0) = ds := by
  have hhead : ds.takeWhile (· = 0) = [] ∧ ds.dropWhile (· = 0) = ds := by
    cases ds with
    | nil => exact ⟨rfl, rfl⟩
    | cons d ds =>
      have hne : d ≠ 0 := fun h => hd (by rw [h, List.head?_cons])
      simp [hne]
  have hall : ∀ z ∈ zs, decide (z = 0) = true := fun z h => by simpa using hz z h
  rw [List.takeWhile_append_of_pos hall, List.dropWhile_append_of_pos hall, hhead.1, hhead.2,
    List.append_nil]
  exact ⟨rfl, rfl⟩

theorem head?_digits {c n : Nat} : (Nat.digits c n).reverse.head? ≠ some 0 := by
  rw [List.head?_reverse]
  intro h
  have hn : n ≠ 0 := by
    rintro rfl
    simp at h
  have hne := (Nat.digits_ne_nil_iff_ne_zero (b := c)).2 hn
  rw [List.getLast?_eq_some_getLast hne, Option.some.injEq] at h
  exact Nat.getLast_digit_ne_zero c hn h

/-- **The digits are converted back.** -/
theorem convert_convert {b c : Nat} (hb : 1 < b) {ds : List Nat}
    (h : ∀ d ∈ ds, d < b) : convert c b (convert b c ds) = ds := by
  have hzeros : ∀ z ∈ ds.takeWhile (· = 0), z = 0 := by
    intro z hz
    simpa using List.mem_takeWhile_imp hz
  obtain ⟨htake, hdrop⟩ := takeWhile_zeros hzeros
    (head?_digits (c := c) (n := Nat.ofDigits b (ds.dropWhile (· = 0)).reverse))
  have hlast : ∀ hne : (ds.dropWhile (· = 0)).reverse ≠ [],
      (ds.dropWhile (· = 0)).reverse.getLast hne ≠ 0 := by
    intro hne
    rw [List.getLast_reverse]
    have hhead := List.head_dropWhile_not (· = 0) (l := ds) (by simpa using hne)
    simpa using hhead
  have hlt : ∀ d ∈ (ds.dropWhile (· = 0)).reverse, d < b := by
    intro d hd
    exact h d ((List.dropWhile_suffix _).subset (List.mem_reverse.1 hd))
  unfold convert at htake hdrop ⊢
  rw [htake, hdrop, List.reverse_reverse, Nat.ofDigits_digits, Nat.digits_ofDigits b hb _ hlt hlast,
    List.reverse_reverse, List.takeWhile_append_dropWhile]

theorem convert_lt {b c : Nat} (hc : 1 < c) (ds : List Nat) : ∀ d ∈ convert b c ds, d < c := by
  intro d hd
  rcases List.mem_append.1 hd with hd | hd
  · have hzero := List.mem_takeWhile_imp hd
    have : d = 0 := by simpa using hzero
    omega
  · exact Nat.digits_lt_base hc (List.mem_reverse.1 hd)

/-! ## Text -/

section
variable {n : Nat} (a : Alphabet n)

def encode (bs : List UInt8) : String :=
  String.ofList (a.text (convert 256 n (bs.map UInt8.toNat)))

def decode (s : String) : Option (List UInt8) :=
  (a.numbers s.toList).map fun ds => (convert n 256 ds).map UInt8.ofNat

variable {a}

theorem map_toNat_ofNat {ds : List Nat} (h : ∀ d ∈ ds, d < 256) :
    (ds.map UInt8.ofNat).map UInt8.toNat = ds := by
  have hself : ∀ d ∈ ds, (UInt8.toNat ∘ UInt8.ofNat) d = id d := by
    intro d hd
    exact UInt8.toNat_ofNat_of_lt' (h d hd)
  rw [List.map_map, List.map_congr_left hself, List.map_id]

theorem decode_encode (hn : 1 < n) (bs : List UInt8) : decode a (encode a bs) = some bs := by
  have hlt : ∀ d ∈ bs.map UInt8.toNat, d < 256 := by
    intro d hd
    obtain ⟨b, -, rfl⟩ := List.mem_map.1 hd
    exact b.toNat_lt
  rw [decode, encode, String.toList_ofList, Alphabet.numbers_text (convert_lt hn _),
    Option.map_some, convert_convert (by omega) hlt, List.map_map]
  simp [Function.comp_def]

theorem encode_decode (hn : 1 < n) {s : String} {bs : List UInt8} (h : decode a s = some bs) :
    encode a bs = s := by
  rw [decode, Option.map_eq_some_iff] at h
  obtain ⟨ds, hds, rfl⟩ := h
  obtain ⟨hlt, htext⟩ := Alphabet.numbers_eq_some hds
  rw [encode, map_toNat_ofNat (convert_lt (by omega) _), convert_convert hn hlt, htext,
    String.ofList_toList]

end

end Base58
