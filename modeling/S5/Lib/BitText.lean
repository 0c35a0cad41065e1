import Mathlib.Data.List.Basic
import Mathlib.Data.List.Induction
import Mathlib.Data.List.Nodup
import Mathlib.Tactic.Ring

/-!
# Text of a power of two letters

The bits of bytes, `k` to a letter, without padding (RFC 4648 for 16, 32 and 64 letters). The bits of
the last letter that belong to no byte are zero, and decoding wants them so.

* `decode_encode`, `encode_decode`: text and bytes tell each other.
* `mem_encode`: the letters of a text are of the alphabet.
-/

/-- `n` letters, each for a number below `n`. -/
structure Alphabet (n : Nat) where
  letters : List Char
  length_eq : letters.length = n
  nodup : letters.Nodup

namespace Alphabet

variable {n : Nat} (a : Alphabet n)

def letter (i : Nat) : Char := a.letters.getD i ' '

def value (c : Char) : Option Nat := a.letters.idxOf? c

variable {a}

theorem letter_eq {i : Nat} (h : i < n) : a.letters[i]? = some (a.letter i) := by
  have hi : i < a.letters.length := by rwa [a.length_eq]
  rw [letter, List.getD_eq_getElem?_getD, List.getElem?_eq_getElem hi, Option.getD_some]

theorem letter_mem {i : Nat} (h : i < n) : a.letter i ∈ a.letters :=
  List.mem_of_getElem? (letter_eq h)

theorem value_eq_some {c : Char} {i : Nat} : a.value c = some i ↔ i < n ∧ a.letter i = c := by
  rw [value, List.idxOf?_eq_some_iff]
  constructor
  · rintro ⟨hi, hc, -⟩
    have hlt : i < n := by rwa [a.length_eq] at hi
    have hletter := letter_eq (a := a) hlt
    rw [List.getElem?_eq_getElem hi, Option.some.injEq] at hletter
    exact ⟨hlt, hletter ▸ hc⟩
  · rintro ⟨hi, rfl⟩
    have hlen : i < a.letters.length := by rwa [a.length_eq]
    have hletter := letter_eq (a := a) hi
    rw [List.getElem?_eq_getElem hlen, Option.some.injEq] at hletter
    refine ⟨hlen, by simp [hletter], fun j hj => ?_⟩
    rw [← hletter]
    have hne : a.letters[j] ≠ a.letters[i] := fun he => by
      have := (List.Nodup.getElem_inj_iff a.nodup).1 he
      omega
    simpa using hne

theorem value_letter {i : Nat} (h : i < n) : a.value (a.letter i) = some i :=
  value_eq_some.2 ⟨h, rfl⟩

/-- The letters of numbers. -/
def text (a : Alphabet n) (ds : List Nat) : List Char := ds.map a.letter

/-- The numbers of letters. -/
def numbers (a : Alphabet n) : List Char → Option (List Nat)
  | [] => some []
  | c :: cs => (a.value c).bind fun d => (numbers a cs).map (d :: ·)

theorem numbers_text {ds : List Nat} (h : ∀ d ∈ ds, d < n) : a.numbers (a.text ds) = some ds := by
  induction ds with
  | nil => rfl
  | cons d ds ih =>
    rw [List.forall_mem_cons] at h
    have htail := ih h.2
    unfold text at htail ⊢
    rw [List.map_cons, numbers, value_letter h.1, Option.bind_some, htail, Option.map_some]

theorem numbers_eq_some {cs : List Char} {ds : List Nat} (h : a.numbers cs = some ds) :
    (∀ d ∈ ds, d < n) ∧ a.text ds = cs := by
  induction cs generalizing ds with
  | nil =>
    obtain rfl := Option.some.inj h
    exact ⟨List.forall_mem_nil _, rfl⟩
  | cons c cs ih =>
    rw [numbers, Option.bind_eq_some_iff] at h
    obtain ⟨d, hd, h⟩ := h
    rw [Option.map_eq_some_iff] at h
    obtain ⟨ds, hds, rfl⟩ := h
    obtain ⟨hlt, hletter⟩ := value_eq_some.1 hd
    obtain ⟨hall, htext⟩ := ih hds
    unfold text at htext ⊢
    exact ⟨List.forall_mem_cons.2 ⟨hlt, hall⟩, by rw [List.map_cons, hletter, htext]⟩

/-- The letters of base 32 (RFC 4648), in lower case. -/
def rfc4648Lower : Alphabet (2 ^ 5) := ⟨"abcdefghijklmnopqrstuvwxyz234567".toList, by decide, by decide⟩

end Alphabet

namespace BitText

/-! ## Bits -/

/-- The `k` low bits of `x`, most significant first. -/
def bits : Nat → Nat → List Bool
  | 0, _ => []
  | k + 1, x => bits k (x / 2) ++ [x % 2 == 1]

def number (g : List Bool) : Nat := g.foldl (fun acc b => 2 * acc + b.toNat) 0

@[simp] theorem length_bits (k x : Nat) : (bits k x).length = k := by
  induction k generalizing x with
  | zero => rfl
  | succ k ih => simp [bits, ih]

theorem number_append_singleton (g : List Bool) (b : Bool) :
    number (g ++ [b]) = 2 * number g + b.toNat := by
  simp [number]

theorem number_bits (k x : Nat) : number (bits k x) = x % 2 ^ k := by
  induction k generalizing x with
  | zero => simp [bits, number, Nat.mod_one]
  | succ k ih =>
    have hbit : (x % 2 == 1).toNat = x % 2 := by
      rcases Nat.mod_two_eq_zero_or_one x with h | h <;> simp [h]
    rw [bits, number_append_singleton, ih, hbit, pow_succ', Nat.mod_mul, Nat.add_comm]

theorem number_lt (g : List Bool) : number g < 2 ^ g.length := by
  induction g using List.reverseRecOn with
  | nil => simp [number]
  | append_singleton g b ih =>
    have hb := Bool.toNat_lt b
    rw [number_append_singleton, List.length_append, List.length_singleton, pow_succ']
    omega

theorem bits_number (g : List Bool) : bits g.length (number g) = g := by
  induction g using List.reverseRecOn with
  | nil => rfl
  | append_singleton g b ih =>
    have hb := Bool.toNat_lt b
    have hdiv : (2 * number g + b.toNat) / 2 = number g := by omega
    have hmod : ((2 * number g + b.toNat) % 2 == 1) = b := by
      cases b <;> simp [Nat.add_mod]
    rw [number_append_singleton, List.length_append, List.length_singleton, bits, hdiv, hmod, ih]

/-! ## Groups of bits -/

/-- The first `n` groups of `c`. -/
def cut (c : Nat) : Nat → List Bool → List (List Bool)
  | 0, _ => []
  | n + 1, l => l.take c :: cut c n (l.drop c)

theorem cut_flatten {c : Nat} {gs : List (List Bool)} (h : ∀ g ∈ gs, g.length = c)
    (rest : List Bool) : cut c gs.length (gs.flatten ++ rest) = gs := by
  induction gs with
  | nil => rfl
  | cons g gs ih =>
    rw [List.forall_mem_cons] at h
    obtain ⟨rfl, h⟩ := h
    rw [List.length_cons, cut, List.flatten_cons, List.append_assoc, List.take_left, List.drop_left,
      ih h]

theorem length_cut (c n : Nat) (l : List Bool) : (cut c n l).length = n := by
  induction n generalizing l with
  | zero => rfl
  | succ n ih => rw [cut, List.length_cons, ih]

theorem flatten_cut (c n : Nat) (l : List Bool) : (cut c n l).flatten = l.take (c * n) := by
  induction n generalizing l with
  | zero => simp [cut]
  | succ n ih => rw [cut, List.flatten_cons, ih, Nat.mul_succ, Nat.add_comm, List.take_add]

theorem length_of_mem_cut {c n : Nat} {l : List Bool} (h : c * n ≤ l.length) :
    ∀ g ∈ cut c n l, g.length = c := by
  induction n generalizing l with
  | zero => exact List.forall_mem_nil _
  | succ n ih =>
    rw [Nat.mul_succ] at h
    rw [cut, List.forall_mem_cons]
    refine ⟨by rw [List.length_take]; omega, ih ?_⟩
    rw [List.length_drop]
    omega

theorem length_flatten_bits (k : Nat) (ds : List Nat) :
    (ds.map (bits k)).flatten.length = k * ds.length := by
  induction ds with
  | nil => rfl
  | cons d ds ih =>
    rw [List.map_cons, List.flatten_cons, List.length_append, ih, length_bits, List.length_cons,
      Nat.mul_succ, Nat.add_comm]

/-! ## Digits -/

/-- The bits of bytes. -/
def byteBits (bytes : List UInt8) : List Bool := (bytes.map fun b => bits 8 b.toNat).flatten

@[simp] theorem length_byteBits (bytes : List UInt8) : (byteBits bytes).length = 8 * bytes.length := by
  have h := length_flatten_bits 8 (bytes.map UInt8.toNat)
  rwa [List.map_map, List.length_map] at h

/-- How many groups of `k` hold `n` bits. -/
def groups (k n : Nat) : Nat := (n + k - 1) / k

theorem groups_spec {k : Nat} (hk : 0 < k) (n : Nat) : n ≤ k * groups k n ∧ k * groups k n < n + k := by
  have hdiv := Nat.div_add_mod (n + k - 1) k
  have hmod := Nat.mod_lt (n + k - 1) hk
  unfold groups
  omega

theorem groups_eq {k n d : Nat} (hle : n ≤ k * d) (hlt : k * d < n + k) : groups k n = d := by
  have hk : 0 < k := by omega
  unfold groups
  refine Nat.div_eq_of_lt_le ?_ ?_
  · rw [Nat.mul_comm]
    omega
  · rw [Nat.succ_mul, Nat.mul_comm]
    omega

/-- The bits of bytes, with zeros up to whole groups of `k`. -/
def padded (k : Nat) (bytes : List UInt8) : List Bool :=
  byteBits bytes ++
    List.replicate (k * groups k (8 * bytes.length) - 8 * bytes.length) false

def digits (k : Nat) (bytes : List UInt8) : List Nat :=
  (cut k (groups k (8 * bytes.length)) (padded k bytes)).map number

/-- The bytes of digits, if the bits over are zeros and too few for a digit. -/
def bytes (k : Nat) (ds : List Nat) : Option (List UInt8) :=
  let l := (ds.map (bits k)).flatten
  let n := l.length / 8
  if (l.drop (8 * n)).length < k ∧ l.drop (8 * n) = List.replicate (l.length - 8 * n) false then
    some ((cut 8 n l).map fun g => UInt8.ofNat (number g))
  else none

theorem length_padded {k : Nat} (hk : 0 < k) (bytes : List UInt8) :
    (padded k bytes).length = k * groups k (8 * bytes.length) := by
  have hspec := groups_spec hk (8 * bytes.length)
  rw [padded, List.length_append, length_byteBits, List.length_replicate]
  omega

theorem digits_lt {k : Nat} (hk : 0 < k) (bytes : List UInt8) : ∀ d ∈ digits k bytes, d < 2 ^ k := by
  intro d hd
  obtain ⟨g, hg, rfl⟩ := List.mem_map.1 hd
  have hlen := length_of_mem_cut (length_padded hk bytes).ge g hg
  have hlt := number_lt g
  rwa [hlen] at hlt

theorem length_digits (k : Nat) (bytes : List UInt8) :
    (digits k bytes).length = groups k (8 * bytes.length) := by
  rw [digits, List.length_map, length_cut]

theorem map_bits_number {k : Nat} {gs : List (List Bool)} (h : ∀ g ∈ gs, g.length = k) :
    (gs.map number).map (bits k) = gs := by
  have hself : ∀ g ∈ gs, (bits k ∘ number) g = id g := by
    intro g hg
    have hbits := bits_number g
    rw [h g hg] at hbits
    exact hbits
  rw [List.map_map, List.map_congr_left hself, List.map_id]

theorem map_number_bits {k : Nat} {ds : List Nat} (h : ∀ d ∈ ds, d < 2 ^ k) :
    (ds.map (bits k)).map number = ds := by
  have hself : ∀ d ∈ ds, (number ∘ bits k) d = id d := by
    intro d hd
    exact (number_bits k d).trans (Nat.mod_eq_of_lt (h d hd))
  rw [List.map_map, List.map_congr_left hself, List.map_id]

theorem map_ofNat_bits (bs : List UInt8) :
    (bs.map fun b => bits 8 b.toNat).map (fun g => UInt8.ofNat (number g)) = bs := by
  have hself : ∀ b ∈ bs, ((fun g => UInt8.ofNat (number g)) ∘ fun b => bits 8 b.toNat) b = id b := by
    intro b _
    have hlt := b.toNat_lt
    simp only [Function.comp_apply, number_bits, id_eq]
    rw [Nat.mod_eq_of_lt hlt, UInt8.ofNat_toNat]
  rw [List.map_map, List.map_congr_left hself, List.map_id]

theorem map_bits_ofNat {gs : List (List Bool)} (h : ∀ g ∈ gs, g.length = 8) :
    (gs.map fun g => UInt8.ofNat (number g)).map (fun b => bits 8 b.toNat) = gs := by
  have hself : ∀ g ∈ gs, ((fun b : UInt8 => bits 8 b.toNat) ∘ fun g => UInt8.ofNat (number g)) g =
      id g := by
    intro g hg
    have hlt := number_lt g
    have hbits := bits_number g
    rw [h g hg] at hlt hbits
    simp only [Function.comp_apply, UInt8.toNat_ofNat', id_eq]
    rw [Nat.mod_eq_of_lt hlt, hbits]
  rw [List.map_map, List.map_congr_left hself, List.map_id]

/-- **Digits are read back.** Fewer bits than a byte are over. -/
theorem bytes_digits {k : Nat} (hk : 0 < k) (h8 : k ≤ 8) (bs : List UInt8) :
    bytes k (digits k bs) = some bs := by
  have hlen := length_padded hk bs
  obtain ⟨hle, hlt⟩ := groups_spec hk (8 * bs.length)
  have hbits : ((digits k bs).map (bits k)).flatten = padded k bs := by
    rw [digits, map_bits_number (length_of_mem_cut hlen.ge), flatten_cut, ← hlen, List.take_length]
  have hn : (padded k bs).length / 8 = bs.length := by
    rw [hlen]
    omega
  have hdrop : (padded k bs).drop (8 * bs.length) =
      List.replicate ((padded k bs).length - 8 * bs.length) false := by
    rw [hlen, padded, ← length_byteBits bs, List.drop_left]
  have hcut : cut 8 bs.length (padded k bs) = bs.map fun b => bits 8 b.toNat := by
    have hlens : ∀ g ∈ bs.map fun b => bits 8 b.toNat, g.length = 8 := by simp
    have hflat := cut_flatten hlens (List.replicate (k * groups k (8 * bs.length) - 8 * bs.length) false)
    rwa [List.length_map] at hflat
  unfold bytes
  simp only [hbits, hn, hcut, map_ofNat_bits]
  rw [if_pos ⟨by rw [List.length_drop, hlen]; omega, hdrop⟩]

/-- **Bytes are written back** as the digits that they were read from. -/
theorem digits_bytes {k : Nat} {ds : List Nat} {bs : List UInt8} (hd : ∀ d ∈ ds, d < 2 ^ k)
    (h : bytes k ds = some bs) : digits k bs = ds := by
  have hlen := length_flatten_bits k ds
  unfold bytes at h
  dsimp only at h
  split at h
  case isFalse => cases h
  rename_i hover
  obtain ⟨hfew, hzeros⟩ := hover
  obtain rfl := Option.some.inj h
  have hmap : ∀ g ∈ ds.map (bits k), g.length = k := by simp
  have hcut := cut_flatten hmap []
  rw [List.append_nil, List.length_map] at hcut
  generalize hl : (ds.map (bits k)).flatten = l at *
  have hwhole := length_of_mem_cut (Nat.mul_div_le l.length 8)
  have hbytes : byteBits ((cut 8 (l.length / 8) l).map fun g => UInt8.ofNat (number g)) =
      l.take (8 * (l.length / 8)) := by
    rw [byteBits, map_bits_ofNat hwhole, flatten_cut]
  have hcount : groups k (8 * (l.length / 8)) = ds.length := by
    rw [List.length_drop] at hfew
    exact groups_eq (by omega) (by omega)
  have hpadded : padded k ((cut 8 (l.length / 8) l).map fun g => UInt8.ofNat (number g)) = l := by
    rw [padded, hbytes, List.length_map, length_cut, hcount, ← hlen, ← hzeros, List.take_append_drop]
  rw [digits, hpadded, List.length_map, length_cut, hcount, hcut, map_number_bits hd]

/-! ## Text -/

section
variable {k : Nat} (a : Alphabet (2 ^ k))

def encode (bs : List UInt8) : String := String.ofList (a.text (digits k bs))

def decode (s : String) : Option (List UInt8) := (a.numbers s.toList).bind (bytes k)

variable {a}

theorem decode_encode (hk : 0 < k) (h8 : k ≤ 8) (bs : List UInt8) :
    decode a (encode a bs) = some bs := by
  rw [decode, encode, String.toList_ofList, Alphabet.numbers_text (digits_lt hk bs),
    Option.bind_some, bytes_digits hk h8]

theorem encode_decode {s : String} {bs : List UInt8} (h : decode a s = some bs) :
    encode a bs = s := by
  rw [decode, Option.bind_eq_some_iff] at h
  obtain ⟨ds, hds, h⟩ := h
  obtain ⟨hlt, htext⟩ := Alphabet.numbers_eq_some hds
  rw [encode, digits_bytes hlt h, htext, String.ofList_toList]

theorem mem_encode (hk : 0 < k) (bs : List UInt8) : ∀ c ∈ (encode a bs).toList, c ∈ a.letters := by
  intro c hc
  rw [encode, String.toList_ofList] at hc
  obtain ⟨d, hd, rfl⟩ := List.mem_map.1 hc
  exact Alphabet.letter_mem (digits_lt hk bs d hd)

theorem length_encode (bs : List UInt8) :
    (encode a bs).toList.length = groups k (8 * bs.length) := by
  rw [encode, String.toList_ofList, Alphabet.text, List.length_map, length_digits]

end

end BitText
