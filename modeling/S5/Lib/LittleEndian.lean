import Mathlib.Data.List.DropRight
import Mathlib.Tactic.Ring

/-!
# Little-endian numbers

`bytes n x` are the `n` low bytes of `x`, least significant first, and `value` reads such bytes back
(`value_bytes`). Zero bytes at the end say nothing: `trim` cuts them off and `pad` appends them.

* `trim_bytes`: the bytes of a number of any width that holds it are trimmed to the same bytes.
-/

namespace LittleEndian

def bytes : Nat → Nat → List UInt8
  | 0, _ => []
  | n + 1, x => UInt8.ofNat x :: bytes n (x / 256)

def value : List UInt8 → Nat
  | [] => 0
  | b :: bs => b.toNat + 256 * value bs

@[simp] theorem length_bytes (n x : Nat) : (bytes n x).length = n := by
  induction n generalizing x with
  | zero => rfl
  | succ n ih => simp [bytes, ih]

/-- **The round trip**: the bytes read back as the number, up to their width. -/
theorem value_bytes (n x : Nat) : value (bytes n x) = x % 256 ^ n := by
  induction n generalizing x with
  | zero => simp [bytes, value, Nat.mod_one]
  | succ n ih =>
    have hb : (UInt8.ofNat x).toNat = x % 256 := by simp
    rw [bytes, value, ih, hb, pow_succ', Nat.mod_mul]

theorem value_lt (bs : List UInt8) : value bs < 256 ^ bs.length := by
  induction bs with
  | nil => simp [value]
  | cons b bs ih =>
    have hb := b.toNat_lt
    rw [value, List.length_cons, pow_succ']
    omega

theorem bytes_value (bs : List UInt8) : bytes bs.length (value bs) = bs := by
  induction bs with
  | nil => rfl
  | cons b bs ih =>
    have hb := b.toNat_lt
    have hhead : UInt8.ofNat (b.toNat + 256 * value bs) = b := by
      apply UInt8.toNat_inj.1
      rw [UInt8.toNat_ofNat']
      omega
    have htail : (b.toNat + 256 * value bs) / 256 = value bs := by omega
    rw [value, List.length_cons, bytes, hhead, htail, ih]

/-! ## Zero bytes at the end -/

/-- `n` bytes: `bs`, and zeros after them. -/
def pad (n : Nat) (bs : List UInt8) : List UInt8 := bs ++ List.replicate (n - bs.length) 0

/-- `bs` up to its last byte that is not zero. -/
def trim (bs : List UInt8) : List UInt8 := bs.rdropWhile (· = 0)

@[simp] theorem value_append_zeros (bs : List UInt8) (k : Nat) :
    value (bs ++ List.replicate k 0) = value bs := by
  induction bs with
  | nil =>
    induction k with
    | zero => rfl
    | succ k ih =>
      rw [List.nil_append] at ih ⊢
      rw [List.replicate_succ]
      simp [value, ih]
  | cons b bs ih => rw [List.cons_append, value, value, ih]

theorem length_pad {n : Nat} {bs : List UInt8} (h : bs.length ≤ n) : (pad n bs).length = n := by
  rw [pad, List.length_append, List.length_replicate]
  omega

@[simp] theorem value_pad (n : Nat) (bs : List UInt8) : value (pad n bs) = value bs :=
  value_append_zeros bs _

theorem trim_append_zeros (bs : List UInt8) :
    bs = trim bs ++ List.replicate (bs.length - (trim bs).length) 0 := by
  unfold trim
  induction bs using List.reverseRecOn with
  | nil => rfl
  | append_singleton bs b ih =>
    by_cases hb : b = 0
    · subst hb
      rw [List.rdropWhile_concat_pos _ _ _ (by simp)]
      have hle : (bs.rdropWhile (· = 0)).length ≤ bs.length := (List.rdropWhile_prefix _ _).length_le
      have hsucc : (bs ++ [(0 : UInt8)]).length - (bs.rdropWhile (· = 0)).length =
          bs.length - (bs.rdropWhile (· = 0)).length + 1 := by
        rw [List.length_append, List.length_singleton]
        omega
      rw [hsucc, List.replicate_succ', ← List.append_assoc, ← ih]
    · rw [List.rdropWhile_concat_neg _ _ _ (by simpa using hb)]
      simp

@[simp] theorem value_trim (bs : List UInt8) : value (trim bs) = value bs := by
  have h := congrArg value (trim_append_zeros bs)
  rw [value_append_zeros] at h
  exact h.symm

@[simp] theorem trim_pad (n : Nat) (bs : List UInt8) : trim (pad n bs) = trim bs := by
  unfold pad
  generalize n - bs.length = k
  induction k with
  | zero => simp
  | succ k ih =>
    rw [List.replicate_succ', ← List.append_assoc]
    unfold trim at ih ⊢
    rw [List.rdropWhile_concat_pos _ _ _ (by simp), ih]

/-- **The bytes of the number that is read** are the bytes that are read, up to the zeros. -/
theorem trim_bytes {n : Nat} {bs : List UInt8} (h : bs.length ≤ n) :
    trim (bytes n (value bs)) = trim bs := by
  have hpad : bytes n (value bs) = pad n bs := by
    have hbytes := bytes_value (pad n bs)
    rwa [length_pad h, value_pad] at hbytes
  rw [hpad, trim_pad]

theorem trim_eq_self {bs : List UInt8} : trim bs = bs ↔ bs.getLast? ≠ some 0 := by
  unfold trim
  rw [List.rdropWhile_eq_self_iff]
  constructor
  · intro h hlast
    have hne : bs ≠ [] := by
      rintro rfl
      simp at hlast
    rw [List.getLast?_eq_some_getLast hne] at hlast
    exact h hne (by simpa using hlast)
  · intro h hne hzero
    refine h ?_
    rw [List.getLast?_eq_some_getLast hne]
    simpa using hzero

end LittleEndian
