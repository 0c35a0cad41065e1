import Mathlib.Tactic.Ring
import Mathlib.Data.List.Basic

/-!
# Big-endian numbers

`bytes n x` are the `n` low bytes of `x`, most significant first, and `value` reads such bytes
back (`value_bytes`).
-/

namespace BigEndian

def bytes : Nat → Nat → List UInt8
  | 0, _ => []
  | n + 1, x => bytes n (x / 256) ++ [UInt8.ofNat x]

def value (bs : List UInt8) : Nat := bs.foldl (fun acc b => 256 * acc + b.toNat) 0

@[simp] theorem length_bytes (n : Nat) : ∀ x, (bytes n x).length = n := by
  induction n with
  | zero => exact fun _ => rfl
  | succ n ih => intro x; simp [bytes, ih]

theorem value_append_singleton (bs : List UInt8) (b : UInt8) :
    value (bs ++ [b]) = 256 * value bs + b.toNat := by
  simp [value]

/-- **The round trip**: the bytes read back as the number, up to their width. -/
theorem value_bytes (n : Nat) : ∀ x, value (bytes n x) = x % 256 ^ n := by
  induction n with
  | zero => intro x; simp [bytes, value, Nat.mod_one]
  | succ n ih =>
    intro x
    have hb : (UInt8.ofNat x).toNat = x % 256 := by simp
    rw [bytes, value_append_singleton, ih, hb, pow_succ', Nat.mod_mul, Nat.add_comm]

end BigEndian
