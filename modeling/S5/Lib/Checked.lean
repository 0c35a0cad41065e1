import Mathlib.Tactic.Ring

/-!
# Arithmetic that panics

Sums and differences of 64-bit numbers, `none` where the result is no 64-bit number. What they give
is what the natural numbers give (`add_eq_some_iff`, `sub_eq_some_iff`), and they are defined where
that fits (`exists_add`, `exists_sub`).
-/

namespace Checked

def add (a b : UInt64) : Option UInt64 :=
  if a.toNat + b.toNat < 2 ^ 64 then some (a + b) else none

def sub (a b : UInt64) : Option UInt64 := if b.toNat ≤ a.toNat then some (a - b) else none

theorem add_eq_some_iff {a b c : UInt64} : add a b = some c ↔ c.toNat = a.toNat + b.toNat := by
  unfold add
  split
  · rename_i h
    have hsum : (a + b).toNat = a.toNat + b.toNat := by
      rw [UInt64.toNat_add, Nat.mod_eq_of_lt h]
    rw [Option.some.injEq, ← hsum, UInt64.toNat_inj, eq_comm]
  · rename_i h
    have hc := c.toNat_lt
    constructor
    · exact fun hn => nomatch hn
    · intro he
      omega

theorem sub_eq_some_iff {a b c : UInt64} : sub a b = some c ↔ a.toNat = b.toNat + c.toNat := by
  unfold sub
  split
  · rename_i h
    have hdiff : (a - b).toNat = a.toNat - b.toNat :=
      UInt64.toNat_sub_of_le _ _ (UInt64.le_iff_toNat_le.2 h)
    rw [Option.some.injEq, eq_comm, ← UInt64.toNat_inj, hdiff]
    omega
  · constructor
    · exact fun hn => nomatch hn
    · intro he
      omega

theorem exists_add {a b : UInt64} (h : a.toNat + b.toNat < 2 ^ 64) :
    ∃ c, add a b = some c ∧ c.toNat = a.toNat + b.toNat := by
  have hsum : (a + b).toNat = a.toNat + b.toNat := by
    rw [UInt64.toNat_add, Nat.mod_eq_of_lt h]
  exact ⟨a + b, add_eq_some_iff.2 hsum, hsum⟩

theorem exists_sub {a b : UInt64} (h : b.toNat ≤ a.toNat) :
    ∃ c, sub a b = some c ∧ c.toNat = a.toNat - b.toNat := by
  have hdiff : (a - b).toNat = a.toNat - b.toNat :=
    UInt64.toNat_sub_of_le _ _ (UInt64.le_iff_toNat_le.2 h)
  exact ⟨a - b, sub_eq_some_iff.2 (by omega), hdiff⟩

end Checked
