import Mathlib.Data.List.Nodup

/-!
# Interners

An interner gives every value that it is asked for a key and takes keys back to their values. Of its
laws (`Lawful`) the rest follows: as an interner grows its keys stay what they are (`Extends`), and
two keys of one value are the same key (`key_unique`).
-/

/-- An interner of values `α`, with the states `σ`. -/
structure Interner (α σ : Type) where
  new : σ
  getOrIntern : σ → α → σ × Nat
  resolve : σ → Nat → Option α

namespace Interner

variable {α σ : Type}

/-- Keys are given in order from zero, each value keeps its key, and each key its value. -/
structure Lawful (t : Interner α σ) : Prop where
  resolve_self (s : σ) (x : α) : t.resolve (t.getOrIntern s x).1 (t.getOrIntern s x).2 = some x
  resolve_mono {s : σ} {k : Nat} {y : α} (x : α) (h : t.resolve s k = some y) :
    t.resolve (t.getOrIntern s x).1 k = some y
  key_kept {s : σ} {k : Nat} {x : α} (h : t.resolve s k = some x) : (t.getOrIntern s x).2 = k
  first_key (x : α) : (t.getOrIntern t.new x).2 = 0
  second_key {x y : α} (h : x ≠ y) : (t.getOrIntern (t.getOrIntern t.new x).1 y).2 = 1

variable {t : Interner α σ}

/-- Every key of `s` is one of `s'`, with the same value. -/
def Extends (t : Interner α σ) (s s' : σ) : Prop :=
  ∀ k x, t.resolve s k = some x → t.resolve s' k = some x

theorem Extends.refl (s : σ) : t.Extends s s := fun _ _ h => h

theorem Extends.trans {s s' s'' : σ} (h : t.Extends s s') (h' : t.Extends s' s'') :
    t.Extends s s'' := fun k x hk => h' k x (h k x hk)

namespace Lawful

variable (law : t.Lawful)
include law

theorem extends_getOrIntern (s : σ) (x : α) : t.Extends s (t.getOrIntern s x).1 :=
  fun _ _ hk => law.resolve_mono x hk

/-- A value has one key. -/
theorem key_unique {s : σ} {j k : Nat} {x : α} (hj : t.resolve s j = some x)
    (hk : t.resolve s k = some x) : j = k := by
  rw [← law.key_kept hj, law.key_kept hk]

/-- The key of a value that has been interned before. -/
theorem getOrIntern_eq {s s' : σ} {k : Nat} {x : α} (h : t.getOrIntern s x = (s', k)) :
    t.Extends s s' ∧ t.resolve s' k = some x := by
  have hself := law.resolve_self s x
  have hext := law.extends_getOrIntern s x
  rw [h] at hself hext
  exact ⟨hext, hself⟩

end Lawful

/-! ## Lists -/

section
variable [DecidableEq α]

/-- The interner that keeps its values in a list, in the order they came in. -/
def ofList : Interner α { l : List α // l.Nodup } where
  new := ⟨[], List.nodup_nil⟩
  getOrIntern l x :=
    if h : x ∈ l.1 then (l, l.1.idxOf x)
    else (⟨l.1 ++ [x], by simpa using l.2.concat h⟩, l.1.length)
  resolve l k := l.1[k]?

theorem ofList_lawful : (ofList : Interner α _).Lawful where
  resolve_self l x := by
    unfold ofList
    dsimp only
    split
    · rename_i h
      exact List.getElem?_idxOf h
    · simp
  resolve_mono {l k y} x h := by
    unfold ofList at h ⊢
    dsimp only at h ⊢
    split
    · exact h
    · have hk : k < l.1.length := (List.getElem?_eq_some_iff.1 h).1
      rw [List.getElem?_append_left hk]
      exact h
  key_kept {l k x} h := by
    unfold ofList at h ⊢
    dsimp only at h ⊢
    obtain ⟨hk, hx⟩ := List.getElem?_eq_some_iff.1 h
    have hmem : x ∈ l.1 := List.mem_of_getElem? h
    rw [dif_pos hmem]
    subst hx
    exact l.2.idxOf_getElem k hk
  first_key x := rfl
  second_key {x y} h := by
    simp [ofList, Ne.symm h]

end

end Interner
