import Mathlib.Order.Lattice

/-!
# The later of two values

`latest stamp a b` is the one with the greater stamp, and `a` if neither has it. A value that is not
there is earlier than any other. It is an associative band (`latest_self`, `latest_latest_right`,
`latest_assoc`), and commutes exactly on values that are equal or have different stamps
(`latest_comm_iff`).
-/

variable {α τ : Type} [LinearOrder τ] (stamp : α → τ)

def latest : Option α → Option α → Option α
  | none, b => b
  | some a, none => some a
  | some a, some b => if stamp a < stamp b then some b else some a

@[simp] theorem latest_none_left (b : Option α) : latest stamp none b = b := rfl

@[simp] theorem latest_none_right (a : Option α) : latest stamp a none = a := by
  cases a <;> rfl

theorem latest_some_some (a b : α) :
    latest stamp (some a) (some b) = if stamp a < stamp b then some b else some a := rfl

@[simp] theorem latest_eq_none {a b : Option α} :
    latest stamp a b = none ↔ a = none ∧ b = none := by
  cases a with
  | none => simp
  | some a =>
    cases b with
    | none => simp
    | some b =>
      rw [latest_some_some]
      split <;> simp

@[simp] theorem latest_self (a : Option α) : latest stamp a a = a := by
  cases a with
  | none => rfl
  | some a => simp [latest_some_some]

@[simp] theorem latest_latest_right (a b : Option α) :
    latest stamp (latest stamp a b) b = latest stamp a b := by
  cases a with
  | none => simp
  | some a =>
    cases b with
    | none => simp
    | some b =>
      by_cases h : stamp a < stamp b
      · simp [latest_some_some, h]
      · simp [latest_some_some, h]

theorem latest_assoc (a b c : Option α) :
    latest stamp (latest stamp a b) c = latest stamp a (latest stamp b c) := by
  cases a with
  | none => rfl
  | some a =>
    cases b with
    | none => rfl
    | some b =>
      cases c with
      | none => simp
      | some c =>
        -- `c` wins over the later of `a` and `b` exactly if it wins over both
        by_cases hab : stamp a < stamp b <;> by_cases hbc : stamp b < stamp c
        · simp [latest_some_some, hab, hbc, hab.trans hbc]
        · simp [latest_some_some, hab, hbc]
        · simp [latest_some_some, hab, hbc]
        · have hac : ¬ stamp a < stamp c :=
            not_lt.2 ((not_lt.1 hbc).trans (not_lt.1 hab))
          simp [latest_some_some, hab, hbc, hac]

/-- **It commutes** unless two different values have the same stamp. -/
theorem latest_comm_iff {a b : Option α} :
    latest stamp a b = latest stamp b a ↔
      ∀ x y, a = some x → b = some y → x = y ∨ stamp x ≠ stamp y := by
  cases a with
  | none => simp
  | some a =>
    cases b with
    | none => simp
    | some b =>
      simp only [latest_some_some, Option.some.injEq]
      constructor
      · intro h x y hx hy
        subst hx hy
        by_cases he : stamp a = stamp b
        · left
          simpa [he] using h
        · exact .inr he
      · intro h
        rcases h a b rfl rfl with rfl | hne
        · rfl
        · rcases lt_or_gt_of_ne hne with hlt | hlt
          · rw [if_pos hlt, if_neg hlt.asymm]
          · rw [if_neg hlt.asymm, if_pos hlt]
