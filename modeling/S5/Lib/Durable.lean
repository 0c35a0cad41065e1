import Mathlib.Data.List.Basic

/-!
# Volatile state with a durable copy

A store that changes in memory has a durable copy, which a save replaces and a crash brings back. In a
system that has such a store in its state, what a crash brings back is what the last save has saved
(`crash_after_save`).
-/

/-- What is in memory, and what a crash leaves of it. -/
structure Durable (σ : Type) where
  volatile : σ
  durable : σ

namespace Durable

variable {σ τ ι : Type}

/-- A store whose copy is what it holds. -/
def ofSaved (x : σ) : Durable σ := ⟨x, x⟩

def change (apply : σ → ι → σ) (s : Durable σ) (i : ι) : Durable σ :=
  { s with volatile := apply s.volatile i }

def save (s : Durable σ) : Durable σ := ofSaved s.volatile

def crash (s : Durable σ) : Durable σ := ofSaved s.durable

section
variable (step : τ → ι → τ) (view : τ → Durable σ) {saves : ι → Prop}

/-- Without a save the copy stays. -/
theorem durable_foldl (hstep : ∀ t i, ¬ saves i → (view (step t i)).durable = (view t).durable)
    {is : List ι} (h : ∀ i ∈ is, ¬ saves i) (t : τ) :
    (view (is.foldl step t)).durable = (view t).durable := by
  induction is generalizing t with
  | nil => rfl
  | cons i is ih =>
    obtain ⟨hi, his⟩ := List.forall_mem_cons.1 h
    rw [List.foldl_cons, ih his, hstep t i hi]

/-- **A crash brings back what the last save has saved.** -/
theorem crash_after_save (hstep : ∀ t i, ¬ saves i → (view (step t i)).durable = (view t).durable)
    (s c : ι) (hsave : ∀ t, view (step t s) = (view t).save)
    (hcrash : ∀ t, view (step t c) = (view t).crash) (before : List ι) {after : List ι}
    (h : ∀ i ∈ after, ¬ saves i) (t : τ) :
    view ((before ++ s :: (after ++ [c])).foldl step t) =
      ofSaved (view (before.foldl step t)).volatile := by
  rw [List.foldl_append, List.foldl_cons, List.foldl_append, List.foldl_cons, List.foldl_nil, hcrash]
  unfold crash
  rw [durable_foldl step view hstep h, hsave]
  rfl

end

end Durable
