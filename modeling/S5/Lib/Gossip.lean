import Mathlib.Order.Bounds.Basic
import Mathlib.Order.Lattice
import Mathlib.Logic.Function.Basic

/-!
# Replicas around a shared register

Replicas hold values of a join semilattice and exchange them over one register. A replica fetches the
register into a copy of its own, joins its value into the copy, offers the copy, publishes the offer
and joins the copy into its value. To publish is to replace: what others have published since the
fetch is gone from the register, and an offer may lie around for as long as it likes.

* `Gossip.Within.step`: nothing is lost from the replicas. Their least upper bound changes only by what is
  written (`Act.written`), and bounds everything that is under way.
* `Gossip.Within.converged`: once each replica in turn has taken a whole turn undisturbed, and then each of
  them one more, all of them hold that bound.
-/

structure Gossip (ι α : Type) where
  shared : α
  value : ι → α
  copy : ι → α
  offer : ι → α

namespace Gossip

variable {ι α : Type} [DecidableEq ι] [SemilatticeSup α] [OrderBot α]

inductive Act (ι α : Type) where
  /-- A replica's own value grows. -/
  | write (i : ι) (x : α)
  | fetch (i : ι)
  | push (i : ι)
  | prepare (i : ι)
  | publish (i : ι)
  /-- An offer that is not taken. -/
  | withdraw (i : ι)
  | pull (i : ι)

def step (s : Gossip ι α) : Act ι α → Gossip ι α
  | .write i x => { s with value := Function.update s.value i (s.value i ⊔ x) }
  | .fetch i => { s with copy := Function.update s.copy i s.shared }
  | .push i => { s with copy := Function.update s.copy i (s.copy i ⊔ s.value i) }
  | .prepare i => { s with offer := Function.update s.offer i (s.copy i) }
  | .publish i => { s with shared := s.offer i, offer := Function.update s.offer i ⊥ }
  | .withdraw i => { s with offer := Function.update s.offer i ⊥ }
  | .pull i => { s with value := Function.update s.value i (s.value i ⊔ s.copy i) }

/-- What an act brings into the system. -/
def Act.written : Act ι α → α
  | .write _ x => x
  | _ => ⊥

/-- A whole turn of a replica. -/
def turn (i : ι) : List (Act ι α) := [.fetch i, .push i, .prepare i, .publish i, .pull i]

/-- The replicas' values have the least upper bound `t`, and it bounds everything else too. -/
structure Within (s : Gossip ι α) (t : α) : Prop where
  lub : IsLUB (Set.range s.value) t
  shared : s.shared ≤ t
  copy : ∀ i, s.copy i ≤ t
  offer : ∀ i, s.offer i ≤ t

variable {s : Gossip ι α} {t : α}

omit [DecidableEq ι] [OrderBot α] in
theorem Within.value (h : Within s t) (i : ι) : s.value i ≤ t := h.lub.1 (Set.mem_range_self i)

omit [OrderBot α] in
theorem update_le {f : ι → α} (h : ∀ i, f i ≤ t) {i : ι} {x : α} (hx : x ≤ t) (j : ι) :
    Function.update f i x j ≤ t := by
  by_cases hj : j = i
  · subst hj
    rwa [Function.update_self]
  · rw [Function.update_of_ne hj]
    exact h j

omit [OrderBot α] in
/-- One value grows, and the bound with it. -/
theorem isLUB_update {f : ι → α} (h : IsLUB (Set.range f) t) (i : ι) (x : α) :
    IsLUB (Set.range (Function.update f i (f i ⊔ x))) (t ⊔ x) := by
  constructor
  · rintro y ⟨j, rfl⟩
    have hf : ∀ j, f j ≤ t ⊔ x := fun j => (h.1 (Set.mem_range_self j)).trans le_sup_left
    exact update_le hf (sup_le (hf i) le_sup_right) j
  · intro u hu
    have hi : f i ⊔ x ≤ u := by
      have := hu (Set.mem_range_self i)
      rwa [Function.update_self] at this
    refine sup_le (h.2 ?_) (le_sup_right.trans hi)
    rintro y ⟨j, rfl⟩
    by_cases hj : j = i
    · subst hj
      exact le_sup_left.trans hi
    · have := hu (Set.mem_range_self j)
      rwa [Function.update_of_ne hj] at this

/-- **Nothing is lost.** -/
theorem Within.step (h : Within s t) (act : Act ι α) :
    Within (s.step act) (t ⊔ act.written) := by
  cases act with
  | write i x =>
    have hle : t ≤ t ⊔ x := le_sup_left
    exact ⟨isLUB_update h.lub i x, h.shared.trans hle, fun j => (h.copy j).trans hle,
      fun j => (h.offer j).trans hle⟩
  | fetch i =>
    change Within _ (t ⊔ ⊥)
    rw [sup_bot_eq]
    exact ⟨h.lub, h.shared, update_le h.copy h.shared, h.offer⟩
  | push i =>
    change Within _ (t ⊔ ⊥)
    rw [sup_bot_eq]
    exact ⟨h.lub, h.shared, update_le h.copy (sup_le (h.copy i) (h.value i)), h.offer⟩
  | prepare i =>
    change Within _ (t ⊔ ⊥)
    rw [sup_bot_eq]
    exact ⟨h.lub, h.shared, h.copy, update_le h.offer (h.copy i)⟩
  | publish i =>
    change Within _ (t ⊔ ⊥)
    rw [sup_bot_eq]
    exact ⟨h.lub, h.offer i, h.copy, update_le h.offer bot_le⟩
  | withdraw i =>
    change Within _ (t ⊔ ⊥)
    rw [sup_bot_eq]
    exact ⟨h.lub, h.shared, h.copy, update_le h.offer bot_le⟩
  | pull i =>
    change Within _ (t ⊔ ⊥)
    rw [sup_bot_eq]
    refine ⟨?_, h.shared, h.copy, h.offer⟩
    have hlub := isLUB_update h.lub i (s.copy i)
    rwa [sup_eq_left.2 (h.copy i)] at hlub

/-- The system has made one act, or none that shows. -/
def Moves (s : Gossip ι α) (t : α) (s' : Gossip ι α) (t' : α) : Prop :=
  (s' = s ∧ t' = t) ∨ ∃ act, s' = s.step act ∧ t' = t ⊔ act.written

theorem Within.moves {s' : Gossip ι α} {t' : α} (h : Within s t) (hm : Moves s t s' t') :
    Within s' t' := by
  rcases hm with ⟨rfl, rfl⟩ | ⟨act, rfl, rfl⟩
  · exact h
  · exact h.step act

theorem value_le_step (s : Gossip ι α) (act : Act ι α) (i : ι) : s.value i ≤ (s.step act).value i := by
  have hgrow : ∀ k x, s.value i ≤ Function.update s.value k (s.value k ⊔ x) i := by
    intro k x
    by_cases hk : i = k
    · subst hk
      rw [Function.update_self]
      exact le_sup_left
    · rw [Function.update_of_ne hk]
  cases act with
  | write k x => exact hgrow k x
  | pull k => exact hgrow k (s.copy k)
  | fetch k => exact le_rfl
  | push k => exact le_rfl
  | prepare k => exact le_rfl
  | publish k => exact le_rfl
  | withdraw k => exact le_rfl

/-- No replica ever goes back. -/
theorem Moves.value_le {s' : Gossip ι α} {t' : α} (hm : Moves s t s' t') (i : ι) :
    s.value i ≤ s'.value i := by
  rcases hm with ⟨rfl, -⟩ | ⟨act, rfl, -⟩
  · exact le_rfl
  · exact value_le_step s act i

/-! ## Undisturbed turns -/

/-- After a turn the register holds what it held and the replica's value, and the replica holds as
much. -/
theorem foldl_turn (s : Gossip ι α) (i : ι) :
    ((turn i).foldl step s).shared = s.shared ⊔ s.value i ∧
      ((turn i).foldl step s).value i = s.shared ⊔ s.value i ∧
      ∀ j, j ≠ i → ((turn i).foldl step s).value j = s.value j := by
  refine ⟨?_, ?_, fun j hj => ?_⟩
  · simp [turn, Gossip.step]
  · simp [turn, Gossip.step]
  · simp [turn, Gossip.step, hj]

theorem Within.turn (h : Within s t) (i : ι) :
    Within ((Gossip.turn i).foldl Gossip.step s) t := by
  have h5 := ((((h.step (.fetch i)).step (.push i)).step (.prepare i)).step (.publish i)).step (.pull i)
  simpa [Act.written, Gossip.turn] using h5

/-- The register keeps what it holds and collects the values of those that take a turn. -/
theorem shared_turns (h : Within s t) (round : List ι) :
    Within ((round.flatMap turn).foldl step s) t ∧
      s.shared ≤ ((round.flatMap turn).foldl step s).shared ∧
      (∀ i, s.value i ≤ ((round.flatMap turn).foldl step s).value i) ∧
      ∀ i ∈ round, s.value i ≤ ((round.flatMap turn).foldl step s).shared := by
  induction round generalizing s with
  | nil => exact ⟨h, le_rfl, fun _ => le_rfl, by simp⟩
  | cons k round ih =>
    obtain ⟨hshared, hown, hothers⟩ := foldl_turn s k
    rw [List.flatMap_cons, List.foldl_append]
    obtain ⟨hw, hs, hv, hr⟩ := ih (h.turn k)
    have hvalue : ∀ i, s.value i ≤ ((Gossip.turn k).foldl Gossip.step s).value i := by
      intro i
      by_cases hi : i = k
      · subst hi
        rw [hown]
        exact le_sup_right
      · rw [hothers i hi]
    refine ⟨hw, ?_, fun i => (hvalue i).trans (hv i), fun i hi => ?_⟩
    · exact le_sup_left.trans (hshared.symm.le.trans hs)
    · rcases List.mem_cons.1 hi with rfl | hi
      · exact le_sup_right.trans (hshared.symm.le.trans hs)
      · exact (hvalue i).trans (hr i hi)

/-- With the bound in the register, whoever takes a turn holds it from then on. -/
theorem value_turns (h : Within s t) (hs : s.shared = t) (round : List ι) :
    ∀ i ∈ round, ((round.flatMap turn).foldl step s).value i = t := by
  induction round generalizing s with
  | nil => simp
  | cons k round ih =>
    intro i hi
    obtain ⟨hshared, hown, -⟩ := foldl_turn s k
    rw [List.flatMap_cons, List.foldl_append]
    have hw := h.turn k
    rw [hs, sup_eq_left.2 (h.value k)] at hshared hown
    rcases List.mem_cons.1 hi with rfl | hi
    · obtain ⟨hw', -, hv, -⟩ := shared_turns hw round
      exact le_antisymm (hw'.value i) (hown.symm.le.trans (hv i))
    · exact ih hw hshared i hi

/-- **Two rounds bring everyone to the bound.** -/
theorem Within.converged (h : Within s t) {first second : List ι}
    (hf : ∀ i, i ∈ first) (hs : ∀ i, i ∈ second) (i : ι) :
    (((first ++ second).flatMap Gossip.turn).foldl Gossip.step s).value i = t := by
  rw [List.flatMap_append, List.foldl_append]
  obtain ⟨hw, -, -, hr⟩ := shared_turns h first
  refine value_turns hw (le_antisymm hw.shared (h.lub.2 ?_)) second i (hs i)
  rintro x ⟨j, rfl⟩
  exact hr j (hf j)

end Gossip
