import Mathlib.Data.List.Forall2
import Mathlib.Tactic.Common

/-!
# Lists in chunks

`chunks c l` cuts a list every `c` elements; the last chunk may be shorter, and is not empty. Such cuts
(`IsCut`) are what `chunks` gives (`isCut_chunks`), and a list joined from one is cut into it again
(`chunks_flatten`).

* `length_chunks`: how many there are.
* `IsCut.grow`, `IsCut.take`: chunks that all grow by as much, and the first ones, are cuts too.
-/

namespace Chunked

variable {α β : Type} {c : Nat}

def chunksFuel (c : Nat) : Nat → List α → List (List α)
  | 0, _ => []
  | fuel + 1, l => if l.isEmpty then [] else l.take c :: chunksFuel c fuel (l.drop c)

/-- Every chunk takes an element at least, if `c` is not zero. -/
def chunks (c : Nat) (l : List α) : List (List α) := chunksFuel c l.length l

@[simp] theorem chunks_nil : chunks c ([] : List α) = [] := rfl

theorem chunksFuel_eq (hc : 0 < c) : ∀ {m n : Nat} {l : List α}, l.length ≤ m → l.length ≤ n →
    chunksFuel c m l = chunksFuel c n l
  | m, n, [], _, _ => by cases m <;> cases n <;> rfl
  | 0, _, _ :: _, hm, _ => absurd hm (Nat.not_succ_le_zero _)
  | _, 0, _ :: _, _, hn => absurd hn (Nat.not_succ_le_zero _)
  | m + 1, n + 1, x :: l, hm, hn => by
    have hlen : ((x :: l).drop c).length ≤ l.length := by
      rw [List.length_drop, List.length_cons]
      omega
    rw [List.length_cons] at hm hn
    simp only [chunksFuel, List.isEmpty_cons, Bool.false_eq_true, if_false]
    rw [chunksFuel_eq hc (Nat.le_trans hlen (Nat.le_of_succ_le_succ hm))
      (Nat.le_trans hlen (Nat.le_of_succ_le_succ hn))]

theorem chunks_of_ne_nil (hc : 0 < c) {l : List α} (h : l ≠ []) :
    chunks c l = l.take c :: chunks c (l.drop c) := by
  obtain ⟨x, l, rfl⟩ := List.exists_cons_of_ne_nil h
  have hlen : ((x :: l).drop c).length ≤ l.length := by
    rw [List.length_drop, List.length_cons]
    omega
  show chunksFuel c (l.length + 1) (x :: l) = _
  simp only [chunksFuel, List.isEmpty_cons, Bool.false_eq_true, if_false]
  rw [chunks, chunksFuel_eq hc hlen (Nat.le_refl _)]

/-- Induction along the chunks of a list. -/
theorem chunks_induction (hc : 0 < c) {motive : List α → Prop} (nil : motive [])
    (cons : ∀ l, l ≠ [] → motive (l.drop c) → motive l) (l : List α) : motive l := by
  induction hn : l.length using Nat.strongRecOn generalizing l with
  | ind n ih =>
    by_cases h : l = []
    · rwa [h]
    · have hpos := List.length_pos_iff.2 h
      exact cons l h (ih (l.drop c).length (by rw [List.length_drop]; omega) _ rfl)

theorem flatten_chunks (hc : 0 < c) (l : List α) : (chunks c l).flatten = l := by
  induction l using chunks_induction hc with
  | nil => rfl
  | cons l h ih => rw [chunks_of_ne_nil hc h, List.flatten_cons, ih, List.take_append_drop]

/-- One chunk for every `c` elements, and one for the rest. -/
theorem length_chunks (hc : 0 < c) (l : List α) :
    (chunks c l).length = l.length / c + if 0 < l.length % c then 1 else 0 := by
  induction l using chunks_induction hc with
  | nil => simp
  | cons l h ih =>
    have hpos := List.length_pos_iff.2 h
    rw [chunks_of_ne_nil hc h, List.length_cons, ih, List.length_drop]
    by_cases hle : c ≤ l.length
    · rw [Nat.div_eq_sub_div hc hle, Nat.mod_eq_sub_mod hle]
      omega
    · have hzero : l.length - c = 0 := by omega
      have hlt : l.length < c := by omega
      rw [hzero, Nat.zero_div, Nat.zero_mod, Nat.div_eq_of_lt hlt, Nat.mod_eq_of_lt hlt, if_pos hpos]
      rfl

theorem length_chunks_le (hc : 0 < c) (l : List α) : (chunks c l).length ≤ l.length := by
  induction l using chunks_induction hc with
  | nil => exact Nat.le_refl _
  | cons l h ih =>
    have hpos := List.length_pos_iff.2 h
    rw [List.length_drop] at ih
    rw [chunks_of_ne_nil hc h, List.length_cons]
    omega

/-! ## Cuts -/

/-- A list of chunks of `c` elements, but for the last. -/
inductive IsCut (c : Nat) : List (List α) → Prop where
  | nil : IsCut c []
  | last {p : List α} : p ≠ [] → p.length ≤ c → IsCut c [p]
  | cons {p q : List α} {rest : List (List α)} : p.length = c → IsCut c (q :: rest) →
      IsCut c (p :: q :: rest)

theorem isCut_chunks (hc : 0 < c) (l : List α) : IsCut c (chunks c l) := by
  induction l using chunks_induction hc with
  | nil => exact .nil
  | cons l h ih =>
    rw [chunks_of_ne_nil hc h]
    by_cases hrest : l.drop c = []
    · rw [hrest, chunks_nil]
      refine .last ?_ (by rw [List.length_take]; omega)
      rw [← List.length_pos_iff, List.length_take]
      have := List.length_pos_iff.2 h
      omega
    · rw [chunks_of_ne_nil hc hrest] at ih ⊢
      refine .cons ?_ ih
      have := List.length_pos_iff.2 hrest
      rw [List.length_drop] at this
      rw [List.length_take]
      omega

theorem IsCut.flatten_ne_nil (hc : 0 < c) {p : List α} {rest : List (List α)}
    (h : IsCut c (p :: rest)) : (p :: rest).flatten ≠ [] := by
  have hp : p ≠ [] := by
    cases h with
    | last hp _ => exact hp
    | cons hp _ =>
      rw [← List.length_pos_iff, hp]
      exact hc
  rw [List.flatten_cons]
  exact List.append_ne_nil_of_left_ne_nil hp _

/-- **A list joined from a cut** is cut into it again. -/
theorem chunks_flatten (hc : 0 < c) {ps : List (List α)} (h : IsCut c ps) :
    chunks c ps.flatten = ps := by
  induction h with
  | nil => rfl
  | last hp hle =>
    rw [List.flatten_singleton, chunks_of_ne_nil hc hp, List.take_of_length_le hle,
      List.drop_eq_nil_of_le hle, chunks_nil]
  | cons hp hrest ih =>
    have hcut := IsCut.cons hp hrest
    rw [chunks_of_ne_nil hc (hcut.flatten_ne_nil hc), List.flatten_cons, ← hp, List.take_left,
      List.drop_left, hp, ih]

/-- Chunks that have all grown by `k`. -/
theorem IsCut.grow {k : Nat} {ps : List (List α)} {qs : List (List β)} (h : IsCut c ps)
    (hlen : List.Forall₂ (fun p q => q.length = p.length + k) ps qs) : IsCut (c + k) qs := by
  induction h generalizing qs with
  | nil =>
    cases hlen
    exact .nil
  | last hp hle =>
    obtain ⟨q, rest, hq, hnil, rfl⟩ := List.forall₂_cons_left_iff.1 hlen
    cases hnil
    have hpos := List.length_pos_iff.2 hp
    refine .last ?_ (by omega)
    rw [← List.length_pos_iff]
    omega
  | cons hp hrest ih =>
    obtain ⟨q, rest, hq, htail, rfl⟩ := List.forall₂_cons_left_iff.1 hlen
    have hcut := ih htail
    obtain ⟨q', rest', -, -, rfl⟩ := List.forall₂_cons_left_iff.1 htail
    exact .cons (by omega) hcut

theorem IsCut.take {ps : List (List α)} (hc : 0 < c) (h : IsCut c ps) (n : Nat) : IsCut c (ps.take n) := by
  induction h generalizing n with
  | nil =>
    rw [List.take_nil]
    exact .nil
  | last hp hle =>
    cases n with
    | zero => exact .nil
    | succ n => simpa using IsCut.last hp hle
  | @cons p q rest hp hrest ih =>
    match n with
    | 0 => exact .nil
    | 1 =>
      refine .last ?_ (Nat.le_of_eq hp)
      rw [← List.length_pos_iff, hp]
      exact hc
    | n + 2 => exact .cons hp (ih (n + 1))

end Chunked
