import Mathlib.Data.List.Basic

/-!
# Folds over maps that work key by key

A fold over the entries of a map whose step for key `k` only touches what an observer sees at `k`
is, at each key, one step or none (`ExtTreeMap.foldl_at`); one that puts all entries under new keys
has them there if no two get the same (`ExtTreeMap.foldl_insert_at`). What holds of all entries is found by going
through them (`ExtTreeMap.forall_getElem?_iff`), and so is an entry
(`ExtTreeMap.any_iff_exists_getElem?`).
-/

open Std

namespace Std.ExtTreeMap

variable {α : Type} {β σ γ : Type} [Ord α] [TransOrd α] [LawfulEqOrd α] [DecidableEq α]

theorem getElem?_insert_ite (m : ExtTreeMap α β) (k n : α) (v : β) :
    (m.insert k v)[n]? = if n = k then some v else m[n]? := by
  rw [getElem?_insert]
  by_cases hn : n = k
  · rw [if_pos hn, hn, if_pos (compare_eq_iff_eq.2 rfl)]
  · rw [if_neg hn, if_neg fun he => hn (compare_eq_iff_eq.1 he).symm]

omit [TransOrd α] in
theorem foldl_list_at {step : σ → α → β → σ} {see : σ → α → γ} {upd : γ → β → γ}
    (hstep : ∀ s k v n, see (step s k v) n = if k = n then upd (see s n) v else see s n)
    (n : α) (l : List (α × β)) (hl : l.Pairwise fun a b => ¬ compare a.1 b.1 = .eq) (s : σ) :
    see (l.foldl (fun s kv => step s kv.1 kv.2) s) n =
      match l.find? (·.1 = n) with
      | some kv => upd (see s n) kv.2
      | none => see s n := by
  induction l generalizing s with
  | nil => rfl
  | cons kv l ih =>
    obtain ⟨hk, hl⟩ := List.pairwise_cons.1 hl
    rw [List.foldl_cons, ih hl]
    by_cases hn : kv.1 = n
    · -- no later entry has the key `n`
      have hnone : l.find? (·.1 = n) = none := by
        rw [List.find?_eq_none]
        intro kv' hmem
        have hne := hk kv' hmem
        rw [hn, compare_eq_iff_eq] at hne
        simpa using Ne.symm hne
      simp [hnone, hstep, hn]
    · simp [hn, hstep]

/-- What an observer sees at `n` after a fold whose steps touch only their own key. -/
theorem foldl_at {step : σ → α → β → σ} {see : σ → α → γ} {upd : γ → β → γ}
    (hstep : ∀ s k v n, see (step s k v) n = if k = n then upd (see s n) v else see s n)
    (m : ExtTreeMap α β) (s : σ) (n : α) :
    see (m.foldl step s) n =
      match m[n]? with
      | some v => upd (see s n) v
      | none => see s n := by
  rw [foldl_eq_foldl_toList, foldl_list_at hstep n _ distinct_keys_toList]
  cases hf : m.toList.find? (·.1 = n) with
  | none =>
    have hnone : m[n]? = none := by
      cases hm : m[n]? with
      | none => rfl
      | some v =>
        rw [List.find?_eq_none] at hf
        exact absurd (by simp) (hf (n, v) (mem_toList_iff_getElem?_eq_some.2 hm))
    rw [hnone]
  | some kv =>
    have hkv : kv.1 = n := by simpa using List.find?_some hf
    have hmem : (kv.1, kv.2) ∈ m.toList := List.mem_of_find?_eq_some hf
    rw [mem_toList_iff_getElem?_eq_some, hkv] at hmem
    rw [hmem]

omit [DecidableEq α] in
theorem foldl_insert_list_at (g : α → α) (n : α) (l : List (α × β))
    (hl : l.Pairwise fun a b => g a.1 ≠ g b.1) (m : ExtTreeMap α β) {v : β} :
    (l.foldl (fun m kv => m.insert (g kv.1) kv.2) m)[n]? = some v ↔
      (∃ kv ∈ l, g kv.1 = n ∧ kv.2 = v) ∨ (∀ kv ∈ l, g kv.1 ≠ n) ∧ m[n]? = some v := by
  induction l generalizing m with
  | nil => simp
  | cons kv l ih =>
    obtain ⟨hk, hl⟩ := List.pairwise_cons.1 hl
    rw [List.foldl_cons, ih hl, getElem?_insert]
    by_cases hn : g kv.1 = n
    · -- no later entry goes to the key `n`
      have hlater : ∀ kv' ∈ l, g kv'.1 ≠ n := fun kv' hm he => hk kv' hm (hn.trans he.symm)
      have hnone : ¬ ∃ kv' ∈ l, g kv'.1 = n ∧ kv'.2 = v := fun ⟨kv', hm, he, _⟩ => hlater kv' hm he
      have hnot : ¬ ((∀ kv' ∈ kv :: l, g kv'.1 ≠ n) ∧ m[n]? = some v) := fun h => h.1 kv (.head _) hn
      rw [if_pos (compare_eq_iff_eq.2 hn), or_iff_right hnone, or_iff_left hnot, Option.some.injEq]
      constructor
      · rintro ⟨-, rfl⟩
        exact ⟨kv, .head _, hn, rfl⟩
      · rintro ⟨kv', hm, he, rfl⟩
        rcases List.mem_cons.1 hm with rfl | hm
        · exact ⟨hlater, rfl⟩
        · exact absurd he (hlater kv' hm)
    · rw [if_neg (mt compare_eq_iff_eq.1 hn)]
      simp [hn]

omit [DecidableEq α] in
/-- A fold that puts all entries of a map under new keys, no two under the same. -/
theorem foldl_insert_at (m : ExtTreeMap α β) (g : α → α)
    (hg : ∀ a b, a ∈ m → b ∈ m → g a = g b → a = b) (n : α) {v : β} :
    (m.foldl (fun (acc : ExtTreeMap α β) k v => acc.insert (g k) v) ∅)[n]? = some v ↔
      ∃ k, g k = n ∧ m[k]? = some v := by
  have hdistinct : m.toList.Pairwise fun a b => g a.1 ≠ g b.1 := by
    refine List.Pairwise.imp_of_mem ?_ distinct_keys_toList
    intro a b ha hb hne he
    have hmem : ∀ kv ∈ m.toList, kv.1 ∈ m := by
      intro kv hkv
      rw [mem_iff_isSome_getElem?, mem_toList_iff_getElem?_eq_some.1 hkv]
      rfl
    exact hne (compare_eq_iff_eq.2 (hg a.1 b.1 (hmem a ha) (hmem b hb) he))
  rw [foldl_eq_foldl_toList, foldl_insert_list_at g n _ hdistinct]
  constructor
  · rintro (⟨kv, hkv, hk, rfl⟩ | ⟨-, h⟩)
    · exact ⟨kv.1, hk, mem_toList_iff_getElem?_eq_some.1 hkv⟩
    · simp at h
  · rintro ⟨k, hk, hv⟩
    exact .inl ⟨(k, v), mem_toList_iff_getElem?_eq_some.2 hv, hk, rfl⟩

omit [DecidableEq α] in
/-- Its own entries put together again. -/
theorem foldl_insert_toList (m : ExtTreeMap α β) :
    m.toList.foldl (fun (acc : ExtTreeMap α β) kv => acc.insert kv.1 kv.2) ∅ = m := by
  have hdistinct : m.toList.Pairwise fun a b => id a.1 ≠ id b.1 := by
    refine List.Pairwise.imp ?_ (distinct_keys_toList (t := m))
    intro a b h he
    exact h (compare_eq_iff_eq.2 he)
  refine ext_getElem? fun n => Option.ext fun v => ?_
  have hat := foldl_insert_list_at id n m.toList hdistinct (∅ : ExtTreeMap α β) (v := v)
  simp only [id, getElem?_empty, reduceCtorEq, and_false, or_false] at hat
  rw [hat, ← mem_toList_iff_getElem?_eq_some]
  constructor
  · rintro ⟨kv, hkv, rfl, rfl⟩
    exact hkv
  · intro h
    exact ⟨(n, v), h, rfl, rfl⟩

omit [DecidableEq α] in
theorem nodup_toList (m : ExtTreeMap α β) : m.toList.Nodup := by
  refine List.Pairwise.imp ?_ (distinct_keys_toList (t := m))
  intro a b h he
  exact h (compare_eq_iff_eq.2 (congrArg Prod.fst he))

omit [DecidableEq α] in
theorem forall_getElem?_iff {m : ExtTreeMap α β} {P : α → β → Prop} :
    (∀ kv ∈ m.toList, P kv.1 kv.2) ↔ ∀ k v, m[k]? = some v → P k v := by
  constructor
  · intro h k v hv
    exact h (k, v) (mem_toList_iff_getElem?_eq_some.2 hv)
  · intro h kv hkv
    exact h kv.1 kv.2 (mem_toList_iff_getElem?_eq_some.1 hkv)

omit [LawfulEqOrd α] [DecidableEq α] in
theorem any_eq_any_toList (m : ExtTreeMap α β) (p : α → β → Bool) :
    m.any p = m.toList.any fun kv => p kv.1 kv.2 := by
  have h : m.any p = Id.run (do
      for kv in m do
        if p kv.1 kv.2 then return true
      return false) := by
    cases m with
    | mk inner =>
      cases inner with
      | mk inner => rfl
  rw [h]
  simp only [forIn_eq_forIn_toList]
  induction m.toList with
  | nil => rfl
  | cons kv l ih =>
    simp only [List.forIn_cons, List.any_cons]
    by_cases hp : p kv.1 kv.2 = true
    · simp [hp]
    · simp [hp]
      simpa using ih

omit [DecidableEq α] in
theorem any_iff_exists_getElem? {m : ExtTreeMap α β} {p : α → β → Bool} :
    m.any p = true ↔ ∃ k v, m[k]? = some v ∧ p k v = true := by
  rw [any_eq_any_toList, List.any_eq_true]
  constructor
  · rintro ⟨kv, hkv, hp⟩
    exact ⟨kv.1, kv.2, mem_toList_iff_getElem?_eq_some.1 hkv, hp⟩
  · rintro ⟨k, v, hv, hp⟩
    exact ⟨(k, v), mem_toList_iff_getElem?_eq_some.2 hv, hp⟩

end Std.ExtTreeMap
