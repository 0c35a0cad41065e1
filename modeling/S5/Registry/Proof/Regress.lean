import S5.Registry.Paths
import S5.Registry.Proof.Converge

/-!
# A registry on a store that fails

`StoreRegistry::get` takes a read that fails for a missing entry, and `set` trusts it: a `Registry`
message is then stored whatever ranks above it.

* `setWith_keeps_iff`: the bytes of an entry that is not below the message survive, or the call
  fails, unless the read fails and the write succeeds.
* `setWith_ascends_iff`: the rank of an entry never decreases along a run exactly when no write that
  follows a failed read is below it (`Informed`).
-/

namespace Registry

open RegistryApi

namespace PathRegistry

variable {r : PathRegistry} {calls : CallOutcomes} {m e : StreamMessage}

/-- The object of a key. -/
def bytesOf (r : PathRegistry) (key : StreamKey) : Option Bytes :=
  r.store.object (keyPath r.pfx key.toBytes)

@[simp] theorem bytesOf_put : (r.put m).bytesOf m.key = some m.serialize := by
  simp [bytesOf, put]

theorem get_of_bytesOf {key : StreamKey} {bytes : Bytes} (hb : r.bytesOf key = some bytes)
    (he : StreamMessage.deserialize bytes = .ok e) : r.get key = .ok (some e) := by
  unfold bytesOf at hb
  unfold get
  rw [Store.openReadBytes_zero_none, hb]
  simp [he]

/-- A read that fails lets every message through. -/
theorem setWith_of_readFails (h : calls.readFails = true) :
    r.setWith calls m =
      (if calls.put.landed then r.put m else r,
        if calls.put = .stored then .ok () else .error storeError) := by
  have hst : m.shouldStore none = true := by
    unfold StreamMessage.shouldStore
    cases m.typeId <;> rfl
  unfold setWith getWith
  simp [h, hst]

/-- A read that succeeds keeps what is not below the message. -/
theorem setWith_of_read (h : calls.readFails = false) (ht : m.typeId = .registry)
    (he : r.get m.key = .ok (some e)) (hle : m.cmp e ≠ .gt) : r.setWith calls m = (r, .ok ()) := by
  have hst : m.shouldStore (some e) = false := by simp [StreamMessage.shouldStore, ht, hle]
  unfold setWith getWith
  simp [h, he, hst]

/-- One call. -/
theorem setWith_keeps_iff {bytes : Bytes} (hb : r.bytesOf m.key = some bytes)
    (he : StreamMessage.deserialize bytes = .ok e) (ht : m.typeId = .registry)
    (hle : m.cmp e ≠ .gt) :
    (r.setWith calls m).2 ≠ .ok () ∨ (r.setWith calls m).1.bytesOf m.key = some bytes ↔
      ¬ (calls.readFails = true ∧ calls.put = .stored ∧ m.serialize ≠ bytes) := by
  by_cases h : calls.readFails = true
  · rw [setWith_of_readFails h]
    by_cases hp : calls.put = .stored
    · simp [h, hp, PutOutcome.landed]
    · simp [hp]
  · have hread : calls.readFails = false := by simpa using h
    rw [setWith_of_read hread ht (get_of_bytesOf hb he) hle]
    simp [hread, hb]

/-! ## Runs -/

/-- The registry after a call. -/
def call (r : PathRegistry) (c : CallOutcomes × StreamMessage) : PathRegistry :=
  (r.setWith c.1 c.2).1

/-- A call for `k` whose read fails writes nothing below the entry. -/
def Informed (k : StreamKey) (r : PathRegistry) (c : CallOutcomes × StreamMessage) : Prop :=
  c.2.key = k → c.1.readFails = true → c.1.put.landed = true →
    ∀ e, r.get k = .ok (some e) → e.cmp c.2 ≠ .gt

/-- A call leaves the registry or writes its message. -/
theorem setWith_cases (r : PathRegistry) (calls : CallOutcomes) (m : StreamMessage) :
    (r.setWith calls m).1 = r ∨ (r.setWith calls m).1 = r.put m := by
  unfold setWith
  split
  · exact Or.inl rfl
  · split
    · dsimp only
      split
      · exact Or.inr rfl
      · exact Or.inl rfl
    · exact Or.inl rfl

theorem entryLe_put_iff (he : r.get m.key = .ok (some e)) :
    EntryLe m.key r (r.put m) ↔ e.cmp m ≠ .gt := by
  have hput : RegistryApi.get (r.put m) m.key = .ok (some m.wire) := get_put r m
  have hget : RegistryApi.get r m.key = .ok (some e) := he
  unfold EntryLe
  rw [hput, hget, cmp_ne_gt]
  simp

/-- A call on an entry of a key, by what it reads. -/
theorem entryLe_setWith_iff (he : r.get m.key = .ok (some e)) (ht : m.typeId = .registry) :
    EntryLe m.key r (r.setWith calls m).1 ↔
      (calls.readFails = true → calls.put.landed = true → e.cmp m ≠ .gt) := by
  by_cases h : calls.readFails = true
  · rw [setWith_of_readFails h]
    by_cases hl : calls.put.landed = true
    · simpa [h, hl] using entryLe_put_iff he
    · simp [hl, EntryLe.refl]
  · have hread : calls.readFails = false := by simpa using h
    simp only [hread, Bool.false_eq_true, false_implies, iff_true]
    by_cases hle : m.cmp e = .gt
    · -- the message is stored, as it is above the entry
      obtain hsame | hput := setWith_cases r calls m
      · rw [hsame]
        exact EntryLe.refl _ _
      · rw [hput, entryLe_put_iff he, cmp_ne_gt]
        exact le_of_lt (StreamMessage.cmp_eq_gt.1 hle)
    · rw [setWith_of_read hread ht he hle]
      exact EntryLe.refl _ _

theorem entryLe_call_iff (k : StreamKey) (r : PathRegistry) (c : CallOutcomes × StreamMessage)
    (ht : c.2.typeId = .registry) : EntryLe k r (r.call c) ↔ Informed k r c := by
  obtain ⟨calls, m⟩ := c
  unfold Informed call
  dsimp only
  by_cases hk : m.key = k
  · subst hk
    cases hg : r.get m.key with
    | error x => simp [EntryLe, show RegistryApi.get r m.key = _ from hg]
    | ok o =>
      cases o with
      | none => simp [EntryLe, show RegistryApi.get r m.key = _ from hg]
      | some e => simpa using entryLe_setWith_iff hg ht
  · simp only [hk, false_implies, iff_true]
    intro e he
    refine ⟨e, ?_, le_refl _⟩
    obtain hsame | hput := setWith_cases r calls m
    · rw [hsame]
      exact he
    · rw [hput]
      exact (get_put_ne r m (Ne.symm hk)).trans he

theorem setWith_ascends_iff (k : StreamKey) (r : PathRegistry)
    (calls : List (CallOutcomes × StreamMessage)) (ht : ∀ c ∈ calls, c.2.typeId = .registry) :
    Run.Ascends call (EntryLe k) r calls ↔ Run.Steps call (Informed k) r calls := by
  rw [Run.ascends_iff (EntryLe.refl k) EntryLe.trans]
  have hstep : ∀ pre c, pre ++ [c] <+: calls →
      (EntryLe k (pre.foldl call r) ((pre.foldl call r).call c) ↔
        Informed k (pre.foldl call r) c) := by
    intro pre c hp
    exact entryLe_call_iff k _ c (ht c (hp.subset (by simp)))
  constructor
  · intro h pre c hp
    exact (hstep pre c hp).1 (h pre c hp)
  · intro h pre c hp
    exact (hstep pre c hp).2 (h pre c hp)

end PathRegistry

open PathRegistry in
/-- **An entry goes back only through a write that follows a failed read.** -/
theorem store_registry_regresses_iff (r : PathRegistry) :
    (∀ (calls : CallOutcomes) (m e : StreamMessage) (bytes : Bytes),
      r.bytesOf m.key = some bytes → StreamMessage.deserialize bytes = .ok e →
        m.typeId = .registry → m.cmp e ≠ .gt →
          ((r.setWith calls m).2 ≠ .ok () ∨ (r.setWith calls m).1.bytesOf m.key = some bytes ↔
            ¬ (calls.readFails = true ∧ calls.put = .stored ∧ m.serialize ≠ bytes))) ∧
      ∀ (k : StreamKey) (calls : List (CallOutcomes × StreamMessage)),
        (∀ c ∈ calls, c.2.typeId = .registry) →
          (Run.Ascends call (EntryLe k) r calls ↔ Run.Steps call (Informed k) r calls) :=
  ⟨fun _ _ _ _ hb he ht hle => setWith_keeps_iff hb he ht hle,
    fun k calls ht => setWith_ascends_iff k r calls ht⟩

/-- A registry with the entry `m`. -/
def holding (m : StreamMessage) : PathRegistry :=
  (⟨⟨⟨true, true, 0⟩, fun _ => none⟩, "registry"⟩ : PathRegistry).put m

open PathRegistry in
theorem store_registry_regresses_bare :
    let r := holding (bareMessage .registry 5)
    let m := bareMessage .registry 1
    ((r.setWith .reliable m).2 ≠ .ok () ∨
        (r.setWith .reliable m).1.bytesOf m.key = some (bareMessage .registry 5).serialize) ∧
      Run.Ascends call (EntryLe m.key) r [(.reliable, m)] := by
  constructor
  · refine ((store_registry_regresses_iff _).1 .reliable _ (bareMessage .registry 5) _ ?_ ?_ ?_ ?_).2
      (by simp [CallOutcomes.reliable])
    all_goals decide +kernel
  · refine ((store_registry_regresses_iff _).2 _ _ ?_).2 (Run.steps_cons.2 ⟨?_, Run.steps_nil⟩)
    · simp [bareMessage]
    · intro _ hread
      exact absurd hread (by decide)

open PathRegistry in
/-- After a read that fails, revision 1 takes the place of revision 5. -/
theorem store_registry_goes_back :
    let r := holding (bareMessage .registry 5)
    let m := bareMessage .registry 1
    r.get m.key = .ok (some (bareMessage .registry 5)) ∧ m.cmp (bareMessage .registry 5) ≠ .gt ∧
      (r.setWith ⟨true, .stored⟩ m).2 = .ok () ∧
      (r.setWith ⟨true, .stored⟩ m).1.get m.key = .ok (some m) ∧
      ¬ Run.Ascends call (EntryLe m.key) r [(⟨true, .stored⟩, m)] := by
  refine ⟨by decide +kernel, by decide +kernel, by decide +kernel, by decide +kernel, ?_⟩
  intro h
  obtain ⟨e, he, hle⟩ := h [] [(⟨true, .stored⟩, bareMessage .registry 1)] List.prefix_rfl
    (bareMessage .registry 5) (by decide +kernel)
  have hm : e = bareMessage .registry 1 :=
    Option.some.inj (Except.ok.inj (he.symm.trans (by decide +kernel)))
  subst hm
  revert hle
  decide +kernel

end Registry
