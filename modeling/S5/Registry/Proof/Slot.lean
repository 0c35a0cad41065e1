import S5.Lib.Run
import S5.Registry.Api

/-!
# One slot a key

A local registry keeps at most one message under a key and replaces it as `should_store` says
(`SlotRegistry`).

* `never_goes_back_iff`: the rank of the entry under a key never decreases along a run of `set`
  calls, local or from the wire, exactly when no message of type `Stream` reaches an entry that
  ranks above it (`NotBelow`): such a message is stored whatever is there.
-/

namespace Registry

open RegistryApi

/-- What `get` answers for a key after a call, by what it answered before. A message read back is
the one stored, up to the wire. -/
class SlotRegistry (ρ : Type) [RegistryApi ρ] : Prop where
  get_set : ∀ (r : ρ) (m : StreamMessage) (e : Option StreamMessage), get r m.key = .ok e →
    ∃ m', m'.wire = m.wire ∧
      get (set r m).1 m.key = .ok (if m.shouldStore e then some m' else e)
  set_error : ∀ (r : ρ) (m : StreamMessage) (x : String), get r m.key = .error x →
    (set r m).1 = r
  get_set_ne : ∀ (r : ρ) (m : StreamMessage) (k : StreamKey), k ≠ m.key →
    get (set r m).1 k = get r k
  get_delete : ∀ (r : ρ) (k : StreamKey), get (delete r k).1 k = .ok none
  get_delete_ne : ∀ (r : ρ) (j k : StreamKey), k ≠ j → get (delete r j).1 k = get r k

instance : SlotRegistry MemoryRegistry where
  get_set r m e he := by
    have hd : r.data m.key = e := Except.ok.inj he
    refine ⟨m, rfl, ?_⟩
    show Except.ok ((r.set m).data m.key) = _
    unfold MemoryRegistry.set
    rw [hd]
    split
    · simp
    · rw [hd]
  set_error r m x hx := nomatch hx
  get_set_ne r m k hk := by
    show Except.ok ((r.set m).data k) = Except.ok (r.data k)
    unfold MemoryRegistry.set
    split
    · simp [Function.update_of_ne hk]
    · rfl
  get_delete r k := by
    show Except.ok ((r.delete k).data k) = _
    simp [MemoryRegistry.delete]
  get_delete_ne r j k hk := by
    show Except.ok ((r.delete j).data k) = Except.ok (r.data k)
    simp [MemoryRegistry.delete, Function.update_of_ne hk]

namespace Rows

theorem get_set {t : Rows} {m : StreamMessage} {e : Option StreamMessage}
    (he : t.get m.key = .ok e) :
    (t.set m).1.get m.key = .ok (if m.shouldStore e then some m.wire else e) := by
  unfold set
  rw [he]
  dsimp only
  split
  · unfold get
    dsimp only
    rw [Function.update_self]
    dsimp only
    rw [StreamMessage.deserialize_serialize]
  · exact he

theorem set_error {t : Rows} {m : StreamMessage} {x : String} (hx : t.get m.key = .error x) :
    t.set m = (t, .error x) := by
  unfold set
  rw [hx]

theorem get_set_ne {t : Rows} {m : StreamMessage} {k : StreamKey} (hk : k ≠ m.key) :
    (t.set m).1.get k = t.get k := by
  have hb : k.toBytes ≠ m.key.toBytes := fun h => hk (StreamKey.toBytes_injective h)
  unfold set
  split
  · rfl
  · split
    · unfold get
      dsimp only
      rw [Function.update_of_ne hb]
    · rfl

theorem get_delete {t : Rows} {k : StreamKey} : (t.delete k).get k = .ok none := by
  simp [get, delete]

theorem get_delete_ne {t : Rows} {j k : StreamKey} (hk : k ≠ j) :
    (t.delete j).get k = t.get k := by
  have hb : k.toBytes ≠ j.toBytes := fun h => hk (StreamKey.toBytes_injective h)
  unfold get delete
  dsimp only
  rw [Function.update_of_ne hb]

end Rows

instance : SlotRegistry RedbRegistry where
  get_set _ m _ he := ⟨m.wire, m.wire_wire, Rows.get_set he⟩
  set_error r m x hx := by
    show (⟨(r.table.set m).1⟩ : RedbRegistry) = r
    rw [Rows.set_error hx]
  get_set_ne _ _ _ hk := Rows.get_set_ne hk
  get_delete _ _ := Rows.get_delete
  get_delete_ne _ _ _ hk := Rows.get_delete_ne hk

/-! ## Revisions -/

/-- A `set` call: one that reaches the server as bytes, or a local one. -/
inductive SetCall where
  | submit (req : SetRequest)
  | set (message : StreamMessage)

namespace SetCall

/-- The message a call asks to store, if its bytes decode. -/
def message : SetCall → Option StreamMessage
  | submit req => (StreamMessage.deserialize req.message).toOption
  | set m => some m

variable {ρ : Type} [RegistryApi ρ]

/-- The registry after a call. -/
def run (r : ρ) : SetCall → ρ
  | submit req => (handleSet r (RegistryApi.set r) req).1
  | set m => (RegistryApi.set r m).1

theorem run_eq (r : ρ) (c : SetCall) :
    c.run r = c.message.elim r fun m => (RegistryApi.set r m).1 := by
  cases c with
  | submit req =>
    show (handleSet r (RegistryApi.set r) req).1 = _
    unfold handleSet message
    cases h : StreamMessage.deserialize req.message <;> simp [h, Except.toOption]
  | set m => rfl

end SetCall

section
variable {ρ : Type} [RegistryApi ρ]

/-- The entry under `k` has not gone back from `r` to `r'`. -/
def EntryLe (k : StreamKey) (r r' : ρ) : Prop :=
  ∀ e, get r k = .ok (some e) → ∃ e', get r' k = .ok (some e') ∧ e.rank ≤ e'.rank

/-- In every state of the run over `calls` the entry under `k` ranks at least as high as in every
state before. -/
def NeverGoesBack (r : ρ) (k : StreamKey) (calls : List SetCall) : Prop :=
  Run.Ascends SetCall.run (EntryLe k) r calls

/-- A `Stream` message for `k` does not rank below the entry it would replace. -/
def NotBelow (k : StreamKey) (r : ρ) (c : SetCall) : Prop :=
  ∀ m ∈ c.message, m.key = k → m.typeId = .stream →
    ∀ e, get r k = .ok (some e) → e.rank ≤ m.rank

theorem EntryLe.refl (k : StreamKey) (r : ρ) : EntryLe k r r :=
  fun e he => ⟨e, he, le_refl _⟩

theorem EntryLe.trans {k : StreamKey} {a b c : ρ} (hab : EntryLe k a b) (hbc : EntryLe k b c) :
    EntryLe k a c := by
  intro e he
  obtain ⟨e', he', hle⟩ := hab e he
  obtain ⟨e'', he'', hle'⟩ := hbc e' he'
  exact ⟨e'', he'', hle.trans hle'⟩

variable [SlotRegistry ρ]

/-- One `set` call takes the entry of its key back exactly when it is a `Stream` message that ranks
below. -/
theorem entryLe_set_iff (r : ρ) (m : StreamMessage) :
    EntryLe m.key r (set r m).1 ↔
      (m.typeId = .stream → ∀ e, get r m.key = .ok (some e) → e.rank ≤ m.rank) := by
  cases hg : get r m.key with
  | error x =>
    rw [SlotRegistry.set_error r m x hg]
    simp [EntryLe.refl]
  | ok existing =>
    obtain ⟨m', hw, hs⟩ := SlotRegistry.get_set r m existing hg
    have hr : m'.rank = m.rank := by rw [← m'.rank_wire, hw, m.rank_wire]
    cases existing with
    | none => simp [EntryLe, hg]
    | some e =>
      have hle : EntryLe m.key r (set r m).1 ↔
          e.rank ≤ (if m.shouldStore (some e) then m' else e).rank := by
        unfold EntryLe
        rw [hg, hs]
        by_cases hst : m.shouldStore (some e) <;> simp [hst]
      rw [hle]
      cases ht : m.typeId with
      | stream => simp [StreamMessage.shouldStore, ht, hr]
      | registry =>
        -- a `Registry` message is stored only above the entry
        by_cases hgt : m.cmp e = .gt
        · have hlt : e.rank < m.rank := StreamMessage.cmp_eq_gt.1 hgt
          simp [StreamMessage.shouldStore, ht, hgt, hr, le_of_lt hlt]
        · simp [StreamMessage.shouldStore, ht, hgt]

theorem entryLe_run_iff (k : StreamKey) (r : ρ) (c : SetCall) :
    EntryLe k r (c.run r) ↔ NotBelow k r c := by
  rw [SetCall.run_eq]
  unfold NotBelow
  cases c.message with
  | none => simp [EntryLe.refl]
  | some m =>
    by_cases hk : m.key = k
    · subst hk
      simpa using entryLe_set_iff r m
    · have hsame : get (set r m).1 k = get r k := SlotRegistry.get_set_ne r m k (Ne.symm hk)
      have hrefl : EntryLe k r (set r m).1 := by
        intro e he
        exact ⟨e, by rw [hsame, he], le_refl _⟩
      simpa [hk] using hrefl

theorem slot_never_goes_back_iff (r : ρ) (k : StreamKey) (calls : List SetCall) :
    NeverGoesBack r k calls ↔ Run.Steps SetCall.run (NotBelow k) r calls := by
  unfold NeverGoesBack
  rw [Run.ascends_iff (EntryLe.refl k) EntryLe.trans]
  simp only [entryLe_run_iff]

end

/-- **Revisions go back only through `Stream` messages.** -/
theorem never_goes_back_iff (m : MemoryRegistry) (r : RedbRegistry) (k : StreamKey)
    (calls : List SetCall) :
    (NeverGoesBack m k calls ↔ Run.Steps SetCall.run (NotBelow k) m calls) ∧
      (NeverGoesBack r k calls ↔ Run.Steps SetCall.run (NotBelow k) r calls) :=
  ⟨slot_never_goes_back_iff m k calls, slot_never_goes_back_iff r k calls⟩

theorem not_neverGoesBack {ρ : Type} [RegistryApi ρ] {r : ρ} {k : StreamKey}
    {pre mid : List SetCall} {e e' : StreamMessage}
    (he : get (pre.foldl SetCall.run r) k = .ok (some e))
    (he' : get ((pre ++ mid).foldl SetCall.run r) k = .ok (some e')) (hlt : e'.rank < e.rank) :
    ¬ NeverGoesBack r k (pre ++ mid) := by
  intro h
  obtain ⟨e'', he'', hle⟩ := h pre mid List.prefix_rfl e he
  have heq : e'' = e' := Option.some.inj (Except.ok.inj (he''.symm.trans he'))
  subst heq
  exact absurd hle (not_le_of_gt hlt)

/-- A message without payload under the key `localId 0`. -/
def bareMessage (typeId : MessageType) (revision : UInt64) : StreamMessage :=
  ⟨typeId, .localId 0, revision, 0, [], none, rfl, fun _ => Nat.zero_le _⟩

/-- An entry of revision 5 goes back to the stream message of revision 1 a peer submits. -/
theorem stream_message_goes_back :
    let calls := [.set (bareMessage .registry 5)] ++
      [.submit ⟨(bareMessage .stream 1).serialize⟩]
    ¬ NeverGoesBack MemoryRegistry.new (.localId 0) calls ∧
      ¬ NeverGoesBack (⟨⟨fun _ => none⟩⟩ : RedbRegistry) (.localId 0) calls := by
  constructor
  · apply not_neverGoesBack
    case e => exact bareMessage .registry 5
    case e' => exact bareMessage .stream 1
    all_goals decide +kernel
  · apply not_neverGoesBack
    case e => exact bareMessage .registry 5
    case e' => exact bareMessage .stream 1
    all_goals decide +kernel

end Registry
