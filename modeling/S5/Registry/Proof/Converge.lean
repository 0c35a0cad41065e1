import S5.Registry.Paths
import S5.Registry.Proof.Slot

/-!
# Registries converge

Whatever the order in which `Registry` messages for a key arrive at a registry, the one of the highest
rank is what it ends with (`Newest`, kept by every `set`), and which registry it is makes no
difference but for the wire.

* `registries_converge`: three registries without entries, any order, any repetitions.
-/

namespace Registry

open RegistryApi

/-- `StoreRegistry` keeps one slot a key, as its rows do. -/
instance : SlotRegistry PathRegistry where
  get_set r m e he := by
    refine ⟨m.wire, m.wire_wire, ?_⟩
    show (r.set m).1.get m.key = _
    rw [← PathRegistry.rows_get, (r.rows_set m).1]
    exact Rows.get_set ((r.rows_get m.key).trans he)
  set_error r m x hx := by
    show (r.set m).1 = r
    have hget : r.get m.key = .error x := hx
    unfold PathRegistry.set
    rw [hget]
  get_set_ne r m k hk := by
    show (r.set m).1.get k = r.get k
    rw [← PathRegistry.rows_get, (r.rows_set m).1, ← PathRegistry.rows_get]
    exact Rows.get_set_ne hk
  get_delete r k := by
    show (r.delete k).1.get k = _
    rw [← PathRegistry.rows_get, r.rows_delete]
    exact Rows.get_delete
  get_delete_ne r j k hk := by
    show (r.delete j).1.get k = r.get k
    rw [← PathRegistry.rows_get, r.rows_delete, ← PathRegistry.rows_get]
    exact Rows.get_delete_ne hk

theorem rank_eq_iff {a b : StreamMessage} :
    a.rank = b.rank ↔ a.revision = b.revision ∧ a.hash = b.hash := by
  unfold StreamMessage.rank
  rw [toLex_inj, Prod.mk.injEq, UInt64.toNat_inj, OrderDual.toDual_inj, BitVec.toNat_inj]

theorem cmp_ne_gt {a b : StreamMessage} : a.cmp b ≠ .gt ↔ a.rank ≤ b.rank := by
  rw [Ne, StreamMessage.cmp_eq_gt, not_lt]

section
variable {ρ : Type} [RegistryApi ρ]

/-- The registry after messages have been delivered one after another. -/
def deliver (r : ρ) (messages : List StreamMessage) : ρ := messages.foldl (fun r m => (set r m).1) r

/-- No key has an entry. -/
def NoEntries (r : ρ) : Prop := ∀ key, get r key = .ok none

/-- The entry under `key` is the highest of the messages. -/
structure Newest (key : StreamKey) (messages : List StreamMessage) (r : ρ) : Prop where
  absent : messages = [] → get r key = .ok none
  present : messages ≠ [] → ∃ e, get r key = .ok (some e) ∧ (∃ m ∈ messages, m.wire = e.wire) ∧
    ∀ m ∈ messages, m.rank ≤ e.rank

variable [SlotRegistry ρ] {key : StreamKey} {messages : List StreamMessage} {r : ρ}

/-- One more message. -/
theorem Newest.set (h : Newest key messages r) {m : StreamMessage} (hk : m.key = key)
    (ht : m.typeId = .registry) : Newest key (messages ++ [m]) (set r m).1 := by
  subst hk
  refine ⟨fun hnil => by simp at hnil, fun _ => ?_⟩
  by_cases hn : messages = []
  · obtain ⟨m', hw, hg⟩ := SlotRegistry.get_set r m none (h.absent hn)
    have hs : m.shouldStore none = true := by simp [StreamMessage.shouldStore, ht]
    rw [if_pos hs] at hg
    have hr : m'.rank = m.rank := by rw [← m'.rank_wire, hw, m.rank_wire]
    exact ⟨m', hg, ⟨m, by simp, hw.symm⟩, by simp [hn, hr]⟩
  · obtain ⟨e, he, ⟨x, hx, hxw⟩, hmax⟩ := h.present hn
    obtain ⟨m', hw, hg⟩ := SlotRegistry.get_set r m (some e) he
    have hr : m'.rank = m.rank := by rw [← m'.rank_wire, hw, m.rank_wire]
    by_cases hs : m.shouldStore (some e) = true
    · -- it beats the entry, and with it all messages before
      have hlt : e.rank < m.rank := by
        simpa [StreamMessage.shouldStore, ht, StreamMessage.cmp_eq_gt] using hs
      rw [if_pos hs] at hg
      refine ⟨m', hg, ⟨m, by simp, hw.symm⟩, fun y hy => ?_⟩
      rw [hr]
      rcases List.mem_append.1 hy with hy | hy
      · exact (hmax y hy).trans (le_of_lt hlt)
      · rw [List.mem_singleton.1 hy]
    · have hle : m.rank ≤ e.rank := by
        simpa [StreamMessage.shouldStore, ht, StreamMessage.cmp_eq_gt] using hs
      rw [if_neg hs] at hg
      refine ⟨e, hg, ⟨x, List.mem_append_left _ hx, hxw⟩, fun y hy => ?_⟩
      rcases List.mem_append.1 hy with hy | hy
      · exact hmax y hy
      · rw [List.mem_singleton.1 hy]
        exact hle

/-- **A run of deliveries ends with the highest message.** -/
theorem newest_deliver (hr : NoEntries r)
    (hm : ∀ m ∈ messages, m.key = key ∧ m.typeId = .registry) :
    Newest key messages (deliver r messages) := by
  induction messages using List.reverseRecOn with
  | nil => exact ⟨fun _ => hr key, fun h => absurd rfl h⟩
  | append_singleton messages m ih =>
    have hlast := hm m (by simp)
    have hrest := ih fun x hx => hm x (List.mem_append_left _ hx)
    unfold deliver
    rw [List.foldl_append, List.foldl_cons, List.foldl_nil]
    exact hrest.set hlast.1 hlast.2

end

/-- After `messages` have been delivered, `get` answers with one of them that has the given revision
and hash. -/
def EndsWith {ρ : Type} [RegistryApi ρ] (r : ρ) (key : StreamKey) (messages : List StreamMessage)
    (revision : UInt64) (hash : Hash) : Prop :=
  ∃ e, get (deliver r messages) key = .ok (some e) ∧ (∃ m ∈ messages, m.wire = e.wire) ∧
    e.revision = revision ∧ e.hash = hash

/-- A `set` leaves the entries of other keys. -/
def SetsOne (ρ : Type) [RegistryApi ρ] : Prop :=
  ∀ (r : ρ) (m : StreamMessage) (k : StreamKey), k ≠ m.key → get (set r m).1 k = get r k

theorem endsWith_of_newest {ρ : Type} [RegistryApi ρ] [SlotRegistry ρ] {r : ρ} {key : StreamKey}
    {messages order : List StreamMessage} {top : StreamMessage} (hr : NoEntries r)
    (hm : ∀ m ∈ messages, m.key = key ∧ m.typeId = .registry) (htop : top ∈ messages)
    (hmax : ∀ m ∈ messages, m.rank ≤ top.rank) (horder : ∀ m, m ∈ order ↔ m ∈ messages) :
    EndsWith r key order top.revision top.hash := by
  have hn : Newest key order (deliver r order) :=
    newest_deliver hr fun m hmem => hm m ((horder m).1 hmem)
  have hne : order ≠ [] := by
    intro hnil
    have hmem := (horder top).2 htop
    simp [hnil] at hmem
  obtain ⟨e, he, ⟨x, hx, hxw⟩, hall⟩ := hn.present hne
  have hxr : x.rank = e.rank := by rw [← x.rank_wire, hxw, e.rank_wire]
  have hrank : e.rank = top.rank :=
    le_antisymm (hxr ▸ hmax x ((horder x).1 hx)) (hall top ((horder top).2 htop))
  obtain ⟨hrev, hhash⟩ := rank_eq_iff.1 hrank
  exact ⟨e, he, ⟨x, hx, hxw⟩, hrev, hhash⟩

/-- **The registries converge**: delivered in any order and with any repetitions, `Registry` messages
for a key leave the highest of them in all three, and other keys alone. -/
theorem registries_converge (memory : MemoryRegistry) (redb : RedbRegistry) (store : PathRegistry)
    (hmemory : NoEntries memory) (hredb : NoEntries redb) (hstore : NoEntries store)
    (key : StreamKey) (messages : List StreamMessage)
    (hm : ∀ m ∈ messages, m.key = key ∧ m.typeId = .registry) (hne : messages ≠ []) :
    (∃ top ∈ messages, (∀ m ∈ messages, m.cmp top ≠ .gt) ∧
      ∀ order, (∀ m, m ∈ order ↔ m ∈ messages) →
        EndsWith memory key order top.revision top.hash ∧
        EndsWith redb key order top.revision top.hash ∧
        EndsWith store key order top.revision top.hash) ∧
      SetsOne MemoryRegistry ∧ SetsOne RedbRegistry ∧ SetsOne PathRegistry := by
  refine ⟨?_, SlotRegistry.get_set_ne, SlotRegistry.get_set_ne, SlotRegistry.get_set_ne⟩
  obtain ⟨e, -, ⟨top, htop, hw⟩, hall⟩ := (newest_deliver hmemory hm).present hne
  have hrank : top.rank = e.rank := by rw [← top.rank_wire, hw, e.rank_wire]
  have hmax : ∀ m ∈ messages, m.rank ≤ top.rank := by
    intro m hmem
    rw [hrank]
    exact hall m hmem
  refine ⟨top, htop, fun m hmem => cmp_ne_gt.2 (hmax m hmem), fun order horder => ?_⟩
  exact ⟨endsWith_of_newest hmemory hm htop hmax horder,
    endsWith_of_newest hredb hm htop hmax horder, endsWith_of_newest hstore hm htop hmax horder⟩

/-- An empty store under the prefix that `StoreRegistry::new` gives. -/
def emptyPaths : PathRegistry := ⟨⟨⟨true, true, 0⟩, fun _ => none⟩, "registry"⟩

/-- Two revisions, the older one last. -/
theorem registries_converge_two :
    EndsWith emptyPaths (.localId 0)
      [bareMessage .registry 2, bareMessage .registry 1, bareMessage .registry 1] 2 0 := by
  have h := registries_converge .new ⟨⟨fun _ => none⟩⟩ emptyPaths (fun _ => rfl) (fun _ => rfl)
    (fun _ => rfl) (.localId 0) [bareMessage .registry 1, bareMessage .registry 2]
    (by decide +kernel) (by simp)
  obtain ⟨⟨top, htop, hmax, hends⟩, -⟩ := h
  have hends := (hends [bareMessage .registry 2, bareMessage .registry 1, bareMessage .registry 1]
    (by simp; tauto)).2.2
  have h2 := hmax (bareMessage .registry 2) (by simp)
  rcases List.mem_cons.1 htop with rfl | htop
  · exact absurd h2 (by decide +kernel)
  · obtain rfl := List.mem_singleton.1 htop
    exact hends

end Registry
