import Mathlib.Data.Finset.Basic

/-!
# Hashes and pins

`Hash` and `PinContext` (`s5_core/src/hash.rs`, `s5_core/src/pins/mod.rs`) and the pin sets that
`RegistryPinner` keeps (`s5_core/src/pins/registry_pinner.rs`), over a registry that does not fail.
-/

/-- `[u8; 32]`, as the number its bytes spell. -/
abbrev Bytes32 := BitVec 256

/-- A BLAKE3 hash (`s5_core::Hash`). -/
abbrev Hash := Bytes32

/-- Hashes are keys and values of maps. -/
instance Bytes32.instTransOrd : Std.TransOrd Bytes32 := inferInstance

instance Bytes32.instLawfulBEq : LawfulBEq Bytes32 := inferInstance

abbrev Bytes := List UInt8

/-- The 32 bytes of a peer's endpoint id. -/
abbrev NodeId := Bytes32

/-- Why or by whom a blob is pinned. -/
inductive PinContext where
  | nodeId (id : NodeId)
  | localFsHead
  | localFsSnapshot (rootHash : Bytes32)
  deriving DecidableEq

/-- The pin sets: the contexts pinning each hash. -/
structure Pins where
  pinners : Hash → Finset PinContext

namespace Pins

def empty : Pins := ⟨fun _ => ∅⟩

/-- Replaces the pin set of `h` (`save_internal`; an emptied set is an absent entry). -/
def save (p : Pins) (h : Hash) (cs : Finset PinContext) : Pins :=
  ⟨fun k => if k = h then cs else p.pinners k⟩

def pinHash (p : Pins) (h : Hash) (c : PinContext) : Pins := p.save h (insert c (p.pinners h))

/-- Removes a pin; `true` if no pinner is left, also when `c` was not among them. -/
def unpinHash (p : Pins) (h : Hash) (c : PinContext) : Pins × Bool :=
  if c ∉ p.pinners h then (p, p.pinners h = ∅)
  else
    let cs := (p.pinners h).erase c
    (p.save h cs, cs = ∅)

def isPinned (p : Pins) (h : Hash) (c : PinContext) : Bool := c ∈ p.pinners h

/-! ## What the calls do to a pin -/

theorem mem_pinHash {p : Pins} {h k : Hash} {c d : PinContext} :
    d ∈ (p.pinHash h c).pinners k ↔ (k = h ∧ d = c) ∨ d ∈ p.pinners k := by
  unfold pinHash save
  by_cases hk : k = h
  · subst hk; simp
  · simp [hk]

theorem mem_unpinHash {p : Pins} {h k : Hash} {c d : PinContext} :
    d ∈ (p.unpinHash h c).1.pinners k ↔ d ∈ p.pinners k ∧ ¬ (k = h ∧ d = c) := by
  unfold unpinHash save
  split
  · rename_i hc
    refine ⟨fun hd => ⟨hd, ?_⟩, fun hd => hd.1⟩
    rintro ⟨rfl, rfl⟩
    exact hc hd
  · by_cases hk : k = h
    · subst hk; simp [and_comm]
    · simp [hk]

/-- The answer of `unpin_hash`: no context but `c` pins `h`. -/
theorem unpinHash_orphaned {p : Pins} {h : Hash} {c : PinContext} :
    (p.unpinHash h c).2 = true ↔ ∀ d ∈ p.pinners h, d = c := by
  unfold unpinHash
  split
  · rename_i hc
    simp only [decide_eq_true_eq]
    constructor
    · intro he d hd
      simp [he] at hd
    · intro he
      refine Finset.eq_empty_of_forall_notMem fun d hd => ?_
      exact hc (he d hd ▸ hd)
  · simp only [decide_eq_true_eq, Finset.erase_eq_empty_iff]
    constructor
    · rintro (he | he) d hd
      · simp [he] at hd
      · simpa [he] using hd
    · intro he
      by_cases h0 : p.pinners h = ∅
      · exact .inl h0
      · exact .inr (Finset.eq_singleton_iff_nonempty_unique_mem.2
          ⟨Finset.nonempty_iff_ne_empty.2 h0, he⟩)

end Pins
