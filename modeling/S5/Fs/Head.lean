import S5.Fs.Turn

/-!
# The head of a local root

What the handlers of a local root do to its root file, its snapshot index and its pins, apart from
everything else in a file system.

* `Tracks`: the head pin is where the root file is, and the actor knows it.
* `Follows`: exactly the hashes in the snapshot index have a snapshot pin.
-/

open Std

namespace Fs

/-- The contexts pinning a hash. -/
def LocalRoot.pinners (r : LocalRoot) (h : Hash) : Finset PinContext :=
  match r.pins with
  | some pins => pins.pinners h
  | none => ∅

/-- Exactly the hashes in the index have a snapshot pin, which is the one of that hash. -/
def LocalRoot.Follows (r : LocalRoot) : Prop :=
  ∀ h root, .localFsSnapshot root ∈ r.pinners h ↔ root = h ∧ ∃ name, (name, h) ∈ r.snapshots.list

/-- The stored head of a local root and what its actor takes it for. -/
structure Head (β : Type) where
  localRoot : LocalRoot
  rootFile : Option β
  currentHash : Option Hash

namespace Head

variable {β : Type} (env : Env β)

def fileHash (s : Head β) : Option Hash := s.rootFile.map env.blake3

/-- Once the root file has been written, exactly its hash has the head pin. -/
def HeadPinned (s : Head β) : Prop :=
  s.localRoot.saved = true → ∀ h, .localFsHead ∈ s.localRoot.pinners h ↔ s.fileHash env = some h

/-- The head pin is right and will stay so: nothing is pinned before the first save, and an actor
that has loaded the root file knows its hash. -/
structure Tracks (started : Bool) (s : Head β) : Prop where
  pins : s.localRoot.pins.isSome
  unsaved : s.localRoot.saved = false → ∀ h, .localFsHead ∉ s.localRoot.pinners h
  pinned : s.HeadPinned env
  current : started = true → s.currentHash = s.fileHash env

/-! ## What happens to a head -/

/-- The actor starts. -/
def load (s : Head β) : Head β := { s with currentHash := s.fileHash env }

/-- The root is saved as `bytes`. -/
def save (s : Head β) (bytes : β) : Head β :=
  match s.localRoot.pins with
  | none => { s with localRoot.saved := true, rootFile := some bytes }
  | some pins =>
    let pins := match s.currentHash with
      | some prev => (pins.unpinHash prev .localFsHead).1
      | none => pins
    { localRoot := { s.localRoot with
        pins := some (pins.pinHash (env.blake3 bytes) .localFsHead)
        saved := true }
      rootFile := some bytes
      currentHash := some (env.blake3 bytes) }

/-- A snapshot of `bytes` is created, unless there is no name for it. -/
def createSnapshot (s : Head β) (now : UInt32 × UInt32) (bytes : β) : Head β :=
  let h := env.blake3 bytes
  match s.localRoot.snapshots.insertSnapshot (env.rfc3339 now) now h with
  | none => { s with currentHash := some h }
  | some (snapshots, _) =>
    { s with
      localRoot.snapshots := snapshots
      localRoot.pins := s.localRoot.pins.map (Pins.pinHash · h (.localFsSnapshot h))
      currentHash := some h }

def deleteSnapshot (s : Head β) (name : String) : Head β :=
  match s.localRoot.snapshots.removeSnapshot name with
  | (_, none) => s
  | (snapshots, some h) =>
    { s with
      localRoot.snapshots := snapshots
      localRoot.pins :=
        s.localRoot.pins.map fun pins => (Pins.unpinHash pins h (.localFsSnapshot h)).1 }

/-! ## The pins afterwards -/

variable {env} {s : Head β}

theorem mem_pinners_save (hp : s.localRoot.pins.isSome) (bytes : β) (h : Hash) (c : PinContext) :
    c ∈ (s.save env bytes).localRoot.pinners h ↔
      (c = .localFsHead ∧ h = env.blake3 bytes) ∨
        (c ∈ s.localRoot.pinners h ∧ ¬ (c = .localFsHead ∧ s.currentHash = some h)) := by
  obtain ⟨pins, hpins⟩ := Option.isSome_iff_exists.1 hp
  unfold save LocalRoot.pinners
  rw [hpins]
  dsimp only
  rw [Pins.mem_pinHash]
  cases s.currentHash with
  | none => grind
  | some prev =>
    dsimp only
    rw [Pins.mem_unpinHash]
    grind

theorem mem_pinners_createSnapshot {now : UInt32 × UInt32} {bytes : β} {index : SnapshotIndex}
    {name : String} (hp : s.localRoot.pins.isSome)
    (hi : s.localRoot.snapshots.insertSnapshot (env.rfc3339 now) now (env.blake3 bytes) =
      some (index, name)) (h : Hash) (c : PinContext) :
    c ∈ (s.createSnapshot env now bytes).localRoot.pinners h ↔
      (h = env.blake3 bytes ∧ c = .localFsSnapshot (env.blake3 bytes)) ∨
        c ∈ s.localRoot.pinners h := by
  obtain ⟨pins, hpins⟩ := Option.isSome_iff_exists.1 hp
  unfold createSnapshot LocalRoot.pinners
  dsimp only
  rw [hi, hpins]
  exact Pins.mem_pinHash

theorem mem_pinners_deleteSnapshot {name : String} {k : Hash} (hp : s.localRoot.pins.isSome)
    (hk : s.localRoot.snapshots.hashOf name = some k) (h : Hash) (c : PinContext) :
    c ∈ (s.deleteSnapshot name).localRoot.pinners h ↔
      c ∈ s.localRoot.pinners h ∧ ¬ (h = k ∧ c = .localFsSnapshot k) := by
  obtain ⟨pins, hpins⟩ := Option.isSome_iff_exists.1 hp
  have hrem := SnapshotIndex.removeSnapshot_eq hk
  unfold deleteSnapshot LocalRoot.pinners
  rw [hrem, hpins]
  exact Pins.mem_unpinHash

theorem isSome_pins_save (bytes : β) :
    (s.save env bytes).localRoot.pins.isSome = s.localRoot.pins.isSome := by
  unfold save
  cases h : s.localRoot.pins with
  | none => simp [h]
  | some pins => rfl

theorem isSome_pins_createSnapshot (now : UInt32 × UInt32) (bytes : β) :
    (s.createSnapshot env now bytes).localRoot.pins.isSome = s.localRoot.pins.isSome := by
  unfold createSnapshot
  dsimp only
  split <;> simp

theorem isSome_pins_deleteSnapshot (name : String) :
    (s.deleteSnapshot name).localRoot.pins.isSome = s.localRoot.pins.isSome := by
  unfold deleteSnapshot
  split <;> simp

/-! ## The head pin -/

variable (env) in
theorem rootFile_createSnapshot (now : UInt32 × UInt32) (bytes : β) :
    (s.createSnapshot env now bytes).rootFile = s.rootFile ∧
      (s.createSnapshot env now bytes).localRoot.saved = s.localRoot.saved ∧
      (s.createSnapshot env now bytes).currentHash = some (env.blake3 bytes) := by
  unfold createSnapshot
  dsimp only
  split <;> exact ⟨rfl, rfl, rfl⟩

theorem head_mem_createSnapshot (hp : s.localRoot.pins.isSome) (now : UInt32 × UInt32) (bytes : β)
    (h : Hash) : .localFsHead ∈ (s.createSnapshot env now bytes).localRoot.pinners h ↔
      .localFsHead ∈ s.localRoot.pinners h := by
  cases hi : s.localRoot.snapshots.insertSnapshot (env.rfc3339 now) now (env.blake3 bytes) with
  | none =>
    unfold createSnapshot
    dsimp only
    rw [hi]
  | some p =>
    rw [mem_pinners_createSnapshot hp hi]
    simp

theorem head_mem_deleteSnapshot (hp : s.localRoot.pins.isSome) (name : String) (h : Hash) :
    .localFsHead ∈ (s.deleteSnapshot name).localRoot.pinners h ↔
      .localFsHead ∈ s.localRoot.pinners h := by
  cases hk : s.localRoot.snapshots.hashOf name with
  | none =>
    have hrem := SnapshotIndex.removeSnapshot_eq hk
    unfold deleteSnapshot
    rw [hrem]
  | some k =>
    rw [mem_pinners_deleteSnapshot hp hk]
    simp

theorem Tracks.mono {started : Bool} (h : s.Tracks env true) : s.Tracks env started :=
  ⟨h.pins, h.unsaved, h.pinned, fun _ => h.current rfl⟩

theorem Tracks.load {started : Bool} (h : s.Tracks env started) : (s.load env).Tracks env true :=
  ⟨h.pins, h.unsaved, h.pinned, fun _ => rfl⟩

theorem Tracks.reopen {started : Bool} (h : s.Tracks env started) :
    Tracks env false { s with currentHash := none } :=
  ⟨h.pins, h.unsaved, h.pinned, nofun⟩

/-- An actor that knows the hash of the root file moves the head pin to the new one. -/
theorem Tracks.save (h : s.Tracks env true) (bytes : β) : (s.save env bytes).Tracks env true := by
  obtain ⟨pins, hpins⟩ := Option.isSome_iff_exists.1 h.pins
  have hsaved : (s.save env bytes).localRoot.saved = true := by
    unfold Head.save
    rw [hpins]
  have hfile : (s.save env bytes).fileHash env = some (env.blake3 bytes) := by
    unfold Head.save Head.fileHash
    rw [hpins]
    rfl
  refine ⟨(isSome_pins_save bytes).trans h.pins, fun hu => ?_, fun _ k => ?_, fun _ => ?_⟩
  · rw [hsaved] at hu
    exact nomatch hu
  · rw [mem_pinners_save h.pins, hfile]
    -- whatever was pinned before is the hash the actor unpins
    have hgone : .localFsHead ∈ s.localRoot.pinners k → s.currentHash = some k := by
      intro hk
      cases hs : s.localRoot.saved with
      | false => exact absurd hk (h.unsaved hs k)
      | true => rw [h.current rfl, (h.pinned hs k).1 hk]
    constructor
    · rintro (⟨-, rfl⟩ | ⟨hk, hn⟩)
      · rfl
      · exact absurd ⟨rfl, hgone hk⟩ hn
    · intro hk
      exact .inl ⟨rfl, (Option.some.inj hk).symm⟩
  · rw [hfile]
    unfold Head.save
    rw [hpins]

/-- A snapshot of what is in the root file leaves the actor knowing its hash. -/
theorem Tracks.createSnapshot {started : Bool} (h : s.Tracks env started) (now : UInt32 × UInt32)
    {bytes : β} (hb : s.rootFile = some bytes) :
    (s.createSnapshot env now bytes).Tracks env started := by
  obtain ⟨hfile, hsaved, hcur⟩ := s.rootFile_createSnapshot env now bytes
  have hhash : (s.createSnapshot env now bytes).fileHash env = s.fileHash env := by
    unfold Head.fileHash
    rw [hfile]
  refine ⟨(isSome_pins_createSnapshot now bytes).trans h.pins, fun hu k => ?_, fun hs k => ?_,
    fun _ => ?_⟩
  · rw [head_mem_createSnapshot h.pins]
    exact h.unsaved (hsaved ▸ hu) k
  · rw [head_mem_createSnapshot h.pins, hhash]
    exact h.pinned (hsaved ▸ hs) k
  · rw [hcur, hhash, Head.fileHash, hb]
    rfl

theorem Tracks.deleteSnapshot {started : Bool} (h : s.Tracks env started) (name : String) :
    (s.deleteSnapshot name).Tracks env started := by
  have hrest : (s.deleteSnapshot name).rootFile = s.rootFile ∧
      (s.deleteSnapshot name).localRoot.saved = s.localRoot.saved ∧
      (s.deleteSnapshot name).currentHash = s.currentHash := by
    unfold Head.deleteSnapshot
    split <;> exact ⟨rfl, rfl, rfl⟩
  obtain ⟨hfile, hsaved, hcur⟩ := hrest
  have hhash : (s.deleteSnapshot name).fileHash env = s.fileHash env := by
    unfold Head.fileHash
    rw [hfile]
  refine ⟨(isSome_pins_deleteSnapshot name).trans h.pins, fun hu k => ?_, fun hs k => ?_,
    fun hst => ?_⟩
  · rw [head_mem_deleteSnapshot h.pins]
    exact h.unsaved (hsaved ▸ hu) k
  · rw [head_mem_deleteSnapshot h.pins, hhash]
    exact h.pinned (hsaved ▸ hs) k
  · rw [hcur, hhash]
    exact h.current hst

/-! ## The snapshot pins -/

theorem follows_save (hp : s.localRoot.pins.isSome) (bytes : β) :
    (s.save env bytes).localRoot.Follows ↔ s.localRoot.Follows := by
  have hsnap : (s.save env bytes).localRoot.snapshots = s.localRoot.snapshots := by
    unfold Head.save
    split <;> rfl
  unfold LocalRoot.Follows
  simp only [mem_pinners_save hp, hsnap]
  simp

/-- A new snapshot is pinned as it is listed. -/
theorem follows_createSnapshot (hp : s.localRoot.pins.isSome) (now : UInt32 × UInt32) (bytes : β)
    (hf : s.localRoot.Follows) : (s.createSnapshot env now bytes).localRoot.Follows := by
  cases hi : s.localRoot.snapshots.insertSnapshot (env.rfc3339 now) now (env.blake3 bytes) with
  | none =>
    unfold createSnapshot
    dsimp only
    rw [hi]
    exact hf
  | some p =>
    obtain ⟨index, name⟩ := p
    obtain ⟨hfree, hlisted⟩ := SnapshotIndex.hashOf_insertSnapshot hi
    have hsnap : (s.createSnapshot env now bytes).localRoot.snapshots = index := by
      unfold createSnapshot
      dsimp only
      rw [hi]
    intro h root
    rw [mem_pinners_createSnapshot hp hi, hf h root, hsnap]
    simp only [SnapshotIndex.mem_list, hlisted]
    constructor
    · rintro (⟨rfl, hc⟩ | ⟨rfl, k, hk⟩)
      · exact ⟨PinContext.localFsSnapshot.inj hc, name, by simp⟩
      · refine ⟨rfl, k, ?_⟩
        have hne : k ≠ name := by
          rintro rfl
          rw [hfree] at hk
          exact nomatch hk
        rw [if_neg hne, hk]
    · rintro ⟨rfl, k, hk⟩
      split at hk
      · obtain rfl := Option.some.inj hk
        exact .inl ⟨rfl, rfl⟩
      · exact .inr ⟨rfl, k, hk⟩

/-- Deleting a snapshot keeps the pins in step with the index exactly when no other snapshot has its
hash. -/
theorem follows_deleteSnapshot_iff (hp : s.localRoot.pins.isSome) (name : String)
    (hf : s.localRoot.Follows) :
    (s.deleteSnapshot name).localRoot.Follows ↔
      ∀ h, (name, h) ∈ s.localRoot.snapshots.list →
        ∀ other, (other, h) ∈ s.localRoot.snapshots.list → other = name := by
  simp only [SnapshotIndex.mem_list]
  cases hk : s.localRoot.snapshots.hashOf name with
  | none =>
    have hrem := SnapshotIndex.removeSnapshot_eq hk
    unfold deleteSnapshot
    rw [hrem]
    exact ⟨fun _ => nofun, fun _ => hf⟩
  | some k =>
    have hrem := SnapshotIndex.removeSnapshot_eq hk
    have hsnap : (s.deleteSnapshot name).localRoot.snapshots =
        (s.localRoot.snapshots.removeSnapshot name).1 := by
      unfold deleteSnapshot
      rw [hrem]
    unfold LocalRoot.Follows
    simp only [mem_pinners_deleteSnapshot hp hk, hsnap, SnapshotIndex.mem_list,
      SnapshotIndex.hashOf_removeSnapshot, hf _ _, SnapshotIndex.mem_list]
    constructor
    · intro h x hx other hother
      obtain rfl := Option.some.inj hx
      -- the hash has lost its pin, so it is listed no more
      by_contra hne
      have hgone := (h k k).2 ⟨rfl, other, by rw [if_neg hne]; exact hother⟩
      exact hgone.2 ⟨rfl, rfl⟩
    · intro h x root
      constructor
      · rintro ⟨⟨rfl, other, hother⟩, hn⟩
        refine ⟨rfl, other, ?_⟩
        rw [if_neg, hother]
        rintro rfl
        rw [hk] at hother
        obtain rfl := Option.some.inj hother
        exact hn ⟨rfl, rfl⟩
      · rintro ⟨rfl, other, hother⟩
        split at hother
        · exact nomatch hother
        · rename_i hne
          refine ⟨⟨rfl, other, hother⟩, ?_⟩
          rintro ⟨rfl, -⟩
          exact hne (h root rfl other hother)

end Head

end Fs
