import S5.Fs.Context

/-!
# The snapshot index of a local root

`SnapshotIndex` (`s5_fs/src/snapshots.rs`): named snapshots of a local root, kept as the directory
references of `snapshots.fs5.cbor`.
-/

open Std

namespace Fs

structure SnapshotIndex where
  dir : DirV1

namespace SnapshotIndex

/-- An index that has just been created. -/
def new : SnapshotIndex := ⟨.new⟩

/-- All snapshots as names and hashes. -/
def list (index : SnapshotIndex) : List (String × Hash) :=
  index.dir.dirs.toList.map fun (name, dirRef) => (name, dirRef.hash)

/-- The first name that is not taken: `name`, then `base` with a counter behind it. The counter is a
`u32` that stops at its maximum, so after `fuel = 2 ^ 32` names the loop tries the same name forever;
that is `none`. -/
def freeName (taken : String → Bool) (base : String) : Nat → Nat → String → Option String
  | 0, _, _ => none
  | fuel + 1, counter, name =>
    if taken name then freeName taken base fuel (counter + 1) (base ++ "-" ++ toString counter)
    else some name

/-- Records a snapshot under a name made of the time it is taken at, `base` in RFC 3339. -/
def insertSnapshot (index : SnapshotIndex) (base : String) (now : UInt32 × UInt32) (hash : Hash) :
    Option (SnapshotIndex × String) :=
  match freeName (index.dir.dirs.contains ·) base (2 ^ 32) 1 base with
  | none => none
  | some name =>
    let dirRef := {
      refType := none
      hash := hash
      tsSeconds := some now.1
      tsNanos := some now.2
      keys := none
      encryptionType := none
      extra := none }
    some (⟨{ index.dir with dirs := index.dir.dirs.insert name dirRef }⟩, name)

/-- Removes a snapshot by name, with its hash if there was one. -/
def removeSnapshot (index : SnapshotIndex) (name : String) : SnapshotIndex × Option Hash :=
  (⟨{ index.dir with dirs := index.dir.dirs.erase name }⟩, index.dir.dirs[name]?.map (·.hash))

/-! ## What is listed -/

/-- The hash listed under a name. -/
def hashOf (index : SnapshotIndex) (name : String) : Option Hash :=
  index.dir.dirs[name]?.map (·.hash)

theorem mem_list {index : SnapshotIndex} {name : String} {h : Hash} :
    (name, h) ∈ index.list ↔ index.hashOf name = some h := by
  simp only [list, hashOf, List.mem_map, Prod.exists, Prod.mk.injEq, Option.map_eq_some_iff,
    ExtTreeMap.mem_toList_iff_getElem?_eq_some]
  constructor
  · rintro ⟨k, r, hr, rfl, rfl⟩
    exact ⟨r, hr, rfl⟩
  · rintro ⟨r, hr, rfl⟩
    exact ⟨name, r, hr, rfl, rfl⟩

theorem removeSnapshot_eq {index : SnapshotIndex} {name : String} {h : Option Hash}
    (hk : index.hashOf name = h) :
    index.removeSnapshot name = ((index.removeSnapshot name).1, h) := by
  rw [← hk]
  rfl

/-- The name found is a free one. -/
theorem freeName_free {taken : String → Bool} {base name : String} :
    ∀ {fuel counter : Nat} {first : String},
      freeName taken base fuel counter first = some name → taken name = false
  | 0, _, _, h => nomatch h
  | fuel + 1, counter, first, h => by
    unfold freeName at h
    split at h
    · exact freeName_free h
    · rename_i hfree
      obtain rfl := Option.some.inj h
      simpa using hfree

/-- A new snapshot is listed beside all others. -/
theorem hashOf_insertSnapshot {index index' : SnapshotIndex} {base name : String}
    {now : UInt32 × UInt32} {h : Hash}
    (hi : index.insertSnapshot base now h = some (index', name)) :
    index.hashOf name = none ∧
      ∀ k, index'.hashOf k = if k = name then some h else index.hashOf k := by
  unfold insertSnapshot at hi
  split at hi
  · exact nomatch hi
  · rename_i free hfree
    obtain ⟨rfl, rfl⟩ := Prod.mk.inj (Option.some.inj hi)
    have hn := freeName_free hfree
    refine ⟨?_, fun k => ?_⟩
    · unfold hashOf
      rw [Option.map_eq_none_iff, ExtTreeMap.getElem?_eq_none]
      simpa [← ExtTreeMap.contains_iff_mem] using hn
    · unfold hashOf
      dsimp only
      rw [ExtTreeMap.getElem?_insert]
      by_cases hk : k = free
      · simp [hk]
      · rw [if_neg (by simpa using Ne.symm hk), if_neg hk]

theorem hashOf_removeSnapshot (index : SnapshotIndex) (name k : String) :
    (index.removeSnapshot name).1.hashOf k = if k = name then none else index.hashOf k := by
  unfold removeSnapshot hashOf
  dsimp only
  rw [ExtTreeMap.getElem?_erase]
  by_cases hk : k = name
  · simp [hk]
  · rw [if_neg (by simpa using Ne.symm hk), if_neg hk]

end SnapshotIndex

end Fs
