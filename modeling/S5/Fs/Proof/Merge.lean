import S5.Fs.Merge
import S5.Lib.Latest

/-!
# Merging two directories

`merge_entries_local` takes two directories in which no name is both a directory and a file
(`DirV1.Apart`) to one that holds, under every name, the later entry (`dirEntry_merge`).

* `merge_is_latest`: its laws, all from those of `latest`.
* `merge_comm_iff`: two replicas that merge each other agree exactly if no name has different entries
  of the same timestamp. Entries without one all have the timestamp zero.
-/

open Std

namespace Fs

/-- What a name stands for. -/
inductive DirEntry where
  | dir (dirRef : DirRef)
  | file (fileRef : FileRef)
  deriving DecidableEq

def DirEntry.ts : DirEntry → Nat
  | dir d => dirTs d
  | file f => fileTs f

namespace DirV1

/-- No name is both a directory and a file. -/
def Apart (d : DirV1) : Prop := ∀ n : String, n ∈ d.dirs → n ∉ d.files

instance (d : DirV1) : Decidable d.Apart :=
  decidable_of_iff (∀ n ∈ d.dirs.keys, n ∉ d.files) <| by simp [Apart]

def dirEntry (d : DirV1) (n : String) : Option DirEntry :=
  (d.dirs[n]?.map .dir).or (d.files[n]?.map .file)

/-- The directory after `merge_entries_local`. -/
def merge (d remote : DirV1) : DirV1 :=
  let merged := mergeEntriesLocal d remote.dirs remote.files
  { d with dirs := merged.dirs, files := merged.files }

end DirV1

/-! ## Entries -/

theorem DirV1.Apart.cases {d : DirV1} (h : d.Apart) (n : String) :
    (d.dirs[n]? = none ∧ d.files[n]? = none ∧ d.dirEntry n = none) ∨
      (∃ r, d.dirs[n]? = some r ∧ d.files[n]? = none ∧ d.dirEntry n = some (.dir r)) ∨
      ∃ f, d.dirs[n]? = none ∧ d.files[n]? = some f ∧ d.dirEntry n = some (.file f) := by
  cases hd : d.dirs[n]? with
  | some r =>
    have hf : d.files[n]? = none := by
      have hn := h n (ExtTreeMap.mem_iff_isSome_getElem?.2 (by simp [hd]))
      simpa using hn
    exact .inr (.inl ⟨r, rfl, hf, by simp [DirV1.dirEntry, hd]⟩)
  | none =>
    cases hf : d.files[n]? with
    | none => exact .inl ⟨rfl, rfl, by simp [DirV1.dirEntry, hd, hf]⟩
    | some f => exact .inr (.inr ⟨f, rfl, rfl, by simp [DirV1.dirEntry, hd, hf]⟩)

/-- The entries tell everything of the two maps. -/
theorem DirV1.Apart.maps_eq {a b : DirV1} (ha : a.Apart) (hb : b.Apart)
    (h : ∀ n, a.dirEntry n = b.dirEntry n) : a.dirs = b.dirs ∧ a.files = b.files := by
  have hat : ∀ n : String, a.dirs[n]? = b.dirs[n]? ∧ a.files[n]? = b.files[n]? := by
    intro n
    have hn := h n
    rcases ha.cases n with ⟨hd, hf, he⟩ | ⟨r, hd, hf, he⟩ | ⟨f, hd, hf, he⟩ <;>
      rcases hb.cases n with ⟨hd', hf', he'⟩ | ⟨r', hd', hf', he'⟩ | ⟨f', hd', hf', he'⟩ <;>
      rw [he, he'] at hn <;> simp_all
  exact ⟨ExtTreeMap.ext_getElem? fun n => (hat n).1, ExtTreeMap.ext_getElem? fun n => (hat n).2⟩

theorem dirEntry_eq_of_maps_eq {a b : DirV1} (h : a.dirs = b.dirs ∧ a.files = b.files) (n : String) :
    a.dirEntry n = b.dirEntry n := by
  unfold DirV1.dirEntry
  rw [h.1, h.2]

/-- What the merge leaves under a name. -/
theorem merge_at (a b : DirV1) (n : String) :
    ((a.merge b).dirs[n]?, (a.merge b).files[n]?) =
      ((lww ⟨a.dirs[n]?, a.files[n]?, false⟩ b.dirs[n]? b.files[n]?).dir,
        (lww ⟨a.dirs[n]?, a.files[n]?, false⟩ b.dirs[n]? b.files[n]?).file) := by
  rw [← mergeEntriesLocal_at]
  rfl

/-- The later entry is left, in one of the maps. -/
theorem merge_latest {a b : DirV1} (ha : a.Apart) (hb : b.Apart) (n : String) :
    (a.merge b).dirEntry n = latest DirEntry.ts (a.dirEntry n) (b.dirEntry n) ∧
      ((a.merge b).dirs[n]? = none ∨ (a.merge b).files[n]? = none) := by
  have hat := merge_at a b n
  generalize hm : a.merge b = m at hat ⊢
  obtain ⟨hd, hf⟩ := Prod.mk.inj hat
  unfold DirV1.dirEntry
  rw [hd, hf]
  rcases ha.cases n with ⟨had, haf, -⟩ | ⟨r, had, haf, -⟩ | ⟨f, had, haf, -⟩ <;>
    rcases hb.cases n with ⟨hbd, hbf, -⟩ | ⟨r', hbd, hbf, -⟩ | ⟨f', hbd, hbf, -⟩ <;>
    rw [had, haf, hbd, hbf]
  -- where both have an entry the timestamps decide
  case inr.inl.inr.inl =>
    by_cases ht : dirTs r < dirTs r' <;> simp [lww, lwwDir, latest_some_some, DirEntry.ts, ht]
  case inr.inl.inr.inr =>
    by_cases ht : dirTs r < fileTs f' <;> simp [lww, lwwFile, latest_some_some, DirEntry.ts, ht]
  case inr.inr.inr.inl =>
    by_cases ht : fileTs f < dirTs r' <;> simp [lww, lwwDir, latest_some_some, DirEntry.ts, ht]
  case inr.inr.inr.inr =>
    by_cases ht : fileTs f < fileTs f' <;> simp [lww, lwwFile, latest_some_some, DirEntry.ts, ht]
  all_goals simp [lww, lwwDir, lwwFile]

theorem dirEntry_merge {a b : DirV1} (ha : a.Apart) (hb : b.Apart) (n : String) :
    (a.merge b).dirEntry n = latest DirEntry.ts (a.dirEntry n) (b.dirEntry n) :=
  (merge_latest ha hb n).1

/-- **No name becomes both.** -/
theorem DirV1.Apart.merge {a b : DirV1} (ha : a.Apart) (hb : b.Apart) : (a.merge b).Apart := by
  intro n hd hf
  rw [ExtTreeMap.mem_iff_isSome_getElem?] at hd hf
  rcases (merge_latest ha hb n).2 with h | h
  · simp [h] at hd
  · simp [h] at hf

theorem merge_ext {a b : DirV1} (ha : a.Apart) (hb : b.Apart) (hm : a.magic = b.magic)
    (hh : a.header = b.header) (h : ∀ n, a.dirEntry n = b.dirEntry n) : a = b := by
  obtain ⟨hd, hf⟩ := ha.maps_eq hb h
  cases a
  cases b
  simp_all

/-! ## The laws of the merge -/

/-- **The merge is the later entry, name by name,** with the local one first: idempotent and
associative. -/
theorem merge_is_latest (a b c : DirV1) (ha : a.Apart) (hb : b.Apart) (hc : c.Apart) :
    (a.merge b).Apart ∧
      (∀ n, (a.dirEntry n = none → (a.merge b).dirEntry n = b.dirEntry n) ∧
        (b.dirEntry n = none → (a.merge b).dirEntry n = a.dirEntry n) ∧
        ∀ x y, a.dirEntry n = some x → b.dirEntry n = some y →
          (a.merge b).dirEntry n = if x.ts < y.ts then some y else some x) ∧
      a.merge a = a ∧ (a.merge b).merge b = a.merge b ∧
      (a.merge b).merge c = a.merge (b.merge c) := by
  have hab := ha.merge hb
  refine ⟨hab, fun n => ⟨fun hn => ?_, fun hn => ?_, fun x y hx hy => ?_⟩, ?_, ?_, ?_⟩
  · rw [dirEntry_merge ha hb, hn, latest_none_left]
  · rw [dirEntry_merge ha hb, hn, latest_none_right]
  · rw [dirEntry_merge ha hb, hx, hy, latest_some_some]
  · refine merge_ext (ha.merge ha) ha rfl rfl fun n => ?_
    rw [dirEntry_merge ha ha, latest_self]
  · refine merge_ext (hab.merge hb) hab rfl rfl fun n => ?_
    rw [dirEntry_merge hab hb, dirEntry_merge ha hb, latest_latest_right]
  · refine merge_ext (hab.merge hc) (ha.merge (hb.merge hc)) rfl rfl fun n => ?_
    rw [dirEntry_merge hab hc, dirEntry_merge ha hb, dirEntry_merge ha (hb.merge hc), dirEntry_merge hb hc,
      latest_assoc]

/-- A directory with the one file `a`, of the given content and age. -/
def oneEntry (hash : Hash) (timestamp : Option UInt32) : DirV1 :=
  { DirV1.new with
    files := (∅ : ExtTreeMap String FileRef).insert "a" { FileRef.new hash 1 with timestamp } }

theorem merge_is_latest_oneEntry :
    ((oneEntry 1 (some 5)).merge (oneEntry 2 (some 6))).dirEntry "a" =
      some (.file { FileRef.new 2 1 with timestamp := some 6 }) := by
  have h := merge_is_latest (oneEntry 1 (some 5)) (oneEntry 2 (some 6)) DirV1.new
    (by decide +kernel) (by decide +kernel) (by decide +kernel)
  exact ((h.2.1 "a").2.2 _ _ rfl rfl).trans (by decide +kernel)

/-! ## Two replicas -/

/-- **Replicas that merge each other agree** exactly if no name has two different entries of the same
timestamp. -/
theorem merge_comm_iff (a b : DirV1) (ha : a.Apart) (hb : b.Apart) :
    ((a.merge b).dirs = (b.merge a).dirs ∧ (a.merge b).files = (b.merge a).files) ↔
      ∀ n x y, a.dirEntry n = some x → b.dirEntry n = some y → x = y ∨ x.ts ≠ y.ts := by
  have hmaps : ((a.merge b).dirs = (b.merge a).dirs ∧ (a.merge b).files = (b.merge a).files) ↔
      ∀ n, (a.merge b).dirEntry n = (b.merge a).dirEntry n :=
    ⟨fun h n => dirEntry_eq_of_maps_eq h n, (ha.merge hb).maps_eq (hb.merge ha)⟩
  rw [hmaps]
  refine forall_congr' fun n => ?_
  rw [dirEntry_merge ha hb, dirEntry_merge hb ha]
  exact latest_comm_iff DirEntry.ts

theorem merge_comm_oneEntry :
    ((oneEntry 1 (some 5)).merge (oneEntry 2 (some 6))).files =
      ((oneEntry 2 (some 6)).merge (oneEntry 1 (some 5))).files := by
  refine ((merge_comm_iff _ _ (by decide +kernel) (by decide +kernel)).2 ?_).2
  intro n x y hx hy
  by_cases hn : n = "a"
  · subst hn
    obtain rfl := Option.some.inj hx
    obtain rfl := Option.some.inj hy
    exact .inr (by decide +kernel)
  · simp [DirV1.dirEntry, oneEntry, DirV1.new, Ne.symm hn] at hx

/-- Both replicas have put `a`, as `FileRef::new` makes it: each keeps its own. -/
theorem unstamped_replicas_disagree :
    (oneEntry 1 none).Apart ∧ (oneEntry 2 none).Apart ∧
      ¬ (((oneEntry 1 none).merge (oneEntry 2 none)).dirs =
          ((oneEntry 2 none).merge (oneEntry 1 none)).dirs ∧
        ((oneEntry 1 none).merge (oneEntry 2 none)).files =
          ((oneEntry 2 none).merge (oneEntry 1 none)).files) := by
  refine ⟨by decide +kernel, by decide +kernel, fun h => ?_⟩
  have hfile := congrArg (·["a"]?.map (·.hash)) h.2
  exact absurd hfile (by decide +kernel)

end Fs
