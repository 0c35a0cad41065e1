import S5.Fs.Turn
import S5.Fs.Versions
import Mathlib.Logic.Relation

/-!
# The versions that deletes leave

* `collect_exact`: the hashes collected are those of the versions, and the content of a deleted file is
  among them however often it was deleted.
* `deletes_keep_history`: the deletes of a file lead back to it.
-/

open Std Relation

namespace Fs

namespace FileRef

/-- `g` is recorded in `f`. -/
def Child (f g : FileRef) : Prop := f.prev = some g ∨ f.firstVersion = some g

/-- `g` is a version that a directory entry `f` keeps: a tombstone itself is none. -/
def Keeps (f g : FileRef) : Prop :=
  if f.isTombstone then TransGen Child f g else ReflTransGen Child f g

theorem mem_held {f g : FileRef} : g ∈ f.held ↔ f.Child g := by
  rw [held, List.mem_append, Option.mem_toList, Option.mem_toList]
  exact or_comm

/-- A file after deletes at `times`. -/
def deletedAt (f : FileRef) (times : List (UInt32 × UInt32)) : FileRef :=
  times.foldl (fun f now => f.fromDeleted now.1 now.2) f

/-- `prev`, `n` times. -/
def back : Nat → FileRef → Option FileRef
  | 0, f => some f
  | n + 1, f => f.prev.bind (back n)

end FileRef

/-! ## Collecting -/

namespace Gc

open FileRef

/-- The stack: what is collected are the versions that the references on it lead to. -/
theorem mem_addVersions {h : Hash} (stack : List FileRef) (acc : Finset Hash) :
    h ∈ addVersions stack acc ↔
      h ∈ acc ∨ ∃ f ∈ stack, ∃ g, ReflTransGen Child f g ∧ g.hash = h := by
  induction stack, acc using addVersions.induct with
  | case1 acc => simp [addVersions]
  | case2 acc fr stack ih =>
    have hhead : (∃ g, ReflTransGen Child fr g ∧ g.hash = h) ↔
        fr.hash = h ∨ ∃ f ∈ fr.held, ∃ g, ReflTransGen Child f g ∧ g.hash = h := by
      constructor
      · rintro ⟨g, hg, rfl⟩
        rcases ReflTransGen.cases_head hg with rfl | ⟨f, hf, hg⟩
        · exact .inl rfl
        · exact .inr ⟨f, mem_held.2 hf, g, hg, rfl⟩
      · rintro (rfl | ⟨f, hf, g, hg, rfl⟩)
        · exact ⟨fr, .refl, rfl⟩
        · exact ⟨g, .head (mem_held.1 hf) hg, rfl⟩
    rw [addVersions, ih, List.exists_mem_cons_iff, hhead, Finset.mem_insert, ← List.append_assoc,
      show fr.firstVersion.toList ++ fr.prev.toList = fr.held from rfl]
    simp only [List.mem_append, or_and_right, exists_or]
    rw [eq_comm (a := h), or_comm (a := fr.hash = h), or_assoc, or_assoc]

theorem mem_collectFile {h : Hash} (reachable : Finset Hash) (f : FileRef) :
    h ∈ collectFile reachable f ↔ h ∈ reachable ∨ ∃ g, f.Keeps g ∧ g.hash = h := by
  unfold collectFile Keeps
  split
  · have hbelow : (∃ g, TransGen Child f g ∧ g.hash = h) ↔
        (∃ p, f.prev = some p ∧ ∃ g, ReflTransGen Child p g ∧ g.hash = h) ∨
          ∃ p, f.firstVersion = some p ∧ ∃ g, ReflTransGen Child p g ∧ g.hash = h := by
      constructor
      · rintro ⟨g, hg, hh⟩
        obtain ⟨p, hp | hp, hg⟩ := TransGen.head'_iff.1 hg
        · exact .inl ⟨p, hp, g, hg, hh⟩
        · exact .inr ⟨p, hp, g, hg, hh⟩
      · rintro (⟨p, hp, g, hg, hh⟩ | ⟨p, hp, g, hg, hh⟩)
        · exact ⟨g, TransGen.head'_iff.2 ⟨p, .inl hp, hg⟩, hh⟩
        · exact ⟨g, TransGen.head'_iff.2 ⟨p, .inr hp, hg⟩, hh⟩
    rw [hbelow]
    cases hprev : f.prev with
    | none =>
      cases hfirst : f.firstVersion with
      | none => simp
      | some first => simp [mem_addVersions]
    | some prev =>
      cases hfirst : f.firstVersion with
      | none => simp [mem_addVersions]
      | some first => simp [mem_addVersions, or_assoc]
  · rw [mem_addVersions]
    simp

/-- The entries one after the other. -/
theorem mem_collect {h : Hash} (dir : DirV1) (reachable : Finset Hash) :
    h ∈ collectHashesFromDir dir reachable ↔
      h ∈ reachable ∨ ∃ (name : String) (f : FileRef), dir.files[name]? = some f ∧
        ∃ g, f.Keeps g ∧ g.hash = h := by
  have hlist : ∀ (l : List (String × FileRef)) (acc : Finset Hash),
      h ∈ l.foldl (fun acc kv => collectFile acc kv.2) acc ↔
        h ∈ acc ∨ ∃ kv ∈ l, ∃ g, kv.2.Keeps g ∧ g.hash = h := by
    intro l
    induction l with
    | nil => simp
    | cons kv l ih =>
      intro acc
      rw [List.foldl_cons, ih, mem_collectFile, List.exists_mem_cons_iff, or_assoc]
  rw [collectHashesFromDir, ExtTreeMap.foldl_eq_foldl_toList, hlist]
  simp only [Prod.exists, ExtTreeMap.mem_toList_iff_getElem?_eq_some]

end Gc

/-! ## Deletes -/

namespace FileRef

@[simp] theorem deletedAt_nil (f : FileRef) : f.deletedAt [] = f := rfl

theorem deletedAt_concat (f : FileRef) (times : List (UInt32 × UInt32)) (now : UInt32 × UInt32) :
    f.deletedAt (times ++ [now]) = (f.deletedAt times).fromDeleted now.1 now.2 := by
  simp [deletedAt]

theorem hash_deletedAt (f : FileRef) (times : List (UInt32 × UInt32)) :
    (f.deletedAt times).hash = f.hash := by
  induction times using List.reverseRecOn with
  | nil => rfl
  | append_singleton times now ih => rw [deletedAt_concat, ← ih]; rfl

theorem isTombstone_deletedAt (f : FileRef) (now : UInt32 × UInt32) (times : List (UInt32 × UInt32)) :
    (f.deletedAt (now :: times)).isTombstone = true := by
  obtain ⟨init, last, hlast⟩ : ∃ init last, now :: times = init ++ [last] :=
    ⟨_, _, (List.dropLast_append_getLast (by simp)).symm⟩
  rw [hlast, deletedAt_concat]
  rfl

theorem child_deletedAt (f : FileRef) (now : UInt32 × UInt32) (times : List (UInt32 × UInt32)) :
    TransGen Child (f.deletedAt (now :: times)) f := by
  induction times using List.reverseRecOn with
  | nil => exact .single (.inl rfl)
  | append_singleton times last ih =>
    rw [← List.cons_append, deletedAt_concat]
    exact .head (.inl rfl) ih

/-- The closure of `file_delete`, again and again. -/
theorem foldl_delete (f : FileRef) (times : List (UInt32 × UInt32)) :
    times.foldl (fun value now => FileTask.delete.execute now value) (some f) =
      some (f.deletedAt times) := by
  induction times generalizing f with
  | nil => rfl
  | cons now times ih => exact ih _

theorem firstVersion_deletedAt (f : FileRef) (now : UInt32 × UInt32) (times : List (UInt32 × UInt32)) :
    (f.deletedAt (now :: times)).firstVersion = some (f.firstVersion.getD f) := by
  induction times using List.reverseRecOn with
  | nil => rfl
  | append_singleton times last ih =>
    rw [← List.cons_append, deletedAt_concat]
    show some ((f.deletedAt (now :: times)).firstVersion.getD _) = _
    rw [ih, Option.getD_some]

/-- A delete goes back to what was deleted. -/
theorem back_deletedAt (f : FileRef) (times : List (UInt32 × UInt32)) {k : Nat}
    (hk : k ≤ times.length) :
    back k (f.deletedAt times) = some (f.deletedAt (times.take (times.length - k))) := by
  induction times using List.reverseRecOn generalizing k with
  | nil =>
    obtain rfl : k = 0 := by simpa using hk
    rfl
  | append_singleton times now ih =>
    cases k with
    | zero =>
      rw [Nat.sub_zero, List.take_length]
      rfl
    | succ k =>
      rw [List.length_append, List.length_singleton] at hk ⊢
      have hprev : ((f.deletedAt times).fromDeleted now.1 now.2).prev = some (f.deletedAt times) := rfl
      rw [deletedAt_concat, back, hprev, Option.bind_some, ih (by omega), Nat.add_sub_add_right,
        List.take_append_of_le_length (by omega)]

theorem saturatingAddOne_toNat (n : UInt32) :
    (fromDeleted.saturatingAddOne n).toNat = min (2 ^ 32 - 1) (n.toNat + 1) := by
  have hlt := n.toNat_lt
  unfold fromDeleted.saturatingAddOne
  split
  · rw [UInt32.toNat_add]
    simp only [UInt32.toNat_one]
    omega
  · omega

theorem versionCount_deletedAt (f : FileRef) (now : UInt32 × UInt32)
    (times : List (UInt32 × UInt32)) :
    ∃ c, (f.deletedAt (now :: times)).versionCount = some c ∧
      c.toNat = min (2 ^ 32 - 1) ((f.versionCount.getD 1).toNat + (times.length + 1)) := by
  induction times using List.reverseRecOn with
  | nil => exact ⟨_, rfl, saturatingAddOne_toNat _⟩
  | append_singleton times last ih =>
    obtain ⟨c, hc, hcount⟩ := ih
    refine ⟨fromDeleted.saturatingAddOne c, ?_, ?_⟩
    · rw [← List.cons_append, deletedAt_concat]
      show some (fromDeleted.saturatingAddOne ((f.deletedAt (now :: times)).versionCount.getD 1)) = _
      rw [hc, Option.getD_some]
    · rw [saturatingAddOne_toNat, hcount, List.length_append, List.length_singleton]
      omega

/-- **Deletes keep the history**: they lead back to the file over tombstones, name its first version,
and count up until the counter is full. -/
theorem deletes_keep_history (f : FileRef) (now : UInt32 × UInt32) (times : List (UInt32 × UInt32)) :
    let g := f.deletedAt (now :: times)
    (now :: times).foldl (fun value now => FileTask.delete.execute now value) (some f) = some g ∧
      back (times.length + 1) g = some f ∧
      g.firstVersion = some (f.firstVersion.getD f) ∧
      (∀ k ≤ times.length, ∃ v, back k g = some v ∧ v.isTombstone = true) ∧
      ∃ c, g.versionCount = some c ∧
        c.toNat = min (2 ^ 32 - 1) ((f.versionCount.getD 1).toNat + (times.length + 1)) := by
  refine ⟨foldl_delete f _, ?_, firstVersion_deletedAt f now times, fun k hk => ?_,
    versionCount_deletedAt f now times⟩
  · rw [back_deletedAt f (now :: times) (by simp)]
    simp
  · refine ⟨_, back_deletedAt f (now :: times) (by rw [List.length_cons]; omega), ?_⟩
    -- at least one delete is left
    obtain ⟨j, hj⟩ : ∃ j, (now :: times).length - k = j + 1 :=
      ⟨times.length - k, by rw [List.length_cons]; omega⟩
    rw [hj, List.take_succ_cons]
    exact isTombstone_deletedAt f now _

end FileRef

namespace Gc

open FileRef

/-- **What is collected** of a directory are the versions its entries keep, and the content of a file
that was deleted, however often, is among them. -/
theorem collect_exact (dir : DirV1) (reachable : Finset Hash) :
    (∀ h : Hash, h ∈ collectHashesFromDir dir reachable ↔
      h ∈ reachable ∨ ∃ (name : String) (f : FileRef), dir.files[name]? = some f ∧
        ∃ g, f.Keeps g ∧ g.hash = h) ∧
    ∀ (name : String) (f : FileRef) (now : UInt32 × UInt32) (times : List (UInt32 × UInt32)),
      f.isTombstone = false → dir.files[name]? = some (f.deletedAt (now :: times)) →
        (f.deletedAt (now :: times)).hash ∈ collectHashesFromDir dir reachable := by
  refine ⟨fun h => mem_collect dir reachable, fun name f now times hlive hfile => ?_⟩
  rw [mem_collect]
  refine .inr ⟨name, _, hfile, f, ?_, (hash_deletedAt f _).symm⟩
  rw [Keeps, if_pos (isTombstone_deletedAt f now times)]
  exact child_deletedAt f now times

/-- A file that was deleted and whose tombstone was deleted. -/
def twiceDeleted : DirV1 where
  magic := "S5.pro"
  header := .new
  dirs := ∅
  files := (∅ : ExtTreeMap String FileRef).insert "f" ((FileRef.new 5 1).deletedAt [(1, 0), (2, 0)])

theorem collect_exact_twiceDeleted :
    ((FileRef.new 5 1).deletedAt [(1, 0), (2, 0)]).hash ∈ collectHashesFromDir twiceDeleted {9} :=
  (collect_exact twiceDeleted {9}).2 "f" (FileRef.new 5 1) (1, 0) [(2, 0)] rfl (by
    rw [twiceDeleted, ExtTreeMap.getElem?_insert_self])

end Gc

end Fs
