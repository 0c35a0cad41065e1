import S5.Fs.Dir
import Mathlib.Data.Finset.Basic
import Mathlib.Algebra.BigOperators.Group.List.Basic
import Mathlib.Algebra.Ring.Nat

/-!
# Versions of files

The versions that a file reference goes back to, and `collect_hashes_from_dir` (`s5_fs/src/gc.rs`), which
finds the hashes of all versions in a directory.
-/

open Std

namespace Fs

namespace FileRef

mutual
/-- How many references a file reference is built of, itself included. -/
def count : FileRef → Nat
  | ⟨_, _, _, _, _, _, _, _, _, prev, _, firstVersion⟩ => 1 + countOption prev + countOption firstVersion
def countOption : Option FileRef → Nat
  | none => 0
  | some f => f.count
end

/-- The references that a file reference holds. -/
def held (f : FileRef) : List FileRef := f.firstVersion.toList ++ f.prev.toList

theorem countOption_eq (o : Option FileRef) : countOption o = (o.toList.map count).sum := by
  cases o <;> simp [countOption]

theorem count_eq (f : FileRef) : f.count = 1 + (f.held.map count).sum := by
  have h : f.count = 1 + countOption f.prev + countOption f.firstVersion := by
    cases f
    simp only [count]
  rw [h, countOption_eq, countOption_eq, held, List.map_append, List.sum_append]
  omega

end FileRef

namespace Gc

/-- `add_versions_iterative`: what is on the stack, its top first, and all that it goes back to. Every
round leaves fewer references on the stack. -/
def addVersions (stack : List FileRef) (acc : Finset Hash) : Finset Hash :=
  match stack with
  | [] => acc
  | fr :: stack =>
    -- `prev` is pushed first, so that `first_version` is popped first
    addVersions (fr.firstVersion.toList ++ (fr.prev.toList ++ stack)) (insert fr.hash acc)
termination_by (stack.map FileRef.count).sum
decreasing_by
  have hcount := FileRef.count_eq fr
  simp only [FileRef.held, List.map_append, List.sum_append, List.map_cons, List.sum_cons] at hcount ⊢
  omega

/-- One file: the hash of a tombstone itself is left out. -/
def collectFile (reachable : Finset Hash) (fileRef : FileRef) : Finset Hash :=
  if fileRef.isTombstone then
    let reachable := match fileRef.prev with
      | some prev => addVersions [prev] reachable
      | none => reachable
    match fileRef.firstVersion with
    | some first => addVersions [first] reachable
    | none => reachable
  else addVersions [fileRef] reachable

def collectHashesFromDir (dir : DirV1) (reachable : Finset Hash) : Finset Hash :=
  dir.files.foldl (fun reachable _ fileRef => collectFile reachable fileRef) reachable

end Gc

end Fs
