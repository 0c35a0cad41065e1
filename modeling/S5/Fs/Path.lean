import Mathlib.Data.List.Basic

/-!
# Paths

Paths are plain strings that the actors cut at `/`; a map key of a directory may itself hold
slashes. The string functions of the source on them, over the characters of the string.
-/

namespace Fs

/-- The characters before the first slash and those after it. -/
def splitSlash : List Char → Option (List Char × List Char)
  | [] => none
  | c :: cs =>
    if c = '/' then some ([], cs)
    else (splitSlash cs).map fun (a, b) => (c :: a, b)

/-- `str::split_once('/')`. -/
def splitOnce (path : String) : Option (String × String) :=
  (splitSlash path.toList).map fun (a, b) => (String.ofList a, String.ofList b)

/-- The first segment of a path and what follows it, `""` if there is no slash. -/
def splitPath (path : String) : String × String := (splitOnce path).getD (path, "")

/-- The path below `dir/`, if `path` starts with it (`starts_with` and `strip_prefix`). -/
def stripDir (dir path : String) : Option String :=
  ((dir.toList ++ ['/']).isPrefixOf? path.toList).map String.ofList

/-! ## Segments -/

theorem splitSlash_eq_some {cs a b : List Char} :
    splitSlash cs = some (a, b) ↔ cs = a ++ '/' :: b ∧ '/' ∉ a := by
  induction cs generalizing a with
  | nil => simp [splitSlash]
  | cons c cs ih =>
    by_cases hc : c = '/'
    · subst hc
      cases a with
      | nil => simp [splitSlash, eq_comm]
      | cons x a =>
        simp only [splitSlash, if_true, Option.some.injEq, Prod.mk.injEq, List.cons_append,
          List.cons.injEq, List.mem_cons, not_or]
        constructor
        · rintro ⟨h, -⟩
          cases h
        · rintro ⟨⟨hx, -⟩, hn, -⟩
          exact absurd hx hn
    · cases a with
      | nil => simp [splitSlash, hc]
      | cons x a =>
        simp only [splitSlash, hc, if_false, Option.map_eq_some_iff, Prod.mk.injEq, List.cons.injEq,
          List.cons_append, List.mem_cons, not_or, Prod.exists]
        constructor
        · rintro ⟨a', b', h, ⟨rfl, rfl⟩, rfl⟩
          exact ⟨⟨rfl, (ih.1 h).1⟩, Ne.symm hc, (ih.1 h).2⟩
        · rintro ⟨⟨rfl, h⟩, -, hn⟩
          exact ⟨a, b, ih.2 ⟨h, hn⟩, ⟨rfl, rfl⟩, rfl⟩

theorem splitSlash_eq_none {cs : List Char} : splitSlash cs = none ↔ '/' ∉ cs := by
  induction cs with
  | nil => simp [splitSlash]
  | cons c cs ih =>
    by_cases hc : c = '/'
    · simp [splitSlash, hc]
    · simp [splitSlash, hc, ih, eq_comm (a := '/')]

/-- A path splits into a slash-free first segment and a rest. -/
theorem splitOnce_eq_some {path a b : String} :
    splitOnce path = some (a, b) ↔ path.toList = a.toList ++ '/' :: b.toList ∧ '/' ∉ a.toList := by
  simp only [splitOnce, Option.map_eq_some_iff, Prod.mk.injEq, Prod.exists]
  constructor
  · rintro ⟨a', b', h, rfl, rfl⟩
    simpa using splitSlash_eq_some.1 h
  · intro h
    exact ⟨a.toList, b.toList, splitSlash_eq_some.2 h, by simp, by simp⟩

theorem splitOnce_eq_none {path : String} : splitOnce path = none ↔ '/' ∉ path.toList := by
  simp [splitOnce, splitSlash_eq_none]

theorem splitPath_of_slash_free {path : String} (h : '/' ∉ path.toList) :
    splitPath path = (path, "") := by
  simp [splitPath, splitOnce_eq_none.2 h]

/-- The first segment has no slash. -/
theorem splitPath_fst_slash_free (path : String) : '/' ∉ (splitPath path).1.toList := by
  unfold splitPath
  cases h : splitOnce path with
  | none => simpa using splitOnce_eq_none.1 h
  | some ab =>
    obtain ⟨a, b⟩ := ab
    simpa using (splitOnce_eq_some.1 h).2

@[simp]
theorem splitPath_fst_fst (path : String) :
    splitPath (splitPath path).1 = ((splitPath path).1, "") :=
  splitPath_of_slash_free (splitPath_fst_slash_free path)

/-- `dir/rest` splits into `dir` and `rest`. -/
theorem splitPath_append {dir rest : String} (h : '/' ∉ dir.toList) :
    splitPath (dir ++ "/" ++ rest) = (dir, rest) := by
  have hs : splitOnce (dir ++ "/" ++ rest) = some (dir, rest) := by
    rw [splitOnce_eq_some]
    exact ⟨by simp, h⟩
  simp [splitPath, hs]

theorem stripDir_eq_some {dir path sub : String} :
    stripDir dir path = some sub ↔ path.toList = dir.toList ++ '/' :: sub.toList := by
  simp only [stripDir, Option.map_eq_some_iff, List.isPrefixOf?_eq_some_iff_append_eq]
  constructor
  · rintro ⟨cs, h, rfl⟩
    simp [← h]
  · intro h
    exact ⟨sub.toList, by simp [h], by simp⟩

end Fs
