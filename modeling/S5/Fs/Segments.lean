import S5.Fs.Path

/-!
# Paths as lists of segments

A path is cut at every slash (`segments`) and put together again (`joinPath`). On segments without a
slash the two undo each other, and `splitPath` takes the first one off.
-/

namespace Fs

/-- `str::split('/')`. -/
def segments (path : String) : List String := (path.toList.splitOn '/').map String.ofList

/-- The path with the given segments. -/
def joinPath (segs : List String) : String :=
  String.ofList (['/'].intercalate (segs.map String.toList))

/-- Segments that a path names a file or directory by. -/
def Proper (segs : List String) : Prop := ∀ s ∈ segs, s ≠ "" ∧ '/' ∉ s.toList

theorem Proper.cons {s : String} {rest : List String} (h : Proper (s :: rest)) :
    (s ≠ "" ∧ '/' ∉ s.toList) ∧ Proper rest :=
  ⟨h s List.mem_cons_self, fun r hr => h r (List.mem_cons_of_mem s hr)⟩

theorem proper_append {segs segs' : List String} :
    Proper (segs ++ segs') ↔ Proper segs ∧ Proper segs' :=
  List.forall_mem_append

theorem Proper.reverse {segs : List String} (h : Proper segs) : Proper segs.reverse :=
  fun s hs => h s (List.mem_reverse.1 hs)

theorem Proper.reverse_append_nil {segs : List String} (h : Proper segs) :
    Proper (segs.reverse ++ []) := by
  rw [List.append_nil]
  exact h.reverse

@[simp]
theorem joinPath_nil : joinPath [] = "" := rfl

@[simp]
theorem joinPath_singleton (s : String) : joinPath [s] = s := by
  simp [joinPath]

theorem joinPath_cons_cons (s t : String) (rest : List String) :
    joinPath (s :: t :: rest) = s ++ "/" ++ joinPath (t :: rest) := by
  apply String.toList_inj.1
  simp [joinPath, List.intercalate_cons_cons]

theorem joinPath_snoc {segs : List String} (h : segs ≠ []) (s : String) :
    joinPath (segs ++ [s]) = joinPath segs ++ "/" ++ s := by
  induction segs with
  | nil => exact absurd rfl h
  | cons t segs ih =>
    cases segs with
    | nil => rw [List.cons_append, List.nil_append, joinPath_cons_cons, joinPath_singleton,
        joinPath_singleton]
    | cons u segs =>
      rw [List.cons_append, List.cons_append, joinPath_cons_cons, joinPath_cons_cons,
        ← List.cons_append, ih (List.cons_ne_nil u segs)]
      simp [String.append_assoc]

@[simp]
theorem joinPath_segments (path : String) : joinPath (segments path) = path := by
  simp [joinPath, segments, Function.comp_def]

theorem segments_joinPath {segs : List String} (hne : segs ≠ []) (h : ∀ s ∈ segs, '/' ∉ s.toList) :
    segments (joinPath segs) = segs := by
  have hfree : ∀ l ∈ segs.map String.toList, '/' ∉ l := by simpa using h
  rw [segments, joinPath, String.toList_ofList, List.splitOn_intercalate '/' hfree (by simpa using hne),
    List.map_map]
  simp

theorem segments_ne_nil (path : String) : segments path ≠ [] := by
  simp [segments]

/-- No segment has a slash. -/
theorem slash_free_of_mem_segments {path s : String} (h : s ∈ segments path) : '/' ∉ s.toList := by
  have hlist : ∀ (cs : List Char), ∀ l ∈ cs.splitOn '/', '/' ∉ l := by
    intro cs
    induction cs with
    | nil => simp
    | cons c cs ih =>
      intro l hl
      rw [List.splitOn_cons_eq_if_modifyHead] at hl
      split at hl
      · rcases List.mem_cons.1 hl with rfl | hl
        · simp
        · exact ih l hl
      · rename_i hc
        obtain ⟨first, others, hsplit⟩ := List.exists_cons_of_ne_nil (List.splitOn_ne_nil '/' cs)
        rw [hsplit] at hl ih
        rcases List.mem_cons.1 hl with rfl | hl
        · have hfirst := ih first List.mem_cons_self
          simp only [List.mem_cons, not_or]
          exact ⟨fun he => hc (by simp [← he]), hfirst⟩
        · exact ih l (List.mem_cons_of_mem first hl)
  obtain ⟨l, hl, rfl⟩ := List.mem_map.1 h
  rw [String.toList_ofList]
  exact hlist _ l hl

theorem proper_segments {path : String} (h : "" ∉ segments path) : Proper (segments path) :=
  fun _ hs => ⟨fun he => h (he ▸ hs), slash_free_of_mem_segments hs⟩

/-- The first segment comes off. -/
theorem splitPath_joinPath {s : String} (hs : '/' ∉ s.toList) (rest : List String) :
    splitPath (joinPath (s :: rest)) = (s, joinPath rest) := by
  cases rest with
  | nil => rw [joinPath_singleton, splitPath_of_slash_free hs, joinPath_nil]
  | cons t rest => rw [joinPath_cons_cons, splitPath_append hs]

theorem joinPath_eq_empty {segs : List String} (h : Proper segs) : joinPath segs = "" ↔ segs = [] := by
  constructor
  · intro he
    cases segs with
    | nil => rfl
    | cons s rest =>
      have hsplit := splitPath_joinPath h.cons.1.2 rest
      rw [he] at hsplit
      exact absurd (Prod.mk.inj hsplit).1.symm h.cons.1.1
  · rintro rfl
    rfl

end Fs
