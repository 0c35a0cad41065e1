import S5.Fs.Proof.DeleteAgain
import S5.Fs.Proof.Exports
import S5.Fs.Proof.ShardLookup
import S5.Fuse.Proof.Mount

/-!
# What the mount shows and what FS5 finds

A mount goes down the directories one segment at a time and looks into merged snapshots; `file_get`
sends the whole path down. `Differs` has the ways in which the two come apart, each a condition on the
directories on the way and their entries.

* `view_iff`: the mount shows the directories that the segments lead to while all shards open.
* `agree_iff`: by recursion on the segments, the two agree exactly if nothing differs.
* `tree_mirrors_iff`: so do the walk and the listings of a freshly mounted file system.
-/

open Std Fs Fs.Actor

namespace Fuse

section
variable {β : Type} {env : Env β} {w : World β} {regs : RegistryDirHandles}

/-! ## Directories on the way -/

variable (env w regs) in
/-- The directory that segments lead to, all shards of it and of the directories before it open. -/
def Trail : Actor → List String → Actor → Prop
  | a, [], c => Loadable env w a ∧ c = a
  | a, s :: rest, c => Loadable env w a ∧ ∃ child, SubDir env w regs a s child ∧ Trail child rest c

theorem Trail.dirAt {a c : Actor} {segs : List String} (h : Trail env w regs a segs c) :
    DirAt env w regs a segs c := by
  induction segs generalizing a with
  | nil => exact h.2
  | cons s rest ih =>
    obtain ⟨-, child, hsub, hc⟩ := h
    exact ⟨child, hsub, ih hc⟩

theorem Trail.loadable {a c : Actor} {segs : List String} (h : Trail env w regs a segs c) :
    Loadable env w c := by
  induction segs generalizing a with
  | nil =>
    obtain ⟨hl, rfl⟩ := h
    exact hl
  | cons s rest ih =>
    obtain ⟨-, child, -, hc⟩ := h
    exact ih hc

theorem trail_snoc {a c' : Actor} {segs : List String} {s : String} :
    Trail env w regs a (segs ++ [s]) c' ↔
      ∃ c, Trail env w regs a segs c ∧ SubDir env w regs c s c' ∧ Loadable env w c' := by
  induction segs generalizing a with
  | nil =>
    constructor
    · rintro ⟨hl, child, hsub, hl', rfl⟩
      exact ⟨a, ⟨hl, rfl⟩, hsub, hl'⟩
    · rintro ⟨c, ⟨hl, rfl⟩, hsub, hl'⟩
      exact ⟨hl, c', hsub, hl', rfl⟩
  | cons t segs ih =>
    constructor
    · rintro ⟨hl, child, hsub, hc⟩
      obtain ⟨c, hc, hs⟩ := ih.1 hc
      exact ⟨c, ⟨hl, child, hsub, hc⟩, hs⟩
    · rintro ⟨c, ⟨hl, child, hsub, hc⟩, hs⟩
      exact ⟨hl, child, hsub, ih.2 ⟨c, hc, hs⟩⟩

/-- A child directory is shown by its parent. -/
theorem SubDir.shown {a child : Actor} {s : String} {fuel : Nat} {d : DirV1}
    (h : SubDir env w regs a s child) (hx : exportMergedSnapshot env w fuel a = .ok d) :
    s ∈ d.dirs := by
  obtain ⟨b, hb, hmem, -⟩ := h
  exact ExtTreeMap.mem_iff_isSome_getElem?.2 (hb.lists (exportMergedSnapshot_lists hx s) hmem)

theorem view_mono {fs : FS5 β} {fuel fuel' : Nat} (hle : fuel ≤ fuel') {rev : List String} {d : DirV1}
    (h : view env fuel fs rev = some d) : view env fuel' fs rev = some d := by
  induction rev generalizing d with
  | nil =>
    rw [view] at h ⊢
    cases hx : fs.exportMergedSnapshot env fuel with
    | error e =>
      rw [hx] at h
      cases h
    | ok d' =>
      rw [hx] at h
      rw [show fs.exportMergedSnapshot env fuel' = .ok d' from exportMergedSnapshot_le hle hx]
      exact h
  | cons s rev ih =>
    obtain ⟨d0, hd0, hmem, hx⟩ := view_cons.1 h
    exact view_cons.2 ⟨d0, ih hd0, hmem, exportMergedSnapshotAt_le hle hx⟩

/-- **The mount shows** the directory that the segments lead to. -/
theorem view_iff {fs : FS5 β} {rev : List String} (h : Proper rev) {d : DirV1} :
    (∃ fuel, view env fuel fs rev = some d) ↔
      ∃ c, Trail env fs.world fs.registryDirHandles fs.root rev.reverse c ∧
        ∃ fuel, exportMergedSnapshot env fs.world fuel c = .ok d := by
  induction rev generalizing d with
  | nil =>
    constructor
    · rintro ⟨fuel, hv⟩
      rw [view] at hv
      cases hx : fs.exportMergedSnapshot env fuel with
      | error e =>
        rw [hx] at hv
        cases hv
      | ok d' =>
        rw [hx] at hv
        obtain rfl := Option.some.inj hv
        exact ⟨fs.root, ⟨⟨fuel, shardsOpen_of_export hx⟩, rfl⟩, fuel, hx⟩
    · rintro ⟨c, ⟨-, rfl⟩, fuel, hx⟩
      exact ⟨fuel, by rw [view, show fs.exportMergedSnapshot env fuel = .ok d from hx]; rfl⟩
  | cons s rev ih =>
    rw [List.reverse_cons]
    have hjoin : Proper (rev.reverse ++ [s]) := by
      rw [← List.reverse_cons]
      exact h.reverse
    constructor
    · rintro ⟨fuel, hv⟩
      obtain ⟨d0, hd0, hmem, hx⟩ := view_cons.1 hv
      obtain ⟨c, htrail, -⟩ := (ih h.cons.2).1 ⟨fuel, hd0⟩
      rw [List.reverse_cons] at hx
      obtain ⟨c', hdir, fuel', hx'⟩ := (exports_joinPath hjoin).1 ⟨fuel, hx⟩
      obtain ⟨c0, hdir0, hsub⟩ := dirAt_snoc.1 hdir
      obtain rfl := hdir0.unique htrail.dirAt
      exact ⟨c', trail_snoc.2 ⟨c0, htrail, hsub, fuel', shardsOpen_of_export hx'⟩, fuel', hx'⟩
    · rintro ⟨c', htrail, hx'⟩
      obtain ⟨c, htrail, hsub, -⟩ := trail_snoc.1 htrail
      obtain ⟨fuel0, d0, hx0⟩ := htrail.loadable.export
      obtain ⟨fuel, hd0⟩ := (ih h.cons.2).2 ⟨c, htrail, fuel0, hx0⟩
      obtain ⟨fuel', hx⟩ := (exports_joinPath hjoin).2 ⟨c', dirAt_snoc.2 ⟨c, htrail.dirAt, hsub⟩, hx'⟩
      refine ⟨max fuel fuel', view_cons.2 ⟨d0, view_mono (Nat.le_max_left fuel fuel') hd0,
        SubDir.shown hsub hx0, ?_⟩⟩
      rw [List.reverse_cons]
      exact exportMergedSnapshotAt_le (Nat.le_max_right fuel fuel') hx

/-! ## The two views of a path -/

variable (env w regs) in
/-- A file of the size `z` is shown where the segments lead. -/
def FileShown (a : Actor) (segs : List String) (z : UInt64) : Prop :=
  ∃ pre s c f, segs = pre ++ [s] ∧ Trail env w regs a pre c ∧ Lists env w c s (none, some f) ∧ f.size = z

variable (env w regs) in
/-- A file that is no tombstone is kept where a path is handled. -/
def Held (a : Actor) (path : String) (f : FileRef) : Prop :=
  ∃ b q, Receives env w regs a path b q ∧ b.state.files[q]? = some f ∧ f.isTombstone = false

/-- A listing with this entry does not list the name once: it is one of the two names that every
listing has, or the name of a directory and of a file. -/
def Doubled (s : String) (e : Entry) : Prop :=
  (e.1.isSome ∨ e.2.isSome) ∧ (s = "." ∨ s = ".." ∨ (e.1.isSome ∧ e.2.isSome))

variable (env w regs) in
/-- The segments are listed once, each in its directory. -/
def ListedOnce (a : Actor) (segs : List String) : Prop :=
  ∀ pre s post c e, segs = pre ++ s :: post → Trail env w regs a pre c → Lists env w c s e →
    ¬ Doubled s e

variable (env w regs) in
/-- A file is shown exactly if it is kept, and the way to it is listed. -/
def Agree (a : Actor) (segs : List String) : Prop :=
  (∀ z, FileShown env w regs a segs z ↔ ∃ f, Held env w regs a (joinPath segs) f ∧ f.size = z) ∧
    ListedOnce env w regs a segs

variable (env w regs) in
/-- What makes the two views of a path come apart, in the directory `a` or below it. -/
inductive Differs : Actor → List String → Prop where
  /-- The segment is listed twice. -/
  | doubled {a : Actor} {s : String} {rest : List String} {e : Entry} (hl : Lists env w a s e)
      (hd : Doubled s e) : Differs a (s :: rest)
  /-- The last segment is shown as a file, but at its home there is a tombstone or another file, a
  directory or nothing. -/
  | shown {a : Actor} {s : String} {g : FileRef} (hl : Lists env w a s (none, some g))
      (hf : ∀ b f, IsHome env w a s b → s ∉ b.state.dirs → b.state.files[s]? = some f →
        f.isTombstone = true ∨ f.size ≠ g.size) : Differs a [s]
  /-- The file of the last segment is not shown: a shard of the directory does not open, or another
  shard has an entry of that name. -/
  | hidden {a b : Actor} {s : String} {f : FileRef} (hb : IsHome env w a s b) (hd : s ∉ b.state.dirs)
      (hf : b.state.files[s]? = some f) (ht : f.isTombstone = false)
      (hl : ∀ g, Lists env w a s (none, some g) → g.size ≠ f.size) : Differs a [s]
  /-- A directory keeps a file under the empty name. -/
  | unnamed {a child : Actor} {s : String} {f : FileRef} (hs : SubDir env w regs a s child)
      (hf : Held env w regs child "" f) : Differs a [s]
  /-- A file is kept under a key of several segments. -/
  | spanning {a b : Actor} {s t : String} {rest : List String} {f : FileRef} (hb : IsHome env w a s b)
      (hd : s ∉ b.state.dirs) (hf : b.state.files[joinPath (s :: t :: rest)]? = some f)
      (ht : f.isTombstone = false) : Differs a (s :: t :: rest)
  /-- A file is kept below a directory that has a shard which does not open. -/
  | unloaded {a child : Actor} {s t : String} {rest : List String} {f : FileRef}
      (hl : ¬ Loadable env w a) (hs : SubDir env w regs a s child)
      (hf : Held env w regs child (joinPath (t :: rest)) f) : Differs a (s :: t :: rest)
  | deeper {a child : Actor} {s t : String} {rest : List String} (hl : Loadable env w a)
      (hs : SubDir env w regs a s child) (h : Differs child (t :: rest)) : Differs a (s :: t :: rest)

theorem held_iff {a : Actor} {path : String} {f : FileRef} :
    Held env w regs a path f ↔ Reaches env w regs a path (some f) ∧ f.isTombstone = false := by
  constructor
  · rintro ⟨b, q, hb, hf, ht⟩
    exact ⟨hb.reaches.2 hf.symm, ht⟩
  · rintro ⟨hr, ht⟩
    obtain ⟨b, q, hb⟩ := receives_of_reaches hr
    exact ⟨b, q, hb, (hb.reaches.1 hr).symm, ht⟩

theorem held_cons {a : Actor} {s : String} {rest : List String} (hs : '/' ∉ s.toList) {f : FileRef} :
    Held env w regs a (joinPath (s :: rest)) f ↔
      (∃ child, SubDir env w regs a s child ∧ Held env w regs child (joinPath rest) f) ∨
        ∃ b, IsHome env w a s b ∧ s ∉ b.state.dirs ∧ b.state.files[joinPath (s :: rest)]? = some f ∧
          f.isTombstone = false := by
  simp only [held_iff]
  rw [reaches_some_iff (splitPath_joinPath hs rest)]
  constructor
  · rintro ⟨⟨child, hsub, hr⟩ | ⟨b, hb, hd, hf⟩, ht⟩
    · exact .inl ⟨child, hsub, hr, ht⟩
    · exact .inr ⟨b, hb, hd, hf, ht⟩
  · rintro (⟨child, hsub, hr, ht⟩ | ⟨b, hb, hd, hf, ht⟩)
    · exact ⟨.inl ⟨child, hsub, hr⟩, ht⟩
    · exact ⟨.inr ⟨b, hb, hd, hf⟩, ht⟩

theorem fileShown_singleton {a : Actor} {s : String} {z : UInt64} :
    FileShown env w regs a [s] z ↔ ∃ f, Lists env w a s (none, some f) ∧ f.size = z := by
  constructor
  · rintro ⟨pre, t, c, f, hsegs, htrail, hl, hz⟩
    cases pre with
    | nil =>
      obtain ⟨-, rfl⟩ := htrail
      obtain ⟨rfl, -⟩ := List.cons.inj hsegs
      exact ⟨f, hl, hz⟩
    | cons u pre => simp at hsegs
  · rintro ⟨f, hl, hz⟩
    exact ⟨[], s, a, f, rfl, ⟨hl.loadable, rfl⟩, hl, hz⟩

theorem fileShown_cons_cons {a : Actor} {s t : String} {rest : List String} {z : UInt64} :
    FileShown env w regs a (s :: t :: rest) z ↔ Loadable env w a ∧
      ∃ child, SubDir env w regs a s child ∧ FileShown env w regs child (t :: rest) z := by
  constructor
  · rintro ⟨pre, u, c, f, hsegs, htrail, hl, hz⟩
    cases pre with
    | nil =>
      obtain ⟨-, hnil⟩ := List.cons.inj hsegs
      cases hnil
    | cons x pre =>
      obtain ⟨rfl, htail⟩ := List.cons.inj hsegs
      obtain ⟨hload, child, hsub, htrail⟩ := htrail
      exact ⟨hload, child, hsub, pre, u, c, f, htail, htrail, hl, hz⟩
  · rintro ⟨hload, child, hsub, pre, u, c, f, htail, htrail, hl, hz⟩
    exact ⟨s :: pre, u, c, f, by rw [htail, List.cons_append], ⟨hload, child, hsub, htrail⟩, hl, hz⟩

theorem listedOnce_cons {a : Actor} {s : String} {rest : List String} :
    ListedOnce env w regs a (s :: rest) ↔ (∀ e, Lists env w a s e → ¬ Doubled s e) ∧
      (Loadable env w a → ∀ child, SubDir env w regs a s child → ListedOnce env w regs child rest) := by
  constructor
  · intro h
    refine ⟨fun e hl => h [] s rest a e rfl ⟨hl.loadable, rfl⟩ hl, ?_⟩
    rintro hload child hsub pre t post c e rfl htrail hl
    exact h (s :: pre) t post c e rfl ⟨hload, child, hsub, htrail⟩ hl
  · rintro ⟨hhere, hbelow⟩ pre t post c e hsegs htrail hl
    cases pre with
    | nil =>
      obtain ⟨-, rfl⟩ := htrail
      obtain ⟨rfl, -⟩ := List.cons.inj hsegs
      exact hhere e hl
    | cons u pre =>
      obtain ⟨rfl, htail⟩ := List.cons.inj hsegs
      obtain ⟨hload, child, hsub, htrail⟩ := htrail
      exact hbelow hload child hsub pre t post c e htail htrail hl

theorem listedOnce_nil (a : Actor) : ListedOnce env w regs a [] := by
  intro pre s post c e hsegs
  simp at hsegs

/-- A child directory is listed as one. -/
theorem SubDir.lists {a child : Actor} {s : String} {e : Entry} (h : SubDir env w regs a s child)
    (hl : Lists env w a s e) : e.1.isSome := by
  obtain ⟨b, hb, hmem, -⟩ := h
  exact hb.lists hl hmem

/-! ## Where they agree -/

theorem agree_singleton {a : Actor} {s : String} (hs : '/' ∉ s.toList) :
    Agree env w regs a [s] ↔ ¬ Differs env w regs a [s] := by
  have hheld : ∀ f, Held env w regs a (joinPath [s]) f ↔ _ := fun f => held_cons hs
  rw [joinPath_nil, joinPath_singleton] at hheld
  unfold Agree
  rw [joinPath_singleton]
  constructor
  · rintro ⟨hfile, hlisted⟩ hdiff
    cases hdiff with
    | doubled hl hd => exact (listedOnce_cons.1 hlisted).1 _ hl hd
    | @shown _ _ g hl hf =>
      obtain ⟨f, hheldf, hsize⟩ := (hfile g.size).1 (fileShown_singleton.2 ⟨g, hl, rfl⟩)
      obtain ⟨child, hsub, -⟩ | ⟨b, hb, hd, hfb, ht⟩ := (hheld f).1 hheldf
      · cases SubDir.lists hsub hl
      · obtain htomb | hne := hf b f hb hd hfb
        · cases ht.symm.trans htomb
        · exact hne hsize
    | @hidden _ b _ f hb hd hf ht hl =>
      obtain ⟨g, hlg, hsize⟩ := fileShown_singleton.1
        ((hfile f.size).2 ⟨f, (hheld f).2 (.inr ⟨b, hb, hd, hf, ht⟩), rfl⟩)
      exact hl g hlg hsize
    | @unnamed _ child _ f hsub hf =>
      obtain ⟨g, hlg, -⟩ := fileShown_singleton.1
        ((hfile f.size).2 ⟨f, (hheld f).2 (.inl ⟨child, hsub, hf⟩), rfl⟩)
      cases SubDir.lists hsub hlg
  · intro hdiff
    refine ⟨fun z => ⟨fun hshown => ?_, ?_⟩, listedOnce_cons.2
      ⟨fun e hl hd => hdiff (.doubled hl hd), fun _ child _ => listedOnce_nil child⟩⟩
    · obtain ⟨g, hl, rfl⟩ := fileShown_singleton.1 hshown
      by_contra hno
      refine hdiff (.shown hl fun b f hb hd hf => ?_)
      by_contra hlive
      rw [not_or, Bool.not_eq_true, not_not] at hlive
      exact hno ⟨f, (hheld f).2 (.inr ⟨b, hb, hd, hf, hlive.1⟩), hlive.2⟩
    · rintro ⟨f, hf, rfl⟩
      obtain ⟨child, hsub, hf⟩ | ⟨b, hb, hd, hf, ht⟩ := (hheld f).1 hf
      · exact absurd (.unnamed hsub hf) hdiff
      · by_contra hno
        exact hdiff (.hidden hb hd hf ht fun g hl he => hno (fileShown_singleton.2 ⟨g, hl, he⟩))

theorem agree_cons_cons {a : Actor} {s t : String} {rest : List String} (hs : '/' ∉ s.toList)
    (ih : ∀ child, Agree env w regs child (t :: rest) ↔ ¬ Differs env w regs child (t :: rest)) :
    Agree env w regs a (s :: t :: rest) ↔ ¬ Differs env w regs a (s :: t :: rest) := by
  have hheld : ∀ f, Held env w regs a (joinPath (s :: t :: rest)) f ↔ _ := fun f => held_cons hs
  constructor
  · rintro ⟨hfile, hlisted⟩ hdiff
    obtain ⟨hhere, hbelow⟩ := listedOnce_cons.1 hlisted
    cases hdiff with
    | doubled hl hd => exact hhere _ hl hd
    | @spanning _ b _ _ _ f hb hd hf ht =>
      obtain ⟨-, child, ⟨b', hb', hmem, -⟩, -⟩ := fileShown_cons_cons.1
        ((hfile f.size).2 ⟨f, (hheld f).2 (.inr ⟨b, hb, hd, hf, ht⟩), rfl⟩)
      exact hd (hb.unique hb' ▸ hmem)
    | @unloaded _ child _ _ _ f hl hsub hf =>
      exact hl (fileShown_cons_cons.1
        ((hfile f.size).2 ⟨f, (hheld f).2 (.inl ⟨child, hsub, hf⟩), rfl⟩)).1
    | @deeper _ child _ _ _ hl hsub hdiff =>
      refine (ih child).1 ⟨fun z => ?_, hbelow hl child hsub⟩ hdiff
      constructor
      · intro hshown
        obtain ⟨f, hf, hsize⟩ := (hfile z).1 (fileShown_cons_cons.2 ⟨hl, child, hsub, hshown⟩)
        obtain ⟨child', hsub', hf⟩ | ⟨b, hb, hd, -⟩ := (hheld f).1 hf
        · obtain rfl := hsub.unique hsub'
          exact ⟨f, hf, hsize⟩
        · obtain ⟨b', hb', hmem, -⟩ := hsub
          exact absurd (hb'.unique hb ▸ hmem) hd
      · rintro ⟨f, hf, rfl⟩
        obtain ⟨-, child', hsub', hshown⟩ := fileShown_cons_cons.1
          ((hfile f.size).2 ⟨f, (hheld f).2 (.inl ⟨child, hsub, hf⟩), rfl⟩)
        obtain rfl := hsub.unique hsub'
        exact hshown
  · intro hdiff
    have hchild : ∀ child, Loadable env w a → SubDir env w regs a s child →
        Agree env w regs child (t :: rest) := fun child hl hsub =>
      (ih child).2 fun hd => hdiff (.deeper hl hsub hd)
    refine ⟨fun z => ⟨fun hshown => ?_, ?_⟩, listedOnce_cons.2
      ⟨fun e hl hd => hdiff (.doubled hl hd), fun hl child hsub => (hchild child hl hsub).2⟩⟩
    · obtain ⟨hl, child, hsub, hshown⟩ := fileShown_cons_cons.1 hshown
      obtain ⟨f, hf, hsize⟩ := ((hchild child hl hsub).1 z).1 hshown
      exact ⟨f, (hheld f).2 (.inl ⟨child, hsub, hf⟩), hsize⟩
    · rintro ⟨f, hf, rfl⟩
      obtain ⟨child, hsub, hf⟩ | ⟨b, hb, hd, hf, ht⟩ := (hheld f).1 hf
      · have hl : Loadable env w a := by
          by_contra hl
          exact hdiff (.unloaded hl hsub hf)
        exact fileShown_cons_cons.2 ⟨hl, child, hsub, ((hchild child hl hsub).1 f.size).2 ⟨f, hf, rfl⟩⟩
      · exact absurd (.spanning hb hd hf ht) hdiff

/-- **The two views agree** exactly if nothing on the way makes them differ. -/
theorem agree_iff {a : Actor} {segs : List String} (hne : segs ≠ []) (h : Proper segs) :
    Agree env w regs a segs ↔ ¬ Differs env w regs a segs := by
  induction segs generalizing a with
  | nil => exact absurd rfl hne
  | cons s rest ih =>
    cases rest with
    | nil => exact agree_singleton h.cons.1.2
    | cons t rest =>
      exact agree_cons_cons h.cons.1.2 fun child => ih (List.cons_ne_nil t rest) h.cons.2

end

/-! ## Listed names -/

theorem isSome_found {d : DirV1} {s : String} :
    (found d s).isSome ↔ (d.entry s).1.isSome ∨ (d.entry s).2.isSome := by
  unfold found DirV1.entry
  cases d.dirs[s]? with
  | some dr => simp
  | none => cases d.files[s]? <;> simp

/-- A listing has an entry once exactly if its name is not doubled. -/
theorem listed_iff (ino parent : Nat) {d : DirV1} {s : String} {children : List DirEntry}
    (hnames : children.map (·.name) = d.dirs.keys ++ d.files.keys) (hs : (found d s).isSome) :
    (∃ e, (⟨ino, .directory, "."⟩ :: ⟨parent, .directory, ".."⟩ :: children).filter (·.name = s) = [e]) ↔
      ¬ Doubled s (d.entry s) := by
  generalize hall : (⟨ino, .directory, "."⟩ :: ⟨parent, .directory, ".."⟩ :: children : List DirEntry) =
    entries
  have hlen : (entries.filter (·.name = s)).length = (entries.map (·.name)).count s := by
    rw [← List.countP_eq_length_filter, List.count, List.countP_map]
    exact List.countP_congr fun e _ => by simp
  have hcount : (entries.map (·.name)).count s = (if s ∈ d.dirs then 1 else 0) +
      (if s ∈ d.files then 1 else 0) + (if ".." = s then 1 else 0) + (if "." = s then 1 else 0) := by
    rw [← hall, List.map_cons, List.map_cons, hnames, List.count_cons, List.count_cons,
      List.count_append, ExtTreeMap.nodup_keys.count, ExtTreeMap.nodup_keys.count]
    simp only [ExtTreeMap.mem_keys, beq_iff_eq]
  have hdirs : (d.entry s).1.isSome ↔ s ∈ d.dirs := ExtTreeMap.mem_iff_isSome_getElem?.symm
  have hfiles : (d.entry s).2.isSome ↔ s ∈ d.files := ExtTreeMap.mem_iff_isSome_getElem?.symm
  rw [isSome_found, hdirs, hfiles] at hs
  rw [← List.length_eq_one_iff, hlen, hcount, Doubled, hdirs, hfiles, eq_comm (a := s) (b := "."),
    eq_comm (a := s) (b := "..")]
  have hdots : ¬ ("." = s ∧ ".." = s) := by
    rintro ⟨rfl, h⟩
    exact absurd h (by decide)
  by_cases h1 : s ∈ d.dirs
  all_goals by_cases h2 : s ∈ d.files
  all_goals by_cases h3 : "." = s
  all_goals by_cases h4 : ".." = s
  all_goals simp_all

/-! ## Mounts -/

section
variable {β σ : Type} {env : Env β} {rodeo : Interner String σ} {fs : FS5 β}

open ReadOnlyS5Fs

variable (env rodeo fs) in
/-- A freshly mounted file system shows a path as `file_get` finds it: a walk along the path ends in a
regular file exactly if there is one, and each directory on the way lists the next segment once, under
the inode that the lookup has returned. -/
structure Mirrors (path : String) : Prop where
  file : ∀ size, (∃ fuel, fileAtEnd (segments path)
      (walk env rodeo fuel (segments path) (.new rodeo fs) 1).2 = some size) ↔
    ∃ f, fs.FileGet env path (some f) ∧ f.size = size
  listed : ∀ fuel m visits, walk env rodeo fuel (segments path) (.new rodeo fs) 1 = (m, visits) →
    ∀ v ∈ visits, ∃ m' entries e, m.readdir env rodeo fuel v.parent 0 = (m', .ok entries) ∧
      entries.filter (·.name = v.name) = [e] ∧ e.inode = v.attr.ino

theorem fileGet_held {path : String} {f : FileRef} :
    fs.FileGet env path (some f) ↔ Held env fs.world fs.registryDirHandles fs.root path f := by
  rw [held_iff]
  unfold FS5.FileGet live
  constructor
  · rintro ⟨q, hq, hf⟩
    obtain ⟨rfl, ht⟩ := Option.filter_eq_some_iff.1 hf.symm
    exact ⟨hq, by simpa using ht⟩
  · rintro ⟨hr, ht⟩
    exact ⟨some f, hr, by simp [Option.filter, ht]⟩

/-- What a directory on the way is shown as. -/
theorem lists_of_view {fuel : Nat} {pre : List String} {d : DirV1} (h : Proper pre)
    (hv : view env fuel fs (pre.reverse ++ []) = some d) :
    ∃ c, Trail env fs.world fs.registryDirHandles fs.root pre c ∧
      ∀ s, Lists env fs.world c s (d.entry s) := by
  rw [List.append_nil] at hv
  obtain ⟨c, htrail, fuel', hx⟩ := (view_iff h.reverse).1 ⟨fuel, hv⟩
  rw [List.reverse_reverse] at htrail
  exact ⟨c, htrail, exportMergedSnapshot_lists hx⟩

theorem view_of_lists {pre : List String} {c : Actor} {s : String} {e : Entry} (h : Proper pre)
    (htrail : Trail env fs.world fs.registryDirHandles fs.root pre c)
    (hl : Lists env fs.world c s e) :
    ∃ fuel d, view env fuel fs (pre.reverse ++ []) = some d ∧ d.entry s = e := by
  obtain ⟨fuel', d, hx⟩ := hl.loadable.export
  obtain ⟨fuel, hv⟩ := (view_iff h.reverse).2 ⟨c, by rw [List.reverse_reverse]; exact htrail, fuel', hx⟩
  exact ⟨fuel, d, by rw [List.append_nil]; exact hv, (exportMergedSnapshot_lists hx s).unique hl⟩

theorem showsFile_iff {segs : List String} (h : Proper segs) {z : UInt64} :
    (∃ fuel, ShowsFile env fuel fs [] segs z) ↔
      FileShown env fs.world fs.registryDirHandles fs.root segs z := by
  constructor
  · rintro ⟨fuel, pre, s, d, f, rfl, hv, hd, hf, hz⟩
    obtain ⟨c, htrail, hl⟩ := lists_of_view (proper_append.1 h).1 hv
    have he : d.entry s = (none, some f) := by rw [DirV1.entry, hd, hf]
    exact ⟨pre, s, c, f, rfl, htrail, he ▸ hl s, hz⟩
  · rintro ⟨pre, s, c, f, rfl, htrail, hl, hz⟩
    obtain ⟨fuel, d, hv, he⟩ := view_of_lists (proper_append.1 h).1 htrail hl
    obtain ⟨hd, hf⟩ := Prod.mk.inj he
    exact ⟨fuel, pre, s, d, f, rfl, hv, hd, hf, hz⟩

/-- A walk along a path from the root of a fresh mount. -/
theorem walk_new (law : rodeo.Lawful) {segs : List String} (h : Proper segs) {fuel : Nat}
    {m : ReadOnlyS5Fs β σ} {visits : List Visit}
    (hw : walk env rodeo fuel segs (.new rodeo fs) 1 = (m, visits)) :
    Coherent rodeo env fuel fs m ∧
      List.Forall₂ (Shows rodeo m) visits (plan env fuel fs [] segs) := by
  have hnew : Coherent rodeo env fuel fs (.new rodeo fs) := coherent_new law fs
  obtain ⟨hm, -, hshows⟩ := walk_spec law hnew h.reverse_append_nil hnew.root hw
  exact ⟨hm, hshows⟩

/-- A lookup of the walk is listed exactly if its name is not doubled. -/
theorem visit_listed (law : rodeo.Lawful) {fuel : Nat} {m : ReadOnlyS5Fs β σ} {v : Visit}
    {rev : List String} {s : String} {attr : Nat → FileAttr} {d : DirV1} (hrev : Proper rev)
    (hm : Coherent rodeo env fuel fs m) (hv : Shows rodeo m v (rev, s, attr))
    (hview : view env fuel fs rev = some d) (hfound : (found d s).isSome) :
    (∃ m' entries e, m.readdir env rodeo fuel v.parent 0 = (m', .ok entries) ∧
      entries.filter (·.name = v.name) = [e] ∧ e.inode = v.attr.ino) ↔ ¬ Doubled s (d.entry s) := by
  obtain ⟨c, hc⟩ := hv.cached
  obtain ⟨m', parent, children, hread, hext, hview', hnames, hpaths⟩ :=
    readdir_spec law hm hrev hv.parent hc
  obtain rfl := Option.some.inj (hview.symm.trans hview')
  have hname : v.name = s := hv.name
  rw [← listed_iff v.parent parent hnames hfound, hname]
  constructor
  · rintro ⟨m'', entries, e, hread', hfilter, -⟩
    obtain ⟨-, hentries⟩ := Prod.mk.inj (hread.symm.trans hread')
    exact ⟨e, Except.ok.inj hentries ▸ hfilter⟩
  · rintro ⟨e, hfilter⟩
    refine ⟨m', _, e, hread, hfilter, ?_⟩
    have hdoubled := (listed_iff v.parent parent hnames hfound).1 ⟨e, hfilter⟩
    obtain ⟨hmem, hes⟩ := List.mem_filter.1 (hfilter ▸ List.mem_singleton_self e)
    have hes : e.name = s := of_decide_eq_true hes
    have hdots : s ≠ "." ∧ s ≠ ".." := by
      have hsome := isSome_found.1 hfound
      exact ⟨fun h => hdoubled ⟨hsome, .inl h⟩, fun h => hdoubled ⟨hsome, .inr (.inl h)⟩⟩
    rcases List.mem_cons.1 hmem with rfl | hmem
    · exact absurd hes.symm hdots.1
    · rcases List.mem_cons.1 hmem with rfl | hmem
      · exact absurd hes.symm hdots.2
      · have hpath := hpaths e hmem
        rw [hes] at hpath
        exact law.key_unique hpath (hext _ _ hv.ino)

/-- What a fresh mount shows is what the directories on the way show. -/
theorem mirrors_iff_agree (law : rodeo.Lawful) {path : String} (hproper : Proper (segments path)) :
    Mirrors env rodeo fs path ↔
      Agree env fs.world fs.registryDirHandles fs.root (segments path) := by
  have hfile : ∀ z, (∃ fuel, fileAtEnd (segments path)
      (walk env rodeo fuel (segments path) (.new rodeo fs) 1).2 = some z) ↔
      FileShown env fs.world fs.registryDirHandles fs.root (segments path) z := by
    intro z
    rw [← showsFile_iff hproper]
    refine exists_congr fun fuel => ?_
    generalize hw : walk env rodeo fuel (segments path) (.new rodeo fs) 1 = out
    obtain ⟨m, visits⟩ := out
    exact fileAtEnd_iff (walk_new law hproper hw).2
  have hheld : ∀ z, (∃ f, fs.FileGet env path (some f) ∧ f.size = z) ↔
      ∃ f, Held env fs.world fs.registryDirHandles fs.root (joinPath (segments path)) f ∧ f.size = z := by
    intro z
    simp only [fileGet_held, joinPath_segments]
  constructor
  · rintro ⟨hfiles, hlisted⟩
    refine ⟨fun z => (hfile z).symm.trans ((hfiles z).trans (hheld z)), ?_⟩
    intro pre s post c e hsegs htrail hl hdoubled
    have hpre : Proper pre := (proper_append.1 (hsegs ▸ hproper)).1
    obtain ⟨fuel, d, hv, rfl⟩ := view_of_lists hpre htrail hl
    obtain ⟨attr, hattr⟩ := Option.isSome_iff_exists.1 (isSome_found.2 hdoubled.1)
    generalize hw : walk env rodeo fuel (segments path) (.new rodeo fs) 1 = out
    obtain ⟨m, visits⟩ := out
    obtain ⟨hm, hshows⟩ := walk_new law hproper hw
    have hmem : (pre.reverse ++ [], s, attr) ∈ plan env fuel fs [] (segments path) :=
      mem_plan.2 ⟨pre, post, hsegs, rfl, by rw [hv]; exact hattr⟩
    obtain ⟨v, hvisit, hshow⟩ := exists_of_forall₂ hshows.flip hmem
    exact (visit_listed law hpre.reverse_append_nil hm hshow hv (by rw [hattr]; rfl)).1
      (hlisted fuel m visits hw v hvisit) hdoubled
  · rintro ⟨hfiles, honce⟩
    refine ⟨fun z => (hfile z).trans ((hfiles z).trans (hheld z).symm), ?_⟩
    intro fuel m visits hw v hvisit
    obtain ⟨hm, hshows⟩ := walk_new law hproper hw
    obtain ⟨⟨rev, s, attr⟩, hmem, hshow⟩ := exists_of_forall₂ hshows hvisit
    obtain ⟨pre, post, hsegs, rfl, hbind⟩ := mem_plan.1 hmem
    obtain ⟨d, hv, hattr⟩ := Option.bind_eq_some_iff.1 hbind
    have hpre : Proper pre := (proper_append.1 (hsegs ▸ hproper)).1
    obtain ⟨c, htrail, hl⟩ := lists_of_view hpre hv
    exact (visit_listed law hpre.reverse_append_nil hm hshow hv (by rw [hattr]; rfl)).2
      (honce pre s post c (d.entry s) hsegs htrail (hl s))

/-- **The mount shows the live tree** on a path exactly if nothing on the way makes it differ. -/
theorem tree_mirrors_iff (law : rodeo.Lawful) (fs : FS5 β) {path : String}
    (hpath : "" ∉ segments path) :
    Mirrors env rodeo fs path ↔
      ¬ Differs env fs.world fs.registryDirHandles fs.root (segments path) := by
  have hproper := proper_segments hpath
  rw [mirrors_iff_agree law hproper, agree_iff (segments_ne_nil path) hproper]

end

/-! A file in the root; what is left of one; a file below a directory that is not there; a directory
over a file. -/

section
variable {β : Type} {env : Env β} {w : World β} {a : Actor}

theorem isHome_unsharded (h : a.state.header.shardLevel = none) (n : String) :
    IsHome env w a n a := ⟨[], .unsharded h⟩

theorem lists_unsharded (h : a.state.header.shards = none) {n : String} {e : Entry} :
    Lists env w a n e ↔ e = a.state.entry n := by
  have hnone : a.indices = [] := by simp [indices, h]
  have hopen : ShardsOpen env w 1 a := by
    intro i hi
    rw [hnone] at hi
    cases hi
  have hl : Lists env w a n (a.state.entry n) := ⟨1, hopen, by simp [flatEntry, overShards, hnone]⟩
  constructor
  · exact fun h' => h'.unique hl
  · rintro rfl
    exact hl

end

/-- The file system after a file operation, if the operation gets anywhere. -/
def after (fs : FS5 Sym) (task : FileTask) (path : String) : FS5 Sym :=
  match pathOp (symbolic xxh3Short) (fileOpAt (symbolic xxh3Short) (fun _ _ groups => groups)
      fs.registryDirHandles task) fs.registryDirHandles 2 fs.world fs.root path with
  | some (w, root, _) => ⟨w, root, fs.registryDirHandles⟩
  | none => fs

def afterCreateDir (fs : FS5 Sym) (path : String) : FS5 Sym :=
  match createDir (symbolic xxh3Short) fs.registryDirHandles false 2 fs.world fs.root path with
  | some (w, root, _) => ⟨w, root, fs.registryDirHandles⟩
  | none => fs

/-- A new local root. -/
def newFs : FS5 Sym where
  world := FS5.newLocalWorld (symbolic xxh3Short) 0
  root :=
    { context := .localRoot
      state := .new
      dirty := false
      dirHandles := []
      dirShardHandles := []
      lastSerializedLen := (symbolic xxh3Short).len (.plain .new)
      shardSizeCheckOps := 0 }
  registryDirHandles := []

/-- What a new local root can become, with symbolic bytes. -/
abbrev Reached (fs : FS5 Sym) : Prop := fs.Reached (symbolic xxh3Short) fun _ _ groups => groups

theorem reached_newFs : Reached newFs := by
  have hopen : FS5.openRoot (symbolic xxh3Short) .localRoot (FS5.newLocalWorld (symbolic xxh3Short) 0) =
      .ok newFs := rfl
  exact .opened hopen

theorem Reached.after {fs : FS5 Sym} (h : Reached fs) (task : FileTask) (path : String) :
    Reached (after fs task path) := by
  unfold Fuse.after
  split
  · rename_i hop
    exact h.step (.fileOp task path hop)
  · exact h

theorem Reached.afterCreateDir {fs : FS5 Sym} (h : Reached fs) (path : String) :
    Reached (afterCreateDir fs path) := by
  unfold Fuse.afterCreateDir
  split
  · rename_i hop
    exact h.step (.createDir path false hop)
  · exact h

/-- A new root with the file `path`. -/
def withFile (path : String) : FS5 Sym := after newFs (.put (FileRef.new 1 1)) path

def withTombstone : FS5 Sym := after (withFile "f") .delete "f"

def withBoth : FS5 Sym := afterCreateDir (withFile "x") "x"

/-- The last segment of a path is shown where it is a file of an unsharded directory. -/
theorem not_differs_file {β : Type} {env : Env β} {w : World β} {regs : RegistryDirHandles} {a : Actor}
    (hu : a.Unsharded) {s : String} {f : FileRef} (hdots : s ≠ "." ∧ s ≠ "..") (hd : s ∉ a.state.dirs)
    (hf : a.state.files[s]? = some f) (ht : f.isTombstone = false) : ¬ Differs env w regs a [s] := by
  have hentry : a.state.entry s = (none, some f) := by
    rw [DirV1.entry, ExtTreeMap.getElem?_eq_none hd, hf]
  have hlists : ∀ e, Lists env w a s e ↔ e = (none, some f) := fun e => by
    rw [lists_unsharded hu.shards, hentry]
  have hhome : IsHome env w a s a := isHome_unsharded hu.shardLevel s
  intro hdiff
  cases hdiff with
  | doubled hl hdoubled =>
    obtain rfl := (hlists _).1 hl
    rcases hdoubled.2 with h | h | h
    · exact hdots.1 h
    · exact hdots.2 h
    · cases h.1
  | shown hl hfile =>
    obtain rfl := Option.some.inj (Prod.mk.inj ((hlists _).1 hl)).2
    rcases hfile _ _ hhome hd hf with h | h
    · rw [ht] at h
      cases h
    · exact h rfl
  | hidden hb _ hf' _ hl =>
    obtain rfl := hhome.unique hb
    obtain rfl := Option.some.inj (hf.symm.trans hf')
    exact hl _ ((hlists _).2 rfl) rfl
  | unnamed hs _ =>
    obtain ⟨b, hb, hmem, -⟩ := hs
    exact hd (hhome.unique hb ▸ hmem)

/-- A path through a directory of an unsharded directory is shown as the child shows the rest of it. -/
theorem not_differs_dir {β : Type} {env : Env β} {w : World β} {regs : RegistryDirHandles} {a child : Actor}
    (hu : a.Unsharded) {s t : String} {rest : List String} (hdots : s ≠ "." ∧ s ≠ "..")
    (hd : s ∈ a.state.dirs) (hf : a.state.files[s]? = none) (ho : openDir env w regs a s = .ok child)
    (hchild : ¬ Differs env w regs child (t :: rest)) : ¬ Differs env w regs a (s :: t :: rest) := by
  have hhome : IsHome env w a s a := isHome_unsharded hu.shardLevel s
  intro hdiff
  cases hdiff with
  | doubled hl hdoubled =>
    obtain rfl := (lists_unsharded hu.shards).1 hl
    rcases hdoubled.2 with h | h | h
    · exact hdots.1 h
    · exact hdots.2 h
    · rw [DirV1.entry, hf] at h
      cases h.2
  | spanning hb hnot =>
    obtain rfl := hhome.unique hb
    exact hnot hd
  | unloaded hl => exact hl ((lists_unsharded (n := s) hu.shards).2 rfl).loadable
  | deeper _ hs h =>
    obtain ⟨b, hb, -, ho'⟩ := hs
    obtain rfl := hhome.unique hb
    obtain rfl := Except.ok.inj (ho.symm.trans ho')
    exact hchild h

/-- A new root with a directory that has the file `f`, beside a file. -/
def withDir : FS5 Sym :=
  after (after (afterCreateDir newFs "d") (.put (FileRef.new 1 1)) "d/f") (.put (FileRef.new 2 2)) "e"

theorem tree_mirrors_withDir : Mirrors (symbolic xxh3Short) Interner.ofList withDir "d/f" := by
  rw [tree_mirrors_iff Interner.ofList_lawful _ (by decide +kernel)]
  have hsegs : segments "d/f" = ["d", "f"] := by decide +kernel
  have hroot : withDir.root.Unsharded := ⟨by decide +kernel, by decide +kernel, by decide +kernel⟩
  have hok : (openDir (symbolic xxh3Short) withDir.world withDir.registryDirHandles withDir.root
      "d").toOption.map (fun c => (c.state.header.shardLevel.isNone && c.state.header.shards.isNone &&
        c.dirShardHandles.isEmpty && decide ("f" ∉ c.state.dirs), c.state.files["f"]?)) =
      some (true, some (FileRef.new 1 1)) := by
    decide +kernel
  cases hopen : openDir (symbolic xxh3Short) withDir.world withDir.registryDirHandles withDir.root
      "d" with
  | error e =>
    rw [hopen] at hok
    cases hok
  | ok child =>
    rw [hopen] at hok
    obtain ⟨hflat, hfile⟩ := Prod.mk.inj (Option.some.inj hok)
    simp only [Bool.and_eq_true, Option.isNone_iff_eq_none, List.isEmpty_iff, decide_eq_true_eq] at hflat
    obtain ⟨⟨⟨hlevel, hshards⟩, hhandles⟩, hnodir⟩ := hflat
    rw [hsegs]
    exact not_differs_dir hroot (by decide) (by decide +kernel) (by decide +kernel) hopen
      (not_differs_file ⟨hlevel, hshards, hhandles⟩ (by decide) hnodir hfile rfl)

/-- A deleted file is still shown as a file; a file that has been put below a directory that is not
there is not shown; a directory over a file is listed twice. -/
theorem tree_differs :
    (Reached withTombstone ∧ ¬ Mirrors (symbolic xxh3Short) Interner.ofList withTombstone "f") ∧
    (Reached (withFile "a/b") ∧ ¬ Mirrors (symbolic xxh3Short) Interner.ofList (withFile "a/b") "a/b") ∧
    Reached withBoth ∧ ¬ Mirrors (symbolic xxh3Short) Interner.ofList withBoth "x" := by
  refine ⟨⟨(reached_newFs.after _ _).after _ _, fun h => ?_⟩, ⟨reached_newFs.after _ _, fun h => ?_⟩,
    (reached_newFs.after _ _).afterCreateDir _, fun h => ?_⟩
  · obtain ⟨f, ⟨q, hq, hf⟩, -⟩ := (h.file 1).1 ⟨1, by decide +kernel⟩
    have hlook : (lookup (symbolic xxh3Short) withTombstone.world withTombstone.registryDirHandles 1
        withTombstone.root "f").map live = some none := by
      decide +kernel
    obtain ⟨q', hq', hlive⟩ := Option.map_eq_some_iff.1 hlook
    obtain rfl := hq.unique ⟨1, hq'⟩
    cases hf.trans hlive
  · rw [mirrors_iff_agree Interner.ofList_lawful (proper_segments (by decide +kernel)),
      agree_iff (segments_ne_nil _) (proper_segments (by decide +kernel)),
      show segments "a/b" = ["a", "b"] by decide +kernel] at h
    have hhome : IsHome (symbolic xxh3Short) (withFile "a/b").world (withFile "a/b").root "a"
        (withFile "a/b").root := isHome_unsharded (by decide +kernel) "a"
    have hfile : (withFile "a/b").root.state.files[joinPath ["a", "b"]]? = some (FileRef.new 1 1) := by
      decide +kernel
    exact h (.spanning hhome (by decide +kernel) hfile rfl)
  · rw [mirrors_iff_agree Interner.ofList_lawful (proper_segments (by decide +kernel)),
      agree_iff (segments_ne_nil _) (proper_segments (by decide +kernel)),
      show segments "x" = ["x"] by decide +kernel] at h
    have hboth : (withBoth.root.state.entry "x").1.isSome ∧ (withBoth.root.state.entry "x").2.isSome := by
      decide +kernel
    have hlists : Lists (symbolic xxh3Short) withBoth.world withBoth.root "x"
        (withBoth.root.state.entry "x") := (lists_unsharded (by decide +kernel)).2 rfl
    exact h (.doubled hlists ⟨.inl hboth.1, .inr (.inr hboth)⟩)

end Fuse
