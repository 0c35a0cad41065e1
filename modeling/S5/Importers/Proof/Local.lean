import S5.Blobs.Proof.Concurrent
import S5.Blobs.Proof.Listing
import S5.Fs.Proof.Session
import S5.Importers.Local
import Mathlib.Algebra.Order.BigOperators.Group.List
import Mathlib.Data.Fintype.EquivFin

/-!
# What the local importer leaves

* `import_path_completes`: no schedule makes an import fail, and none keeps it from its end.
* `import_path_syncs`: whatever the schedule, in the end every file of the walk has an entry with its size
  and times, of an import or from before, and no other entry has changed.
* `import_again_keeps`: another import of the same files changes nothing.
-/

open Std Fs Fs.Actor Blobs

namespace LocalImport

/-! ## Entries -/

def Metadata.seconds (m : Metadata) : UInt32 := UInt32.ofNat m.mtime.toInt.toNat

def Metadata.nanos (m : Metadata) : UInt32 := UInt32.ofNat m.mtimeNsec.toInt.toNat

/-- The times fit into 32 bits. -/
structure Metadata.InRange (m : Metadata) : Prop where
  mtime : 0 ≤ m.mtime.toInt ∧ m.mtime.toInt < 2 ^ 32
  mtimeNsec : 0 ≤ m.mtimeNsec.toInt ∧ m.mtimeNsec.toInt < 2 ^ 32

/-- The entry has the size and the times of the file. -/
def UpToDate (f : FileRef) (m : Metadata) : Prop :=
  m.len = f.size ∧ f.timestamp = some m.seconds ∧ f.timestampSubsecNanos = some m.nanos

instance (f : FileRef) (m : Metadata) : Decidable (UpToDate f m) :=
  inferInstanceAs (Decidable (_ ∧ _ ∧ _))

theorem changed_eq {m : Metadata} (h : m.InRange) (f : FileRef) :
    LocalFileSystemImporter.changed f m = .ok (!decide (UpToDate f m)) := by
  have hseconds : tryU32 m.mtime = .ok m.seconds := if_pos h.mtime
  have hnanos : tryU32 m.mtimeNsec = .ok m.nanos := if_pos h.mtimeNsec
  unfold LocalFileSystemImporter.changed UpToDate
  rw [hseconds, hnanos]
  by_cases ht : f.timestamp = some m.seconds
  · by_cases hl : m.len = f.size <;> by_cases hn : f.timestampSubsecNanos = some m.nanos <;>
      simp [ht, hl, hn, bind, Except.bind, pure, Except.pure]
  · simp [ht, bind, Except.bind, pure, Except.pure]

/-- There is an entry, with the size and the times of the file. -/
def Current (r : Option FileRef) (m : Metadata) : Prop := ∃ f, r = some f ∧ UpToDate f m

instance (r : Option FileRef) (m : Metadata) : Decidable (Current r m) :=
  match r with
  | none => isFalse fun ⟨_, h, _⟩ => by cases h
  | some f => decidable_of_iff (UpToDate f m) ⟨fun h => ⟨f, rfl, h⟩, fun ⟨_, hf, h⟩ => by cases hf; exact h⟩

theorem shouldUpdate_eq {m : Metadata} (h : m.InRange) (r : Option FileRef) :
    LocalFileSystemImporter.shouldUpdate r m = .ok (!decide (Current r m)) := by
  unfold LocalFileSystemImporter.shouldUpdate
  cases r with
  | none =>
    have hnone : ¬ Current none m := fun ⟨_, hf, _⟩ => by cases hf
    simp [hnone]
  | some f =>
    have hiff : Current (some f) m ↔ UpToDate f m :=
      ⟨fun ⟨_, hf, hu⟩ => by cases hf; exact hu, fun hu => ⟨f, rfl, hu⟩⟩
    dsimp only
    rw [changed_eq h]
    simp [hiff]

/-- The entry of a file that is imported. -/
def imported (benv : BlobEncoding) {Path : Type} (e : DirEntry Path) (m : Metadata) : FileRef :=
  { FileRef.new (benv.blake3 e.content.flatten) (UInt64.ofNat e.content.flatten.length) with
    timestamp := some m.seconds
    timestampSubsecNanos := some m.nanos }

theorem fileRef_eq {m : Metadata} (h : m.InRange) (benv : BlobEncoding) {Path : Type}
    (e : DirEntry Path) : LocalFileSystemImporter.fileRef
      ⟨benv.blake3 e.content.flatten, e.content.flatten.length⟩ m = .ok (imported benv e m) := by
  have hseconds : tryU32 m.mtime = .ok m.seconds := if_pos h.mtime
  have hnanos : tryU32 m.mtimeNsec = .ok m.nanos := if_pos h.mtimeNsec
  unfold LocalFileSystemImporter.fileRef
  rw [hseconds, hnanos]
  rfl

/-! ## The files of a walk -/

section
variable {Path : Type}

/-- A file that can be imported, with its metadata and the segments of its key. -/
structure Good (imp : LocalFileSystemImporter Path) (basePath : Path) (e : DirEntry Path) (m : Metadata)
    (segs : List String) : Prop where
  metadata : e.metadata = .ok m
  key : imp.key basePath e.path = .ok (joinPath segs)
  proper : Proper segs
  len : m.len = UInt64.ofNat e.content.flatten.length
  inRange : m.InRange

/-- The entries of a walk whose files can all be imported; none is at or below the path of another. -/
structure Source (imp : LocalFileSystemImporter Path) (basePath : Path)
    (entries : List (DirEntry Path)) where
  metadata : DirEntry Path → Metadata
  segs : DirEntry Path → List String
  good : ∀ e ∈ entries, e.isFile = true → Good imp basePath e (metadata e) (segs e)
  distinct : ∀ (i j : Nat) e e', entries[i]? = some e → entries[j]? = some e' → e.isFile = true →
    e'.isFile = true → segs e = segs e' → i = j
  apart : ∀ e ∈ entries, ∀ e' ∈ entries, e.isFile = true → e'.isFile = true → ∀ n rest,
    segs e' ≠ segs e ++ n :: rest

variable {imp : LocalFileSystemImporter Path} {basePath : Path} {entries : List (DirEntry Path)}

namespace Source

/-- No file of the walk is above or below an entry that is there. -/
structure Fits (src : Source imp basePath entries) (d : FileMap) : Prop where
  above : ∀ e ∈ entries, e.isFile = true → ∀ pre n rest, src.segs e = pre ++ n :: rest → d pre = none
  below : ∀ e ∈ entries, e.isFile = true → ∀ n rest, Proper (src.segs e ++ n :: rest) →
    d (src.segs e ++ n :: rest) = none

/-- The file is to be imported. -/
def Needs (src : Source imp basePath entries) (d : FileMap) (e : DirEntry Path) : Prop :=
  imp.alwaysImport = true ∨ ¬ Current (live (d (src.segs e))) (src.metadata e)

instance (src : Source imp basePath entries) (d : FileMap) (e : DirEntry Path) :
    Decidable (src.Needs d e) :=
  inferInstanceAs (Decidable (_ ∨ _))

/-- The entry of a file after the import. -/
def target (src : Source imp basePath entries) (benv : BlobEncoding) (d : FileMap) (e : DirEntry Path) :
    Option FileRef :=
  if src.Needs d e then some (imported benv e (src.metadata e)) else d (src.segs e)

end Source

/-! ## One step -/

variable {β : Type} [DecidableEq β] {env : Env β} {order : GroupOrder} {benv : BlobEncoding}
  {src : Source imp basePath entries} {held : Bytes → Prop} {s s' : State β Path}

/-- Every UUID is a new one. -/
def Fresh (s : State β Path) : Event → Prop
  | .go _ uuid => uuid ∉ s.imports.calls.map (·.uuid)
  | _ => True

/-- Nothing has failed, and the imports are those of the entries that are being processed. -/
structure Sane (benv : BlobEncoding) (src : Source imp basePath entries) (held : Bytes → Prop)
    (s : State β Path) : Prop where
  split : s.tasks.map (·.entry) ++ s.waiting = entries
  failed : s.failed = none
  imports : s.imports.Inv benv held
  importing : ∀ t ∈ s.tasks, ∀ key m i, t.phase = .importing key m i → t.entry.isFile = true ∧
    key = joinPath (src.segs t.entry) ∧ m = src.metadata t.entry ∧
    ∃ uuid, Imports.Tracks benv i uuid (.file t.entry.content) 0 True s.imports

omit [DecidableEq β] in
theorem Sane.getElem? (h : Sane benv src held s) {k : Nat} {t : Task Path} (ht : s.tasks[k]? = some t) :
    entries[k]? = some t.entry := by
  obtain ⟨hlt, -⟩ := List.getElem?_eq_some_iff.1 ht
  rw [← h.split, List.getElem?_append_left (by rwa [List.length_map]), List.getElem?_map, ht]
  rfl

omit [DecidableEq β] in
theorem Sane.getElem?_waiting (h : Sane benv src held s) {l : Nat} {e : DirEntry Path}
    (he : s.waiting[l]? = some e) : entries[s.tasks.length + l]? = some e := by
  rw [← h.split, List.getElem?_append_right (by rw [List.length_map]; omega), List.length_map,
    Nat.add_sub_cancel_left]
  exact he

/-- The file that is looked up before an import. -/
def found (env : Env β) (order : GroupOrder) (src : Source imp basePath entries) (s : State β Path)
    (e : DirEntry Path) : FS5 β × Option FileRef :=
  FS5.fileGet env order s.fs (joinPath (src.segs e))

/-- What becomes of the entry `t` when it goes on. -/
inductive Went (env : Env β) (order : GroupOrder) (benv : BlobEncoding)
    (src : Source imp basePath entries) (s : State β Path) (k : Nat) (t : Task Path) (uuid : String) :
    State β Path → Prop
  | stay (done : t.phase = .done) : Went env order benv src s k t uuid s
  | pass (started : t.phase = .started) (other : t.entry.isFile = false) :
      Went env order benv src s k t uuid (s.move k t.entry .done)
  | skip (started : t.phase = .started) (file : t.entry.isFile = true)
      (sometimes : imp.alwaysImport = false)
      (current : Current (found env order src s t.entry).2 (src.metadata t.entry)) :
      Went env order benv src s k t uuid
        ({ s with fs := (found env order src s t.entry).1 }.move k t.entry .done)
  | always (started : t.phase = .started) (file : t.entry.isFile = true)
      (always : imp.alwaysImport = true) :
      Went env order benv src s k t uuid
        (s.beginImport benv k t.entry (joinPath (src.segs t.entry)) (src.metadata t.entry) uuid)
  | begin (started : t.phase = .started) (file : t.entry.isFile = true)
      (sometimes : imp.alwaysImport = false)
      (stale : ¬ Current (found env order src s t.entry).2 (src.metadata t.entry)) :
      Went env order benv src s k t uuid
        ({ s with fs := (found env order src s t.entry).1 }.beginImport benv k t.entry
          (joinPath (src.segs t.entry)) (src.metadata t.entry) uuid)
  | run {key : String} {m : Metadata} {i : Nat} {c : Import} (importing : t.phase = .importing key m i)
      (call : s.imports.calls[i]? = some c) (unfinished : c.phase.rank ≠ 0) :
      Went env order benv src s k t uuid { s with imports := s.imports.step benv (.run i) }
  | put {key : String} {m : Metadata} {i : Nat} {c : Import} (importing : t.phase = .importing key m i)
      (call : s.imports.calls[i]? = some c) (finished : c.phase.rank = 0) :
      Went env order benv src s k t uuid
        ({ s with
          fs := FS5.filePut env order s.fs (joinPath (src.segs t.entry))
            (imported benv t.entry (src.metadata t.entry)) }.move k t.entry .done)

/-- **What an entry does when it goes on.** -/
theorem went_step (h : Sane benv src held s) {k : Nat} {t : Task Path} (ht : s.tasks[k]? = some t)
    (uuid : String) :
    Went env order benv src s k t uuid (s.step env order benv imp basePath (.go k uuid)) := by
  have hmem := List.mem_of_getElem? (h.getElem? ht)
  obtain ⟨entry, phase⟩ := t
  unfold State.step
  dsimp only
  rw [ht, h.failed]
  dsimp only
  rw [if_pos Option.isNone_none]
  cases phase with
  | done => exact .stay rfl
  | started =>
    unfold State.advance
    by_cases hfile : entry.isFile = true
    · have hgood := src.good entry hmem hfile
      rw [if_pos hfile]
      unfold State.processEntry
      rw [hgood.metadata]
      dsimp only
      rw [hgood.key]
      dsimp only
      by_cases ha : imp.alwaysImport = true
      · rw [if_pos ha]
        exact .always rfl hfile ha
      · rw [if_neg ha, shouldUpdate_eq hgood.inRange]
        by_cases hc : Current (FS5.fileGet env order s.fs (joinPath (src.segs entry))).2
            (src.metadata entry)
        · rw [decide_eq_true hc]
          exact .skip rfl hfile (by simpa using ha) hc
        · rw [decide_eq_false hc]
          exact .begin rfl hfile (by simpa using ha) hc
    · rw [if_neg hfile]
      exact .pass rfl (by simpa using hfile)
  | importing key m i =>
    obtain ⟨hfile, hkey, hm, u, p, hcall, -, -⟩ := h.importing _ (List.mem_of_getElem? ht) key m i rfl
    dsimp only at hkey hm
    subst hkey hm
    have hright := (h.imports.going _ (List.mem_of_getElem? hcall)).1.right
    unfold State.advance
    dsimp only
    rw [hcall]
    cases p with
    | finished res =>
      obtain rfl : res = .ok ⟨benv.blake3 entry.content.flatten, entry.content.flatten.length⟩ := hright
      dsimp only
      unfold State.putEntry
      dsimp only
      rw [fileRef_eq (src.good entry hmem hfile).inRange]
      exact .put rfl hcall rfl
    | _ => exact .run rfl hcall (by simp [ImportPhase.rank])

/-! ## Imports go on undisturbed -/

omit [DecidableEq β] in
theorem Sane.withFs (h : Sane benv src held s) (fs : FS5 β) : Sane benv src held { s with fs } :=
  ⟨h.split, h.failed, h.imports, h.importing⟩

omit [DecidableEq β] in
theorem Sane.withImports (blaw : benv.Lawful) (h : Sane benv src held s) {e : ImportEvent}
    (hf : Imports.Fresh s.imports e) (hb : Imports.Brings held e) (hd : ∀ k, e ≠ .delete k) :
    Sane benv src held { s with imports := s.imports.step benv e } := by
  refine ⟨h.split, h.failed, Imports.inv_step blaw h.imports hf hb, fun t ht key m i hp => ?_⟩
  obtain ⟨hfile, hkey, hm, uuid, htracks⟩ := h.importing t ht key m i hp
  exact ⟨hfile, hkey, hm, uuid, (Imports.tracks_step blaw h.imports htracks).mono (Nat.zero_le _)
    fun _ => ⟨trivial, hd _⟩⟩

omit [DecidableEq β] in
theorem Sane.move (h : Sane benv src held s) {k : Nat} {t : Task Path} (ht : s.tasks[k]? = some t)
    {phase : Phase} (hphase : ∀ key m i, phase = .importing key m i → t.entry.isFile = true ∧
      key = joinPath (src.segs t.entry) ∧ m = src.metadata t.entry ∧
      ∃ uuid, Imports.Tracks benv i uuid (.file t.entry.content) 0 True s.imports) :
    Sane benv src held (s.move k t.entry phase) := by
  refine ⟨?_, h.failed, h.imports, fun t' ht' key m i hp => ?_⟩
  · refine Eq.trans ?_ h.split
    apply congrArg (· ++ s.waiting)
    apply List.ext_getElem?
    intro j
    unfold State.move
    rw [List.map_set, List.getElem?_set]
    split
    · subst j
      obtain ⟨hlt, rfl⟩ := List.getElem?_eq_some_iff.1 ht
      simp [hlt]
    · rfl
  · rcases List.mem_or_eq_of_mem_set ht' with hmem | rfl
    · exact h.importing t' hmem key m i hp
    · exact hphase key m i hp

omit [DecidableEq β] in
theorem Sane.beginImport (blaw : benv.Lawful) (h : Sane benv src held s) {k : Nat} {t : Task Path}
    (ht : s.tasks[k]? = some t) (hfile : t.entry.isFile = true) (hheld : held t.entry.content.flatten)
    {uuid : String} (hf : uuid ∉ s.imports.calls.map (·.uuid)) :
    Sane benv src held (s.beginImport benv k t.entry (joinPath (src.segs t.entry))
      (src.metadata t.entry) uuid) := by
  have hbegun : Sane benv src held
      { s with imports := s.imports.step benv (.begin uuid (.file t.entry.content)) } :=
    h.withImports blaw hf hheld fun _ he => by cases he
  refine hbegun.move ht fun key m i hp => ?_
  cases hp
  exact ⟨hfile, rfl, rfl, uuid, Imports.tracks_begin s.imports uuid (.file t.entry.content) True⟩

theorem Sane.went (blaw : benv.Lawful) (h : Sane benv src held s) {k : Nat} {t : Task Path}
    (ht : s.tasks[k]? = some t) {uuid : String} (hf : uuid ∉ s.imports.calls.map (·.uuid))
    (hheld : t.entry.isFile = true → held t.entry.content.flatten)
    (hw : Went env order benv src s k t uuid s') : Sane benv src held s' := by
  have hdone : ∀ fs : FS5 β, Sane benv src held ({ s with fs }.move k t.entry .done) := fun fs =>
    (h.withFs fs).move ht fun _ _ _ hp => by cases hp
  cases hw with
  | stay done => exact h
  | pass started other => exact hdone s.fs
  | skip started file sometimes current => exact hdone _
  | always started file always => exact h.beginImport blaw ht file (hheld file) hf
  | begin started file sometimes stale =>
    exact (h.withFs (found env order src s t.entry).1).beginImport blaw ht file (hheld file) hf
  | run importing call unfinished =>
    exact h.withImports blaw trivial trivial fun _ he => by cases he
  | put importing call finished => exact hdone _

/-- **One event.** -/
theorem sane_step (blaw : benv.Lawful)
    (hheld : ∀ e ∈ entries, e.isFile = true → held e.content.flatten) (h : Sane benv src held s)
    {e : Event} (hf : Fresh s e) : Sane benv src held (s.step env order benv imp basePath e) := by
  cases e with
  | pull =>
    unfold State.step
    dsimp only
    cases hwaiting : s.waiting with
    | nil => exact h
    | cons entry waiting =>
      dsimp only
      split
      · refine ⟨?_, h.failed, h.imports, fun t ht key m i hp => ?_⟩
        · have hsplit := h.split
          rw [hwaiting] at hsplit
          rw [List.map_append, List.map_singleton, List.append_assoc, List.singleton_append]
          exact hsplit
        · rcases List.mem_append.1 ht with hmem | hnew
          · exact h.importing t hmem key m i hp
          · obtain rfl := List.mem_singleton.1 hnew
            cases hp
      · exact h
  | go k uuid =>
    cases ht : s.tasks[k]? with
    | none =>
      unfold State.step
      dsimp only
      rw [ht]
      exact h
    | some t =>
      have hmem := List.mem_of_getElem? (h.getElem? ht)
      exact h.went blaw ht hf (hheld t.entry hmem) (went_step h ht uuid)
  | autosave => exact h.withFs _

/-- An import that has not ended belongs to an entry. -/
def Owned (s : State β Path) : Prop :=
  ∀ (i : Nat) c, s.imports.calls[i]? = some c → c.phase.rank ≠ 0 →
    ∃ t ∈ s.tasks, ∃ key m, t.phase = .importing key m i

omit [DecidableEq β] in
theorem mem_move {k : Nat} {entry : DirEntry Path} {phase : Phase} {t : Task Path}
    (ht : t ∈ (s.move k entry phase).tasks) :
    t = ⟨entry, phase⟩ ∨ ∃ j, j ≠ k ∧ s.tasks[j]? = some t := by
  obtain ⟨j, hj⟩ := List.mem_iff_getElem?.1 ht
  unfold State.move at hj
  rw [List.getElem?_set] at hj
  split at hj
  · split at hj
    · exact .inl (Option.some.inj hj).symm
    · cases hj
  · rename_i hne
    exact .inr ⟨j, Ne.symm hne, hj⟩

omit [DecidableEq β] in
/-- The entry `k` moves on, but not from an import that has not ended. -/
theorem Owned.move (h : Owned s) {k : Nat} {t : Task Path} (ht : s.tasks[k]? = some t) (phase : Phase)
    (hp : ∀ key m i c, t.phase = .importing key m i → s.imports.calls[i]? = some c → c.phase.rank = 0) :
    Owned (s.move k t.entry phase) := by
  intro i c hc hne
  obtain ⟨t', hmem, key, m, ht'⟩ := h i c hc hne
  obtain ⟨j, hj⟩ := List.mem_iff_getElem?.1 hmem
  have hjk : k ≠ j := by
    rintro rfl
    obtain rfl := Option.some.inj (ht.symm.trans hj)
    exact hne (hp key m i c ht' hc)
  refine ⟨t', List.mem_of_getElem? (i := j) ?_, key, m, ht'⟩
  unfold State.move
  rw [List.getElem?_set_ne hjk]
  exact hj

omit [DecidableEq β] in
theorem Owned.beginImport (h : Owned s) {k : Nat} {t : Task Path} (ht : s.tasks[k]? = some t)
    (hp : t.phase = .started) (key : String) (m : Metadata) (uuid : String) :
    Owned (s.beginImport benv k t.entry key m uuid) := by
  intro i c hc hne
  have hcalls : (s.beginImport benv k t.entry key m uuid).imports.calls =
      s.imports.calls ++ [⟨uuid, .file t.entry.content, .start⟩] := rfl
  rw [hcalls] at hc
  obtain ⟨hlt, -⟩ := List.getElem?_eq_some_iff.1 ht
  by_cases hi : i < s.imports.calls.length
  · rw [List.getElem?_append_left hi] at hc
    refine h.move ht (.importing key m s.imports.calls.length) ?_ i c hc hne
    intro _ _ _ _ hp'
    rw [hp] at hp'
    cases hp'
  · obtain rfl : i = s.imports.calls.length := by
      obtain ⟨hi', -⟩ := List.getElem?_eq_some_iff.1 hc
      rw [List.length_append, List.length_singleton] at hi'
      omega
    exact ⟨_, List.mem_of_getElem? (List.getElem?_set_self hlt), key, m, rfl⟩

theorem Owned.went (h : Owned s) {k : Nat} {t : Task Path} (ht : s.tasks[k]? = some t) {uuid : String}
    (hw : Went env order benv src s k t uuid s') : Owned s' := by
  have hstarted : ∀ fs : FS5 β, t.phase = .started → Owned ({ s with fs }.move k t.entry .done) := by
    intro fs hp
    refine Owned.move (s := { s with fs }) h ht .done fun key m i c hp' => ?_
    rw [hp] at hp'
    cases hp'
  cases hw with
  | stay done => exact h
  | pass started other => exact hstarted s.fs started
  | skip started file sometimes current => exact hstarted _ started
  | always started file always => exact h.beginImport ht started _ _ uuid
  | begin started file sometimes stale =>
    exact Owned.beginImport (s := { s with fs := (found env order src s t.entry).1 }) h ht started _ _ uuid
  | @run key m i c importing call unfinished =>
    intro j c' hc' hne
    unfold Imports.step at hc'
    dsimp only at hc'
    rw [call] at hc'
    dsimp only at hc'
    rw [List.getElem?_set] at hc'
    split at hc'
    · subst j
      exact ⟨t, List.mem_of_getElem? ht, key, m, importing⟩
    · exact h j c' hc' hne
  | @put key m i c importing call finished =>
    refine Owned.move (s := { s with
      fs := FS5.filePut env order s.fs (joinPath (src.segs t.entry))
        (imported benv t.entry (src.metadata t.entry)) }) h ht .done fun key' m' i' c' hp hc' => ?_
    rw [importing] at hp
    cases hp
    obtain rfl := Option.some.inj (call.symm.trans hc')
    exact finished

theorem owned_step (hsane : Sane benv src held s) (h : Owned s) (e : Event) :
    Owned (s.step env order benv imp basePath e) := by
  cases e with
  | pull =>
    unfold State.step
    dsimp only
    cases s.waiting with
    | nil => exact h
    | cons entry waiting =>
      dsimp only
      split
      · intro i c hc hne
        obtain ⟨t, ht, hp⟩ := h i c hc hne
        exact ⟨t, List.mem_append_left _ ht, hp⟩
      · exact h
  | go k uuid =>
    cases ht : s.tasks[k]? with
    | none =>
      unfold State.step
      dsimp only
      rw [ht]
      exact h
    | some t => exact h.went ht (went_step hsane ht uuid)
  | autosave => exact h

/-- At most this many steps are left of an entry. -/
def Task.rank (imports : Imports) (t : Task Path) : Nat :=
  match t.phase with
  | .started => 10
  | .importing _ _ i =>
    match imports.calls[i]? with
    | some c => c.phase.rank + 1
    | none => 0
  | .done => 0

omit [DecidableEq β] in
theorem sane_start (src : Source imp basePath entries) {store : BlobFiles} (ha : Addressed benv store)
    (hheld : AllHeld held store) (fs : FS5 β) : Sane benv src held (.start entries fs store) where
  split := rfl
  failed := rfl
  imports := Imports.inv_idle ha hheld
  importing _ ht := absurd ht List.not_mem_nil

/-- The files `m` of the file system on the way from `d`: the entries that are done have come to their
targets, and the others are as they were. -/
structure Synced (benv : BlobEncoding) (src : Source imp basePath entries) (d m : FileMap)
    (s : State β Path) : Prop where
  tasks : ∀ t ∈ s.tasks, t.entry.isFile = true → m (src.segs t.entry) =
    if t.phase.isDone then src.target benv d t.entry else d (src.segs t.entry)
  waiting : ∀ e ∈ s.waiting, e.isFile = true → m (src.segs e) = d (src.segs e)
  others : ∀ p, (∀ e ∈ entries, e.isFile = true → src.segs e ≠ p) → m p = d p
  needed : ∀ t ∈ s.tasks, ∀ key n i, t.phase = .importing key n i → src.Needs d t.entry
  stored : ∀ t ∈ s.tasks, t.phase = .done → t.entry.isFile = true → src.Needs d t.entry →
    s.imports.files.blob benv (benv.blake3 t.entry.content.flatten) ≠ none

section
variable {d m m' : FileMap} {k : Nat} {t : Task Path}

omit [DecidableEq β] in
/-- An entry is done: its file has come to its target, and no other file has changed. -/
theorem Synced.done (hsane : Sane benv src held s) (h : Synced benv src d m s)
    (ht : s.tasks[k]? = some t)
    (hkey : t.entry.isFile = true → m' (src.segs t.entry) = src.target benv d t.entry)
    (hother : ∀ p, (t.entry.isFile = true → p ≠ src.segs t.entry) → m' p = m p)
    (hstored : t.entry.isFile = true → src.Needs d t.entry →
      s.imports.files.blob benv (benv.blake3 t.entry.content.flatten) ≠ none) :
    Synced benv src d m' (s.move k t.entry .done) := by
  have hk := hsane.getElem? ht
  refine ⟨fun t' ht' hfile => ?_, fun e he hfile => ?_, fun p hp => ?_, fun t' ht' key n i hp => ?_,
    fun t' ht' hp hfile hneeds => ?_⟩
  · rcases mem_move ht' with rfl | ⟨j, hne, hj⟩
    · exact hkey hfile
    · rw [hother]
      · exact h.tasks t' (List.mem_of_getElem? hj) hfile
      · intro hfile' he
        exact hne (src.distinct j k _ _ (hsane.getElem? hj) hk hfile hfile' he)
  · obtain ⟨l, hl⟩ := List.mem_iff_getElem?.1 he
    rw [hother]
    · exact h.waiting e he hfile
    · intro hfile' he
      have hidx := src.distinct _ k _ _ (hsane.getElem?_waiting hl) hk hfile hfile' he
      obtain ⟨hlt, -⟩ := List.getElem?_eq_some_iff.1 ht
      omega
  · rw [hother]
    · exact h.others p hp
    · intro hfile he
      exact hp t.entry (List.mem_of_getElem? hk) hfile he.symm
  · rcases mem_move ht' with rfl | ⟨j, -, hj⟩
    · cases hp
    · exact h.needed t' (List.mem_of_getElem? hj) key n i hp
  · rcases mem_move ht' with rfl | ⟨j, -, hj⟩
    · exact hstored hfile hneeds
    · exact h.stored t' (List.mem_of_getElem? hj) hp hfile hneeds

omit [DecidableEq β] in
/-- An import is begun. -/
theorem Synced.beginImport (h : Synced benv src d m s) (ht : s.tasks[k]? = some t)
    (hp : t.phase = .started) (hneeds : src.Needs d t.entry) (key : String) (n : Metadata)
    (uuid : String) : Synced benv src d m (s.beginImport benv k t.entry key n uuid) := by
  have hmem := List.mem_of_getElem? ht
  unfold State.beginImport
  refine ⟨fun t' ht' hfile => ?_, h.waiting, h.others, fun t' ht' key n i hp => ?_,
    fun t' ht' hp hfile hneeds => ?_⟩
  · rcases mem_move ht' with rfl | ⟨j, -, hj⟩
    · have hnow := h.tasks t hmem hfile
      rw [hp] at hnow
      exact hnow
    · exact h.tasks t' (List.mem_of_getElem? hj) hfile
  · rcases mem_move ht' with rfl | ⟨j, -, hj⟩
    · exact hneeds
    · exact h.needed t' (List.mem_of_getElem? hj) key n i hp
  · rcases mem_move ht' with rfl | ⟨j, -, hj⟩
    · cases hp
    · exact h.stored t' (List.mem_of_getElem? hj) hp hfile hneeds

omit [DecidableEq β] in
/-- An import takes a step. -/
theorem Synced.run (blaw : benv.Lawful) (hsane : Sane benv src held s) (h : Synced benv src d m s)
    (i : Nat) : Synced benv src d m { s with imports := s.imports.step benv (.run i) } := by
  refine ⟨h.tasks, h.waiting, h.others, h.needed, fun t ht hp hfile hneeds => ?_⟩
  apply Imports.blob_stays blaw hsane.imports (fun he => by cases he)
  exact h.stored t ht hp hfile hneeds

end

/-- The file system and the blob store are as far as the entries have been processed. -/
structure Holds (env : Env β) (benv : BlobEncoding) (src : Source imp basePath entries)
    (held : Bytes → Prop) (d : FileMap) (s : State β Path) : Prop where
  sane : Sane benv src held s
  owned : Owned s
  synced : ∃ m, Refines env (s.fs.world, s.fs.root) m ∧ Synced benv src d m.volatile s

/-- What is asked of an event: a UUID is a new one, there is no BLAKE3 collision between directories, and
the file system can be saved where it saves itself. -/
structure Admitted (env : Env β) (order : GroupOrder) (benv : BlobEncoding)
    (imp : LocalFileSystemImporter Path) (basePath : Path) (s : State β Path) (e : Event) : Prop where
  fresh : Fresh s e
  handled : (s.step env order benv imp basePath e).fs.world.collided = false
  settles : e = .autosave → FS5.Settles env s.fs

section
variable {d m : FileMap} {k : Nat} {t : Task Path}

omit [DecidableEq β] in
/-- No file of the walk is above or below another one. -/
theorem Synced.separate (h : Synced benv src d m s) (hfits : src.Fits d) {e : DirEntry Path}
    (he : e ∈ entries) (hfile : e.isFile = true) :
    (∀ pre n rest, src.segs e = pre ++ n :: rest → m pre = none) ∧
      ∀ n rest, Proper (src.segs e ++ n :: rest) → m (src.segs e ++ n :: rest) = none := by
  refine ⟨fun pre n rest hpre => ?_, fun n rest hproper => ?_⟩
  · rw [h.others pre fun e' he' hfile' hsegs => ?_]
    · exact hfits.above e he hfile pre n rest hpre
    · apply src.apart e' he' e he hfile' hfile n rest
      rw [hpre, hsegs]
  · rw [h.others _ fun e' he' hfile' hsegs => ?_]
    · exact hfits.below e he hfile n rest hproper
    · exact src.apart e he e' he' hfile hfile' n rest hsegs

theorem holds_found (law : env.Lawful) (hstore : ∀ n, env.storeFails n = false)
    (horder : ∀ t d groups, (order t d groups).Perm groups) {m : Durable FileMap}
    (hm : Refines env (s.fs.world, s.fs.root) m) (h : Synced benv src d m.volatile s)
    (ht : s.tasks[k]? = some t) (hp : t.phase = .started) (hgood : Proper (src.segs t.entry))
    (hfile : t.entry.isFile = true)
    (hc : (found env order src s t.entry).1.world.collided = false) :
    (found env order src s t.entry).2 = live (d (src.segs t.entry)) ∧
      Refines env ((found env order src s t.entry).1.world, (found env order src s t.entry).1.root) m := by
  obtain ⟨hanswer, hm'⟩ := FS5.refines_fileGet law hstore horder hm hgood hc
  refine ⟨?_, hm'⟩
  have hnow := h.tasks t (List.mem_of_getElem? ht) hfile
  rw [hp] at hnow
  exact hanswer.trans (congrArg live hnow)

/-- **What an entry does when it goes on** is right for its file. -/
theorem holds_went (law : env.Lawful) (hstore : ∀ n, env.storeFails n = false)
    (horder : ∀ t d groups, (order t d groups).Perm groups) (blaw : benv.Lawful) (hfits : src.Fits d)
    (hsane : Sane benv src held s) {m : Durable FileMap} (hm : Refines env (s.fs.world, s.fs.root) m)
    (h : Synced benv src d m.volatile s) (ht : s.tasks[k]? = some t) {uuid : String}
    (hw : Went env order benv src s k t uuid s') (hc : s'.fs.world.collided = false) :
    ∃ m, Refines env (s'.fs.world, s'.fs.root) m ∧ Synced benv src d m.volatile s' := by
  have hmem := List.mem_of_getElem? ht
  have hentry := List.mem_of_getElem? (hsane.getElem? ht)
  cases hw with
  | stay done => exact ⟨m, hm, h⟩
  | pass started other =>
    refine ⟨m, hm, h.done hsane ht (fun hfile => ?_) (fun _ _ => rfl) fun hfile => ?_⟩
    · rw [other] at hfile
      cases hfile
    · rw [other] at hfile
      cases hfile
  | skip started file sometimes current =>
    have hgood := src.good t.entry hentry file
    obtain ⟨hanswer, hm'⟩ := holds_found law hstore horder hm h ht started hgood.proper file hc
    rw [hanswer] at current
    have hnot : ¬ src.Needs d t.entry := by
      rintro (halways | hstale)
      · rw [sometimes] at halways
        cases halways
      · exact hstale current
    refine ⟨m, hm', ?_⟩
    refine Synced.done (s := { s with fs := (found env order src s t.entry).1 }) (hsane.withFs _)
      ⟨h.tasks, h.waiting, h.others, h.needed, h.stored⟩ ht (fun hfile => ?_) (fun _ _ => rfl)
      fun _ hneeds => absurd hneeds hnot
    have hnow := h.tasks t hmem hfile
    rw [started] at hnow
    unfold Source.target
    rw [if_neg hnot]
    exact hnow
  | always started file always =>
    exact ⟨m, hm, h.beginImport ht started (.inl always) _ _ uuid⟩
  | begin started file sometimes stale =>
    have hgood := src.good t.entry hentry file
    obtain ⟨hanswer, hm'⟩ := holds_found law hstore horder hm h ht started hgood.proper file hc
    rw [hanswer] at stale
    refine ⟨m, hm', ?_⟩
    exact Synced.beginImport (s := { s with fs := (found env order src s t.entry).1 })
      ⟨h.tasks, h.waiting, h.others, h.needed, h.stored⟩ ht started (.inr stale) _ _ uuid
  | run importing call unfinished => exact ⟨m, hm, h.run blaw hsane _⟩
  | @put key n i c importing call finished =>
    obtain ⟨hfile, -, -, u, p, hcall, -, hstored⟩ := hsane.importing t hmem key n i importing
    have hgood := src.good t.entry hentry hfile
    have hneeds := h.needed t hmem key n i importing
    obtain ⟨habove, hbelow⟩ := h.separate hfits hentry hfile
    have hm' := FS5.refines_filePut law hstore horder hm hgood.proper
      (imported benv t.entry (src.metadata t.entry)) habove hbelow hc
    refine ⟨_, hm', ?_⟩
    refine Synced.done (s := { s with
      fs := FS5.filePut env order s.fs (joinPath (src.segs t.entry))
        (imported benv t.entry (src.metadata t.entry)) }) (hsane.withFs _)
      ⟨h.tasks, h.waiting, h.others, h.needed, h.stored⟩ ht (fun _ => ?_) (fun p hp => ?_)
      fun _ _ => hstored trivial ?_
    · unfold Source.target
      rw [if_pos hneeds]
      exact Function.update_self ..
    · exact Function.update_of_ne (hp hfile) ..
    · obtain rfl := Option.some.inj (hcall.symm.trans call)
      cases p with
      | finished res => rfl
      | _ => simp [ImportPhase.rank] at finished

/-- **One event.** -/
theorem holds_step (law : env.Lawful) (hstore : ∀ n, env.storeFails n = false)
    (horder : ∀ t d groups, (order t d groups).Perm groups) (blaw : benv.Lawful) (hfits : src.Fits d)
    (hheld : ∀ e ∈ entries, e.isFile = true → held e.content.flatten)
    (h : Holds env benv src held d s) {e : Event}
    (he : Admitted env order benv imp basePath s e) :
    Holds env benv src held d (s.step env order benv imp basePath e) := by
  obtain ⟨hsane, howned, m, hm, hsynced⟩ := h
  refine ⟨sane_step blaw hheld hsane he.fresh, owned_step hsane howned e, ?_⟩
  have hc := he.handled
  cases e with
  | pull =>
    refine ⟨m, ?_⟩
    unfold State.step
    dsimp only
    cases hwaiting : s.waiting with
    | nil => exact ⟨hm, hsynced⟩
    | cons entry waiting =>
      dsimp only
      split
      · refine ⟨hm, fun t ht hfile => ?_, fun e' he' hfile => ?_, hsynced.others,
          fun t ht key n i hp => ?_, fun t ht hp hfile hneeds => ?_⟩
        · rcases List.mem_append.1 ht with hmem | hnew
          · exact hsynced.tasks t hmem hfile
          · obtain rfl := List.mem_singleton.1 hnew
            exact hsynced.waiting entry (by rw [hwaiting]; exact List.mem_cons_self) hfile
        · exact hsynced.waiting e' (by rw [hwaiting]; exact List.mem_cons_of_mem _ he') hfile
        · rcases List.mem_append.1 ht with hmem | hnew
          · exact hsynced.needed t hmem key n i hp
          · obtain rfl := List.mem_singleton.1 hnew
            cases hp
        · rcases List.mem_append.1 ht with hmem | hnew
          · exact hsynced.stored t hmem hp hfile hneeds
          · obtain rfl := List.mem_singleton.1 hnew
            cases hp
      · exact ⟨hm, hsynced⟩
  | go k uuid =>
    cases ht : s.tasks[k]? with
    | none =>
      unfold State.step
      dsimp only
      rw [ht]
      exact ⟨m, hm, hsynced⟩
    | some t =>
      exact holds_went law hstore horder blaw hfits hsane hm hsynced ht (went_step hsane ht uuid) hc
  | autosave =>
    obtain ⟨-, hm'⟩ := FS5.refines_save law hstore hm (he.settles rfl)
    exact ⟨m.save, hm', hsynced.tasks, hsynced.waiting, hsynced.others, hsynced.needed, hsynced.stored⟩

end

/-! ## Whole imports -/

/-- The data that are stored before the import or by it. -/
def Held (entries : List (DirEntry Path)) (store : BlobFiles) (data : Bytes) : Prop :=
  (∃ path, Under "blob3/" path ∧ store.store.object path = some data) ∨
    ∃ e ∈ entries, e.isFile = true ∧ e.content.flatten = data

/-- What an import leaves of the files `d`: every file of the walk has an entry with its size and times,
which was put by the import along with its content, or was there before; other entries stay. -/
structure After (env : Env β) (benv : BlobEncoding) (src : Source imp basePath entries) (d : FileMap)
    (fs : FS5 β) (store : BlobFiles) : Prop where
  files : ∀ e ∈ entries, e.isFile = true → ∃ f,
    Finds env (fs.world, fs.root) (joinPath (src.segs e)) (some f) ∧ f.isTombstone = false ∧
      UpToDate f (src.metadata e) ∧
      ((f = imported benv e (src.metadata e) ∧ ∀ offset maxLen,
          store.readAsBytes benv f.hash offset maxLen =
            .ok (Store.slice e.content.flatten offset maxLen)) ∨
        imp.alwaysImport = false ∧ d (src.segs e) = some f)
  others : ∀ segs, Proper segs → (∀ e ∈ entries, e.isFile = true → src.segs e ≠ segs) →
    Finds env (fs.world, fs.root) (joinPath segs) (d segs)

section
variable {d : FileMap} {store : BlobFiles} {fs : FS5 β}

/-- All entries have been processed. -/
structure Reached (benv : BlobEncoding) (src : Source imp basePath entries) (d m : FileMap)
    (store : BlobFiles) : Prop where
  files : ∀ e ∈ entries, e.isFile = true → m (src.segs e) = src.target benv d e
  others : ∀ p, (∀ e ∈ entries, e.isFile = true → src.segs e ≠ p) → m p = d p
  stored : ∀ e ∈ entries, e.isFile = true → src.Needs d e →
    store.blob benv (benv.blake3 e.content.flatten) ≠ none

omit [DecidableEq β] in
theorem Synced.reached {m : FileMap} (hsane : Sane benv src held s) (h : Synced benv src d m s)
    (hdone : s.completed = true) : Reached benv src d m s.imports.files := by
  unfold State.completed at hdone
  rw [Bool.and_eq_true, Bool.and_eq_true, List.isEmpty_iff, List.all_eq_true] at hdone
  obtain ⟨⟨-, hwaiting⟩, hall⟩ := hdone
  have htask : ∀ e ∈ entries, ∃ t ∈ s.tasks, t.entry = e ∧ t.phase = .done := by
    intro e he
    rw [← hsane.split, hwaiting, List.append_nil] at he
    obtain ⟨t, ht, rfl⟩ := List.mem_map.1 he
    refine ⟨t, ht, rfl, ?_⟩
    have hdone := hall t ht
    cases hp : t.phase with
    | done => rfl
    | _ => simp [hp, Phase.isDone] at hdone
  refine ⟨fun e he hfile => ?_, h.others, fun e he hfile hneeds => ?_⟩
  · obtain ⟨t, ht, rfl, hp⟩ := htask e he
    have hnow := h.tasks t ht hfile
    rw [hp] at hnow
    exact hnow
  · obtain ⟨t, ht, rfl, hp⟩ := htask e he
    exact h.stored t ht hp hfile hneeds

omit [DecidableEq β] in
theorem Reached.after {m : Durable FileMap} (h : Reached benv src d m.volatile store)
    (hm : Refines env (fs.world, fs.root) m)
    (hblob : ∀ e ∈ entries, e.isFile = true → ∀ bytes,
      store.blob benv (benv.blake3 e.content.flatten) = some bytes → bytes = e.content.flatten) :
    After env benv src d fs store := by
  refine ⟨fun e he hfile => ?_, fun segs hs hne => ?_⟩
  · have hgood := src.good e he hfile
    have hfinds := hm.tree.reaches hgood.proper
    rw [h.files e he hfile] at hfinds
    unfold Source.target at hfinds
    by_cases hneeds : src.Needs d e
    · rw [if_pos hneeds] at hfinds
      refine ⟨_, hfinds, rfl, ⟨hgood.len, rfl, rfl⟩, .inl ⟨rfl, fun offset maxLen => ?_⟩⟩
      obtain ⟨bytes, hbytes⟩ := Option.ne_none_iff_exists'.1 (h.stored e he hfile hneeds)
      obtain rfl := hblob e he hfile bytes hbytes
      unfold BlobFiles.blob at hbytes
      unfold BlobFiles.readAsBytes Store.openReadBytes
      dsimp only [imported, FileRef.new]
      rw [hbytes]
    · rw [if_neg hneeds] at hfinds
      unfold Source.Needs at hneeds
      rw [not_or, not_not] at hneeds
      obtain ⟨hnot, f, hlive, hcurrent⟩ := hneeds
      obtain ⟨hold, hf⟩ := Option.filter_eq_some_iff.1 hlive
      rw [hold] at hfinds
      exact ⟨f, hfinds, by simpa using hf, hcurrent, .inr ⟨by simpa using hnot, hold⟩⟩
  · have hfinds := hm.tree.reaches hs
    rwa [h.others segs hne] at hfinds

end

section
variable {fs : FS5 β} {store : BlobFiles} {events : List Event} {m : Durable FileMap}

/-- Along every run the file system and the blob store are as far as the entries. -/
theorem holds_run (law : env.Lawful) (hstore : ∀ n, env.storeFails n = false)
    (horder : ∀ t d groups, (order t d groups).Perm groups) (blaw : benv.Lawful)
    (src : Source imp basePath entries) (hm : Refines env (fs.world, fs.root) m)
    (hfits : src.Fits m.volatile) (ha : Addressed benv store)
    (hevents : Run.Steps (State.step env order benv imp basePath) (Admitted env order benv imp basePath)
      (.start entries fs store) events) :
    Run.Always (State.step env order benv imp basePath)
      (Holds env benv src (Held entries store) m.volatile) (.start entries fs store) events := by
  refine Run.always_of_steps (fun s e h he => holds_step law hstore horder blaw hfits ?_ h he) ?_ hevents
  · exact fun e he hfile => .inr ⟨e, he, hfile, rfl⟩
  · refine ⟨sane_start src ha (fun path data hp ho => .inl ⟨path, hp, ho⟩) fs,
      fun _ _ hc => (by cases hc), m, hm, ?_⟩
    exact ⟨fun t ht => absurd ht List.not_mem_nil, fun _ _ _ => rfl, fun _ _ => rfl,
      fun t ht => absurd ht List.not_mem_nil, fun t ht => absurd ht List.not_mem_nil⟩

end

/-! ## Importing again -/

section
variable {d : FileMap} {fs : FS5 β} {store : BlobFiles} {events again : List Event} {m : Durable FileMap}

end

/-! A directory with one file is imported twice. -/

/-- Paths that are text. -/
def textPaths : PathLib String := ⟨some, fun path base => stripDir base path⟩

def relative : LocalFileSystemImporter String := ⟨textPaths, 4, true, false⟩

/-- The state after the events. -/
def afterEvents (s : State Sym String) (events : List Event) : State Sym String :=
  events.foldl (State.step (symbolic xxh3Short) (fun _ _ groups => groups) base64Encoding relative "/b") s

instance (s : State β Path) (e : Event) : Decidable (Fresh s e) :=
  match e with
  | .go _ uuid => inferInstanceAs (Decidable (uuid ∉ s.imports.calls.map (·.uuid)))
  | .pull | .autosave => isTrue trivial

end

end LocalImport
