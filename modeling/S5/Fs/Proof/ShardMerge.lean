import S5.Fs.Proof.ShardLookup

/-!
# Merging into a sharded directory

A snapshot is merged into a sharded directory bucket by bucket. `mergedEntry` says what the flat
view of the directory holds under one name afterwards (`mergeSnapshot_entry`), `flatEntry` what it
holds before (`exportMergedSnapshot_entry`).

* `merge_refines_iff`: the merge gives the flat view that merging into the flat view gives, exactly
  when every name of the snapshot is `NameKept`: a missing bucket loses nothing if the local entry is
  no older, and an existing one takes the entry as the flat view does unless another place of the
  directory holds the name (`frontEntry`, `behindEntry`).
-/

open Std

namespace Fs

/-! ## Entries -/

/-- What a directory holds under one name. -/
abbrev Entry := Option DirRef × Option FileRef

def DirV1.entry (d : DirV1) (n : String) : Entry := (d.dirs[n]?, d.files[n]?)

/-- The entry `hi` in front of the entry `lo`. -/
def Entry.over (lo hi : Entry) : Entry := (hi.1.or lo.1, hi.2.or lo.2)

/-- Last-write-wins between a local and a remote entry. -/
def lwwEntry (e r : Entry) : Entry :=
  ((lww ⟨e.1, e.2, false⟩ r.1 r.2).dir, (lww ⟨e.1, e.2, false⟩ r.1 r.2).file)

@[simp]
theorem Entry.over_none (e : Entry) : Entry.over e (none, none) = e := rfl

@[simp]
theorem Entry.none_over (e : Entry) : Entry.over (none, none) e = e := by
  simp [Entry.over]

@[simp]
theorem lwwEntry_none (e : Entry) : lwwEntry e (none, none) = e := rfl

theorem mergeEntriesLocal_entry (d : DirV1) (dirs : ExtTreeMap String DirRef)
    (files : ExtTreeMap String FileRef) (n : String) :
    ((mergeEntriesLocal d dirs files).dirs[n]?, (mergeEntriesLocal d dirs files).files[n]?) =
      lwwEntry (d.entry n) (dirs[n]?, files[n]?) := by
  have h := mergeEntriesLocal_at d dirs files n
  have hd := congrArg Named.dir h
  have hf := congrArg Named.file h
  simp only [Merging.at] at hd hf
  rw [hd, hf]
  rfl

/-! ## Which entry is newer -/

theorem Entry.over_assoc (a b c : Entry) : (a.over b).over c = a.over (b.over c) := by
  simp only [Entry.over, Option.or_assoc]

/-- A remote entry of time `t` is newer than the local one of time `rival`, if there is one. -/
def newer (t : Nat) (rival : Option Nat) : Bool := rival.all (· < t)

/-- The time that decides against a remote directory: the local file's, else the directory's. -/
def Entry.dirRival (e : Entry) : Option Nat := (e.2.map fileTs).or (e.1.map dirTs)

/-- The time that decides against a remote file: the local directory's, else the file's. -/
def Entry.fileRival (e : Entry) : Option Nat := (e.1.map dirTs).or (e.2.map fileTs)

/-- What of the remote entry `r` is new enough to take the place of the local entry `e`. Directories
come first, so a remote file meets the remote directory where that has been taken. -/
def taken (e r : Entry) : Option Entry :=
  let dir := r.1.filter fun d => newer (dirTs d) e.dirRival
  match r.2 with
  | none => dir.map fun d => (some d, none)
  | some f =>
    if newer (fileTs f) (match dir with
      | some d => some (dirTs d)
      | none => e.fileRival) then some (none, some f)
    else dir.map fun d => (some d, none)

@[simp]
theorem newer_none (t : Nat) : newer t none = true := rfl

theorem newer_some {t s : Nat} : newer t (some s) = true ↔ s < t := decide_eq_true_iff

theorem lwwDir_entry (s : Named) (d : DirRef) :
    ((lwwDir s d).dir, (lwwDir s d).file) =
      if newer (dirTs d) (Entry.dirRival (s.dir, s.file)) then (some d, none)
      else (s.dir, s.file) := by
  obtain ⟨dir, file, dropped⟩ := s
  unfold lwwDir Entry.dirRival
  cases file with
  | some f =>
    simp only [Option.map_some, Option.some_or, newer_some]
    split <;> rfl
  | none =>
    cases dir with
    | some l =>
      simp only [Option.map_some, Option.map_none, Option.none_or, newer_some]
      split <;> rfl
    | none => rfl

theorem lwwFile_entry (s : Named) (f : FileRef) :
    ((lwwFile s f).dir, (lwwFile s f).file) =
      if newer (fileTs f) (Entry.fileRival (s.dir, s.file)) then (none, some f)
      else (s.dir, s.file) := by
  obtain ⟨dir, file, dropped⟩ := s
  unfold lwwFile Entry.fileRival
  cases dir with
  | some l =>
    simp only [Option.map_some, Option.some_or, newer_some]
    split <;> rfl
  | none =>
    cases file with
    | some l =>
      simp only [Option.map_some, Option.map_none, Option.none_or, newer_some]
      split <;> rfl
    | none => rfl

/-- Last-write-wins keeps the local entry or replaces it as a whole. -/
theorem lwwEntry_eq (e r : Entry) : lwwEntry e r = (taken e r).getD e := by
  obtain ⟨rd, rf⟩ := r
  unfold lwwEntry lww taken
  cases rd with
  | none =>
    cases rf with
    | none => rfl
    | some f =>
      dsimp only [Option.filter_none]
      rw [lwwFile_entry]
      dsimp only
      split <;> rfl
  | some d =>
    have hdir := lwwDir_entry ⟨e.1, e.2, false⟩ d
    dsimp only at hdir
    cases hd : newer (dirTs d) (Entry.dirRival (e.1, e.2)) with
    | true =>
      rw [hd, if_pos rfl] at hdir
      cases rf with
      | none => simp only [hdir, Option.filter_some, hd, if_true, Option.map_some, Option.getD_some]
      | some f =>
        dsimp only
        rw [lwwFile_entry, hdir]
        -- the remote file meets the remote directory
        have hrival : Entry.fileRival (some d, none) = some (dirTs d) := rfl
        simp only [Option.filter_some, hd, if_true, ← hrival]
        split <;> simp only [*, Option.map_some, Option.getD_some]
    | false =>
      rw [hd, if_neg Bool.false_ne_true] at hdir
      cases rf with
      | none => simp only [hdir, Option.filter_some, hd, Bool.false_eq_true, if_false, Option.map_none,
          Option.getD_none]
      | some f =>
        dsimp only
        rw [lwwFile_entry, hdir]
        simp only [Option.filter_some, hd, Bool.false_eq_true, if_false, Option.map_none]
        split <;> rfl

/-- What is taken is the directory or the file of `r`, and that is newer. -/
theorem taken_some {e r x : Entry} (h : taken e r = some x) :
    (∃ d, r.1 = some d ∧ x = (some d, none) ∧ newer (dirTs d) e.dirRival) ∨
      ∃ f, r.2 = some f ∧ x = (none, some f) ∧
        ((∃ d, newer (dirTs d) e.dirRival ∧ dirTs d < fileTs f) ∨ newer (fileTs f) e.fileRival) := by
  obtain ⟨rd, rf⟩ := r
  have hdir : ∀ {x}, ((rd.filter fun d => newer (dirTs d) e.dirRival).map fun d =>
      ((some d, none) : Entry)) = some x →
      ∃ d, rd = some d ∧ x = (some d, none) ∧ newer (dirTs d) e.dirRival := by
    intro x h
    obtain ⟨d, hd, rfl⟩ := Option.map_eq_some_iff.1 h
    obtain ⟨hd, hnew⟩ := Option.filter_eq_some_iff.1 hd
    exact ⟨d, hd, rfl, hnew⟩
  unfold taken at h
  cases rf with
  | none => exact .inl (hdir h)
  | some f =>
    dsimp only at h
    cases hd : rd.filter fun d => newer (dirTs d) e.dirRival with
    | none =>
      rw [hd] at h hdir
      dsimp only at h
      by_cases hf : newer (fileTs f) e.fileRival = true
      · rw [if_pos hf] at h
        exact .inr ⟨f, rfl, (Option.some.inj h).symm, .inr hf⟩
      · rw [if_neg hf] at h
        exact .inl (hdir h)
    | some d =>
      rw [hd] at h hdir
      dsimp only at h
      by_cases hf : newer (fileTs f) (some (dirTs d)) = true
      · rw [if_pos hf] at h
        exact .inr ⟨f, rfl, (Option.some.inj h).symm,
          .inl ⟨d, (Option.filter_eq_some_iff.1 hd).2, newer_some.1 hf⟩⟩
      · rw [if_neg hf] at h
        exact .inl (hdir h)

/-- Nothing takes its own place. -/
theorem taken_ne {e r x : Entry} (h : taken e r = some x) : e ≠ x := by
  rintro rfl
  rcases taken_some h with ⟨d, -, rfl, hd⟩ | ⟨f, -, rfl, ⟨d, hd, hf⟩ | hf⟩
  · exact Nat.lt_irrefl _ (newer_some.1 hd)
  · exact Nat.lt_asymm hf (newer_some.1 hd)
  · exact Nat.lt_irrefl _ (newer_some.1 hf)

theorem lwwEntry_eq_self {e r : Entry} : lwwEntry e r = e ↔ taken e r = none := by
  rw [lwwEntry_eq]
  cases h : taken e r with
  | none => simp
  | some x => simpa using (taken_ne h).symm


/-- Merging `r` into `leaf`, with `behind` behind it and `front` in front of it, shows what merging
`r` into the three together gives. -/
def LeafKept (behind leaf front r : Entry) : Prop :=
  match taken leaf r, taken ((behind.over leaf).over front) r with
  -- `r` is no newer than the leaf's entry, and no newer than the one that shows
  | none, none => True
  -- a newer entry at the leaf keeps `r` out, though an older one shows in front of it
  | none, some _ => False
  -- only the leaf's entry is older: what it takes from `r` must not show
  | some x, none =>
    (front.1 = none → x.1.or behind.1 = leaf.1.or behind.1) ∧
      (front.2 = none → x.2.or behind.2 = leaf.2.or behind.2)
  -- both are older: nothing else may show beside what is taken
  | some x, some y => x = y ∧
    (front.1 = none ∨ front.1 = x.1) ∧ (front.2 = none ∨ front.2 = x.2) ∧
      (x.1 = none → behind.1 = none) ∧ (x.2 = none → behind.2 = none)

/-- Two entries that can be taken from one remote entry are the same or of different kinds. -/
theorem taken_or {e e' r x y : Entry} (hx : taken e r = some x) (hy : taken e' r = some y) :
    x = y ∨ (x.1.isSome ∧ y.1 = none) ∨ (x.2.isSome ∧ y.2 = none) := by
  rcases taken_some hx with ⟨d, hd, rfl, -⟩ | ⟨f, hf, rfl, -⟩
  · rcases taken_some hy with ⟨d', hd', rfl, -⟩ | ⟨f', -, rfl, -⟩
    · obtain rfl := Option.some.inj (hd.symm.trans hd')
      exact .inl rfl
    · exact .inr (.inl ⟨rfl, rfl⟩)
  · rcases taken_some hy with ⟨d', -, rfl, -⟩ | ⟨f', hf', rfl, -⟩
    · exact .inr (.inr ⟨rfl, rfl⟩)
    · obtain rfl := Option.some.inj (hf.symm.trans hf')
      exact .inl rfl

/-- An entry shows alone if what is in front of it is the same and what is behind it is of its kind. -/
theorem shows_alone {behind x front : Entry} :
    (behind.over x).over front = x ↔ (front.1 = none ∨ front.1 = x.1) ∧
      (front.2 = none ∨ front.2 = x.2) ∧
      (x.1 = none → behind.1 = none) ∧ (x.2 = none → behind.2 = none) := by
  obtain ⟨bd, bf⟩ := behind
  obtain ⟨xd, xf⟩ := x
  obtain ⟨fd, ff⟩ := front
  simp only [Entry.over, Prod.mk.injEq]
  cases fd <;> cases xd <;> cases ff <;> cases xf <;> simp [and_comm]

theorem leafKept_iff {behind leaf front r : Entry} :
    LeafKept behind leaf front r ↔
      (behind.over (lwwEntry leaf r)).over front = lwwEntry ((behind.over leaf).over front) r := by
  rw [lwwEntry_eq leaf r, lwwEntry_eq ((behind.over leaf).over front) r]
  unfold LeafKept
  cases hl : taken leaf r with
  | none =>
    cases hs : taken ((behind.over leaf).over front) r with
    | none => exact iff_of_true trivial rfl
    | some y => exact iff_of_false id (taken_ne hs)
  | some x =>
    cases hs : taken ((behind.over leaf).over front) r with
    | none =>
      simp only [Option.getD_some, Option.getD_none, Entry.over, Prod.mk.injEq]
      cases front.1 <;> cases front.2 <;> simp
    | some y =>
      simp only [Option.getD_some]
      -- what the leaf takes shows in any case, so it has to be what the flat view takes
      have hshow : ∀ {α : Type} {f x b : Option α}, x.isSome → f.or (x.or b) ≠ none := by
        intro α f x b hx
        obtain ⟨v, rfl⟩ := Option.isSome_iff_exists.1 hx
        cases f <;> simp
      rcases taken_or hl hs with rfl | ⟨hx, hy⟩ | ⟨hx, hy⟩
      · rw [shows_alone, and_iff_right rfl]
      · refine iff_of_false (fun h => ?_) fun h => hshow hx ((congrArg Prod.fst h).trans hy)
        rw [h.1, hy] at hx
        cases hx
      · refine iff_of_false (fun h => ?_) fun h => hshow hx ((congrArg Prod.snd h).trans hy)
        rw [h.1, hy] at hx
        cases hx

namespace Actor

theorem addEntries_entry (d part : DirV1) (n : String) :
    (addEntries d part).entry n = (d.entry n).over (part.entry n) := by
  simp only [addEntries, DirV1.entry, Entry.over, ExtTreeMap.getElem?_union]

/-- The indices of the shards, in order. -/
def indices (a : Actor) : List UInt8 :=
  match a.state.header.shards with
  | some shards => shards.keys
  | none => []

theorem mem_indices {a : Actor} {i : UInt8} : i ∈ a.indices ↔ (a.shardRef i).isSome := by
  unfold indices shardRef
  cases a.state.header.shards with
  | none => simp
  | some shards => rw [ExtTreeMap.mem_keys, ExtTreeMap.mem_iff_isSome_getElem?, Option.bind_some]

/-! ## The flat view -/

section
variable {β : Type} (env : Env β) (w : World β)

/-- A sharded directory whose shards can all be opened, to a depth below `fuel`. -/
def Intact : Nat → Actor → Prop
  | 0, _ => False
  | fuel + 1, a =>
    (∀ level, a.state.header.shardLevel = some level → level ≤ maxShardLevel) ∧
      ∀ i ∈ a.indices, ∃ child, openDirShard env w a i = .ok child ∧ Intact fuel child

/-- The shards' entries, each given by `f`, in front of `e`. -/
def overShards (a : Actor) (f : UInt8 → Actor → Entry) (e : Entry) : Entry :=
  a.indices.foldl (fun e i => match openDirShard env w a i with
    | .ok child => e.over (f i child)
    | .error _ => e) e

/-- The entry of the flat view: the shards' entries in front of the directory's own. -/
def flatEntry : Nat → Actor → String → Entry
  | 0, _, _ => (none, none)
  | fuel + 1, a, n => overShards env w a (fun _ child => flatEntry fuel child n) (a.state.entry n)

/-- The entry of the flat view after `r` has been merged under its name. -/
def mergedEntry : Nat → Actor → String → Entry → Entry
  | 0, _, _, _ => (none, none)
  | fuel + 1, a, n, r =>
    match a.state.header.shardLevel with
    | none =>
      overShards env w a (fun _ child => flatEntry env w fuel child n) (lwwEntry (a.state.entry n) r)
    | some level =>
      overShards env w a (fun i child =>
        if shardIndex env n level = i then mergedEntry fuel child n r
        else flatEntry env w fuel child n) (a.state.entry n)

variable {env w}

theorem mergedEntry_none (fuel : Nat) (a : Actor) (n : String) :
    mergedEntry env w fuel a n (none, none) = flatEntry env w fuel a n := by
  induction fuel generalizing a with
  | zero => rfl
  | succ fuel ih =>
    rw [mergedEntry, flatEntry]
    cases a.state.header.shardLevel with
    | none => rfl
    | some level => simp only [ih, ite_self]

/-- The shards' entries where all shards open. -/
theorem overShards_eq {a : Actor} {f : UInt8 → Actor → Entry} {g : UInt8 → Entry} {e : Entry}
    (h : ∀ i ∈ a.indices, ∃ child, openDirShard env w a i = .ok child ∧ f i child = g i) :
    overShards env w a f e = a.indices.foldl (fun e i => e.over (g i)) e := by
  unfold overShards
  refine List.foldl_ext _ _ e fun e' i hi => ?_
  obtain ⟨child, ho, hf⟩ := h i hi
  simp only [ho, hf]

/-- The flat view of a directory whose shards can be exported. -/
theorem export_of_children {fuel : Nat} {a : Actor} {g : UInt8 → String → Entry}
    (h : ∀ i ∈ a.indices, ∃ child part, openDirShard env w a i = .ok child ∧
      exportMergedSnapshot env w fuel child = .ok part ∧ ∀ n, part.entry n = g i n) :
    ∃ d, exportMergedSnapshot env w (fuel + 1) a = .ok d ∧
      ∀ n, d.entry n = a.indices.foldl (fun e i => e.over (g i n)) (a.state.entry n) := by
  have hfold : ∀ (is : List UInt8) (d0 : DirV1), (∀ i ∈ is, i ∈ a.indices) →
      ∃ d, is.foldlM (fun merged index => do
          let child ← openDirShard env w a index
          let part ← exportMergedSnapshot env w fuel child
          return addEntries merged part) d0 = Except.ok d ∧
        ∀ n, d.entry n = is.foldl (fun e i => e.over (g i n)) (d0.entry n) := by
    intro is
    induction is with
    | nil => exact fun d0 _ => ⟨d0, rfl, fun n => rfl⟩
    | cons i is ih =>
      intro d0 hmem
      obtain ⟨child, part, ho, hp, hg⟩ := h i (hmem i List.mem_cons_self)
      obtain ⟨d, hd, he⟩ := ih (addEntries d0 part) fun j hj => hmem j (List.mem_cons_of_mem _ hj)
      refine ⟨d, ?_, fun n => ?_⟩
      · rw [List.foldlM_cons]
        simp only [ho, hp, bind, Except.bind, pure, Except.pure]
        exact hd
      · rw [he n, List.foldl_cons, addEntries_entry, hg n]
  obtain ⟨d, hd, he⟩ := hfold a.indices a.state fun _ h => h
  refine ⟨{ d with header.shardLevel := none, header.shards := none }, ?_, he⟩
  unfold exportMergedSnapshot
  show (a.indices.foldlM _ a.state >>= _) = _
  rw [hd]
  rfl

/-- An intact directory has a flat view. -/
theorem exportMergedSnapshot_entry {fuel : Nat} {a : Actor} (h : Intact env w fuel a) :
    ∃ d, exportMergedSnapshot env w fuel a = .ok d ∧ ∀ n, d.entry n = flatEntry env w fuel a n := by
  induction fuel generalizing a with
  | zero => exact h.elim
  | succ fuel ih =>
    have hch : ∀ i ∈ a.indices, ∃ child part, openDirShard env w a i = .ok child ∧
        exportMergedSnapshot env w fuel child = .ok part ∧
        ∀ n, part.entry n = match openDirShard env w a i with
          | .ok child => flatEntry env w fuel child n
          | .error _ => (none, none) := by
      intro i hi
      obtain ⟨child, ho, hc⟩ := h.2 i hi
      obtain ⟨part, hp, he⟩ := ih hc
      exact ⟨child, part, ho, hp, fun n => by rw [ho]; exact he n⟩
    obtain ⟨d, hd, he⟩ := export_of_children hch
    refine ⟨d, hd, fun n => ?_⟩
    rw [he n, flatEntry]
    refine (overShards_eq fun i hi => ?_).symm
    obtain ⟨child, ho, -⟩ := h.2 i hi
    exact ⟨child, ho, by rw [ho]⟩

/-! ## The merge -/

/-- Opening a shard looks at the shard handles, the context and the shard table only. -/
theorem openDirShard_congr {a b : Actor} (hh : a.dirShardHandles = b.dirShardHandles)
    (hc : a.context = b.context) (hs : a.state.header.shards = b.state.header.shards)
    (hl : a.state.header.shardLevel = b.state.header.shardLevel) (i : UInt8) :
    openDirShard env w a i = openDirShard env w b i := by
  simp only [openDirShard, shardLink, hh, hc, hs, hl]

theorem openDirShard_keepShard (a child : Actor) (i j : UInt8) :
    openDirShard env w (a.keepShard i child) j =
      if j = i then .ok child else openDirShard env w a j := by
  by_cases hj : j = i
  · simp [openDirShard, keepShard, hj]
  · have hb : (j == i) = false := beq_eq_false_iff_ne.2 hj
    have hlook : (a.keepShard i child).dirShardHandles.lookup j = a.dirShardHandles.lookup j := by
      simp only [keepShard, List.lookup_cons, hb]
      exact lookup_filter_ne hj _
    simp only [openDirShard, hlook, if_neg hj]
    rfl

/-- The loop over the buckets merges into the shards that exist and leaves the others. -/
theorem mergeBuckets_spec {merge : Actor → DirV1 → Actor × Except String Unit}
    {part : UInt8 → DirV1} (is : List UInt8) (hnd : is.Nodup) {a : Actor}
    (h : ∀ i ∈ is, i ∈ a.indices → ∃ child child', openDirShard env w a i = .ok child ∧
      merge child (part i) = (child', .ok ())) :
    ∃ a', mergeBuckets env merge w part is a = (a', .ok ()) ∧ a'.state = a.state ∧
      a'.context = a.context ∧
      (∀ i ∈ is, i ∈ a.indices → Occupied (part i) → ∃ child child',
        openDirShard env w a i = .ok child ∧ merge child (part i) = (child', .ok ()) ∧
        openDirShard env w a' i = .ok child') ∧
      ∀ i, ¬ (i ∈ is ∧ i ∈ a.indices ∧ Occupied (part i)) →
        openDirShard env w a' i = openDirShard env w a i := by
  induction is generalizing a with
  | nil => exact ⟨a, rfl, rfl, rfl, by simp, fun _ _ => rfl⟩
  | cons index rest ih =>
    obtain ⟨hnot, hnd⟩ := List.nodup_cons.1 hnd
    have hrest : ∀ i ∈ rest, i ∈ a.indices → ∃ child child', openDirShard env w a i = .ok child ∧
        merge child (part i) = (child', .ok ()) :=
      fun i hi => h i (List.mem_cons_of_mem _ hi)
    unfold mergeBuckets
    split
    · -- nothing comes in for this bucket
      rename_i hempty
      obtain ⟨a', hrun, hs, hc, hin, hout⟩ := ih hnd hrest
      refine ⟨a', hrun, hs, hc, fun i hi hind hocc => ?_, fun i hi => hout i fun h => ?_⟩
      · rcases List.mem_cons.1 hi with rfl | hi
        · exact absurd hempty hocc
        · exact hin i hi hind hocc
      · exact hi ⟨List.mem_cons_of_mem _ h.1, h.2⟩
    · rename_i hocc
      cases href : a.state.header.shards.bind (·[index]?) with
      | none =>
        -- no such shard: what came in for it is dropped
        have hni : index ∉ a.indices := by
          rw [mem_indices, shardRef, href]
          simp
        obtain ⟨a', hrun, hs, hc, hin, hout⟩ := ih hnd hrest
        refine ⟨a', hrun, hs, hc, fun i hi hind hocc => ?_, fun i hi => hout i fun h => ?_⟩
        · rcases List.mem_cons.1 hi with rfl | hi
          · exact absurd hind hni
          · exact hin i hi hind hocc
        · exact hi ⟨List.mem_cons_of_mem _ h.1, h.2⟩
      | some ref =>
        have hi : index ∈ a.indices := mem_indices.2 (by rw [shardRef, href]; rfl)
        obtain ⟨child, child', ho, hm⟩ := h index List.mem_cons_self hi
        simp only [ho, hm]
        have hkeep : ∀ j, j ≠ index →
            openDirShard env w (a.keepShard index child') j = openDirShard env w a j := by
          intro j hj
          rw [openDirShard_keepShard, if_neg hj]
        have hrest' : ∀ i ∈ rest, i ∈ (a.keepShard index child').indices → ∃ c c',
            openDirShard env w (a.keepShard index child') i = .ok c ∧
              merge c (part i) = (c', .ok ()) := by
          intro i hi hind
          rw [hkeep i fun h => hnot (h ▸ hi)]
          exact hrest i hi hind
        obtain ⟨a', hrun, hs, hc, hin, hout⟩ := ih hnd hrest'
        refine ⟨a', hrun, hs, hc, fun i hi hind hocc => ?_, fun i hi => ?_⟩
        · rcases List.mem_cons.1 hi with rfl | hi
          · refine ⟨child, child', ho, hm, (hout i fun h => hnot h.1).trans ?_⟩
            rw [openDirShard_keepShard, if_pos rfl]
          · obtain ⟨c, c', hoc, hmc, hoc'⟩ := hin i hi hind hocc
            rw [hkeep i fun h => hnot (h ▸ hi)] at hoc
            exact ⟨c, c', hoc, hmc, hoc'⟩
        · have hne : i ≠ index := by
            rintro rfl
            exact hi ⟨List.mem_cons_self, by assumption, hocc⟩
          rw [hout i fun h => hi ⟨List.mem_cons_of_mem _ h.1, h.2⟩, hkeep i hne]

theorem entry_shardState {d : DirV1} {level i : UInt8} {n : String} :
    (shardState env d level i).entry n =
      if shardIndex env n level = i then d.entry n else (none, none) := by
  simp only [DirV1.entry, shardState_dirs_getElem?, shardState_files_getElem?]
  split
  · rfl
  · rfl

/-- **What a merge leaves under each name.** -/
theorem mergeSnapshot_entry {fuel : Nat} {a : Actor} (h : Intact env w fuel a) (snapshot : DirV1) :
    ∃ a' d, mergeSnapshot env w fuel a snapshot = (a', .ok ()) ∧
      exportMergedSnapshot env w fuel a' = .ok d ∧
      ∀ n, d.entry n = mergedEntry env w fuel a n (snapshot.entry n) := by
  induction fuel generalizing a snapshot with
  | zero => exact h.elim
  | succ fuel ih =>
    unfold mergeSnapshot
    cases hl : a.state.header.shardLevel with
    | none =>
      -- an unsharded directory: its own entries are merged, its shards (if any) stay
      let a' : Actor := ((a.mergeLocal snapshot).mergeHeader snapshot.header).markAsDirty
      have hopen : ∀ i, openDirShard env w a' i = openDirShard env w a i :=
        openDirShard_congr rfl rfl rfl rfl
      have hch : ∀ i ∈ a'.indices, ∃ child part, openDirShard env w a' i = .ok child ∧
          exportMergedSnapshot env w fuel child = .ok part ∧
          ∀ n, part.entry n = match openDirShard env w a i with
            | .ok child => flatEntry env w fuel child n
            | .error _ => (none, none) := by
        intro i hi
        obtain ⟨child, ho, hc⟩ := h.2 i hi
        obtain ⟨part, hp, he⟩ := exportMergedSnapshot_entry hc
        exact ⟨child, part, (hopen i).trans ho, hp, fun n => by rw [ho]; exact he n⟩
      obtain ⟨d, hd, he⟩ := export_of_children hch
      refine ⟨a', d, rfl, hd, fun n => ?_⟩
      have hentry : a'.state.entry n = lwwEntry (a.state.entry n) (snapshot.entry n) :=
        mergeEntriesLocal_entry a.state snapshot.dirs snapshot.files n
      rw [he n, mergedEntry, hl, hentry]
      refine (overShards_eq fun i hi => ?_).symm
      obtain ⟨child, ho, -⟩ := h.2 i hi
      exact ⟨child, ho, by rw [ho]⟩
    | some level =>
      have hle : ¬ maxShardLevel < level := UInt8.not_lt.2 (h.1 level hl)
      simp only [mergeSnapshotIntoShards, hle, false_and, if_false]
      have hmerge : ∀ i ∈ buckets, i ∈ a.indices → ∃ child child',
          openDirShard env w a i = .ok child ∧
            mergeSnapshot env w fuel child (shardState env snapshot level i) = (child', .ok ()) := by
        intro i _ hi
        obtain ⟨child, ho, hchild⟩ := h.2 i hi
        obtain ⟨child', d, hm, -, -⟩ := ih hchild (shardState env snapshot level i)
        exact ⟨child, child', ho, hm⟩
      obtain ⟨a1, hrun, hs, hc, hin, hout⟩ := @mergeBuckets_spec _ env w (mergeSnapshot env w fuel)
        (shardState env snapshot level) buckets buckets_nodup a hmerge
      rw [hrun]
      let a' : Actor := (a1.mergeHeader snapshot.header).markAsDirty
      have hopen : ∀ i, openDirShard env w a' i = openDirShard env w a1 i :=
        openDirShard_congr rfl rfl rfl rfl
      have hind : a'.indices = a.indices := by
        show a1.indices = a.indices
        simp only [indices, hs]
      have hch : ∀ i ∈ a'.indices, ∃ child part, openDirShard env w a' i = .ok child ∧
          exportMergedSnapshot env w fuel child = .ok part ∧
          ∀ n, part.entry n = match openDirShard env w a i with
            | .ok child =>
              if shardIndex env n level = i then mergedEntry env w fuel child n (snapshot.entry n)
              else flatEntry env w fuel child n
            | .error _ => (none, none) := by
        intro i hi
        rw [hind] at hi
        by_cases hocc : Occupied (shardState env snapshot level i)
        · obtain ⟨child, child', ho, hm, ho'⟩ := hin i (mem_buckets i) hi hocc
          obtain ⟨c, hoc, hchild⟩ := h.2 i hi
          obtain rfl := Except.ok.inj (ho.symm.trans hoc)
          obtain ⟨c', part, hm', hp, he⟩ := ih hchild (shardState env snapshot level i)
          obtain rfl := (Prod.mk.inj (hm.symm.trans hm')).1
          refine ⟨child', part, (hopen i).trans ho', hp, fun n => ?_⟩
          rw [he n, entry_shardState, ho]
          dsimp only
          split
          · rfl
          · exact mergedEntry_none fuel child n
        · obtain ⟨child, ho, hchild⟩ := h.2 i hi
          obtain ⟨part, hp, he⟩ := exportMergedSnapshot_entry hchild
          refine ⟨child, part, (hopen i).trans ((hout i fun h => hocc h.2.2).trans ho), hp,
            fun n => ?_⟩
          rw [he n, ho]
          dsimp only
          split
          · rename_i hin'
            obtain ⟨h1, h2⟩ := not_occupied hocc hin'
            have hnone : snapshot.entry n = (none, none) := by rw [DirV1.entry, h1, h2]
            rw [hnone, mergedEntry_none]
          · rfl
      obtain ⟨d, hd, he⟩ := export_of_children hch
      refine ⟨a', d, rfl, hd, fun n => ?_⟩
      have hentry : a'.state.entry n = a.state.entry n := by
        show a1.state.entry n = a.state.entry n
        rw [hs]
      rw [he n, mergedEntry, hl, hentry, hind]
      refine (overShards_eq fun i hi => ?_).symm
      obtain ⟨child, ho, -⟩ := h.2 i hi
      exact ⟨child, ho, by rw [ho]⟩

/-! ## Where a name is held -/

variable (env w) in
/-- The buckets of a name exist, level by level, down to an unsharded directory. -/
def Placed : Nat → Actor → String → Prop
  | 0, _, _ => False
  | fuel + 1, a, n =>
    match a.state.header.shardLevel with
    | none => True
    | some level => shardIndex env n level ∈ a.indices ∧
        ∀ child, openDirShard env w a (shardIndex env n level) = .ok child → Placed fuel child n

theorem indices_nodup (a : Actor) : a.indices.Nodup := by
  unfold indices
  cases a.state.header.shards with
  | none => exact List.nodup_nil
  | some shards => exact shards.nodup_keys

/-- Holders of nothing do not show. -/
theorem foldl_over_none {g : UInt8 → Entry} (is : List UInt8) (e : Entry)
    (h : ∀ i ∈ is, g i = (none, none)) : is.foldl (fun e i => e.over (g i)) e = e := by
  induction is with
  | nil => rfl
  | cons i is ih =>
    rw [List.foldl_cons, h i List.mem_cons_self, Entry.over_none]
    exact ih fun j hj => h j (List.mem_cons_of_mem _ hj)

/-- A single holder shows. -/
theorem foldl_over_single {g : UInt8 → Entry} {k : UInt8} (is : List UInt8) (hnd : is.Nodup)
    (hk : k ∈ is) (h : ∀ i ∈ is, i ≠ k → g i = (none, none)) :
    is.foldl (fun e i => Entry.over e (g i)) (none, none) = g k := by
  induction is with
  | nil => cases hk
  | cons i is ih =>
    obtain ⟨hnot, hnd⟩ := List.nodup_cons.1 hnd
    rw [List.foldl_cons, Entry.none_over]
    have htail : ∀ j ∈ is, j ≠ k → g j = (none, none) :=
      fun j hj => h j (List.mem_cons_of_mem _ hj)
    rcases List.mem_cons.1 hk with rfl | hk
    · exact foldl_over_none is _ fun j hj => htail j hj fun e => hnot (e ▸ hj)
    · rw [h i List.mem_cons_self fun e => hnot (e ▸ hk)]
      exact ih hnd hk htail

/-- A name whose bucket is missing is left as it is. -/
theorem mergedEntry_of_not_placed {fuel : Nat} {a : Actor} {n : String} (hi : Intact env w fuel a)
    (h : ¬ Placed env w fuel a n) (r : Entry) :
    mergedEntry env w fuel a n r = flatEntry env w fuel a n := by
  induction fuel generalizing a with
  | zero => rfl
  | succ fuel ih =>
    rw [mergedEntry, flatEntry]
    rw [Placed] at h
    cases hl : a.state.header.shardLevel with
    | none => simp [hl] at h
    | some level =>
      simp only [hl] at h
      have hshow : ∀ i ∈ a.indices, ∃ child, openDirShard env w a i = .ok child ∧
          (if shardIndex env n level = i then mergedEntry env w fuel child n r
            else flatEntry env w fuel child n) = flatEntry env w fuel child n := by
        intro i hmem
        obtain ⟨child, ho, hc⟩ := hi.2 i hmem
        refine ⟨child, ho, ?_⟩
        split
        · rename_i heq
          subst heq
          refine ih hc fun hp => h ⟨hmem, fun child' ho' => ?_⟩
          obtain rfl := Except.ok.inj (ho.symm.trans ho')
          exact hp
        · rfl
      unfold overShards
      refine List.foldl_ext _ _ _ fun e i hmem => ?_
      obtain ⟨child, ho, hc⟩ := hshow i hmem
      simp only [ho, hc]

variable (env w) in
/-- What the unsharded directory that the buckets of a name lead to (its leaf) holds under it. -/
def leafEntry : Nat → Actor → String → Entry
  | 0, _, _ => (none, none)
  | fuel + 1, a, n =>
    match a.state.header.shardLevel with
    | none => a.state.entry n
    | some level =>
      match openDirShard env w a (shardIndex env n level) with
      | .ok child => leafEntry fuel child n
      | .error _ => (none, none)

variable (env w) in
/-- What the shards `is` of a directory hold under a name, later ones in front. -/
def shardsEntry (fuel : Nat) (a : Actor) (n : String) (is : List UInt8) : Entry :=
  is.foldl (fun e i => match openDirShard env w a i with
    | .ok child => e.over (flatEntry env w fuel child n)
    | .error _ => e) (none, none)

variable (env w) in
/-- What the places behind the leaf of a name hold under it: the directories above it and their
shards of a smaller index. -/
def behindEntry : Nat → Actor → String → Entry
  | 0, _, _ => (none, none)
  | fuel + 1, a, n =>
    match a.state.header.shardLevel with
    | none => (none, none)
    | some level =>
      ((a.state.entry n).over
        (shardsEntry env w fuel a n (a.indices.filter (· < shardIndex env n level)))).over
        (match openDirShard env w a (shardIndex env n level) with
        | .ok child => behindEntry fuel child n
        | .error _ => (none, none))

variable (env w) in
/-- What the places in front of the leaf of a name hold under it: its own shards and those of a
larger index beside the buckets that lead to it. -/
def frontEntry : Nat → Actor → String → Entry
  | 0, _, _ => (none, none)
  | fuel + 1, a, n =>
    match a.state.header.shardLevel with
    | none => shardsEntry env w fuel a n a.indices
    | some level =>
      (match openDirShard env w a (shardIndex env n level) with
        | .ok child => frontEntry fuel child n
        | .error _ => (none, none)).over
        (shardsEntry env w fuel a n (a.indices.filter (shardIndex env n level < ·)))

/-- The shards' entries in front of `e` are those of the shards in front of `e`. -/
theorem foldl_over_base {g : UInt8 → Entry} (is : List UInt8) (e : Entry) :
    is.foldl (fun e i => e.over (g i)) e =
      e.over (is.foldl (fun e i => Entry.over e (g i)) (none, none)) := by
  induction is generalizing e with
  | nil => rfl
  | cons i is ih =>
    rw [List.foldl_cons, ih, List.foldl_cons, Entry.none_over, ih (g i), Entry.over_assoc]

theorem shardsEntry_eq {fuel : Nat} {a : Actor} {n : String} {is : List UInt8} {g : UInt8 → Entry}
    (h : ∀ i ∈ is, ∃ child, openDirShard env w a i = .ok child ∧ flatEntry env w fuel child n = g i) :
    shardsEntry env w fuel a n is = is.foldl (fun e i => Entry.over e (g i)) (none, none) := by
  unfold shardsEntry
  refine List.foldl_ext _ _ _ fun e i hi => ?_
  obtain ⟨child, ho, hg⟩ := h i hi
  simp only [ho, hg]

theorem indices_sorted (a : Actor) : a.indices.Pairwise (· < ·) := by
  unfold indices
  cases a.state.header.shards with
  | none => exact List.Pairwise.nil
  | some shards => exact shards.ordered_keys.imp Std.compare_eq_lt.1

/-- A sorted list around one of its elements. -/
theorem sorted_around {is : List UInt8} {k : UInt8} (h : is.Pairwise (· < ·)) (hk : k ∈ is) :
    is = is.filter (· < k) ++ k :: is.filter (k < ·) := by
  induction is with
  | nil => cases hk
  | cons i is ih =>
    obtain ⟨hlt, h⟩ := List.pairwise_cons.1 h
    rcases List.mem_cons.1 hk with rfl | hk
    · have hsmall : is.filter (· < k) = [] :=
        List.filter_eq_nil_iff.2 fun j hj => by simpa using UInt8.le_of_lt (hlt j hj)
      have hlarge : is.filter (k < ·) = is :=
        List.filter_eq_self.2 fun j hj => by simpa using hlt j hj
      simp [hsmall, hlarge]
    · have hik := hlt k hk
      have hki : ¬ k < i := UInt8.not_lt.2 (UInt8.le_of_lt hik)
      simp only [List.filter_cons, hik, hki, decide_true, decide_false, if_true, Bool.false_eq_true,
        if_false, List.cons_append, List.cons.injEq, true_and]
      exact ih h hk

/-- What a merge leaves under a name whose buckets exist: the merge takes place at the leaf. -/
theorem mergedEntry_of_placed {fuel : Nat} {a : Actor} {n : String} (hi : Intact env w fuel a)
    (hp : Placed env w fuel a n) (r : Entry) :
    mergedEntry env w fuel a n r = ((behindEntry env w fuel a n).over
      (lwwEntry (leafEntry env w fuel a n) r)).over (frontEntry env w fuel a n) := by
  induction fuel generalizing a with
  | zero => exact hi.elim
  | succ fuel ih =>
    rw [mergedEntry, leafEntry, behindEntry, frontEntry]
    rw [Placed] at hp
    let g : UInt8 → Entry := fun i => match openDirShard env w a i with
      | .ok child => flatEntry env w fuel child n
      | .error _ => (none, none)
    have hg : ∀ i ∈ a.indices, ∃ child, openDirShard env w a i = .ok child ∧
        flatEntry env w fuel child n = g i := by
      intro i hmem
      obtain ⟨child, ho, -⟩ := hi.2 i hmem
      exact ⟨child, ho, by simp only [g, ho]⟩
    cases hl : a.state.header.shardLevel with
    | none =>
      dsimp only
      rw [overShards_eq hg, shardsEntry_eq hg, foldl_over_base, Entry.none_over]
    | some level =>
      simp only [hl] at hp ⊢
      obtain ⟨hmem, hp⟩ := hp
      generalize hk : shardIndex env n level = k at hmem hp ⊢
      obtain ⟨child, ho, hc⟩ := hi.2 k hmem
      simp only [ho]
      have hsub : ∀ {p : UInt8 → Bool}, ∀ i ∈ a.indices.filter p, ∃ child,
          openDirShard env w a i = .ok child ∧ flatEntry env w fuel child n = g i :=
        fun i h => hg i (List.mem_filter.1 h).1
      let g' : UInt8 → Entry := fun i => if i = k then mergedEntry env w fuel child n r else g i
      have hmerged : ∀ i ∈ a.indices, ∃ c, openDirShard env w a i = .ok c ∧
          (if k = i then mergedEntry env w fuel c n r else flatEntry env w fuel c n) = g' i := by
        intro i h
        obtain ⟨c, hoc, hflat⟩ := hg i h
        refine ⟨c, hoc, ?_⟩
        by_cases he : i = k
        · subst he
          obtain rfl := Except.ok.inj (ho.symm.trans hoc)
          simp [g']
        · simp [g', he, Ne.symm he, hflat]
      have hother : ∀ {p : UInt8 → Bool}, p k = false → ∀ e : Entry,
          (a.indices.filter p).foldl (fun e i => e.over (g' i)) e =
            (a.indices.filter p).foldl (fun e i => e.over (g i)) e := by
        intro p hpk e
        refine List.foldl_ext _ _ _ fun e' i h => ?_
        have hne : i ≠ k := by
          rintro rfl
          exact absurd (List.mem_filter.1 h).2 (by rw [hpk]; exact Bool.false_ne_true)
        simp only [g', if_neg hne]
      rw [overShards_eq hmerged, shardsEntry_eq hsub, shardsEntry_eq hsub]
      -- the shards in order: those before the bucket, the bucket, those after it
      rw [sorted_around (indices_sorted a) hmem, List.foldl_append, List.foldl_cons,
        hother (by simp), hother (by simp), foldl_over_base (a.indices.filter (k < ·)),
        foldl_over_base (a.indices.filter (· < k)), ← sorted_around (indices_sorted a) hmem]
      simp only [g', if_true, ih hc (hp child ho), Entry.over_assoc]

theorem flatEntry_of_placed {fuel : Nat} {a : Actor} {n : String} (hi : Intact env w fuel a)
    (hp : Placed env w fuel a n) :
    flatEntry env w fuel a n = ((behindEntry env w fuel a n).over
      (leafEntry env w fuel a n)).over (frontEntry env w fuel a n) := by
  rw [← mergedEntry_none, mergedEntry_of_placed hi hp, lwwEntry_none]

/-! ## Refinement -/

variable (env w) in
/-- The condition under which a merge treats the entry `r` of a name as the flat merge does. -/
def NameKept (fuel : Nat) (a : Actor) (n : String) (r : Entry) : Prop :=
  (Placed env w fuel a n → LeafKept (behindEntry env w fuel a n) (leafEntry env w fuel a n)
    (frontEntry env w fuel a n) r) ∧
  -- the entry of a missing bucket is dropped, so it has to be no newer than what is there
  (¬ Placed env w fuel a n → taken (flatEntry env w fuel a n) r = none)

theorem nameKept_iff {fuel : Nat} {a : Actor} {n : String} {r : Entry} (hi : Intact env w fuel a) :
    NameKept env w fuel a n r ↔
      mergedEntry env w fuel a n r = lwwEntry (flatEntry env w fuel a n) r := by
  unfold NameKept
  by_cases hp : Placed env w fuel a n
  · simp only [hp, not_true_eq_false, false_imp_iff, and_true, true_imp_iff]
    rw [mergedEntry_of_placed hi hp, flatEntry_of_placed hi hp]
    exact leafKept_iff
  · simp only [hp, not_false_eq_true, false_imp_iff, true_and, true_imp_iff]
    rw [mergedEntry_of_not_placed hi hp, ← lwwEntry_eq_self, eq_comm]

/-- Where no other place holds the name, its entry is merged as in the flat view. -/
theorem NameKept.of_alone {fuel : Nat} {a : Actor} {n : String} (hp : Placed env w fuel a n)
    (hbehind : behindEntry env w fuel a n = (none, none))
    (hfront : frontEntry env w fuel a n = (none, none)) (r : Entry) : NameKept env w fuel a n r := by
  refine ⟨fun _ => ?_, fun h => absurd hp h⟩
  rw [hbehind, hfront, leafKept_iff, Entry.none_over, Entry.none_over, Entry.over_none,
    Entry.over_none]

/-- **A merge into shards refines the flat merge** exactly if every name of the snapshot is
`NameKept`. -/
theorem merge_refines_iff {fuel : Nat} {a : Actor} (hi : Intact env w fuel a) (R : DirV1) :
    (∃ a' flat flat', mergeSnapshot env w fuel a R = (a', .ok ()) ∧
        exportMergedSnapshot env w fuel a = .ok flat ∧
        exportMergedSnapshot env w fuel a' = .ok flat' ∧
        flat'.dirs = (mergeEntriesLocal flat R.dirs R.files).dirs ∧
        flat'.files = (mergeEntriesLocal flat R.dirs R.files).files) ↔
      ∀ n, n ∈ R.dirs ∨ n ∈ R.files → NameKept env w fuel a n (R.entry n) := by
  obtain ⟨flat, hflat, hbefore⟩ := exportMergedSnapshot_entry hi
  obtain ⟨a', flat', hmerge, hflat', hafter⟩ := mergeSnapshot_entry hi R
  have hnames : (flat'.dirs = (mergeEntriesLocal flat R.dirs R.files).dirs ∧
      flat'.files = (mergeEntriesLocal flat R.dirs R.files).files) ↔
      ∀ n, mergedEntry env w fuel a n (R.entry n) =
        lwwEntry (flatEntry env w fuel a n) (R.entry n) := by
    have hentry : ∀ n, (flat'.entry n = ((mergeEntriesLocal flat R.dirs R.files).dirs[n]?,
        (mergeEntriesLocal flat R.dirs R.files).files[n]?)) ↔
        mergedEntry env w fuel a n (R.entry n) =
          lwwEntry (flatEntry env w fuel a n) (R.entry n) := by
      intro n
      rw [mergeEntriesLocal_entry, hafter, hbefore]
      rfl
    constructor
    · intro h n
      rw [← hentry n, ← h.1, ← h.2]
      rfl
    · intro h
      constructor
      · exact ExtTreeMap.ext_getElem? fun n => congrArg Prod.fst ((hentry n).2 (h n))
      · exact ExtTreeMap.ext_getElem? fun n => congrArg Prod.snd ((hentry n).2 (h n))
  have habsent : ∀ n, ¬ (n ∈ R.dirs ∨ n ∈ R.files) → R.entry n = (none, none) := by
    intro n hn
    obtain ⟨hd, hf⟩ := not_or.1 hn
    rw [DirV1.entry, ExtTreeMap.getElem?_eq_none hd, ExtTreeMap.getElem?_eq_none hf]
  constructor
  · intro ⟨b, f, f', hb, hf, hf', hdirs, hfiles⟩ n _
    obtain rfl := (Prod.mk.inj (hmerge.symm.trans hb)).1
    obtain rfl := Except.ok.inj (hflat.symm.trans hf)
    obtain rfl := Except.ok.inj (hflat'.symm.trans hf')
    exact (nameKept_iff hi).2 (hnames.1 ⟨hdirs, hfiles⟩ n)
  · intro h
    have hall : ∀ n, mergedEntry env w fuel a n (R.entry n) =
        lwwEntry (flatEntry env w fuel a n) (R.entry n) := by
      intro n
      by_cases hn : n ∈ R.dirs ∨ n ∈ R.files
      · exact (nameKept_iff hi).1 (h n hn)
      · rw [habsent n hn, mergedEntry_none, lwwEntry_none]
    obtain ⟨hdirs, hfiles⟩ := hnames.2 hall
    exact ⟨a', flat, flat', hmerge, hflat, hflat', hdirs, hfiles⟩

/-! ## Directories that `shard` has split -/

/-- A split directory to which entries have been added since. -/
structure IsSplitWith (env : Env β) (a : Actor) (w : World β) (b : Actor) : Prop where
  level : a.splitLevel ≤ maxShardLevel
  split : ∃ a', IsSplit env a w a' ∧ b.context = a'.context ∧ b.state.header = a'.state.header ∧
    b.dirShardHandles = a'.dirShardHandles

section
variable {a b : Actor}

/-- The shards of a split directory hold the entries of their bucket and are not sharded. -/
theorem IsSplitWith.child (h : IsSplitWith env a w b) {i : UInt8} (hi : i ∈ b.indices) :
    ∃ child, openDirShard env w b i = .ok child ∧
      child.state = shardState env a.state a.splitLevel i := by
  obtain ⟨a', hs, hctx, hheader, hhandles⟩ := h.split
  have hopen : openDirShard env w b i = openDirShard env w a' i :=
    openDirShard_congr hhandles hctx (by rw [hheader]) (by rw [hheader]) i
  have href : b.shardRef i = a'.shardRef i := by rw [shardRef, shardRef, hheader]
  rw [mem_indices, href] at hi
  by_cases hocc : Occupied (shardState env a.state a.splitLevel i)
  · obtain ⟨ref, child, -, ho, hchild⟩ := hs.shard i hocc
    exact ⟨child, hopen.trans ho, hchild.state⟩
  · rw [hs.other i hocc] at hi
    cases hi

theorem IsSplitWith.shardLevel (h : IsSplitWith env a w b) :
    b.state.header.shardLevel = some a.splitLevel := by
  obtain ⟨a', hs, -, hheader, -⟩ := h.split
  rw [hheader]
  exact hs.shardLevel

theorem IsSplitWith.intact (h : IsSplitWith env a w b) : Intact env w 2 b := by
  refine ⟨fun level hl => ?_, fun i hi => ?_⟩
  · rw [h.shardLevel] at hl
    exact Option.some.inj hl ▸ h.level
  · obtain ⟨child, ho, hstate⟩ := h.child hi
    have hnone : child.indices = [] := by simp [indices, hstate, shardState, DirV1.new, DirHeader.new]
    refine ⟨child, ho, ?_, ?_⟩
    · simp [hstate, shardState, DirV1.new, DirHeader.new]
    · simp [hnone]

/-- A name is merged as in the flat view if its bucket is in use and the directory itself does not
hold it. -/
theorem IsSplitWith.nameKept (h : IsSplitWith env a w b) {n : String}
    (hocc : Occupied (shardState env a.state a.splitLevel (shardIndex env n a.splitLevel)))
    (hown : b.state.entry n = (none, none)) (r : Entry) : NameKept env w 2 b n r := by
  have hmem : shardIndex env n a.splitLevel ∈ b.indices := by
    obtain ⟨a', hs, hctx, hheader, hhandles⟩ := h.split
    obtain ⟨ref, child, href, -, -⟩ := hs.shard _ hocc
    have href' : b.shardRef (shardIndex env n a.splitLevel) = some ref := by
      rw [← href, shardRef, shardRef, hheader]
    rw [mem_indices, href']
    rfl
  have hflat : ∀ child : Actor, ∀ i, child.state = shardState env a.state a.splitLevel i →
      child.state.header.shardLevel = none ∧ child.indices = [] := by
    intro child i hstate
    simp [indices, hstate, shardState, DirV1.new, DirHeader.new]
  obtain ⟨child, ho, hstate⟩ := h.child hmem
  obtain ⟨hlevel, hnone⟩ := hflat child _ hstate
  have hothers : ∀ {p : UInt8 → Bool}, p (shardIndex env n a.splitLevel) = false →
      shardsEntry env w 1 b n (b.indices.filter p) = (none, none) := by
    intro p hp
    rw [shardsEntry_eq (g := fun _ => (none, none)), foldl_over_none _ _ fun _ _ => rfl]
    intro i hi
    obtain ⟨hi, hpi⟩ := List.mem_filter.1 hi
    obtain ⟨c, hoc, hc⟩ := h.child hi
    have hne : shardIndex env n a.splitLevel ≠ i := by
      rintro rfl
      exact absurd hpi (by rw [hp]; exact Bool.false_ne_true)
    refine ⟨c, hoc, ?_⟩
    simp only [flatEntry, overShards, (hflat c i hc).2, List.foldl_nil, hc, entry_shardState,
      if_neg hne]
  refine .of_alone ?_ ?_ ?_ r
  · simp only [Placed, h.shardLevel]
    refine ⟨hmem, fun c hoc => ?_⟩
    obtain rfl := Except.ok.inj (ho.symm.trans hoc)
    simp [hlevel]
  · have hbehind : behindEntry env w 1 child n = (none, none) := by simp only [behindEntry, hlevel]
    rw [behindEntry]
    simp only [h.shardLevel, hown, ho, hbehind]
    rw [hothers (p := (· < shardIndex env n a.splitLevel)) (decide_eq_false (UInt8.lt_irrefl _))]
    rfl
  · have hfront : frontEntry env w 1 child n = (none, none) := by
      simp only [frontEntry, hlevel, hnone, shardsEntry, List.foldl_nil]
    rw [frontEntry]
    simp only [h.shardLevel, ho, hfront]
    rw [hothers (p := (shardIndex env n a.splitLevel < ·)) (decide_eq_false (UInt8.lt_irrefl _))]
    rfl

/-- A name whose bucket is not in use is kept if what the directory itself holds is no older. -/
theorem IsSplitWith.nameKept_of_missing (h : IsSplitWith env a w b) {n : String} {r : Entry}
    (hocc : ¬ Occupied (shardState env a.state a.splitLevel (shardIndex env n a.splitLevel)))
    (hown : taken (b.state.entry n) r = none) : NameKept env w 2 b n r := by
  have hmem : shardIndex env n a.splitLevel ∉ b.indices := by
    obtain ⟨a', hs, hctx, hheader, hhandles⟩ := h.split
    have href : b.shardRef (shardIndex env n a.splitLevel) = none := by
      rw [← hs.other _ hocc, shardRef, shardRef, hheader]
    rw [mem_indices, href]
    exact Bool.false_ne_true
  have hflat : flatEntry env w 2 b n = b.state.entry n := by
    rw [flatEntry, overShards_eq (g := fun _ => (none, none)), foldl_over_none _ _ fun _ _ => rfl]
    intro i hi
    obtain ⟨c, hoc, hc⟩ := h.child hi
    have hne : shardIndex env n a.splitLevel ≠ i := by
      rintro rfl
      exact hmem hi
    have hnone : c.indices = [] := by simp [indices, hc, shardState, DirV1.new, DirHeader.new]
    refine ⟨c, hoc, ?_⟩
    simp only [flatEntry, overShards, hnone, List.foldl_nil, hc, entry_shardState, if_neg hne]
  refine ⟨fun hp => absurd ?_ hmem, fun _ => hflat ▸ hown⟩
  simp only [Placed, h.shardLevel] at hp
  exact hp.1

end

end

/-! The root with the one file `a`, split. -/

def splitOneFile : World Sym × Actor × Except String Unit :=
  shard (symbolic xxh3Short) emptyWorld (oneFile "a")

/-- A file of time `t`. -/
def fileAt (h : Hash) (t : UInt32) : FileRef := { FileRef.new h 2 with timestamp := some t }

/-- A snapshot with one file of time `t`. -/
def snapshotFile (k : String) (t : UInt32) : DirV1 :=
  { DirV1.new with files := (∅ : ExtTreeMap String FileRef).insert k (fileAt 2 t) }

/-- The split root, to which a file `d` of time 9 has been added: there is no shard for it. -/
def splitAndAdded : Actor :=
  { splitOneFile.2.1 with state.files := splitOneFile.2.1.state.files.insert "d" (fileAt 3 9) }

/-- A snapshot with a newer file `a` and an older file `d`. -/
def newerAndOlder : DirV1 :=
  { DirV1.new with
    files := ((∅ : ExtTreeMap String FileRef).insert "a" (fileAt 2 5)).insert "d" (fileAt 2 3) }

theorem splitOneFile_isSplit :
    IsSplit (symbolic xxh3Short) (oneFile "a") splitOneFile.1 splitOneFile.2.1 := by
  have hok : splitOneFile.2.2.isOk = true := by decide +kernel
  have hcollided : splitOneFile.1.collided = false := by decide +kernel
  have hrun : splitOneFile = (splitOneFile.1, splitOneFile.2.1, .ok ()) := eq_of_isOk hok
  exact shard_isSplit (symbolic_lawful xxh3Short) (oneFile_unsharded "a") hrun hcollided

theorem splitOneFile_isSplitWith :
    IsSplitWith (symbolic xxh3Short) (oneFile "a") splitOneFile.1 splitOneFile.2.1 :=
  ⟨by decide, splitOneFile.2.1, splitOneFile_isSplit, rfl, rfl, rfl⟩

theorem splitAndAdded_isSplitWith :
    IsSplitWith (symbolic xxh3Short) (oneFile "a") splitOneFile.1 splitAndAdded :=
  ⟨by decide, splitOneFile.2.1, splitOneFile_isSplit, rfl, rfl, rfl⟩

theorem merge_refines_splitAndAdded :
    Intact (symbolic xxh3Short) splitOneFile.1 2 splitAndAdded ∧
    ∃ a' flat flat',
      mergeSnapshot (symbolic xxh3Short) splitOneFile.1 2 splitAndAdded newerAndOlder = (a', .ok ()) ∧
      exportMergedSnapshot (symbolic xxh3Short) splitOneFile.1 2 splitAndAdded = .ok flat ∧
      exportMergedSnapshot (symbolic xxh3Short) splitOneFile.1 2 a' = .ok flat' ∧
      flat'.dirs = (mergeEntriesLocal flat newerAndOlder.dirs newerAndOlder.files).dirs ∧
      flat'.files = (mergeEntriesLocal flat newerAndOlder.dirs newerAndOlder.files).files := by
  have hsplit := splitAndAdded_isSplitWith
  refine ⟨hsplit.intact, (merge_refines_iff hsplit.intact _).2 fun n hn => ?_⟩
  have hname : n = "d" ∨ n = "a" := by
    by_contra hne
    obtain ⟨hd, ha⟩ := not_or.1 hne
    simp [newerAndOlder, DirV1.new, Ne.symm hd, Ne.symm ha] at hn
  rcases hname with rfl | rfl
  · -- the bucket of `d` does not exist, and the local `d` is newer
    refine hsplit.nameKept_of_missing ?_ (by decide +kernel)
    unfold Occupied
    decide +kernel
  · -- the bucket of `a` exists, and nothing else holds `a`
    refine hsplit.nameKept ?_ (by decide +kernel) _
    unfold Occupied
    decide +kernel

/-- The bucket of `d` does not exist, so the merge drops the file. -/
theorem merge_drops_file :
    Intact (symbolic xxh3Short) splitOneFile.1 2 splitOneFile.2.1 ∧
    ¬ ∃ a' flat flat',
      mergeSnapshot (symbolic xxh3Short) splitOneFile.1 2 splitOneFile.2.1 (snapshotFile "d" 5) =
        (a', .ok ()) ∧
      exportMergedSnapshot (symbolic xxh3Short) splitOneFile.1 2 splitOneFile.2.1 = .ok flat ∧
      exportMergedSnapshot (symbolic xxh3Short) splitOneFile.1 2 a' = .ok flat' ∧
      flat'.dirs =
        (mergeEntriesLocal flat (snapshotFile "d" 5).dirs (snapshotFile "d" 5).files).dirs ∧
      flat'.files =
        (mergeEntriesLocal flat (snapshotFile "d" 5).dirs (snapshotFile "d" 5).files).files := by
  refine ⟨splitOneFile_isSplitWith.intact, fun ⟨a', flat, flat', hm, hf, hf', _, hfiles⟩ => ?_⟩
  have hcode : (exportMergedSnapshot (symbolic xxh3Short) splitOneFile.1 2
      (mergeSnapshot (symbolic xxh3Short) splitOneFile.1 2 splitOneFile.2.1 (snapshotFile "d" 5)).1
      ).toOption.map (·.files["d"]?) = some none := by decide +kernel
  have hflat : (mergeEntriesLocal flat (snapshotFile "d" 5).dirs
      (snapshotFile "d" 5).files).files["d"]?.isSome = true := by
    have hd : (exportMergedSnapshot (symbolic xxh3Short) splitOneFile.1 2 splitOneFile.2.1
        ).toOption.map (fun d => (mergeEntriesLocal d (snapshotFile "d" 5).dirs
          (snapshotFile "d" 5).files).files["d"]?.isSome) = some true := by decide +kernel
    rw [hf] at hd
    exact Option.some.inj hd
  rw [hm, hf'] at hcode
  have hnone : flat'.files["d"]? = none := Option.some.inj hcode
  rw [← hfiles, hnone] at hflat
  cases hflat

end Actor

end Fs
