import S5.Fs.Sharding
import S5.Fs.Proof.Keys
import S5.Fs.Symbolic
import S5.Lib.Map

/-!
# Promotion keeps the file tree

`optimize_dir_structure` takes its groups out of a hash map, so they are visited in any order
(`optimizeDirStructureIn`). Whatever the order, the result is the directory without its large groups
and with a stored directory for each of them, which has been worked on in the same way (`Promoted`).

* `promotion_preserves`: the recursion ends, fails only if a store write does, and its result is the
  same for every order, has no large group at any level and flattens to the files it was made of.
-/

open Std

namespace Fs

/-! ## Segments -/

theorem stripDir_eq_some_iff {dir k rest : String} (h : '/' ∉ dir.toList) :
    stripDir dir k = some rest ↔ splitOnce k = some (dir, rest) := by
  rw [stripDir_eq_some, splitOnce_eq_some]
  exact ⟨fun hk => ⟨hk, h⟩, fun hk => hk.1⟩

theorem isSome_stripDir {dir k : String} (h : '/' ∉ dir.toList) :
    (stripDir dir k).isSome = decide ((splitOnce k).map (·.1) = some dir) := by
  rw [Bool.eq_iff_iff, Option.isSome_iff_exists, decide_eq_true_eq, Option.map_eq_some_iff]
  constructor
  · rintro ⟨rest, hr⟩
    exact ⟨(dir, rest), (stripDir_eq_some_iff h).1 hr, rfl⟩
  · rintro ⟨⟨a, rest⟩, hs, rfl⟩
    exact ⟨rest, (stripDir_eq_some_iff h).2 hs⟩

theorem stripDir_join (dir rest : String) : stripDir dir (dir ++ "/" ++ rest) = some rest := by
  rw [stripDir_eq_some]
  simp

theorem eq_join_of_stripDir {dir k rest : String} (h : stripDir dir k = some rest) :
    k = dir ++ "/" ++ rest := by
  rw [stripDir_eq_some] at h
  apply String.toList_injective
  simp [h]

theorem join_injective {dir a b : String} (h : dir ++ "/" ++ a = dir ++ "/" ++ b) : a = b := by
  have h' := congrArg (stripDir dir) h
  rw [stripDir_join, stripDir_join] at h'
  exact Option.some.inj h'

/-- The files that go to a new child, under their paths below it. -/
theorem extractChildDirState_snd_files (d : DirV1) (dir sub : String) :
    (extractChildDirState d dir).2.files[sub]? = d.files[dir ++ "/" ++ sub]? := by
  have hin : ∀ k : String, k ∈ d.files.filter (fun k _ => (stripDir dir k).isSome) →
      ∃ rest, stripDir dir k = some rest := by
    intro k hk
    rw [ExtTreeMap.mem_filter] at hk
    obtain ⟨h, hs⟩ := hk
    exact Option.isSome_iff_exists.1 (by simpa using hs)
  apply Option.ext
  intro f
  have hat := ExtTreeMap.foldl_insert_at (d.files.filter fun k _ => (stripDir dir k).isSome)
    (fun k => (stripDir dir k).getD k) (fun a b ha hb he => by
      obtain ⟨x, hx⟩ := hin a ha
      obtain ⟨y, hy⟩ := hin b hb
      simp only [hx, hy, Option.getD_some] at he
      rw [eq_join_of_stripDir hx, eq_join_of_stripDir hy, he]) sub (v := f)
  refine hat.trans ?_
  constructor
  · rintro ⟨k, hk, hf⟩
    have hmem : k ∈ d.files.filter fun k _ => (stripDir dir k).isSome := by
      rw [ExtTreeMap.mem_iff_isSome_getElem?, hf]
      rfl
    obtain ⟨rest, hr⟩ := hin k hmem
    simp only [hr, Option.getD_some] at hk
    subst hk
    rw [ExtTreeMap.getElem?_filter', Option.filter_eq_some_iff] at hf
    rw [← eq_join_of_stripDir hr]
    exact hf.1
  · intro hf
    refine ⟨dir ++ "/" ++ sub, by simp [stripDir_join], ?_⟩
    rw [ExtTreeMap.getElem?_filter', hf]
    simp [stripDir_join]

theorem extractChildDirState_fst_files (d : DirV1) (dir k : String) :
    (extractChildDirState d dir).1.files[k]? = if (stripDir dir k).isSome then none else d.files[k]? := by
  show (d.files.filter fun k _ => (stripDir dir k).isNone)[k]? = _
  rw [ExtTreeMap.getElem?_filter']
  cases h : stripDir dir k with
  | none => cases d.files[k]? <;> simp
  | some rest => cases d.files[k]? <;> simp

/-! ## The recursion -/

section
variable {β ι : Type}

/-- The directory that a reference names, opened with the key that the reference itself has. -/
def openRef (env : Env β) (w : World β) (dirRef : DirRef) : Option DirV1 := do
  let bytes ← w.store[dirRef.hash]?
  let plain ← match dirRef.encryptionType with
    | none => some bytes
    | some _ => (dirRef.keys.bind (·[keySlot]?)).bind fun key => env.decrypt key bytes
  env.fromBytes plain

/-- The paths below a directory, from above it. -/
def joined (name : String) (entries : List (String × FileRef)) : List (String × FileRef) :=
  entries.map fun (k, f) => (name ++ "/" ++ k, f)

/-- The files of a directory and of all directories below it, under their paths. -/
def flatten (env : Env β) (w : World β) : Nat → DirV1 → Option (List (String × FileRef))
  | 0, _ => none
  | fuel + 1, d => do
    let below ← d.dirs.toList.mapM fun (name, dirRef) => do
      let child ← openRef env w dirRef
      return joined name (← flatten env w fuel child)
    return d.files.toList ++ below.flatten

/-- A directory and those below it. -/
inductive Level (env : Env β) (w : World β) : DirV1 → DirV1 → Prop where
  | self (d : DirV1) : Level env w d d
  | child {d child e : DirV1} {name : String} {dirRef : DirRef} (hr : d.dirs[name]? = some dirRef)
      (ho : openRef env w dirRef = some child) (h : Level env w child e) : Level env w d e

/-- How many keys with a slash have a given first segment. -/
def groupSize (d : DirV1) (segment : String) : Nat :=
  (d.files.keys.filter fun k => (splitOnce k).map (·.1) = some segment).length

/-- References that differ in hash, timestamps and keys at most. -/
def DirRef.SameButFresh (r r' : DirRef) : Prop :=
  r.refType = r'.refType ∧ r.encryptionType = r'.encryptionType ∧ r.extra = r'.extra ∧
    r.keys.map (·.keys) = r'.keys.map (·.keys)

/-- Directories that differ in hashes, timestamps and keys at most, here and below. -/
inductive Same (env : Env β) (w w' : World β) : DirV1 → DirV1 → Prop where
  | mk {d d' : DirV1} (magic : d.magic = d'.magic) (header : d.header = d'.header)
      (files : d.files = d'.files) (names : ∀ name : String, name ∈ d.dirs ↔ name ∈ d'.dirs)
      (opens : ∀ (name : String) (r : DirRef), d.dirs[name]? = some r → openRef env w r ≠ none)
      (opens' : ∀ (name : String) (r : DirRef), d'.dirs[name]? = some r → openRef env w' r ≠ none)
      (dirs : ∀ (name : String) (r r' : DirRef), d.dirs[name]? = some r → d'.dirs[name]? = some r' →
        r.SameButFresh r')
      (below : ∀ (name : String) (r r' : DirRef) (c c' : DirV1), d.dirs[name]? = some r →
        d'.dirs[name]? = some r' → openRef env w r = some c → openRef env w' r' = some c' →
        Same env w w' c c') : Same env w w' d d'

variable [DecidableEq β] (env : Env β)

/-! ## What promotion comes to -/

/-- A group that becomes a directory. -/
def DirV1.isLarge (d : DirV1) (name : String) : Bool :=
  decide ('/' ∉ name.toList) && decide (promotionThreshold < countBelow d name)

/-- The key is in one of the large groups. -/
def DirV1.isGrouped (d : DirV1) (k : String) : Bool := (splitOnce k).any fun p => d.isLarge p.1

omit [DecidableEq β] in
/-- The reference is one of those under which children are stored, and leads to a directory. -/
def Stored (ctx : DirContext ι) (w : World β) (r : DirRef) (child : DirV1) : Prop :=
  (∃ now, r = storedDirRef ctx r.hash r.keys now) ∧
    r.keys.map (·.keys) = (if ctx.encryptionType.isSome then some [keySlot] else none) ∧
    openRef env w r = some child

omit [DecidableEq β] in
/-- **What promotion makes of a directory**: the files that are in no large group, and for every large
group a stored directory that has been worked on in the same way. -/
inductive Promoted (ctx : DirContext ι) (w : World β) : DirV1 → DirV1 → Prop where
  | mk {d d' : DirV1} (child : String → DirV1) (magic : d'.magic = d.magic)
      (header : d'.header = d.header)
      (files : d'.files = d.files.filter fun k _ => !d.isGrouped k)
      (names : ∀ name : String, name ∈ d'.dirs ↔ d.isLarge name = true)
      (stored : ∀ (name : String) (r : DirRef), d'.dirs[name]? = some r →
        Stored env ctx w r (child name))
      (below : ∀ name : String, name ∈ d'.dirs →
        Promoted ctx w (extractChildDirState d name).2 (child name)) : Promoted ctx w d d'

variable {env} {ctx : DirContext ι} {w w' : World β}

omit [DecidableEq β] in
theorem openRef_mono (h : w.Grows w') {r : DirRef} {d : DirV1} (hr : openRef env w r = some d) :
    openRef env w' r = some d := by
  unfold openRef at hr ⊢
  obtain ⟨bytes, hb, hr⟩ := Option.bind_eq_some_iff.1 hr
  rw [h.store _ _ hb]
  exact hr

omit [DecidableEq β] in
theorem Stored.mono (h : w.Grows w') {r : DirRef} {d : DirV1} (hr : Stored env ctx w r d) :
    Stored env ctx w' r d :=
  ⟨hr.1, hr.2.1, openRef_mono h hr.2.2⟩

omit [DecidableEq β] in
theorem Promoted.mono (h : w.Grows w') {d d' : DirV1} (hp : Promoted env ctx w d d') :
    Promoted env ctx w' d d' := by
  induction hp with
  | mk child magic header files names stored below ih =>
    exact .mk child magic header files names (fun name r hr => (stored name r hr).mono h) ih

omit [DecidableEq β] in
/-- What an encoded child is opened as. -/
theorem stored_encoded (hl : env.Lawful) (now : UInt32 × UInt32) {d : DirV1} {bytes : β}
    {keys : Option (ExtTreeMap UInt8 Bytes32)} {h : Hash}
    (he : encodeChildDirBytes env ctx d w = (w', bytes, keys)) {w2 : World β}
    (hs : w2.store[h]? = some bytes) : Stored env ctx w2 (storedDirRef ctx h keys now) d := by
  unfold encodeChildDirBytes at he
  dsimp only at he
  cases henc : ctx.encryptionType.isSome with
  | true =>
    rw [henc, if_pos rfl] at he
    cases he
    refine ⟨⟨now, rfl⟩, ?_, ?_⟩
    · rw [henc, if_pos rfl]
      rfl
    · simp [openRef, storedDirRef, henc, hs, hl.decrypt_encrypt, hl.fromBytes_toBytes]
  | false =>
    rw [henc, if_neg Bool.false_ne_true] at he
    cases he
    refine ⟨⟨now, rfl⟩, ?_, ?_⟩
    · simp [storedDirRef, henc]
    · simp [openRef, storedDirRef, henc, hs, hl.fromBytes_toBytes]

/-! ## Group by group -/

/-- The key is in one of the large groups visited so far. -/
def DirV1.isMoved (d : DirV1) (visited : List String) (k : String) : Bool :=
  (splitOnce k).any fun p => decide (p.1 ∈ visited) && d.isLarge p.1

omit [DecidableEq β] in
variable (env ctx w) in
/-- The directory after some of its groups have been visited. -/
structure Between (visited : List String) (d d' : DirV1) : Prop where
  magic : d'.magic = d.magic
  header : d'.header = d.header
  files : d'.files = d.files.filter fun k _ => !d.isMoved visited k
  names : ∀ name : String, name ∈ d'.dirs ↔ name ∈ visited ∧ d.isLarge name = true
  stored : ∀ (name : String) (r : DirRef), d'.dirs[name]? = some r →
    ∃ child, Stored env ctx w r child ∧ Promoted env ctx w (extractChildDirState d name).2 child

section
variable {visited : List String} {d d' : DirV1}

omit [DecidableEq β] in
theorem Between.mono (hg : w.Grows w') (h : Between env ctx w visited d d') :
    Between env ctx w' visited d d' :=
  ⟨h.magic, h.header, h.files, h.names, fun name r hr => by
    obtain ⟨child, hs, hp⟩ := h.stored name r hr
    exact ⟨child, hs.mono hg, hp.mono hg⟩⟩

/-- A key of a group that has not been visited is still there. -/
theorem isMoved_of_stripDir {dir k : String} (hdir : '/' ∉ dir.toList) (hnew : dir ∉ visited)
    (h : (stripDir dir k).isSome = true) : d.isMoved visited k = false := by
  rw [isSome_stripDir hdir, decide_eq_true_eq, Option.map_eq_some_iff] at h
  obtain ⟨⟨a, rest⟩, hs, rfl⟩ := h
  simp [DirV1.isMoved, hs, hnew]

omit [DecidableEq β] in
theorem Between.countBelow (h : Between env ctx w visited d d') {dir : String}
    (hdir : '/' ∉ dir.toList) (hnew : dir ∉ visited) : countBelow d' dir = countBelow d dir := by
  unfold Fs.countBelow
  rw [h.files, ExtTreeMap.keys_filter_key, List.filter_filter]
  congr 1
  refine List.filter_congr fun k _ => ?_
  cases hk : (stripDir dir k).isSome with
  | false => rfl
  | true => simp [isMoved_of_stripDir hdir hnew hk]

omit [DecidableEq β] in
theorem Between.extract_snd (h : Between env ctx w visited d d') {dir : String}
    (hdir : '/' ∉ dir.toList) (hnew : dir ∉ visited) :
    (extractChildDirState d' dir).2 = (extractChildDirState d dir).2 := by
  have hmoved : d'.files.filter (fun k _ => (stripDir dir k).isSome) =
      d.files.filter fun k _ => (stripDir dir k).isSome := by
    refine ExtTreeMap.ext_getElem? fun k => ?_
    rw [h.files, ExtTreeMap.getElem?_filter', ExtTreeMap.getElem?_filter',
      ExtTreeMap.getElem?_filter', Option.filter_filter]
    congr 1
    funext f
    cases hk : (stripDir dir k).isSome with
    | false => simp
    | true => simp [isMoved_of_stripDir hdir hnew hk]
  unfold extractChildDirState
  dsimp only
  rw [hmoved]

/-- One more group is visited. -/
theorem isMoved_append (dir k : String) : d.isMoved (visited ++ [dir]) k =
    (d.isMoved visited k || (decide ((splitOnce k).map (·.1) = some dir) && d.isLarge dir)) := by
  unfold DirV1.isMoved
  cases splitOnce k with
  | none => simp
  | some p =>
    by_cases hp : p.1 = dir
    · subst hp
      simp only [Option.any_some, List.mem_append, List.mem_singleton, or_true, decide_true,
        Option.map_some, Bool.true_and]
      cases d.isLarge p.1 <;> simp
    · simp [hp]

omit [DecidableEq β] in
/-- A group that is not large is left. -/
theorem Between.skip (h : Between env ctx w visited d d') {dir : String} (hdir : '/' ∉ dir.toList)
    (hnew : dir ∉ visited) (hsmall : Fs.countBelow d' dir ≤ promotionThreshold) :
    Between env ctx w (visited ++ [dir]) d d' := by
  have hlarge : d.isLarge dir = false := by
    rw [h.countBelow hdir hnew] at hsmall
    simp [DirV1.isLarge, Nat.not_lt.2 hsmall]
  refine ⟨h.magic, h.header, ?_, fun name => ?_, h.stored⟩
  · rw [h.files]
    congr 1
    funext k f
    rw [isMoved_append, hlarge, Bool.and_false, Bool.or_false]
  · rw [h.names, List.mem_append, List.mem_singleton, or_and_right]
    refine (or_iff_left ?_).symm
    rintro ⟨rfl, hl⟩
    rw [hlarge] at hl
    cases hl

omit [DecidableEq β] in
/-- A large group has become a directory. -/
theorem Between.promote (h : Between env ctx w visited d d') {dir : String}
    (hdir : '/' ∉ dir.toList) (hnew : dir ∉ visited)
    (hlarge : promotionThreshold < Fs.countBelow d' dir) {r : DirRef} {child : DirV1}
    (hs : Stored env ctx w r child)
    (hp : Promoted env ctx w (extractChildDirState d dir).2 child) :
    Between env ctx w (visited ++ [dir]) d { (extractChildDirState d' dir).1 with
      dirs := (extractChildDirState d' dir).1.dirs.insert dir r } := by
  have hlarge' : d.isLarge dir = true := by
    rw [h.countBelow hdir hnew] at hlarge
    simp [DirV1.isLarge, hdir, hlarge]
  refine ⟨h.magic, h.header, ?_, fun name => ?_, fun name r' hr => ?_⟩
  · show d'.files.filter (fun k _ => (stripDir dir k).isNone) = _
    refine ExtTreeMap.ext_getElem? fun k => ?_
    rw [h.files, ExtTreeMap.getElem?_filter', ExtTreeMap.getElem?_filter',
      ExtTreeMap.getElem?_filter', Option.filter_filter]
    congr 1
    funext f
    rw [isMoved_append, hlarge', Bool.and_true, ← isSome_stripDir hdir, Bool.not_or,
      Option.not_isSome]
  · show name ∈ d'.dirs.insert dir r ↔ _
    rw [ExtTreeMap.mem_insert, Std.compare_eq_iff_eq, h.names, List.mem_append, List.mem_singleton]
    constructor
    · rintro (rfl | ⟨hm, hl⟩)
      · exact ⟨.inr rfl, hlarge'⟩
      · exact ⟨.inl hm, hl⟩
    · rintro ⟨hm | rfl, hl⟩
      · exact .inr ⟨hm, hl⟩
      · exact .inl rfl
  · have hr' : (d'.dirs.insert dir r)[name]? = some r' := hr
    rw [ExtTreeMap.getElem?_insert] at hr'
    split at hr'
    · rename_i he
      obtain rfl := Std.compare_eq_iff_eq.1 he
      obtain rfl := Option.some.inj hr'
      exact ⟨child, hs, hp⟩
    · exact h.stored name r' hr'

/-- The groups that are left are visited one after the other. -/
theorem between_groups (hl : env.Lawful) {optimize : DirV1 → World β → World β × Except String DirV1}
    (hgrow : ∀ child (w : World β), w.Onward (optimize child w).1)
    (hopt : ∀ dir w w' c, d.isLarge dir = true →
      optimize (extractChildDirState d dir).2 w = (w', .ok c) → w'.collided = false →
      Promoted env ctx w' (extractChildDirState d dir).2 c) :
    ∀ (groups visited : List String) {d' r : DirV1} {w w' : World β},
      (∀ dir ∈ groups, '/' ∉ dir.toList) → (visited ++ groups).Nodup →
      Between env ctx w visited d d' → promoteGroups env optimize ctx groups d' w = (w', .ok r) →
      w'.collided = false → Between env ctx w' (visited ++ groups) d r
  | [], visited, d', r, w, w', _, _, h, hrun, _ => by
    cases hrun
    rw [List.append_nil]
    exact h
  | dir :: groups, visited, d', r, w, w', hslash, hnodup, h, hrun, hc => by
    have hdir := hslash dir (.head _)
    have hslash' : ∀ dir ∈ groups, '/' ∉ dir.toList := fun x hx => hslash x (.tail _ hx)
    rw [List.append_cons] at hnodup ⊢
    have hnew : dir ∉ visited := by
      have hpre := (List.nodup_append.1 hnodup).1
      exact fun hm => (List.nodup_append.1 hpre).2.2 dir hm dir List.mem_cons_self rfl
    unfold promoteGroups at hrun
    split at hrun
    · rename_i hsmall
      exact between_groups hl hgrow hopt groups _ hslash' hnodup (h.skip hdir hnew hsmall) hrun hc
    · rename_i hlarge
      dsimp only at hrun
      rw [h.extract_snd hdir hnew] at hrun
      cases ho : optimize (extractChildDirState d dir).2 w with
      | mk w1 res =>
        rw [ho] at hrun
        cases res with
        | error e => cases hrun
        | ok c =>
          dsimp only at hrun
          cases he : encodeChildDirBytes env ctx c w1 with
          | mk w2 rest =>
            obtain ⟨bytes, keys⟩ := rest
            rw [he] at hrun
            dsimp only at hrun
            cases hi : w2.importBytes env bytes with
            | mk w3 res =>
              rw [hi] at hrun
              cases res with
              | error e => cases hrun
              | ok k =>
                dsimp only at hrun
                have hg01 : w.Grows w1 := by
                  have hg := (hgrow (extractChildDirState d dir).2 w).grows
                  rwa [ho] at hg
                have hg13 : w1.Grows w3 := by
                  have hg12 := grows_encodeChildDirBytes env ctx c w1
                  have hg23 := World.grows_importBytes env w2 bytes
                  rw [he] at hg12
                  rw [hi] at hg23
                  exact hg12.trans hg23
                have hc3 : w3.collided = false := by
                  have hg := (onward_promoteGroups env ctx hgrow groups
                    { (extractChildDirState d' dir).1 with
                      dirs := (extractChildDirState d' dir).1.dirs.insert dir
                        (storedDirRef ctx k keys (env.utcNow w1.tick)) } w3).grows
                  rw [hrun] at hg
                  exact hg.collided hc
                obtain ⟨-, hstore⟩ := World.importBytes_ok hi hc3
                have hd : d.isLarge dir = true := by
                  rw [h.countBelow hdir hnew] at hlarge
                  simp [DirV1.isLarge, hdir, Nat.not_le.1 hlarge]
                have hp := hopt dir w w1 c hd ho (hg13.collided hc3)
                have hnext := (h.mono (hg01.trans hg13)).promote hdir hnew (Nat.not_le.1 hlarge)
                  (stored_encoded hl (env.utcNow w1.tick) he hstore) (hp.mono hg13)
                exact between_groups hl hgrow hopt groups _ hslash' hnodup hnext hrun hc

omit [DecidableEq β] in
theorem between_nil (hd : d.dirs = ∅) : Between env ctx w [] d d := by
  refine ⟨rfl, rfl, ?_, fun name => ?_, fun name r hr => ?_⟩
  · refine ExtTreeMap.ext_getElem? fun k => ?_
    have hmoved : d.isMoved [] k = false := by simp [DirV1.isMoved]
    rw [ExtTreeMap.getElem?_filter', hmoved]
    cases d.files[k]? <;> rfl
  · simp [hd]
  · rw [hd] at hr
    simp at hr

theorem isLarge_iff {name : String} : d.isLarge name = true ↔
    '/' ∉ name.toList ∧ promotionThreshold < countBelow d name := by
  unfold DirV1.isLarge
  rw [Bool.and_eq_true, decide_eq_true_eq, decide_eq_true_eq]

/-- A large group has a key. -/
theorem exists_key_of_large {name : String} (h : promotionThreshold < countBelow d name) :
    ∃ rest, name ++ "/" ++ rest ∈ d.files := by
  unfold countBelow at h
  obtain ⟨k, hk⟩ := List.exists_mem_of_length_pos (Nat.lt_of_le_of_lt (Nat.zero_le _) h)
  rw [List.mem_filter, ExtTreeMap.mem_keys] at hk
  obtain ⟨rest, hr⟩ := Option.isSome_iff_exists.1 hk.2
  exact ⟨rest, eq_join_of_stripDir hr ▸ hk.1⟩

theorem nodup_eraseDups (l : List String) : l.eraseDups.Nodup := by
  induction hn : l.length using Nat.strongRecOn generalizing l with
  | ind n ih =>
    cases l with
    | nil => exact List.nodup_nil
    | cons x l =>
      have hlen : (l.filter fun y => !y == x).length < n := by
        have hle := List.length_filter_le (fun y => !y == x) l
        simp only [List.length_cons] at hn
        omega
      rw [List.eraseDups_cons, List.nodup_cons]
      refine ⟨fun hm => ?_, ih _ hlen _ rfl⟩
      rw [List.mem_eraseDups, List.mem_filter] at hm
      simp at hm

theorem mem_firstSegments {name : String} :
    name ∈ firstSegments d ↔ ∃ k ∈ d.files, (splitOnce k).map (·.1) = some name := by
  unfold firstSegments
  rw [List.mem_eraseDups, List.mem_filterMap]
  simp only [ExtTreeMap.mem_keys]

theorem mem_firstSegments_of_isLarge {name : String} (h : d.isLarge name = true) :
    name ∈ firstSegments d := by
  obtain ⟨hslash, hlarge⟩ := isLarge_iff.1 h
  obtain ⟨rest, hk⟩ := exists_key_of_large hlarge
  refine mem_firstSegments.2 ⟨_, hk, ?_⟩
  rw [(stripDir_eq_some_iff hslash).1 (stripDir_join name rest)]
  rfl

omit [DecidableEq β] in
/-- All groups have been visited. -/
theorem Between.promoted (h : Between env ctx w visited d d')
    (hall : ∀ name, d.isLarge name = true → name ∈ visited) : Promoted env ctx w d d' := by
  have hchild : ∀ name : String, ∃ child, ∀ r, d'.dirs[name]? = some r →
      Stored env ctx w r child ∧ Promoted env ctx w (extractChildDirState d name).2 child := by
    intro name
    cases hr : d'.dirs[name]? with
    | none => exact ⟨.new, fun r h => by cases h⟩
    | some r =>
      obtain ⟨child, hs, hp⟩ := h.stored name r hr
      refine ⟨child, fun r' hr' => ?_⟩
      obtain rfl := Option.some.inj hr'
      exact ⟨hs, hp⟩
  choose child hchild using hchild
  refine .mk child h.magic h.header ?_ (fun name => ?_) (fun name r hr => (hchild name r hr).1)
    fun name hm => ?_
  · rw [h.files]
    congr 1
    funext k f
    congr 1
    unfold DirV1.isMoved DirV1.isGrouped
    congr 1
    funext p
    cases hp : d.isLarge p.1 with
    | false => simp
    | true => simp [hall p.1 hp]
  · rw [h.names]
    exact ⟨fun hn => hn.2, fun hl => ⟨hall name hl, hl⟩⟩
  · rw [ExtTreeMap.mem_iff_isSome_getElem?] at hm
    obtain ⟨r, hr⟩ := Option.isSome_iff_exists.1 hm
    exact (hchild name r hr).2

/-- The keys of a directory have at most so many characters. -/
def KeysUpTo (n : Nat) (d : DirV1) : Prop := ∀ k : String, k ∈ d.files → k.length ≤ n

/-- The keys of a child are shorter. -/
theorem KeysUpTo.child {n : Nat} (h : KeysUpTo n d) {dir : String}
    (hl : promotionThreshold < countBelow d dir) :
    ∃ m, n = m + 1 ∧ KeysUpTo m (extractChildDirState d dir).2 := by
  have hlen : ∀ rest : String, (dir ++ "/" ++ rest).length = dir.length + 1 + rest.length := by
    intro rest
    rw [String.length_append, String.length_append]
    rfl
  obtain ⟨rest, hk⟩ := exists_key_of_large hl
  have hpos := h _ hk
  rw [hlen] at hpos
  refine ⟨n - 1, by omega, fun k hm => ?_⟩
  rw [ExtTreeMap.mem_iff_isSome_getElem?, extractChildDirState_snd_files,
    ← ExtTreeMap.mem_iff_isSome_getElem?] at hm
  have hle := h _ hm
  rw [hlen] at hle
  omega

theorem le_foldl_max (ks : List String) : ∀ n, n ≤ ks.foldl (fun n k => max n k.length) n ∧
    ∀ k ∈ ks, k.length ≤ ks.foldl (fun n k => max n k.length) n := by
  induction ks with
  | nil => exact fun n => ⟨Nat.le_refl n, fun _ hk => absurd hk List.not_mem_nil⟩
  | cons x ks ih =>
    intro n
    obtain ⟨h1, h2⟩ := ih (max n x.length)
    rw [List.foldl_cons]
    refine ⟨by omega, fun k hk => ?_⟩
    rcases List.mem_cons.1 hk with rfl | hk
    · omega
    · exact h2 k hk

theorem keysUpTo_promotionDepth (d : DirV1) : ∃ n, promotionDepth d = n + 1 ∧ KeysUpTo n d := by
  refine ⟨_, rfl, fun k hk => ?_⟩
  exact (le_foldl_max d.files.keys 0).2 k (ExtTreeMap.mem_keys.2 hk)

end

section
variable {stop stop' : DirV1 → World β → World β × Except String DirV1} {order : GroupOrder}

/-- **Whatever order the groups are visited in**, a directory is promoted. -/
theorem promoted_optimizeFrom (hl : env.Lawful) (hstop : ∀ d (w : World β), w.Onward (stop d w).1)
    (horder : ∀ t d groups, (order t d groups).Perm groups) :
    ∀ (n : Nat) {d : DirV1} {w w' : World β} {r : DirV1}, d.dirs = ∅ → KeysUpTo n d →
      optimizeFrom env stop order ctx (n + 1) d w = (w', .ok r) → w'.collided = false →
      Promoted env ctx w' d r := by
  intro n
  induction n using Nat.strongRecOn with
  | ind n ih =>
    intro d w w' r hd hn hrun hc
    have hperm := horder w.tick d (firstSegments d)
    have hbetween : Between env ctx w' ([] ++ order w.tick d (firstSegments d)) d r := by
      refine between_groups hl (onward_optimizeFrom hstop order ctx n) ?_ _ []
        ?_ ?_ (between_nil hd) hrun hc
      · intro dir w1 w2 c hlarge hc1 hcol
        obtain ⟨m, rfl, hm⟩ := hn.child (isLarge_iff.1 hlarge).2
        exact ih m (Nat.lt_succ_self m) rfl hm hc1 hcol
      · intro dir hdir
        obtain ⟨k, -, hk⟩ := mem_firstSegments.1 (hperm.mem_iff.1 hdir)
        obtain ⟨⟨a, rest⟩, hs, rfl⟩ := Option.map_eq_some_iff.1 hk
        exact (splitOnce_eq_some.1 hs).2
      · rw [List.nil_append]
        exact hperm.nodup_iff.2 (nodup_eraseDups _)
    refine hbetween.promoted fun name hlarge => ?_
    rw [List.nil_append]
    exact hperm.mem_iff.2 (mem_firstSegments_of_isLarge hlarge)

/-! ## The recursion ends -/

theorem promoteGroups_congr {f g : DirV1 → World β → World β × Except String DirV1} {n : Nat}
    (h : ∀ m d w, n = m + 1 → KeysUpTo m d → f d w = g d w) :
    ∀ (groups : List String) {d : DirV1} {w : World β}, KeysUpTo n d →
      promoteGroups env f ctx groups d w = promoteGroups env g ctx groups d w
  | [], _, _, _ => rfl
  | dir :: groups, d, w, hd => by
    unfold promoteGroups
    split
    · exact promoteGroups_congr h groups hd
    · rename_i hlarge
      obtain ⟨m, hn, hm⟩ := hd.child (Nat.not_le.1 hlarge)
      dsimp only
      rw [h m _ w hn hm]
      generalize g (extractChildDirState d dir).2 w = r1
      rcases r1 with ⟨w1, e | c⟩
      · rfl
      · dsimp only
        generalize encodeChildDirBytes env ctx c w1 = r2
        obtain ⟨w2, bytes, keys⟩ := r2
        dsimp only
        generalize w2.importBytes env bytes = r3
        rcases r3 with ⟨w3, e | k⟩
        · rfl
        · refine promoteGroups_congr h groups fun k hk => hd k ?_
          have hk' : k ∈ (extractChildDirState d dir).1.files := hk
          rw [ExtTreeMap.mem_iff_isSome_getElem?, extractChildDirState_fst_files] at hk'
          rw [ExtTreeMap.mem_iff_isSome_getElem?]
          split at hk'
          · cases hk'
          · exact hk'

/-- **The recursion ends** before it gets as deep as the longest key: what happens there is of no
matter. -/
theorem optimizeFrom_eq (stop stop' : DirV1 → World β → World β × Except String DirV1) :
    ∀ (n depth depth' : Nat) {d : DirV1} {w : World β}, KeysUpTo n d → n < depth → n < depth' →
      optimizeFrom env stop order ctx depth d w = optimizeFrom env stop' order ctx depth' d w := by
  intro n
  induction n using Nat.strongRecOn with
  | ind n ih =>
    intro depth depth' d w hd h h'
    obtain ⟨a, rfl⟩ := Nat.exists_eq_add_of_lt h
    obtain ⟨b, rfl⟩ := Nat.exists_eq_add_of_lt h'
    simp only [optimizeFrom]
    refine promoteGroups_congr (fun m d w hm hk => ?_) _ hd
    subst hm
    exact ih m (Nat.lt_succ_self m) _ _ hk (by omega) (by omega)

/-! ## Failures -/

omit [DecidableEq β] in
theorem tick_encodeChildDirBytes (env : Env β) (ctx : DirContext ι) (d : DirV1) (w : World β) :
    w.tick ≤ (encodeChildDirBytes env ctx d w).1.tick := by
  unfold encodeChildDirBytes
  dsimp only
  split
  · exact Nat.le_succ _
  · exact Nat.le_refl _

/-- A write that has failed is one of those between two times. -/
def FailedBetween (env : Env β) (w w' : World β) : Prop :=
  ∃ n, w.tick ≤ n ∧ n < w'.tick ∧ env.storeFails n = true

/-- Promotion fails only if a store write does. -/
theorem failed_promoteGroups {optimize : DirV1 → World β → World β × Except String DirV1}
    (hgrow : ∀ child (w : World β), w.Onward (optimize child w).1)
    (hopt : ∀ child w w' e, optimize child w = (w', .error e) → FailedBetween env w w') :
    ∀ (groups : List String) {d : DirV1} {w w' : World β} {e : String},
      promoteGroups env optimize ctx groups d w = (w', .error e) → FailedBetween env w w'
  | [], d, w, w', e, h => by cases h
  | dir :: groups, d, w, w', e, h => by
    unfold promoteGroups at h
    split at h
    · exact failed_promoteGroups hgrow hopt groups h
    · dsimp only at h
      have h1 := (hgrow (extractChildDirState d dir).2 w).tick
      have ho := hopt (extractChildDirState d dir).2 w
      generalize optimize (extractChildDirState d dir).2 w = r1 at h h1 ho
      rcases r1 with ⟨w1, e1 | c⟩
      · cases h
        exact ho _ _ rfl
      · dsimp only at h h1
        have h2 := tick_encodeChildDirBytes env ctx c w1
        generalize encodeChildDirBytes env ctx c w1 = r2 at h h2
        obtain ⟨w2, bytes, keys⟩ := r2
        dsimp only at h h2
        have himport : ∀ e, (w2.importBytes env bytes).2 = .error e →
            env.storeFails w2.tick = true ∧ (w2.importBytes env bytes).1 = w2.next := by
          intro e he
          unfold World.importBytes at he ⊢
          dsimp only at he ⊢
          split
          · rename_i hf
            exact ⟨hf, rfl⟩
          · rename_i hf
            rw [if_neg hf] at he
            split at he
            · cases he
            · cases he
        have h3 := (World.onward_importBytes env w2 bytes).tick
        generalize w2.importBytes env bytes = r3 at h h3 himport
        rcases r3 with ⟨w3, e3 | k⟩
        · cases h
          obtain ⟨hf, hw⟩ := himport _ rfl
          dsimp only at hw
          rw [hw]
          exact ⟨w2.tick, by omega, Nat.lt_succ_self _, hf⟩
        · dsimp only at h h3
          obtain ⟨n, hn, hn', hf⟩ := failed_promoteGroups hgrow hopt groups h
          exact ⟨n, by omega, hn', hf⟩

theorem failed_optimizeFrom (order : GroupOrder) (ctx : DirContext ι) :
    ∀ (depth : Nat) (d : DirV1) (w w' : World β) (e : String),
      optimizeFrom env (fun state w => (w, .ok state)) order ctx depth d w = (w', .error e) →
      FailedBetween env w w'
  | 0, d, w, w', e, h => by cases h
  | depth + 1, d, w, w', e, h =>
    failed_promoteGroups (onward_optimizeFrom (fun _ w => .refl w) order ctx depth)
      (failed_optimizeFrom order ctx depth) _ h

/-! ## Flattening -/

theorem mapM_eq_some {α γ : Type} {f : α → Option γ} {g : α → γ} :
    ∀ {l : List α}, (∀ x ∈ l, f x = some (g x)) → l.mapM f = some (l.map g)
  | [], _ => rfl
  | x :: l, h => by
    rw [List.mapM_cons, h x (.head _), mapM_eq_some fun y hy => h y (.tail _ hy)]
    rfl

/-- The files of the children, under their paths. -/
theorem isGrouped_iff {d : DirV1} {k : String} : d.isGrouped k = true ↔
    ∃ name rest, k = name ++ "/" ++ rest ∧ d.isLarge name = true := by
  unfold DirV1.isGrouped
  rw [Option.any_eq_true]
  constructor
  · rintro ⟨⟨name, rest⟩, hs, hl⟩
    have hk := (splitOnce_eq_some.1 hs).1
    exact ⟨name, rest, eq_join_of_stripDir (stripDir_eq_some.2 hk), hl⟩
  · rintro ⟨name, rest, rfl, hl⟩
    have hs := (stripDir_eq_some_iff (isLarge_iff.1 hl).1).1 (stripDir_join name rest)
    exact ⟨(name, rest), hs, hl⟩

theorem join_eq_join {a b x y : String} (ha : '/' ∉ a.toList) (hb : '/' ∉ b.toList)
    (h : a ++ "/" ++ x = b ++ "/" ++ y) : a = b ∧ x = y := by
  have h1 := (stripDir_eq_some_iff ha).1 (stripDir_join a x)
  have h2 := (stripDir_eq_some_iff hb).1 (stripDir_join b y)
  rw [h, h2] at h1
  obtain ⟨rfl, rfl⟩ := Prod.mk.inj (Option.some.inj h1)
  exact ⟨rfl, rfl⟩

omit [DecidableEq β] in
/-- **A promoted directory flattens to the files it was made of.** -/
theorem Promoted.flatten {d d' : DirV1} (h : Promoted env ctx w d d') :
    ∀ {n : Nat}, KeysUpTo n d →
      ∃ l, Fs.flatten env w (n + 1) d' = some l ∧ l.Perm d.files.toList := by
  induction h with
  | @mk d d' child magic header files names stored below ih =>
    intro n hn
    -- each child flattens to the files of its group
    have hbelow : ∀ x ∈ d'.dirs.toList, ∃ l,
        (do let c ← openRef env w x.2; return joined x.1 (← Fs.flatten env w n c)) =
          some (joined x.1 l) ∧ l.Perm (extractChildDirState d x.1).2.files.toList := by
      rintro ⟨name, r⟩ hx
      have hr : d'.dirs[name]? = some r := ExtTreeMap.mem_toList_iff_getElem?_eq_some.1 hx
      have hm : name ∈ d'.dirs := by
        rw [ExtTreeMap.mem_iff_isSome_getElem?, hr]
        rfl
      obtain ⟨m, rfl, hm'⟩ := hn.child (isLarge_iff.1 ((names name).1 hm)).2
      obtain ⟨l, hl, hp⟩ := ih name hm hm'
      refine ⟨l, ?_, hp⟩
      simp only [(stored name r hr).2.2, hl, Option.bind_eq_bind, Option.bind_some]
      rfl
    choose! part hpart hperm using hbelow
    have hflat : Fs.flatten env w (n + 1) d' = some (d'.files.toList ++
        (d'.dirs.toList.map fun x => joined x.1 (part x)).flatten) := by
      unfold Fs.flatten
      rw [mapM_eq_some hpart]
      rfl
    have hlarge : ∀ x ∈ d'.dirs.toList, d.isLarge x.1 = true := by
      intro x hx
      refine (names x.1).1 ?_
      rw [ExtTreeMap.mem_iff_isSome_getElem?, ExtTreeMap.mem_toList_iff_getElem?_eq_some.1 hx]
      rfl
    have hmem : ∀ x ∈ d'.dirs.toList, ∀ k f, (k, f) ∈ joined x.1 (part x) ↔
        ∃ sub, k = x.1 ++ "/" ++ sub ∧ d.files[k]? = some f := by
      intro x hx k f
      unfold joined
      simp only [List.mem_map, Prod.mk.injEq, Prod.exists]
      constructor
      · rintro ⟨sub, f', hsub, rfl, rfl⟩
        rw [(hperm x hx).mem_iff, ExtTreeMap.mem_toList_iff_getElem?_eq_some,
          extractChildDirState_snd_files] at hsub
        exact ⟨sub, rfl, hsub⟩
      · rintro ⟨sub, rfl, hf⟩
        refine ⟨sub, f, ?_, rfl, rfl⟩
        rw [(hperm x hx).mem_iff, ExtTreeMap.mem_toList_iff_getElem?_eq_some,
          extractChildDirState_snd_files]
        exact hf
    refine ⟨_, hflat, (List.perm_ext_iff_of_nodup ?_ (ExtTreeMap.nodup_toList _)).2 ?_⟩
    · rw [List.nodup_append, List.nodup_flatten]
      refine ⟨ExtTreeMap.nodup_toList _, ⟨?_, ?_⟩, ?_⟩
      · intro l hl
        obtain ⟨x, hx, rfl⟩ := List.mem_map.1 hl
        have hpart : (part x).Nodup := (hperm x hx).nodup_iff.2 (ExtTreeMap.nodup_toList _)
        refine hpart.map fun a b he => ?_
        obtain ⟨hk, hf⟩ := Prod.mk.inj he
        exact Prod.ext (join_injective hk) hf
      · -- different directories have different paths below them
        rw [List.pairwise_map]
        refine List.Pairwise.imp_of_mem ?_ (ExtTreeMap.distinct_keys_toList (t := d'.dirs))
        rintro x y hx hy hne ⟨k, f⟩ hkx hky
        obtain ⟨a, ha, -⟩ := (hmem x hx k f).1 hkx
        obtain ⟨b, hb, -⟩ := (hmem y hy k f).1 hky
        have he := (join_eq_join (isLarge_iff.1 (hlarge x hx)).1 (isLarge_iff.1 (hlarge y hy)).1
          (ha.symm.trans hb)).1
        exact hne (Std.compare_eq_iff_eq.2 he)
      · rintro ⟨k, f⟩ hk y hy rfl
        obtain ⟨l, hl, hkl⟩ := List.mem_flatten.1 hy
        obtain ⟨x, hx, rfl⟩ := List.mem_map.1 hl
        obtain ⟨sub, rfl, -⟩ := (hmem x hx k f).1 hkl
        have hgrouped : d.isGrouped (x.1 ++ "/" ++ sub) = true :=
          isGrouped_iff.2 ⟨_, _, rfl, hlarge x hx⟩
        rw [ExtTreeMap.mem_toList_iff_getElem?_eq_some, files, ExtTreeMap.getElem?_filter',
          hgrouped] at hk
        simp at hk
    · rintro ⟨k, f⟩
      rw [List.mem_append, List.mem_flatten, ExtTreeMap.mem_toList_iff_getElem?_eq_some,
        ExtTreeMap.mem_toList_iff_getElem?_eq_some]
      constructor
      · rintro (hk | ⟨l, hl, hkl⟩)
        · rw [files, ExtTreeMap.getElem?_filter', Option.filter_eq_some_iff] at hk
          exact hk.1
        · obtain ⟨x, hx, rfl⟩ := List.mem_map.1 hl
          exact ((hmem x hx k f).1 hkl).elim fun _ h => h.2
      · intro hk
        cases hg : d.isGrouped k with
        | false =>
          left
          rw [files, ExtTreeMap.getElem?_filter', hk]
          simp [hg]
        | true =>
          right
          obtain ⟨name, rest, rfl, hl⟩ := isGrouped_iff.1 hg
          have hm : name ∈ d'.dirs := (names name).2 hl
          rw [ExtTreeMap.mem_iff_isSome_getElem?] at hm
          obtain ⟨r, hr⟩ := Option.isSome_iff_exists.1 hm
          have hx : (name, r) ∈ d'.dirs.toList := ExtTreeMap.mem_toList_iff_getElem?_eq_some.2 hr
          exact ⟨_, List.mem_map.2 ⟨(name, r), hx, rfl⟩, (hmem (name, r) hx _ f).2 ⟨rest, rfl, hk⟩⟩

/-! ## Group sizes -/

theorem groupSize_eq_countBelow (d : DirV1) {segment : String} (h : '/' ∉ segment.toList) :
    groupSize d segment = countBelow d segment := by
  unfold groupSize countBelow
  congr 1
  exact List.filter_congr fun k _ => (isSome_stripDir h).symm

omit [DecidableEq β] in
/-- **No level has a large group.** -/
theorem Promoted.groupSize_le {d d' e : DirV1} (h : Promoted env ctx w d d')
    (he : Level env w d' e) (segment : String) : groupSize e segment ≤ promotionThreshold := by
  induction h generalizing e with
  | @mk d d' child magic header files names stored below ih =>
    cases he with
    | child hr ho hlevel =>
      rename_i name r
      have hm : name ∈ d'.dirs := by
        rw [ExtTreeMap.mem_iff_isSome_getElem?, hr]
        rfl
      obtain rfl := Option.some.inj (ho.symm.trans (stored name r hr).2.2)
      exact ih name hm hlevel
    | self =>
      have hkeys : d'.files.keys = d.files.keys.filter fun k => !d.isGrouped k := by
        rw [files, ExtTreeMap.keys_filter_key]
      unfold groupSize
      rw [hkeys, List.filter_filter]
      by_cases hslash : '/' ∈ segment.toList
      · -- a first segment has no slash
        have hnone : (d.files.keys.filter fun k =>
            decide ((splitOnce k).map (·.1) = some segment) && !d.isGrouped k) = [] := by
          rw [List.filter_eq_nil_iff]
          intro k _ hk
          rw [Bool.and_eq_true, decide_eq_true_eq, Option.map_eq_some_iff] at hk
          obtain ⟨⟨⟨a, rest⟩, hs, rfl⟩, -⟩ := hk
          exact (splitOnce_eq_some.1 hs).2 hslash
        rw [hnone]
        exact Nat.zero_le _
      · cases hl : d.isLarge segment with
        | true =>
          have hnone : (d.files.keys.filter fun k =>
              decide ((splitOnce k).map (·.1) = some segment) && !d.isGrouped k) = [] := by
            rw [List.filter_eq_nil_iff]
            intro k _ hk
            rw [Bool.and_eq_true, decide_eq_true_eq, Option.map_eq_some_iff] at hk
            obtain ⟨⟨⟨a, rest⟩, hs, rfl⟩, hg⟩ := hk
            simp [DirV1.isGrouped, hs, hl] at hg
          rw [hnone]
          exact Nat.zero_le _
        | false =>
          have hle : countBelow d segment ≤ promotionThreshold := by
            refine Nat.not_lt.1 fun hlt => ?_
            rw [isLarge_iff.2 ⟨hslash, hlt⟩] at hl
            cases hl
          rw [← groupSize_eq_countBelow d hslash] at hle
          refine Nat.le_trans (List.Sublist.length_le ?_) hle
          refine List.monotone_filter_right _ fun k hk => ?_
          rw [Bool.and_eq_true] at hk
          exact hk.1

/-! ## Orders -/

omit [DecidableEq β] in
/-- **What is promoted is always the same.** -/
theorem Promoted.same {d d' e' : DirV1} {w' : World β} (h : Promoted env ctx w d d')
    (h' : Promoted env ctx w' d e') : Same env w w' d' e' := by
  induction h generalizing e' with
  | @mk d d' child magic header files names stored below ih =>
    cases h' with
    | mk child2 magic2 header2 files2 names2 stored2 below2 =>
      refine .mk (magic.trans magic2.symm) (header.trans header2.symm) (files.trans files2.symm)
        (fun name => (names name).trans (names2 name).symm) ?_ ?_ ?_ ?_
      · intro name r hr
        rw [(stored name r hr).2.2]
        exact Option.some_ne_none _
      · intro name r hr
        rw [(stored2 name r hr).2.2]
        exact Option.some_ne_none _
      · intro name r r' hr hr'
        obtain ⟨⟨now, h1⟩, hk, -⟩ := stored name r hr
        obtain ⟨⟨now', h1'⟩, hk', -⟩ := stored2 name r' hr'
        refine ⟨?_, ?_, ?_, hk.trans hk'.symm⟩
        · rw [h1, h1']
          rfl
        · rw [h1, h1']
          rfl
        · rw [h1, h1']
          rfl
      · intro name r r' c c' hr hr' hc hc'
        obtain rfl := Option.some.inj (hc.symm.trans (stored name r hr).2.2)
        obtain rfl := Option.some.inj (hc'.symm.trans (stored2 name r' hr').2.2)
        have hm : name ∈ d'.dirs := by
          rw [ExtTreeMap.mem_iff_isSome_getElem?, hr]
          rfl
        have hm' : name ∈ e'.dirs := by
          rw [ExtTreeMap.mem_iff_isSome_getElem?, hr']
          rfl
        exact ih name hm (below2 name hm')

end

/-- What `optimize_dir_structure` results in, whatever the order of the groups. -/
theorem promoted_optimizeDirStructureIn (hl : env.Lawful) {order : GroupOrder}
    (horder : ∀ t d groups, (order t d groups).Perm groups) {ctx : DirContext ι} {state : DirV1}
    (hd : state.dirs = ∅) {w w' : World β} {r : DirV1}
    (hrun : optimizeDirStructureIn env order ctx state w = (w', .ok r)) (hc : w'.collided = false) :
    Promoted env ctx w' state r := by
  obtain ⟨n, hdepth, hn⟩ := keysUpTo_promotionDepth state
  unfold optimizeDirStructureIn at hrun
  rw [hdepth] at hrun
  exact promoted_optimizeFrom hl (fun _ w => .refl w) horder n hd hn hrun hc

/-- **Promotion preserves the file tree.** For every order of the groups the recursion ends, and it
fails only if a store write fails. What it results in flattens to the files it was given, has no large
group at any level, and is the same for every other order and any other time. -/
theorem promotion_preserves (hl : env.Lawful) (ctx : DirContext ι) (state : DirV1)
    (hd : state.dirs = ∅) (order : GroupOrder)
    (horder : ∀ t d groups, (order t d groups).Perm groups) (w : World β) :
    (∀ stop depth, promotionDepth state ≤ depth →
      optimizeFrom env stop order ctx depth state w = optimizeDirStructureIn env order ctx state w) ∧
    (∀ w' e, optimizeDirStructureIn env order ctx state w = (w', .error e) →
      FailedBetween env w w') ∧
    ∀ w' r, optimizeDirStructureIn env order ctx state w = (w', .ok r) → w'.collided = false →
      (∃ fuel l, flatten env w' fuel r = some l ∧ l.Perm state.files.toList) ∧
      (∀ d segment, Level env w' r d → groupSize d segment ≤ promotionThreshold) ∧
      ∀ (order2 : GroupOrder), (∀ t d groups, (order2 t d groups).Perm groups) → ∀ w2 w2' r2,
        optimizeDirStructureIn env order2 ctx state w2 = (w2', .ok r2) → w2'.collided = false →
        Same env w' w2' r r2 := by
  obtain ⟨n, hdepth, hn⟩ := keysUpTo_promotionDepth state
  refine ⟨fun stop depth hle => ?_, fun w' e he => ?_, fun w' r hrun hc => ⟨?_, ?_, ?_⟩⟩
  · exact optimizeFrom_eq _ _ n _ _ hn (by omega) (by omega)
  · exact failed_optimizeFrom order ctx _ _ _ _ _ he
  · obtain ⟨l, hflat, hperm⟩ := (promoted_optimizeDirStructureIn hl horder hd hrun hc).flatten hn
    exact ⟨n + 1, l, hflat, hperm⟩
  · intro d segment hlevel
    exact (promoted_optimizeDirStructureIn hl horder hd hrun hc).groupSize_le hlevel segment
  · intro order2 horder2 w2 w2' r2 hrun2 hc2
    exact (promoted_optimizeDirStructureIn hl horder hd hrun hc).same
      (promoted_optimizeDirStructureIn hl horder2 hd hrun2 hc2)

end

/-- Eleven files two directories down, and a file with the name of the first of them. -/
def nestedFiles : DirV1 :=
  { DirV1.new with
    files := ["a", "b", "c", "d", "e", "f", "g", "h", "i", "j", "k"].foldl
      (fun m name => m.insert ("d/e/" ++ name) (.new 1 1))
      ((∅ : ExtTreeMap String FileRef).insert "d" (.new 2 2)) }

theorem promotion_preserves_nestedFiles : ∃ w r l, optimizeDirStructureIn (symbolic xxh3Short)
      (fun _ _ groups => groups.reverse) (.newEncryptedRegistry 1 2 3 : DirContext Unit) nestedFiles
      emptyWorld = (w, .ok r) ∧
    r.dirs.keys = ["d"] ∧ r.files.keys = ["d"] ∧ (∃ fuel, flatten (symbolic xxh3Short) w fuel r = some l) ∧
    l.Perm nestedFiles.files.toList := by
  have hall := promotion_preserves (symbolic_lawful xxh3Short)
    (.newEncryptedRegistry 1 2 3 : DirContext Unit) nestedFiles rfl (fun _ _ groups => groups.reverse)
    (fun _ _ groups => groups.reverse_perm) emptyWorld
  have hok : ((optimizeDirStructureIn (symbolic xxh3Short) (fun _ _ groups => groups.reverse)
      (.newEncryptedRegistry 1 2 3 : DirContext Unit) nestedFiles emptyWorld).2.toOption.map
        fun r => (r.dirs.keys, r.files.keys)) = some (["d"], ["d"]) ∧
      (optimizeDirStructureIn (symbolic xxh3Short) (fun _ _ groups => groups.reverse)
        (.newEncryptedRegistry 1 2 3 : DirContext Unit) nestedFiles emptyWorld).1.collided = false := by
    decide +kernel
  generalize optimizeDirStructureIn (symbolic xxh3Short) (fun _ _ groups => groups.reverse)
    (.newEncryptedRegistry 1 2 3 : DirContext Unit) nestedFiles emptyWorld = res at hall hok ⊢
  rcases res with ⟨w, e | r⟩
  · cases hok.1
  · obtain ⟨⟨fuel, l, hflat, hperm⟩, -⟩ := hall.2.2 w r rfl hok.2
    obtain ⟨hdirs, hfiles⟩ := Prod.mk.inj (Option.some.inj hok.1)
    exact ⟨w, r, l, rfl, hdirs, hfiles, ⟨fuel, hflat⟩, hperm⟩

end Fs
