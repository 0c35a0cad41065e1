import S5.Fs.Api
import S5.Fs.Proof.Merge
import S5.Fs.Proof.ShardFails

/-!
# Merging a snapshot of one's own

A root that is worked on keeps its names, and each of them gets younger (`DirV1.Ages`), as long as no
operation puts an entry in the place of a younger one or gives a name to both a file and a directory
(`Timely`).

* `ages_step`: what one operation does to the root.
* `merge_older`: a merge of what the root has been is not noticed.
* `own_snapshot_absorbed`: merging a snapshot that was exported earlier changes no answer of `file_get`.
-/

open Std

namespace Fs

/-! ## Ages of a directory -/

/-- `cur` is what has become of the directory `old`: no directory is gone and no file, unless it has
moved below a directory, and nothing has become older. -/
structure DirV1.Ages (old cur : DirV1) : Prop where
  dirs : ∀ (n : String) (d : DirRef), old.dirs[n]? = some d →
    ∃ d', cur.dirs[n]? = some d' ∧ dirTs d ≤ dirTs d'
  files : ∀ (k : String) (f : FileRef), old.files[k]? = some f → k ∉ cur.dirs ∧
    ((∃ f', cur.files[k]? = some f' ∧ fileTs f ≤ fileTs f') ∨ (splitPath k).1 ∈ cur.dirs)
  /-- Promotion is for first segments. -/
  slashFree : ∀ n ∈ cur.dirs, n ∉ old.dirs → '/' ∉ n.toList

namespace DirV1

variable {old mid cur : DirV1}

theorem Ages.mem_dirs (h : old.Ages cur) {n : String} (hn : n ∈ old.dirs) : n ∈ cur.dirs := by
  obtain ⟨d, hd⟩ := Option.isSome_iff_exists.1 (ExtTreeMap.mem_iff_isSome_getElem?.1 hn)
  obtain ⟨d', hd', -⟩ := h.dirs n d hd
  rw [ExtTreeMap.mem_iff_isSome_getElem?, hd']
  rfl

theorem Apart.not_mem_dirs (h : old.Apart) {k : String} {f : FileRef} (hf : old.files[k]? = some f) :
    k ∉ old.dirs := by
  intro hd
  refine h k hd ?_
  rw [ExtTreeMap.mem_iff_isSome_getElem?, hf]
  rfl

theorem Ages.refl (h : old.Apart) : old.Ages old where
  dirs _ d hd := ⟨d, hd, Nat.le_refl _⟩
  files _ f hf := ⟨h.not_mem_dirs hf, .inl ⟨f, hf, Nat.le_refl _⟩⟩
  slashFree _ hn hnot := absurd hn hnot

theorem Ages.trans (h : old.Ages mid) (h' : mid.Ages cur) : old.Ages cur where
  dirs n d hd := by
    obtain ⟨d1, hd1, hle1⟩ := h.dirs n d hd
    obtain ⟨d2, hd2, hle2⟩ := h'.dirs n d1 hd1
    exact ⟨d2, hd2, Nat.le_trans hle1 hle2⟩
  files k f hf := by
    obtain ⟨hk, ⟨f1, hf1, hle1⟩ | hmoved⟩ := h.files k f hf
    · obtain ⟨hk', ⟨f2, hf2, hle2⟩ | hmoved⟩ := h'.files k f1 hf1
      · exact ⟨hk', .inl ⟨f2, hf2, Nat.le_trans hle1 hle2⟩⟩
      · exact ⟨hk', .inr hmoved⟩
    · refine ⟨fun hk' => ?_, .inr (h'.mem_dirs hmoved)⟩
      -- a name without a slash is its own first segment
      have hfree := h'.slashFree k hk' hk
      rw [splitPath_of_slash_free hfree] at hmoved
      exact hk hmoved
  slashFree n hn hnot := by
    by_cases hm : n ∈ mid.dirs
    · exact h.slashFree n hm hnot
    · exact h'.slashFree n hn hm

/-! ## Merging what it was -/

/-- Under every name the local entry stays, but for files that are out of reach. -/
theorem Ages.lww (h : old.Ages cur) (ho : old.Apart) (hc : cur.Apart) (n : String) :
    lww ⟨cur.dirs[n]?, cur.files[n]?, false⟩ old.dirs[n]? old.files[n]? =
        ⟨cur.dirs[n]?, cur.files[n]?, false⟩ ∨
      (splitPath n).1 ∈ cur.dirs ∧ ∃ f,
        lww ⟨cur.dirs[n]?, cur.files[n]?, false⟩ old.dirs[n]? old.files[n]? =
          ⟨cur.dirs[n]?, some f, false⟩ := by
  rcases ho.cases n with ⟨hd, hf, -⟩ | ⟨d, hd, hf, -⟩ | ⟨f, hd, hf, -⟩
  · rw [hd, hf]
    exact .inl rfl
  · obtain ⟨d', hd', hle⟩ := h.dirs n d hd
    have hnone : cur.files[n]? = none := by
      have hmem : n ∈ cur.dirs := by
        rw [ExtTreeMap.mem_iff_isSome_getElem?, hd']
        rfl
      simpa using hc n hmem
    rw [hd, hf, hd', hnone]
    exact .inl (by simp [Fs.lww, lwwDir, Nat.not_lt.2 hle])
  · obtain ⟨hk, hage⟩ := h.files n f hf
    have hnone : cur.dirs[n]? = none := by simpa using hk
    rw [hd, hf, hnone]
    rcases hage with ⟨f', hf', hle⟩ | hmoved
    · rw [hf']
      exact .inl (by simp [Fs.lww, lwwFile, Nat.not_lt.2 hle])
    · cases hf' : cur.files[n]? with
      | none => exact .inr ⟨hmoved, f, by simp [Fs.lww, lwwFile]⟩
      | some f' =>
        by_cases hlt : fileTs f' < fileTs f
        · exact .inr ⟨hmoved, f, by simp [Fs.lww, lwwFile, hlt]⟩
        · exact .inl (by simp [Fs.lww, lwwFile, hlt])

theorem Ages.merged (h : old.Ages cur) (ho : old.Apart) (hc : cur.Apart) :
    (mergeEntriesLocal cur old.dirs old.files).dirs = cur.dirs ∧
      (mergeEntriesLocal cur old.dirs old.files).dropped = [] ∧
      ∀ k, (splitPath k).1 ∉ cur.dirs →
        (mergeEntriesLocal cur old.dirs old.files).files[k]? = cur.files[k]? := by
  have hat := mergeEntriesLocal_at cur old.dirs old.files
  generalize mergeEntriesLocal cur old.dirs old.files = m at hat
  have hdir : ∀ n : String, m.dirs[n]? = cur.dirs[n]? ∧ n ∉ m.dropped ∧
      ((splitPath n).1 ∉ cur.dirs → m.files[n]? = cur.files[n]?) := by
    intro n
    have hn := hat n
    rcases h.lww ho hc n with hl | ⟨hmoved, f, hl⟩
    · rw [hl] at hn
      simp only [Merging.at, Named.mk.injEq, decide_eq_false_iff_not] at hn
      exact ⟨hn.1, hn.2.2, fun _ => hn.2.1⟩
    · rw [hl] at hn
      simp only [Merging.at, Named.mk.injEq, decide_eq_false_iff_not] at hn
      exact ⟨hn.1, hn.2.2, fun hnot => absurd hmoved hnot⟩
  refine ⟨ExtTreeMap.ext_getElem? fun n => (hdir n).1, ?_, fun k => (hdir k).2.2⟩
  exact List.eq_nil_iff_forall_not_mem.2 fun n => (hdir n).2.1

end DirV1

namespace Actor

section
variable {β : Type} [DecidableEq β] {env : Env β} {w w' : World β} {regs : RegistryDirHandles}
  {order : GroupOrder} {a a' : Actor}

omit [DecidableEq β] in
/-- **A merge of what a directory has been is not noticed.** -/
theorem merge_older {old : DirV1} (h : old.Ages a.state) (ho : old.Apart) (ha : a.Plain)
    (hc : a.state.Apart) (w : World β) (fuel : Nat) :
    ∃ a', mergeSnapshot env w (fuel + 1) a old = (a', .ok ()) ∧ SameLookups env regs w a w a' := by
  obtain ⟨hdirs, hdropped, hfiles⟩ := h.merged ho hc
  refine ⟨((a.mergeLocal old).mergeHeader old.header).markAsDirty, ?_, fun path r => ?_⟩
  · unfold mergeSnapshot
    rw [ha.unsharded.shardLevel]
  · generalize hb : ((a.mergeLocal old).mergeHeader old.header).markAsDirty = b
    have hbc : b.context = a.context := by rw [← hb]; rfl
    have hbd : b.state.dirs = a.state.dirs := by rw [← hb]; exact hdirs
    have hbh : b.dirHandles = a.dirHandles := by
      rw [← hb]
      show a.dirHandles.filter _ = a.dirHandles
      rw [hdropped]
      simp
    have hbf : (splitPath path).1 ∉ a.state.dirs → b.state.files[path]? = a.state.files[path]? := by
      rw [← hb]
      exact hfiles path
    have hbu : b.Unsharded := by
      rw [← hb]
      exact ⟨ha.unsharded.shardLevel, ha.unsharded.shards, ha.unsharded.dirShardHandles⟩
    have hopen : openDir env w regs b (splitPath path).1 = openDir env w regs a (splitPath path).1 := by
      simp only [openDir, hbc, hbd, hbh]
    rw [reaches_plain ha.unsharded, reaches_plain hbu, hbd, hopen]
    by_cases hd : (splitPath path).1 ∈ a.state.dirs
    · rw [if_pos hd, if_pos hd]
    · rw [if_neg hd, if_neg hd, hbf hd]

/-! ## Operations -/

/-- An operation on a file that ages the root: where the root itself handles it, the entry it leaves is
not older than the one it finds, has no directory of its name beside it, and does not set off a
promotion for the name of a file. -/
structure Timely (env : Env β) (w : World β) (a : Actor) (task : FileTask) (path : String) : Prop where
  newer : (splitPath path).1 ∉ a.state.dirs → ∀ f f', a.state.files[path]? = some f →
    task.execute (env.utcNow w.tick) (some f) = some f' → fileTs f ≤ fileTs f'
  named : (splitPath path).1 ∉ a.state.dirs → ∀ f,
    task.execute (env.utcNow w.tick) a.state.files[path]? = some f → path ∉ a.state.dirs
  promoted : (splitPath path).1 ∉ a.state.dirs → ∀ f dir rest,
    task.execute (env.utcNow w.tick) a.state.files[path]? = some f → splitOnce path = some (dir, rest) →
    promotionThreshold < countBelow { a.state with files := a.state.files.insert path f } dir →
    dir ∉ a.state.files

/-- The root is in order and its directory has aged. -/
structure Aged (a a' : Actor) : Prop where
  plain : a'.Plain
  apart : a'.state.Apart
  ages : a.state.Ages a'.state

omit [DecidableEq β] in
theorem Aged.refl (ha : a.Plain) (hap : a.state.Apart) : Aged a a := ⟨ha, hap, .refl hap⟩

omit [DecidableEq β] in
theorem Aged.trans {a'' : Actor} (h : Aged a a') (h' : Aged a' a'') : Aged a a'' :=
  ⟨h'.plain, h'.apart, h.ages.trans h'.ages⟩

omit [DecidableEq β] in
/-- Ages depend on the entries only. -/
theorem Aged.of_entries {b : Actor} (h : Aged a a') (hb : b.Plain) (hd : b.state.dirs = a'.state.dirs)
    (hf : b.state.files = a'.state.files) : Aged a b where
  plain := hb
  apart := by
    unfold DirV1.Apart
    rw [hd, hf]
    exact h.apart
  ages := by
    refine ⟨?_, ?_, ?_⟩
    · rw [hd]
      exact h.ages.dirs
    · rw [hd, hf]
      exact h.ages.files
    · rw [hd]
      exact h.ages.slashFree

omit [DecidableEq β] in
/-- A file is put. -/
theorem aged_insert (ha : a.Plain) (hap : a.state.Apart) {path : String} {f : FileRef}
    (hd : path ∉ a.state.dirs)
    (hnew : ∀ f', a.state.files[path]? = some f' → fileTs f' ≤ fileTs f) :
    Aged a { a with state.files := a.state.files.insert path f } where
  plain := ⟨⟨ha.unsharded.shardLevel, ha.unsharded.shards, ha.unsharded.dirShardHandles⟩, ha.named⟩
  apart n hn hm := by
    rcases ExtTreeMap.mem_insert.1 hm with he | hm
    · rw [Std.compare_eq_iff_eq] at he
      subst he
      exact hd hn
    · exact hap n hn hm
  ages := by
    refine ⟨fun n d hn => ⟨d, hn, Nat.le_refl _⟩, fun k f' hf => ?_, fun n hn hnot => absurd hn hnot⟩
    refine ⟨hap.not_mem_dirs hf, .inl ?_⟩
    dsimp only
    rw [ExtTreeMap.getElem?_insert]
    by_cases hk : path = k
    · subst hk
      rw [if_pos (Std.compare_eq_iff_eq.2 rfl)]
      exact ⟨f, rfl, hnew f' hf⟩
    · rw [if_neg (by rwa [Std.compare_eq_iff_eq])]
      exact ⟨f', hf, Nat.le_refl _⟩

omit [DecidableEq β] in
/-- The files below a prefix make way for a directory. -/
theorem aged_promoted (hap : a.state.Apart) {dir : String} (hslash : '/' ∉ dir.toList)
    (hfile : dir ∉ a.state.files) (hb : a'.Plain) {dirRef : DirRef}
    (hnew : dir ∉ a.state.dirs) (hd : a'.state.dirs = a.state.dirs.insert dir dirRef)
    (hf : a'.state.files = (extractChildDirState a.state dir).1.files) : Aged a a' where
  plain := hb
  apart n hn hm := by
    rw [hd, ExtTreeMap.mem_insert, Std.compare_eq_iff_eq] at hn
    rw [hf, ExtTreeMap.mem_iff_isSome_getElem?, extractChildDirState_fst_files] at hm
    have hmem : n ∈ a.state.files := by
      rw [ExtTreeMap.mem_iff_isSome_getElem?]
      split at hm
      · cases hm
      · exact hm
    rcases hn with rfl | hn
    · exact hfile hmem
    · exact hap n hn hmem
  ages := by
    refine ⟨fun n d hn => ⟨d, ?_, Nat.le_refl _⟩, fun k f hk => ⟨?_, ?_⟩, fun n hn hnot => ?_⟩
    · rw [hd, ExtTreeMap.getElem?_insert, if_neg ?_]
      · exact hn
      · rw [Std.compare_eq_iff_eq]
        rintro rfl
        exact hnew (ExtTreeMap.mem_iff_isSome_getElem?.2 (by rw [hn]; rfl))
    · rw [hd, ExtTreeMap.mem_insert, Std.compare_eq_iff_eq]
      rintro (rfl | hmem)
      · exact hfile (ExtTreeMap.mem_iff_isSome_getElem?.2 (by rw [hk]; rfl))
      · exact hap.not_mem_dirs hk hmem
    · rw [hf, extractChildDirState_fst_files, hd]
      cases hs : stripDir dir k with
      | none => exact .inl ⟨f, hk, Nat.le_refl _⟩
      | some rest =>
        right
        rw [splitPath_of_some ((stripDir_eq_some_iff hslash).1 hs)]
        exact ExtTreeMap.mem_insert_self
    · rw [hd, ExtTreeMap.mem_insert, Std.compare_eq_iff_eq] at hn
      rcases hn with rfl | hn
      · exact hslash
      · exact absurd hn hnot

omit [DecidableEq β] in
/-- Opening a directory keeps the entries. -/
theorem openNewDir_plain {c : Actor} (ha : a.Plain) {name : String} (hin : name ∈ a.state.dirs)
    {d : DirV1} (ho : openNewDir regs a name d = .ok c) : c.state = a.state ∧ c.Plain := by
  unfold openNewDir at ho
  split at ho
  · obtain rfl := Except.ok.inj ho
    exact ⟨rfl, ha⟩
  · split at ho
    · cases ho
    · dsimp only at ho
      split at ho
      · obtain rfl := Except.ok.inj ho
        exact ⟨rfl, ha⟩
      · obtain rfl := Except.ok.inj ho
        refine ⟨rfl, ⟨ha.unsharded.shardLevel, ha.unsharded.shards, ha.unsharded.dirShardHandles⟩,
          fun n child hl => ?_⟩
        by_cases hn : n = name
        · rw [hn]
          exact hin
        · have hne : (n == name) = false := beq_eq_false_iff_ne.2 hn
          simp only [List.lookup_cons, hne] at hl
          exact ha.named n child hl

/-- However a promotion ends, it ages the root. -/
theorem aged_promotePrefix (ha : a.Plain) (hap : a.state.Apart) {dir : String} {r : Except String Unit}
    (hslash : '/' ∉ dir.toList) (hfile : dir ∉ a.state.files)
    (hrun : promotePrefix env order regs w a dir = (w', a', r)) : Aged a a' := by
  unfold promotePrefix at hrun
  by_cases hmem : dir ∈ a.state.dirs
  · rw [if_pos hmem] at hrun
    obtain ⟨rfl, rfl, -⟩ := by simpa using hrun
    exact .refl ha hap
  · rw [if_neg hmem] at hrun
    dsimp only at hrun
    generalize buildChildDirRef env a.context a.context.encryptionType.isSome w = built at hrun
    obtain ⟨w1, dirRef⟩ := built
    dsimp only at hrun
    generalize hb : ({ a with state := { (extractChildDirState a.state dir).1 with
      dirs := (extractChildDirState a.state dir).1.dirs.insert dir dirRef } } : Actor) = b at hrun
    have hbp : b.Plain := by
      rw [← hb]
      exact ⟨⟨ha.unsharded.shardLevel, ha.unsharded.shards, ha.unsharded.dirShardHandles⟩,
        fun name child h => ExtTreeMap.mem_insert.2 (.inr (ha.named name child h))⟩
    have haged : Aged a b := aged_promoted hap hslash hfile hbp hmem (by rw [← hb]; rfl) (by rw [← hb])
    have hin : dir ∈ b.state.dirs := by
      rw [← hb]
      exact ExtTreeMap.mem_insert_self
    generalize optimizeDirStructureIn env order a.context (extractChildDirState a.state dir).2 w1 = res
      at hrun
    obtain ⟨w2, e | optimized⟩ := res
    · obtain ⟨rfl, rfl, -⟩ := by simpa using hrun
      exact haged
    · dsimp only at hrun
      cases ho : openNewDir regs b dir optimized with
      | error e =>
        rw [ho] at hrun
        obtain ⟨rfl, rfl, -⟩ := by simpa using hrun
        exact haged
      | ok c =>
        rw [ho] at hrun
        obtain ⟨rfl, rfl, -⟩ := by simpa using hrun
        obtain ⟨hstate, hcp⟩ := openNewDir_plain hbp hin ho
        exact haged.of_entries hcp (by rw [hstate]) (by rw [hstate])

/-- What an operation does to the root that handles it. -/
theorem aged_fileOpAt (ha : a.Plain) (hap : a.state.Apart) {task : FileTask} {path : String}
    {r : Except String Unit} (hhere : (splitPath path).1 ∉ a.state.dirs)
    (ht : Timely env w a task path)
    (hrun : fileOpAt env order regs task w a path = (w', a', r)) : Aged a a' := by
  have hmark : ∀ b : Actor, b.Plain → b.markAsDirty.Plain := fun b hb =>
    ⟨⟨hb.unsharded.shardLevel, hb.unsharded.shards, hb.unsharded.dirShardHandles⟩, hb.named⟩
  unfold fileOpAt at hrun
  cases htask : task.execute (env.utcNow w.tick) a.state.files[path]? with
  | none =>
    rw [htask] at hrun
    obtain ⟨rfl, rfl, -⟩ := by simpa using hrun
    -- only a file that is not there is left out
    have hnone : a.state.files[path]? = none := by
      cases task with
      | put f => cases htask
      | delete => simpa [FileTask.execute] using htask
      | get => exact htask
    have herase : a.state.files.erase path = a.state.files := by
      refine ExtTreeMap.ext_getElem? fun k => ?_
      rw [ExtTreeMap.getElem?_erase]
      by_cases hk : path = k
      · rw [if_pos (Std.compare_eq_iff_eq.2 hk), ← hk, hnone]
      · rw [if_neg (by rwa [Std.compare_eq_iff_eq])]
    exact (Aged.refl ha hap).of_entries (hmark _ ⟨⟨ha.unsharded.shardLevel, ha.unsharded.shards,
      ha.unsharded.dirShardHandles⟩, ha.named⟩) rfl herase
  | some f =>
    rw [htask] at hrun
    dsimp only at hrun
    have hput : Aged a { a with state.files := a.state.files.insert path f } := by
      refine aged_insert ha hap (ht.named hhere f htask) fun f' hf' => ?_
      rw [hf'] at htask
      exact ht.newer hhere f' f hf' htask
    have hcheck : ∀ w1 a1 r1, checkAutoPromote env order regs w.next
        { a with state.files := a.state.files.insert path f } path = (w1, a1, r1) → Aged a a1 := by
      intro w1 a1 r1 h
      unfold checkAutoPromote at h
      cases hp : splitOnce path with
      | none =>
        rw [hp] at h
        obtain ⟨-, rfl, -⟩ := by simpa using h
        exact hput
      | some dr =>
        obtain ⟨dir, rest⟩ := dr
        rw [hp] at h
        dsimp only at h
        by_cases hlt : promotionThreshold <
            countBelow { a.state with files := a.state.files.insert path f } dir
        · rw [if_pos hlt] at h
          have hslash := (splitOnce_eq_some.1 hp).2
          have hfree : dir ∉ a.state.files.insert path f := by
            rw [ExtTreeMap.mem_insert, Std.compare_eq_iff_eq]
            rintro (rfl | hmem)
            · exact hslash (by rw [(splitOnce_eq_some.1 hp).1]; simp)
            · exact ht.promoted hhere f dir rest htask hp hlt hmem
          exact hput.trans (aged_promotePrefix hput.plain hput.apart hslash hfree h)
        · rw [if_neg hlt] at h
          obtain ⟨-, rfl, -⟩ := by simpa using h
          exact hput
    generalize hres : checkAutoPromote env order regs w.next
      { a with state.files := a.state.files.insert path f } path = res at hrun
    obtain ⟨w1, a1, e | u⟩ := res
    · obtain ⟨rfl, rfl, -⟩ := by simpa using hrun
      exact hcheck _ _ _ hres
    · obtain ⟨rfl, rfl, -⟩ := by simpa using hrun
      have h1 := hcheck _ _ _ hres
      exact h1.of_entries (hmark _ h1.plain) rfl rfl

/-- **What an operation does to the root**, whether it fails or not. -/
theorem aged_pathOp (ha : a.Plain) (hap : a.state.Apart) {task : FileTask} {path : String}
    {r : Except String Unit} (ht : Timely env w a task path) {fuel : Nat}
    (hrun : pathOp env (fileOpAt env order regs task) regs fuel w a path = some (w', a', r)) :
    Aged a a' := by
  cases fuel with
  | zero => cases hrun
  | succ fuel =>
    unfold pathOp at hrun
    rw [route_plain ha.unsharded] at hrun
    by_cases hd : (splitPath path).1 ∈ a.state.dirs
    · simp only [if_pos hd] at hrun
      cases ho : openDir env w regs a (splitPath path).1 with
      | error e =>
        rw [ho] at hrun
        obtain ⟨rfl, rfl, -⟩ := by simpa using hrun
        exact .refl ha hap
      | ok child =>
        rw [ho] at hrun
        simp only [Option.map_eq_some_iff, Prod.mk.injEq, Prod.exists] at hrun
        obtain ⟨w1, child', r', -, rfl, rfl, rfl⟩ := hrun
        obtain ⟨-, hs, hdh, hsh⟩ := hear_state (a.keepDir (splitPath path).1 child') child child'
        refine (Aged.refl ha hap).of_entries ⟨⟨?_, ?_, ?_⟩, fun name c hl => ?_⟩ ?_ ?_
        · rw [hs]
          exact ha.unsharded.shardLevel
        · rw [hs]
          exact ha.unsharded.shards
        · rw [hsh]
          exact ha.unsharded.dirShardHandles
        · rw [hdh] at hl
          rw [hs]
          by_cases hn : name = (splitPath path).1
          · rw [hn]
            exact hd
          · have hne : (name == (splitPath path).1) = false := beq_eq_false_iff_ne.2 hn
            simp only [keepDir, List.lookup_cons, hne, lookup_filter_ne hn] at hl
            exact ha.named name c hl
        · rw [hs]
          rfl
        · rw [hs]
          rfl
    · simp only [if_neg hd, Option.some.injEq] at hrun
      exact aged_fileOpAt ha hap hd ht hrun

omit [DecidableEq β] in
/-- A child reports the hash it has been saved under. -/
theorem aged_updateDirHash (ha : a.Plain) (hap : a.state.Apart) (name : String)
    (r : Except String (Option Hash)) : Aged a (a.updateDirHash name r) := by
  obtain ⟨hu, -⟩ := updated_updateDirHash a name r
  have hts : ∀ n : String, (a.updateDirHash name r).state.dirs[n]?.map dirTs =
      a.state.dirs[n]?.map dirTs := by
    intro n
    have hn := congrArg (Option.map dirTs) (hu.dirs n)
    rw [Option.map_map, Option.map_map] at hn
    exact hn
  have hmem : ∀ n : String, n ∈ (a.updateDirHash name r).state.dirs ↔ n ∈ a.state.dirs := by
    intro n
    have hn := congrArg Option.isSome (hts n)
    rw [Option.isSome_map, Option.isSome_map] at hn
    rw [ExtTreeMap.mem_iff_isSome_getElem?, ExtTreeMap.mem_iff_isSome_getElem?, hn]
  have hkeep : (a.updateDirHash name r).state.header = a.state.header ∧
      (a.updateDirHash name r).dirHandles = a.dirHandles ∧
      (a.updateDirHash name r).dirShardHandles = a.dirShardHandles := by
    unfold updateDirHash
    repeat' split
    all_goals exact ⟨rfl, rfl, rfl⟩
  obtain ⟨hh, hdh, hsh⟩ := hkeep
  refine ⟨⟨⟨?_, ?_, ?_⟩, fun n child hl => ?_⟩, fun n hn => ?_, ⟨fun n d hd => ?_, fun k f hf => ?_,
    fun n hn hnot => ?_⟩⟩
  · rw [hh]
    exact ha.unsharded.shardLevel
  · rw [hh]
    exact ha.unsharded.shards
  · rw [hsh]
    exact ha.unsharded.dirShardHandles
  · rw [hdh] at hl
    exact (hmem n).2 (ha.named n child hl)
  · rw [hu.files]
    exact hap n ((hmem n).1 hn)
  · have hn := hts n
    rw [hd, Option.map_some, Option.map_eq_some_iff] at hn
    obtain ⟨d', hd', he⟩ := hn
    exact ⟨d', hd', he.ge⟩
  · rw [hmem, hu.files]
    exact ⟨hap.not_mem_dirs hf, .inl ⟨f, hf, Nat.le_refl _⟩⟩
  · exact absurd ((hmem n).1 hn) hnot

end

end Actor

/-! ## Histories -/

namespace FS5

section
variable {β : Type} [DecidableEq β] {env : Env β} {order : GroupOrder} {fs fs' fs'' : FS5 β}

/-- What has been done to a root: operations on files that are all timely, and what others do to the
world and children report in between. -/
inductive History (env : Env β) (order : GroupOrder) (fs : FS5 β) : FS5 β → Prop where
  | start : History env order fs fs
  | fileOp {fs' : FS5 β} (h : History env order fs fs') {task : FileTask} {path : String}
      (ht : Actor.Timely env fs'.world fs'.root task path) {fuel : Nat} {w : World β} {a : Actor}
      {r : Except String Unit}
      (hrun : Actor.pathOp env (Actor.fileOpAt env order fs'.registryDirHandles task)
        fs'.registryDirHandles fuel fs'.world fs'.root path = some (w, a, r)) :
      History env order fs { fs' with world := w, root := a }
  | elsewhere {fs' : FS5 β} (h : History env order fs fs') (w : World β)
      (regs : Actor.RegistryDirHandles) :
      History env order fs { fs' with world := w, registryDirHandles := regs }
  | reported {fs' : FS5 β} (h : History env order fs fs') (name : String) (hash : Hash) :
      History env order fs { fs' with root := fs'.root.updateDirHash name (.ok (some hash)) }

theorem History.aged (h : History env order fs fs') (ha : fs.root.Plain)
    (hap : fs.root.state.Apart) : Actor.Aged fs.root fs'.root := by
  induction h with
  | start => exact .refl ha hap
  | fileOp _ ht hrun ih => exact ih.trans (Actor.aged_pathOp ih.plain ih.apart ht hrun)
  | elsewhere _ _ _ ih => exact ih
  | reported _ name hash ih => exact ih.trans (Actor.aged_updateDirHash ih.plain ih.apart name (.ok (some hash)))

/-- **A snapshot of one's own is absorbed.** In a history whose operations are all timely, merging
what was exported earlier changes no answer of `file_get`. -/
theorem own_snapshot_absorbed (ha : fs.root.Plain) (hap : fs.root.state.Apart)
    (h : History env order fs fs') (h' : History env order fs' fs'') :
    ∃ merged, fs''.mergeFromSnapshot env fs'.exportSnapshot = (merged, .ok ()) ∧
      ∀ path r, fs''.FileGet env path r ↔ merged.FileGet env path r := by
  have h1 := h.aged ha hap
  have h2 := h'.aged h1.plain h1.apart
  have hmerged : ∃ a', Actor.mergeSnapshot env fs''.world (maxShardLevel.toNat + 1 + 1) fs''.root
      fs'.root.state = (a', .ok ()) ∧
        Actor.SameLookups env fs''.registryDirHandles fs''.world fs''.root fs''.world a' :=
    Actor.merge_older h2.ages h1.apart h2.plain h2.apart fs''.world _
  obtain ⟨a', hmerge, hsame⟩ := hmerged
  refine ⟨{ fs'' with root := a' }, ?_, fun path r => ?_⟩
  · unfold mergeFromSnapshot shardDepth exportSnapshot
    rw [hmerge]
  · unfold FileGet
    exact exists_congr fun q => and_congr_left' (hsame path q)

end

/-! A root with one file that has been deleted. -/

/-- An empty local root. -/
def emptyRoot : FS5 Sym := ⟨emptyWorld, Actor.ofNew .localRoot .new, []⟩

/-- An operation at the root, with one hop. -/
def work (fs : FS5 Sym) (task : FileTask) (path : String) :
    Option (World Sym × Actor × Except String Unit) :=
  Actor.pathOp (symbolic xxh3Short)
    (Actor.fileOpAt (symbolic xxh3Short) (fun _ _ groups => groups) fs.registryDirHandles task)
    fs.registryDirHandles 1 fs.world fs.root path

def worked (fs : FS5 Sym) (task : FileTask) (path : String) : FS5 Sym :=
  match work fs task path with
  | some (w, a, _) => { fs with world := w, root := a }
  | none => fs

theorem history_worked {fs fs' : FS5 Sym} {task : FileTask} {path : String}
    (h : History (symbolic xxh3Short) (fun _ _ groups => groups) fs fs')
    (ht : Actor.Timely (symbolic xxh3Short) fs'.world fs'.root task path) :
    History (symbolic xxh3Short) (fun _ _ groups => groups) fs (worked fs' task path) := by
  unfold worked
  cases hw : work fs' task path with
  | none => exact h
  | some x => exact .fileOp h ht hw

/-- The root after `a` has been put. -/
def putRoot : FS5 Sym := worked emptyRoot (.put (.new 1 1)) "a"

/-- The root after `a` has been put and deleted. -/
def deletedRoot : FS5 Sym := worked putRoot .delete "a"

theorem own_snapshot_absorbed_deleted : ∃ merged,
    deletedRoot.mergeFromSnapshot (symbolic xxh3Short) putRoot.exportSnapshot = (merged, .ok ()) ∧
      ∀ path r, deletedRoot.FileGet (symbolic xxh3Short) path r ↔
        merged.FileGet (symbolic xxh3Short) path r := by
  have hput : Actor.Timely (symbolic xxh3Short) emptyRoot.world emptyRoot.root (.put (.new 1 1)) "a" :=
    ⟨fun _ f f' hf => by simp [emptyRoot, Actor.ofNew, DirV1.new] at hf,
      fun hd _ _ => by simp [emptyRoot, Actor.ofNew, DirV1.new], fun _ f dir rest _ hp => by
        rw [splitOnce_eq_none.2 (by decide)] at hp
        cases hp⟩
  have hstate : putRoot.root.state.files[("a" : String)]? = some (.new 1 1) := by decide +kernel
  have hdirs : "a" ∉ putRoot.root.state.dirs := by decide +kernel
  have hdelete : Actor.Timely (symbolic xxh3Short) putRoot.world putRoot.root .delete "a" := by
    refine ⟨fun _ f f' hf hf' => ?_, fun _ _ _ => hdirs, fun _ f dir rest _ hp => ?_⟩
    · obtain rfl := Option.some.inj (hf.symm.trans hstate)
      exact Nat.zero_le _
    · rw [splitOnce_eq_none.2 (by decide)] at hp
      cases hp
  exact own_snapshot_absorbed (Actor.Plain.ofNew .localRoot rfl)
    (fun n hn => by simp [emptyRoot, Actor.ofNew, DirV1.new] at hn)
    (history_worked .start hput) (history_worked .start hdelete)

/-- What is put where a file has been deleted has no timestamp: the tombstone of an older snapshot
deletes it. -/
theorem tombstone_wins : ∃ merged,
    (worked deletedRoot (.put (.new 2 2)) "a").mergeFromSnapshot (symbolic xxh3Short)
      deletedRoot.exportSnapshot = (merged, .ok ()) ∧
    (worked deletedRoot (.put (.new 2 2)) "a").FileGet (symbolic xxh3Short) "a" (some (.new 2 2)) ∧
    merged.FileGet (symbolic xxh3Short) "a" none := by
  have hrun : ((worked deletedRoot (.put (.new 2 2)) "a").mergeFromSnapshot (symbolic xxh3Short)
        deletedRoot.exportSnapshot).2.isOk = true ∧
      (Actor.lookup (symbolic xxh3Short)
        ((worked deletedRoot (.put (.new 2 2)) "a").mergeFromSnapshot (symbolic xxh3Short)
          deletedRoot.exportSnapshot).1.world
        ((worked deletedRoot (.put (.new 2 2)) "a").mergeFromSnapshot (symbolic xxh3Short)
          deletedRoot.exportSnapshot).1.registryDirHandles 1
        ((worked deletedRoot (.put (.new 2 2)) "a").mergeFromSnapshot (symbolic xxh3Short)
          deletedRoot.exportSnapshot).1.root "a").map Actor.live = some none := by
    decide +kernel
  generalize (worked deletedRoot (.put (.new 2 2)) "a").mergeFromSnapshot (symbolic xxh3Short)
    deletedRoot.exportSnapshot = res at hrun
  obtain ⟨merged, e | u⟩ := res
  · cases hrun.1
  · obtain ⟨q, hq, hlive⟩ := Option.map_eq_some_iff.1 hrun.2
    exact ⟨merged, rfl, ⟨some (.new 2 2), ⟨1, by decide +kernel⟩, by decide⟩, q, ⟨1, hq⟩, hlive.symm⟩

end FS5

end Fs
