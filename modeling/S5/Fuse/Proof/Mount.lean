import S5.Fuse.Mount

/-!
# Lookups and listings of a mounted file system

What the mount shows under a path is `view`: the merged snapshots of the directories on the way, each
named by the one before. As long as the caches agree with it (`Coherent`), `lookup` and `readdir`
answer from it (`lookup_spec`, `readdir_spec`), and so does a walk (`walk_spec`). Paths are lists of
segments here, the last one first.
-/

open Std Fs

namespace Fuse

/-! ## Paths of inodes -/

/-- The path that an inode is the key of. -/
def mountPath : List String → String
  | [] => "/"
  | s :: rev => childPath (mountPath rev) s

theorem toList_mountPath {rev : List String} (h : Proper rev) :
    (mountPath rev).toList = '/' :: (joinPath rev.reverse).toList := by
  induction rev with
  | nil => rfl
  | cons s rev ih =>
    have hrev := ih h.cons.2
    rw [mountPath, childPath]
    cases rev with
    | nil => simp [mountPath]
    | cons t rev =>
      have hne : (t :: rev).reverse ≠ [] := by simp
      have hroot : mountPath (t :: rev) ≠ "/" := by
        intro he
        rw [he] at hrev
        have hempty : joinPath (t :: rev).reverse = "" := String.toList_inj.1 (List.cons.inj hrev).2.symm
        exact hne ((joinPath_eq_empty h.cons.2.reverse).1 hempty)
      rw [if_neg hroot, List.reverse_cons (a := s), joinPath_snoc hne]
      simp [hrev]

theorem trimStart_mountPath {rev : List String} (h : Proper rev) :
    trimStart (mountPath rev) = joinPath rev.reverse := by
  have hfirst : ∀ {segs : List String}, Proper segs →
      (joinPath segs).toList.dropWhile (· = '/') = (joinPath segs).toList := by
    intro segs hsegs
    cases segs with
    | nil => rfl
    | cons s rest =>
      obtain ⟨tail, htail⟩ : ∃ tail, (joinPath (s :: rest)).toList = s.toList ++ tail := by
        cases rest with
        | nil => exact ⟨[], by simp⟩
        | cons t rest => exact ⟨'/' :: (joinPath (t :: rest)).toList, by simp [joinPath_cons_cons]⟩
      obtain ⟨hs, hfree⟩ := hsegs.cons.1
      obtain ⟨c, cs, hcs⟩ := List.exists_cons_of_ne_nil (mt String.toList_eq_nil_iff.1 hs)
      rw [hcs] at hfree htail
      have hc : c ≠ '/' := fun he => hfree (he ▸ List.mem_cons_self)
      rw [htail, List.cons_append, List.dropWhile_cons_of_neg (by simpa using hc)]
  rw [trimStart, toList_mountPath h, List.dropWhile_cons_of_pos (by simp), hfirst h.reverse,
    String.ofList_toList]

theorem segments_mountPath {rev : List String} (h : Proper rev) :
    (segments (mountPath rev)).filter (· ≠ "") = rev.reverse := by
  have hroot : segments (mountPath rev) = "" :: segments (joinPath rev.reverse) := by
    rw [segments, toList_mountPath h, List.splitOn_cons_eq_if_modifyHead]
    rfl
  rw [hroot]
  cases rev with
  | nil => rfl
  | cons s rev =>
    have hne : (s :: rev).reverse ≠ [] := by simp
    rw [segments_joinPath hne fun t ht => (h.reverse t ht).2, List.filter_cons_of_neg (by simp)]
    exact List.filter_eq_self.2 fun t ht => by simpa using (h.reverse t ht).1

theorem mountPath_inj {rev rev' : List String} (h : Proper rev) (h' : Proper rev')
    (he : mountPath rev = mountPath rev') : rev = rev' := by
  rw [← List.reverse_inj, ← segments_mountPath h, ← segments_mountPath h', he]

/-! ## What the mount shows -/

section
variable {β : Type} (env : Env β) (fuel : Nat) (fs : FS5 β)

/-- The directory under a path, if it and all directories on the way can be exported. -/
def view : List String → Option DirV1
  | [] => (fs.exportMergedSnapshot env fuel).toOption
  | s :: rev => (view rev).bind fun d =>
      if s ∈ d.dirs then
        (fs.exportMergedSnapshotAt env fuel (joinPath (s :: rev).reverse)).toOption
      else none

variable {env fuel fs}

theorem view_cons {s : String} {rev : List String} {d' : DirV1} :
    view env fuel fs (s :: rev) = some d' ↔ ∃ d, view env fuel fs rev = some d ∧ s ∈ d.dirs ∧
      fs.exportMergedSnapshotAt env fuel (joinPath (s :: rev).reverse) = .ok d' := by
  rw [view, Option.bind_eq_some_iff]
  refine exists_congr fun d => and_congr_right fun _ => ?_
  split
  · rename_i hmem
    cases fs.exportMergedSnapshotAt env fuel (joinPath (s :: rev).reverse) with
    | error e => simp [Except.toOption]
    | ok x => simp [Except.toOption, hmem]
  · rename_i hmem
    simp [hmem]

/-- Nothing is shown below what is not shown. -/
theorem view_append_none {rev : List String} (h : view env fuel fs rev = none) (segs : List String) :
    view env fuel fs (segs ++ rev) = none := by
  induction segs with
  | nil => exact h
  | cons s segs ih => rw [List.cons_append, view, ih, Option.bind_none]

/-- The attributes of an entry of a directory, but for the inode. -/
def found (d : DirV1) (name : String) : Option (Nat → FileAttr) :=
  match d.dirs[name]?, d.files[name]? with
  | some dr, _ => some (makeDirAttr · dr.tsSeconds)
  | none, some fr => some (makeFileAttr · fr.size fr.timestamp)
  | none, none => none

theorem found_ino {d : DirV1} {name : String} {attr : Nat → FileAttr} (h : found d name = some attr)
    (ino : Nat) : (attr ino).ino = ino := by
  unfold found at h
  split at h
  · obtain rfl := Option.some.inj h
    rfl
  · obtain rfl := Option.some.inj h
    rfl
  · cases h

/-- What a directory on the way to something shown is found by. -/
theorem found_of_view {s : String} {rev segs : List String} {d' : DirV1}
    (h : view env fuel fs (segs ++ s :: rev) = some d') :
    ∃ attr, (view env fuel fs rev).bind (found · s) = some attr := by
  cases hv : view env fuel fs (s :: rev) with
  | none =>
    rw [view_append_none hv] at h
    cases h
  | some d1 =>
    obtain ⟨d, hd, hmem, -⟩ := view_cons.1 hv
    obtain ⟨dr, hdr⟩ := Option.isSome_iff_exists.1 (ExtTreeMap.mem_iff_isSome_getElem?.1 hmem)
    exact ⟨(makeDirAttr · dr.tsSeconds), by simp [hd, found, hdr]⟩

end

namespace ReadOnlyS5Fs

variable {β σ : Type} {rodeo : Interner String σ} {env : Env β} {fuel : Nat} {fs : FS5 β}

/-! ## Caches that agree with it -/

variable (rodeo env fuel fs) in
/-- The caches of a mount of `fs` hold directories as they are shown, and no listing yet. -/
structure Coherent (m : ReadOnlyS5Fs β σ) : Prop where
  mounted : m.fs = fs
  root : m.pathForIno rodeo 1 = some (mountPath [])
  dirs : ∀ (i : Nat) (c : CachedDir), m.cache.dirs[i]? = some c → ∃ rev, Proper rev ∧
    m.pathForIno rodeo i = some (mountPath rev) ∧ view env fuel fs rev = some c.dir
  dirEntries : m.cache.dirEntries = ∅

variable (rodeo) in
/-- Inodes stay what they are, and directories stay in the cache. -/
structure Keeps (m m' : ReadOnlyS5Fs β σ) : Prop where
  inodes : rodeo.Extends m.inodes m'.inodes
  dirs : ∀ (i : Nat) (c : CachedDir), m.cache.dirs[i]? = some c → m'.cache.dirs[i]? = some c

theorem Keeps.refl (m : ReadOnlyS5Fs β σ) : Keeps rodeo m m := ⟨.refl _, fun _ _ h => h⟩

theorem Keeps.trans {m m' m'' : ReadOnlyS5Fs β σ} (h : Keeps rodeo m m') (h' : Keeps rodeo m' m'') :
    Keeps rodeo m m'' := ⟨h.inodes.trans h'.inodes, fun i c hc => h'.dirs i c (h.dirs i c hc)⟩

theorem Keeps.path {m m' : ReadOnlyS5Fs β σ} (h : Keeps rodeo m m') {i : Nat} {path : String}
    (hp : m.pathForIno rodeo i = some path) : m'.pathForIno rodeo i = some path := h.inodes i path hp

theorem coherent_new (law : rodeo.Lawful) (fs : FS5 β) : Coherent rodeo env fuel fs (.new rodeo fs) where
  mounted := rfl
  root := by
    have hkey : (rodeo.getOrIntern (rodeo.getOrIntern rodeo.new "").1 "/").2 = 1 :=
      law.second_key (by decide)
    have hself := law.resolve_self (rodeo.getOrIntern rodeo.new "").1 "/"
    rw [hkey] at hself
    exact hself
  dirs := by
    intro i c hc
    rw [show (new rodeo fs : ReadOnlyS5Fs β σ).cache.dirs = ∅ from rfl, ExtTreeMap.getElem?_empty] at hc
    cases hc
  dirEntries := rfl

/-- Only the inodes, the directories and the listings matter. -/
theorem Coherent.of_eq {m m' : ReadOnlyS5Fs β σ} (h : Coherent rodeo env fuel fs m)
    (hfs : m'.fs = m.fs) (hinodes : m'.inodes = m.inodes) (hdirs : m'.cache.dirs = m.cache.dirs)
    (hentries : m'.cache.dirEntries = m.cache.dirEntries) :
    Coherent rodeo env fuel fs m' ∧ Keeps rodeo m m' := by
  have hpath : ∀ i, m'.pathForIno rodeo i = m.pathForIno rodeo i := fun i => by
    rw [pathForIno, hinodes, pathForIno]
  refine ⟨⟨hfs.trans h.mounted, (hpath 1).trans h.root, fun i c hc => ?_, hentries.trans h.dirEntries⟩, ?_, ?_⟩
  · rw [hdirs] at hc
    obtain ⟨rev, hrev, hp, hv⟩ := h.dirs i c hc
    exact ⟨rev, hrev, (hpath i).trans hp, hv⟩
  · rw [hinodes]
    exact .refl _
  · rw [hdirs]
    exact fun _ _ hc => hc

theorem Coherent.cacheAttr {m : ReadOnlyS5Fs β σ} (h : Coherent rodeo env fuel fs m) (attr : FileAttr) :
    Coherent rodeo env fuel fs (m.cacheAttr attr) ∧ Keeps rodeo m (m.cacheAttr attr) :=
  h.of_eq rfl rfl rfl rfl

theorem Coherent.cacheParent {m : ReadOnlyS5Fs β σ} (h : Coherent rodeo env fuel fs m)
    (ino parent : Nat) : Coherent rodeo env fuel fs (m.cacheParent ino parent) ∧
      Keeps rodeo m (m.cacheParent ino parent) :=
  h.of_eq rfl rfl rfl rfl

theorem inoForPath_keeps (law : rodeo.Lawful) {m m' : ReadOnlyS5Fs β σ} {path : String} {ino : Nat}
    (hi : m.inoForPath rodeo path = (m', ino)) :
    Keeps rodeo m m' ∧ m'.pathForIno rodeo ino = some path ∧ m'.fs = m.fs ∧ m'.cache = m.cache := by
  unfold inoForPath at hi
  generalize hg : rodeo.getOrIntern m.inodes path = r at hi
  obtain ⟨inodes, k⟩ := r
  obtain ⟨rfl, rfl⟩ := Prod.mk.inj hi
  obtain ⟨hext, hself⟩ := law.getOrIntern_eq hg
  exact ⟨⟨hext, fun _ _ hc => hc⟩, hself, rfl, rfl⟩

theorem Coherent.inoForPath (law : rodeo.Lawful) {m m' : ReadOnlyS5Fs β σ} {path : String} {ino : Nat}
    (h : Coherent rodeo env fuel fs m) (hi : m.inoForPath rodeo path = (m', ino)) :
    Coherent rodeo env fuel fs m' ∧ Keeps rodeo m m' ∧ m'.pathForIno rodeo ino = some path := by
  obtain ⟨hkeeps, hself, hfs, hcache⟩ := inoForPath_keeps law hi
  refine ⟨⟨hfs.trans h.mounted, hkeeps.path h.root, fun i c hc => ?_, by rw [hcache]; exact h.dirEntries⟩,
    hkeeps, hself⟩
  rw [hcache] at hc
  obtain ⟨rev, hrev, hp, hv⟩ := h.dirs i c hc
  exact ⟨rev, hrev, hkeeps.path hp, hv⟩

theorem Coherent.cacheDir {m : ReadOnlyS5Fs β σ} (h : Coherent rodeo env fuel fs m) {ino : Nat}
    {rev : List String} {c : CachedDir} (hrev : Proper rev)
    (hp : m.pathForIno rodeo ino = some (mountPath rev)) (hv : view env fuel fs rev = some c.dir)
    (hnone : m.cache.dirs[ino]? = none) :
    Coherent rodeo env fuel fs (m.cacheDir ino c) ∧ Keeps rodeo m (m.cacheDir ino c) := by
  have hget : ∀ i, (m.cacheDir ino c).cache.dirs[i]? = if ino = i then some c else m.cache.dirs[i]? := by
    intro i
    simp [ReadOnlyS5Fs.cacheDir, ExtTreeMap.getElem?_insert]
  refine ⟨⟨h.mounted, h.root, fun i c' hc => ?_, h.dirEntries⟩, .refl _, fun i c' hc => ?_⟩
  · rw [hget] at hc
    split at hc
    · rename_i he
      obtain rfl := Option.some.inj hc
      exact ⟨rev, hrev, he ▸ hp, hv⟩
    · exact h.dirs i c' hc
  · rw [hget, if_neg, hc]
    rintro rfl
    cases hnone.symm.trans hc

theorem Coherent.cached {m : ReadOnlyS5Fs β σ} (h : Coherent rodeo env fuel fs m) {i : Nat}
    {c : CachedDir} (hc : m.cache.dirs[i]? = some c) {rev : List String} (hrev : Proper rev)
    (hp : m.pathForIno rodeo i = some (mountPath rev)) : view env fuel fs rev = some c.dir := by
  obtain ⟨rev', hrev', hp', hv⟩ := h.dirs i c hc
  obtain rfl := mountPath_inj hrev hrev' (Option.some.inj (hp.symm.trans hp'))
  exact hv

/-! ## Loading a directory -/

theorem ensureRootCached_spec {m m' : ReadOnlyS5Fs β σ} {r : Except String Unit}
    (h : Coherent rodeo env fuel fs m) (hr : m.ensureRootCached env fuel = (m', r)) :
    Coherent rodeo env fuel fs m' ∧ Keeps rodeo m m' ∧
      ((r = .ok () ∧ ∃ c, m'.cache.dirs[1]? = some c) ∨
        (∃ e, r = .error e) ∧ view env fuel fs [] = none) := by
  unfold ensureRootCached at hr
  cases hc : m.cache.dirs[1]? with
  | some c =>
    rw [hc] at hr
    obtain ⟨rfl, rfl⟩ := Prod.mk.inj hr
    exact ⟨h, .refl m, .inl ⟨rfl, c, hc⟩⟩
  | none =>
    rw [hc] at hr
    dsimp only at hr
    unfold loadRootDir at hr
    rw [h.mounted] at hr
    cases hx : fs.exportMergedSnapshot env fuel with
    | error e =>
      rw [hx] at hr
      obtain ⟨rfl, rfl⟩ := Prod.mk.inj hr
      exact ⟨h, .refl m, .inr ⟨⟨e, rfl⟩, by rw [view, hx]; rfl⟩⟩
    | ok d =>
      rw [hx] at hr
      obtain ⟨rfl, rfl⟩ := Prod.mk.inj hr
      have hv : view env fuel fs [] = some (CachedDir.mk d ∅).dir := by rw [view, hx]; rfl
      obtain ⟨h1, hk1⟩ := h.cacheDir (fun _ hs => absurd hs List.not_mem_nil) h.root hv hc
      obtain ⟨h2, hk2⟩ := h1.cacheAttr rootAttr
      refine ⟨h2, hk1.trans hk2, .inl ⟨rfl, ⟨d, ∅⟩, hk2.dirs 1 _ ?_⟩⟩
      simp [ReadOnlyS5Fs.cacheDir]

/-- What the walk of `ensure_dir_cached` ends in, from a directory in the cache on. -/
theorem ensureSegmentsCached_spec (law : rodeo.Lawful) {segs rev : List String}
    {m m' : ReadOnlyS5Fs β σ} {ino : Nat} {c : CachedDir} {r : Except String Unit}
    (h : Coherent rodeo env fuel fs m) (hproper : Proper (segs.reverse ++ rev))
    (hp : m.pathForIno rodeo ino = some (mountPath rev)) (hc : m.cache.dirs[ino]? = some c)
    (hr : ensureSegmentsCached env rodeo fuel segs (mountPath rev) ino m = (m', r)) :
    Coherent rodeo env fuel fs m' ∧ Keeps rodeo m m' ∧
      ((r = .ok () ∧ ∃ i c', m'.pathForIno rodeo i = some (mountPath (segs.reverse ++ rev)) ∧
          m'.cache.dirs[i]? = some c') ∨
        (∃ e, r = .error e) ∧ view env fuel fs (segs.reverse ++ rev) = none) := by
  induction segs generalizing rev m ino c with
  | nil =>
    obtain ⟨rfl, rfl⟩ := Prod.mk.inj hr
    exact ⟨h, .refl m, .inl ⟨rfl, ino, c, hp, hc⟩⟩
  | cons s segs ih =>
    have happ : (s :: segs).reverse ++ rev = segs.reverse ++ (s :: rev) := by simp
    rw [happ] at hproper ⊢
    have hrev : Proper (s :: rev) := (proper_append.1 hproper).2
    have hview := h.cached hc hrev.cons.2 hp
    rw [ensureSegmentsCached] at hr
    generalize hi : m.inoForPath rodeo (childPath (mountPath rev) s) = out at hr
    obtain ⟨m1, child⟩ := out
    obtain ⟨h1, hk1, hp1⟩ := h.inoForPath law hi
    dsimp only at hr
    have hcur := hk1.dirs ino c hc
    cases hchild : m1.cache.dirs[child]? with
    | some c1 =>
      rw [hchild] at hr
      obtain ⟨h2, hk2, hout⟩ := ih h1 hproper hp1 hchild hr
      exact ⟨h2, hk1.trans hk2, hout⟩
    | none =>
      rw [hchild] at hr
      dsimp only at hr
      rw [hcur] at hr
      dsimp only at hr
      cases hd : c.dir.dirs[s]? with
      | none =>
        rw [hd] at hr
        obtain ⟨rfl, rfl⟩ := Prod.mk.inj hr
        refine ⟨h1, hk1, .inr ⟨⟨_, rfl⟩, view_append_none ?_ _⟩⟩
        have hmem : s ∉ c.dir.dirs := fun hmem => by
          rw [ExtTreeMap.mem_iff_isSome_getElem?, hd] at hmem
          cases hmem
        rw [view, hview, Option.bind_some, if_neg hmem]
      | some dr =>
        have hmem : s ∈ c.dir.dirs := by
          rw [ExtTreeMap.mem_iff_isSome_getElem?, hd]
          rfl
        rw [hd] at hr
        dsimp only at hr
        unfold loadChildDir at hr
        rw [h1.mounted, show childPath (mountPath rev) s = mountPath (s :: rev) from rfl,
          trimStart_mountPath hrev] at hr
        cases hx : fs.exportMergedSnapshotAt env fuel (joinPath (s :: rev).reverse) with
        | error e =>
          rw [hx] at hr
          obtain ⟨rfl, rfl⟩ := Prod.mk.inj hr
          refine ⟨h1, hk1, .inr ⟨⟨e, rfl⟩, view_append_none ?_ _⟩⟩
          rw [view, hview, Option.bind_some, if_pos hmem, hx]
          rfl
        | ok d =>
          rw [hx] at hr
          have hv : view env fuel fs (s :: rev) = some (CachedDir.mk d c.keys).dir :=
            view_cons.2 ⟨c.dir, hview, hmem, hx⟩
          obtain ⟨h2, hk2⟩ := h1.cacheDir hrev hp1 hv hchild
          obtain ⟨h3, hk3⟩ := h2.cacheParent child ino
          obtain ⟨h4, hk4⟩ := h3.cacheAttr (makeDirAttr child dr.tsSeconds)
          have hc4 := hk4.dirs child _ (hk3.dirs child ⟨d, c.keys⟩
            (by simp [ReadOnlyS5Fs.cacheDir]))
          obtain ⟨h5, hk5, hout⟩ := ih h4 hproper (hk4.path (hk3.path (hk2.path hp1))) hc4 hr
          exact ⟨h5, hk1.trans (hk2.trans (hk3.trans (hk4.trans hk5))), hout⟩

/-- **`ensure_dir_cached`** loads a directory exactly if it is shown. -/
theorem ensureDirCached_spec (law : rodeo.Lawful) {rev : List String} {m m' : ReadOnlyS5Fs β σ}
    {ino : Nat} {r : Except String Unit} (h : Coherent rodeo env fuel fs m) (hrev : Proper rev)
    (hp : m.pathForIno rodeo ino = some (mountPath rev))
    (hr : m.ensureDirCached env rodeo fuel ino = (m', r)) :
    Coherent rodeo env fuel fs m' ∧ Keeps rodeo m m' ∧
      ((r = .ok () ∧ ∃ c, m'.cache.dirs[ino]? = some c) ∨
        (∃ e, r = .error e) ∧ view env fuel fs rev = none) := by
  unfold ensureDirCached at hr
  generalize hroot : m.ensureRootCached env fuel = out at hr
  obtain ⟨m1, r1⟩ := out
  obtain ⟨h1, hk1, ⟨rfl, c, hc⟩ | ⟨⟨e, rfl⟩, hnone⟩⟩ := ensureRootCached_spec h hroot
  · dsimp only at hr
    split at hr
    · rename_i hcached
      obtain ⟨rfl, rfl⟩ := Prod.mk.inj hr
      refine ⟨h1, hk1, .inl ⟨rfl, ?_⟩⟩
      obtain rfl | hcached := hcached
      · exact ⟨c, hc⟩
      · exact Option.isSome_iff_exists.1 hcached
    · rw [hk1.path hp] at hr
      dsimp only at hr
      rw [segments_mountPath hrev] at hr
      have happ : rev.reverse.reverse ++ [] = rev := by simp
      obtain ⟨h2, hk2, hout⟩ := ensureSegmentsCached_spec law h1 (by rw [happ]; exact hrev) h1.root hc hr
      rw [happ] at hout
      refine ⟨h2, hk1.trans hk2, hout.imp_left ?_⟩
      rintro ⟨rfl, i, c', hi, hc'⟩
      obtain rfl := law.key_unique hi (hk2.path (hk1.path hp))
      exact ⟨rfl, c', hc'⟩
  · obtain ⟨rfl, rfl⟩ := Prod.mk.inj hr
    refine ⟨h1, hk1, .inr ⟨⟨e, rfl⟩, ?_⟩⟩
    simpa using view_append_none hnone rev

/-! ## Lookups -/

theorem answerChild_spec (law : rodeo.Lawful) {m m' : ReadOnlyS5Fs β σ} {parent : Nat} {path : String}
    {attr : Nat → FileAttr} {r : Except Error FileAttr} (h : Coherent rodeo env fuel fs m)
    (hr : m.answerChild rodeo parent path attr = (m', r)) :
    Coherent rodeo env fuel fs m' ∧ Keeps rodeo m m' ∧
      ∃ ino, r = .ok (attr ino) ∧ m'.pathForIno rodeo ino = some path := by
  unfold answerChild at hr
  generalize hi : m.inoForPath rodeo path = out at hr
  obtain ⟨m1, ino⟩ := out
  obtain ⟨h1, hk1, hp1⟩ := h.inoForPath law hi
  obtain ⟨rfl, rfl⟩ := Prod.mk.inj hr
  obtain ⟨h2, hk2⟩ := h1.cacheAttr (attr ino)
  obtain ⟨h3, hk3⟩ := h2.cacheParent ino parent
  exact ⟨h3, hk1.trans (hk2.trans hk3), ino, rfl, hk3.path (hk2.path hp1)⟩

/-- **`lookup`** finds the entries of the directory that is shown. -/
theorem lookup_spec (law : rodeo.Lawful) {rev : List String} {s : String} {m m' : ReadOnlyS5Fs β σ}
    {parent : Nat} {r : Except Error FileAttr} (h : Coherent rodeo env fuel fs m) (hrev : Proper rev)
    (hp : m.pathForIno rodeo parent = some (mountPath rev))
    (hr : m.lookup env rodeo fuel parent s = (m', r)) :
    Coherent rodeo env fuel fs m' ∧ Keeps rodeo m m' ∧
      match (view env fuel fs rev).bind (found · s) with
      | some attr => ∃ ino, r = .ok (attr ino) ∧
          m'.pathForIno rodeo ino = some (mountPath (s :: rev)) ∧ ∃ c, m'.cache.dirs[parent]? = some c
      | none => ∃ e, r = .error e := by
  unfold lookup at hr
  rw [hp] at hr
  dsimp only at hr
  generalize hens : m.ensureDirCached env rodeo fuel parent = out at hr
  obtain ⟨m1, r1⟩ := out
  obtain ⟨h1, hk1, ⟨rfl, c, hc⟩ | ⟨⟨e, rfl⟩, hnone⟩⟩ := ensureDirCached_spec law h hrev hp hens
  · have hview := h1.cached hc hrev (hk1.path hp)
    dsimp only at hr
    rw [hc] at hr
    dsimp only at hr
    rw [hview, Option.bind_some]
    have hanswer : ∀ attr : Nat → FileAttr,
        m1.answerChild rodeo parent (childPath (mountPath rev) s) attr = (m', r) →
        Coherent rodeo env fuel fs m' ∧ Keeps rodeo m m' ∧ ∃ ino, r = .ok (attr ino) ∧
          m'.pathForIno rodeo ino = some (mountPath (s :: rev)) ∧
          ∃ c, m'.cache.dirs[parent]? = some c := by
      intro attr ha
      obtain ⟨h2, hk2, ino, hok, hpath⟩ := answerChild_spec law h1 ha
      exact ⟨h2, hk1.trans hk2, ino, hok, hpath, c, hk2.dirs parent c hc⟩
    cases hd : c.dir.dirs[s]? with
    | some dr =>
      rw [hd] at hr
      simpa [found, hd] using hanswer _ hr
    | none =>
      rw [hd] at hr
      cases hf : c.dir.files[s]? with
      | some fr =>
        rw [hf] at hr
        simpa [found, hd, hf] using hanswer _ hr
      | none =>
        rw [hf] at hr
        obtain ⟨rfl, rfl⟩ := Prod.mk.inj hr
        simpa [found, hd, hf] using And.intro h1 hk1
  · obtain ⟨rfl, rfl⟩ := Prod.mk.inj hr
    rw [hnone, Option.bind_none]
    exact ⟨h1, hk1, _, rfl⟩

/-! ## Walks -/

variable (env fuel fs) in
/-- What the lookups of a walk find, from the directory `rev` on: each with its directory. -/
def plan : List String → List String → List (List String × String × (Nat → FileAttr))
  | _, [] => []
  | rev, s :: segs =>
    match (view env fuel fs rev).bind (found · s) with
    | none => []
    | some attr => (rev, s, attr) :: plan (s :: rev) segs

variable (rodeo) in
/-- A lookup has found an entry as it is shown, in a directory that is in the cache now. -/
structure Shows (m : ReadOnlyS5Fs β σ) (v : Visit) (x : List String × String × (Nat → FileAttr)) :
    Prop where
  parent : m.pathForIno rodeo v.parent = some (mountPath x.1)
  name : v.name = x.2.1
  attr : v.attr = x.2.2 v.attr.ino
  ino : m.pathForIno rodeo v.attr.ino = some (mountPath (x.2.1 :: x.1))
  cached : ∃ c, m.cache.dirs[v.parent]? = some c

theorem Shows.mono {m m' : ReadOnlyS5Fs β σ} {v : Visit} {x : List String × String × (Nat → FileAttr)}
    (h : Shows rodeo m v x) (hk : Keeps rodeo m m') : Shows rodeo m' v x :=
  ⟨hk.path h.parent, h.name, h.attr, hk.path h.ino, h.cached.imp fun c hc => hk.dirs v.parent c hc⟩

/-- **A walk** finds what is shown on the way. -/
theorem walk_spec (law : rodeo.Lawful) {segs rev : List String} {m m' : ReadOnlyS5Fs β σ} {ino : Nat}
    {visits : List Visit} (h : Coherent rodeo env fuel fs m) (hproper : Proper (segs.reverse ++ rev))
    (hp : m.pathForIno rodeo ino = some (mountPath rev))
    (hw : walk env rodeo fuel segs m ino = (m', visits)) :
    Coherent rodeo env fuel fs m' ∧ Keeps rodeo m m' ∧
      List.Forall₂ (Shows rodeo m') visits (plan env fuel fs rev segs) := by
  induction segs generalizing rev m ino visits with
  | nil =>
    obtain ⟨rfl, rfl⟩ := Prod.mk.inj hw
    exact ⟨h, .refl m, .nil⟩
  | cons s segs ih =>
    have happ : (s :: segs).reverse ++ rev = segs.reverse ++ (s :: rev) := by simp
    rw [happ] at hproper
    have hrev : Proper (s :: rev) := (proper_append.1 hproper).2
    rw [walk] at hw
    generalize hl : m.lookup env rodeo fuel ino s = out at hw
    obtain ⟨m1, r⟩ := out
    obtain ⟨h1, hk1, hfound⟩ := lookup_spec law h hrev.cons.2 hp hl
    rw [plan]
    cases hf : (view env fuel fs rev).bind (found · s) with
    | none =>
      rw [hf] at hfound
      obtain ⟨e, rfl⟩ := hfound
      obtain ⟨rfl, rfl⟩ := Prod.mk.inj hw
      exact ⟨h1, hk1, .nil⟩
    | some attr =>
      rw [hf] at hfound
      obtain ⟨child, rfl, hpath, c, hc⟩ := hfound
      have hino : (attr child).ino = child := by
        obtain ⟨d, -, hd⟩ := Option.bind_eq_some_iff.1 hf
        exact found_ino hd child
      dsimp only at hw
      rw [hino] at hw
      generalize hrest : walk env rodeo fuel segs m1 child = out at hw
      obtain ⟨m2, rest⟩ := out
      obtain ⟨rfl, rfl⟩ := Prod.mk.inj hw
      obtain ⟨h2, hk2, hshows⟩ := ih h1 hproper hpath hrest
      refine ⟨h2, hk1.trans hk2, .cons ?_ hshows⟩
      have hshow : Shows rodeo m1 ⟨ino, s, attr child⟩ (rev, s, attr) :=
        ⟨hk1.path hp, rfl, by rw [hino], by rw [hino]; exact hpath, c, hc⟩
      exact hshow.mono hk2

theorem exists_of_forall₂ {α γ : Type} {R : α → γ → Prop} {l : List α} {l' : List γ}
    (h : List.Forall₂ R l l') {x : α} (hx : x ∈ l) : ∃ y ∈ l', R x y := by
  induction h with
  | nil => exact absurd hx List.not_mem_nil
  | @cons a b l l' hab _ ih =>
    rcases List.mem_cons.1 hx with rfl | hx
    · exact ⟨b, List.mem_cons_self, hab⟩
    · obtain ⟨y, hy, hxy⟩ := ih hx
      exact ⟨y, List.mem_cons_of_mem b hy, hxy⟩

/-- A walk finds a segment exactly if its directory is shown and has an entry of that name. -/
theorem mem_plan {segs rev rev' : List String} {s : String} {attr : Nat → FileAttr} :
    (rev', s, attr) ∈ plan env fuel fs rev segs ↔ ∃ pre post, segs = pre ++ s :: post ∧
      rev' = pre.reverse ++ rev ∧ (view env fuel fs rev').bind (found · s) = some attr := by
  induction segs generalizing rev with
  | nil => simp [plan]
  | cons t segs ih =>
    have hcons : (∃ pre post, t :: segs = pre ++ s :: post ∧ rev' = pre.reverse ++ rev ∧
        (view env fuel fs rev').bind (found · s) = some attr) ↔
        (s = t ∧ rev' = rev ∧ (view env fuel fs rev).bind (found · t) = some attr) ∨
        ∃ pre post, segs = pre ++ s :: post ∧ rev' = pre.reverse ++ (t :: rev) ∧
          (view env fuel fs rev').bind (found · s) = some attr := by
      constructor
      · rintro ⟨pre, post, hsegs, rfl, hf⟩
        cases pre with
        | nil =>
          obtain ⟨rfl, rfl⟩ := List.cons.inj hsegs
          exact .inl ⟨rfl, rfl, hf⟩
        | cons u pre =>
          obtain ⟨rfl, rfl⟩ := List.cons.inj hsegs
          exact .inr ⟨pre, post, rfl, by simp, hf⟩
      · rintro (⟨rfl, rfl, hf⟩ | ⟨pre, post, rfl, rfl, hf⟩)
        · exact ⟨[], segs, rfl, rfl, hf⟩
        · exact ⟨t :: pre, post, rfl, by simp, hf⟩
    rw [hcons, plan]
    cases hf : (view env fuel fs rev).bind (found · t) with
    | none =>
      -- nothing is shown behind what is not found
      simp only [List.not_mem_nil, reduceCtorEq, and_false, false_or, false_iff]
      rintro ⟨pre, post, rfl, rfl, hs⟩
      obtain ⟨d, hd, -⟩ := Option.bind_eq_some_iff.1 hs
      obtain ⟨attr', hattr'⟩ := found_of_view hd
      cases hf.symm.trans hattr'
    | some attr' =>
      rw [List.mem_cons, ih]
      refine or_congr_left ?_
      simp only [Prod.mk.injEq, Option.some.injEq]
      constructor
      · rintro ⟨rfl, rfl, rfl⟩
        exact ⟨rfl, rfl, rfl⟩
      · rintro ⟨rfl, rfl, rfl⟩
        exact ⟨rfl, rfl, rfl⟩

variable (env fuel fs) in
/-- A file of the size `z` is shown where the segments lead from the directory `rev`. -/
def ShowsFile (rev segs : List String) (z : UInt64) : Prop :=
  ∃ pre s d f, segs = pre ++ [s] ∧ view env fuel fs (pre.reverse ++ rev) = some d ∧
    d.dirs[s]? = none ∧ d.files[s]? = some f ∧ f.size = z

theorem showsFile_cons_cons {rev segs : List String} {s t : String} {z : UInt64} :
    ShowsFile env fuel fs rev (s :: t :: segs) z ↔ ShowsFile env fuel fs (s :: rev) (t :: segs) z := by
  constructor
  · rintro ⟨pre, u, d, f, hsegs, hv, hd, hf, hz⟩
    cases pre with
    | nil =>
      obtain ⟨-, hnil⟩ := List.cons.inj hsegs
      cases hnil
    | cons x pre =>
      obtain ⟨rfl, htail⟩ := List.cons.inj hsegs
      exact ⟨pre, u, d, f, htail, by simpa using hv, hd, hf, hz⟩
  · rintro ⟨pre, u, d, f, hsegs, hv, hd, hf, hz⟩
    exact ⟨s :: pre, u, d, f, by rw [hsegs, List.cons_append], by simpa using hv, hd, hf, hz⟩

theorem showsFile_singleton {rev : List String} {s : String} {z : UInt64} :
    ShowsFile env fuel fs rev [s] z ↔
      ∃ d f, view env fuel fs rev = some d ∧ d.dirs[s]? = none ∧ d.files[s]? = some f ∧ f.size = z := by
  constructor
  · rintro ⟨pre, u, d, f, hsegs, hv, hd, hf, hz⟩
    obtain ⟨rfl, rfl⟩ : pre = [] ∧ u = s := by
      cases pre with
      | nil => exact ⟨rfl, (List.cons.inj hsegs).1.symm⟩
      | cons x pre => simp at hsegs
    exact ⟨d, f, hv, hd, hf, hz⟩
  · rintro ⟨d, f, hv, hd, hf, hz⟩
    exact ⟨[], s, d, f, rfl, hv, hd, hf, hz⟩

theorem fileAtEnd_cons {s t : String} {segs : List String} {v : Visit} {visits : List Visit} :
    fileAtEnd (s :: t :: segs) (v :: visits) = fileAtEnd (t :: segs) visits := by
  cases visits with
  | nil => simp [fileAtEnd]
  | cons u visits => simp [fileAtEnd, List.getLast?_cons_cons]

/-- **A walk ends in a file** exactly if one is shown there. -/
theorem fileAtEnd_iff {m : ReadOnlyS5Fs β σ} {segs rev : List String} {visits : List Visit}
    {z : UInt64} (h : List.Forall₂ (Shows rodeo m) visits (plan env fuel fs rev segs)) :
    fileAtEnd segs visits = some z ↔ ShowsFile env fuel fs rev segs z := by
  induction segs generalizing rev visits with
  | nil =>
    have hend : fileAtEnd [] visits = none := by
      cases h
      rfl
    rw [hend]
    simp [ShowsFile]
  | cons s segs ih =>
    rw [plan] at h
    cases hf : (view env fuel fs rev).bind (found · s) with
    | none =>
      rw [hf] at h
      cases h
      refine iff_of_false (by simp [fileAtEnd]) ?_
      rintro ⟨pre, t, d, f, hsegs, hv, hd, hfile, -⟩
      cases pre with
      | nil =>
        obtain ⟨rfl, -⟩ := List.cons.inj hsegs
        simp [show view env fuel fs rev = some d from hv, found, hd, hfile] at hf
      | cons u pre =>
        obtain ⟨rfl, rfl⟩ := List.cons.inj hsegs
        rw [List.reverse_cons, List.append_assoc] at hv
        obtain ⟨attr, hattr⟩ := found_of_view hv
        cases hf.symm.trans hattr
    | some attr =>
      rw [hf] at h
      cases h with
      | @cons v _ rest _ hshow hrest =>
        cases segs with
        | nil =>
          cases hrest
          rw [showsFile_singleton]
          obtain ⟨d, hview, hfound⟩ := Option.bind_eq_some_iff.1 hf
          have hend : fileAtEnd [s] [v] =
              if v.attr.kind = .regularFile then some v.attr.size else none := by
            by_cases hk : v.attr.kind = .regularFile
            · simp [fileAtEnd, Option.filter, hk]
            · simp [fileAtEnd, Option.filter, hk]
          have hattr := hshow.attr
          generalize v.attr.ino = ino at hattr
          rw [hend, hattr]
          cases hd : d.dirs[s]? with
          | some dr =>
            obtain rfl : (makeDirAttr · dr.tsSeconds) = attr := by simpa [found, hd] using hfound
            refine iff_of_false (by simp [makeDirAttr, rootAttr]) ?_
            rintro ⟨d', f, hd', hnone, -⟩
            obtain rfl := Option.some.inj (hview.symm.trans hd')
            cases hd.symm.trans hnone
          | none =>
            cases hfile : d.files[s]? with
            | none => simp [found, hd, hfile] at hfound
            | some fr =>
              obtain rfl : (makeFileAttr · fr.size fr.timestamp) = attr := by
                simpa [found, hd, hfile] using hfound
              simp only [makeFileAttr, if_true, Option.some.injEq]
              constructor
              · rintro rfl
                exact ⟨d, fr, hview, hd, hfile, rfl⟩
              · rintro ⟨d', f, hd', -, hf', rfl⟩
                obtain rfl := Option.some.inj (hview.symm.trans hd')
                rw [Option.some.inj (hfile.symm.trans hf')]
        | cons t segs =>
          rw [fileAtEnd_cons, showsFile_cons_cons]
          exact ih hrest

/-! ## Listings -/

theorem listChildren_spec (law : rodeo.Lawful) {α : Type} {ino : Nat} {path : String}
    {attr : Nat → α → FileAttr} {xs : List (String × α)} {m m' : ReadOnlyS5Fs β σ}
    {entries : List DirEntry} (hl : listChildren rodeo ino path attr xs m = (m', entries)) :
    entries.map (·.name) = xs.map Prod.fst ∧ rodeo.Extends m.inodes m'.inodes ∧
      ∀ e ∈ entries, m'.pathForIno rodeo e.inode = some (childPath path e.name) := by
  induction xs generalizing m entries with
  | nil =>
    obtain ⟨rfl, rfl⟩ := Prod.mk.inj hl
    exact ⟨rfl, .refl _, fun e he => absurd he List.not_mem_nil⟩
  | cons x xs ih =>
    obtain ⟨name, y⟩ := x
    rw [listChildren] at hl
    generalize hi : m.inoForPath rodeo (childPath path name) = out at hl
    obtain ⟨m1, child⟩ := out
    obtain ⟨hk1, hp1, -, -⟩ := inoForPath_keeps law hi
    dsimp only at hl
    generalize hrest : listChildren rodeo ino path attr xs
      ((m1.cacheParent child ino).cacheAttr (attr child y)) = out at hl
    obtain ⟨m2, rest⟩ := out
    obtain ⟨rfl, rfl⟩ := Prod.mk.inj hl
    obtain ⟨hnames, hext, hpaths⟩ := ih hrest
    refine ⟨by rw [List.map_cons, List.map_cons, hnames], hk1.inodes.trans hext, fun e he => ?_⟩
    rcases List.mem_cons.1 he with rfl | he
    · exact hext child _ hp1
    · exact hpaths e he

theorem listDir_spec (law : rodeo.Lawful) {rev : List String} {m m' : ReadOnlyS5Fs β σ} {ino : Nat}
    {c : CachedDir} {entries : List DirEntry} (hp : m.pathForIno rodeo ino = some (mountPath rev))
    (hl : m.listDir rodeo ino c = (m', entries)) :
    rodeo.Extends m.inodes m'.inodes ∧ ∃ parent children,
      entries = ⟨ino, .directory, "."⟩ :: ⟨parent, .directory, ".."⟩ :: children ∧
      children.map (·.name) = c.dir.dirs.keys ++ c.dir.files.keys ∧
      ∀ e ∈ children, m'.pathForIno rodeo e.inode = some (mountPath (e.name :: rev)) := by
  unfold listDir at hl
  rw [hp, Option.getD_some] at hl
  dsimp only at hl
  generalize hd : listChildren rodeo ino (mountPath rev)
    (fun child (dref : DirRef) => makeDirAttr child dref.tsSeconds) c.dir.dirs.toList m = out at hl
  obtain ⟨m1, dirs⟩ := out
  dsimp only at hl
  generalize hf : listChildren rodeo ino (mountPath rev)
    (fun child (fr : FileRef) => makeFileAttr child fr.size fr.timestamp) c.dir.files.toList m1 = out
    at hl
  obtain ⟨m2, files⟩ := out
  obtain ⟨rfl, rfl⟩ := Prod.mk.inj hl
  obtain ⟨hdirs, hext1, hpaths1⟩ := listChildren_spec law hd
  obtain ⟨hfiles, hext2, hpaths2⟩ := listChildren_spec law hf
  refine ⟨hext1.trans hext2, _, dirs ++ files, rfl, ?_, fun e he => ?_⟩
  · rw [List.map_append, hdirs, hfiles, ExtTreeMap.map_fst_toList_eq_keys,
      ExtTreeMap.map_fst_toList_eq_keys]
  · rcases List.mem_append.1 he with he | he
    · exact hext2 _ _ (hpaths1 e he)
    · exact hpaths2 e he

/-- **`readdir`** lists the entries of a directory in the cache, after itself and its parent. -/
theorem readdir_spec (law : rodeo.Lawful) {rev : List String} {m : ReadOnlyS5Fs β σ} {ino : Nat}
    {c : CachedDir} (h : Coherent rodeo env fuel fs m) (hrev : Proper rev)
    (hp : m.pathForIno rodeo ino = some (mountPath rev)) (hc : m.cache.dirs[ino]? = some c) :
    ∃ m' parent children, m.readdir env rodeo fuel ino 0 =
        (m', .ok (⟨ino, .directory, "."⟩ :: ⟨parent, .directory, ".."⟩ :: children)) ∧
      rodeo.Extends m.inodes m'.inodes ∧ view env fuel fs rev = some c.dir ∧
      children.map (·.name) = c.dir.dirs.keys ++ c.dir.files.keys ∧
      ∀ e ∈ children, m'.pathForIno rodeo e.inode = some (mountPath (e.name :: rev)) := by
  have hview := h.cached hc hrev hp
  unfold readdir
  rw [hc, Option.isSome_some, if_pos rfl]
  dsimp only
  generalize hens : m.ensureDirCached env rodeo fuel ino = out
  obtain ⟨m1, r1⟩ := out
  obtain ⟨h1, hk1, ⟨rfl, -⟩ | ⟨-, hnone⟩⟩ := ensureDirCached_spec law h hrev hp hens
  · dsimp only
    rw [hk1.dirs ino c hc]
    dsimp only
    rw [h1.dirEntries, ExtTreeMap.getElem?_empty]
    dsimp only
    generalize hl : m1.listDir rodeo ino c = out
    obtain ⟨m2, entries⟩ := out
    obtain ⟨hext, parent, children, rfl, hnames, hpaths⟩ := listDir_spec law (hk1.path hp) hl
    exact ⟨_, parent, children, rfl, hk1.inodes.trans hext, hview, hnames, hpaths⟩
  · cases hview.symm.trans hnone

end ReadOnlyS5Fs

end Fuse
