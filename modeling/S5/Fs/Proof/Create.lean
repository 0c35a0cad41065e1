import S5.Fs.Create
import S5.Fs.Proof.Promote
import S5.Fs.Proof.ShardLookup

/-!
# New directories and lookups

A new directory gets the entries below its path, but only the first segment of a path decides which
directory handles it. So a directory takes over paths that did not move to it, and entries that moved
may be out of its reach.

* `sameFiles_pathOp`: what a request does to the answers of `file_get` is decided where it is handled.
* `creation_keeps_files_iff`: `create_dir`, `subdir` and promotions keep what `file_get` answers on
  every path exactly under `Creation.Keeps`.
-/

open Std

namespace Fs

namespace Actor

section
variable {β : Type} {env : Env β} {w w' : World β} {regs : RegistryDirHandles} {a b : Actor}

/-! ## Stored directories -/

/-- The contexts of the stored directories that lookups in a tree open. -/
inductive Opens (env : Env β) (w : World β) (regs : RegistryDirHandles) :
    Actor → DirContext Unit → Prop where
  | dir {a : Actor} {name : String} {dirRef : DirRef} (hh : a.dirHandles.lookup name = none)
      (hd : a.state.dirs[name]? = some dirRef)
      (hr : dirRef.refTypeD = .registryKey → regs.lookup dirRef.hash = none) :
      Opens env w regs a (a.context.withNewRef dirRef (dirLink a.context () name dirRef))
  | shard {a : Actor} {index : UInt8} {dirRef : DirRef} {link : DirContextParentLink Unit}
      (hh : a.dirShardHandles.lookup index = none)
      (hl : shardLink a.state () index = .ok (dirRef, link)) :
      Opens env w regs a (a.context.withNewRef dirRef link)
  | inDir {a child : Actor} {name : String} {ctx : DirContext Unit}
      (ho : openDir env w regs a name = .ok child) (h : Opens env w regs child ctx) :
      Opens env w regs a ctx
  | inShard {a child : Actor} {index : UInt8} {ctx : DirContext Unit}
      (ho : openDirShard env w a index = .ok child) (h : Opens env w regs child ctx) :
      Opens env w regs a ctx

/-- Every stored directory that lookups in the tree open reads in `w'` as in `w`: what has been
written in between has not been missing before. -/
def Undisturbed (env : Env β) (regs : RegistryDirHandles) (w w' : World β) (a : Actor) : Prop :=
  ∀ ctx, Opens env w regs a ctx → load env ctx w' = load env ctx w

theorem Undisturbed.inDir (h : Undisturbed env regs w w' a) {name : String} {child : Actor}
    (ho : openDir env w regs a name = .ok child) : Undisturbed env regs w w' child :=
  fun ctx hc => h ctx (.inDir ho hc)

theorem Undisturbed.inShard (h : Undisturbed env regs w w' a) {index : UInt8} {child : Actor}
    (ho : openDirShard env w a index = .ok child) : Undisturbed env regs w w' child :=
  fun ctx hc => h ctx (.inShard ho hc)

theorem Undisturbed.openDir (h : Undisturbed env regs w w' a) (name : String) :
    openDir env w' regs a name = openDir env w regs a name := by
  unfold Actor.openDir
  cases hh : a.dirHandles.lookup name with
  | some child => rfl
  | none =>
    cases hd : a.state.dirs[name]? with
    | none => rfl
    | some dirRef =>
      have hspawn : (dirRef.refTypeD = .registryKey → regs.lookup dirRef.hash = none) →
          spawn env (a.context.withNewRef dirRef (dirLink a.context () name dirRef)) w' =
            spawn env (a.context.withNewRef dirRef (dirLink a.context () name dirRef)) w := by
        intro hr
        rw [spawn, spawn, h _ (.dir hh hd hr)]
      dsimp only
      cases ht : dirRef.refTypeD with
      | blake3Hash =>
        rw [ht] at hspawn
        exact hspawn fun h => absurd h (by decide)
      | registryKey =>
        cases hl : regs.lookup dirRef.hash with
        | some child => rfl
        | none => exact hspawn fun _ => hl

theorem Undisturbed.openDirShard (h : Undisturbed env regs w w' a) (index : UInt8) :
    openDirShard env w' a index = openDirShard env w a index := by
  unfold Actor.openDirShard
  cases hh : a.dirShardHandles.lookup index with
  | some child => rfl
  | none =>
    cases hl : shardLink a.state () index with
    | error e => rfl
    | ok x =>
      obtain ⟨dirRef, link⟩ := x
      simp only [bind, Except.bind]
      rw [spawn, spawn, h _ (.shard hh hl)]

theorem Undisturbed.lookup (fuel : Nat) (h : Undisturbed env regs w w' a) (path : String) :
    lookup env w' regs fuel a path = lookup env w regs fuel a path := by
  induction fuel generalizing a path with
  | zero => rfl
  | succ fuel ih =>
    unfold Actor.lookup routeToChild
    cases route env a.state path with
    | error e => rfl
    | ok rt =>
      cases rt with
      | here => rfl
      | shard index =>
        simp only [bind, Except.bind, pure, Except.pure, h.openDirShard]
        cases ho : Actor.openDirShard env w a index with
        | error e => rfl
        | ok child => exact ih (h.inShard ho) path
      | dir name rest =>
        simp only [bind, Except.bind, pure, Except.pure, h.openDir]
        cases ho : Actor.openDir env w regs a name with
        | error e => rfl
        | ok child => exact ih (h.inDir ho) rest

theorem Undisturbed.reaches (h : Undisturbed env regs w w' a) {path : String} {r : Option FileRef} :
    Reaches env w' regs a path r ↔ Reaches env w regs a path r := by
  unfold Reaches
  simp only [h.lookup]

/-- Lookups in a directory of files open nothing. -/
theorem undisturbed_flat (hu : a.Unsharded) (hd : a.state.dirs = ∅) (hh : a.dirHandles = []) :
    Undisturbed env regs w w' a := by
  have hopens : ∀ {c ctx}, Opens env w regs c ctx → c ≠ a := by
    rintro c ctx h rfl
    cases h with
    | dir _ hmem _ =>
      rw [hd] at hmem
      simp at hmem
    | shard _ hl => simp [shardLink, hu.shards] at hl
    | inDir ho _ => simp [Actor.openDir, hd, hh] at ho
    | inShard ho _ =>
      simp [Actor.openDirShard, shardLink, hu.shards, hu.dirShardHandles, bind, Except.bind] at ho
  exact fun ctx h => absurd rfl (hopens h)

/-! ## Unsharded directories -/

/-- A directory that is not sharded and holds handles of its own child directories only. -/
structure Plain (a : Actor) : Prop where
  unsharded : a.Unsharded
  named : ∀ name child, a.dirHandles.lookup name = some child → name ∈ a.state.dirs

theorem Plain.ofNew (context : DirContext Unit) {d : DirV1} (h : d.header = .new) :
    (Actor.ofNew context d).Plain :=
  ⟨⟨by rw [Actor.ofNew, h]; rfl, by rw [Actor.ofNew, h]; rfl, rfl⟩, nofun⟩

theorem route_plain (hu : a.Unsharded) (path : String) :
    route env a.state path = .ok (if (splitPath path).1 ∈ a.state.dirs
      then .dir (splitPath path).1 (splitPath path).2 else .here) := by
  simp only [route, hu.shardLevel, routeDirect]

theorem reaches_plain (hu : a.Unsharded) {path : String} {r : Option FileRef} :
    Reaches env w regs a path r ↔
      if (splitPath path).1 ∈ a.state.dirs
      then ReachesIn env w regs (openDir env w regs a (splitPath path).1) (splitPath path).2 r
      else r = a.state.files[path]? := by
  rw [reaches_unsharded hu]
  cases hd : a.state.dirs[(splitPath path).1]? with
  | none => rw [if_neg (by simp [ExtTreeMap.mem_iff_isSome_getElem?, hd])]
  | some d => rw [if_pos (by simp [ExtTreeMap.mem_iff_isSome_getElem?, hd])]

/-! ## Ways -/

/-- `b` is one of the directories that a request on a path passes, which it is asked for `q`. -/
inductive Way (env : Env β) (w : World β) (regs : RegistryDirHandles) :
    Actor → String → Actor → String → Prop where
  | start (a : Actor) (path : String) : Way env w regs a path a path
  | hop {a child b : Actor} {path q : String} (hd : (splitPath path).1 ∈ a.state.dirs)
      (ho : openDir env w regs a (splitPath path).1 = .ok child)
      (h : Way env w regs child (splitPath path).2 b q) : Way env w regs a path b q

/-- All directories that a request on a path passes are plain. -/
def PlainWay (env : Env β) (w : World β) (regs : RegistryDirHandles) (a : Actor) (path : String) :
    Prop :=
  ∀ b q, Way env w regs a path b q → b.Plain

theorem PlainWay.here {path : String} (h : PlainWay env w regs a path) : a.Plain := h a path (.start a path)

theorem PlainWay.hop {path : String} {child : Actor} (h : PlainWay env w regs a path)
    (hd : (splitPath path).1 ∈ a.state.dirs)
    (ho : openDir env w regs a (splitPath path).1 = .ok child) :
    PlainWay env w regs child (splitPath path).2 :=
  fun b q hw => h b q (.hop hd ho hw)

/-- The directory that handles a request is on its way, and no child takes the path from it. -/
def Handles (env : Env β) (w : World β) (regs : RegistryDirHandles) (a : Actor) (path : String)
    (b : Actor) (q : String) : Prop :=
  Way env w regs a path b q ∧ (splitPath q).1 ∉ b.state.dirs

theorem handles_here {path q : String} (hd : (splitPath path).1 ∉ a.state.dirs) :
    Handles env w regs a path b q ↔ b = a ∧ q = path := by
  constructor
  · rintro ⟨hw, -⟩
    cases hw with
    | start => exact ⟨rfl, rfl⟩
    | hop hd' => exact absurd hd' hd
  · rintro ⟨rfl, rfl⟩
    exact ⟨.start b q, hd⟩

theorem handles_hop {path q : String} {child : Actor} (hd : (splitPath path).1 ∈ a.state.dirs)
    (ho : openDir env w regs a (splitPath path).1 = .ok child) :
    Handles env w regs a path b q ↔ Handles env w regs child (splitPath path).2 b q := by
  constructor
  · rintro ⟨hw, hq⟩
    cases hw with
    | start => exact absurd hd hq
    | hop hd' ho' h =>
      rw [ho] at ho'
      cases ho'
      exact ⟨h, hq⟩
  · rintro ⟨hw, hq⟩
    exact ⟨.hop hd ho hw, hq⟩

/-! ## Keeping a child -/

/-- Lookups in `a'` at `w'` find what lookups in `a` at `w` find. -/
def SameLookups (env : Env β) (regs : RegistryDirHandles) (w : World β) (a : Actor) (w' : World β)
    (a' : Actor) : Prop :=
  ∀ path r, Reaches env w regs a path r ↔ Reaches env w' regs a' path r

/-- `file_get` in a tree answers `r`. -/
def Gets (env : Env β) (w : World β) (regs : RegistryDirHandles) (a : Actor) (path : String)
    (r : Option FileRef) : Prop :=
  ∃ q, Reaches env w regs a path q ∧ r = live q

/-- The answer of a child, or nothing if it could not be opened. -/
def GetsIn (env : Env β) (w : World β) (regs : RegistryDirHandles) (c : Except String Actor)
    (path : String) (r : Option FileRef) : Prop :=
  match c with
  | .ok c => Gets env w regs c path r
  | .error _ => r = none

/-- `file_get` answers the same in `a'` at `w'` as in `a` at `w`. -/
def SameFiles (env : Env β) (regs : RegistryDirHandles) (w : World β) (a : Actor) (w' : World β)
    (a' : Actor) : Prop :=
  ∀ path r, Gets env w regs a path r ↔ Gets env w' regs a' path r

theorem gets_congr {path : String} {path' : String} (h : ∀ q, Reaches env w regs a path q ↔
    Reaches env w' regs b path' q) {r : Option FileRef} :
    Gets env w regs a path r ↔ Gets env w' regs b path' r := by
  unfold Gets
  simp only [h]

theorem gets_plain (hu : a.Unsharded) {path : String} {r : Option FileRef} :
    Gets env w regs a path r ↔
      if (splitPath path).1 ∈ a.state.dirs
      then GetsIn env w regs (openDir env w regs a (splitPath path).1) (splitPath path).2 r
      else r = live a.state.files[path]? := by
  unfold Gets
  simp only [reaches_plain hu]
  by_cases hd : (splitPath path).1 ∈ a.state.dirs
  · simp only [if_pos hd]
    cases openDir env w regs a (splitPath path).1 with
    | ok child => rfl
    | error e =>
      constructor
      · rintro ⟨q, rfl, rfl⟩
        rfl
      · rintro rfl
        exact ⟨none, rfl, rfl⟩
  · simp only [if_neg hd, exists_eq_left]

theorem Undisturbed.gets (h : Undisturbed env regs w w' a) {path : String} {r : Option FileRef} :
    Gets env w' regs a path r ↔ Gets env w regs a path r :=
  gets_congr fun _ => h.reaches

theorem hear_state (a child child' : Actor) :
    (a.hear child child').context = a.context ∧ (a.hear child child').state = a.state ∧
      (a.hear child child').dirHandles = a.dirHandles ∧
      (a.hear child child').dirShardHandles = a.dirShardHandles := by
  unfold hear
  split
  · exact ⟨rfl, rfl, rfl, rfl⟩
  · exact ⟨rfl, rfl, rfl, rfl⟩

theorem reaches_hear {child child' : Actor} {path : String} {r : Option FileRef} :
    Reaches env w regs (a.hear child child') path r ↔ Reaches env w regs a path r := by
  obtain ⟨hc, hs, hd, hh⟩ := hear_state a child child'
  exact reaches_congr hc hs hd hh

theorem gets_hear {child child' : Actor} {path : String} {r : Option FileRef} :
    Gets env w regs (a.hear child child') path r ↔ Gets env w regs a path r :=
  gets_congr fun _ => reaches_hear

theorem openDir_keepDir (a child : Actor) (n name : String) :
    openDir env w regs (a.keepDir n child) name =
      if name = n then .ok child else openDir env w regs a name := by
  by_cases h : name = n
  · simp [openDir, keepDir, h]
  · have hb : (name == n) = false := beq_eq_false_iff_ne.2 h
    have hlook : (a.keepDir n child).dirHandles.lookup name = a.dirHandles.lookup name := by
      simp only [keepDir, List.lookup_cons, hb]
      exact lookup_filter_ne h _
    simp only [openDir, hlook, if_neg h]
    rfl

theorem gets_keepDir (hu : a.Unsharded) {n : String} (hn : n ∈ a.state.dirs) {child : Actor}
    {path : String} {r : Option FileRef} :
    Gets env w regs (a.keepDir n child) path r ↔
      if (splitPath path).1 = n then Gets env w regs child (splitPath path).2 r
      else Gets env w regs a path r := by
  have hu' : (a.keepDir n child).Unsharded := ⟨hu.shardLevel, hu.shards, hu.dirShardHandles⟩
  have hdirs : (a.keepDir n child).state.dirs = a.state.dirs := rfl
  have hfiles : (a.keepDir n child).state.files = a.state.files := rfl
  rw [gets_plain hu', gets_plain hu, openDir_keepDir, hdirs, hfiles]
  by_cases h : (splitPath path).1 = n
  · simp only [h, hn, if_true, GetsIn]
  · simp only [h, if_false]

/-- A child that has been worked on changes lookups exactly as far as its own lookups change. -/
theorem sameFiles_keepDir (hu : a.Unsharded) {n : String} {child child' c : Actor}
    (hslash : '/' ∉ n.toList) (hd : n ∈ a.state.dirs) (ho : openDir env w regs a n = .ok child)
    (hun : Undisturbed env regs w w' a) :
    SameFiles env regs w a w' ((a.keepDir n child').hear child c) ↔
      SameFiles env regs w child w' child' := by
  have hat : ∀ x r, (splitPath x).1 = n →
      (Gets env w regs a x r ↔ Gets env w regs child (splitPath x).2 r) := by
    intro x r hx
    rw [gets_plain hu, hx, if_pos hd, ho, GetsIn]
  constructor
  · intro h y r
    have hy : splitPath (n ++ "/" ++ y) = (n, y) := splitPath_append hslash
    have hxy := h (n ++ "/" ++ y) r
    rw [gets_hear, gets_keepDir hu hd, hy, if_pos rfl, hat _ _ (by rw [hy]), hy] at hxy
    exact hxy
  · intro h x r
    rw [gets_hear, gets_keepDir hu hd]
    by_cases hx : (splitPath x).1 = n
    · rw [if_pos hx, hat x r hx]
      exact h _ r
    · rw [if_neg hx]
      exact hun.gets.symm

/-! ## Requests on their way -/

/-- What an action on a path does to lookups is decided where the path is handled. -/
theorem sameFiles_pathOp
    {act : World β → Actor → String → World β × Actor × Except String Unit}
    {keeps : Actor → String → Prop}
    (hact : ∀ {w' : World β} {b b' : Actor} {q : String}, b.Plain →
      (splitPath q).1 ∉ b.state.dirs → act w b q = (w', b', .ok ()) → w'.collided = false →
      Undisturbed env regs w w' b → (SameFiles env regs w b w' b' ↔ keeps b q))
    (fuel : Nat) {a a' : Actor} {path : String}
    (hplain : PlainWay env w regs a path)
    (hrun : pathOp env act regs fuel w a path = some (w', a', .ok ())) (hc : w'.collided = false)
    (hun : Undisturbed env regs w w' a) :
    SameFiles env regs w a w' a' ↔ ∀ b q, Handles env w regs a path b q → keeps b q := by
  induction fuel generalizing a a' path with
  | zero => cases hrun
  | succ fuel ih =>
    have ha := hplain.here
    unfold pathOp at hrun
    rw [route_plain ha.unsharded] at hrun
    by_cases hd : (splitPath path).1 ∈ a.state.dirs
    · simp only [if_pos hd] at hrun
      cases ho : openDir env w regs a (splitPath path).1 with
      | error e =>
        rw [ho] at hrun
        simp at hrun
      | ok child =>
        rw [ho] at hrun
        simp only [Option.map_eq_some_iff, Prod.mk.injEq, Prod.exists] at hrun
        obtain ⟨w1, child', r, hchild, rfl, rfl, rfl⟩ := hrun
        rw [sameFiles_keepDir ha.unsharded (splitPath_fst_slash_free path) hd ho hun,
          ih (hplain.hop hd ho) hchild (hun.inDir ho)]
        simp only [handles_hop hd ho]
    · simp only [if_neg hd, Option.some.injEq] at hrun
      rw [hact ha hd hrun hc hun]
      simp only [handles_here hd]
      constructor
      · rintro h b q ⟨rfl, rfl⟩
        exact h
      · intro h
        exact h a path ⟨rfl, rfl⟩

/-! ## Entries that move to a child -/

/-- `a'` is the directory `a` after its entries below `dir/` have gone to `child`. -/
structure Extracted (a : Actor) (dir : String) (child a' : Actor) : Prop where
  context : a'.context = a.context
  header : a'.state.header = a.state.header
  dirs : ∃ dirRef, a'.state.dirs = a.state.dirs.insert dir dirRef
  files : a'.state.files = (extractChildDirState a.state dir).1.files
  handle : a'.dirHandles.lookup dir = some child
  others : ∀ name, name ≠ dir → a'.dirHandles.lookup name = a.dirHandles.lookup name
  dirShardHandles : a'.dirShardHandles = a.dirShardHandles

section
variable {dir : String} {child a' : Actor}

theorem Extracted.plain (h : Extracted a dir child a') (ha : a.Plain) : a'.Plain := by
  obtain ⟨dirRef, hdirs⟩ := h.dirs
  refine ⟨⟨by rw [h.header]; exact ha.unsharded.shardLevel, by rw [h.header]; exact ha.unsharded.shards,
    by rw [h.dirShardHandles]; exact ha.unsharded.dirShardHandles⟩, fun name c hc => ?_⟩
  rw [hdirs, ExtTreeMap.mem_insert, Std.compare_eq_iff_eq]
  by_cases hn : name = dir
  · exact .inl hn.symm
  · rw [h.others name hn] at hc
    exact .inr (ha.named name c hc)

theorem Extracted.mem_dirs (h : Extracted a dir child a') {name : String} :
    name ∈ a'.state.dirs ↔ name = dir ∨ name ∈ a.state.dirs := by
  obtain ⟨dirRef, hdirs⟩ := h.dirs
  rw [hdirs, ExtTreeMap.mem_insert, Std.compare_eq_iff_eq, eq_comm]

theorem Extracted.openDir (h : Extracted a dir child a') (name : String) :
    openDir env w regs a' name = if name = dir then .ok child else openDir env w regs a name := by
  obtain ⟨dirRef, hdirs⟩ := h.dirs
  unfold Actor.openDir
  by_cases hn : name = dir
  · simp only [hn, h.handle, if_true]
  · have href : a'.state.dirs[name]? = a.state.dirs[name]? := by
      rw [hdirs, ExtTreeMap.getElem?_insert, if_neg]
      rw [Std.compare_eq_iff_eq]
      exact Ne.symm hn
    simp only [if_neg hn, h.others name hn, href, h.context, dirLink]

/-- Lookups after entries have moved: those through the new directory go to the child, and the other
paths below it find nothing. -/
theorem Extracted.gets (h : Extracted a dir child a') (ha : a.Plain) {path : String}
    {r : Option FileRef} :
    Gets env w regs a' path r ↔
      if (splitPath path).1 = dir then Gets env w regs child (splitPath path).2 r
      else if (splitPath path).1 ∈ a.state.dirs then Gets env w regs a path r
      else r = live (if (stripDir dir path).isSome then none else a.state.files[path]?) := by
  rw [gets_plain (h.plain ha).unsharded, h.openDir, h.files, extractChildDirState_fst_files]
  by_cases hn : (splitPath path).1 = dir
  · simp only [h.mem_dirs, hn, true_or, if_true, GetsIn]
  · simp only [h.mem_dirs, hn, false_or, if_false]
    by_cases hd : (splitPath path).1 ∈ a.state.dirs
    · rw [if_pos hd, if_pos hd, gets_plain ha.unsharded, if_pos hd]
    · rw [if_neg hd, if_neg hd]

theorem stripDir_of_slash_free {path : String} (h : '/' ∉ dir.toList) (hn : (splitPath path).1 ≠ dir) :
    stripDir dir path = none := by
  rw [← Option.not_isSome_iff_eq_none, isSome_stripDir h, decide_eq_true_eq]
  intro hs
  unfold splitPath at hn
  cases hp : splitOnce path with
  | none =>
    rw [hp] at hs
    cases hs
  | some ab =>
    rw [hp] at hn hs
    exact hn (Option.some.inj hs)

/-- A new directory named by one segment keeps lookups if its child finds what lay below it, and the
file of its own name is also the one of the empty name in it. -/
theorem Extracted.sameFiles_iff (h : Extracted a dir child a') (ha : a.Plain)
    (hslash : '/' ∉ dir.toList) (hnew : dir ∉ a.state.dirs) (hun : Undisturbed env regs w w' a) :
    SameFiles env regs w a w' a' ↔
      (∀ y r, Gets env w' regs child y r ↔ r = live a.state.files[dir ++ "/" ++ y]?) ∧
        live a.state.files[dir]? = live a.state.files[dir ++ "/"]? := by
  have hempty : dir ++ "/" ++ "" = dir ++ "/" := String.append_empty
  have hself : splitPath dir = (dir, "") := splitPath_of_slash_free hslash
  have hbelow : ∀ y, splitPath (dir ++ "/" ++ y) = (dir, y) := fun y => splitPath_append hslash
  constructor
  · intro hs
    have hchild : ∀ y r, Gets env w' regs child y r ↔ r = live a.state.files[dir ++ "/" ++ y]? := by
      intro y r
      have hy := hs (dir ++ "/" ++ y) r
      rw [h.gets ha, hbelow y, if_pos rfl, gets_plain ha.unsharded, hbelow y, if_neg hnew] at hy
      exact hy.symm
    refine ⟨hchild, ?_⟩
    have hdir := hs dir (live a.state.files[dir]?)
    rw [h.gets ha, hself, if_pos rfl, hchild, hempty, gets_plain ha.unsharded, hself,
      if_neg hnew] at hdir
    exact hdir.1 rfl
  · rintro ⟨hchild, hfile⟩ path r
    rw [h.gets ha]
    by_cases hn : (splitPath path).1 = dir
    · rw [if_pos hn, hchild, gets_plain ha.unsharded, hn, if_neg hnew]
      cases hp : splitOnce path with
      | none =>
        have hpath := splitPath_of_slash_free (splitOnce_eq_none.1 hp)
        rw [hpath] at hn
        have hdir : path = dir := hn
        rw [hpath, hempty, hdir, hfile]
      | some ab =>
        obtain ⟨x, y⟩ := ab
        have hpath : splitPath path = (x, y) := by rw [splitPath, hp]; rfl
        have hx : x = dir := by rw [hpath] at hn; exact hn
        have heq : path = dir ++ "/" ++ y :=
          eq_join_of_stripDir ((stripDir_eq_some_iff hslash).2 (by rw [hp, hx]))
        rw [hpath, heq]
    · rw [if_neg hn]
      by_cases hd : (splitPath path).1 ∈ a.state.dirs
      · rw [if_pos hd]
        exact hun.gets.symm
      · rw [if_neg hd, gets_plain ha.unsharded, if_neg hd, stripDir_of_slash_free hslash hn]
        rfl

/-- A new directory named by several segments is on no path's way: what lay below it is lost. -/
theorem Extracted.sameFiles_iff_of_slash (h : Extracted a dir child a') (ha : a.Plain)
    (hslash : '/' ∈ dir.toList) (hfirst : (splitPath dir).1 ∉ a.state.dirs)
    (hun : Undisturbed env regs w w' a) :
    SameFiles env regs w a w' a' ↔ ∀ k, live a.state.files[k]? ≠ none → stripDir dir k = none := by
  have hne : ∀ path, (splitPath path).1 ≠ dir := by
    intro path hn
    exact splitPath_fst_slash_free path (hn ▸ hslash)
  constructor
  · intro hs k hk
    cases hstrip : stripDir dir k with
    | none => rfl
    | some rest =>
      exfalso
      -- a path below the new directory has its first segment
      have hkfst : (splitPath k).1 ∉ a.state.dirs := by
        have heq : (splitPath k).1 = (splitPath dir).1 := by
          obtain ⟨x, y, hxy⟩ : ∃ x y, splitOnce dir = some (x, y) := by
            cases hdir : splitOnce dir with
            | none => exact absurd hslash (splitOnce_eq_none.1 hdir)
            | some xy => exact ⟨xy.1, xy.2, rfl⟩
          have hkxy : splitOnce k = some (x, y ++ "/" ++ rest) := by
            rw [splitOnce_eq_some] at hxy ⊢
            rw [stripDir_eq_some] at hstrip
            exact ⟨by rw [hstrip, hxy.1]; simp, hxy.2⟩
          rw [splitPath, hkxy, splitPath, hxy]
          rfl
        rw [heq]
        exact hfirst
      have hk' := (hs k none).2 (by
        rw [h.gets ha, if_neg (hne k), if_neg hkfst, hstrip]
        rfl)
      rw [gets_plain ha.unsharded, if_neg hkfst] at hk'
      exact hk hk'.symm
  · intro hs path r
    rw [h.gets ha, if_neg (hne path)]
    by_cases hd : (splitPath path).1 ∈ a.state.dirs
    · rw [if_pos hd]
      exact hun.gets.symm
    · rw [if_neg hd, gets_plain ha.unsharded, if_neg hd]
      by_cases hk : live a.state.files[path]? = none
      · split
        · rw [hk]
          rfl
        · rfl
      · rw [hs path hk]
        rfl

end

/-! ## `create_dir_at` -/

/-- No registry pointer is drawn from now on that is the key of an open directory. -/
def FreshPointers (env : Env β) (regs : RegistryDirHandles) (w : World β) : Prop :=
  ∀ n, w.tick ≤ n → regs.lookup (env.random n) = none

/-- The actor of a new directory is opened on the state it is given. -/
theorem openNewDir_built (hfresh : FreshPointers env regs w) (dir : String) (d : DirV1) {w1 : World β}
    {dirRef : DirRef} {enableEncryption : Bool}
    (hb : buildChildDirRef env a.context enableEncryption w = (w1, dirRef))
    (hh : a.dirHandles.lookup dir = none) (hd : a.state.dirs[dir]? = some dirRef) :
    openNewDir regs a dir d = .ok { a with dirHandles := (dir, ofNew (a.context.withNewRef dirRef
      (dirLink a.context () dir dirRef)) d) :: a.dirHandles } := by
  have href : dirRef.refTypeD = .registryKey → regs.lookup dirRef.hash = none := by
    intro ht
    unfold buildChildDirRef at hb
    obtain ⟨-, rfl⟩ := Prod.mk.inj hb
    cases hs : a.context.signingKey with
    | none => simp [DirRef.refTypeD, hs] at ht
    | some key => simpa [hs] using hfresh w.next.tick (Nat.le_succ _)
  unfold openNewDir
  rw [hh]
  dsimp only
  rw [hd]
  dsimp only
  cases ht : dirRef.refTypeD with
  | blake3Hash => rfl
  | registryKey =>
    rw [href ht]

/-- What `create_dir_at` does where the directory does not exist. -/
theorem createDirAt_new (hfresh : FreshPointers env regs w) (ha : a.Plain) {path : String}
    (hnew : path ∉ a.state.dirs) (enableEncryption : Bool) :
    ∃ n ctx a', w.tick ≤ n ∧ createDirAt env regs enableEncryption w a path =
        ({ w with tick := n }, a', .ok ()) ∧
      Extracted a path (ofNew ctx (extractChildDirState a.state path).2) a' := by
  have hnone : a.dirHandles.lookup path = none := by
    cases hl : a.dirHandles.lookup path with
    | none => rfl
    | some child => exact absurd (ha.named path child hl) hnew
  have hw : (buildChildDirRef env a.context enableEncryption w).1 = { w with tick := w.tick + 1 + 1 } :=
    rfl
  unfold createDirAt
  rw [if_neg hnew]
  dsimp only
  generalize hb : buildChildDirRef env a.context enableEncryption w = built at hw
  obtain ⟨w1, dirRef⟩ := built
  dsimp only at hw ⊢
  have ho := openNewDir_built (a := { a with state := { (extractChildDirState a.state path).1 with
      dirs := (extractChildDirState a.state path).1.dirs.insert path dirRef } }) hfresh path
    (extractChildDirState a.state path).2 hb hnone ExtTreeMap.getElem?_insert_self
  rw [ho, hw]
  refine ⟨_, _, _, Nat.le_add_right w.tick 2, rfl, ⟨rfl, rfl, ⟨dirRef, rfl⟩, rfl, List.lookup_cons_self, fun name hn => ?_, rfl⟩⟩
  have hb : (name == path) = false := beq_eq_false_iff_ne.2 hn
  simp only [markAsDirty, List.lookup_cons, hb]

/-- The actor of a new directory finds what has moved to it. -/
theorem gets_ofNew (ctx : DirContext Unit) (d : DirV1) (dir path : String) {r : Option FileRef} :
    Gets env w regs (ofNew ctx (extractChildDirState d dir).2) path r ↔
      r = live d.files[dir ++ "/" ++ path]? := by
  have hu := (Plain.ofNew ctx (d := (extractChildDirState d dir).2) rfl).unsharded
  have hdirs : (ofNew ctx (extractChildDirState d dir).2).state.dirs = ∅ := rfl
  rw [gets_plain hu, hdirs, if_neg ExtTreeMap.not_mem_empty]
  rw [← extractChildDirState_snd_files d dir path]
  rfl

/-- `create_dir_at` keeps every lookup: the directory is there, or no other file stands for the one of
its own name, or nothing lies below it. -/
def CreateKeeps (b : Actor) (q : String) : Prop :=
  q ∈ b.state.dirs ∨
    ('/' ∉ q.toList ∧ live b.state.files[q]? = live b.state.files[q ++ "/"]?) ∨
    ('/' ∈ q.toList ∧ ∀ k, live b.state.files[k]? ≠ none → stripDir q k = none)

theorem sameFiles_createDirAt (hfresh : FreshPointers env regs w) {enableEncryption : Bool}
    {b b' : Actor} {q : String} (hb : b.Plain) (hq : (splitPath q).1 ∉ b.state.dirs)
    (hrun : createDirAt env regs enableEncryption w b q = (w', b', .ok ()))
    (hun : Undisturbed env regs w w' b) : SameFiles env regs w b w' b' ↔ CreateKeeps b q := by
  by_cases hmem : q ∈ b.state.dirs
  · unfold createDirAt at hrun
    rw [if_pos hmem] at hrun
    obtain ⟨rfl, rfl, -⟩ := by simpa using hrun
    exact ⟨fun _ => .inl hmem, fun _ _ _ => Iff.rfl⟩
  · obtain ⟨n, ctx, b1, -, hat, hext⟩ := createDirAt_new (w := w) hfresh hb hmem enableEncryption
    rw [hat] at hrun
    obtain ⟨rfl, rfl, -⟩ := by simpa using hrun
    unfold CreateKeeps
    by_cases hslash : '/' ∈ q.toList
    · rw [hext.sameFiles_iff_of_slash hb hslash hq hun]
      constructor
      · exact fun h => .inr (.inr ⟨hslash, h⟩)
      · rintro (h | h | h)
        · exact absurd h hmem
        · exact absurd hslash h.1
        · exact h.2
    · rw [hext.sameFiles_iff hb hslash hmem hun]
      constructor
      · exact fun h => .inr (.inl ⟨hslash, h.2⟩)
      · rintro (h | h | h)
        · exact absurd h hmem
        · exact ⟨fun y r => gets_ofNew ctx b.state q y, h.2⟩
        · exact absurd h.1 hslash

/-! ## `OpenSubdir` -/

/-- `d` is the path itself or a directory above it. -/
def DirOf (d path : String) : Prop := d = path ∨ ∃ x, path = d ++ "/" ++ x

theorem dirOf_slash_free {d path : String} (h : splitOnce path = none) :
    DirOf d path ↔ d = path := by
  constructor
  · rintro (rfl | ⟨x, rfl⟩)
    · rfl
    · exact absurd (by simp) (splitOnce_eq_none.1 h)
  · exact .inl

theorem join_assoc (a b c : String) : a ++ "/" ++ b ++ "/" ++ c = a ++ "/" ++ (b ++ "/" ++ c) := by
  simp only [String.append_assoc]

theorem join_slash (a b : String) : a ++ "/" ++ b ++ "/" = a ++ "/" ++ (b ++ "/") := by
  simp only [String.append_assoc]

/-- The directories above a path are its first segment and those below that. -/
theorem dirOf_split {d path n rest : String} (h : splitOnce path = some (n, rest)) :
    DirOf d path ↔ d = n ∨ ∃ d', d = n ++ "/" ++ d' ∧ DirOf d' rest := by
  have hslash := (splitOnce_eq_some.1 h).2
  have hpath : path = n ++ "/" ++ rest := eq_join_of_stripDir ((stripDir_eq_some_iff hslash).2 h)
  constructor
  · rintro (rfl | ⟨x, hx⟩)
    · exact .inr ⟨rest, hpath, .inl rfl⟩
    · cases hd : splitOnce d with
      | none =>
        have hsd : splitPath (d ++ "/" ++ x) = (d, x) := splitPath_append (splitOnce_eq_none.1 hd)
        rw [← hx, hpath, splitPath_append hslash] at hsd
        exact .inl (Prod.mk.inj hsd).1.symm
      | some mr =>
        obtain ⟨m, r⟩ := mr
        have hm := (splitOnce_eq_some.1 hd).2
        have hdm : d = m ++ "/" ++ r := eq_join_of_stripDir ((stripDir_eq_some_iff hm).2 hd)
        rw [hpath, hdm, join_assoc] at hx
        obtain ⟨rfl, hr⟩ := join_eq_join hslash hm hx
        exact .inr ⟨r, hdm, .inr ⟨x, hr⟩⟩
  · rintro (rfl | ⟨d', rfl, rfl | ⟨x, rfl⟩⟩)
    · exact .inr ⟨rest, hpath⟩
    · exact .inl hpath.symm
    · exact .inr ⟨x, by rw [hpath, join_assoc]⟩

/-- Every directory on the path finds the same file under its name with and without a slash. -/
def SubdirKeeps (env : Env β) (w : World β) (regs : RegistryDirHandles) (a : Actor) (path : String) :
    Prop :=
  ∀ d, DirOf d path → ∀ r, Gets env w regs a d r ↔ Gets env w regs a (d ++ "/") r

theorem hear_self (a child : Actor) : a.hear child child = a := by
  cases h : child.dirty <;> simp [hear, h]

theorem Extracted.keepDir {dir : String} {child a' : Actor} (h : Extracted a dir child a')
    (child' c c' : Actor) : Extracted a dir child' ((a'.keepDir dir child').hear c c') := by
  obtain ⟨hctx, hst, hdh, hsh⟩ := hear_state (a'.keepDir dir child') c c'
  refine ⟨hctx.trans h.context, by rw [hst]; exact h.header, by rw [hst]; exact h.dirs,
    by rw [hst]; exact h.files, ?_, fun name hn => ?_, hsh.trans h.dirShardHandles⟩
  · rw [hdh, Actor.keepDir, List.lookup_cons_self]
  · have hb : (name == dir) = false := beq_eq_false_iff_ne.2 hn
    rw [hdh, Actor.keepDir, List.lookup_cons, hb, ← h.others name hn]
    exact lookup_filter_ne hn _

/-- A new directory has no child directories. -/
theorem way_ofNew {ctx : DirContext Unit} {d : DirV1} {dir path q : String}
    (h : Way env w regs (ofNew ctx (extractChildDirState d dir).2) path b q) :
    b = ofNew ctx (extractChildDirState d dir).2 ∧ q = path := by
  cases h with
  | start => exact ⟨rfl, rfl⟩
  | hop hd => exact absurd hd ExtTreeMap.not_mem_empty

theorem undisturbed_ofNew (ctx : DirContext Unit) (d : DirV1) (dir : String) :
    Undisturbed env regs w w' (ofNew ctx (extractChildDirState d dir).2) := by
  have hopens : ∀ {c ctx'}, Opens env w regs c ctx' →
      c ≠ ofNew ctx (extractChildDirState d dir).2 := by
    rintro c ctx' h rfl
    cases h with
    | dir hh hd hr => exact absurd hd (by simp [ofNew, extractChildDirState, DirV1.new])
    | shard hh hl => exact absurd hl (by simp [ofNew, extractChildDirState, DirV1.new, DirHeader.new,
        shardLink])
    | inDir ho h => exact absurd ho (by simp [ofNew, extractChildDirState, DirV1.new, Actor.openDir])
    | inShard ho h => exact absurd ho (by simp [ofNew, extractChildDirState, DirV1.new, DirHeader.new,
        shardLink, Actor.openDirShard, bind, Except.bind])
  exact fun ctx' h => absurd rfl (hopens h)

theorem splitPath_of_some {path n rest : String} (h : splitOnce path = some (n, rest)) :
    splitPath path = (n, rest) := by
  rw [splitPath, h]
  rfl

/-- Below a child directory, `SubdirKeeps` is about the child. -/
theorem subdirKeeps_hop (ha : a.Plain) {path n rest : String} {child : Actor}
    (hp : splitOnce path = some (n, rest)) (hd : n ∈ a.state.dirs)
    (ho : openDir env w regs a n = .ok child) :
    SubdirKeeps env w regs a path ↔ SubdirKeeps env w regs child rest := by
  have hslash := (splitOnce_eq_some.1 hp).2
  have hat : ∀ y r, Gets env w regs a (n ++ "/" ++ y) r ↔ Gets env w regs child y r := by
    intro y r
    rw [gets_plain ha.unsharded, splitPath_append hslash, if_pos hd, ho, GetsIn]
  constructor
  · intro h d hdir r
    have hn := h (n ++ "/" ++ d) ((dirOf_split hp).2 (.inr ⟨d, rfl, hdir⟩)) r
    rwa [join_slash, hat, hat] at hn
  · intro h d hdir r
    rcases (dirOf_split hp).1 hdir with rfl | ⟨d', rfl, hd'⟩
    · -- an existing directory is entered in both ways
      have hempty := hat "" r
      rw [String.append_empty] at hempty
      rw [hempty, gets_plain ha.unsharded, splitPath_of_slash_free hslash, if_pos hd, ho, GetsIn]
    · rw [join_slash, hat, hat]
      exact h d' hd' r

/-- In a directory that is to be made, `SubdirKeeps` is about the files there. -/
theorem subdirKeeps_new (ha : a.Plain) {path n rest : String} {w1 : World β} {ctx : DirContext Unit}
    (hp : splitOnce path = some (n, rest)) (hd : n ∉ a.state.dirs) :
    SubdirKeeps env w regs a path ↔
      live a.state.files[n]? = live a.state.files[n ++ "/"]? ∧
        SubdirKeeps env w1 regs (ofNew ctx (extractChildDirState a.state n).2) rest := by
  have hslash := (splitOnce_eq_some.1 hp).2
  have hat : ∀ y r, Gets env w regs a (n ++ "/" ++ y) r ↔ r = live a.state.files[n ++ "/" ++ y]? := by
    intro y r
    rw [gets_plain ha.unsharded, splitPath_append hslash, if_neg hd]
  have hself : ∀ r, Gets env w regs a n r ↔ r = live a.state.files[n]? := by
    intro r
    rw [gets_plain ha.unsharded, splitPath_of_slash_free hslash, if_neg hd]
  have hempty : ∀ r, Gets env w regs a (n ++ "/") r ↔ r = live a.state.files[n ++ "/"]? := by
    intro r
    have h := hat "" r
    rwa [String.append_empty] at h
  constructor
  · refine fun h => ⟨?_, fun d hdir r => ?_⟩
    · have hn := h n ((dirOf_split hp).2 (.inl rfl)) (live a.state.files[n]?)
      rw [hself, hempty] at hn
      exact hn.1 rfl
    · have hn := h (n ++ "/" ++ d) ((dirOf_split hp).2 (.inr ⟨d, rfl, hdir⟩)) r
      rw [join_slash, hat, hat] at hn
      rwa [gets_ofNew, gets_ofNew]
  · rintro ⟨hfile, h⟩ d hdir r
    rcases (dirOf_split hp).1 hdir with rfl | ⟨d', rfl, hd'⟩
    · rw [hself, hempty, hfile]
    · have hn := h d' hd' r
      rw [gets_ofNew, gets_ofNew] at hn
      rwa [join_slash, hat, hat]

/-- Where the last segment is an existing directory nothing changes. -/
theorem subdirKeeps_last (ha : a.Plain) {path : String} {child : Actor}
    (hp : splitOnce path = none) (hd : path ∈ a.state.dirs)
    (ho : openDir env w regs a path = .ok child) : SubdirKeeps env w regs a path := by
  have hslash := splitOnce_eq_none.1 hp
  intro d hdir r
  obtain rfl := (dirOf_slash_free hp).1 hdir
  have hbelow : splitPath (d ++ "/" ++ "") = (d, "") := splitPath_append hslash
  rw [String.append_empty] at hbelow
  rw [gets_plain ha.unsharded, splitPath_of_slash_free hslash, if_pos hd, ho,
    gets_plain ha.unsharded, hbelow, if_pos hd, ho]

/-- Where the last segment is to be made, `SubdirKeeps` is about its two files. -/
theorem subdirKeeps_newLast (ha : a.Plain) {path : String} (hp : splitOnce path = none)
    (hd : path ∉ a.state.dirs) :
    SubdirKeeps env w regs a path ↔ live a.state.files[path]? = live a.state.files[path ++ "/"]? := by
  have hslash := splitOnce_eq_none.1 hp
  have hbelow : splitPath (path ++ "/" ++ "") = (path, "") := splitPath_append hslash
  rw [String.append_empty] at hbelow
  have hself : ∀ r, Gets env w regs a path r ↔ r = live a.state.files[path]? := by
    intro r
    rw [gets_plain ha.unsharded, splitPath_of_slash_free hslash, if_neg hd]
  have hempty : ∀ r, Gets env w regs a (path ++ "/") r ↔ r = live a.state.files[path ++ "/"]? := by
    intro r
    rw [gets_plain ha.unsharded, hbelow, if_neg hd]
  constructor
  · intro h
    have hn := h path (.inl rfl) (live a.state.files[path]?)
    rw [hself, hempty] at hn
    exact hn.1 rfl
  · intro h d hdir r
    obtain rfl := (dirOf_slash_free hp).1 hdir
    rw [hself, hempty, h]

/-- `OpenSubdir` keeps lookups exactly if the directories on its path find one file under either of
their names. -/
theorem sameFiles_openSubdir (fuel : Nat) {w w' : World β} {a a' : Actor} {path : String}
    (hfresh : FreshPointers env regs w) (hplain : PlainWay env w regs a path)
    (hend : ∀ x, path ≠ x ++ "/")
    (hrun : openSubdir env regs fuel w a path = some (w', a', .ok ()))
    (hun : Undisturbed env regs w w' a) :
    SameFiles env regs w a w' a' ↔ SubdirKeeps env w regs a path := by
  induction fuel generalizing w a a' path with
  | zero => cases hrun
  | succ fuel ih =>
    have ha := hplain.here
    have hfst := splitPath_fst_slash_free path
    unfold openSubdir at hrun
    rw [route_plain ha.unsharded] at hrun
    cases hp : splitOnce path with
    | none =>
      have hsplit := splitPath_of_slash_free (splitOnce_eq_none.1 hp)
      rw [hsplit] at hrun
      by_cases hd : path ∈ a.state.dirs
      · simp only [if_pos hd] at hrun
        cases ho : openDir env w regs a path with
        | error e =>
          rw [ho] at hrun
          simp at hrun
        | ok child =>
          rw [ho] at hrun
          simp only [if_true, Option.some.injEq, Prod.mk.injEq] at hrun
          obtain ⟨rfl, rfl, -⟩ := hrun
          have hkept : SameFiles env regs w a w (a.keepDir path child) := by
            have h := (sameFiles_keepDir (c := child) ha.unsharded (splitOnce_eq_none.1 hp) hd ho
              hun).2 fun _ _ => Iff.rfl
            rwa [hear_self] at h
          exact iff_of_true hkept (subdirKeeps_last ha hp hd ho)
      · simp only [if_neg hd, if_true] at hrun
        obtain ⟨n, ctx, a1, -, hat, hext⟩ :=
          createDirAt_new (w := w) hfresh ha hd a.context.encryptionType.isSome
        rw [hat] at hrun
        simp only [hext.openDir, if_true, Option.some.injEq, Prod.mk.injEq] at hrun
        obtain ⟨rfl, rfl, -⟩ := hrun
        have hkept := hext.keepDir (ofNew ctx (extractChildDirState a.state path).2) a a
        rw [hear_self] at hkept
        rw [hkept.sameFiles_iff ha (splitOnce_eq_none.1 hp) hd hun, subdirKeeps_newLast ha hp hd]
        exact and_iff_right fun y r => gets_ofNew ctx a.state path y
    | some nr =>
      obtain ⟨n, rest⟩ := nr
      have hsplit := splitPath_of_some hp
      have hslash := (splitOnce_eq_some.1 hp).2
      have hpath : path = n ++ "/" ++ rest := eq_join_of_stripDir ((stripDir_eq_some_iff hslash).2 hp)
      have hrest : rest ≠ "" := by
        rintro rfl
        exact hend n (by rw [hpath, String.append_empty])
      have hend' : ∀ x, rest ≠ x ++ "/" := by
        rintro x rfl
        exact hend (n ++ "/" ++ x) (by rw [hpath, join_slash])
      rw [hsplit] at hrun
      by_cases hd : n ∈ a.state.dirs
      · simp only [if_pos hd, if_neg hrest] at hrun
        cases ho : openDir env w regs a n with
        | error e =>
          rw [ho] at hrun
          simp at hrun
        | ok child =>
          rw [ho] at hrun
          simp only [Option.map_eq_some_iff, Prod.mk.injEq, Prod.exists] at hrun
          obtain ⟨w1, child', r, hchild, rfl, rfl, rfl⟩ := hrun
          have hway : PlainWay env w regs child rest := by
            have hd' : (splitPath path).1 ∈ a.state.dirs := by rw [hsplit]; exact hd
            have ho' : openDir env w regs a (splitPath path).1 = .ok child := by rw [hsplit]; exact ho
            have h := hplain.hop hd' ho'
            rwa [hsplit] at h
          rw [sameFiles_keepDir ha.unsharded hslash hd ho hun, subdirKeeps_hop ha hp hd ho]
          exact ih hfresh hway hend' hchild (hun.inDir ho)
      · simp only [if_neg hd, if_neg hrest] at hrun
        obtain ⟨m, ctx, a1, hle, hat, hext⟩ :=
          createDirAt_new (w := w) hfresh ha hd a.context.encryptionType.isSome
        rw [hat] at hrun
        simp only [hext.openDir, if_true, Option.map_eq_some_iff, Prod.mk.injEq, Prod.exists] at hrun
        obtain ⟨w2, child', r, hchild, rfl, rfl, rfl⟩ := hrun
        have hnew := hext.keepDir child' (ofNew ctx (extractChildDirState a.state n).2) child'
        have hway : PlainWay env { w with tick := m } regs
            (ofNew ctx (extractChildDirState a.state n).2) rest := by
          intro b q hw
          obtain ⟨rfl, -⟩ := way_ofNew hw
          exact Plain.ofNew ctx rfl
        rw [hnew.sameFiles_iff ha hslash hd hun, and_comm, subdirKeeps_new ha hp hd,
          ← ih (fun k hk => hfresh k (Nat.le_trans hle hk)) hway hend' hchild
            (undisturbed_ofNew ctx a.state n)]
        -- what the child finds now is what it was made of
        refine and_congr_right fun _ => ⟨fun h y r => ?_, fun h y r => ?_⟩
        · rw [h y r, gets_ofNew]
        · rw [← h y r, gets_ofNew]

/-! ## Promotion -/

/-- No file has the name of a group that becomes a directory, unless it is the one of the empty name
in the group; and so on in the group. -/
inductive GroupsKeep : DirV1 → Prop where
  | mk {d : DirV1} (file : ∀ name : String, d.isLarge name = true →
      live d.files[name]? = live d.files[name ++ "/"]?)
      (below : ∀ name : String, d.isLarge name = true → GroupsKeep (extractChildDirState d name).2) :
      GroupsKeep d

theorem openRef_some {dirRef : DirRef} {d : DirV1} (h : openRef env w dirRef = some d) :
    ∃ bytes plain, w.store[dirRef.hash]? = some bytes ∧
      (match dirRef.encryptionType with
        | none => some bytes
        | some _ => (dirRef.keys.bind (·[keySlot]?)).bind fun key => env.decrypt key bytes) = some plain ∧
      env.fromBytes plain = some d := by
  obtain ⟨bytes, hbytes, hrest⟩ := Option.bind_eq_some_iff.1 h
  refine ⟨bytes, ?_⟩
  cases ht : dirRef.encryptionType with
  | none =>
    rw [ht] at hrest
    exact ⟨bytes, hbytes, rfl, hrest⟩
  | some t =>
    rw [ht] at hrest
    obtain ⟨plain, hplain, hdec⟩ := Option.bind_eq_some_iff.1 hrest
    exact ⟨plain, hbytes, hplain, hdec⟩

/-- A stored child is opened, from a context that is encrypted only if the one it was stored from is. -/
theorem openDir_stored (regs : RegistryDirHandles) {ctx : DirContext Unit} {name : String}
    {dirRef : DirRef} {d : DirV1} (hh : a.dirHandles = []) (hd : a.state.dirs[name]? = some dirRef)
    (hs : Stored env ctx w dirRef d)
    (henc : ctx.encryptionType = none → a.context.encryptionType = none) :
    ∃ child, openDir env w regs a name = .ok child ∧ child.state = d ∧ child.dirHandles = [] ∧
      child.dirShardHandles = [] ∧
      (ctx.encryptionType = none → child.context.encryptionType = none) := by
  obtain ⟨⟨now, href⟩, -, hopen⟩ := hs
  have htype : dirRef.refTypeD = .blake3Hash := by rw [href]; rfl
  have hlink : dirLink a.context () name dirRef = .dirHandle (.path name) () dirRef.hash 0 := by
    rw [dirLink, htype]
  have henc' : dirRef.encryptionType =
      if ctx.encryptionType.isSome then some encryptionTypeXChaCha20Poly1305 else none := by
    rw [href]
    rfl
  obtain ⟨bytes, plain, hbytes, hplain, hdec⟩ := openRef_some hopen
  have hdecrypt : decryptIfNeeded env (a.context.withNewRef dirRef
      (.dirHandle (.path name) () dirRef.hash 0)) bytes = .ok plain := by
    cases ht : ctx.encryptionType with
    | none =>
      rw [ht, Option.isSome_none, if_neg Bool.false_ne_true] at henc'
      rw [henc'] at hplain
      simp only [decryptIfNeeded, DirContext.withNewRef, henc', henc ht, Option.none_or]
      rw [Option.some.inj hplain]
    | some t =>
      rw [ht, Option.isSome_some, if_pos rfl] at henc'
      rw [henc'] at hplain
      obtain ⟨key, hkey, hplain⟩ := Option.bind_eq_some_iff.1 hplain
      obtain ⟨keys, hkeys, hslot⟩ := Option.bind_eq_some_iff.1 hkey
      refine decryptIfNeeded_of_key ?_ (withNewRef_key a.context _ hkeys hslot) hplain
      simp only [DirContext.withNewRef, henc', Option.some_or]
  have hload : load env (a.context.withNewRef dirRef (.dirHandle (.path name) () dirRef.hash 0)) w =
      .ok (d, env.len plain) := by
    have hread : w.readAsBytes dirRef.hash = .ok bytes := by simp only [World.readAsBytes, hbytes]
    have hdecode : decodeDir env plain = .ok (d, env.len plain) := by
      simp only [decodeDir, hdec]
    have hlinked : (a.context.withNewRef dirRef (.dirHandle (.path name) () dirRef.hash 0)).link =
        .dirHandle (.path name) () dirRef.hash 0 := rfl
    simp only [load, hlinked, hread, bind, Except.bind, hdecrypt, hdecode]
  refine ⟨⟨a.context.withNewRef dirRef (.dirHandle (.path name) () dirRef.hash 0), d, false, [], [],
    env.len plain, 0⟩, ?_, rfl, rfl, rfl, ?_⟩
  · unfold openDir
    simp only [hh, List.lookup_nil, hd, htype, hlink]
    exact spawn_ok hload
  · intro ht
    have hnone : dirRef.encryptionType = none := by
      rw [henc', ht]
      rfl
    simp only [DirContext.withNewRef, hnone, henc ht, Option.none_or]

/-- What promotion has made of a directory resolves every path to its file exactly if no group hides
one. -/
theorem gets_promoted (regs : RegistryDirHandles) {ctx : DirContext Unit} {d d' : DirV1}
    (hp : Promoted env ctx w d d') (hd : d.header = .new) (hs : a.state = d')
    (hh : a.dirHandles = []) (hsh : a.dirShardHandles = [])
    (henc : ctx.encryptionType = none → a.context.encryptionType = none) :
    (∀ path r, Gets env w regs a path r ↔ r = live d.files[path]?) ↔ GroupsKeep d := by
  induction hp generalizing a with
  | @mk d d' child magic header files names stored below ih =>
    have hu : a.Unsharded := ⟨by rw [hs, header, hd]; rfl, by rw [hs, header, hd]; rfl, hsh⟩
    have hlarge : ∀ name, d.isLarge name = true → '/' ∉ name.toList ∧
        ∃ c, (∀ path r, (splitPath path).1 = name →
          (Gets env w regs a path r ↔ Gets env w regs c (splitPath path).2 r)) ∧
        ((∀ path r, Gets env w regs c path r ↔ r = live d.files[name ++ "/" ++ path]?) ↔
          GroupsKeep (extractChildDirState d name).2) := by
      intro name hl
      have hmem := (names name).2 hl
      obtain ⟨dirRef, href⟩ : ∃ dirRef, d'.dirs[name]? = some dirRef :=
        Option.isSome_iff_exists.1 (ExtTreeMap.mem_iff_isSome_getElem?.1 hmem)
      obtain ⟨c, ho, hcs, hch, hcsh, hcenc⟩ := openDir_stored regs hh
        (by rw [hs]; exact href) (stored name dirRef href) henc
      refine ⟨(isLarge_iff.1 hl).1, c, fun path r hpath => ?_, ?_⟩
      · rw [gets_plain hu, hpath, hs, if_pos hmem, ho, GetsIn]
      · have hi := ih name hmem rfl hcs hch hcsh hcenc
        simp only [extractChildDirState_snd_files] at hi
        exact hi
    have hsmall : ∀ path r, d.isLarge (splitPath path).1 = false →
        (Gets env w regs a path r ↔ r = live d.files[path]?) := by
      intro path r hl
      have hnot : (splitPath path).1 ∉ d'.dirs := by
        rw [names, hl]
        exact Bool.false_ne_true
      have hgroup : d.isGrouped path = false := by
        unfold DirV1.isGrouped
        cases hp : splitOnce path with
        | none => rfl
        | some nr =>
          rw [splitPath_of_some hp] at hl
          exact hl
      rw [gets_plain hu, hs, if_neg hnot, files, ExtTreeMap.getElem?_filter', hgroup]
      cases d.files[path]? <;> simp [Option.filter]
    constructor
    · intro h
      refine .mk (fun name hl => ?_) fun name hl => ?_
      · obtain ⟨hslash, c, hat, -⟩ := hlarge name hl
        have hself := splitPath_of_slash_free hslash
        have hbelow : splitPath (name ++ "/" ++ "") = (name, "") := splitPath_append hslash
        rw [String.append_empty] at hbelow
        have h1 := (h name (live d.files[name]?)).2 rfl
        rw [hat name _ (by rw [hself]), hself] at h1
        have h2 := (h (name ++ "/") (live d.files[name]?)).1 (by rw [hat _ _ (by rw [hbelow]), hbelow]; exact h1)
        exact h2
      · obtain ⟨hslash, c, hat, hc⟩ := hlarge name hl
        refine hc.1 fun path r => ?_
        have hbelow : splitPath (name ++ "/" ++ path) = (name, path) := splitPath_append hslash
        have hpath := h (name ++ "/" ++ path) r
        rwa [hat _ _ (by rw [hbelow]), hbelow] at hpath
    · rintro ⟨file, keep⟩ path r
      cases hl : d.isLarge (splitPath path).1 with
      | false => exact hsmall path r hl
      | true =>
        obtain ⟨hslash, c, hat, hc⟩ := hlarge _ hl
        rw [hat path r rfl, hc.2 (keep _ hl)]
        cases hp : splitOnce path with
        | none =>
          have hfile := file _ hl
          rw [splitPath_of_slash_free (splitOnce_eq_none.1 hp)] at hfile ⊢
          rw [String.append_empty, hfile]
        | some nr =>
          have hn := (splitOnce_eq_some.1 hp).2
          rw [splitPath_of_some hp, ← eq_join_of_stripDir ((stripDir_eq_some_iff hn).2 hp)]

/-- The promotion that a file operation on `q` sets off keeps every lookup. -/
def PromoteKeeps (b : Actor) (q : String) : Prop :=
  ∀ dir rest, splitOnce q = some (dir, rest) → promotionThreshold < countBelow b.state dir →
    live b.state.files[dir]? = live b.state.files[dir ++ "/"]? ∧
      GroupsKeep (extractChildDirState b.state dir).2

variable [DecidableEq β]

/-- What `promote_prefix` does if it does not fail. -/
theorem promotePrefix_new (law : env.Lawful) {order : GroupOrder}
    (horder : ∀ t d groups, (order t d groups).Perm groups) (hfresh : FreshPointers env regs w)
    (ha : a.Plain) {dir : String} {a' : Actor} (hnew : dir ∉ a.state.dirs)
    (hrun : promotePrefix env order regs w a dir = (w', a', .ok ())) (hc : w'.collided = false) :
    ∃ ctx optimized, Extracted a dir (ofNew ctx optimized) a' ∧
      Promoted env a.context w' (extractChildDirState a.state dir).2 optimized ∧
      (a.context.encryptionType = none → ctx.encryptionType = none) := by
  have hnone : a.dirHandles.lookup dir = none := by
    cases hl : a.dirHandles.lookup dir with
    | none => rfl
    | some child => exact absurd (ha.named dir child hl) hnew
  unfold promotePrefix at hrun
  rw [if_neg hnew] at hrun
  dsimp only at hrun
  have henc : a.context.encryptionType = none →
      (buildChildDirRef env a.context a.context.encryptionType.isSome w).2.encryptionType = none := by
    intro h
    rw [h]
    rfl
  generalize hb : buildChildDirRef env a.context a.context.encryptionType.isSome w = built
    at hrun henc
  obtain ⟨w1, dirRef⟩ := built
  dsimp only at hrun henc
  generalize hopt : optimizeDirStructureIn env order a.context (extractChildDirState a.state dir).2 w1 =
    res at hrun
  obtain ⟨w2, e | optimized⟩ := res
  · simp at hrun
  · have ho := openNewDir_built (a := { a with state := { (extractChildDirState a.state dir).1 with
        dirs := (extractChildDirState a.state dir).1.dirs.insert dir dirRef } }) hfresh dir
      optimized hb hnone ExtTreeMap.getElem?_insert_self
    dsimp only at ho hrun
    rw [ho] at hrun
    obtain ⟨rfl, rfl, -⟩ := by simpa using hrun
    refine ⟨_, optimized,
      ⟨rfl, rfl, ⟨dirRef, rfl⟩, rfl, List.lookup_cons_self, fun name hn => ?_, rfl⟩,
      promoted_optimizeDirStructureIn law horder rfl hopt hc, fun h => ?_⟩
    · have hb : (name == dir) = false := beq_eq_false_iff_ne.2 hn
      simp only [List.lookup_cons, hb]
    · simp only [DirContext.withNewRef, henc h, h, Option.none_or]

theorem sameFiles_checkAutoPromote (law : env.Lawful) {order : GroupOrder}
    (horder : ∀ t d groups, (order t d groups).Perm groups) (hfresh : FreshPointers env regs w)
    {b b' : Actor} {q : String} (hb : b.Plain) (hq : (splitPath q).1 ∉ b.state.dirs)
    (hrun : checkAutoPromote env order regs w b q = (w', b', .ok ())) (hc : w'.collided = false)
    (hun : Undisturbed env regs w w' b) : SameFiles env regs w b w' b' ↔ PromoteKeeps b q := by
  unfold checkAutoPromote at hrun
  unfold PromoteKeeps
  cases hp : splitOnce q with
  | none =>
    rw [hp] at hrun
    obtain ⟨rfl, rfl, -⟩ := by simpa using hrun
    exact iff_of_true (fun _ _ => Iff.rfl) nofun
  | some nr =>
    obtain ⟨dir, rest⟩ := nr
    rw [hp] at hrun
    rw [splitPath_of_some hp] at hq
    have hslash := (splitOnce_eq_some.1 hp).2
    by_cases hlarge : promotionThreshold < countBelow b.state dir
    · dsimp only at hrun
      rw [if_pos hlarge] at hrun
      obtain ⟨ctx, optimized, hext, hprom, henc⟩ :=
        promotePrefix_new law horder hfresh hb hq hrun hc
      have hchild := gets_promoted regs (a := ofNew ctx optimized) hprom rfl rfl rfl rfl henc
      simp only [extractChildDirState_snd_files] at hchild
      rw [hext.sameFiles_iff hb hslash hq hun, hchild]
      constructor
      · rintro ⟨hgroups, hfile⟩ dir' rest' hsome -
        obtain ⟨rfl, rfl⟩ := Prod.mk.inj (Option.some.inj hsome)
        exact ⟨hfile, hgroups⟩
      · intro h
        obtain ⟨hfile, hgroups⟩ := h dir rest rfl hlarge
        exact ⟨hgroups, hfile⟩
    · dsimp only at hrun
      rw [if_neg hlarge] at hrun
      obtain ⟨rfl, rfl, -⟩ := by simpa using hrun
      refine iff_of_true (fun _ _ => Iff.rfl) fun dir' rest' hsome hlt => ?_
      obtain ⟨rfl, rfl⟩ := Prod.mk.inj (Option.some.inj hsome)
      exact absurd hlt hlarge

/-! ## No file is hidden -/

theorem trimSlashes_end (path x : String) : System.trimSlashes path ≠ x ++ "/" := by
  intro h
  have hl := congrArg String.toList h
  simp only [System.trimSlashes, String.toList_ofList, String.toList_append] at hl
  have hr := congrArg List.reverse hl
  rw [List.reverse_reverse] at hr
  -- nothing is left that starts with a slash
  have hhead := List.head?_dropWhile_not (· = '/') (path.toList.dropWhile (· = '/')).reverse
  rw [hr] at hhead
  simp at hhead

/-- The condition under which a call that makes directories hides no file. -/
def Creation.Keeps (env : Env β) (w : World β) (regs : RegistryDirHandles) (a : Actor) :
    Creation → Prop
  | .createDir path _ => ∀ b q, Handles env w regs a path b q → CreateKeeps b q
  | .subdir path => System.trimSlashes path = "" ∨
      SubdirKeeps env w regs a (System.trimSlashes path)
  | .promote path => ∀ b q, Handles env w regs a path b q → PromoteKeeps b q

/-- **Which new directories hide no file.** After `create_dir`, `subdir` or a promotion `file_get`
answers as before on every path exactly under `Creation.Keeps`. -/
theorem creation_keeps_files_iff (law : env.Lawful) {order : GroupOrder}
    (horder : ∀ t d groups, (order t d groups).Perm groups) (hfresh : FreshPointers env regs w)
    (c : Creation) (hplain : PlainWay env w regs a c.path) {fuel : Nat} {a' : Actor}
    (hrun : create env order regs fuel w a c = some (w', a', .ok ())) (hc : w'.collided = false)
    (hun : Undisturbed env regs w w' a) :
    (∀ path r, Gets env w regs a path r ↔ Gets env w' regs a' path r) ↔
      c.Keeps env w regs a := by
  cases c with
  | createDir path enableEncryption =>
    exact sameFiles_pathOp (fun hb hq hrun _ hun => sameFiles_createDirAt hfresh hb hq hrun hun)
      fuel hplain hrun hc hun
  | subdir path =>
    dsimp only [create, subdir] at hrun
    dsimp only [Creation.Keeps]
    by_cases hempty : System.trimSlashes path = ""
    · rw [if_pos hempty] at hrun
      obtain ⟨rfl, rfl, -⟩ := by simpa using hrun
      exact iff_of_true (fun _ _ => Iff.rfl) (.inl hempty)
    · rw [if_neg hempty] at hrun
      rw [or_iff_right hempty]
      exact sameFiles_openSubdir fuel hfresh hplain (trimSlashes_end path) hrun hun
  | promote path =>
    exact sameFiles_pathOp
      (fun hb hq hrun hc hun => sameFiles_checkAutoPromote law horder hfresh hb hq hrun hc hun)
      fuel hplain hrun hc hun

end

/-! Roots without directories. -/

theorem oneFile_plain (k : String) : (oneFile k).Plain := ⟨oneFile_unsharded k, nofun⟩

theorem way_flat {β : Type} {env : Env β} {w : World β} {regs : RegistryDirHandles} {path q : String}
    {a b : Actor} (hd : a.state.dirs = ∅) (h : Way env w regs a path b q) : b = a ∧ q = path := by
  cases h with
  | start => exact ⟨rfl, rfl⟩
  | hop hmem =>
    rw [hd] at hmem
    exact absurd hmem ExtTreeMap.not_mem_empty

theorem way_oneFile {β : Type} {env : Env β} {w : World β} {regs : RegistryDirHandles} {k path q : String}
    {b : Actor} (h : Way env w regs (oneFile k) path b q) : b = oneFile k ∧ q = path :=
  way_flat rfl h

/-- A local root with the files `a/b/c`, `a/x` and `b`, and a file `a` that has been deleted. -/
def deletedName : Actor where
  context := .localRoot
  state := { DirV1.new with
    files := (((∅ : ExtTreeMap String FileRef).insert "a/b/c" (.new 1 1)).insert "a/x" (.new 2 2)).insert
      "b" (.new 3 3) |>.insert "a" (.fromDeleted (.new 4 4) 7 0) }
  dirty := true
  dirHandles := []
  dirShardHandles := []
  lastSerializedLen := 0
  shardSizeCheckOps := 0

theorem creation_keeps_files_deletedName : ∃ w a,
    create (symbolic xxh3Short) (fun _ _ groups => groups) [] 1 emptyWorld deletedName
      (.createDir "a" true) = some (w, a, .ok ()) ∧
    ∀ path r, Gets (symbolic xxh3Short) emptyWorld [] deletedName path r ↔
      Gets (symbolic xxh3Short) w [] a path r := by
  have hu : deletedName.Unsharded := ⟨rfl, rfl, rfl⟩
  have hok : (create (symbolic xxh3Short) (fun _ _ groups => groups) [] 1 emptyWorld deletedName
      (.createDir "a" true)).map (fun x => (x.2.2.isOk, x.1.collided)) = some (true, false) := by
    decide +kernel
  obtain ⟨⟨w, a, r⟩, hrun, hr⟩ := Option.map_eq_some_iff.1 hok
  cases r with
  | error e => cases hr
  | ok u =>
    refine ⟨w, a, hrun, (creation_keeps_files_iff (symbolic_lawful xxh3Short)
      (fun _ _ groups => List.Perm.refl groups) (fun _ _ => rfl) (.createDir "a" true) ?_ hrun
      (Prod.mk.inj hr).2 (undisturbed_flat hu rfl rfl)).2 ?_⟩
    · intro b q h
      obtain ⟨rfl, -⟩ := way_flat rfl h
      exact ⟨hu, nofun⟩
    · -- the tombstone of `a` is no file that the new directory could hide
      rintro b q ⟨h, -⟩
      obtain ⟨rfl, rfl⟩ := way_flat rfl h
      exact .inr (.inl ⟨by decide, by decide +kernel⟩)

/-- A directory with the name of a file hides it. -/
theorem named_file_hidden : ∃ w a,
    create (symbolic xxh3Short) (fun _ _ groups => groups) [] 1 emptyWorld (oneFile "d")
      (.createDir "d" false) = some (w, a, .ok ()) ∧
    Gets (symbolic xxh3Short) emptyWorld [] (oneFile "d") "d" (some (.new 1 1)) ∧
    Gets (symbolic xxh3Short) w [] a "d" none := by
  have hok : (create (symbolic xxh3Short) (fun _ _ groups => groups) [] 1 emptyWorld (oneFile "d")
      (.createDir "d" false)).map (fun x => (x.2.2.isOk,
        lookup (symbolic xxh3Short) x.1 [] 2 x.2.1 "d")) = some (true, some none) := by
    decide +kernel
  obtain ⟨⟨w, a, r⟩, hrun, hr⟩ := Option.map_eq_some_iff.1 hok
  cases r with
  | error e => cases hr
  | ok u =>
    exact ⟨w, a, hrun, ⟨some (.new 1 1), ⟨1, by decide +kernel⟩, by decide⟩,
      ⟨none, ⟨2, (Prod.mk.inj hr).2⟩, rfl⟩⟩

end Actor

end Fs
