import S5.Fs.Proof.Create

/-!
# Creating a directory again

* `pathOp_handled`: a request changes the directory that handles it, and no other entry of the tree.
* `create_dir_again_iff`: a second `create_dir` changes nothing exactly if the first one was handled with
  more than one segment left; else it makes a directory without a name in the new one.
-/

open Std

namespace Fs

/-- A reference without its hash and timestamps. -/
def DirRef.unstamped (r : DirRef) : DirRef := { r with hash := 0, tsSeconds := none, tsNanos := none }

/-- The same entries, apart from hashes and timestamps of directories. -/
structure SameEntries (d d' : DirV1) : Prop where
  dirs : ∀ name : String, d.dirs[name]?.map DirRef.unstamped = d'.dirs[name]?.map DirRef.unstamped
  files : d.files = d'.files

theorem SameEntries.refl (d : DirV1) : SameEntries d d := ⟨fun _ => rfl, rfl⟩

theorem SameEntries.symm {d d' : DirV1} (h : SameEntries d d') : SameEntries d' d :=
  ⟨fun name => (h.dirs name).symm, h.files.symm⟩

theorem SameEntries.trans {d d' d'' : DirV1} (h : SameEntries d d') (h' : SameEntries d' d'') :
    SameEntries d d'' :=
  ⟨fun name => (h.dirs name).trans (h'.dirs name), h.files.trans h'.files⟩

theorem SameEntries.mem_dirs {d d' : DirV1} (h : SameEntries d d') (name : String) :
    name ∈ d.dirs ↔ name ∈ d'.dirs := by
  have hn := congrArg Option.isSome (h.dirs name)
  rw [Option.isSome_map, Option.isSome_map] at hn
  rw [ExtTreeMap.mem_iff_isSome_getElem?, ExtTreeMap.mem_iff_isSome_getElem?, hn]

namespace Actor

section
variable {β : Type} {env : Env β} {w w' w'' : World β} {regs : RegistryDirHandles} {a a' a'' b c : Actor}

/-! ## Trees of directories -/

/-- The directory that a list of names leads to. -/
def dirAt (env : Env β) (w : World β) (regs : RegistryDirHandles) :
    Actor → List String → Except String Actor
  | a, [] => .ok a
  | a, name :: rest =>
    match openDir env w regs a name with
    | .error e => .error e
    | .ok child => dirAt env w regs child rest

/-- Both are directories with the same entries, or neither can be opened. -/
def SameDir : Except String Actor → Except String Actor → Prop
  | .ok b, .ok b' => SameEntries b.state b'.state
  | .error _, .error _ => True
  | _, _ => False

/-- What is exported of every directory of a tree is the same, apart from hashes and timestamps. -/
def SameTree (env : Env β) (regs : RegistryDirHandles) (w : World β) (a : Actor) (w' : World β)
    (a' : Actor) : Prop :=
  ∀ names, SameDir (dirAt env w regs a names) (dirAt env w' regs a' names)

theorem SameDir.refl (x : Except String Actor) : SameDir x x := by
  cases x with
  | error e => trivial
  | ok b => exact SameEntries.refl b.state

theorem SameDir.symm {x y : Except String Actor} (h : SameDir x y) : SameDir y x := by
  cases x <;> cases y
  · trivial
  · exact h
  · exact h
  · exact SameEntries.symm h

theorem SameDir.trans {x y z : Except String Actor} (h : SameDir x y) (h' : SameDir y z) :
    SameDir x z := by
  cases x <;> cases y <;> cases z
  all_goals first | trivial | exact h.elim | exact h'.elim | exact SameEntries.trans h h'

theorem SameTree.refl (w : World β) (a : Actor) : SameTree env regs w a w a := fun _ => .refl _

theorem SameTree.symm (h : SameTree env regs w a w' a') : SameTree env regs w' a' w a :=
  fun names => (h names).symm

theorem SameTree.trans (h : SameTree env regs w a w' a') (h' : SameTree env regs w' a' w'' a'') :
    SameTree env regs w a w'' a'' :=
  fun names => (h names).trans (h' names)

theorem SameTree.entries (h : SameTree env regs w a w' a') : SameEntries a.state a'.state := h []

theorem SameTree.child (h : SameTree env regs w a w' a') {name : String}
    (ho : openDir env w regs a name = .ok c) :
    ∃ c', openDir env w' regs a' name = .ok c' ∧ SameTree env regs w c w' c' := by
  have hname := h [name]
  unfold dirAt at hname
  rw [ho] at hname
  cases ho' : openDir env w' regs a' name with
  | error e =>
    rw [ho'] at hname
    exact hname.elim
  | ok c' =>
    refine ⟨c', rfl, fun names => ?_⟩
    have hat := h (name :: names)
    rw [dirAt, dirAt, ho, ho'] at hat
    exact hat

theorem SameTree.of_children (hs : SameEntries a.state a'.state)
    (hn : ∀ name, SameDir (openDir env w regs a name) (openDir env w' regs a' name) ∧
      ∀ c c', openDir env w regs a name = .ok c → openDir env w' regs a' name = .ok c' →
        SameTree env regs w c w' c') : SameTree env regs w a w' a' := by
  intro names
  cases names with
  | nil => exact hs
  | cons name rest =>
    obtain ⟨hdir, hbelow⟩ := hn name
    unfold dirAt
    cases ho : openDir env w regs a name with
    | error e =>
      cases ho' : openDir env w' regs a' name with
      | error e' => trivial
      | ok c' =>
        rw [ho, ho'] at hdir
        exact hdir.elim
    | ok c =>
      cases ho' : openDir env w' regs a' name with
      | error e' =>
        rw [ho, ho'] at hdir
        exact hdir.elim
      | ok c' => exact hbelow c c' ho ho' rest

/-- The names of directories somewhere in a tree. -/
def HasDir (env : Env β) (w : World β) (regs : RegistryDirHandles) (a : Actor) (names : List String)
    (name : String) : Prop :=
  ∃ b, dirAt env w regs a names = .ok b ∧ name ∈ b.state.dirs

theorem SameTree.hasDir (h : SameTree env regs w a w' a') {names : List String} {name : String}
    (hd : HasDir env w regs a names name) : HasDir env w' regs a' names name := by
  obtain ⟨b, hb, hmem⟩ := hd
  have hat := h names
  rw [hb] at hat
  cases hb' : dirAt env w' regs a' names with
  | error e =>
    rw [hb'] at hat
    exact hat.elim
  | ok b' =>
    rw [hb'] at hat
    exact ⟨b', hb', (SameEntries.mem_dirs hat name).1 hmem⟩

/-! ## Where a path is handled -/

/-- A request on a path is handled by `b`, the directory at `names`, which it is asked for `q`. -/
inductive HandledAt (env : Env β) (w : World β) (regs : RegistryDirHandles) :
    Actor → String → List String → Actor → String → Prop where
  | here {a : Actor} {path : String} (hd : (splitPath path).1 ∉ a.state.dirs) :
      HandledAt env w regs a path [] a path
  | hop {a child b : Actor} {path q : String} {names : List String}
      (hd : (splitPath path).1 ∈ a.state.dirs)
      (ho : openDir env w regs a (splitPath path).1 = .ok child)
      (h : HandledAt env w regs child (splitPath path).2 names b q) :
      HandledAt env w regs a path ((splitPath path).1 :: names) b q

theorem HandledAt.dirAt {path q : String} {names : List String}
    (h : HandledAt env w regs a path names b q) : dirAt env w regs a names = .ok b := by
  induction h with
  | here => rfl
  | hop hd ho h ih =>
    rw [Actor.dirAt, ho]
    exact ih

theorem HandledAt.not_mem {path q : String} {names : List String}
    (h : HandledAt env w regs a path names b q) : (splitPath q).1 ∉ b.state.dirs := by
  induction h with
  | here hd => exact hd
  | hop hd ho h ih => exact ih

theorem HandledAt.handles {path q : String} {names : List String}
    (h : HandledAt env w regs a path names b q) : Handles env w regs a path b q := by
  induction h with
  | here hd => exact ⟨.start _ _, hd⟩
  | hop hd ho h ih => exact (handles_hop hd ho).2 ih

theorem Handles.handledAt {path q : String} (h : Handles env w regs a path b q) :
    ∃ names, HandledAt env w regs a path names b q := by
  obtain ⟨hw, hq⟩ := h
  induction hw with
  | start => exact ⟨[], .here hq⟩
  | hop hd ho hw ih =>
    obtain ⟨names, hn⟩ := ih hq
    exact ⟨_, .hop hd ho hn⟩

theorem HandledAt.unique {path q q' : String} {names names' : List String} {b' : Actor}
    (h : HandledAt env w regs a path names b q) (h' : HandledAt env w regs a path names' b' q') :
    names = names' ∧ b = b' ∧ q = q' := by
  induction h generalizing names' with
  | here hd =>
    cases h' with
    | here => exact ⟨rfl, rfl, rfl⟩
    | hop hd' => exact absurd hd' hd
  | hop hd ho h ih =>
    cases h' with
    | here hd' => exact absurd hd hd'
    | hop hd' ho' h' =>
      rw [ho] at ho'
      cases ho'
      obtain ⟨rfl, rfl, rfl⟩ := ih h'
      exact ⟨rfl, rfl, rfl⟩

/-- The same tree handles a path at the same place. -/
theorem SameTree.handledAt {path q : String} {names : List String}
    (hs : SameTree env regs w a w' a') (h : HandledAt env w regs a path names b q) :
    ∃ b', HandledAt env w' regs a' path names b' q ∧ SameTree env regs w b w' b' := by
  induction h generalizing a' with
  | here hd => exact ⟨a', .here ((hs.entries.mem_dirs _).not.1 hd), hs⟩
  | hop hd ho h ih =>
    obtain ⟨c', ho', hc⟩ := hs.child ho
    obtain ⟨b', hb', hsame⟩ := ih hc
    exact ⟨b', .hop ((hs.entries.mem_dirs _).1 hd) ho' hb', hsame⟩

/-! ## Growing trees -/

theorem openDir_grows (hg : w.Grows w') {name : String} (ho : openDir env w regs a name = .ok c) :
    openDir env w' regs a name = .ok c := by
  unfold openDir at ho ⊢
  cases hh : a.dirHandles.lookup name with
  | some child =>
    rw [hh] at ho
    exact ho
  | none =>
    rw [hh] at ho
    cases hd : a.state.dirs[name]? with
    | none =>
      rw [hd] at ho
      cases ho
    | some dirRef =>
      rw [hd] at ho
      have hspawn : ∀ x, spawn env (a.context.withNewRef dirRef (dirLink a.context () name dirRef)) w =
          .ok x → spawn env (a.context.withNewRef dirRef (dirLink a.context () name dirRef)) w' =
          .ok x := by
        intro x hx
        unfold spawn at hx ⊢
        cases hl : load env (a.context.withNewRef dirRef (dirLink a.context () name dirRef)) w with
        | error e =>
          rw [hl] at hx
          cases hx
        | ok y =>
          have hlink : (a.context.withNewRef dirRef (dirLink a.context () name dirRef)).link ≠
              .localFile := by
            unfold DirContext.withNewRef dirLink
            cases dirRef.refTypeD <;> simp
          rw [hl] at hx
          rw [load_grows hg hlink hl]
          exact hx
      dsimp only at ho ⊢
      cases ht : dirRef.refTypeD with
      | blake3Hash =>
        rw [ht] at ho
        exact hspawn _ ho
      | registryKey =>
        rw [ht] at ho
        cases hr : regs.lookup dirRef.hash with
        | some child =>
          rw [hr] at ho
          exact ho
        | none =>
          rw [hr] at ho
          exact hspawn _ ho

theorem dirAt_grows (hg : w.Grows w') {names : List String} (h : dirAt env w regs a names = .ok b) :
    dirAt env w' regs a names = .ok b := by
  induction names generalizing a with
  | nil => exact h
  | cons name rest ih =>
    unfold dirAt at h ⊢
    cases ho : openDir env w regs a name with
    | error e =>
      rw [ho] at h
      cases h
    | ok c =>
      rw [ho] at h
      rw [openDir_grows hg ho]
      exact ih h

/-- Every directory is still there with all of its child directories. -/
def TreeGrows (env : Env β) (regs : RegistryDirHandles) (w : World β) (a : Actor) (w' : World β)
    (a' : Actor) : Prop :=
  ∀ names b, dirAt env w regs a names = .ok b →
    ∃ b', dirAt env w' regs a' names = .ok b' ∧ ∀ name, name ∈ b.state.dirs → name ∈ b'.state.dirs

theorem TreeGrows.of_world (hg : w.Grows w') (a : Actor) : TreeGrows env regs w a w' a :=
  fun _ b hb => ⟨b, dirAt_grows hg hb, fun _ => id⟩

theorem TreeGrows.trans (h : TreeGrows env regs w a w' a') (h' : TreeGrows env regs w' a' w'' a'') :
    TreeGrows env regs w a w'' a'' := by
  intro names b hb
  obtain ⟨b', hb', hsub⟩ := h names b hb
  obtain ⟨b'', hb'', hsub'⟩ := h' names b' hb'
  exact ⟨b'', hb'', fun name hn => hsub' name (hsub name hn)⟩

theorem TreeGrows.hasDir (h : TreeGrows env regs w a w' a') {names : List String} {name : String}
    (hd : HasDir env w regs a names name) : HasDir env w' regs a' names name := by
  obtain ⟨b, hb, hmem⟩ := hd
  obtain ⟨b', hb', hsub⟩ := h names b hb
  exact ⟨b', hb', hsub name hmem⟩

theorem TreeGrows.of_children (hs : ∀ name, name ∈ a.state.dirs → name ∈ a'.state.dirs)
    (hn : ∀ name c, openDir env w regs a name = .ok c →
      ∃ c', openDir env w' regs a' name = .ok c' ∧ TreeGrows env regs w c w' c') :
    TreeGrows env regs w a w' a' := by
  intro names b hb
  cases names with
  | nil =>
    obtain rfl := Except.ok.inj hb
    exact ⟨a', rfl, hs⟩
  | cons name rest =>
    unfold dirAt at hb ⊢
    cases ho : openDir env w regs a name with
    | error e =>
      rw [ho] at hb
      cases hb
    | ok c =>
      rw [ho] at hb
      obtain ⟨c', ho', hc⟩ := hn name c ho
      rw [ho']
      exact hc rest b hb

/-- `a'` is `a` with a new directory `dir` in it. -/
structure Added (a : Actor) (dir : String) (a' : Actor) : Prop where
  context : a'.context = a.context
  dirs : ∃ dirRef, a'.state.dirs = a.state.dirs.insert dir dirRef
  kept : ∀ name child, a.dirHandles.lookup name = some child → a'.dirHandles.lookup name = some child
  others : ∀ name, name ≠ dir → a'.dirHandles.lookup name = a.dirHandles.lookup name

theorem Added.treeGrows {dir : String} (h : Added a dir a') (hnew : dir ∉ a.state.dirs)
    (hg : w.Grows w') : TreeGrows env regs w a w' a' := by
  obtain ⟨dirRef, hdirs⟩ := h.dirs
  refine .of_children (fun name hn => ?_) fun name c ho => ⟨c, openDir_grows hg ?_, .of_world hg c⟩
  · rw [hdirs, ExtTreeMap.mem_insert]
    exact .inr hn
  · unfold openDir at ho ⊢
    cases hh : a.dirHandles.lookup name with
    | some child =>
      rw [hh] at ho
      rw [h.kept name child hh]
      exact ho
    | none =>
      rw [hh] at ho
      by_cases hn : name = dir
      · -- the new directory was not there to be opened
        have hnone : a.state.dirs[name]? = none := by
          rw [ExtTreeMap.mem_iff_isSome_getElem?] at hnew
          rw [hn]
          simpa using hnew
        rw [hnone] at ho
        cases ho
      · have href : a'.state.dirs[name]? = a.state.dirs[name]? := by
          rw [hdirs, ExtTreeMap.getElem?_insert, if_neg]
          rw [Std.compare_eq_iff_eq]
          exact Ne.symm hn
        rw [h.others name hn, hh, href, h.context]
        simp only [dirLink] at ho ⊢
        exact ho

/-- Opening a new directory keeps the handles of the others. -/
theorem openNewDir_handles {dir : String} {d : DirV1} (h : openNewDir regs a dir d = .ok a') :
    a'.context = a.context ∧ a'.state = a.state ∧
      (∀ name child, a.dirHandles.lookup name = some child → a'.dirHandles.lookup name = some child) ∧
      ∀ name, name ≠ dir → a'.dirHandles.lookup name = a.dirHandles.lookup name := by
  unfold openNewDir at h
  cases hh : a.dirHandles.lookup dir with
  | some child =>
    rw [hh] at h
    obtain rfl := Except.ok.inj h
    exact ⟨rfl, rfl, fun _ _ => id, fun _ _ => rfl⟩
  | none =>
    rw [hh] at h
    cases hd : a.state.dirs[dir]? with
    | none =>
      rw [hd] at h
      cases h
    | some dirRef =>
      rw [hd] at h
      dsimp only at h
      have hcons : ∀ child : Actor, (∀ name c, a.dirHandles.lookup name = some c →
          ((dir, child) :: a.dirHandles).lookup name = some c) ∧
          ∀ name, name ≠ dir → ((dir, child) :: a.dirHandles).lookup name = a.dirHandles.lookup name := by
        intro child
        have hne : ∀ name, name ≠ dir →
            ((dir, child) :: a.dirHandles).lookup name = a.dirHandles.lookup name := by
          intro name hn
          have hb : (name == dir) = false := beq_eq_false_iff_ne.2 hn
          rw [List.lookup_cons, hb]
        refine ⟨fun name c hc => ?_, hne⟩
        rw [hne name]
        · exact hc
        · rintro rfl
          rw [hh] at hc
          cases hc
      split at h
      · obtain rfl := Except.ok.inj h
        exact ⟨rfl, rfl, fun _ _ => id, fun _ _ => rfl⟩
      · obtain rfl := Except.ok.inj h
        exact ⟨rfl, rfl, (hcons _).1, (hcons _).2⟩

/-- `create_dir_at` where the directory does not exist, whatever it results in. -/
theorem createDirAt_added {enableEncryption : Bool} {path : String} {r : Except String Unit}
    (hnew : path ∉ a.state.dirs)
    (hrun : createDirAt env regs enableEncryption w a path = (w', a', r)) :
    (∃ n, w' = { w with tick := n }) ∧ Added a path a' := by
  unfold createDirAt at hrun
  rw [if_neg hnew] at hrun
  dsimp only at hrun
  have hw : (buildChildDirRef env a.context enableEncryption w).1 = { w with tick := w.tick + 1 + 1 } :=
    rfl
  generalize buildChildDirRef env a.context enableEncryption w = built at hw hrun
  obtain ⟨w1, dirRef⟩ := built
  dsimp only at hw hrun
  subst hw
  split at hrun
  · obtain ⟨rfl, rfl, -⟩ := by simpa using hrun
    exact ⟨⟨_, rfl⟩, rfl, ⟨dirRef, rfl⟩, fun _ _ => id, fun _ _ => rfl⟩
  · rename_i a1 ho
    obtain ⟨rfl, rfl, -⟩ := by simpa using hrun
    obtain ⟨hctx, hst, hkept, hothers⟩ := openNewDir_handles ho
    exact ⟨⟨_, rfl⟩, hctx, ⟨dirRef, congrArg (·.dirs) hst⟩, hkept, hothers⟩

theorem grows_tick (w : World β) (n : Nat) : w.Grows { w with tick := n } :=
  ⟨fun _ _ => id, rfl, id⟩

theorem treeGrows_createDirAt {enableEncryption : Bool} {path : String} {r : Except String Unit}
    (hrun : createDirAt env regs enableEncryption w a path = (w', a', r)) :
    w.Grows w' ∧ TreeGrows env regs w a w' a' := by
  by_cases hmem : path ∈ a.state.dirs
  · unfold createDirAt at hrun
    rw [if_pos hmem] at hrun
    obtain ⟨rfl, rfl, -⟩ := by simpa using hrun
    exact ⟨.refl w, .of_world (.refl w) a⟩
  · obtain ⟨⟨n, rfl⟩, hadd⟩ := createDirAt_added hmem hrun
    exact ⟨grows_tick w n, hadd.treeGrows hmem (grows_tick w n)⟩

theorem treeGrows_hear {child child' : Actor} (h : TreeGrows env regs w a w' a') :
    TreeGrows env regs w a w' (a'.hear child child') := by
  obtain ⟨hctx, hst, hdh, -⟩ := hear_state a' child child'
  have hsame : ∀ names b, dirAt env w' regs a' names = .ok b →
      ∃ b', dirAt env w' regs (a'.hear child child') names = .ok b' ∧ b'.state = b.state := by
    intro names b hb
    cases names with
    | nil =>
      obtain rfl := Except.ok.inj hb
      exact ⟨_, rfl, hst⟩
    | cons name rest =>
      have ho : openDir env w' regs (a'.hear child child') name = openDir env w' regs a' name := by
        simp only [openDir, hctx, hst, hdh]
      refine ⟨b, ?_, rfl⟩
      unfold dirAt at hb ⊢
      rw [ho]
      exact hb
  intro names b hb
  obtain ⟨b', hb', hsub⟩ := h names b hb
  obtain ⟨b'', hb'', hst'⟩ := hsame names b' hb'
  exact ⟨b'', hb'', by rw [hst']; exact hsub⟩

/-- A request lets the tree grow if what acts on it does. -/
theorem treeGrows_pathOp {act : World β → Actor → String → World β × Actor × Except String Unit}
    (hact : ∀ {w w' : World β} {b b' : Actor} {q : String} {r : Except String Unit},
      act w b q = (w', b', r) → w.Grows w' ∧ TreeGrows env regs w b w' b')
    (fuel : Nat) {w w' : World β} {a a' : Actor} {path : String} {r : Except String Unit}
    (hrun : pathOp env act regs fuel w a path = some (w', a', r)) :
    w.Grows w' ∧ TreeGrows env regs w a w' a' := by
  induction fuel generalizing a a' path with
  | zero => cases hrun
  | succ fuel ih =>
    unfold pathOp at hrun
    have hsame : some (w, a, r) = some (w', a', r) → w.Grows w' ∧ TreeGrows env regs w a w' a' := by
      intro h
      obtain ⟨rfl, rfl, -⟩ := by simpa using h
      exact ⟨.refl w, .of_world (.refl w) a⟩
    cases hroute : route env a.state path with
    | error e =>
      rw [hroute] at hrun
      obtain ⟨rfl, rfl, rfl⟩ := by simpa using hrun
      exact hsame rfl
    | ok rt =>
      rw [hroute] at hrun
      cases rt with
      | here => exact hact (Option.some.inj hrun)
      | shard index =>
        dsimp only at hrun
        cases ho : openDirShard env w a index with
        | error e =>
          rw [ho] at hrun
          obtain ⟨rfl, rfl, rfl⟩ := by simpa using hrun
          exact hsame rfl
        | ok child =>
          rw [ho] at hrun
          simp only [Option.map_eq_some_iff, Prod.mk.injEq, Prod.exists] at hrun
          obtain ⟨w1, child', r1, hchild, rfl, rfl, rfl⟩ := hrun
          obtain ⟨hg, -⟩ := ih hchild
          -- the directories below are not looked for in shards
          have hkeep : TreeGrows env regs w a w1 (a.keepShard index child') :=
            .of_children (fun _ => id) fun name c ho => ⟨c, openDir_grows hg ho, .of_world hg c⟩
          exact ⟨hg, treeGrows_hear hkeep⟩
      | dir name rest =>
        dsimp only at hrun
        cases ho : openDir env w regs a name with
        | error e =>
          rw [ho] at hrun
          obtain ⟨rfl, rfl, rfl⟩ := by simpa using hrun
          exact hsame rfl
        | ok child =>
          rw [ho] at hrun
          simp only [Option.map_eq_some_iff, Prod.mk.injEq, Prod.exists] at hrun
          obtain ⟨w1, child', r1, hchild, rfl, rfl, rfl⟩ := hrun
          obtain ⟨hg, hbelow⟩ := ih hchild
          have hkeep : TreeGrows env regs w a w1 (a.keepDir name child') := by
            refine .of_children (fun _ => id) fun n c hc => ?_
            rw [openDir_keepDir]
            by_cases hn : n = name
            · rw [hn, ho] at hc
              obtain rfl := Except.ok.inj hc
              exact ⟨child', if_pos hn, hbelow⟩
            · exact ⟨c, by rw [if_neg hn]; exact openDir_grows hg hc, .of_world hg c⟩
          exact ⟨hg, treeGrows_hear hkeep⟩

/-! ## Reads -/

/-- The read of a file that sets off a promotion. -/
def Promotes (d : DirV1) (q : String) : Prop :=
  q ∈ d.files ∧ ∃ dir rest, splitOnce q = some (dir, rest) ∧ promotionThreshold < countBelow d dir

/-- The read of a path changes no directory. -/
def OnlyReads (env : Env β) (w : World β) (regs : RegistryDirHandles) (a : Actor) (path : String) :
    Prop :=
  ∀ b q, Handles env w regs a path b q → ¬ Promotes b.state q

theorem insert_found {m : ExtTreeMap String FileRef} {q : String} {f : FileRef} (h : m[q]? = some f) :
    m.insert q f = m := by
  refine ExtTreeMap.ext_getElem? fun k => ?_
  rw [ExtTreeMap.getElem?_insert]
  by_cases hk : q = k
  · rw [if_pos (Std.compare_eq_iff_eq.2 hk), ← hk, h]
  · rw [if_neg (by rwa [Std.compare_eq_iff_eq])]

theorem erase_missing {m : ExtTreeMap String FileRef} {q : String} (h : m[q]? = none) :
    m.erase q = m := by
  refine ExtTreeMap.ext_getElem? fun k => ?_
  rw [ExtTreeMap.getElem?_erase]
  by_cases hk : q = k
  · rw [if_pos (Std.compare_eq_iff_eq.2 hk), ← hk, h]
  · rw [if_neg (by rwa [Std.compare_eq_iff_eq])]

theorem with_files_self (a : Actor) : { a with state.files := a.state.files } = a := by
  cases a
  rfl

theorem openDir_markAsDirty (a : Actor) (name : String) :
    openDir env w regs a.markAsDirty name = openDir env w regs a name := rfl

theorem treeGrows_markAsDirty (hg : w.Grows w') : TreeGrows env regs w a w' a.markAsDirty :=
  .of_children (fun _ => id) fun name c ho =>
    ⟨c, by rw [openDir_markAsDirty]; exact openDir_grows hg ho, .of_world hg c⟩

variable [DecidableEq β] {order : GroupOrder}

/-- What `promote_prefix` does, whether it fails or not. -/
theorem promotePrefix_added {dir : String} {r : Except String Unit} (hnew : dir ∉ a.state.dirs)
    (hrun : promotePrefix env order regs w a dir = (w', a', r)) : w.Grows w' ∧ Added a dir a' := by
  unfold promotePrefix at hrun
  rw [if_neg hnew] at hrun
  dsimp only at hrun
  have hg : w.Grows (buildChildDirRef env a.context a.context.encryptionType.isSome w).1 :=
    grows_tick w _
  generalize buildChildDirRef env a.context a.context.encryptionType.isSome w = built at hg hrun
  obtain ⟨w1, dirRef⟩ := built
  dsimp only at hg hrun
  have hg2 : w1.Grows (optimizeDirStructureIn env order a.context
      (extractChildDirState a.state dir).2 w1).1 :=
    (onward_optimizeFrom (fun _ w => .refl w) order _ _ _ _).grows
  generalize optimizeDirStructureIn env order a.context (extractChildDirState a.state dir).2 w1 = res
    at hg2 hrun
  obtain ⟨w2, e | optimized⟩ := res
  · obtain ⟨rfl, rfl, -⟩ := by simpa using hrun
    exact ⟨hg.trans hg2, rfl, ⟨dirRef, rfl⟩, fun _ _ => id, fun _ _ => rfl⟩
  · dsimp only at hrun
    split at hrun
    · obtain ⟨rfl, rfl, -⟩ := by simpa using hrun
      exact ⟨hg.trans hg2, rfl, ⟨dirRef, rfl⟩, fun _ _ => id, fun _ _ => rfl⟩
    · rename_i a1 ho
      obtain ⟨rfl, rfl, -⟩ := by simpa using hrun
      obtain ⟨hctx, hst, hkept, hothers⟩ := openNewDir_handles ho
      exact ⟨hg.trans hg2, hctx, ⟨dirRef, congrArg (·.dirs) hst⟩, hkept, hothers⟩

/-- A read that sets off no promotion leaves the directory as it is. -/
theorem fileOpAt_get_quiet {q : String} {r : Except String Unit} (hq : ¬ Promotes a.state q)
    (hrun : fileOpAt env order regs .get w a q = (w', a', r)) :
    w' = w.next ∧ a' = a.markAsDirty := by
  unfold fileOpAt FileTask.execute at hrun
  dsimp only at hrun
  cases hf : a.state.files[q]? with
  | none =>
    rw [hf] at hrun
    dsimp only at hrun
    rw [erase_missing hf] at hrun
    obtain ⟨rfl, rfl, -⟩ := by simpa using hrun
    exact ⟨rfl, rfl⟩
  | some f =>
    rw [hf] at hrun
    dsimp only at hrun
    rw [insert_found hf] at hrun
    have hmem : q ∈ a.state.files := by
      rw [ExtTreeMap.mem_iff_isSome_getElem?, hf]
      rfl
    have hcheck : checkAutoPromote env order regs w.next a q = (w.next, a, .ok ()) := by
      unfold checkAutoPromote
      cases hp : splitOnce q with
      | none => rfl
      | some nr =>
        obtain ⟨dir, rest⟩ := nr
        exact if_neg fun hlt => hq ⟨hmem, dir, rest, hp, hlt⟩
    rw [with_files_self, hcheck] at hrun
    obtain ⟨rfl, rfl, -⟩ := by simpa using hrun
    exact ⟨rfl, rfl⟩

/-- A read that sets off a promotion adds a directory, even if the promotion fails. -/
theorem fileOpAt_get_promotes {q : String} {r : Except String Unit} (hq : Promotes a.state q)
    (hnew : (splitPath q).1 ∉ a.state.dirs)
    (hrun : fileOpAt env order regs .get w a q = (w', a', r)) :
    w.Grows w' ∧ TreeGrows env regs w a w' a' ∧ (splitPath q).1 ∈ a'.state.dirs := by
  obtain ⟨hmem, dir, rest, hp, hlt⟩ := hq
  rw [splitPath_of_some hp] at hnew ⊢
  obtain ⟨f, hf⟩ := Option.isSome_iff_exists.1 (ExtTreeMap.mem_iff_isSome_getElem?.1 hmem)
  unfold fileOpAt FileTask.execute at hrun
  dsimp only at hrun
  rw [hf] at hrun
  dsimp only at hrun
  rw [insert_found hf, with_files_self, checkAutoPromote, hp] at hrun
  dsimp only at hrun
  rw [if_pos hlt] at hrun
  generalize hprom : promotePrefix env order regs w.next a dir = res at hrun
  obtain ⟨w1, a1, r1⟩ := res
  obtain ⟨hg, hadd⟩ := promotePrefix_added hnew hprom
  have hgrow := (World.grows_next w).trans hg
  obtain ⟨dirRef, hdirs⟩ := hadd.dirs
  have hin : dir ∈ a1.state.dirs := by
    rw [hdirs, ExtTreeMap.mem_insert]
    exact .inl (Std.compare_eq_iff_eq.2 rfl)
  cases r1 with
  | error e =>
    obtain ⟨rfl, rfl, -⟩ := by simpa using hrun
    exact ⟨hgrow, hadd.treeGrows hnew hgrow, hin⟩
  | ok u =>
    obtain ⟨rfl, rfl, -⟩ := by simpa using hrun
    have hdirty : Added a dir a1.markAsDirty := ⟨hadd.context, hadd.dirs, hadd.kept, hadd.others⟩
    exact ⟨hgrow, hdirty.treeGrows hnew hgrow, hin⟩

theorem treeGrows_fileOpAt_get {q : String} {r : Except String Unit}
    (hrun : fileOpAt env order regs .get w a q = (w', a', r)) :
    w.Grows w' ∧ TreeGrows env regs w a w' a' := by
  by_cases hq : Promotes a.state q
  · by_cases hd : (splitPath q).1 ∈ a.state.dirs
    · -- the directory is there: nothing is promoted
      obtain ⟨hmem, dir, rest, hp, hlt⟩ := hq
      rw [splitPath_of_some hp] at hd
      obtain ⟨f, hf⟩ := Option.isSome_iff_exists.1 (ExtTreeMap.mem_iff_isSome_getElem?.1 hmem)
      unfold fileOpAt FileTask.execute at hrun
      dsimp only at hrun
      rw [hf] at hrun
      dsimp only at hrun
      rw [insert_found hf, with_files_self, checkAutoPromote, hp] at hrun
      dsimp only at hrun
      rw [if_pos hlt, promotePrefix, if_pos hd] at hrun
      obtain ⟨rfl, rfl, -⟩ := by simpa using hrun
      exact ⟨w.grows_next, treeGrows_markAsDirty w.grows_next⟩
    · obtain ⟨hg, hgrow, -⟩ := fileOpAt_get_promotes hq hd hrun
      exact ⟨hg, hgrow⟩
  · obtain ⟨rfl, rfl⟩ := fileOpAt_get_quiet hq hrun
    exact ⟨w.grows_next, treeGrows_markAsDirty w.grows_next⟩

omit [DecidableEq β]

/-! ## Unsharded trees -/

/-- No directory of the tree is sharded. -/
def UnshardedTree (env : Env β) (w : World β) (regs : RegistryDirHandles) (a : Actor) : Prop :=
  ∀ names b, dirAt env w regs a names = .ok b → b.Plain

theorem UnshardedTree.here (h : UnshardedTree env w regs a) : a.Plain := h [] a rfl

theorem UnshardedTree.child (h : UnshardedTree env w regs a) {name : String}
    (ho : openDir env w regs a name = .ok c) : UnshardedTree env w regs c := by
  intro names b hb
  refine h (name :: names) b ?_
  rw [dirAt, ho]
  exact hb

theorem UnshardedTree.of_children (ha : a.Plain)
    (hn : ∀ name c, openDir env w regs a name = .ok c → UnshardedTree env w regs c) :
    UnshardedTree env w regs a := by
  intro names b hb
  cases names with
  | nil =>
    obtain rfl := Except.ok.inj hb
    exact ha
  | cons name rest =>
    unfold dirAt at hb
    cases ho : openDir env w regs a name with
    | error e =>
      rw [ho] at hb
      cases hb
    | ok c =>
      rw [ho] at hb
      exact hn name c ho rest b hb

theorem UnshardedTree.plainWay (h : UnshardedTree env w regs a) (path : String) :
    PlainWay env w regs a path := by
  intro b q hw
  induction hw with
  | start => exact h.here
  | hop hd ho hw ih => exact ih (h.child ho)

theorem openDir_tick (w : World β) (n : Nat) (a : Actor) (name : String) :
    openDir env { w with tick := n } regs a name = openDir env w regs a name := rfl

theorem dirAt_tick (w : World β) (n : Nat) (a : Actor) (names : List String) :
    dirAt env { w with tick := n } regs a names = dirAt env w regs a names := by
  induction names generalizing a with
  | nil => rfl
  | cons name rest ih =>
    rw [dirAt, dirAt, openDir_tick w n]
    cases openDir env w regs a name with
    | error e => rfl
    | ok c => exact ih c

theorem sameTree_tick (n : Nat) (a : Actor) : SameTree env regs w a { w with tick := n } a := by
  intro names
  rw [dirAt_tick w n]
  exact .refl _

theorem UnshardedTree.tick (h : UnshardedTree env w regs a) (n : Nat) :
    UnshardedTree env { w with tick := n } regs a := by
  intro names b hb
  rw [dirAt_tick w n] at hb
  exact h names b hb

/-- The child that has been worked on is found under its name, all others as before. -/
theorem openDir_kept (a child c : Actor) (n name : String) :
    openDir env w regs ((a.keepDir n child).hear c child) name =
      if name = n then .ok child else openDir env w regs a name := by
  obtain ⟨hctx, hst, hdh, -⟩ := hear_state (a.keepDir n child) c child
  rw [← openDir_keepDir]
  simp only [openDir, hctx, hst, hdh]

theorem plain_kept (ha : a.Plain) {n : String} (hn : n ∈ a.state.dirs) (child c : Actor) :
    ((a.keepDir n child).hear c child).Plain := by
  obtain ⟨hctx, hst, hdh, hsh⟩ := hear_state (a.keepDir n child) c child
  refine ⟨⟨by rw [hst]; exact ha.unsharded.shardLevel, by rw [hst]; exact ha.unsharded.shards,
    by rw [hsh]; exact ha.unsharded.dirShardHandles⟩, fun name d hd => ?_⟩
  rw [hst]
  by_cases h : name = n
  · rw [h]
    exact hn
  · have hb : (name == n) = false := beq_eq_false_iff_ne.2 h
    rw [hdh, keepDir, List.lookup_cons, hb] at hd
    exact ha.named name d (lookup_filter_ne h _ ▸ hd)

/-- What a request that `act` works on comes to, from the directory that handles it. -/
structure HandledBy (env : Env β) (regs : RegistryDirHandles) (w : World β) (a : Actor) (path : String)
    (names : List String) (b : Actor) (q : String) (w' : World β) (a' b' : Actor) : Prop where
  handled : HandledAt env w regs a path names b q
  dir : dirAt env w' regs a' names = .ok b'
  again : ∀ more c x, HandledAt env w' regs b' q more c x →
    HandledAt env w' regs a' path (names ++ more) c x
  same : ∀ n, w' = { w with tick := n } → SameTree env regs w b w' b' → SameTree env regs w a w' a'
  unsharded : ∀ n, w' = { w with tick := n } → UnshardedTree env w regs a →
    UnshardedTree env w' regs b' → UnshardedTree env w' regs a'

/-- A request is handled by a directory of the tree, or it does not get to one. -/
theorem pathOp_handled {act : World β → Actor → String → World β × Actor × Except String Unit}
    (fuel : Nat) {w w' : World β} {a a' : Actor} {path : String} {r : Except String Unit}
    (hway : PlainWay env w regs a path)
    (hrun : pathOp env act regs fuel w a path = some (w', a', r)) :
    (∃ names b q b', HandledBy env regs w a path names b q w' a' b' ∧ act w b q = (w', b', r)) ∨
      (w' = w ∧ (∀ b q, ¬ Handles env w regs a path b q) ∧ SameTree env regs w a w a' ∧
        (UnshardedTree env w regs a → UnshardedTree env w regs a') ∧ ∃ e, r = .error e) := by
  induction fuel generalizing a a' path with
  | zero => cases hrun
  | succ fuel ih =>
    have ha := hway.here
    unfold pathOp at hrun
    rw [route_plain ha.unsharded] at hrun
    by_cases hd : (splitPath path).1 ∈ a.state.dirs
    · simp only [if_pos hd] at hrun
      cases ho : openDir env w regs a (splitPath path).1 with
      | error e =>
        rw [ho] at hrun
        obtain ⟨rfl, rfl, rfl⟩ := by simpa using hrun
        refine .inr ⟨rfl, ?_, .refl w a, id, e, rfl⟩
        rintro b q ⟨hw, hq⟩
        cases hw with
        | start => exact hq hd
        | hop hd' ho' =>
          rw [ho] at ho'
          cases ho'
      | ok child =>
        rw [ho] at hrun
        simp only [Option.map_eq_some_iff, Prod.mk.injEq, Prod.exists] at hrun
        obtain ⟨w1, child', r1, hchild, rfl, rfl, rfl⟩ := hrun
        have hdir : openDir env w1 regs ((a.keepDir (splitPath path).1 child').hear child child')
            (splitPath path).1 = .ok child' := by
          rw [openDir_kept, if_pos rfl]
        have hstate : ((a.keepDir (splitPath path).1 child').hear child child').state = a.state :=
          (hear_state _ _ _).2.1
        have hsame : ∀ n, w1 = { w with tick := n } → SameTree env regs w child w1 child' →
            SameTree env regs w a w1 ((a.keepDir (splitPath path).1 child').hear child child') := by
          rintro n rfl hc
          refine .of_children (by rw [hstate]; exact .refl _) fun name => ?_
          rw [openDir_kept, openDir_tick w n]
          by_cases hn : name = (splitPath path).1
          · rw [if_pos hn, hn, ho]
            refine ⟨hc.entries, ?_⟩
            rintro c c' ⟨⟩ ⟨⟩
            exact hc
          · rw [if_neg hn]
            refine ⟨.refl _, fun c c' h h' => ?_⟩
            rw [h] at h'
            obtain rfl := Except.ok.inj h'
            exact sameTree_tick n c
        have hunsharded : ∀ n, w1 = { w with tick := n } → UnshardedTree env w regs a →
            UnshardedTree env w1 regs child' →
            UnshardedTree env w1 regs ((a.keepDir (splitPath path).1 child').hear child child') := by
          rintro n rfl htree hc
          refine .of_children (plain_kept htree.here hd child' child) fun name c hname => ?_
          rw [openDir_kept, openDir_tick w n] at hname
          by_cases hn : name = (splitPath path).1
          · rw [if_pos hn] at hname
            obtain rfl := Except.ok.inj hname
            exact hc
          · rw [if_neg hn] at hname
            exact (htree.child hname).tick n
        rcases ih (hway.hop hd ho) hchild with
          ⟨names, b, q, b', hb, hact⟩ | ⟨rfl, hnone, hs, hu, e, rfl⟩
        · refine .inl ⟨(splitPath path).1 :: names, b, q, b', ⟨.hop hd ho hb.handled, ?_, ?_, ?_, ?_⟩, hact⟩
          · rw [dirAt, hdir]
            exact hb.dir
          · exact fun more c x h => .hop (by rw [hstate]; exact hd) hdir (hb.again more c x h)
          · exact fun n hn hbs => hsame n hn (hb.same n hn hbs)
          · exact fun n hn ht hbt => hunsharded n hn ht (hb.unsharded n hn (ht.child ho) hbt)
        · refine .inr ⟨rfl, fun b q h => hnone b q ((handles_hop hd ho).1 h),
            hsame w1.tick rfl hs, fun ht => hunsharded w1.tick rfl ht (hu (ht.child ho)), e, rfl⟩
    · simp only [if_neg hd, Option.some.injEq] at hrun
      exact .inl ⟨[], a, path, a', ⟨.here hd, rfl, fun _ _ _ => id, fun _ _ => id, fun _ _ _ => id⟩,
        hrun⟩

theorem sameTree_markAsDirty (a : Actor) : SameTree env regs w a w a.markAsDirty :=
  .of_children (.refl _) fun name => by
    rw [openDir_markAsDirty]
    refine ⟨.refl _, fun c c' h h' => ?_⟩
    rw [h] at h'
    obtain rfl := Except.ok.inj h'
    exact .refl w c

theorem UnshardedTree.markAsDirty (h : UnshardedTree env w regs a) :
    UnshardedTree env w regs a.markAsDirty :=
  .of_children ⟨⟨h.here.unsharded.shardLevel, h.here.unsharded.shards,
    h.here.unsharded.dirShardHandles⟩, h.here.named⟩ fun _ _ ho => h.child ho

theorem HandledAt.unsharded {path q : String} {names : List String}
    (h : HandledAt env w regs a path names b q) (ht : UnshardedTree env w regs a) :
    UnshardedTree env w regs b := by
  induction h with
  | here => exact ht
  | hop hd ho h ih => exact ih (ht.child ho)

theorem OnlyReads.sameTree {path : String} (h : OnlyReads env w regs a path)
    (hs : SameTree env regs w a w' a') :
    OnlyReads env w' regs a' path := by
  rintro b q hb ⟨hmem, hlarge⟩
  obtain ⟨names, hat⟩ := hb.handledAt
  obtain ⟨b', hat', hsame⟩ := hs.symm.handledAt hat
  refine h b' q hat'.handles ⟨?_, ?_⟩
  · rw [← hsame.entries.files]
    exact hmem
  · unfold countBelow at hlarge ⊢
    rw [← hsame.entries.files]
    exact hlarge

variable [DecidableEq β]

/-- A read that sets off no promotion leaves the tree as it is. -/
theorem read_quiet {fuel : Nat} {path : String} {r : Except String Unit}
    (htree : UnshardedTree env w regs a) (hread : OnlyReads env w regs a path)
    (hrun : pathOp env (fileOpAt env order regs .get) regs fuel w a path = some (w', a', r)) :
    SameTree env regs w a w' a' ∧ UnshardedTree env w' regs a' := by
  rcases pathOp_handled fuel (htree.plainWay path) hrun with
    ⟨names, b, q, b', hb, hact⟩ | ⟨rfl, -, hs, hu, -⟩
  · obtain ⟨rfl, rfl⟩ := fileOpAt_get_quiet (hread b q hb.handled.handles) hact
    have hbt : UnshardedTree env w.next regs b.markAsDirty :=
      (hb.handled.unsharded htree).markAsDirty.tick _
    exact ⟨hb.same _ rfl ((sameTree_markAsDirty b).trans (sameTree_tick _ _)),
      hb.unsharded _ rfl htree hbt⟩
  · exact ⟨hs, hu htree⟩

theorem readFiles_quiet {fuel : Nat} {w1 : World β} {a1 : Actor} (paths : List String)
    (hread : ∀ path ∈ paths, OnlyReads env w1 regs a1 path) {w w' : World β} {a a' : Actor}
    (hs : SameTree env regs w1 a1 w a) (htree : UnshardedTree env w regs a)
    (hrun : readFiles env order regs fuel w a paths = some (w', a')) :
    SameTree env regs w1 a1 w' a' ∧ UnshardedTree env w' regs a' := by
  induction paths generalizing w a with
  | nil =>
    obtain ⟨rfl, rfl⟩ := by simpa [readFiles] using hrun
    exact ⟨hs, htree⟩
  | cons path rest ih =>
    obtain ⟨⟨w2, a2, r⟩, hop, hrest⟩ := Option.bind_eq_some_iff.1 hrun
    obtain ⟨hs2, htree2⟩ :=
      read_quiet htree ((hread path List.mem_cons_self).sameTree hs) hop
    exact ih (fun p hp => hread p (List.mem_cons_of_mem _ hp)) (hs.trans hs2) htree2 hrest

theorem treeGrows_readFiles {fuel : Nat} (paths : List String) {w w' : World β} {a a' : Actor}
    (hrun : readFiles env order regs fuel w a paths = some (w', a')) :
    TreeGrows env regs w a w' a' := by
  induction paths generalizing w a with
  | nil =>
    obtain ⟨rfl, rfl⟩ := by simpa [readFiles] using hrun
    exact .of_world (.refl w) a
  | cons path rest ih =>
    obtain ⟨⟨w2, a2, r⟩, hop, hrest⟩ := Option.bind_eq_some_iff.1 hrun
    exact (treeGrows_pathOp treeGrows_fileOpAt_get fuel hop).2.trans (ih hrest)

/-- After a read that sets off a promotion the tree has a new directory for good. -/
theorem readFiles_promotes {fuel : Nat} {w1 w3 : World β} {a1 a3 : Actor} (paths : List String)
    (hread : ¬ ∀ path ∈ paths, OnlyReads env w1 regs a1 path) {w w' : World β} {a a' : Actor}
    (hs : SameTree env regs w1 a1 w a) (htree : UnshardedTree env w regs a)
    (hrun : readFiles env order regs fuel w a paths = some (w', a'))
    (hlater : TreeGrows env regs w' a' w3 a3) : ¬ SameTree env regs w1 a1 w3 a3 := by
  induction paths generalizing w a with
  | nil => exact absurd (fun _ => nofun) hread
  | cons path rest ih =>
    obtain ⟨⟨w2, a2, r⟩, hop, hrest⟩ := Option.bind_eq_some_iff.1 hrun
    by_cases hfirst : OnlyReads env w1 regs a1 path
    · obtain ⟨hs2, htree2⟩ := read_quiet htree (hfirst.sameTree hs) hop
      refine ih (fun hall => hread fun p hp => ?_) (hs.trans hs2) htree2 hrest
      rcases List.mem_cons.1 hp with rfl | hp
      · exact hfirst
      · exact hall p hp
    · have hnot : ¬ OnlyReads env w regs a path := fun h => hfirst (h.sameTree hs.symm)
      unfold OnlyReads at hnot
      push Not at hnot
      obtain ⟨b, q, hb, hprom⟩ := hnot
      rcases pathOp_handled fuel (htree.plainWay path) hop with
        ⟨names, b2, q2, b', hh, hact⟩ | ⟨-, hnone, -⟩
      · obtain ⟨names', hat⟩ := hb.handledAt
        obtain ⟨rfl, rfl, rfl⟩ := hat.unique hh.handled
        obtain ⟨hg, -, hin⟩ := fileOpAt_get_promotes hprom hat.not_mem hact
        intro h3
        -- the new directory is there at the end, so it was there at the beginning
        have h2 : HasDir env w2 regs a2 names' (splitPath q).1 := ⟨b', hh.dir, hin⟩
        have hend := hlater.hasDir ((treeGrows_readFiles rest hrest).hasDir h2)
        obtain ⟨c, hc, hmem⟩ := hs.hasDir (h3.symm.hasDir hend)
        rw [hat.dirAt] at hc
        obtain rfl := Except.ok.inj hc
        exact hat.not_mem hmem
      · exact absurd hb (hnone b q)

omit [DecidableEq β]

/-! ## The second call -/

theorem unshardedTree_ofNew (ctx : DirContext Unit) (d : DirV1) (dir : String) :
    UnshardedTree env w regs (ofNew ctx (extractChildDirState d dir).2) :=
  .of_children (Plain.ofNew ctx rfl) fun name c ho =>
    absurd ho (by simp [ofNew, extractChildDirState, DirV1.new, openDir])

/-- A path that ends with an empty directory is handled there, as the empty path. -/
theorem handledAt_empty {q : String} {child : Actor} (hslash : '/' ∉ q.toList)
    (hd : q ∈ a.state.dirs) (ho : openDir env w regs a q = .ok child) (hc : child.state.dirs = ∅) :
    HandledAt env w regs a q [q] child "" := by
  have hfst : (splitPath q).1 = q := by rw [splitPath_of_slash_free hslash]
  have hsnd : (splitPath q).2 = "" := by rw [splitPath_of_slash_free hslash]
  have hhere : HandledAt env w regs child (splitPath q).2 [] child (splitPath q).2 :=
    .here (by rw [hc]; exact ExtTreeMap.not_mem_empty)
  have hhop := HandledAt.hop (by rw [hfst]; exact hd) (by rw [hfst]; exact ho) hhere
  rwa [hfst, hsnd] at hhop

/-- What the first call leaves where it is handled. -/
theorem createDirAt_leaves (hfresh : FreshPointers env regs w) {enableEncryption : Bool} {q : String}
    (htree : UnshardedTree env w regs b) (hq : (splitPath q).1 ∉ b.state.dirs)
    (hrun : createDirAt env regs enableEncryption w b q = (w', c, .ok ())) :
    (∃ n, w' = { w with tick := n }) ∧ UnshardedTree env w' regs c ∧ q ∈ c.state.dirs ∧
      ('/' ∈ q.toList → HandledAt env w' regs c q [] c q) ∧
      ('/' ∉ q.toList → ∃ child, HandledAt env w' regs c q [q] child "" ∧ child.state.dirs = ∅) := by
  by_cases hmem : q ∈ b.state.dirs
  · unfold createDirAt at hrun
    rw [if_pos hmem] at hrun
    obtain ⟨rfl, rfl, -⟩ := by simpa using hrun
    refine ⟨⟨w.tick, rfl⟩, htree, hmem, fun _ => .here hq, fun hslash => ?_⟩
    rw [splitPath_of_slash_free hslash] at hq
    exact absurd hmem hq
  · obtain ⟨n, ctx, c1, -, hat, hext⟩ :=
      createDirAt_new (w := w) hfresh htree.here hmem enableEncryption
    rw [hat] at hrun
    obtain ⟨rfl, rfl, -⟩ := by simpa using hrun
    refine ⟨⟨n, rfl⟩, ?_, hext.mem_dirs.2 (.inl rfl), fun hslash => .here ?_, fun hslash => ?_⟩
    · refine .of_children (hext.plain htree.here) fun name d ho => ?_
      rw [hext.openDir, openDir_tick w n] at ho
      by_cases hn : name = q
      · rw [if_pos hn] at ho
        obtain rfl := Except.ok.inj ho
        exact unshardedTree_ofNew ctx b.state q
      · rw [if_neg hn] at ho
        exact (htree.child ho).tick n
    · rw [hext.mem_dirs, not_or]
      refine ⟨fun h => ?_, hq⟩
      have hfree := splitPath_fst_slash_free q
      rw [h] at hfree
      exact hfree hslash
    · exact ⟨ofNew ctx (extractChildDirState b.state q).2, handledAt_empty hslash
        (hext.mem_dirs.2 (.inl rfl)) (by rw [hext.openDir, if_pos rfl]) rfl, rfl⟩

variable [DecidableEq β]

/-- **When creating a directory again changes nothing.** After a second `create_dir` with the same path,
with any reads in between, every directory has the entries it had after the first exactly if the path
is handled with more than one segment left, and no read sets off a promotion. -/
theorem create_dir_again_iff (hfresh : FreshPointers env regs w) (htree : UnshardedTree env w regs a)
    {path : String} {enableEncryption : Bool} {paths : List String} {fuel fuel' fuel'' : Nat}
    {w1 w2 w3 : World β} {a1 a2 a3 : Actor}
    (hfirst : createDir env regs enableEncryption fuel w a path = some (w1, a1, .ok ()))
    (hreads : readFiles env order regs fuel' w1 a1 paths = some (w2, a2))
    (hagain : createDir env regs enableEncryption fuel'' w2 a2 path = some (w3, a3, .ok ())) :
    SameTree env regs w1 a1 w3 a3 ↔
      (∀ b q, Handles env w regs a path b q → '/' ∈ q.toList) ∧
        ∀ p ∈ paths, OnlyReads env w1 regs a1 p := by
  have hgrow3 : TreeGrows env regs w2 a2 w3 a3 :=
    (treeGrows_pathOp treeGrows_createDirAt fuel'' hagain).2
  rcases pathOp_handled fuel (htree.plainWay path) hfirst with
    ⟨names, b, q, b1, hb, hact⟩ | ⟨-, -, -, -, e, he⟩
  swap
  · cases he
  obtain ⟨⟨n, hw1⟩, hbt, hin, hmany, hone⟩ :=
    createDirAt_leaves hfresh (hb.handled.unsharded htree) hb.handled.not_mem hact
  have htree1 := hb.unsharded n hw1 htree hbt
  by_cases hread : ∀ p ∈ paths, OnlyReads env w1 regs a1 p
  swap
  · exact iff_of_false (readFiles_promotes paths hread (.refl w1 a1) htree1 hreads hgrow3)
      fun h => hread h.2
  obtain ⟨hs2, htree2⟩ := readFiles_quiet paths hread (.refl w1 a1) htree1 hreads
  have hq : (∀ b q, Handles env w regs a path b q → '/' ∈ q.toList) ↔ '/' ∈ q.toList := by
    constructor
    · exact fun h => h b q hb.handled.handles
    · intro h b2 q2 h2
      obtain ⟨names2, hat2⟩ := h2.handledAt
      obtain ⟨-, -, rfl⟩ := hat2.unique hb.handled
      exact h
  rw [hq, and_iff_left hread]
  rcases pathOp_handled fuel'' (htree2.plainWay path) hagain with
    ⟨names2, c, x, c3, hc, hact2⟩ | ⟨-, -, -, -, e, he⟩
  swap
  · cases he
  by_cases hslash : '/' ∈ q.toList
  · -- the directory is found where the first call has made it
    refine iff_of_true ?_ hslash
    have hat1 := hb.again [] b1 q (hmany hslash)
    rw [List.append_nil] at hat1
    obtain ⟨b2, hat2, hsame⟩ := hs2.handledAt hat1
    obtain ⟨rfl, rfl, rfl⟩ := hat2.unique hc.handled
    have hmem : q ∈ b2.state.dirs := (hsame.entries.mem_dirs q).1 hin
    unfold createDirAt at hact2
    rw [if_pos hmem] at hact2
    obtain ⟨rfl, rfl, -⟩ := by simpa using hact2
    exact hs2.trans (hc.same _ rfl (.refl _ _))
  · -- the second call gets into the new directory and makes one there
    refine iff_of_false (fun hs => ?_) hslash
    obtain ⟨child, hchild, hempty⟩ := hone hslash
    have hat1 := hb.again [q] child "" hchild
    obtain ⟨c2, hat2, hsame⟩ := hs2.handledAt hat1
    obtain ⟨rfl, rfl, rfl⟩ := hat2.unique hc.handled
    have hnew : "" ∉ c2.state.dirs := by
      rw [← hsame.entries.mem_dirs, hempty]
      exact ExtTreeMap.not_mem_empty
    obtain ⟨-, hadd⟩ := createDirAt_added hnew hact2
    obtain ⟨dirRef, hdirs⟩ := hadd.dirs
    have h3 : HasDir env w3 regs a3 (names ++ [q]) "" :=
      ⟨c3, hc.dir, by rw [hdirs, ExtTreeMap.mem_insert]; exact .inl (Std.compare_eq_iff_eq.2 rfl)⟩
    obtain ⟨d, hd, hmem⟩ := hs.symm.hasDir h3
    rw [hat1.dirAt] at hd
    obtain rfl := Except.ok.inj hd
    rw [hempty] at hmem
    exact ExtTreeMap.not_mem_empty hmem

end

/-! A root with one file. -/

theorem oneFile_unshardedTree {β : Type} {env : Env β} {w : World β} {regs : RegistryDirHandles}
    (k : String) : UnshardedTree env w regs (oneFile k) :=
  .of_children (oneFile_plain k) fun name c ho => absurd ho (by simp [oneFile, DirV1.new, openDir])

theorem create_dir_again_oneFile : ∃ w1 a1 w2 a2 w3 a3,
    createDir (symbolic xxh3Short) [] true 1 emptyWorld (oneFile "f") "a/b" = some (w1, a1, .ok ()) ∧
    readFiles (symbolic xxh3Short) (fun _ _ groups => groups) [] 1 w1 a1 ["f"] = some (w2, a2) ∧
    createDir (symbolic xxh3Short) [] true 1 w2 a2 "a/b" = some (w3, a3, .ok ()) ∧
    SameTree (symbolic xxh3Short) [] w1 a1 w3 a3 := by
  have hok : ((createDir (symbolic xxh3Short) [] true 1 emptyWorld (oneFile "f") "a/b").bind fun x =>
      (readFiles (symbolic xxh3Short) (fun _ _ groups => groups) [] 1 x.1 x.2.1 ["f"]).bind fun y =>
      (createDir (symbolic xxh3Short) [] true 1 y.1 y.2 "a/b").map fun z =>
        (x.2.2.isOk, decide ("f" ∈ x.2.1.state.dirs), z.2.2.isOk)) = some (true, false, true) := by
    decide +kernel
  obtain ⟨⟨w1, a1, r1⟩, hfirst, hok⟩ := Option.bind_eq_some_iff.1 hok
  obtain ⟨⟨w2, a2⟩, hreads, hok⟩ := Option.bind_eq_some_iff.1 hok
  obtain ⟨⟨w3, a3, r3⟩, hagain, hok⟩ := Option.map_eq_some_iff.1 hok
  cases r1 with
  | error e => cases hok
  | ok u =>
    cases r3 with
    | error e => simp [Except.isOk, Except.toBool] at hok
    | ok u' =>
      have hf : "f" ∉ a1.state.dirs := by simpa using congrArg (·.2.1) hok
      have hsplit : splitPath "f" = ("f", "") := by decide
      refine ⟨w1, a1, w2, a2, w3, a3, hfirst, hreads, hagain, (create_dir_again_iff (fun _ _ => rfl)
        (oneFile_unshardedTree "f") hfirst hreads hagain).2 ⟨?_, ?_⟩⟩
      · rintro b q ⟨h, -⟩
        obtain ⟨-, rfl⟩ := way_oneFile h
        decide
      · intro p hp b q hb
        obtain rfl := List.mem_singleton.1 hp
        obtain ⟨-, rfl⟩ := (handles_here (by rw [hsplit]; exact hf)).1 hb
        rintro ⟨-, dir, rest, h, -⟩
        rw [splitOnce_eq_none.2 (by decide)] at h
        cases h

/-- The second call makes a directory without a name in the first one's. -/
theorem second_call_adds : ∃ w1 a1 w2 a2,
    createDir (symbolic xxh3Short) [] false 1 emptyWorld (oneFile "f") "a" = some (w1, a1, .ok ()) ∧
    createDir (symbolic xxh3Short) [] false 2 w1 a1 "a" = some (w2, a2, .ok ()) ∧
    HasDir (symbolic xxh3Short) w2 [] a2 ["a"] "" ∧
    ¬ SameTree (symbolic xxh3Short) [] w1 a1 w2 a2 := by
  have hok : ((createDir (symbolic xxh3Short) [] false 1 emptyWorld (oneFile "f") "a").bind fun x =>
      (createDir (symbolic xxh3Short) [] false 2 x.1 x.2.1 "a").map fun y =>
        (x.2.2.isOk, y.2.2.isOk,
          (dirAt (symbolic xxh3Short) x.1 [] x.2.1 ["a"]).toOption.map fun b => decide ("" ∈ b.state.dirs),
          (dirAt (symbolic xxh3Short) y.1 [] y.2.1 ["a"]).toOption.map fun b =>
            decide ("" ∈ b.state.dirs))) = some (true, true, some false, some true) := by
    decide +kernel
  obtain ⟨⟨w1, a1, r1⟩, hfirst, hok⟩ := Option.bind_eq_some_iff.1 hok
  obtain ⟨⟨w2, a2, r2⟩, hagain, hok⟩ := Option.map_eq_some_iff.1 hok
  obtain ⟨hr1, hr2, hk1, hk2⟩ : r1.isOk = true ∧ r2.isOk = true ∧
      ((dirAt (symbolic xxh3Short) w1 [] a1 ["a"]).toOption.map fun b => decide ("" ∈ b.state.dirs)) =
        some false ∧
      ((dirAt (symbolic xxh3Short) w2 [] a2 ["a"]).toOption.map fun b => decide ("" ∈ b.state.dirs)) =
        some true := by
    simpa only [Prod.mk.injEq] using hok
  cases r1 with
  | error e => cases hr1
  | ok u =>
    cases r2 with
    | error e => cases hr2
    | ok u' =>
      have hin : HasDir (symbolic xxh3Short) w2 [] a2 ["a"] "" := by
        cases h2 : dirAt (symbolic xxh3Short) w2 [] a2 ["a"] with
        | error e =>
          rw [h2] at hk2
          cases hk2
        | ok b =>
          rw [h2] at hk2
          exact ⟨b, h2, by simpa [Except.toOption] using hk2⟩
      refine ⟨w1, a1, w2, a2, hfirst, hagain, hin, fun hs => ?_⟩
      obtain ⟨b, hb, hmem⟩ := hs.symm.hasDir hin
      rw [hb] at hk1
      simp [Except.toOption, hmem] at hk1

end Actor

end Fs
