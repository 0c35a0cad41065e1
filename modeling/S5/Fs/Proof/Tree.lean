import S5.Fs.Session
import S5.Fs.Proof.Create
import S5.Fs.Proof.Shutdown

/-!
# Trees of directories

The directories below an actor, open or stored, hold a map of files (`Tree`).

* `Tree.reaches`: a tree answers lookups as its map says.
* `Tree.reopened`: a tree without changes is found again from the bytes that its root has stored.
* `Tree.replaced`, `Tree.setFile`: what a directory's change makes of the map.
-/

open Std

namespace Fs

namespace Actor

/-! ## Trees -/

/-- A context under which a directory can be written. -/
def Encodable (ctx : DirContext Unit) : Prop :=
  ctx.encryptionType = none ∨
    ctx.encryptionType = some encryptionTypeXChaCha20Poly1305 ∧ (ctx.keys[keySlot]?).isSome

/-- The context of a child directory. -/
def childContext (ctx : DirContext Unit) (name : String) (ref : DirRef) : DirContext Unit :=
  ctx.withNewRef ref (.dirHandle (.path name) () ref.hash 0)

variable {β : Type} {env : Env β} {w w' : World β} {a b : Actor} {m : FileMap}
  {kid : String → Actor}

/-- What holds of a directory in a tree, beside its children being trees. -/
structure Node (env : Env β) (w : World β) (a : Actor) (kid : String → Actor) (m : FileMap) : Prop where
  plain : a.Plain
  handles : (a.dirHandles.map Prod.fst).Nodup
  encodable : Encodable a.context
  unsigned : a.context.signingKey = none
  /-- Without changes the directory is stored as it is. -/
  clean : a.dirty = false → ∃ len, load env a.context w = .ok (a.state, len)
  names : ∀ n ∈ a.state.dirs, n ≠ "" ∧ '/' ∉ n.toList
  keys : ∀ k ∈ a.state.files, ∃ segs, Proper segs ∧ k = joinPath segs
  files : ∀ segs, Proper segs → (∀ n rest, segs = n :: rest → n ∉ a.state.dirs) →
    m segs = a.state.files[joinPath segs]?
  byHash : ∀ (n : String) (ref : DirRef), a.state.dirs[n]? = some ref → ref.refTypeD = .blake3Hash
  opens : ∀ n ∈ a.state.dirs, openDir env w [] a n = .ok (kid n)
  linked : ∀ (n : String) (ref : DirRef), a.state.dirs[n]? = some ref →
    (kid n).context = childContext a.context n ref
  /-- A directory with changes below it counts as changed. -/
  dirty : ∀ n ∈ a.state.dirs, (kid n).dirty = true → a.dirty = true

/-- The directories below an actor hold the files of a map. -/
inductive Tree (env : Env β) (w : World β) : Actor → FileMap → Prop where
  | mk {a : Actor} {m : FileMap} (kid : String → Actor) (node : Node env w a kid m)
      (below : ∀ n ∈ a.state.dirs, Tree env w (kid n) fun segs => m (n :: segs)) : Tree env w a m

/-! ## The store grows -/

theorem load_grown (hg : w.Grows w') {ctx : DirContext Unit}
    (hroot : ctx.link = .localFile → w'.rootFile = w.rootFile) {x : DirV1 × Nat}
    (h : load env ctx w = .ok x) : load env ctx w' = .ok x := by
  by_cases hlink : ctx.link = .localFile
  · simp only [load, hlink] at h ⊢
    rw [hroot hlink]
    exact h
  · exact load_grows hg hlink h

theorem spawn_grown (hg : w.Grows w') {ctx : DirContext Unit}
    (hroot : ctx.link = .localFile → w'.rootFile = w.rootFile) (h : spawn env ctx w = .ok a) :
    spawn env ctx w' = .ok a := by
  unfold spawn at h ⊢
  cases hl : load env ctx w with
  | error e =>
    rw [hl] at h
    cases h
  | ok x =>
    rw [hl] at h
    rw [load_grown hg hroot hl]
    exact h

theorem openDir_grown (hg : w.Grows w') {n : String} {child : Actor}
    (h : openDir env w [] a n = .ok child) : openDir env w' [] a n = .ok child := by
  unfold openDir at h ⊢
  cases hh : a.dirHandles.lookup n with
  | some c =>
    rw [hh] at h
    exact h
  | none =>
    rw [hh] at h
    dsimp only at h ⊢
    cases hd : a.state.dirs[n]? with
    | none =>
      rw [hd] at h
      cases h
    | some ref =>
      rw [hd] at h
      dsimp only [List.lookup_nil, dirLink] at h ⊢
      cases ht : ref.refTypeD with
      | blake3Hash =>
        rw [ht] at h
        exact spawn_grown hg (fun hl => by cases hl) h
      | registryKey =>
        rw [ht] at h
        exact spawn_grown hg (fun hl => by cases hl) h

theorem Node.grown (hg : w.Grows w') (hroot : a.context.link = .localFile → w'.rootFile = w.rootFile)
    (h : Node env w a kid m) : Node env w' a kid m where
  plain := h.plain
  handles := h.handles
  encodable := h.encodable
  unsigned := h.unsigned
  clean hd := by
    obtain ⟨len, hl⟩ := h.clean hd
    exact ⟨len, load_grown hg hroot hl⟩
  names := h.names
  keys := h.keys
  files := h.files
  byHash := h.byHash
  opens n hn := openDir_grown hg (h.opens n hn)
  linked := h.linked
  dirty := h.dirty

/-- A child directory is linked by its hash. -/
theorem Node.link_ne (h : Node env w a kid m) {n : String} (hn : n ∈ a.state.dirs) :
    (kid n).context.link ≠ .localFile := by
  obtain ⟨ref, href⟩ := Option.isSome_iff_exists.1 (ExtTreeMap.mem_iff_isSome_getElem?.1 hn)
  rw [h.linked n ref href]
  intro hl
  cases hl

theorem Tree.grown (hg : w.Grows w') (hroot : a.context.link = .localFile → w'.rootFile = w.rootFile)
    (h : Tree env w a m) : Tree env w' a m := by
  induction h with
  | mk kid node _ ih =>
    exact .mk kid (node.grown hg hroot) fun n hn => ih n hn fun hl => absurd hl (node.link_ne hn)

theorem Tree.kept (hk : Kept w w') (h : Tree env w a m) : Tree env w' a m :=
  h.grown hk.grows fun _ => hk.rootFile

/-! ## Lookups -/

theorem joinPath_injective {segs segs' : List String} (h : Proper segs) (h' : Proper segs')
    (he : joinPath segs = joinPath segs') : segs = segs' := by
  induction segs generalizing segs' with
  | nil =>
    rw [joinPath_nil] at he
    exact ((joinPath_eq_empty h').1 he.symm).symm
  | cons n segs ih =>
    cases segs' with
    | nil =>
      rw [joinPath_nil] at he
      exact (joinPath_eq_empty h).1 he
    | cons n' segs' =>
      have hsplit := splitPath_joinPath h.cons.1.2 segs
      rw [he, splitPath_joinPath h'.cons.1.2] at hsplit
      obtain ⟨rfl, hrest⟩ := Prod.mk.inj hsplit
      rw [ih h.cons.2 h'.cons.2 hrest.symm]

/-- The first segment of a path, `""` for the empty one. -/
theorem splitPath_fst_joinPath {segs : List String} (h : Proper segs) :
    (splitPath (joinPath segs)).1 = segs.headD "" := by
  cases segs with
  | nil => rfl
  | cons n rest => rw [splitPath_joinPath h.cons.1.2, List.headD_cons]

/-- Where the first segment is no directory, the entry is here. -/
theorem Node.head_not_mem (h : Node env w a kid m) {segs : List String} (hs : Proper segs) :
    (splitPath (joinPath segs)).1 ∉ a.state.dirs ↔ ∀ n rest, segs = n :: rest → n ∉ a.state.dirs := by
  rw [splitPath_fst_joinPath hs]
  cases segs with
  | nil => exact iff_of_true (fun hm => (h.names "" hm).1 rfl) (fun _ _ he => by cases he)
  | cons n rest =>
    constructor
    · rintro hn n' rest' he
      obtain ⟨rfl, rfl⟩ := List.cons.inj he
      exact hn
    · exact fun hn => hn n rest rfl

/-- **A tree answers lookups** as its map says, one hop for each segment. -/
theorem Tree.lookup (h : Tree env w a m) {segs : List String} (hs : Proper segs) {fuel : Nat}
    (hfuel : segs.length < fuel) : lookup env w [] fuel a (joinPath segs) = some (m segs) := by
  induction h generalizing segs fuel with
  | @mk a m kid node _ ih =>
    obtain ⟨fuel, rfl⟩ : ∃ k, fuel = k + 1 := ⟨fuel - 1, by omega⟩
    unfold Actor.lookup routeToChild
    rw [route_plain node.plain.unsharded]
    by_cases hd : (splitPath (joinPath segs)).1 ∈ a.state.dirs
    · rw [if_pos hd]
      cases segs with
      | nil => exact absurd rfl (node.names _ hd).1
      | cons n rest =>
        rw [splitPath_joinPath hs.cons.1.2] at hd ⊢
        simp only [bind, Except.bind, node.opens n hd, pure, Except.pure]
        exact ih n hd hs.cons.2 (by simpa using hfuel)
    · rw [if_neg hd, node.files segs hs ((node.head_not_mem hs).1 hd)]
      rfl

theorem Tree.reaches (h : Tree env w a m) {segs : List String} (hs : Proper segs) :
    Reaches env w [] a (joinPath segs) (m segs) :=
  ⟨segs.length + 1, h.lookup hs (Nat.lt_succ_self _)⟩

/-! ## Reopening -/

/-- **A tree without changes is found again** from the bytes that its root has stored. -/
theorem Tree.reopened (h : Tree env w a m) (hd : a.dirty = false) :
    ∃ b, spawn env a.context w = .ok b ∧ b.dirty = false ∧ b.context = a.context ∧
      Tree env w b m := by
  induction h with
  | @mk a m kid node below ih =>
    obtain ⟨len, hload⟩ := node.clean hd
    have hkid : ∀ n ∈ a.state.dirs, (kid n).dirty = false := by
      intro n hn
      cases hk : (kid n).dirty with
      | false => rfl
      | true => rw [node.dirty n hn hk] at hd; cases hd
    have hfound : ∀ n, ∃ b, n ∈ a.state.dirs → spawn env (kid n).context w = .ok b ∧
        b.dirty = false ∧ b.context = (kid n).context ∧ Tree env w b fun segs => m (n :: segs) := by
      intro n
      by_cases hn : n ∈ a.state.dirs
      · obtain ⟨b, hb⟩ := ih n hn (hkid n hn)
        exact ⟨b, fun _ => hb⟩
      · exact ⟨a, fun hn' => absurd hn' hn⟩
    choose kid' hkid' using hfound
    refine ⟨_, spawn_ok hload, rfl, rfl, .mk kid' ?_ fun n hn => (hkid' n hn).2.2.2⟩
    refine ⟨⟨⟨node.plain.unsharded.shardLevel, node.plain.unsharded.shards, rfl⟩,
      fun n c hc => by cases hc⟩,
      List.nodup_nil, node.encodable, node.unsigned, fun _ => ⟨len, hload⟩, node.names, node.keys,
      node.files, node.byHash, fun n hn => ?_, fun n ref href => ?_, fun n hn hk => ?_⟩
    · obtain ⟨ref, href⟩ := Option.isSome_iff_exists.1 (ExtTreeMap.mem_iff_isSome_getElem?.1 hn)
      have hspawn := (hkid' n hn).1
      rw [node.linked n ref href] at hspawn
      unfold openDir
      simp only [List.lookup_nil, href, node.byHash n ref href, dirLink]
      exact hspawn
    · have hn : n ∈ a.state.dirs := by
        rw [ExtTreeMap.mem_iff_isSome_getElem?, href]
        rfl
      exact ((hkid' n hn).2.2.1).trans (node.linked n ref href)
    · rw [(hkid' n hn).2.1] at hk
      cases hk

/-! ## Changes of a directory -/

/-- The directory `b` is `a` with the child `n`, new or not, in the state of `c`. -/
structure Replaces (a b : Actor) (n : String) (ref : DirRef) (c : Actor) : Prop where
  context : b.context = a.context
  header : b.state.header = a.state.header
  shards : b.dirShardHandles = a.dirShardHandles
  lookup : ∀ name, b.dirHandles.lookup name = if name = n then some c else a.dirHandles.lookup name
  nodup : (b.dirHandles.map Prod.fst).Nodup
  dirs : ∀ name : String, b.state.dirs[name]? = if name = n then some ref else a.state.dirs[name]?
  keys : ∀ k ∈ b.state.files, k ∈ a.state.files
  files : ∀ segs, Proper segs → (∀ rest, segs ≠ n :: rest) →
    b.state.files[joinPath segs]? = a.state.files[joinPath segs]?
  byHash : ref.refTypeD = .blake3Hash
  linked : c.context = childContext a.context n ref
  dirty : b.dirty = false → a.dirty = false ∧ c.dirty = false ∧ b.state = a.state

theorem Replaces.mem_dirs {n : String} {ref : DirRef} {c : Actor} (h : Replaces a b n ref c)
    {name : String} : name ∈ b.state.dirs ↔ name = n ∨ name ∈ a.state.dirs := by
  rw [ExtTreeMap.mem_iff_isSome_getElem?, h.dirs, ExtTreeMap.mem_iff_isSome_getElem?]
  by_cases hn : name = n
  · rw [if_pos hn]
    exact iff_of_true rfl (.inl hn)
  · rw [if_neg hn]
    exact (or_iff_right hn).symm

theorem Replaces.trans {n : String} {ref ref' : DirRef} {c c' d : Actor} (h : Replaces a b n ref c)
    (h' : Replaces b d n ref' c') : Replaces a d n ref' c' where
  context := h'.context.trans h.context
  header := h'.header.trans h.header
  shards := h'.shards.trans h.shards
  lookup name := by
    rw [h'.lookup, h.lookup]
    by_cases hn : name = n
    · rw [if_pos hn, if_pos hn]
    · rw [if_neg hn, if_neg hn, if_neg hn]
  nodup := h'.nodup
  dirs name := by
    rw [h'.dirs, h.dirs]
    by_cases hn : name = n
    · rw [if_pos hn, if_pos hn]
    · rw [if_neg hn, if_neg hn, if_neg hn]
  keys k hk := h.keys k (h'.keys k hk)
  files segs hs hn := (h'.files segs hs hn).trans (h.files segs hs hn)
  byHash := h'.byHash
  linked := by rw [h'.linked, h.context]
  dirty hd := by
    obtain ⟨hb, hc, hstate⟩ := h'.dirty hd
    obtain ⟨ha, -, hstate'⟩ := h.dirty hb
    exact ⟨ha, hc, hstate.trans hstate'⟩

/-- The handles of a directory with a child in its place. -/
theorem lookup_keepDir (a c : Actor) (n name : String) :
    (a.keepDir n c).dirHandles.lookup name = if name = n then some c else a.dirHandles.lookup name := by
  unfold keepDir
  dsimp only
  by_cases hn : name = n
  · rw [if_pos hn, hn, List.lookup_cons_self]
  · have hb : (name == n) = false := beq_eq_false_iff_ne.2 hn
    rw [if_neg hn, List.lookup_cons, hb]
    exact lookup_filter_ne hn _

theorem nodup_keepDir (h : (a.dirHandles.map Prod.fst).Nodup) (n : String) (c : Actor) :
    ((a.keepDir n c).dirHandles.map Prod.fst).Nodup := by
  have hfilter := (List.filter_sublist (p := fun x : String × Actor => x.1 ≠ n)
    (l := a.dirHandles)).map Prod.fst
  refine List.nodup_cons.2 ⟨fun hmem => ?_, hfilter.nodup h⟩
  obtain ⟨x, hx, hxn⟩ := List.mem_map.1 hmem
  simp only [List.mem_filter, decide_eq_true_eq] at hx
  exact hx.2 hxn

/-- A directory whose child `n` is replaced. -/
theorem Node.replaced {n : String} {ref : DirRef} {c : Actor} (h : Node env w a kid m)
    (hr : Replaces a b n ref c) (hk : Kept w w') (hname : n ≠ "" ∧ '/' ∉ n.toList) {m' : FileMap}
    (hothers : ∀ segs, (∀ rest, segs ≠ n :: rest) → m' segs = m segs) :
    Node env w' b (Function.update kid n c) m' := by
  have hopen : ∀ name, openDir env w' [] b name =
      if name = n then .ok c else openDir env w' [] a name := by
    intro name
    unfold openDir
    rw [hr.lookup, hr.dirs, hr.context]
    by_cases hn : name = n
    · rw [if_pos hn, if_pos hn, if_pos hn]
    · rw [if_neg hn, if_neg hn, if_neg hn]
  refine ⟨⟨⟨by rw [hr.header]; exact h.plain.unsharded.shardLevel,
    by rw [hr.header]; exact h.plain.unsharded.shards,
    hr.shards.trans h.plain.unsharded.dirShardHandles⟩, fun name c' hc' => ?_⟩, hr.nodup,
    by rw [hr.context]; exact h.encodable, by rw [hr.context]; exact h.unsigned, fun hd => ?_,
    fun name hname' => ?_, fun k hk' => h.keys k (hr.keys k hk'), fun segs hs hhead => ?_,
    fun name ref' href => ?_, fun name hname' => ?_, fun name ref' href => ?_,
    fun name hname' hc' => ?_⟩
  · rw [hr.mem_dirs]
    rw [hr.lookup] at hc'
    by_cases hn : name = n
    · exact .inl hn
    · rw [if_neg hn] at hc'
      exact .inr (h.plain.named name c' hc')
  · obtain ⟨had, -, hstate⟩ := hr.dirty hd
    obtain ⟨len, hl⟩ := h.clean had
    rw [hr.context, hstate]
    exact ⟨len, load_grown hk.grows (fun _ => hk.rootFile) hl⟩
  · rcases hr.mem_dirs.1 hname' with rfl | hmem
    · exact hname
    · exact h.names name hmem
  · have hne : ∀ rest, segs ≠ n :: rest := fun rest he =>
      hhead n rest he (hr.mem_dirs.2 (.inl rfl))
    rw [hothers segs hne, hr.files segs hs hne]
    exact h.files segs hs fun n' rest he hmem => hhead n' rest he (hr.mem_dirs.2 (.inr hmem))
  · rw [hr.dirs] at href
    by_cases hn : name = n
    · rw [if_pos hn] at href
      obtain rfl := Option.some.inj href
      exact hr.byHash
    · rw [if_neg hn] at href
      exact h.byHash name ref' href
  · rw [hopen, Function.update_apply]
    by_cases hn : name = n
    · rw [if_pos hn, if_pos hn]
    · rw [if_neg hn, if_neg hn]
      exact openDir_grown hk.grows (h.opens name ((hr.mem_dirs.1 hname').resolve_left hn))
  · rw [hr.dirs] at href
    rw [hr.context, Function.update_apply]
    by_cases hn : name = n
    · rw [if_pos hn] at href ⊢
      obtain rfl := Option.some.inj href
      rw [hr.linked, hn]
    · rw [if_neg hn] at href ⊢
      exact h.linked name ref' href
  · rw [Function.update_apply] at hc'
    cases hd : b.dirty with
    | true => rfl
    | false =>
      obtain ⟨had, hcd, -⟩ := hr.dirty hd
      by_cases hn : name = n
      · rw [if_pos hn, hcd] at hc'
        cases hc'
      · rw [if_neg hn] at hc'
        have hmem := (hr.mem_dirs.1 hname').resolve_left hn
        rw [h.dirty name hmem hc'] at had
        cases had

/-- **A tree whose child is replaced** by a tree. -/
theorem Tree.replaced {n : String} {ref : DirRef} {c : Actor} (h : Tree env w a m)
    (hr : Replaces a b n ref c) (hk : Kept w w') (hname : n ≠ "" ∧ '/' ∉ n.toList) {m' : FileMap}
    (hc : Tree env w' c fun rest => m' (n :: rest))
    (hothers : ∀ segs, (∀ rest, segs ≠ n :: rest) → m' segs = m segs) : Tree env w' b m' := by
  obtain ⟨kid, node, below⟩ := h
  refine .mk _ (node.replaced hr hk hname hothers) fun n' hn' => ?_
  by_cases hnn : n' = n
  · rw [hnn, Function.update_self]
    exact hc
  · rw [Function.update_of_ne hnn]
    have hsame : (fun rest => m' (n' :: rest)) = fun rest => m (n' :: rest) := by
      funext rest
      exact hothers _ fun rest' he => hnn (List.cons.inj he).1
    rw [hsame]
    exact (below n' ((hr.mem_dirs.1 hn').resolve_left hnn)).kept hk

/-- Maps that agree where files can be. -/
theorem Tree.congr (h : Tree env w a m) {m' : FileMap} (he : ∀ segs, Proper segs → m' segs = m segs) :
    Tree env w a m' := by
  induction h generalizing m' with
  | @mk a m kid node _ ih =>
    refine .mk kid ⟨node.plain, node.handles, node.encodable, node.unsigned, node.clean, node.names,
      node.keys, fun segs hs hhead => (he segs hs).trans (node.files segs hs hhead), node.byHash,
      node.opens, node.linked, node.dirty⟩ fun n hn => ih n hn fun segs hs => he _ ?_
    exact List.forall_mem_cons.2 ⟨node.names n hn, hs⟩

/-- The counters for the size check are of no matter. -/
theorem Tree.counted (h : Tree env w a m) (len : Nat) (ops : UInt64) :
    Tree env w { a with lastSerializedLen := len, shardSizeCheckOps := ops } m := by
  obtain ⟨kid, node, below⟩ := h
  exact .mk kid ⟨⟨⟨node.plain.unsharded.shardLevel, node.plain.unsharded.shards,
    node.plain.unsharded.dirShardHandles⟩, node.plain.named⟩, node.handles, node.encodable,
    node.unsigned, node.clean, node.names, node.keys, node.files, node.byHash, node.opens,
    node.linked, node.dirty⟩ below

/-- **The entry of a file is set** in the directory that has it. -/
theorem Tree.setFile (h : Tree env w a m) {segs : List String} (hs : Proper segs)
    (hhead : (splitPath (joinPath segs)).1 ∉ a.state.dirs) {files : ExtTreeMap String FileRef}
    {f : Option FileRef}
    (hfiles : ∀ k : String, files[k]? = if k = joinPath segs then f else a.state.files[k]?) :
    Tree env w { a with state.files := files, dirty := true } (Function.update m segs f) := by
  obtain ⟨kid, node, below⟩ := h
  rw [node.head_not_mem hs] at hhead
  refine .mk kid ⟨⟨⟨node.plain.unsharded.shardLevel, node.plain.unsharded.shards,
    node.plain.unsharded.dirShardHandles⟩, node.plain.named⟩, node.handles, node.encodable,
    node.unsigned, fun hd => (by cases hd), node.names, fun k hk => ?_, fun segs' hs' hhead' => ?_,
    node.byHash, node.opens, node.linked, fun _ _ _ => rfl⟩ fun n hn => ?_
  · rw [ExtTreeMap.mem_iff_isSome_getElem?, hfiles] at hk
    by_cases hks : k = joinPath segs
    · exact ⟨segs, hs, hks⟩
    · rw [if_neg hks, ← ExtTreeMap.mem_iff_isSome_getElem?] at hk
      exact node.keys k hk
  · rw [hfiles]
    by_cases he : segs' = segs
    · rw [he, Function.update_self, if_pos rfl]
    · rw [Function.update_of_ne he, if_neg fun hj => he (joinPath_injective hs' hs hj)]
      exact node.files segs' hs' hhead'
  · have hsame : (fun rest => Function.update m segs f (n :: rest)) = fun rest => m (n :: rest) := by
      funext rest
      exact Function.update_of_ne (fun he => hhead n rest he.symm hn) _ _
    rw [hsame]
    exact below n hn

end Actor

end Fs
