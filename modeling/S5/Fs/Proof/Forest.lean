import S5.Fs.Waiting
import S5.Fs.Proof.Session
import S5.Fs.Proof.Acts

/-!
# The open directories

Every actor but the root's is held by the actor of its parent directory under its name, and what a
lookup finds below an actor is the part of one map below its place (`System.Stands`). Directories that
are not open are stored (`Shelved`). While messages are on their way a directory may not know yet that
a child has changed or saved itself; then it is going to be told.
-/

open Std

namespace Fs

open Actor (Encodable childContext Kept spawn Tree Node)

/-- The context without the handle of the parent. -/
def DirContext.erase (ctx : DirContext ActorId) : DirContext Unit where
  link := match ctx.link with
    | .registryKey publicKey signingKey => .registryKey publicKey signingKey
    | .localFile => .localFile
    | .dirHandle path _ hash shardLevel => .dirHandle path () hash shardLevel
  encryptionType := ctx.encryptionType
  keys := ctx.keys
  signingKey := ctx.signingKey

section
variable {β : Type} {env : Env β} {w w' : World β}

theorem load_erase (ctx : DirContext ActorId) : load env ctx.erase w = load env ctx w := by
  obtain ⟨link, encryptionType, keys, signingKey⟩ := ctx
  cases link <;> rfl

theorem erase_withNewRef (ctx : DirContext ActorId) (ref : DirRef) (n : String) (i : ActorId)
    (h : Hash) : (ctx.withNewRef ref (.dirHandle (.path n) i h 0)).erase =
      childContext ctx.erase n { ref with hash := h } := rfl

theorem Separate.drop {m : FileMap} (h : Separate m) {pre : List String} (hpre : Proper pre) :
    Separate fun segs => m (pre ++ segs) := by
  intro segs n rest hs hsome
  have hfar := h (pre ++ segs) n rest
    (by rw [List.append_assoc]; exact proper_append.2 ⟨hpre, hs⟩) hsome
  rwa [List.append_assoc] at hfar

/-! ## Directories that are not open -/

/-- The directory under a context is stored and holds the files of `m`. -/
def Shelved (env : Env β) (w : World β) (ctx : DirContext Unit) (m : FileMap) : Prop :=
  ∃ a, spawn env ctx w = .ok a ∧ Tree env w a m

theorem Shelved.grown {ctx : DirContext Unit} {m : FileMap} (h : Shelved env w ctx m)
    (hg : w.Grows w') (hroot : ctx.link = .localFile → w'.rootFile = w.rootFile) :
    Shelved env w' ctx m := by
  obtain ⟨a, ha, ht⟩ := h
  have hctx := (Actor.spawn_eq_ok ha).1
  exact ⟨a, Actor.spawn_grown hg hroot ha, ht.grown hg (by rwa [hctx])⟩

theorem Shelved.congr {ctx : DirContext Unit} {m m' : FileMap} (h : Shelved env w ctx m)
    (he : ∀ segs, Proper segs → m' segs = m segs) : Shelved env w ctx m' := by
  obtain ⟨a, ha, ht⟩ := h
  exact ⟨a, ha, ht.congr he⟩

/-! ## Open directories -/

/-- The directory `d` holds the files of `m`, apart from those below the children it has handles of. -/
structure Open (env : Env β) (w : World β) (ctx : DirContext Unit) (d : DirV1)
    (handles : ExtTreeMap String ActorId) (m : FileMap) : Prop where
  shardLevel : d.header.shardLevel = none
  shards : d.header.shards = none
  encodable : Encodable ctx
  unsigned : ctx.signingKey = none
  names : ∀ n ∈ d.dirs, n ≠ "" ∧ '/' ∉ n.toList
  keys : ProperKeys d
  files : ∀ segs, Proper segs → (∀ n rest, segs = n :: rest → n ∉ d.dirs) →
    m segs = d.files[joinPath segs]?
  byHash : ∀ (n : String) (ref : DirRef), d.dirs[n]? = some ref → ref.refTypeD = .blake3Hash
  shelved : ∀ (n : String) (ref : DirRef), d.dirs[n]? = some ref → handles[n]? = none →
    Shelved env w (childContext ctx n ref) fun segs => m (n :: segs)
  held : ∀ (n : String) (j : ActorId), handles[n]? = some j → n ∈ d.dirs

variable {ctx : DirContext Unit} {d : DirV1} {handles : ExtTreeMap String ActorId} {m m' : FileMap}

theorem Open.grown (h : Open env w ctx d handles m) (hg : w.Grows w') :
    Open env w' ctx d handles m :=
  { h with shelved := fun n ref href hn => (h.shelved n ref href hn).grown hg fun hl => by cases hl }

/-- Only the files that a directory or one below it that is not open holds matter. -/
theorem Open.congr (h : Open env w ctx d handles m)
    (hfiles : ∀ segs, Proper segs → (∀ n rest, segs = n :: rest → n ∉ d.dirs) → m' segs = m segs)
    (hbelow : ∀ n ∈ d.dirs, handles[n]? = none → ∀ segs, Proper segs → m' (n :: segs) = m (n :: segs)) :
    Open env w ctx d handles m' :=
  { h with
    files := fun segs hs hn => (hfiles segs hs hn).trans (h.files segs hs hn)
    shelved := fun n ref href hn => (h.shelved n ref href hn).congr
      (hbelow n (ExtTreeMap.mem_iff_isSome_getElem?.2 (by rw [href]; rfl)) hn) }

/-- A context with the same keys does as well. -/
theorem Open.of_context {ctx' : DirContext Unit} (h : Open env w ctx d handles m)
    (htype : ctx'.encryptionType = ctx.encryptionType) (hkeys : ctx'.keys = ctx.keys)
    (hsigning : ctx'.signingKey = ctx.signingKey) : Open env w ctx' d handles m := by
  obtain ⟨link, encryptionType, keys, signingKey⟩ := ctx
  obtain ⟨link', encryptionType', keys', signingKey'⟩ := ctx'
  obtain rfl : encryptionType' = encryptionType := htype
  obtain rfl : keys' = keys := hkeys
  obtain rfl : signingKey' = signingKey := hsigning
  exact ⟨h.shardLevel, h.shards, h.encodable, h.unsigned, h.names, h.keys, h.files, h.byHash,
    h.shelved, h.held⟩

/-- A stored directory is opened. -/
theorem Open.of_tree {a : Actor} (ht : Tree env w a m) (hh : a.dirHandles = []) :
    Open env w a.context a.state ∅ m := by
  obtain ⟨kid, node, below⟩ := ht
  refine ⟨node.plain.unsharded.shardLevel, node.plain.unsharded.shards, node.encodable, node.unsigned,
    node.names, node.keys, node.files, node.byHash, fun n ref href _ => ?_,
    fun n j hj => by simp at hj⟩
  have hn : n ∈ a.state.dirs := ExtTreeMap.mem_iff_isSome_getElem?.2 (by rw [href]; rfl)
  have hopen := node.opens n hn
  rw [Actor.openDir_closed hh href (node.byHash n ref href)] at hopen
  exact ⟨kid n, hopen, below n hn⟩

/-- A directory on the shelf, with its children on the shelf. -/
theorem Shelved.opened (h : Shelved env w ctx m) :
    ∃ d len, load env ctx w = .ok (d, len) ∧ Open env w ctx d ∅ m := by
  obtain ⟨a, ha, ht⟩ := h
  obtain ⟨hctx, -, len, hload⟩ := Actor.spawn_eq_ok ha
  rw [Actor.spawn_ok hload] at ha
  have hdir : Open env w a.context a.state ∅ m := .of_tree ht (by rw [← Except.ok.inj ha])
  rw [hctx] at hdir
  exact ⟨a.state, len, hload, hdir⟩

theorem Open.shelve (h : Open env w ctx d ∅ m) {len : Nat} (hload : load env ctx w = .ok (d, len)) :
    Shelved env w ctx m := by
  have hkids : ∀ n, ∃ c, ∀ ref, d.dirs[n]? = some ref →
      Actor.spawn env (childContext ctx n ref) w = .ok c ∧ Tree env w c fun segs => m (n :: segs) := by
    intro n
    cases hd : d.dirs[n]? with
    | none => exact ⟨⟨ctx, d, false, [], [], len, 0⟩, nofun⟩
    | some ref =>
      obtain ⟨c, hc⟩ := h.shelved n ref hd ExtTreeMap.getElem?_empty
      refine ⟨c, fun ref' href' => ?_⟩
      obtain rfl := Option.some.inj href'
      exact hc
  choose kid hkid using hkids
  have hmem : ∀ {n : String}, n ∈ d.dirs → ∃ ref, d.dirs[n]? = some ref := fun hn =>
    Option.isSome_iff_exists.1 (ExtTreeMap.mem_iff_isSome_getElem?.1 hn)
  refine ⟨⟨ctx, d, false, [], [], len, 0⟩, Actor.spawn_ok hload, .mk kid ?_ fun n hn => ?_⟩
  · refine ⟨⟨⟨h.shardLevel, h.shards, rfl⟩, nofun⟩, List.nodup_nil, h.encodable, h.unsigned,
      fun _ => ⟨len, hload⟩, h.names, h.keys, h.files, h.byHash, fun n hn => ?_, fun n ref href => ?_,
      fun n hn hk => ?_⟩
    · obtain ⟨ref, href⟩ := hmem hn
      rw [Actor.openDir_closed rfl href (h.byHash n ref href)]
      exact (hkid n ref href).1
    · exact (Actor.spawn_eq_ok (hkid n ref href).1).1
    · obtain ⟨ref, href⟩ := hmem hn
      rw [(Actor.spawn_eq_ok (hkid n ref href).1).2.1] at hk
      cases hk
  · obtain ⟨ref, href⟩ := hmem hn
    exact (hkid n ref href).2

/-- A directory whose open children can be found in the store as well. -/
theorem Open.close (h : Open env w ctx d handles m)
    (hkids : ∀ (n : String) (j : ActorId) ref, handles[n]? = some j → d.dirs[n]? = some ref →
      Shelved env w (childContext ctx n ref) fun segs => m (n :: segs)) : Open env w ctx d ∅ m :=
  { h with
    shelved := fun n ref href _ => by
      cases hj : handles[n]? with
      | none => exact h.shelved n ref href hj
      | some j => exact hkids n j ref hj href
    held := fun n j hj => by simp at hj }

/-! ## Changes of a directory -/

/-- The entry of a file is set in the directory that has it. -/
theorem Open.setFile (h : Open env w ctx d handles m) {segs : List String} (hs : Proper segs)
    (hhead : ∀ n rest, segs = n :: rest → n ∉ d.dirs) {files : ExtTreeMap String FileRef}
    {f : Option FileRef}
    (hfiles : ∀ k : String, files[k]? = if k = joinPath segs then f else d.files[k]?) :
    Open env w ctx { d with files } handles (Function.update m segs f) := by
  have hbelow : ∀ n ∈ d.dirs, (fun rest => Function.update m segs f (n :: rest)) =
      fun rest => m (n :: rest) := by
    intro n hn
    funext rest
    exact Function.update_of_ne (fun he => hhead n rest he.symm hn) _ _
  refine ⟨h.shardLevel, h.shards, h.encodable, h.unsigned, h.names, fun k hk => ?_,
    fun segs' hs' hhead' => ?_, h.byHash, fun n ref href hn => ?_, h.held⟩
  · have hk' : (files[k]?).isSome := ExtTreeMap.mem_iff_isSome_getElem?.1 hk
    rw [hfiles] at hk'
    by_cases hks : k = joinPath segs
    · exact ⟨segs, hs, hks⟩
    · rw [if_neg hks, ← ExtTreeMap.mem_iff_isSome_getElem?] at hk'
      exact h.keys k hk'
  · show _ = files[joinPath segs']?
    rw [hfiles]
    by_cases he : segs' = segs
    · rw [he, Function.update_self, if_pos rfl]
    · rw [Function.update_of_ne he, if_neg fun hj => he (Actor.joinPath_injective hs' hs hj)]
      exact h.files segs' hs' hhead'
  · rw [hbelow n (ExtTreeMap.mem_iff_isSome_getElem?.2 (by rw [href]; rfl))]
    exact h.shelved n ref href hn

/-- An open child is referred to by another hash. -/
theorem Open.rehash (h : Open env w ctx d handles m) {n : String} {ref : DirRef} {j : ActorId}
    (href : d.dirs[n]? = some ref) (hj : handles[n]? = some j) (k : Hash) :
    Open env w ctx { d with dirs := d.dirs.insert n { ref with hash := k } } handles m := by
  have hmem : ∀ x, x ∈ d.dirs.insert n { ref with hash := k } ↔ x ∈ d.dirs := by
    intro x
    rw [ExtTreeMap.mem_insert, Std.compare_eq_iff_eq]
    refine ⟨fun hx => hx.elim (fun he => ?_) id, .inr⟩
    rw [← he]
    exact h.held n j hj
  refine ⟨h.shardLevel, h.shards, h.encodable, h.unsigned, fun x hx => h.names x ((hmem x).1 hx), h.keys,
    fun segs hs hn => h.files segs hs fun x rest he hx => hn x rest he ((hmem x).2 hx),
    fun x r hr => ?_, fun x r hr hx => ?_, fun x i hi => (hmem x).2 (h.held x i hi)⟩
  · have hr' : (d.dirs.insert n { ref with hash := k })[x]? = some r := hr
    rw [ExtTreeMap.getElem?_insert_ite] at hr'
    split at hr'
    · obtain rfl := Option.some.inj hr'
      exact h.byHash n ref href
    · exact h.byHash x r hr'
  · have hr' : (d.dirs.insert n { ref with hash := k })[x]? = some r := hr
    rw [ExtTreeMap.getElem?_insert_ite, if_neg] at hr'
    · exact h.shelved x r hr' hx
    · rintro rfl
      rw [hj] at hx
      cases hx

/-- A child that is there is opened. -/
theorem Open.openChild (h : Open env w ctx d handles m) {n : String} (hn : n ∈ d.dirs) (j : ActorId) :
    Open env w ctx d (handles.insert n j) m := by
  refine { h with
    shelved := fun x ref href hx => h.shelved x ref href ?_
    held := fun x i hi => ?_ }
  · rw [ExtTreeMap.getElem?_insert_ite] at hx
    split at hx
    · cases hx
    · exact hx
  · rw [ExtTreeMap.getElem?_insert_ite] at hi
    split at hi
    · rename_i he
      exact he ▸ hn
    · exact h.held x i hi

/-- The files that go to a new directory. -/
theorem Open.extracted (h : Open env w ctx d handles m) {n : String} (hn : n ≠ "" ∧ '/' ∉ n.toList)
    (hnew : n ∉ d.dirs) (hnone : m [n] = none) {segs : List String} (hs : Proper segs) :
    (extractChildDirState d n).2.fileMap segs = m (n :: segs) := by
  have hhead : ∀ rest n' rest', n :: rest = n' :: rest' → n' ∉ d.dirs := by
    rintro rest n' rest' he
    obtain ⟨rfl, -⟩ := List.cons.inj he
    exact hnew
  have hfile := h.files [n] (List.forall_mem_cons.2 ⟨hn, fun _ hm => absurd hm List.not_mem_nil⟩)
    (hhead [])
  rw [joinPath_singleton, hnone] at hfile
  rw [ProperKeys.fileMap_extract h.keys hn.2 hfile.symm segs]
  exact (h.files (n :: segs) (List.forall_mem_cons.2 ⟨hn, hs⟩) (hhead segs)).symm

/-- A new child is made and opened. -/
theorem Open.newChild (h : Open env w ctx d handles m) {n : String} (hn : n ≠ "" ∧ '/' ∉ n.toList)
    (hnew : n ∉ d.dirs) {ref : DirRef} (ht : ref.refTypeD = .blake3Hash) (j : ActorId) :
    Open env w ctx { (extractChildDirState d n).1 with dirs := d.dirs.insert n ref } (handles.insert n j)
      m := by
  have hfiles : ∀ k : String, (extractChildDirState d n).1.files[k]? =
      if (stripDir n k).isSome then none else d.files[k]? :=
    fun k => extractChildDirState_fst_files ..
  have hmem : ∀ x, x ∈ d.dirs.insert n ref ↔ x = n ∨ x ∈ d.dirs := by
    intro x
    rw [ExtTreeMap.mem_insert, Std.compare_eq_iff_eq, eq_comm]
  refine ⟨h.shardLevel, h.shards, h.encodable, h.unsigned, fun x hx => ?_, fun k hk => ?_,
    fun segs hs hhead => ?_, fun x r hr => ?_, fun x r hr hx => ?_, fun x i hi => ?_⟩
  · rcases (hmem x).1 hx with rfl | hx
    · exact hn
    · exact h.names x hx
  · have hk' : ((extractChildDirState d n).1.files[k]?).isSome := ExtTreeMap.mem_iff_isSome_getElem?.1 hk
    rw [hfiles] at hk'
    split at hk'
    · cases hk'
    · exact h.keys k (ExtTreeMap.mem_iff_isSome_getElem?.2 hk')
  · have hstay : (stripDir n (joinPath segs)).isSome = false := by
      rw [Bool.eq_false_iff, Ne, Option.isSome_iff_exists]
      rintro ⟨rest, hrest⟩
      have hsplit := (stripDir_eq_some_iff hn.2).1 hrest
      cases segs with
      | nil =>
        rw [joinPath_nil] at hsplit
        cases hsplit
      | cons s segs =>
        have hfirst := splitPath_joinPath hs.cons.1.2 segs
        rw [Actor.splitPath_of_some hsplit] at hfirst
        exact hhead s segs rfl ((hmem s).2 (.inl (Prod.mk.inj hfirst).1.symm))
    show _ = (extractChildDirState d n).1.files[joinPath segs]?
    rw [hfiles, hstay, if_neg Bool.false_ne_true]
    exact h.files segs hs fun x rest he hx => hhead x rest he ((hmem x).2 (.inr hx))
  · have hr' : (d.dirs.insert n ref)[x]? = some r := hr
    rw [ExtTreeMap.getElem?_insert_ite] at hr'
    split at hr'
    · obtain rfl := Option.some.inj hr'
      exact ht
    · exact h.byHash x r hr'
  · have hr' : (d.dirs.insert n ref)[x]? = some r := hr
    rw [ExtTreeMap.getElem?_insert_ite] at hr' hx
    split at hx
    · cases hx
    · rename_i hne
      rw [if_neg hne] at hr'
      exact h.shelved x r hr' hx
  · rw [ExtTreeMap.getElem?_insert_ite] at hi
    split at hi
    · rename_i he
      exact (hmem x).2 (.inl he)
    · exact (hmem x).2 (.inr (h.held x i hi))

/-- A directory without children, open or not. -/
theorem Open.flat (hheader : d.header = .new) (hdirs : d.dirs = ∅) (henc : Encodable ctx)
    (hunsigned : ctx.signingKey = none) (hkeys : ProperKeys d) : Open env w ctx d ∅ d.fileMap := by
  have hnot : ∀ n : String, n ∉ d.dirs := by
    intro n
    rw [hdirs]
    exact ExtTreeMap.not_mem_empty
  refine ⟨by rw [hheader]; rfl, by rw [hheader]; rfl, henc, hunsigned, fun n hn => absurd hn (hnot n),
    hkeys, fun _ _ _ => rfl, fun n ref href => ?_, fun n ref href => ?_, fun n j hj => by simp at hj⟩
  · exact absurd (ExtTreeMap.mem_iff_isSome_getElem?.2 (by rw [href]; rfl)) (hnot n)
  · exact absurd (ExtTreeMap.mem_iff_isSome_getElem?.2 (by rw [href]; rfl)) (hnot n)

theorem promoted_erase [DecidableEq β] {ctx : DirContext ActorId} {d' : DirV1}
    (hp : Promoted env ctx w d d') : Promoted env ctx.erase w d d' := by
  induction hp with
  | mk sub magic header files names stored below ih =>
    exact .mk sub magic header files names stored ih

/-- A directory that promotion has worked on, before it is written. -/
theorem Open.ofPromoted [DecidableEq β] {ctx' : DirContext ActorId} {d' : DirV1}
    (hp : Promoted env ctx' w d d') (hheader : d.header = .new) (henc : Encodable ctx)
    (hunsigned : ctx.signingKey = none)
    (hplain : ctx'.encryptionType = none → ctx.encryptionType = none) (hkeys : ProperKeys d)
    (hsep : Separate d.fileMap) : Open env w ctx d' ∅ d.fileMap := by
  have ht : Tree env w ⟨ctx, d', true, [], [], 0, 0⟩ d.fileMap :=
    Tree.ofPromoted (promoted_erase hp) hheader rfl rfl rfl nofun henc hunsigned hplain hkeys hsep
  exact .of_tree ht rfl

end

/-! ## Actors -/

section
variable {β : Type} {env : Env β} {w w' : World β}

/-- What an actor's directory holds, whether it has started or not. -/
inductive Carries (env : Env β) (w : World β) (a : DirActor) (m : FileMap) : Prop where
  | unread (phase : a.phase = .starting none) (dirty : a.dirty = false) (handles : a.dirHandles = ∅)
      (shards : a.dirShardHandles = ∅) (shelved : Shelved env w a.context.erase m)
  | unsaved {d : DirV1} (phase : a.phase = .starting (some d)) (dirty : a.dirty = false)
      (handles : a.dirHandles = ∅) (shards : a.dirShardHandles = ∅)
      (dir : Open env w a.context.erase d ∅ m)
  /-- Without changes the directory is stored as it is. -/
  | running (phase : a.phase.isRunning = true) (shards : a.dirShardHandles = ∅)
      (dir : Open env w a.context.erase a.state a.dirHandles m)
      (clean : (∀ path stored, a.phase ≠ .executed path stored) → a.dirty = false →
        ∃ len, load env a.context w = .ok (a.state, len))

/-- The actor will hear that its child `n` has been saved under `h`. -/
def Told (a : DirActor) (n : String) (h : Hash) : Prop :=
  .updateDirRefHash (.path n) h ∈ a.mailbox ∨
    ∃ replies responder, a.phase = .saving replies responder ∧
      (.path n, some (.ok (some h))) ∈ replies

/-- `c` is the actor of the child directory `n` of the actor `a`, which is `i`. -/
structure Adopted (i : ActorId) (a : DirActor) (n : String) (c : DirActor) : Prop where
  linked : ∃ ref h, a.state.dirs[n]? = some ref ∧
    c.context = a.context.withNewRef ref (.dirHandle (.path n) i h 0) ∧
    (ref.hash = h ∨ Told a n h) ∧ ∀ k, .updateDirRefHash (.path n) k ∈ a.mailbox → k = h
  /-- A directory with changes below it counts as changed, or is going to. -/
  dirty : c.dirty = true → a.dirty = true ∨ .markAsDirty ∈ a.mailbox
  /-- Nothing has been heard of a child that has not started. -/
  unheard : ∀ d, c.phase = .starting d → ∀ k, .updateDirRefHash (.path n) k ∉ a.mailbox

variable {i : ActorId} {a a' c : DirActor} {n : String} {m m' : FileMap}

theorem Carries.grown (h : Carries env w a m) (hg : w.Grows w')
    (hroot : a.context.link = .localFile → w'.rootFile = w.rootFile) : Carries env w' a m := by
  have hlink : a.context.erase.link = .localFile → w'.rootFile = w.rootFile := by
    intro hl
    refine hroot ?_
    unfold DirContext.erase at hl
    cases hc : a.context.link with
    | localFile => rfl
    | registryKey k s =>
      rw [hc] at hl
      cases hl
    | dirHandle p j h l =>
      rw [hc] at hl
      cases hl
  cases h with
  | unread phase dirty handles shards shelved =>
    exact .unread phase dirty handles shards (shelved.grown hg hlink)
  | unsaved phase dirty handles shards dir => exact .unsaved phase dirty handles shards (dir.grown hg)
  | running phase shards dir clean =>
    refine .running phase shards (dir.grown hg) fun hp hd => ?_
    obtain ⟨len, hload⟩ := clean hp hd
    rw [← load_erase] at hload
    exact ⟨len, (load_erase a.context).symm.trans (Actor.load_grown hg hlink hload)⟩

theorem Carries.not_stopped (h : Carries env w a m) : System.isStopped a = false := by
  unfold System.isStopped
  cases h with
  | unread phase => rw [phase]
  | unsaved phase => rw [phase]
  | running phase => cases hp : a.phase <;> first | rfl | (rw [hp] at phase; cases phase)

/-- Messages do not open or close a directory. -/
theorem Carries.hear (h : Carries env w a m) (mailbox : List ActorMessage) :
    Carries env w { a with mailbox := mailbox } m := by
  cases h with
  | unread phase dirty handles shards shelved => exact .unread phase dirty handles shards shelved
  | unsaved phase dirty handles shards dir => exact .unsaved phase dirty handles shards dir
  | running phase shards dir clean => exact .running phase shards dir clean

/-- A child that is there is opened. -/
theorem Carries.openChild (h : Carries env w a m) (hrun : a.phase.isRunning = true)
    (hn : n ∈ a.state.dirs) (j : ActorId) :
    Carries env w { a with dirHandles := a.dirHandles.insert n j } m := by
  cases h with
  | unread phase =>
    rw [phase] at hrun
    cases hrun
  | unsaved phase =>
    rw [phase] at hrun
    cases hrun
  | running phase shards dir clean => exact .running phase shards (dir.openChild hn j) clean

/-- A directory whose actor runs. -/
theorem Carries.dir (h : Carries env w a m) (hrun : a.phase.isRunning = true) :
    a.dirShardHandles = ∅ ∧ Open env w a.context.erase a.state a.dirHandles m := by
  cases h with
  | unread phase =>
    rw [phase] at hrun
    cases hrun
  | unsaved phase =>
    rw [phase] at hrun
    cases hrun
  | running phase shards dir clean => exact ⟨shards, dir⟩

/-- A directory that counts as changed need not be stored. -/
theorem Carries.changed (hrun : a.phase.isRunning = true) (shards : a.dirShardHandles = ∅)
    (dir : Open env w a.context.erase a.state a.dirHandles m) (hd : a.dirty = true) :
    Carries env w a m :=
  .running hrun shards dir fun _ hc => by
    rw [hd] at hc
    cases hc

/-- An actor that goes on with the same directory. -/
theorem Carries.goesOn (h : Carries env w a m) (hrun : a.phase.isRunning = true)
    (hdone : ∀ path stored, a.phase ≠ .executed path stored) (hrun' : a'.phase.isRunning = true)
    (hctx : a'.context = a.context) (hstate : a'.state = a.state) (hdirty : a'.dirty = a.dirty)
    (hhandles : a'.dirHandles = a.dirHandles) (hshards : a'.dirShardHandles = a.dirShardHandles) :
    Carries env w a' m := by
  cases h with
  | unread phase =>
    rw [phase] at hrun
    cases hrun
  | unsaved phase =>
    rw [phase] at hrun
    cases hrun
  | running phase shards dir clean =>
    refine .running hrun' (hshards.trans shards) (by rwa [hctx, hstate, hhandles]) fun _ hd => ?_
    rw [hctx, hstate]
    exact clean hdone (hdirty ▸ hd)

/-- For its children it matters what the parent refers to, and what is on its way to it. -/
theorem Adopted.mono (h : Adopted i a n c) (hcontext : a'.context = a.context)
    (hdirs : a'.state.dirs[n]? = a.state.dirs[n]?) (hdirty : a.dirty = true → a'.dirty = true)
    (hmarked : .markAsDirty ∈ a.mailbox → a'.dirty = true ∨ .markAsDirty ∈ a'.mailbox)
    (htold : ∀ k, Told a n k → Told a' n k)
    (hnews : ∀ k, .updateDirRefHash (.path n) k ∈ a'.mailbox →
      .updateDirRefHash (.path n) k ∈ a.mailbox) : Adopted i a' n c := by
  obtain ⟨ref, k, href, hctx, hhash, hsaid⟩ := h.linked
  refine ⟨⟨ref, k, hdirs.trans href, by rw [hctx, hcontext], hhash.imp_right (htold k),
    fun k' hk' => hsaid k' (hnews k' hk')⟩, fun hd => ?_, fun d hs k hk => h.unheard d hs k (hnews k hk)⟩
  rcases h.dirty hd with hda | hma
  · exact .inl (hdirty hda)
  · exact hmarked hma

/-- Only what lookups find at the directory and below, up to its open children, matters. -/
theorem Carries.congr (h : Carries env w a m) (he : ∀ segs, Proper segs →
    (∀ n rest, segs = n :: rest → a.dirHandles[n]? = none) → m' segs = m segs) :
    Carries env w a m' := by
  have hnone : ∀ {segs : List String}, a.dirHandles = ∅ →
      ∀ n rest, segs = n :: rest → a.dirHandles[n]? = none := by
    intro segs hh n rest _
    rw [hh]
    exact ExtTreeMap.getElem?_empty
  cases h with
  | unread phase dirty handles shards shelved =>
    exact .unread phase dirty handles shards (shelved.congr fun segs hs => he segs hs (hnone handles))
  | unsaved phase dirty handles shards dir =>
    refine .unsaved phase dirty handles shards (dir.congr (fun segs hs _ => he segs hs (hnone handles))
      fun n hn _ segs hs => he _ (List.forall_mem_cons.2 ⟨dir.names n hn, hs⟩) (hnone handles))
  | running phase shards dir clean =>
    refine .running phase shards (dir.congr (fun segs hs hn => he segs hs fun n rest hseg => ?_)
      fun n hn hnone segs hs => he _ (List.forall_mem_cons.2 ⟨dir.names n hn, hs⟩) ?_) clean
    · cases hj : a.dirHandles[n]? with
      | none => rfl
      | some j => exact absurd (dir.held n j hj) (hn n rest hseg)
    · rintro n' rest hseg
      obtain ⟨rfl, -⟩ := List.cons.inj hseg
      exact hnone

end

/-! ## File systems -/

/-- The actor under each handle. -/
abbrev Forest := ActorId → Option DirActor

theorem Forest.update_cases {F : Forest} {i j : ActorId} {a c : DirActor}
    (h : Function.update F i (some a) j = some c) : (j = i ∧ c = a) ∨ (j ≠ i ∧ F j = some c) := by
  by_cases hj : j = i
  · rw [hj, Function.update_self] at h
    exact .inl ⟨hj, (Option.some.inj h).symm⟩
  · rw [Function.update_of_ne hj] at h
    exact .inr ⟨hj, h⟩

/-- The actors hang together under the root's, and hold the files of `m`. `place` gives the path of
each. -/
structure Stands {β : Type} (env : Env β) (w : World β) (F : Forest) (place : ActorId → List String)
    (m : FileMap) : Prop where
  root : ∃ a, F rootId = some a ∧ a.context = .localRoot ∧ ∀ d, a.phase ≠ .starting (some d)
  top : place rootId = []
  parent : ∀ (j : ActorId) c, F j = some c → j ≠ rootId →
    ∃ (i : ActorId) (a : DirActor) (n : String), F i = some a ∧ a.dirHandles[n]? = some j
  child : ∀ (i : ActorId) a (n : String) (j : ActorId), F i = some a → a.dirHandles[n]? = some j →
    i < j ∧ place j = place i ++ [n] ∧ ∃ c, F j = some c ∧ Adopted i a n c
  opened : ∀ (i : ActorId) a, F i = some a → Carries env w a fun segs => m (place i ++ segs)
  /-- Only children with a handle report hashes. -/
  news : ∀ (i : ActorId) a n k, F i = some a → .updateDirRefHash (.path n) k ∈ a.mailbox →
    ∃ j : ActorId, a.dirHandles[n]? = some j

namespace Stands

variable {β : Type} {env : Env β} {w w' : World β} {F : Forest} {place : ActorId → List String}
  {m m' : FileMap} {i j k p : ActorId} {a a' b b' c : DirActor} {n : String}

theorem place_injective (h : Stands env w F place m) (hc : F j = some c) (hb : F k = some b)
    (he : place j = place k) : j = k := by
  induction j using Nat.strongRecOn generalizing k c b with
  | ind j ih =>
    by_cases hj : j = rootId
    · by_cases hk : k = rootId
      · rw [hj, hk]
      · obtain ⟨i, a, n, ha, hn⟩ := h.parent k b hb hk
        rw [hj, h.top, (h.child i a n k ha hn).2.1] at he
        simp at he
    · obtain ⟨i, a, n, ha, hn⟩ := h.parent j c hc hj
      obtain ⟨hlt, hplace, -⟩ := h.child i a n j ha hn
      by_cases hk : k = rootId
      · rw [hk, h.top, hplace] at he
        simp at he
      · obtain ⟨i', a', n', ha', hn'⟩ := h.parent k b hb hk
        rw [hplace, (h.child i' a' n' k ha' hn').2.1] at he
        obtain ⟨hup, hname⟩ := List.append_inj' he rfl
        obtain rfl := ih i hlt ha ha' hup
        obtain rfl := Option.some.inj (ha.symm.trans ha')
        obtain rfl := List.singleton_inj.1 hname
        exact Option.some.inj (hn.symm.trans hn')

/-- An actor has one parent, under one name. -/
theorem handle_unique (h : Stands env w F place m) (ha : F i = some a) (hn : a.dirHandles[n]? = some j)
    {n' : String} (hb : F k = some b) (hn' : b.dirHandles[n']? = some j) : i = k ∧ n = n' := by
  obtain ⟨-, hplace, -⟩ := h.child i a n j ha hn
  obtain ⟨-, hplace', -⟩ := h.child k b n' j hb hn'
  rw [hplace] at hplace'
  obtain ⟨hup, hname⟩ := List.append_inj' hplace' rfl
  exact ⟨h.place_injective ha hb hup, List.singleton_inj.1 hname⟩

/-- The way down to an actor leads through handles. -/
theorem handle_of_place (h : Stands env w F place m) (ha : F i = some a) {rest : List String}
    (hb : F k = some b) (he : place k = place i ++ n :: rest) :
    ∃ j : ActorId, a.dirHandles[n]? = some j := by
  induction k using Nat.strongRecOn generalizing b rest with
  | ind k ih =>
    have hk : k ≠ rootId := by
      rintro rfl
      rw [h.top] at he
      simp at he
    obtain ⟨p, ap, x, hp, hx⟩ := h.parent k b hb hk
    obtain ⟨hlt, hplace, -⟩ := h.child p ap x k hp hx
    rw [hplace] at he
    rcases List.eq_nil_or_concat rest with rfl | ⟨rest', y, rfl⟩
    · obtain ⟨hup, hname⟩ := List.append_inj' he rfl
      obtain rfl := h.place_injective hp ha hup
      obtain rfl := Option.some.inj (hp.symm.trans ha)
      obtain rfl := List.singleton_inj.1 hname
      exact ⟨k, hx⟩
    · rw [List.concat_eq_append, ← List.cons_append, ← List.append_assoc] at he
      exact ih p hlt hp (List.append_inj' he rfl).1

/-- Only the way down to where a path is handled leads to the entry of the path. -/
theorem apart (h : Stands env w F place m) (hb : F k = some b) (hc : F j = some c) (hne : j ≠ k)
    {segs segs' : List String} (hhere : ∀ n rest, segs' = n :: rest → b.dirHandles[n]? = none)
    (hthere : ∀ n rest, segs = n :: rest → c.dirHandles[n]? = none) :
    place j ++ segs ≠ place k ++ segs' := by
  intro he
  rcases List.append_eq_append_iff.1 he with ⟨t, hk, hs⟩ | ⟨t, hj, hs⟩
  · cases t with
    | nil =>
      rw [List.append_nil] at hk
      exact hne (h.place_injective hc hb hk.symm)
    | cons n t =>
      obtain ⟨x, hx⟩ := h.handle_of_place hc hb hk
      rw [hthere n _ hs] at hx
      cases hx
  · cases t with
    | nil =>
      rw [List.append_nil] at hj
      exact hne (h.place_injective hc hb hj)
    | cons n t =>
      obtain ⟨x, hx⟩ := h.handle_of_place hb hc hj
      rw [hhere n _ hs] at hx
      cases hx

/-- Only the root's directory is in the root file. -/
theorem link_ne (h : Stands env w F place m) (hc : F j = some c) (hj : j ≠ rootId) :
    c.context.link ≠ .localFile := by
  obtain ⟨i, a, n, ha, hn⟩ := h.parent j c hc hj
  obtain ⟨-, -, c', hc', hh⟩ := h.child i a n j ha hn
  obtain rfl := Option.some.inj (hc.symm.trans hc')
  obtain ⟨ref, x, -, hctx, -⟩ := hh.linked
  rw [hctx]
  intro hl
  cases hl

theorem proper_place (h : Stands env w F place m) (ha : F i = some a) : Proper (place i) := by
  induction i using Nat.strongRecOn generalizing a with
  | ind i ih =>
    by_cases hi : i = rootId
    · rw [hi, h.top]
      exact fun _ hs => absurd hs List.not_mem_nil
    · obtain ⟨p, b, n, hb, hn⟩ := h.parent i a ha hi
      obtain ⟨hlt, hplace, -⟩ := h.child p b n i hb hn
      rw [hplace, proper_append]
      refine ⟨ih p hlt hb, fun x hx => ?_⟩
      obtain rfl := List.mem_singleton.1 hx
      cases h.opened p b hb with
      | unread phase dirty handles =>
        rw [handles] at hn
        simp at hn
      | unsaved phase dirty handles =>
        rw [handles] at hn
        simp at hn
      | running phase shards dir => exact dir.names x (dir.held x i hn)

/-! ### One actor changes -/

/-- The actor of a directory whose parent is there. -/
theorem adopted_mono_right (h : Adopted p b n a) (hctx : a'.context = a.context)
    (hdirty : a'.dirty = true → a.dirty = true ∨ b.dirty = true ∨ .markAsDirty ∈ b.mailbox)
    (hstart : ∀ d, a'.phase = .starting d → a.phase = .starting d) : Adopted p b n a' :=
  ⟨by rw [hctx]; exact h.linked, fun hd => (hdirty hd).elim h.dirty id,
    fun d hs => h.unheard d (hstart d hs)⟩

/-- The parent of an actor counts as changed, or is going to. -/
def Noted (F : Forest) (i : ActorId) : Prop :=
  ∀ (p : ActorId) b (n : String), F p = some b → b.dirHandles[n]? = some i →
    b.dirty = true ∨ .markAsDirty ∈ b.mailbox

/-- The actor `c` goes on as `c'`, with the same children. -/
structure Next (env : Env β) (w : World β) (m : FileMap) (c c' : DirActor) : Prop where
  dirHandles : c'.dirHandles = c.dirHandles
  opened : Carries env w c' m
  news : ∀ n k, .updateDirRefHash (.path n) k ∈ c'.mailbox → ∃ j : ActorId, c.dirHandles[n]? = some j

/-- **The actors go on**, and no handle changes. -/
theorem change {F' : Forest} (h : Stands env w F place m)
    (hroot : ∀ r, F' rootId = some r → r.context = .localRoot ∧ ∀ d, r.phase ≠ .starting (some d))
    (hnext : ∀ (j : ActorId) c, F j = some c → ∃ c', F' j = some c')
    (hprev : ∀ (j : ActorId) c', F' j = some c' →
      ∃ c, F j = some c ∧ Next env w' (fun segs => m' (place j ++ segs)) c c')
    (hadopted : ∀ (q : ActorId) d d' x (j : ActorId) c c', F q = some d → F' q = some d' →
      d.dirHandles[x]? = some j → F j = some c → F' j = some c' → Adopted q d x c → Adopted q d' x c') :
    Stands env w' F' place m' := by
  refine ⟨?_, h.top, fun j c' hc' hj => ?_, fun q d' x j hd' hx => ?_, fun j c' hc' => ?_,
    fun j c' x k hc' hm => ?_⟩
  · obtain ⟨r, hr, -⟩ := h.root
    obtain ⟨r', hr'⟩ := hnext rootId r hr
    exact ⟨r', hr', hroot r' hr'⟩
  · obtain ⟨c, hc, -⟩ := hprev j c' hc'
    obtain ⟨q, d, x, hd, hx⟩ := h.parent j c hc hj
    obtain ⟨d', hd'⟩ := hnext q d hd
    obtain ⟨d0, hd0, hnew⟩ := hprev q d' hd'
    obtain rfl := Option.some.inj (hd.symm.trans hd0)
    exact ⟨q, d', x, hd', by rw [hnew.dirHandles]; exact hx⟩
  · obtain ⟨d, hd, hnew⟩ := hprev q d' hd'
    rw [hnew.dirHandles] at hx
    obtain ⟨hlt, hplace, c, hc, hh⟩ := h.child q d x j hd hx
    obtain ⟨c', hc'⟩ := hnext j c hc
    exact ⟨hlt, hplace, c', hc', hadopted q d d' x j c c' hd hd' hx hc hc' hh⟩
  · obtain ⟨c, -, hnew⟩ := hprev j c' hc'
    exact hnew.opened
  · obtain ⟨c, -, hnew⟩ := hprev j c' hc'
    rw [hnew.dirHandles]
    exact hnew.news x k hm

/-- **An actor changes** what it holds or hears, and no handle. -/
theorem set (h : Stands env w F place m) (ha : F i = some a) (hhandles : a'.dirHandles = a.dirHandles)
    (hctx : a'.context = a.context) (hopened : Carries env w' a' fun segs => m' (place i ++ segs))
    (hg : w.Grows w') (hroot : i ≠ rootId → w'.rootFile = w.rootFile)
    (hothers : ∀ (j : ActorId) c, F j = some c → j ≠ i → ∀ segs, Proper segs →
      (∀ n rest, segs = n :: rest → c.dirHandles[n]? = none) → m' (place j ++ segs) = m (place j ++ segs))
    (hchild : ∀ n c (j : ActorId), a.dirHandles[n]? = some j → F j = some c → Adopted i a n c →
      Adopted i a' n c)
    (hdirty : a'.dirty = true → a.dirty = true ∨ Noted F i)
    (hstart : ∀ d, a'.phase = .starting d → a.phase = .starting d)
    (hnews : ∀ n k, .updateDirRefHash (.path n) k ∈ a'.mailbox →
      .updateDirRefHash (.path n) k ∈ a.mailbox) :
    Stands env w' (Function.update F i (some a')) place m' := by
  refine h.change (fun r hr => ?_) (fun j c hc => ?_) (fun j c' hc' => ?_)
    fun q d d' x j c c' hd hd' hx hc hc' hh => ?_
  · obtain ⟨r0, hr0, hrc, hrp⟩ := h.root
    rcases Forest.update_cases hr with ⟨hi, rfl⟩ | ⟨-, hr⟩
    · obtain rfl := Option.some.inj (ha.symm.trans (hi ▸ hr0))
      exact ⟨hctx.trans hrc, fun d hd => hrp d (hstart _ hd)⟩
    · obtain rfl := Option.some.inj (hr.symm.trans hr0)
      exact ⟨hrc, hrp⟩
  · by_cases hj : j = i
    · exact ⟨a', by rw [hj, Function.update_self]⟩
    · exact ⟨c, by rw [Function.update_of_ne hj, hc]⟩
  · rcases Forest.update_cases hc' with ⟨rfl, rfl⟩ | ⟨hj, hc⟩
    · exact ⟨a, ha, hhandles, hopened, fun x k hm => h.news j a x k ha (hnews x k hm)⟩
    · refine ⟨c', hc, rfl, ?_, fun x k hm => h.news j c' x k hc hm⟩
      refine ((h.opened j c' hc).grown hg fun hl => hroot fun hi => ?_).congr (hothers j c' hc hj)
      exact h.link_ne hc (hi ▸ hj) hl
  · rcases Forest.update_cases hd' with ⟨rfl, rfl⟩ | ⟨-, hd0⟩
    · obtain rfl := Option.some.inj (ha.symm.trans hd)
      rw [Function.update_of_ne (Nat.ne_of_gt (h.child q a x j ha hx).1)] at hc'
      obtain rfl := Option.some.inj (hc.symm.trans hc')
      exact hchild x c j hx hc hh
    · obtain rfl := Option.some.inj (hd.symm.trans hd0)
      rcases Forest.update_cases hc' with ⟨rfl, rfl⟩ | ⟨-, hc0⟩
      · obtain rfl := Option.some.inj (ha.symm.trans hc)
        exact adopted_mono_right hh hctx (fun hd' => (hdirty hd').imp_right fun hp => hp q d x hd hx) hstart
      · obtain rfl := Option.some.inj (hc.symm.trans hc0)
        exact hh

/-- **A child is opened** by an actor that may change otherwise. -/
theorem spawn (h : Stands env w F place m) (ha : F i = some a) (hk : F k = none) (hik : i < k)
    (hnone : a.dirHandles[n]? = none)
    (hhandles : ∀ x : String, a'.dirHandles[x]? = if x = n then some k else a.dirHandles[x]?)
    (hctx : a'.context = a.context) (hopened : Carries env w' a' fun segs => m (place i ++ segs))
    (hkept : Actor.Kept w w')
    (hchild : ∀ x c (j : ActorId), a.dirHandles[x]? = some j → Adopted i a x c → Adopted i a' x c)
    (hdirty : a'.dirty = true → a.dirty = true ∨ Noted F i)
    (hstart : ∀ d, a'.phase = .starting d → a.phase = .starting d)
    (hnews : ∀ n k, .updateDirRefHash (.path n) k ∈ a'.mailbox →
      .updateDirRefHash (.path n) k ∈ a.mailbox)
    (hnew : Carries env w' c fun segs => m (place i ++ n :: segs)) (hadopted : Adopted i a' n c)
    (hempty : c.dirHandles = ∅) (hquiet : c.mailbox = []) :
    Stands env w' (Function.update (Function.update F i (some a')) k (some c))
      (Function.update place k (place i ++ [n])) m := by
  have hki : i ≠ k := Nat.ne_of_lt hik
  have hself : Function.update (Function.update F i (some a')) k (some c) i = some a' := by
    rw [Function.update_of_ne hki, Function.update_self]
  have hnewk : Function.update (Function.update F i (some a')) k (some c) k = some c :=
    Function.update_self k _ _
  have hold : ∀ {j : ActorId}, j ≠ i → j ≠ k →
      Function.update (Function.update F i (some a')) k (some c) j = F j := by
    intro j hji hjk
    rw [Function.update_of_ne hjk, Function.update_of_ne hji]
  have hcases : ∀ {j : ActorId} {d : DirActor},
      Function.update (Function.update F i (some a')) k (some c) j = some d →
      (j = k ∧ d = c) ∨ (j = i ∧ d = a') ∨ (j ≠ i ∧ F j = some d) := by
    intro j d hd
    exact (Forest.update_cases hd).imp_right fun hd => Forest.update_cases hd.2
  have hsome : ∀ {j : ActorId} {b : DirActor}, F j = some b → j ≠ k := by
    rintro j b hb rfl
    rw [hk] at hb
    cases hb
  -- the handle of the new child is no other's
  have hkeep : ∀ {x : String} {j : ActorId}, a.dirHandles[x]? = some j → a'.dirHandles[x]? = some j := by
    intro x j hx
    rw [hhandles, if_neg, hx]
    rintro rfl
    rw [hnone] at hx
    cases hx
  have hplaces : ∀ {j : ActorId} {b : DirActor}, F j = some b →
      Function.update place k (place i ++ [n]) j = place j :=
    fun hb => Function.update_of_ne (hsome hb) _ _
  have hplacek : Function.update place k (place i ++ [n]) k = place i ++ [n] :=
    Function.update_self k _ _
  obtain ⟨r, hr, hrc, hrp⟩ := h.root
  refine ⟨?_, (hplaces hr).trans h.top, fun j d hd hj => ?_, fun q b x j hb hx => ?_, fun j d hd => ?_,
    fun j d x l hd hm => ?_⟩
  · by_cases hi : rootId = i
    · obtain rfl := Option.some.inj (ha.symm.trans (hi ▸ hr))
      exact ⟨a', by rw [hi, hself], hctx.trans hrc, fun d hd => hrp d (hstart _ hd)⟩
    · exact ⟨r, by rw [hold hi (hsome hr), hr], hrc, hrp⟩
  · obtain ⟨d', hd'⟩ | rfl : (∃ d', F j = some d') ∨ j = k := by
      rcases hcases hd with ⟨rfl, -⟩ | ⟨rfl, -⟩ | ⟨-, hd⟩
      · exact .inr rfl
      · exact .inl ⟨a, ha⟩
      · exact .inl ⟨d, hd⟩
    · obtain ⟨q, b, x, hb, hx⟩ := h.parent j d' hd' hj
      by_cases hq : q = i
      · obtain rfl := Option.some.inj (ha.symm.trans (hq ▸ hb))
        exact ⟨q, a', x, by rw [hq, hself], hkeep hx⟩
      · exact ⟨q, b, x, by rw [hold hq (hsome hb), hb], hx⟩
    · exact ⟨i, a', n, hself, by rw [hhandles, if_pos rfl]⟩
  · rcases hcases hb with ⟨-, rfl⟩ | ⟨rfl, rfl⟩ | ⟨-, hb0⟩
    · rw [hempty] at hx
      simp at hx
    · rw [hhandles] at hx
      by_cases hxn : x = n
      · rw [if_pos hxn] at hx
        obtain rfl := Option.some.inj hx
        refine ⟨hik, ?_, c, hnewk, hxn ▸ hadopted⟩
        rw [hplacek, hplaces ha, hxn]
      · rw [if_neg hxn] at hx
        obtain ⟨hlt, hplace, d, hd, hh⟩ := h.child q a x j ha hx
        refine ⟨hlt, by rw [hplaces hd, hplaces ha, hplace], d, ?_, hchild x d j hx hh⟩
        rw [hold (Nat.ne_of_gt hlt) (hsome hd), hd]
    · obtain ⟨hlt, hplace, d, hd, hh⟩ := h.child q b x j hb0 hx
      refine ⟨hlt, by rw [hplaces hd, hplaces hb0, hplace], ?_⟩
      by_cases hj : j = i
      · subst hj
        obtain rfl := Option.some.inj (ha.symm.trans hd)
        exact ⟨a', hself, adopted_mono_right hh hctx
          (fun hd => (hdirty hd).imp_right fun hp => hp q b x hb0 hx) hstart⟩
      · exact ⟨d, by rw [hold hj (hsome hd), hd], hh⟩
  · rcases hcases hd with ⟨rfl, rfl⟩ | ⟨rfl, rfl⟩ | ⟨-, hd⟩
    · rw [hplacek]
      simpa using hnew
    · rw [hplaces ha]
      exact hopened
    · rw [hplaces hd]
      exact (h.opened j d hd).grown hkept.grows fun _ => hkept.rootFile
  · rcases hcases hd with ⟨-, rfl⟩ | ⟨rfl, rfl⟩ | ⟨-, hd⟩
    · rw [hquiet] at hm
      cases hm
    · obtain ⟨y, hy⟩ := h.news j a x l ha (hnews x l hm)
      exact ⟨y, hkeep hy⟩
    · exact h.news j d x l hd hm

/-- **A child has been saved** under another hash, and its parent is told. -/
theorem saved (h : Stands env w F place m) (ha : F i = some a) (hb : F p = some b)
    (hn : b.dirHandles[n]? = some i) (hhandles : a'.dirHandles = a.dirHandles)
    (hbhandles : b'.dirHandles = b.dirHandles) (hbctx : b'.context = b.context)
    (hbdirty : b'.dirty = true → b.dirty = true)
    (hbstart : ∀ d, b'.phase = .starting d → b.phase = .starting d)
    (hopened : Carries env w' a' fun segs => m (place i ++ segs))
    (hbopened : Carries env w' b' fun segs => m (place p ++ segs)) (hkept : Actor.Kept w w')
    (hchild : ∀ x c (j : ActorId), a.dirHandles[x]? = some j → F j = some c → Adopted i a x c →
      Adopted i a' x c)
    (hadopted : Adopted p b' n a')
    (hsiblings : ∀ x c, x ≠ n → Adopted p b x c → Adopted p b' x c)
    (hnews : ∀ x k, .updateDirRefHash (.path x) k ∈ a'.mailbox →
      .updateDirRefHash (.path x) k ∈ a.mailbox)
    (hbnews : ∀ x k, .updateDirRefHash (.path x) k ∈ b'.mailbox →
      x = n ∨ .updateDirRefHash (.path x) k ∈ b.mailbox) :
    Stands env w' (Function.update (Function.update F p (some b')) i (some a')) place m := by
  have hlt := (h.child p b n i hb hn).1
  have hpi : p ≠ i := Nat.ne_of_lt hlt
  have hcases : ∀ {j : ActorId} {c c' : DirActor}, F j = some c →
      Function.update (Function.update F p (some b')) i (some a') j = some c' →
      (j = i ∧ c = a ∧ c' = a') ∨ (j = p ∧ c = b ∧ c' = b') ∨ (j ≠ i ∧ j ≠ p ∧ c = c') := by
    intro j c c' hc hc'
    rcases Forest.update_cases hc' with ⟨rfl, rfl⟩ | ⟨hji, hc'⟩
    · exact .inl ⟨rfl, Option.some.inj (hc.symm.trans ha), rfl⟩
    rcases Forest.update_cases hc' with ⟨rfl, rfl⟩ | ⟨hjp, hc'⟩
    · exact .inr (.inl ⟨rfl, Option.some.inj (hc.symm.trans hb), rfl⟩)
    · exact .inr (.inr ⟨hji, hjp, Option.some.inj (hc.symm.trans hc')⟩)
  have hprev : ∀ {j : ActorId} {c' : DirActor},
      Function.update (Function.update F p (some b')) i (some a') j = some c' → ∃ c, F j = some c := by
    intro j c' hc'
    rcases Forest.update_cases hc' with ⟨rfl, -⟩ | ⟨-, hc'⟩
    · exact ⟨a, ha⟩
    rcases Forest.update_cases hc' with ⟨rfl, -⟩ | ⟨-, hc'⟩
    · exact ⟨b, hb⟩
    · exact ⟨c', hc'⟩
  refine h.change (fun r hr => ?_) (fun j c hc => ?_) (fun j c' hc' => ?_)
    fun q d d' x j c c' hd hd' hx hc hc' hh => ?_
  · obtain ⟨r0, hr0, hrc, hrp⟩ := h.root
    rcases hcases hr0 hr with ⟨rfl, -⟩ | ⟨-, rfl, rfl⟩ | ⟨-, -, rfl⟩
    · exact absurd hlt (Nat.not_lt_zero p)
    · exact ⟨hbctx.trans hrc, fun d hd => hrp d (hbstart _ hd)⟩
    · exact ⟨hrc, hrp⟩
  · by_cases hji : j = i
    · exact ⟨a', by rw [hji, Function.update_self]⟩
    by_cases hjp : j = p
    · exact ⟨b', by rw [hjp, Function.update_of_ne hpi, Function.update_self]⟩
    · exact ⟨c, by rw [Function.update_of_ne hji, Function.update_of_ne hjp, hc]⟩
  · obtain ⟨c, hc⟩ := hprev hc'
    rcases hcases hc hc' with ⟨rfl, rfl, rfl⟩ | ⟨rfl, rfl, rfl⟩ | ⟨-, -, rfl⟩
    · exact ⟨c, hc, hhandles, hopened, fun x k hm => h.news j c x k hc (hnews x k hm)⟩
    · refine ⟨c, hc, hbhandles, hbopened, fun x k hm => ?_⟩
      rcases hbnews x k hm with rfl | hm
      · exact ⟨i, hn⟩
      · exact h.news j c x k hc hm
    · exact ⟨c, hc, rfl, (h.opened j c hc).grown hkept.grows fun _ => hkept.rootFile, fun x k hm =>
        h.news j c x k hc hm⟩
  · by_cases hji : j = i
    · subst hji
      obtain ⟨rfl, rfl⟩ := h.handle_unique hd hx hb hn
      rcases hcases hd hd' with ⟨he, -⟩ | ⟨-, -, rfl⟩ | ⟨-, hne, -⟩
      · exact absurd he hpi
      · rcases hcases hc hc' with ⟨-, -, rfl⟩ | ⟨he, -⟩ | ⟨hne, -⟩
        · exact hadopted
        · exact absurd he.symm hpi
        · exact absurd rfl hne
      · exact absurd rfl hne
    -- the child is the parent, or neither of the two
    have hchildren : ∀ {e : DirActor}, Adopted q e x c → Adopted q e x c' := by
      intro e he
      rcases hcases hc hc' with ⟨hne, -⟩ | ⟨-, rfl, rfl⟩ | ⟨-, -, rfl⟩
      · exact absurd hne hji
      · exact adopted_mono_right he hbctx (fun hd => .inl (hbdirty hd)) hbstart
      · exact he
    rcases hcases hd hd' with ⟨rfl, rfl, rfl⟩ | ⟨rfl, rfl, rfl⟩ | ⟨-, -, rfl⟩
    · exact hchildren (hchild x c j hx hc hh)
    · refine hchildren (hsiblings x c ?_ hh)
      rintro rfl
      exact hji (Option.some.inj (hx.symm.trans hn))
    · exact hchildren hh

/-! ### Messages -/

/-- A message that reports no hash reaches an actor. -/
theorem hear (h : Stands env w F place m) (hb : F p = some b) {msg : ActorMessage}
    (hmsg : ∀ path k, msg ≠ .updateDirRefHash path k) :
    Stands env w (Function.update F p (some { b with mailbox := b.mailbox ++ [msg] })) place m := by
  have hsame : ∀ {n k}, .updateDirRefHash (.path n) k ∈ b.mailbox ++ [msg] →
      .updateDirRefHash (.path n) k ∈ b.mailbox := fun {n k} hm =>
    (List.mem_append.1 hm).resolve_right fun hm => hmsg _ k (List.mem_singleton.1 hm).symm
  refine h.set hb rfl rfl ((h.opened p b hb).hear _) (.refl w) (fun _ => rfl) (fun _ _ _ _ _ _ _ => rfl)
    (fun n c _ _ _ hh => hh.mono rfl rfl id (fun hm => .inr (List.mem_append_left _ hm)) (fun k hk => ?_)
      fun k => hsame) .inl (fun _ => id) fun n k => hsame
  exact hk.imp_left (List.mem_append_left _)

/-- Mail without reports of children does not matter. -/
theorem remail (h : Stands env w F place m) (ha : F i = some a)
    (hold : ∀ n k, .updateDirRefHash (.path n) k ∉ a.mailbox) (hmark : .markAsDirty ∉ a.mailbox)
    {mailbox : List ActorMessage} (hnew : ∀ n k, .updateDirRefHash (.path n) k ∉ mailbox) :
    Stands env w (Function.update F i (some { a with mailbox := mailbox })) place m := by
  refine h.set ha rfl rfl ((h.opened i a ha).hear _) (.refl w) (fun _ => rfl) (fun _ _ _ _ _ _ _ => rfl)
    (fun n c _ _ _ hh => hh.mono rfl rfl id (fun hm => absurd hm hmark) (fun k hk => ?_)
      fun k hk => absurd hk (hnew n k)) .inl (fun _ => id) fun n k hk => absurd hk (hnew n k)
  exact hk.imp_left fun hm => absurd hm (hold n k)

/-! ### At rest -/

/-- **A directory without changes** is in the store with everything below it, if the actors are at
rest. -/
theorem shelved (h : Stands env w F place m) (hrest : ∀ (j : ActorId) c, F j = some c → c.atRest = true)
    (hbound : ∀ (j : ActorId) c, F j = some c → j < k) (ha : F i = some a) (hclean : a.dirty = false) :
    Shelved env w a.context.erase fun segs => m (place i ++ segs) := by
  -- the children have larger handles
  induction hn : k - i using Nat.strongRecOn generalizing i a with
  | ind x ih =>
    subst hn
    have hwait := hrest i a ha
    unfold DirActor.atRest at hwait
    rw [Bool.and_eq_true, List.isEmpty_iff] at hwait
    obtain ⟨hphase, hmail⟩ := hwait
    cases h.opened i a ha with
    | unread phase dirty handles shards shelved => exact shelved
    | unsaved phase dirty handles shards dir =>
      rw [phase] at hphase
      cases hphase
    | running phase shards dir clean =>
      have hidle : a.phase = .idle := by
        cases hp : a.phase with
        | idle => rfl
        | starting d =>
          rw [hp] at phase
          cases phase
        | _ =>
          rw [hp] at hphase
          cases hphase
      obtain ⟨len, hload⟩ := clean (fun path stored he => by rw [hidle] at he; cases he) hclean
      rw [← load_erase] at hload
      refine (dir.close fun n j ref hj href => ?_).shelve hload
      obtain ⟨hlt, hplace, c, hc, hh⟩ := h.child i a n j ha hj
      obtain ⟨ref', l, href', hctx, hhash, -⟩ := hh.linked
      obtain rfl := Option.some.inj (href.symm.trans href')
      have hsame : ref.hash = l := by
        rcases hhash with hhash | ht | ⟨replies, responder, hp, -⟩
        · exact hhash
        · rw [hmail] at ht
          cases ht
        · rw [hidle] at hp
          cases hp
      have hcc : c.dirty = false := by
        cases hd : c.dirty with
        | false => rfl
        | true =>
          rcases hh.dirty hd with hd | hd
          · rw [hclean] at hd
            cases hd
          · rw [hmail] at hd
            cases hd
      have hrec := ih (k - j) (Nat.sub_lt_sub_left (hbound i a ha) hlt) hc hcc rfl
      rw [hctx, erase_withNewRef, hplace] at hrec
      subst hsame
      simpa only [List.append_assoc, List.singleton_append] using hrec

end Stands

/-! ## Lookups -/

namespace System

variable {β : Type} {env : Env β} {s : System β} {place : ActorId → List String} {m : FileMap}

/-- The actors of a file system by their handles. -/
def forest (s : System β) : Forest := fun i => s.actors[i]?

section
variable {ctx : DirContext ActorId} {d : DirV1} {handles : ExtTreeMap String ActorId}
  {shards : ExtTreeMap UInt8 ActorId} {segs rest : List String} {n : String} {fuel : Nat}

theorem lookup_here (h : Open env s.world ctx.erase d handles m) (hs : Proper segs)
    (hn : ∀ n rest, segs = n :: rest → n ∉ d.dirs) :
    s.lookup env (fuel + 1) (.ok ⟨ctx, d, handles, shards⟩) (joinPath segs) = some (m segs) := by
  have hfirst : (splitPath (joinPath segs)).1 ∉ d.dirs := by
    rw [Actor.splitPath_fst_joinPath hs]
    cases segs with
    | nil => exact fun hm => (h.names "" hm).1 rfl
    | cons n rest => exact hn n rest rfl
  rw [lookup]
  simp only [route, h.shardLevel, routeDirect, if_neg hfirst, h.files segs hs hn]

theorem lookup_dir (h : Open env s.world ctx.erase d handles m) (hs : Proper (n :: rest))
    (hn : n ∈ d.dirs) : s.lookup env (fuel + 1) (.ok ⟨ctx, d, handles, shards⟩) (joinPath (n :: rest)) =
      s.lookup env fuel (s.dirView env ⟨ctx, d, handles, shards⟩ n) (joinPath rest) := by
  rw [lookup]
  simp only [route, h.shardLevel, routeDirect, splitPath_joinPath hs.cons.1.2, if_pos hn]

/-- A child that is not open is looked up in the store. -/
theorem dirView_stored (h : Open env s.world ctx.erase d handles m) {ref : DirRef}
    (hd : d.dirs[n]? = some ref) (hj : handles[n]? = none) :
    s.dirView env ⟨ctx, d, handles, shards⟩ n =
      s.storedView env (ctx.withNewRef ref (.dirHandle (.path n) rootId ref.hash 0)) := by
  unfold dirView
  simp only [hj, hd, h.byHash n ref hd, dirLink]

end

theorem lookup_stored {ctx : DirContext ActorId} (h : Shelved env s.world ctx.erase m)
    {segs : List String} (hs : Proper segs) {fuel : Nat} (hfuel : segs.length < fuel) :
    s.lookup env fuel (s.storedView env ctx) (joinPath segs) = some (m segs) := by
  induction segs generalizing ctx m fuel with
  | nil =>
    obtain ⟨d, len, hload, hdir⟩ := h.opened
    rw [load_erase] at hload
    obtain ⟨fuel, rfl⟩ : ∃ x, fuel = x + 1 := ⟨fuel - 1, by omega⟩
    have hview : s.storedView env ctx = .ok ⟨ctx, d, ∅, ∅⟩ := by
      simp only [storedView, hload, bind, Except.bind, pure, Except.pure]
    rw [hview, lookup_here hdir hs nofun]
  | cons n rest ih =>
    obtain ⟨d, len, hload, hdir⟩ := h.opened
    rw [load_erase] at hload
    obtain ⟨fuel, rfl⟩ : ∃ x, fuel = x + 1 := ⟨fuel - 1, by omega⟩
    have hview : s.storedView env ctx = .ok ⟨ctx, d, ∅, ∅⟩ := by
      simp only [storedView, hload, bind, Except.bind, pure, Except.pure]
    have hempty : (∅ : ExtTreeMap String ActorId)[n]? = none := ExtTreeMap.getElem?_empty
    rw [hview]
    by_cases hn : n ∈ d.dirs
    · obtain ⟨ref, href⟩ := Option.isSome_iff_exists.1 (ExtTreeMap.mem_iff_isSome_getElem?.1 hn)
      rw [lookup_dir hdir hs hn, dirView_stored hdir href hempty]
      have hchild := hdir.shelved n ref href hempty
      rw [← erase_withNewRef ctx ref n rootId ref.hash] at hchild
      exact ih hchild hs.cons.2 (by simpa using hfuel)
    · exact lookup_here hdir hs fun n' rest' he => by rw [← (List.cons.inj he).1]; exact hn

/-- A directory that is open, with its children. -/
theorem lookup_open {ctx : DirContext ActorId} {d : DirV1} {handles : ExtTreeMap String ActorId}
    {shards : ExtTreeMap UInt8 ActorId} (h : Open env s.world ctx.erase d handles m)
    {segs : List String} (hs : Proper segs) {fuel : Nat} (hfuel : segs.length < fuel)
    (hkids : ∀ n rest (j : ActorId), segs = n :: rest → handles[n]? = some j →
      ∀ fuel, rest.length < fuel → s.lookup env fuel (s.view env j) (joinPath rest) = some (m segs)) :
    s.lookup env fuel (.ok ⟨ctx, d, handles, shards⟩) (joinPath segs) = some (m segs) := by
  obtain ⟨fuel, rfl⟩ : ∃ x, fuel = x + 1 := ⟨fuel - 1, by omega⟩
  cases segs with
  | nil => exact lookup_here h hs nofun
  | cons n rest =>
    have hrest : rest.length < fuel := by simpa using hfuel
    by_cases hn : n ∈ d.dirs
    · rw [lookup_dir h hs hn]
      cases hj : handles[n]? with
      | some j =>
        have hview : s.dirView env ⟨ctx, d, handles, shards⟩ n = s.view env j := by
          unfold dirView
          simp only [hj]
        rw [hview]
        exact hkids n rest j rfl hj fuel hrest
      | none =>
        obtain ⟨ref, href⟩ := Option.isSome_iff_exists.1 (ExtTreeMap.mem_iff_isSome_getElem?.1 hn)
        have hchild := h.shelved n ref href hj
        rw [← erase_withNewRef ctx ref n rootId ref.hash] at hchild
        rw [dirView_stored h href hj]
        exact lookup_stored hchild hs.cons.2 hrest
    · exact lookup_here h hs fun n' rest' he => by rw [← (List.cons.inj he).1]; exact hn

/-- A directory, started or not, with its children. -/
theorem lookup_carries {i : ActorId} {a : DirActor} (ha : s.actors[i]? = some a)
    (h : Carries env s.world a m) {segs : List String} (hs : Proper segs) {fuel : Nat}
    (hfuel : segs.length < fuel)
    (hkids : ∀ n rest (j : ActorId), segs = n :: rest → a.dirHandles[n]? = some j →
      ∀ fuel, rest.length < fuel → s.lookup env fuel (s.view env j) (joinPath rest) = some (m segs)) :
    s.lookup env fuel (s.view env i) (joinPath segs) = some (m segs) := by
  unfold view
  rw [ha]
  cases h with
  | unread phase dirty handles shards shelved =>
    simp only [phase]
    exact lookup_stored shelved hs hfuel
  | unsaved phase dirty handles shards dir =>
    simp only [phase]
    exact lookup_open dir hs hfuel fun n' rest' j _ hj => by simp at hj
  | running phase shards dir clean =>
    have hopen := @lookup_open β env s _ a.context a.state a.dirHandles a.dirShardHandles dir segs hs fuel
      hfuel hkids
    cases hp : a.phase with
    | starting d =>
      rw [hp] at phase
      cases phase
    | stopped =>
      rw [hp] at phase
      cases phase
    | _ =>
      simp only [hp]
      exact hopen

/-- **Lookups find the files** that the actors hold. -/
theorem lookup_stands (h : Stands env s.world s.forest place m) {segs : List String} (hs : Proper segs)
    {i : ActorId} {a : DirActor} (ha : s.actors[i]? = some a) {fuel : Nat} (hfuel : segs.length < fuel) :
    s.lookup env fuel (s.view env i) (joinPath segs) = some (m (place i ++ segs)) := by
  induction segs generalizing i a fuel with
  | nil => exact lookup_carries ha (h.opened i a ha) hs hfuel nofun
  | cons n rest ih =>
    refine lookup_carries ha (h.opened i a ha) hs hfuel fun n' rest' j he hj fuel hfuel => ?_
    obtain ⟨rfl, rfl⟩ := List.cons.inj he
    obtain ⟨-, hplace, c, hc, -⟩ := h.child i a n j ha hj
    rw [ih hs.cons.2 hc hfuel, hplace, List.append_assoc, List.singleton_append]

theorem reaches_stands (h : Stands env s.world s.forest place m) {segs : List String} (hs : Proper segs) :
    s.Reaches env (joinPath segs) (m segs) := by
  obtain ⟨a, ha, -⟩ := h.root
  have hfound := lookup_stands h hs ha (Nat.lt_succ_self _)
  rw [h.top, List.nil_append] at hfound
  exact ⟨_, hfound⟩

end System

end Fs
