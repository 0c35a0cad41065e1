import S5.Fs.Proof.Tree

/-!
# Requests to a tree of directories

What a request does to the map is decided where it is handled (`tree_pathOp`): a file operation sets one
entry (`tree_fileOpStarted`), a new directory changes none (`tree_createDirStarted`), also if promotion
makes it (`tree_promotePrefix`, `Tree.ofPromoted`).
-/

open Std

namespace Fs

/-! ## Keys -/

section
variable {d : DirV1} {m : FileMap} {n : String}

/-- Every key is the path of a file. -/
def ProperKeys (d : DirV1) : Prop := ∀ k ∈ d.files, ∃ segs, Proper segs ∧ k = joinPath segs

/-- No file is at a path that is a directory of another. -/
def Separate (m : FileMap) : Prop :=
  ∀ segs n rest, Proper (segs ++ n :: rest) → (m segs).isSome → m (segs ++ n :: rest) = none

/-- The map of the files that a directory has itself. -/
def DirV1.fileMap (d : DirV1) : FileMap := fun segs => d.files[joinPath segs]?

theorem ProperKeys.below (h : ProperKeys d) (hn : '/' ∉ n.toList) {k : String}
    (hk : n ++ "/" ++ k ∈ d.files) : ∃ x rest, Proper (n :: x :: rest) ∧ k = joinPath (x :: rest) := by
  obtain ⟨segs, hs, he⟩ := h _ hk
  have hsplit : splitPath (n ++ "/" ++ k) = (n, k) := splitPath_append hn
  cases segs with
  | nil => exact absurd (he.trans joinPath_nil) (by simp)
  | cons s rest =>
    rw [he, splitPath_joinPath hs.cons.1.2] at hsplit
    obtain ⟨rfl, rfl⟩ := Prod.mk.inj hsplit
    cases rest with
    | nil =>
      have hlen := congrArg String.length he
      simp at hlen
    | cons x rest => exact ⟨x, rest, hs, rfl⟩

theorem ProperKeys.extract (h : ProperKeys d) (hn : '/' ∉ n.toList) :
    ProperKeys (extractChildDirState d n).2 := by
  intro k hk
  rw [ExtTreeMap.mem_iff_isSome_getElem?, extractChildDirState_snd_files,
    ← ExtTreeMap.mem_iff_isSome_getElem?] at hk
  obtain ⟨x, rest, hs, hk⟩ := h.below hn hk
  exact ⟨x :: rest, hs.cons.2, hk⟩

/-- What has moved to a new directory, unless the directory has a file of its own name. -/
theorem ProperKeys.fileMap_extract (h : ProperKeys d) (hn : '/' ∉ n.toList)
    (hnone : d.files[n]? = none) (segs : List String) :
    (extractChildDirState d n).2.fileMap segs = d.fileMap (n :: segs) := by
  unfold DirV1.fileMap
  rw [extractChildDirState_snd_files]
  cases segs with
  | nil =>
    rw [joinPath_nil, joinPath_singleton, hnone]
    refine ExtTreeMap.getElem?_eq_none fun hk => ?_
    obtain ⟨x, rest, hs, he⟩ := h.below hn hk
    exact List.cons_ne_nil x rest ((joinPath_eq_empty hs.cons.2).1 he.symm)
  | cons x rest => rw [joinPath_cons_cons]

/-- A large group is that of a directory, which has no file of its own name. -/
theorem ProperKeys.of_large (h : ProperKeys d) (hsep : Separate d.fileMap) (hl : d.isLarge n = true) :
    (n ≠ "" ∧ '/' ∉ n.toList) ∧ d.files[n]? = none := by
  obtain ⟨hslash, hcount⟩ := isLarge_iff.1 hl
  obtain ⟨k, hk⟩ := exists_key_of_large hcount
  obtain ⟨x, rest, hs, rfl⟩ := h.below hslash hk
  refine ⟨hs.cons.1, ?_⟩
  cases hf : d.files[n]? with
  | none => rfl
  | some f =>
    have hnone : d.fileMap ([n] ++ x :: rest) = none := by
      refine hsep [n] x rest hs ?_
      unfold DirV1.fileMap
      rw [joinPath_singleton, hf]
      rfl
    unfold DirV1.fileMap at hnone
    rw [List.singleton_append, joinPath_cons_cons] at hnone
    rw [ExtTreeMap.mem_iff_isSome_getElem?, hnone] at hk
    cases hk

theorem Separate.congr {m' : FileMap} (h : Separate m) (he : ∀ segs, Proper segs → m' segs = m segs) :
    Separate m' := by
  intro segs n rest hs hsome
  have hsegs := (proper_append.1 hs).1
  rw [he _ hs]
  rw [he _ hsegs] at hsome
  exact h segs n rest hs hsome

theorem Separate.below (h : Separate m) (hn : n ≠ "" ∧ '/' ∉ n.toList) :
    Separate fun rest => m (n :: rest) := fun segs x rest hs =>
  h (n :: segs) x rest (List.forall_mem_cons.2 ⟨hn, hs⟩)

/-- A file is put where no other is above or below it. -/
theorem Separate.put (h : Separate m) {segs : List String} (f : FileRef)
    (habove : ∀ pre n rest, segs = pre ++ n :: rest → m pre = none)
    (hbelow : ∀ n rest, Proper (segs ++ n :: rest) → m (segs ++ n :: rest) = none)
    (now : UInt32 × UInt32) : Separate (m.execute now (segs, .put f)) := by
  intro p n rest hs hp
  unfold FileMap.execute at hp ⊢
  by_cases he : p ++ n :: rest = segs
  · rw [Function.update_of_ne fun hp' => by simp [hp'] at he, habove p n rest he.symm] at hp
    cases hp
  · rw [Function.update_of_ne he]
    by_cases hp' : p = segs
    · rw [hp'] at hs ⊢
      exact hbelow n rest hs
    · rw [Function.update_of_ne hp'] at hp
      exact h p n rest hs hp

end

namespace Actor

variable {β : Type} {env : Env β} {w w' : World β} {a a' b : Actor} {m : FileMap}
  {kid : String → Actor}

/-! ## Requests on their way -/

/-- What a request makes of the map, given the path that it is for. -/
structure Local (upd : FileMap → List String → FileMap) : Prop where
  below : ∀ m n segs, (fun rest => upd m (n :: segs) (n :: rest)) = upd (fun rest => m (n :: rest)) segs
  others : ∀ m n segs segs', (∀ rest, segs' ≠ n :: rest) → upd m (n :: segs) segs' = m segs'

/-- The parent of a child that has been worked on. -/
theorem Node.hear (node : Node env w a kid m) {n : String} {c : Actor} (hn : n ∈ a.state.dirs)
    (hcc : c.context = (kid n).context) :
    ∃ ref, Replaces a ((a.keepDir n c).hear (kid n) c) n ref c := by
  obtain ⟨hctx, hstate, hhandles, hshards⟩ := hear_state (a.keepDir n c) (kid n) c
  obtain ⟨ref, href⟩ := Option.isSome_iff_exists.1 (ExtTreeMap.mem_iff_isSome_getElem?.1 hn)
  have hlinked := node.linked n ref href
  have hroot : isRoot (kid n).context = false := by
    rw [hlinked]
    rfl
  have hdirty : a.dirty = true ∨ c.dirty = true →
      ((a.keepDir n c).hear (kid n) c).dirty = true := by
    unfold Actor.hear
    rw [hroot]
    rintro (h | h)
    · split
      · rfl
      · exact h
    · cases hkd : (kid n).dirty with
      | false =>
        rw [h]
        rfl
      | true =>
        rw [Bool.not_true, Bool.and_false, Bool.false_and, if_neg Bool.false_ne_true]
        exact node.dirty n hn hkd
  have hclean : ∀ {x : Bool}, ((a.keepDir n c).hear (kid n) c).dirty = false →
      (x = true → a.dirty = true ∨ c.dirty = true) → x = false := by
    intro x hd hx
    cases x with
    | false => rfl
    | true =>
      rw [hdirty (hx rfl)] at hd
      cases hd
  refine ⟨ref, hctx, by rw [hstate]; rfl, hshards, fun name => ?_, ?_, fun name => ?_,
    fun k hk => by rwa [hstate] at hk, fun segs _ _ => by rw [hstate]; rfl,
    node.byHash n ref href, hcc.trans hlinked, fun hd => ⟨hclean hd .inl, hclean hd .inr, hstate⟩⟩
  · rw [hhandles, lookup_keepDir]
  · rw [hhandles]
    exact nodup_keepDir node.handles n c
  · rw [hstate]
    by_cases hname : name = n
    · rw [if_pos hname, hname]
      exact href
    · rw [if_neg hname]
      rfl

/-- **A request on its way**: what it does to the map is decided where it is handled. -/
theorem tree_pathOp [DecidableEq β]
    (act : World β → Actor → String → World β × Actor × Except String Unit)
    {upd : FileMap → List String → FileMap} (hupd : Local upd)
    (ok : Actor → FileMap → List String → Prop)
    (hop : ∀ {a c : Actor} {m : FileMap} {n : String} {segs : List String}, Proper (n :: segs) →
      n ∈ a.state.dirs → openDir env w [] a n = .ok c → ok a m (n :: segs) →
        ok c (fun rest => m (n :: rest)) segs)
    (hact : ∀ {b : Actor} {m : FileMap} {segs : List String}, Tree env w b m → Proper segs →
      (splitPath (joinPath segs)).1 ∉ b.state.dirs → ok b m segs →
        (act w b (joinPath segs)).1.collided = false →
          Kept w (act w b (joinPath segs)).1 ∧
          Tree env (act w b (joinPath segs)).1 (act w b (joinPath segs)).2.1 (upd m segs) ∧
          (act w b (joinPath segs)).2.1.context = b.context)
    {segs : List String} (hs : Proper segs) (ht : Tree env w a m) (hok : ok a m segs) {fuel : Nat}
    (hfuel : segs.length < fuel) :
    ∃ w' a' r, pathOp env act [] fuel w a (joinPath segs) = some (w', a', r) ∧
      (∃ b q, r = (act w b q).2.2) ∧
      (w'.collided = false → Kept w w' ∧ Tree env w' a' (upd m segs) ∧ a'.context = a.context) := by
  induction segs generalizing a m fuel with
  | nil =>
    obtain ⟨fuel, rfl⟩ : ∃ k, fuel = k + 1 := ⟨fuel - 1, by omega⟩
    have htree := ht
    obtain ⟨kid, node, below⟩ := ht
    have hd : (splitPath (joinPath [])).1 ∉ a.state.dirs :=
      (node.head_not_mem hs).2 fun n rest he => by cases he
    refine ⟨_, _, (act w a (joinPath [])).2.2, ?_, ⟨a, _, rfl⟩, hact htree hs hd hok⟩
    unfold pathOp
    rw [route_plain node.plain.unsharded, if_neg hd]
  | cons n segs ih =>
    obtain ⟨fuel, rfl⟩ : ∃ k, fuel = k + 1 := ⟨fuel - 1, by omega⟩
    have htreea := ht
    obtain ⟨kid, node, below⟩ := ht
    have hsplit := splitPath_joinPath hs.cons.1.2 segs
    by_cases hn : n ∈ a.state.dirs
    · have hchild := node.opens n hn
      have hfuel' : segs.length < fuel := by simpa using hfuel
      obtain ⟨w', c, r, hrun, hanswer, hres⟩ :=
        ih hs.cons.2 (below n hn) (hop hs hn hchild hok) hfuel'
      refine ⟨w', (a.keepDir n c).hear (kid n) c, r, ?_, hanswer, fun hc => ?_⟩
      · unfold pathOp
        rw [route_plain node.plain.unsharded, hsplit, if_pos hn]
        dsimp only
        rw [hchild]
        dsimp only
        rw [hrun]
        rfl
      · obtain ⟨hk, htree, hctx⟩ := hres hc
        obtain ⟨ref, hr⟩ := node.hear hn hctx
        refine ⟨hk, htreea.replaced hr hk hs.cons.1 ?_ (hupd.others m n segs), hr.context⟩
        rw [hupd.below]
        exact htree
    · have hd : (splitPath (joinPath (n :: segs))).1 ∉ a.state.dirs := by
        rw [hsplit]
        exact hn
      refine ⟨_, _, (act w a (joinPath (n :: segs))).2.2, ?_, ⟨a, _, rfl⟩, hact htreea hs hd hok⟩
      unfold pathOp
      rw [route_plain node.plain.unsharded, if_neg hd]

theorem local_execute (now : UInt32 × UInt32) (task : FileTask) :
    Local fun m segs => m.execute now (segs, task) where
  below m n segs := by
    funext rest
    simp only [FileMap.execute, Function.update_apply, List.cons_inj_right]
  others m n segs segs' h := Function.update_of_ne (h segs) _ _

theorem local_id : Local fun m _ => m := ⟨fun _ _ _ => rfl, fun _ _ _ _ _ => rfl⟩

/-! ## New directories -/

/-- The actor of a new directory is linked like that of one that is there. -/
theorem withNewRef_dirLink (ctx : DirContext Unit) (name : String) {ref : DirRef}
    (h : ref.refTypeD = .blake3Hash) :
    ctx.withNewRef ref (dirLink ctx () name ref) = childContext ctx name ref := by
  rw [dirLink, h]
  rfl

theorem spawn_eq_ok {ctx : DirContext Unit} (h : spawn env ctx w = .ok a) :
    a.context = ctx ∧ a.dirty = false ∧ ∃ len, load env ctx w = .ok (a.state, len) := by
  unfold spawn at h
  cases hl : load env ctx w with
  | error e =>
    rw [hl] at h
    cases h
  | ok x =>
    rw [hl] at h
    obtain rfl := Except.ok.inj h
    exact ⟨rfl, rfl, x.2, rfl⟩

/-- A directory without handles opens its children from the store. -/
theorem openDir_closed (hh : a.dirHandles = []) {n : String} {ref : DirRef}
    (hd : a.state.dirs[n]? = some ref) (ht : ref.refTypeD = .blake3Hash) :
    openDir env w [] a n = spawn env (childContext a.context n ref) w := by
  unfold openDir
  rw [hh, hd, List.lookup_nil]
  dsimp only
  rw [withNewRef_dirLink _ _ ht, ht]

/-- A directory without children holds its files. -/
theorem Tree.flat {d : DirV1} {ctx : DirContext Unit} (hheader : d.header = .new) (hdirs : d.dirs = ∅)
    (henc : Encodable ctx) (hunsigned : ctx.signingKey = none) (hkeys : ProperKeys d) {len : Nat}
    {ops : UInt64} (hload : ∃ len, load env ctx w = .ok (d, len)) :
    Tree env w ⟨ctx, d, false, [], [], len, ops⟩ d.fileMap := by
  have hnot : ∀ n : String, n ∉ d.dirs := by
    intro n
    rw [hdirs]
    exact ExtTreeMap.not_mem_empty
  refine .mk (fun _ => ⟨ctx, d, false, [], [], len, ops⟩) ⟨⟨⟨?_, ?_, rfl⟩, fun n c hc => by cases hc⟩,
    List.nodup_nil, henc, hunsigned, fun _ => hload, fun n hn => absurd hn (hnot n), hkeys,
    fun _ _ _ => rfl, fun n ref href => ?_, fun n hn => absurd hn (hnot n), fun n ref href => ?_,
    fun n hn => absurd hn (hnot n)⟩ fun n hn => absurd hn (hnot n)
  · rw [hheader]
    rfl
  · rw [hheader]
    rfl
  · exact absurd (ExtTreeMap.mem_iff_isSome_getElem?.2 (by rw [href]; rfl)) (hnot n)
  · exact absurd (ExtTreeMap.mem_iff_isSome_getElem?.2 (by rw [href]; rfl)) (hnot n)

/-- The context of a stored child is that of an encrypted directory, or both are plain. -/
theorem encodable_of_stored {ctx ctx' : DirContext Unit} {ref : DirRef} {d : DirV1}
    (h : Stored env ctx w ref d) (name : String)
    (hplain : ctx.encryptionType = none → ctx'.encryptionType = none) :
    Encodable (childContext ctx' name ref) := by
  obtain ⟨⟨now, href⟩, hkeys, -⟩ := h
  have henc : ref.encryptionType =
      if ctx.encryptionType.isSome then some encryptionTypeXChaCha20Poly1305 else none := by
    rw [href]
    rfl
  cases ht : ctx.encryptionType with
  | none =>
    rw [ht] at henc
    left
    simp only [childContext, DirContext.withNewRef, henc, hplain ht]
    rfl
  | some t =>
    rw [ht] at henc hkeys
    right
    obtain ⟨keys, hk, hslots⟩ := Option.map_eq_some_iff.1 hkeys
    have hslot : (keys[keySlot]?).isSome := by
      rw [← ExtTreeMap.mem_iff_isSome_getElem?, ← ExtTreeMap.mem_keys, hslots]
      exact List.mem_singleton_self _
    obtain ⟨key, hkey⟩ := Option.isSome_iff_exists.1 hslot
    refine ⟨by simp only [childContext, DirContext.withNewRef, henc]; rfl, ?_⟩
    have hfound := withNewRef_key ctx' (.dirHandle (.path name) () ref.hash 0) hk hkey
    rw [childContext, hfound]
    rfl

/-- **What promotion makes of a directory is a tree** of the same files. -/
theorem Tree.ofPromoted {ctx : DirContext Unit} {d d' : DirV1} (hp : Promoted env ctx w d d')
    (hheader : d.header = .new) (hstate : a.state = d') (hh : a.dirHandles = [])
    (hshards : a.dirShardHandles = [])
    (hclean : a.dirty = false → ∃ len, load env a.context w = .ok (a.state, len))
    (henc : Encodable a.context)
    (hunsigned : a.context.signingKey = none)
    (hplain : ctx.encryptionType = none → a.context.encryptionType = none) (hkeys : ProperKeys d)
    (hsep : Separate d.fileMap) : Tree env w a d.fileMap := by
  induction hp generalizing a with
  | @mk d d' sub magic header files names stored below ih =>
    subst hstate
    have hlarge : ∀ n : String, n ∈ a.state.dirs → (n ≠ "" ∧ '/' ∉ n.toList) ∧ d.files[n]? = none :=
      fun n hn => hkeys.of_large hsep ((names n).1 hn)
    have hopen : ∀ n, ∃ c, n ∈ a.state.dirs → openDir env w [] a n = .ok c ∧
        (∀ ref, a.state.dirs[n]? = some ref → c.context = childContext a.context n ref) ∧
        c.dirty = false ∧ Tree env w c fun segs => d.fileMap (n :: segs) := by
      intro n
      by_cases hn : n ∈ a.state.dirs
      · obtain ⟨ref, href⟩ := Option.isSome_iff_exists.1 (ExtTreeMap.mem_iff_isSome_getElem?.1 hn)
        have hstored := stored n ref href
        have htype : ref.refTypeD = .blake3Hash := by
          obtain ⟨⟨now, he⟩, -⟩ := hstored
          rw [he]
          rfl
        obtain ⟨c, ho, hcs, hch, hcsh, hcplain⟩ := openDir_stored [] hh href hstored hplain
        have hspawn := ho
        rw [openDir_closed hh href htype] at hspawn
        obtain ⟨hctx, hclean, hload⟩ := spawn_eq_ok hspawn
        obtain ⟨hname, hnone⟩ := hlarge n hn
        have hsame := hkeys.fileMap_extract hname.2 hnone
        refine ⟨c, fun _ => ⟨ho, fun ref' href' => ?_, hclean, ?_⟩⟩
        · obtain rfl := Option.some.inj (href.symm.trans href')
          exact hctx
        · have htree := ih n hn rfl hcs hch hcsh (fun _ => by rw [hctx]; exact hload)
            (by rw [hctx]; exact encodable_of_stored hstored n hplain)
            (by rw [hctx]; exact hunsigned) hcplain (hkeys.extract hname.2)
            ((hsep.below hname).congr fun segs _ => hsame segs)
          exact htree.congr fun segs _ => (hsame segs).symm
      · exact ⟨a, fun hn' => absurd hn' hn⟩
    choose kid hkid using hopen
    refine .mk kid ⟨⟨⟨?_, ?_, hshards⟩, fun n c hc => ?_⟩, ?_, henc, hunsigned, hclean,
      fun n hn => (hlarge n hn).1, fun k hk => ?_, fun segs hs hhead => ?_, fun n ref href => ?_,
      fun n hn => (hkid n hn).1, fun n ref href => ?_, fun n hn hk => ?_⟩ fun n hn => (hkid n hn).2.2.2
    · rw [header, hheader]
      rfl
    · rw [header, hheader]
      rfl
    · rw [hh] at hc
      cases hc
    · rw [hh]
      exact List.nodup_nil
    · rw [files, ExtTreeMap.mem_filter] at hk
      exact hkeys k hk.1
    · have hgroup : d.isGrouped (joinPath segs) = false := by
        rw [Bool.eq_false_iff, Ne, isGrouped_iff]
        rintro ⟨n, rest, he, hl⟩
        have hsplit : splitPath (n ++ "/" ++ rest) = (n, rest) := splitPath_append (isLarge_iff.1 hl).1
        cases segs with
        | nil => exact absurd he.symm (by simp)
        | cons s segs =>
          rw [← he, splitPath_joinPath hs.cons.1.2] at hsplit
          exact hhead s segs rfl ((names s).2 ((Prod.mk.inj hsplit).1 ▸ hl))
      rw [files, ExtTreeMap.getElem?_filter', hgroup]
      unfold DirV1.fileMap
      cases d.files[joinPath segs]? <;> simp [Option.filter]
    · obtain ⟨⟨now, he⟩, -⟩ := stored n ref href
      rw [he]
      rfl
    · have hn : n ∈ a.state.dirs := by
        rw [ExtTreeMap.mem_iff_isSome_getElem?, href]
        rfl
      exact (hkid n hn).2.1 ref href
    · rw [(hkid n hn).2.2.1] at hk
      cases hk

/-! ## The first turn of a new directory -/

/-- The context of a child directory that has been saved under `h`. -/
def savedAs (ctx : DirContext Unit) (name : String) (h : Hash) : DirContext Unit :=
  { ctx with link := .dirHandle (.path name) () h 0 }

variable [DecidableEq β]

/-- **A child directory that is written** is found again under the hash that it gets. -/
theorem persist_child {ι : Type} {ctx : DirContext ι} (law : env.Lawful)
    (hstore : ∀ n, env.storeFails n = false) (w : World β)
    {path : DirHandlePath} {parent : ι} {hash : Hash} {level : UInt8}
    (hlink : ctx.link = .dirHandle path parent hash level)
    (henc : ctx.encryptionType = none ∨
      ctx.encryptionType = some encryptionTypeXChaCha20Poly1305 ∧ (ctx.keys[keySlot]?).isSome)
    (d : DirV1) :
    ∃ w' h, persist env ctx d w =
        (w', .ok ({ ctx with link := .dirHandle path parent h level }, some h)) ∧
      Kept w w' ∧ (w'.collided = false →
        ∃ len, load env { ctx with link := .dirHandle path parent h level } w' = .ok (d, len)) := by
  have hencoded : ∃ w1 bytes, encodeStateBytes env ctx d w = (w1, .ok bytes) ∧
      decryptIfNeeded env ctx bytes = .ok (env.toBytes d) := by
    unfold encodeStateBytes decryptIfNeeded
    rcases henc with ht | ⟨ht, hkey⟩
    · rw [ht]
      exact ⟨w, _, rfl, rfl⟩
    · obtain ⟨key, hk⟩ := Option.isSome_iff_exists.1 hkey
      rw [ht, hk]
      refine ⟨w.next, _, rfl, ?_⟩
      simp only [law.decrypt_encrypt, if_true]
  obtain ⟨w1, bytes, he, hdec⟩ := hencoded
  have h1 : Kept w w1 := by
    have hg := grows_encodeStateBytes env ctx d w
    have hr := encodeStateBytes_rootFile env ctx d w
    rw [he] at hg hr
    exact ⟨hg, hr⟩
  have h2 : Kept w1 (w1.importBytes env bytes).1 :=
    ⟨World.grows_importBytes env w1 bytes, World.importBytes_rootFile env w1 bytes⟩
  have hok := (World.importBytes_turn env w1 bytes).2
  rw [hstore] at hok
  generalize himp : w1.importBytes env bytes = imp at h2 hok
  obtain ⟨w2, e | h⟩ := imp
  · cases hok
  · refine ⟨w2, h, ?_, h1.trans h2, fun hc => ⟨env.len (env.toBytes d), ?_⟩⟩
    · unfold persist
      rw [he]
      dsimp only
      rw [himp]
      simp only [hlink]
    · have hread : w2.readAsBytes h = .ok bytes := by
        unfold World.readAsBytes
        rw [(World.importBytes_ok himp hc).2]
      have hdec' : decryptIfNeeded env { ctx with link := .dirHandle path parent h level } bytes =
          .ok (env.toBytes d) := hdec
      simp only [load, hread, bind, Except.bind, hdec', decodeDir, law.fromBytes_toBytes]

/-- **A child that saves itself** is found again under the hash that it answers. -/
theorem save_child (law : env.Lawful) (hstore : ∀ n, env.storeFails n = false) (w : World β)
    {name : String} {ref : DirRef} (hctx : a.context = childContext b.context name ref)
    (henc : Encodable a.context) :
    ∃ w' h, save env w a = (w', { a with context := savedAs a.context name h }, .ok (some h)) ∧
      Kept w w' ∧ (w'.collided = false →
        ∃ len, load env (savedAs a.context name h) w' = .ok (a.state, len)) := by
  have hlink : a.context.link = .dirHandle (.path name) () ref.hash 0 := by rw [hctx]; rfl
  obtain ⟨w', h, hpersist, hk, hload⟩ := persist_child law hstore w hlink henc a.state
  refine ⟨w', h, ?_, hk, hload⟩
  unfold save
  rw [hpersist]
  rfl

omit [DecidableEq β] in
/-- The parent of a child that has been saved. -/
theorem replaces_hearHash {n : String} {ref : DirRef} {c : Actor}
    (hnodup : (a.dirHandles.map Prod.fst).Nodup) (h : Hash) (hd : a.state.dirs[n]? = some ref)
    (ht : ref.refTypeD = .blake3Hash)
    (hc : c.context = childContext a.context n { ref with hash := h }) (hdirty : c.dirty = false) :
    Replaces a ((a.keepDir n c).hearHash n h) n { ref with hash := h } c := by
  have hat : (a.keepDir n c).state.dirs[n]? = some ref := hd
  unfold hearHash
  rw [hat]
  dsimp only
  by_cases hh : ref.hash = h
  · rw [if_pos hh]
    subst hh
    refine ⟨rfl, rfl, rfl, lookup_keepDir a c n, nodup_keepDir hnodup n c, fun name => ?_,
      fun _ hk => hk, fun _ _ _ => rfl, ht, hc, fun had => ⟨had, hdirty, rfl⟩⟩
    by_cases hname : name = n
    · rw [if_pos hname, hname]
      exact hd
    · rw [if_neg hname]
      rfl
  · rw [if_neg hh]
    refine ⟨rfl, rfl, rfl, lookup_keepDir a c n, nodup_keepDir hnodup n c, fun name => ?_,
      fun _ hk => hk, fun _ _ _ => rfl, ht, hc, fun had => by cases had⟩
    exact ExtTreeMap.getElem?_insert_ite ..

/-- **The first turn of a new directory** changes no file. -/
theorem tree_startNew (law : env.Lawful) (hstore : ∀ n, env.storeFails n = false)
    (ht : Tree env w a m) (hk : Kept w w') {dir : String} (hdir : dir ≠ "" ∧ '/' ∉ dir.toList)
    {ref : DirRef} {d : DirV1}
    (hr : Replaces a b dir ref (ofNew (childContext a.context dir ref) d))
    (henc : Encodable (childContext a.context dir ref))
    (hnew : ∀ w'' h, Kept w' w'' → w''.collided = false →
      (∃ len, load env (savedAs (childContext a.context dir ref) dir h) w'' = .ok (d, len)) →
      Tree env w'' ⟨savedAs (childContext a.context dir ref) dir h, d, false, [], [], 0, 0⟩
        fun rest => m (dir :: rest))
    (hc : (startNew env w' b dir).1.collided = false) :
    Kept w (startNew env w' b dir).1 ∧ Tree env (startNew env w' b dir).1 (startNew env w' b dir).2 m ∧
      (startNew env w' b dir).2.context = a.context := by
  obtain ⟨w2, h, hsave, hk2, hload⟩ := save_child (b := a) law hstore w'
    (a := ofNew (childContext a.context dir ref) d) rfl henc
  have hlookup := hr.lookup dir
  rw [if_pos rfl] at hlookup
  have hrun : startNew env w' b dir = (w2, (b.keepDir dir
      { ofNew (childContext a.context dir ref) d with
        context := savedAs (childContext a.context dir ref) dir h }).hearHash dir h) := by
    unfold startNew
    rw [hlookup]
    dsimp only
    rw [hsave]
    rfl
  rw [hrun] at hc ⊢
  have hdirs := hr.dirs dir
  rw [if_pos rfl] at hdirs
  have hr' := hr.trans (replaces_hearHash hr.nodup h hdirs hr.byHash
    (c := { ofNew (childContext a.context dir ref) d with
      context := savedAs (childContext a.context dir ref) dir h })
    (by rw [hr.context]; rfl) rfl)
  exact ⟨hk.trans hk2, ht.replaced hr' (hk.trans hk2) hdir
    (hnew w2 h hk2 hc (hload hc)) fun _ _ => rfl, hr'.context⟩

/-! ## Making directories -/

/-- What the reference of a new directory is like. -/
structure NewRef (w : World β) (ctx : DirContext Unit) (enableEncryption : Bool) (w' : World β)
    (ref : DirRef) : Prop where
  kept : Kept w w'
  tick : w.tick ≤ w'.tick
  byHash : ref.refTypeD = .blake3Hash
  encodable : ∀ name, Encodable (childContext ctx name ref)
  plain : ctx.encryptionType = none → enableEncryption = false →
    ∀ name, (childContext ctx name ref).encryptionType = none

omit [DecidableEq β] in
theorem newRef_buildChildDirRef (env : Env β) {ctx : DirContext Unit} (henc : Encodable ctx)
    (hunsigned : ctx.signingKey = none) (enableEncryption : Bool) (w : World β) :
    NewRef w ctx enableEncryption (buildChildDirRef env ctx enableEncryption w).1
      (buildChildDirRef env ctx enableEncryption w).2 := by
  refine ⟨⟨w.grows_next.trans w.next.grows_next, rfl⟩, Nat.le_add_right _ 2, ?_, fun name => ?_,
    fun hplain henable name => ?_⟩
  · simp [buildChildDirRef, hunsigned, DirRef.refTypeD]
  · cases enableEncryption with
    | true =>
      right
      refine ⟨rfl, ?_⟩
      have hfound := withNewRef_key ctx (.dirHandle (.path name) ()
        (buildChildDirRef env ctx true w).2.hash 0) (d := (buildChildDirRef env ctx true w).2) rfl
        (ExtTreeMap.getElem?_insert_self (k := keySlot) (v := env.random w.tick))
      rw [childContext, hfound]
      rfl
    | false => exact henc
  · subst henable
    exact hplain

omit [DecidableEq β] in
/-- A directory with a new child. -/
theorem replaces_new {dir : String} {ref : DirRef} {d : DirV1} (node : Node env w a kid m)
    (hnew : dir ∉ a.state.dirs) (hdir : '/' ∉ dir.toList) (ht : ref.refTypeD = .blake3Hash)
    (hcontext : b.context = a.context)
    (hstate : b.state = { (extractChildDirState a.state dir).1 with
      dirs := a.state.dirs.insert dir ref })
    (hhandles : b.dirHandles = (dir, ofNew (childContext a.context dir ref) d) :: a.dirHandles)
    (hshards : b.dirShardHandles = a.dirShardHandles) (hdirty : b.dirty = true) :
    Replaces a b dir ref (ofNew (childContext a.context dir ref) d) := by
  have hfiles : ∀ k : String, b.state.files[k]? =
      if (stripDir dir k).isSome then none else a.state.files[k]? := by
    intro k
    rw [hstate, ← extractChildDirState_fst_files]
  refine ⟨hcontext, by rw [hstate]; rfl, hshards, fun name => ?_, ?_, fun name => ?_, fun k hk => ?_,
    fun segs hs hne => ?_, ht, rfl, fun hd => by rw [hdirty] at hd; cases hd⟩
  · rw [hhandles, List.lookup_cons]
    by_cases hname : name = dir
    · rw [if_pos hname, beq_iff_eq.2 hname]
    · rw [if_neg hname, beq_eq_false_iff_ne.2 hname]
  · rw [hhandles]
    refine List.nodup_cons.2 ⟨fun hmem => ?_, node.handles⟩
    obtain ⟨x, hx, hxdir⟩ := List.mem_map.1 hmem
    have hsome : (a.dirHandles.lookup x.1).isSome := by
      rw [List.lookup_isSome_iff]
      exact ⟨x, hx, beq_self_eq_true x.1⟩
    obtain ⟨c, hc⟩ := Option.isSome_iff_exists.1 hsome
    have hmem := node.plain.named x.1 c hc
    rw [hxdir] at hmem
    exact hnew hmem
  · rw [hstate]
    exact ExtTreeMap.getElem?_insert_ite ..
  · rw [ExtTreeMap.mem_iff_isSome_getElem?, hfiles] at hk
    rw [ExtTreeMap.mem_iff_isSome_getElem?]
    cases hs : (stripDir dir k).isSome with
    | true =>
      rw [hs] at hk
      cases hk
    | false =>
      rw [hs] at hk
      exact hk
  · rw [hfiles, if_neg]
    rw [Option.isSome_iff_exists]
    rintro ⟨rest, hrest⟩
    have hsplit := (stripDir_eq_some_iff hdir).1 hrest
    cases segs with
    | nil =>
      rw [joinPath_nil] at hsplit
      cases hsplit
    | cons s segs =>
      have hfirst := splitPath_joinPath hs.cons.1.2 segs
      rw [splitPath_of_some hsplit] at hfirst
      exact hne segs (by rw [(Prod.mk.inj hfirst).1])

omit [DecidableEq β] in
/-- The files that go to a new directory. -/
theorem Node.extract (node : Node env w a kid m) {n : String} (hn : n ≠ "" ∧ '/' ∉ n.toList)
    (hnew : n ∉ a.state.dirs) (hnone : m [n] = none) {segs : List String} (hs : Proper segs) :
    (extractChildDirState a.state n).2.fileMap segs = m (n :: segs) := by
  have hhead : ∀ rest n' rest', n :: rest = n' :: rest' → n' ∉ a.state.dirs := by
    rintro rest n' rest' he
    obtain ⟨rfl, -⟩ := List.cons.inj he
    exact hnew
  have hfile := node.files [n] (List.forall_mem_cons.2 ⟨hn, fun _ hm => absurd hm List.not_mem_nil⟩)
    (hhead [])
  rw [joinPath_singleton, hnone] at hfile
  rw [ProperKeys.fileMap_extract node.keys hn.2 hfile.symm segs]
  exact (node.files (n :: segs) (List.forall_mem_cons.2 ⟨hn, hs⟩) (hhead segs)).symm

/-- **`CreateDir` where it is handled** changes no file. -/
theorem tree_createDirStarted (law : env.Lawful) (hstore : ∀ n, env.storeFails n = false)
    (ht : Tree env w a m) {n : String} (hn : n ≠ "" ∧ '/' ∉ n.toList) (hnew : n ∉ a.state.dirs)
    (hnone : m [n] = none) (enableEncryption : Bool)
    (hc : (createDirStarted env enableEncryption w a n).1.collided = false) :
    Kept w (createDirStarted env enableEncryption w a n).1 ∧
      Tree env (createDirStarted env enableEncryption w a n).1
        (createDirStarted env enableEncryption w a n).2.1 m ∧
      (createDirStarted env enableEncryption w a n).2.1.context = a.context := by
  have htree := ht
  obtain ⟨kid, node, below⟩ := ht
  have href := newRef_buildChildDirRef env node.encodable node.unsigned enableEncryption w
  have hlookup : a.dirHandles.lookup n = none := by
    cases hl : a.dirHandles.lookup n with
    | none => rfl
    | some c => exact absurd (node.plain.named n c hl) hnew
  generalize hb : buildChildDirRef env a.context enableEncryption w = built at href
  obtain ⟨w1, ref⟩ := built
  have hopen := openNewDir_built (a := { a with state := { (extractChildDirState a.state n).1 with
    dirs := a.state.dirs.insert n ref } }) 
    (show FreshPointers env [] w from fun _ _ => rfl) n
    (extractChildDirState a.state n).2 hb hlookup ExtTreeMap.getElem?_insert_self
  rw [withNewRef_dirLink _ _ href.byHash] at hopen
  generalize hb' : ({ a with
    state := { (extractChildDirState a.state n).1 with dirs := a.state.dirs.insert n ref }
    dirHandles := (n, ofNew (childContext a.context n ref) (extractChildDirState a.state n).2) ::
      a.dirHandles } : Actor).markAsDirty = b
  have hr : Replaces a b n ref (ofNew (childContext a.context n ref)
      (extractChildDirState a.state n).2) := by
    subst hb'
    exact replaces_new node hnew hn.2 href.byHash rfl rfl rfl rfl rfl
  have hat : createDirAt env [] enableEncryption w a n = (w1, b, .ok ()) := by
    unfold createDirAt
    rw [if_neg hnew]
    dsimp only
    rw [hb]
    dsimp only
    rw [← hb']
    simp only [extractChildDirState] at hopen ⊢
    rw [hopen]
  have hrun : createDirStarted env enableEncryption w a n =
      ((startNew env w1 b n).1, (startNew env w1 b n).2, .ok ()) := by
    unfold createDirStarted andStart
    rw [hat]
    dsimp only
    rw [if_pos ⟨hnew, hr.mem_dirs.2 (.inl rfl)⟩]
  rw [hrun] at hc ⊢
  refine tree_startNew law hstore htree href.kept hn hr (href.encodable n) (fun w'' h _ _ hl => ?_) hc
  have henc : Encodable (savedAs (childContext a.context n ref) n h) := href.encodable n
  have hflat : Tree env w'' ⟨savedAs (childContext a.context n ref) n h,
      (extractChildDirState a.state n).2, false, [], [], 0, 0⟩
      (extractChildDirState a.state n).2.fileMap :=
    Tree.flat rfl rfl henc node.unsigned (ProperKeys.extract node.keys hn.2) hl
  exact hflat.congr fun segs hs => (node.extract hn hnew hnone hs).symm

/-- **Promotion where it is handled** changes no file. The directory is marked dirty afterwards. -/
theorem tree_promotePrefix (law : env.Lawful) (hstore : ∀ n, env.storeFails n = false)
    {order : GroupOrder} (horder : ∀ t d groups, (order t d groups).Perm groups)
    (ht : Tree env w { a with dirty := true } m) (hsep : Separate m) {dir : String}
    (hdir : '/' ∉ dir.toList) (hnew : dir ∉ a.state.dirs)
    (hlarge : promotionThreshold < countBelow a.state dir) :
    ∃ w1 b, promotePrefix env order [] w a dir = (w1, b, .ok ()) ∧ dir ∈ b.state.dirs ∧
      ((startNew env w1 b.markAsDirty dir).1.collided = false →
        Kept w (startNew env w1 b.markAsDirty dir).1 ∧
        Tree env (startNew env w1 b.markAsDirty dir).1 (startNew env w1 b.markAsDirty dir).2 m ∧
        (startNew env w1 b.markAsDirty dir).2.context = a.context) := by
  have htree := ht
  obtain ⟨kid, node, below⟩ := ht
  -- the large group is that of a directory, without a file of its own name
  obtain ⟨k, hk⟩ := exists_key_of_large hlarge
  obtain ⟨x, rest, hproper, rfl⟩ := ProperKeys.below node.keys hdir hk
  have hdir' := hproper.cons.1
  have hnone : m [dir] = none := by
    have hfile := node.files (dir :: x :: rest) hproper (by
      rintro n' rest' he
      obtain ⟨rfl, -⟩ := List.cons.inj he
      exact hnew)
    rw [joinPath_cons_cons] at hfile
    have hsome : (m (dir :: x :: rest)).isSome := by
      rw [hfile, ← ExtTreeMap.mem_iff_isSome_getElem?]
      exact hk
    cases hm : m [dir] with
    | none => rfl
    | some f =>
      have h := hsep [dir] x rest hproper (by rw [hm]; rfl)
      rw [List.singleton_append] at h
      rw [h] at hsome
      cases hsome
  have hmoved : ∀ segs, Proper segs →
      (extractChildDirState a.state dir).2.fileMap segs = m (dir :: segs) :=
    fun _ hs => node.extract hdir' hnew hnone hs
  -- the run
  have href := newRef_buildChildDirRef env node.encodable node.unsigned
    a.context.encryptionType.isSome w
  have hlookup : a.dirHandles.lookup dir = none := by
    cases hl : a.dirHandles.lookup dir with
    | none => rfl
    | some c => exact absurd (node.plain.named dir c hl) hnew
  generalize hb : buildChildDirRef env a.context a.context.encryptionType.isSome w = built at href
  obtain ⟨w1, ref⟩ := built
  have hok : ∀ w' e, optimizeDirStructureIn env order a.context (extractChildDirState a.state dir).2 w1 =
      (w', .error e) → FailedBetween env w1 w' :=
    fun w' e => failed_optimizeFrom order a.context _ _ _ _ _
  have hon : w1.Onward
      (optimizeDirStructureIn env order a.context (extractChildDirState a.state dir).2 w1).1 :=
    onward_optimizeFrom (fun _ w => .refl w) order a.context _ _ _
  have hprom : ∀ w' r, optimizeDirStructureIn env order a.context (extractChildDirState a.state dir).2 w1 =
      (w', .ok r) → w'.collided = false →
      Promoted env a.context w' (extractChildDirState a.state dir).2 r :=
    fun _ _ => promoted_optimizeDirStructureIn law horder rfl
  generalize hopt : optimizeDirStructureIn env order a.context (extractChildDirState a.state dir).2 w1 =
    res at hok hon hprom
  obtain ⟨w2, e | optimized⟩ := res
  · obtain ⟨t, -, -, hfails⟩ := hok w2 e rfl
    rw [hstore] at hfails
    cases hfails
  have hk : Kept w w2 := href.kept.trans ⟨hon.grows, hon.rootFile⟩
  have hopen := openNewDir_built (a := { a with state := { (extractChildDirState a.state dir).1 with
    dirs := a.state.dirs.insert dir ref } }) 
    (show FreshPointers env [] w from fun _ _ => rfl) dir
    optimized hb hlookup ExtTreeMap.getElem?_insert_self
  rw [withNewRef_dirLink _ _ href.byHash] at hopen
  generalize hb' : ({ a with
    state := { (extractChildDirState a.state dir).1 with dirs := a.state.dirs.insert dir ref }
    dirHandles := (dir, ofNew (childContext a.context dir ref) optimized) ::
      a.dirHandles } : Actor) = b
  have hr : Replaces { a with dirty := true } b.markAsDirty dir ref
      (ofNew (childContext a.context dir ref) optimized) := by
    subst hb'
    exact replaces_new node hnew hdir href.byHash rfl rfl rfl rfl rfl
  have hat : promotePrefix env order [] w a dir = (w2, b, .ok ()) := by
    unfold promotePrefix
    rw [if_neg hnew]
    dsimp only
    rw [hb]
    dsimp only
    rw [hopt]
    dsimp only
    rw [← hb']
    simp only [extractChildDirState] at hopen ⊢
    rw [hopen]
  refine ⟨w2, b, hat, hr.mem_dirs.2 (.inl rfl), fun hc => ?_⟩
  refine tree_startNew law hstore htree hk hdir' hr (href.encodable dir) (fun w'' h hk' hc' hl => ?_) hc
  have hp := (hprom w2 optimized rfl (hk'.grows.collided hc')).mono hk'.grows
  have henc : Encodable (savedAs (childContext a.context dir ref) dir h) := href.encodable dir
  have hsub : Separate (extractChildDirState a.state dir).2.fileMap :=
    (hsep.below hdir').congr hmoved
  have hplain : a.context.encryptionType = none →
      (savedAs (childContext a.context dir ref) dir h).encryptionType = none :=
    fun hplain => href.plain hplain (by rw [hplain]; rfl) dir
  have hbelow : Tree env w'' ⟨savedAs (childContext a.context dir ref) dir h, optimized, false, [], [],
      0, 0⟩ (extractChildDirState a.state dir).2.fileMap :=
    Tree.ofPromoted hp rfl rfl rfl rfl (fun _ => hl) henc node.unsigned hplain
      (ProperKeys.extract node.keys hdir) hsub
  exact hbelow.congr fun segs hs => (hmoved segs hs).symm

/-- **A file operation where it is handled** sets the entry of its file. -/
theorem tree_fileOpStarted (law : env.Lawful) (hstore : ∀ n, env.storeFails n = false)
    {order : GroupOrder} (horder : ∀ t d groups, (order t d groups).Perm groups)
    (ht : Tree env w a m) {segs : List String} (hs : Proper segs)
    (hhead : (splitPath (joinPath segs)).1 ∉ a.state.dirs) {task : FileTask}
    (hsep : Separate (m.execute (env.utcNow w.tick) (segs, task)))
    (hc : (fileOpStarted env order task w a (joinPath segs)).1.collided = false) :
    Kept w (fileOpStarted env order task w a (joinPath segs)).1 ∧
      Tree env (fileOpStarted env order task w a (joinPath segs)).1
        (fileOpStarted env order task w a (joinPath segs)).2.1
        (m.execute (env.utcNow w.tick) (segs, task)) ∧
      (fileOpStarted env order task w a (joinPath segs)).2.1.context = a.context := by
  have htree := ht
  obtain ⟨kid, node, below⟩ := ht
  have hentry := node.files segs hs ((node.head_not_mem hs).1 hhead)
  have hset : ∀ (files : ExtTreeMap String FileRef), (∀ k : String, files[k]? =
      if k = joinPath segs then task.execute (env.utcNow w.tick) a.state.files[joinPath segs]?
      else a.state.files[k]?) →
      Tree env w { a with state.files := files, dirty := true }
        (m.execute (env.utcNow w.tick) (segs, task)) := by
    intro files hfiles
    unfold FileMap.execute
    rw [hentry]
    exact htree.setFile hs hhead hfiles
  have hnext : Kept w w.next := ⟨w.grows_next, rfl⟩
  -- without a new directory no actor starts
  have hplain : ∀ files : ExtTreeMap String FileRef,
      andStart env (splitPath (joinPath segs)).1 a
        (w.next, { a with state.files := files }.markAsDirty, .ok ()) =
        (w.next, { a with state.files := files }.markAsDirty, .ok ()) := by
    intro files
    unfold andStart
    exact if_neg fun h => h.1 h.2
  have hdone : ∀ files : ExtTreeMap String FileRef, (∀ k : String, files[k]? =
      if k = joinPath segs then task.execute (env.utcNow w.tick) a.state.files[joinPath segs]?
      else a.state.files[k]?) →
      Tree env w.next { a with state.files := files }.markAsDirty
        (m.execute (env.utcNow w.tick) (segs, task)) :=
    fun files hfiles => ((hset files hfiles).kept hnext).counted _ _
  unfold fileOpStarted fileOpAt at hc ⊢
  cases ht : task.execute (env.utcNow w.tick) a.state.files[joinPath segs]? with
  | none =>
    rw [ht] at hc hdone
    dsimp only at hc ⊢
    rw [hplain] at hc ⊢
    refine ⟨hnext, hdone _ fun k => ?_, rfl⟩
    rw [ExtTreeMap.getElem?_erase]
    by_cases hk : k = joinPath segs
    · rw [if_pos hk, hk, if_pos (Std.compare_eq_iff_eq.2 rfl)]
    · rw [if_neg hk, if_neg fun he => hk (Std.compare_eq_iff_eq.1 he).symm]
  | some f =>
    rw [ht] at hc hdone hset
    dsimp only at hc ⊢
    have hfiles : ∀ k : String, (a.state.files.insert (joinPath segs) f)[k]? =
        if k = joinPath segs then some f else a.state.files[k]? := by
      exact fun k => ExtTreeMap.getElem?_insert_ite ..
    have hstay : checkAutoPromote env order [] w.next
          { a with state.files := a.state.files.insert (joinPath segs) f } (joinPath segs) =
        (w.next, { a with state.files := a.state.files.insert (joinPath segs) f }, .ok ()) ∨
        ∃ dir rest, splitOnce (joinPath segs) = some (dir, rest) ∧ promotionThreshold <
          countBelow { a.state with files := a.state.files.insert (joinPath segs) f } dir := by
      unfold checkAutoPromote
      cases hp : splitOnce (joinPath segs) with
      | none => exact .inl rfl
      | some nr =>
        obtain ⟨dir, rest⟩ := nr
        dsimp only
        split
        · exact .inr ⟨dir, rest, rfl, ‹_›⟩
        · exact .inl rfl
    rcases hstay with hstay | ⟨dir, rest, hp, hlarge⟩
    · rw [hstay] at hc ⊢
      dsimp only at hc ⊢
      rw [hplain] at hc ⊢
      exact ⟨hnext, hdone _ hfiles, rfl⟩
    · have hfirst := splitPath_of_some hp
      have hnew : dir ∉ a.state.dirs := by
        rw [hfirst] at hhead
        exact hhead
      obtain ⟨w1, b, hrun, hmem, hres⟩ := tree_promotePrefix law hstore horder
        (a := { a with state.files := a.state.files.insert (joinPath segs) f })
        ((hset _ hfiles).kept hnext) hsep (splitOnce_eq_some.1 hp).2 hnew hlarge
      have hpromote : checkAutoPromote env order [] w.next
          { a with state.files := a.state.files.insert (joinPath segs) f } (joinPath segs) =
          (w1, b, .ok ()) := by
        unfold checkAutoPromote
        rw [hp]
        dsimp only
        rw [if_pos hlarge, hrun]
      have hstart : andStart env (splitPath (joinPath segs)).1 a (w1, b.markAsDirty, .ok ()) =
          ((startNew env w1 b.markAsDirty dir).1, (startNew env w1 b.markAsDirty dir).2, .ok ()) := by
        unfold andStart
        rw [hfirst]
        exact if_pos ⟨hnew, hmem⟩
      rw [hpromote] at hc ⊢
      dsimp only at hc ⊢
      rw [hstart] at hc ⊢
      obtain ⟨hk, htree', hctx⟩ := hres hc
      exact ⟨hnext.trans hk, htree', hctx⟩

end Actor

end Fs
