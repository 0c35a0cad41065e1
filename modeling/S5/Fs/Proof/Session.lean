import S5.Fs.Proof.Requests
import S5.Lib.Run

/-!
# A file system is a map that survives crashes

A client whose requests are handled one after the other finds the files of a plain map, and after a crash
those of the map that it last saved.

* `saved_saveIfDirty`: a save leaves every open directory as it is, clean and under its new hash.
* `session_refines_map`: the directory actors refine the map and its durable copy.
-/

open Std

namespace Fs

namespace Actor

variable {β : Type} {env : Env β} {w w' : World β} {a b : Actor} {m : FileMap}
  {kid : String → Actor}

/-! ## Saving -/

/-- No open directory is split when it is saved. -/
inductive Small (env : Env β) : Actor → Prop where
  | mk {a : Actor} (size : (a.lastSerializedLen < maxDirBytesBeforeShard ∧
      a.shardSizeCheckOps.toNat < shardSizeCheckOpInterval) ∨
      env.len (env.toBytes a.state) < maxDirBytesBeforeShard)
      (kids : ∀ x ∈ a.dirHandles, Small env x.2) : Small env a

/-- What a save makes of a child directory. -/
structure Saved (env : Env β) (w : World β) (name : String) (m : FileMap) (c c' : Actor)
    (r : Except String (Option Hash)) : Prop where
  tree : Tree env w c' m
  clean : c'.dirty = false
  answer : (r = .ok none ∧ c'.context = c.context) ∨
    ∃ h, r = .ok (some h) ∧ c'.context = savedAs c.context name h

theorem lookup_append_cons {pre post : List (String × Actor)} {n : String} {c c' : Actor}
    (hn : n ∉ pre.map Prod.fst) (name : String) : (pre ++ (n, c') :: post).lookup name =
      if name = n then some c' else (pre ++ (n, c) :: post).lookup name := by
  induction pre with
  | nil =>
    rw [List.nil_append, List.nil_append, List.lookup_cons, List.lookup_cons]
    by_cases hname : name = n
    · rw [if_pos hname, beq_iff_eq.2 hname]
    · rw [if_neg hname, beq_eq_false_iff_ne.2 hname]
  | cons x pre ih =>
    rw [List.cons_append, List.cons_append, List.lookup_cons, List.lookup_cons]
    rw [List.map_cons, List.mem_cons, not_or] at hn
    by_cases hname : name = x.1
    · rw [beq_iff_eq.2 hname, if_neg fun he => hn.1 (he.symm.trans hname)]
    · rw [beq_eq_false_iff_ne.2 hname]
      exact ih hn.2

theorem lookup_of_mem {l : List (String × Actor)} (hl : (l.map Prod.fst).Nodup) {n : String} {c : Actor}
    (h : (n, c) ∈ l) : l.lookup n = some c := by
  obtain ⟨pre, post, rfl⟩ := List.append_of_mem h
  have hpre : n ∉ pre.map Prod.fst := by
    rw [List.map_append, List.map_cons, List.nodup_append] at hl
    exact fun hm => hl.2.2 n hm n List.mem_cons_self rfl
  rw [lookup_append_cons (c := c) hpre n, if_pos rfl]

/-- An open child is the child. -/
theorem Node.opened (node : Node env w a kid m) {n : String} {c : Actor} (h : (n, c) ∈ a.dirHandles) :
    n ∈ a.state.dirs ∧ kid n = c := by
  have hl := lookup_of_mem node.handles h
  have hn := node.plain.named n c hl
  have ho := node.opens n hn
  unfold openDir at ho
  rw [hl] at ho
  exact ⟨hn, (Except.ok.inj ho).symm⟩

/-- The parent of an open child that has been saved. -/
theorem tree_updateDirHash {pre post : List (String × Actor)} {n : String} {c c' : Actor}
    {r : Except String (Option Hash)}
    (ht : Tree env w { a with dirHandles := pre ++ (n, c) :: post } m)
    (hs : Saved env w n (fun rest => m (n :: rest)) c c' r) :
    Tree env w { a.updateDirHash n r with dirHandles := pre ++ (n, c') :: post } m := by
  have htree := ht
  obtain ⟨kid, node, below⟩ := ht
  have hnodup : ((pre ++ (n, c) :: post).map Prod.fst).Nodup := node.handles
  have hpre : n ∉ pre.map Prod.fst := by
    rw [List.map_append, List.map_cons, List.nodup_append] at hnodup
    exact fun hm => hnodup.2.2 n hm n List.mem_cons_self rfl
  obtain ⟨hn, hkid⟩ := node.opened (n := n) (c := c) (List.mem_append_right pre List.mem_cons_self)
  obtain ⟨ref, href⟩ := Option.isSome_iff_exists.1 (ExtTreeMap.mem_iff_isSome_getElem?.1 hn)
  have hlinked := node.linked n ref href
  rw [hkid] at hlinked
  have hnames : ((pre ++ (n, c') :: post).map Prod.fst).Nodup := by
    rw [List.map_append, List.map_cons] at hnodup ⊢
    exact hnodup
  have hsame : ∀ name : String, a.state.dirs[name]? = if name = n then some ref else a.state.dirs[name]? := by
    intro name
    by_cases hname : name = n
    · rw [if_pos hname, hname, href]
    · rw [if_neg hname]
  rcases hs.answer with ⟨rfl, hcontext⟩ | ⟨h, rfl, hcontext⟩
  · have hr : Replaces { a with dirHandles := pre ++ (n, c) :: post }
        { a.updateDirHash n (.ok none) with dirHandles := pre ++ (n, c') :: post } n ref c' :=
      ⟨rfl, rfl, rfl, lookup_append_cons hpre, hnames, hsame, fun _ hk => hk, fun _ _ _ => rfl,
        node.byHash n ref href, hcontext.trans hlinked, fun hd => ⟨hd, hs.clean, rfl⟩⟩
    exact htree.replaced hr (.refl w) (node.names n hn) hs.tree fun _ _ => rfl
  · have hcontext' : c'.context = childContext a.context n { ref with hash := h } := by
      rw [hcontext, hlinked]
      rfl
    by_cases hh : ref.hash = h
    · have hupd : a.updateDirHash n (.ok (some h)) = a := by
        unfold updateDirHash
        rw [href]
        dsimp only
        rw [if_neg (not_not_intro hh)]
      rw [hupd]
      subst hh
      have hr : Replaces { a with dirHandles := pre ++ (n, c) :: post }
          { a with dirHandles := pre ++ (n, c') :: post } n ref c' :=
        ⟨rfl, rfl, rfl, lookup_append_cons hpre, hnames, hsame, fun _ hk => hk, fun _ _ _ => rfl,
          node.byHash n ref href, hcontext', fun hd => ⟨hd, hs.clean, rfl⟩⟩
      exact htree.replaced hr (.refl w) (node.names n hn) hs.tree fun _ _ => rfl
    · have hupd : a.updateDirHash n (.ok (some h)) =
          { a with state.dirs := a.state.dirs.insert n { ref with hash := h }, dirty := true } := by
        unfold updateDirHash
        rw [href]
        dsimp only
        rw [if_pos hh]
      rw [hupd]
      have hr : Replaces { a with dirHandles := pre ++ (n, c) :: post }
          { a with
            state.dirs := a.state.dirs.insert n { ref with hash := h }
            dirty := true
            dirHandles := pre ++ (n, c') :: post } n { ref with hash := h } c' := by
        refine ⟨rfl, rfl, rfl, lookup_append_cons hpre, hnames, fun name => ?_, fun _ hk => hk,
          fun _ _ _ => rfl, node.byHash n ref href, hcontext', fun hd => by cases hd⟩
        exact ExtTreeMap.getElem?_insert_ite ..
      exact htree.replaced hr (.refl w) (node.names n hn) hs.tree fun _ _ => rfl

/-- The saved children by name. -/
def savedHandles (res : List (String × Actor × Except String (Option Hash))) : List (String × Actor) :=
  res.map fun x => (x.1, x.2.1)

/-- Takes over the hashes of the saved children. -/
def updateDirHashes (a : Actor) (res : List (String × Actor × Except String (Option Hash))) : Actor :=
  res.foldl (fun a x => a.updateDirHash x.1 x.2.2) a

/-- All open children and what their saves came to. -/
def SavedAll (env : Env β) (w : World β) (m : FileMap) :
    List (String × Actor) → List (String × Actor × Except String (Option Hash)) → Prop :=
  List.Forall₂ fun x y => x.1 = y.1 ∧ Saved env w x.1 (fun rest => m (x.1 :: rest)) x.2 y.2.1 y.2.2

section
variable {l : List (String × Actor)} {res : List (String × Actor × Except String (Option Hash))}

theorem updateDirHashes_fields (a : Actor)
    (res : List (String × Actor × Except String (Option Hash))) :
    (a.updateDirHashes res).context = a.context ∧
      (a.updateDirHashes res).dirHandles = a.dirHandles := by
  unfold updateDirHashes
  induction res generalizing a with
  | nil => exact ⟨rfl, rfl⟩
  | cons y res ih =>
    obtain ⟨h1, h2⟩ := ih (a.updateDirHash y.1 y.2.2)
    have hstep : (a.updateDirHash y.1 y.2.2).context = a.context ∧
        (a.updateDirHash y.1 y.2.2).dirHandles = a.dirHandles := by
      unfold updateDirHash
      repeat' split
      all_goals exact ⟨rfl, rfl⟩
    exact ⟨h1.trans hstep.1, h2.trans hstep.2⟩

theorem tree_updateDirHashes (hs : SavedAll env w m l res) (pre : List (String × Actor))
    (ht : Tree env w { a with dirHandles := pre ++ l } m) :
    Tree env w { a.updateDirHashes res with dirHandles := pre ++ savedHandles res } m := by
  induction hs generalizing pre a with
  | nil => exact ht
  | @cons x y l res hxy _ ih =>
    obtain ⟨n, c⟩ := x
    obtain ⟨n', c', r⟩ := y
    obtain ⟨rfl, hsaved⟩ := hxy
    have hstep := tree_updateDirHash ht hsaved
    have hrest := @ih (a.updateDirHash n r) (pre ++ [(n, c')])
      (by rwa [List.append_assoc, List.singleton_append])
    rwa [List.append_assoc, List.singleton_append] at hrest

theorem clean_savedHandles (hs : SavedAll env w m l res) : ∀ x ∈ savedHandles res, x.2.dirty = false := by
  induction hs with
  | nil => exact fun x hx => absurd hx List.not_mem_nil
  | cons hxy _ ih => exact List.forall_mem_cons.2 ⟨hxy.2.clean, ih⟩

/-- **The children's saves** leave a tree with no changes below the directory. -/
theorem tree_savedDirs (ht : Tree env w a m) (hk : Kept w w') (hs : SavedAll env w' m a.dirHandles res)
    (len : Nat) (ops : UInt64) {b : Actor} (hb : b = updateDirHashes
      { a with dirHandles := savedHandles res, lastSerializedLen := len, shardSizeCheckOps := ops } res) :
    Tree env w' b m ∧ b.context = a.context ∧ ∀ x ∈ b.dirHandles, x.2.dirty = false := by
  have htree := tree_updateDirHashes hs [] (a := { a with
    dirHandles := savedHandles res, lastSerializedLen := len, shardSizeCheckOps := ops })
    ((ht.kept hk).counted len ops)
  obtain ⟨hctx, hhandles⟩ := updateDirHashes_fields { a with
    dirHandles := savedHandles res, lastSerializedLen := len, shardSizeCheckOps := ops } res
  rw [← hb] at htree hctx hhandles
  refine ⟨?_, hctx, by rw [hhandles]; exact clean_savedHandles hs⟩
  dsimp only at hhandles
  rw [List.nil_append, ← hhandles] at htree
  cases b
  exact htree

end

/-- If the open children have no changes, no child has. -/
theorem Node.kids_clean (node : Node env w a kid m) (h : ∀ x ∈ a.dirHandles, x.2.dirty = false)
    {n : String} (hn : n ∈ a.state.dirs) : (kid n).dirty = false := by
  have ho := node.opens n hn
  cases hl : a.dirHandles.lookup n with
  | some c =>
    unfold openDir at ho
    rw [hl] at ho
    obtain rfl := Except.ok.inj ho
    obtain ⟨l, l', he⟩ := List.lookup_eq_some_iff.1 hl
    exact h (n, kid n) (by rw [he.1]; exact List.mem_append_right _ List.mem_cons_self)
  | none =>
    obtain ⟨ref, href⟩ := Option.isSome_iff_exists.1 (ExtTreeMap.mem_iff_isSome_getElem?.1 hn)
    unfold openDir at ho
    rw [hl, href] at ho
    dsimp only at ho
    rw [withNewRef_dirLink _ _ (node.byHash n ref href), node.byHash n ref href] at ho
    exact (spawn_eq_ok ho).2.1

/-- **A directory whose children have been saved**, when it has been saved itself. -/
theorem Tree.saved (ht : Tree env w a m) (hkids : ∀ x ∈ a.dirHandles, x.2.dirty = false)
    (hg : w.Grows w') (link : DirContextParentLink Unit)
    (hload : ∃ len, load env { a.context with link } w' = .ok (a.state, len)) :
    Tree env w' { a with context := { a.context with link }, dirty := false } m := by
  obtain ⟨kid, node, below⟩ := ht
  refine .mk kid ⟨⟨⟨node.plain.unsharded.shardLevel, node.plain.unsharded.shards,
    node.plain.unsharded.dirShardHandles⟩, node.plain.named⟩, node.handles, node.encodable,
    node.unsigned, fun _ => hload, node.names, node.keys, node.files, node.byHash, fun n hn => ?_,
    node.linked, fun n hn hd => ?_⟩ fun n hn => (below n hn).grown hg fun hl => ?_
  · exact openDir_grown hg (node.opens n hn)
  · rw [node.kids_clean hkids hn] at hd
    cases hd
  · exact absurd hl (node.link_ne hn)

variable [DecidableEq β]

/-- Without a split the size check only counts. -/
theorem shardIfNeeded_small (hu : a.Unsharded) (hs : Small env a) :
    ∃ len ops, shardIfNeeded env w a =
      (w, { a with lastSerializedLen := len, shardSizeCheckOps := ops }, .ok ()) := by
  obtain ⟨size, -⟩ := hs
  unfold shardIfNeeded
  rw [hu.shardLevel, Option.isSome_none, if_neg Bool.false_ne_true]
  dsimp only
  split
  · refine ⟨a.lastSerializedLen, a.shardSizeCheckOps, ?_⟩
    cases a
    rfl
  · rename_i hbig
    exact ⟨_, _, if_neg (Nat.not_le.2 (size.resolve_left hbig))⟩

/-- What an actor does after its children have been saved. -/
def finishSave (env : Env β) (w : World β) (a : Actor) : World β × Actor × Except String (Option Hash) :=
  if a.dirty then
    match save env w a with
    | (w, a, .ok h) => (w, { a with dirty := false }, .ok h)
    | (w, a, .error e) => (w, a, .error e)
  else (w, a, .ok none)

/-- The save of an actor that has no shards and is not split. -/
theorem saveIfDirty_small (ht : Tree env w a m) (hs : Small env a)
    (hd : (a.dirty || isRoot a.context) = true) :
    ∃ len ops, saveIfDirty env a w =
      finishSave env (saveDirs env a.dirHandles w).1 (updateDirHashes
        { a with
          dirHandles := savedHandles (saveDirs env a.dirHandles w).2
          lastSerializedLen := len
          shardSizeCheckOps := ops } (saveDirs env a.dirHandles w).2) := by
  obtain ⟨kid, node, below⟩ := ht
  obtain ⟨len, ops, hshard⟩ := shardIfNeeded_small (w := w) node.plain.unsharded hs
  refine ⟨len, ops, ?_⟩
  have hshards := node.plain.unsharded.dirShardHandles
  have hlevel := node.plain.unsharded.shardLevel
  obtain ⟨context, state, dirty, dirHandles, dirShardHandles, len', ops'⟩ := a
  dsimp only at hd hshard hshards hlevel
  subst hshards
  unfold saveIfDirty finishSave
  dsimp only
  rw [if_pos hd, hshard]
  dsimp only [saveShards, List.map_nil, List.foldl_nil]
  simp only [hlevel, Option.isSome_none, Bool.false_eq_true, if_false]
  rfl

theorem saved_finishSave (law : env.Lawful) (hstore : ∀ n, env.storeFails n = false)
    {ctx : DirContext Unit} {name : String} {ref : DirRef} (hctx : a.context = childContext ctx name ref)
    (henc : Encodable a.context) :
    Kept w (finishSave env w a).1 ∧ ((finishSave env w a).1.collided = false →
      Tree env w a m → (∀ x ∈ a.dirHandles, x.2.dirty = false) →
      Saved env (finishSave env w a).1 name m a (finishSave env w a).2.1 (finishSave env w a).2.2) := by
  unfold finishSave
  cases hd : a.dirty with
  | false =>
    rw [if_neg Bool.false_ne_true]
    exact ⟨Kept.refl w, fun _ ht _ => ⟨ht, hd, .inl ⟨rfl, rfl⟩⟩⟩
  | true =>
    obtain ⟨w', h, hsave, hk, hload⟩ := save_child (b := { a with context := ctx }) law hstore w hctx henc
    rw [if_pos rfl, hsave]
    exact ⟨hk, fun hc ht hkids => ⟨ht.saved hkids hk.grows _ (hload hc), rfl, .inr ⟨h, rfl, rfl⟩⟩⟩

omit [DecidableEq β] in
/-- The open children of a tree are trees. -/
theorem open_children (ht : Tree env w a m) (hs : Small env a) : ∀ x ∈ a.dirHandles,
    (∃ ref, x.2.context = childContext a.context x.1 ref) ∧
      Tree env w x.2 (fun rest => m (x.1 :: rest)) ∧ Small env x.2 := by
  obtain ⟨kid, node, below⟩ := ht
  obtain ⟨-, kids⟩ := hs
  rintro ⟨n, c⟩ hx
  obtain ⟨hn, rfl⟩ := node.opened hx
  obtain ⟨ref, href⟩ := Option.isSome_iff_exists.1 (ExtTreeMap.mem_iff_isSome_getElem?.1 hn)
  exact ⟨⟨ref, node.linked n ref href⟩, below n hn, kids _ hx⟩

mutual
/-- **A save leaves every open directory as it is**, clean and found again under its new hash. -/
theorem saved_saveIfDirty (law : env.Lawful) (hstore : ∀ n, env.storeFails n = false) :
    (a : Actor) → ∀ {w : World β} {m : FileMap} {ctx : DirContext Unit} {name : String} {ref : DirRef},
      a.context = childContext ctx name ref → Tree env w a m → Small env a →
      Kept w (saveIfDirty env a w).1 ∧ ((saveIfDirty env a w).1.collided = false →
        Saved env (saveIfDirty env a w).1 name m a (saveIfDirty env a w).2.1 (saveIfDirty env a w).2.2)
  | ⟨context, state, dirty, dirHandles, dirShardHandles, len, ops⟩, w, m, ctx, name, ref, hctx, ht,
      hs => by
    have hroot : isRoot context = false := by
      dsimp only at hctx
      rw [hctx]
      rfl
    cases hd : dirty with
    | false =>
      subst hd
      have hrun : saveIfDirty env ⟨context, state, false, dirHandles, dirShardHandles, len, ops⟩ w =
          (w, ⟨context, state, false, dirHandles, dirShardHandles, len, ops⟩, .ok none) := by
        unfold saveIfDirty
        dsimp only
        rw [hroot, Bool.false_or, if_neg Bool.false_ne_true]
      rw [hrun]
      exact ⟨Kept.refl w, fun _ => ⟨ht, rfl, .inl ⟨rfl, rfl⟩⟩⟩
    | true =>
      subst hd
      obtain ⟨len', ops', hrun⟩ := saveIfDirty_small ht hs rfl
      obtain ⟨hk, hdirs⟩ := saved_saveDirs law hstore dirHandles (w := w) (m := m)
        (open_children ht hs)
      rw [hrun]
      have hctx' := (updateDirHashes_fields ⟨context, state, true,
        savedHandles (saveDirs env dirHandles w).2, dirShardHandles, len', ops'⟩
        (saveDirs env dirHandles w).2).1
      have htree := fun hc => tree_savedDirs ht hk (hdirs hc) len' ops' rfl
      dsimp only at hctx hctx' ⊢
      generalize updateDirHashes _ (saveDirs env dirHandles w).2 = b at hctx' htree ⊢
      have henc : Encodable b.context := by
        rw [hctx']
        obtain ⟨kid, node, below⟩ := ht
        exact node.encodable
      obtain ⟨hk', hsaved⟩ := saved_finishSave (w := (saveDirs env dirHandles w).1) (m := m) law hstore
        (hctx'.trans hctx) henc
      refine ⟨hk.trans hk', fun hc => ?_⟩
      obtain ⟨htree', -, hclean⟩ := htree (hk'.grows.collided hc)
      obtain ⟨h1, h2, h3⟩ := hsaved hc htree' hclean
      rw [hctx'] at h3
      exact ⟨h1, h2, h3⟩
theorem saved_saveDirs (law : env.Lawful) (hstore : ∀ n, env.storeFails n = false) :
    (l : List (String × Actor)) → ∀ {w : World β} {m : FileMap} {ctx : DirContext Unit},
      (∀ x ∈ l, (∃ ref, x.2.context = childContext ctx x.1 ref) ∧
        Tree env w x.2 (fun rest => m (x.1 :: rest)) ∧ Small env x.2) →
      Kept w (saveDirs env l w).1 ∧ ((saveDirs env l w).1.collided = false →
        SavedAll env (saveDirs env l w).1 m l (saveDirs env l w).2)
  | [], w, m, ctx, h => ⟨Kept.refl w, fun _ => .nil⟩
  | (name, child) :: rest, w, m, ctx, h => by
    obtain ⟨⟨ref, hctx⟩, htree, hsmall⟩ := h (name, child) List.mem_cons_self
    obtain ⟨hk1, hchild⟩ := saved_saveIfDirty law hstore child hctx htree hsmall
    obtain ⟨hk2, hrest⟩ := saved_saveDirs law hstore rest (w := (saveIfDirty env child w).1) (m := m)
      fun x hx => by
        obtain ⟨hx1, hx2, hx3⟩ := h x (List.mem_cons_of_mem _ hx)
        exact ⟨hx1, hx2.kept hk1, hx3⟩
    unfold saveDirs
    refine ⟨hk1.trans hk2, fun hc => .cons ⟨rfl, ?_⟩ (hrest hc)⟩
    have hsaved := hchild (hk2.grows.collided hc)
    exact ⟨hsaved.tree.kept hk2, hsaved.clean, hsaved.answer⟩
end

/-- **A save of the root** leaves every directory as it is, and finds the tree again. -/
theorem tree_saveRoot (law : env.Lawful) (hstore : ∀ n, env.storeFails n = false)
    (ht : Tree env w a m) (hctx : a.context = .localRoot) (hs : Small env a)
    (hc : (saveIfDirty env a w).1.collided = false) :
    (saveIfDirty env a w).2.2 = .ok none ∧ (saveIfDirty env a w).2.1.context = .localRoot ∧
      (saveIfDirty env a w).2.1.dirty = false ∧
      Tree env (saveIfDirty env a w).1 (saveIfDirty env a w).2.1 m := by
  obtain ⟨len, ops, hrun⟩ := saveIfDirty_small ht hs (by rw [hctx, Bool.or_eq_true]; exact .inr rfl)
  obtain ⟨hk, hdirs⟩ := saved_saveDirs law hstore a.dirHandles (w := w) (m := m)
    (open_children ht hs)
  have htree := fun hc => tree_savedDirs ht hk (hdirs hc) len ops rfl
  have hbctx := (updateDirHashes_fields { a with
    dirHandles := savedHandles (saveDirs env a.dirHandles w).2
    lastSerializedLen := len
    shardSizeCheckOps := ops } (saveDirs env a.dirHandles w).2).1.trans hctx
  rw [hrun] at hc ⊢
  generalize updateDirHashes _ (saveDirs env a.dirHandles w).2 = b at htree hbctx hc ⊢
  generalize (saveDirs env a.dirHandles w).1 = w1 at htree hc ⊢
  unfold finishSave at hc ⊢
  cases hd : b.dirty with
  | false =>
    rw [hd, if_neg Bool.false_ne_true] at hc
    rw [if_neg Bool.false_ne_true]
    exact ⟨rfl, hbctx, hd, (htree hc).1⟩
  | true =>
    rw [hd, if_pos rfl, save_root hstore hbctx] at hc
    rw [if_pos rfl, save_root hstore hbctx]
    have hg : w1.Grows { (w1.importBytes env (env.toBytes b.state)).1 with
        rootFile := some (env.toBytes b.state) } :=
      let h := World.grows_importBytes env w1 (env.toBytes b.state)
      ⟨h.store, h.registry, h.collided⟩
    obtain ⟨htree', -, hclean⟩ := htree (hg.collided hc)
    refine ⟨rfl, hbctx, rfl, htree'.saved hclean hg b.context.link
      ⟨env.len (env.toBytes b.state), ?_⟩⟩
    have hlink : b.context.link = .localFile := by rw [hbctx]; rfl
    simp only [load, hlink, decodeDir, law.fromBytes_toBytes]

/-! ## Runs -/

/-- The tree of the local root holds what the client has in mind, and what is stored under the root
file holds what it last saved. -/
structure Refines (env : Env β) (s : World β × Actor) (d : Durable FileMap) : Prop where
  root : s.2.context = .localRoot
  tree : Tree env s.1 s.2 d.volatile
  separate : Separate d.volatile
  stored : ∃ a, spawn env .localRoot s.1 = .ok a ∧ Tree env s.1 a d.durable
  storedSeparate : Separate d.durable

/-- A request to the file system, with the client's expectation. -/
def stepSession (env : Env β) (order : GroupOrder) (x : (World β × Actor) × Durable FileMap)
    (op : FsOp) : (World β × Actor) × Durable FileMap :=
  (stepFs env order x.1 op, specFs (env.utcNow x.1.1.tick) x.2 op)

/-- What is asked of a request: paths have no empty segment, no file is put above or below another, a
directory is made in one that is there and not over a file, no directory is split by a save, and there
is no BLAKE3 collision. -/
def Admitted (env : Env β) (order : GroupOrder) (x : (World β × Actor) × Durable FileMap)
    (op : FsOp) : Prop :=
  (stepFs env order x.1 op).1.collided = false ∧
    match op with
    | .file path task => Proper (segments path) ∧
        Separate (x.2.volatile.execute (env.utcNow x.1.1.tick) (segments path, task))
    | .createDir path _ => Proper (segments path) ∧ x.2.volatile (segments path) = none ∧
        ∀ b q, Handles env x.1.1 [] x.1.2 path b q → q ≠ "" ∧ '/' ∉ q.toList
    | .save => Small env x.1.2
    | .reopen => True

omit [DecidableEq β] in
theorem Refines.changed {s s' : World β × Actor} {d : Durable FileMap} (h : Refines env s d)
    (hk : Kept s.1 s'.1) {m : FileMap} (ht : Tree env s'.1 s'.2 m) (hctx : s'.2.context = s.2.context)
    (hm : Separate m) : Refines env s' { d with volatile := m } := by
  obtain ⟨a, ha, hta⟩ := h.stored
  exact ⟨hctx.trans h.root, ht, hm,
    ⟨a, spawn_grown hk.grows (fun _ => hk.rootFile) ha, hta.kept hk⟩, h.storedSeparate⟩

/-- A path is handed on at most once for each of its characters. -/
theorem length_le_joinPath {segs : List String} (hs : Proper segs) :
    segs.length ≤ (joinPath segs).length := by
  induction segs with
  | nil => exact Nat.zero_le _
  | cons s segs ih =>
    have hpos : 0 < s.length := by
      refine Nat.pos_of_ne_zero fun h => hs.cons.1.1 (String.length_eq_zero_iff.1 h)
    cases segs with
    | nil =>
      rw [joinPath_singleton]
      exact hpos
    | cons t segs =>
      have ih := ih hs.cons.2
      rw [joinPath_cons_cons, String.length_append, String.length_append, List.length_cons]
      omega

theorem refines_file (law : env.Lawful) (hstore : ∀ n, env.storeFails n = false) {order : GroupOrder}
    (horder : ∀ t d groups, (order t d groups).Perm groups) {d : Durable FileMap}
    (h : Refines env (w, a) d) {segs : List String} (hs : Proper segs) {task : FileTask}
    (hsep : Separate (d.volatile.execute (env.utcNow w.tick) (segs, task)))
    (hc : (stepFs env order (w, a) (.file (joinPath segs) task)).1.collided = false) :
    Refines env (stepFs env order (w, a) (.file (joinPath segs) task))
      { d with volatile := d.volatile.execute (env.utcNow w.tick) (segs, task) } := by
  have hrun := tree_pathOp (fileOpStarted env order task) (local_execute (env.utcNow w.tick) task)
    (fun _ m segs => Separate (m.execute (env.utcNow w.tick) (segs, task)))
    (fun {_ _ m n segs} hs _ _ hsep => by
      have hbelow := (local_execute (env.utcNow w.tick) task).below m n segs
      rw [← hbelow]
      exact hsep.below hs.cons.1)
    (fun ht hs hhead hsep hc => tree_fileOpStarted law hstore horder ht hs hhead hsep hc) hs h.tree hsep
    (Nat.lt_succ_of_le (length_le_joinPath hs))
  obtain ⟨w', a', r, hrun, -, hres⟩ := hrun
  have hstep : stepFs env order (w, a) (.file (joinPath segs) task) = (w', a') := by
    unfold stepFs
    dsimp only at hrun ⊢
    rw [hrun]
  rw [hstep] at hc ⊢
  obtain ⟨hk, ht, hctx⟩ := hres hc
  exact h.changed hk ht hctx hsep

theorem refines_createDir (law : env.Lawful) (hstore : ∀ n, env.storeFails n = false)
    {order : GroupOrder} {d : Durable FileMap} (h : Refines env (w, a) d) {segs : List String}
    (hs : Proper segs) (hnone : d.volatile segs = none)
    (hhandles : ∀ b q, Handles env w [] a (joinPath segs) b q → q ≠ "" ∧ '/' ∉ q.toList)
    {enableEncryption : Bool}
    (hc : (stepFs env order (w, a) (.createDir (joinPath segs) enableEncryption)).1.collided = false) :
    Refines env (stepFs env order (w, a) (.createDir (joinPath segs) enableEncryption)) d := by
  have hrun := tree_pathOp (createDirStarted env enableEncryption) local_id
    (fun b m segs => m segs = none ∧
      ∀ c q, Handles env w [] b (joinPath segs) c q → q ≠ "" ∧ '/' ∉ q.toList)
    (fun {b c m n segs} hs hn ho hok => by
      refine ⟨hok.1, fun e q hq => hok.2 e q ?_⟩
      have hsplit := splitPath_joinPath hs.cons.1.2 segs
      have ho' : openDir env w [] b (splitPath (joinPath (n :: segs))).1 = .ok c := by rwa [hsplit]
      rw [handles_hop (by rwa [hsplit]) ho', hsplit]
      exact hq)
    (fun {b m segs} ht hs hhead hok hc => by
      have hq := hok.2 b (joinPath segs) ((handles_here hhead).2 ⟨rfl, rfl⟩)
      obtain ⟨n, rfl⟩ : ∃ n, segs = [n] := by
        cases segs with
        | nil => exact absurd joinPath_nil hq.1
        | cons n segs =>
          cases segs with
          | nil => exact ⟨n, rfl⟩
          | cons x segs =>
            rw [joinPath_cons_cons] at hq
            exact absurd (by simp) hq.2
      rw [joinPath_singleton] at hq hhead hc ⊢
      rw [splitPath_of_slash_free hq.2] at hhead
      exact tree_createDirStarted law hstore ht hq hhead hok.1 enableEncryption hc) hs h.tree
    ⟨hnone, hhandles⟩ (Nat.lt_succ_of_le (length_le_joinPath hs))
  obtain ⟨w', a', r, hrun, -, hres⟩ := hrun
  have hstep : stepFs env order (w, a) (.createDir (joinPath segs) enableEncryption) = (w', a') := by
    unfold stepFs
    dsimp only at hrun ⊢
    rw [hrun]
  rw [hstep] at hc ⊢
  obtain ⟨hk, ht, hctx⟩ := hres hc
  exact h.changed hk ht hctx h.separate

theorem refines_save (law : env.Lawful) (hstore : ∀ n, env.storeFails n = false) (order : GroupOrder)
    {d : Durable FileMap} (h : Refines env (w, a) d) (hs : Small env a)
    (hc : (stepFs env order (w, a) .save).1.collided = false) :
    Refines env (stepFs env order (w, a) .save) d.save := by
  have htree := tree_saveRoot law hstore h.tree h.root hs
  unfold stepFs at hc ⊢
  dsimp only at hc htree ⊢
  generalize saveIfDirty env a w = res at hc htree ⊢
  obtain ⟨w', a', r⟩ := res
  obtain ⟨-, hctx, hclean, ht⟩ := htree hc
  obtain ⟨b, hb, -, -, htb⟩ := ht.reopened hclean
  dsimp only at hctx hb htb
  rw [hctx] at hb
  exact ⟨hctx, ht, h.separate, ⟨b, hb, htb⟩, h.separate⟩

theorem refines_reopen (order : GroupOrder) {d : Durable FileMap} (h : Refines env (w, a) d) :
    Refines env (stepFs env order (w, a) .reopen) d.crash := by
  obtain ⟨b, hb, htb⟩ := h.stored
  have hroot := h.root
  dsimp only at hb htb hroot
  have hstep : stepFs env order (w, a) .reopen = (w, b) := by
    unfold stepFs
    dsimp only
    rw [hroot, hb]
  rw [hstep]
  exact ⟨(spawn_eq_ok hb).1, htb, h.storedSeparate, ⟨b, hb, htb⟩, h.storedSeparate⟩

/-- **One request**: the file system stays what the client has in mind. -/
theorem refines_step (law : env.Lawful) (hstore : ∀ n, env.storeFails n = false) {order : GroupOrder}
    (horder : ∀ t d groups, (order t d groups).Perm groups)
    (x : (World β × Actor) × Durable FileMap) (op : FsOp) (h : Refines env x.1 x.2)
    (hop : Admitted env order x op) :
    Refines env (stepSession env order x op).1 (stepSession env order x op).2 := by
  obtain ⟨⟨w, a⟩, d⟩ := x
  obtain ⟨hc, hop⟩ := hop
  unfold stepSession
  cases op with
  | file path task =>
    obtain ⟨hs, hsep⟩ := hop
    have hstep := refines_file law hstore horder h hs hsep
    rw [joinPath_segments] at hstep
    exact hstep hc
  | createDir path enableEncryption =>
    obtain ⟨hs, hnone, hhandles⟩ := hop
    rw [← joinPath_segments path] at hhandles hc
    have hstep := refines_createDir law hstore h hs hnone hhandles hc
    rw [joinPath_segments] at hstep
    exact hstep
  | save => exact refines_save law hstore order h hop hc
  | reopen => exact refines_reopen order h

/-- A local root whose directory has no children yet, and so holds its files. -/
structure FlatRoot (env : Env β) (w : World β) (a : Actor) : Prop where
  spawned : spawn env .localRoot w = .ok a
  header : a.state.header = .new
  dirs : a.state.dirs = ∅
  keys : ProperKeys a.state
  separate : Separate a.state.fileMap

omit [DecidableEq β] in
theorem FlatRoot.refines (h : FlatRoot env w a) : Refines env (w, a) (.ofSaved a.state.fileMap) := by
  have ht : Tree env w a a.state.fileMap := by
    have hload := (spawn_eq_ok h.spawned).2.2
    have hspawn := h.spawned
    obtain ⟨len, hload⟩ := hload
    rw [spawn_ok hload] at hspawn
    rw [← Except.ok.inj hspawn] at hload h ⊢
    exact Tree.flat h.header h.dirs (.inl rfl) rfl h.keys ⟨len, hload⟩
  exact ⟨(spawn_eq_ok h.spawned).1, ht, h.separate, ⟨a, h.spawned, ht⟩, h.separate⟩

/-- Lookups find what the client has in mind, and after a crash they would find what it last saved. -/
structure Answers (env : Env β) (x : (World β × Actor) × Durable FileMap) : Prop where
  live : ∀ path, Proper (segments path) →
    Reaches env x.1.1 [] x.1.2 path (x.2.volatile (segments path))
  stored : ∃ a, spawn env .localRoot x.1.1 = .ok a ∧ ∀ path, Proper (segments path) →
    Reaches env x.1.1 [] a path (x.2.durable (segments path))

omit [DecidableEq β] in
theorem Refines.answers {x : (World β × Actor) × Durable FileMap} (h : Refines env x.1 x.2) :
    Answers env x := by
  obtain ⟨a, ha, hta⟩ := h.stored
  refine ⟨fun path hp => ?_, a, ha, fun path hp => ?_⟩
  · have hreach := h.tree.reaches hp
    rwa [joinPath_segments] at hreach
  · have hreach := hta.reaches hp
    rwa [joinPath_segments] at hreach

/-- Along every run the file system is what the client has in mind. -/
theorem refines_session (law : env.Lawful) (hstore : ∀ n, env.storeFails n = false)
    {order : GroupOrder} (horder : ∀ t d groups, (order t d groups).Perm groups)
    (hroot : FlatRoot env w a) {ops : List FsOp}
    (hops : Run.Steps (stepSession env order) (Admitted env order)
      ((w, a), .ofSaved a.state.fileMap) ops) :
    Run.Always (stepSession env order) (fun x => Refines env x.1 x.2)
      ((w, a), .ofSaved a.state.fileMap) ops :=
  Run.always_of_steps (fun x op h hop => refines_step law hstore horder x op h hop) hroot.refines hops

/-- **The directory actors are a map with a durable copy**: in every run of requests, saves and crashes
each lookup finds what the plain map has, and each lookup after a crash would find what the map had when
it was last saved. -/
theorem session_refines_map (law : env.Lawful) (hstore : ∀ n, env.storeFails n = false)
    {order : GroupOrder} (horder : ∀ t d groups, (order t d groups).Perm groups)
    (hroot : FlatRoot env w a) {ops : List FsOp}
    (hops : Run.Steps (stepSession env order) (Admitted env order)
      ((w, a), .ofSaved a.state.fileMap) ops) :
    Run.Always (stepSession env order) (Answers env) ((w, a), .ofSaved a.state.fileMap) ops := by
  have hall := refines_session law hstore horder hroot hops
  exact fun pre hpre => (hall pre hpre).answers

theorem fst_stepSession (order : GroupOrder) (ops : List FsOp)
    (x : (World β × Actor) × Durable FileMap) :
    (ops.foldl (stepSession env order) x).1 = ops.foldl (stepFs env order) x.1 := by
  induction ops generalizing x with
  | nil => rfl
  | cons op ops ih => exact ih _

/-- The world of an empty file system. -/
def newFs : World Sym := { emptyWorld with rootFile := some (.plain .new) }

/-- The root of an empty file system. -/
def newRoot : Actor := ⟨.localRoot, .new, false, [], [], 64, 0⟩

theorem flatRoot_newRoot : FlatRoot (symbolic xxh3Short) newFs newRoot where
  spawned := rfl
  header := rfl
  dirs := rfl
  keys _ hk := absurd hk ExtTreeMap.not_mem_empty
  separate _ _ _ _ _ := ExtTreeMap.getElem?_empty

/-- A lookup on `path` in a state of the file system. -/
def Finds (env : Env β) (s : World β × Actor) (path : String) (r : Option FileRef) : Prop :=
  Reaches env s.1 [] s.2 path r

end Actor

/-! ## Calls of a file system -/

namespace FS5

open Actor

variable {β : Type} [DecidableEq β] {env : Env β} {order : GroupOrder} {fs : FS5 β}
  {d : Durable FileMap}

/-- The file system can be saved: no directory is split, and there is no BLAKE3 collision. -/
structure Settles (env : Env β) (fs : FS5 β) : Prop where
  handled : fs.world.collided = false
  small : Small env fs.root
  saved : (fs.save env).1.world.collided = false

variable (env order fs) in
theorem save_eq : ((fs.save env).1.world, (fs.save env).1.root) =
    stepFs env order (fs.world, fs.root) .save := by
  unfold FS5.save stepFs
  dsimp only
  generalize saveIfDirty env fs.root fs.world = out
  obtain ⟨w, a, r⟩ := out
  cases r <;> rfl

/-- **A save** makes what is in memory durable. -/
theorem refines_save (law : env.Lawful) (hstore : ∀ n, env.storeFails n = false)
    (h : Refines env (fs.world, fs.root) d) (hs : Settles env fs) :
    (fs.save env).2 = .ok () ∧
      Refines env ((fs.save env).1.world, (fs.save env).1.root) d.save := by
  have heq := save_eq env (fun _ _ groups => groups) fs
  have hstep := Actor.refines_save law hstore (fun _ _ groups => groups) h hs.small
    (by rw [← heq]; exact hs.saved)
  rw [← heq] at hstep
  refine ⟨?_, hstep⟩
  have hroot := fun hc => tree_saveRoot law hstore h.tree h.root hs.small hc
  have hsaved := hs.saved
  unfold FS5.save at hsaved ⊢
  dsimp only at hroot
  generalize saveIfDirty env fs.root fs.world = out at hsaved hroot ⊢
  obtain ⟨w, a, r⟩ := out
  cases r with
  | ok h => rfl
  | error e => cases (hroot hsaved).1

/-- **A file that is put** is under its path. -/
theorem refines_filePut (law : env.Lawful) (hstore : ∀ n, env.storeFails n = false)
    (horder : ∀ t d groups, (order t d groups).Perm groups)
    (h : Refines env (fs.world, fs.root) d) {segs : List String} (hs : Proper segs) (f : FileRef)
    (habove : ∀ pre n rest, segs = pre ++ n :: rest → d.volatile pre = none)
    (hbelow : ∀ n rest, Proper (segs ++ n :: rest) → d.volatile (segs ++ n :: rest) = none)
    (hc : (filePut env order fs (joinPath segs) f).world.collided = false) :
    Refines env ((filePut env order fs (joinPath segs) f).world,
      (filePut env order fs (joinPath segs) f).root)
      { d with volatile := Function.update d.volatile segs (some f) } :=
  refines_file law hstore horder h hs (h.separate.put f habove hbelow _) hc

/-- A file that is asked for, and what it changes. -/
theorem refines_fileGet (law : env.Lawful) (hstore : ∀ n, env.storeFails n = false)
    (horder : ∀ t d groups, (order t d groups).Perm groups)
    (h : Refines env (fs.world, fs.root) d) {segs : List String} (hs : Proper segs)
    (hc : (fileGet env order fs (joinPath segs)).1.world.collided = false) :
    (fileGet env order fs (joinPath segs)).2 = live (d.volatile segs) ∧
      Refines env ((fileGet env order fs (joinPath segs)).1.world,
        (fileGet env order fs (joinPath segs)).1.root) d := by
  have hsame : d.volatile.execute (env.utcNow fs.world.tick) (segs, .get) = d.volatile :=
    Function.update_eq_self segs d.volatile
  refine ⟨?_, ?_⟩
  · have hfound := h.tree.lookup hs (Nat.lt_succ_of_le (length_le_joinPath hs))
    unfold fileGet
    dsimp only at hfound ⊢
    rw [hfound]
    rfl
  · have hsep : Separate (d.volatile.execute (env.utcNow fs.world.tick) (segs, .get)) := by
      rw [hsame]
      exact h.separate
    have hstep := refines_file law hstore horder h hs hsep hc
    rw [hsame] at hstep
    exact hstep

variable (env order fs) in
theorem createDir_eq (path : String) (enableEncryption : Bool) :
    ((createDir env fs path enableEncryption).1.world, (createDir env fs path enableEncryption).1.root) =
      stepFs env order (fs.world, fs.root) (.createDir path enableEncryption) := by
  unfold createDir stepFs
  dsimp only
  generalize pathOp env (createDirStarted env enableEncryption) [] (path.length + 1) fs.world fs.root
    path = out
  cases out <;> rfl

/-- A new directory changes no file. -/
theorem refines_createDir (law : env.Lawful) (hstore : ∀ n, env.storeFails n = false)
    (h : Refines env (fs.world, fs.root) d) {path : String} {enableEncryption : Bool}
    (hs : Proper (segments path)) (hnone : d.volatile (segments path) = none)
    (hhandles : ∀ b q, Handles env fs.world [] fs.root path b q → q ≠ "" ∧ '/' ∉ q.toList)
    (hc : (createDir env fs path enableEncryption).1.world.collided = false) :
    Refines env ((createDir env fs path enableEncryption).1.world,
      (createDir env fs path enableEncryption).1.root) d := by
  have heq := createDir_eq env (fun _ _ groups => groups) fs path enableEncryption
  rw [← joinPath_segments path] at hhandles hc heq ⊢
  rw [heq]
  exact Actor.refines_createDir law hstore h hs hnone hhandles (by rw [← heq]; exact hc)

end FS5

end Fs
