import S5.Fs.FileOps
import S5.Fs.Proof.Create

/-!
# Promotions that fail

`promote_prefix` takes the files out of the directory before it writes what is below them, and puts a
placeholder for the new directory in their place.

* `failed_promotion_loses`: if a promotion fails, files are lost.
-/

open Std

namespace Fs

namespace Actor

section
variable {β : Type} {env : Env β} {w w' : World β} {regs : RegistryDirHandles} {a a' : Actor}

/-- Nothing is stored in `w'` under what a reference made from `w` on names until its directory has been
saved: the hash of zeros, or a pointer drawn for it. -/
structure NoPlaceholder (env : Env β) (regs : RegistryDirHandles) (w w' : World β) : Prop where
  zero : w'.store[(0 : Hash)]? = none
  registry : ∀ n, w.tick ≤ n → w'.registry[env.random n]? = none
  handles : FreshPointers env regs w

theorem NoPlaceholder.next (h : NoPlaceholder env regs w w') : NoPlaceholder env regs w.next w' :=
  ⟨h.zero, fun n hn => h.registry n (Nat.le_of_succ_le hn),
    fun n hn => h.handles n (Nat.le_of_succ_le hn)⟩

/-- A path whose first segment is that of a path handled here is not handled by a shard. -/
theorem route_first {d d' : DirV1} {q k : String} (h : route env d q = .ok .here)
    (hh : d'.header = d.header) (hf : (splitPath k).1 = (splitPath q).1) :
    route env d' k = .ok (routeDirect d' k) := by
  unfold route at h ⊢
  rw [hh, hf]
  cases hl : d.header.shardLevel with
  | none => rfl
  | some level =>
    rw [hl] at h
    dsimp only at h ⊢
    cases hb : shardBucketFor env (splitPath q).1 level with
    | error e =>
      rw [hb] at h
      cases h
    | ok index =>
      rw [hb] at h
      simp only [bind, Except.bind] at h ⊢
      cases hs : d.header.shards with
      | none => rfl
      | some shards =>
        rw [hs] at h
        dsimp only at h ⊢
        by_cases hi : index ∈ shards
        · rw [if_pos hi] at h
          cases h
        · rw [if_neg hi]
          rfl

/-- What a lookup below the first segment of such a path reaches. -/
theorem reaches_first {d : DirV1} {q dir : String} (h : route env d q = .ok .here)
    (hh : a.state.header = d.header) (hfst : (splitPath q).1 = dir) (x : String)
    {r : Option FileRef} : Reaches env w regs a (dir ++ "/" ++ x) r ↔
      if dir ∈ a.state.dirs then ReachesIn env w regs (openDir env w regs a dir) x r
      else r = a.state.files[dir ++ "/" ++ x]? := by
  have hslash : '/' ∉ dir.toList := hfst ▸ splitPath_fst_slash_free q
  have hsplit : splitPath (dir ++ "/" ++ x) = (dir, x) := splitPath_append hslash
  rw [reaches_iff, route_first h hh (by rw [hsplit, hfst]), routeDirect, hsplit]
  dsimp only
  by_cases hd : dir ∈ a.state.dirs
  · rw [if_pos hd, if_pos hd]
  · rw [if_neg hd, if_neg hd]

/-- What a new reference names, before its directory has been saved, has no files. -/
theorem reachesIn_placeholder (hp : NoPlaceholder env regs w w') {dir : String} {w1 : World β}
    {dirRef : DirRef} {ctx : DirContext Unit} {enableEncryption : Bool}
    (hb : buildChildDirRef env ctx enableEncryption w = (w1, dirRef))
    (hh : a.dirHandles.lookup dir = none) (hd : a.state.dirs[dir]? = some dirRef) (rest : String)
    {r : Option FileRef} (hr : ReachesIn env w' regs (openDir env w' regs a dir) rest r) : r = none := by
  unfold buildChildDirRef at hb
  obtain ⟨-, rfl⟩ := Prod.mk.inj hb
  unfold openDir at hr
  rw [hh] at hr
  dsimp only at hr
  rw [hd] at hr
  dsimp only at hr
  cases hs : ctx.signingKey with
  | none =>
    -- the blob of zeros is not in the store
    simp only [hs, DirRef.refTypeD, Option.isSome_none, Bool.false_eq_true, if_false, Option.getD_none,
      dirLink, spawn, load, DirContext.withNewRef, World.readAsBytes, hp.zero, bind, Except.bind] at hr
    exact hr
  | some key =>
    -- the drawn pointer is not in the registry: the directory is taken for an empty one
    have hnone := hp.handles w.next.tick (Nat.le_succ _)
    have hreg := hp.registry w.next.tick (Nat.le_succ _)
    simp only [hs, DirRef.refTypeD, Option.isSome_some, if_true, Option.getD_some, dirLink, spawn, load,
      DirContext.withNewRef, hnone, hreg, bind, Except.bind, pure, Except.pure] at hr
    have hempty : ∀ c, Reaches env w' regs (ofNew c .new) rest r → r = none := by
      intro c hc
      have hdirs : (ofNew c .new).state.dirs = ∅ := rfl
      rw [reaches_plain (Plain.ofNew c rfl).unsharded, hdirs, if_neg ExtTreeMap.not_mem_empty] at hc
      rw [hc]
      exact ExtTreeMap.getElem?_empty
    exact hempty _ hr

variable [DecidableEq β] {order : GroupOrder}

/-- What a promotion that fails leaves: the files below the prefix are gone from the directory, and a
placeholder stands for the new one. -/
theorem promotePrefix_error {dir e : String}
    (hrun : promotePrefix env order regs w a dir = (w', a', .error e)) :
    dir ∉ a.state.dirs ∧ ∃ w1 dirRef,
      buildChildDirRef env a.context a.context.encryptionType.isSome w = (w1, dirRef) ∧
      FailedBetween env w1 w' ∧
      a' = { a with state := { (extractChildDirState a.state dir).1 with
        dirs := a.state.dirs.insert dir dirRef } } := by
  unfold promotePrefix at hrun
  by_cases hmem : dir ∈ a.state.dirs
  · rw [if_pos hmem] at hrun
    cases hrun
  · rw [if_neg hmem] at hrun
    dsimp only at hrun
    generalize hb : buildChildDirRef env a.context a.context.encryptionType.isSome w = built at hrun
    obtain ⟨w1, dirRef⟩ := built
    dsimp only at hrun
    refine ⟨hmem, w1, dirRef, rfl, ?_⟩
    generalize hopt : optimizeDirStructureIn env order a.context (extractChildDirState a.state dir).2 w1 =
      res at hrun
    obtain ⟨w2, e2 | optimized⟩ := res
    · obtain ⟨rfl, rfl, -⟩ := by simpa using hrun
      exact ⟨failed_optimizeFrom order a.context _ _ _ _ _ hopt, rfl⟩
    · -- the new directory has a reference, so it can be opened
      dsimp only at hrun
      split at hrun
      · rename_i e3 ho
        unfold openNewDir at ho
        split at ho
        · cases ho
        · rw [show ((extractChildDirState a.state dir).1.dirs.insert dir dirRef)[dir]? = some dirRef from
            ExtTreeMap.getElem?_insert_self] at ho
          dsimp only at ho
          split at ho
          · cases ho
          · cases ho
      · cases hrun

/-- What a promotion that has been set off leaves if it fails. -/
theorem checkAutoPromote_error {q e : String}
    (hrun : checkAutoPromote env order regs w a q = (w', a', .error e)) :
    ∃ dir rest, splitOnce q = some (dir, rest) ∧ promotionThreshold < countBelow a.state dir ∧
      promotePrefix env order regs w a dir = (w', a', .error e) := by
  unfold checkAutoPromote at hrun
  cases hp : splitOnce q with
  | none =>
    rw [hp] at hrun
    cases hrun
  | some nr =>
    obtain ⟨dir, rest⟩ := nr
    rw [hp] at hrun
    dsimp only at hrun
    by_cases hlt : promotionThreshold < countBelow a.state dir
    · rw [if_pos hlt] at hrun
      exact ⟨dir, rest, rfl, hlt, hrun⟩
    · rw [if_neg hlt] at hrun
      cases hrun

/-- **Files are lost when a promotion fails.** Whatever the failure and whatever the directory, some path
does not resolve any more to what the operation alone would have left there. -/
theorem failed_promotion_loses (hplace : NoPlaceholder env regs w w')
    (hnamed : ∀ name child, a.dirHandles.lookup name = some child → name ∈ a.state.dirs)
    {task : FileTask} {q e : String} (hq : route env a.state q = .ok .here)
    (hrun : fileOpAt env order regs task w a q = (w', a', .error e)) :
    ¬ (SameLookups env regs w (a.fileOpHere task (env.utcNow w.tick) q) w' a' ∧ a'.dirty = true) := by
  rintro ⟨hs, -⟩
  unfold fileOpAt at hrun
  unfold fileOpHere at hs
  cases htask : task.execute (env.utcNow w.tick) a.state.files[q]? with
  | none =>
    rw [htask] at hrun
    cases hrun
  | some file =>
    rw [htask] at hrun hs
    dsimp only at hrun hs
    generalize hcheck : checkAutoPromote env order regs w.next
      { a with state.files := a.state.files.insert q file } q = res at hrun
    obtain ⟨w1, a1, r1⟩ := res
    cases r1 with
    | ok u => cases hrun
    | error e1 =>
      obtain ⟨rfl, rfl, -⟩ := by simpa using hrun
      obtain ⟨dir, rest, hp, hlt, hprom⟩ := checkAutoPromote_error hcheck
      obtain ⟨hnew, w2, dirRef, hb, -, rfl⟩ := promotePrefix_error hprom
      have hfst : (splitPath q).1 = dir := by rw [splitPath_of_some hp]
      obtain ⟨x, hx⟩ := exists_key_of_large hlt
      obtain ⟨f, hf⟩ := Option.isSome_iff_exists.1 (ExtTreeMap.mem_iff_isSome_getElem?.1 hx)
      have hafter := (hs (dir ++ "/" ++ x) (some f)).1 (by
        refine (reaches_first hq ?_ hfst x).2 ?_
        · rfl
        · exact (if_neg hnew).mpr hf.symm)
      replace hafter := (reaches_first hq (by rfl) hfst x).1 hafter
      rw [if_pos (ExtTreeMap.mem_insert.2 (.inl (Std.compare_eq_iff_eq.2 rfl)))] at hafter
      have hnone : a.dirHandles.lookup dir = none := by
        cases hl : a.dirHandles.lookup dir with
        | none => rfl
        | some child => exact absurd (hnamed dir child hl) hnew
      cases reachesIn_placeholder (a := { a with state := { (extractChildDirState
          { a.state with files := a.state.files.insert q file } dir).1 with
            dirs := a.state.dirs.insert dir dirRef } }) hplace.next hb hnone
        ExtTreeMap.getElem?_insert_self x hafter

end

/-! A root with files two directories down. -/

/-- A clean local root with eleven files below `d/e/`. -/
def nestedRoot : Actor where
  context := .localRoot
  state := nestedFiles
  dirty := false
  dirHandles := []
  dirShardHandles := []
  lastSerializedLen := 0
  shardSizeCheckOps := 0

/-- A meta store that takes no blob. -/
def brokenStore : Env Sym := { symbolic xxh3Short with storeFails := fun _ => true }

theorem noPlaceholder_broken {w w' : World Sym} (hs : w'.store = ∅) (hr : w'.registry = ∅) :
    NoPlaceholder brokenStore [] w w' := by
  refine ⟨?_, fun n _ => ?_, fun _ _ => rfl⟩
  · rw [hs]
    exact ExtTreeMap.getElem?_empty
  · rw [hr]
    exact ExtTreeMap.getElem?_empty

theorem failed_promotion_loses_nestedRoot : ∃ w a e,
    fileOpAt brokenStore (fun _ _ groups => groups) [] (.put (.new 3 3)) emptyWorld nestedRoot "d/e/k" =
      (w, a, .error e) ∧
    ¬ (SameLookups brokenStore [] emptyWorld (nestedRoot.fileOpHere (.put (.new 3 3))
      (brokenStore.utcNow emptyWorld.tick) "d/e/k") w a ∧ a.dirty = true) := by
  have hfail : (fileOpAt brokenStore (fun _ _ groups => groups) [] (.put (.new 3 3)) emptyWorld
        nestedRoot "d/e/k").2.2.isOk = false ∧
      (fileOpAt brokenStore (fun _ _ groups => groups) [] (.put (.new 3 3)) emptyWorld
        nestedRoot "d/e/k").1.store = ∅ ∧
      (fileOpAt brokenStore (fun _ _ groups => groups) [] (.put (.new 3 3)) emptyWorld
        nestedRoot "d/e/k").1.registry = ∅ := by
    decide +kernel
  have hroute : route brokenStore nestedRoot.state "d/e/k" = .ok .here := by decide +kernel
  generalize hrun : fileOpAt brokenStore (fun _ _ groups => groups) [] (.put (.new 3 3)) emptyWorld
    nestedRoot "d/e/k" = res at hfail
  obtain ⟨w, a, r⟩ := res
  cases r with
  | ok u => cases hfail.1
  | error e =>
    have hnamed : ∀ name child, nestedRoot.dirHandles.lookup name = some child →
        name ∈ nestedRoot.state.dirs := fun _ _ h => nomatch h
    exact ⟨w, a, e, rfl, failed_promotion_loses (noPlaceholder_broken hfail.2.1 hfail.2.2) hnamed hroute
      hrun⟩

/-- The promotion of `d` fails at the directory below it: no file in either is found any more, and
nobody knows that there is something to save. -/
theorem nestedRoot_lost : ∃ w a e,
    fileOpAt brokenStore (fun _ _ groups => groups) [] (.put (.new 3 3)) emptyWorld nestedRoot "d/e/k" =
      (w, a, .error e) ∧
    Reaches brokenStore emptyWorld [] nestedRoot "d/e/a" (some (.new 1 1)) ∧
    Reaches brokenStore w [] a "d/e/a" none ∧ a.dirty = false := by
  have hfail : (fileOpAt brokenStore (fun _ _ groups => groups) [] (.put (.new 3 3)) emptyWorld
        nestedRoot "d/e/k").2.2.isOk = false ∧
      lookup brokenStore (fileOpAt brokenStore (fun _ _ groups => groups) [] (.put (.new 3 3)) emptyWorld
        nestedRoot "d/e/k").1 [] 2 (fileOpAt brokenStore (fun _ _ groups => groups) [] (.put (.new 3 3))
          emptyWorld nestedRoot "d/e/k").2.1 "d/e/a" = some none ∧
      (fileOpAt brokenStore (fun _ _ groups => groups) [] (.put (.new 3 3)) emptyWorld
        nestedRoot "d/e/k").2.1.dirty = false := by
    decide +kernel
  generalize hrun : fileOpAt brokenStore (fun _ _ groups => groups) [] (.put (.new 3 3)) emptyWorld
    nestedRoot "d/e/k" = res at hfail
  obtain ⟨w, a, r⟩ := res
  cases r with
  | ok u => cases hfail.1
  | error e => exact ⟨w, a, e, rfl, ⟨1, by decide +kernel⟩, ⟨2, hfail.2.1⟩, hfail.2.2⟩

end Actor

end Fs
