import S5.Fs.Proof.Create
import S5.Fs.Proof.ShardMerge
import S5.Fs.Symbolic

/-!
# Deleting a file again

Reads take a tombstone for a missing file, the closure of `file_delete` takes it for the file to
delete: a new tombstone is put over it.

* `pathOp_missing`: a delete that finds no entry changes no lookup.
* `delete_again_iff`: with no file at the path, a delete changes no file reference exactly if there is
  no tombstone either.
-/

open Std

namespace Fs

namespace Actor

section
variable {β : Type} {env : Env β} {w w' : World β} {regs : RegistryDirHandles} {a a' b child child' : Actor}

/-! ## Who handles a path -/

/-- A request on a path ends at the directory or shard `b`, which is asked for `q`. -/
inductive Receives (env : Env β) (w : World β) (regs : RegistryDirHandles) :
    Actor → String → Actor → String → Prop where
  | here {a : Actor} {path : String} (h : route env a.state path = .ok .here) :
      Receives env w regs a path a path
  | shard {a child b : Actor} {path q : String} {index : UInt8}
      (h : route env a.state path = .ok (.shard index))
      (ho : openDirShard env w a index = .ok child) (hb : Receives env w regs child path b q) :
      Receives env w regs a path b q
  | dir {a child b : Actor} {path q name rest : String}
      (h : route env a.state path = .ok (.dir name rest))
      (ho : openDir env w regs a name = .ok child) (hb : Receives env w regs child rest b q) :
      Receives env w regs a path b q

theorem Receives.reaches {path q : String} (h : Receives env w regs a path b q) {r : Option FileRef} :
    Reaches env w regs a path r ↔ r = b.state.files[q]? := by
  induction h with
  | here h => rw [reaches_iff, h]
  | shard h ho _ ih =>
    rw [reaches_iff, h]
    dsimp only
    rw [ho]
    exact ih
  | dir h ho _ ih =>
    rw [reaches_iff, h]
    dsimp only
    rw [ho]
    exact ih

/-- An entry is found where the path is handled. -/
theorem receives_of_reaches {path : String} {f : FileRef} (h : Reaches env w regs a path (some f)) :
    ∃ b q, Receives env w regs a path b q := by
  obtain ⟨fuel, h⟩ := h
  induction fuel generalizing a path with
  | zero => cases h
  | succ fuel ih =>
    unfold lookup routeToChild at h
    cases hroute : route env a.state path with
    | error e =>
      rw [hroute] at h
      cases h
    | ok rt =>
      rw [hroute] at h
      cases rt with
      | here => exact ⟨a, path, .here hroute⟩
      | shard index =>
        simp only [bind, Except.bind, pure, Except.pure] at h
        cases ho : openDirShard env w a index with
        | error e =>
          rw [ho] at h
          cases h
        | ok child =>
          rw [ho] at h
          obtain ⟨b, q, hb⟩ := ih h
          exact ⟨b, q, .shard hroute ho hb⟩
      | dir name rest =>
        simp only [bind, Except.bind, pure, Except.pure] at h
        cases ho : openDir env w regs a name with
        | error e =>
          rw [ho] at h
          cases h
        | ok child =>
          rw [ho] at h
          obtain ⟨b, q, hb⟩ := ih h
          exact ⟨b, q, .dir hroute ho hb⟩

/-- A request ends where a lookup does. -/
theorem pathOp_isSome (act : World β → Actor → String → World β × Actor × Except String Unit)
    {fuel : Nat} {path : String} {r : Option FileRef}
    (h : lookup env w regs fuel a path = some r) : (pathOp env act regs fuel w a path).isSome := by
  induction fuel generalizing a path with
  | zero => cases h
  | succ fuel ih =>
    unfold lookup routeToChild at h
    unfold pathOp
    cases hroute : route env a.state path with
    | error e => rfl
    | ok rt =>
      rw [hroute] at h
      cases rt with
      | here => rfl
      | shard index =>
        simp only [bind, Except.bind, pure, Except.pure] at h
        dsimp only
        cases ho : openDirShard env w a index with
        | error e => rfl
        | ok child =>
          rw [ho] at h
          rw [Option.isSome_map]
          exact ih h
      | dir name rest =>
        simp only [bind, Except.bind, pure, Except.pure] at h
        dsimp only
        cases ho : openDir env w regs a name with
        | error e => rfl
        | ok child =>
          rw [ho] at h
          rw [Option.isSome_map]
          exact ih h

/-! ## Trees that differ in one child -/

/-- Lookups agree in directories of the same entries whose children agree. -/
theorem sameLookups_of_children (hs : a'.state = a.state)
    (hshards : ∀ index path r, ReachesIn env w regs (openDirShard env w a index) path r ↔
      ReachesIn env w' regs (openDirShard env w' a' index) path r)
    (hdirs : ∀ name path r, ReachesIn env w regs (openDir env w regs a name) path r ↔
      ReachesIn env w' regs (openDir env w' regs a' name) path r) :
    SameLookups env regs w a w' a' := by
  intro path r
  rw [reaches_iff, reaches_iff, hs]
  cases route env a.state path with
  | error e => exact Iff.rfl
  | ok rt =>
    cases rt with
    | here => exact Iff.rfl
    | shard index => exact hshards index path r
    | dir name rest => exact hdirs name rest r

theorem sameLookups_keepShard {index : UInt8} (ho : openDirShard env w a index = .ok child)
    (hun : Undisturbed env regs w w' a) (h : SameLookups env regs w child w' child') :
    SameLookups env regs w a w' (a.keepShard index child') := by
  refine sameLookups_of_children rfl (fun i path r => ?_) fun name path r => ?_
  · rw [openDirShard_keepShard]
    by_cases hi : i = index
    · rw [if_pos hi, hi, ho]
      exact h path r
    · rw [if_neg hi, hun.openDirShard]
      cases hc : openDirShard env w a i with
      | error e => exact Iff.rfl
      | ok c => exact (hun.inShard hc).reaches.symm
  · have hopen : openDir env w' regs (a.keepShard index child') name = openDir env w' regs a name := rfl
    rw [hopen, hun.openDir]
    cases hc : openDir env w regs a name with
    | error e => exact Iff.rfl
    | ok c => exact (hun.inDir hc).reaches.symm

theorem sameLookups_keepDir_of {name : String} (ho : openDir env w regs a name = .ok child)
    (hun : Undisturbed env regs w w' a) (h : SameLookups env regs w child w' child') :
    SameLookups env regs w a w' (a.keepDir name child') := by
  refine sameLookups_of_children rfl (fun i path r => ?_) fun n path r => ?_
  · have hopen : openDirShard env w' (a.keepDir name child') i = openDirShard env w' a i := rfl
    rw [hopen, hun.openDirShard]
    cases hc : openDirShard env w a i with
    | error e => exact Iff.rfl
    | ok c => exact (hun.inShard hc).reaches.symm
  · rw [openDir_keepDir]
    by_cases hn : n = name
    · rw [if_pos hn, hn, ho]
      exact h path r
    · rw [if_neg hn, hun.openDir]
      cases hc : openDir env w regs a n with
      | error e => exact Iff.rfl
      | ok c => exact (hun.inDir hc).reaches.symm

theorem SameLookups.hear (h : SameLookups env regs w a w' a') :
    SameLookups env regs w a w' (a'.hear child child') :=
  fun path r => (h path r).trans reaches_hear.symm

variable (env w regs) in
/-- Lookups do not look at the clock. -/
theorem undisturbed_next (a : Actor) : Undisturbed env regs w w.next a := fun _ _ => rfl

/-! ## Deletes -/

variable [DecidableEq β] {order : GroupOrder}

/-- Without an entry a delete leaves the directory as it is, but for its dirty mark. -/
theorem fileOpAt_delete_missing {q : String} (h : b.state.files[q]? = none) :
    fileOpAt env order regs .delete w b q = (w.next, b.markAsDirty, .ok ()) := by
  have hfiles : b.state.files.erase q = b.state.files := by
    refine ExtTreeMap.ext_getElem? fun k => ?_
    rw [ExtTreeMap.getElem?_erase]
    by_cases hk : q = k
    · rw [if_pos (Std.compare_eq_iff_eq.2 hk), ← hk, h]
    · rw [if_neg (mt Std.compare_eq_iff_eq.1 hk)]
  unfold fileOpAt FileTask.execute
  rw [h]
  dsimp only [Option.map_none]
  rw [hfiles]
  cases b
  rfl

/-- A tombstone goes below a new one. -/
theorem fromDeleted_ne (f : FileRef) (s ns : UInt32) : f.fromDeleted s ns ≠ f := by
  intro h
  have hsize := congrArg sizeOf (congrArg FileRef.prev h)
  have hlt : sizeOf f.prev < sizeOf f := by
    cases f
    simp only [FileRef.mk.sizeOf_spec]
    omega
  have hsome : (f.fromDeleted s ns).prev = some f := rfl
  rw [hsome] at hsize
  simp only [Option.some.sizeOf_spec] at hsize
  omega

variable (env order regs) in
/-- A promotion leaves a file where it is or takes it away. -/
theorem checkAutoPromote_file (w : World β) (a : Actor) (q k : String) :
    (checkAutoPromote env order regs w a q).2.1.state.files[k]? = a.state.files[k]? ∨
      (checkAutoPromote env order regs w a q).2.1.state.files[k]? = none := by
  have hextract : ∀ dir, (extractChildDirState a.state dir).1.files[k]? = a.state.files[k]? ∨
      (extractChildDirState a.state dir).1.files[k]? = none := by
    intro dir
    rw [extractChildDirState_fst_files]
    split
    · exact .inr rfl
    · exact .inl rfl
  have hopen : ∀ (c : Actor) (name : String) (d : DirV1) (c' : Actor),
      openNewDir regs c name d = .ok c' → c'.state = c.state := by
    intro c name d c' h
    unfold openNewDir at h
    repeat' split at h
    all_goals cases h
    all_goals rfl
  unfold checkAutoPromote
  split
  · exact .inl rfl
  · rename_i dir rest _
    split
    · unfold promotePrefix
      split
      · exact .inl rfl
      · dsimp only
        split
        · exact hextract dir
        · split
          · exact hextract dir
          · rename_i c' ho
            dsimp only
            rw [hopen _ _ _ _ ho]
            exact hextract dir
    · exact .inl rfl

/-- With an entry the files of the directory change, whether a promotion follows or not. -/
theorem fileOpAt_delete_found {q : String} {f : FileRef} (h : b.state.files[q]? = some f) :
    (fileOpAt env order regs .delete w b q).2.1.state.files ≠ b.state.files := by
  intro hsame
  replace hsame := congrArg (·[q]?) hsame
  rw [h] at hsame
  unfold fileOpAt at hsame
  rw [h] at hsame
  unfold FileTask.execute at hsame
  simp only [Option.map_some] at hsame
  generalize hb : ({ b with state.files := b.state.files.insert q _ } : Actor) = b1 at hsame
  have hfile := checkAutoPromote_file env regs order w.next b1 q q
  have hb1 : b1.state.files[q]? =
      some (f.fromDeleted (env.utcNow w.tick).1 (env.utcNow w.tick).2) := by
    rw [← hb]
    exact ExtTreeMap.getElem?_insert_self
  generalize checkAutoPromote env order regs w.next b1 q = res at hfile hsame
  obtain ⟨w1, a1, r⟩ := res
  have hnew : a1.state.files[q]? = some f := by
    cases r with
    | error e => exact hsame
    | ok u => exact hsame
  rw [hnew, hb1] at hfile
  rcases hfile with hfile | hfile
  · exact fromDeleted_ne f _ _ (Option.some.inj hfile).symm
  · cases hfile

/-- **A delete that finds no entry changes no lookup.** -/
theorem pathOp_missing {fuel : Nat} {path : String} {res : Except String Unit}
    (hrun : pathOp env (fileOpAt env order regs .delete) regs fuel w a path = some (w', a', res))
    (hr : Reaches env w regs a path none) :
    (w' = w ∨ w' = w.next) ∧ SameLookups env regs w a w' a' := by
  have hund : ∀ w1 c, w1 = w ∨ w1 = w.next → Undisturbed env regs w w1 c := by
    rintro w1 c (rfl | rfl)
    · exact fun _ _ => rfl
    · exact undisturbed_next env w regs c
  induction fuel generalizing a a' path with
  | zero => cases hrun
  | succ fuel ih =>
    unfold pathOp at hrun
    rw [reaches_iff] at hr
    cases hroute : route env a.state path with
    | error e =>
      rw [hroute] at hrun
      obtain ⟨rfl, rfl, -⟩ := by simpa using hrun
      exact ⟨.inl rfl, fun _ _ => Iff.rfl⟩
    | ok rt =>
      rw [hroute] at hrun hr
      cases rt with
      | here =>
        dsimp only at hrun hr
        rw [fileOpAt_delete_missing hr.symm] at hrun
        obtain ⟨rfl, rfl, -⟩ := by simpa using hrun
        refine ⟨.inr rfl, fun p r => ?_⟩
        rw [← (undisturbed_next env w regs a).reaches]
        exact reaches_congr (a := a) (b := a.markAsDirty) rfl rfl rfl rfl
      | shard index =>
        dsimp only at hrun hr
        cases ho : openDirShard env w a index with
        | error e =>
          rw [ho] at hrun
          obtain ⟨rfl, rfl, -⟩ := by simpa using hrun
          exact ⟨.inl rfl, fun _ _ => Iff.rfl⟩
        | ok child =>
          rw [ho] at hrun hr
          simp only [Option.map_eq_some_iff, Prod.mk.injEq, Prod.exists] at hrun
          obtain ⟨w1, child', r, hchild, rfl, rfl, rfl⟩ := hrun
          obtain ⟨hw, hsame⟩ := ih hchild hr
          exact ⟨hw, (sameLookups_keepShard ho (hund w1 a hw) hsame).hear⟩
      | dir name rest =>
        dsimp only at hrun hr
        cases ho : openDir env w regs a name with
        | error e =>
          rw [ho] at hrun
          obtain ⟨rfl, rfl, -⟩ := by simpa using hrun
          exact ⟨.inl rfl, fun _ _ => Iff.rfl⟩
        | ok child =>
          rw [ho] at hrun hr
          simp only [Option.map_eq_some_iff, Prod.mk.injEq, Prod.exists] at hrun
          obtain ⟨w1, child', r, hchild, rfl, rfl, rfl⟩ := hrun
          obtain ⟨hw, hsame⟩ := ih hchild hr
          exact ⟨hw, (sameLookups_keepDir_of ho (hund w1 a hw) hsame).hear⟩

/-- The delete of a path changes no file reference: every lookup in the tree reaches what it did, and
the directory that handles the path keeps its files. -/
structure DeleteKeeps (env : Env β) (order : GroupOrder) (regs : RegistryDirHandles) (w : World β)
    (a : Actor) (path : String) (w' : World β) (a' : Actor) : Prop where
  lookups : SameLookups env regs w a w' a'
  files : ∀ b q, Receives env w regs a path b q →
    (fileOpAt env order regs .delete w b q).2.1.state.files = b.state.files

variable (order) in
/-- **Deleting a file that does not exist changes nothing exactly if there is no tombstone.** -/
theorem delete_again_iff {path : String} {r : Option FileRef} (hr : Reaches env w regs a path r)
    (hexists : live r = none) :
    (∃ fuel out, pathOp env (fileOpAt env order regs .delete) regs fuel w a path = some out) ∧
      ∀ fuel w' a' res,
        pathOp env (fileOpAt env order regs .delete) regs fuel w a path = some (w', a', res) →
        (DeleteKeeps env order regs w a path w' a' ↔ ¬ ∃ f : FileRef, r = some f ∧ f.isTombstone) := by
  refine ⟨?_, fun fuel w' a' res hrun => ?_⟩
  · obtain ⟨fuel, hlook⟩ := hr
    exact ⟨fuel, Option.isSome_iff_exists.1 (pathOp_isSome _ hlook)⟩
  constructor
  · rintro h ⟨f, rfl, -⟩
    obtain ⟨b, q, hb⟩ := receives_of_reaches hr
    exact fileOpAt_delete_found (hb.reaches.1 hr).symm (h.files b q hb)
  · intro hnone
    have hr0 : r = none := by
      cases r with
      | none => rfl
      | some f =>
        have ht : f.isTombstone = true := by simpa [live] using hexists
        exact absurd ⟨f, rfl, ht⟩ hnone
    subst hr0
    refine ⟨(pathOp_missing hrun hr).2, fun b q hb => ?_⟩
    rw [fileOpAt_delete_missing (hb.reaches.1 hr).symm]
    rfl

end

/-! A root with a deleted file. -/

/-- What is left of a file that has been deleted at time zero. -/
def goneFile : FileRef := (FileRef.new 1 1).fromDeleted 0 0

/-- A clean local root that holds only the tombstone. -/
def goneRoot : Actor where
  context := .localRoot
  state := { DirV1.new with files := (∅ : ExtTreeMap String FileRef).insert "f" goneFile }
  dirty := false
  dirHandles := []
  dirShardHandles := []
  lastSerializedLen := 0
  shardSizeCheckOps := 0

theorem delete_again_goneRoot : ∃ fuel w a res,
    pathOp (symbolic xxh3Short) (fileOpAt (symbolic xxh3Short) (fun _ _ groups => groups) [] .delete) []
      fuel emptyWorld goneRoot "f" = some (w, a, res) ∧
    ¬ DeleteKeeps (symbolic xxh3Short) (fun _ _ groups => groups) [] emptyWorld goneRoot "f" w a := by
  have hreach : Reaches (symbolic xxh3Short) emptyWorld [] goneRoot "f" (some goneFile) :=
    ⟨1, by decide +kernel⟩
  obtain ⟨⟨fuel, ⟨w, a, res⟩, hrun⟩, hiff⟩ := delete_again_iff (fun _ _ groups => groups) hreach
    (by decide)
  refine ⟨fuel, w, a, res, hrun, ?_⟩
  rw [hiff fuel w a res hrun]
  exact fun h => h ⟨goneFile, rfl, by decide⟩

/-- The second delete of the file puts a tombstone of a third version over the second one. A version
that somebody else has written between the two is lost in the next merge. -/
theorem tombstone_deleted_again : ∃ w a,
    pathOp (symbolic xxh3Short) (fileOpAt (symbolic xxh3Short) (fun _ _ groups => groups) [] .delete) []
      1 emptyWorld goneRoot "f" = some (w, a, .ok ()) ∧
    Reaches (symbolic xxh3Short) emptyWorld [] goneRoot "f" (some goneFile) ∧
    live (some goneFile) = none ∧
    goneFile.versionCount = some 2 ∧
    Reaches (symbolic xxh3Short) w [] a "f" (some (goneFile.fromDeleted 1 0)) ∧
    (goneFile.fromDeleted 1 0).versionCount = some 3 ∧
    (lww ⟨none, some goneFile, false⟩ none
      (some { FileRef.new 2 2 with timestampSubsecNanos := some 7 })).file =
        some { FileRef.new 2 2 with timestampSubsecNanos := some 7 } ∧
    (lww ⟨none, some (goneFile.fromDeleted 1 0), false⟩ none
      (some { FileRef.new 2 2 with timestampSubsecNanos := some 7 })).file =
        some (goneFile.fromDeleted 1 0) := by
  have hok : (pathOp (symbolic xxh3Short) (fileOpAt (symbolic xxh3Short) (fun _ _ groups => groups) []
      .delete) [] 1 emptyWorld goneRoot "f").any (fun x => x.2.2.isOk &&
        decide (lookup (symbolic xxh3Short) x.1 [] 1 x.2.1 "f" =
          some (some (goneFile.fromDeleted 1 0)))) = true := by
    decide +kernel
  generalize pathOp (symbolic xxh3Short) (fileOpAt (symbolic xxh3Short)
    (fun _ _ groups => groups) [] .delete) [] 1 emptyWorld goneRoot "f" = out at hok
  obtain _ | ⟨w, a, r⟩ := out
  · cases hok
  · obtain e | u := r
    · cases hok
    · refine ⟨w, a, rfl, ⟨1, by decide +kernel⟩, by decide, by decide, ⟨1, ?_⟩, by decide,
        by decide +kernel, by decide +kernel⟩
      rw [Option.any_some, Bool.and_eq_true_iff] at hok
      exact of_decide_eq_true hok.2

end Actor

end Fs
