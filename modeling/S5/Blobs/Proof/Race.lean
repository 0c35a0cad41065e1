import S5.Blobs.Proof.Pinned
import S5.Blobs.Race

/-!
# Pins under concurrent requests

* `acked_stored`: whatever requests run at the same time, a blob whose pin a peer was told of is in
  that peer's upload store when all requests have finished, in every run in which no step acts on a
  check that no longer holds (`Orderly`): a blob is pinned while it is still stored, a store is
  cleared of a blob that no peer uploading into it has pinned by then, and a delete does not unpin
  for a peer that was told of its pin after the delete was issued.
* `pin_alone`, `delete_alone`: a request whose steps nothing comes between does what `handlePin`
  and `handleDelete` do.
-/

open Std

namespace Blobs

open BlobsServer

variable (nodeKey : NodeId → String)

/-- The blob is in the upload store of the peer. -/
def BlobsServer.Has (srv : BlobsServer) (node : NodeId) (h : Hash) : Prop :=
  ∃ name ∈ srv.uploadStore nodeKey node, srv.Stored name h

namespace Race

/-- Once no request is running, every blob whose pin a peer was told of is in its upload store. -/
def Kept (s : Race) : Prop :=
  (∀ t ∈ s.tasks, t.isFinished = true) → ∀ node h, (node, h) ∈ s.acked → s.srv.Has nodeKey node h

/-- The step acts on what is still so. -/
def Orderly (s : Race) : RaceEvent → Prop
  | .run i name =>
    match s.tasks[i]? with
    | some (.pinning node h) => s.srv.Has nodeKey node h
    | some (.delete node h) => s.srv.pinner.isSome → (node, h) ∉ s.acked
    | some (.deleting h remaining) => name ∈ remaining → ∀ node,
        name ∈ s.srv.uploadStore nodeKey node → ¬ s.srv.Holds node h
    | _ => True
  | _ => True

/-- What the answers promise is so: the peers of `acked` have their blobs stored and, if there are
pins at all, pinned. Blobs are cleared only where there are pins. -/
structure Inv (s : Race) : Prop where
  stored : ∀ node h, (node, h) ∈ s.acked → s.srv.Has nodeKey node h
  pinned : ∀ node h, (node, h) ∈ s.acked → s.srv.pinner.isSome → s.srv.Holds node h
  pinning : ∀ h remaining, .deleting h remaining ∈ s.tasks → s.srv.pinner.isSome

/-! ## The steps of a task -/

/-- What a pin request does first. -/
theorem step_pin (srv : BlobsServer) (name : String) (node : NodeId) (h : Hash) :
    ∃ t', Task.step nodeKey srv name (.pin node h) = (srv, t') ∧
      (∀ k remaining, t' ≠ .deleting k remaining) ∧
      (t' = .finished (.ok true) → srv.pinner = none ∧ srv.Has nodeKey node h) := by
  unfold Task.step
  dsimp only
  cases hc : srv.cfgFor (nodeKey node) with
  | none => exact ⟨_, rfl, by simp, by simp⟩
  | some cfg =>
    dsimp only
    cases hn : cfg.storeUploadsIn with
    | none => exact ⟨_, rfl, by simp, by simp⟩
    | some storeName =>
      dsimp only
      cases hs : srv.stores[storeName]? with
      | none => exact ⟨_, rfl, by simp, by simp⟩
      | some store =>
        dsimp only
        have hhas : store.contains h = true → srv.Has nodeKey node h := fun hin =>
          ⟨storeName, by simp [uploadStore, hc, hn], store, hs,
            by simpa [BlobStore.contains] using hin⟩
        by_cases hin : store.contains h = true
        · rw [if_pos hin]
          cases hp : srv.pinner with
          | none => exact ⟨_, rfl, by simp, fun _ => ⟨rfl, hhas hin⟩⟩
          | some p => exact ⟨_, rfl, by simp, by simp⟩
        · rw [if_neg hin]
          exact ⟨_, rfl, by simp, by simp⟩

/-- What a delete request does first: nothing, or it unpins. -/
theorem step_delete (srv : BlobsServer) (name : String) (node : NodeId) (h : Hash) :
    (∃ res, Task.step nodeKey srv name (.delete node h) = (srv, .finished res)) ∨
    ∃ p t', srv.pinner = some p ∧ Task.step nodeKey srv name (.delete node h) =
      ({ srv with pinner := some (p.unpinHash h (.nodeId node)).1 }, t') := by
  unfold Task.step
  dsimp only
  cases srv.cfgFor (nodeKey node) with
  | none => exact .inl ⟨_, rfl⟩
  | some cfg =>
    dsimp only
    by_cases hn : cfg.storeUploadsIn.isNone = true
    · rw [if_pos hn]
      exact .inl ⟨_, rfl⟩
    · rw [if_neg hn]
      cases srv.pinner with
      | none => exact .inl ⟨_, rfl⟩
      | some p => exact .inr ⟨p, _, rfl, rfl⟩

/-! ## Requests that run alone -/

/-- The steps of a task with none of another in between. -/
def alone (srv : BlobsServer) (t : Task) : List String → BlobsServer × Task
  | [] => (srv, t)
  | name :: names => alone (t.step nodeKey srv name).1 (t.step nodeKey srv name).2 names

theorem finished_alone (srv : BlobsServer) (res : Except String Bool) :
    ∀ names : List String, alone nodeKey srv (.finished res) names = (srv, .finished res)
  | [] => rfl
  | _ :: names => finished_alone srv res names

/-- The stores `names` cleared of `h`. -/
def clearStores (h : Hash) (names : List String) (stores : ExtTreeMap String BlobStore) :
    ExtTreeMap String BlobStore :=
  names.foldl (fun m name => m.alter name (·.map fun st : BlobStore => st.delete h)) stores

theorem clear_alone (h : Hash) : ∀ (names : List String) (srv : BlobsServer),
    alone nodeKey srv (.clear h names) names =
      ({ srv with stores := clearStores h names srv.stores }, .finished (.ok true))
  | [], _ => rfl
  | name :: names, srv => by
    have hst : Task.step nodeKey srv name (.clear h (name :: names)) =
        ({ srv with stores := srv.stores.alter name (·.map (·.delete h)) }, .clear h names) := by
      simp [Task.clear, Task.step]
    unfold alone
    rw [hst, clear_alone h names]
    rfl

theorem getElem?_clearStores (h : Hash) (k : String) :
    ∀ (names : List String) (m : ExtTreeMap String BlobStore),
      (clearStores h names m)[k]? =
        if k ∈ names then m[k]?.map fun st : BlobStore => st.delete h else m[k]?
  | [], m => by simp [clearStores]
  | name :: names, m => by
    have htwice : ∀ st : BlobStore, (st.delete h).delete h = st.delete h := by
      intro st
      refine ExtTreeMap.ext_getElem? fun j => ?_
      simp only [BlobStore.delete, ExtTreeMap.getElem?_erase]
      split <;> rfl
    show (clearStores h names (m.alter name _))[k]? = _
    rw [getElem?_clearStores h k names, ExtTreeMap.getElem?_alter]
    by_cases hk : name = k
    · subst hk
      cases m[name]? <;> simp [htwice]
    · simp [hk, Ne.symm hk]

theorem clearStores_keys (h : Hash) (m : ExtTreeMap String BlobStore) :
    clearStores h m.keys m = m.map fun _ st => st.delete h := by
  refine ExtTreeMap.ext_getElem? fun k => ?_
  rw [getElem?_clearStores, ExtTreeMap.getElem?_map]
  split
  · rfl
  · rename_i hk
    have hnone : m[k]? = none := by
      rw [ExtTreeMap.getElem?_eq_none]
      simpa using hk
    rw [hnone]
    rfl

/-- A pin request that runs alone is `handlePin`. -/
theorem pin_alone (srv : BlobsServer) (node : NodeId) (h : Hash) :
    let res := handlePin srv node (srv.cfgFor (nodeKey node)) ⟨h⟩
    alone nodeKey srv (.pin node h) ["", ""] = (res.1, .finished res.2) := by
  simp only [alone]
  unfold handlePin
  cases hc : srv.cfgFor (nodeKey node) with
  | none => simp [Task.step, hc]
  | some cfg =>
    cases hn : cfg.storeUploadsIn with
    | none => simp [Task.step, hc, hn]
    | some storeName =>
      cases hs : srv.stores[storeName]? with
      | none => simp [Task.step, hc, hn, hs]
      | some store =>
        by_cases hin : store.contains h = true
        · cases hp : srv.pinner with
          | none =>
            have hsrv : ({ srv with pinner := none } : BlobsServer) = srv := by rw [← hp]
            simp [Task.step, hc, hn, hs, hin, hp, hsrv]
          | some p => simp [Task.step, hc, hn, hs, hin, hp]
        · simp [Task.step, hc, hn, hs, hin]

/-- A delete request that runs alone is `handleDelete`. -/
theorem delete_alone (srv : BlobsServer) (node : NodeId) (h : Hash) :
    let res := handleDelete srv node (srv.cfgFor (nodeKey node)) ⟨h⟩
    alone nodeKey srv (.delete node h) ("" :: srv.stores.keys) = (res.1, .finished res.2) := by
  unfold alone handleDelete
  cases hc : srv.cfgFor (nodeKey node) with
  | none => simp [Task.step, hc, finished_alone]
  | some cfg =>
    by_cases hn : cfg.storeUploadsIn.isNone = true
    · simp [Task.step, hc, hn, finished_alone]
    · cases hp : srv.pinner with
      | none => simp [Task.step, hc, hn, hp, finished_alone]
      | some p =>
        have hst : Task.step nodeKey srv "" (.delete node h) =
            ({ srv with pinner := some (p.unpinHash h (.nodeId node)).1 },
              if (p.unpinHash h (.nodeId node)).2 then .clear h srv.stores.keys
              else .finished (.ok false)) := by
          simp [Task.step, hc, hn, hp]
        rw [hst]
        dsimp only
        rw [if_neg hn]
        by_cases ho : (p.unpinHash h (.nodeId node)).2 = true
        · rw [if_pos ho, if_pos ho]
          have hclear := clear_alone nodeKey h srv.stores.keys
            { srv with pinner := some (p.unpinHash h (.nodeId node)).1 }
          rw [clearStores_keys] at hclear
          exact hclear
        · rw [if_neg ho, if_neg ho]
          exact finished_alone nodeKey _ _ _

/-! ## Invariance -/

variable {nodeKey}

theorem inv_idle (srv : BlobsServer) : Inv nodeKey (idle srv) where
  stored _ _ hm := absurd hm (Finset.notMem_empty _)
  pinned _ _ hm := absurd hm (Finset.notMem_empty _)
  pinning _ _ hm := absurd hm List.not_mem_nil

/-- The promises a step of the task `t` has to keep, and the one it makes if it answers a pin
request. -/
theorem inv_runTask {s : Race} {i : Nat} {t t' : Task} {name : String} {srv' : BlobsServer}
    (hst : t.step nodeKey s.srv name = (srv', t'))
    (hold : ∀ node h, (node, h) ∈ s.acked →
      srv'.Has nodeKey node h ∧ (srv'.pinner.isSome → srv'.Holds node h))
    (hnew : ∀ node h, t.pinOf = some (node, h) → t' = .finished (.ok true) →
      srv'.Has nodeKey node h ∧ (srv'.pinner.isSome → srv'.Holds node h))
    (hdel : ∀ h remaining, .deleting h remaining ∈ s.tasks ∨ t' = .deleting h remaining →
      srv'.pinner.isSome) : Inv nodeKey (s.runTask nodeKey i t name) := by
  have hacked : ∀ node h, (node, h) ∈ (s.runTask nodeKey i t name).acked →
      srv'.Has nodeKey node h ∧ (srv'.pinner.isSome → srv'.Holds node h) := by
    intro node h hm
    unfold runTask at hm
    rw [hst] at hm
    dsimp only at hm
    split at hm
    · rename_i p hp
      split at hm
      · rename_i hf
        rcases Finset.mem_insert.1 hm with heq | hmem
        · exact hnew node h (by rw [hp, heq]) hf
        · exact hold node h hmem
      · exact hold node h hm
    · exact hold node h hm
  have hsrv : (s.runTask nodeKey i t name).srv = srv' := by
    unfold runTask
    rw [hst]
  have htasks : (s.runTask nodeKey i t name).tasks = s.tasks.set i t' := by
    unfold runTask
    rw [hst]
  refine ⟨fun node h hm => ?_, fun node h hm => ?_, fun h remaining hm => ?_⟩
  · rw [hsrv]
    exact (hacked node h hm).1
  · rw [hsrv]
    exact (hacked node h hm).2
  · rw [hsrv]
    rw [htasks] at hm
    rcases List.mem_or_eq_of_mem_set hm with hmem | heq
    · exact hdel h remaining (.inl hmem)
    · exact hdel h remaining (.inr heq.symm)

theorem inv_pin {s : Race} {i : Nat} {name : String} {node : NodeId} {h : Hash}
    (hinv : Inv nodeKey s) : Inv nodeKey (s.runTask nodeKey i (.pin node h) name) := by
  obtain ⟨t', hst, hnd, hok⟩ := step_pin nodeKey s.srv name node h
  refine inv_runTask hst (fun node' h' hm => ⟨hinv.stored node' h' hm, hinv.pinned node' h' hm⟩)
    (fun node' h' hp hf => ?_) fun k remaining hd => ?_
  · obtain ⟨rfl, rfl⟩ := Prod.mk.inj (Option.some.inj hp)
    obtain ⟨hnone, hhas⟩ := hok hf
    exact ⟨hhas, fun hsome => absurd hsome (by simp [hnone])⟩
  · rcases hd with hmem | heq
    · exact hinv.pinning k remaining hmem
    · exact absurd heq (hnd k remaining)

/-- The stores are where they were: only pins have changed. -/
theorem has_of_pinner {srv : BlobsServer} {pins : Option Pins} {node : NodeId} {h : Hash} :
    ({ srv with pinner := pins } : BlobsServer).Has nodeKey node h ↔ srv.Has nodeKey node h :=
  Iff.rfl

theorem inv_pinning {s : Race} {i : Nat} {name : String} {node : NodeId} {h : Hash}
    (hinv : Inv nodeKey s) (hhas : s.srv.Has nodeKey node h) :
    Inv nodeKey (s.runTask nodeKey i (.pinning node h) name) := by
  refine inv_runTask rfl (fun node' h' hm => ?_) (fun node' h' hp _ => ?_) fun k remaining hd => ?_
  · refine ⟨has_of_pinner.2 (hinv.stored node' h' hm), fun hsome => ?_⟩
    have hs : s.srv.pinner.isSome := by simpa using hsome
    obtain ⟨p, hp, hmem⟩ := hinv.pinned node' h' hm hs
    exact ⟨p.pinHash h (.nodeId node), Option.mem_map.2 ⟨p, hp, rfl⟩,
      Pins.mem_pinHash.2 (.inr hmem)⟩
  · obtain ⟨rfl, rfl⟩ := Prod.mk.inj (Option.some.inj hp)
    refine ⟨has_of_pinner.2 hhas, fun hsome => ?_⟩
    have hs : s.srv.pinner.isSome := by simpa using hsome
    obtain ⟨p, hp⟩ := Option.isSome_iff_exists.1 hs
    exact ⟨p.pinHash h (.nodeId node), Option.mem_map.2 ⟨p, hp, rfl⟩,
      Pins.mem_pinHash.2 (.inl ⟨rfl, rfl⟩)⟩
  · rcases hd with hmem | heq
    · simpa using hinv.pinning k remaining hmem
    · exact nomatch heq

theorem inv_delete {s : Race} {i : Nat} {name : String} {node : NodeId} {h : Hash}
    (hinv : Inv nodeKey s) (hna : s.srv.pinner.isSome → (node, h) ∉ s.acked) :
    Inv nodeKey (s.runTask nodeKey i (.delete node h) name) := by
  rcases step_delete nodeKey s.srv name node h with ⟨res, hst⟩ | ⟨p, t', hp, hst⟩
  · refine inv_runTask hst (fun node' h' hm => ⟨hinv.stored node' h' hm, hinv.pinned node' h' hm⟩)
      (fun node' h' hpin => nomatch hpin) fun k remaining hd => ?_
    rcases hd with hmem | heq
    · exact hinv.pinning k remaining hmem
    · exact nomatch heq
  · refine inv_runTask hst (fun node' h' hm => ⟨has_of_pinner.2 (hinv.stored node' h' hm), ?_⟩)
      (fun node' h' hpin => nomatch hpin) fun _ _ _ => rfl
    intro _
    have hs : s.srv.pinner.isSome := by simp [hp]
    obtain ⟨q, hq, hmem⟩ := hinv.pinned node' h' hm hs
    obtain rfl : p = q := Option.some.inj (hp.symm.trans hq)
    refine ⟨_, rfl, Pins.mem_unpinHash.2 ⟨hmem, ?_⟩⟩
    -- the pin that goes is not one a peer was told of
    rintro ⟨rfl, hn⟩
    obtain rfl := PinContext.nodeId.inj hn
    exact hna hs hm

theorem inv_deleting {s : Race} {i : Nat} {name : String} {h : Hash} {remaining : List String}
    (hmem : .deleting h remaining ∈ s.tasks) (hinv : Inv nodeKey s)
    (hfree : name ∈ remaining → ∀ node, name ∈ s.srv.uploadStore nodeKey node →
      ¬ s.srv.Holds node h) :
    Inv nodeKey (s.runTask nodeKey i (.deleting h remaining) name) := by
  have hs : s.srv.pinner.isSome := hinv.pinning h remaining hmem
  by_cases hin : name ∈ remaining
  · have hst : Task.step nodeKey s.srv name (.deleting h remaining) =
        ({ s.srv with stores := s.srv.stores.alter name (·.map (·.delete h)) },
          .clear h (remaining.erase name)) := if_pos hin
    refine inv_runTask hst (fun node' h' hm => ⟨?_, fun _ => hinv.pinned node' h' hm hs⟩)
      (fun node' h' hpin => nomatch hpin) fun _ _ _ => hs
    obtain ⟨nm, hnm, st, hst', hin'⟩ := hinv.stored node' h' hm
    by_cases hname : nm = name
    · subst hname
      have hne : h' ≠ h := by
        rintro rfl
        exact hfree hin node' hnm (hinv.pinned node' h' hm hs)
      refine ⟨nm, hnm, st.delete h, ?_, ?_⟩
      · simp [hst']
      · simpa [BlobStore.delete, Ne.symm hne] using hin'
    · refine ⟨nm, hnm, st, ?_, hin'⟩
      simpa [ExtTreeMap.getElem?_alter, Ne.symm hname] using hst'
  · have hst : Task.step nodeKey s.srv name (.deleting h remaining) =
        (s.srv, .deleting h remaining) := if_neg hin
    exact inv_runTask hst (fun node' h' hm => ⟨hinv.stored node' h' hm, hinv.pinned node' h' hm⟩)
      (fun node' h' hpin => nomatch hpin) fun _ _ _ => hs

/-- **One step** keeps the promises if it is orderly. -/
theorem inv_step {s : Race} {e : RaceEvent} (hinv : Inv nodeKey s) (ho : Orderly nodeKey s e) :
    Inv nodeKey (s.step nodeKey e) := by
  cases e with
  | pinBlob node h =>
    refine ⟨hinv.stored, hinv.pinned, fun k remaining hm => ?_⟩
    rcases List.mem_append.1 hm with hmem | hnew
    · exact hinv.pinning k remaining hmem
    · exact nomatch List.mem_singleton.1 hnew
  | deleteBlob node h =>
    refine ⟨fun node' h' hm => hinv.stored node' h' (Finset.mem_of_mem_erase hm),
      fun node' h' hm => hinv.pinned node' h' (Finset.mem_of_mem_erase hm),
      fun k remaining hm => ?_⟩
    rcases List.mem_append.1 hm with hmem | hnew
    · exact hinv.pinning k remaining hmem
    · exact nomatch List.mem_singleton.1 hnew
  | run i name =>
    unfold Orderly at ho
    dsimp only at ho
    unfold step
    dsimp only
    cases ht : s.tasks[i]? with
    | none => exact hinv
    | some t =>
      rw [ht] at ho
      cases t with
      | pin node h => exact inv_pin hinv
      | pinning node h => exact inv_pinning hinv ho
      | delete node h => exact inv_delete hinv ho
      | deleting h remaining => exact inv_deleting (List.mem_of_getElem? ht) hinv ho
      | finished res =>
        refine inv_runTask rfl (fun node' h' hm => ⟨hinv.stored node' h' hm,
          hinv.pinned node' h' hm⟩) (fun node' h' hpin => nomatch hpin) fun k remaining hd => ?_
        rcases hd with hmem | heq
        · exact hinv.pinning k remaining hmem
        · exact nomatch heq

variable (nodeKey)

/-- **No orderly interleaving loses a pinned blob.** -/
theorem acked_stored (srv : BlobsServer) (events : List RaceEvent)
    (h : Run.Steps (step nodeKey) (Orderly nodeKey) (idle srv) events) :
    Run.Always (step nodeKey) (Kept nodeKey) (idle srv) events := by
  have hinv : Run.Always (step nodeKey) (Inv nodeKey) (idle srv) events :=
    Run.always_of_steps (fun _ _ hi ho => inv_step hi ho) (inv_idle srv) h
  intro pre hp _ node k hm
  exact (hinv pre hp).stored node k hm

/-- One store with the blob 7, in which every peer may upload; the peer 1 has the blob pinned. -/
def oneBlob : BlobsServer where
  stores := (∅ : ExtTreeMap String BlobStore).insert "s" ((∅ : ExtTreeMap Hash Bytes).insert 7 [1])
  peerCfg := (∅ : ExtTreeMap String PeerConfigBlobs).insert "*" ⟨["s"], some "s"⟩
  pinner := some (Pins.empty.pinHash 7 (.nodeId 1))

/-- The same with a second blob, which the peer 1 has pinned too. -/
def twoBlobs : BlobsServer where
  stores := (∅ : ExtTreeMap String BlobStore).insert "s"
    (((∅ : ExtTreeMap Hash Bytes).insert 7 [1]).insert 8 [2])
  peerCfg := (∅ : ExtTreeMap String PeerConfigBlobs).insert "*" ⟨["s"], some "s"⟩
  pinner := some ((Pins.empty.pinHash 7 (.nodeId 1)).pinHash 8 (.nodeId 1))

/-- The peer 1 deletes both blobs while the peer 2 pins one of them: its pin comes before the delete
has unpinned the blob, and only the other blob is cleared. -/
def interleaved : List RaceEvent :=
  [.deleteBlob 1 8, .deleteBlob 1 7, .pinBlob 2 7, .run 2 "", .run 0 "", .run 2 "", .run 1 "",
    .run 0 "s"]

theorem acked_stored_interleaved :
    Run.Always (step fun _ => "") (Kept fun _ => "") (idle twoBlobs) interleaved := by
  have hunpinned : ((interleaved.take 7).foldl (step fun _ => "") (idle twoBlobs)).srv.pinner.map
      (·.pinners 8) = some ∅ := by decide +kernel
  refine acked_stored _ _ _ ?_
  refine Run.steps_cons.2 ⟨trivial, Run.steps_cons.2 ⟨trivial, Run.steps_cons.2 ⟨trivial,
    Run.steps_cons.2 ⟨trivial, Run.steps_cons.2 ⟨fun _ => ?_, Run.steps_cons.2 ⟨?_,
      Run.steps_cons.2 ⟨fun _ => ?_, Run.steps_cons.2 ⟨fun _ node _ => ?_, Run.steps_nil⟩⟩⟩⟩⟩⟩⟩⟩
  · decide +kernel
  · exact ⟨"s", by decide +kernel, _, rfl, by decide +kernel⟩
  · decide +kernel
  · -- nobody has the other blob pinned any more
    rintro ⟨p, hp, hin⟩
    obtain ⟨p', hp', hempty⟩ := Option.map_eq_some_iff.1 hunpinned
    obtain rfl := Option.some.inj (hp'.symm.trans hp)
    rw [hempty] at hin
    exact absurd hin (Finset.notMem_empty _)

/-- The peer 2 asks for the blob before the peer 1 gives it up, is told of its pin, and then the
blob is deleted. -/
theorem pin_between_unpin_and_delete :
    ¬ Run.Always (step fun _ => "") (Kept fun _ => "") (idle oneBlob)
      [.deleteBlob 1 7, .pinBlob 2 7, .run 1 "", .run 0 "", .run 1 "", .run 0 "s"] := by
  intro h
  obtain ⟨name, hname, st, hst, hin⟩ :=
    h _ List.prefix_rfl (by decide +kernel) 2 7 (by decide +kernel)
  obtain rfl := Option.mem_unique hname (show _ = some "s" by decide +kernel)
  obtain rfl := Option.mem_unique hst (show _ = some ∅ by decide +kernel)
  exact ExtTreeMap.not_mem_empty hin

end Race

end Blobs
