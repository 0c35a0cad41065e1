import S5.Blobs.Server
import S5.Core.Stream
import S5.Lib.Hex
import S5.Lib.Run

/-!
# What a request does to stores and pins

`serve_cases` lists the effects a request can have on the server; everything below is read off it.

* `pinned_stored_iff`: from empty stores and pins, every blob a peer has pinned stays in that
  peer's upload store after each request of a run, exactly when no upload of the run whose content
  is not what it announced carries a blob that a peer uploading into the same store has pinned
  (`CleanupHarmless`): the cleanup of such an upload deletes that blob.
* `deleteBlob_confined_iff`: a `DeleteBlob` keeps to the caller's pin (`Confined`) exactly when it
  finds nothing to delete beyond it (`DeleteHarmless`).
-/

open Std

namespace Blobs

variable (blake3 : Bytes → Hash) (hashBytes : Bytes32 → Hash) (nodeKey : NodeId → String)

namespace BlobsServer

/-- `node` has `h` pinned. -/
def Holds (srv : BlobsServer) (node : NodeId) (h : Hash) : Prop :=
  ∃ p ∈ srv.pinner, .nodeId node ∈ p.pinners h

/-- The store the ACL of `node` lets it upload to. -/
def uploadStore (srv : BlobsServer) (node : NodeId) : Option String :=
  (srv.cfgFor (nodeKey node)).bind (·.storeUploadsIn)

/-- The store `name` contains `h`. -/
def Stored (srv : BlobsServer) (name : String) (h : Hash) : Prop :=
  ∃ s, srv.stores[name]? = some s ∧ h ∈ s

/-- Every blob a peer has pinned is in the upload store of that peer's ACL. -/
def PinnedStored (srv : BlobsServer) : Prop :=
  ∀ node h, srv.Holds node h → ∃ name ∈ srv.uploadStore nodeKey node, srv.Stored name h

/-- No blob stored and none pinned. -/
structure Fresh (srv : BlobsServer) : Prop where
  stores : ∀ (name : String) (s : BlobStore), srv.stores[name]? = some s → s = ∅
  pins : ∀ p ∈ srv.pinner, ∀ h, p.pinners h = ∅

end BlobsServer

open BlobsServer

/-- The content of an upload has the hash and size it announced. -/
def UploadBlob.Matches (req : UploadBlob) (chunks : List Bytes) : Prop :=
  blake3 chunks.flatten = req.expectedHash ∧ chunks.flatten.length = req.size.toNat

/-! ## The effects of a request -/

theorem handlePin_cases (srv : BlobsServer) (node : NodeId) (req : PinBlob) :
    let srv' := (handlePin srv node (srv.cfgFor (nodeKey node)) req).1
    srv' = srv ∨ ∃ name ∈ srv.uploadStore nodeKey node, srv.Stored name req.hash ∧
      srv' = { srv with pinner := srv.pinner.map (·.pinHash req.hash (.nodeId node)) } := by
  unfold handlePin uploadStore
  cases hc : srv.cfgFor (nodeKey node) with
  | none => exact .inl rfl
  | some cfg =>
    dsimp only
    cases hn : cfg.storeUploadsIn with
    | none => exact .inl rfl
    | some name =>
      dsimp only
      cases hs : srv.stores[name]? with
      | none => exact .inl rfl
      | some s =>
        dsimp only
        split
        · rename_i hin
          exact .inr ⟨name, by simp [hn], ⟨s, hs, by simpa [BlobStore.contains] using hin⟩, rfl⟩
        · exact .inl rfl

theorem handleUpload_cases (srv : BlobsServer) (node : NodeId) (req : UploadBlob)
    (chunks : List Bytes) :
    let srv' := (handleUpload blake3 srv node (srv.cfgFor (nodeKey node)) req chunks).1
    let got := blake3 chunks.flatten
    (srv' = srv ∧ ∀ name ∈ srv.uploadStore nodeKey node, srv.stores[name]? = none) ∨
    ∃ name ∈ srv.uploadStore nodeKey node, ∃ s, srv.stores[name]? = some s ∧
      ((¬ req.Matches blake3 chunks ∧
          srv' = srv.setStore name ((s.importStream blake3 chunks).1.delete got)) ∨
        (req.Matches blake3 chunks ∧
          srv' = { srv.setStore name (s.importStream blake3 chunks).1 with
            pinner := srv.pinner.map (·.pinHash got (.nodeId node)) })) := by
  unfold handleUpload uploadStore
  cases hc : srv.cfgFor (nodeKey node) with
  | none => exact .inl ⟨rfl, by simp⟩
  | some cfg =>
    dsimp only
    cases hn : cfg.storeUploadsIn with
    | none => exact .inl ⟨rfl, by simp [hn]⟩
    | some name =>
      dsimp only
      cases hs : srv.stores[name]? with
      | none =>
        refine .inl ⟨rfl, fun name' hm => ?_⟩
        rw [Option.bind_some, hn, Option.mem_some_iff] at hm
        rw [← hm, hs]
      | some s =>
        dsimp only
        refine .inr ⟨name, by simp [hn], s, hs, ?_⟩
        split
        · rename_i hne
          exact .inl ⟨fun hm => hne.elim (· hm.1) (· hm.2), rfl⟩
        · rename_i hne
          rw [not_or, not_not, not_not] at hne
          exact .inr ⟨hne, rfl⟩

theorem handleDelete_cases (srv : BlobsServer) (node : NodeId) (req : DeleteBlob) :
    let srv' := (handleDelete srv node (srv.cfgFor (nodeKey node)) req).1
    (srv' = srv ∧ (srv.uploadStore nodeKey node = none ∨ srv.pinner = none)) ∨
    ∃ name ∈ srv.uploadStore nodeKey node, ∃ p ∈ srv.pinner,
      ((∀ d ∈ p.pinners req.hash, d = .nodeId node) ∧
          srv' = { srv with
            stores := srv.stores.map fun _ s => s.delete req.hash
            pinner := some (p.unpinHash req.hash (.nodeId node)).1 }) ∨
      ((∃ d ∈ p.pinners req.hash, d ≠ .nodeId node) ∧
          srv' = { srv with pinner := some (p.unpinHash req.hash (.nodeId node)).1 }) := by
  unfold handleDelete uploadStore
  cases hc : srv.cfgFor (nodeKey node) with
  | none => exact .inl ⟨rfl, .inl rfl⟩
  | some cfg =>
    dsimp only
    cases hn : cfg.storeUploadsIn with
    | none => exact .inl ⟨rfl, .inl hn⟩
    | some name =>
      cases hp : srv.pinner with
      | none => exact .inl ⟨rfl, .inr rfl⟩
      | some p =>
        refine .inr ⟨name, hn, p, rfl, ?_⟩
        simp only [Option.isNone_some, Bool.false_eq_true, if_false]
        split
        · rename_i ho
          exact .inl ⟨Pins.unpinHash_orphaned.1 ho, rfl⟩
        · rename_i ho
          rw [Pins.unpinHash_orphaned] at ho
          push Not at ho
          exact .inr ⟨ho, rfl⟩

/-! ## Pinned blobs stay stored -/

theorem holds_pinHash {srv : BlobsServer} {node other : NodeId} {h k : Hash}
    (hk : ({ srv with pinner := srv.pinner.map (·.pinHash h (.nodeId node)) } : BlobsServer).Holds
      other k) : (other = node ∧ k = h) ∨ srv.Holds other k := by
  obtain ⟨p', hp', hm⟩ := hk
  obtain ⟨p, hp, rfl⟩ := Option.map_eq_some_iff.1 hp'
  rcases Pins.mem_pinHash.1 hm with ⟨rfl, hd⟩ | hm
  · injection hd with hd
    exact .inl ⟨hd, rfl⟩
  · exact .inr ⟨p, hp, hm⟩

theorem stored_setStore {srv : BlobsServer} {name n : String} {s' : BlobStore} {h : Hash} :
    (srv.setStore name s').Stored n h ↔ (n = name ∧ h ∈ s') ∨ (n ≠ name ∧ srv.Stored n h) := by
  unfold Stored setStore
  by_cases hn : n = name
  · subst hn; simp
  · simp [ExtTreeMap.getElem?_insert, Ne.symm hn, hn]

theorem mem_importStream {s : BlobStore} {chunks : List Bytes} {h : Hash} :
    h ∈ (s.importStream blake3 chunks).1 ↔ h = blake3 chunks.flatten ∨ h ∈ s := by
  unfold BlobStore.importStream
  dsimp only
  split
  · rename_i hin
    refine ⟨.inr, ?_⟩
    rintro (rfl | h)
    · exact hin
    · exact h
  · simp [ExtTreeMap.mem_insert, eq_comm (a := h)]

/-- An upload whose content is not what it announced carries no blob that a peer uploading into
the same store has pinned. -/
def CleanupHarmless (srv : BlobsServer) (node : NodeId) : RpcMessage → Prop
  | .uploadBlob req chunks => req.Matches blake3 chunks ∨
      ∀ name ∈ srv.uploadStore nodeKey node, ∀ other, name ∈ srv.uploadStore nodeKey other →
        ¬ srv.Holds other (blake3 chunks.flatten)
  | _ => True

section
variable {nodeKey} {srv : BlobsServer} {node : NodeId} (hinv : srv.PinnedStored nodeKey)
include hinv

theorem pinnedStored_pin {req : PinBlob} :
    (handlePin srv node (srv.cfgFor (nodeKey node)) req).1.PinnedStored nodeKey := by
  rcases handlePin_cases nodeKey srv node req with he | ⟨name, hname, hst, he⟩
  · rw [he]
    exact hinv
  · rw [he]
    intro other h hh
    rcases holds_pinHash hh with ⟨rfl, rfl⟩ | hh
    · exact ⟨name, hname, hst⟩
    · exact hinv other h hh

theorem pinnedStored_delete {req : DeleteBlob} :
    (handleDelete srv node (srv.cfgFor (nodeKey node)) req).1.PinnedStored nodeKey := by
  rcases handleDelete_cases nodeKey srv node req with ⟨he, -⟩ | ⟨name, -, p, hp, ⟨hlast, he⟩ | ⟨-, he⟩⟩
  · rw [he]
    exact hinv
  · -- the last pin of the blob goes, so whoever still has a blob pinned has another one
    rw [he]
    rintro other h ⟨p', hp', hm⟩
    obtain rfl := Option.some.inj hp'
    obtain ⟨hm, hne⟩ := Pins.mem_unpinHash.1 hm
    obtain ⟨n, hn, s, hs, hin⟩ := hinv other h ⟨p, hp, hm⟩
    have hh : h ≠ req.hash := by
      rintro rfl
      exact hne ⟨rfl, hlast _ hm⟩
    refine ⟨n, hn, s.delete req.hash, ?_, ?_⟩
    · simp [ExtTreeMap.getElem?_map, hs]
    · simpa [BlobStore.delete, ExtTreeMap.mem_erase, Ne.symm hh] using hin
  · rw [he]
    rintro other h ⟨p', hp', hm⟩
    obtain rfl := Option.some.inj hp'
    exact hinv other h ⟨p, hp, (Pins.mem_unpinHash.1 hm).1⟩

/-- Uploads: the content is stored and pinned, or stored and deleted again. -/
theorem pinnedStored_upload_iff {req : UploadBlob} {chunks : List Bytes} :
    (handleUpload blake3 srv node (srv.cfgFor (nodeKey node)) req chunks).1.PinnedStored nodeKey ↔
      CleanupHarmless blake3 nodeKey srv node (.uploadBlob req chunks) := by
  rcases handleUpload_cases blake3 nodeKey srv node req chunks with
    ⟨he, hno⟩ | ⟨name, hname, s, hs, ⟨hne, he⟩ | ⟨hm, he⟩⟩
  · rw [he]
    refine iff_of_true hinv (.inr fun name hname other hother hh => ?_)
    obtain ⟨n, hn, s, hs, -⟩ := hinv other _ hh
    rw [Option.mem_unique hn hother, hno name hname] at hs
    cases hs
  · rw [he]
    constructor
    · intro hinv'
      refine .inr fun n hn other hother hh => ?_
      obtain rfl := Option.mem_unique hn hname
      obtain ⟨n', hn', hst⟩ := hinv' other _ hh
      obtain rfl := Option.mem_unique hn' hother
      rcases stored_setStore.1 hst with ⟨-, hin⟩ | ⟨hn, -⟩
      · simp [BlobStore.delete] at hin
      · exact hn rfl
    · rintro (hm | hfree) other h hh
      · exact absurd hm hne
      · obtain ⟨n, hn, hst⟩ := hinv other h hh
        refine ⟨n, hn, stored_setStore.2 ?_⟩
        by_cases hnn : n = name
        · subst hnn
          have hh' : h ≠ blake3 chunks.flatten := by
            rintro rfl
            exact hfree n hname other hn hh
          obtain ⟨s', hs', hin⟩ := hst
          rw [hs, Option.some.injEq] at hs'
          subst hs'
          refine .inl ⟨rfl, ?_⟩
          simpa [BlobStore.delete, ExtTreeMap.mem_erase, Ne.symm hh'] using
            (mem_importStream blake3).2 (.inr hin)
        · exact .inr ⟨hnn, hst⟩
  · rw [he]
    refine iff_of_true (fun other h hh => ?_) (.inl hm)
    rcases @holds_pinHash (srv.setStore name _) _ _ _ _ hh with ⟨rfl, rfl⟩ | hh
    · exact ⟨name, hname, stored_setStore.2 (.inl ⟨rfl, (mem_importStream blake3).2 (.inl rfl)⟩)⟩
    · obtain ⟨n, hn, hst⟩ := hinv other h hh
      refine ⟨n, hn, stored_setStore.2 ?_⟩
      by_cases hnn : n = name
      · subst hnn
        obtain ⟨s', hs', hin⟩ := hst
        rw [hs, Option.some.injEq] at hs'
        subst hs'
        exact .inl ⟨rfl, (mem_importStream blake3).2 (.inr hin)⟩
      · exact .inr ⟨hnn, hst⟩

theorem pinnedStored_serve_iff {msg : RpcMessage} :
    (serve blake3 hashBytes nodeKey srv node msg).1.PinnedStored nodeKey ↔
      CleanupHarmless blake3 nodeKey srv node msg := by
  cases msg with
  | query req => exact iff_of_true hinv trivial
  | uploadBlob req chunks => exact pinnedStored_upload_iff blake3 hinv
  | downloadBlob req => exact iff_of_true hinv trivial
  | deleteBlob req => exact iff_of_true (pinnedStored_delete hinv) trivial
  | pinBlob req => exact iff_of_true (pinnedStored_pin hinv) trivial

end

/-- The requests of a run: each by some peer, handled to completion before the next. -/
def serveStep (srv : BlobsServer) (req : NodeId × RpcMessage) : BlobsServer :=
  (serve blake3 hashBytes nodeKey srv req.1 req.2).1

theorem Fresh.pinnedStored {srv : BlobsServer} (h : srv.Fresh) : srv.PinnedStored nodeKey := by
  rintro node k ⟨p, hp, hm⟩
  simp [h.pins p hp k] at hm

/-- **Pinned blobs stay stored**, exactly in the runs without a harmful cleanup. -/
theorem pinned_stored_iff {srv : BlobsServer} (h : srv.Fresh) (reqs : List (NodeId × RpcMessage)) :
    Run.Always (serveStep blake3 hashBytes nodeKey) (PinnedStored nodeKey) srv reqs ↔
      Run.Steps (serveStep blake3 hashBytes nodeKey)
        (fun s req => CleanupHarmless blake3 nodeKey s req.1 req.2) srv reqs := by
  apply Run.always_iff
  · intro s req hs
    exact pinnedStored_serve_iff blake3 hashBytes hs
  · exact Fresh.pinnedStored nodeKey h

/-! A peer pins the empty blob by uploading it; another uploads it too, announcing another hash. -/

/-- `Hash::EMPTY`, the hash of the empty byte string. -/
def emptyHash : Hash := 0xaf1349b9f5f9a1a6a0404dea36dcc9499bcb25c9adc112b7cc9a93cae41f3262#256

/-- One store, which every peer may read and upload to. -/
def oneStore : BlobsServer where
  stores := (∅ : ExtTreeMap String BlobStore).insert "default" ∅
  peerCfg := (∅ : ExtTreeMap String PeerConfigBlobs).insert "*" ⟨["default"], some "default"⟩
  pinner := some Pins.empty

theorem oneStore_fresh : oneStore.Fresh where
  stores := by
    intro name s hs
    simp only [oneStore, ExtTreeMap.getElem?_insert] at hs
    split at hs
    · exact (Option.some.inj hs).symm
    · simp at hs
  pins := by
    intro p hp h
    obtain rfl := Option.some.inj hp
    rfl

/-- Two uploads of the empty blob, the second one announcing the hash `0`. -/
def twoUploads : List (NodeId × RpcMessage) :=
  [(1, .uploadBlob ⟨emptyHash, 0⟩ []), (2, .uploadBlob ⟨0, 0⟩ [])]

theorem pinned_blob_deleted :
    oneStore.Fresh ∧ ¬ Run.Always (serveStep (fun _ => emptyHash) (fun _ => emptyHash)
      (fun _ => "node")) (PinnedStored fun _ => "node") oneStore twoUploads := by
  refine ⟨oneStore_fresh, fun h => ?_⟩
  obtain ⟨name, hn, s, hs, hin⟩ := h twoUploads List.prefix_rfl 1 emptyHash
    ⟨_, rfl, by decide +kernel⟩
  obtain rfl := Option.mem_unique hn (show _ = some "default" by decide +kernel)
  obtain rfl := Option.mem_unique hs (show _ = some ∅ by decide +kernel)
  simp at hin

/-- BLAKE3 of a few short texts of bytes. -/
def shortHashes : List (Bytes × Hash) :=
  [([], emptyHash),
    ([1, 2], 0xb7d770040f780e9deff6bc038abea66e108b88d098d16d24cd7486eb671060b2#256),
    ([1, 2, 3], 0xb177ec1bf26dfb3b7010d473e6d44713b29b765b99c6e60ecbfae742de496543#256),
    ([4, 5], 0x5f805527aa94f2a9a3a782cad8cc18b63cf6017e7bc65ca96aeada8392d4c525#256),
    ([4, 5, 6], 0xb43a47413b51a952a40580697a0325d1d7b60aaf6a367d4713e52b285b1fd5a0#256)]

def shortBlake3 (bytes : Bytes) : Hash := (shortHashes.lookup bytes).getD emptyHash

/-- An endpoint id as text. -/
def nodeText (node : NodeId) : String := Hex.encode (Bytes32.toBytes node)

/-- Two peers pin `[1, 2, 3]`, one by uploading it, and one of them unpins it again; between them an
upload is refused that is not what it announces. -/
def twoPeers : List (NodeId × RpcMessage) :=
  [(1, .uploadBlob ⟨shortBlake3 [1, 2, 3], 3⟩ [[1], [2, 3]]),
    (2, .pinBlob ⟨shortBlake3 [1, 2, 3]⟩),
    (2, .uploadBlob ⟨shortBlake3 [4, 5], 2⟩ [[4], [5, 6]]),
    (2, .uploadBlob ⟨shortBlake3 [4, 5], 2⟩ [[4], [5]]),
    (1, .deleteBlob ⟨shortBlake3 [1, 2, 3]⟩)]

theorem pinned_stored_twoPeers :
    oneStore.Fresh ∧
      Run.Always (serveStep shortBlake3 (fun h => shortBlake3 (Bytes32.toBytes h)) nodeText)
        (PinnedStored nodeText) oneStore twoPeers ∧
      (twoPeers.foldl (serveStep shortBlake3 (fun h => shortBlake3 (Bytes32.toBytes h)) nodeText)
        oneStore).Holds 2 (shortBlake3 [1, 2, 3]) := by
  refine ⟨oneStore_fresh, (pinned_stored_iff _ _ _ oneStore_fresh _).2 ?_,
    ⟨_, rfl, by decide +kernel⟩⟩
  simp only [twoPeers, Run.steps_cons]
  refine ⟨.inl ⟨by decide +kernel, rfl⟩, trivial, .inr fun _ _ other _ ⟨p, hp, hm⟩ => ?_,
    .inl ⟨by decide +kernel, rfl⟩, trivial, Run.steps_nil⟩
  -- nobody has pinned what has come instead
  have hfree : ∀ p ∈ ((twoPeers.take 2).foldl
      (serveStep shortBlake3 (fun h => shortBlake3 (Bytes32.toBytes h)) nodeText) oneStore).pinner,
      p.pinners (shortBlake3 [4, 5, 6]) = ∅ := by
    decide +kernel
  have hnone := hfree p hp
  rw [show [[4], [5, 6]].flatten = ([4, 5, 6] : Bytes) from rfl, hnone] at hm
  exact absurd hm (Finset.notMem_empty _)

/-! ## Deletes keep to the caller's pin -/

namespace BlobsServer

/-- The context `c` pins `h`. -/
def Pinned (srv : BlobsServer) (h : Hash) (c : PinContext) : Prop :=
  ∃ p ∈ srv.pinner, c ∈ p.pinners h

/-- The bytes of `h` in the store `name`. -/
def blob (srv : BlobsServer) (name : String) (h : Hash) : Option Bytes :=
  srv.stores[name]?.bind (·[h]?)

theorem stored_iff_blob {srv : BlobsServer} {name : String} {h : Hash} :
    srv.Stored name h ↔ srv.blob name h ≠ none := by
  unfold Stored blob
  cases srv.stores[name]? with
  | none => simp
  | some s => simp

end BlobsServer

/-- `srv'` differs from `srv` by no more than the pin of `node` on `h` and, once `h` has no pin
left, the blob `h` in the upload store of `node`; by nothing if `node` does not hold that pin. -/
structure Confined (node : NodeId) (h : Hash) (srv srv' : BlobsServer) : Prop where
  unpinned : ¬ srv.Holds node h → srv'.stores = srv.stores ∧ srv'.pinner = srv.pinner
  added : ∀ k c, srv'.Pinned k c → srv.Pinned k c
  removed : ∀ k c, srv.Pinned k c → ¬ srv'.Pinned k c → k = h ∧ c = .nodeId node
  blobs : ∀ name k, srv'.blob name k = srv.blob name k ∨
    k = h ∧ srv'.blob name k = none ∧ (∀ c, ¬ srv'.Pinned h c) ∧ name ∈ srv.uploadStore nodeKey node

/-- The caller may not delete, or another context pins `h`, or `h` is in no store but the
caller's upload store and the caller has it pinned. -/
def DeleteHarmless (srv : BlobsServer) (node : NodeId) (h : Hash) : Prop :=
  srv.uploadStore nodeKey node = none ∨ srv.pinner = none ∨
    (∃ c, c ≠ .nodeId node ∧ srv.Pinned h c) ∨
    ∀ name, srv.Stored name h → srv.Holds node h ∧ name ∈ srv.uploadStore nodeKey node

section
variable {nodeKey} {srv : BlobsServer} {node : NodeId} {h : Hash} {p : Pins}

theorem pinned_unpin (hp : p ∈ srv.pinner) {stores : ExtTreeMap String BlobStore} {k : Hash}
    {c : PinContext} :
    ({ srv with stores, pinner := some (p.unpinHash h (.nodeId node)).1 } : BlobsServer).Pinned k c ↔
      srv.Pinned k c ∧ ¬ (k = h ∧ c = .nodeId node) := by
  constructor
  · rintro ⟨p', hp', hm⟩
    obtain rfl := Option.some.inj hp'
    obtain ⟨hm, hne⟩ := Pins.mem_unpinHash.1 hm
    exact ⟨⟨p, hp, hm⟩, hne⟩
  · rintro ⟨⟨p', hp', hm⟩, hne⟩
    obtain rfl := Option.mem_unique hp hp'
    exact ⟨_, rfl, Pins.mem_unpinHash.2 ⟨hm, hne⟩⟩

theorem unpinHash_of_not_holds (hp : p ∈ srv.pinner) (hh : ¬ srv.Holds node h) :
    (p.unpinHash h (.nodeId node)).1 = p := by
  unfold Pins.unpinHash
  rw [if_pos fun hm => hh ⟨p, hp, hm⟩]

theorem map_delete_getElem? (stores : ExtTreeMap String BlobStore) (name : String) (k : Hash) :
    (stores.map fun _ s => BlobStore.delete s h)[name]?.bind (·[k]?) =
      if k = h then none else stores[name]?.bind (·[k]?) := by
  rw [ExtTreeMap.getElem?_map]
  cases stores[name]? with
  | none => simp
  | some s => simp [BlobStore.delete, ExtTreeMap.getElem?_erase, eq_comm (a := h)]

theorem map_delete_eq {stores : ExtTreeMap String BlobStore}
    (hno : ∀ (name : String) (s : BlobStore), stores[name]? = some s → h ∉ s) :
    (stores.map fun _ s => BlobStore.delete s h) = stores := by
  apply ExtTreeMap.ext_getElem?
  intro name
  rw [ExtTreeMap.getElem?_map]
  cases hs : stores[name]? with
  | none => rfl
  | some s =>
    refine congrArg some (ExtTreeMap.ext_getElem? fun k => ?_)
    by_cases hk : h = k
    · subst hk; simp [BlobStore.delete, ExtTreeMap.getElem?_eq_none (hno name s hs)]
    · simp [BlobStore.delete, ExtTreeMap.getElem?_erase, hk]

/-- Another context still pins `h`: only the caller's pin goes. -/
theorem confined_of_others (hp : p ∈ srv.pinner) :
    Confined nodeKey node h srv
      { srv with pinner := some (p.unpinHash h (.nodeId node)).1 } where
  unpinned hh := ⟨rfl, by rw [unpinHash_of_not_holds hp hh]; exact hp.symm⟩
  added k c hc := ((pinned_unpin hp).1 hc).1
  removed k c hc hn := by
    by_contra hne
    exact hn ((pinned_unpin hp).2 ⟨hc, hne⟩)
  blobs name k := .inl rfl

/-- No other context pins `h`: the blob goes from every store. -/
theorem confined_of_last_iff (hp : p ∈ srv.pinner)
    (hlast : ∀ d ∈ p.pinners h, d = .nodeId node) :
    Confined nodeKey node h srv
      { srv with
        stores := srv.stores.map fun _ s => s.delete h
        pinner := some (p.unpinHash h (.nodeId node)).1 } ↔
    ∀ name, srv.Stored name h → srv.Holds node h ∧ name ∈ srv.uploadStore nodeKey node := by
  have hb : ∀ name k, ({ srv with
        stores := srv.stores.map fun _ s => s.delete h
        pinner := some (p.unpinHash h (.nodeId node)).1 } : BlobsServer).blob name k =
      if k = h then none else srv.blob name k := fun name k => map_delete_getElem? srv.stores name k
  have hfree : ∀ c, ¬ ({ srv with
        stores := srv.stores.map fun _ s => s.delete h
        pinner := some (p.unpinHash h (.nodeId node)).1 } : BlobsServer).Pinned h c := by
    intro c hc
    obtain ⟨⟨p', hp', hm⟩, hne⟩ := (pinned_unpin hp).1 hc
    obtain rfl := Option.mem_unique hp hp'
    exact hne ⟨rfl, hlast c hm⟩
  constructor
  · intro hconf name hst
    have hh : srv.Holds node h := by
      by_contra hh
      obtain ⟨s, hs, hin⟩ := hst
      have he := congrArg (fun m : ExtTreeMap String BlobStore => m[name]?.bind (·[h]?))
        (hconf.unpinned hh).1
      dsimp only at he
      rw [map_delete_getElem?, if_pos rfl, hs] at he
      exact absurd he.symm (by simpa using hin)
    refine ⟨hh, ?_⟩
    rcases hconf.blobs name h with he | ⟨-, -, -, hup⟩
    · rw [hb, if_pos rfl] at he
      exact absurd he.symm (stored_iff_blob.1 hst)
    · exact hup
  · intro hall
    refine ⟨fun hh => ⟨?_, ?_⟩, fun k c hc => ((pinned_unpin hp).1 hc).1, fun k c hc hn => ?_,
      fun name k => ?_⟩
    · exact map_delete_eq fun name s hs hin => hh (hall name ⟨s, hs, hin⟩).1
    · rw [unpinHash_of_not_holds hp hh]; exact hp.symm
    · by_contra hne
      exact hn ((pinned_unpin hp).2 ⟨hc, hne⟩)
    · rw [hb]
      by_cases hk : k = h
      · subst hk
        by_cases hst : srv.Stored name k
        · exact .inr ⟨rfl, by simp, hfree, (hall name hst).2⟩
        · rw [stored_iff_blob, not_not] at hst
          exact .inl (by simp [hst])
      · exact .inl (by simp [hk])

end

/-- **A delete keeps to the caller's pin** exactly when there is nothing else for it to delete. -/
theorem deleteBlob_confined_iff (srv : BlobsServer) (node : NodeId) (h : Hash) :
    Confined nodeKey node h srv (serve blake3 hashBytes nodeKey srv node (.deleteBlob ⟨h⟩)).1 ↔
      DeleteHarmless nodeKey srv node h := by
  show Confined nodeKey node h srv (handleDelete srv node (srv.cfgFor (nodeKey node)) ⟨h⟩).1 ↔ _
  rcases handleDelete_cases nodeKey srv node ⟨h⟩ with
    ⟨he, hno⟩ | ⟨name, hname, p, hp, ⟨hlast, he⟩ | ⟨hother, he⟩⟩
  · rw [he]
    refine iff_of_true ⟨fun _ => ⟨rfl, rfl⟩, fun _ _ h => h, fun _ _ h hn => absurd h hn,
      fun _ _ => .inl rfl⟩ ?_
    exact hno.elim .inl fun h => .inr (.inl h)
  · rw [he, confined_of_last_iff hp hlast]
    constructor
    · exact fun h => .inr (.inr (.inr h))
    · rintro (hn | hn | ⟨c, hne, p', hp', hm⟩ | h)
      · simp [hn] at hname
      · simp [hn] at hp
      · obtain rfl := Option.mem_unique hp hp'
        exact absurd (hlast c hm) hne
      · exact h
  · rw [he]
    obtain ⟨d, hd, hne⟩ := hother
    exact iff_of_true (confined_of_others hp) (.inr (.inr (.inl ⟨d, hne, p, hp, hd⟩)))

/-- A second store, which no peer may upload to, with the empty blob that nobody has pinned. -/
def archived : BlobsServer :=
  { oneStore with
    stores := oneStore.stores.insert "archive" ((∅ : BlobStore).insert emptyHash []) }

theorem unpinned_blob_deleted :
    ¬ Confined (fun _ => "node") 1 emptyHash archived
      (serve (fun _ => emptyHash) (fun _ => emptyHash) (fun _ => "node") archived 1
        (.deleteBlob ⟨emptyHash⟩)).1 := by
  intro h
  rcases h.blobs "archive" emptyHash with he | ⟨-, -, -, hup⟩
  · exact absurd he (by decide +kernel)
  · exact absurd hup (by decide +kernel)

end Blobs
