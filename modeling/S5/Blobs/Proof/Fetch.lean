import S5.Blobs.Fetch
import S5.Blobs.Proof.Pinned

/-!
# What a fetch returns

Nothing on the client side compares what it received with the hash it asked for.

* `fetch_integrity_iff`: each way to fetch a blob returns bytes of the right hash exactly when
  those who deliver them do (`Client.Genuine`, `FirstGenuine`).
* `fetch_complete_iff`: among honest sources, one of which serves the blob, `MultiFetcher::fetch`
  returns the blob exactly when the first source that has it also hands it out, or the blob is
  empty: a download that is declined looks like an empty blob.
-/

open Std

namespace Blobs

/-! ## Streams -/

theorem receive_eq (failed : String → String) (error : Option String) :
    ∀ (chunks : List Bytes) (buffer : Bytes), receive failed buffer chunks error =
      match error with
      | none => .ok (buffer ++ chunks.flatten)
      | some err => .error (failed err)
  | [], buffer => by cases error <;> simp [receive]
  | chunk :: chunks, buffer => by
    rw [receive, receive_eq failed error chunks, List.flatten_cons, List.append_assoc]

/-- The bytes of the whole blob `h` that the server streams, if its stream ends well. -/
def Client.sends (client : Client) (h : Hash) : Option Bytes :=
  match client.download ⟨h, 0, none⟩ with
  | .ok s => if s.error.isNone then some s.chunks.flatten else none
  | .error _ => none

section
variable {client : Client} {h : Hash} {b : Bytes}

theorem blobDownload_eq_ok : client.blobDownload h = .ok b ↔ client.sends h = some b := by
  unfold Client.blobDownload Client.blobDownloadSlice Client.sends
  cases client.download ⟨h, 0, none⟩ with
  | error e => simp
  | ok s =>
    dsimp only
    rw [receive_eq]
    cases s.error <;> simp

theorem downloadBytes_eq_ok : client.downloadBytes h 0 none = .ok b ↔ client.sends h = some b := by
  unfold Client.downloadBytes Client.sends
  cases client.download ⟨h, 0, none⟩ with
  | error e => simp
  | ok s =>
    dsimp only
    rw [receive_eq]
    cases s.error <;> simp

/-- The hash of a path behind the name of a kind of object. -/
theorem hashFromPath_of_split (base64 : Base64) (h : Hash) {path dir : String}
    (hsplit : Fs.splitOnce path = some (dir, base64.encode (Bytes32.toBytes h)))
    (hends : (dir.endsWith "blob3" || dir.endsWith "obao6") = true) :
    hashFromPath base64 path = .ok h := by
  have hfilter : (base64.encode (Bytes32.toBytes h)).toList.filter (· ≠ '/') =
      (base64.encode (Bytes32.toBytes h)).toList := by
    rw [List.filter_eq_self]
    intro c hc
    have hne : c ≠ '/' := fun he => base64.slash_free _ (he ▸ hc)
    simpa using hne
  unfold hashFromPath
  rw [hsplit]
  dsimp only
  rw [if_pos hends, hfilter, String.ofList_toList, base64.decode_encode]
  simp

theorem hashFromPath_blobPath (base64 : Base64) (h : Hash) :
    hashFromPath base64 (blobPathForHash base64 h) = .ok h := by
  have hsplit : Fs.splitOnce (blobPathForHash base64 h) =
      some ("blob3", base64.encode (Bytes32.toBytes h)) := by
    rw [Fs.splitOnce_eq_some]
    refine ⟨?_, by decide⟩
    simp [blobPathForHash]
  exact hashFromPath_of_split base64 h hsplit (by decide +kernel)

theorem openReadBytes_eq_ok (base64 : Base64) :
    openReadBytes base64 client (blobPathForHash base64 h) 0 none = .ok b ↔
      client.sends h = some b := by
  unfold openReadBytes
  rw [hashFromPath_blobPath]
  exact blobDownload_eq_ok

end

/-! ## Sources -/

/-- The first value is that of the first element that has one. -/
theorem findSome?_eq_find?_bind {α β : Type} (g : α → Option β) (l : List α) :
    l.findSome? g = (l.find? fun a => (g a).isSome).bind g := by
  induction l with
  | nil => rfl
  | cons a l ih =>
    rw [List.findSome?_cons, List.find?_cons]
    cases hg : g a with
    | none => exact ih
    | some b => exact hg.symm

/-- The bytes a source delivers for `h`. -/
def delivers (h : Hash) : BlobSource → Option Bytes
  | .localStore _ store =>
    match store.contains h with
    | .ok true => (store.readAsBytes h).toOption
    | _ => none
  | .remote _ client =>
    match client.query ⟨h, false⟩ with
    | .ok resp => if resp.exists_ then client.sends h else none
    | .error _ => none

theorem tryFetchFrom_eq_ok {source : BlobSource} {h : Hash} {b : Bytes} :
    tryFetchFrom source h = .ok (some b) ↔ delivers h source = some b := by
  cases source with
  | localStore name store =>
    unfold tryFetchFrom delivers
    dsimp only
    cases store.contains h with
    | error e => simp
    | ok c =>
      cases c with
      | false => simp
      | true =>
        dsimp only
        cases store.readAsBytes h <;> simp [Except.toOption]
  | remote name client =>
    unfold tryFetchFrom delivers
    dsimp only
    cases client.query ⟨h, false⟩ with
    | error e => simp
    | ok resp =>
      dsimp only
      cases resp.exists_ with
      | false => simp
      | true =>
        have hd := @downloadBytes_eq_ok client h b
        cases hb : client.downloadBytes h 0 none with
        | error e => simpa [hb] using hd
        | ok b' => simpa [hb] using hd

theorem fetchFrom_eq_ok {h : Hash} {b : Bytes} :
    ∀ {sources : List BlobSource} {errors : List FetchError},
      fetchFrom h errors sources = .ok b ↔ sources.findSome? (delivers h) = some b
  | [], errors => by
    unfold fetchFrom
    split <;> simp
  | source :: sources, errors => by
    have hnone : (∀ b', tryFetchFrom source h ≠ .ok (some b')) → delivers h source = none := by
      intro hne
      rw [Option.eq_none_iff_forall_ne_some]
      exact fun b' hb' => hne b' (tryFetchFrom_eq_ok.2 hb')
    unfold fetchFrom
    rw [List.findSome?_cons]
    cases hf : tryFetchFrom source h with
    | error e =>
      rw [hnone (by simp [hf])]
      exact fetchFrom_eq_ok
    | ok res =>
      cases res with
      | none =>
        rw [hnone (by simp [hf])]
        exact fetchFrom_eq_ok
      | some b' =>
        rw [tryFetchFrom_eq_ok.1 hf]
        simp

theorem fetch_eq_ok {sources : List BlobSource} {h : Hash} {b : Bytes} :
    fetch sources h = .ok b ↔ sources.findSome? (delivers h) = some b :=
  fetchFrom_eq_ok

/-! ## Integrity -/

section
variable (blake3 : Bytes → Hash)

/-- What the server streams for `h`, if its stream ends well, has the hash `h`. -/
def Client.Genuine (client : Client) (h : Hash) : Prop :=
  ∀ b, client.sends h = some b → blake3 b = h

/-- The first source that delivers bytes for `h` delivers bytes of the hash `h`. -/
def FirstGenuine (sources : List BlobSource) (h : Hash) : Prop :=
  ∀ source, sources.find? (fun s => (delivers h s).isSome) = some source →
    ∀ b, delivers h source = some b → blake3 b = h

variable {blake3}

theorem firstGenuine_iff {sources : List BlobSource} {h : Hash} :
    (∀ b, fetch sources h = .ok b → blake3 b = h) ↔ FirstGenuine blake3 sources h := by
  unfold FirstGenuine
  simp only [fetch_eq_ok, findSome?_eq_find?_bind, Option.bind_eq_some_iff]
  constructor
  · intro hall source hs b hb
    exact hall b ⟨source, hs, hb⟩
  · rintro hall b ⟨source, hs, hb⟩
    exact hall source hs b hb

/-- An import leaves the hash of its bytes in the store, and nothing else new. -/
theorem contains_importStream {dest : BlobStore} {b : Bytes} {h : Hash}
    (hn : dest.contains h = false) :
    (dest.importStream blake3 [b]).1.contains h = true ↔ blake3 b = h := by
  have hnot : h ∉ dest := by simpa [BlobStore.contains] using hn
  unfold BlobStore.importStream BlobStore.contains
  simp only [List.flatten_cons, List.flatten_nil, List.append_nil, decide_eq_true_eq]
  split
  · rename_i hin
    constructor
    · intro hh
      exact absurd hh hnot
    · intro he
      exact absurd (he ▸ hin) hnot
  · simp [hnot]

/-- **Fetched bytes have the hash that was asked for** exactly when those who deliver them see to
it. -/
theorem fetch_integrity_iff (blake3 : Bytes → Hash) (base64 : Base64) (client : Client)
    (sources : List BlobSource) (dest : BlobStore) (h : Hash) :
    ((∀ b, client.blobDownload h = .ok b → blake3 b = h) ↔ client.Genuine blake3 h) ∧
    ((∀ b, openReadBytes base64 client (blobPathForHash base64 h) 0 none = .ok b → blake3 b = h) ↔
      client.Genuine blake3 h) ∧
    ((∀ b, fetch sources h = .ok b → blake3 b = h) ↔ FirstGenuine blake3 sources h) ∧
    (((fetchToStore blake3 sources h dest).2 = .ok () →
        (fetchToStore blake3 sources h dest).1.contains h = true) ↔
      dest.contains h = true ∨ FirstGenuine blake3 sources h) := by
  refine ⟨?_, ?_, firstGenuine_iff, ?_⟩
  · simp only [blobDownload_eq_ok, Client.Genuine]
  · simp only [openReadBytes_eq_ok, Client.Genuine]
  · cases hd : dest.contains h with
    | true => simp [fetchToStore, hd]
    | false =>
      rw [← firstGenuine_iff]
      unfold fetchToStore
      rw [hd]
      cases hf : fetch sources h with
      | ok b => simp [contains_importStream hd]
      | notFound => simp
      | allFailed errors => simp

end

/-- A server that has everything and sends nothing. -/
def emptyHanded : Client where
  query _ := .ok ⟨true, none, none⟩
  download _ := .ok ⟨[], none⟩

/-- An empty answer passes for the blob 5, which is not the empty blob. -/
theorem empty_answer_accepted :
    let blake3 := shortBlake3
    let sources := [BlobSource.remote "a" emptyHanded]
    ¬ (∀ b, emptyHanded.blobDownload 5 = .ok b → blake3 b = 5) ∧
      ¬ (∀ b, fetch sources 5 = .ok b → blake3 b = 5) ∧
      ¬ ((fetchToStore blake3 sources 5 ∅).2 = .ok () →
        (fetchToStore blake3 sources 5 ∅).1.contains 5 = true) := by
  refine ⟨fun h => ?_, fun h => ?_, fun h => ?_⟩
  · exact absurd (h [] rfl) (by decide +kernel)
  · exact absurd (h [] rfl) (by decide +kernel)
  · exact absurd (h rfl) (by decide +kernel)

/-! ## Honest sources -/

/-- A local store, or an honest server. -/
inductive HonestSource where
  | localStore (name : String) (store : BlobStore)
  | server (name : String) (srv : BlobsServer)

/-- The stores that an ACL lets read. -/
def BlobsServer.readable (srv : BlobsServer) : Option PeerConfigBlobs → List BlobStore
  | none => []
  | some cfg => cfg.readableStores.filterMap (srv.stores[·]?)

namespace HonestSource

section
variable (hashBytes : Bytes32 → Hash) (nodeKey : NodeId → String) (node : NodeId)

/-- The source as the client `node` sees it. -/
def toSource : HonestSource → BlobSource
  | localStore name store => .localStore name (.ofStore store)
  | server name srv => .remote name (.connected hashBytes nodeKey srv node)

/-- The stores that the source lets the client read. -/
def readable : HonestSource → List BlobStore
  | localStore _ store => [store]
  | server _ srv => srv.readable (srv.cfgFor (nodeKey node))

/-- The blob `h` as the source has it for the client. -/
def holds (h : Hash) (s : HonestSource) : Option Bytes :=
  (s.readable nodeKey node).findSome? (·[h]?)

/-- The source hands out the blob: a server with pins does so to those who have it pinned. -/
def handsOut (h : Hash) : HonestSource → Bool
  | localStore _ _ => true
  | server _ srv => srv.pinner.all (·.isPinned h (.nodeId node))

end

end HonestSource

/-! ## Chunks -/

/-- The chunks of a download from `sent` on are the rest of the blob. -/
theorem flatten_sendChunks {store : BlobStore} {h : Hash} {b : Bytes} (hb : store[h]? = some b) :
    ∀ (fuel sent : Nat), b.length < sent + fuel → sent ≤ b.length →
      (sendChunks store h 0 b.length fuel sent).flatten = b.drop sent
  | 0, sent, hlt, hle => by omega
  | fuel + 1, sent, hlt, hle => by
    unfold sendChunks
    by_cases hs : sent < b.length
    · have hread : store.readAsBytes h (0 + sent) (min chunkSize (b.length - sent)) =
          some ((b.drop sent).take (min chunkSize (b.length - sent))) := by
        simp [BlobStore.readAsBytes, hb]
      have hpos : 0 < min chunkSize (b.length - sent) := by
        simp only [chunkSize, Nat.lt_min]
        omega
      have hlen : ((b.drop sent).take (min chunkSize (b.length - sent))).length =
          min chunkSize (b.length - sent) := by
        rw [List.length_take, List.length_drop]
        omega
      have hne : ((b.drop sent).take (min chunkSize (b.length - sent))).isEmpty = false := by
        rw [List.isEmpty_eq_false_iff, ← List.length_pos_iff, hlen]
        exact hpos
      rw [if_pos hs, hread]
      dsimp only
      rw [hne, if_neg Bool.false_ne_true, hlen, List.flatten_cons,
        flatten_sendChunks hb fuel _ (by omega) (by omega), ← List.drop_drop]
      exact List.take_append_drop ..
    · rw [if_neg hs, List.drop_eq_nil_of_le (by omega)]
      rfl

/-! ## Completeness -/

section
variable {hashBytes : Bytes32 → Hash} {nodeKey : NodeId → String} {node : NodeId} {h : Hash}

theorem contains_eq_isSome (store : BlobStore) (h : Hash) :
    store.contains h = store[h]?.isSome := by
  rw [BlobStore.contains, Bool.eq_iff_iff, decide_eq_true_eq, ExtTreeMap.mem_iff_isSome_getElem?]

theorem findSome?_getElem?_eq (stores : List BlobStore) (h : Hash) :
    stores.findSome? (·[h]?) = (stores.find? (·.contains h)).bind (·[h]?) := by
  rw [findSome?_eq_find?_bind]
  simp only [contains_eq_isSome]

theorem exists_handleQuery (srv : BlobsServer) (cfg : Option PeerConfigBlobs) :
    (handleQuery srv cfg hashBytes ⟨h, false⟩).exists_ =
      ((srv.readable cfg).findSome? (·[h]?)).isSome := by
  have hstores : ∀ stores : List BlobStore, (!(stores.filter (·.contains h)).isEmpty) =
      (stores.findSome? (·[h]?)).isSome := by
    intro stores
    rw [findSome?_getElem?_eq, ← List.head?_filter]
    cases hf : stores.filter (·.contains h) with
    | nil => rfl
    | cons store rest =>
      have hm : store ∈ stores.filter (·.contains h) := by
        rw [hf]
        exact List.mem_cons_self
      have hc := (List.mem_filter.1 hm).2
      rw [contains_eq_isSome] at hc
      exact hc.symm
  cases cfg with
  | none => rfl
  | some cfg => exact hstores _

theorem flatten_handleDownload (srv : BlobsServer) (cfg : Option PeerConfigBlobs) {b : Bytes}
    (hb : (srv.readable cfg).findSome? (·[h]?) = some b) :
    (handleDownload srv node cfg ⟨h, 0, none⟩).flatten =
      if srv.pinner.all (·.isPinned h (.nodeId node)) then b else [] := by
  cases cfg with
  | none => exact nomatch hb
  | some cfg =>
    unfold handleDownload
    dsimp only
    have hpin : srv.pinner.any (!·.isPinned h (.nodeId node)) =
        !srv.pinner.all (·.isPinned h (.nodeId node)) := by
      cases srv.pinner <;> simp
    rw [hpin]
    cases srv.pinner.all (·.isPinned h (.nodeId node)) with
    | false => rfl
    | true =>
      rw [findSome?_getElem?_eq] at hb
      obtain ⟨store, hfind, hget⟩ := Option.bind_eq_some_iff.1 hb
      have hsize : store.size h = some b.length := by simp [BlobStore.size, hget]
      unfold BlobsServer.readable at hfind
      dsimp only at hfind
      rw [hfind]
      simp only [Bool.not_true, Bool.false_eq_true, if_false, if_true, hsize]
      have hchunks := flatten_sendChunks hget (b.length + 1) 0 (by omega) (Nat.zero_le _)
      simpa using hchunks

/-- What a source delivers: the blob, or nothing of it. -/
theorem delivers_toSource (s : HonestSource) :
    delivers h (s.toSource hashBytes nodeKey node) =
      (s.holds nodeKey node h).map fun b => if s.handsOut node h then b else [] := by
  cases s with
  | localStore name store =>
    show delivers h (.localStore name (.ofStore store)) = ([store].findSome? (·[h]?)).map id
    unfold delivers LocalSource.ofStore
    dsimp only
    rw [contains_eq_isSome, List.findSome?_cons]
    cases store[h]? <;> rfl
  | server name srv =>
    show delivers h (.remote name (.connected hashBytes nodeKey srv node)) =
      ((srv.readable (srv.cfgFor (nodeKey node))).findSome? (·[h]?)).map _
    have hexists := @exists_handleQuery hashBytes h srv (srv.cfgFor (nodeKey node))
    have hflat := @flatten_handleDownload node h srv (srv.cfgFor (nodeKey node))
    unfold delivers Client.connected Client.sends
    dsimp only
    rw [hexists]
    cases hh : (srv.readable (srv.cfgFor (nodeKey node))).findSome? (·[h]?) with
    | none => rfl
    | some b =>
      simp only [Option.isSome_some, if_true, Option.isNone_none, hflat hh, Option.map_some]
      rfl

/-- **A fetch among honest sources**, one of which serves the blob, returns the blob exactly when
the first source that has it hands it out, or there is nothing in it. -/
theorem fetch_complete_iff (hashBytes : Bytes32 → Hash) (nodeKey : NodeId → String) (node : NodeId)
    (sources : List HonestSource) (h : Hash) (blob : Bytes)
    (hcontent : ∀ s ∈ sources, ∀ b, s.holds nodeKey node h = some b → b = blob)
    (hserves : ∃ s ∈ sources, s.holds nodeKey node h = some blob ∧ s.handsOut node h = true) :
    fetch (sources.map (·.toSource hashBytes nodeKey node)) h = .ok blob ↔
      blob = [] ∨ ∃ s, sources.find? (fun s => (s.holds nodeKey node h).isSome) = some s ∧
        s.handsOut node h = true := by
  obtain ⟨s₀, hs₀, hb₀, -⟩ := hserves
  rw [fetch_eq_ok, List.findSome?_map]
  -- the first source that has the blob decides
  cases hfirst : sources.find? (fun s => (s.holds nodeKey node h).isSome) with
  | none =>
    have hno := List.find?_eq_none.1 hfirst s₀ hs₀
    simp [hb₀] at hno
  | some s =>
    have hmem : s ∈ sources := List.mem_of_find?_eq_some hfirst
    have hsome : (s.holds nodeKey node h).isSome := by
      simpa using List.find?_some hfirst
    obtain ⟨b, hb⟩ := Option.isSome_iff_exists.1 hsome
    obtain rfl : b = blob := hcontent s hmem b hb
    have hfound : sources.findSome? (delivers h ∘ (·.toSource hashBytes nodeKey node)) =
        some (if s.handsOut node h then b else []) := by
      rw [findSome?_eq_find?_bind]
      simp only [Function.comp_apply, delivers_toSource, Option.isSome_map, hfirst, hb,
        Option.bind_some, Option.map_some]
    rw [hfound]
    cases hh : s.handsOut node h with
    | true => simp [hh]
    | false =>
      constructor
      · intro he
        exact .inl (Option.some.inj he).symm
      · rintro (he | ⟨s', hs', ht⟩)
        · rw [he]
          rfl
        · obtain rfl := Option.some.inj hs'
          rw [hh] at ht
          exact nomatch ht

end

/-- A server whose only store has the blob 7; the peer 1 has it pinned. -/
def pinnedByOne : BlobsServer where
  stores := (∅ : ExtTreeMap String BlobStore).insert "s" ((∅ : ExtTreeMap Hash Bytes).insert 7 [1])
  peerCfg := (∅ : ExtTreeMap String PeerConfigBlobs).insert "*" ⟨["s"], none⟩
  pinner := some (Pins.empty.pinHash 7 (.nodeId 1))

/-- The same store on the local node. -/
def localCopy : HonestSource := .localStore "l" ((∅ : ExtTreeMap Hash Bytes).insert 7 [1])

/-- The peer 1, who has the blob pinned, gets it from the first source. -/
theorem fetch_complete_pinned :
    fetch ([.server "a" pinnedByOne, localCopy].map (·.toSource (fun h => h) (fun _ => "") 1)) 7 =
      .ok [1] := by
  refine (fetch_complete_iff _ _ 1 _ 7 [1] (fun s hs b hb => ?_)
    ⟨localCopy, by simp, by decide +kernel, rfl⟩).2 (.inr ⟨_, rfl, by decide +kernel⟩)
  rcases List.mem_pair.1 hs with rfl | rfl
  · exact Option.mem_unique hb (show _ = some [1] by decide +kernel)
  · exact Option.mem_unique hb (show _ = some [1] by decide +kernel)

/-- The peer 2, who has not, gets an empty blob from it and never asks the second, which would serve
the blob. -/
theorem declined_download_stops_fetch :
    localCopy.holds (fun _ => "") 2 7 = some [1] ∧ localCopy.handsOut 2 7 = true ∧
      fetch ([.server "a" pinnedByOne, localCopy].map (·.toSource (fun h => h) (fun _ => "") 2)) 7 =
        .ok [] := by
  decide +kernel

end Blobs
