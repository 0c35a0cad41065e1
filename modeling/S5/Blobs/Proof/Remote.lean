import S5.Blobs.Remote
import S5.Blobs.Proof.Fetch
import S5.Blobs.Proof.Import
import S5.Lib.Base64Url

/-!
# Imports through a remote store

* `importBytes_objects`, `importStream_objects`: over a store of objects the import is that of
  `BlobFiles`.
* `remote_import_iff`: an import through a remote store succeeds, pins and can be downloaded exactly
  when `ImportCall.ComesThrough`: `import_stream` never does, for the path of its temporary object is
  not that of a hash; `import_bytes` uploads no outboard data, and does not pin a blob it finds.
-/

open Std

namespace Blobs

/-! ## Over a store of objects -/

section
variable (env : BlobEncoding) (s : Store) (uuid : String)

/-- `BlobStore::new` of a store of objects. -/
def shared : BlobFiles := ⟨s, .shared⟩

theorem putOutboard_objects (features : StoreFeatures) (hf : s.features = features) (h : Hash)
    (data : Option Bytes) :
    ∃ s', putOutboard (.objects features uuid) env s h data = (s', .ok ()) ∧
      (shared s).putOutboard env h data = shared s' ∧ s'.features = features := by
  subst hf
  cases data with
  | none => exact ⟨s, rfl, rfl, rfl⟩
  | some data => exact ⟨_, rfl, rfl, rfl⟩

theorem finalizeImport_objects (features : StoreFeatures) (hf : s.features = features)
    (tempPath : String) (h : Hash) (size : Nat) (outboard : Option Bytes) :
    finalizeImport (.objects features uuid) env s tempPath h size outboard =
      (((shared s).finalizeImport env tempPath h size outboard).1.store,
        ((shared s).finalizeImport env tempPath h size outboard).2) := by
  obtain ⟨t, hput, hshared, ht⟩ := putOutboard_objects env s uuid features hf h outboard
  unfold finalizeImport BlobFiles.finalizeImport
  rw [hput, hshared]
  unfold moveTemp shared StoreOps.objects
  dsimp only
  rw [ht]
  cases t.contains (blobPath env h features) with
  | true => rfl
  | false =>
    simp only [Bool.false_eq_true, if_false]
    by_cases hr : features.supportsRename = true
    · simp only [if_pos hr]
      cases t.rename tempPath (blobPath env h features) <;> rfl
    · simp only [if_neg hr]
      cases t.openReadStream tempPath 0 none <;> rfl

/-- **`import_bytes` over a store of objects.** -/
theorem importBytes_objects (bytes : Bytes) :
    importBytes (.objects s.features uuid) env s bytes =
      (((shared s).importBytes env uuid bytes).1.store, ((shared s).importBytes env uuid bytes).2) := by
  unfold importBytes BlobFiles.importBytes
  have hflag : ((shared s).hasOutboard = true ∧ BlobFiles.outboardThreshold ≤ bytes.length) =
      (BlobFiles.outboardThreshold ≤ bytes.length) := by simp [shared, BlobFiles.hasOutboard]
  simp only [hflag]
  generalize (if BlobFiles.outboardThreshold ≤ bytes.length then env.computeOutboard bytes
    else (env.blake3 bytes, none)) = computed
  obtain ⟨h, obao⟩ := computed
  obtain ⟨t, hput, hshared, ht⟩ := putOutboard_objects env s uuid s.features rfl h obao
  obtain ⟨hwritten, -⟩ := collect_spec [bytes] [] none (Nat.lt_succ_self 1)
  dsimp only
  rw [hput, hshared]
  simp only [StoreOps.objects]
  have hfeatures : (shared t).store.features = s.features := ht
  rw [hfeatures]
  cases hc : t.contains (blobPath env h s.features) with
  | true =>
    have hc' : (shared t).store.contains (blobPath env h s.features) = true := hc
    simp [hc']
    rfl
  | false =>
    have hc' : (shared t).store.contains (blobPath env h s.features) = false := hc
    simp only [hc', Bool.false_eq_true, if_false]
    by_cases hr : s.features.supportsRename = true
    · have htemp : (t.putTemp uuid [bytes]).1.features = s.features := ht
      have hfinal := finalizeImport_objects env (t.putTemp uuid [bytes]).1 uuid s.features htemp
        (Store.tempPath uuid) h bytes.length obao
      simp only [if_pos hr, TeeStream.new, List.length_singleton, hwritten]
      exact hfinal
    · simp only [if_neg hr]
      exact if_neg hr

/-- **`import_stream` over a store of objects.** -/
theorem importStream_objects (chunks : List Bytes) :
    importStream (.objects s.features uuid) env s chunks =
      (((shared s).importStream env uuid chunks).1.store,
        ((shared s).importStream env uuid chunks).2) := by
  cases hcol : (TeeStream.new chunks).collect (chunks.length + 1) with
  | mk tee written =>
    have hput : (StoreOps.objects s.features uuid).putTemp s (.new chunks) =
        ((s.putTemp uuid written).1, tee, .ok (s.putTemp uuid written).2) := by
      have hcol' : (TeeStream.new chunks).collect ((TeeStream.new chunks).stream.length + 1) =
          (tee, written) := hcol
      simp only [StoreOps.objects, hcol']
    have ht : (s.putTemp uuid written).1.features = s.features := rfl
    unfold importStream BlobFiles.importStream BlobFiles.computeFromStore
    rw [hput, hcol]
    dsimp only [shared, BlobFiles.hasOutboard]
    generalize s.putTemp uuid written = put at ht
    obtain ⟨t, tempPath⟩ := put
    dsimp only at ht
    simp only [if_true]
    cases hsize : t.size tempPath with
    | error e =>
      have hsize' : (StoreOps.objects s.features uuid).size t tempPath = .error e := hsize
      simp only [hsize']
    | ok size =>
      have hsize' : (StoreOps.objects s.features uuid).size t tempPath = .ok size := hsize
      simp only [hsize']
      cases hread : t.openReadStream tempPath 0 none with
      | error e =>
        have hread' : (StoreOps.objects s.features uuid).openReadStream t tempPath = .error e := hread
        simp only [hread']
      | ok stream =>
        have hread' : (StoreOps.objects s.features uuid).openReadStream t tempPath = .ok stream := hread
        simp only [hread']
        by_cases hh : (env.computeOutboard stream.flatten).1 = env.blake3 tee.hashed
        · simp only [hh, ne_eq, not_true, if_false]
          exact finalizeImport_objects env t uuid s.features ht tempPath _ size _
        · simp only [hh, ne_eq, not_false_eq_true, if_true]

end

/-! ## The paths of a remote store -/

namespace RemoteEnv

section
variable (env : RemoteEnv)

theorem hashFromPath_blobPath (h : Hash) :
    hashFromPath env.base64 (blobPath env.enc h env.ops.features) = .ok h := by
  have hpath : blobPath env.enc h env.ops.features = blobPathForHash env.base64 h := by
    simp [blobPath, pathForHash, blobPathForHash, ops, base64]
  rw [hpath]
  exact Blobs.hashFromPath_blobPath env.base64 h

/-- Outboard data go to the hash of the blob they belong to. -/
theorem hashFromPath_obao6Path (h : Hash) :
    hashFromPath env.base64 (obao6Path env.enc h env.ops.features) = .ok h := by
  have hpath : obao6Path env.enc h env.ops.features =
      "obao6/" ++ env.base64.encode (Bytes32.toBytes h) := by
    simp [obao6Path, pathForHash, ops, base64]
  have hsplit : Fs.splitOnce (obao6Path env.enc h env.ops.features) =
      some ("obao6", env.base64.encode (Bytes32.toBytes h)) := by
    rw [Fs.splitOnce_eq_some]
    refine ⟨?_, by decide⟩
    simp [hpath]
  exact hashFromPath_of_split env.base64 h hsplit (by decide +kernel)

end

/-! ## What the server answers -/

/-- The server lets the client read its store `name` and upload to it, and pins. -/
structure Admits (env : RemoteEnv) (srv : BlobsServer) (name : String) : Prop where
  cfg : ∃ cfg, env.cfg srv = some cfg ∧ cfg.storeUploadsIn = some name ∧ name ∈ cfg.readableStores
  store : ∃ s, srv.stores[name]? = some s
  pinner : ∃ p, srv.pinner = some p

/-- What the server stores under the hash of `b` is `b`. -/
def Genuine (env : RemoteEnv) (srv : BlobsServer) (b : Bytes) : Prop :=
  ∀ (name : String) (s : BlobStore) (b' : Bytes), srv.stores[name]? = some s →
    s[env.enc.blake3 b]? = some b' → b' = b

/-- The server with the client's pin on `h`. -/
def pinned (env : RemoteEnv) (srv : BlobsServer) (h : Hash) : BlobsServer :=
  { srv with pinner := srv.pinner.map (·.pinHash h (.nodeId env.node)) }

section
variable {env : RemoteEnv} {srv : BlobsServer} {name : String} {h : Hash} {b : Bytes}

theorem holds_pinned (ha : env.Admits srv name) : (env.pinned srv h).Holds env.node h := by
  obtain ⟨p, hp⟩ := ha.pinner
  refine ⟨p.pinHash h (.nodeId env.node), ?_, Pins.mem_pinHash.2 (.inl ⟨rfl, rfl⟩)⟩
  simp [pinned, hp]

theorem Admits.pinned (ha : env.Admits srv name) : env.Admits (env.pinned srv h) name where
  cfg := ha.cfg
  store := ha.store
  pinner := by
    obtain ⟨p, hp⟩ := ha.pinner
    exact ⟨p.pinHash h (.nodeId env.node), by simp [RemoteEnv.pinned, hp]⟩

theorem pinBlob_of_stored (ha : env.Admits srv name) (hs : srv.Stored name h) :
    env.pinBlob srv h = (env.pinned srv h, .ok true) := by
  obtain ⟨cfg, hcfg, hup, -⟩ := ha.cfg
  obtain ⟨s, hstore, hmem⟩ := hs
  simp [pinBlob, handlePin, hcfg, hup, hstore, BlobStore.contains, hmem, RemoteEnv.pinned]

theorem pinBlob_of_not_stored (ha : env.Admits srv name) (hs : ¬ srv.Stored name h) :
    env.pinBlob srv h = (srv, .ok false) := by
  obtain ⟨cfg, hcfg, hup, -⟩ := ha.cfg
  obtain ⟨s, hstore⟩ := ha.store
  have hmem : h ∉ s := fun hm => hs ⟨s, hstore, hm⟩
  simp [pinBlob, handlePin, hcfg, hup, hstore, BlobStore.contains, hmem]

/-- An upload of something else is refused. -/
theorem uploadChunks_mismatch (ha : env.Admits srv name) {data : Bytes}
    (hne : env.enc.blake3 data ≠ h) :
    ∃ e, (env.uploadChunks srv h data.length [data]).2 = .error e := by
  obtain ⟨cfg, hcfg, hup, -⟩ := ha.cfg
  obtain ⟨s, hstore⟩ := ha.store
  refine ⟨"hash/size mismatch", ?_⟩
  simp [uploadChunks, handleUpload, hcfg, hup, hstore, BlobStore.importStream, hne]

/-- An upload of the blob itself is stored and pinned. -/
theorem uploadChunks_ok (ha : env.Admits srv name) (hs : ¬ srv.Stored name (env.enc.blake3 b))
    (hlen : b.length < 2 ^ 64) :
    ∃ s, srv.stores[name]? = some s ∧ env.uploadChunks srv (env.enc.blake3 b) b.length [b] =
      (env.pinned (srv.setStore name (s.insert (env.enc.blake3 b) b)) (env.enc.blake3 b), .ok ()) := by
  obtain ⟨cfg, hcfg, hup, -⟩ := ha.cfg
  obtain ⟨s, hstore⟩ := ha.store
  have hmem : env.enc.blake3 b ∉ s := fun hm => hs ⟨s, hstore, hm⟩
  have hsize : (UInt64.ofNat b.length).toNat = b.length := UInt64.toNat_ofNat_of_lt' hlen
  refine ⟨s, hstore, ?_⟩
  simp only [uploadChunks, handleUpload, hcfg, hup, hstore, BlobStore.importStream,
    List.flatten_singleton, if_neg hmem, hsize, ne_eq, not_true, or_self, if_false]
  rfl

/-- The client finds a blob in any store it may read. -/
theorem remoteExists_blobPath : env.remoteExists srv (blobPath env.enc h env.ops.features) =
    .ok ((srv.readable (env.cfg srv)).findSome? (·[h]?)).isSome := by
  unfold remoteExists
  rw [hashFromPath_blobPath]
  exact congrArg Except.ok (exists_handleQuery srv (env.cfg srv))

theorem putBytes_blobPath (data : Bytes) :
    env.putBytes srv (blobPath env.enc h env.ops.features) data =
      env.pinOr srv h fun srv => env.uploadChunks srv h data.length [data] := by
  unfold putBytes
  rw [hashFromPath_blobPath]

theorem putBytes_obao6Path (data : Bytes) :
    env.putBytes srv (obao6Path env.enc h env.ops.features) data =
      env.pinOr srv h fun srv => env.uploadChunks srv h data.length [data] := by
  unfold putBytes
  rw [hashFromPath_obao6Path]

/-! ## Downloads -/

theorem Admits.readable_of_stored (ha : env.Admits srv name) (hs : srv.Stored name h) :
    ((srv.readable (env.cfg srv)).findSome? (·[h]?)).isSome = true := by
  obtain ⟨cfg, hcfg, -, hread⟩ := ha.cfg
  obtain ⟨s, hstore, hmem⟩ := hs
  rw [List.findSome?_isSome_iff]
  refine ⟨s, ?_, ExtTreeMap.mem_iff_isSome_getElem?.1 hmem⟩
  rw [hcfg]
  exact List.mem_filterMap.2 ⟨name, hread, hstore⟩

/-- **A blob that is stored and pinned is downloaded.** -/
theorem Admits.download (ha : env.Admits srv name) (hg : env.Genuine srv b)
    (hs : srv.Stored name (env.enc.blake3 b)) (hh : srv.Holds env.node (env.enc.blake3 b)) :
    (env.client srv).blobDownload (env.enc.blake3 b) = .ok b := by
  obtain ⟨b', hb'⟩ := Option.isSome_iff_exists.1 (ha.readable_of_stored hs)
  obtain ⟨cfg, hcfg, -⟩ := ha.cfg
  obtain ⟨s, hmem, hget⟩ := List.exists_of_findSome?_eq_some hb'
  rw [hcfg] at hmem
  obtain ⟨n, -, hn⟩ := List.mem_filterMap.1 hmem
  obtain rfl := hg n s b' hn hget
  obtain ⟨p, hp, hpin⟩ := hh
  have hall : srv.pinner.all (·.isPinned (env.enc.blake3 b') (.nodeId env.node)) = true := by
    rw [Option.mem_def.1 hp]
    simpa [Pins.isPinned] using hpin
  rw [blobDownload_eq_ok]
  have hflat : (handleDownload srv env.node (env.cfg srv) ⟨env.enc.blake3 b', 0, none⟩).flatten = _ :=
    flatten_handleDownload srv (env.cfg srv) hb'
  rw [hall, if_pos rfl] at hflat
  exact congrArg some hflat

end

/-! ## Imports -/

/-- The import is answered with a blob, which the store `name` has, which the client has pinned and
can download. -/
def Works (env : RemoteEnv) (name : String) (b : Bytes)
    (result : BlobsServer × Except String BlobId) : Prop :=
  (∃ id, result.2 = .ok id) ∧ result.1.Stored name (env.enc.blake3 b) ∧
    result.1.Holds env.node (env.enc.blake3 b) ∧
    (env.client result.1).blobDownload (env.enc.blake3 b) = .ok b

theorem Genuine.insert {env : RemoteEnv} {srv : BlobsServer} {name : String} {b : Bytes} {s : BlobStore}
    (hg : env.Genuine srv b) :
    env.Genuine (env.pinned (srv.setStore name (s.insert (env.enc.blake3 b) b)) (env.enc.blake3 b)) b := by
  intro n s' b' hn hget
  have hstores : (srv.stores.insert name (s.insert (env.enc.blake3 b) b))[n]? = some s' := hn
  rw [ExtTreeMap.getElem?_insert] at hstores
  split at hstores
  · obtain rfl := Option.some.inj hstores
    rw [ExtTreeMap.getElem?_insert_self] at hget
    exact (Option.some.inj hget).symm
  · exact hg n s' b' hstores hget

/-- The outboard data of a blob are the hashes above its blocks of 64 KiB: there are none for one
block, and they do not have the hash of the blob itself. -/
structure Bao (env : RemoteEnv) (b : Bytes) : Prop where
  root : (env.enc.computeOutboard b).1 = env.enc.blake3 b
  data : (env.enc.computeOutboard b).2.isSome = true ↔ BlobFiles.outboardThreshold < b.length
  apart : ∀ data, (env.enc.computeOutboard b).2 = some data → env.enc.blake3 data ≠ env.enc.blake3 b

section
variable {env : RemoteEnv} {srv : BlobsServer} {name : String} {b : Bytes}

theorem not_works_error {e : String} : ¬ env.Works name b (srv, .error e) := by
  rintro ⟨⟨id, hid⟩, -⟩
  cases hid

/-- A blob that is stored is downloaded once the client has pinned it. -/
theorem works_of_holds (ha : env.Admits srv name) (hg : env.Genuine srv b)
    (hs : srv.Stored name (env.enc.blake3 b)) (hh : srv.Holds env.node (env.enc.blake3 b)) (id : BlobId) :
    env.Works name b (srv, .ok id) :=
  ⟨⟨id, rfl⟩, hs, hh, ha.download hg hs hh⟩

/-- **A blob of more than one block** is pinned for its outboard data if the server has it; if not,
the outboard data are uploaded as the blob. -/
theorem importBytes_large (ha : env.Admits srv name) (hg : env.Genuine srv b) (hb : env.Bao b)
    (hlarge : BlobFiles.outboardThreshold < b.length) :
    env.Works name b (importBytes env.ops env.enc srv b) ↔ srv.Stored name (env.enc.blake3 b) := by
  obtain ⟨data, hdata⟩ := Option.isSome_iff_exists.1 (hb.data.2 hlarge)
  have hput : putOutboard env.ops env.enc srv (env.enc.blake3 b) (some data) =
      env.pinOr srv (env.enc.blake3 b) fun srv =>
        env.uploadChunks srv (env.enc.blake3 b) data.length [data] := putBytes_obao6Path data
  unfold importBytes
  dsimp only
  rw [if_pos (Nat.le_of_lt hlarge), hdata, hb.root, hput]
  unfold pinOr
  by_cases hs : srv.Stored name (env.enc.blake3 b)
  · have hexists : env.ops.contains (env.pinned srv (env.enc.blake3 b))
        (blobPath env.enc (env.enc.blake3 b) env.ops.features) = .ok true :=
      (remoteExists_blobPath).trans (congrArg Except.ok (ha.pinned.readable_of_stored hs))
    rw [pinBlob_of_stored ha hs]
    dsimp only
    rw [hexists]
    exact iff_of_true (works_of_holds ha.pinned hg hs (holds_pinned ha) _) hs
  · obtain ⟨e, he⟩ := uploadChunks_mismatch ha (hb.apart data hdata)
    rw [pinBlob_of_not_stored ha hs]
    dsimp only
    generalize env.uploadChunks srv (env.enc.blake3 b) data.length [data] = res at he
    obtain ⟨srv', res⟩ := res
    obtain rfl : res = .error e := he
    exact iff_of_false not_works_error hs

/-- **A blob of one block** is uploaded and pinned if the client finds it nowhere; if it does, that is
all there is to the import. -/
theorem importBytes_small (ha : env.Admits srv name) (hg : env.Genuine srv b) (hb : env.Bao b)
    (hsmall : ¬ BlobFiles.outboardThreshold < b.length) :
    env.Works name b (importBytes env.ops env.enc srv b) ↔
      (∀ s ∈ srv.readable (env.cfg srv), env.enc.blake3 b ∉ s) ∨
        srv.Stored name (env.enc.blake3 b) ∧ srv.Holds env.node (env.enc.blake3 b) := by
  have hnone : (env.enc.computeOutboard b).2 = none := by
    rw [← Option.not_isSome_iff_eq_none, hb.data]
    exact hsmall
  have hcomputed : (if BlobFiles.outboardThreshold ≤ b.length then env.enc.computeOutboard b
      else (env.enc.blake3 b, none)) = (env.enc.blake3 b, none) := by
    split
    · exact Prod.ext hb.root hnone
    · rfl
  have hcontains : env.ops.contains srv (blobPath env.enc (env.enc.blake3 b) env.ops.features) = _ :=
    remoteExists_blobPath
  have hrename : env.ops.features.supportsRename = false := rfl
  unfold importBytes
  dsimp only
  rw [hcomputed]
  simp only [putOutboard]
  rw [hcontains]
  cases hfind : (srv.readable (env.cfg srv)).findSome? (·[env.enc.blake3 b]?) with
  | some b' =>
    obtain ⟨s, hmem, hget⟩ := List.exists_of_findSome?_eq_some hfind
    have hin : env.enc.blake3 b ∈ s := by
      rw [ExtTreeMap.mem_iff_isSome_getElem?, hget]
      rfl
    simp only [Option.isSome_some]
    constructor
    · rintro ⟨-, hs, hh, -⟩
      exact .inr ⟨hs, hh⟩
    · rintro (hno | ⟨hs, hh⟩)
      · exact absurd hin (hno s hmem)
      · exact works_of_holds ha hg hs hh _
  | none =>
    have hno : ∀ s ∈ srv.readable (env.cfg srv), env.enc.blake3 b ∉ s := by
      intro s hmem hin
      have hget := List.findSome?_eq_none_iff.1 hfind s hmem
      rw [ExtTreeMap.mem_iff_isSome_getElem?, hget] at hin
      cases hin
    have hs : ¬ srv.Stored name (env.enc.blake3 b) := by
      intro hs
      have hsome := ha.readable_of_stored hs
      rw [hfind] at hsome
      cases hsome
    have hlen : b.length < 2 ^ 64 := by
      unfold BlobFiles.outboardThreshold at hsmall
      omega
    obtain ⟨s, hstore, hupload⟩ := uploadChunks_ok ha hs hlen
    have hput : env.ops.putBytes srv (blobPath env.enc (env.enc.blake3 b) env.ops.features) b =
        (env.pinned (srv.setStore name (s.insert (env.enc.blake3 b) b)) (env.enc.blake3 b), .ok ()) := by
      refine (putBytes_blobPath b).trans ?_
      unfold pinOr
      rw [pinBlob_of_not_stored ha hs]
      exact hupload
    have hset : env.Admits (srv.setStore name (s.insert (env.enc.blake3 b) b)) name :=
      ⟨ha.cfg, ⟨_, ExtTreeMap.getElem?_insert_self⟩, ha.pinner⟩
    simp only [Option.isSome_none, hrename, Bool.false_eq_true, if_false, hput]
    refine iff_of_true (works_of_holds hset.pinned ?_ ?_ (holds_pinned hset) _) (.inl hno)
    · exact hg.insert
    · exact ⟨_, ExtTreeMap.getElem?_insert_self, ExtTreeMap.mem_insert_self⟩

end

/-- **No stream is imported**: the path of its temporary object has no hash. -/
theorem importStream_error {env : RemoteEnv} (srv : BlobsServer) (chunks : List Bytes)
    (htemp : ∀ bytes, env.decode "temp" = .ok bytes → bytes.length = 3) :
    ∃ e, importStream env.ops env.enc srv chunks = (srv, .error e) := by
  have hpath : ∃ e, hashFromPath env.base64 remoteTempPath = .error e := by
    have hsplit : Fs.splitOnce remoteTempPath = some ("blob3", "temp") := by
      rw [Fs.splitOnce_eq_some]
      exact ⟨by decide, by decide⟩
    have hends : ("blob3".endsWith "blob3" || "blob3".endsWith "obao6") = true := by decide +kernel
    have hletters : String.ofList ("temp".toList.filter (· ≠ '/')) = "temp" := by decide
    unfold hashFromPath
    rw [hsplit]
    dsimp only
    rw [if_pos hends, hletters]
    have hdecode : env.base64.decode "temp" = env.decode "temp" := rfl
    rw [hdecode]
    cases hd : env.decode "temp" with
    | error e => exact ⟨_, rfl⟩
    | ok bytes =>
      have hlen := htemp bytes hd
      dsimp only
      rw [if_pos (by omega)]
      exact ⟨_, rfl⟩
  obtain ⟨e, he⟩ := hpath
  have hput : env.ops.putTemp srv (.new chunks) = (srv, .new chunks, .error e) := by
    change env.putTemp srv (.new chunks) = _
    unfold putTemp putStream
    rw [he]
    rfl
  unfold importStream
  rw [hput]
  exact ⟨e, rfl⟩

end RemoteEnv

/-! ## Which imports come through -/

open RemoteEnv

/-- `import_bytes` of a blob that has outboard data and is in the upload store, or of one that has
none and either is in no store the client reads, or is in the upload store and pinned by the client. -/
def ImportCall.ComesThrough (env : RemoteEnv) (srv : BlobsServer) (name : String) : ImportCall → Prop
  | .bytes b =>
    if BlobFiles.outboardThreshold < b.length then srv.Stored name (env.enc.blake3 b)
    else (∀ s ∈ srv.readable (env.cfg srv), env.enc.blake3 b ∉ s) ∨
      srv.Stored name (env.enc.blake3 b) ∧ srv.Holds env.node (env.enc.blake3 b)
  | .stream _ => False

/-- **The imports that work end to end.** -/
theorem remote_import_iff (env : RemoteEnv) (srv : BlobsServer) (name : String) (call : ImportCall)
    (ha : env.Admits srv name) (hg : env.Genuine srv call.data) (hb : env.Bao call.data)
    (htemp : ∀ bytes, env.decode "temp" = .ok bytes → bytes.length = 3) :
    env.Works name call.data (call.run env srv) ↔ call.ComesThrough env srv name := by
  cases call with
  | bytes b =>
    dsimp only [ImportCall.run, ImportCall.ComesThrough, ImportCall.data]
    by_cases hlarge : BlobFiles.outboardThreshold < b.length
    · rw [if_pos hlarge]
      exact importBytes_large ha hg hb hlarge
    · rw [if_neg hlarge]
      exact importBytes_small ha hg hb hlarge
  | stream chunks =>
    obtain ⟨e, he⟩ := importStream_error srv chunks htemp
    dsimp only [ImportCall.run, ImportCall.ComesThrough]
    rw [he]
    exact iff_of_false not_works_error id

/-! A blob that the server has where the client may not read. -/

/-- A client whose libraries know some short blobs. -/
def shortRemote : RemoteEnv where
  enc := base64Encoding
  decode text := ((Base64Url.decode text).map Except.ok).getD (.error "Invalid padding")
  decode_encode bytes :=
    congrArg (fun r => (Option.map Except.ok r).getD _) (Base64Url.decode_encode bytes)
  slash_free := Base64Url.not_mem_encode (by decide)
  hashBytes h := shortBlake3 (Bytes32.toBytes h)
  nodeKey := nodeText
  node := 1

/-- Another peer has pinned `[4, 5]` in the store of all peers, and `[1, 2, 3]` in an archive. -/
def busyServer : BlobsServer where
  stores := (∅ : ExtTreeMap String BlobStore)
    |>.insert "default" ((∅ : BlobStore).insert (shortBlake3 [4, 5]) [4, 5])
    |>.insert "archive" ((∅ : BlobStore).insert (shortBlake3 [1, 2, 3]) [1, 2, 3])
  peerCfg := oneStore.peerCfg
  pinner := some ((Pins.empty.pinHash (shortBlake3 [4, 5]) (.nodeId 2)).pinHash
    (shortBlake3 [1, 2, 3]) (.nodeId 2))

theorem stores_busyServer {name : String} {s : BlobStore} (h : busyServer.stores[name]? = some s) :
    name = "archive" ∧ s = (∅ : BlobStore).insert (shortBlake3 [1, 2, 3]) [1, 2, 3] ∨
      name = "default" ∧ s = (∅ : BlobStore).insert (shortBlake3 [4, 5]) [4, 5] := by
  simp only [busyServer, ExtTreeMap.getElem?_insert, Std.LawfulEqCmp.compare_eq_iff_eq] at h
  split at h
  · rename_i hname
    exact .inl ⟨hname.symm, (Option.some.inj h).symm⟩
  · split at h
    · rename_i hname
      exact .inr ⟨hname.symm, (Option.some.inj h).symm⟩
    · simp at h

theorem busyServer_admits : shortRemote.Admits busyServer "default" where
  cfg := ⟨⟨["default"], some "default"⟩, by decide +kernel, rfl, List.mem_singleton.2 rfl⟩
  store := ⟨(∅ : BlobStore).insert (shortBlake3 [4, 5]) [4, 5], by decide +kernel⟩
  pinner := ⟨_, rfl⟩

theorem busyServer_genuine : shortRemote.Genuine busyServer [1, 2, 3] := by
  intro name s b' hs hget
  obtain ⟨-, rfl⟩ | ⟨-, rfl⟩ := stores_busyServer hs
  · have hblob : ((∅ : BlobStore).insert (shortBlake3 [1, 2, 3]) [1, 2, 3])[shortBlake3 [1, 2, 3]]? =
        some [1, 2, 3] := ExtTreeMap.getElem?_insert_self
    exact (Option.some.inj (hblob.symm.trans hget)).symm
  · have hnone : ((∅ : BlobStore).insert (shortBlake3 [4, 5]) [4, 5])[shortBlake3 [1, 2, 3]]? = none := by
      decide +kernel
    cases hnone.symm.trans hget

theorem shortRemote_bao : shortRemote.Bao [1, 2, 3] where
  root := rfl
  data := by simp [shortRemote, base64Encoding, BlobFiles.outboardThreshold]
  apart data h := by cases h

theorem shortRemote_temp (bytes : Bytes) (h : shortRemote.decode "temp" = .ok bytes) :
    bytes.length = 3 := by
  have htemp : shortRemote.decode "temp" = .ok [0xb5, 0xe9, 0xa9] := by decide +kernel
  rw [htemp] at h
  rw [← Except.ok.inj h]
  rfl

theorem remote_import_archived :
    shortRemote.Works "default" [1, 2, 3]
      ((ImportCall.bytes [1, 2, 3]).run shortRemote busyServer) := by
  refine (remote_import_iff shortRemote busyServer "default" (.bytes [1, 2, 3]) busyServer_admits
    busyServer_genuine shortRemote_bao shortRemote_temp).2 ?_
  refine .inl fun s hs => ?_
  have hread : busyServer.readable (shortRemote.cfg busyServer) =
      [(∅ : BlobStore).insert (shortBlake3 [4, 5]) [4, 5]] := by decide +kernel
  rw [hread] at hs
  obtain rfl := List.mem_singleton.1 hs
  decide +kernel

/-- A stream of the same bytes is not imported. -/
theorem remote_stream_refused :
    shortRemote.Admits busyServer "default" ∧ shortRemote.Genuine busyServer [1, 2, 3] ∧
      shortRemote.Bao [1, 2, 3] ∧
      ¬ shortRemote.Works "default" [1, 2, 3]
        ((ImportCall.stream [[1], [2, 3]]).run shortRemote busyServer) := by
  refine ⟨busyServer_admits, busyServer_genuine, shortRemote_bao, ?_⟩
  obtain ⟨e, he⟩ := importStream_error busyServer [[1], [2, 3]] shortRemote_temp
  dsimp only [ImportCall.run]
  rw [he]
  exact not_works_error

end Blobs
