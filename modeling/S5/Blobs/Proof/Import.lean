import S5.Blobs.Import
import S5.Blobs.Proof.Pinned
import S5.Core.Proof.Tee
import S5.Lib.Hex
import S5.Lib.Run

/-!
# Blob stores are content addressed

Whichever route an import takes, it writes at most one object under `blob3/`, at the path of the hash
of its data and only if there is none, and leaves none under `.tmp/` (`Wrote`); `delete` removes the
one of its hash. Everything else follows.

* `content_addressed`: along every run of imports and deletes.
-/

namespace Blobs

/-! ## Paths -/

/-- The path lies below a directory. -/
def Under (dir path : String) : Prop := dir.toList <+: path.toList

theorem under_append (dir rest : String) : Under dir (dir ++ rest) := by
  unfold Under
  rw [String.toList_append]
  exact List.prefix_append _ _

/-- Directories of which none lies below the other share no path. -/
theorem ne_of_under {dir dir' path path' : String} (h : Under dir path) (h' : Under dir' path')
    (hd : ¬ dir.toList <+: dir'.toList) (hd' : ¬ dir'.toList <+: dir.toList) : path ≠ path' := by
  rintro rfl
  rcases List.prefix_or_prefix_of_prefix h h' with hp | hp
  · exact hd hp
  · exact hd' hp

variable (env : BlobEncoding)

theorem toBytes32_injective : Function.Injective Bytes32.toBytes :=
  Function.LeftInverse.injective Bytes32.ofBytes_toBytes

/-- Text with a slash after its first two characters. -/
theorem cut_injective {k l r r' : List Char} (hk : 2 ≤ k.length) (hl : 2 ≤ l.length)
    (hr : r = r' → k.drop 2 = l.drop 2) (h : k.take 2 ++ '/' :: r = l.take 2 ++ '/' :: r') : k = l := by
  obtain ⟨h1, h2⟩ := List.append_inj h (by simp; omega)
  rw [← List.take_append_drop 2 k, ← List.take_append_drop 2 l, h1, hr (List.cons.inj h2).2]

/-- **Different hashes have different paths.** -/
theorem pathForHash_injective (features : StoreFeatures) :
    Function.Injective (pathForHash env · features) := by
  intro h h' heq
  have htext : ∀ text : TextEncoding, (text.encode (Bytes32.toBytes h)).toList =
      (text.encode (Bytes32.toBytes h')).toList → h = h' := fun text he =>
    toBytes32_injective (text.injective (String.toList_injective he))
  have hlong : ∀ (text : TextEncoding) (h : Hash),
      6 ≤ (text.encode (Bytes32.toBytes h)).toList.length := fun text h =>
    text.long _ (Bytes32.length_toBytes h)
  simp only [pathForHash] at heq
  cases hcase : features.caseSensitive with
  | true =>
    have hk := hlong env.base64 h
    have hl := hlong env.base64 h'
    simp only [hcase, if_true] at heq
    refine htext env.base64 ?_
    split at heq
    · refine cut_injective (by omega) (by omega) (fun hr => ?_) (String.ofList_injective heq)
      refine cut_injective (by simp; omega) (by simp; omega) (fun hr => ?_) hr
      simpa using hr
    · exact String.ofList_injective heq
  | false =>
    have hk := hlong env.base32 h
    have hl := hlong env.base32 h'
    simp only [hcase, if_false, Bool.false_eq_true] at heq
    refine htext env.base32 ?_
    split at heq
    · refine cut_injective (by omega) (by omega) (fun hr => ?_) (String.ofList_injective heq)
      refine cut_injective (by simp; omega) (by simp; omega) (fun hr => ?_) hr
      rw [List.drop_drop, List.drop_drop]
      refine cut_injective (by simp; omega) (by simp; omega) (fun hr => ?_) hr
      simpa using hr
    · exact String.ofList_injective heq

theorem blobPath_injective (features : StoreFeatures) :
    Function.Injective (blobPath env · features) := by
  intro h h' heq
  have hlist := congrArg String.toList heq
  simp only [blobPath, String.toList_append, List.append_cancel_left_eq] at hlist
  exact pathForHash_injective env features (String.toList_injective hlist)

theorem under_blobPath (h : Hash) (features : StoreFeatures) : Under "blob3/" (blobPath env h features) :=
  under_append _ _

theorem under_tempPath (uuid : String) : Under ".tmp/" (Store.tempPath uuid) := under_append _ _

theorem under_obao6Path (h : Hash) (features : StoreFeatures) :
    Under "obao6/" (obao6Path env h features) :=
  under_append _ _

/-! ## Imports -/

variable {env} {b b' : BlobFiles} {h : Hash} {data : Bytes}

/-- No temporary object is there. -/
def NoTemps (b : BlobFiles) : Prop := ∀ path, Under ".tmp/" path → b.store.object path = none

/-- What an import does to the store of the blobs. -/
structure Wrote (env : BlobEncoding) (h : Hash) (data : Bytes) (b b' : BlobFiles) : Prop where
  features : b'.store.features = b.store.features
  blobs : ∀ path, Under "blob3/" path → b'.store.object path =
    if path = blobPath env h b.store.features ∧ b.store.object path = none then some data
    else b.store.object path
  temps : NoTemps b'

/-- Only objects outside `blob3/` and `.tmp/` differ. -/
structure SameBlobs (b b' : BlobFiles) : Prop where
  features : b'.store.features = b.store.features
  blobs : ∀ path, Under "blob3/" path → b'.store.object path = b.store.object path
  temps : ∀ path, Under ".tmp/" path → b'.store.object path = b.store.object path

theorem SameBlobs.refl (b : BlobFiles) : SameBlobs b b := ⟨rfl, fun _ _ => rfl, fun _ _ => rfl⟩

variable (env) in
theorem sameBlobs_putOutboard (b : BlobFiles) (h : Hash) (data : Option Bytes) :
    SameBlobs b (b.putOutboard env h data) := by
  unfold BlobFiles.putOutboard
  split
  · refine ⟨rfl, fun path hp => ?_, fun path hp => ?_⟩
    · have hne := ne_of_under hp (under_obao6Path env h b.store.features) (by decide) (by decide)
      simp [hne]
    · have hne := ne_of_under hp (under_obao6Path env h b.store.features) (by decide) (by decide)
      simp [hne]
  · exact ⟨rfl, fun _ _ => rfl, fun _ _ => rfl⟩
  · exact .refl b

theorem contains_iff (s : Store) (path : String) : s.contains path = true ↔ s.object path ≠ none := by
  unfold Store.contains
  cases s.object path <;> simp

/-- The temporary object has become the blob, or has gone since the blob was there. -/
theorem Wrote.of_object {tempPath : String} {store : Store} {o : OutboardStore}
    (ht : Under ".tmp/" tempPath) (hsame : SameBlobs b b')
    (hclean : ∀ path, Under ".tmp/" path → path ≠ tempPath → b.store.object path = none)
    (hf : store.features = b'.store.features)
    (hobj : ∀ path, store.object path =
      if path = tempPath then none
      else if path = blobPath env h b'.store.features ∧ b'.store.object path = none then some data
      else b'.store.object path) : Wrote env h data b ⟨store, o⟩ := by
  refine ⟨hf.trans hsame.features, fun path hp => ?_, fun path hp => ?_⟩
  · have hne : path ≠ tempPath := ne_of_under hp ht (by decide) (by decide)
    rw [hobj, if_neg hne, hsame.features, hsame.blobs path hp]
  · by_cases hpt : path = tempPath
    · rw [hobj, if_pos hpt]
    · have hne : path ≠ blobPath env h b'.store.features :=
        ne_of_under hp (under_blobPath env h _) (by decide) (by decide)
      rw [hobj, if_neg hpt, if_neg fun hand => hne hand.1, hsame.temps path hp, hclean path hp hpt]

/-- **The end of an import** that has its data in a temporary object. -/
theorem finalizeImport_spec {tempPath : String} (ht : Under ".tmp/" tempPath)
    (hdata : b.store.object tempPath = some data)
    (hclean : ∀ path, Under ".tmp/" path → path ≠ tempPath → b.store.object path = none)
    (h : Hash) (size : Nat) (outboard : Option Bytes) :
    (b.finalizeImport env tempPath h size outboard).2 = .ok ⟨h, size⟩ ∧
      Wrote env h data b (b.finalizeImport env tempPath h size outboard).1 := by
  have hsame := sameBlobs_putOutboard env b h outboard
  unfold BlobFiles.finalizeImport
  generalize b.putOutboard env h outboard = o at hsame
  have htemp : o.store.object tempPath = some data := by rw [hsame.temps _ ht, hdata]
  have hne : tempPath ≠ blobPath env h o.store.features :=
    ne_of_under ht (under_blobPath env h _) (by decide) (by decide)
  dsimp only
  by_cases hthere : o.store.contains (blobPath env h o.store.features) = true
  · rw [if_pos hthere]
    refine ⟨rfl, .of_object ht hsame hclean rfl fun path => ?_⟩
    rw [Store.object_delete]
    by_cases hp : path = blobPath env h o.store.features
    · have hsome := (contains_iff _ _).1 hthere
      rw [← hp] at hsome
      simp [hsome]
    · simp [hp]
  · have hnone : o.store.object (blobPath env h o.store.features) = none := by
      by_contra hsome
      exact hthere ((contains_iff _ _).2 hsome)
    rw [if_neg hthere]
    by_cases hr : o.store.features.supportsRename = true
    · have hrename : o.store.rename tempPath (blobPath env h o.store.features) =
          .ok ((o.store.delete tempPath).putBytes (blobPath env h o.store.features) data) := by
        simp [Store.rename, htemp]
      rw [if_pos hr, hrename]
      refine ⟨rfl, .of_object ht hsame hclean rfl fun path => ?_⟩
      rw [Store.object_putBytes, Store.object_delete]
      by_cases hp : path = blobPath env h o.store.features
      · simp [hp, hne.symm, hnone]
      · simp [hp]
    · have hread : o.store.openReadStream tempPath 0 none = .ok [data] := by
        simp [Store.openReadStream, Store.openReadBytes_zero_none, htemp, Except.map]
      rw [if_neg hr, hread]
      refine ⟨rfl, .of_object ht hsame hclean rfl fun path => ?_⟩
      rw [Store.object_delete, Store.putStream, Store.object_putBytes]
      by_cases hp : path = blobPath env h o.store.features
      · simp [hp, hne.symm, hnone]
      · simp [hp]

/-- The libraries do what they say: the outboard is computed along with the hash. -/
def BlobEncoding.Lawful (env : BlobEncoding) : Prop :=
  ∀ bytes, (env.computeOutboard bytes).1 = env.blake3 bytes

/-- A temporary object has been put beside the blobs. -/
theorem putTemp_spec (hclean : NoTemps b) (uuid : String) (chunks : List Bytes) (h : Hash) (size : Nat)
    (outboard : Option Bytes) :
    let t : BlobFiles := { b with store := (b.store.putTemp uuid chunks).1 }
    (t.finalizeImport env (Store.tempPath uuid) h size outboard).2 = .ok ⟨h, size⟩ ∧
      Wrote env h chunks.flatten b (t.finalizeImport env (Store.tempPath uuid) h size outboard).1 := by
  intro t
  have ht := under_tempPath uuid
  have hobj : ∀ path, t.store.object path =
      if path = Store.tempPath uuid then some chunks.flatten else b.store.object path :=
    fun path => Store.object_putBytes _ _
  obtain ⟨hok, hw⟩ := @finalizeImport_spec env t chunks.flatten _ ht
    (by rw [hobj, if_pos rfl]) (fun path hp hne => by rw [hobj, if_neg hne]; exact hclean path hp)
    h size outboard
  refine ⟨hok, hw.features, fun path hp => ?_, hw.temps⟩
  have hne : path ≠ Store.tempPath uuid := ne_of_under hp ht (by decide) (by decide)
  have hsame : t.store.object path = b.store.object path := by rw [hobj, if_neg hne]
  rw [hw.blobs path hp, hsame]
  rfl

theorem Wrote.of_sameBlobs (hsame : SameBlobs b b') {c : BlobFiles} (hw : Wrote env h data b' c) :
    Wrote env h data b c := by
  refine ⟨hw.features.trans hsame.features, fun path hp => ?_, hw.temps⟩
  rw [hw.blobs path hp, hsame.features, hsame.blobs path hp]

theorem NoTemps.of_sameBlobs (hsame : SameBlobs b b') (hclean : NoTemps b) : NoTemps b' :=
  fun path hp => (hsame.temps path hp).trans (hclean path hp)

/-- **`import_bytes`**: already there, renamed, or put. -/
theorem importBytes_spec (law : env.Lawful) (hclean : NoTemps b) (uuid : String) (bytes : Bytes) :
    (b.importBytes env uuid bytes).2 = .ok ⟨env.blake3 bytes, bytes.length⟩ ∧
      Wrote env (env.blake3 bytes) bytes b (b.importBytes env uuid bytes).1 := by
  have hhash : (if b.hasOutboard = true ∧ BlobFiles.outboardThreshold ≤ bytes.length then
      env.computeOutboard bytes else (env.blake3 bytes, none)).1 = env.blake3 bytes := by
    split
    · exact law bytes
    · rfl
  unfold BlobFiles.importBytes
  dsimp only
  rw [hhash]
  generalize (if b.hasOutboard = true ∧ BlobFiles.outboardThreshold ≤ bytes.length then
      env.computeOutboard bytes else (env.blake3 bytes, none)).2 = obao
  have hsame := sameBlobs_putOutboard env b (env.blake3 bytes) obao
  generalize b.putOutboard env (env.blake3 bytes) obao = o at hsame
  by_cases hthere : o.store.contains (blobPath env (env.blake3 bytes) o.store.features) = true
  · rw [if_pos hthere]
    refine ⟨rfl, .of_sameBlobs hsame ⟨rfl, fun path _ => ?_, hclean.of_sameBlobs hsame⟩⟩
    rw [if_neg]
    rintro ⟨rfl, hnone⟩
    exact (contains_iff _ _).1 hthere hnone
  · have hnone : o.store.object (blobPath env (env.blake3 bytes) o.store.features) = none := by
      by_contra hsome
      exact hthere ((contains_iff _ _).2 hsome)
    rw [if_neg hthere]
    by_cases hr : o.store.features.supportsRename = true
    · rw [if_pos hr]
      obtain ⟨hok, hw⟩ := @putTemp_spec env o (hclean.of_sameBlobs hsame) uuid [bytes]
        (env.blake3 bytes) bytes.length obao
      rw [List.flatten_singleton] at hw
      exact ⟨hok, .of_sameBlobs hsame hw⟩
    · rw [if_neg hr]
      refine ⟨rfl, .of_sameBlobs hsame ⟨rfl, fun path hp => ?_, fun path hp => ?_⟩⟩
      · rw [Store.object_putBytes]
        by_cases hpath : path = blobPath env (env.blake3 bytes) o.store.features
        · simp [hpath, hnone]
        · simp [hpath]
      · have hne := ne_of_under hp (under_blobPath env (env.blake3 bytes) o.store.features)
          (by decide) (by decide)
        rw [Store.object_putBytes, if_neg hne]
        exact hclean.of_sameBlobs hsame path hp

/-! ## Streams -/

/-- The stream of an import, with a source that is never pending. -/
def TeeStream.toTee (t : TeeStream) : Tee.TeeStream Tee.Script Tee.HasherWriter :=
  ⟨⟨t.stream.map .ready⟩, ⟨t.hashed⟩, t.writeBuf, t.streamDone⟩

/-- The hasher takes a chunk at once. -/
theorem toTee_write (t : TeeStream) : t.toTee.write = (t.flush.toTee, none) := by
  obtain ⟨stream, hashed, writeBuf, streamDone⟩ := t
  cases writeBuf with
  | none => rfl
  | some buf => exact if_pos rfl

theorem flush_writeBuf (t : TeeStream) : t.flush.writeBuf = none := by
  obtain ⟨stream, hashed, writeBuf, streamDone⟩ := t
  cases writeBuf <;> rfl

/-- A poll of the stream of an import, in two rounds at most. -/
theorem toTee_pollNext (t : TeeStream) :
    t.toTee.pollNext 2 = some (t.pollNext.1.toTee, .ready (t.pollNext.2.map .ok)) := by
  have hbuf := flush_writeBuf t
  rw [Tee.TeeStream.pollNext, Tee.TeeStream.round, toTee_write]
  unfold TeeStream.pollNext
  dsimp only
  generalize t.flush = u at hbuf
  obtain ⟨stream, hashed, writeBuf, streamDone⟩ := u
  obtain rfl : writeBuf = none := hbuf
  cases streamDone with
  | true => rfl
  | false => cases stream <;> rfl

/-- **The tee** hands every chunk on and has hashed them all at the end. -/
theorem collect_spec (chunks : List Bytes) (hashed : Bytes) (buf : Option Bytes) {polls : Nat}
    (hp : chunks.length < polls) :
    ((⟨chunks, hashed, buf, false⟩ : TeeStream).collect polls).2 = chunks ∧
      ((⟨chunks, hashed, buf, false⟩ : TeeStream).collect polls).1.hashed =
        hashed ++ buf.getD [] ++ chunks.flatten := by
  induction chunks generalizing hashed buf polls with
  | nil =>
    cases polls with
    | zero => simp at hp
    | succ polls => cases buf <;> simp [TeeStream.collect, TeeStream.pollNext, TeeStream.flush]
  | cons chunk chunks ih =>
    cases polls with
    | zero => simp at hp
    | succ polls =>
      have hp' : chunks.length < polls := by simpa using hp
      have hflush : (⟨chunk :: chunks, hashed, buf, false⟩ : TeeStream).pollNext =
          (⟨chunks, hashed ++ buf.getD [], some chunk, false⟩, some chunk) := by
        cases buf <;> simp [TeeStream.pollNext, TeeStream.flush]
      obtain ⟨hchunks, hhashed⟩ := ih (hashed ++ buf.getD []) (some chunk) hp'
      simp only [TeeStream.collect, hflush]
      rw [hchunks, hhashed]
      simp

theorem computeFromStore_spec (law : env.Lawful) {path : String}
    (hdata : b.store.object path = some data) :
    ∃ outboard, b.computeFromStore env path (env.blake3 data) = .ok outboard := by
  unfold BlobFiles.computeFromStore
  split
  · have hread : b.store.openReadStream path 0 none = .ok [data] := by
      simp [Store.openReadStream, Store.openReadBytes_zero_none, hdata, Except.map]
    rw [hread]
    exact ⟨(env.computeOutboard data).2, by simp [law data]⟩
  · exact ⟨none, rfl⟩

/-- **`import_stream`**, however the data are cut into chunks. -/
theorem importStream_spec (law : env.Lawful) (hclean : NoTemps b) (uuid : String)
    (chunks : List Bytes) :
    (b.importStream env uuid chunks).2 =
        .ok ⟨env.blake3 chunks.flatten, chunks.flatten.length⟩ ∧
      Wrote env (env.blake3 chunks.flatten) chunks.flatten b (b.importStream env uuid chunks).1 := by
  obtain ⟨hwritten, hhashed⟩ := collect_spec chunks [] none (Nat.lt_succ_self chunks.length)
  have htemp : (b.store.putTemp uuid chunks).1.object (Store.tempPath uuid) = some chunks.flatten := by
    simp [Store.putTemp, Store.putStream]
  obtain ⟨outboard, hout⟩ := @computeFromStore_spec env
    { b with store := (b.store.putTemp uuid chunks).1 } chunks.flatten law _ htemp
  have hsize : (b.store.putTemp uuid chunks).1.size (Store.tempPath uuid) =
      .ok chunks.flatten.length := by
    simp only [Store.size, htemp]
  unfold BlobFiles.importStream TeeStream.new
  simp only [hwritten, hhashed, Option.getD_none, List.nil_append, List.append_nil]
  have hpath : (b.store.putTemp uuid chunks).2 = Store.tempPath uuid := rfl
  rw [hpath, hsize]
  dsimp only
  rw [hout]
  exact putTemp_spec hclean uuid chunks _ _ outboard

/-! ## Deletes -/

/-- **`delete`** removes the blob of its hash. -/
theorem delete_spec (hclean : NoTemps b) (h : Hash) :
    (b.delete env h).store.features = b.store.features ∧
      (∀ path, Under "blob3/" path → (b.delete env h).store.object path =
        if path = blobPath env h b.store.features then none else b.store.object path) ∧
      NoTemps (b.delete env h) := by
  have hfirst : ∀ path, (b.store.delete (blobPath env h b.store.features)).object path =
      if path = blobPath env h b.store.features then none else b.store.object path :=
    fun path => Store.object_delete path
  have htemp : ∀ path, Under ".tmp/" path →
      (b.store.delete (blobPath env h b.store.features)).object path = none := by
    intro path hp
    rw [hfirst]
    split
    · rfl
    · exact hclean path hp
  unfold BlobFiles.delete
  dsimp only
  split
  · exact ⟨rfl, fun path _ => hfirst path, htemp⟩
  · refine ⟨rfl, fun path hp => ?_, fun path hp => ?_⟩
    · have hne := ne_of_under hp (under_obao6Path env h b.store.features) (by decide) (by decide)
      rw [Store.object_delete, Store.delete_features, if_neg hne, hfirst]
    · rw [Store.object_delete]
      split
      · rfl
      · exact htemp path hp
  · exact ⟨rfl, fun path _ => hfirst path, htemp⟩

/-! ## Runs -/

/-- Every object under `blob3/` is at the path of its hash, and there is none under `.tmp/`. -/
structure Addressed (env : BlobEncoding) (b : BlobFiles) : Prop where
  hashed : ∀ path bytes, Under "blob3/" path → b.store.object path = some bytes →
    path = blobPath env (env.blake3 bytes) b.store.features
  temps : NoTemps b

/-- The blob of a hash. -/
def BlobFiles.blob (env : BlobEncoding) (b : BlobFiles) (h : Hash) : Option Bytes :=
  b.store.object (blobPath env h b.store.features)

/-- What a call does to the objects under `blob3/`. -/
structure Called (env : BlobEncoding) (c : BlobCall) (b b' : BlobFiles) : Prop where
  features : b'.store.features = b.store.features
  others : ∀ path, Under "blob3/" path → path ≠ blobPath env (c.hash env) b.store.features →
    b'.store.object path = b.store.object path
  imported : ∀ data, c.data = some data →
    b'.blob env (c.hash env) = some ((b.blob env (c.hash env)).getD data)
  deleted : c.data = none → b'.blob env (c.hash env) = none
  temps : NoTemps b'

theorem Wrote.called (hw : Wrote env h data b b') {c : BlobCall} (hh : c.hash env = h)
    (hd : c.data = some data) : Called env c b b' := by
  subst hh
  refine ⟨hw.features, fun path hp hne => ?_, fun data' hd' => ?_, fun hnone => ?_, hw.temps⟩
  · rw [hw.blobs path hp, if_neg fun hand => hne hand.1]
  · obtain rfl := Option.some.inj (hd.symm.trans hd')
    unfold BlobFiles.blob
    rw [hw.features, hw.blobs _ (under_blobPath env _ _)]
    cases hold : b.store.object (blobPath env (c.hash env) b.store.features) <;> simp
  · rw [hd] at hnone
    cases hnone

/-- **Every call** does only what it says, and answers with the `BlobId` of its data. -/
theorem run_spec (law : env.Lawful) (hclean : NoTemps b) (c : BlobCall) :
    (c.run env b).2 = .ok (c.data.map fun data => ⟨env.blake3 data, data.length⟩) ∧
      Called env c b (c.step env b) := by
  cases c with
  | importBytes uuid bytes =>
    obtain ⟨hok, hw⟩ := importBytes_spec law hclean uuid bytes
    refine ⟨?_, hw.called rfl rfl⟩
    simp [BlobCall.run, hok, BlobCall.data, Except.map]
  | importStream uuid chunks =>
    obtain ⟨hok, hw⟩ := importStream_spec law hclean uuid chunks
    refine ⟨?_, hw.called rfl rfl⟩
    simp [BlobCall.run, hok, BlobCall.data, Except.map]
  | delete k =>
    obtain ⟨hf, hobj, htemps⟩ := @delete_spec env b hclean k
    refine ⟨rfl, hf, fun path hp hne => ?_, fun data hd => ?_, fun _ => ?_, htemps⟩
    · have hne : path ≠ blobPath env k b.store.features := hne
      show (b.delete env k).store.object path = _
      rw [hobj path hp, if_neg hne]
    · cases hd
    · show (b.delete env k).store.object (blobPath env k (b.delete env k).store.features) = none
      rw [hf, hobj _ (under_blobPath env _ _), if_pos rfl]

theorem Called.blob_of_ne {c : BlobCall} (hc : Called env c b b') (hne : h ≠ c.hash env) :
    b'.blob env h = b.blob env h := by
  unfold BlobFiles.blob
  rw [hc.features]
  exact hc.others _ (under_blobPath env _ _) fun he => hne (blobPath_injective env _ he)

theorem hash_of_data {c : BlobCall} (hd : c.data = some data) : c.hash env = env.blake3 data := by
  cases c with
  | importBytes uuid bytes =>
    obtain rfl := Option.some.inj hd
    rfl
  | importStream uuid chunks =>
    obtain rfl := Option.some.inj hd
    rfl
  | delete k => cases hd

/-- The files hold the blobs of a map by hash. -/
def Agrees (env : BlobEncoding) (b : BlobFiles) (s : BlobStore) : Prop :=
  ∀ h, b.blob env h = (s[h]? : Option Bytes)

/-- **The map by hash** that requests are served from is what the paths hold: `import_stream` does the
same to both. -/
theorem Agrees.importStream (law : env.Lawful) (hclean : NoTemps b) {s : BlobStore}
    (ha : Agrees env b s) (uuid : String) (chunks : List Bytes) :
    Agrees env (b.importStream env uuid chunks).1 (s.importStream env.blake3 chunks).1 := by
  have hc := (run_spec law hclean (.importStream uuid chunks)).2
  intro k
  have hk := ha k
  unfold BlobStore.importStream
  dsimp only
  by_cases hne : k = env.blake3 chunks.flatten
  · subst hne
    refine (hc.imported chunks.flatten rfl).trans ?_
    show some ((b.blob env (env.blake3 chunks.flatten)).getD chunks.flatten) = _
    rw [hk]
    by_cases hmem : env.blake3 chunks.flatten ∈ s
    · obtain ⟨old, hold⟩ := Option.isSome_iff_exists.1
        (Std.ExtTreeMap.mem_iff_isSome_getElem?.1 hmem)
      rw [if_pos hmem, hold, Option.getD_some]
    · have hnone : s[env.blake3 chunks.flatten]? = none := by simpa using hmem
      rw [if_neg hmem, hnone, Option.getD_none, Std.ExtTreeMap.getElem?_insert_self]
  · refine (hc.blob_of_ne hne).trans (hk.trans ?_)
    split
    · rfl
    · rw [Std.ExtTreeMap.getElem?_insert, if_neg (by simpa using Ne.symm hne)]

theorem Agrees.delete (hclean : NoTemps b) {s : BlobStore} (ha : Agrees env b s) (h : Hash)
    (law : env.Lawful) : Agrees env (b.delete env h) (s.delete h) := by
  have hc := (run_spec law hclean (.delete h)).2
  intro k
  unfold BlobStore.delete
  rw [Std.ExtTreeMap.getElem?_erase]
  by_cases hne : k = h
  · subst hne
    rw [if_pos (by simp)]
    exact hc.deleted rfl
  · rw [if_neg (by simpa using Ne.symm hne)]
    exact (hc.blob_of_ne hne).trans (ha k)

/-- What an object under `blob3/` can be after a call. -/
theorem Called.object_cases {c : BlobCall} (hc : Called env c b b') {path : String} {bytes : Bytes}
    (hp : Under "blob3/" path) (ho : b'.store.object path = some bytes) :
    b.store.object path = some bytes ∨
      c.data = some bytes ∧ path = blobPath env (env.blake3 bytes) b.store.features := by
  by_cases hpath : path = blobPath env (c.hash env) b.store.features
  · have hblob : b'.blob env (c.hash env) = some bytes := by
      unfold BlobFiles.blob
      rw [hc.features, ← hpath]
      exact ho
    cases hd : c.data with
    | none =>
      rw [hc.deleted hd] at hblob
      cases hblob
    | some data =>
      rw [hc.imported data hd] at hblob
      cases hold : b.blob env (c.hash env) with
      | none =>
        rw [hold] at hblob
        obtain rfl := Option.some.inj hblob
        exact .inr ⟨rfl, hpath.trans (by rw [hash_of_data hd]; rfl)⟩
      | some old =>
        rw [hold] at hblob
        obtain rfl := Option.some.inj hblob
        left
        rw [hpath]
        exact hold
  · exact .inl ((hc.others path hp hpath).symm.trans ho)

theorem Addressed.step (law : env.Lawful) (ha : Addressed env b) (c : BlobCall) :
    Addressed env (c.step env b) := by
  obtain ⟨-, hc⟩ := run_spec law ha.temps c
  refine ⟨fun path bytes hp ho => ?_, hc.temps⟩
  rw [hc.features]
  rcases hc.object_cases hp ho with hold | ⟨-, hpath⟩
  · exact ha.hashed path bytes hp hold
  · exact hpath

/-- The data that are stored at the start or imported by one of the calls. -/
def Held (b : BlobFiles) (calls : List BlobCall) (data : Bytes) : Prop :=
  (∃ path, Under "blob3/" path ∧ b.store.object path = some data) ∨ ∃ c ∈ calls, c.data = some data

/-- Nothing is stored that is not held. -/
def AllHeld (held : Bytes → Prop) (b : BlobFiles) : Prop :=
  ∀ path data, Under "blob3/" path → b.store.object path = some data → held data

theorem addressed_run (law : env.Lawful) (ha : Addressed env b) (calls : List BlobCall) :
    Run.Always (BlobCall.step env) (fun b' => Addressed env b' ∧ AllHeld (Held b calls) b') b calls := by
  refine Run.always_of_steps (C := fun _ c => c ∈ calls) (fun b' c h hc => ?_)
    ⟨ha, fun path data hp ho => .inl ⟨path, hp, ho⟩⟩ fun pre c hpre => ?_
  · obtain ⟨-, hcall⟩ := run_spec law h.1.temps c
    refine ⟨h.1.step law c, fun path data hp ho => ?_⟩
    rcases hcall.object_cases hp ho with hold | ⟨hd, -⟩
    · exact h.2 path data hp hold
    · exact .inr ⟨c, hc, hd⟩
  · exact hpre.subset (List.mem_append_right _ (List.mem_singleton_self c))

/-- An import leaves its data, unless another blob of the same hash is in the way. -/
theorem blob_of_import (ha : Addressed env b) {held : Bytes → Prop} (hheld : AllHeld held b)
    (hcol : ∀ x y, held x → held y → env.blake3 x = env.blake3 y → x = y) {c : BlobCall}
    (hc : Called env c b b') (hd : c.data = some data) (hdata : held data) :
    b'.blob env (env.blake3 data) = some data := by
  have himp := hc.imported data hd
  rw [hash_of_data hd] at himp
  cases hold : b.blob env (env.blake3 data) with
  | none => rw [himp, hold, Option.getD_none]
  | some old =>
    have hpath := ha.hashed _ old (under_blobPath env _ _) hold
    have hhash : env.blake3 data = env.blake3 old := blobPath_injective env _ hpath
    have hsame : data = old :=
      hcol data old hdata (hheld _ old (under_blobPath env _ _) hold) hhash
    rw [himp, hold, Option.getD_some, hsame]

/-- A blob stays until it is deleted. -/
theorem blob_kept (law : env.Lawful) (ha : Addressed env b) {calls : List BlobCall}
    (hblob : b.blob env h = some data) (hno : ∀ c ∈ calls, c ≠ .delete h) :
    (calls.foldl (BlobCall.step env) b).blob env h = some data := by
  induction calls generalizing b with
  | nil => exact hblob
  | cons c calls ih =>
    obtain ⟨-, hc⟩ := run_spec law ha.temps c
    refine ih (ha.step law c) ?_ fun c' hc' => hno c' (.tail _ hc')
    by_cases hne : h = c.hash env
    · subst hne
      cases hd : c.data with
      | some new => rw [hc.imported new hd, hblob, Option.getD_some]
      | none =>
        cases c with
        | delete k => exact absurd rfl (hno _ (.head _))
        | importBytes | importStream => cases hd
    · rw [hc.blob_of_ne hne]
      exact hblob

/-- **A blob store is content addressed** along every run of imports and deletes: each object under
`blob3/` is at the path of its hash and no temporary object stays; an import answers with the hash and
the length of its data; no call changes another blob than its own; and the data of an import can be
read, in slices, until their hash is deleted. -/
theorem content_addressed (env : BlobEncoding) (law : env.Lawful) (b : BlobFiles)
    (ha : Addressed env b) (calls : List BlobCall)
    (hcol : ∀ x y, Held b calls x → Held b calls y → env.blake3 x = env.blake3 y → x = y) :
    Run.Always (BlobCall.step env) (Addressed env) b calls ∧
      (∀ pre c, pre ++ [c] <+: calls →
        (c.run env (pre.foldl (BlobCall.step env) b)).2 =
            .ok (c.data.map fun data => ⟨env.blake3 data, data.length⟩) ∧
          ∀ h, h ≠ c.hash env → ((pre ++ [c]).foldl (BlobCall.step env) b).blob env h =
            (pre.foldl (BlobCall.step env) b).blob env h) ∧
      ∀ pre c mid data, pre ++ c :: mid <+: calls → c.data = some data →
        (∀ c' ∈ mid, c' ≠ .delete (env.blake3 data)) → ∀ offset maxLen,
          ((pre ++ c :: mid).foldl (BlobCall.step env) b).readAsBytes env (env.blake3 data) offset
            maxLen = .ok (Store.slice data offset maxLen) := by
  have hrun := addressed_run law ha calls
  refine ⟨fun pre hp => (hrun pre hp).1, fun pre c hp => ?_, fun pre c mid data hp hd hno => ?_⟩
  · obtain ⟨ha', -⟩ := hrun pre ((List.prefix_append _ _).trans hp)
    obtain ⟨hok, hc⟩ := run_spec law ha'.temps c
    refine ⟨hok, fun h hne => ?_⟩
    rw [List.foldl_append, List.foldl_cons, List.foldl_nil]
    exact hc.blob_of_ne hne
  · intro offset maxLen
    obtain ⟨ha', hheld⟩ := hrun pre ((List.prefix_append _ _).trans hp)
    have hmem : c ∈ calls := hp.subset (List.mem_append_right _ (.head _))
    have hc := (run_spec law ha'.temps c).2
    have himp := blob_of_import ha' hheld hcol hc hd (.inr ⟨c, hmem, hd⟩)
    have hkept := blob_kept law (ha'.step law c) himp hno
    rw [List.foldl_append, List.foldl_cons]
    unfold BlobFiles.blob at hkept
    unfold BlobFiles.readAsBytes Store.openReadBytes
    rw [hkept]

/-! Some short blobs. -/

/-- BLAKE3 of short data, which has no outboard, and base64 for every store. -/
def base64Encoding : BlobEncoding :=
  ⟨shortBlake3, fun data => (shortBlake3 data, none), base64UrlText, base64UrlText⟩

/-- A store with the features of a `MemoryStore` that holds some blobs. -/
def storeOf (blobs : List Bytes) : BlobFiles :=
  ⟨⟨⟨true, true, 0xffffffffffffffff⟩, fun path => blobs.find? fun data =>
    path = blobPath base64Encoding (shortBlake3 data) ⟨true, true, 0xffffffffffffffff⟩⟩, .shared⟩

theorem addressed_storeOf (blobs : List Bytes) : Addressed base64Encoding (storeOf blobs) := by
  have hpath : ∀ path data, (storeOf blobs).store.object path = some data →
      path = blobPath base64Encoding (shortBlake3 data) (storeOf blobs).store.features := by
    intro path data ho
    exact of_decide_eq_true (List.find?_some (p := fun data => decide (path =
      blobPath base64Encoding (shortBlake3 data) (storeOf blobs).store.features)) ho)
  refine ⟨fun path data _ ho => hpath path data ho, fun path hp => ?_⟩
  cases ho : (storeOf blobs).store.object path with
  | none => rfl
  | some data =>
    have hblob := under_blobPath base64Encoding (shortBlake3 data) (storeOf blobs).store.features
    exact absurd (hpath path data ho).symm (ne_of_under hblob hp (by decide) (by decide))

theorem mem_of_object_storeOf {blobs : List Bytes} {path : String} {data : Bytes}
    (h : (storeOf blobs).store.object path = some data) : data ∈ blobs :=
  List.mem_of_find?_eq_some h

/-- No two of the short texts have one hash. -/
theorem shortBlake3_injective : ∀ x ∈ shortHashes.map (·.1), ∀ y ∈ shortHashes.map (·.1),
    shortBlake3 x = shortBlake3 y → x = y := by
  decide +kernel

/-- Into a store that holds a blob come two others, of which one is deleted, and the old one again. -/
def importCalls : List BlobCall :=
  [.importStream "0" [[1], [2]], .importBytes "1" [1, 2, 3], .delete (shortBlake3 [1, 2]),
    .importStream "2" [[4, 5]]]

theorem content_addressed_importCalls :
    Run.Always (BlobCall.step base64Encoding) (Addressed base64Encoding) (storeOf [[4, 5]])
        importCalls ∧
      (importCalls.foldl (BlobCall.step base64Encoding) (storeOf [[4, 5]])).readAsBytes base64Encoding
        (shortBlake3 [1, 2, 3]) 1 (some 1) = .ok [2] := by
  have hheld : ∀ x, Held (storeOf [[4, 5]]) importCalls x → x ∈ shortHashes.map (·.1) := by
    rintro x (⟨path, -, ho⟩ | ⟨c, hc, hd⟩)
    · obtain rfl := List.mem_singleton.1 (mem_of_object_storeOf ho)
      decide
    · have hall : ∀ c ∈ importCalls, ∀ x ∈ c.data, x ∈ shortHashes.map (·.1) := by decide
      exact hall c hc x hd
  have hrun := content_addressed base64Encoding (fun _ => rfl) (storeOf [[4, 5]])
    (addressed_storeOf _) importCalls fun x y hx hy =>
      shortBlake3_injective x (hheld x hx) y (hheld y hy)
  refine ⟨hrun.1, hrun.2.2 [.importStream "0" [[1], [2]]] (.importBytes "1" [1, 2, 3])
    [.delete (shortBlake3 [1, 2]), .importStream "2" [[4, 5]]] [1, 2, 3] List.prefix_rfl rfl ?_ 1
    (some 1)⟩
  rintro c (_ | ⟨_, _ | ⟨_, hc⟩⟩) he
  · exact absurd (BlobCall.delete.inj he) (by decide +kernel)
  · cases he
  · cases hc

end Blobs
