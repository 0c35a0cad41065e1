import S5.Blobs.Import

/-!
# Listing the blobs of a store

`hash_from_blob_path` (`s5_core/src/blob/paths.rs`) and `BlobStore::list_hashes`
(`s5_core/src/blob/store.rs`): the hashes of the blobs, read back from the paths of a store.

Text that is no base64 under `blob3/` is an error; text that is no base32 is skipped.
-/

namespace Blobs

/-- How the text of a hash is read back. Other text may decode too. -/
structure TextDecoding (text : TextEncoding) where
  decode : String → Option Bytes
  decode_encode : ∀ bytes : Bytes, bytes.length = 32 → decode (text.encode bytes) = some bytes
  no_slash : ∀ bytes : Bytes, '/' ∉ (text.encode bytes).toList

/-- The decoders of the paths; `base32` is `is_valid` with `decode`. -/
structure PathDecoding (env : BlobEncoding) where
  base64 : TextDecoding env.base64
  base32 : TextDecoding env.base32

/-- The kind of an `io::Error`. -/
inductive IoErrorKind where
  | invalidData
  deriving DecidableEq

variable {env : BlobEncoding} (codec : PathDecoding env)

/-- Bytes that are a hash. -/
def hashOfBytes (bytes : Bytes) : Option Hash :=
  if bytes.length = 32 then some (Bytes32.ofBytes bytes) else none

def hashFromBlobPath (path : String) (features : StoreFeatures) :
    Except IoErrorKind (Option Hash) :=
  if "blob3/".toList.isPrefixOf path.toList then
    let encoded := (path.toList.drop "blob3/".toList.length).filter (· ≠ '/')
    if encoded.isEmpty then .ok none
    else if features.caseSensitive then
      match codec.base64.decode (String.ofList encoded) with
      | none => .error .invalidData
      | some bytes => .ok (hashOfBytes bytes)
    else .ok ((codec.base32.decode (String.ofList encoded)).bind hashOfBytes)
  else .ok none

/-- What `list` yields of a store. -/
structure Listing (s : Store) where
  paths : List String
  mem_paths : ∀ path, path ∈ paths ↔ s.object path ≠ none

/-- `list_hashes`, of the paths that the store lists. -/
def listHashes (features : StoreFeatures) : List String → Except IoErrorKind (List Hash)
  | [] => .ok []
  | path :: paths =>
    match hashFromBlobPath codec path features with
    | .error e => .error e
    | .ok hash =>
      match listHashes features paths with
      | .error e => .error e
      | .ok hashes => .ok (hash.toList ++ hashes)

/-! ## The path of a hash -/

/-- The text of a hash in a path. -/
def hashText (env : BlobEncoding) (h : Hash) (features : StoreFeatures) : List Char :=
  ((if features.caseSensitive then env.base64 else env.base32).encode (Bytes32.toBytes h)).toList

include codec in
theorem slash_not_mem_hashText (h : Hash) (features : StoreFeatures) :
    '/' ∉ hashText env h features := by
  unfold hashText
  split
  · exact codec.base64.no_slash _
  · exact codec.base32.no_slash _

theorem filter_eq_self_of_not_mem {text : List Char} (h : '/' ∉ text) :
    text.filter (· ≠ '/') = text := by
  rw [List.filter_eq_self]
  intro c hc
  have hne : c ≠ '/' := fun he => h (he ▸ hc)
  simpa using hne

/-- The cuts of a text without slashes are without slashes, and spell it together. -/
theorem filter_cut {text rest : List Char} {n : Nat} (h : '/' ∉ text)
    (hrest : rest.filter (· ≠ '/') = text.drop n) :
    (text.take n ++ '/' :: rest).filter (· ≠ '/') = text := by
  have htake : '/' ∉ text.take n := fun hc => h (List.mem_of_mem_take hc)
  rw [List.filter_append, filter_eq_self_of_not_mem htake, List.filter_cons_of_neg (by simp), hrest,
    List.take_append_drop]

/-- The path of a hash, cut from its text. -/
theorem pathForHash_eq (h : Hash) (features : StoreFeatures) :
    (pathForHash env h features).toList =
      let text := hashText env h features
      if features.recommendedMaxDirSize < 10000 then
        if features.caseSensitive then
          text.take 2 ++ '/' :: ((text.drop 2).take 2 ++ '/' :: text.drop 4)
        else
          text.take 2 ++ '/' :: ((text.drop 2).take 2 ++ '/' :: ((text.drop 4).take 2 ++
            '/' :: text.drop 6))
      else text := by
  unfold pathForHash hashText
  dsimp only
  by_cases hdir : features.recommendedMaxDirSize < 10000
  · by_cases hcase : features.caseSensitive = true
    · simp [hdir, hcase]
    · simp [hdir, hcase]
  · simp [hdir]

include codec in
/-- The characters of the path of a hash that are not slashes spell its text. -/
theorem filter_pathForHash (h : Hash) (features : StoreFeatures) :
    (pathForHash env h features).toList.filter (· ≠ '/') = hashText env h features := by
  have hno := slash_not_mem_hashText codec h features
  rw [pathForHash_eq]
  generalize hashText env h features = text at hno
  have hdrop : ∀ n, '/' ∉ text.drop n := fun n hc => hno (List.mem_of_mem_drop hc)
  have hrest : ∀ n, (text.drop n).filter (· ≠ '/') = text.drop n :=
    fun n => filter_eq_self_of_not_mem (hdrop n)
  dsimp only
  split
  · split
    · refine filter_cut hno (filter_cut (hdrop 2) ?_)
      rw [hrest, List.drop_drop]
    · refine filter_cut hno (filter_cut (hdrop 2) ?_)
      rw [List.drop_drop]
      refine filter_cut (hdrop 4) ?_
      rw [hrest, List.drop_drop]
  · exact filter_eq_self_of_not_mem hno

@[simp] theorem hashOfBytes_toBytes (h : Hash) : hashOfBytes (Bytes32.toBytes h) = some h := by
  simp [hashOfBytes]

/-- **The path of a hash is read back as the hash.** -/
theorem hashFromBlobPath_blobPath (h : Hash) (features : StoreFeatures) :
    hashFromBlobPath codec (blobPath env h features) features = .ok (some h) := by
  have hlong := (if features.caseSensitive then env.base64 else env.base32).long _
    (Bytes32.length_toBytes h)
  have hpath : (blobPath env h features).toList =
      "blob3/".toList ++ (pathForHash env h features).toList := by
    rw [blobPath, String.toList_append]
  have hfilter := filter_pathForHash codec h features
  unfold hashFromBlobPath
  rw [hpath, if_pos (by simp), List.drop_left]
  simp only [hfilter]
  rw [if_neg (by
    intro he
    rw [List.isEmpty_iff] at he
    unfold hashText at he
    rw [he] at hlong
    simp at hlong)]
  unfold hashText
  rw [String.ofList_toList]
  split
  · rw [codec.base64.decode_encode _ (Bytes32.length_toBytes h)]
    simp
  · rw [codec.base32.decode_encode _ (Bytes32.length_toBytes h)]
    simp

/-! ## The list -/

theorem listHashes_error_iff {features : StoreFeatures} {paths : List String} :
    (∃ e, listHashes codec features paths = .error e) ↔
      ∃ path ∈ paths, ∃ e, hashFromBlobPath codec path features = .error e := by
  induction paths with
  | nil => simp [listHashes]
  | cons path paths ih =>
    simp only [List.exists_mem_cons_iff, ← ih, listHashes]
    cases hashFromBlobPath codec path features with
    | error e => exact ⟨fun _ => Or.inl ⟨e, rfl⟩, fun _ => ⟨e, rfl⟩⟩
    | ok hash =>
      cases listHashes codec features paths with
      | error e => exact ⟨fun _ => Or.inr ⟨e, rfl⟩, fun _ => ⟨e, rfl⟩⟩
      | ok hashes => simp

theorem mem_listHashes {features : StoreFeatures} {paths : List String} {hashes : List Hash}
    (hl : listHashes codec features paths = .ok hashes) (h : Hash) :
    h ∈ hashes ↔ ∃ path ∈ paths, hashFromBlobPath codec path features = .ok (some h) := by
  induction paths generalizing hashes with
  | nil =>
    obtain rfl := Except.ok.inj hl
    simp
  | cons path paths ih =>
    rw [listHashes] at hl
    cases hp : hashFromBlobPath codec path features with
    | error e => simp [hp] at hl
    | ok hash =>
      cases hrest : listHashes codec features paths with
      | error e => simp [hp, hrest] at hl
      | ok rest =>
        simp only [hp, hrest, Except.ok.injEq] at hl
        subst hl
        rw [List.mem_append, ih hrest]
        simp [hp]

theorem hashFromBlobPath_of_not_under {path : String} (features : StoreFeatures)
    (hp : ¬ "blob3/".toList <+: path.toList) : hashFromBlobPath codec path features = .ok none := by
  unfold hashFromBlobPath
  rw [if_neg (by rwa [List.isPrefixOf_iff_prefix])]

/-! ## Base64 -/

def base64UrlDecoding : TextDecoding base64UrlText where
  decode := Base64Url.decode
  decode_encode bytes _ := Base64Url.decode_encode bytes
  no_slash := Base64Url.slash_not_mem_encode

end Blobs
