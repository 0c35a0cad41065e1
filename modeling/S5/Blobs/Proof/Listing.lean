import S5.Blobs.Listing
import S5.Blobs.Proof.Import

/-!
# What a blob store lists

`BlobStore` keeps every object under `blob3/` at the path of a hash (`Canonical`, `canonical_run`).
Such a store lists the hashes of its blobs and nothing else (`listHashes_canonical`).
-/

namespace Blobs

/-- Every object under `blob3/` is at the path of a hash. -/
def Canonical (env : BlobEncoding) (b : BlobFiles) : Prop :=
  ∀ path, Under "blob3/" path → b.store.object path ≠ none →
    ∃ h, path = blobPath env h b.store.features

variable {env : BlobEncoding} {b : BlobFiles}

theorem canonical_of_addressed (ha : Addressed env b) : Canonical env b := by
  intro path hp ho
  obtain ⟨bytes, hb⟩ := Option.ne_none_iff_exists'.1 ho
  exact ⟨env.blake3 bytes, ha.hashed path bytes hp hb⟩

/-- **What `BlobStore` writes** is canonical. -/
theorem canonical_run (law : env.Lawful) (ha : Addressed env b) (calls : List BlobCall) :
    Canonical env (calls.foldl (BlobCall.step env) b) := by
  apply canonical_of_addressed
  induction calls generalizing b with
  | nil => exact ha
  | cons c calls ih => exact ih (ha.step law c)

/-- The hashes that are listed are those of the blobs that are there. -/
theorem listHashes_canonical (codec : PathDecoding env) (hc : Canonical env b)
    (l : Listing b.store) :
    ∃ hashes, listHashes codec b.store.features l.paths = .ok hashes ∧
      ∀ h, h ∈ hashes ↔ b.blob env h ≠ none := by
  have hdecode : ∀ path ∈ l.paths, Under "blob3/" path →
      ∃ h, path = blobPath env h b.store.features :=
    fun path hp hu => hc path hu ((l.mem_paths path).1 hp)
  cases hl : listHashes codec b.store.features l.paths with
  | error e =>
    obtain ⟨path, hp, e', he⟩ := (listHashes_error_iff codec).1 ⟨e, hl⟩
    by_cases hu : Under "blob3/" path
    · obtain ⟨h, rfl⟩ := hdecode path hp hu
      rw [hashFromBlobPath_blobPath] at he
      exact nomatch he
    · rw [hashFromBlobPath_of_not_under codec _ hu] at he
      exact nomatch he
  | ok hashes =>
    refine ⟨hashes, rfl, fun h => ?_⟩
    rw [mem_listHashes codec hl]
    constructor
    · rintro ⟨path, hp, hh⟩
      by_cases hu : Under "blob3/" path
      · obtain ⟨k, rfl⟩ := hdecode path hp hu
        rw [hashFromBlobPath_blobPath] at hh
        obtain rfl := Option.some.inj (Except.ok.inj hh)
        exact (l.mem_paths _).1 hp
      · rw [hashFromBlobPath_of_not_under codec _ hu] at hh
        exact nomatch hh
    · intro ho
      exact ⟨blobPath env h b.store.features, (l.mem_paths _).2 ho,
        hashFromBlobPath_blobPath codec h _⟩

def base64Decoding : PathDecoding base64Encoding := ⟨base64UrlDecoding, base64UrlDecoding⟩

end Blobs
