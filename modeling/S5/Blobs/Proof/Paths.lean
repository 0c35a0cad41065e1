import S5.Blobs.Listing
import S5.Blobs.Proof.Remote
import S5.Lib.BitText

/-!
# Paths and hashes

* `path_codec_exact`: the path of a blob tells its hash, to both readers of paths and on a file system
  that ignores case, and is not the path of an outboard.
-/

namespace Blobs

/-- A text encoding whose letters are told apart without their case. -/
structure SingleCase (text : TextEncoding) where
  alphabet : List Char
  mem_alphabet : ∀ bytes, ∀ c ∈ (text.encode bytes).toList, c ∈ alphabet
  single : ∀ c ∈ alphabet, ∀ d ∈ alphabet, c.toLower = d.toLower → c = d

/-- What a file system that ignores case sees of a path. -/
def foldCase (path : String) : List Char := path.toList.map Char.toLower

theorem eq_of_map_eq {f : Char → Char} {l l' : List Char}
    (hf : ∀ c ∈ l, ∀ d ∈ l', f c = f d → c = d) (h : l.map f = l'.map f) : l = l' := by
  induction l generalizing l' with
  | nil => exact (List.map_eq_nil_iff.1 h.symm).symm
  | cons c l ih =>
    cases l' with
    | nil => cases h
    | cons d l' =>
      obtain ⟨hc, htail⟩ := List.cons.inj h
      rw [hf c (.head _) d (.head _) hc,
        ih (fun c hc d hd => hf c (.tail _ hc) d (.tail _ hd)) htail]

theorem toLower_eq_slash {c : Char} (h : c.toLower = '/') : c = '/' := by
  unfold Char.toLower at h
  split at h
  · rename_i hupper
    have hval : (c.val + ('a'.val - 'A'.val)).toNat = '/'.val.toNat :=
      congrArg (fun c : Char => c.val.toNat) h
    have hge : 65 ≤ c.val.toNat := UInt32.le_iff_toNat_le.1 hupper.1
    have hle : c.val.toNat ≤ 90 := UInt32.le_iff_toNat_le.1 hupper.2
    rw [UInt32.toNat_add, show ('a'.val - 'A'.val).toNat = 32 from rfl,
      show '/'.val.toNat = 47 from rfl] at hval
    omega
  · exact h

section
variable {env : BlobEncoding} (codec : PathDecoding env)

include codec in
/-- A path is spelled with slashes and letters of its text. -/
theorem mem_pathForHash {h : Hash} {features : StoreFeatures} {c : Char}
    (hc : c ∈ (pathForHash env h features).toList) : c = '/' ∨ c ∈ hashText env h features := by
  by_cases hs : c = '/'
  · exact .inl hs
  · right
    rw [← filter_pathForHash codec, List.mem_filter]
    exact ⟨hc, by simpa using hs⟩

include codec in
theorem eq_of_foldCase (one : SingleCase env.base32) {h k : Hash} {features : StoreFeatures}
    (hcase : features.caseSensitive = false)
    (hfold : foldCase (blobPath env h features) = foldCase (blobPath env k features)) : h = k := by
  have htext : ∀ {h : Hash} {c : Char}, c ∈ (pathForHash env h features).toList →
      c = '/' ∨ c ∈ one.alphabet := by
    intro h c hc
    refine (mem_pathForHash codec hc).imp id fun hc => one.mem_alphabet (Bytes32.toBytes h) c ?_
    simpa [hashText, hcase] using hc
  unfold foldCase blobPath at hfold
  rw [String.toList_append, String.toList_append, List.map_append, List.map_append,
    List.append_cancel_left_eq] at hfold
  refine pathForHash_injective env features (String.toList_injective (eq_of_map_eq ?_ hfold))
  intro c hc d hd he
  rcases htext hc with rfl | hc
  · exact (toLower_eq_slash he.symm).symm
  · rcases htext hd with rfl | hd
    · exact toLower_eq_slash he
    · exact one.single c hc d hd he

end

/-- **Paths and hashes tell each other.** -/
theorem path_codec_exact (remote : RemoteEnv) (codec : PathDecoding remote.enc)
    (one : SingleCase remote.enc.base32) :
    (∀ features h, hashFromBlobPath codec (blobPath remote.enc h features) features = .ok (some h)) ∧
    (∀ features h k, blobPath remote.enc h features = blobPath remote.enc k features → h = k) ∧
    (∀ features h k, features.caseSensitive = false →
      foldCase (blobPath remote.enc h features) = foldCase (blobPath remote.enc k features) → h = k) ∧
    (∀ features features' h k, blobPath remote.enc h features ≠ obao6Path remote.enc k features') ∧
    ∀ h, hashFromPath remote.base64 (blobPath remote.enc h remote.ops.features) = .ok h :=
  ⟨fun features h => hashFromBlobPath_blobPath codec h features,
    fun features _ _ he => blobPath_injective remote.enc features he,
    fun _ _ _ hcase hfold => eq_of_foldCase codec one hcase hfold,
    fun features features' h k => ne_of_under (under_blobPath remote.enc h features)
      (under_obao6Path remote.enc k features') (by decide) (by decide),
    fun h => RemoteEnv.hashFromPath_blobPath remote h⟩

/-! ## Base32 -/

open Alphabet (rfc4648Lower)

theorem encode_rfc4648Lower_injective : Function.Injective (BitText.encode rfc4648Lower) := by
  intro bytes bytes' h
  have hdecode := congrArg (BitText.decode rfc4648Lower) h
  rw [BitText.decode_encode (by omega) (by omega), BitText.decode_encode (by omega) (by omega)]
    at hdecode
  exact Option.some.inj hdecode

def base32Text : TextEncoding where
  encode := BitText.encode rfc4648Lower
  injective := encode_rfc4648Lower_injective
  long bytes h := by
    rw [BitText.length_encode, h]
    decide

def base32Decoding : TextDecoding base32Text where
  decode := BitText.decode rfc4648Lower
  decode_encode bytes _ := BitText.decode_encode (by omega) (by omega) bytes
  no_slash bytes hc := absurd (BitText.mem_encode (by omega) bytes _ hc) (by decide)

theorem toLower_rfc4648Lower : ∀ c ∈ rfc4648Lower.letters, c.toLower = c := by
  have hall : (rfc4648Lower.letters.all fun c => c.toLower = c) = true := by decide
  simpa only [List.all_eq_true, decide_eq_true_eq] using hall

def base32SingleCase : SingleCase base32Text where
  alphabet := rfc4648Lower.letters
  mem_alphabet := BitText.mem_encode (by omega)
  single c hc d hd h := (toLower_rfc4648Lower c hc).symm.trans (h.trans (toLower_rfc4648Lower d hd))

/-- A remote store, and base32 for the stores that need it. -/
def base32Remote : RemoteEnv :=
  { shortRemote with enc := { base64Encoding with base32 := base32Text } }

theorem path_codec_exact_folded :
    foldCase (blobPath base32Remote.enc 1 ⟨true, false, 100⟩) ≠
      foldCase (blobPath base32Remote.enc 2 ⟨true, false, 100⟩) := fun h =>
  absurd ((path_codec_exact base32Remote ⟨base64UrlDecoding, base32Decoding⟩ base32SingleCase).2.2.1
    ⟨true, false, 100⟩ 1 2 rfl h) (by decide)

end Blobs
