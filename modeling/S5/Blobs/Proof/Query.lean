import S5.Blobs.Proof.Fetch
import S5.Blobs.Proof.Listing
import S5.Blobs.Query

/-!
# Blinded queries and plain ones

A plain query finds the first store with an object at the path of the hash (`holds`), a blinded one
the first that lists the hash (`lists`): all that it lists decodes, and one of its paths spells the
hash, be it the right one or not.

* `lists_iff`: what a store has to contain to list a hash.
* `blinded_query_iff`: the answers agree exactly when the two stores do, by the size of the blob.
-/

open Std

namespace Blobs

variable {env : BlobEncoding}

namespace ListedFiles

variable (codec : PathDecoding env) (s : ListedFiles) (h : Hash)

def lists : Bool := h ∈ s.hashes codec

theorem lists_iff : s.lists codec h = true ↔
    (∀ path e, s.files.store.object path ≠ none →
      hashFromBlobPath codec path s.files.store.features ≠ .error e) ∧
    ∃ path, s.files.store.object path ≠ none ∧
      hashFromBlobPath codec path s.files.store.features = .ok (some h) := by
  unfold lists hashes
  rw [decide_eq_true_eq]
  cases hl : listHashes codec s.files.store.features s.listing.paths with
  | error e =>
    obtain ⟨path, hp, e', he⟩ := (listHashes_error_iff codec).1 ⟨e, hl⟩
    have hthere := (s.listing.mem_paths path).1 hp
    constructor
    · intro hm
      exact absurd hm List.not_mem_nil
    · rintro ⟨hall, -⟩
      exact absurd he (hall path e' hthere)
  | ok hashes =>
    have hno : ∀ path ∈ s.listing.paths, ∀ e,
        hashFromBlobPath codec path s.files.store.features ≠ .error e := by
      intro path hp e he
      obtain ⟨e', hl'⟩ := (listHashes_error_iff codec).2 ⟨path, hp, e, he⟩
      rw [hl] at hl'
      exact nomatch hl'
    dsimp only
    rw [mem_listHashes codec hl]
    simp only [s.listing.mem_paths] at hno ⊢
    constructor
    · intro hex
      exact ⟨fun path e hp => hno path hp e, hex⟩
    · rintro ⟨-, hex⟩
      exact hex

/-- The first of a list, if the list has it and nothing else like it. -/
theorem find?_eq_of_injective {α β : Type} [DecidableEq α] [DecidableEq β] {f : α → β}
    (hinj : Function.Injective f) (x : α) (l : List α) :
    l.find? (fun y => f y = f x) = if x ∈ l then some x else none := by
  induction l with
  | nil => simp
  | cons y l ih =>
    by_cases hyx : y = x
    · simp [hyx]
    · have hf : f y ≠ f x := fun he => hyx (hinj he)
      rw [List.find?_cons_of_neg (by simpa using hf), ih]
      simp [Ne.symm hyx]

theorem find_blinded {hashBytes : Bytes32 → Hash} (hinj : Function.Injective hashBytes) :
    s.findBlobByBlindedHash codec hashBytes (hashBytes h) =
      if s.lists codec h then some h else none := by
  unfold findBlobByBlindedHash lists
  rw [find?_eq_of_injective hinj]
  simp only [decide_eq_true_eq]

variable (env) in
/-- The store has an object at the path of the hash. -/
theorem size_eq_some_iff : (∃ n, s.size env h = some n) ↔ s.contains env h = true := by
  unfold size contains Store.size Store.contains
  cases s.files.store.object (blobPath env h s.files.store.features) <;> simp [Except.toOption]

end ListedFiles

section
variable (codec : PathDecoding env) {hashBytes : Bytes32 → Hash} {h : Hash}

/-- The first store that lists the hash and the first that has an object at its path: both or neither
are there, with objects of one size at the path. -/
def SameFirst (h : Hash) (readable : List ListedFiles) : Prop :=
  (readable.find? (·.lists codec h)).map (·.size env h) =
    (readable.find? (·.contains env h)).map (·.size env h)

theorem findSome?_blinded (hinj : Function.Injective hashBytes) (readable : List ListedFiles) :
    (readable.findSome? fun s =>
      (s.findBlobByBlindedHash codec hashBytes (hashBytes h)).map (s, ·)) =
        (readable.find? (·.lists codec h)).map (·, h) := by
  induction readable with
  | nil => rfl
  | cons s readable ih =>
    rw [List.findSome?_cons, ListedFiles.find_blinded codec s h hinj, List.find?_cons]
    cases hs : s.lists codec h with
    | true => simp
    | false => simpa using ih

/-- What a blinded query answers. -/
theorem queryFiles_blinded (hinj : Function.Injective hashBytes)
    (stores : String → Option ListedFiles) (cfg : PeerConfigBlobs) :
    queryFiles codec hashBytes stores (some cfg) ⟨hashBytes h, true⟩ =
      match (readableFiles stores cfg).find? (·.lists codec h) with
      | none => ⟨false, none, none⟩
      | some s => ⟨true, s.size env h, some h⟩ := by
  unfold queryFiles
  simp only [if_true, findSome?_blinded codec hinj]
  cases (readableFiles stores cfg).find? (·.lists codec h) <;> rfl

/-- The first store that has an object at the path is the first that tells its size. -/
theorem findSome?_size (readable : List ListedFiles) :
    (readable.filter (·.contains env h)).findSome? (·.size env h) =
      (readable.find? (·.contains env h)).bind (·.size env h) := by
  rw [← List.head?_filter]
  cases hf : readable.filter (·.contains env h) with
  | nil => rfl
  | cons s rest =>
    have hs : s.contains env h = true := by
      have hm : s ∈ readable.filter (·.contains env h) := hf ▸ List.mem_cons_self
      exact (List.mem_filter.1 hm).2
    obtain ⟨n, hn⟩ := (ListedFiles.size_eq_some_iff env s h).2 hs
    rw [List.findSome?_cons, hn, List.head?_cons, Option.bind_some, hn]

/-- What a plain query answers. -/
theorem queryFiles_plain (stores : String → Option ListedFiles) (cfg : PeerConfigBlobs) :
    queryFiles codec hashBytes stores (some cfg) ⟨h, false⟩ =
      match (readableFiles stores cfg).find? (·.contains env h) with
      | none => ⟨false, none, none⟩
      | some s => ⟨true, s.size env h, none⟩ := by
  unfold queryFiles
  simp only [Bool.false_eq_true, if_false, findSome?_size]
  rw [← List.head?_filter]
  cases hf : (readableFiles stores cfg).filter (·.contains env h) <;> rfl

end

/-- **Blinded queries agree with plain ones** exactly where the same blob is found. -/
theorem blinded_query_iff (codec : PathDecoding env) (hashBytes : Bytes32 → Hash)
    (hinj : Function.Injective hashBytes) (stores : String → Option ListedFiles)
    (cfg : Option PeerConfigBlobs) (h : Hash) :
    let blinded := queryFiles codec hashBytes stores cfg ⟨hashBytes h, true⟩
    let plain := queryFiles codec hashBytes stores cfg ⟨h, false⟩
    (blinded.exists_ = plain.exists_ ∧ blinded.size = plain.size ∧
        (blinded.exists_ = true → blinded.actualHash = some h)) ↔
      ∀ c ∈ cfg, SameFirst codec h (readableFiles stores c) := by
  intro blinded plain
  cases cfg with
  | none => simp [blinded, plain, queryFiles]
  | some cfg =>
    have hb : blinded = _ := queryFiles_blinded codec hinj stores cfg
    have hp : plain = _ := queryFiles_plain codec stores cfg
    rw [hb, hp]
    unfold SameFirst
    simp only [Option.mem_some_iff, forall_eq']
    cases (readableFiles stores cfg).find? (·.lists codec h) <;>
      cases (readableFiles stores cfg).find? (·.contains env h) <;> simp

/-- Where nothing but blobs is under `blob3/`, a store lists the hash of an object at its path. -/
theorem sameFirst_of_canonical (codec : PathDecoding env) {readable : List ListedFiles} (h : Hash)
    (hc : ∀ s ∈ readable, Canonical env s.files) : SameFirst codec h readable := by
  have hsame : ∀ s ∈ readable, s.lists codec h = s.contains env h := by
    intro s hs
    obtain ⟨hashes, hl, hmem⟩ := listHashes_canonical codec (hc s hs) s.listing
    rw [Bool.eq_iff_iff, ListedFiles.contains, contains_iff]
    unfold ListedFiles.lists ListedFiles.hashes
    rw [hl, decide_eq_true_eq]
    exact hmem h
  have hfind : readable.find? (·.lists codec h) = readable.find? (·.contains env h) := by
    clear hc
    induction readable with
    | nil => rfl
    | cons s readable ih =>
      rw [List.find?_cons, List.find?_cons, hsame s List.mem_cons_self,
        ih fun t ht => hsame t (List.mem_cons_of_mem _ ht)]
  unfold SameFirst
  rw [hfind]

/-! A store that has the empty blob, and one that has it where nobody looks. -/

/-- BLAKE3 where it is asked for the bytes of `emptyHash`. -/
def blinding (x : Bytes32) : Hash :=
  x ^^^ 0x2d94c76151794fe7d7167b6838d9607d519751bb8e0b7687aac27d9366f9f045#256

theorem blinding_injective : Function.Injective blinding := by
  intro x y h
  exact (BitVec.xor_left_inj _).1 h

/-- A store of objects. -/
def filesOf (objects : List (String × Bytes)) : ListedFiles where
  files := ⟨⟨⟨true, true, 0xffffffffffffffff⟩, (objects.lookup ·)⟩, .shared⟩
  listing := ⟨objects.map (·.1), fun path => by
    induction objects with
    | nil => simp
    | cons o objects ih =>
      rw [List.map_cons, List.mem_cons, ih]
      by_cases hp : path = o.1
      · simp [hp]
      · simp [hp]⟩

def onlyStore (s : ListedFiles) (name : String) : Option ListedFiles :=
  if name = "default" then some s else none

def readsDefault : PeerConfigBlobs := ⟨["default"], none⟩

/-- The path of the empty blob. -/
def emptyPath : String := blobPath base64Encoding emptyHash ⟨true, true, 0xffffffffffffffff⟩

theorem blinded_query_empty :
    let answer := queryFiles base64Decoding blinding (onlyStore (filesOf [(emptyPath, [])]))
      (some readsDefault) ⟨blinding emptyHash, true⟩
    answer.exists_ = true ∧ answer.actualHash = some emptyHash := by
  obtain ⟨hexists, -, hactual⟩ := (blinded_query_iff base64Decoding blinding blinding_injective
    (onlyStore (filesOf [(emptyPath, [])])) (some readsDefault) emptyHash).2 (by
      intro c hc
      obtain rfl := Option.some.inj hc
      unfold SameFirst
      decide +kernel)
  have hplain : (queryFiles base64Decoding blinding (onlyStore (filesOf [(emptyPath, [])]))
      (some readsDefault) ⟨emptyHash, false⟩).exists_ = true := by decide +kernel
  have hthere := hexists.trans hplain
  exact ⟨hthere, hactual hthere⟩

/-- An object that is no blob hides the blob from blinded queries; a blob at a path with one slash too
many is there for them alone. -/
theorem blinded_query_differs :
    let hidden := onlyStore (filesOf [(emptyPath, []), ("blob3/!!!", [])])
    let stray := onlyStore (filesOf [("blob3//rxNJufX5oaagQE3qNtzJSZvLJcmtwRK3zJqTyuQfMmI", [])])
    queryFiles base64Decoding blinding hidden (some readsDefault) ⟨emptyHash, false⟩ =
        ⟨true, some 0, none⟩ ∧
      queryFiles base64Decoding blinding hidden (some readsDefault) ⟨blinding emptyHash, true⟩ =
        ⟨false, none, none⟩ ∧
      queryFiles base64Decoding blinding stray (some readsDefault) ⟨emptyHash, false⟩ =
        ⟨false, none, none⟩ ∧
      queryFiles base64Decoding blinding stray (some readsDefault) ⟨blinding emptyHash, true⟩ =
        ⟨true, none, some emptyHash⟩ := by
  decide +kernel

end Blobs
