import S5.Blobs.Proof.Query
import S5.Fs.Gc

/-!
# The collection is exact

`gc_store` finds the hashes to delete by decoding the paths of the store, and deletes by encoding them
again. Where every object under `blob3/` is at the path of a hash (`Canonical`), the two agree.

* `foldl_gcBlob`: what the loop reports and deletes, in closed form.
* `gc_store_exact`: the blobs that are pinned or in use stay, the others go, and nothing outside
  `blob3/` and `obao6/` is touched.
-/

open Blobs

namespace Gc

variable {env : BlobEncoding} {b b' : BlobFiles}

/-! ## Deletes -/

/-- The outboard stores hold the same outside `obao6/`. -/
def SameOutside : OutboardStore → OutboardStore → Prop
  | .none, .none => True
  | .shared, .shared => True
  | .separate o, .separate o' =>
    o'.features = o.features ∧ ∀ path, ¬ Under "obao6/" path → o'.object path = o.object path
  | _, _ => False

theorem SameOutside.refl : ∀ o : OutboardStore, SameOutside o o
  | .none => trivial
  | .shared => trivial
  | .separate _ => ⟨rfl, fun _ _ => rfl⟩

theorem SameOutside.trans : ∀ {o p q : OutboardStore}, SameOutside o p → SameOutside p q →
    SameOutside o q
  | .none, .none, .none, _, _ => trivial
  | .shared, .shared, .shared, _, _ => trivial
  | .separate _, .separate _, .separate _, h, h' =>
    ⟨h'.1.trans h.1, fun path hp => (h'.2 path hp).trans (h.2 path hp)⟩

/-- The blobs of the victims have been deleted, and nothing else but outboard data. -/
structure Deleted (env : BlobEncoding) (victim : Hash → Prop) (b b' : BlobFiles) : Prop where
  features : b'.store.features = b.store.features
  gone : ∀ h, victim h → b'.blob env h = none
  kept : ∀ path, Under "blob3/" path →
    (∀ h, victim h → path ≠ blobPath env h b.store.features) →
      b'.store.object path = b.store.object path
  others : ∀ path, ¬ Under "blob3/" path → ¬ Under "obao6/" path →
    b'.store.object path = b.store.object path
  outboard : SameOutside b.outboard b'.outboard

theorem Deleted.refl (b : BlobFiles) : Deleted env (· ∈ []) b b :=
  ⟨rfl, fun _ h => absurd h List.not_mem_nil, fun _ _ _ => rfl, fun _ _ _ => rfl, .refl _⟩

theorem object_delete_of_ne (h : Hash) {path : String}
    (hb : path ≠ blobPath env h b.store.features) (ho : ¬ Under "obao6/" path) :
    (b.delete env h).store.object path = b.store.object path := by
  have hne : path ≠ obao6Path env h b.store.features := by
    rintro rfl
    exact ho (under_obao6Path env h _)
  unfold BlobFiles.delete
  dsimp only
  split
  · simp [hb]
  · simp [hb, hne]
  · simp [hb]

theorem blob_delete (h : Hash) : (b.delete env h).blob env h = none := by
  unfold BlobFiles.blob BlobFiles.delete
  dsimp only
  split <;> simp

theorem not_under_obao6 {path : String} (hp : Under "blob3/" path) : ¬ Under "obao6/" path :=
  fun ho => ne_of_under hp ho (by decide) (by decide) rfl

theorem deleted_delete (b : BlobFiles) (h : Hash) : Deleted env (· = h) b (b.delete env h) := by
  refine ⟨?_, ?_, fun path hp hne => ?_, fun path hb ho => ?_, ?_⟩
  · unfold BlobFiles.delete
    dsimp only
    split <;> rfl
  · rintro k rfl
    exact blob_delete k
  · exact object_delete_of_ne h (hne h rfl) (not_under_obao6 hp)
  · refine object_delete_of_ne h ?_ ho
    rintro rfl
    exact hb (under_blobPath env h _)
  · unfold BlobFiles.delete
    dsimp only
    split
    · rename_i he
      rw [he]
      trivial
    · rename_i he
      rw [he]
      trivial
    · rename_i o he
      rw [he]
      refine ⟨rfl, fun path hp => ?_⟩
      have hne : path ≠ obao6Path env h o.features := by
        rintro rfl
        exact hp (under_obao6Path env h _)
      simp [hne]

theorem Deleted.cons {c : BlobFiles} {h : Hash} {hs : List Hash} (hd : Deleted env (· = h) b b')
    (hds : Deleted env (· ∈ hs) b' c) : Deleted env (· ∈ h :: hs) b c := by
  refine ⟨hds.features.trans hd.features, fun k hk => ?_, fun path hp hne => ?_,
    fun path hb ho => (hds.others path hb ho).trans (hd.others path hb ho),
    hd.outboard.trans hds.outboard⟩
  · by_cases hmem : k ∈ hs
    · exact hds.gone k hmem
    · -- what the later deletes leave is what the first has left
      have hk : k = h := by simpa [hmem] using hk
      have hnone := hd.gone k hk
      unfold BlobFiles.blob at hnone ⊢
      rw [hds.features, hds.kept _ (under_blobPath env k _) ?_, hnone]
      intro j hj he
      exact hmem (blobPath_injective env _ he ▸ hj)
  · rw [hds.kept path hp, hd.kept path hp]
    · intro k hk
      exact hne k (hk ▸ List.mem_cons_self)
    · intro k hk
      rw [hd.features]
      exact hne k (List.mem_cons_of_mem _ hk)

theorem deleted_foldl (b : BlobFiles) (hs : List Hash) :
    Deleted env (· ∈ hs) b (hs.foldl (BlobFiles.delete env) b) := by
  induction hs generalizing b with
  | nil => exact .refl b
  | cons h hs ih => exact (deleted_delete b h).cons (ih _)

/-! ## The loop -/

section
variable (env) (reachable : Finset Hash) (pins : Pins) (dryRun : Bool)

/-- A blob that is pinned or in use. -/
def Kept (h : Hash) : Prop := pins.pinners h ≠ ∅ ∨ h ∈ reachable

instance (h : Hash) : Decidable (Kept reachable pins h) := inferInstanceAs (Decidable (_ ∨ _))

/-- The hashes of a list that are not kept. -/
def victims (hs : List Hash) : List Hash := hs.filter fun h => ¬ Kept reachable pins h

/-- Every blob counted is kept or a candidate. -/
def GcReport.Balanced (r : GcReport) : Prop :=
  r.total = r.keptByPins + r.keptByReachability + r.candidates.length

variable {reachable} {pins} in
theorem gcBlob_of_kept {h : Hash} (hk : Kept reachable pins h) (b : BlobFiles) {r : GcReport}
    (hr : r.Balanced) :
    ∃ r', gcBlob env reachable pins dryRun (b, r) h = (b, r') ∧
      r'.candidates = r.candidates ∧ r'.Balanced := by
  unfold GcReport.Balanced at hr ⊢
  unfold gcBlob
  by_cases hp : pins.pinners h = ∅
  · have hreach : h ∈ reachable := hk.resolve_left fun hn => hn hp
    simp only [hp, ne_eq, not_true, if_false, hreach, if_true]
    refine ⟨_, rfl, rfl, ?_⟩
    dsimp only
    omega
  · simp only [hp, ne_eq, not_false_iff, if_true]
    refine ⟨_, rfl, rfl, ?_⟩
    dsimp only
    omega

variable {reachable} {pins} in
theorem gcBlob_of_victim {h : Hash} (hk : ¬ Kept reachable pins h) (b : BlobFiles) {r : GcReport}
    (hr : r.Balanced) :
    ∃ r', gcBlob env reachable pins dryRun (b, r) h = (if dryRun then b else b.delete env h, r') ∧
      r'.candidates = r.candidates ++ [h] ∧ r'.Balanced := by
  have hp : pins.pinners h = ∅ := by
    by_contra hn
    exact hk (Or.inl hn)
  have hreach : h ∉ reachable := fun hn => hk (Or.inr hn)
  unfold GcReport.Balanced at hr ⊢
  unfold gcBlob
  simp only [hp, ne_eq, not_true, if_false, hreach]
  cases dryRun with
  | true =>
    refine ⟨_, rfl, rfl, ?_⟩
    simp only [List.length_append, List.length_singleton]
    omega
  | false =>
    refine ⟨_, rfl, rfl, ?_⟩
    simp only [List.length_append, List.length_singleton]
    omega

/-- **The loop** reports every blob once, and deletes the victims. -/
theorem foldl_gcBlob (hs : List Hash) (b : BlobFiles) {r : GcReport} (hr : r.Balanced) :
    let s := hs.foldl (gcBlob env reachable pins dryRun) (b, r)
    s.1 = (if dryRun then b else (victims reachable pins hs).foldl (BlobFiles.delete env) b) ∧
      s.2.candidates = r.candidates ++ victims reachable pins hs ∧ s.2.Balanced := by
  induction hs generalizing b r with
  | nil => simp [victims, hr]
  | cons h hs ih =>
    simp only [List.foldl_cons]
    by_cases hk : Kept reachable pins h
    · obtain ⟨r', heq, hcands, hbal⟩ := gcBlob_of_kept env dryRun hk b hr
      have hv : victims reachable pins (h :: hs) = victims reachable pins hs := by
        simp [victims, hk]
      rw [heq, hv, ← hcands]
      exact ih b hbal
    · obtain ⟨r', heq, hcands, hbal⟩ := gcBlob_of_victim env dryRun hk b hr
      have hv : victims reachable pins (h :: hs) = h :: victims reachable pins hs := by
        simp [victims, hk]
      obtain ⟨h1, h2, h3⟩ := ih (if dryRun then b else b.delete env h) hbal
      rw [heq, hv]
      refine ⟨h1.trans ?_, h2.trans ?_, h3⟩
      · cases dryRun <;> rfl
      · rw [hcands, List.append_assoc, List.singleton_append]

end

/-! ## The collection -/

variable {reachable : Finset Hash} {pins : Pins}

variable (reachable pins) in
/-- **A collection**, in closed form. -/
theorem gcStore_spec (codec : PathDecoding env) (hc : Canonical env b) (l : Listing b.store) :
    ∃ hashes, (∀ h, h ∈ hashes ↔ b.blob env h ≠ none) ∧ ∀ dryRun, ∃ r,
      gcStore reachable pins dryRun codec b l.paths =
        .ok (if dryRun then b else (victims reachable pins hashes).foldl (BlobFiles.delete env) b, r) ∧
      r.candidates = victims reachable pins hashes ∧ r.Balanced := by
  obtain ⟨hashes, hl, hmem⟩ := listHashes_canonical codec hc l
  refine ⟨hashes, hmem, fun dryRun => ?_⟩
  obtain ⟨h1, h2, h3⟩ := foldl_gcBlob env reachable pins dryRun hashes b (r := .default) rfl
  refine ⟨_, ?_, h2, h3⟩
  unfold gcStore
  rw [hl, ← h1]

/-- What a collection leaves. -/
structure Collected (env : BlobEncoding) (keep : Hash → Prop) (b b' : BlobFiles) : Prop where
  features : b'.store.features = b.store.features
  canonical : Canonical env b'
  kept : ∀ h, keep h → b'.blob env h = b.blob env h
  gone : ∀ h, ¬ keep h → b'.blob env h = none
  others : ∀ path, ¬ Under "blob3/" path → ¬ Under "obao6/" path →
    b'.store.object path = b.store.object path
  outboard : SameOutside b.outboard b'.outboard

theorem collected_of_deleted {hashes : List Hash} (hc : Canonical env b)
    (hmem : ∀ h, h ∈ hashes ↔ b.blob env h ≠ none)
    (hd : Deleted env (· ∈ victims reachable pins hashes) b b') :
    Collected env (Kept reachable pins) b b' := by
  have hvictim : ∀ h, h ∈ victims reachable pins hashes ↔
      b.blob env h ≠ none ∧ ¬ Kept reachable pins h := by
    intro h
    simp [victims, hmem]
  have hsame : ∀ h, h ∉ victims reachable pins hashes → b'.blob env h = b.blob env h := by
    intro h hn
    unfold BlobFiles.blob
    rw [hd.features]
    refine hd.kept _ (under_blobPath env h _) fun k hk he => ?_
    exact hn (blobPath_injective env _ he ▸ hk)
  refine ⟨hd.features, fun path hp ho => ?_, fun h hk => ?_, fun h hk => ?_, hd.others, hd.outboard⟩
  · rw [hd.features]
    by_cases hv : ∃ h ∈ victims reachable pins hashes, path = blobPath env h b.store.features
    · obtain ⟨h, -, he⟩ := hv
      exact ⟨h, he⟩
    · have hold := hd.kept path hp fun h hh he => hv ⟨h, hh, he⟩
      exact hc path hp (hold ▸ ho)
  · exact hsame h fun hv => ((hvictim h).1 hv).2 hk
  · by_cases hb : b.blob env h = none
    · rw [hsame h fun hv => ((hvictim h).1 hv).1 hb, hb]
    · exact hd.gone h ((hvictim h).2 ⟨hb, hk⟩)

/-- **The collection is exact**: the garbage goes, everything else stays, and a second run finds
nothing. -/
theorem gc_store_exact (codec : PathDecoding env) (b : BlobFiles) (hc : Canonical env b)
    (reachable : Finset Hash) (pins : Pins) (l : Listing b.store) :
    ∃ (b' : BlobFiles) (r dry : GcReport),
      gcStore reachable pins false codec b l.paths = .ok (b', r) ∧
      gcStore reachable pins true codec b l.paths = .ok (b, dry) ∧
      (∀ h, h ∈ r.candidates ↔ b.blob env h ≠ none ∧ ¬ Kept reachable pins h) ∧
      dry.candidates = r.candidates ∧ r.Balanced ∧ dry.Balanced ∧
      Collected env (Kept reachable pins) b b' ∧
      ∀ (l' : Listing b'.store) (dryRun : Bool), ∃ r',
        gcStore reachable pins dryRun codec b' l'.paths = .ok (b', r') ∧ r'.candidates = [] := by
  obtain ⟨hashes, hmem, hspec⟩ := gcStore_spec reachable pins codec hc l
  obtain ⟨r, hr, hcands, hbal⟩ := hspec false
  obtain ⟨dry, hdry, hcands', hbal'⟩ := hspec true
  have hcol := collected_of_deleted hc hmem (deleted_foldl b (victims reachable pins hashes))
  refine ⟨_, r, dry, hr, hdry, fun h => ?_, hcands'.trans hcands.symm, hbal, hbal', hcol, ?_⟩
  · rw [hcands]
    simp [victims, hmem]
  · intro l' dryRun
    obtain ⟨left, hleft, hspec'⟩ :=
      gcStore_spec reachable pins codec hcol.canonical l'
    obtain ⟨r', hr', hcands', -⟩ := hspec' dryRun
    have hnone : victims reachable pins left = [] := by
      rw [victims, List.filter_eq_nil_iff]
      intro h hh
      have hk : Kept reachable pins h := by
        by_contra hk
        exact (hleft h).1 hh (hcol.gone h hk)
      simpa using hk
    rw [hnone] at hr' hcands'
    refine ⟨r', hr'.trans ?_, hcands'⟩
    cases dryRun <;> rfl

/-! Stores of a few objects. -/

def gcPath (h : Hash) : String := blobPath base64Encoding h ⟨true, true, 0xffffffffffffffff⟩

theorem canonical_filesOf {objects : List (String × Bytes)}
    (h : ∀ o ∈ objects, Under "blob3/" o.1 → ∃ h, o.1 = gcPath h) :
    Canonical base64Encoding (filesOf objects).files := by
  intro path hp ho
  obtain ⟨o, hmem, rfl⟩ := List.mem_map.1 (((filesOf objects).listing.mem_paths path).2 ho)
  exact h o hmem hp

/-- A store of three blobs and an object that is none. -/
def threeBlobs : ListedFiles :=
  filesOf [(gcPath (shortBlake3 [1, 2]), [1, 2]), (gcPath (shortBlake3 [1, 2, 3]), [1, 2, 3]),
    (gcPath (shortBlake3 [4, 5]), [4, 5]), ("fs/root", [7])]

theorem canonical_threeBlobs : Canonical base64Encoding threeBlobs.files := by
  refine canonical_filesOf fun o ho hunder => ?_
  simp only [List.mem_cons, List.not_mem_nil, or_false] at ho
  rcases ho with rfl | rfl | rfl | rfl
  · exact ⟨_, rfl⟩
  · exact ⟨_, rfl⟩
  · exact ⟨_, rfl⟩
  · exact absurd hunder (by unfold Under; decide)

/-- One of the three blobs is reachable, one is pinned, and the third goes. -/
theorem gc_store_exact_threeBlobs :
    ∃ b' r, gcStore {shortBlake3 [1, 2]} (Pins.empty.pinHash (shortBlake3 [1, 2, 3]) (.nodeId 7)) false
        base64Decoding threeBlobs.files threeBlobs.listing.paths = .ok (b', r) ∧
      shortBlake3 [4, 5] ∈ r.candidates ∧
      b'.blob base64Encoding (shortBlake3 [1, 2]) = some [1, 2] ∧
      b'.blob base64Encoding (shortBlake3 [1, 2, 3]) = some [1, 2, 3] ∧
      b'.blob base64Encoding (shortBlake3 [4, 5]) = none ∧ b'.store.object "fs/root" = some [7] := by
  obtain ⟨b', r, dry, hr, -, hmem, -, -, -, hcol, -⟩ :=
    gc_store_exact base64Decoding threeBlobs.files canonical_threeBlobs {shortBlake3 [1, 2]}
      (Pins.empty.pinHash (shortBlake3 [1, 2, 3]) (.nodeId 7)) threeBlobs.listing
  have hblob : ∀ data ∈ [[1, 2], [1, 2, 3], [4, 5]],
      threeBlobs.files.blob base64Encoding (shortBlake3 data) = some data := by decide +kernel
  have hkept : Kept {shortBlake3 [1, 2]} (Pins.empty.pinHash (shortBlake3 [1, 2, 3]) (.nodeId 7))
      (shortBlake3 [1, 2]) := by decide +kernel
  have hpinned : Kept {shortBlake3 [1, 2]} (Pins.empty.pinHash (shortBlake3 [1, 2, 3]) (.nodeId 7))
      (shortBlake3 [1, 2, 3]) := by decide +kernel
  have hvictim : ¬ Kept {shortBlake3 [1, 2]} (Pins.empty.pinHash (shortBlake3 [1, 2, 3]) (.nodeId 7))
      (shortBlake3 [4, 5]) := by decide +kernel
  refine ⟨b', r, hr, (hmem _).2 ⟨?_, hvictim⟩, ?_, ?_, hcol.gone _ hvictim, ?_⟩
  · rw [hblob [4, 5] (by decide)]
    exact Option.some_ne_none _
  · rw [hcol.kept _ hkept, hblob [1, 2] (by decide)]
  · rw [hcol.kept _ hpinned, hblob [1, 2, 3] (by decide)]
  · rw [hcol.others "fs/root" (by unfold Under; decide) (by unfold Under; decide)]
    decide +kernel

end Gc
