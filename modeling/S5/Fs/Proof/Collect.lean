import S5.Fs.Collect
import S5.Fs.Proof.Gc
import S5.Fs.Proof.Versions
import S5.Fs.Sharding
import S5.Fs.Symbolic

/-!
# The walk finds the content in use

The walk reads a directory by the key that its reference brings along, an actor by the key of its
context, which inherits. A hash is tried once, under the key that it is met with first.

* `collect_reachable_exact`: the hashes gathered are those of the versions that the directories in use
  keep, if no two references to one directory disagree on its key.
* `gc_local_keeps_reachable`: a collection by them deletes nothing that an actor can still get to, if
  every reference brings along the key that its directory is read by.
-/

open Std

namespace Fs

namespace Gc

section
variable {β : Type} {env : Env β} {fsRoot : LocalFiles β} {rootKey : Option Bytes32}

/-- The directories in use: the live root, the roots of snapshots and what they lead to. -/
inductive InUse (env : Env β) (fsRoot : LocalFiles β) (rootKey : Option Bytes32) : DirV1 → Prop where
  | root {dirs : List DirV1} {d : DirV1} (hr : rootDirs env fsRoot.root rootKey = .ok dirs)
      (hd : d ∈ dirs) : InUse env fsRoot rootKey d
  | snapshot {index d : DirV1} {name : String} {ref : DirRef}
      (hi : fsRoot.snapshots.bind env.fromBytes = some index) (hr : index.dirs[name]? = some ref)
      (hl : loadDir env fsRoot.metaStore ref.hash rootKey = some d) : InUse env fsRoot rootKey d
  | dir {d child : DirV1} {name : String} {ref : DirRef} (hd : InUse env fsRoot rootKey d)
      (hr : d.dirs[name]? = some ref)
      (hl : loadDir env fsRoot.metaStore ref.hash (getKey ref) = some child) :
      InUse env fsRoot rootKey child
  | shard {d child : DirV1} {index : UInt8} {ref : DirRef} (hd : InUse env fsRoot rootKey d)
      (hr : d.header.shards.bind (·[index]?) = some ref)
      (hl : loadDir env fsRoot.metaStore ref.hash (getKey ref) = some child) :
      InUse env fsRoot rootKey child

/-- A hash that a directory in use or the list of snapshots refers to, with a key. -/
def Referred (env : Env β) (fsRoot : LocalFiles β) (rootKey : Option Bytes32) (h : Hash)
    (key : Option Bytes32) : Prop :=
  (h, key) ∈ snapshotRefs env fsRoot.snapshots rootKey ∨
    ∃ d, InUse env fsRoot rootKey d ∧ (h, key) ∈ childRefs d

/-- The references to one directory agree on what is read there. -/
def KeysAgree (env : Env β) (fsRoot : LocalFiles β) (rootKey : Option Bytes32) : Prop :=
  ∀ h key key', Referred env fsRoot rootKey h key → Referred env fsRoot rootKey h key' →
    loadDir env fsRoot.metaStore h key = loadDir env fsRoot.metaStore h key'

theorem mem_childRefs {d : DirV1} {h : Hash} {key : Option Bytes32} :
    (h, key) ∈ childRefs d ↔
      (∃ (index : UInt8) (ref : DirRef), d.header.shards.bind (·[index]?) = some ref ∧
        ref.hash = h ∧ getKey ref = key) ∨
      ∃ (name : String) (ref : DirRef), d.dirs[name]? = some ref ∧ ref.hash = h ∧ getKey ref = key := by
  unfold childRefs
  rw [List.mem_append]
  refine or_congr ?_ ?_
  · cases d.header.shards with
    | none => simp
    | some shards =>
      simp only [List.mem_map, Prod.exists, Prod.mk.injEq, ExtTreeMap.mem_toList_iff_getElem?_eq_some,
        Option.bind_some]
  · simp only [List.mem_map, Prod.exists, Prod.mk.injEq, ExtTreeMap.mem_toList_iff_getElem?_eq_some]

theorem mem_snapshotRefs {h : Hash} {key : Option Bytes32} :
    (h, key) ∈ snapshotRefs env fsRoot.snapshots rootKey ↔
      ∃ index, fsRoot.snapshots.bind env.fromBytes = some index ∧
        ∃ (name : String) (ref : DirRef), index.dirs[name]? = some ref ∧ ref.hash = h ∧
          rootKey = key := by
  unfold snapshotRefs
  cases fsRoot.snapshots.bind env.fromBytes with
  | none => simp
  | some index =>
    simp only [List.mem_map, Prod.exists, Prod.mk.injEq, ExtTreeMap.mem_toList_iff_getElem?_eq_some,
      Option.some.injEq, exists_eq_left']

/-- What the search can find are the directories in use. -/
theorem found_iff_inUse {dirs : List DirV1} (hr : rootDirs env fsRoot.root rootKey = .ok dirs)
    {d : DirV1} :
    Search.Found (metaGraph env fsRoot.metaStore) dirs (snapshotRefs env fsRoot.snapshots rootKey) d ↔
      InUse env fsRoot rootKey d := by
  constructor
  · intro h
    induction h with
    | root hd => exact .root hr hd
    | queued hk hl =>
      obtain ⟨index, hi, name, ref, href, rfl, rfl⟩ := mem_snapshotRefs.1 hk
      exact .snapshot hi href hl
    | named _ hk hl ih =>
      rcases mem_childRefs.1 hk with ⟨index, ref, href, rfl, rfl⟩ | ⟨name, ref, href, rfl, rfl⟩
      · exact .shard ih href hl
      · exact .dir ih href hl
  · intro h
    induction h with
    | root hr' hd =>
      obtain rfl := Except.ok.inj (hr.symm.trans hr')
      exact .root hd
    | snapshot hi href hl => exact .queued (mem_snapshotRefs.2 ⟨_, hi, _, _, href, rfl, rfl⟩) hl
    | dir _ href hl ih => exact .named ih (mem_childRefs.2 (.inr ⟨_, _, href, rfl, rfl⟩)) hl
    | shard _ href hl ih => exact .named ih (mem_childRefs.2 (.inl ⟨_, _, href, rfl, rfl⟩)) hl

theorem agree_of_keysAgree {dirs : List DirV1} (hr : rootDirs env fsRoot.root rootKey = .ok dirs)
    (hagree : KeysAgree env fsRoot rootKey) :
    Search.Agree (metaGraph env fsRoot.metaStore) dirs
      (snapshotRefs env fsRoot.snapshots rootKey) := by
  have hnamed : ∀ h key, Search.Named (metaGraph env fsRoot.metaStore) dirs
      (snapshotRefs env fsRoot.snapshots rootKey) h key → Referred env fsRoot rootKey h key := by
    rintro h key (hk | ⟨d, hd, hk⟩)
    · exact .inl hk
    · exact .inr ⟨d, (found_iff_inUse hr).1 hd, hk⟩
  intro h key key' hk hk'
  exact hagree h key key' (hnamed h key hk) (hnamed h key' hk')

theorem mem_foldl_collect {h : Hash} (dirs : List DirV1) (reachable : Finset Hash) :
    h ∈ dirs.foldl (fun reachable dir => collectHashesFromDir dir reachable) reachable ↔
      h ∈ reachable ∨ ∃ d ∈ dirs, ∃ (name : String) (f : FileRef), d.files[name]? = some f ∧
        ∃ g, f.Keeps g ∧ g.hash = h := by
  induction dirs generalizing reachable with
  | nil => simp
  | cons d dirs ih => rw [List.foldl_cons, ih, mem_collect, List.exists_mem_cons_iff, or_assoc]

/-- A version of a file that a directory in use keeps has this hash. -/
def ContentInUse (env : Env β) (fsRoot : LocalFiles β) (rootKey : Option Bytes32) (h : Hash) : Prop :=
  ∃ d, InUse env fsRoot rootKey d ∧ ∃ (name : String) (f : FileRef), d.files[name]? = some f ∧
    ∃ g, f.Keeps g ∧ g.hash = h

theorem mem_collect_reachable (hagree : KeysAgree env fsRoot rootKey) {dir : DirV1}
    (hr : rootDirs env fsRoot.root rootKey = .ok [dir]) :
    ∃ reachable, collectFsReachableHashes env fsRoot rootKey = .ok reachable ∧
      ∀ h, h ∈ reachable ↔ ContentInUse env fsRoot rootKey h := by
  refine ⟨_, by rw [collectFsReachableHashes, hr], fun h => ?_⟩
  have hfound : ∀ d, d ∈ Search.order (metaGraph env fsRoot.metaStore) [dir]
      (snapshotRefs env fsRoot.snapshots rootKey) ∅ ↔ InUse env fsRoot rootKey d := fun d =>
    (Search.mem_order_iff (List.cons_ne_nil dir []) (agree_of_keysAgree hr hagree)).trans
      (found_iff_inUse hr)
  rw [Search.search_eq_foldl, mem_foldl_collect]
  simp only [Finset.notMem_empty, false_or, hfound]
  rfl

/-- **The walk is exact.** Without a root file nothing counts as in use, not even the snapshots, and a
damaged root file ends the walk. -/
theorem collect_reachable_exact (hagree : KeysAgree env fsRoot rootKey) :
    (fsRoot.root = none → collectFsReachableHashes env fsRoot rootKey = .ok ∅) ∧
    (∀ bytes, fsRoot.root = some bytes →
      (∀ plain, decryptDirBytes env bytes rootKey = .ok plain → env.fromBytes plain = none) →
        ∃ e, collectFsReachableHashes env fsRoot rootKey = .error e) ∧
    ∀ bytes plain dir, fsRoot.root = some bytes → decryptDirBytes env bytes rootKey = .ok plain →
      env.fromBytes plain = some dir →
        ∃ reachable, collectFsReachableHashes env fsRoot rootKey = .ok reachable ∧
          ∀ h, h ∈ reachable ↔ ContentInUse env fsRoot rootKey h := by
  refine ⟨fun hnone => ?_, fun bytes hb hbad => ?_, fun bytes plain dir hb hdec hparse => ?_⟩
  · rw [collectFsReachableHashes, hnone, rootDirs]
    dsimp only
    rw [Search.search]
  · have hroot : ∃ e, rootDirs env fsRoot.root rootKey = .error e := by
      cases hdec : decryptDirBytes env bytes rootKey with
      | error e => exact ⟨_, by simp only [rootDirs, hb, hdec]; rfl⟩
      | ok plain => exact ⟨_, by simp only [rootDirs, hb, hdec, hbad plain hdec]; rfl⟩
    obtain ⟨e, he⟩ := hroot
    exact ⟨e, by rw [collectFsReachableHashes, he]⟩
  · have hroot : rootDirs env fsRoot.root rootKey = .ok [dir] := by
      simp only [rootDirs, hb, hdec, hparse]
    exact mem_collect_reachable hagree hroot

end

/-! ## What the actors get to -/

section
variable {β : Type} {env : Env β} {w : World β}

/-- The context of the root's actor. -/
def rootContext : DirContext Unit := .localRoot

/-- The key that an actor reads its directory by. -/
def readKey (ctx : DirContext Unit) : Option Bytes32 :=
  ctx.encryptionType.bind fun _ => ctx.keys[keySlot]?

/-- The directories that actors can open from the local root on, with their contexts. -/
inductive Opened (env : Env β) (w : World β) : DirContext Unit → DirV1 → Prop where
  | root {d : DirV1} {len : Nat} (h : load env rootContext w = .ok (d, len)) :
      Opened env w rootContext d
  | dir {ctx : DirContext Unit} {d child : DirV1} {name : String} {ref : DirRef} {len : Nat}
      (ho : Opened env w ctx d) (hr : d.dirs[name]? = some ref)
      (h : load env (ctx.withNewRef ref (dirLink ctx () name ref)) w = .ok (child, len)) :
      Opened env w (ctx.withNewRef ref (dirLink ctx () name ref)) child
  | shard {ctx : DirContext Unit} {d child : DirV1} {index : UInt8} {ref : DirRef}
      {link : DirContextParentLink Unit} {len : Nat} (ho : Opened env w ctx d)
      (hl : shardLink d () index = .ok (ref, link))
      (h : load env (ctx.withNewRef ref link) w = .ok (child, len)) :
      Opened env w (ctx.withNewRef ref link) child

/-- Every reference that an actor can follow is by hash and brings along the key that its directory is
read by; no key if the directory is not encrypted. -/
structure BringKeys (env : Env β) (w : World β) : Prop where
  dirs : ∀ ctx (d : DirV1) (name : String) ref child, Opened env w ctx d →
    d.dirs[name]? = some ref →
      load env (ctx.withNewRef ref (dirLink ctx () name ref)) w = .ok child →
        ref.refTypeD = .blake3Hash ∧
          readKey (ctx.withNewRef ref (dirLink ctx () name ref)) = getKey ref
  shards : ∀ ctx (d : DirV1) index ref link child, Opened env w ctx d →
    shardLink d () index = .ok (ref, link) → load env (ctx.withNewRef ref link) w = .ok child →
      readKey (ctx.withNewRef ref link) = getKey ref

/-- What the walk reads of a world, beside the list of snapshots. -/
def localFiles (w : World β) (snapshots : Option β) : LocalFiles β := ⟨w.rootFile, snapshots, w.store⟩

theorem fromBytes_of_decodeDir {b : β} {d : DirV1} {len : Nat} (h : decodeDir env b = .ok (d, len)) :
    env.fromBytes b = some d := by
  unfold decodeDir at h
  cases hf : env.fromBytes b with
  | none =>
    rw [hf] at h
    cases h
  | some d' =>
    rw [hf] at h
    obtain ⟨rfl, -⟩ := Prod.mk.inj (Except.ok.inj h)
    rfl

/-- An actor and the walk decrypt alike. -/
theorem decryptDirBytes_readKey {ctx : DirContext Unit} {b plain : β}
    (h : decryptIfNeeded env ctx b = .ok plain) : decryptDirBytes env b (readKey ctx) = .ok plain := by
  unfold decryptIfNeeded at h
  unfold readKey
  cases ht : ctx.encryptionType with
  | none =>
    rw [ht] at h
    exact h
  | some t =>
    rw [ht] at h
    dsimp only at h
    by_cases hx : t = encryptionTypeXChaCha20Poly1305
    · rw [if_pos hx] at h
      cases hk : ctx.keys[keySlot]? with
      | none =>
        rw [hk] at h
        cases h
      | some key =>
        rw [hk] at h
        dsimp only at h
        cases hd : env.decrypt key b with
        | none =>
          rw [hd] at h
          cases h
        | some plain' =>
          rw [hd] at h
          simp only [Option.bind_some, decryptDirBytes, hd]
          exact h
    · rw [if_neg hx] at h
      cases h

theorem loadDir_of_load {ctx : DirContext Unit} {d : DirV1} {len : Nat} {path : DirHandlePath}
    {h : Hash} {level : UInt8} (hlink : ctx.link = .dirHandle path () h level)
    (hl : load env ctx w = .ok (d, len)) : loadDir env w.store h (readKey ctx) = some d := by
  unfold load at hl
  rw [hlink] at hl
  unfold loadDir
  unfold World.readAsBytes at hl
  dsimp only at hl
  cases hb : w.store[h]? with
  | none =>
    rw [hb] at hl
    cases hl
  | some b =>
    rw [hb] at hl
    simp only [bind, Except.bind] at hl
    cases hdec : decryptIfNeeded env ctx b with
    | error e =>
      rw [hdec] at hl
      cases hl
    | ok plain =>
      rw [hdec] at hl
      simp only [decryptDirBytes_readKey hdec]
      exact fromBytes_of_decodeDir hl

theorem shardLink_inv {d : DirV1} {index : UInt8} {ref : DirRef} {link : DirContextParentLink Unit}
    (h : shardLink d () index = .ok (ref, link)) :
    d.header.shards.bind (·[index]?) = some ref ∧
      ∃ level, link = .dirHandle (.shard index) () ref.hash level := by
  unfold shardLink at h
  split at h
  · cases h
  · rename_i dirRef href
    split at h
    · cases h
    · split at h
      · cases h
      · split at h
        · cases h
        · split at h
          · cases h
          · obtain ⟨rfl, rfl⟩ := Prod.mk.inj (Except.ok.inj h)
            exact ⟨href, _, rfl⟩

/-- The local root is what the walk starts from. -/
theorem rootDirs_of_load {d : DirV1} {len : Nat} (h : load env rootContext w = .ok (d, len)) :
    rootDirs env w.rootFile none = .ok [d] := by
  simp only [load, rootContext, DirContext.localRoot] at h
  cases hf : w.rootFile with
  | none =>
    rw [hf] at h
    cases h
  | some b =>
    rw [hf] at h
    simp only [rootDirs, decryptDirBytes, fromBytes_of_decodeDir h]

/-- **The walk gets to every directory that actors can open.** -/
theorem Opened.inUse (hkeys : BringKeys env w) (snapshots : Option β) {ctx : DirContext Unit} {d : DirV1}
    (h : Opened env w ctx d) : InUse env (localFiles w snapshots) none d := by
  induction h with
  | root h => exact .root (rootDirs_of_load h) List.mem_cons_self
  | @dir ctx d child name ref len ho hr h ih =>
    obtain ⟨htype, hkey⟩ := hkeys.dirs ctx d name ref _ ho hr h
    have hlink : dirLink ctx () name ref = .dirHandle (.path name) () ref.hash 0 := by
      simp only [dirLink, htype]
    refine .dir ih hr ?_
    rw [← hkey]
    exact loadDir_of_load hlink h
  | @shard ctx d child index ref link len ho hl h ih =>
    have hkey := hkeys.shards ctx d index ref link _ ho hl h
    obtain ⟨href, level, rfl⟩ := shardLink_inv hl
    refine .shard ih href ?_
    rw [← hkey]
    exact loadDir_of_load rfl h

/-! ## The collection -/

/-- **A collection keeps what the actors can get to**: the content of every version of every file in
every directory that can be opened, and of what is neither in use nor pinned nothing is left. -/
theorem gc_local_keeps_reachable {benv : Blobs.BlobEncoding} (codec : Blobs.PathDecoding benv)
    (snapshots : Option β) (hagree : KeysAgree env (localFiles w snapshots) none)
    (hkeys : BringKeys env w) {root : DirV1} {len : Nat}
    (hroot : load env rootContext w = .ok (root, len)) (b : Blobs.BlobFiles)
    (hc : Blobs.Canonical benv b) (l : Blobs.Listing b.store) (pins : Pins) :
    ∃ reachable b' r,
      collectFsReachableHashes env (localFiles w snapshots) none = .ok reachable ∧
      Gc.gcStore reachable pins false codec b l.paths = .ok (b', r) ∧
      (∀ ctx d, Opened env w ctx d → ∀ (name : String) (f g : FileRef), d.files[name]? = some f →
        f.Keeps g → b'.blob benv g.hash = b.blob benv g.hash) ∧
      ∀ h, pins.pinners h = ∅ → ¬ ContentInUse env (localFiles w snapshots) none h →
        b'.blob benv h = none := by
  have hdirs := rootDirs_of_load hroot
  obtain ⟨reachable, hcollect, hmem⟩ := mem_collect_reachable hagree hdirs
  obtain ⟨hashes, hlisted, hspec⟩ := Gc.gcStore_spec reachable pins codec hc l
  obtain ⟨r, hr, -, -⟩ := hspec false
  have hcol := Gc.collected_of_deleted hc hlisted
    (Gc.deleted_foldl b (Gc.victims reachable pins hashes))
  refine ⟨reachable, _, r, hcollect, hr, fun ctx d ho name f g hf hk => ?_, fun h hp hu => ?_⟩
  · have huse : ContentInUse env (localFiles w snapshots) none g.hash :=
      ⟨d, ho.inUse hkeys snapshots, name, f, hf, g, hk, rfl⟩
    exact hcol.kept _ (.inr ((hmem _).2 huse))
  · refine hcol.gone h ?_
    rintro (hpin | hreach)
    · exact hpin hp
    · exact hu ((hmem h).1 hreach)

end

/-! An encrypted subdirectory with a file that was deleted. -/

def sealedDir : Sym := .sealed 7 0 (.plain twiceDeleted)

def sealedRef : DirRef where
  refType := none
  hash := (symbolic xxh3Short).blake3 sealedDir
  tsSeconds := none
  tsNanos := none
  keys := some ((∅ : ExtTreeMap UInt8 Bytes32).insert keySlot 7)
  encryptionType := some encryptionTypeXChaCha20Poly1305
  extra := none

def sealedRoot : DirV1 :=
  { DirV1.new with dirs := (∅ : ExtTreeMap String DirRef).insert "d" sealedRef }

def sealedWorld : World Sym :=
  { emptyWorld with
    store := (∅ : ExtTreeMap Hash Sym).insert sealedRef.hash sealedDir
    rootFile := some (.plain sealedRoot) }

theorem dirs_sealedRoot {name : String} {ref : DirRef} (h : sealedRoot.dirs[name]? = some ref) :
    name = "d" ∧ ref = sealedRef := by
  simp only [sealedRoot, ExtTreeMap.getElem?_insert] at h
  split at h
  · rename_i hn
    exact ⟨(Std.compare_eq_iff_eq.1 hn).symm, (Option.some.inj h).symm⟩
  · simp at h

theorem inUse_sealedWorld {d : DirV1}
    (h : InUse (symbolic xxh3Short) (localFiles sealedWorld none) none d) :
    d = sealedRoot ∨ d = twiceDeleted := by
  induction h with
  | root hr hd =>
    obtain rfl := Except.ok.inj hr
    exact .inl (List.mem_singleton.1 hd)
  | snapshot hi => cases hi
  | dir _ hr hl ih =>
    rcases ih with rfl | rfl
    · obtain ⟨-, rfl⟩ := dirs_sealedRoot hr
      have hread : loadDir (symbolic xxh3Short) (localFiles sealedWorld none).metaStore sealedRef.hash
          (getKey sealedRef) = some twiceDeleted := by decide +kernel
      exact .inr (Option.some.inj (hl.symm.trans hread))
    · simp [twiceDeleted] at hr
  | shard _ hr _ ih =>
    rcases ih with rfl | rfl
    · cases hr
    · cases hr

theorem keysAgree_sealedWorld :
    KeysAgree (symbolic xxh3Short) (localFiles sealedWorld none) none := by
  have hkey : ∀ h key, Referred (symbolic xxh3Short) (localFiles sealedWorld none) none h key →
      key = getKey sealedRef := by
    rintro h key (hk | ⟨d, hd, hk⟩)
    · exact absurd hk List.not_mem_nil
    · rcases inUse_sealedWorld hd with rfl | rfl
      · rcases mem_childRefs.1 hk with ⟨index, ref, href, -, -⟩ | ⟨name, ref, href, -, rfl⟩
        · cases href
        · rw [(dirs_sealedRoot href).2]
      · exact absurd hk (by simp [childRefs, twiceDeleted, DirHeader.new])
  intro h key key' hk hk'
  rw [hkey h key hk, hkey h key' hk']

theorem opened_sealedWorld {ctx : DirContext Unit} {d : DirV1}
    (h : Opened (symbolic xxh3Short) sealedWorld ctx d) :
    (ctx = rootContext ∧ d = sealedRoot) ∨ d = twiceDeleted := by
  induction h with
  | root h => exact .inl ⟨rfl, (Prod.mk.inj (Except.ok.inj h)).1.symm⟩
  | dir _ hr hl ih =>
    rcases ih with ⟨rfl, rfl⟩ | rfl
    · obtain ⟨rfl, rfl⟩ := dirs_sealedRoot hr
      have hread : load (symbolic xxh3Short) (rootContext.withNewRef sealedRef
          (dirLink rootContext () "d" sealedRef)) sealedWorld = .ok (twiceDeleted, 164) := by
        decide +kernel
      exact .inr (Prod.mk.inj (Except.ok.inj (hl.symm.trans hread))).1
    · simp [twiceDeleted] at hr
  | shard _ hl _ ih =>
    obtain ⟨href, -⟩ := shardLink_inv hl
    rcases ih with ⟨-, rfl⟩ | rfl
    · cases href
    · cases href

theorem bringKeys_sealedWorld : BringKeys (symbolic xxh3Short) sealedWorld where
  dirs ctx d name ref child ho hr _ := by
    rcases opened_sealedWorld ho with ⟨rfl, rfl⟩ | rfl
    · obtain ⟨rfl, rfl⟩ := dirs_sealedRoot hr
      exact ⟨rfl, by decide +kernel⟩
    · simp [twiceDeleted] at hr
  shards ctx d index ref link child ho hl _ := by
    obtain ⟨href, -⟩ := shardLink_inv hl
    rcases opened_sealedWorld ho with ⟨-, rfl⟩ | rfl
    · cases href
    · cases href

/-- The version that was deleted is kept. -/
theorem keeps_twiceDeleted :
    ((FileRef.new 5 1).deletedAt [(1, 0), (2, 0)]).Keeps (FileRef.new 5 1) := by
  rw [FileRef.Keeps, if_pos (FileRef.isTombstone_deletedAt _ _ _)]
  exact FileRef.child_deletedAt _ _ _

theorem file_twiceDeleted :
    twiceDeleted.files["f"]? = some ((FileRef.new 5 1).deletedAt [(1, 0), (2, 0)]) := by
  rw [twiceDeleted, ExtTreeMap.getElem?_insert_self]

theorem collect_reachable_exact_sealed :
    ∃ reachable, collectFsReachableHashes (symbolic xxh3Short) (localFiles sealedWorld none) none =
      .ok reachable ∧ 5 ∈ reachable := by
  obtain ⟨reachable, hcollect, hmem⟩ := (collect_reachable_exact keysAgree_sealedWorld).2.2
    (.plain sealedRoot) (.plain sealedRoot) sealedRoot rfl rfl rfl
  have hdir : sealedRoot.dirs["d"]? = some sealedRef := by
    rw [sealedRoot, ExtTreeMap.getElem?_insert_self]
  have hdirs : rootDirs (symbolic xxh3Short) sealedWorld.rootFile none = .ok [sealedRoot] := rfl
  have huse : InUse (symbolic xxh3Short) (localFiles sealedWorld none) none twiceDeleted :=
    .dir (.root hdirs List.mem_cons_self) hdir (by decide +kernel)
  exact ⟨reachable, hcollect, (hmem 5).2
    ⟨twiceDeleted, huse, "f", _, file_twiceDeleted, _, keeps_twiceDeleted, rfl⟩⟩

/-- A store of the blob that was deleted and of another one. -/
def sealedBlobs : Blobs.ListedFiles :=
  Blobs.filesOf [(Gc.gcPath 5, [9]), (Gc.gcPath (Blobs.shortBlake3 [4, 5]), [4, 5])]

theorem canonical_sealedBlobs : Blobs.Canonical Blobs.base64Encoding sealedBlobs.files := by
  refine Gc.canonical_filesOf fun o ho _ => ?_
  simp only [List.mem_cons, List.not_mem_nil, or_false] at ho
  rcases ho with rfl | rfl
  · exact ⟨_, rfl⟩
  · exact ⟨_, rfl⟩

theorem not_contentInUse_sealedWorld : ¬ ContentInUse (symbolic xxh3Short) (localFiles sealedWorld none)
    none (Blobs.shortBlake3 [4, 5]) := by
  rintro ⟨d, hd, name, f, hf, g, hg, he⟩
  rcases inUse_sealedWorld hd with rfl | rfl
  · exact absurd hf (by simp [sealedRoot, DirV1.new])
  · exact absurd ((mem_collect twiceDeleted ∅).2 (.inr ⟨name, f, hf, g, hg, he⟩)) (by decide +kernel)

/-- The deleted file's blob stays, and the other one goes. -/
theorem gc_local_keeps_reachable_sealed :
    ∃ reachable b' r,
      collectFsReachableHashes (symbolic xxh3Short) (localFiles sealedWorld none) none =
        .ok reachable ∧
      Gc.gcStore reachable Pins.empty false Blobs.base64Decoding sealedBlobs.files
        sealedBlobs.listing.paths = .ok (b', r) ∧
      b'.blob Blobs.base64Encoding 5 = some [9] ∧
      b'.blob Blobs.base64Encoding (Blobs.shortBlake3 [4, 5]) = none := by
  have hroot : load (symbolic xxh3Short) rootContext sealedWorld = .ok (sealedRoot, 164) := by
    decide +kernel
  obtain ⟨reachable, b', r, hcollect, hrun, hkept, hgone⟩ :=
    gc_local_keeps_reachable Blobs.base64Decoding none keysAgree_sealedWorld bringKeys_sealedWorld
      hroot sealedBlobs.files canonical_sealedBlobs sealedBlobs.listing Pins.empty
  have hdir : sealedRoot.dirs["d"]? = some sealedRef := by
    rw [sealedRoot, ExtTreeMap.getElem?_insert_self]
  have hopen := Opened.dir (.root hroot) hdir
    (show load (symbolic xxh3Short) (rootContext.withNewRef sealedRef
      (dirLink rootContext () "d" sealedRef)) sealedWorld = .ok (twiceDeleted, 164) by decide +kernel)
  have hblob := hkept _ _ hopen "f" _ (FileRef.new 5 1) file_twiceDeleted keeps_twiceDeleted
  have hhash : (FileRef.new 5 1).hash = 5 := rfl
  have hthere : sealedBlobs.files.blob Blobs.base64Encoding 5 = some [9] := by decide +kernel
  rw [hhash, hthere] at hblob
  exact ⟨reachable, b', r, hcollect, hrun, hblob, hgone _ rfl not_contentInUse_sealedWorld⟩

end Gc

end Fs
