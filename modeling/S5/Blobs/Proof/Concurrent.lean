import S5.Blobs.Concurrent
import S5.Blobs.Proof.Import

/-!
# Blob stores are content addressed whatever runs at the same time

Between the calls of one import any others may come. An import has its temporary object to itself and
never writes anything else under `blob3/` than its data at the path of their hash (`Stepped`), so two
imports of the same data cannot harm each other, whichever of them finds the blob missing.

* `finishes_alone`: an import that runs alone is `import_bytes`, `import_stream` or `import_file`.
* `step_spec`: what one step of an import does.
* `concurrent_imports`: along every run of imports and deletes.
-/

namespace Blobs

variable {env : BlobEncoding} {b b' : BlobFiles} {c : Import} {h : Hash} {data : Bytes}

/-! ## Imports that run alone -/

variable (env) in
/-- The call that an import is. -/
def ImportSource.importTo (b : BlobFiles) (uuid : String) :
    ImportSource → BlobFiles × Except String BlobId
  | .bytes data => b.importBytes env uuid data
  | .stream chunks => b.importStream env uuid chunks
  | .file chunks => b.importFile env uuid chunks

namespace Import

theorem alone_finished (b : BlobFiles) (uuid : String) (source : ImportSource)
    (res : Except String BlobId) (steps : Nat) :
    alone env b ⟨uuid, source, .finished res⟩ steps = (b, .finished res) := by
  induction steps with
  | zero => rfl
  | succ steps ih => exact ih

theorem alone_of_step {steps : Nat} {p : ImportPhase} {r : BlobFiles × ImportPhase}
    (hs : c.step env b = (b', p)) (hr : alone env b' { c with phase := p } steps = r) :
    alone env b c (steps + 1) = r := by
  unfold alone
  rw [hs]
  exact hr

/-- The last steps are `finalize_import`. -/
theorem alone_finalize (b : BlobFiles) (uuid : String) (source : ImportSource) (hash : Hash) (size : Nat)
    (outboard : Option Bytes) (steps : Nat) :
    alone env b ⟨uuid, source, .finalize hash size outboard⟩ (steps + 5) =
      ((b.finalizeImport env (Store.tempPath uuid) hash size outboard).1,
        .finished (b.finalizeImport env (Store.tempPath uuid) hash size outboard).2) := by
  unfold BlobFiles.finalizeImport
  apply alone_of_step rfl
  dsimp only
  generalize b.putOutboard env hash outboard = o
  by_cases hthere : o.store.contains (blobPath env hash o.store.features) = true
  · have hcheck : step env o ⟨uuid, source, .check hash size⟩ = (o, .discard hash size) :=
      if_pos hthere
    rw [if_pos hthere]
    exact alone_of_step hcheck (alone_of_step rfl (alone_finished ..))
  · have hcheck : step env o ⟨uuid, source, .check hash size⟩ = (o, .move hash size) :=
      if_neg hthere
    rw [if_neg hthere]
    apply alone_of_step hcheck
    by_cases hr : o.store.features.supportsRename = true
    · rw [if_pos hr]
      cases hren : o.store.rename (Store.tempPath uuid) (blobPath env hash o.store.features) with
      | error e =>
        have hmove : step env o ⟨uuid, source, .move hash size⟩ = (o, .finished (.error e)) := by
          simp [step, tempPath, hr, hren]
        exact alone_of_step hmove (alone_finished ..)
      | ok store =>
        have hmove : step env o ⟨uuid, source, .move hash size⟩ =
            ({ o with store }, .finished (.ok ⟨hash, size⟩)) := by
          simp [step, tempPath, hr, hren]
        exact alone_of_step hmove (alone_finished ..)
    · rw [if_neg hr]
      cases hread : o.store.openReadStream (Store.tempPath uuid) 0 none with
      | error e =>
        have hmove : step env o ⟨uuid, source, .move hash size⟩ = (o, .finished (.error e)) := by
          simp [step, tempPath, hr, hread]
        exact alone_of_step hmove (alone_finished ..)
      | ok chunks =>
        have hmove : step env o ⟨uuid, source, .move hash size⟩ = (o, .copy hash size chunks) := by
          simp [step, tempPath, hr, hread]
        exact alone_of_step hmove (alone_of_step rfl (alone_of_step rfl (alone_finished ..)))

theorem alone_bytes (b : BlobFiles) (uuid : String) (data : Bytes) (steps : Nat) :
    alone env b ⟨uuid, .bytes data, .start⟩ (steps + 8) =
      ((b.importBytes env uuid data).1, .finished (b.importBytes env uuid data).2) := by
  unfold BlobFiles.importBytes
  apply alone_of_step rfl
  unfold begin
  dsimp only
  generalize (if b.hasOutboard = true ∧ BlobFiles.outboardThreshold ≤ data.length then
    env.computeOutboard data else (env.blake3 data, none)) = out
  obtain ⟨hash, obao⟩ := out
  dsimp only
  generalize b.putOutboard env hash obao = o
  by_cases hthere : o.store.contains (blobPath env hash o.store.features) = true
  · have hlook : step env o ⟨uuid, .bytes data, .look hash obao⟩ =
        (o, .finished (.ok ⟨hash, data.length⟩)) := if_pos hthere
    rw [if_pos hthere]
    exact alone_of_step hlook (alone_finished ..)
  · have hlook : step env o ⟨uuid, .bytes data, .look hash obao⟩ = (o, .put hash obao) :=
      if_neg hthere
    rw [if_neg hthere]
    apply alone_of_step hlook
    by_cases hr : o.store.features.supportsRename = true
    · have hput : step env o ⟨uuid, .bytes data, .put hash obao⟩ =
          ({ o with store := o.store.putStream (Store.tempPath uuid) [data] },
            .finalize hash data.length obao) := if_pos hr
      rw [if_pos hr]
      exact alone_of_step hput (alone_finalize ..)
    · have hput : step env o ⟨uuid, .bytes data, .put hash obao⟩ =
          ({ o with store := o.store.putBytes (blobPath env hash o.store.features) data },
            .finished (.ok ⟨hash, data.length⟩)) := if_neg hr
      rw [if_neg hr]
      exact alone_of_step hput (alone_finished ..)

theorem alone_stream (b : BlobFiles) (uuid : String) (chunks : List Bytes) (steps : Nat) :
    alone env b ⟨uuid, .stream chunks, .start⟩ (steps + 8) =
      ((b.importStream env uuid chunks).1, .finished (b.importStream env uuid chunks).2) := by
  unfold BlobFiles.importStream Store.putTemp
  apply alone_of_step rfl
  unfold begin
  dsimp only
  generalize (TeeStream.new chunks).collect (chunks.length + 1) = out
  obtain ⟨tee, written⟩ := out
  dsimp only [tempPath]
  generalize b.store.putStream (Store.tempPath uuid) written = store
  cases hsize : store.size (Store.tempPath uuid) with
  | error e =>
    have hmeasure : step env { b with store } ⟨uuid, .stream chunks, .measure (env.blake3 tee.hashed)⟩ =
        ({ b with store }, .finished (.error e)) := by simp [step, tempPath, hsize]
    exact alone_of_step hmeasure (alone_finished ..)
  | ok size =>
    have hmeasure : step env { b with store } ⟨uuid, .stream chunks, .measure (env.blake3 tee.hashed)⟩ =
        ({ b with store }, .reread (env.blake3 tee.hashed) size) := by simp [step, tempPath, hsize]
    apply alone_of_step hmeasure
    dsimp only
    generalize ({ b with store } : BlobFiles) = o
    cases hread : o.computeFromStore env (Store.tempPath uuid) (env.blake3 tee.hashed) with
    | error e =>
      have hreread : step env o ⟨uuid, .stream chunks, .reread (env.blake3 tee.hashed) size⟩ =
          (o, .finished (.error e)) := by simp [step, tempPath, hread]
      exact alone_of_step hreread (alone_finished ..)
    | ok outboard =>
      have hreread : step env o ⟨uuid, .stream chunks, .reread (env.blake3 tee.hashed) size⟩ =
          (o, .finalize (env.blake3 tee.hashed) size outboard) := by simp [step, tempPath, hread]
      exact alone_of_step hreread (alone_finalize ..)

/-- **An import that runs alone** is the call that it models. -/
theorem finishes_alone (b : BlobFiles) (uuid : String) (source : ImportSource) :
    alone env b ⟨uuid, source, .start⟩ 8 =
      ((source.importTo env b uuid).1, .finished (source.importTo env b uuid).2) := by
  cases source with
  | bytes data => exact alone_bytes b uuid data 0
  | stream chunks => exact alone_stream b uuid chunks 0
  | file chunks => exact alone_of_step rfl (alone_finalize _ uuid _ _ _ _ 2)

end Import

/-! ## One step -/

/-- The temporary object of the import is there. -/
def ImportPhase.staged : ImportPhase → Bool
  | .start | .look _ _ | .put _ _ | .finished _ => false
  | _ => true

/-- The blob has been seen or stored. -/
def ImportPhase.stored : ImportPhase → Bool
  | .discard _ _ | .finished _ => true
  | _ => false

variable (env) in
/-- What an import knows is right. -/
def ImportPhase.Right (data : Bytes) : ImportPhase → Prop
  | .start => True
  | .look hash _ | .put hash _ | .measure hash => hash = env.blake3 data
  | .reread hash size | .finalize hash size _ | .check hash size | .move hash size
  | .discard hash size => hash = env.blake3 data ∧ size = data.length
  | .copy hash size chunks => (hash = env.blake3 data ∧ size = data.length) ∧ chunks.flatten = data
  | .finished res => res = .ok ⟨env.blake3 data, data.length⟩

namespace Import

/-- The blob that the import is about. -/
def hash (env : BlobEncoding) (c : Import) : Hash := env.blake3 c.source.data

/-- A running import has its temporary object, a finished one has left none. -/
structure Going (env : BlobEncoding) (b : BlobFiles) (c : Import) : Prop where
  right : c.phase.Right env c.source.data
  temp : b.store.object c.tempPath = if c.phase.staged then some c.source.data else none

/-- What a step of an import does to the store, and the phase `p` it comes to. -/
structure Stepped (env : BlobEncoding) (c : Import) (b b' : BlobFiles) (p : ImportPhase) : Prop where
  features : b'.store.features = b.store.features
  blobs : ∀ path, Under "blob3/" path → b'.store.object path = b.store.object path ∨
    path = blobPath env (c.hash env) b.store.features ∧ b'.store.object path = some c.source.data
  temps : ∀ path, Under ".tmp/" path → path ≠ c.tempPath →
    b'.store.object path = b.store.object path
  going : Going env b' { c with phase := p }
  stored : (c.phase.stored = true → b.blob env (c.hash env) ≠ none) → p.stored = true →
    b'.blob env (c.hash env) ≠ none

variable {p : ImportPhase}

theorem under_tempPath (c : Import) : Under ".tmp/" c.tempPath := Blobs.under_tempPath c.uuid

theorem tempPath_ne_blobPath (c : Import) (h : Hash) (features : StoreFeatures) :
    c.tempPath ≠ blobPath env h features :=
  ne_of_under c.under_tempPath (under_blobPath env h features) (by decide) (by decide)

/-- Neither the blob nor the temporary object changes. -/
theorem Going.sameBlobs (hg : Going env b c) (hsame : SameBlobs b b')
    (hright : p.Right env c.source.data) (hstaged : p.staged = c.phase.staged)
    (hstored : (c.phase.stored = true → b.blob env (c.hash env) ≠ none) → p.stored = true →
      b.blob env (c.hash env) ≠ none) : Stepped env c b b' p := by
  refine ⟨hsame.features, fun path hp => .inl (hsame.blobs path hp),
    fun path hp _ => hsame.temps path hp, ⟨hright, ?_⟩, fun hc hp => ?_⟩
  · dsimp only
    rw [hstaged, ← hg.temp]
    exact hsame.temps _ c.under_tempPath
  · unfold BlobFiles.blob
    rw [hsame.features, hsame.blobs _ (under_blobPath env _ _)]
    exact hstored hc hp

/-- The data become the temporary object. -/
theorem stepped_staged (c : Import) {chunks : List Bytes} (hdata : chunks.flatten = c.source.data)
    (hright : p.Right env c.source.data) (hstaged : p.staged = true) (hstored : p.stored = false) :
    Stepped env c b { b with store := b.store.putStream c.tempPath chunks } p := by
  refine ⟨rfl, fun path hp => .inl ?_, fun path _ hne => ?_, ⟨hright, ?_⟩, fun _ hp => ?_⟩
  · have hne := ne_of_under hp c.under_tempPath (by decide) (by decide)
    rw [Store.putStream, Store.object_putBytes, if_neg hne]
  · rw [Store.putStream, Store.object_putBytes, if_neg hne]
  · have htemp : ({ c with phase := p } : Import).tempPath = c.tempPath := rfl
    rw [htemp, Store.putStream, Store.object_putBytes, if_pos rfl, hdata]
    dsimp only
    rw [if_pos hstaged]
  · rw [hstored] at hp
    cases hp

/-- The data become the blob. -/
theorem Going.blobPut (hg : Going env b c) (hright : p.Right env c.source.data)
    (hstaged : p.staged = c.phase.staged) :
    Stepped env c b { b with
      store := b.store.putBytes (blobPath env (c.hash env) b.store.features) c.source.data } p := by
  refine ⟨rfl, fun path _ => ?_, fun path hp _ => ?_, ⟨hright, ?_⟩, fun _ _ => ?_⟩
  · rw [Store.object_putBytes]
    by_cases hpath : path = blobPath env (c.hash env) b.store.features
    · exact .inr ⟨hpath, if_pos hpath⟩
    · exact .inl (if_neg hpath)
  · have hne := ne_of_under hp (under_blobPath env (c.hash env) b.store.features) (by decide) (by decide)
    rw [Store.object_putBytes, if_neg hne]
  · dsimp only
    rw [hstaged, ← hg.temp]
    exact (Store.object_putBytes _ _).trans (if_neg (c.tempPath_ne_blobPath _ _))
  · unfold BlobFiles.blob
    rw [Store.putBytes_features, Store.object_putBytes, if_pos rfl]
    exact Option.some_ne_none _

/-- The temporary object is gone. -/
theorem stepped_discard (c : Import) (hright : p.Right env c.source.data) (hstaged : p.staged = false)
    (hwas : c.phase.stored = true) :
    Stepped env c b { b with store := b.store.delete c.tempPath } p := by
  refine ⟨rfl, fun path hp => .inl ?_, fun path _ hne => ?_, ⟨hright, ?_⟩, fun hc _ => ?_⟩
  · have hne := ne_of_under hp c.under_tempPath (by decide) (by decide)
    rw [Store.object_delete, if_neg hne]
  · rw [Store.object_delete, if_neg hne]
  · have htemp : ({ c with phase := p } : Import).tempPath = c.tempPath := rfl
    rw [htemp, Store.object_delete, if_pos rfl]
    dsimp only
    rw [hstaged, if_neg Bool.false_ne_true]
  · unfold BlobFiles.blob
    rw [Store.delete_features, Store.object_delete, if_neg (c.tempPath_ne_blobPath _ _).symm]
    exact hc hwas

/-- The temporary object becomes the blob. -/
theorem stepped_rename (c : Import) (hright : p.Right env c.source.data) (hstaged : p.staged = false) :
    Stepped env c b { b with
      store := (b.store.delete c.tempPath).putBytes (blobPath env (c.hash env) b.store.features)
        c.source.data } p := by
  refine ⟨rfl, fun path hp => ?_, fun path hp hne => ?_, ⟨hright, ?_⟩, fun _ _ => ?_⟩
  · have hne := ne_of_under hp c.under_tempPath (by decide) (by decide)
    rw [Store.object_putBytes, Store.object_delete, if_neg hne]
    by_cases hpath : path = blobPath env (c.hash env) b.store.features
    · exact .inr ⟨hpath, if_pos hpath⟩
    · exact .inl (if_neg hpath)
  · have hne' := ne_of_under hp (under_blobPath env (c.hash env) b.store.features) (by decide) (by decide)
    rw [Store.object_putBytes, if_neg hne', Store.object_delete, if_neg hne]
  · have htemp : ({ c with phase := p } : Import).tempPath = c.tempPath := rfl
    rw [htemp, Store.object_putBytes, if_neg (c.tempPath_ne_blobPath _ _), Store.object_delete,
      if_pos rfl]
    dsimp only
    rw [hstaged, if_neg Bool.false_ne_true]
  · unfold BlobFiles.blob
    rw [Store.putBytes_features, Store.delete_features, Store.object_putBytes, if_pos rfl]
    exact Option.some_ne_none _

theorem step_start (law : env.Lawful) {uuid : String} {source : ImportSource}
    (hg : Going env b ⟨uuid, source, .start⟩) : Stepped env ⟨uuid, source, .start⟩ b
      (step env b ⟨uuid, source, .start⟩).1 (step env b ⟨uuid, source, .start⟩).2 := by
  cases source with
  | bytes data =>
    have hhash : (if b.hasOutboard = true ∧ BlobFiles.outboardThreshold ≤ data.length then
        env.computeOutboard data else (env.blake3 data, none)).1 = env.blake3 data := by
      split
      · exact law data
      · rfl
    exact hg.sameBlobs (sameBlobs_putOutboard env b _ _) hhash rfl fun _ hp => by cases hp
  | stream chunks =>
    obtain ⟨hwritten, hhashed⟩ := collect_spec chunks [] none (Nat.lt_succ_self chunks.length)
    refine stepped_staged _ (congrArg List.flatten hwritten) ?_ rfl rfl
    exact congrArg env.blake3 hhashed
  | file chunks =>
    obtain ⟨hwritten, hhashed⟩ := collect_spec chunks [] none (Nat.lt_succ_self chunks.length)
    have hhash : ∀ bytes, (if b.hasOutboard = true then env.computeOutboard bytes
        else (env.blake3 bytes, none)).1 = env.blake3 bytes := by
      intro bytes
      split
      · exact law bytes
      · rfl
    refine stepped_staged _ (congrArg List.flatten hwritten) ⟨?_, rfl⟩ rfl rfl
    exact (hhash _).trans (congrArg env.blake3 hhashed)

/-- **One step of an import.** -/
theorem step_spec (law : env.Lawful) (hg : Going env b c) :
    Stepped env c b (c.step env b).1 (c.step env b).2 := by
  obtain ⟨uuid, source, phase⟩ := c
  have hright := hg.right
  have htemp := hg.temp
  cases phase with
  | start => exact step_start law hg
  | look hash obao =>
    obtain rfl : hash = env.blake3 source.data := hright
    by_cases hthere : b.store.contains (blobPath env (env.blake3 source.data) b.store.features) = true
    · have hstep : step env b ⟨uuid, source, .look (env.blake3 source.data) obao⟩ =
          (b, .finished (.ok ⟨env.blake3 source.data, source.data.length⟩)) := if_pos hthere
      rw [hstep]
      exact hg.sameBlobs (.refl b) rfl rfl fun _ _ => (contains_iff _ _).1 hthere
    · have hstep : step env b ⟨uuid, source, .look (env.blake3 source.data) obao⟩ =
          (b, .put (env.blake3 source.data) obao) := if_neg hthere
      rw [hstep]
      exact hg.sameBlobs (.refl b) rfl rfl fun _ hp => by cases hp
  | put hash obao =>
    obtain rfl : hash = env.blake3 source.data := hright
    by_cases hr : b.store.features.supportsRename = true
    · have hstep : step env b ⟨uuid, source, .put (env.blake3 source.data) obao⟩ =
          ({ b with store := b.store.putStream (Store.tempPath uuid) [source.data] },
            .finalize (env.blake3 source.data) source.data.length obao) := if_pos hr
      rw [hstep]
      exact stepped_staged _ List.flatten_singleton ⟨rfl, rfl⟩ rfl rfl
    · have hstep : step env b ⟨uuid, source, .put (env.blake3 source.data) obao⟩ =
          ({ b with
            store := b.store.putBytes (blobPath env (env.blake3 source.data) b.store.features)
              source.data },
            .finished (.ok ⟨env.blake3 source.data, source.data.length⟩)) := if_neg hr
      rw [hstep]
      exact hg.blobPut rfl rfl
  | measure hash =>
    obtain rfl : hash = env.blake3 source.data := hright
    have hsize : b.store.size (Store.tempPath uuid) = .ok source.data.length := by
      simp only [Store.size, show b.store.object (Store.tempPath uuid) = some source.data from htemp]
    have hstep : step env b ⟨uuid, source, .measure (env.blake3 source.data)⟩ =
        (b, .reread (env.blake3 source.data) source.data.length) := by simp [step, tempPath, hsize]
    rw [hstep]
    exact hg.sameBlobs (.refl b) ⟨rfl, rfl⟩ rfl fun _ hp => by cases hp
  | reread hash size =>
    obtain ⟨rfl, rfl⟩ : hash = env.blake3 source.data ∧ size = source.data.length := hright
    obtain ⟨outboard, hread⟩ := computeFromStore_spec law htemp
    have hstep : step env b ⟨uuid, source, .reread (env.blake3 source.data) source.data.length⟩ =
        (b, .finalize (env.blake3 source.data) source.data.length outboard) := by
      simp [step, hread]
    rw [hstep]
    exact hg.sameBlobs (.refl b) ⟨rfl, rfl⟩ rfl fun _ hp => by cases hp
  | finalize hash size outboard =>
    exact hg.sameBlobs (sameBlobs_putOutboard env b hash outboard) hright rfl fun _ hp => by cases hp
  | check hash size =>
    obtain ⟨rfl, rfl⟩ : hash = env.blake3 source.data ∧ size = source.data.length := hright
    by_cases hthere : b.store.contains (blobPath env (env.blake3 source.data) b.store.features) = true
    · have hstep : step env b ⟨uuid, source, .check (env.blake3 source.data) source.data.length⟩ =
          (b, .discard (env.blake3 source.data) source.data.length) := if_pos hthere
      rw [hstep]
      exact hg.sameBlobs (.refl b) ⟨rfl, rfl⟩ rfl fun _ _ => (contains_iff _ _).1 hthere
    · have hstep : step env b ⟨uuid, source, .check (env.blake3 source.data) source.data.length⟩ =
          (b, .move (env.blake3 source.data) source.data.length) := if_neg hthere
      rw [hstep]
      exact hg.sameBlobs (.refl b) ⟨rfl, rfl⟩ rfl fun _ hp => by cases hp
  | move hash size =>
    obtain ⟨rfl, rfl⟩ : hash = env.blake3 source.data ∧ size = source.data.length := hright
    have htemp : b.store.object (Store.tempPath uuid) = some source.data := htemp
    by_cases hr : b.store.features.supportsRename = true
    · have hstep : step env b ⟨uuid, source, .move (env.blake3 source.data) source.data.length⟩ =
          ({ b with
            store := (b.store.delete (Store.tempPath uuid)).putBytes
              (blobPath env (env.blake3 source.data) b.store.features) source.data },
            .finished (.ok ⟨env.blake3 source.data, source.data.length⟩)) := by
        simp [step, tempPath, hr, Store.rename, htemp]
      rw [hstep]
      exact stepped_rename _ rfl rfl
    · have hstep : step env b ⟨uuid, source, .move (env.blake3 source.data) source.data.length⟩ =
          (b, .copy (env.blake3 source.data) source.data.length [source.data]) := by
        simp [step, tempPath, hr, Store.openReadStream, Store.openReadBytes_zero_none, htemp, Except.map]
      rw [hstep]
      exact hg.sameBlobs (.refl b) ⟨⟨rfl, rfl⟩, List.flatten_singleton⟩ rfl fun _ hp => by cases hp
  | copy hash size chunks =>
    obtain ⟨⟨rfl, rfl⟩, hdata⟩ :
      (hash = env.blake3 source.data ∧ size = source.data.length) ∧ chunks.flatten = source.data := hright
    have hstep : step env b ⟨uuid, source, .copy (env.blake3 source.data) source.data.length chunks⟩ =
        ({ b with
          store := b.store.putBytes (blobPath env (env.blake3 source.data) b.store.features)
            source.data },
          .discard (env.blake3 source.data) source.data.length) := by
      simp [step, Store.putStream, hdata]
    rw [hstep]
    exact hg.blobPut ⟨rfl, rfl⟩ rfl
  | discard hash size =>
    obtain ⟨rfl, rfl⟩ : hash = env.blake3 source.data ∧ size = source.data.length := hright
    exact stepped_discard _ rfl rfl rfl
  | finished res => exact hg.sameBlobs (.refl b) hright rfl fun hc hp => hc hp

end Import

/-- At most this many steps are left. -/
def ImportPhase.rank : ImportPhase → Nat
  | .start => 8
  | .look _ _ | .measure _ => 7
  | .put _ _ | .reread _ _ => 6
  | .finalize _ _ _ => 5
  | .check _ _ => 4
  | .move _ _ => 3
  | .copy _ _ _ => 2
  | .discard _ _ => 1
  | .finished _ => 0

variable (env) in
theorem Import.rank_step (b : BlobFiles) (c : Import) : (c.step env b).2.rank ≤ c.phase.rank - 1 := by
  obtain ⟨uuid, source, phase⟩ := c
  unfold Import.step
  cases phase with
  | start =>
    unfold Import.begin
    cases source <;> simp [ImportPhase.rank]
  | look hash obao => dsimp only; split <;> simp [ImportPhase.rank]
  | put hash obao => dsimp only; split <;> simp [ImportPhase.rank]
  | measure hash => dsimp only; split <;> simp [ImportPhase.rank]
  | reread hash size => dsimp only; split <;> simp [ImportPhase.rank]
  | check hash size => dsimp only; split <;> simp [ImportPhase.rank]
  | move hash size =>
    dsimp only
    split
    · split <;> simp [ImportPhase.rank]
    · split <;> simp [ImportPhase.rank]
  | finalize | copy | discard | finished => simp [ImportPhase.rank]

variable (env) in
theorem BlobFiles.object_delete (b : BlobFiles) (h : Hash) :
    (b.delete env h).store.features = b.store.features ∧
      ∀ path, ¬ Under "obao6/" path → (b.delete env h).store.object path =
        if path = blobPath env h b.store.features then none else b.store.object path := by
  unfold BlobFiles.delete
  cases b.outboard with
  | none => exact ⟨rfl, fun path _ => Store.object_delete path⟩
  | separate o => exact ⟨rfl, fun path _ => Store.object_delete path⟩
  | shared =>
    refine ⟨rfl, fun path hp => ?_⟩
    have hne : path ≠ obao6Path env h b.store.features := by
      rintro rfl
      exact hp (under_obao6Path env h _)
    dsimp only
    rw [Store.object_delete, Store.delete_features, if_neg hne, Store.object_delete]

/-! ## Runs -/

namespace Imports

variable {s : Imports} {held : Bytes → Prop} {e : ImportEvent} {k : Hash}

/-- Every UUID is a new one. -/
def Fresh (s : Imports) : ImportEvent → Prop
  | .begin uuid _ => uuid ∉ s.calls.map (·.uuid)
  | _ => True

/-- The data that an event brings. -/
def Brings (held : Bytes → Prop) : ImportEvent → Prop
  | .begin _ source => held source.data
  | _ => True

/-- Every object under `blob3/` is at the path of its hash, and a temporary object belongs to an import
that is going on. -/
structure Inv (env : BlobEncoding) (held : Bytes → Prop) (s : Imports) : Prop where
  hashed : ∀ path bytes, Under "blob3/" path → s.files.store.object path = some bytes →
    path = blobPath env (env.blake3 bytes) s.files.store.features
  allHeld : AllHeld held s.files
  going : ∀ c ∈ s.calls, c.Going env s.files ∧ held c.source.data
  temps : ∀ path, Under ".tmp/" path → (∀ uuid ∈ s.calls.map (·.uuid), path ≠ Store.tempPath uuid) →
    s.files.store.object path = none
  uuids : (s.calls.map (·.uuid)).Nodup

theorem tempPath_injective : Function.Injective Store.tempPath := by
  intro a b h
  have hlist := congrArg String.toList h
  simp only [Store.tempPath, String.toList_append, List.append_cancel_left_eq] at hlist
  exact String.toList_injective hlist

theorem inv_idle (ha : Addressed env b) (hheld : AllHeld held b) : Inv env held (idle b) where
  hashed := ha.hashed
  allHeld := hheld
  going _ hc := absurd hc List.not_mem_nil
  temps path hp _ := ha.temps path hp
  uuids := List.nodup_nil

/-- The imports keep their UUIDs. -/
theorem uuids_set {calls : List Import} {i : Nat} {c : Import} (hc : calls[i]? = some c)
    (p : ImportPhase) :
    (calls.set i { c with phase := p }).map (·.uuid) = calls.map (·.uuid) := by
  apply List.ext_getElem?
  intro j
  rw [List.map_set, List.getElem?_set]
  split
  · subst j
    obtain ⟨hi, rfl⟩ := List.getElem?_eq_some_iff.1 hc
    simp [hi]
  · rfl

/-- Another import has another temporary object. -/
theorem Inv.tempPath_ne (h : Inv env held s) {i j : Nat} {c c' : Import} (hc : s.calls[i]? = some c)
    (hc' : s.calls[j]? = some c') (hne : i ≠ j) : c'.tempPath ≠ c.tempPath := by
  intro he
  have huuid : c'.uuid = c.uuid := tempPath_injective he
  have hi : (s.calls.map (·.uuid))[i]? = some c.uuid := by rw [List.getElem?_map, hc]; rfl
  have hj : (s.calls.map (·.uuid))[j]? = some c'.uuid := by rw [List.getElem?_map, hc']; rfl
  obtain ⟨hlt, -⟩ := List.getElem?_eq_some_iff.1 hi
  apply hne
  apply (List.getElem?_inj hlt h.uuids).1
  rw [hi, hj, huuid]

theorem inv_begin (h : Inv env held s) {uuid : String} {source : ImportSource}
    (hf : uuid ∉ s.calls.map (·.uuid)) (hb : held source.data) :
    Inv env held (s.step env (.begin uuid source)) := by
  unfold step
  refine ⟨h.hashed, h.allHeld, fun c hc => ?_, fun path hp hne => h.temps path hp fun u hu => ?_, ?_⟩
  · rcases List.mem_append.1 hc with hc | hc
    · exact h.going c hc
    · obtain rfl := List.mem_singleton.1 hc
      refine ⟨⟨trivial, ?_⟩, hb⟩
      apply h.temps _ (under_tempPath uuid)
      intro u hu he
      apply hf
      rwa [tempPath_injective he]
  · apply hne u
    rw [List.map_append]
    exact List.mem_append_left _ hu
  · rw [List.map_append, List.map_singleton, List.nodup_append]
    refine ⟨h.uuids, List.nodup_singleton _, fun u hu v hv huv => hf ?_⟩
    obtain rfl : v = uuid := List.mem_singleton.1 hv
    rwa [← huv]

theorem inv_run (law : env.Lawful) (h : Inv env held s) (i : Nat) :
    Inv env held (s.step env (.run i)) := by
  unfold step
  dsimp only
  cases hc : s.calls[i]? with
  | none => exact h
  | some c =>
    have hmem := List.mem_of_getElem? hc
    have hst := Import.step_spec law (h.going c hmem).1
    dsimp only
    generalize c.step env s.files = out at hst
    obtain ⟨files, p⟩ := out
    refine ⟨fun path bytes hp ho => ?_, fun path bytes hp ho => ?_, fun c' hc' => ?_,
      fun path hp hne => ?_, ?_⟩
    · rw [hst.features]
      rcases hst.blobs path hp with hsame | ⟨hpath, hdata⟩
      · exact h.hashed path bytes hp (hsame.symm.trans ho)
      · rw [hdata] at ho
        rw [hpath, ← Option.some.inj ho]
        rfl
    · rcases hst.blobs path hp with hsame | ⟨hpath, hdata⟩
      · exact h.allHeld path bytes hp (hsame.symm.trans ho)
      · rw [hdata] at ho
        rw [← Option.some.inj ho]
        exact (h.going c hmem).2
    · obtain ⟨j, hj⟩ := List.mem_iff_getElem?.1 hc'
      rw [List.getElem?_set] at hj
      split at hj
      · split at hj
        · obtain rfl := Option.some.inj hj
          exact ⟨hst.going, (h.going c hmem).2⟩
        · cases hj
      · rename_i hne
        obtain ⟨hgoing, hheld⟩ := h.going c' (List.mem_of_getElem? hj)
        refine ⟨⟨hgoing.right, ?_⟩, hheld⟩
        rw [hst.temps _ c'.under_tempPath (h.tempPath_ne hc hj hne)]
        exact hgoing.temp
    · rw [uuids_set hc] at hne
      have hother : path ≠ c.tempPath := hne c.uuid (List.mem_map_of_mem hmem)
      rw [hst.temps path hp hother]
      exact h.temps path hp hne
    · rw [uuids_set hc]
      exact h.uuids

theorem inv_delete (h : Inv env held s) (k : Hash) : Inv env held (s.step env (.delete k)) := by
  obtain ⟨hfeatures, hobject⟩ := s.files.object_delete env k
  have hblob : ∀ path bytes, Under "blob3/" path →
      (s.files.delete env k).store.object path = some bytes → s.files.store.object path = some bytes := by
    intro path bytes hp ho
    rw [hobject path fun hp' => ne_of_under hp hp' (by decide) (by decide) rfl] at ho
    split at ho
    · cases ho
    · exact ho
  have htemp : ∀ path, Under ".tmp/" path →
      (s.files.delete env k).store.object path = s.files.store.object path := by
    intro path hp
    rw [hobject path fun hp' => ne_of_under hp hp' (by decide) (by decide) rfl,
      if_neg (ne_of_under hp (under_blobPath env k _) (by decide) (by decide))]
  refine ⟨fun path bytes hp ho => ?_, fun path bytes hp ho => ?_, fun c hc => ?_, fun path hp hne => ?_,
    h.uuids⟩
  · exact (h.hashed path bytes hp (hblob path bytes hp ho)).trans (congrArg _ hfeatures.symm)
  · exact h.allHeld path bytes hp (hblob path bytes hp ho)
  · obtain ⟨hgoing, hheld⟩ := h.going c hc
    exact ⟨⟨hgoing.right, (htemp _ c.under_tempPath).trans hgoing.temp⟩, hheld⟩
  · exact (htemp path hp).trans (h.temps path hp hne)

/-- **One event.** -/
theorem inv_step (law : env.Lawful) (h : Inv env held s) (hf : Fresh s e) (hb : Brings held e) :
    Inv env held (s.step env e) := by
  cases e with
  | begin uuid source => exact inv_begin h hf hb
  | run i => exact inv_run law h i
  | delete k => exact inv_delete h k

/-- A blob stays until it is deleted. -/
theorem blob_stays (law : env.Lawful) (h : Inv env held s) (hd : e ≠ .delete k)
    (hb : s.files.blob env k ≠ none) : (s.step env e).files.blob env k ≠ none := by
  have hunder := under_blobPath env k s.files.store.features
  cases e with
  | begin uuid source => exact hb
  | run i =>
    unfold step
    dsimp only
    cases hc : s.calls[i]? with
    | none => exact hb
    | some c =>
      have hst := Import.step_spec law (h.going c (List.mem_of_getElem? hc)).1
      dsimp only
      generalize c.step env s.files = out at hst
      obtain ⟨files, p⟩ := out
      unfold BlobFiles.blob at hb ⊢
      rw [hst.features]
      rcases hst.blobs _ hunder with hsame | ⟨-, hdata⟩
      · rwa [hsame]
      · rw [hdata]
        exact Option.some_ne_none _
  | delete j =>
    obtain ⟨hfeatures, hobject⟩ := s.files.object_delete env j
    have hpath : blobPath env k s.files.store.features ≠ blobPath env j s.files.store.features :=
      fun he => hd (congrArg ImportEvent.delete (blobPath_injective env _ he).symm)
    unfold step
    unfold BlobFiles.blob at hb ⊢
    rw [hfeatures, hobject _ fun hp => ne_of_under hunder hp (by decide) (by decide) rfl, if_neg hpath]
    exact hb

/-- The import `i` takes a step. -/
def runs (i : Nat) : ImportEvent → Bool
  | .run j => j == i
  | _ => false

/-- The import `i` after `n` steps of its own; `kept` says that its blob has not been deleted. -/
def Tracks (env : BlobEncoding) (i : Nat) (uuid : String) (source : ImportSource) (n : Nat)
    (kept : Prop) (s : Imports) : Prop :=
  ∃ p, s.calls[i]? = some ⟨uuid, source, p⟩ ∧ p.rank ≤ 8 - n ∧
    (kept → p.stored = true → s.files.blob env (env.blake3 source.data) ≠ none)

section
variable {i n : Nat} {uuid : String} {source : ImportSource} {kept kept' : Prop}

theorem tracks_begin (s : Imports) (uuid : String) (source : ImportSource) (kept : Prop) :
    Tracks env s.calls.length uuid source 0 kept (s.step env (.begin uuid source)) := by
  refine ⟨.start, ?_, Nat.le_refl 8, fun _ hp => by cases hp⟩
  unfold step
  dsimp only
  rw [List.getElem?_append_right (Nat.le_refl _), Nat.sub_self]
  rfl

theorem tracks_step (law : env.Lawful) (h : Inv env held s) (ht : Tracks env i uuid source n kept s) :
    Tracks env i uuid source (n + if runs i e then 1 else 0)
      (kept ∧ e ≠ .delete (env.blake3 source.data)) (s.step env e) := by
  obtain ⟨p, hp, hrank, hstored⟩ := ht
  have hstays : kept ∧ e ≠ .delete (env.blake3 source.data) → p.stored = true →
      (s.step env e).files.blob env (env.blake3 source.data) ≠ none :=
    fun hk hp' => blob_stays law h hk.2 (hstored hk.1 hp')
  obtain ⟨hlt, -⟩ := List.getElem?_eq_some_iff.1 hp
  cases e with
  | delete k => exact ⟨p, hp, hrank, hstays⟩
  | begin uuid' source' =>
    refine ⟨p, ?_, hrank, hstays⟩
    unfold step
    dsimp only
    rw [List.getElem?_append_left hlt]
    exact hp
  | run j =>
    by_cases hne : j = i
    · subst hne
      have hst := Import.step_spec law (h.going _ (List.mem_of_getElem? hp)).1
      have hless := (⟨uuid, source, p⟩ : Import).rank_step env s.files
      unfold step
      dsimp only at hless ⊢
      rw [hp]
      have hruns : runs j (.run j) = true := beq_self_eq_true j
      refine ⟨_, List.getElem?_set_self hlt, ?_, fun hk => hst.stored (hstored hk.1)⟩
      rw [hruns, if_pos rfl]
      omega
    · have hruns : runs i (.run j) = false := by
        unfold runs
        rwa [beq_eq_false_iff_ne]
      rw [hruns, if_neg Bool.false_ne_true]
      refine ⟨p, ?_, hrank, hstays⟩
      unfold step
      dsimp only
      cases hc : s.calls[j]? with
      | none => exact hp
      | some c =>
        dsimp only
        rw [List.getElem?_set_ne hne]
        exact hp

theorem Tracks.mono {m : Nat} (ht : Tracks env i uuid source n kept s) (hm : m ≤ n)
    (hk : kept' → kept) : Tracks env i uuid source m kept' s := by
  obtain ⟨p, hp, hrank, hstored⟩ := ht
  exact ⟨p, hp, by omega, fun hkept => hstored (hk hkept)⟩

theorem tracks_mid (law : env.Lawful) {mid : List ImportEvent} (h : Inv env held s)
    (ht : Tracks env i uuid source n kept s)
    (hsteps : Run.Steps (step env) (fun s e => Fresh s e ∧ Brings held e) s mid) :
    Tracks env i uuid source (n + mid.countP (runs i))
      (kept ∧ .delete (env.blake3 source.data) ∉ mid) (mid.foldl (step env) s) := by
  induction mid generalizing s n kept with
  | nil => exact ht.mono (Nat.le_refl n) And.left
  | cons e mid ih =>
    obtain ⟨⟨hf, hb⟩, hrest⟩ := Run.steps_cons.1 hsteps
    have hnext := ih (inv_step law h hf hb) (tracks_step law h ht) hrest
    rw [List.countP_cons, List.foldl_cons, Nat.add_comm (mid.countP (runs i)), ← Nat.add_assoc]
    refine hnext.mono (Nat.le_refl _) fun hk => ?_
    rw [List.mem_cons, not_or] at hk
    exact ⟨⟨hk.1, Ne.symm hk.2.1⟩, hk.2.2⟩

end

/-- The data that are stored at the start or imported in the run. -/
def Held (b : BlobFiles) (events : List ImportEvent) (data : Bytes) : Prop :=
  (∃ path, Under "blob3/" path ∧ b.store.object path = some data) ∨
    ∃ uuid source, .begin uuid source ∈ events ∧ source.data = data

/-- What can be seen of a blob store while imports are going on. -/
structure Sound (env : BlobEncoding) (s : Imports) : Prop where
  hashed : ∀ path bytes, Under "blob3/" path → s.files.store.object path = some bytes →
    path = blobPath env (env.blake3 bytes) s.files.store.features
  answers : ∀ c ∈ s.calls, ∀ res, c.phase = .finished res →
    res = .ok ⟨env.blake3 c.source.data, c.source.data.length⟩
  /-- A temporary object is that of an import that has not finished. -/
  temps : ∀ path, Under ".tmp/" path → s.files.store.object path ≠ none →
    ∃ c ∈ s.calls, path = c.tempPath ∧ ∀ res, c.phase ≠ .finished res

theorem Inv.sound (h : Inv env held s) : Sound env s := by
  refine ⟨h.hashed, fun c hc res hres => ?_, fun path hp ho => ?_⟩
  · have hright := (h.going c hc).1.right
    rw [hres] at hright
    exact hright
  · by_cases hown : ∀ uuid ∈ s.calls.map (·.uuid), path ≠ Store.tempPath uuid
    · exact absurd (h.temps path hp hown) ho
    · push Not at hown
      obtain ⟨uuid, huuid, rfl⟩ := hown
      obtain ⟨c, hc, rfl⟩ := List.mem_map.1 huuid
      refine ⟨c, hc, rfl, fun res hres => ho ?_⟩
      have htemp := (h.going c hc).1.temp
      rw [hres] at htemp
      exact htemp

/-- An import has answered with the hash and the length of its data. -/
def Answered (env : BlobEncoding) (s : Imports) (uuid : String) (source : ImportSource) : Prop :=
  ⟨uuid, source, .finished (.ok ⟨env.blake3 source.data, source.data.length⟩)⟩ ∈ s.calls

/-- The data of an import can be read, in slices. -/
def Readable (env : BlobEncoding) (s : Imports) (source : ImportSource) : Prop :=
  ∀ offset maxLen, s.files.readAsBytes env (env.blake3 source.data) offset maxLen =
    .ok (Store.slice source.data offset maxLen)

theorem Tracks.imported (h : Inv env held s) {i n : Nat} {uuid : String} {source : ImportSource}
    {kept : Prop} (ht : Tracks env i uuid source n kept s) (hn : 8 ≤ n)
    (hcol : ∀ bytes, held bytes → env.blake3 source.data = env.blake3 bytes → source.data = bytes) :
    Answered env s uuid source ∧ (kept → Readable env s source) := by
  obtain ⟨p, hp, hrank, hstored⟩ := ht
  obtain ⟨res, rfl⟩ : ∃ res, p = .finished res := by
    cases p with
    | finished res => exact ⟨res, rfl⟩
    | _ => simp only [ImportPhase.rank] at hrank; omega
  have hmem := List.mem_of_getElem? hp
  obtain rfl : res = .ok ⟨env.blake3 source.data, source.data.length⟩ := (h.going _ hmem).1.right
  refine ⟨hmem, fun hkept offset maxLen => ?_⟩
  obtain ⟨bytes, hbytes⟩ := Option.ne_none_iff_exists'.1 (hstored hkept rfl)
  have hpath := h.hashed _ bytes (under_blobPath env _ _) hbytes
  obtain rfl := hcol bytes (h.allHeld _ bytes (under_blobPath env _ _) hbytes)
    (blobPath_injective env _ hpath)
  unfold BlobFiles.blob at hbytes
  unfold BlobFiles.readAsBytes Store.openReadBytes
  rw [hbytes]

/-- **Imports that run at the same time do not harm each other**: whatever the order of their steps and
of the deletes, every object under `blob3/` is at the path of its hash, no import fails and a finished
one has left no temporary object; and an import that has had its steps has answered, and its data can be
read if their blob has not been deleted since it was begun. -/
theorem concurrent_imports (env : BlobEncoding) (law : env.Lawful) (b : BlobFiles)
    (ha : Addressed env b) (events : List ImportEvent)
    (hcol : ∀ x y, Held b events x → Held b events y → env.blake3 x = env.blake3 y → x = y)
    (hfresh : Run.Steps (step env) Fresh (idle b) events) :
    Run.Always (step env) (Sound env) (idle b) events ∧
      ∀ pre uuid source mid, pre ++ .begin uuid source :: mid <+: events →
        8 ≤ mid.countP (runs (pre.foldl (step env) (idle b)).calls.length) →
        Answered env ((pre ++ .begin uuid source :: mid).foldl (step env) (idle b)) uuid source ∧
          (.delete (env.blake3 source.data) ∉ mid →
            Readable env ((pre ++ .begin uuid source :: mid).foldl (step env) (idle b)) source) := by
  have hsteps : Run.Steps (step env) (fun s e => Fresh s e ∧ Brings (Held b events) e) (idle b)
      events := by
    intro pre e hp
    refine ⟨hfresh pre e hp, ?_⟩
    have hmem : e ∈ events := hp.subset (List.mem_append_right _ (List.mem_singleton_self e))
    cases e with
    | begin uuid source => exact .inr ⟨uuid, source, hmem, rfl⟩
    | run i => trivial
    | delete k => trivial
  have hinv : Run.Always (step env) (Inv env (Held b events)) (idle b) events :=
    Run.always_of_steps (fun s e h he => inv_step law h he.1 he.2)
      (inv_idle ha fun path data hp ho => .inl ⟨path, hp, ho⟩) hsteps
  refine ⟨fun pre hp => (hinv pre hp).sound, fun pre uuid source mid hp hn => ?_⟩
  have hheld : Held b events source.data :=
    .inr ⟨uuid, source, hp.subset (List.mem_append_right _ List.mem_cons_self), rfl⟩
  have hmid : Run.Steps (step env) (fun s e => Fresh s e ∧ Brings (Held b events) e)
      ((pre.foldl (step env) (idle b)).step env (.begin uuid source)) mid := by
    intro p e hpe
    have hnext := hsteps (pre ++ .begin uuid source :: p) e ?_
    · rwa [List.foldl_append, List.foldl_cons] at hnext
    · rw [List.append_assoc, List.cons_append]
      exact ((List.prefix_append_right_inj pre).2 ((List.prefix_cons_inj _).2 hpe)).trans hp
  have hbegun := hinv (pre ++ [.begin uuid source])
    (((List.prefix_append_right_inj pre).2 ((List.prefix_cons_inj _).2 List.nil_prefix)).trans hp)
  rw [List.foldl_append, List.foldl_cons, List.foldl_nil] at hbegun
  have htracks := tracks_mid law hbegun (tracks_begin _ uuid source True) hmid
  rw [Nat.zero_add, true_and] at htracks
  have hend := hinv (pre ++ .begin uuid source :: mid) hp
  rw [List.foldl_append, List.foldl_cons] at hend ⊢
  exact htracks.imported hend hn fun bytes hbytes he => hcol _ _ hheld hbytes he

/-- Three imports take turns. -/
def turns : List ImportEvent := (List.replicate 8 [.run 0, .run 1, .run 2]).flatten

theorem mem_turns (he : e ∈ turns) : ∃ i, e = .run i := by
  obtain ⟨l, hl, he⟩ := List.mem_flatten.1 he
  obtain ⟨-, rfl⟩ := List.mem_replicate.1 hl
  simp only [List.mem_cons, List.not_mem_nil, or_false] at he
  rcases he with rfl | rfl | rfl
  · exact ⟨0, rfl⟩
  · exact ⟨1, rfl⟩
  · exact ⟨2, rfl⟩

/-- Three imports into a store that holds a blob, which is deleted; two have the same data. -/
def threeImports : List ImportEvent :=
  .begin "0" (.bytes [1, 2, 3]) :: .begin "1" (.stream [[1], [2, 3]]) :: .begin "2" (.file [[1, 2]]) ::
    .delete (shortBlake3 [4, 5]) :: turns

theorem fresh_threeImports : Run.Steps (step base64Encoding) Fresh (idle (storeOf [[4, 5]]))
    threeImports := by
  refine Run.steps_cons.2 ⟨List.not_mem_nil, Run.steps_cons.2 ⟨?_, Run.steps_cons.2 ⟨?_,
    Run.steps_cons.2 ⟨trivial, fun pre e hp => ?_⟩⟩⟩⟩
  · show "1" ∉ ["0"]
    decide
  · show "2" ∉ ["0", "1"]
    decide
  · obtain ⟨i, rfl⟩ := mem_turns (hp.subset (List.mem_append_right _ (List.mem_singleton_self e)))
    trivial

theorem held_threeImports (h : Held (storeOf [[4, 5]]) threeImports data) :
    data ∈ shortHashes.map (·.1) := by
  rcases h with ⟨path, -, ho⟩ | ⟨uuid, source, he, rfl⟩
  · obtain rfl := List.mem_singleton.1 (mem_of_object_storeOf ho)
    decide
  · rcases he with _ | ⟨_, _ | ⟨_, _ | ⟨_, _ | ⟨_, he⟩⟩⟩⟩
    · decide
    · decide
    · decide
    · obtain ⟨i, hi⟩ := mem_turns he
      cases hi

/-- The second import finds the blob of the first one in its place, and its data can be read. -/
theorem concurrent_imports_threeImports :
    Run.Always (step base64Encoding) (Sound base64Encoding) (idle (storeOf [[4, 5]])) threeImports ∧
      Answered base64Encoding (threeImports.foldl (step base64Encoding) (idle (storeOf [[4, 5]]))) "1"
        (.stream [[1], [2, 3]]) ∧
      Readable base64Encoding (threeImports.foldl (step base64Encoding) (idle (storeOf [[4, 5]])))
        (.stream [[1], [2, 3]]) := by
  have hrun := concurrent_imports base64Encoding (fun _ => rfl) (storeOf [[4, 5]])
    (addressed_storeOf _) threeImports (fun x y hx hy =>
      shortBlake3_injective x (held_threeImports hx) y (held_threeImports hy)) fresh_threeImports
  obtain ⟨hanswered, hread⟩ := hrun.2 [.begin "0" (.bytes [1, 2, 3])] "1" (.stream [[1], [2, 3]])
    (.begin "2" (.file [[1, 2]]) :: .delete (shortBlake3 [4, 5]) :: turns) List.prefix_rfl (by decide)
  refine ⟨hrun.1, hanswered, hread fun hd => ?_⟩
  rcases hd with _ | ⟨_, hd⟩
  rcases List.mem_cons.1 hd with hd | hd
  · exact absurd (ImportEvent.delete.inj hd) (by decide +kernel)
  · obtain ⟨i, hi⟩ := mem_turns hd
    cases hi

end Imports

end Blobs
