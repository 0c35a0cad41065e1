import S5.Node.Proof.Flat
import S5.Lib.Gossip
import S5.Lib.Run

/-!
# Nodes come to agree

The nodes of `S5.Node.Replicas` are replicas of a join semilattice, the timestamps under each name,
that gossip over the registry (`view`). A node may publish a state in which what others have published
in the meantime is missing, but its own file system keeps it, and its next tick brings it back.

* `step_moves`: each step of a node is an act of the gossip, or does not show.
* `replicas_never_regress`: no node ever goes back to an older entry.
* `replicas_converge`: after two undisturbed ticks of each, every node has the latest entries.
* `turn_eq_tick`: such a tick is one of `run_file_sync`.
-/

open Std

namespace Node

open Fs Actor

variable {β ι : Type} [DecidableEq β] [DecidableEq ι] {env : Env β} {keys : SyncKeys}
  {W W' : String → FileRef → Prop} {k k' : Nat} {w w' : World β}

/-! ## The cloud -/

/-- The cloud only grows, apart from its registry. -/
structure Later (w w' : World β) : Prop where
  store : ∀ (h : Hash) (b : β), w.store[h]? = some b → w'.store[h]? = some b
  tick : w.tick ≤ w'.tick
  collided : w'.collided = false → w.collided = false

omit [DecidableEq β] in
theorem Later.refl (w : World β) : Later w w := ⟨fun _ _ h => h, Nat.le_refl _, fun h => h⟩

omit [DecidableEq β] in
theorem later_of_onward (h : w.Onward w') : Later w w' := ⟨h.grows.store, h.tick, h.grows.collided⟩

omit [DecidableEq β] in
theorem later_setRegistry (w : World β) (key : Bytes32) (entry : RegistryEntry) :
    Later w (w.setRegistry key entry) := by
  unfold World.setRegistry
  split
  · exact ⟨fun _ _ h => h, Nat.le_refl _, fun h => h⟩
  · exact .refl w

/-- The directory that an entry of the registry leads to. -/
def entryDir (env : Env β) (keys : SyncKeys) (w : World β) : Option RegistryEntry → DirV1
  | some entry =>
    ((w.store[entry.hash]?.bind (env.decrypt keys.encryptionKey)).bind env.fromBytes).getD .new
  | none => .new

/-- One of the first `k` entries, with its sealed directory in the store. -/
structure SoundEntry (env : Env β) (keys : SyncKeys) (W : String → FileRef → Prop) (k : Nat)
    (w : World β) (entry : RegistryEntry) : Prop where
  stored : ∃ nonce d, w.store[entry.hash]? = some (sealed env keys nonce d) ∧ Lists W d
  revision : entry.revision.toNat < k

omit [DecidableEq β] in
theorem entryDir_stored (law : env.Lawful) {entry : RegistryEntry} {nonce : Nonce} {d : DirV1}
    (h : w.store[entry.hash]? = some (sealed env keys nonce d)) :
    entryDir env keys w (some entry) = d := by
  simp [entryDir, h, sealed, law.decrypt_encrypt, law.fromBytes_toBytes]

omit [DecidableEq β] in
theorem stamps_entryDir_none : stamps (entryDir env keys w none) = ⊥ := stamps_new

omit [DecidableEq β] in
theorem SoundEntry.mono {entry : RegistryEntry} (h : SoundEntry env keys W k w entry)
    (hl : Later w w') (hW : ∀ n f, W n f → W' n f) (hk : k ≤ k') :
    SoundEntry env keys W' k' w' entry := by
  obtain ⟨⟨nonce, d, hs, hd⟩, hr⟩ := h
  exact ⟨⟨nonce, d, hl.store _ _ hs, hd.mono hW⟩, Nat.lt_of_lt_of_le hr hk⟩

omit [DecidableEq β] in
/-- What an entry leads to stays what it is. -/
theorem entryDir_later (law : env.Lawful) (hl : Later w w') {entry : Option RegistryEntry}
    (h : ∀ e ∈ entry, SoundEntry env keys W k w e) :
    entryDir env keys w' entry = entryDir env keys w entry := by
  cases entry with
  | none => rfl
  | some e =>
    obtain ⟨nonce, d, hs, -⟩ := (h e rfl).stored
    rw [entryDir_stored law hs, entryDir_stored law (hl.store _ _ hs)]

omit [DecidableEq β] in
/-- The encrypted file system opens on what the registry leads to. -/
theorem isFlat_openEncrypted (law : env.Lawful)
    (hfit : ∀ d, Lists W d → env.len (env.toBytes d) < maxDirBytesBeforeShard)
    (h : ∀ e ∈ w.registry[keys.publicKey]?, SoundEntry env keys W k w e) :
    ∃ a, FS5.openRoot env keys.context w = .ok ⟨w, a, []⟩ ∧ IsFlat W keys.context a ∧
      a.state = entryDir env keys w w.registry[keys.publicKey]? := by
  cases hr : w.registry[keys.publicKey]? with
  | none =>
    have hload : load env keys.context w = .ok (.new, 0) := by
      simp [load, SyncKeys.context, DirContext.newEncryptedRegistry, hr]
    exact isFlat_open hload (lists_new W) (by decide)
  | some e =>
    obtain ⟨nonce, d, hs, hd⟩ := (h e hr).stored
    have hload : load env keys.context w = .ok (d, env.len (env.toBytes d)) := by
      simp [load, SyncKeys.context, DirContext.newEncryptedRegistry, hr, World.readAsBytes, hs,
        decryptIfNeeded, sealed, law.decrypt_encrypt, decodeDir, law.fromBytes_toBytes, bind,
        Except.bind]
    rw [entryDir_stored law hs]
    exact isFlat_open hload hd (hfit d hd)

/-! ## States -/

/-- What clients have made. -/
def SyncState.kind (s : SyncState ι β) (n : String) (f : FileRef) : Prop := (n, f) ∈ s.written

structure SoundNode (env : Env β) (keys : SyncKeys) (W : String → FileRef → Prop) (k : Nat)
    (w : World β) (node : SyncNode β) : Prop where
  plaintext : IsFlat W .localRoot node.plaintext.root
  regs : node.plaintext.registryDirHandles = []
  encrypted : ∀ a ∈ node.encrypted, IsFlat W keys.context a
  pending : ∀ e ∈ node.pending, SoundEntry env keys W k w e

/-- After `k` steps every replica, and all that is under way, is made of what clients have made. -/
structure Sound (env : Env β) (keys : SyncKeys) (k : Nat) (s : SyncState ι β) : Prop where
  nodes : ∀ i, SoundNode env keys s.kind k s.cloud (s.nodes i)
  published : ∀ e ∈ s.cloud.registry[keys.publicKey]?, SoundEntry env keys s.kind k s.cloud e

omit [DecidableEq β] in
theorem SoundNode.mono {node : SyncNode β} (h : SoundNode env keys W k w node) (hl : Later w w')
    (hW : ∀ n f, W n f → W' n f) (hk : k ≤ k') : SoundNode env keys W' k' w' node :=
  ⟨h.plaintext.mono hW, h.regs, fun a ha => (h.encrypted a ha).mono hW,
    fun e he => (h.pending e he).mono hl hW hk⟩

def copyStamps : Option Actor → String → WithBot Nat
  | some a => stamps a.state
  | none => ⊥

/-- The system as replicas of the timestamps. -/
def view (env : Env β) (keys : SyncKeys) (s : SyncState ι β) : Gossip ι (String → WithBot Nat) where
  shared := stamps (entryDir env keys s.cloud s.cloud.registry[keys.publicKey]?)
  value i := stamps (s.nodes i).plaintext.root.state
  copy i := copyStamps (s.nodes i).encrypted
  offer i := stamps (entryDir env keys s.cloud (s.nodes i).pending)

omit [DecidableEq β] in
/-- One node and the cloud have changed. -/
theorem Sound.change {s : SyncState ι β} (h : Sound env keys k s) {cloud : World β}
    {written : List (String × FileRef)} (hl : Later s.cloud cloud) (hw : s.written ⊆ written) (i : ι)
    {node : SyncNode β}
    (hn : SoundNode env keys (fun n f => (n, f) ∈ written) (k + 1) cloud node)
    (hp : ∀ e ∈ cloud.registry[keys.publicKey]?,
      SoundEntry env keys (fun n f => (n, f) ∈ written) (k + 1) cloud e) :
    Sound env keys (k + 1) ⟨cloud, Function.update s.nodes i node, written⟩ := by
  refine ⟨fun j => ?_, hp⟩
  change SoundNode env keys (fun n f => (n, f) ∈ written) (k + 1) cloud
    (Function.update s.nodes i node j)
  by_cases hj : j = i
  · subst hj
    rw [Function.update_self]
    exact hn
  · rw [Function.update_of_ne hj]
    exact (h.nodes j).mono hl (fun n f hf => hw hf) (Nat.le_succ k)

theorem update_map {α γ : Type} (g : α → γ) (f : ι → α) (i : ι) (x : α) :
    (fun j => g (Function.update f i x j)) = Function.update (fun j => g (f j)) i (g x) := by
  funext j
  by_cases hj : j = i
  · subst hj
    rw [Function.update_self, Function.update_self]
  · rw [Function.update_of_ne hj, Function.update_of_ne hj]

omit [DecidableEq β] in
theorem view_change (law : env.Lawful) {s : SyncState ι β} (h : Sound env keys k s) {cloud : World β}
    (hl : Later s.cloud cloud) (i : ι) (node : SyncNode β) (written : List (String × FileRef)) :
    view env keys ⟨cloud, Function.update s.nodes i node, written⟩ =
      { shared := stamps (entryDir env keys cloud cloud.registry[keys.publicKey]?)
        value := Function.update (view env keys s).value i (stamps node.plaintext.root.state)
        copy := Function.update (view env keys s).copy i (copyStamps node.encrypted)
        offer := Function.update (view env keys s).offer i
          (stamps (entryDir env keys cloud node.pending)) } := by
  have hoffer : (fun j => stamps (entryDir env keys cloud (s.nodes j).pending)) =
      (view env keys s).offer := by
    funext j
    change _ = stamps (entryDir env keys s.cloud (s.nodes j).pending)
    rw [entryDir_later law hl (h.nodes j).pending]
  rw [← hoffer]
  change Gossip.mk _ _ _ _ = Gossip.mk _ _ _ _
  congr 1
  · exact update_map (fun n : SyncNode β => stamps n.plaintext.root.state) s.nodes i node
  · exact update_map (fun n : SyncNode β => copyStamps n.encrypted) s.nodes i node
  · exact update_map (fun n : SyncNode β => stamps (entryDir env keys cloud n.pending)) s.nodes i node

omit [DecidableEq β] in
/-- Only the plaintext file system of a node has changed. -/
theorem view_value (law : env.Lawful) {s : SyncState ι β} (h : Sound env keys k s) (i : ι)
    (node : SyncNode β) (written : List (String × FileRef))
    (henc : node.encrypted = (s.nodes i).encrypted) (hpend : node.pending = (s.nodes i).pending) :
    view env keys ⟨s.cloud, Function.update s.nodes i node, written⟩ =
      { view env keys s with
        value := Function.update (view env keys s).value i (stamps node.plaintext.root.state) } := by
  have hcopy : copyStamps node.encrypted = (view env keys s).copy i := by
    rw [henc]
    rfl
  have hoffer : stamps (entryDir env keys s.cloud node.pending) = (view env keys s).offer i := by
    rw [hpend]
    rfl
  rw [view_change law h (.refl s.cloud), hcopy, hoffer, Function.update_eq_self,
    Function.update_eq_self]
  rfl

omit [DecidableEq β] in
theorem view_setPlaintext (law : env.Lawful) {s : SyncState ι β} (h : Sound env keys k s) (i : ι)
    (plaintext : FS5 β) :
    view env keys (s.setNode i { s.nodes i with plaintext }) =
      { view env keys s with
        value := Function.update (view env keys s).value i (stamps plaintext.root.state) } :=
  view_value law h i _ s.written rfl rfl

omit [DecidableEq β] in
theorem view_setEncrypted (law : env.Lawful) {s : SyncState ι β} (h : Sound env keys k s) (i : ι)
    (a : Actor) :
    view env keys (s.setNode i { s.nodes i with encrypted := some a }) =
      { view env keys s with copy := Function.update (view env keys s).copy i (stamps a.state) } := by
  have hvalue : stamps (s.nodes i).plaintext.root.state = (view env keys s).value i := rfl
  have hoffer : stamps (entryDir env keys s.cloud (s.nodes i).pending) =
      (view env keys s).offer i := rfl
  refine (view_change law h (.refl s.cloud) i _ s.written).trans ?_
  dsimp only
  rw [hvalue, hoffer, Function.update_eq_self, Function.update_eq_self]
  rfl

/-! ## Steps -/

variable {order : GroupOrder} {s : SyncState ι β} {i : ι}

omit [DecidableEq β] in
theorem Sound.setNode (h : Sound env keys k s) {node : SyncNode β}
    (hn : SoundNode env keys s.kind (k + 1) s.cloud node) :
    Sound env keys (k + 1) (s.setNode i node) :=
  h.change (.refl s.cloud) (fun _ hx => hx) i hn fun e he =>
    (h.published e he).mono (.refl s.cloud) (fun _ _ hf => hf) (Nat.le_succ k)

omit [DecidableEq β] [DecidableEq ι] in
/-- One step later a node is still sound. -/
theorem Sound.node (h : Sound env keys k s) (i : ι) :
    SoundNode env keys s.kind (k + 1) s.cloud (s.nodes i) :=
  (h.nodes i).mono (.refl s.cloud) (fun _ _ hf => hf) (Nat.le_succ k)

/-- No directory of such files is split. -/
def Fits (env : Env β) (W : String → FileRef → Prop) : Prop :=
  ∀ d, Lists W d → env.len (env.toBytes d) < maxDirBytesBeforeShard

omit [DecidableEq β] [DecidableEq ι] in
theorem Fits.of_written (hfit : Fits env W) (hs : ∀ x ∈ s.written, W x.1 x.2) : Fits env s.kind :=
  fun d hd => hfit d (hd.mono fun n f hf => hs (n, f) hf)

omit [DecidableEq β] [DecidableEq ι] in
theorem kind_congr {s' : SyncState ι β} (hw : s'.written = s.written) : s'.kind = s.kind := by
  unfold SyncState.kind
  rw [hw]

omit [DecidableEq β] [DecidableEq ι] in
theorem copy_some {a : Actor} (ha : (s.nodes i).encrypted = some a) :
    (view env keys s).copy i = stamps a.state := by
  change copyStamps (s.nodes i).encrypted = _
  rw [ha]
  rfl

/-! ### Requests -/

theorem execute_eq_none {now : UInt32 × UInt32} {task : FileTask} {value : Option FileRef}
    (h : task.execute now value = none) : value = none := by
  cases task with
  | put file => cases h
  | delete => exact Option.map_eq_none_iff.1 h
  | get => exact h

/-- A node whose root has handled a task. -/
def SyncNode.handled (env : Env β) (node : SyncNode β) (name : Name) (task : FileTask) : SyncNode β :=
  { node with plaintext :=
    { node.plaintext with
      world := node.plaintext.world.next
      root := node.plaintext.root.fileOpHere task (env.utcNow node.plaintext.world.tick) name.1 } }

theorem step_request (h : Sound env keys k s) (name : Name) (task : FileTask) :
    s.step env order keys (.request i name task) =
      ⟨s.cloud, Function.update s.nodes i ((s.nodes i).handled env name task),
        if (s.nodes i).entryAfter env name task = (s.nodes i).entry name then s.written
        else s.written ++ (((s.nodes i).entryAfter env name task).map (name.1, ·)).toList⟩ := by
  have hreq : stepFs env order ((s.nodes i).plaintext.world, (s.nodes i).plaintext.root)
      (.file name.1 task) = _ := request_flat order (h.nodes i).plaintext name task
  simp only [SyncState.step, FS5.request, hreq, SyncState.setNode, SyncNode.handled]

omit [DecidableEq β] in
/-- A request after which the root holds what clients have made. -/
theorem sound_request (h : Sound env keys k s) {name : Name} {task : FileTask}
    {written : List (String × FileRef)} (hw : s.written ⊆ written)
    (hf : ∀ f ∈ (s.nodes i).entryAfter env name task, (name.1, f) ∈ written) :
    Sound env keys (k + 1)
      ⟨s.cloud, Function.update s.nodes i ((s.nodes i).handled env name task), written⟩ := by
  have hmono : ∀ e, SoundEntry env keys s.kind k s.cloud e →
      SoundEntry env keys (fun n f => (n, f) ∈ written) (k + 1) s.cloud e := fun e he =>
    he.mono (.refl s.cloud) (fun n f hf => hw hf) (Nat.le_succ k)
  have hnode := h.nodes i
  refine h.change (.refl s.cloud) hw i ⟨?_, hnode.regs, fun a ha => ?_, fun e he => ?_⟩ fun e he => ?_
  · exact isFlat_fileOpHere hnode.plaintext (fun n f hf => hw hf) hf
  · exact (hnode.encrypted a ha).mono fun n f hf => hw hf
  · exact hmono e (hnode.pending e he)
  · exact hmono e (h.published e he)

/-- A request makes an entry that is newer than the one before, or leaves that one. -/
theorem request_moves (law : env.Lawful) (h : Sound env keys k s) {name : Name} {task : FileTask}
    (ha : SyncState.Admitted env W s (.request i name task)) (hs : ∀ x ∈ s.written, W x.1 x.2) :
    Sound env keys (k + 1) (s.step env order keys (.request i name task)) ∧
      Gossip.Moves (view env keys s) (latestStamps s.written)
        (view env keys (s.step env order keys (.request i name task)))
        (latestStamps (s.step env order keys (.request i name task)).written) ∧
      ∀ x ∈ (s.step env order keys (.request i name task)).written, W x.1 x.2 := by
  rw [step_request h]
  have hview := fun written =>
    view_value law h i ((s.nodes i).handled env name task) written rfl rfl
  by_cases hsame : (s.nodes i).entryAfter env name task = (s.nodes i).entry name
  · rw [if_pos hsame, hview]
    refine ⟨sound_request h (fun _ hx => hx) fun f hf => ?_, .inl ⟨?_, rfl⟩, hs⟩
    · exact (h.nodes i).plaintext.lists.files _ _ (hsame.symm.trans hf)
    · have hstamps : stamps ((s.nodes i).handled env name task).plaintext.root.state =
          (view env keys s).value i := stamps_fileOpHere_same hsame
      rw [hstamps, Function.update_eq_self]
  · rw [if_neg hsame, hview]
    cases hafter : (s.nodes i).entryAfter env name task with
    | none => exact absurd (hafter.trans (execute_eq_none hafter).symm) hsame
    | some f =>
      obtain ⟨hWf, hnew⟩ := (ha.resolve_left hsame) f hafter
      refine ⟨sound_request h (List.subset_append_left _ _) fun g hg => ?_,
        .inr ⟨.write i (stampOf name.1 f), ?_, latestStamps_concat s.written name.1 f⟩, ?_⟩
      · rw [hafter] at hg
        obtain rfl := Option.some.inj hg
        exact List.mem_append_right _ (List.mem_singleton_self _)
      · have hstamps : stamps ((s.nodes i).handled env name task).plaintext.root.state =
            (view env keys s).value i ⊔ stampOf name.1 f := stamps_fileOpHere hafter hnew
        rw [hstamps]
        rfl
      · intro x hx
        rcases List.mem_append.1 hx with hold | hlast
        · exact hs x hold
        · obtain rfl := List.mem_singleton.1 hlast
          exact hWf

/-! ### Plaintext file systems -/

theorem FS5_save_eq (fs : FS5 β) : (fs.save env).1 =
    { fs with
      world := (saveIfDirty env fs.root fs.world).1
      root := (saveIfDirty env fs.root fs.world).2.1 } := by
  unfold FS5.save
  rcases saveIfDirty env fs.root fs.world with ⟨w, a, e | hash⟩ <;> rfl

variable (order i) in
theorem save_keeps (law : env.Lawful) (h : Sound env keys k s) (hfit : Fits env s.kind) :
    Sound env keys (k + 1) (s.step env order keys (.save i)) ∧
      view env keys (s.step env order keys (.save i)) = view env keys s := by
  have hn := h.node i
  obtain ⟨hflat, hstate⟩ := isFlat_save (w := (s.nodes i).plaintext.world) hn.plaintext rfl
    (hfit _ hn.plaintext.lists)
  have hstep : s.step env order keys (.save i) = s.setNode i
      { s.nodes i with plaintext := ((s.nodes i).plaintext.save env).1 } := rfl
  rw [hstep, FS5_save_eq]
  refine ⟨h.setNode ⟨hflat, hn.regs, hn.encrypted, hn.pending⟩, ?_⟩
  have hvalue : stamps (s.nodes i).plaintext.root.state = (view env keys s).value i := rfl
  rw [view_setPlaintext law h, hstate, hvalue, Function.update_eq_self]

variable (order) in
/-- A pull joins what has been fetched into the node's own files. -/
theorem pull_step (law : env.Lawful) (h : Sound env keys k s) {a : Actor}
    (ha : (s.nodes i).encrypted = some a) :
    Sound env keys (k + 1) (s.step env order keys (.pull i)) ∧
      view env keys (s.step env order keys (.pull i)) = (view env keys s).step (.pull i) ∧
      ((s.step env order keys (.pull i)).nodes i).encrypted = some a := by
  have hn := h.node i
  obtain ⟨root, hmerge, hflat, hstate, -⟩ := isFlat_merge env
    (s.nodes i).plaintext.world hn.plaintext (hn.encrypted a ha).lists
  have hstep : s.step env order keys (.pull i) = s.setNode i
      { s.nodes i with plaintext := { (s.nodes i).plaintext with root } } := by
    simp only [SyncState.step, ha, FS5.mergeFromSnapshot, hmerge]
  rw [hstep]
  refine ⟨h.setNode ⟨hflat, hn.regs, hn.encrypted, hn.pending⟩, ?_, ?_⟩
  · rw [view_setPlaintext law h, hstate, stamps_merge hn.plaintext.lists (hn.encrypted a ha).lists,
      ← copy_some ha]
    rfl
  · change (Function.update s.nodes i _ i).encrypted = _
    rw [Function.update_self]
    exact ha

/-! ### The encrypted root -/

variable (order i) in
/-- Opening fetches what is in the registry. -/
theorem openEncrypted_step (law : env.Lawful) (h : Sound env keys k s) (hfit : Fits env s.kind) :
    Sound env keys (k + 1) (s.step env order keys (.openEncrypted i)) ∧
      view env keys (s.step env order keys (.openEncrypted i)) = (view env keys s).step (.fetch i) ∧
      ∃ a, FS5.openRoot env keys.context s.cloud = .ok ⟨s.cloud, a, []⟩ ∧
        s.step env order keys (.openEncrypted i) =
          s.setNode i { s.nodes i with encrypted := some a } := by
  have hn := h.node i
  obtain ⟨a, hopen, hflat, hstate⟩ := isFlat_openEncrypted law hfit h.published
  have hstep : s.step env order keys (.openEncrypted i) = s.setNode i
      { s.nodes i with encrypted := some a } := by
    simp only [SyncState.step, hopen]
  refine ⟨?_, ?_, a, hopen, hstep⟩
  · rw [hstep]
    refine h.setNode ⟨hn.plaintext, hn.regs, fun b hb => ?_, hn.pending⟩
    obtain rfl := Option.some.inj hb
    exact hflat
  · rw [hstep]
    have hshared : stamps a.state = (view env keys s).shared := congrArg stamps hstate
    rw [view_setEncrypted law h, hshared]
    rfl

variable (order) in
/-- The merge of a push joins the node's own files into what it has fetched. -/
theorem push_step (law : env.Lawful) (h : Sound env keys k s) {a : Actor}
    (ha : (s.nodes i).encrypted = some a) :
    Sound env keys (k + 1) (s.step env order keys (.push i)) ∧
      view env keys (s.step env order keys (.push i)) = (view env keys s).step (.push i) ∧
      ∃ a', mergeSnapshot env s.cloud FS5.shardDepth a (s.nodes i).plaintext.root.state =
          (a', .ok ()) ∧ a'.dirty = true ∧
        s.step env order keys (.push i) = s.setNode i { s.nodes i with encrypted := some a' } := by
  have hn := h.node i
  obtain ⟨a', hmerge, hflat, hstate, hdirty⟩ := isFlat_merge env s.cloud
    (hn.encrypted a ha) hn.plaintext.lists
  have hstep : s.step env order keys (.push i) = s.setNode i
      { s.nodes i with encrypted := some a' } := by
    simp only [SyncState.step, ha, FS5.mergeFromSnapshot, FS5.exportSnapshot, hmerge]
  refine ⟨?_, ?_, a', hmerge, hdirty, hstep⟩
  · rw [hstep]
    refine h.setNode ⟨hn.plaintext, hn.regs, fun b hb => ?_, hn.pending⟩
    obtain rfl := Option.some.inj hb
    exact hflat
  · rw [hstep]
    rw [view_setEncrypted law h, hstate, stamps_merge (hn.encrypted a ha).lists hn.plaintext.lists,
      ← copy_some ha]
    rfl

/-- The entry after the current one. -/
def nextRevision (current : Option RegistryEntry) : UInt64 :=
  match current with
  | some entry => entry.revision + 1
  | none => 0

theorem nextRevision_lt {current : Option RegistryEntry} (h : ∀ e ∈ current, e.revision.toNat < k) :
    (nextRevision current).toNat < k + 1 := by
  cases current with
  | none => exact Nat.succ_pos k
  | some e =>
    have he := h e rfl
    have hmod : (e.revision + 1).toNat ≤ e.revision.toNat + 1 := by
      rw [UInt64.toNat_add]
      exact Nat.mod_le _ _
    exact Nat.lt_of_le_of_lt hmod (Nat.succ_lt_succ he)

variable (order) in
/-- What the save of a push makes of the state. -/
theorem step_prepare {a a' : Actor} {cloud : World β} {r : Except String (Option RegistryEntry)}
    (ha : (s.nodes i).encrypted = some a)
    (hp : prepareSave env keys.publicKey s.cloud a = (cloud, a', r)) :
    s.step env order keys (.prepare i) =
      ⟨cloud, Function.update s.nodes i
        { s.nodes i with encrypted := some a', pending := r.toOption.join }, s.written⟩ := by
  simp only [SyncState.step, ha, hp]
  rcases r with e | _ | entry <;> rfl

variable (order) in
/-- The save of a push offers the copy, or fails. -/
theorem prepare_step (law : env.Lawful) (h : Sound env keys k s) (hfit : Fits env s.kind) {a : Actor}
    (ha : (s.nodes i).encrypted = some a)
    (hc : (s.step env order keys (.prepare i)).cloud.collided = false) :
    ∃ cloud a' r, prepareSave env keys.publicKey s.cloud a = (cloud, a', r) ∧
      s.cloud.Onward cloud ∧ a'.state = a.state ∧
      Sound env keys (k + 1) (s.step env order keys (.prepare i)) ∧
      view env keys (s.step env order keys (.prepare i)) =
        (view env keys s).step (if r.toOption.join = none then .withdraw i else .prepare i) ∧
      (∀ entry, r = .ok (some entry) →
        entry.revision = nextRevision s.cloud.registry[keys.publicKey]?) ∧
      (a.dirty = true → (∀ n, s.cloud.tick ≤ n → env.storeFails n = false) →
        ∃ entry, r = .ok (some entry)) := by
  have hn := h.node i
  have hflat := hn.encrypted a ha
  obtain ⟨cloud, a', r, hp, hflat', hstate, hon, hok, hgood⟩ :=
    prepareSave_flat (w := s.cloud) hflat (hfit _ hflat.lists)
  have hstep := step_prepare order ha hp
  rw [hstep] at hc ⊢
  have hlater : Later s.cloud cloud := later_of_onward hon
  have hshared : entryDir env keys cloud cloud.registry[keys.publicKey]? =
      entryDir env keys s.cloud s.cloud.registry[keys.publicKey]? := by
    rw [hon.grows.registry, entryDir_later law hlater h.published]
  have hpub : ∀ e ∈ cloud.registry[keys.publicKey]?,
      SoundEntry env keys s.kind (k + 1) cloud e := by
    rw [hon.grows.registry]
    exact fun e he => (h.published e he).mono hlater (fun _ _ hf => hf) (Nat.le_succ k)
  have hview := view_change law h hlater i
    { s.nodes i with encrypted := some a', pending := r.toOption.join } s.written
  have hvalue : stamps (s.nodes i).plaintext.root.state = (view env keys s).value i := rfl
  have hcopy : stamps a'.state = (view env keys s).copy i := by
    rw [hstate, copy_some ha]
  refine ⟨cloud, a', r, hp, hon, hstate, ?_, ?_, fun entry he => (hok entry he hc).2, hgood⟩
  · refine h.change hlater (fun _ hx => hx) i ⟨hn.plaintext, hn.regs, fun b hb => ?_, fun e he => ?_⟩ hpub
    · obtain rfl := Option.some.inj hb
      exact hflat'
    · obtain rfl : r = .ok (some e) := by
        rcases r with err | _ | entry
        · cases he
        · cases he
        · rw [Option.some.inj he]
      obtain ⟨⟨nonce, hstored⟩, hrev⟩ := hok e rfl hc
      exact ⟨⟨nonce, a.state, hstored, hflat.lists⟩, hrev ▸ nextRevision_lt fun c hcur =>
        (h.published c hcur).revision⟩
  · rw [hview, hshared, hvalue, Function.update_eq_self]
    have hself : copyStamps (some a') = (view env keys s).copy i := hcopy
    dsimp only
    rw [hself, Function.update_eq_self]
    rcases r with err | _ | entry
    · change Gossip.mk _ _ _ (Function.update _ i (stamps (entryDir env keys cloud none))) = _
      rw [stamps_entryDir_none]
      rfl
    · change Gossip.mk _ _ _ (Function.update _ i (stamps (entryDir env keys cloud none))) = _
      rw [stamps_entryDir_none]
      rfl
    · obtain ⟨⟨nonce, hstored⟩, -⟩ := hok entry rfl hc
      have hoffer : stamps (entryDir env keys cloud (some entry)) = (view env keys s).copy i := by
        rw [entryDir_stored law hstored, copy_some ha]
      have hjoin : (Except.ok (some entry) : Except String (Option RegistryEntry)).toOption.join =
          some entry := rfl
      rw [hjoin, hoffer]
      rfl

variable (env order keys) in
theorem step_publish {a : Actor} {entry : RegistryEntry} (ha : (s.nodes i).encrypted = some a)
    (hp : (s.nodes i).pending = some entry) :
    s.step env order keys (.publish i) =
      ⟨s.cloud.setRegistry keys.publicKey entry, Function.update s.nodes i
        { s.nodes i with encrypted := some { a with dirty := false }, pending := none }, s.written⟩ := by
  simp only [SyncState.step, ha, hp, publishSave]
  rfl

theorem publish_idle (hp : (s.nodes i).pending = none) :
    s.step env order keys (.publish i) = s := by
  cases he : (s.nodes i).encrypted <;> simp only [SyncState.step, he, hp]

variable (order) in
/-- Publishing replaces what is in the registry, if the entry is newer. -/
theorem publish_step (law : env.Lawful) (h : Sound env keys k s) {a : Actor} {entry : RegistryEntry}
    (ha : (s.nodes i).encrypted = some a) (hp : (s.nodes i).pending = some entry) :
    Sound env keys (k + 1) (s.step env order keys (.publish i)) ∧
      view env keys (s.step env order keys (.publish i)) =
        (view env keys s).step
          (if s.cloud.registry[keys.publicKey]?.all entry.beats then .publish i else .withdraw i) := by
  have hn := h.node i
  have hlater := later_setRegistry s.cloud keys.publicKey entry
  have hentry := hn.pending entry hp
  rw [step_publish env keys order ha hp]
  have hview := view_change law h hlater i
    { s.nodes i with encrypted := some { a with dirty := false }, pending := none } s.written
  have hvalue : stamps (s.nodes i).plaintext.root.state = (view env keys s).value i := rfl
  have hcopy : copyStamps (some { a with dirty := false }) = (view env keys s).copy i :=
    (copy_some ha).symm
  have hregistry : (s.cloud.setRegistry keys.publicKey entry).registry[keys.publicKey]? =
      if s.cloud.registry[keys.publicKey]?.all entry.beats then some entry
      else s.cloud.registry[keys.publicKey]? := by
    unfold World.setRegistry
    split
    · exact ExtTreeMap.getElem?_insert_self
    · rfl
  refine ⟨h.change hlater (fun _ hx => hx) i ⟨hn.plaintext, hn.regs, fun b hb => ?_, fun e he => ?_⟩
    fun e he => ?_, ?_⟩
  · obtain rfl := Option.some.inj hb
    exact isFlat_clean (hn.encrypted a ha)
  · cases he
  · rw [hregistry] at he
    split at he
    · obtain rfl := Option.some.inj he
      exact hentry.mono hlater (fun _ _ hf => hf) (Nat.le_refl _)
    · exact (h.published e he).mono hlater (fun _ _ hf => hf) (Nat.le_succ k)
  · rw [hview, hvalue, Function.update_eq_self]
    dsimp only
    rw [hcopy, Function.update_eq_self, hregistry, stamps_entryDir_none]
    by_cases hbeats : s.cloud.registry[keys.publicKey]?.all entry.beats = true
    · rw [if_pos hbeats, if_pos hbeats]
      have hoffer : stamps (entryDir env keys (s.cloud.setRegistry keys.publicKey entry) (some entry)) =
          (view env keys s).offer i := by
        change _ = stamps (entryDir env keys s.cloud (s.nodes i).pending)
        rw [hp, entryDir_later law hlater (W := s.kind) (k := k + 1)]
        rintro e ⟨⟩
        exact hentry
      rw [hoffer]
      rfl
    · rw [if_neg hbeats, if_neg hbeats, entryDir_later law hlater h.published]
      rfl

/-! ## Runs -/

omit [DecidableEq β] [DecidableEq ι] in
theorem Sound.later (h : Sound env keys k s) : Sound env keys (k + 1) s :=
  ⟨h.node, fun e he => (h.published e he).mono (.refl s.cloud) (fun _ _ hf => hf) (Nat.le_succ k)⟩

omit [DecidableEq β] in
theorem moves_same {s' : SyncState ι β} (hw : s'.written = s.written)
    (hv : view env keys s' = view env keys s) :
    Gossip.Moves (view env keys s) (latestStamps s.written) (view env keys s')
      (latestStamps s'.written) :=
  .inl ⟨hv, by rw [hw]⟩

omit [DecidableEq β] in
theorem moves_act {s' : SyncState ι β} {act : Gossip.Act ι (String → WithBot Nat)}
    (hw : s'.written = s.written) (hact : act.written = ⊥)
    (hv : view env keys s' = (view env keys s).step act) :
    Gossip.Moves (view env keys s) (latestStamps s.written) (view env keys s')
      (latestStamps s'.written) :=
  .inr ⟨act, hv, by rw [hw, hact, sup_bot_eq]⟩

/-- Only requests make entries. -/
theorem written_step {act : SyncAct ι} (h : ∀ i name task, act ≠ .request i name task) :
    (s.step env order keys act).written = s.written := by
  cases act with
  | request i name task => exact absurd rfl (h i name task)
  | save i => rfl
  | openEncrypted i =>
    dsimp only [SyncState.step]
    split <;> rfl
  | push i =>
    dsimp only [SyncState.step]
    split <;> rfl
  | prepare i =>
    dsimp only [SyncState.step]
    split
    · rfl
    · split <;> rfl
  | publish i =>
    dsimp only [SyncState.step]
    split <;> rfl
  | pull i =>
    dsimp only [SyncState.step]
    split <;> rfl

/-- **Each step is an act of the gossip,** or does not show. -/
theorem step_moves (law : env.Lawful) (hfit : Fits env W) (h : Sound env keys k s)
    (hs : ∀ x ∈ s.written, W x.1 x.2) {act : SyncAct ι} (ha : s.Admitted env W act)
    (hc : (s.step env order keys act).cloud.collided = false) :
    Sound env keys (k + 1) (s.step env order keys act) ∧
      Gossip.Moves (view env keys s) (latestStamps s.written)
        (view env keys (s.step env order keys act))
        (latestStamps (s.step env order keys act).written) ∧
      ∀ x ∈ (s.step env order keys act).written, W x.1 x.2 := by
  have hkind : Fits env s.kind := hfit.of_written hs
  -- a step that does nothing
  have hidle : s.step env order keys act = s → Sound env keys (k + 1) (s.step env order keys act) ∧
      Gossip.Moves (view env keys s) (latestStamps s.written)
        (view env keys (s.step env order keys act))
        (latestStamps (s.step env order keys act).written) ∧
      ∀ x ∈ (s.step env order keys act).written, W x.1 x.2 := by
    intro hidle
    rw [hidle]
    exact ⟨h.later, moves_same rfl rfl, hs⟩
  -- only a request makes an entry
  have hwritten : (∀ i name task, act ≠ .request i name task) →
      (s.step env order keys act).written = s.written ∧
      ∀ x ∈ (s.step env order keys act).written, W x.1 x.2 := by
    intro hact
    rw [written_step hact]
    exact ⟨rfl, hs⟩
  cases act with
  | request i name task => exact request_moves law h ha hs
  | save i =>
    obtain ⟨hw, hs'⟩ := hwritten (by simp)
    exact ⟨(save_keeps order i law h hkind).1, moves_same hw (save_keeps order i law h hkind).2, hs'⟩
  | openEncrypted i =>
    obtain ⟨hw, hs'⟩ := hwritten (by simp)
    obtain ⟨hsound, hview, -⟩ := openEncrypted_step order i law h hkind
    exact ⟨hsound, moves_act hw rfl hview, hs'⟩
  | push i =>
    obtain ⟨hw, hs'⟩ := hwritten (by simp)
    cases he : (s.nodes i).encrypted with
    | none => exact hidle (by simp only [SyncState.step, he])
    | some a =>
      obtain ⟨hsound, hview, -⟩ := push_step order law h he
      exact ⟨hsound, moves_act hw rfl hview, hs'⟩
  | prepare i =>
    obtain ⟨hw, hs'⟩ := hwritten (by simp)
    cases he : (s.nodes i).encrypted with
    | none => exact hidle (by simp only [SyncState.step, he])
    | some a =>
      obtain ⟨cloud, a', r, -, -, -, hsound, hview, -⟩ := prepare_step order law h hkind he hc
      refine ⟨hsound, moves_act hw ?_ hview, hs'⟩
      split <;> rfl
  | publish i =>
    obtain ⟨hw, hs'⟩ := hwritten (by simp)
    cases he : (s.nodes i).encrypted with
    | none => exact hidle (by simp only [SyncState.step, he])
    | some a =>
      cases hp : (s.nodes i).pending with
      | none => exact hidle (publish_idle hp)
      | some entry =>
        obtain ⟨hsound, hview⟩ := publish_step order law h he hp
        refine ⟨hsound, moves_act hw ?_ hview, hs'⟩
        split <;> rfl
  | pull i =>
    obtain ⟨hw, hs'⟩ := hwritten (by simp)
    cases he : (s.nodes i).encrypted with
    | none => exact hidle (by simp only [SyncState.step, he])
    | some a =>
      obtain ⟨hsound, hview, -⟩ := pull_step order law h he
      exact ⟨hsound, moves_act hw rfl hview, hs'⟩

variable (env keys) in
theorem grows_prepareSave (w : World β) (a : Actor) :
    w.Grows (prepareSave env keys.publicKey w a).1 := by
  unfold prepareSave
  have h1 := (kept_shardIfNeeded env w a).1.grows
  generalize shardIfNeeded env w a = res at h1 ⊢
  obtain ⟨w1, a1, e | u⟩ := res
  · exact h1
  · dsimp only at h1 ⊢
    split
    · have h2 := grows_encodeStateBytes env a1.context a1.state w1
      generalize encodeStateBytes env a1.context a1.state w1 = res at h2 ⊢
      obtain ⟨w2, e | b⟩ := res
      · exact h1.trans h2
      · have h3 := World.grows_importBytes env w2 b
        dsimp only at h2 ⊢
        generalize w2.importBytes env b = res at h3 ⊢
        obtain ⟨w3, e | hash⟩ := res <;> exact h1.trans (h2.trans h3)
    · exact h1

/-- A collision does not go away. -/
theorem collided_step {act : SyncAct ι} (hc : (s.step env order keys act).cloud.collided = false) :
    s.cloud.collided = false := by
  cases act with
  | request i name task => exact hc
  | save i => exact hc
  | openEncrypted i =>
    dsimp only [SyncState.step] at hc
    split at hc <;> exact hc
  | push i =>
    dsimp only [SyncState.step] at hc
    split at hc <;> exact hc
  | prepare i =>
    cases he : (s.nodes i).encrypted with
    | none =>
      simp only [SyncState.step, he] at hc
      exact hc
    | some a =>
      have hg := grows_prepareSave env keys s.cloud a
      rcases hp : prepareSave env keys.publicKey s.cloud a with ⟨cloud, a', r⟩
      rw [hp] at hg
      rw [step_prepare order he hp] at hc
      exact hg.collided hc
  | publish i =>
    dsimp only [SyncState.step] at hc
    split at hc
    · exact (later_setRegistry s.cloud keys.publicKey _).collided hc
    · exact hc
  | pull i =>
    dsimp only [SyncState.step] at hc
    split at hc <;> exact hc

theorem collided_run {acts : List (SyncAct ι)}
    (hc : (acts.foldl (SyncState.step env order keys) s).cloud.collided = false) :
    s.cloud.collided = false := by
  induction acts generalizing s with
  | nil => exact hc
  | cons act acts ih => exact collided_step (ih hc)

/-- **Whatever the order of the steps,** the system stays sound and no replica loses anything. -/
theorem run_within (law : env.Lawful) (hfit : Fits env W) {acts : List (SyncAct ι)}
    (h : Sound env keys k s) (hs : ∀ x ∈ s.written, W x.1 x.2)
    (hw : (view env keys s).Within (latestStamps s.written))
    (hsteps : Run.Steps (SyncState.step env order keys) (SyncState.Admitted env W) s acts)
    (hc : (acts.foldl (SyncState.step env order keys) s).cloud.collided = false) :
    Sound env keys (k + acts.length) (acts.foldl (SyncState.step env order keys) s) ∧
      (∀ x ∈ (acts.foldl (SyncState.step env order keys) s).written, W x.1 x.2) ∧
      (view env keys (acts.foldl (SyncState.step env order keys) s)).Within
        (latestStamps (acts.foldl (SyncState.step env order keys) s).written) ∧
      ∀ i, (view env keys s).value i ≤
        (view env keys (acts.foldl (SyncState.step env order keys) s)).value i := by
  induction acts generalizing s k with
  | nil => exact ⟨h, hs, hw, fun _ => le_rfl⟩
  | cons act acts ih =>
    obtain ⟨ha, hsteps⟩ := Run.steps_cons.1 hsteps
    rw [List.foldl_cons] at hc ⊢
    obtain ⟨h', hm, hs'⟩ := step_moves law hfit h hs ha (collided_run hc)
    obtain ⟨hsound, hrest⟩ := ih h' hs' (hw.moves hm) hsteps hc
    rw [Nat.add_right_comm, Nat.add_assoc] at hsound
    exact ⟨hsound, hrest.1, hrest.2.1, fun i => (hm.value_le i).trans (hrest.2.2 i)⟩

/-! ## Turns -/

omit [DecidableEq β] in
@[simp]
theorem setNode_same (s : SyncState ι β) (i : ι) (node : SyncNode β) :
    (s.setNode i node).nodes i = node := by
  unfold SyncState.setNode
  exact Function.update_self i node s.nodes

omit [DecidableEq β] in
/-- The entry after the current one beats it, unless the revisions have run out. -/
theorem beats_nextRevision {current : Option RegistryEntry} {entry : RegistryEntry}
    (h : ∀ e ∈ current, e.revision.toNat + 1 < 2 ^ 64)
    (hr : entry.revision = nextRevision current) : current.all entry.beats = true := by
  cases current with
  | none => rfl
  | some e =>
    have he := h e rfl
    have hnext : (e.revision + 1).toNat = e.revision.toNat + 1 := by
      rw [UInt64.toNat_add]
      exact Nat.mod_eq_of_lt he
    have hlt : e.revision < entry.revision := by
      rw [hr, UInt64.lt_iff_toNat_lt]
      exact hnext ▸ Nat.lt_succ_self _
    simp [RegistryEntry.beats, hlt]

/-- **An undisturbed tick** is a turn of the gossip. -/
theorem turn_step (law : env.Lawful) (h : Sound env keys k s) (hfit : Fits env s.kind)
    (hk : k + 6 < 2 ^ 64) (hstore : ∀ n, s.cloud.tick ≤ n → env.storeFails n = false)
    (hc : ((turn i).foldl (SyncState.step env order keys) s).cloud.collided = false) :
    Sound env keys (k + 6) ((turn i).foldl (SyncState.step env order keys) s) ∧
      view env keys ((turn i).foldl (SyncState.step env order keys) s) =
        (Gossip.turn i).foldl Gossip.step (view env keys s) ∧
      ((turn i).foldl (SyncState.step env order keys) s).written = s.written ∧
      s.cloud.tick ≤ ((turn i).foldl (SyncState.step env order keys) s).cloud.tick := by
  have hkind : ∀ {s' : SyncState ι β}, s'.written = s.written → Fits env s'.kind :=
    fun hw => kind_congr hw ▸ hfit
  simp only [turn, List.foldl_cons, List.foldl_nil] at hc ⊢
  obtain ⟨h1, v1, a, -, e1⟩ := openEncrypted_step order i law h hfit
  generalize s.step env order keys (.openEncrypted i) = s1 at h1 v1 e1 hc ⊢
  have a1 : (s1.nodes i).encrypted = some a := by rw [e1, setNode_same]
  have w1 : s1.written = s.written := by rw [e1]; rfl
  have c1 : s1.cloud = s.cloud := by rw [e1]; rfl
  obtain ⟨h2, v2, a', -, hdirty, e2⟩ := push_step order law h1 a1
  generalize s1.step env order keys (.push i) = s2 at h2 v2 e2 hc ⊢
  have a2 : (s2.nodes i).encrypted = some a' := by rw [e2, setNode_same]
  have w2 : s2.written = s.written := by rw [e2]; exact w1
  have c2 : s2.cloud = s.cloud := by rw [e2]; exact c1
  obtain ⟨cloud, a3, r, hp, hon, -, h3, v3, hrev, hok⟩ := prepare_step order law h2
    (hkind w2) a2 (collided_step (collided_step (collided_step hc)))
  obtain ⟨entry, rfl⟩ := hok hdirty (by rwa [c2])
  have e3 := step_prepare order a2 hp
  generalize s2.step env order keys (.prepare i) = s3 at h3 v3 e3 hc ⊢
  have a4 : (s3.nodes i).encrypted = some a3 := by rw [e3]; simp
  have p3 : (s3.nodes i).pending = some entry := by rw [e3]; simp [Except.toOption]
  have w3 : s3.written = s.written := by rw [e3]; exact w2
  have hreg : s3.cloud.registry = s2.cloud.registry := by rw [e3]; exact hon.grows.registry
  obtain ⟨h4, v4⟩ := publish_step order law h3 a4 p3
  have e4 := step_publish env keys order a4 p3
  have hbeats : s3.cloud.registry[keys.publicKey]?.all entry.beats = true := by
    rw [hreg]
    refine beats_nextRevision (fun e he => ?_) (hrev entry rfl)
    have := (h2.published e he).revision
    omega
  rw [if_pos hbeats] at v4
  generalize s3.step env order keys (.publish i) = s4 at h4 v4 e4 hc ⊢
  have a5 : (s4.nodes i).encrypted = some { a3 with dirty := false } := by rw [e4]; simp
  have w4 : s4.written = s.written := by rw [e4]; exact w3
  have c4 : s.cloud.tick ≤ s4.cloud.tick := by
    rw [e4]
    refine Nat.le_trans ?_ (later_setRegistry s3.cloud keys.publicKey entry).tick
    rw [e3, ← c2]
    exact hon.tick
  obtain ⟨h5, v5, -⟩ := pull_step order law h4 a5
  have w5 : (s4.step env order keys (.pull i)).written = s.written :=
    (written_step (by simp)).trans w4
  have c5 : (s4.step env order keys (.pull i)).cloud = s4.cloud := by
    dsimp only [SyncState.step]
    split <;> rfl
  obtain ⟨h6, v6⟩ := save_keeps order i law h5 (hkind w5)
  refine ⟨h6, ?_, w5, ?_⟩
  · rw [v6, v5, v4, v3, v2, v1]
    rfl
  · exact c4.trans (congrArg World.tick c5).symm.le

omit [DecidableEq β] in
theorem plaintext_update (nodes : ι → SyncNode β) (i : ι) (node : SyncNode β)
    (h : node.plaintext = (nodes i).plaintext) (j : ι) :
    (Function.update nodes i node j).plaintext = (nodes j).plaintext := by
  by_cases hj : j = i
  · subst hj
    rw [Function.update_self]
    exact h
  · rw [Function.update_of_ne hj]

variable (order) in
/-- The two halves of a save of the encrypted root, one right after the other. -/
theorem prepare_publish {a : Actor} (hflat : IsFlat W keys.context a)
    (hfit : env.len (env.toBytes a.state) < maxDirBytesBeforeShard)
    (he : (s.nodes i).encrypted = some a) :
    ((s.step env order keys (.prepare i)).step env order keys (.publish i)).cloud =
        (saveIfDirty env a s.cloud).1 ∧
      (((s.step env order keys (.prepare i)).step env order keys (.publish i)).nodes i).encrypted =
        some (saveIfDirty env a s.cloud).2.1 ∧
      ∀ j, (((s.step env order keys (.prepare i)).step env order keys (.publish i)).nodes j).plaintext =
        (s.nodes j).plaintext := by
  obtain ⟨cloud, a', r, hp, -⟩ := prepareSave_flat (w := s.cloud) hflat hfit
  have hstep := step_prepare order he hp
  rw [saveIfDirty_eq_publish hflat hfit, hp]
  generalize s.step env order keys (.prepare i) = s1 at hstep ⊢
  have henc : (s1.nodes i).encrypted = some a' := by rw [hstep]; simp
  have hpend : (s1.nodes i).pending = r.toOption.join := by rw [hstep]; simp
  have hplain : ∀ j, (s1.nodes j).plaintext = (s.nodes j).plaintext := by
    intro j
    rw [hstep]
    refine plaintext_update s.nodes i _ ?_ j
    rfl
  have hcloud : s1.cloud = cloud := by rw [hstep]
  rcases r with err | _ | entry
  · rw [publish_idle hpend]
    exact ⟨hcloud, henc, hplain⟩
  · rw [publish_idle hpend]
    exact ⟨hcloud, henc, hplain⟩
  · rw [step_publish env keys order henc hpend, hcloud]
    refine ⟨rfl, ?_, fun j => (plaintext_update s1.nodes i _ ?_ j).trans (hplain j)⟩
    · dsimp only
      rw [Function.update_self]
      rfl
    · rfl

/-- A tick whose calls all succeed. -/
theorem syncTick_eq {cloud : World β} {plaintext : FS5 β} {a a' root : Actor}
    (hopen : FS5.openRoot env keys.context cloud = .ok ⟨cloud, a, []⟩)
    (hmerge : mergeSnapshot env cloud FS5.shardDepth a plaintext.root.state = (a', .ok ()))
    (hpull : mergeSnapshot env plaintext.world FS5.shardDepth plaintext.root
      (saveIfDirty env a' cloud).2.1.state = (root, .ok ())) :
    syncTick env keys cloud plaintext =
      ((saveIfDirty env a' cloud).1, (FS5.save env { plaintext with root }).1) := by
  have hpushed : (pushSnapshot env plaintext ⟨cloud, a, []⟩).1 =
      ⟨(saveIfDirty env a' cloud).1, (saveIfDirty env a' cloud).2.1, []⟩ := by
    simp only [pushSnapshot, mergeAndSave, FS5.mergeFromSnapshot, FS5.exportSnapshot, hmerge]
    exact FS5_save_eq _
  have hpulled : (pullSnapshot env
      ⟨(saveIfDirty env a' cloud).1, (saveIfDirty env a' cloud).2.1, []⟩ plaintext).1 =
        (FS5.save env { plaintext with root }).1 := by
    simp only [pullSnapshot, mergeAndSave, FS5.mergeFromSnapshot, FS5.exportSnapshot, hpull]
  unfold syncTick
  rw [hopen]
  change ((pushSnapshot env _ _).1.world, (pullSnapshot env (pushSnapshot env _ _).1 _).1) = _
  rw [hpushed, hpulled]

variable (order i) in
/-- **The steps of an undisturbed tick** are what `run_file_sync` does. -/
theorem turn_eq_tick (law : env.Lawful) (h : Sound env keys k s) (hfit : Fits env s.kind) :
    ((turn i).foldl (SyncState.step env order keys) s).cloud = (s.tick env keys i).cloud ∧
      ∀ j, (((turn i).foldl (SyncState.step env order keys) s).nodes j).plaintext =
        ((s.tick env keys i).nodes j).plaintext := by
  simp only [turn, List.foldl_cons, List.foldl_nil]
  obtain ⟨h1, -, a, hopen, e1⟩ := openEncrypted_step order i law h hfit
  generalize s.step env order keys (.openEncrypted i) = s1 at h1 e1 ⊢
  have a1 : (s1.nodes i).encrypted = some a := by rw [e1, setNode_same]
  have p1 : ∀ j, (s1.nodes j).plaintext = (s.nodes j).plaintext := by
    intro j
    rw [e1]
    refine plaintext_update s.nodes i _ ?_ j
    rfl
  have c1 : s1.cloud = s.cloud := by rw [e1]; rfl
  obtain ⟨h2, -, a', hmerge, -, e2⟩ := push_step order law h1 a1
  rw [p1, c1] at hmerge
  generalize s1.step env order keys (.push i) = s2 at h2 e2 ⊢
  have a2 : (s2.nodes i).encrypted = some a' := by rw [e2, setNode_same]
  have p2 : ∀ j, (s2.nodes j).plaintext = (s.nodes j).plaintext := by
    intro j
    rw [e2]
    refine (plaintext_update s1.nodes i _ ?_ j).trans (p1 j)
    rfl
  have c2 : s2.cloud = s.cloud := by rw [e2]; exact c1
  have hkind : s2.kind = s.kind := kind_congr (by rw [e2, e1]; rfl)
  have hflat := (h2.nodes i).encrypted a' a2
  have hplain := (h2.nodes i).plaintext
  rw [hkind] at hflat hplain
  rw [p2] at hplain
  have hsmall := hfit _ hflat.lists
  obtain ⟨c4, a4, p4⟩ := prepare_publish order hflat hsmall a2
  generalize (s2.step env order keys (.prepare i)).step env order keys (.publish i) = s4 at c4 a4 p4 ⊢
  rw [c2] at c4 a4
  -- the plaintext file system takes over what has been saved
  obtain ⟨hsaved, -⟩ := isFlat_save (w := s.cloud) hflat rfl hsmall
  obtain ⟨root, hpull, -⟩ := isFlat_merge env (s.nodes i).plaintext.world hplain hsaved.lists
  have e5 : s4.step env order keys (.pull i) = s4.setNode i
      { s4.nodes i with plaintext := { (s4.nodes i).plaintext with root } } := by
    have p5 : (s4.nodes i).plaintext = (s.nodes i).plaintext := (p4 i).trans (p2 i)
    simp only [SyncState.step, a4, FS5.mergeFromSnapshot, p5, hpull]
  rw [e5, SyncState.tick, syncTick_eq hopen hmerge hpull]
  refine ⟨c4, fun j => ?_⟩
  change (Function.update (Function.update s4.nodes i _) i _ j).plaintext =
    (Function.update s.nodes i _ j).plaintext
  by_cases hj : j = i
  · subst hj
    rw [Function.update_self, Function.update_self]
    dsimp only [SyncState.setNode]
    rw [Function.update_self, p4 j, p2 j]
  · rw [Function.update_of_ne hj, Function.update_of_ne hj, Function.update_of_ne hj]
    exact (p4 j).trans (p2 j)

theorem turns_steps (law : env.Lawful) {round : List ι} (h : Sound env keys k s)
    (hfit : Fits env s.kind) (hk : k + 6 * round.length < 2 ^ 64)
    (hstore : ∀ n, s.cloud.tick ≤ n → env.storeFails n = false)
    (hc : ((round.flatMap turn).foldl (SyncState.step env order keys) s).cloud.collided = false) :
    (∃ k', Sound env keys k' ((round.flatMap turn).foldl (SyncState.step env order keys) s)) ∧
      view env keys ((round.flatMap turn).foldl (SyncState.step env order keys) s) =
        (round.flatMap Gossip.turn).foldl Gossip.step (view env keys s) ∧
      ((round.flatMap turn).foldl (SyncState.step env order keys) s).written = s.written := by
  induction round generalizing s k with
  | nil => exact ⟨⟨k, h⟩, rfl, rfl⟩
  | cons i round ih =>
    rw [List.flatMap_cons, List.foldl_append] at hc ⊢
    rw [List.length_cons] at hk
    obtain ⟨h', hv, hw, ht⟩ := turn_step (i := i) law h hfit (by omega) hstore (collided_run hc)
    have hfit' : Fits env ((turn i).foldl (SyncState.step env order keys) s).kind :=
      kind_congr hw ▸ hfit
    obtain ⟨hs, hview, hwritten⟩ := ih h' hfit' (by omega) (fun n hn => hstore n (ht.trans hn)) hc
    refine ⟨hs, ?_, hwritten.trans hw⟩
    rw [hview, hv, List.flatMap_cons, List.foldl_append]

/-! ## From the start -/

omit [DecidableEq β] [DecidableEq ι] in
theorem fresh_sound (law : env.Lawful) (hfit : Fits env W) (h : s.IsFresh env keys) :
    Sound env keys 0 s ∧ (view env keys s).Within (latestStamps s.written) := by
  have hplain : ∀ i, IsFlat s.kind .localRoot (s.nodes i).plaintext.root ∧
      (s.nodes i).plaintext.registryDirHandles = [] ∧
      (s.nodes i).plaintext.root.state = .new := by
    intro i
    obtain ⟨now, hopen⟩ := h.plaintext i
    have hload : load env (.localRoot : DirContext Unit) (FS5.newLocalWorld env now) =
        .ok (.new, env.len (env.toBytes .new)) := by
      simp [load, DirContext.localRoot, FS5.newLocalWorld, decodeDir, law.fromBytes_toBytes]
    obtain ⟨a, hopen', hflat, hstate⟩ := isFlat_open hload (lists_new s.kind) (hfit _ (lists_new W))
    obtain heq := Except.ok.inj (hopen.symm.trans hopen')
    rw [heq]
    exact ⟨hflat, rfl, hstate⟩
  refine ⟨⟨fun i => ⟨(hplain i).1, (hplain i).2.1, fun a ha => ?_, fun e he => ?_⟩, fun e he => ?_⟩,
    ⟨?_, ?_, fun i => ?_, fun i => ?_⟩⟩
  · rw [h.encrypted i] at ha
    cases ha
  · rw [h.pending i] at he
    cases he
  · rw [h.cloud] at he
    cases he
  · rw [h.written]
    have hbot : ∀ i, (view env keys s).value i = ⊥ := fun i => by
      change stamps (s.nodes i).plaintext.root.state = ⊥
      rw [(hplain i).2.2, stamps_new]
    refine ⟨?_, fun u _ => bot_le⟩
    rintro x ⟨i, rfl⟩
    exact (hbot i).le
  · change stamps (entryDir env keys s.cloud s.cloud.registry[keys.publicKey]?) ≤ _
    rw [h.cloud, stamps_entryDir_none]
    exact bot_le
  · change copyStamps (s.nodes i).encrypted ≤ _
    rw [h.encrypted i]
    exact bot_le
  · change stamps (entryDir env keys s.cloud (s.nodes i).pending) ≤ _
    rw [h.pending i, stamps_entryDir_none]
    exact bot_le

omit [DecidableEq β] [DecidableEq ι] in
/-- A replica with the latest timestamps has the latest entries. -/
theorem latest_of_stamps (hW : ∀ n f g, W n f → W n g → fileTs f = fileTs g → f = g)
    (hs : ∀ x ∈ s.written, W x.1 x.2) {d : DirV1} (hd : Lists s.kind d)
    (hstamps : stamps d = latestStamps s.written) (n : String) (f : FileRef) :
    d.files[n]? = some f ↔ s.IsLatest n f := by
  have hat : ∀ g, d.files[n]? = some g → latestStamps s.written n = fileTs g := by
    intro g hg
    rw [← hstamps]
    unfold stamps
    rw [hg]
  constructor
  · intro hf
    refine ⟨hd.files n f hf, fun g hg => ?_⟩
    have hle := le_latestStamps hg
    rw [hat f hf] at hle
    exact_mod_cast hle
  · rintro ⟨hf, hlatest⟩
    have hle := le_latestStamps hf
    cases hg : d.files[n]? with
    | none =>
      have hbot : latestStamps s.written n = ⊥ := by
        rw [← hstamps]
        unfold stamps
        rw [hg]
      rw [hbot] at hle
      exact absurd hle (by simp)
    | some g =>
      have hgw := hd.files n g hg
      rw [hat g hg] at hle
      have hts : fileTs f = fileTs g := Nat.le_antisymm (by exact_mod_cast hle) (hlatest g hgw)
      rw [hW n f g (hs _ hf) (hs _ hgw) hts]

/-- **No node ever goes back.** In every run, whatever a node finds under a path, it will always find an
entry there that is at least as new, and that some client has made for this path. -/
theorem replicas_never_regress (law : env.Lawful) {order : GroupOrder} (hfit : Fits env W)
    {s now later : SyncState ι β} (hfresh : s.IsFresh env keys) {acts more : List (SyncAct ι)}
    (hnow : now = acts.foldl (SyncState.step env order keys) s)
    (hlater : later = more.foldl (SyncState.step env order keys) now)
    (hacts : Run.Steps (SyncState.step env order keys) (SyncState.Admitted env W) s acts)
    (hmore : Run.Steps (SyncState.step env order keys) (SyncState.Admitted env W) now more)
    (hc : later.cloud.collided = false) {i : ι} {path : String} {f : FileRef}
    (hf : Reaches env (now.nodes i).plaintext.world (now.nodes i).plaintext.registryDirHandles
      (now.nodes i).plaintext.root path (some f)) :
    ∃ g, Reaches env (later.nodes i).plaintext.world (later.nodes i).plaintext.registryDirHandles
        (later.nodes i).plaintext.root path (some g) ∧
      fileTs f ≤ fileTs g ∧ (path, g) ∈ later.written := by
  subst hlater
  obtain ⟨h0, hw0⟩ := fresh_sound law hfit hfresh
  have hs0 : ∀ x ∈ s.written, W x.1 x.2 := by
    rw [hfresh.written]
    exact fun x hx => absurd hx List.not_mem_nil
  obtain ⟨h1, hs1, hw1, -⟩ := run_within law hfit h0 hs0 hw0 hacts (by rw [← hnow]; exact collided_run hc)
  rw [← hnow] at h1 hs1 hw1
  obtain ⟨h2, -, -, hle⟩ := run_within law hfit h1 hs1 hw1 hmore hc
  generalize more.foldl (SyncState.step env order keys) now = s2 at h2 hle hc ⊢
  rw [(h1.nodes i).plaintext.reaches] at hf
  have hstamp : stamps (now.nodes i).plaintext.root.state path ≤
      stamps (s2.nodes i).plaintext.root.state path := hle i path
  have hbefore : stamps (now.nodes i).plaintext.root.state path = fileTs f := by
    unfold stamps
    rw [← hf]
  rw [hbefore] at hstamp
  cases hg : (s2.nodes i).plaintext.root.state.files[path]? with
  | none =>
    unfold stamps at hstamp
    rw [hg] at hstamp
    exact absurd hstamp (by simp)
  | some g =>
    have hafter : stamps (s2.nodes i).plaintext.root.state path = fileTs g := by
      unfold stamps
      rw [hg]
    rw [hafter] at hstamp
    refine ⟨g, (h2.nodes i).plaintext.reaches.2 hg.symm, by exact_mod_cast hstamp, ?_⟩
    exact (h2.nodes i).plaintext.lists.files path g hg

/-- **Nodes come to agree.** However their steps have come between one another, and whatever a save
has overwritten in the registry: once each node in turn has made a tick undisturbed, and then each of
them one more, every node resolves every path to the latest entry that any client has made. -/
theorem replicas_converge (law : env.Lawful) {order : GroupOrder}
    (hW : ∀ n f g, W n f → W n g → fileTs f = fileTs g → f = g) (hfit : Fits env W)
    {s final : SyncState ι β} (hfresh : s.IsFresh env keys) {acts : List (SyncAct ι)}
    {first second : List ι}
    (hsteps : Run.Steps (SyncState.step env order keys) (SyncState.Admitted env W) s acts)
    (hfirst : ∀ i, i ∈ first) (hsecond : ∀ i, i ∈ second)
    (hfinal : final = (acts ++ (first ++ second).flatMap turn).foldl
      (SyncState.step env order keys) s)
    (hstore : ∀ n, (acts.foldl (SyncState.step env order keys) s).cloud.tick ≤ n →
      env.storeFails n = false)
    (hlen : acts.length + 6 * (first ++ second).length < 2 ^ 64)
    (hc : final.cloud.collided = false) (i : ι) (path : String) (f : FileRef) :
    (final.nodes i).plaintext.FileGet env path (some f) ↔
      final.IsLatest path f ∧ f.isTombstone = false := by
  rw [List.foldl_append] at hfinal
  subst hfinal
  obtain ⟨h0, hw0⟩ := fresh_sound law hfit hfresh
  have hs0 : ∀ x ∈ s.written, W x.1 x.2 := by
    rw [hfresh.written]
    exact fun x hx => absurd hx List.not_mem_nil
  obtain ⟨h1, hs1, hw1, -⟩ := run_within law hfit h0 hs0 hw0 hsteps (collided_run hc)
  rw [Nat.zero_add] at h1
  generalize acts.foldl (SyncState.step env order keys) s = s1 at h1 hs1 hw1 hstore hc ⊢
  have hkind : Fits env s1.kind := hfit.of_written hs1
  obtain ⟨⟨k', h2⟩, hview, hwritten⟩ := turns_steps law h1 hkind hlen hstore hc
  generalize ((first ++ second).flatMap turn).foldl (SyncState.step env order keys) s1 = s2
    at h2 hview hwritten hc ⊢
  have hstamps : stamps (s2.nodes i).plaintext.root.state = latestStamps s2.written := by
    have hvalue := hw1.converged hfirst hsecond i
    rw [← hview, ← hwritten] at hvalue
    exact hvalue
  have hs2 : ∀ x ∈ s2.written, W x.1 x.2 := by
    rw [hwritten]
    exact hs1
  rw [fileGet_some, (h2.nodes i).plaintext.reaches, eq_comm (a := some f),
    latest_of_stamps hW hs2 (h2.nodes i).plaintext.lists hstamps]

/-! Two nodes write the same file, and their first ticks overlap: one of the two versions is gone from
the registry. -/

def earlier : FileRef := { FileRef.new 1 1 with timestamp := some 5 }

def later : FileRef := { FileRef.new 2 1 with timestamp := some 6 }

def Conflict (n : String) (f : FileRef) : Prop := n = "a" ∧ (f = earlier ∨ f = later)

instance (n : String) (f : FileRef) : Decidable (Conflict n f) := inferInstanceAs (Decidable (_ ∧ _))

instance {W : String → FileRef → Prop} [∀ n f, Decidable (W n f)] (s : SyncState ι β) :
    ∀ act : SyncAct ι, Decidable (s.Admitted env W act)
  | .request _ _ _ => inferInstanceAs (Decidable (_ ∨ _))
  | .save _ => isTrue trivial
  | .openEncrypted _ => isTrue trivial
  | .push _ => isTrue trivial
  | .prepare _ => isTrue trivial
  | .publish _ => isTrue trivial
  | .pull _ => isTrue trivial

/-- A digest that tells sealed bytes of different nonces apart. -/
def noncedDigest : Sym → Nat
  | .sealed _ nonce b => 1000000 * (nonce.toNat + 1) + b.digest
  | b => b.digest

def nonced : Env Sym := { symbolic xxh3Short with blake3 := fun b => BitVec.ofNat 256 (noncedDigest b) }

theorem nonced_lawful : nonced.Lawful :=
  ⟨(symbolic_lawful xxh3Short).fromBytes_toBytes, (symbolic_lawful xxh3Short).decrypt_encrypt⟩

def newNode : SyncNode Sym where
  plaintext := ⟨FS5.newLocalWorld nonced 0, ⟨.localRoot, .new, false, [], [], 64, 0⟩, []⟩
  encrypted := none
  pending := none

def twoNodes : SyncState Bool Sym := ⟨emptyWorld, fun _ => newNode, []⟩

theorem noSlash_a : '/' ∉ "a".toList := by decide

def overlapping : List (SyncAct Bool) :=
  [.request false ⟨"a", noSlash_a⟩ (.put earlier), .request true ⟨"a", noSlash_a⟩ (.put later),
    .openEncrypted false, .openEncrypted true, .push true, .push false, .prepare true, .prepare false,
    .publish true, .publish false, .pull true, .pull false]

theorem fits_conflict : Fits nonced Conflict := by
  intro d hd
  have hfiles : d.files.size ≤ 1 := by
    cases ha : d.files["a"]? with
    | none =>
      have hempty : d.files = ∅ := by
        refine ExtTreeMap.ext_getElem? fun n => ?_
        cases hn : d.files[n]? with
        | none => rfl
        | some f =>
          obtain ⟨rfl, -⟩ := hd.files n f hn
          rw [ha] at hn
          cases hn
      rw [hempty]
      decide
    | some g =>
      have hone : d.files = (∅ : ExtTreeMap String FileRef).insert "a" g := by
        refine ExtTreeMap.ext_getElem? fun n => ?_
        by_cases hna : n = "a"
        · subst hna
          rw [ha, ExtTreeMap.getElem?_insert_self]
        · cases hn : d.files[n]? with
          | none => simp [Ne.symm hna]
          | some f => exact absurd (hd.files n f hn).1 hna
      rw [hone, ExtTreeMap.size_insert]
      simp
  have hdirs : d.dirs.size = 0 := by rw [hd.dirs]; rfl
  change 64 + 100 * (d.dirs.size + d.files.size) < 65536
  omega

theorem conflict_stamps (n : String) (f g : FileRef) (hf : Conflict n f) (hg : Conflict n g)
    (hts : fileTs f = fileTs g) : f = g := by
  obtain ⟨-, rfl | rfl⟩ := hf <;> obtain ⟨-, rfl | rfl⟩ := hg
  · rfl
  · exact absurd hts (by decide)
  · exact absurd hts (by decide)
  · rfl

theorem isFresh_twoNodes : twoNodes.IsFresh nonced syncKeys where
  cloud := by decide
  plaintext _ := ⟨0, rfl⟩
  encrypted _ := rfl
  pending _ := rfl
  written := rfl

theorem admitted_overlapping : Run.Steps
    (SyncState.step nonced (fun _ _ groups => groups) syncKeys)
    (SyncState.Admitted nonced Conflict) twoNodes overlapping := by
  decide +kernel

/-- The nodes after two more ticks of each. -/
def synced : SyncState Bool Sym :=
  (overlapping ++ ([false, true] ++ [false, true]).flatMap turn).foldl
    (SyncState.step nonced (fun _ _ groups => groups) syncKeys) twoNodes

theorem isLatest_synced : synced.IsLatest "a" later := by
  have hwritten : synced.written = [("a", earlier), ("a", later)] := by decide +kernel
  unfold SyncState.IsLatest
  rw [hwritten]
  refine ⟨by decide +kernel, fun g hg => ?_⟩
  rcases List.mem_cons.1 hg with hg | hg
  · rw [(Prod.mk.inj hg).2]
    decide
  · rw [(Prod.mk.inj (List.mem_singleton.1 hg)).2]

theorem replicas_converge_overlapping :
    (synced.nodes false).plaintext.FileGet nonced "a" (some later) :=
  (replicas_converge nonced_lawful conflict_stamps fits_conflict isFresh_twoNodes
    admitted_overlapping (by decide) (by decide) rfl (fun _ _ => rfl) (by decide)
    (by decide +kernel) false "a" later).2 ⟨isLatest_synced, rfl⟩

theorem admitted_turns : Run.Steps (SyncState.step nonced (fun _ _ groups => groups) syncKeys)
    (SyncState.Admitted nonced Conflict)
    (overlapping.foldl (SyncState.step nonced (fun _ _ groups => groups) syncKeys) twoNodes)
    (([false, true] ++ [false, true]).flatMap turn) := by
  decide +kernel

theorem replicas_never_regress_overlapping :
    ∃ g, Reaches nonced (synced.nodes false).plaintext.world
        (synced.nodes false).plaintext.registryDirHandles (synced.nodes false).plaintext.root "a"
        (some g) ∧ fileTs earlier ≤ fileTs g ∧ ("a", g) ∈ synced.written := by
  refine replicas_never_regress nonced_lawful fits_conflict isFresh_twoNodes rfl
    (List.foldl_append ..) admitted_overlapping admitted_turns (by decide +kernel) ⟨1, ?_⟩
  decide +kernel

end Node
