import S5.Node.Replicas
import S5.Node.Proof.Sync
import S5.Fs.Proof.Merge
import S5.Fs.Proof.Session
import S5.Fs.Proof.Keys
import Mathlib

/-!
# Roots that only hold files

A plain directory of files (`Lists`) stays one when another is merged into it, and every name then has
the later timestamp of the two (`stamps_merge`). An open root with such a state (`IsFlat`) saves itself
and nothing else; the save of an encrypted one is `prepareSave` and `publishSave`
(`saveIfDirty_eq_publish`), and the first of them leaves the sealed state in the store
(`prepareSave_flat`).
-/

open Std

namespace Node

open Fs Actor

/-! ## Directories of files -/

/-- A plain directory of files of the kind `W`. -/
structure Lists (W : String → FileRef → Prop) (d : DirV1) : Prop where
  plain : d = { DirV1.new with files := d.files }
  files : ∀ (n : String) f, d.files[n]? = some f → W n f

theorem lists_new (W : String → FileRef → Prop) : Lists W .new :=
  ⟨rfl, fun n f h => by simp [DirV1.new] at h⟩

theorem Lists.mono {W W' : String → FileRef → Prop} {d : DirV1} (h : Lists W d)
    (hW : ∀ n f, W n f → W' n f) : Lists W' d :=
  ⟨h.plain, fun n f hf => hW n f (h.files n f hf)⟩

section
variable {W : String → FileRef → Prop} {d e : DirV1}

theorem Lists.header (h : Lists W d) : d.header = .new := by
  rw [h.plain]
  rfl

theorem Lists.dirs (h : Lists W d) : d.dirs = ∅ := by
  rw [h.plain]
  rfl

theorem Lists.withFiles {W' : String → FileRef → Prop} (h : Lists W d)
    (files : ExtTreeMap String FileRef) (hf : ∀ (n : String) f, files[n]? = some f → W' n f) :
    Lists W' { d with files := files } := by
  refine ⟨?_, hf⟩
  have hmagic : d.magic = DirV1.new.magic := by rw [h.plain]
  change DirV1.mk d.magic d.header d.dirs files = _
  rw [hmagic, h.header, h.dirs]
  rfl

/-- The merge of one plain directory into another. -/
def mergeFiles (d e : DirV1) : DirV1 :=
  { d with
    header := mergeHeaderFields d.header e.header
    dirs := (mergeEntriesLocal d e.dirs e.files).dirs
    files := (mergeEntriesLocal d e.dirs e.files).files }

theorem getElem_mergeFiles (hd : Lists W d) (he : Lists W e) (n : String) :
    (mergeFiles d e).dirs[n]? = none ∧
      (mergeFiles d e).files[n]? = latest fileTs d.files[n]? e.files[n]? := by
  have hat := merge_at d e n
  rw [hd.dirs, he.dirs] at hat
  obtain ⟨h1, h2⟩ := Prod.mk.inj hat
  have hdirs : (mergeFiles d e).dirs = (d.merge e).dirs := rfl
  have hfiles : (mergeFiles d e).files = (d.merge e).files := rfl
  rw [hdirs, hfiles, h1, h2]
  cases d.files[n]? with
  | none => cases e.files[n]? <;> simp [lww, lwwFile]
  | some f =>
    cases e.files[n]? with
    | none => simp [lww]
    | some g =>
      by_cases ht : fileTs f < fileTs g
      · simp [lww, lwwFile, latest_some_some, ht]
      · simp [lww, lwwFile, latest_some_some, ht]

/-- The merge stays a plain directory. -/
theorem Lists.merge (hd : Lists W d) (he : Lists W e) : Lists W (mergeFiles d e) := by
  have hdirs : (mergeFiles d e).dirs = ∅ := by
    refine ExtTreeMap.ext_getElem? fun n => ?_
    rw [(getElem_mergeFiles hd he n).1, ExtTreeMap.getElem?_empty]
  refine ⟨?_, fun n f hf => ?_⟩
  · have hheader : (mergeFiles d e).header = .new := by
      change mergeHeaderFields d.header e.header = .new
      rw [hd.header, he.header]
      rfl
    have hmagic : (mergeFiles d e).magic = DirV1.new.magic := by
      change d.magic = _
      rw [hd.plain]
    generalize mergeFiles d e = m at hdirs hheader hmagic
    cases m
    simp_all [DirV1.new]
  · rw [(getElem_mergeFiles hd he n).2] at hf
    cases hdf : d.files[n]? with
    | none =>
      rw [hdf, latest_none_left] at hf
      exact he.files n f hf
    | some g =>
      cases hef : e.files[n]? with
      | none =>
        rw [hdf, hef, latest_none_right] at hf
        exact hd.files n f (hdf.trans hf)
      | some k =>
        rw [hdf, hef, latest_some_some] at hf
        split at hf
        · exact he.files n f (hef.trans hf)
        · exact hd.files n f (hdf.trans hf)

end

/-! ## Timestamps -/

/-- The timestamps of a directory's files. Replicas are compared by them. -/
def stamps (d : DirV1) (n : String) : WithBot Nat :=
  match d.files[n]? with
  | some f => fileTs f
  | none => ⊥

/-- One entry's timestamp. -/
def stampOf (name : String) (f : FileRef) : String → WithBot Nat :=
  Function.update ⊥ name (fileTs f : WithBot Nat)

/-- The latest timestamps of a list of entries. -/
def latestStamps (written : List (String × FileRef)) : String → WithBot Nat :=
  written.foldl (fun t x => t ⊔ stampOf x.1 x.2) ⊥

@[simp]
theorem stamps_new : stamps .new = ⊥ := by
  funext n
  simp [stamps, DirV1.new]

theorem stamps_merge {W : String → FileRef → Prop} {d e : DirV1} (hd : Lists W d) (he : Lists W e) :
    stamps (mergeFiles d e) = stamps d ⊔ stamps e := by
  funext n
  rw [Pi.sup_apply]
  unfold stamps
  rw [(getElem_mergeFiles hd he n).2]
  cases d.files[n]? with
  | none => simp
  | some f =>
    cases e.files[n]? with
    | none => simp
    | some g =>
      rw [latest_some_some]
      by_cases ht : fileTs f < fileTs g
      · simp [ht, ht.le]
      · simp [ht, Nat.le_of_not_lt ht]

theorem latestStamps_concat (written : List (String × FileRef)) (name : String) (f : FileRef) :
    latestStamps (written ++ [(name, f)]) = latestStamps written ⊔ stampOf name f := by
  simp [latestStamps]

theorem le_latestStamps {written : List (String × FileRef)} {name : String} {f : FileRef}
    (h : (name, f) ∈ written) : (fileTs f : WithBot Nat) ≤ latestStamps written name := by
  induction written using List.reverseRecOn with
  | nil => cases h
  | append_singleton written x ih =>
    obtain ⟨k, g⟩ := x
    rw [latestStamps_concat, Pi.sup_apply]
    rcases List.mem_append.1 h with h | h
    · exact (ih h).trans le_sup_left
    · obtain ⟨rfl, rfl⟩ := Prod.mk.inj (List.mem_singleton.1 h)
      simp [stampOf]

/-! ## Roots -/

/-- An open root that is a plain directory of files and has no size check due. -/
structure IsFlat (W : String → FileRef → Prop) (ctx : DirContext Unit) (a : Actor) : Prop where
  context : a.context = ctx
  lists : Lists W a.state
  dirHandles : a.dirHandles = []
  dirShardHandles : a.dirShardHandles = []
  small : a.lastSerializedLen < maxDirBytesBeforeShard

section
variable {β : Type} {env : Env β} {W : String → FileRef → Prop} {ctx : DirContext Unit} {w : World β}
  {a : Actor}

theorem IsFlat.mono {W' : String → FileRef → Prop} (h : IsFlat W ctx a)
    (hW : ∀ n f, W n f → W' n f) : IsFlat W' ctx a :=
  { h with lists := h.lists.mono hW }

theorem IsFlat.unsharded (h : IsFlat W ctx a) : a.Unsharded :=
  ⟨by rw [h.lists.header]; rfl, by rw [h.lists.header]; rfl, h.dirShardHandles⟩

theorem IsFlat.markAsDirty {d : DirV1} (h : IsFlat W ctx a) (hd : Lists W d) :
    IsFlat W ctx ({ a with state := d }.markAsDirty) :=
  ⟨h.context, hd, h.dirHandles, h.dirShardHandles, h.small⟩

/-- What is looked up there is what its map of files holds. -/
theorem IsFlat.reaches (h : IsFlat W ctx a) {regs : RegistryDirHandles} {path : String}
    {r : Option FileRef} : Reaches env w regs a path r ↔ r = a.state.files[path]? := by
  rw [reaches_unsharded h.unsharded, h.lists.dirs, ExtTreeMap.getElem?_empty]

/-- A stored plain directory opens as a flat root. -/
theorem isFlat_open {d : DirV1} {len : Nat} (hl : load env ctx w = .ok (d, len)) (hd : Lists W d)
    (hlen : len < maxDirBytesBeforeShard) :
    ∃ a, FS5.openRoot env ctx w = .ok ⟨w, a, []⟩ ∧ IsFlat W ctx a ∧ a.state = d := by
  refine ⟨⟨ctx, d, false, [], [], len, 0⟩, ?_, ⟨rfl, hd, rfl, rfl, hlen⟩, rfl⟩
  unfold FS5.openRoot
  rw [spawn_ok hl]
  rfl

variable (env w) in
theorem isFlat_merge {e : DirV1} (h : IsFlat W ctx a) (he : Lists W e) :
    ∃ a', mergeSnapshot env w FS5.shardDepth a e = (a', .ok ()) ∧ IsFlat W ctx a' ∧
      a'.state = mergeFiles a.state e ∧ a'.dirty = true := by
  refine ⟨((a.mergeLocal e).mergeHeader e.header).markAsDirty, ?_, ?_, rfl, rfl⟩
  · have hlevel : a.state.header.shardLevel = none := h.unsharded.shardLevel
    simp [FS5.shardDepth, mergeSnapshot, hlevel]
  · refine ⟨h.context, h.lists.merge he, ?_, h.dirShardHandles, h.small⟩
    change a.dirHandles.filter _ = []
    rw [h.dirHandles, List.filter_nil]

variable [DecidableEq β]

/-- The size check leaves a root that fits as it is. -/
theorem isFlat_shardIfNeeded (h : IsFlat W ctx a)
    (hfit : env.len (env.toBytes a.state) < maxDirBytesBeforeShard) :
    ∃ a', shardIfNeeded env w a = (w, a', .ok ()) ∧ IsFlat W ctx a' ∧ a'.state = a.state ∧
      a'.dirty = a.dirty := by
  unfold shardIfNeeded
  rw [h.unsharded.shardLevel, Option.isSome_none, if_neg Bool.false_ne_true]
  dsimp only
  split
  · exact ⟨a, rfl, h, rfl, rfl⟩
  · rw [if_neg (Nat.not_le.2 hfit)]
    exact ⟨_, rfl, ⟨h.context, h.lists, h.dirHandles, h.dirShardHandles, hfit⟩, rfl, rfl⟩

/-- Without children a root that is saved just saves itself. -/
theorem saveIfDirty_flat (h : IsFlat W ctx a) (hroot : isRoot ctx = true) {a' : Actor}
    (hs : shardIfNeeded env w a = (w, a', .ok ())) (h' : IsFlat W ctx a') :
    saveIfDirty env a w = finishSave env w a' := by
  have hd := h.dirHandles
  have hd' := h'.dirHandles
  have hc := h.context
  have hl := h.unsharded.shardLevel
  have hsh := h.dirShardHandles
  have hsh' := h'.dirShardHandles
  obtain ⟨context, state, dirty, dirHandles, dirShardHandles, len, ops⟩ := a
  obtain ⟨context', state', dirty', dirHandles', dirShardHandles', len', ops'⟩ := a'
  dsimp only at hd hd' hc hl hsh hsh'
  subst hd hd' hc hsh hsh'
  rcases hsave : Actor.save env w ⟨context', state', dirty', [], [], len', ops'⟩ with
    ⟨w1, a1, e | hash⟩ <;>
    simp [saveIfDirty, Actor.finishSave, hroot, hs, saveShards, saveDirs, hl, hsave]

omit [DecidableEq β] in
theorem isFlat_clean (h : IsFlat W ctx a) : IsFlat W ctx { a with dirty := false } :=
  ⟨h.context, h.lists, h.dirHandles, h.dirShardHandles, h.small⟩

/-- Where the hash of a root goes is not kept in the root. -/
theorem save_keeps_root (hroot : isRoot a.context = true) : (Actor.save env w a).2.1 = a := by
  unfold Actor.save persist
  rcases encodeStateBytes env a.context a.state w with ⟨w1, e | b⟩
  · rfl
  · dsimp only
    rcases w1.importBytes env b with ⟨w2, e | hash⟩
    · rfl
    · dsimp only
      obtain ⟨context, state, dirty, dirHandles, dirShardHandles, len, ops⟩ := a
      cases hl : context.link with
      | localFile => rfl
      | registryKey publicKey signingKey => cases signingKey <;> rfl
      | dirHandle path handle initialHash level => simp [isRoot, hl] at hroot

/-- **A save changes nothing that is looked up.** -/
theorem isFlat_save (h : IsFlat W ctx a) (hroot : isRoot ctx = true)
    (hfit : env.len (env.toBytes a.state) < maxDirBytesBeforeShard) :
    IsFlat W ctx (saveIfDirty env a w).2.1 ∧ (saveIfDirty env a w).2.1.state = a.state := by
  obtain ⟨a', hs, h', hstate, -⟩ := isFlat_shardIfNeeded (w := w) h hfit
  rw [saveIfDirty_flat h hroot hs h']
  unfold Actor.finishSave
  split
  · have hkeep : (Actor.save env w a').2.1 = a' := by
      refine save_keeps_root ?_
      rw [h'.context]
      exact hroot
    generalize Actor.save env w a' = res at hkeep
    obtain ⟨w1, a1, e | hash⟩ := res
    · obtain rfl : a1 = a' := hkeep
      exact ⟨h', hstate⟩
    · obtain rfl : a1 = a' := hkeep
      exact ⟨isFlat_clean h', hstate⟩
  · exact ⟨h', hstate⟩

/-- A `FileOp` on a name is handled by the root itself, and makes no directory. -/
theorem request_flat (order : GroupOrder) (h : IsFlat W ctx a) (name : Name) (task : FileTask) :
    stepFs env order (w, a) (.file name.1 task) =
      (w.next, a.fileOpHere task (env.utcNow w.tick) name.1) := by
  have hdirs : a.state.dirs = ∅ := h.lists.dirs
  have hroute : route env a.state name.1 = .ok .here := by
    simp [route, h.unsharded.shardLevel, routeDirect, hdirs]
  have hslash : splitOnce name.1 = none := splitOnce_eq_none.2 name.2
  have hop : fileOpAt env order [] task w a name.1 =
      (w.next, a.fileOpHere task (env.utcNow w.tick) name.1, .ok ()) := by
    unfold fileOpAt fileOpHere
    cases ht : task.execute (env.utcNow w.tick) a.state.files[name.1]? with
    | none => simp
    | some file => simp [checkAutoPromote, hslash]
  have hnone : (splitPath name.1).1 ∉ (a.fileOpHere task (env.utcNow w.tick) name.1).state.dirs := by
    change (splitPath name.1).1 ∉ a.state.dirs
    rw [hdirs]
    exact ExtTreeMap.not_mem_empty
  simp only [stepFs, pathOp, hroute, fileOpStarted, hop, andStart, hnone, and_false, if_false]

omit [DecidableEq β] in
theorem getElem_fileOpHere (a : Actor) (task : FileTask) (now : UInt32 × UInt32) (name n : String) :
    (a.fileOpHere task now name).state.files[n]? =
      if name = n then task.execute now a.state.files[name]? else a.state.files[n]? := by
  have hfiles : (a.fileOpHere task now name).state.files =
      match task.execute now a.state.files[name]? with
      | some file => a.state.files.insert name file
      | none => a.state.files.erase name := rfl
  rw [hfiles]
  cases task.execute now a.state.files[name]? with
  | none => simp [ExtTreeMap.getElem?_erase]
  | some file => simp [ExtTreeMap.getElem?_insert]

section
variable {W' : String → FileRef → Prop} {task : FileTask} {now : UInt32 × UInt32} {name : String}

omit [DecidableEq β] in
theorem isFlat_fileOpHere (h : IsFlat W ctx a) (hW : ∀ n f, W n f → W' n f)
    (hf : ∀ f ∈ task.execute now a.state.files[name]?, W' name f) :
    IsFlat W' ctx (a.fileOpHere task now name) := by
  refine ⟨h.context, h.lists.withFiles _ fun n f hn => ?_, h.dirHandles, h.dirShardHandles, h.small⟩
  have hat := (getElem_fileOpHere a task now name n).symm.trans hn
  split at hat
  · rename_i hname
    exact hname ▸ hf f hat
  · exact hW n f (h.lists.files n f hat)

omit [DecidableEq β] in
theorem stamps_fileOpHere_same
    (h : task.execute now a.state.files[name]? = a.state.files[name]?) :
    stamps (a.fileOpHere task now name).state = stamps a.state := by
  funext n
  unfold stamps
  rw [getElem_fileOpHere, h]
  by_cases hn : name = n
  · rw [if_pos hn, hn]
  · rw [if_neg hn]

omit [DecidableEq β] in
/-- A newer entry moves the timestamp of its name on. -/
theorem stamps_fileOpHere {f : FileRef} (h : task.execute now a.state.files[name]? = some f)
    (hnew : ∀ g ∈ a.state.files[name]?, fileTs g < fileTs f) :
    stamps (a.fileOpHere task now name).state = stamps a.state ⊔ stampOf name f := by
  funext n
  rw [Pi.sup_apply]
  unfold stamps
  rw [getElem_fileOpHere, h]
  by_cases hn : name = n
  · subst hn
    rw [if_pos rfl]
    cases hg : a.state.files[name]? with
    | none => simp [stampOf]
    | some g => simp [stampOf, (hnew g hg).le]
  · simp [hn, stampOf, Ne.symm hn]

end

/-! ## The encrypted root -/

variable {keys : SyncKeys}

/-- A save of the encrypted root takes place in two halves. -/
theorem saveIfDirty_eq_publish (h : IsFlat W keys.context a)
    (hfit : env.len (env.toBytes a.state) < maxDirBytesBeforeShard) :
    saveIfDirty env a w =
      match prepareSave env keys.publicKey w a with
      | (w, a, .ok (some entry)) =>
        match publishSave keys.publicKey w a entry with
        | (w, a) => (w, a, .ok none)
      | (w, a, .ok none) => (w, a, .ok none)
      | (w, a, .error e) => (w, a, .error e) := by
  obtain ⟨a', hs, h', hstate, -⟩ := isFlat_shardIfNeeded (w := w) h hfit
  rw [saveIfDirty_flat h rfl hs h']
  unfold Actor.finishSave prepareSave publishSave
  rw [hs]
  dsimp only
  split
  · unfold Actor.save persist
    rcases encodeStateBytes env a'.context a'.state w with ⟨w1, e | b⟩
    · rfl
    · dsimp only
      rcases w1.importBytes env b with ⟨w2, e | hash⟩
      · rfl
      · have hlink : a'.context.link = .registryKey keys.publicKey (some keys.signingKey) := by
          rw [h'.context]
          rfl
        obtain ⟨⟨link, encryptionType, keyTable, signingKey⟩, _⟩ := a'
        dsimp only at hlink
        subst hlink
        rfl
  · rfl

/-- The sealed bytes of a state. -/
def sealed (env : Env β) (keys : SyncKeys) (nonce : Nonce) (d : DirV1) : β :=
  env.encrypt keys.encryptionKey nonce (env.toBytes d)

/-- **The first half of a save** puts the sealed state into the store, unless the store fails, and
makes the entry that is next. -/
theorem prepareSave_flat (h : IsFlat W keys.context a)
    (hfit : env.len (env.toBytes a.state) < maxDirBytesBeforeShard) :
    ∃ w' a' r, prepareSave env keys.publicKey w a = (w', a', r) ∧ IsFlat W keys.context a' ∧
      a'.state = a.state ∧ w.Onward w' ∧
      (∀ entry, r = .ok (some entry) → w'.collided = false →
        (∃ nonce, w'.store[entry.hash]? = some (sealed env keys nonce a.state)) ∧
          entry.revision = match w.registry[keys.publicKey]? with
            | some current => current.revision + 1
            | none => 0) ∧
      (a.dirty = true → (∀ n, w.tick ≤ n → env.storeFails n = false) →
        ∃ entry, r = .ok (some entry)) := by
  obtain ⟨a', hs, h', hstate, hdirty⟩ := isFlat_shardIfNeeded (w := w) h hfit
  unfold prepareSave
  rw [hs]
  dsimp only
  by_cases hd : a'.dirty = true
  · have henc : encodeStateBytes env a'.context a'.state w =
        (w.next, .ok (sealed env keys (env.nonce w.tick) a.state)) := by
      rw [h'.context, hstate]
      simp [encodeStateBytes, SyncKeys.context, DirContext.newEncryptedRegistry, sealed]
    rw [if_pos hd, henc]
    dsimp only
    have hon := World.onward_importBytes env w.next (sealed env keys (env.nonce w.tick) a.state)
    have hturn := (World.importBytes_turn env w.next (sealed env keys (env.nonce w.tick) a.state)).2
    generalize himp : w.next.importBytes env (sealed env keys (env.nonce w.tick) a.state) = imp
      at hon hturn
    obtain ⟨w2, e | hash⟩ := imp
    · refine ⟨w2, a', .error e, rfl, h', hstate, w.onward_next.trans hon, fun entry he => ?_,
        fun _ hstore => ?_⟩
      · cases he
      · rw [hstore w.next.tick (Nat.le_succ _)] at hturn
        cases hturn
    · refine ⟨w2, a', _, rfl, h', hstate, w.onward_next.trans hon, fun entry he hc => ?_,
        fun _ _ => ⟨_, rfl⟩⟩
      obtain rfl := Option.some.inj (Except.ok.inj he)
      refine ⟨⟨_, (World.importBytes_ok himp hc).2⟩, ?_⟩
      rw [hon.grows.registry]
      rfl
  · rw [if_neg hd]
    refine ⟨w, a', _, rfl, h', hstate, .refl w, fun entry he => ?_, fun hdirt => ?_⟩
    · cases he
    · exact absurd (hdirty.trans hdirt) hd

end

end Node
