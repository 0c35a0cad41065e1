import S5.Node.Sync
import S5.Fs.Proof.ShardMerge

/-!
# What a synchronisation carries over

A push exports the state of the root as it is: references to subdirectories and shards, not what
they refer to. The destination has a meta store of its own in which none of these blobs is, so only
files that the root itself holds arrive.

* `sync_preserves_iff`: every file of the source resolves at the destination, exactly when every
  file lies in the root and wins against the directories it could hide behind (`Flat`).
-/

open Std

namespace Node

open Fs Actor

/-! ## Merging into an empty root -/

/-- An empty directory after the merge of `S`. -/
def mergedNew (S : DirV1) : DirV1 :=
  { DirV1.new with
    header := mergeHeaderFields .new S.header
    dirs := (mergeEntriesLocal .new S.dirs S.files).dirs
    files := (mergeEntriesLocal .new S.dirs S.files).files }

theorem mergedNew_entry (S : DirV1) (n : String) :
    (mergedNew S).entry n = lwwEntry (none, none) (S.entry n) :=
  mergeEntriesLocal_entry .new S.dirs S.files n

/-- What is merged into nothing holds a directory or a file under a name, not both. -/
theorem lwwEntry_new (r : Entry) :
    lwwEntry (none, none) r =
      match r.1, r.2 with
      | some d, some f => if dirTs d < fileTs f then (none, some f) else (some d, none)
      | d, f => (d, f) := by
  obtain ⟨d, f⟩ := r
  cases d with
  | none => cases f <;> rfl
  | some d =>
    cases f with
    | none => rfl
    | some f =>
      by_cases ht : dirTs d < fileTs f
      · simp [lwwEntry, lww, lwwDir, lwwFile, ht]
      · simp [lwwEntry, lww, lwwDir, lwwFile, ht]

theorem lwwEntry_new_twice (r : Entry) :
    lwwEntry (none, none) (lwwEntry (none, none) r) = lwwEntry (none, none) r := by
  obtain ⟨d, f⟩ := r
  rw [lwwEntry_new (d, f)]
  cases d with
  | none => cases f <;> rfl
  | some d =>
    cases f with
    | none => rfl
    | some f =>
      by_cases ht : dirTs d < fileTs f
      · simp only [ht, if_true]
        rfl
      · simp only [ht, if_false]
        rfl

/-- A sequence of calls goes well only if its first call does. -/
theorem bind_eq_ok {α γ : Type} {call : Except String α} {next : α → Except String γ} {out : γ}
    (h : call >>= next = .ok out) : ∃ mid, call = .ok mid ∧ next mid = .ok out := by
  match call, h with
  | .ok mid, h => exact ⟨mid, rfl, h⟩

section
variable {β : Type} [DecidableEq β] {env : Env β}

/-- An actor that has just been opened on an empty, small root. -/
structure IsNew (ctx : DirContext Unit) (a : Actor) : Prop where
  context : a.context = ctx
  root : isRoot ctx = true
  state : a.state = .new
  dirHandles : a.dirHandles = []
  dirShardHandles : a.dirShardHandles = []
  small : a.lastSerializedLen < maxDirBytesBeforeShard
  ops : a.shardSizeCheckOps = 0

/-- Saving an unsharded directory without open children that is not due for a size check. -/
theorem saveIfDirty_closed {w : World β} {a : Actor} (hd : a.dirty = true)
    (hdirs : a.dirHandles = []) (hshards : a.dirShardHandles = [])
    (hsmall : a.lastSerializedLen < maxDirBytesBeforeShard)
    (hops : a.shardSizeCheckOps.toNat < shardSizeCheckOpInterval) :
    saveIfDirty env a w =
      match Actor.save env w a with
      | (w, a, .ok h) => (w, { a with dirty := false }, .ok h)
      | (w, a, .error e) => (w, a, .error e) := by
  obtain ⟨context, state, dirty, dirHandles, dirShardHandles, len, ops⟩ := a
  dsimp only at hd hdirs hshards hsmall hops
  subst hd hdirs hshards
  have hskip : shardIfNeeded env w ⟨context, state, true, [], [], len, ops⟩ =
      (w, ⟨context, state, true, [], [], len, ops⟩, .ok ()) := by
    simp [shardIfNeeded, hsmall, hops]
  rcases hs : Actor.save env w ⟨context, state, true, [], [], len, ops⟩ with ⟨w', a', e | h⟩ <;>
    simp [saveIfDirty, hskip, saveShards, saveDirs, hs]

/-- A merge into an empty root, saved. -/
theorem mergeAndSave_new {fs fs' : FS5 β} {ctx : DirContext Unit} {S : DirV1}
    (hn : IsNew ctx fs.root) (h : mergeAndSave env fs S = (fs', .ok ())) :
    ∃ a a' hash, a.context = ctx ∧ a.state = mergedNew S ∧ a.dirHandles = [] ∧
      a.dirShardHandles = [] ∧ Actor.save env fs.world a = (fs'.world, a', .ok hash) ∧
      fs'.root = { a' with dirty := false } ∧ fs'.registryDirHandles = fs.registryDirHandles := by
  let a : Actor := ((fs.root.mergeLocal S).mergeHeader S.header).markAsDirty
  have hmerge : Actor.mergeSnapshot env fs.world FS5.shardDepth fs.root S = (a, .ok ()) := by
    simp [FS5.shardDepth, mergeSnapshot, hn.state, DirV1.new, DirHeader.new, a]
  have hops : a.shardSizeCheckOps.toNat < shardSizeCheckOpInterval := by
    show (markAsDirty ((fs.root.mergeLocal S).mergeHeader S.header)).shardSizeCheckOps.toNat < _
    have h0 : ((fs.root.mergeLocal S).mergeHeader S.header).shardSizeCheckOps = 0 := hn.ops
    simp only [markAsDirty, h0]
    decide
  have hdirs : a.dirHandles = [] := by
    show fs.root.dirHandles.filter _ = []
    rw [hn.dirHandles, List.filter_nil]
  have hsave := @saveIfDirty_closed β _ env fs.world a rfl hdirs hn.dirShardHandles hn.small hops
  unfold mergeAndSave FS5.mergeFromSnapshot at h
  rw [hmerge] at h
  dsimp only at h
  unfold FS5.save at h
  dsimp only at h
  rw [hsave] at h
  generalize hres : Actor.save env fs.world a = res at h
  obtain ⟨w1, a1, r⟩ := res
  cases r with
  | error e => cases h
  | ok hash =>
    obtain ⟨rfl, -⟩ := Prod.mk.inj h
    refine ⟨a, a1, hash, hn.context, ?_, hdirs, hn.dirShardHandles, hres, rfl, rfl⟩
    show ({ fs.root.state with
      header := mergeHeaderFields fs.root.state.header S.header
      dirs := (mergeEntriesLocal fs.root.state S.dirs S.files).dirs
      files := (mergeEntriesLocal fs.root.state S.dirs S.files).files } : DirV1) = mergedNew S
    rw [hn.state]
    rfl

/-! ## The hop through the registry -/

omit [DecidableEq β] in
theorem openRoot_world {ctx : DirContext Unit} {w : World β} {fs : FS5 β}
    (h : FS5.openRoot env ctx w = .ok fs) : fs.world = w := by
  obtain ⟨a, -, h⟩ := bind_eq_ok h
  obtain rfl := Except.ok.inj h
  rfl

/-- What the encrypted file system holds is what any node with the keys finds in the registry. -/
theorem openRoot_pushed (law : env.Lawful) {enc enc' enc2 : FS5 β} {keys : SyncKeys} {S : DirV1}
    (hn : IsNew keys.context enc.root) (h : mergeAndSave env enc S = (enc', .ok ()))
    (hfresh : enc.world.registry[keys.publicKey]? = none) (hc : enc'.world.collided = false) (ho : FS5.openRoot env keys.context enc'.world = .ok enc2) :
    enc2.root.state = mergedNew S := by
  obtain ⟨a, a', hash, hctx, hstate, -, -, hsave, -, -⟩ := mergeAndSave_new hn h
  have hlink : a.context.link = .registryKey keys.publicKey (some keys.signingKey) := by rw [hctx]; rfl
  have henc : encodeStateBytes env a.context a.state enc.world = (enc.world.next,
      .ok (env.encrypt keys.encryptionKey (env.nonce enc.world.tick) (env.toBytes (mergedNew S)))) := by
    rw [hctx, hstate]
    simp [encodeStateBytes, SyncKeys.context, DirContext.newEncryptedRegistry]
  unfold Actor.save persist at hsave
  rw [henc] at hsave
  dsimp only at hsave
  generalize himp : enc.world.next.importBytes env
    (env.encrypt keys.encryptionKey (env.nonce enc.world.tick) (env.toBytes (mergedNew S))) =
      imp at hsave
  obtain ⟨w1, r⟩ := imp
  cases r with
  | error e => cases hsave
  | ok k =>
    simp only [hlink] at hsave
    obtain ⟨hw, -⟩ := Prod.mk.inj hsave
    -- no entry is there to beat
    have hfresh1 : w1.registry[keys.publicKey]? = none := by
      have hg := World.grows_importBytes env enc.world.next
        (env.encrypt keys.encryptionKey (env.nonce enc.world.tick) (env.toBytes (mergedNew S)))
      rw [himp] at hg
      rw [hg.registry]
      exact hfresh
    rw [World.setRegistry, hfresh1] at hw
    have hc1 : w1.collided = false := by rw [← hw] at hc; exact hc
    obtain ⟨-, hstored⟩ := World.importBytes_ok himp hc1
    have hdec : load env keys.context enc'.world =
        .ok (mergedNew S, env.len (env.toBytes (mergedNew S))) := by
      rw [← hw]
      simp [load, SyncKeys.context, DirContext.newEncryptedRegistry, World.readAsBytes, hstored,
        decryptIfNeeded, law.decrypt_encrypt, decodeDir, law.fromBytes_toBytes, bind, Except.bind]
    unfold FS5.openRoot at ho
    rw [spawn_ok hdec] at ho
    obtain rfl := Except.ok.inj ho
    rfl

/-! ## The destination -/

theorem mergedNew_files {S : DirV1} {n : String} {f : FileRef} :
    (mergedNew S).files[n]? = some f ↔
      S.files[n]? = some f ∧ ∀ d, S.dirs[n]? = some d → dirTs d < fileTs f := by
  have h : (mergedNew S).files[n]? = (lwwEntry (none, none) (S.entry n)).2 :=
    congrArg Prod.snd (mergedNew_entry S n)
  rw [h, lwwEntry_new]
  simp only [DirV1.entry]
  cases S.dirs[n]? with
  | none => simp
  | some d =>
    cases S.files[n]? with
    | none => simp
    | some g =>
      by_cases ht : dirTs d < fileTs g
      · simp only [ht, if_true, Option.some.injEq, forall_eq']
        exact ⟨fun e => ⟨e, e ▸ ht⟩, fun e => e.1⟩
      · simp only [ht, if_false, Option.some.injEq, forall_eq', reduceCtorEq, false_iff, not_and]
        exact fun e => e ▸ ht

theorem mergedNew_dirs {S : DirV1} {n : String} :
    (mergedNew S).dirs[n]? = none ↔
      ∀ d, S.dirs[n]? = some d → ∃ g, S.files[n]? = some g ∧ dirTs d < fileTs g := by
  have h : (mergedNew S).dirs[n]? = (lwwEntry (none, none) (S.entry n)).1 :=
    congrArg Prod.fst (mergedNew_entry S n)
  rw [h, lwwEntry_new]
  simp only [DirV1.entry]
  cases S.dirs[n]? with
  | none => simp
  | some d =>
    cases S.files[n]? with
    | none => simp
    | some g =>
      by_cases ht : dirTs d < fileTs g
      · simp [ht]
      · simp [ht]

theorem mergedNew_twice (S : DirV1) (n : String) :
    (mergedNew (mergedNew S)).entry n = (mergedNew S).entry n := by
  rw [mergedNew_entry, mergedNew_entry, lwwEntry_new_twice]

/-- A new local root stores nothing but its own snapshot. -/
theorem save_newLocal {tick : Nat} {w' : World β} {a a' : Actor} {r : Option Hash}
    (hctx : a.context = .localRoot)
    (h : Actor.save env (FS5.newLocalWorld env tick) a = (w', a', .ok r)) :
    a' = a ∧ w'.registry = ∅ ∧
      ∀ k, k ≠ env.blake3 (env.toBytes a.state) → w'.store[k]? = none := by
  have henc : encodeStateBytes env a.context a.state (FS5.newLocalWorld env tick) =
      (FS5.newLocalWorld env tick, .ok (env.toBytes a.state)) := by
    simp [encodeStateBytes, hctx, DirContext.localRoot]
  unfold Actor.save persist at h
  rw [henc] at h
  dsimp only at h
  cases hfail : env.storeFails tick with
  | true =>
    simp only [World.importBytes, FS5.newLocalWorld, hfail, if_true] at h
    cases h
  | false =>
    simp only [World.importBytes, FS5.newLocalWorld, hfail, ExtTreeMap.getElem?_empty,
      Bool.false_eq_true, if_false, hctx, DirContext.localRoot] at h
    obtain ⟨rfl, h2⟩ := Prod.mk.inj h
    obtain ⟨rfl, -⟩ := Prod.mk.inj h2
    refine ⟨?_, rfl, fun k hk => ?_⟩
    · obtain ⟨ctx, _⟩ := a
      obtain rfl : ctx = .localRoot := hctx
      rfl
    · simp [Ne.symm hk]

omit [DecidableEq β] in
/-- A child directory of a root whose store has only the root's own snapshot holds nothing. -/
theorem reachesIn_missing {w : World β} {a : Actor} {n rest : String} {d : DirRef}
    {r : Option FileRef} (hdirs : a.dirHandles = []) (hd : a.state.dirs[n]? = some d)
    (hreg : w.registry = ∅) (hstore : w.store[d.hash]? = none) :
    ReachesIn env w [] (openDir env w [] a n) rest r ↔ r = none := by
  unfold openDir
  simp only [hdirs, List.lookup_nil, hd]
  cases ht : d.refTypeD with
  | blake3Hash =>
    have hload : load env (a.context.withNewRef d (dirLink a.context () n d)) w =
        .error "while reading from blob store" := by
      simp [load, dirLink, ht, DirContext.withNewRef, World.readAsBytes, hstore, bind, Except.bind]
    simp [spawn, hload, bind, Except.bind, ReachesIn]
  | registryKey =>
    have hload : load env (a.context.withNewRef d (dirLink a.context () n d)) w = .ok (.new, 0) := by
      simp [load, dirLink, ht, DirContext.withNewRef, hreg]
    have hnew : route env DirV1.new rest = .ok .here := by
      simp [route, routeDirect, DirV1.new, DirHeader.new]
    simp only [spawn_ok hload, ReachesIn]
    rw [reaches_iff, hnew]
    simp [DirV1.new]

/-- Every file of the source lies in the root's own map, and no directory of the root that is named
by its path or the path's first segment wins the merge. -/
def Flat (env : Env β) (fs : FS5 β) : Prop :=
  ∀ path f, fs.FileGet env path (some f) →
    fs.root.state.files[path]? = some f ∧
    (∀ d, fs.root.state.dirs[path]? = some d → dirTs d < fileTs f) ∧
    ∀ d, fs.root.state.dirs[(splitPath path).1]? = some d →
      ∃ g, fs.root.state.files[(splitPath path).1]? = some g ∧ dirTs d < fileTs g

omit [DecidableEq β] in
theorem fileGet_some {fs : FS5 β} {path : String} {f : FileRef} :
    fs.FileGet env path (some f) ↔
      Reaches env fs.world fs.registryDirHandles fs.root path (some f) ∧ f.isTombstone = false := by
  unfold FS5.FileGet live
  constructor
  · intro ⟨q, hq, hf⟩
    obtain ⟨rfl, ht⟩ := Option.filter_eq_some_iff.1 hf.symm
    exact ⟨hq, by simpa using ht⟩
  · intro ⟨hq, ht⟩
    exact ⟨some f, hq, by rw [Option.filter_some, if_pos (by simp [ht])]⟩

omit [DecidableEq β] in
theorem completed_ok {x : FS5 β × Except String Unit} {fs : FS5 β} (h : completed x = .ok fs) :
    x = (fs, .ok ()) := by
  obtain ⟨fs', r⟩ := x
  cases r with
  | error e => cases h
  | ok u => obtain rfl := Except.ok.inj h; rfl

/-- The calls of a synchronisation, one by one. -/
theorem sync_ok {keys : SyncKeys} {cloud cloud' : World β} {tick : Nat} {source dest : FS5 β}
    (h : sync env keys cloud tick source = .ok (cloud', dest)) :
    ∃ enc enc' enc2 dest0, FS5.openRoot env keys.context cloud = .ok enc ∧
      pushSnapshot env source enc = (enc', .ok ()) ∧ enc'.world = cloud' ∧
      FS5.openRoot env keys.context cloud' = .ok enc2 ∧
      FS5.openRoot env .localRoot (FS5.newLocalWorld env tick) = .ok dest0 ∧
      pullSnapshot env enc2 dest0 = (dest, .ok ()) := by
  unfold sync at h
  obtain ⟨enc, henc, h⟩ := bind_eq_ok h
  obtain ⟨enc', hpush, h⟩ := bind_eq_ok h
  obtain ⟨enc2, hreopen, h⟩ := bind_eq_ok h
  obtain ⟨dest0, hdest, h⟩ := bind_eq_ok h
  obtain ⟨dest', hpull, h⟩ := bind_eq_ok h
  obtain ⟨rfl, rfl⟩ := Prod.mk.inj (Except.ok.inj h)
  exact ⟨enc, enc', enc2, dest0, henc, completed_ok hpush, rfl, hreopen, hdest, completed_ok hpull⟩

/-- **A synchronisation preserves every file** exactly if the source is `Flat`. -/
theorem sync_preserves_iff (law : env.Lawful) {keys : SyncKeys} {cloud cloud' : World β} {tick : Nat}
    {source dest : FS5 β} (hempty : env.len (env.toBytes .new) < maxDirBytesBeforeShard)
    (hfresh : cloud.registry[keys.publicKey]? = none)
    (hsync : sync env keys cloud tick source = .ok (cloud', dest)) (hc : cloud'.collided = false)
    (hself : ∀ (n : String) (d : DirRef), dest.root.state.dirs[n]? = some d →
      d.hash ≠ env.blake3 (env.toBytes dest.root.state)) :
    (∀ path f, source.FileGet env path (some f) → dest.FileGet env path (some f)) ↔
      Flat env source := by
  obtain ⟨enc, enc', enc2, dest0, henc, hpush, rfl, hreopen, hdest, hpull⟩ := sync_ok hsync
  have hnewEnc : IsNew keys.context enc.root := by
    have hload : load env keys.context cloud = .ok (.new, 0) := by
      simp [load, SyncKeys.context, DirContext.newEncryptedRegistry, hfresh]
    unfold FS5.openRoot at henc
    rw [spawn_ok hload] at henc
    obtain rfl := Except.ok.inj henc
    exact ⟨rfl, rfl, rfl, rfl, rfl, Nat.zero_lt_succ _, rfl⟩
  have hfreshEnc : enc.world.registry[keys.publicKey]? = none := by
    rw [openRoot_world henc]
    exact hfresh
  have hnewDest : IsNew .localRoot dest0.root ∧ dest0.world = FS5.newLocalWorld env tick ∧
      dest0.registryDirHandles = [] := by
    have hload : load env (.localRoot : DirContext Unit) (FS5.newLocalWorld env tick) =
        .ok (.new, env.len (env.toBytes .new)) := by
      simp [load, DirContext.localRoot, FS5.newLocalWorld, decodeDir, law.fromBytes_toBytes]
    unfold FS5.openRoot at hdest
    rw [spawn_ok hload] at hdest
    obtain rfl := Except.ok.inj hdest
    exact ⟨⟨rfl, rfl, rfl, rfl, rfl, hempty, rfl⟩, rfl, rfl⟩
  have hstate2 : enc2.root.state = mergedNew source.root.state :=
    openRoot_pushed law hnewEnc hpush hfreshEnc hc hreopen
  obtain ⟨a, a', hash, hctx, hstate, hdirs, hshards, hsave, hroot, hregs⟩ :=
    mergeAndSave_new hnewDest.1 hpull
  rw [hnewDest.2.1] at hsave
  obtain ⟨rfl, hreg, hstore⟩ := save_newLocal hctx hsave
  have hstate' : dest.root.state = mergedNew (mergedNew source.root.state) := by
    rw [hroot, ← hstate2]
    exact hstate
  have hstored : a'.state = dest.root.state := by rw [hroot]
  -- what the destination resolves a path to
  have hget : ∀ path f, dest.FileGet env path (some f) ↔
      ((mergedNew source.root.state).dirs[(splitPath path).1]? = none ∧
        (mergedNew source.root.state).files[path]? = some f) ∧ f.isTombstone = false := by
    intro path f
    have hu : dest.root.Unsharded :=
      ⟨by rw [hstate']; rfl, by rw [hstate']; rfl, by rw [hroot]; exact hshards⟩
    have hd : ∀ n : String, dest.root.state.dirs[n]? = (mergedNew source.root.state).dirs[n]? := by
      intro n
      rw [hstate']
      exact congrArg Prod.fst (mergedNew_twice source.root.state n)
    have hf : ∀ n : String, dest.root.state.files[n]? = (mergedNew source.root.state).files[n]? := by
      intro n
      rw [hstate']
      exact congrArg Prod.snd (mergedNew_twice source.root.state n)
    rw [fileGet_some, hregs, hnewDest.2.2, reaches_unsharded hu, ← hd, ← hf]
    cases hdir : dest.root.state.dirs[(splitPath path).1]? with
    | none => exact and_congr_left' ⟨fun h => ⟨rfl, h.symm⟩, fun h => h.2.symm⟩
    | some d =>
      have hmiss : dest.world.store[d.hash]? = none := by
        refine hstore d.hash ?_
        rw [hstored]
        exact hself _ d hdir
      dsimp only
      rw [reachesIn_missing (by rw [hroot]; exact hdirs) hdir hreg hmiss]
      simp
  unfold Flat
  refine forall_congr' fun path => forall_congr' fun f => imp_congr_right fun hsrc => ?_
  rw [hget, mergedNew_files, mergedNew_dirs]
  have htomb := (fileGet_some.1 hsrc).2
  constructor
  · rintro ⟨⟨hfirst, hfile, hwins⟩, -⟩
    exact ⟨hfile, hwins, hfirst⟩
  · rintro ⟨hfile, hwins, hfirst⟩
    exact ⟨⟨hfirst, hfile, hwins⟩, htomb⟩

end

/-! A source whose files are in the root, and one with a file in a subdirectory. -/

def syncKeys : SyncKeys := ⟨7, 8, 9⟩

/-- A subdirectory whose one file has been deleted. -/
def childOfTombstone : DirV1 :=
  { DirV1.new with
    files := (∅ : ExtTreeMap String FileRef).insert "f" (.fromDeleted (.new 4 4) 7 0) }

/-- A saved root with files, one of them under a key of two segments, and that subdirectory. -/
def sourceMixed : FS5 Sym := ⟨mixedWorld childOfTombstone, mixedRoot childOfTombstone, []⟩

/-- All files of the source are the root's own. -/
theorem sourceMixed_flat : Flat (symbolic xxh3Short) sourceMixed := by
  have hchild : (openedChild childOfTombstone).Unsharded := ⟨rfl, rfl, rfl⟩
  intro path f hget
  obtain ⟨hreach, hlive⟩ := fileGet_some.1 hget
  have hfile := (reaches_mixedRoot hchild rfl (by decide +kernel) path (some f)).1 hreach
  by_cases hp : (splitPath path).1 = "d"
  · -- the subdirectory has no file left
    rw [if_pos hp] at hfile
    by_cases hrest : (splitPath path).2 = "f"
    · rw [hrest] at hfile
      have htomb : f.isTombstone = true := by
        obtain rfl : f = .fromDeleted (.new 4 4) 7 0 := by simpa [childOfTombstone] using hfile
        decide
      rw [htomb] at hlive
      cases hlive
    · simp [childOfTombstone, DirV1.new, Ne.symm hrest] at hfile
  · rw [if_neg hp] at hfile
    refine ⟨hfile.symm, fun d hd => ?_, fun d hd => absurd (mixedRoot_dirs hd).1 hp⟩
    obtain ⟨rfl, -⟩ := mixedRoot_dirs hd
    exact absurd (by decide) hp

theorem sync_preserves_sourceMixed :
    ∃ cloud' dest, sync (symbolic xxh3Short) syncKeys emptyWorld 5 sourceMixed = .ok (cloud', dest) ∧
      ∀ path f, sourceMixed.FileGet (symbolic xxh3Short) path (some f) →
        dest.FileGet (symbolic xxh3Short) path (some f) := by
  have hok : (sync (symbolic xxh3Short) syncKeys emptyWorld 5 sourceMixed).toOption.map
      (fun r => (r.1.collided, decide (∀ e ∈ r.2.root.state.dirs.toList,
        e.2.hash ≠ (symbolic xxh3Short).blake3 (.plain r.2.root.state)))) = some (false, true) := by
    decide +kernel
  generalize hsync : sync (symbolic xxh3Short) syncKeys emptyWorld 5 sourceMixed = r at hok
  cases r with
  | error e => cases hok
  | ok res =>
    obtain ⟨cloud', dest⟩ := res
    obtain ⟨hc, hself⟩ := Prod.mk.inj (Option.some.inj hok)
    refine ⟨cloud', dest, rfl, (sync_preserves_iff (symbolic_lawful xxh3Short) (by decide +kernel)
      (by decide +kernel) hsync hc fun n d hd => ?_).2 sourceMixed_flat⟩
    exact of_decide_eq_true hself (n, d) (ExtTreeMap.mem_toList_iff_getElem?_eq_some.2 hd)

/-- The saved directory of the file `x`. -/
def dirX : DirV1 :=
  { DirV1.new with files := (∅ : ExtTreeMap String FileRef).insert "x" (FileRef.new 1 1) }

def refX : DirRef :=
  storedDirRef (DirContext.localRoot : DirContext Unit) ((symbolic xxh3Short).blake3 (.plain dirX))
    none (1, 0)

/-- A saved root whose subdirectory `d` has the file `x`. -/
def sourceSubdir : FS5 Sym where
  world := { emptyWorld with store := (∅ : ExtTreeMap Hash Sym).insert refX.hash (.plain dirX) }
  root := { oneFile "a" with
    state := { DirV1.new with dirs := (∅ : ExtTreeMap String DirRef).insert "d" refX } }
  registryDirHandles := []

theorem sync_drops_subdir :
    ∃ cloud' dest, sync (symbolic xxh3Short) syncKeys emptyWorld 5 sourceSubdir =
        .ok (cloud', dest) ∧
      ¬ ∀ path f, sourceSubdir.FileGet (symbolic xxh3Short) path (some f) →
        dest.FileGet (symbolic xxh3Short) path (some f) := by
  have hrun : (sync (symbolic xxh3Short) syncKeys emptyWorld 5 sourceSubdir).toOption.bind
      (fun r => lookup (symbolic xxh3Short) r.2.world r.2.registryDirHandles 2 r.2.root "d/x") =
        some none := by
    decide +kernel
  generalize hsync : sync (symbolic xxh3Short) syncKeys emptyWorld 5 sourceSubdir = r at hrun
  cases r with
  | error e => cases hrun
  | ok res =>
    obtain ⟨cloud', dest⟩ := res
    refine ⟨cloud', dest, rfl, fun h => ?_⟩
    have hsource : sourceSubdir.FileGet (symbolic xxh3Short) "d/x" (some (FileRef.new 1 1)) :=
      ⟨some (FileRef.new 1 1), ⟨2, by decide +kernel⟩, rfl⟩
    have hdest := (fileGet_some.1 (h "d/x" _ hsource)).1
    cases hdest.unique ⟨2, hrun⟩

end Node
