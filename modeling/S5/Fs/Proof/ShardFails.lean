import S5.Fs.Proof.Create
import S5.Fs.Symbolic

/-!
# Sharding that fails

`shard` sets the level before it writes the shards and adds each to the header as soon as it has been
written. When it fails, the directory has its entries still, but lookups go to the shards that are
there.

* `part_shard`: what a `shard` that fails leaves.
* `reaches_failed`: what a lookup reaches then.
* `failed_shard_keeps_iff`: every path resolves as before, and a later save writes everything, exactly
  under `FailedShardKeeps`.
-/

open Std

namespace Fs

/-- A reference without its hash. -/
def DirRef.unhashed (r : DirRef) : DirRef := { r with hash := 0 }

namespace Actor

section
variable {β : Type} {env : Env β} {w w' : World β} {regs : RegistryDirHandles} {a a' : Actor}

/-! ## Lookups in a directory that is split in part -/

/-- `a'` is the unsharded directory `a` with shards for the buckets `ws` only. -/
abbrev PartOf (env : Env β) (ws : List UInt8) (w : World β) (a : Actor) (w' : World β) (a' : Actor) :
    Prop :=
  Part env a.splitLevel a.state ws w { a with state.header.shardLevel := some a.splitLevel } w' a'

/-- The buckets that a `shard` which fails has written before. -/
def writtenBuckets (env : Env β) (w : World β) (a : Actor) : List UInt8 :=
  written env a.context a.splitLevel a.state buckets w.tick

theorem part_shard [DecidableEq β] (law : env.Lawful) (hu : a.Unsharded) {e : String}
    (hrun : shard env w a = (w', a', .error e)) (hc : w'.collided = false) :
    PartOf env (writtenBuckets env w a) w a w' a' := by
  unfold shard at hrun
  simp only [hu.shardLevel] at hrun
  generalize hloop : shardBuckets env a.splitLevel a.state buckets w
    { a with state.header.shardLevel := some a.splitLevel } = res at hrun
  obtain ⟨w1, a1, e1 | u⟩ := res
  · obtain ⟨rfl, rfl, -⟩ := by simpa using hrun
    exact (part_shardBuckets law buckets buckets_nodup (by simp [hu.dirShardHandles]) rfl hloop hc).1
  · cases hrun

section
variable {ws : List UInt8}

theorem PartOf.shardRef_other (hp : PartOf env ws w a w' a') (hu : a.Unsharded) {i : UInt8}
    (hi : i ∉ ws) : a'.shardRef i = none := by
  rw [(hp.other i hi).1]
  simp [shardRef, hu.shards]

theorem PartOf.shardRef_isSome (hp : PartOf env ws w a w' a') {i : UInt8} (hi : i ∈ ws) :
    (a'.shardRef i).isSome := by
  by_cases hlt : a.splitLevel < maxShardLevel
  · obtain ⟨ref, child, href, -, -⟩ := hp.shard i hi hlt
    rw [href]
    rfl
  · exact (hp.stuck i hi hlt).1

/-- A lookup goes to the shard of its first segment if there is one. -/
theorem PartOf.route (hp : PartOf env ws w a w' a') (hu : a.Unsharded)
    (hl : a.splitLevel ≤ maxShardLevel) (path : String) :
    route env a'.state path =
      if shardIndex env (splitPath path).1 a.splitLevel ∈ ws
      then .ok (.shard (shardIndex env (splitPath path).1 a.splitLevel))
      else .ok (routeDirect a'.state path) := by
  have hlevel : a'.state.header.shardLevel = some a.splitLevel := hp.shardLevel
  unfold Fs.route shardBucketFor
  rw [hlevel]
  dsimp only
  rw [if_pos hl]
  simp only [bind, Except.bind]
  by_cases hi : shardIndex env (splitPath path).1 a.splitLevel ∈ ws
  · rw [if_pos hi]
    have href := hp.shardRef_isSome hi
    unfold shardRef at href
    cases hs : a'.state.header.shards with
    | none =>
      rw [hs] at href
      cases href
    | some shards =>
      rw [hs, Option.bind_some] at href
      have hmem := ExtTreeMap.mem_iff_isSome_getElem?.2 href
      dsimp only
      rw [if_pos hmem]
      rfl
  · rw [if_neg hi]
    have href := hp.shardRef_other hu hi
    unfold shardRef at href
    cases hs : a'.state.header.shards with
    | none => rfl
    | some shards =>
      rw [hs, Option.bind_some] at href
      have hmem : shardIndex env (splitPath path).1 a.splitLevel ∉ shards := by
        rw [ExtTreeMap.mem_iff_isSome_getElem?, href]
        simp
      dsimp only
      rw [if_neg hmem]
      rfl

/-- The child directory `name` as lookups find it once its shard has been written: at the last level
the shard cannot be opened. -/
def shardedDir (env : Env β) (w : World β) (regs : RegistryDirHandles) (a : Actor) (name : String)
    (dirRef : DirRef) : Except String Actor :=
  if a.splitLevel < maxShardLevel then reopenDir env w regs a name dirRef else .error "shard not opened"

theorem PartOf.openDir (hp : PartOf env ws w a w' a') (name : String) :
    Actor.openDir env w' regs a' name = Actor.openDir env w' regs a name := by
  have hc : a'.context = a.context := hp.context
  have hh : a'.dirHandles = a.dirHandles := hp.dirHandles
  have hd : a'.state.dirs = a.state.dirs := hp.dirs
  simp only [Actor.openDir, hc, hh, hd]

theorem PartOf.openDirShard_last (hp : PartOf env ws w a w' a') {i : UInt8} (hi : i ∈ ws)
    (hlast : ¬ a.splitLevel < maxShardLevel) : ∃ e, openDirShard env w' a' i = .error e := by
  unfold openDirShard
  rw [(hp.stuck i hi hlast).2]
  dsimp only
  cases hl : shardLink a'.state () i with
  | error e => exact ⟨e, rfl⟩
  | ok link => exact absurd (shardLink_lt hp.shardLevel hl) hlast

/-- What a lookup reaches after a `shard` that has written the buckets `ws`. -/
theorem reaches_failed (hp : PartOf env ws w a w' a') (hu : a.Unsharded)
    (hl : a.splitLevel ≤ maxShardLevel) (hkeys : KeysFresh env w' a a') {path : String}
    {r : Option FileRef} :
    Reaches env w' regs a' path r ↔
      if shardIndex env (splitPath path).1 a.splitLevel ∈ ws then
        match a.state.dirs[(splitPath path).1]? with
        | some d =>
          ReachesIn env w' regs (shardedDir env w' regs a (splitPath path).1 d) (splitPath path).2 r
        | none =>
          r = if a.splitLevel < maxShardLevel ∧ shardIndex env path a.splitLevel =
              shardIndex env (splitPath path).1 a.splitLevel
            then a.state.files[path]? else none
      else Reaches env w' regs a path r := by
  rw [reaches_iff, hp.route hu hl]
  by_cases hi : shardIndex env (splitPath path).1 a.splitLevel ∈ ws
  · simp only [if_pos hi]
    by_cases hlt : a.splitLevel < maxShardLevel
    · obtain ⟨ref, child, href, hlook, hchild⟩ := hp.shard _ hi hlt
      have hopen : openDirShard env w' a' (shardIndex env (splitPath path).1 a.splitLevel) = .ok child := by
        unfold openDirShard
        rw [hlook]
      rw [hopen]
      simp only [shardedDir, hlt, if_true, true_and]
      exact reaches_isShard hchild rfl fun n d hd key b hkey hb => hkeys n d b hd hb _ ref key href hkey
    · obtain ⟨e, he⟩ := hp.openDirShard_last hi hlt
      rw [he]
      simp only [shardedDir, hlt, if_false, false_and]
      cases a.state.dirs[(splitPath path).1]? with
      | none => exact Iff.rfl
      | some d => exact Iff.rfl
  · simp only [if_neg hi]
    have hfiles : a'.state.files = a.state.files := hp.files
    have hdirs : a'.state.dirs = a.state.dirs := hp.dirs
    rw [reaches_unsharded hu, routeDirect_eq, hdirs, hfiles]
    cases a.state.dirs[(splitPath path).1]? with
    | none => exact Iff.rfl
    | some d =>
      dsimp only
      rw [hp.openDir]

end

/-- The condition under which lookups survive a `shard` that fails. -/
structure FailedShardKeeps (env : Env β) (w : World β) (regs : RegistryDirHandles) (a : Actor) :
    Prop where
  /-- The shard that takes over the paths of a file has the file and can be opened. -/
  files : ∀ k f, a.state.files[k]? = some f → a.state.dirs[(splitPath k).1]? = none →
    shardIndex env (splitPath k).1 a.splitLevel ∈ writtenBuckets env w a →
    a.splitLevel < maxShardLevel ∧
      shardIndex env k a.splitLevel = shardIndex env (splitPath k).1 a.splitLevel
  /-- The shard that takes over the paths of a child directory opens it with the same files. -/
  dirs : ∀ n d, '/' ∉ n.toList → a.state.dirs[n]? = some d →
    shardIndex env n a.splitLevel ∈ writtenBuckets env w a → ∀ rest r,
      ReachesIn env w regs (openDir env w regs a n) rest r ↔
        ReachesIn env w regs (shardedDir env w regs a n d) rest r

theorem Unread.shardedDir (h : Unread env w w' regs a) {n : String} {d : DirRef} (hn : '/' ∉ n.toList)
    (hd : a.state.dirs[n]? = some d) (rest : String) (r : Option FileRef) :
    ReachesIn env w regs (shardedDir env w regs a n d) rest r ↔
      ReachesIn env w' regs (shardedDir env w' regs a n d) rest r := by
  unfold Actor.shardedDir
  by_cases hlt : a.splitLevel < maxShardLevel
  · rw [if_pos hlt, if_pos hlt]
    exact h n d hn hd rest r
  · rw [if_neg hlt, if_neg hlt]
    exact Iff.rfl

theorem failed_sameLookups_iff (hu : a.Unsharded) (hl : a.splitLevel ≤ maxShardLevel)
    (hp : PartOf env (writtenBuckets env w a) w a w' a') (hun : Undisturbed env regs w w' a)
    (hunread : Unread env w w' regs a) (hkeys : KeysFresh env w' a a') :
    SameLookups env regs w a w' a' ↔ FailedShardKeeps env w regs a := by
  constructor
  · intro h
    refine ⟨fun k f hf hd hi => ?_, fun n d hn hd hi rest r => ?_⟩
    · have hk := h k (some f)
      rw [reaches_unsharded hu, reaches_failed hp hu hl hkeys, if_pos hi, hd] at hk
      have hk' := hk.1 hf.symm
      by_contra hne
      rw [if_neg hne] at hk'
      cases hk'
    · have hpath := h (n ++ "/" ++ rest) r
      have hsplit : splitPath (n ++ "/" ++ rest) = (n, rest) := splitPath_append hn
      rw [reaches_unsharded hu, reaches_failed hp hu hl hkeys, hsplit, if_pos hi, hd] at hpath
      exact hpath.trans (hunread.shardedDir hn hd rest r).symm
  · intro h path r
    rw [reaches_failed hp hu hl hkeys]
    by_cases hi : shardIndex env (splitPath path).1 a.splitLevel ∈ writtenBuckets env w a
    · rw [if_pos hi, reaches_unsharded hu]
      cases hd : a.state.dirs[(splitPath path).1]? with
      | none =>
        dsimp only
        cases hf : a.state.files[path]? with
        | none => rw [ite_self]
        | some f => rw [if_pos (h.files path f hf hd hi)]
      | some d =>
        have hn := splitPath_fst_slash_free path
        exact (h.dirs _ d hn hd hi _ r).trans (hunread.shardedDir hn hd _ r)
    · rw [if_neg hi]
      exact hun.reaches.symm

/-! ## Saving afterwards -/

/-- The directory has the key that it is saved with, if it is encrypted. -/
def HasKey (ctx : DirContext Unit) : Prop :=
  ∀ t, ctx.encryptionType = some t →
    t = encryptionTypeXChaCha20Poly1305 ∧ (ctx.keys[keySlot]?).isSome = true

/-- A snapshot has all entries of a directory: the references of children that it has no handle of
are the same, the others may have a new hash. -/
structure Complete (a : Actor) (d : DirV1) : Prop where
  files : d.files = a.state.files
  dirs : ∀ name : String, d.dirs[name]?.map DirRef.unhashed = a.state.dirs[name]?.map DirRef.unhashed
  closed : ∀ name : String, a.dirHandles.lookup name = none → d.dirs[name]? = a.state.dirs[name]?

/-- A later save of `a'` goes well if the store takes what is written, whatever else the outside
answers, and if there is something to save it writes a snapshot with all entries of `a`. -/
def SavesAll (β : Type) [DecidableEq β] (a a' : Actor) : Prop :=
  ∀ (env : Env β) (w : World β), (∀ n, env.storeFails n = false) → HasKey a.context →
    ∃ w1 a1 h, saveIfDirty env a' w = (w1, a1, .ok h) ∧
      (a.dirty = true → ∃ w0 d ctx, persist env a.context d w0 = (w1, .ok (ctx, h)) ∧ Complete a d)

theorem persist_hasKey [DecidableEq β] (hstore : ∀ n, env.storeFails n = false)
    {ctx : DirContext Unit} (hkey : HasKey ctx) (d : DirV1) (w : World β) :
    ∃ w1 ctx' h, persist env ctx d w = (w1, .ok (ctx', h)) := by
  have hencode : ∃ w1 b, encodeStateBytes env ctx d w = (w1, .ok b) := by
    unfold encodeStateBytes
    cases ht : ctx.encryptionType with
    | none => exact ⟨_, _, rfl⟩
    | some t =>
      obtain ⟨rfl, hk⟩ := hkey t ht
      obtain ⟨key, hk⟩ := Option.isSome_iff_exists.1 hk
      dsimp only
      rw [if_pos rfl, hk]
      exact ⟨_, _, rfl⟩
  obtain ⟨w1, b, hencode⟩ := hencode
  exact persist_encoded hencode (hstore _)

/-- What the answers of children that have been saved leave. -/
structure Updated (a a' : Actor) : Prop where
  context : a'.context = a.context
  files : a'.state.files = a.state.files
  dirs : ∀ name : String,
    a'.state.dirs[name]?.map DirRef.unhashed = a.state.dirs[name]?.map DirRef.unhashed
  dirty : a.dirty = true → a'.dirty = true

theorem Updated.refl (a : Actor) : Updated a a := ⟨rfl, rfl, fun _ => rfl, id⟩

theorem Updated.trans {a a' a'' : Actor} (h : Updated a a') (h' : Updated a' a'') : Updated a a'' :=
  ⟨h'.context.trans h.context, h'.files.trans h.files, fun name => (h'.dirs name).trans (h.dirs name),
    fun hd => h'.dirty (h.dirty hd)⟩

theorem updated_updateShardHash (a : Actor) (index : UInt8) (r : Except String (Option Hash)) :
    Updated a (a.updateShardHash index r) ∧
      (a.updateShardHash index r).state.dirs = a.state.dirs := by
  unfold updateShardHash
  repeat' split
  all_goals first | exact ⟨.refl a, rfl⟩ | exact ⟨⟨rfl, rfl, fun _ => rfl, fun _ => rfl⟩, rfl⟩

theorem updated_updateDirHash (a : Actor) (name : String) (r : Except String (Option Hash)) :
    Updated a (a.updateDirHash name r) ∧
      ∀ n ≠ name, (a.updateDirHash name r).state.dirs[n]? = a.state.dirs[n]? := by
  unfold updateDirHash
  split
  · rename_i h
    split
    · rename_i d hd
      split
      · refine ⟨⟨rfl, rfl, fun n => ?_, fun _ => rfl⟩, fun n hn => ?_⟩
        · dsimp only
          rw [ExtTreeMap.getElem?_insert]
          by_cases hn : name = n
          · subst hn
            rw [if_pos (Std.compare_eq_iff_eq.2 rfl), hd]
            rfl
          · rw [if_neg (by rwa [Std.compare_eq_iff_eq])]
        · dsimp only
          rw [ExtTreeMap.getElem?_insert, if_neg (by rw [Std.compare_eq_iff_eq]; exact Ne.symm hn)]
      · exact ⟨.refl a, fun _ _ => rfl⟩
    · exact ⟨.refl a, fun _ _ => rfl⟩
  · exact ⟨.refl a, fun _ _ => rfl⟩

theorem updated_shards (shards : List (UInt8 × Actor × Except String (Option Hash))) (a : Actor) :
    Updated a (shards.foldl (fun a (index, _, r) => a.updateShardHash index r) a) ∧
      (shards.foldl (fun a (index, _, r) => a.updateShardHash index r) a).state.dirs = a.state.dirs := by
  induction shards generalizing a with
  | nil => exact ⟨.refl a, rfl⟩
  | cons x rest ih =>
    obtain ⟨hu, hd⟩ := updated_updateShardHash a x.1 x.2.2
    obtain ⟨hu', hd'⟩ := ih (a.updateShardHash x.1 x.2.2)
    exact ⟨hu.trans hu', hd'.trans hd⟩

theorem updated_dirs (dirs : List (String × Actor × Except String (Option Hash))) (a : Actor) :
    Updated a (dirs.foldl (fun a (name, _, r) => a.updateDirHash name r) a) ∧
      ∀ n, n ∉ dirs.map (·.1) →
        (dirs.foldl (fun a (name, _, r) => a.updateDirHash name r) a).state.dirs[n]? =
          a.state.dirs[n]? := by
  induction dirs generalizing a with
  | nil => exact ⟨.refl a, fun _ _ => rfl⟩
  | cons x rest ih =>
    obtain ⟨hu, hd⟩ := updated_updateDirHash a x.1 x.2.2
    obtain ⟨hu', hd'⟩ := ih (a.updateDirHash x.1 x.2.2)
    refine ⟨hu.trans hu', fun n hn => ?_⟩
    rw [List.map_cons, List.mem_cons, not_or] at hn
    exact (hd' n hn.2).trans (hd n hn.1)

theorem saveDirs_names [DecidableEq β] (l : List (String × Actor)) (w : World β) :
    (saveDirs env l w).2.map (·.1) = l.map (·.1) := by
  induction l generalizing w with
  | nil =>
    rw [saveDirs]
    rfl
  | cons x rest ih =>
    obtain ⟨name, child⟩ := x
    rw [saveDirs]
    generalize saveIfDirty env child w = res
    obtain ⟨w1, child1, r⟩ := res
    have hrest := ih w1
    dsimp only
    generalize saveDirs env rest w1 = saved at hrest ⊢
    obtain ⟨w2, saved⟩ := saved
    rw [List.map_cons, List.map_cons, hrest]

theorem lookup_eq_none_of_map {l : List (String × Actor)} {name : String} (h : l.lookup name = none) :
    name ∉ l.map (·.1) := by
  rw [List.lookup_eq_none_iff] at h
  intro hm
  obtain ⟨x, hx, rfl⟩ := List.mem_map.1 hm
  simpa using h x hx

/-- A directory that has its entries and its level saves everything. -/
theorem savesAll_of_part [DecidableEq β] {ws : List UInt8} (hp : PartOf env ws w a w' a') :
    SavesAll β a a' := by
  intro env w hstore hkey
  have hc : a'.context = a.context := hp.context
  have hh : a'.dirHandles = a.dirHandles := hp.dirHandles
  have hdirty : a'.dirty = a.dirty := hp.dirty
  have hdirs : a'.state.dirs = a.state.dirs := hp.dirs
  have hfiles : a'.state.files = a.state.files := hp.files
  have hlevel : a'.state.header.shardLevel = some a.splitLevel := hp.shardLevel
  obtain ⟨context, state, dirty, dirHandles, dirShardHandles, len, ops⟩ := a'
  dsimp only at hc hh hdirty hdirs hfiles hlevel
  have hskip : shardIfNeeded env w ⟨context, state, dirty, dirHandles, dirShardHandles, len, ops⟩ =
      (w, ⟨context, state, dirty, dirHandles, dirShardHandles, len, ops⟩, .ok ()) := by
    simp [shardIfNeeded, hlevel]
  unfold saveIfDirty
  dsimp only
  rw [hskip]
  by_cases hdo : (dirty || isRoot context) = true
  · rw [if_pos hdo]
    dsimp only
    generalize saveShards env dirShardHandles w = saved
    obtain ⟨w1, shards⟩ := saved
    have hnames := @saveDirs_names β env _ dirHandles w1
    dsimp only
    generalize saveDirs env dirHandles w1 = saved at hnames ⊢
    obtain ⟨w2, dirs⟩ := saved
    dsimp only at hnames ⊢
    generalize hb0 : Actor.mk context state dirty _ _ len ops = b0
    obtain ⟨hu1, hd1⟩ := updated_shards shards b0
    generalize shards.foldl (fun a (index, _, r) => a.updateShardHash index r) b0 = b1 at hu1 hd1 ⊢
    obtain ⟨hu2, hd2⟩ := updated_dirs dirs b1
    generalize dirs.foldl (fun a (name, _, r) => a.updateDirHash name r) b1 = b2 at hu2 hd2 ⊢
    have hu := hu1.trans hu2
    have hstate : b0.state = state := by rw [← hb0]
    have hcontext : b2.context = a.context := by rw [hu.context, ← hb0, ← hc]
    by_cases hb : b2.dirty = true
    · obtain ⟨w3, ctx, h, hsaved⟩ := persist_hasKey hstore (hcontext ▸ hkey) b2.state w2
      rw [if_pos hb]
      unfold save
      rw [hsaved]
      refine ⟨_, _, h, rfl, fun _ => ⟨w2, b2.state, ctx, hcontext ▸ hsaved, ⟨?_, fun name => ?_,
        fun name hn => ?_⟩⟩⟩
      · rw [hu.files, hstate, hfiles]
      · rw [hu.dirs, hstate, hdirs]
      · rw [hd2 name, hd1, hstate, hdirs]
        rw [hnames, hh]
        exact lookup_eq_none_of_map hn
    · rw [if_neg hb]
      refine ⟨_, _, _, rfl, fun hd => absurd (hu.dirty ?_) hb⟩
      rw [← hb0]
      exact hdirty.trans hd
  · rw [if_neg hdo]
    refine ⟨_, _, _, rfl, fun hd => absurd ?_ hdo⟩
    rw [hdirty, hd]
    rfl

/-- **Which directories stay usable when `shard` fails.** Every path resolves as before and a later save
writes everything exactly under `FailedShardKeeps`, wherever the failure was. -/
theorem failed_shard_keeps_iff [DecidableEq β] (law : env.Lawful) (hu : a.Unsharded)
    (hl : a.splitLevel ≤ maxShardLevel) {e : String} (hrun : shard env w a = (w', a', .error e))
    (hc : w'.collided = false) (hun : Undisturbed env regs w w' a) (hunread : Unread env w w' regs a)
    (hkeys : KeysFresh env w' a a') :
    (SameLookups env regs w a w' a' ∧ SavesAll β a a') ↔ FailedShardKeeps env w regs a := by
  have hp := part_shard law hu hrun hc
  rw [and_iff_left (savesAll_of_part hp)]
  exact failed_sameLookups_iff hu hl hp hun hunread hkeys

end

/-! A root with two files, and a shard that is too deep to be split. -/

/-- A local root with the files `a` and `b`. -/
def twoFiles : Actor :=
  { oneFile "a" with state.files := (oneFile "a").state.files.insert "b" (FileRef.new 2 2) }

/-- A meta store that takes one blob. -/
def fullStore : Env Sym := { symbolic xxh3Short with storeFails := fun n => decide (1 ≤ n) }

theorem twoFiles_key {k : String} {f : FileRef} (h : twoFiles.state.files[k]? = some f) :
    k = "a" ∨ k = "b" := by
  by_contra hne
  rw [not_or] at hne
  simp [twoFiles, oneFile, DirV1.new, Ne.symm hne.1, Ne.symm hne.2] at h

theorem failed_shard_keeps_twoFiles : ∃ w a e, shard fullStore emptyWorld twoFiles = (w, a, .error e) ∧
    SameLookups fullStore [] emptyWorld twoFiles w a ∧ SavesAll Sym twoFiles a := by
  have hfail : (shard fullStore emptyWorld twoFiles).2.2.isOk = false ∧
      (shard fullStore emptyWorld twoFiles).1.collided = false := by
    decide +kernel
  generalize hrun : shard fullStore emptyWorld twoFiles = res at hfail
  obtain ⟨w, a, r⟩ := res
  cases r with
  | ok u => cases hfail.1
  | error e =>
    have hu : twoFiles.Unsharded := ⟨rfl, rfl, rfl⟩
    have hdirs : ∀ (n : String) (d : DirRef), twoFiles.state.dirs[n]? = some d → False :=
      fun n d hd => by simp [twoFiles, oneFile, DirV1.new] at hd
    have law : fullStore.Lawful := ⟨fun _ => rfl, (symbolic_lawful xxh3Short).decrypt_encrypt⟩
    refine ⟨w, a, e, rfl, (failed_shard_keeps_iff law hu (by decide) hrun hfail.2
      (undisturbed_flat hu rfl rfl) (fun n d _ hd => (hdirs n d hd).elim)
      fun n d b hd => (hdirs n d hd).elim).2 ⟨fun k f hf _ _ => ?_,
        fun n d _ hd => (hdirs n d hd).elim⟩⟩
    rcases twoFiles_key hf with rfl | rfl
    · decide +kernel
    · decide +kernel

/-- A shard of the last level with one file. -/
def lastShard : Actor :=
  { oneFile "k" with context.link := .dirHandle (.shard 0) () 0 maxShardLevel }

/-- Its file has been written to a shard that cannot be opened. -/
theorem lastShard_stuck : ∃ w a e, shard (symbolic xxh3Short) emptyWorld lastShard = (w, a, .error e) ∧
    Reaches (symbolic xxh3Short) emptyWorld [] lastShard "k" (some (.new 1 1)) ∧
    Reaches (symbolic xxh3Short) w [] a "k" none := by
  have hfail : (shard (symbolic xxh3Short) emptyWorld lastShard).2.2.isOk = false ∧
      lookup (symbolic xxh3Short) (shard (symbolic xxh3Short) emptyWorld lastShard).1 [] 2
        (shard (symbolic xxh3Short) emptyWorld lastShard).2.1 "k" = some none := by
    decide +kernel
  generalize hrun : shard (symbolic xxh3Short) emptyWorld lastShard = res at hfail
  obtain ⟨w, a, r⟩ := res
  cases r with
  | ok u => cases hfail.1
  | error e => exact ⟨w, a, e, rfl, ⟨1, by decide +kernel⟩, ⟨2, hfail.2⟩⟩

end Actor

end Fs
