import S5.Fs.FileOps
import S5.Fs.Proof.ShardMerge
import S5.Lib.Run

/-!
# A sharded directory as a flat map

`Holds a m` says that a directory with its shards holds the entries `m`, each name in one place: at
every level the entries of a bucket that exists lie in its shard and the others in the directory's
own maps. File operations and sharding transitions keep it (`Holds.fileOp`, `Holds.shardAt`).

* `sharded_is_flat_map`: after every run of file operations on slash-free names and of sharding
  transitions, each name has one home, operations find what a plain map would hold and the merged
  snapshot is that map.
-/

open Std

namespace Fs

namespace Actor

variable {β : Type} {env : Env β} {w w' : World β} {a a' : Actor} {m : String → Entry}

/-- What of `m` falls into a bucket. -/
def inBucket (env : Env β) (level index : UInt8) (m : String → Entry) (n : String) : Entry :=
  if shardIndex env n level = index then m n else (none, none)

inductive Holds (env : Env β) (w : World β) : Actor → (String → Entry) → Prop where
  | unsharded {a : Actor} {m : String → Entry} (hu : a.Unsharded)
      (hle : a.splitLevel ≤ maxShardLevel) (he : ∀ n, a.state.entry n = m n) : Holds env w a m
  | sharded {a : Actor} {m : String → Entry} (child : UInt8 → Actor)
      (hl : a.state.header.shardLevel = some a.splitLevel) (hle : a.splitLevel ≤ maxShardLevel)
      (habsent : ∀ n, (a.shardRef (shardIndex env n a.splitLevel)).isSome = false →
        a.state.entry n = m n)
      (hown : ∀ n, (a.shardRef (shardIndex env n a.splitLevel)).isSome = true →
        a.state.entry n = (none, none))
      (hopen : ∀ i, (a.shardRef i).isSome = true → openDirShard env w a i = .ok (child i))
      (hlevel : ∀ i, (a.shardRef i).isSome = true →
        (child i).splitLevel.toNat = a.splitLevel.toNat + 1)
      (hchild : ∀ i, (a.shardRef i).isSome = true →
        Holds env w (child i) (inBucket env a.splitLevel i m)) : Holds env w a m

theorem Holds.le (h : Holds env w a m) : a.splitLevel ≤ maxShardLevel := by
  cases h with
  | unsharded hu hle he => exact hle
  | sharded child hl hle => exact hle

/-! ## What does not matter -/

theorem openDirShard_grows (hg : w.Grows w') {i : UInt8} {child : Actor}
    (h : openDirShard env w a i = .ok child) : openDirShard env w' a i = .ok child := by
  unfold openDirShard at h ⊢
  cases hl : a.dirShardHandles.lookup i with
  | some c =>
    rw [hl] at h
    exact h
  | none =>
    rw [hl] at h
    dsimp only at h ⊢
    cases hlink : shardLink a.state () i with
    | error e =>
      rw [hlink] at h
      cases h
    | ok p =>
      obtain ⟨dirRef, link⟩ := p
      have hne : (a.context.withNewRef dirRef link).link ≠ .localFile := by
        intro he
        unfold shardLink at hlink
        repeat' split at hlink
        all_goals cases hlink
        cases he
      rw [hlink] at h
      simp only [bind, Except.bind, spawn] at h ⊢
      cases hload : load env (a.context.withNewRef dirRef link) w with
      | error e =>
        rw [hload] at h
        cases h
      | ok x =>
        rw [hload] at h
        rw [load_grows hg hne hload]
        exact h

/-- A store that has grown holds no less. -/
theorem Holds.grows (h : Holds env w a m) (hg : w.Grows w') : Holds env w' a m := by
  induction h with
  | unsharded hu hle he => exact .unsharded hu hle he
  | sharded child hl hle habsent hown hopen hlevel _ ih =>
    exact .sharded child hl hle habsent hown (fun i hi => openDirShard_grows hg (hopen i hi))
      hlevel ih

theorem Holds.markAsDirty (h : Holds env w a m) : Holds env w a.markAsDirty m := by
  cases h with
  | unsharded hu hle he => exact .unsharded ⟨hu.shardLevel, hu.shards, hu.dirShardHandles⟩ hle he
  | sharded child hl hle habsent hown hopen hlevel hchild =>
    exact .sharded child hl hle habsent hown hopen hlevel hchild

/-- A shard is replaced by one that holds what the bucket holds now. -/
theorem Holds.keepShard {i : UInt8} {c c' : Actor} {m' : String → Entry} (h : Holds env w a m)
    (hi : (a.shardRef i).isSome = true) (ho : openDirShard env w a i = .ok c)
    (hs : c'.splitLevel = c.splitLevel)
    (hc : Holds env w c' (inBucket env a.splitLevel i m'))
    (hm : ∀ n, shardIndex env n a.splitLevel ≠ i → m' n = m n) :
    Holds env w (a.keepShard i c') m' := by
  cases h with
  | unsharded hu hle he =>
    have hnone : a.shardRef i = none := by simp [shardRef, hu.shards]
    rw [hnone] at hi
    cases hi
  | sharded child hl hle habsent hown hopen hlevel hchild =>
    refine .sharded (fun j => if j = i then c' else child j) hl hle (fun n hn => ?_) hown
      (fun j hj => ?_) (fun j hj => ?_) fun j hj => ?_
    · -- a name of a bucket that does not exist is in none that does
      rw [hm n]
      · exact habsent n hn
      · rintro rfl
        exact absurd (hn.symm.trans hi) (by decide)
    · rw [openDirShard_keepShard]
      split
      · rfl
      · exact hopen j hj
    · split
      · rename_i hji
        obtain rfl := Except.ok.inj (ho.symm.trans (hopen i hi))
        rw [hs]
        exact hlevel i hi
      · exact hlevel j hj
    · by_cases hji : j = i
      · subst hji
        rw [if_pos rfl]
        exact hc
      · have hsame : inBucket env a.splitLevel j m' = inBucket env a.splitLevel j m := by
          funext n
          unfold inBucket
          split
          · rename_i hn
            exact hm n fun he => hji (hn.symm.trans he)
          · rfl
        simp only [if_neg hji]
        show Holds env w (child j) (inBucket env a.splitLevel j m')
        rw [hsame]
        exact hchild j hj

/-! ## File operations -/

theorem route_unsharded (hu : a.Unsharded) {path : String} :
    route env a.state path = .ok (routeDirect a.state path) := by
  simp only [route, hu.shardLevel]

/-- A name that is no directory is handled here. -/
theorem routeDirect_here {state : DirV1} {name : Name} (h : state.dirs[name.1]? = none) :
    routeDirect state name.1 = .here := by
  rw [routeDirect_eq, splitPath_of_slash_free name.2, h]

theorem route_sharded {level : UInt8} {name : Name} (hl : a.state.header.shardLevel = some level)
    (hle : level ≤ maxShardLevel) :
    route env a.state name.1 =
      if (a.shardRef (shardIndex env name.1 level)).isSome then
        .ok (.shard (shardIndex env name.1 level))
      else .ok (routeDirect a.state name.1) := by
  simp only [route, hl, splitPath_of_slash_free name.2, shardBucketFor, hle, if_true, bind,
    Except.bind, shardRef]
  rcases Option.eq_none_or_eq_some a.state.header.shards with hs | ⟨shards, hs⟩
  · simp only [hs]
    rfl
  · simp only [hs, Option.bind_some, ← ExtTreeMap.mem_iff_isSome_getElem?]
    split
    · rfl
    · rfl

/-- The entries after a task has been executed under a name. -/
def executed (task : FileTask) (now : UInt32 × UInt32) (name : String) (m : String → Entry)
    (n : String) : Entry :=
  if n = name then (none, task.execute now (m name).2) else m n

theorem fileOpHere_entry (a : Actor) (task : FileTask) (now : UInt32 × UInt32) (name n : String)
    (hdir : a.state.dirs[name]? = none) :
    (a.fileOpHere task now name).state.entry n = executed task now name a.state.entry n := by
  unfold executed DirV1.entry
  have hfiles : (a.fileOpHere task now name).state.files[n]? =
      if n = name then task.execute now a.state.files[name]? else a.state.files[n]? := by
    unfold fileOpHere
    by_cases hn : n = name
    · subst hn
      cases task.execute now a.state.files[n]? with
      | none => simp [markAsDirty]
      | some file => simp [markAsDirty]
    · have hn' : name ≠ n := fun he => hn he.symm
      cases task.execute now a.state.files[name]? with
      | none => simp [markAsDirty, hn, hn', ExtTreeMap.getElem?_erase]
      | some file => simp [markAsDirty, hn, hn', ExtTreeMap.getElem?_insert]
  have hdirs : (a.fileOpHere task now name).state.dirs = a.state.dirs := rfl
  rw [hfiles, hdirs]
  split
  · rename_i hn
    rw [hn, hdir]
  · rfl

theorem executed_congr {task : FileTask} {now : UInt32 × UInt32} {name n : String}
    {m m' : String → Entry} (hname : m name = m' name) (hn : m n = m' n) :
    executed task now name m n = executed task now name m' n := by
  simp only [executed, hname, hn]

/-- What a bucket holds after a task on a name of it. -/
theorem inBucket_executed {level index : UInt8} {task : FileTask} {now : UInt32 × UInt32}
    {name : String} (h : shardIndex env name level = index) (m : String → Entry) :
    inBucket env level index (executed task now name m) =
      executed task now name (inBucket env level index m) := by
  funext n
  unfold inBucket executed
  by_cases hn : n = name
  · subst hn
    simp [h]
  · simp [hn]

theorem context_fileOp (task : FileTask) (now : UInt32 × UInt32) (name : Name) (fuel : Nat)
    (a : Actor) : (fileOp env w task now name fuel a).1.context = a.context := by
  cases fuel with
  | zero => rfl
  | succ fuel =>
    unfold fileOp
    repeat' split
    all_goals rfl

theorem splitLevel_congr (h : a'.context = a.context) : a'.splitLevel = a.splitLevel := by
  unfold splitLevel
  rw [h]

/-- An operation that the directory itself handles. -/
theorem fileOp_here {task : FileTask} {now : UInt32 × UInt32} {name : Name} {fuel : Nat}
    (h : route env a.state name.1 = .ok .here) :
    fileOp env w task now name (fuel + 1) a =
      (a.fileOpHere task now name.1, some a.state.files[name.1]?) := by
  unfold fileOp
  rw [h]

/-- **A file operation** finds what the directory holds under its name and changes nothing else. -/
theorem Holds.fileOp (h : Holds env w a m) (task : FileTask) (now : UInt32 × UInt32) (name : Name)
    (hdir : (m name.1).1 = none) {fuel : Nat}
    (hf : maxShardLevel.toNat < a.splitLevel.toNat + fuel) :
    (fileOp env w task now name fuel a).2 = some (m name.1).2 ∧
      Holds env w (fileOp env w task now name fuel a).1 (executed task now name.1 m) := by
  induction h generalizing fuel with
  | @unsharded a m hu hle he =>
    have hpos : fuel ≠ 0 := by
      rintro rfl
      exact absurd (UInt8.le_iff_toNat_le.1 hle) (by omega)
    obtain ⟨fuel, rfl⟩ := Nat.exists_eq_succ_of_ne_zero hpos
    have hd : a.state.dirs[name.1]? = none := by
      rw [← hdir, ← he]
      rfl
    rw [fileOp_here ((route_unsharded hu).trans (congrArg Except.ok (routeDirect_here hd)))]
    refine ⟨by rw [← he]; rfl, .unsharded ⟨hu.shardLevel, hu.shards, hu.dirShardHandles⟩ hle ?_⟩
    intro n
    rw [fileOpHere_entry a task now name.1 n hd]
    exact executed_congr (he name.1) (he n)
  | @sharded a m child hl hle habsent hown hopen hlevel hchild ih =>
    have hpos : fuel ≠ 0 := by
      rintro rfl
      exact absurd (UInt8.le_iff_toNat_le.1 hle) (by omega)
    obtain ⟨fuel, rfl⟩ := Nat.exists_eq_succ_of_ne_zero hpos
    have hroute : route env a.state name.1 = _ := route_sharded hl hle
    by_cases href : (a.shardRef (shardIndex env name.1 a.splitLevel)).isSome = true
    · -- the bucket exists: the operation goes to its shard
      rw [if_pos href] at hroute
      have hin : inBucket env a.splitLevel (shardIndex env name.1 a.splitLevel) m name.1 =
          m name.1 := if_pos rfl
      have hlv := hlevel _ href
      have hfuel : maxShardLevel.toNat <
          (child (shardIndex env name.1 a.splitLevel)).splitLevel.toNat + fuel := by omega
      obtain ⟨hfound, hholds⟩ := ih _ href (by rw [hin]; exact hdir) hfuel
      have hkeep : Holds env w
          (a.keepShard (shardIndex env name.1 a.splitLevel)
            (Actor.fileOp env w task now name fuel
              (child (shardIndex env name.1 a.splitLevel))).1) (executed task now name.1 m) := by
        refine (Holds.sharded child hl hle habsent hown hopen hlevel hchild).keepShard href
          (hopen _ href) (splitLevel_congr (context_fileOp task now name fuel _)) ?_ fun n hn => ?_
        · rw [inBucket_executed rfl]
          exact hholds
        · have hne : n ≠ name.1 := by
            rintro rfl
            exact hn rfl
          exact if_neg hne
      unfold Actor.fileOp
      rw [hroute]
      dsimp only
      rw [hopen _ href]
      dsimp only
      refine ⟨by rw [hfound, hin], ?_⟩
      split
      · exact hkeep
      · exact hkeep.markAsDirty
    · -- no such bucket: the directory handles it
      have hnone : (a.shardRef (shardIndex env name.1 a.splitLevel)).isSome = false := by
        simpa using href
      rw [if_neg href] at hroute
      have hd : a.state.dirs[name.1]? = none := by
        rw [← hdir, ← habsent name.1 hnone]
        rfl
      rw [fileOp_here (hroute.trans (congrArg Except.ok (routeDirect_here hd)))]
      refine ⟨by rw [← habsent name.1 hnone]; rfl, ?_⟩
      refine .sharded child hl hle (fun n hn => ?_) (fun n hn => ?_) hopen hlevel fun i hi => ?_
      · rw [fileOpHere_entry a task now name.1 n hd]
        exact executed_congr (habsent name.1 hnone) (habsent n hn)
      · have hne : n ≠ name.1 := by
          rintro rfl
          exact href hn
        rw [fileOpHere_entry a task now name.1 n hd, executed, if_neg hne]
        exact hown n hn
      · have hsame : inBucket env a.splitLevel i (executed task now name.1 m) =
            inBucket env a.splitLevel i m := by
          funext n
          unfold inBucket
          split
          · rename_i hn
            have hne : n ≠ name.1 := by
              rintro rfl
              exact href (hn ▸ hi)
            exact if_neg hne
          · rfl
        show Holds env w (child i) (inBucket env a.splitLevel i (executed task now name.1 m))
        rw [hsame]
        exact hchild i hi

/-! ## Sharding transitions -/

section
variable [DecidableEq β]

theorem grows_shard (w : World β) (a : Actor) : w.Grows (shard env w a).1 := by
  unfold shard
  split
  · exact World.Grows.refl w
  · have h : w.Grows (shardBuckets env a.splitLevel a.state buckets w
        { a with state.header.shardLevel := some a.splitLevel }).1 := grows_shardBuckets buckets w _
    dsimp only
    generalize shardBuckets env a.splitLevel a.state buckets w _ = r at h ⊢
    obtain ⟨w1, a1, r⟩ := r
    cases r with
    | error e => exact h
    | ok u => exact h

theorem grows_shardAt : ∀ (path : List UInt8) (w : World β) (a : Actor),
    w.Grows (shardAt env path w a).1
  | [], w, a => grows_shard w a
  | index :: rest, w, a => by
    unfold shardAt
    split
    · exact World.Grows.refl w
    · exact grows_shardAt rest w _

theorem context_shardAt {path : List UInt8} (hrun : shardAt env path w a = (w', a', .ok ()))
    (law : env.Lawful) (h : Holds env w a m) (hc : w'.collided = false) :
    a'.context = a.context := by
  cases path with
  | cons index rest =>
    unfold shardAt at hrun
    split at hrun
    · cases hrun
    · obtain ⟨-, rfl, -⟩ := by simpa using hrun
      rfl
  | nil =>
    cases h with
    | unsharded hu hle he => exact (shard_isSplit law hu hrun hc).context
    | sharded child hl =>
      simp only [shardAt, shard, hl] at hrun
      cases hrun

omit [DecidableEq β] in
/-- A directory that has been split holds in its shards what it held. -/
theorem IsSplit.holds (hs : IsSplit env a w' a') (hle : a.splitLevel ≤ maxShardLevel) :
    Holds env w' a' a.state.entry := by
  have hsplit : a'.splitLevel = a.splitLevel := splitLevel_congr hs.context
  have hentry : ∀ n, a'.state.entry n = (none, none) := by
    intro n
    simp [DirV1.entry, hs.dirs, hs.files]
  have hocc : ∀ i, (a'.shardRef i).isSome = true → Occupied (shardState env a.state a.splitLevel i) := by
    intro i hi
    by_contra hn
    rw [hs.other i hn] at hi
    cases hi
  have hchild : ∀ i, ∃ child, (a'.shardRef i).isSome = true → openDirShard env w' a' i = .ok child ∧
      child.splitLevel.toNat = a.splitLevel.toNat + 1 ∧
      Holds env w' child (inBucket env a.splitLevel i a.state.entry) := by
    intro i
    by_cases hi : (a'.shardRef i).isSome = true
    · obtain ⟨ref, child, -, ho, hc⟩ := hs.shard i (hocc i hi)
      have hlt := UInt8.lt_iff_toNat_lt.1 hc.level_lt
      have hmax : maxShardLevel.toNat = 7 := rfl
      have hlevel : child.splitLevel = a.splitLevel + 1 := by
        unfold splitLevel
        rw [hc.context]
        rfl
      have hnat : (a.splitLevel + 1).toNat = a.splitLevel.toNat + 1 := by
        rw [UInt8.toNat_add, show (1 : UInt8).toNat = 1 from rfl]
        omega
      refine ⟨child, fun _ => ⟨ho, by rw [hlevel, hnat], ?_⟩⟩
      refine .unsharded ⟨?_, ?_, hc.dirShardHandles⟩ ?_ fun n => ?_
      · rw [hc.state]
        rfl
      · rw [hc.state]
        rfl
      · rw [UInt8.le_iff_toNat_le, hlevel, hnat]
        omega
      · rw [hc.state, entry_shardState]
        rfl
    · exact ⟨a, fun h => absurd h hi⟩
  obtain ⟨child, hchild⟩ := Classical.axiomOfChoice hchild
  refine .sharded child (hs.shardLevel.trans (by rw [hsplit])) (hsplit ▸ hle) (fun n hn => ?_)
    (fun n _ => hentry n) (fun i hi => (hchild i hi).1) (fun i hi => ?_) fun i hi => ?_
  · -- nothing of `a` is in a bucket that has no shard
    have hno : ¬ Occupied (shardState env a.state a.splitLevel (shardIndex env n a.splitLevel)) := by
      intro ho
      obtain ⟨ref, c, href, -⟩ := hs.shard _ ho
      rw [hsplit, href] at hn
      cases hn
    obtain ⟨h1, h2⟩ := not_occupied hno rfl
    rw [hentry n, DirV1.entry, h1, h2]
  · rw [hsplit]
    exact (hchild i hi).2.1
  · rw [hsplit]
    exact (hchild i hi).2.2

/-- **A sharding transition**, of the directory or of one of its shards, moves no name out of its
place in the flat view. -/
theorem Holds.shardAt (law : env.Lawful) (path : List UInt8) (h : Holds env w a m)
    (hrun : shardAt env path w a = (w', a', .ok ())) (hc : w'.collided = false) :
    Holds env w' a' m := by
  induction path generalizing a a' m with
  | nil =>
    cases h with
    | unsharded hu hle he =>
      have hsplit := (shard_isSplit law hu hrun hc).holds hle
      rwa [show a.state.entry = m from funext he] at hsplit
    | sharded child hl =>
      simp only [Actor.shardAt, shard, hl] at hrun
      cases hrun
  | cons index rest ih =>
    have hg : w.Grows w' := by
      have hgrows : w.Grows (Actor.shardAt env (index :: rest) w a).1 := grows_shardAt _ w a
      rwa [hrun] at hgrows
    unfold Actor.shardAt at hrun
    split at hrun
    · cases hrun
    · rename_i c ho
      generalize hr : Actor.shardAt env rest w c = r at hrun
      obtain ⟨w1, c', r⟩ := r
      obtain ⟨rfl, rfl, rfl⟩ := by simpa using hrun
      by_cases hi : (a.shardRef index).isSome = true
      · cases h with
        | unsharded hu hle he =>
          have hnone : a.shardRef index = none := by simp [shardRef, hu.shards]
          rw [hnone] at hi
          cases hi
        | sharded child hl hle habsent hown hopen hlevel hchild =>
          obtain rfl := Except.ok.inj (ho.symm.trans (hopen index hi))
          have hctx := context_shardAt hr law (hchild index hi) hc
          exact ((Holds.sharded child hl hle habsent hown hopen hlevel hchild).grows hg).keepShard
            hi (openDirShard_grows hg ho) (splitLevel_congr hctx) (ih (hchild index hi) hr)
            fun _ _ => rfl
      · -- a handle that no reference of the directory names
        cases h with
        | unsharded hu hle he =>
          simp [openDirShard, hu.dirShardHandles, shardLink, hu.shards] at ho
          cases ho
        | sharded child hl hle habsent hown hopen hlevel hchild =>
          refine .sharded child hl hle habsent hown (fun j hj => ?_) hlevel
            fun j hj => (hchild j hj).grows hg
          have hne : j ≠ index := by
            rintro rfl
            exact hi hj
          rw [openDirShard_keepShard, if_neg hne]
          exact openDirShard_grows hg (hopen j hj)

end

/-! ## The flat view -/

theorem Holds.intact (h : Holds env w a m) {fuel : Nat}
    (hf : maxShardLevel.toNat < a.splitLevel.toNat + fuel) : Intact env w fuel a := by
  induction h generalizing fuel with
  | @unsharded a m hu hle he =>
    cases fuel with
    | zero => exact absurd (UInt8.le_iff_toNat_le.1 hle) (by omega)
    | succ fuel =>
      refine ⟨fun level hl => ?_, fun i hi => ?_⟩
      · rw [hu.shardLevel] at hl
        cases hl
      · rw [mem_indices, shardRef, hu.shards] at hi
        cases hi
  | @sharded a m child hl hle habsent hown hopen hlevel hchild ih =>
    cases fuel with
    | zero => exact absurd (UInt8.le_iff_toNat_le.1 hle) (by omega)
    | succ fuel =>
      refine ⟨fun level hl' => ?_, fun i hi => ?_⟩
      · obtain rfl := Option.some.inj (hl.symm.trans hl')
        exact hle
      · have href := mem_indices.1 hi
        have hlv := hlevel i href
        exact ⟨child i, hopen i href, ih i href (by omega)⟩

/-- The flat view shows what the directory holds. -/
theorem Holds.flatEntry (h : Holds env w a m) {fuel : Nat}
    (hf : maxShardLevel.toNat < a.splitLevel.toNat + fuel) (n : String) :
    flatEntry env w fuel a n = m n := by
  induction h generalizing fuel with
  | @unsharded a m hu hle he =>
    cases fuel with
    | zero => exact absurd (UInt8.le_iff_toNat_le.1 hle) (by omega)
    | succ fuel =>
      have hnone : a.indices = [] := by simp [indices, hu.shards]
      rw [Actor.flatEntry, overShards, hnone]
      exact he n
  | @sharded a m child hl hle habsent hown hopen hlevel hchild ih =>
    cases fuel with
    | zero => exact absurd (UInt8.le_iff_toNat_le.1 hle) (by omega)
    | succ fuel =>
      have hshow : ∀ i ∈ a.indices, ∃ c, openDirShard env w a i = .ok c ∧
          Actor.flatEntry env w fuel c n = inBucket env a.splitLevel i m n := by
        intro i hi
        have href := mem_indices.1 hi
        have hlv := hlevel i href
        exact ⟨child i, hopen i href, ih i href (by omega)⟩
      rw [Actor.flatEntry, overShards_eq hshow]
      by_cases href : (a.shardRef (shardIndex env n a.splitLevel)).isSome = true
      · -- only the shard of the name shows it
        have hsole : ∀ i ∈ a.indices, i ≠ shardIndex env n a.splitLevel →
            inBucket env a.splitLevel i m n = (none, none) := fun i _ hne => if_neg (Ne.symm hne)
        rw [hown n href]
        exact (foldl_over_single _ (indices_nodup a) (mem_indices.2 href) hsole).trans (if_pos rfl)
      · rw [habsent n (by simpa using href)]
        refine foldl_over_none _ _ fun i hi => if_neg ?_
        rintro rfl
        exact href (mem_indices.1 hi)

/-! ## Homes -/

/-- The buckets of a name lead to one place. -/
theorem Home.unique {n : String} {path path' : List UInt8} {b b' : Actor}
    (h : Home env w n a path b) (h' : Home env w n a path' b') : path' = path := by
  induction h generalizing path' b' with
  | unsharded hl =>
    cases h' with
    | unsharded => rfl
    | absent => rfl
    | shard hl' => cases hl.symm.trans hl'
  | absent hl hb href =>
    cases h' with
    | unsharded => rfl
    | absent => rfl
    | shard hl' hb' href' =>
      obtain rfl := Option.some.inj (hl.symm.trans hl')
      obtain rfl := Except.ok.inj (hb.symm.trans hb')
      exact absurd (href.symm.trans href') (by decide)
  | shard hl hb href ho _ ih =>
    cases h' with
    | unsharded hl' => cases hl.symm.trans hl'
    | absent hl' hb' href' =>
      obtain rfl := Option.some.inj (hl.symm.trans hl')
      obtain rfl := Except.ok.inj (hb.symm.trans hb')
      exact absurd (href'.symm.trans href) (by decide)
    | shard hl' hb' href' ho' h' =>
      obtain rfl := Option.some.inj (hl.symm.trans hl')
      obtain rfl := Except.ok.inj (hb.symm.trans hb')
      obtain rfl := Except.ok.inj (ho.symm.trans ho')
      rw [ih h']

/-- No actor of the directory has a name that the directory does not hold. -/
theorem Holds.absent (h : Holds env w a m) {n : String} (hn : m n = (none, none))
    {path : List UInt8} {b : Actor} (hb : Below env w a path b) :
    b.state.entry n = (none, none) := by
  induction h generalizing path b with
  | unsharded hu hle he =>
    cases hb with
    | self => rw [he, hn]
    | shard href =>
      rw [hu.shards] at href
      cases href
  | @sharded a m child hl hle habsent hown hopen hlevel hchild ih =>
    cases hb with
    | self =>
      by_cases href : (a.shardRef (shardIndex env n a.splitLevel)).isSome = true
      · exact hown n href
      · rw [habsent n (by simpa using href), hn]
    | shard href ho h =>
      obtain rfl := Except.ok.inj (ho.symm.trans (hopen _ href))
      refine ih _ href ?_ h
      unfold inBucket
      rw [hn, ite_self]

/-- **Every name has one home**, which holds what the directory holds under it; no other actor of the
directory has the name. -/
theorem Holds.home (h : Holds env w a m) (n : String) :
    ∃ path b, Home env w n a path b ∧ b.state.entry n = m n ∧
      ∀ path' b', Below env w a path' b' → b'.state.entry n ≠ (none, none) → path' = path := by
  induction h with
  | @unsharded a m hu hle he =>
    refine ⟨[], a, .unsharded hu.shardLevel, he n, fun path' b' hb _ => ?_⟩
    cases hb with
    | self => rfl
    | shard href =>
      rw [hu.shards] at href
      cases href
  | @sharded a m child hl hle habsent hown hopen hlevel hchild ih =>
    have hbucket : shardBucketFor env n a.splitLevel = .ok (shardIndex env n a.splitLevel) := by
      rw [shardBucketFor, if_pos hle]
    by_cases href : (a.shardRef (shardIndex env n a.splitLevel)).isSome = true
    · obtain ⟨path, b, hhome, hentry, hsole⟩ := ih _ href
      refine ⟨_ :: path, b, .shard hl hbucket href (hopen _ href) hhome,
        hentry.trans (if_pos rfl), fun path' b' hb hne => ?_⟩
      cases hb with
      | self => exact absurd (hown n href) hne
      | @shard _ c _ i rest hi ho hrest =>
        obtain rfl := Except.ok.inj (ho.symm.trans (hopen i hi))
        by_cases hin : shardIndex env n a.splitLevel = i
        · subst hin
          rw [hsole rest b' hrest hne]
        · exact absurd ((hchild i hi).absent (if_neg hin) hrest) hne
    · have hnone : (a.shardRef (shardIndex env n a.splitLevel)).isSome = false := by simpa using href
      refine ⟨[], a, .absent hl hbucket hnone, habsent n hnone, fun path' b' hb hne => ?_⟩
      cases hb with
      | self => rfl
      | @shard _ c _ i rest hi ho hrest =>
        obtain rfl := Except.ok.inj (ho.symm.trans (hopen i hi))
        have hout : shardIndex env n a.splitLevel ≠ i := by
          rintro rfl
          exact href hi
        exact absurd ((hchild i hi).absent (if_neg hout) hrest) hne

/-! ## Runs -/

/-- The entries of a flat directory. -/
def flatView (dirs : ExtTreeMap String DirRef) (files : ExtTreeMap String FileRef) (n : String) :
    Entry := (dirs[n]?, files[n]?)

theorem executed_flatView {dirs : ExtTreeMap String DirRef} {files : ExtTreeMap String FileRef}
    {task : FileTask} {now : UInt32 × UInt32} {name : Name} (hdir : dirs[name.1]? = none) :
    executed task now name.1 (flatView dirs files) =
      flatView dirs (flatStep files (.fileOp name task now)) := by
  funext n
  unfold executed flatView flatStep
  rw [ExtTreeMap.getElem?_alter]
  by_cases hn : n = name.1
  · subst hn
    simp [hdir]
  · have hn' : name.1 ≠ n := fun he => hn he.symm
    simp [hn, hn']

section
variable [DecidableEq β]

theorem grows_stepDir (fuel : Nat) (s : World β × Actor) (op : DirOp) :
    s.1.Grows (stepDir env fuel s op).1 := by
  cases op with
  | fileOp => exact World.Grows.refl _
  | shard path => exact grows_shardAt path s.1 s.2

theorem grows_run (fuel : Nat) : ∀ (ops : List DirOp) (s : World β × Actor),
    s.1.Grows (ops.foldl (stepDir env fuel) s).1
  | [], s => World.Grows.refl s.1
  | op :: ops, s => (grows_stepDir fuel s op).trans (grows_run fuel ops _)

/-- One operation of a run. -/
theorem holds_step (law : env.Lawful) {dirs : ExtTreeMap String DirRef}
    {files : ExtTreeMap String FileRef} {fuel : Nat} {s : World β × Actor} {op : DirOp}
    (h : Holds env s.1 s.2 (flatView dirs files))
    (hf : maxShardLevel.toNat < s.2.splitLevel.toNat + fuel)
    (hdir : ∀ name task now, op = .fileOp name task now → dirs[name.1]? = none)
    (hok : ShardsOk env s op) (hc : (stepDir env fuel s op).1.collided = false) :
    Holds env (stepDir env fuel s op).1 (stepDir env fuel s op).2
        (flatView dirs (flatStep files op)) ∧
      (stepDir env fuel s op).2.splitLevel = s.2.splitLevel := by
  cases op with
  | fileOp name task now =>
    have hd := hdir name task now rfl
    refine ⟨?_, splitLevel_congr (context_fileOp task now name fuel s.2)⟩
    rw [← executed_flatView hd]
    exact (h.fileOp task now name hd hf).2
  | shard path =>
    have hrun : shardAt env path s.1 s.2 =
        ((shardAt env path s.1 s.2).1, (shardAt env path s.1 s.2).2.1, .ok ()) := by
      rw [← show (shardAt env path s.1 s.2).2.2 = .ok () from hok]
    exact ⟨h.shardAt law path hrun hc, splitLevel_congr (context_shardAt hrun law h hc)⟩

/-- A whole run. -/
theorem holds_run (law : env.Lawful) {dirs : ExtTreeMap String DirRef} {fuel : Nat} :
    ∀ (ops : List DirOp) {files : ExtTreeMap String FileRef} {s : World β × Actor},
      Holds env s.1 s.2 (flatView dirs files) →
      maxShardLevel.toNat < s.2.splitLevel.toNat + fuel →
      (∀ (name : Name) task now, .fileOp name task now ∈ ops → dirs[name.1]? = none) →
      Run.Steps (stepDir env fuel) (ShardsOk env) s ops →
      (ops.foldl (stepDir env fuel) s).1.collided = false →
      Holds env (ops.foldl (stepDir env fuel) s).1 (ops.foldl (stepDir env fuel) s).2
          (flatView dirs (ops.foldl flatStep files)) ∧
        (ops.foldl (stepDir env fuel) s).2.splitLevel = s.2.splitLevel
  | [], _, _, h, _, _, _, _ => ⟨h, rfl⟩
  | op :: ops, files, s, h, hf, hdir, hok, hc => by
    obtain ⟨hop, hok⟩ := Run.steps_cons.1 hok
    have hc1 : (stepDir env fuel s op).1.collided = false := (grows_run fuel ops _).collided hc
    obtain ⟨h1, hl1⟩ := holds_step law h hf
      (fun name task now he => hdir name task now (he ▸ List.mem_cons_self)) hop hc1
    obtain ⟨h2, hl2⟩ := holds_run law ops h1 (by rw [hl1]; exact hf)
      (fun name task now hm => hdir name task now (List.mem_cons_of_mem _ hm)) hok hc
    exact ⟨h2, hl2.trans hl1⟩

/-- **A sharded directory is a flat map over whole runs.** -/
theorem sharded_is_flat_map (law : env.Lawful) (hu : a.Unsharded)
    (hle : a.splitLevel ≤ maxShardLevel) {fuel : Nat} (hf : maxShardLevel.toNat < fuel)
    {ops : List DirOp}
    (hdirs : ∀ (name : Name) task now, .fileOp name task now ∈ ops → name.1 ∉ a.state.dirs)
    (hok : Run.Steps (stepDir env fuel) (ShardsOk env) (w, a) ops)
    (hc : (ops.foldl (stepDir env fuel) (w, a)).1.collided = false) :
    let s := ops.foldl (stepDir env fuel) (w, a)
    let files := ops.foldl flatStep a.state.files
    (∀ n : String, ∃ path b, Home env s.1 n s.2 path b ∧ b.state.files[n]? = files[n]? ∧
      (∀ path' b', Home env s.1 n s.2 path' b' → path' = path) ∧
      ∀ path' b', Below env s.1 s.2 path' b' → n ∈ b'.state.files → path' = path) ∧
    (∀ (name : Name) (task : FileTask) (now : UInt32 × UInt32), name.1 ∉ a.state.dirs →
      (fileOp env s.1 task now name fuel s.2).2 = some files[name.1]?) ∧
    ∃ d, exportMergedSnapshot env s.1 fuel s.2 = .ok d ∧ d.files = files ∧
      d.dirs = a.state.dirs := by
  have hstart : Holds env w a (flatView a.state.dirs a.state.files) :=
    .unsharded hu hle fun _ => rfl
  have hmissing : ∀ {n : String}, n ∉ a.state.dirs → a.state.dirs[n]? = none :=
    fun h => ExtTreeMap.getElem?_eq_none h
  obtain ⟨h, hl⟩ := holds_run law (s := (w, a)) ops hstart (Nat.lt_add_left _ hf)
    (fun name task now hm => hmissing (hdirs name task now hm)) hok hc
  have hfuel : maxShardLevel.toNat <
      (ops.foldl (stepDir env fuel) (w, a)).2.splitLevel.toNat + fuel := Nat.lt_add_left _ hf
  refine ⟨fun n => ?_, fun name task now hn => ?_, ?_⟩
  · obtain ⟨path, b, hhome, hentry, hsole⟩ := h.home n
    refine ⟨path, b, hhome, congrArg Prod.snd hentry, fun _ _ => hhome.unique,
      fun path' b' hb hn => hsole path' b' hb ?_⟩
    intro hnone
    rw [ExtTreeMap.mem_iff_isSome_getElem?, show b'.state.files[n]? = none from
      congrArg Prod.snd hnone] at hn
    cases hn
  · exact (h.fileOp task now name (hmissing hn) hfuel).1
  · obtain ⟨d, hd, he⟩ := exportMergedSnapshot_entry (h.intact hfuel)
    have hentry : ∀ n, d.entry n = flatView a.state.dirs (ops.foldl flatStep a.state.files) n :=
      fun n => (he n).trans (h.flatEntry hfuel n)
    refine ⟨d, hd, ExtTreeMap.ext_getElem? fun n => congrArg Prod.snd (hentry n),
      ExtTreeMap.ext_getElem? fun n => congrArg Prod.fst (hentry n)⟩

end

/-! A root that is sharded, and a shard of it once more. -/

/-- Writes two files, splits the root and the shard of the first one, and goes on. -/
def resharding : List DirOp :=
  [.fileOp ⟨"b", by decide⟩ (.put (FileRef.new 2 1)) (1, 0), .shard [],
    .fileOp ⟨"c", by decide⟩ (.put (FileRef.new 3 1)) (2, 0),
    .shard [shardIndex (symbolic xxh3Short) "a" 0], .fileOp ⟨"a", by decide⟩ .delete (3, 0)]

theorem resharding_ok : Run.Steps (stepDir (symbolic xxh3Short) 8) (ShardsOk (symbolic xxh3Short))
    (emptyWorld, oneFile "a") resharding := by
  have hok : ∀ {x : World Sym × Actor × Except String Unit}, x.2.2.isOk = true → x.2.2 = .ok () := by
    rintro ⟨w, a, e | u⟩ h
    · cases h
    · rfl
  refine Run.steps_cons.2 ⟨trivial, Run.steps_cons.2 ⟨hok (by decide +kernel), Run.steps_cons.2
    ⟨trivial, Run.steps_cons.2 ⟨hok (by decide +kernel), Run.steps_cons.2 ⟨trivial, ?_⟩⟩⟩⟩⟩
  exact Run.steps_nil

theorem sharded_is_flat_map_resharded :
    (oneFile "a").Unsharded ∧
      let s := resharding.foldl (stepDir (symbolic xxh3Short) 8) (emptyWorld, oneFile "a")
      let files := resharding.foldl flatStep (oneFile "a").state.files
      (∀ (name : Name) (task : FileTask) (now : UInt32 × UInt32), name.1 ∉ (oneFile "a").state.dirs →
        (fileOp (symbolic xxh3Short) s.1 task now name 8 s.2).2 = some files[name.1]?) ∧
      ∃ d, exportMergedSnapshot (symbolic xxh3Short) s.1 8 s.2 = .ok d ∧ d.files = files ∧
        d.dirs = (oneFile "a").state.dirs := by
  have h := sharded_is_flat_map (symbolic_lawful xxh3Short) (oneFile_unsharded "a") (by decide)
    (by decide) (fun name task now _ => by simp [oneFile, DirV1.new]) resharding_ok
    (by decide +kernel)
  exact ⟨oneFile_unsharded "a", h.2⟩

end Actor

end Fs
