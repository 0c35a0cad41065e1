import S5.Fs.Proof.KeysTurn
import S5.Fs.Proof.Shard

/-!
# Seals of what is saved

A directory saves itself under its own seal, and its references keep leading to what is listed: when
it writes itself (`Turn.Good.save`), when it splits (`Turn.goes_shard`) and when it takes over the
hashes of its children (`Turn.Good.takeReplies`).
-/

open Std

namespace Fs

namespace Turn

variable {β : Type} [DecidableEq β] {env : Env β} {taken : Bytes32 → Prop}
  {root : DirContext ActorId} {s : System β} {S S' : Sealing} {t t' : Turn β}

/-! ## Saving -/

omit [DecidableEq β] in
/-- The root file after a save of the actor. -/
theorem Good.rootGood_persisted {ctx : DirContext ActorId} {d : DirV1} {w w' : World β}
    {result : Except String (DirContext ActorId × Option Hash)} (law : env.Lawful)
    (hr : RootGood env S w root) (hle : S.Le S') (hctx : ctx.link = .localFile → ctx = root)
    (hrefs : Refs S ctx.sealOf d)
    (hp : Persisted env S' ctx.sealOf d ctx w w' result) : RootGood env S' w' root := by
  rcases hp.rootFile with he | ⟨hlink, b, hb, hu⟩
  · exact (hr.of_rootFile he).mono hle
  · obtain rfl := hctx hlink
    obtain ⟨s', hs', ⟨l, hl, -⟩ | ⟨-, rfl, -⟩⟩ := hr
    · simp [DirContext.loc, hlink] at hl
    · rw [hs'.sealOf_eq] at hu hrefs
      obtain rfl : b = env.toBytes d := by simpa [unsealed] using hu
      exact ⟨none, hs', .inr ⟨hlink, rfl, _, d, hb, law.fromBytes_toBytes d, hrefs.mono hle⟩⟩

theorem save_world (t : Turn β) (notify : Bool) :
    (t.save env notify).1.world = (persist env t.actor.context t.actor.state t.world).1 := by
  unfold save
  generalize persist env t.actor.context t.actor.state t.world = r
  rcases r with ⟨w, e | ⟨ctx, hash⟩⟩
  · rfl
  · dsimp only
    repeat' split
    all_goals first | rfl | (unfold moveHead; split <;> rfl)

omit [DecidableEq β] in
theorem moveHead_same (t : Turn β) (h : Hash) :
    (t.moveHead h).world = t.world ∧ (t.moveHead h).self = t.self ∧ (t.moveHead h).fresh = t.fresh ∧
      (t.moveHead h).spawned = t.spawned ∧ (t.moveHead h).out = t.out ∧
      Same t.actor (t.moveHead h).actor := by
  unfold moveHead
  split
  · exact ⟨rfl, rfl, rfl, rfl, rfl, .refl _⟩
  · exact ⟨rfl, rfl, rfl, rfl, rfl, .of_eq rfl rfl rfl rfl rfl (.inl rfl)⟩

omit [DecidableEq β] in
theorem Good.moveHead (h : Good env taken root s S t) (k : Hash) :
    Good env taken root s S { t.moveHead k with localRoot.saved := true } := by
  obtain ⟨hw, hself, hfresh, hsp, hout, hsame⟩ := moveHead_same t k
  refine h.same ?_ hself hfresh hsp hsame fun o ho => .inl ?_
  · show t.world.Onward (t.moveHead k).world
    rw [hw]
    exact .refl _
  · have : o ∈ (t.moveHead k).out := ho
    rwa [hout] at this

/-- **A directory saves itself** under its own seal. -/
theorem Good.save (law : env.Lawful) (h : Good env taken root s S t)
    (hrefs : Refs S t.actor.context.sealOf t.actor.state) (notify : Bool)
    (hw : (t.save env notify).1.world.Sane env taken) :
    ∃ S', S.Le S' ∧ Good env taken root s S' (t.save env notify).1 ∧
      ∀ k, (t.save env notify).2 = .ok (some k) →
        (∀ sk pk, (t.save env notify).1.actor.context.link ≠ .registryKey pk sk) ∧
          S' (t.save env notify).1.actor.context.sealOf (.blob k) := by
  have hself := h.actors t.self t.actor (getElem?_self h.inside)
  rw [save_world] at hw
  obtain ⟨S', hle, hg, hp⟩ := good_persist law hself.sealed h.world hrefs
    (fun _ _ => hself.linked.listed_of_registryKey) hw
  have hr' := Good.rootGood_persisted law h.rootGood hle hself.linked.root_of_localFile hrefs hp
  refine ⟨S', hle, ?_⟩
  unfold Turn.save
  generalize persist env t.actor.context t.actor.state t.world = r at hg hp hr' hw
  rcases r with ⟨w, e | ⟨ctx, hash⟩⟩
  · refine ⟨h.update hle rfl rfl rfl (.refl _) hg hr' (fun ha he => ha.mono hle he)
      fun _ _ => .inl, fun _ hk => by cases hk⟩
  · dsimp only at hg hp hr' ⊢
    rcases hp.linked ctx hash rfl with ⟨rfl, rfl⟩ | ⟨path, i, h₀, level, k, hlink, rfl, rfl, hS⟩
    · -- a root, which nothing but the world changes for
      have h1 : Good env taken root s S' { t with world := w } :=
        h.update hle rfl rfl rfl (.refl _) hg hr' (fun ha he => ha.mono hle he) fun _ _ => .inl
      split
      · split
        · exact ⟨h1.moveHead _, fun _ hk => by cases hk⟩
        · exact ⟨h1, fun _ hk => by cases hk⟩
      · cases notify <;> exact ⟨h1, fun _ hk => by cases hk⟩
      · exact ⟨h1, fun _ hk => by cases hk⟩
    · -- a child under its new hash, which it may tell its parent
      have hset : ({ t.actor.context with link := .dirHandle path i k level } : DirContext ActorId) =
          t.actor.context.setHash k := by
        simp [DirContext.setHash, hlink]
      set t1 : Turn β := { t with
        world := w
        actor.context := { t.actor.context with link := .dirHandle path i k level } } with ht1
      have hgrows : t.actor.Grows t1.actor := by
        rw [ht1]
        dsimp only
        rw [hset]
        exact t.actor.grows_setHash k
      have hactor : ActorGood S root (t.actorsOf s) t.self t.actor →
          Extends (t.actorsOf s) (t1.actorsOf s) →
          ActorGood S' root (t1.actorsOf s) t.self t1.actor := by
        intro ha he
        have := (ha.mono hle he).setHash (h := k) hS
        rw [← hset] at this
        exact this
      have h1 : Good env taken root s S' t1 :=
        h.update hle rfl rfl rfl hgrows hg hr' hactor fun _ _ => .inl
      have hanswer : ∀ j, (.ok (some k) : Except String (Option Hash)) = .ok (some j) →
          (∀ sk pk, t1.actor.context.link ≠ .registryKey pk sk) ∧
            S' t1.actor.context.sealOf (.blob j) := by
        intro j hj
        cases hj
        refine ⟨fun _ _ hl => ?_, hS⟩
        cases hl
      cases notify with
      | false => exact ⟨h1, hanswer⟩
      | true =>
        refine ⟨h1.update (.refl S') rfl rfl rfl (.refl _) hg hr' (fun ha _ => ha) ?_, hanswer⟩
        intro _ o ho
        rcases List.mem_append.1 ho with ho | ho
        · exact .inl ho
        · obtain rfl := List.mem_singleton.1 ho
          right
          have hself1 := h1.actors t1.self t1.actor (getElem?_self h1.inside)
          obtain ⟨-, b, hb, hi⟩ := hself1.linked
          exact ⟨b, t1.self, t1.actor, hb, hi, getElem?_self h1.inside, ⟨k, level, rfl⟩, hS⟩

variable (env) in
/-- What a save leaves as it is. -/
theorem save_forward (t : Turn β) (notify : Bool) :
    Forward t (t.save env notify).1 ∧ (t.save env notify).1.actor.phase = t.actor.phase := by
  have hctx := fun ctx hash (h : _ = Except.ok (ctx, hash)) =>
    persist_context env t.actor.context t.actor.state t.world h
  unfold save
  generalize persist env t.actor.context t.actor.state t.world = r at hctx
  rcases r with ⟨w, e | ⟨ctx, hash⟩⟩
  · exact ⟨⟨rfl, id, fun _ => rfl, .refl _, List.prefix_rfl⟩, rfl⟩
  · set t1 : Turn β := { t with world := w, actor.context := ctx } with ht1
    have h1 : Forward t t1 := by
      rcases hctx ctx hash rfl with rfl | ⟨k, hk⟩
      · exact .of_eq rfl rfl rfl rfl rfl (.inl rfl)
      · refine ⟨rfl, id, fun hr => ?_, ?_, List.prefix_rfl⟩
        · obtain ⟨path, i, h₀, level, hlink, -⟩ := hk
          simp [isRoot, hlink] at hr
        · obtain ⟨path, i, h₀, level, hlink, rfl⟩ := hk
          have := t.actor.grows_setHash k
          unfold DirContext.setHash at this
          rw [hlink] at this
          exact this
    dsimp only
    repeat' split
    · rename_i bytes _
      obtain ⟨-, hself, -, hsp, -, hsame⟩ := moveHead_same t1 (env.blake3 bytes)
      refine ⟨h1.trans ⟨hself, hsame.started, fun _ => hsame.context, hsame.grows, ?_⟩, ?_⟩
      · show t1.spawned <+: (t1.moveHead _).spawned
        rw [hsp]
      · unfold moveHead
        split <;> rfl
    all_goals exact ⟨⟨h1.self, h1.started, h1.context, h1.grows, h1.spawned⟩, rfl⟩

theorem goes_save (law : env.Lawful) (hs : t.actor.Settled) (notify : Bool) :
    Goes env taken root s t (t.save env notify).1 := by
  refine ⟨fun hw => ?_, (save_forward env t notify).1, fun S hS hw => ?_⟩
  · rw [save_world] at hw
    exact persist_sane _ _ _ hw
  · have hrefs := (hS.actors t.self t.actor (getElem?_self hS.inside)).refs_settled hs
    obtain ⟨S', hle, hg, -⟩ := hS.save law hrefs notify hw
    exact ⟨S', hle, hg⟩

/-! ## Splitting -/

omit [DecidableEq β] in
/-- The references of a part of the directory lead to what is listed under the key of its shard too,
if they bring keys along where the directory is encrypted. -/
theorem refsAny_shardState {s' : Seal} {d : DirV1} (hr : Refs S s' d)
    (hk : s'.isSome = true → ∀ (name : String) (dirRef : DirRef), d.dirs[name]? = some dirRef →
      dirRef.keys.isSome = true) (level index : UInt8) :
    RefsAny S s' (shardState env d level index) := by
  intro s₁ hs₁ path dirRef hat
  cases path with
  | shard i => simp [DirV1.refAt, shardState, DirV1.new, DirHeader.new] at hat
  | path name =>
    have hd : d.dirs[name]? = some dirRef := by
      have hat' : (shardState env d level index).dirs[name]? = some dirRef := hat
      rw [Actor.shardState_dirs_getElem?] at hat'
      split at hat'
      · exact hat'
      · cases hat'
    obtain ⟨s₂, ho, hS⟩ := hr (.path name) dirRef hd
    cases ho with
    | keyed ht hk' hkey => exact ⟨_, .keyed ht hk' hkey, hS⟩
    | inherited ht hk' =>
      refine ⟨s₁, .inherited ht hk', ?_⟩
      cases s' with
      | none =>
        obtain rfl : s₁ = none := by simpa using hs₁
        exact hS
      | some key =>
        have := hk rfl name dirRef hd
        rw [hk'] at this
        cases this

/-- What the actor keeps while it splits. -/
structure Splitting (t t' : Turn β) : Prop where
  onward : t.world.Onward t'.world
  forward : Forward t t'
  phase : t'.actor.phase = t.actor.phase
  dirs : t'.actor.state.dirs = t.actor.state.dirs

omit [DecidableEq β] in
theorem Splitting.trans {t t' t'' : Turn β} (h : Splitting t t') (h' : Splitting t' t'') :
    Splitting t t'' :=
  ⟨h.onward.trans h'.onward, h.forward.trans h'.forward, h'.phase.trans h.phase,
    h'.dirs.trans h.dirs⟩

omit [DecidableEq β] in
theorem Unmoved.splitting {t t' : Turn β} (h : Unmoved t t') : Splitting t t' :=
  ⟨h.world ▸ .refl _, h.forward, h.phase, by rw [h.state]⟩

variable (env) in
theorem splitting_shardBuckets (level : UInt8) (old : DirV1) : ∀ (is : List UInt8) (t : Turn β),
    Splitting t (shardBuckets env level old is t).1
  | [], t => ⟨.refl _, .refl t, rfl, rfl⟩
  | index :: rest, t => by
    unfold shardBuckets
    dsimp only
    split
    · exact splitting_shardBuckets level old rest t
    · have h1 := onward_encodeChildDirBytes env t.actor.context
        (shardState env old level index) t.world
      generalize encodeChildDirBytes env t.actor.context (shardState env old level index) t.world
        = r1 at h1 ⊢
      obtain ⟨w1, bytes, keys⟩ := r1
      dsimp only at h1 ⊢
      have h2 := h1.trans (w1.onward_importBytes env bytes)
      generalize w1.importBytes env bytes = r2 at h2 ⊢
      rcases r2 with ⟨w2, e | h⟩
      · exact ⟨h2, .of_eq rfl rfl rfl rfl rfl (.inl rfl), rfl, rfl⟩
      · dsimp only at h2 ⊢
        set t2 : Turn β := { t with
          world := w2
          actor.state.header.shards := some ((t.actor.state.header.shards.getD ∅).insert index
            (storedDirRef t.actor.context h keys (env.utcNow t.world.tick))) } with ht2
        have h3 : Splitting t t2 :=
          ⟨h2, .of_eq rfl rfl rfl rfl rfl (.inl rfl), rfl, rfl⟩
        have h4 := h3.trans (unmoved_openDirShard t2 index).splitting
        generalize t2.openDirShard index = r3 at h4 ⊢
        rcases r3 with ⟨t3, e | c⟩
        · exact h4
        · exact h4.trans (splitting_shardBuckets level old rest t3)

omit [DecidableEq β] in
theorem openDirShard_handles (t : Turn β) (index : UInt8) {j : UInt8} (hj : j ≠ index) :
    (t.openDirShard index).1.actor.dirShardHandles[j]? = t.actor.dirShardHandles[j]? := by
  unfold openDirShard
  split
  · rfl
  · split
    · rfl
    · dsimp only
      rw [ExtTreeMap.getElem?_insert, if_neg (by simpa using Ne.symm hj)]

/-- The state with one more shard. -/
theorem refAt_insertShard (d : DirV1) (index : UInt8) (dirRef : DirRef) (path : DirHandlePath) :
    ({ d with header.shards := some ((d.header.shards.getD ∅).insert index dirRef) } : DirV1).refAt
      path = if path = .shard index then some dirRef else d.refAt path := by
  cases path with
  | path name => simp [DirV1.refAt]
  | shard i =>
    simp only [DirV1.refAt, Option.bind_some, ExtTreeMap.getElem?_insert,
      DirHandlePath.shard.injEq]
    by_cases hi : i = index
    · simp [hi]
    · rw [if_neg (by simpa using Ne.symm hi), if_neg hi]
      cases d.header.shards <;> simp

/-- **Splitting one bucket after the other** writes each shard under the key its reference brings. -/
theorem Good.shardBuckets (law : env.Lawful) {level : UInt8} {old : DirV1} (is : List UInt8)
    (hnd : is.Nodup) (hS : Good env taken root s S t) (hq : t.actor.phase.isQuiet = true)
    (hlevel : t.actor.state.header.shardLevel ≠ none)
    (hno : ∀ index ∈ is, t.actor.dirShardHandles[index]? = none)
    (hparts : ∀ index, RefsAny S t.actor.context.sealOf (shardState env old level index))
    (hw : (Turn.shardBuckets env level old is t).1.world.Sane env taken) :
    ∃ S', S.Le S' ∧ Good env taken root s S' (Turn.shardBuckets env level old is t).1 := by
  induction is generalizing S t with
  | nil => exact ⟨S, .refl S, hS⟩
  | cons index rest ih =>
    obtain ⟨hnotin, hnd'⟩ := List.nodup_cons.1 hnd
    have hself := hS.actors t.self t.actor (getElem?_self hS.inside)
    have hon := fun t : Turn β => (splitting_shardBuckets env level old rest t).onward
    unfold Turn.shardBuckets at hw ⊢
    dsimp only at hw ⊢
    split at hw
    · rename_i hempty
      rw [if_pos hempty]
      exact ih hnd' hS hq hlevel (fun i hi => hno i (.tail _ hi)) hparts hw
    · rename_i hempty
      rw [if_neg hempty]
      have h1 := onward_encodeChildDirBytes env t.actor.context
        (shardState env old level index) t.world
      generalize he : encodeChildDirBytes env t.actor.context (shardState env old level index) t.world
        = r1 at h1 hw ⊢
      obtain ⟨w1, bytes, keys⟩ := r1
      dsimp only at h1 hw ⊢
      have h2 := h1.trans (w1.onward_importBytes env bytes)
      generalize hi : w1.importBytes env bytes = r2 at h2 hw ⊢
      rcases r2 with ⟨w2, e | h⟩
      · refine ⟨S, .refl S, hS.same h2 rfl rfl rfl ⟨rfl, fun path => ?_, rfl, fun path => ?_,
          fun _ => id, .inl rfl⟩ fun _ => .inl⟩
        · cases path with
          | path name => rfl
          | shard i => cases hsh : t.actor.state.header.shards <;> simp [DirV1.refAt, hsh]
        · cases path <;> rfl
      · dsimp only at h2 hw ⊢
        set dirRef := storedDirRef t.actor.context h keys (env.utcNow t.world.tick) with hdirRef
        set t2 : Turn β := { t with
          world := w2
          actor.state.header.shards :=
            some ((t.actor.state.header.shards.getD ∅).insert index dirRef) } with ht2
        have hun := unmoved_openDirShard t2 index
        have hhandles := fun j (hj : j ≠ index) => openDirShard_handles t2 index hj
        have hw2 : w2.Sane env taken := by
          have hw3 : (t2.openDirShard index).1.world = w2 := hun.world
          generalize t2.openDirShard index = r3 at hw hw3
          rcases r3 with ⟨t3, e | c⟩
          · rw [← hw3]
            exact hw
          · rw [← hw3]
            exact (hon t3).sane hw
        -- the shard is listed under the key of its reference
        obtain ⟨s', hopens, hg⟩ := good_writeChild law hself.sealed hS.world (hparts index) he hi
          hw2.collided (env.utcNow t.world.tick)
        have hle := S.le_add s' (.blob h)
        have hg2 : Good env taken root s (S.add s' (.blob h)) t2 := by
          refine hS.setState hle hg ((hS.rootGood.onward h2).mono hle) ?_ ?_ id hq
          · intro path d hat
            rw [refAt_insertShard] at hat
            split at hat
            · rename_i hp
              obtain rfl := Option.some.inj hat
              exact ⟨s', hopens _ rfl, .inl (hp ▸ S.add_self s' (.blob h))⟩
            · exact (hself.refs path d hat).mono hle
          · intro path c d hc hat
            rw [refAt_insertShard] at hat
            split at hat
            · rename_i hp
              subst hp
              have hcontra := hc.symm.trans (hno index (.head _))
              cases hcontra
            · exact ⟨d, hat, .refl d⟩
        have hg3 := hg2.openDirShard (isQuiet_started hq) index
        have hq3 : (t2.openDirShard index).1.actor.phase.isQuiet = true := by
          rw [hun.phase]
          exact hq
        have hlevel3 : (t2.openDirShard index).1.actor.state.header.shardLevel ≠ none := by
          rw [hun.state]
          exact hlevel
        have hctx3 : (t2.openDirShard index).1.actor.context = t.actor.context := hun.context
        have hno3 : ∀ i ∈ rest, (t2.openDirShard index).1.actor.dirShardHandles[i]? = none := by
          intro i hi
          rw [hhandles i fun hii => hnotin (hii ▸ hi)]
          exact hno i (.tail _ hi)
        generalize t2.openDirShard index = r3 at hg3 hq3 hlevel3 hctx3 hno3 hw ⊢
        rcases r3 with ⟨t3, e | c⟩
        · exact ⟨_, hle, hg3⟩
        · obtain ⟨S', hle', hg'⟩ := ih hnd' hg3 hq3 hlevel3 hno3
            (fun i => by rw [hctx3]; exact (hparts i).mono hle) hw
          exact ⟨S', hle.trans hle', hg'⟩

variable (env) in
/-- `shard` splits at the level that the link of the directory gives, and empties the directory
unless a shard could not be written. -/
theorem shard_cases (t : Turn β) : ∃ level r, shardBuckets env level t.actor.state
      ((List.range 256).map UInt8.ofNat) { t with actor.state.header.shardLevel := some level } = r ∧
    ((t.shard env).1 = r.1 ∨
      (t.shard env).1 = { r.1 with actor.state.dirs := ∅, actor.state.files := ∅ }) := by
  unfold shard
  dsimp only
  split
  · rename_i heq
    exact ⟨_, _, heq, .inl rfl⟩
  · rename_i heq
    exact ⟨_, _, heq, .inr rfl⟩

variable (env) in
theorem shard_forward (t : Turn β) :
    t.world.Onward (t.shard env).1.world ∧ Forward t (t.shard env).1 ∧
      (t.shard env).1.actor.phase = t.actor.phase ∧
      ((t.shard env).1.actor.state.dirs = t.actor.state.dirs ∨
        (t.shard env).1.actor.state.dirs = ∅) := by
  obtain ⟨level, r, hr, hshard⟩ := shard_cases env t
  set t0 : Turn β := { t with actor.state.header.shardLevel := some level } with ht0
  have h0 : Forward t t0 := .of_eq rfl rfl rfl rfl rfl (.inl rfl)
  have h := splitting_shardBuckets env level t.actor.state
    ((List.range 256).map UInt8.ofNat) t0
  rw [hr] at h
  rcases hshard with hshard | hshard
  · rw [hshard]
    exact ⟨h.onward, h0.trans h.forward, h.phase, .inl h.dirs⟩
  · have h1 : Forward r.1 { r.1 with actor.state.dirs := ∅, actor.state.files := ∅ } :=
      .of_eq rfl rfl rfl rfl rfl (.inl rfl)
    rw [hshard]
    exact ⟨h.onward, (h0.trans h.forward).trans h1, h.phase, .inr rfl⟩

/-- **A directory splits** into shards that its subdirectories do not depend on. -/
theorem goes_shard (law : env.Lawful) (hq : t.actor.phase.isQuiet = true)
    (hnone : t.actor.state.header.shardLevel = none) (hs : t.actor.Settled)
    (hk : t.actor.context.encryptionType.isSome = true → ∀ (name : String) (dirRef : DirRef),
      t.actor.state.dirs[name]? = some dirRef → dirRef.keys.isSome = true) :
    Goes env taken root s t (t.shard env).1 := by
  obtain ⟨hon, hforward, -, -⟩ := shard_forward env t
  refine ⟨hon.sane, hforward, fun S hS hw => ?_⟩
  have hself := hS.actors t.self t.actor (getElem?_self hS.inside)
  obtain ⟨level, r, hr, hshard⟩ := shard_cases env t
  set t0 : Turn β := { t with actor.state.header.shardLevel := some level } with ht0
  have h0 : Good env taken root s S t0 := by
    refine hS.setState (.refl S) hS.world hS.rootGood ?_ ?_ (fun hl => by cases hl) hq
    · intro path d hat
      have hat' : t.actor.state.refAt path = some d := by cases path <;> exact hat
      exact hself.refs path d hat'
    · intro path c d _ hat
      have hat' : t.actor.state.refAt path = some d := by cases path <;> exact hat
      exact ⟨d, hat', .refl d⟩
  have hparts : ∀ index, RefsAny S t0.actor.context.sealOf
      (shardState env t.actor.state level index) := by
    intro index
    refine refsAny_shardState (hself.refs_settled hs) (fun hsome => ?_) level index
    rw [isSome_sealOf hself.sealed] at hsome
    exact hk hsome
  have hbuckets := Good.shardBuckets law
    ((List.range 256).map UInt8.ofNat) Actor.buckets_nodup h0 hq (fun hl => by cases hl)
    (fun index _ => hself.unsplit hnone index) hparts
  have hq1 := (splitting_shardBuckets env level t.actor.state
    ((List.range 256).map UInt8.ofNat) t0).phase
  rw [hr] at hbuckets hq1
  rcases hshard with hshard | hshard
  · rw [hshard] at hw ⊢
    exact hbuckets hw
  · rw [hshard] at hw ⊢
    obtain ⟨S', hle, h1⟩ := hbuckets hw
    have hself1 := h1.actors r.1.self r.1.actor (getElem?_self h1.inside)
    refine ⟨S', hle, h1.setState (.refl S') h1.world h1.rootGood ?_ ?_ id (hq1 ▸ hq)⟩
    · intro path d hat
      cases path with
      | path name => simp [DirV1.refAt] at hat
      | shard index => exact hself1.refs (.shard index) d hat
    · intro path c d _ hat
      cases path with
      | path name => simp [DirV1.refAt] at hat
      | shard index => exact ⟨d, hat, .refl d⟩

variable (taken root s) in
/-- What the actor is left with, split or not. -/
theorem goes_shardIfNeeded (law : env.Lawful) (hq : t.actor.phase.isQuiet = true)
    (hr : t.actor.Ready env) :
    Goes env taken root s t (t.shardIfNeeded env).1 ∧
      (t.shardIfNeeded env).1.actor.phase = t.actor.phase ∧
      (t.shardIfNeeded env).1.actor.Settled := by
  unfold shardIfNeeded
  split
  · exact ⟨.refl t, rfl, hr.settled⟩
  · rename_i hlevel
    split
    · exact ⟨.refl t, rfl, hr.settled⟩
    · rename_i hsmall
      dsimp only
      set t0 : Turn β := { t with
        actor.lastSerializedLen := env.len (env.toBytes t.actor.state)
        actor.shardSizeCheckOps := 0 } with ht0
      have h0 : Goes env taken root s t t0 :=
        goes_same (.refl _) rfl rfl rfl
          (.of_eq rfl rfl rfl rfl rfl (.inl rfl)) fun _ => .inl
      split
      · rename_i hlarge
        have hnone : t.actor.state.header.shardLevel = none := by simpa using hlevel
        obtain ⟨-, -, hphase, hdirs⟩ := shard_forward env t0
        refine ⟨h0.trans (goes_shard law hq hnone hr.settled (hr.keyed ⟨hnone, hsmall, hlarge⟩)),
          hphase, ?_⟩
        unfold DirActor.Settled
        rcases hdirs with hd | hd
        · rw [hd]
          exact hr.settled
        · rw [hd]
          intro name dirRef hn
          simp at hn
      · exact ⟨h0, rfl, hr.settled⟩

end Turn

end Fs
