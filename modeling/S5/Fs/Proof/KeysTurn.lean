import S5.Fs.Proof.KeysActor

/-!
# Seals in an actor's turn

Each thing an actor does in its turn keeps the actors of the system good, under a store typing that
may have grown (`Turn.Goes`).
-/

open Std

namespace Fs

namespace Turn

variable {β : Type}

/-- The actors of a system during a turn. -/
def actorsOf (s : System β) (t : Turn β) : List DirActor :=
  s.actors.set t.self t.actor ++ t.spawned

structure Good (env : Env β) (taken : Bytes32 → Prop) (root : DirContext ActorId) (s : System β)
    (S : Sealing) (t : Turn β) : Prop where
  inside : t.self < s.actors.length
  fresh : t.fresh = s.actors.length + t.spawned.length
  world : S.Good env taken t.world
  rootGood : RootGood env S t.world root
  actors : ∀ (i : ActorId) (a : DirActor), (t.actorsOf s)[i]? = some a →
    ActorGood S root (t.actorsOf s) i a
  out : ∀ o ∈ t.out, OutGood S (t.actorsOf s) o

/-- The actor goes on; a root stays linked as it is. -/
structure Forward (t t' : Turn β) : Prop where
  self : t'.self = t.self
  started : t.actor.phase.isStarting = false → t'.actor.phase.isStarting = false
  context : t.isRoot = true → t'.actor.context = t.actor.context
  grows : t.actor.Grows t'.actor
  spawned : t.spawned <+: t'.spawned

/-- The turn goes on to `t'`, and if that is sane everything has stayed good. -/
structure Goes (env : Env β) (taken : Bytes32 → Prop) (root : DirContext ActorId) (s : System β)
    (t t' : Turn β) : Prop where
  sane : t'.world.Sane env taken → t.world.Sane env taken
  forward : Forward t t'
  good : ∀ S, Good env taken root s S t → t'.world.Sane env taken →
    ∃ S', S.Le S' ∧ Good env taken root s S' t'

variable {env : Env β} {taken : Bytes32 → Prop} {root : DirContext ActorId} {s : System β}
  {S S' : Sealing} {t t' t'' : Turn β}

theorem isRoot_of_ne
    (h : ∀ path p hash level, t.actor.context.link ≠ .dirHandle path p hash level) :
    t.isRoot = true := by
  unfold isRoot
  split
  · rename_i hlink
    exact absurd hlink (h _ _ _ _)
  · rfl

theorem Forward.refl (t : Turn β) : Forward t t :=
  ⟨rfl, id, fun _ => rfl, .refl _, List.prefix_rfl⟩

/-- Neither the context nor the handles of the actor change. -/
theorem Forward.of_eq (hself : t'.self = t.self) (hsp : t'.spawned = t.spawned)
    (hc : t'.actor.context = t.actor.context) (hd : t'.actor.dirHandles = t.actor.dirHandles)
    (hs : t'.actor.dirShardHandles = t.actor.dirShardHandles)
    (hp : t'.actor.phase = t.actor.phase ∨ t'.actor.phase.isStarting = false) : Forward t t' where
  self := hself
  started hst := by
    rcases hp with hp | hp
    · rw [hp]
      exact hst
    · exact hp
  context _ := hc
  grows := DirActor.grows_of_eq hc hd hs
  spawned := by rw [hsp]

theorem Forward.trans (h : Forward t t') (h' : Forward t' t'') : Forward t t'' where
  self := h'.self.trans h.self
  started hs := h'.started (h.started hs)
  context hr := by
    have hc := h.context hr
    have hr' : t'.isRoot = true := by
      unfold isRoot at hr ⊢
      rw [hc]
      exact hr
    exact (h'.context hr').trans hc
  grows := h.grows.trans h'.grows
  spawned := h.spawned.trans h'.spawned

theorem Goes.refl (t : Turn β) : Goes env taken root s t t :=
  ⟨id, .refl t, fun S h _ => ⟨S, .refl S, h⟩⟩

theorem Goes.trans (h : Goes env taken root s t t') (h' : Goes env taken root s t' t'') :
    Goes env taken root s t t'' where
  sane hw := h.sane (h'.sane hw)
  forward := h.forward.trans h'.forward
  good S hg hw := by
    obtain ⟨S', hle, hg'⟩ := h.good S hg (h'.sane hw)
    obtain ⟨S'', hle', hg''⟩ := h'.good S' hg' hw
    exact ⟨S'', hle.trans hle', hg''⟩

/-! ## The actors of a turn -/

theorem getElem?_self (h : t.self < s.actors.length) :
    (t.actorsOf s)[t.self]? = some t.actor := by
  unfold actorsOf
  rw [List.getElem?_append_left (by rwa [List.length_set]), List.getElem?_set_self h]

theorem getElem?_other {c : ActorId} (hself : t'.self = t.self) (hsp : t'.spawned = t.spawned)
    (hc : c ≠ t.self) : (t'.actorsOf s)[c]? = (t.actorsOf s)[c]? := by
  unfold actorsOf
  rw [hself, hsp]
  by_cases hlt : c < s.actors.length
  · rw [List.getElem?_append_left (by rwa [List.length_set]),
      List.getElem?_append_left (by rwa [List.length_set]), List.getElem?_set_ne (Ne.symm hc),
      List.getElem?_set_ne (Ne.symm hc)]
  · rw [List.getElem?_append_right (by rw [List.length_set]; exact Nat.le_of_not_lt hlt),
      List.getElem?_append_right (by rw [List.length_set]; exact Nat.le_of_not_lt hlt),
      List.length_set, List.length_set]

theorem getElem?_spawned {c : ActorId} {b : DirActor} (hself : t'.self = t.self)
    (hsp : t.spawned <+: t'.spawned) (hc : c ≠ t.self) (hb : (t.actorsOf s)[c]? = some b) :
    (t'.actorsOf s)[c]? = some b := by
  unfold actorsOf at hb ⊢
  by_cases hlt : c < s.actors.length
  · rw [List.getElem?_append_left (by rwa [List.length_set]), List.getElem?_set_ne (Ne.symm hc)] at hb
    rw [List.getElem?_append_left (by rwa [List.length_set]),
      List.getElem?_set_ne (Ne.symm (hself ▸ hc))]
    exact hb
  · have hle : s.actors.length ≤ c := Nat.le_of_not_lt hlt
    rw [List.getElem?_append_right (by rwa [List.length_set]), List.length_set] at hb
    rw [List.getElem?_append_right (by rwa [List.length_set]), List.length_set]
    obtain ⟨l, hl⟩ := hsp
    rw [← hl, List.getElem?_append_left (List.getElem?_eq_some_iff.1 hb).1]
    exact hb

theorem extends_of_grows (hin : t.self < s.actors.length) (hself : t'.self = t.self)
    (hsp : t.spawned <+: t'.spawned) (hg : t.actor.Grows t'.actor) :
    Extends (t.actorsOf s) (t'.actorsOf s) := by
  intro c b hb
  by_cases hc : c = t.self
  · subst hc
    rw [getElem?_self hin] at hb
    obtain rfl := Option.some.inj hb
    refine ⟨t'.actor, ?_, hg⟩
    rw [← hself]
    exact getElem?_self (hself ▸ hin)
  · exact ⟨b, getElem?_spawned hself hsp hc hb, .refl b⟩

theorem Forward.extends (h : Forward t t') (hin : t.self < s.actors.length) :
    Extends (t.actorsOf s) (t'.actorsOf s) :=
  extends_of_grows hin h.self h.spawned h.grows

/-- The actor changes and says something; nobody is spawned. -/
theorem Good.update (h : Good env taken root s S t) (hle : S.Le S') (hself : t'.self = t.self)
    (hfresh : t'.fresh = t.fresh) (hsp : t'.spawned = t.spawned) (hg : t.actor.Grows t'.actor)
    (hw : S'.Good env taken t'.world) (hr : RootGood env S' t'.world root)
    (ha : ActorGood S root (t.actorsOf s) t.self t.actor →
      Extends (t.actorsOf s) (t'.actorsOf s) → ActorGood S' root (t'.actorsOf s) t.self t'.actor)
    (ho : Extends (t.actorsOf s) (t'.actorsOf s) →
      ∀ o ∈ t'.out, o ∈ t.out ∨ OutGood S' (t'.actorsOf s) o) :
    Good env taken root s S' t' := by
  have he := extends_of_grows (s := s) h.inside hself (hsp ▸ List.prefix_rfl) hg
  refine ⟨hself ▸ h.inside, ?_, hw, hr, fun i a hi => ?_, fun o hm => ?_⟩
  · rw [hfresh, hsp, h.fresh]
  · by_cases hc : i = t.self
    · subst hc
      have hs' : (t'.actorsOf s)[t.self]? = some t'.actor := by
        rw [← hself]
        exact getElem?_self (hself ▸ h.inside)
      obtain rfl := Option.some.inj (hs'.symm.trans hi)
      exact ha (h.actors t.self t.actor (getElem?_self h.inside)) he
    · rw [getElem?_other hself hsp hc] at hi
      exact (h.actors i a hi).mono hle he
  · rcases ho he o hm with hm | hg
    · exact (h.out o hm).mono hle he
    · exact hg

/-! ## Simple changes -/

/-- Nothing changes that matters for seals. -/
structure Same (a a' : DirActor) : Prop where
  context : a'.context = a.context
  refs : ∀ path, a'.state.refAt path = a.state.refAt path
  level : a'.state.header.shardLevel = a.state.header.shardLevel
  handles : ∀ path, a'.handleAt path = a.handleAt path
  mail : ∀ msg ∈ a'.mailbox, msg ∈ a.mailbox
  phase : a'.phase = a.phase ∨ a'.phase.isQuiet = true

theorem Same.refl (a : DirActor) : Same a a :=
  ⟨rfl, fun _ => rfl, rfl, fun _ => rfl, fun _ => id, .inl rfl⟩

theorem Same.of_eq {a a' : DirActor} (hc : a'.context = a.context) (hst : a'.state = a.state)
    (hd : a'.dirHandles = a.dirHandles) (hs : a'.dirShardHandles = a.dirShardHandles)
    (hm : a'.mailbox = a.mailbox) (hp : a'.phase = a.phase ∨ a'.phase.isQuiet = true) : Same a a' where
  context := hc
  refs path := by rw [hst]
  level := by rw [hst]
  handles path := by cases path <;> simp [DirActor.handleAt, hd, hs]
  mail msg h := hm ▸ h
  phase := hp

theorem Same.started {a a' : DirActor} (h : Same a a') (hs : a.phase.isStarting = false) :
    a'.phase.isStarting = false := by
  rcases h.phase with hp | hq
  · rw [hp]
    exact hs
  · cases hph : a'.phase <;> simp [hph, Phase.isStarting, Phase.isQuiet] at hq ⊢

theorem Same.grows {a a' : DirActor} (h : Same a a') : a.Grows a' :=
  ⟨by rw [h.context], fun _ _ hl => h.context ▸ hl, fun hp => h.context ▸ hp,
    fun path c hc => by rw [h.handles]; exact hc⟩

theorem Same.actorGood {a a' : DirActor} {l : List DirActor} {i : ActorId} (h : Same a a')
    (hg : ActorGood S root l i a) : ActorGood S root l i a' where
  sealed := h.context ▸ hg.sealed
  linked := h.context ▸ hg.linked
  refs path dirRef hr := by
    rw [h.refs] at hr
    rw [h.context]
    exact hg.refs path dirRef hr
  children path c hc := by
    rw [h.handles] at hc
    obtain ⟨b, hb, hl, hr⟩ := hg.children path c hc
    refine ⟨b, hb, hl, fun dirRef hat => ?_⟩
    rw [h.refs] at hat
    rw [h.context]
    exact hr dirRef hat
  unopened hs path := by
    rw [h.handles]
    rcases h.phase with hp | hq
    · exact hg.unopened (hp ▸ hs) path
    · cases hph : a'.phase <;> simp [hph, Phase.isStarting, Phase.isQuiet] at hs hq
  initial d hd := by
    rw [h.context]
    rcases h.phase with hp | hq
    · exact hg.initial d (hp.symm.trans hd)
    · rw [hd] at hq
      exact nomatch hq
  unsplit hl index := by
    rw [h.handles]
    exact hg.unsplit (h.level ▸ hl) index
  mail msg hm := hg.mail msg (h.mail msg hm)
  phase := by
    rcases h.phase with hp | hq
    · have hgood := hg.phase
      unfold PhaseGood at hgood ⊢
      rw [hp]
      split
      · rename_i hph
        rw [hph] at hgood
        refine ⟨hgood.1, hgood.2.1, fun name dirRef hr => hgood.2.2 name dirRef ?_⟩
        have := h.refs (.path name)
        exact this.symm.trans hr
      · rename_i hph
        rw [hph] at hgood
        exact hgood
      · trivial
    · unfold PhaseGood
      split
      · rename_i hph
        rw [hph] at hq
        exact nomatch hq
      · rename_i hph
        rw [hph] at hq
        exact nomatch hq
      · trivial

/-- The actor changes in nothing that matters, the world moves on, and what is said is plain. -/
theorem Good.same (h : Good env taken root s S t) (hw : t.world.Onward t'.world)
    (hself : t'.self = t.self) (hfresh : t'.fresh = t.fresh) (hsp : t'.spawned = t.spawned)
    (ha : Same t.actor t'.actor) (ho : ∀ o ∈ t'.out, o ∈ t.out ∨ ∀ S l, OutGood S l o) :
    Good env taken root s S t' := by
  refine h.update (.refl S) hself hfresh hsp ha.grows (h.world.onward hw) (h.rootGood.onward hw)
    (fun hg he => ha.actorGood (hg.mono (.refl S) he)) ?_
  intro _ o hm
  exact (ho o hm).imp_right fun hg => hg S _

theorem goes_same (hw : t.world.Onward t'.world) (hself : t'.self = t.self)
    (hfresh : t'.fresh = t.fresh) (hsp : t'.spawned = t.spawned) (ha : Same t.actor t'.actor)
    (ho : ∀ o ∈ t'.out, o ∈ t.out ∨ ∀ S l, OutGood S l o) : Goes env taken root s t t' where
  sane := hw.sane
  forward := ⟨hself, ha.started, fun _ => ha.context, ha.grows, hsp ▸ List.prefix_rfl⟩
  good S hg _ := ⟨S, .refl S, hg.same hw hself hfresh hsp ha ho⟩

theorem goes_emit (t : Turn β) {o : Output} (ho : ∀ S l, OutGood S l o) :
    Goes env taken root s t (t.emit o) := by
  refine goes_same (.refl _) rfl rfl rfl (.refl _) fun o' hm => ?_
  rcases List.mem_append.1 hm with hm | hm
  · exact .inl hm
  · rw [List.mem_singleton.1 hm]
    exact .inr ho

theorem goes_enter (t : Turn β) {phase : Phase} (h : phase.isQuiet = true) :
    Goes env taken root s t (t.enter phase) :=
  goes_same (.refl _) rfl rfl rfl
    ⟨rfl, fun _ => rfl, rfl, fun _ => rfl, fun _ => id, .inr h⟩ fun _ => .inl

theorem goes_world (t : Turn β) {w : World β} (h : t.world.Onward w) :
    Goes env taken root s t { t with world := w } :=
  goes_same h rfl rfl rfl (.refl _) fun _ => .inl

theorem goes_markAsDirty (t : Turn β) : Goes env taken root s t t.markAsDirty := by
  refine goes_same (.refl _) rfl rfl rfl
    ⟨rfl, fun _ => rfl, rfl, fun path => by cases path <;> rfl, fun _ => id, .inl rfl⟩ ?_
  intro o hm
  unfold markAsDirty at hm
  dsimp only at hm
  split at hm
  · rcases List.mem_append.1 hm with hm | hm
    · exact .inl hm
    · rw [List.mem_singleton.1 hm]
      exact .inr fun _ _ => trivial
  · exact .inl hm

/-! ## Opening children -/

/-- An actor that has just been spawned. -/
theorem actorGood_new {l : List DirActor} {i : ActorId} {ctx : DirContext ActorId} {s' : Seal}
    (hs : ctx.Sealed s') (hl : LinkGood S root l i ctx) (initial : Option DirV1)
    (hi : ∀ d, initial = some d → Refs S s' d) : ActorGood S root l i (.new ctx initial) where
  sealed := by
    show ctx.Sealed ctx.sealOf
    rw [hs.sealOf_eq]
    exact hs
  linked := hl
  refs path dirRef hr := by
    have hn : (DirActor.new ctx initial).state.refAt path = none := refAt_new path
    rw [hn] at hr
    exact nomatch hr
  children path c hc := by
    cases path <;> simp [DirActor.handleAt, DirActor.new] at hc
  unopened _ path := by
    cases path <;> simp [DirActor.handleAt, DirActor.new]
  initial d hd := by
    show Refs S ctx.sealOf d
    rw [hs.sealOf_eq]
    exact hi d (Phase.starting.inj hd)
  unsplit _ index := by simp [DirActor.handleAt, DirActor.new]
  mail msg hm := nomatch hm
  phase := trivial

theorem length_actorsOf (h : t.fresh = s.actors.length + t.spawned.length) :
    (t.actorsOf s).length = t.fresh := by
  unfold actorsOf
  rw [List.length_append, List.length_set, h]

/-- The context of a child is linked to where the reference to it points. -/
structure Leads (t : Turn β) (path : DirHandlePath) (dirRef : DirRef) (ctx : DirContext ActorId) :
    Prop where
  loc : ctx.loc = some (dirRef.loc path)
  linked : (∃ h, dirRef.loc path = .blob h) → ctx.LinkedTo path t.self
  published : (∃ k, dirRef.loc path = .pointer k) → ctx.Published

/-- A child is spawned, and its handle is kept at `path`. -/
structure Spawns (t t' : Turn β) (path : DirHandlePath) (ctx : DirContext ActorId)
    (initial : Option DirV1) : Prop where
  self : t'.self = t.self
  fresh : t'.fresh = t.fresh + 1
  spawned : t'.spawned = t.spawned ++ [.new ctx initial]
  world : t'.world = t.world
  out : t'.out = t.out
  context : t'.actor.context = t.actor.context
  state : t'.actor.state = t.actor.state
  mail : t'.actor.mailbox = t.actor.mailbox
  phase : t'.actor.phase = t.actor.phase
  handles : ∀ p, t'.actor.handleAt p = if p = path then some t.fresh else t.actor.handleAt p

section
variable {path : DirHandlePath} {ctx : DirContext ActorId} {initial : Option DirV1}

theorem Spawns.grows (h : Spawns t t' path ctx initial) (hno : t.actor.handleAt path = none) :
    t.actor.Grows t'.actor := by
  refine ⟨by rw [h.context], fun _ _ hl => h.context ▸ hl, fun hp => h.context ▸ hp, ?_⟩
  intro p c hc
  rw [h.handles, if_neg]
  · exact hc
  · rintro rfl
    rw [hno] at hc
    cases hc

theorem Spawns.getElem?_fresh (h : Spawns t t' path ctx initial)
    (hfresh : t.fresh = s.actors.length + t.spawned.length) :
    (t'.actorsOf s)[t.fresh]? = some (.new ctx initial) := by
  unfold actorsOf
  rw [h.spawned, ← List.append_assoc, List.getElem?_append_right, List.length_append,
    List.length_set, ← hfresh, Nat.sub_self]
  · rfl
  · rw [List.length_append, List.length_set, hfresh]

/-- Nobody but the actor itself and its new child is another one. -/
theorem Spawns.getElem?_old (h : Spawns t t' path ctx initial)
    (hfresh : t.fresh = s.actors.length + t.spawned.length) {i : ActorId} {a : DirActor}
    (hi : (t'.actorsOf s)[i]? = some a) (hself : i ≠ t.self) (hnew : i ≠ t.fresh) :
    (t.actorsOf s)[i]? = some a := by
  have hlen := length_actorsOf (t := t') (s := s) (by
    rw [h.fresh, h.spawned, hfresh, List.length_append, List.length_singleton, Nat.add_assoc])
  have hlt : i < (t.actorsOf s).length := by
    have hb := (List.getElem?_eq_some_iff.1 hi).1
    rw [hlen, h.fresh] at hb
    rw [length_actorsOf hfresh]
    exact Nat.lt_of_le_of_ne (Nat.le_of_lt_succ hb) hnew
  obtain ⟨b, hb⟩ : ∃ b, (t.actorsOf s)[i]? = some b := ⟨_, List.getElem?_eq_getElem hlt⟩
  have hb' := getElem?_spawned h.self (h.spawned ▸ List.prefix_append _ _) hself hb
  rw [hb, ← hb', hi]

/-- The context of a new child links it to what its reference leads to, and to its parent. -/
theorem Spawns.linkGood (h : Spawns t t' path ctx initial) {dirRef : DirRef} {s' : Seal}
    {l : List DirActor} (href : RefGood S t.actor.context.sealOf path dirRef)
    (ho : Opens t.actor.context.sealOf dirRef s') (hctx : ctx.Sealed s')
    (hleads : Leads t path dirRef ctx) (hself : l[t.self]? = some t'.actor) :
    LinkGood S root l t.fresh ctx := by
  obtain ⟨s₁, ho₁, hS⟩ := href
  obtain rfl := ho.unique ho₁
  have hloc := hleads.loc
  unfold LinkGood
  rw [hctx.sealOf_eq]
  cases hl : ctx.link with
  | localFile => simp [DirContext.loc, hl] at hloc
  | registryKey k sk =>
    have hk : dirRef.loc path = .pointer k := by
      simpa [DirContext.loc, hl] using hloc.symm
    rcases hS with hS | ⟨name, -, hz⟩
    · rw [hk] at hS
      exact hS
    · rw [hk] at hz
      cases hz
  | dirHandle p' i' hash level =>
    have hk : dirRef.loc path = .blob hash := by
      simpa [DirContext.loc, hl] using hloc.symm
    obtain ⟨hash', level', hl'⟩ := hleads.linked ⟨hash, hk⟩
    rw [hl] at hl'
    obtain ⟨rfl, rfl, -, -⟩ := DirContextParentLink.dirHandle.inj hl'
    refine ⟨?_, t'.actor, hself, by rw [h.handles, if_pos rfl]⟩
    rcases hS with hS | ⟨name, -, hz⟩
    · rw [hk] at hS
      exact .inr hS
    · exact .inl (Loc.blob.inj (hk.symm.trans hz))

/-- The new child has the seal that the reference gives. -/
theorem Leads.childGood {a : DirActor} {dirRef : DirRef} {s' : Seal} {l : List DirActor}
    {c : ActorId} (h : Leads t path dirRef ctx) (hat : a.state.refAt path = some dirRef)
    (hctx : ctx.Sealed s') (ho : Opens a.context.sealOf dirRef s')
    (hc : l[c]? = some (.new ctx initial)) : ChildGood l t.self a path c := by
  refine ⟨_, hc, ?_, fun r hr => ?_⟩
  · cases hl : dirRef.loc path with
    | blob k => exact .inl (h.linked ⟨k, hl⟩)
    | pointer k => exact .inr (h.published ⟨k, hl⟩)
  · obtain rfl := Option.some.inj (hat.symm.trans hr)
    have hseal : (DirActor.new ctx initial).context.sealOf = s' := hctx.sealOf_eq
    refine ⟨by rw [hseal]; exact ho, fun hl => ?_⟩
    cases hloc : dirRef.loc path with
    | blob k => exact ⟨k, rfl⟩
    | pointer k =>
      obtain ⟨k₁, sk, hk₁⟩ := h.published ⟨k, hloc⟩
      obtain ⟨hash, level, hd⟩ := hl
      have hcontra := hk₁.symm.trans hd
      cases hcontra

/-- The actor itself, with one more handle. -/
theorem Spawns.actorGood (h : Spawns t t' path ctx initial) {l : List DirActor}
    (hg : ActorGood S root l t.self t.actor) (hchild : ChildGood l t.self t.actor path t.fresh)
    (hphase : t.actor.phase.isStarting = false)
    (hlevel : ∀ index, path = .shard index → t.actor.state.header.shardLevel ≠ none) :
    ActorGood S root l t.self t'.actor := by
  have hkeep : ∀ p c, ChildGood l t.self t.actor p c → ChildGood l t.self t'.actor p c := by
    rintro p c ⟨b, hb, hl, hr⟩
    refine ⟨b, hb, hl, fun r hr' => ?_⟩
    rw [h.state] at hr'
    rw [h.context]
    exact hr r hr'
  refine ⟨h.context ▸ hg.sealed, h.context ▸ hg.linked, ?_, fun p c hpc => hkeep p c ?_, fun hst => ?_,
    fun d hd => ?_, fun hl index => ?_, h.mail ▸ hg.mail, ?_⟩
  · rw [h.context, h.state]
    exact hg.refs
  · rw [h.handles] at hpc
    split at hpc
    · rename_i hp
      obtain rfl := Option.some.inj hpc
      exact hp ▸ hchild
    · exact hg.children p c hpc
  · rw [h.phase, hphase] at hst
    cases hst
  · rw [h.phase] at hd
    rw [hd] at hphase
    cases hphase
  · rw [h.state] at hl
    rw [h.handles]
    split
    · rename_i hp
      exact absurd hl (hlevel index hp.symm)
    · exact hg.unsplit hl index
  · have := hg.phase
    unfold PhaseGood DirActor.Settled at this ⊢
    rw [h.phase, h.state]
    exact this

/-- **A child is spawned** for the reference at `path`. -/
theorem Good.spawnAt (h : Good env taken root s S t) (hsp : Spawns t t' path ctx initial)
    {dirRef : DirRef} {s' : Seal} (hat : t.actor.state.refAt path = some dirRef)
    (hno : t.actor.handleAt path = none) (hphase : t.actor.phase.isStarting = false)
    (hlevel : ∀ index, path = .shard index → t.actor.state.header.shardLevel ≠ none)
    (hctx : ctx.Sealed s') (ho : Opens t.actor.context.sealOf dirRef s')
    (hleads : Leads t path dirRef ctx) (hi : ∀ d, initial = some d → Refs S s' d) :
    Good env taken root s S t' := by
  have he : Extends (t.actorsOf s) (t'.actorsOf s) :=
    extends_of_grows h.inside hsp.self (hsp.spawned ▸ List.prefix_append _ _) (hsp.grows hno)
  have hself' : (t'.actorsOf s)[t.self]? = some t'.actor := by
    rw [← hsp.self]
    exact getElem?_self (hsp.self ▸ h.inside)
  have hnew := hsp.getElem?_fresh h.fresh
  have hself0 := h.actors t.self t.actor (getElem?_self h.inside)
  refine ⟨hsp.self ▸ h.inside, ?_, hsp.world ▸ h.world, hsp.world ▸ h.rootGood,
    fun i a hi' => ?_, fun o hm => ?_⟩
  · rw [hsp.fresh, hsp.spawned, h.fresh, List.length_append, List.length_singleton, Nat.add_assoc]
  · by_cases hc : i = t.self
    · subst hc
      obtain rfl := Option.some.inj (hself'.symm.trans hi')
      exact hsp.actorGood (hself0.mono (.refl S) he) (hleads.childGood hat hctx ho hnew) hphase hlevel
    · by_cases hf : i = t.fresh
      · subst hf
        obtain rfl := Option.some.inj (hnew.symm.trans hi')
        exact actorGood_new hctx
          (hsp.linkGood (hself0.refs path dirRef hat) ho hctx hleads hself') initial hi
      · exact (h.actors i a (hsp.getElem?_old h.fresh hi' hc hf)).mono (.refl S) he
  · rw [hsp.out] at hm
    exact (h.out o hm).mono (.refl S) he

end

theorem handleAt_insert_dir (a : DirActor) (name : String) (c : ActorId) (path : DirHandlePath) :
    ({ a with dirHandles := a.dirHandles.insert name c } : DirActor).handleAt path =
      if path = .path name then some c else a.handleAt path := by
  cases path with
  | shard index => simp [DirActor.handleAt]
  | path n =>
    simp only [DirActor.handleAt, ExtTreeMap.getElem?_insert, DirHandlePath.path.injEq]
    by_cases hn : n = name
    · simp [hn]
    · rw [if_neg (by simpa using Ne.symm hn), if_neg hn]

theorem handleAt_insert_shard (a : DirActor) (index : UInt8) (c : ActorId) (path : DirHandlePath) :
    ({ a with dirShardHandles := a.dirShardHandles.insert index c } : DirActor).handleAt path =
      if path = .shard index then some c else a.handleAt path := by
  cases path with
  | path n => simp [DirActor.handleAt]
  | shard i =>
    simp only [DirActor.handleAt, ExtTreeMap.getElem?_insert, DirHandlePath.shard.injEq]
    by_cases hi : i = index
    · simp [hi]
    · rw [if_neg (by simpa using Ne.symm hi), if_neg hi]

theorem leads_dirLink (t : Turn β) (name : String) (dirRef : DirRef) :
    Leads t (.path name) dirRef
      (t.actor.context.withNewRef dirRef (dirLink t.actor.context t.self name dirRef)) := by
  refine ⟨?_, ?_, ?_⟩
  · unfold DirContext.loc DirContext.withNewRef dirLink DirRef.loc
    cases dirRef.refTypeD <;> rfl
  · rintro ⟨h, hl⟩
    unfold DirRef.loc at hl
    cases ht : dirRef.refTypeD with
    | blake3Hash => exact ⟨dirRef.hash, 0, by simp [DirContext.withNewRef, dirLink, ht]⟩
    | registryKey =>
      rw [ht] at hl
      exact nomatch hl
  · rintro ⟨k, hl⟩
    unfold DirRef.loc at hl
    cases ht : dirRef.refTypeD with
    | registryKey =>
      exact ⟨dirRef.hash, t.actor.context.signingKey, by simp [DirContext.withNewRef, dirLink, ht]⟩
    | blake3Hash =>
      rw [ht] at hl
      exact nomatch hl

theorem Good.openDir (h : Good env taken root s S t) (hph : t.actor.phase.isStarting = false)
    (name : String) (initial : Option DirV1)
    (hi : ∀ d dirRef s', initial = some d → t.actor.state.dirs[name]? = some dirRef →
      Opens t.actor.context.sealOf dirRef s' → Refs S s' d) :
    Good env taken root s S (t.openDir name initial).1 := by
  unfold Turn.openDir
  cases hh : t.actor.dirHandles[name]? with
  | some child => exact h
  | none =>
    cases hd : t.actor.state.dirs[name]? with
    | none => exact h
    | some dirRef =>
      have hself := h.actors t.self t.actor (getElem?_self h.inside)
      obtain ⟨s', ho, -⟩ := hself.refs (.path name) dirRef hd
      have hctx := hself.sealed.withNewRef ho (dirLink t.actor.context t.self name dirRef)
      have hinit : ∀ d, initial = some d → Refs S s' d := fun d he => hi d dirRef s' he hd ho
      have hspawn : ∀ registryDirHandles : ExtTreeMap Bytes32 ActorId,
          Good env taken root s S { t.spawn (t.actor.context.withNewRef dirRef
              (dirLink t.actor.context t.self name dirRef)) initial with
            actor.dirHandles := t.actor.dirHandles.insert name t.fresh
            registryDirHandles := registryDirHandles } := fun _ =>
        h.spawnAt ⟨rfl, rfl, rfl, rfl, rfl, rfl, rfl, rfl, rfl,
          handleAt_insert_dir t.actor name t.fresh⟩ hd hh hph (fun _ hp => by cases hp) hctx ho
          (leads_dirLink t name dirRef) hinit
      dsimp only
      cases dirRef.refTypeD with
      | blake3Hash => exact hspawn t.registryDirHandles
      | registryKey =>
        cases t.registryDirHandles[dirRef.hash]? with
        | some child => exact h
        | none => exact hspawn _

theorem shardLink_ok {state : DirV1} {self : ActorId} {index : UInt8} {dirRef : DirRef}
    {link : DirContextParentLink ActorId} (h : shardLink state self index = .ok (dirRef, link)) :
    state.refAt (.shard index) = some dirRef ∧
      (∃ level, link = .dirHandle (.shard index) self dirRef.hash level) ∧
      state.header.shardLevel ≠ none := by
  unfold shardLink at h
  unfold DirV1.refAt
  cases hr : state.header.shards.bind (·[index]?) with
  | none => simp [hr] at h
  | some r =>
    rw [hr] at h
    dsimp only at h
    cases ht : r.refTypeD with
    | registryKey => simp [ht] at h
    | blake3Hash =>
      rw [ht] at h
      cases hlevel : state.header.shardLevel with
      | none => simp [hlevel] at h
      | some level =>
        rw [hlevel] at h
        dsimp only at h
        repeat' split at h
        all_goals cases h
        exact ⟨hr, ⟨_, rfl⟩, nofun⟩

theorem Good.openDirShard (h : Good env taken root s S t) (hph : t.actor.phase.isStarting = false)
    (index : UInt8) : Good env taken root s S (t.openDirShard index).1 := by
  unfold Turn.openDirShard
  cases hh : t.actor.dirShardHandles[index]? with
  | some child => exact h
  | none =>
    dsimp only
    cases hl : shardLink t.actor.state t.self index with
    | error e => exact h
    | ok p =>
      obtain ⟨dirRef, link⟩ := p
      obtain ⟨hat, ⟨level, rfl⟩, hlevel⟩ := shardLink_ok hl
      have hself := h.actors t.self t.actor (getElem?_self h.inside)
      obtain ⟨s', ho, -⟩ := hself.refs (.shard index) dirRef hat
      have hleads : Leads t (.shard index) dirRef (t.actor.context.withNewRef dirRef
          (.dirHandle (.shard index) t.self dirRef.hash level)) := by
        refine ⟨rfl, fun _ => ⟨_, _, rfl⟩, ?_⟩
        rintro ⟨k, hk⟩
        cases hk
      exact h.spawnAt ⟨rfl, rfl, rfl, rfl, rfl, rfl, rfl, rfl, rfl,
        handleAt_insert_shard t.actor index t.fresh⟩ hat hh hph (fun _ _ => hlevel)
        (hself.sealed.withNewRef ho _) ho hleads fun d hd => by cases hd

/-- A handle has been opened, or not. -/
structure Unmoved (t t' : Turn β) : Prop where
  world : t'.world = t.world
  self : t'.self = t.self
  context : t'.actor.context = t.actor.context
  state : t'.actor.state = t.actor.state
  phase : t'.actor.phase = t.actor.phase
  handles : ∀ path c, t.actor.handleAt path = some c → t'.actor.handleAt path = some c
  spawned : t.spawned <+: t'.spawned

theorem Unmoved.refl (t : Turn β) : Unmoved t t :=
  ⟨rfl, rfl, rfl, rfl, rfl, fun _ _ => id, List.prefix_rfl⟩

theorem Unmoved.forward (h : Unmoved t t') : Forward t t' where
  self := h.self
  started hs := by
    rw [h.phase]
    exact hs
  context _ := h.context
  grows := ⟨by rw [h.context], fun _ _ hl => h.context ▸ hl, fun hp => h.context ▸ hp, h.handles⟩
  spawned := h.spawned

theorem unmoved_openDir (t : Turn β) (name : String) (initial : Option DirV1) :
    Unmoved t (t.openDir name initial).1 := by
  unfold openDir
  cases hh : t.actor.dirHandles[name]? with
  | some child => exact .refl t
  | none =>
    have hkeep : ∀ path c, t.actor.handleAt path = some c → ({ t.actor with
        dirHandles := t.actor.dirHandles.insert name t.fresh } : DirActor).handleAt path = some c := by
      intro path c hc
      rw [handleAt_insert_dir, if_neg]
      · exact hc
      · rintro rfl
        exact absurd (hc.symm.trans hh) nofun
    dsimp only
    repeat' split
    all_goals first
      | exact .refl t
      | exact ⟨rfl, rfl, rfl, rfl, rfl, hkeep, List.prefix_append _ _⟩

theorem unmoved_openDirShard (t : Turn β) (index : UInt8) :
    Unmoved t (t.openDirShard index).1 := by
  unfold openDirShard
  cases hh : t.actor.dirShardHandles[index]? with
  | some child => exact .refl t
  | none =>
    have hkeep : ∀ path c, t.actor.handleAt path = some c → ({ t.actor with
        dirShardHandles := t.actor.dirShardHandles.insert index t.fresh } : DirActor).handleAt path =
          some c := by
      intro path c hc
      rw [handleAt_insert_shard, if_neg]
      · exact hc
      · rintro rfl
        exact absurd (hc.symm.trans hh) nofun
    dsimp only
    split
    · exact .refl t
    · exact ⟨rfl, rfl, rfl, rfl, rfl, hkeep, List.prefix_append _ _⟩

theorem Unmoved.goes (h : Unmoved t t')
    (hg : ∀ S, Good env taken root s S t → Good env taken root s S t') :
    Goes env taken root s t t' where
  sane := by
    rw [h.world]
    exact id
  forward := h.forward
  good S hS _ := ⟨S, .refl S, hg S hS⟩

theorem goes_openDir (hph : t.actor.phase.isStarting = false) (name : String) :
    Goes env taken root s t (t.openDir name none).1 := by
  refine (unmoved_openDir t name none).goes fun S hS => ?_
  exact hS.openDir hph name none fun d _ _ hn => nomatch hn

theorem goes_openDirShard (hph : t.actor.phase.isStarting = false) (index : UInt8) :
    Goes env taken root s t (t.openDirShard index).1 :=
  (unmoved_openDirShard t index).goes fun _ hS => hS.openDirShard hph index

theorem goes_routeToChild (hph : t.actor.phase.isStarting = false) (path : String) :
    Goes env taken root s t (t.routeToChild env path).1 := by
  unfold routeToChild
  split
  · exact .refl t
  · exact .refl t
  · rename_i index _
    have h : Goes env taken root s t (t.openDirShard index).1 := goes_openDirShard hph index
    generalize t.openDirShard index = r at h ⊢
    rcases r with ⟨t', e | child⟩ <;> exact h
  · rename_i name rest _
    have h : Goes env taken root s t (t.openDir name none).1 := goes_openDir hph name
    generalize t.openDir name none = r at h ⊢
    rcases r with ⟨t', e | child⟩ <;> exact h

/-! ## New directories -/

/-- The directory and the world change, the handles stay. -/
theorem Good.setState {w : World β} {state : DirV1} (h : Good env taken root s S t) (hle : S.Le S')
    (hw : S'.Good env taken w) (hr : RootGood env S' w root)
    (hrefs : ∀ path dirRef, state.refAt path = some dirRef →
      RefGood S' t.actor.context.sealOf path dirRef)
    (hchild : ∀ path c dirRef, t.actor.handleAt path = some c → state.refAt path = some dirRef →
      ∃ d, t.actor.state.refAt path = some d ∧ DirRef.Alike d dirRef)
    (hlevel : state.header.shardLevel = none → t.actor.state.header.shardLevel = none)
    (hphase : t.actor.phase.isQuiet = true) :
    Good env taken root s S' { t with world := w, actor.state := state } := by
  refine h.update hle rfl rfl rfl (DirActor.grows_of_eq rfl rfl rfl) hw hr ?_ fun _ _ => .inl
  intro ha he
  exact (ha.mono hle he).setState hrefs hchild hlevel (.inl hphase)

/-- The directory that the entries below `name/` are taken from, with a reference to a new one. -/
theorem Good.newDir {w : World β} {name : String} {dirRef : DirRef}
    (h : Good env taken root s S t) (hle : S.Le S') (hw : S'.Good env taken w)
    (hon : t.world.Onward w) (hno : t.actor.dirHandles[name]? = none)
    (href : RefGood S' t.actor.context.sealOf (.path name) dirRef)
    (hphase : t.actor.phase.isQuiet = true) :
    Good env taken root s S' { t with
      world := w
      actor.state := { (extractChildDirState t.actor.state name).1 with
        dirs := (extractChildDirState t.actor.state name).1.dirs.insert name dirRef } } := by
  have hself := h.actors t.self t.actor (getElem?_self h.inside)
  refine h.setState hle hw ((h.rootGood.onward hon).mono hle) ?_ ?_ id hphase
  · intro path d hat
    rw [refAt_insert] at hat
    split at hat
    · rename_i hp
      obtain rfl := Option.some.inj hat
      exact hp ▸ href
    · rw [refAt_extract] at hat
      exact (hself.refs path d hat).mono hle
  · intro path c d hc hat
    rw [refAt_insert, refAt_extract] at hat
    split at hat
    · rename_i hp
      subst hp
      exact absurd (hc.symm.trans hno) nofun
    · exact ⟨d, hat, .refl d⟩

theorem isQuiet_started {phase : Phase} (h : phase.isQuiet = true) : phase.isStarting = false := by
  cases phase <;> simp [Phase.isQuiet, Phase.isStarting] at h ⊢

theorem goes_createDirAt (hph : t.actor.phase.isQuiet = true) {path : String}
    (hn : t.actor.NoStale path) (enable : Bool) :
    Goes env taken root s t (t.createDirAt env path enable).1 := by
  unfold createDirAt
  split
  · exact .refl t
  · rename_i hmem
    have hno : t.actor.dirHandles[path]? = none := hn (by simpa using hmem)
    dsimp only
    generalize hb : buildChildDirRef env t.actor.context enable t.world = r
    obtain ⟨w, dirRef⟩ := r
    have hon : t.world.Onward w := by
      have := onward_buildChildDirRef env t.actor.context enable t.world
      rwa [hb] at this
    dsimp only
    set t1 : Turn β := { t with
      world := w
      actor.state := { (extractChildDirState t.actor.state path).1 with
        dirs := (extractChildDirState t.actor.state path).1.dirs.insert path dirRef } } with ht1
    have h01 : Forward t t1 :=
      .of_eq rfl rfl rfl rfl rfl (.inl rfl)
    have hun := unmoved_openDir t1 path (some (extractChildDirState t.actor.state path).2)
    have hgoes : Goes env taken root s t
        (t1.openDir path (some (extractChildDirState t.actor.state path).2)).1 := by
      refine ⟨fun hw => ?_, h01.trans hun.forward, fun S hS hw => ?_⟩
      · rw [hun.world] at hw
        exact hon.sane hw
      · rw [hun.world] at hw
        obtain ⟨S', s', hle, hg, ho, href, -⟩ :=
          good_buildChildDirRef t.actor.context.sealOf path hS.world hb hw
        have h1 : Good env taken root s S' t1 := hS.newDir hle hg hon hno
          ⟨s', ho, href.imp_right fun hz => ⟨path, rfl, hz⟩⟩ hph
        refine ⟨S', hle, h1.openDir (isQuiet_started hph) path _ fun d _ s'' hd _ _ => ?_⟩
        obtain rfl := Option.some.inj hd
        exact refsAny_extract s'' t.actor.state path s'' rfl
    generalize t1.openDir path (some (extractChildDirState t.actor.state path).2) = r at hgoes ⊢
    rcases r with ⟨t2, e | c⟩
    · exact hgoes
    · exact hgoes.trans (goes_markAsDirty t2)

theorem isSome_sealOf {ctx : DirContext ActorId} (h : ctx.Sealed ctx.sealOf) :
    ctx.sealOf.isSome = ctx.encryptionType.isSome := by
  cases hs : ctx.sealOf with
  | none =>
    rw [hs] at h
    have ht : ctx.encryptionType = none := h
    rw [ht]
    rfl
  | some key =>
    rw [hs] at h
    rw [h.1]
    rfl

variable [DecidableEq β]

theorem goes_promotePrefix (law : env.Lawful) (hph : t.actor.phase.isQuiet = true) {dir : String}
    (hn : t.actor.NoStale dir) : Goes env taken root s t (t.promotePrefix env dir).1 := by
  unfold promotePrefix
  split
  · exact .refl t
  · rename_i hmem
    have hno : t.actor.dirHandles[dir]? = none := hn (by simpa using hmem)
    dsimp only
    generalize hb : buildChildDirRef env t.actor.context t.actor.context.encryptionType.isSome
      t.world = r
    obtain ⟨w, dirRef⟩ := r
    have hon : t.world.Onward w := by
      have := onward_buildChildDirRef env t.actor.context
        t.actor.context.encryptionType.isSome t.world
      rwa [hb] at this
    dsimp only
    have hon2 : w.Onward (optimizeDirStructure env t.actor.context
        (extractChildDirState t.actor.state dir).2 w).1 := onward_optimizeDirStructure _ _ _ _
    -- what the optimisation writes, under the typing that lists the new reference
    have hgood : ∀ S, Good env taken root s S t → (optimizeDirStructure env t.actor.context
          (extractChildDirState t.actor.state dir).2 w).1.Sane env taken →
        ∃ S' s', S.Le S' ∧ S'.Good env taken (optimizeDirStructure env t.actor.context
            (extractChildDirState t.actor.state dir).2 w).1 ∧
          Opens t.actor.context.sealOf dirRef s' ∧
          RefGood S' t.actor.context.sealOf (.path dir) dirRef ∧
          ∀ d, (optimizeDirStructure env t.actor.context
            (extractChildDirState t.actor.state dir).2 w).2 = .ok d → Refs S' s' d := by
      intro S hS hw
      have hself := hS.actors t.self t.actor (getElem?_self hS.inside)
      obtain ⟨S1, s', hle, hg, ho, href, hsome⟩ :=
        good_buildChildDirRef t.actor.context.sealOf dir hS.world hb (hon2.sane hw)
      obtain ⟨S2, hle2, hg2, hrefs⟩ := promotes_optimizeFrom law _ hself.sealed _ hg
        (refsAny_extract _ t.actor.state dir) hw
      rw [isSome_sealOf hself.sealed, Bool.or_self, ← isSome_sealOf hself.sealed] at hsome
      refine ⟨S2, s', hle.trans hle2, hg2, ho, ?_, fun d hd => hrefs d hd s' hsome⟩
      exact RefGood.mono ⟨s', ho, href.imp_right fun hz => ⟨dir, rfl, hz⟩⟩ hle2
    generalize optimizeDirStructure env t.actor.context (extractChildDirState t.actor.state dir).2 w
      = r at hgood hon2 ⊢
    rcases r with ⟨w2, e | optimized⟩
    · refine ⟨fun hw => hon.sane (hon2.sane hw), .of_eq rfl rfl rfl rfl rfl (.inl rfl), fun S hS hw => ?_⟩
      obtain ⟨S', s', hle, hg, -, href, -⟩ := hgood S hS hw
      exact ⟨S', hle, hS.newDir hle hg (hon.trans hon2) hno href hph⟩
    · dsimp only at hgood hon2 ⊢
      set t1 : Turn β := { t with
        world := w2
        actor.state := { (extractChildDirState t.actor.state dir).1 with
          dirs := (extractChildDirState t.actor.state dir).1.dirs.insert dir dirRef } } with ht1
      have h01 : Forward t t1 :=
        .of_eq rfl rfl rfl rfl rfl (.inl rfl)
      have hun := unmoved_openDir t1 dir (some optimized)
      have hgoes : Goes env taken root s t (t1.openDir dir (some optimized)).1 := by
        refine ⟨fun hw => ?_, h01.trans hun.forward, fun S hS hw => ?_⟩
        · rw [hun.world] at hw
          exact hon.sane (hon2.sane hw)
        · rw [hun.world] at hw
          obtain ⟨S', s', hle, hg, ho, href, hrefs⟩ := hgood S hS hw
          have h1 : Good env taken root s S' t1 :=
            hS.newDir hle hg (hon.trans hon2) hno href hph
          refine ⟨S', hle, h1.openDir (isQuiet_started hph) dir _ fun d r s'' hd hr ho' => ?_⟩
          obtain rfl := Option.some.inj hd
          have hnew : r = dirRef := by
            have : t1.actor.state.dirs[dir]? = some dirRef := by simp [ht1]
            exact Option.some.inj (hr.symm.trans this)
          obtain rfl := hnew
          obtain rfl := ho.unique ho'
          exact hrefs _ rfl
      generalize t1.openDir dir (some optimized) = r at hgoes ⊢
      rcases r with ⟨t2, e | c⟩ <;> exact hgoes

theorem goes_checkAutoPromote (law : env.Lawful) (hph : t.actor.phase.isQuiet = true)
    {path : String} (hn : ∀ dir rest, splitOnce path = some (dir, rest) →
      promotionThreshold < countBelow t.actor.state dir → t.actor.NoStale dir) :
    Goes env taken root s t (t.checkAutoPromote env path).1 := by
  unfold checkAutoPromote
  split
  · exact .refl t
  · rename_i dir rest hsplit
    split
    · rename_i hmany
      exact goes_promotePrefix law hph (hn dir rest hsplit hmany)
    · exact .refl t

end Turn

end Fs
