import S5.Fs.Proof.KeysSave

/-!
# Seals along an actor's run loop

Whatever an actor does in its turn, all actors stay good (`Turn.goes_run`, `Turn.goes_close`), as long
as it is ready when it saves and creates no directory under the name of one that has gone to a shard
(`DirActor.Orderly`).
-/

open Std

namespace Fs

namespace Turn

variable {β : Type} {env : Env β} {taken : Bytes32 → Prop}
  {root : DirContext ActorId} {s : System β} {S S' : Sealing} {t t' : Turn β}

/-! ## Hashes of children -/

theorem updateHash_some {a a' : DirActor} {path : DirHandlePath} {k : Hash}
    (h : updateHash a path k = some a') :
    ∃ dirRef state, a.state.refAt path = some dirRef ∧ a' = { a with state := state } ∧
      (∀ p, state.refAt p = if p = path then some { dirRef with hash := k } else a.state.refAt p) ∧
      state.header.shardLevel = a.state.header.shardLevel := by
  cases path with
  | path name =>
    simp only [updateHash] at h
    cases hd : a.state.dirs[name]? with
    | none => simp [hd] at h
    | some dirRef =>
      rw [hd] at h
      dsimp only at h
      split at h
      · exact nomatch h
      · obtain rfl := Option.some.inj h
        exact ⟨dirRef, _, hd, rfl, refAt_insert a.state name _, rfl⟩
  | shard index =>
    simp only [updateHash] at h
    cases hsh : a.state.header.shards with
    | none => simp [hsh] at h
    | some shards =>
      rw [hsh] at h
      dsimp only at h
      cases hd : shards[index]? with
      | none => simp [hd] at h
      | some dirRef =>
        rw [hd] at h
        dsimp only at h
        split at h
        · exact nomatch h
        · obtain rfl := Option.some.inj h
          refine ⟨dirRef, _, by simp [DirV1.refAt, hsh, hd], rfl, fun p => ?_, rfl⟩
          have := refAt_insertShard a.state index { dirRef with hash := k } p
          rwa [hsh] at this

/-- The hash under which a child has been saved goes into the reference to it. -/
theorem Good.updateHash (h : Good env taken root s S t) (hw : t.world.Sane env taken)
    {path : DirHandlePath} {k : Hash} (ht : Tells S (t.actorsOf s) t.self path k) {a' : DirActor}
    (hu : Turn.updateHash t.actor path k = some a') :
    Good env taken root s S { t with actor := a' } := by
  obtain ⟨dirRef, state, hat, rfl, hstate, hlevel⟩ := updateHash_some hu
  have hself := h.actors t.self t.actor (getElem?_self h.inside)
  obtain ⟨a, c, b, ha, hc, hb, hlinked, hS⟩ := ht
  obtain rfl := Option.some.inj ((getElem?_self h.inside).symm.trans ha)
  -- the child's seal is the one that the reference gives
  obtain ⟨b', hb', -, href⟩ := hself.children path c hc
  obtain rfl := Option.some.inj (hb.symm.trans hb')
  obtain ⟨hopens, hblob⟩ := href dirRef hat
  have halike : DirRef.Alike dirRef { dirRef with hash := k } := ⟨rfl, rfl, rfl⟩
  have hloc : ({ dirRef with hash := k } : DirRef).loc path = .blob k :=
    halike.blob (hblob hlinked)
  have hk : k ≠ 0 := by
    rintro rfl
    exact h.world.not_zero hw hS
  refine h.update (.refl S) rfl rfl rfl (DirActor.grows_of_eq rfl rfl rfl) h.world h.rootGood ?_
    fun _ _ => .inl
  intro hg he
  refine (hg.mono (.refl S) he).setState ?_ ?_ (fun hn => hlevel ▸ hn) (.inr fun hsettled => ?_)
  · intro p d hd
    rw [hstate] at hd
    split at hd
    · rename_i hp
      subst hp
      obtain rfl := Option.some.inj hd
      exact ⟨_, hopens.of_keys rfl rfl, .inl (hloc ▸ hS)⟩
    · exact hself.refs p d hd
  · intro p c' d _ hd
    rw [hstate] at hd
    split at hd
    · rename_i hp
      subst hp
      obtain rfl := Option.some.inj hd
      exact ⟨dirRef, hat, halike⟩
    · exact ⟨d, hd, .refl d⟩
  · intro name d hd
    have hd' : state.refAt (.path name) = some d := hd
    rw [hstate] at hd'
    split at hd'
    · rename_i hp
      subst hp
      obtain rfl := Option.some.inj hd'
      rw [hloc]
      intro hz
      exact hk (Loc.blob.inj hz)
    · exact hsettled name d hd'

theorem forward_updateHash {a' : DirActor} {path : DirHandlePath} {k : Hash}
    (hu : Turn.updateHash t.actor path k = some a') :
    Forward t { t with actor := a' } ∧ a'.phase = t.actor.phase := by
  obtain ⟨dirRef, state, -, rfl, -, -⟩ := updateHash_some hu
  exact ⟨.of_eq rfl rfl rfl rfl rfl (.inl rfl), rfl⟩

theorem forward_takeReply (t : Turn β)
    (reply : DirHandlePath × Option (Except String (Option Hash))) :
    Forward t { t with actor := takeReply t.actor reply } ∧
      (takeReply t.actor reply).phase = t.actor.phase := by
  unfold takeReply
  split
  · split
    · rename_i a' hu
      obtain ⟨hf, hp⟩ := forward_updateHash hu
      refine ⟨⟨rfl, fun hs => hf.started hs, fun hr => hf.context hr, ?_, List.prefix_rfl⟩, hp⟩
      exact hf.grows.trans (DirActor.grows_of_eq rfl rfl rfl)
    · exact ⟨.refl t, rfl⟩
  · exact ⟨.refl t, rfl⟩

theorem Good.takeReply (h : Good env taken root s S t) (hw : t.world.Sane env taken)
    {reply : DirHandlePath × Option (Except String (Option Hash))}
    (ht : ∀ k, reply.2 = some (.ok (some k)) → Tells S (t.actorsOf s) t.self reply.1 k) :
    Good env taken root s S { t with actor := Turn.takeReply t.actor reply } := by
  unfold Turn.takeReply
  split
  · rename_i path k
    split
    · rename_i a' hu
      have h1 := h.updateHash hw (ht k rfl) hu
      exact h1.same (.refl _) rfl rfl rfl
        (.of_eq rfl rfl rfl rfl rfl (.inl rfl)) fun _ => .inl
    · exact h
  · exact h

/-- All answers of the children are taken. -/
theorem Good.takeReplies (hw : t.world.Sane env taken) :
    ∀ (replies : List (DirHandlePath × Option (Except String (Option Hash)))) (a : DirActor),
      Good env taken root s S { t with actor := a } →
      (∀ path k, (path, some (.ok (some k))) ∈ replies →
        Tells S (actorsOf s { t with actor := a }) t.self path k) →
      Good env taken root s S { t with actor := replies.foldl Turn.takeReply a }
  | [], _, h, _ => h
  | reply :: replies, a, h, ht => by
    have h1 : Good env taken root s S { t with actor := Turn.takeReply a reply } := by
      refine h.takeReply hw fun k hk => ?_
      obtain ⟨path, r⟩ := reply
      obtain rfl : r = some (.ok (some k)) := hk
      exact ht path k (.head _)
    have hf := (forward_takeReply ({ t with actor := a } : Turn β) reply).1
    have he := hf.extends h.inside
    refine Good.takeReplies hw replies _ h1 fun path k hm => ?_
    exact (ht path k (.tail _ hm)).mono (.refl S) he

theorem forward_takeReplies (t : Turn β) :
    ∀ (replies : List (DirHandlePath × Option (Except String (Option Hash)))) (a : DirActor),
      Forward { t with actor := a } { t with actor := replies.foldl takeReply a } ∧
        (replies.foldl takeReply a).phase = a.phase
  | [], a => ⟨.refl _, rfl⟩
  | reply :: replies, a => by
    obtain ⟨h1, hp1⟩ := forward_takeReply ({ t with actor := a } : Turn β) reply
    obtain ⟨h2, hp2⟩ := forward_takeReplies t replies (takeReply a reply)
    exact ⟨h1.trans h2, hp2.trans hp1⟩

/-! ## Saving a tree -/

/-- Who asked the actor to save has a handle of it, so what it answers is told of the right child. -/
theorem Good.tells (h : Good env taken root s S t) {j : ActorId} {path : DirHandlePath} {k : Hash}
    (hr : ResponderGood (t.actorsOf s) t.self (.parent j path))
    (hl : ∀ sk pk, t.actor.context.link ≠ .registryKey pk sk)
    (hS : S t.actor.context.sealOf (.blob k)) : Tells S (t.actorsOf s) j path k := by
  obtain ⟨b, hb, hi⟩ := hr
  obtain ⟨a, ha, hlinked | ⟨pk, sk, hp⟩, -⟩ := (h.actors j b hb).children path t.self hi
  · exact ⟨b, t.self, a, hb, hi, ha, hlinked, by
      obtain rfl := Option.some.inj ((getElem?_self h.inside).symm.trans ha)
      exact hS⟩
  · obtain rfl := Option.some.inj ((getElem?_self h.inside).symm.trans ha)
    exact absurd hp (hl sk pk)

theorem Good.emit (h : Good env taken root s S t) {o : Output}
    (ho : OutGood S (t.actorsOf s) o) : Good env taken root s S (t.emit o) := by
  refine h.update (.refl S) rfl rfl rfl (.refl _) h.world h.rootGood (fun hg _ => hg) ?_
  intro _ o' hm
  rcases List.mem_append.1 hm with hm | hm
  · exact .inl hm
  · rw [List.mem_singleton.1 hm]
    exact .inr ho

theorem mem_children {a : DirActor} {path : DirHandlePath} {c : ActorId}
    (h : (path, c) ∈ children a) : a.handleAt path = some c := by
  unfold children at h
  rcases List.mem_append.1 h with h | h
  · obtain ⟨⟨index, c'⟩, hm, he⟩ := List.mem_map.1 h
    obtain ⟨rfl, rfl⟩ := Prod.mk.inj he
    exact ExtTreeMap.mem_toList_iff_getElem?_eq_some.1 hm
  · obtain ⟨⟨name, c'⟩, hm, he⟩ := List.mem_map.1 h
    obtain ⟨rfl, rfl⟩ := Prod.mk.inj he
    exact ExtTreeMap.mem_toList_iff_getElem?_eq_some.1 hm

/-- The actor asks its children to save. -/
theorem Good.ask (h : Good env taken root s S t) {responder : Responder}
    (hr : ResponderGood (t.actorsOf s) t.self responder) (hs : t.actor.Settled) :
    Good env taken root s S { t with
      actor.phase := .saving ((children t.actor).map fun (path, _) => (path, none)) responder
      out := t.out ++ (children t.actor).map fun (path, child) =>
        .send child (.saveIfDirty (.parent t.self path)) } := by
  refine h.update (.refl S) rfl rfl rfl (DirActor.grows_of_eq rfl rfl rfl) h.world h.rootGood ?_ ?_
  · intro hg he
    have hg' := hg.mono (.refl S) he
    refine ⟨hg'.sealed, hg'.linked, hg'.refs, fun p c hc => ?_, nofun, nofun, hg'.unsplit, hg'.mail,
      ?_, hr.mono he, hs⟩
    · have hc' : t.actor.handleAt p = some c := by cases p <;> exact hc
      exact hg'.children p c hc'
    · intro path k hm
      obtain ⟨⟨p, c⟩, -, he⟩ := List.mem_map.1 hm
      exact nomatch (Prod.mk.inj he).2
  · intro he o hm
    rcases List.mem_append.1 hm with hm | hm
    · exact .inl hm
    · right
      obtain ⟨⟨path, c⟩, hc, rfl⟩ := List.mem_map.1 hm
      obtain ⟨b, hb, hg⟩ := he t.self t.actor (getElem?_self h.inside)
      exact ⟨b, hb, hg.handles path c (mem_children hc)⟩

variable [DecidableEq β]

theorem goes_saveIfDirty (law : env.Lawful) {t₀ : Turn β} (h0 : Goes env taken root s t₀ t)
    (hidle : t.actor.phase = .idle) {responder : Responder}
    (hready : (t.actor.dirty || t.isRoot) = true → t.actor.Ready env)
    (hr : ∀ S, Good env taken root s S t₀ → ResponderGood (t.actorsOf s) t.self responder) :
    Goes env taken root s t₀ (t.saveIfDirty env responder) := by
  have hquiet : t.actor.phase.isQuiet = true := by rw [hidle]; rfl
  have hsaid : ∀ (t : Turn β) e, Goes env taken root s t (t.emit (.saved responder (.error e))) :=
    fun t e => goes_emit t fun S l => by cases responder <;> trivial
  unfold saveIfDirty
  split
  · rename_i hd
    obtain ⟨h1, -, hsettled⟩ := goes_shardIfNeeded taken root s law hquiet (hready hd)
    generalize t.shardIfNeeded env = r at h1 hsettled ⊢
    rcases r with ⟨t1, e | u⟩
    · exact h0.trans (h1.trans (hsaid t1 e))
    · have h01 := h0.trans h1
      refine ⟨h01.sane, h01.forward.trans (.of_eq rfl rfl rfl rfl rfl (.inr rfl)), fun S hS hw => ?_⟩
      obtain ⟨S', hle, hg⟩ := h01.good S hS hw
      have hinside : t.self < s.actors.length := h0.forward.self ▸ hS.inside
      refine ⟨S', hle, hg.ask ?_ hsettled⟩
      have hself : t1.self = t.self := h1.forward.self
      rw [hself]
      exact (hr S hS).mono (h1.forward.extends hinside)
  · exact h0.trans (goes_emit t fun S l => by cases responder <;> trivial)

/-- When all children have answered, the actor takes over their hashes and saves itself. -/
theorem goes_finishSave (law : env.Lawful)
    {replies : List (DirHandlePath × Option (Except String (Option Hash)))} {responder : Responder}
    (hph : t.actor.phase = .saving replies responder) :
    Goes env taken root s t (t.finishSave env replies responder) := by
  obtain ⟨hf, hp⟩ := forward_takeReplies t replies t.actor
  unfold finishSave
  dsimp only
  set t1 : Turn β := { t with actor := { replies.foldl takeReply t.actor with phase := .idle } }
    with ht1
  have hf1 : Forward t t1 := hf.trans
    (.of_eq rfl rfl rfl rfl rfl (.inr rfl))
  have hgood1 : ∀ S, Good env taken root s S t → t.world.Sane env taken →
      Good env taken root s S t1 ∧ t1.actor.Settled ∧
        ResponderGood (t1.actorsOf s) t1.self responder := by
    intro S hS hw
    have hphase := (hS.actors t.self t.actor (getElem?_self hS.inside)).phase
    unfold PhaseGood at hphase
    rw [hph] at hphase
    have h2 := Good.takeReplies (t := t) hw replies t.actor hS hphase.1
    have hset := (h2.actors t.self _ (getElem?_self h2.inside)).phase
    unfold PhaseGood at hset
    rw [hp, hph] at hset
    refine ⟨h2.same (.refl _) rfl rfl rfl (.of_eq rfl rfl rfl rfl rfl (.inr rfl)) fun _ => .inl, hset.2.2, ?_⟩
    exact hphase.2.1.mono (hf1.extends hS.inside)
  split
  · obtain ⟨hfs, -⟩ := save_forward env t1 false
    have hsane : (t1.save env false).1.world.Sane env taken → t.world.Sane env taken := by
      intro hw
      rw [save_world] at hw
      exact persist_sane _ _ _ hw
    have hsave : ∀ S, Good env taken root s S t → (t1.save env false).1.world.Sane env taken →
        ∃ S', S.Le S' ∧ Good env taken root s S' (t1.save env false).1 ∧
          (∀ k, (t1.save env false).2 = .ok (some k) →
            (∀ sk pk, (t1.save env false).1.actor.context.link ≠ .registryKey pk sk) ∧
            S' (t1.save env false).1.actor.context.sealOf (.blob k)) ∧
          ResponderGood ((t1.save env false).1.actorsOf s) (t1.save env false).1.self responder := by
      intro S hS hw
      obtain ⟨h1, hset, hresp⟩ := hgood1 S hS (hsane hw)
      have hrefs := (h1.actors t1.self t1.actor (getElem?_self h1.inside)).refs_settled hset
      obtain ⟨S', hle, hg, hk⟩ := h1.save law hrefs false hw
      refine ⟨S', hle, hg, hk, ?_⟩
      rw [hfs.self]
      exact hresp.mono (hfs.extends h1.inside)
    generalize t1.save env false = r at hfs hsane hsave ⊢
    rcases r with ⟨t2, e | hash⟩
    · refine Goes.trans ⟨hsane, hf1.trans hfs, fun S hS hw => ?_⟩ (goes_emit t2 fun S l => ?_)
      · obtain ⟨S', hle, hg, -⟩ := hsave S hS hw
        exact ⟨S', hle, hg⟩
      · cases responder <;> trivial
    · refine ⟨hsane, hf1.trans (hfs.trans (.of_eq rfl rfl rfl rfl rfl (.inl rfl))), fun S hS hw => ?_⟩
      obtain ⟨S', hle, hg, hk, hresp⟩ := hsave S hS hw
      have hg' : Good env taken root s S' { t2 with actor.dirty := false } :=
        hg.same (.refl _) rfl rfl rfl
          (.of_eq rfl rfl rfl rfl rfl (.inl rfl)) fun _ => .inl
      refine ⟨S', hle, hg'.emit ?_⟩
      cases responder with
      | client => trivial
      | parent j path =>
        cases hash with
        | none => trivial
        | some k =>
          obtain ⟨hl, hS'⟩ := hk k rfl
          have := hg.tells hresp hl hS'
          exact this.mono (.refl S') (extends_of_grows hg.inside rfl List.prefix_rfl
            (DirActor.grows_of_eq rfl rfl rfl))
  · have h1 : Goes env taken root s t t1 :=
      ⟨id, hf1, fun S hS hw => ⟨S, .refl S, (hgood1 S hS hw).1⟩⟩
    exact h1.trans (goes_emit t1 fun S l => by cases responder <;> trivial)

theorem goes_autosaveTick (law : env.Lawful) (hidle : t.actor.phase = .idle)
    (hready : t.actor.dirty = true → t.actor.Ready env) :
    Goes env taken root s t (t.autosaveTick env) := by
  have hquiet : t.actor.phase.isQuiet = true := by rw [hidle]; rfl
  unfold autosaveTick
  split
  · rename_i hd
    obtain ⟨h1, -, hsettled⟩ := goes_shardIfNeeded taken root s law hquiet (hready hd)
    generalize t.shardIfNeeded env = r at h1 hsettled ⊢
    rcases r with ⟨t1, e | u⟩
    · exact h1
    · have h2 := h1.trans (goes_save law hsettled true)
      dsimp only at h2 ⊢
      generalize t1.save env true = r2 at h2 ⊢
      rcases r2 with ⟨t2, e | hash⟩
      · exact h2
      · exact h2.trans (goes_same (.refl _) rfl rfl rfl
          (.of_eq rfl rfl rfl rfl rfl (.inl rfl)) fun _ => .inl)
  · exact .refl t

/-! ## Snapshots -/

theorem goes_exportSnapshotHash (t : Turn β) :
    Goes env taken root s t (t.exportSnapshotHash env).1 := by
  unfold exportSnapshotHash
  have h1 := onward_encodeStateBytes env t.actor.context t.actor.state t.world
  generalize encodeStateBytes env t.actor.context t.actor.state t.world = r1 at h1 ⊢
  rcases r1 with ⟨w1, e | b⟩
  · exact goes_world t h1
  · dsimp only
    have h2 := h1.trans (w1.onward_importBytes env b)
    generalize w1.importBytes env b = r2 at h2 ⊢
    rcases r2 with ⟨w2, e | k⟩ <;> exact goes_world t h2

theorem goes_createSnapshot (t : Turn β) (request : Nat) :
    Goes env taken root s t (t.createSnapshot env request) := by
  unfold createSnapshot
  split
  · have h1 : Goes env taken root s t (t.exportSnapshotHash env).1 := goes_exportSnapshotHash t
    generalize t.exportSnapshotHash env = r at h1 ⊢
    rcases r with ⟨t1, e | k⟩
    · exact h1.trans (goes_emit t1 fun _ _ => trivial)
    · dsimp only
      have h2 : Goes env taken root s t
          { t1 with world := t1.world.next, actor.currentHash := some k } :=
        h1.trans (goes_same t1.world.onward_next rfl rfl rfl
          (.of_eq rfl rfl rfl rfl rfl (.inl rfl)) fun _ => .inl)
      split
      · exact h2.trans (goes_enter _ rfl)
      · refine Goes.trans (h2.trans ?_) (goes_emit _ fun _ _ => trivial)
        exact goes_same (.refl _) rfl rfl rfl (.refl _) fun _ => .inl
  · exact goes_emit t fun _ _ => trivial

omit [DecidableEq β] in
theorem goes_deleteSnapshot (t : Turn β) (name : String) (request : Nat) :
    Goes env taken root s t (t.deleteSnapshot name request) := by
  unfold deleteSnapshot
  split
  · split
    · exact goes_emit t fun _ _ => trivial
    · refine Goes.trans ?_ (goes_emit _ fun _ _ => trivial)
      exact goes_same (.refl _) rfl rfl rfl (.refl _) fun _ => .inl
  · exact goes_emit t fun _ _ => trivial

/-! ## Messages -/

omit [DecidableEq β] in
/-- A path that is handled here is routed nowhere else. -/
theorem routeToChild_here {path : String} (h : t.routeToChild env path = (t', .ok none)) :
    t' = t ∧ route env t.actor.state path = .ok .here := by
  unfold routeToChild at h
  split at h
  · exact nomatch (Prod.mk.inj h).2
  · rename_i hr
    exact ⟨(Prod.mk.inj h).1.symm, hr⟩
  · split at h <;> exact nomatch (Prod.mk.inj h).2
  · split at h <;> exact nomatch (Prod.mk.inj h).2

omit [DecidableEq β] in
theorem goes_pathOp (hidle : t.actor.phase = .idle) (path : String) (op : ActorMessageOp)
    (hn : ∀ enable request, op = .createDir enable request →
      route env t.actor.state path = .ok .here → t.actor.NoStale path) :
    Goes env taken root s t (t.pathOp env path op) := by
  have hquiet : t.actor.phase.isQuiet = true := by rw [hidle]; rfl
  have h1 : Goes env taken root s t (t.routeToChild env path).1 :=
    goes_routeToChild (isQuiet_started hquiet) path
  unfold pathOp
  generalize hr : t.routeToChild env path = r at h1 ⊢
  rcases r with ⟨t1, e | _ | ⟨child, rest, entered⟩⟩
  · exact h1
  · obtain ⟨rfl, hhere⟩ := routeToChild_here hr
    cases op with
    | fileOp task request =>
      refine Goes.trans ?_ (goes_emit _ fun _ _ => trivial)
      exact goes_same t1.world.onward_next rfl rfl rfl ⟨rfl, fun p => by cases p <;> rfl, rfl,
        fun p => by cases p <;> rfl, fun _ => id, .inr rfl⟩ fun _ => .inl
    | createDir enable request =>
      have h2 : Goes env taken root s t1 (t1.createDirAt env path enable).1 :=
        goes_createDirAt hquiet (hn enable request rfl hhere) enable
      dsimp only
      generalize t1.createDirAt env path enable = r2 at h2 ⊢
      exact h2.trans (goes_emit _ fun _ _ => trivial)
  · exact h1.trans (goes_emit t1 fun _ _ => trivial)

omit [DecidableEq β] in
theorem goes_enterSubdir (t : Turn β) (base : List String) (child : ActorId) (rest : String)
    (waiting : List ActorId) (request : Nat) :
    Goes env taken root s t (t.enterSubdir base child rest waiting request) := by
  unfold enterSubdir
  split
  · exact goes_emit t fun _ _ => trivial
  · exact (goes_enter t rfl).trans (goes_emit _ fun _ _ => trivial)

omit [DecidableEq β] in
theorem goes_openSubdir (hidle : t.actor.phase = .idle) (base : List String) (path : String)
    (waiting : List ActorId) (request : Nat)
    (hn : route env t.actor.state path = .ok .here → t.actor.NoStale (splitPath path).1) :
    Goes env taken root s t (t.openSubdir env base path waiting request) := by
  have hquiet : t.actor.phase.isQuiet = true := by rw [hidle]; rfl
  have h1 : Goes env taken root s t (t.routeToChild env path).1 :=
    goes_routeToChild (isQuiet_started hquiet) path
  unfold openSubdir
  generalize hr : t.routeToChild env path = r at h1 ⊢
  rcases r with ⟨t1, e | _ | ⟨child, rest, entered⟩⟩
  · exact h1.trans (goes_emit t1 fun _ _ => trivial)
  · obtain ⟨rfl, hhere⟩ := routeToChild_here hr
    dsimp only
    have h2 : Goes env taken root s t1
        (if (splitPath path).1 ∈ t1.actor.state.dirs then (t1, Except.ok ())
          else t1.createDirAt env (splitPath path).1 t1.actor.context.encryptionType.isSome).1 := by
      split
      · exact .refl t1
      · exact goes_createDirAt hquiet (hn hhere) _
    generalize (if (splitPath path).1 ∈ t1.actor.state.dirs then (t1, Except.ok ())
      else t1.createDirAt env (splitPath path).1 t1.actor.context.encryptionType.isSome) = r2
      at h2 ⊢
    rcases r2 with ⟨t2, e | u⟩
    · exact h2.trans (goes_emit t2 fun _ _ => trivial)
    · dsimp only at h2 ⊢
      have h3 := h2.trans (goes_openDir (h2.forward.started (isQuiet_started hquiet))
        (splitPath path).1)
      generalize t2.openDir (splitPath path).1 none = r3 at h3 ⊢
      rcases r3 with ⟨t3, e | child⟩
      · exact h3.trans (goes_emit t3 fun _ _ => trivial)
      · exact h3.trans (goes_enterSubdir t3 _ _ _ _ _)
  · exact h1.trans (goes_enterSubdir t1 _ _ _ _ _)

theorem goes_finishFileOp (law : env.Lawful) {path : String} {stored : Bool}
    (hn : stored = true → ∀ p ∈ splitOnce path,
      promotionThreshold < countBelow t.actor.state p.1 → t.actor.NoStale p.1) :
    Goes env taken root s t (t.finishFileOp env path stored) := by
  have h1 : Goes env taken root s t (t.enter .idle) := goes_enter t rfl
  unfold finishFileOp
  dsimp only
  split
  · rename_i hstored
    have h2 := h1.trans (goes_checkAutoPromote law rfl
      fun dir rest hsplit => hn hstored (dir, rest) hsplit)
    generalize (t.enter .idle).checkAutoPromote env path = r at h2 ⊢
    rcases r with ⟨t2, e | u⟩
    · exact h2
    · exact h2.trans (goes_markAsDirty t2)
  · exact h1.trans (goes_markAsDirty _)

/-! ## The run loop -/

/-- What the actor does next keeps the keys in order: it is ready if it saves its directory, and it
creates no directory under the name of one that has gone to a shard and is still open. -/
def Orderly (env : Env β) (t : Turn β) : Prop :=
  match t.actor.phase, t.actor.mailbox with
  | .idle, .saveIfDirty _ :: _ => (t.actor.dirty || t.isRoot) = true → t.actor.Ready env
  | .idle, .autosaveTick :: _ => t.actor.dirty = true → t.actor.Ready env
  | .idle, .pathOp path (.createDir _ _) :: _ =>
    route env t.actor.state path = .ok .here → t.actor.NoStale path
  | .idle, .openSubdir _ path _ _ :: _ =>
    route env t.actor.state path = .ok .here → t.actor.NoStale (splitPath path).1
  | .executed path stored, _ => stored = true → ∀ p ∈ splitOnce path,
    promotionThreshold < countBelow t.actor.state p.1 → t.actor.NoStale p.1
  | _, _ => True

instance (env : Env β) (t : Turn β) : Decidable (t.Orderly env) := by
  unfold Orderly
  split <;> infer_instance

/-- The actor is about to merge, or does. -/
def Merging (t : Turn β) : Prop :=
  (∃ reply rest snapshot responder, t.actor.phase = .merging reply rest snapshot responder) ∨
    t.actor.phase = .idle ∧
      ∃ snapshot responder rest, t.actor.mailbox = .mergeSnapshot snapshot responder :: rest

omit [DecidableEq β] in
theorem same_mailbox (t : Turn β) {msg : ActorMessage} {rest : List ActorMessage}
    (hm : t.actor.mailbox = msg :: rest) : Same t.actor { t.actor with mailbox := rest } :=
  ⟨rfl, fun _ => rfl, rfl, fun p => by cases p <;> rfl,
    fun m h => by rw [hm]; exact .tail _ h, .inl rfl⟩

theorem goes_processMsg (law : env.Lawful) {msg : ActorMessage} {rest : List ActorMessage}
    (hidle : t.actor.phase = .idle) (hm : t.actor.mailbox = msg :: rest) (ho : t.Orderly env)
    (hmerge : ¬ t.Merging) :
    Goes env taken root s t (processMsg env { t with actor.mailbox := rest } msg) := by
  set t0 : Turn β := { t with actor.mailbox := rest } with ht0
  have h0 : Goes env taken root s t t0 :=
    goes_same (.refl _) rfl rfl rfl (same_mailbox t hm) fun _ => .inl
  have hmail : ∀ S, Good env taken root s S t → MsgGood S (t0.actorsOf s) t0.self msg := by
    intro S hS
    have hself := hS.actors t.self t.actor (getElem?_self hS.inside)
    refine (hself.mail msg ?_).mono (.refl S) (h0.forward.extends hS.inside)
    rw [hm]
    exact .head _
  unfold Orderly at ho
  rw [hidle, hm] at ho
  cases msg with
  | pathOp path op =>
    refine h0.trans (goes_pathOp (t := t0) hidle path op ?_)
    rintro enable request rfl
    exact ho
  | openSubdir base path waiting request =>
    exact h0.trans (goes_openSubdir (t := t0) hidle base path waiting request ho)
  | exportSnapshotHash request =>
    have h1 := h0.trans (goes_exportSnapshotHash t0)
    simp only [processMsg]
    generalize exportSnapshotHash env t0 = r at h1 ⊢
    exact h1.trans (goes_emit _ fun _ _ => trivial)
  | createSnapshot request => exact h0.trans (goes_createSnapshot t0 request)
  | deleteSnapshot name request => exact h0.trans (goes_deleteSnapshot t0 name request)
  | exportSnapshot request => exact h0.trans (goes_emit t0 fun _ _ => trivial)
  | mergeSnapshot snapshot responder => exact absurd (.inr ⟨hidle, snapshot, responder, rest, hm⟩) hmerge
  | autosaveTick =>
    have hready : t0.actor.dirty = true → t0.actor.Ready env := fun hd => ⟨(ho hd).1, (ho hd).2⟩
    exact h0.trans (goes_autosaveTick law hidle hready)
  | markAsDirty => exact h0.trans (goes_markAsDirty t0)
  | saveIfDirty responder =>
    have hready : (t0.actor.dirty || t0.isRoot) = true → t0.actor.Ready env :=
      fun hd => ⟨(ho hd).1, (ho hd).2⟩
    exact goes_saveIfDirty law h0 hidle hready hmail
  | updateDirRefHash path k =>
    simp only [processMsg]
    split
    · rename_i a' hu
      have h1 : Goes env taken root s t { t0 with actor := a' } := by
        refine ⟨id, h0.forward.trans (forward_updateHash hu).1, fun S hS hw => ?_⟩
        obtain ⟨S', hle, hg⟩ := h0.good S hS hw
        exact ⟨S', hle, hg.updateHash hw ((hmail S hS).mono hle (.refl _)) hu⟩
      exact h1.trans (goes_markAsDirty _)
    · exact h0

omit [DecidableEq β] in
/-- What an actor loads leads to what is listed. -/
theorem Good.refs_load (h : Good env taken root s S t) (hw : t.world.Sane env taken) {d : DirV1}
    {n : Nat} (hl : load env t.actor.context t.world = .ok (d, n)) :
    Refs S t.actor.context.sealOf d := by
  have hself := h.actors t.self t.actor (getElem?_self h.inside)
  have hlisted : ∀ l, t.actor.context.loc = some l → S t.actor.context.sealOf l →
      Refs S t.actor.context.sealOf d := by
    intro l hloc hS
    obtain ⟨d', n', hl', hr⟩ := load_of_sealed h.world hself.sealed hloc hS
    obtain ⟨rfl, -⟩ := Prod.mk.inj (Except.ok.inj (hl.symm.trans hl'))
    exact hr
  cases hlink : t.actor.context.link with
  | localFile =>
    obtain ⟨s', d', n', hs', hl', hr⟩ := load_root h.world h.rootGood
    rw [hself.linked.root_of_localFile hlink] at hl ⊢
    obtain ⟨rfl, -⟩ := Prod.mk.inj (Except.ok.inj (hl.symm.trans hl'))
    rw [hs'.sealOf_eq]
    exact hr
  | registryKey k sk =>
    exact hlisted (.pointer k) (by simp [DirContext.loc, hlink])
      (hself.linked.listed_of_registryKey hlink)
  | dirHandle path p hash level =>
    rcases (hself.linked.parent_of_dirHandle hlink).1 with rfl | hS
    · -- nothing is stored under the hash of a child that has never been saved
      simp only [load, hlink, World.readAsBytes, hw.zero] at hl
      cases hl
    · exact hlisted (.blob hash) (by simp [DirContext.loc, hlink]) hS

omit [DecidableEq β] in
/-- An actor starts on a directory whose references lead to what is listed. -/
theorem Good.begin (h : Good env taken root s S t) (hst : t.actor.phase.isStarting = true)
    {d : DirV1} (hr : Refs S t.actor.context.sealOf d) (len : Nat) (current : Option Hash) :
    Good env taken root s S { t with
      actor.state := d
      actor.lastSerializedLen := len
      actor.currentHash := current
      actor.phase := .idle } := by
  refine h.update (.refl S) rfl rfl rfl (DirActor.grows_of_eq rfl rfl rfl) h.world h.rootGood ?_
    fun _ _ => .inl
  intro hg he
  have hg' := hg.mono (.refl S) he
  have hnone : ∀ p, t.actor.handleAt p = none := hg.unopened hst
  refine ⟨hg'.sealed, hg'.linked, fun path dirRef hat => ?_, fun p c hc => ?_, nofun, nofun,
    fun _ index => hnone (.shard index), hg'.mail, trivial⟩
  · obtain ⟨s', ho, hS⟩ := hr path dirRef hat
    exact ⟨s', ho, .inl hS⟩
  · have hc' : t.actor.handleAt p = some c := by cases p <;> exact hc
    exact absurd (hc'.symm.trans (hnone p)) nofun

omit [DecidableEq β] in
/-- That a message is dropped tells nobody of a hash. -/
theorem outGood_dropped {msg : ActorMessage} {o : Output} (h : o ∈ dropped msg) (S : Sealing)
    (l : List DirActor) : OutGood S l o := by
  cases msg with
  | openSubdir | mergeSnapshot =>
    rw [List.mem_singleton.1 h]
    trivial
  | saveIfDirty responder =>
    rw [List.mem_singleton.1 h]
    cases responder <;> trivial
  | _ => exact absurd h List.not_mem_nil

theorem goes_start (law : env.Lawful) {initial : Option DirV1}
    (hph : t.actor.phase = .starting initial) :
    Goes env taken root s t (t.start env initial) := by
  have hst : t.actor.phase.isStarting = true := by rw [hph]; rfl
  have hforward : ∀ (d : DirV1) (len : Nat) (current : Option Hash), Forward t { t with
      actor.state := d
      actor.lastSerializedLen := len
      actor.currentHash := current
      actor.phase := .idle } := fun _ _ _ =>
    .of_eq rfl rfl rfl rfl rfl (.inr rfl)
  cases initial with
  | some d =>
    simp only [start]
    set t1 : Turn β := { t with actor.state := d, actor.phase := .idle } with ht1
    refine ⟨fun hw => ?_, (hforward d _ _).trans (save_forward env t1 true).1, fun S hS hw => ?_⟩
    · rw [save_world] at hw
      exact persist_sane _ _ _ hw
    · have hr := (hS.actors t.self t.actor (getElem?_self hS.inside)).initial d hph
      have h1 : Good env taken root s S t1 := hS.begin hst hr _ _
      obtain ⟨S', hle, hg, -⟩ := h1.save law hr true hw
      exact ⟨S', hle, hg⟩
  | none =>
    simp only [start]
    split
    · rename_i d len hload
      exact ⟨id, hforward d len _, fun S hS hw =>
        ⟨S, .refl S, hS.begin hst (hS.refs_load hw hload) len _⟩⟩
    · refine goes_same (.refl _) rfl rfl rfl
        ⟨rfl, fun _ => rfl, rfl, fun p => by cases p <;> rfl, nofun, .inr rfl⟩ fun o ho => ?_
      rcases List.mem_append.1 ho with ho | ho
      · exact .inl ho
      · obtain ⟨msg, -, hm⟩ := List.mem_flatMap.1 ho
        exact .inr (outGood_dropped hm)

/-- **A turn of an actor** that goes about things in order keeps all actors good. -/
theorem goes_run (law : env.Lawful) (ho : t.Orderly env) (hmerge : ¬ t.Merging) :
    Goes env taken root s t (t.run env) := by
  unfold run
  split
  · rename_i initial hph
    exact goes_start law hph
  · rename_i hph
    split
    · exact .refl t
    · rename_i msg rest hm
      exact goes_processMsg law hph hm ho hmerge
  · rename_i path stored hph
    refine goes_finishFileOp law ?_
    unfold Orderly at ho
    rw [hph] at ho
    exact ho
  · exact .refl t
  · rename_i replies responder hph
    split
    · exact goes_finishSave law hph
    · exact .refl t
  · rename_i reply rest snapshot responder hph
    exact absurd (.inl ⟨reply, rest, snapshot, responder, hph⟩) hmerge
  · exact .refl t
  · exact .refl t

/-- The same for the last turn of an actor. -/
theorem goes_close (law : env.Lawful) (hidle : t.actor.phase = .idle)
    (hready : t.actor.dirty = true → t.actor.Ready env) :
    Goes env taken root s t (t.close env) := by
  unfold close
  refine Goes.trans ?_ (goes_enter _ rfl)
  split
  · rename_i hd
    obtain ⟨h1, -, hsettled⟩ := goes_shardIfNeeded taken root s law
      (by rw [hidle]; rfl) (hready hd)
    exact h1.trans (goes_save law hsettled false)
  · exact .refl t

/-! ## Merges -/

omit [DecidableEq β] in
/-- A merge only spawns actors. -/
theorem world_mergeNext (level : UInt8) (snapshot : DirV1) (responder : Responder) :
    ∀ (is : List UInt8) (t : Turn β), (t.mergeNext env level snapshot responder is).world = t.world
  | [], _ => rfl
  | index :: rest, t => by
    unfold mergeNext
    dsimp only
    split
    · exact world_mergeNext level snapshot responder rest t
    · split
      · exact world_mergeNext level snapshot responder rest t
      · have h := (unmoved_openDirShard t index).world
        generalize t.openDirShard index = r at h ⊢
        rcases r with ⟨t1, e | c⟩ <;> exact h

theorem world_run_merging (h : t.Merging) : (t.run env).world = t.world := by
  unfold run
  rcases h with ⟨reply, rest, snapshot, responder, hph⟩ | ⟨hph, snapshot, responder, rest, hm⟩
  · rw [hph]
    dsimp only
    split
    · rfl
    · rfl
    · split
      · exact world_mergeNext _ _ _ _ t
      · rfl
  · rw [hph, hm]
    simp only [processMsg, mergeSnapshot]
    split
    · rfl
    · split
      · rfl
      · exact world_mergeNext _ _ _ _ _

end Turn

end Fs
