import S5.Fs.Proof.Dirty
import S5.Fs.Proof.Snapshots

/-!
# Dirty marks in every run

What a turn does to marks, saves and the answers to them (`Turn.Heeds`) keeps the invariant
(`System.Flags`), provided that the turn does not clear the mark over a dirty child.

* `System.dirty_goes_up`: in every run in which autosave timers go off only in directories without
  dirty children and no child fails to save, all directories above a dirty one are dirty whenever no
  message is on its way.
-/

open Std

namespace Fs

namespace Turn

variable {β : Type}

/-! ## What a turn heeds -/

/-- New handles are those of actors just spawned. -/
structure Moves (t t' : Turn β) : Prop where
  self : t'.self = t.self
  parent : t'.actor.context.parent = t.actor.context.parent
  fresh : t.fresh ≤ t'.fresh
  spawned : ∃ new, t'.spawned = t.spawned ++ new ∧ ∀ b ∈ new, ∃ ctx initial, b = .new ctx initial
  handles : ∀ path c, t'.actor.handleAt path = some c →
    t.actor.handleAt path = some c ∨ t.fresh ≤ c
  registry : ∀ (k : Bytes32) (c : ActorId), t'.registryDirHandles[k]? = some c →
    t.registryDirHandles[k]? = some c ∨ t.fresh ≤ c

variable {t t' t'' : Turn β}

theorem Stirs.moves (h : Stirs t t') : Moves t t' :=
  ⟨h.self, h.parent, h.fresh, h.spawned, h.handles, h.registry⟩

theorem Moves.trans (h : Moves t t') (h' : Moves t' t'') : Moves t t'' where
  self := h'.self.trans h.self
  parent := h'.parent.trans h.parent
  fresh := Nat.le_trans h.fresh h'.fresh
  spawned := by
    obtain ⟨n, hn, hb⟩ := h.spawned
    obtain ⟨n', hn', hb'⟩ := h'.spawned
    refine ⟨n ++ n', by rw [hn', hn, List.append_assoc], fun b hm => ?_⟩
    rcases List.mem_append.1 hm with hm | hm
    · exact hb b hm
    · exact hb' b hm
  handles path c hc := by
    rcases h'.handles path c hc with hc | hc
    · exact h.handles path c hc
    · exact .inr (Nat.le_trans h.fresh hc)
  registry k c hc := by
    rcases h'.registry k c hc with hc | hc
    · exact h.registry k c hc
    · exact .inr (Nat.le_trans h.fresh hc)

/-- What the actor has been asked, its mark and what it says change. -/
theorem moves_actor (t : Turn β) {a : DirActor} {o : List Output}
    (hc : a.context = t.actor.context) (hd : a.dirHandles = t.actor.dirHandles)
    (hs : a.dirShardHandles = t.actor.dirShardHandles) : Moves t { t with actor := a, out := o } where
  self := rfl
  parent := by rw [hc]
  fresh := Nat.le_refl _
  spawned := ⟨[], by simp⟩
  handles path c h := by
    left
    cases path with
    | path name =>
      show t.actor.dirHandles[name]? = some c
      rw [← hd]
      exact h
    | shard index =>
      show t.actor.dirShardHandles[index]? = some c
      rw [← hs]
      exact h
  registry _ _ := .inl

/-- What a turn that does not only wait does to marks, saves and the answers to them. -/
structure Heeds (t t' : Turn β) : Prop where
  moves : Moves t t'
  alive : System.isStopped t'.actor = false → System.isStopped t.actor = false
  told : t.actor.dirty = false → t'.actor.dirty = true → ∀ path p,
    t'.actor.context.parent = some (path, p) → .notifyParent p .markAsDirty ∈ t'.out
  saving : ∀ replies responder, t'.actor.phase = .saving replies responder →
    (t'.actor.context.parent ≠ none → t'.actor.dirty = true) ∧
      (∀ path c, t'.actor.handleAt path = some c → (path, none) ∈ replies) ∧
      ∀ reply ∈ replies, reply.2 = none
  settled : ∀ replies responder path, t.actor.phase = .saving replies responder →
    (path, none) ∉ replies
  owed : t'.actor.owed.Sublist t.actor.owed
  asks : ∀ x p path, .send x (.saveIfDirty (.parent p path)) ∈ t'.out → p = t.self ∧
    t'.actor.handleAt path = some x ∧
    ∃ replies responder, t'.actor.phase = .saving replies responder ∧ (path, none) ∈ replies
  askers : (t'.out.filterMap Output.asker).Nodup ∧ ∀ k ∈ t'.out.filterMap Output.asker,
    k.1 = t.self ∨ (k ∈ t.actor.owed ∧ k ∉ t'.actor.owed)
  clean : ∀ p path r, .saved (.parent p path) (.ok r) ∈ t'.out →
    t'.actor.dirty = false ∧ (p, path) ∈ t.actor.owed
  messages : ∀ p msg, .notifyParent p msg ∈ t'.out → msg.asker = none
  subdirs : ∀ waiting request name c, .subdir waiting request (.ok (name, c)) ∈ t'.out →
    System.isStopped t'.actor = false ∧ t'.HasHandle c

end Turn

/-! ## Turns heed -/

theorem Output.Plain.asker {o : Output} (h : o.Plain) : o.asker = none := by
  cases o with
  | send x msg =>
    cases msg with
    | saveIfDirty responder => exact h.elim
    | updateDirRefHash path hash => exact h.elim
    | _ => rfl
  | saved responder r => exact h.elim
  | _ => rfl

namespace Turn

variable {β : Type} {t t' : Turn β}

theorem saving_ne_calm {phase : Phase} (h : phase.isCalm = true)
    (replies : List (DirHandlePath × Option (Except String (Option Hash)))) (responder : Responder) :
    phase ≠ .saving replies responder := by
  rintro rfl
  cases h

theorem isStopped_of_calm {a : DirActor} (h : a.phase.isCalm = true) :
    System.isStopped a = false := by
  unfold System.isStopped
  split
  · rename_i hp
    rw [hp] at h
    cases h
  · rfl

/-- A stretch of a turn, after which the actor says something more. -/
theorem Stirs.heeds {t0 t1 : Turn β} (h : Stirs t0 t1) (h0 : t0.out = []) (hm0 : Moves t t0)
    (hm1 : Moves t1 t') {extra : List Output} (hout : t'.out = t1.out ++ extra)
    (hnd : t.actor.owed.Nodup) (halive : System.isStopped t.actor = false)
    (hsettled : ∀ replies responder path, t.actor.phase = .saving replies responder →
      (path, none) ∉ replies)
    (hidle : ∀ replies responder, t'.actor.phase ≠ .saving replies responder)
    (htold : t.actor.dirty = false → t'.actor.dirty = true → ∀ path p,
      t'.actor.context.parent = some (path, p) → t0.actor.dirty = false ∧ t1.actor.dirty = true)
    (howed : (extra.filterMap Output.asker ++
      t'.actor.mailbox.filterMap ActorMessage.asker).Sublist t.actor.owed)
    (hsend : ∀ x msg, .send x msg ∉ extra)
    (hclean : ∀ responder r, .saved responder (.ok r) ∈ extra → t'.actor.dirty = false)
    (hmsg : ∀ p msg, .notifyParent p msg ∈ extra → msg.asker = none)
    (hsub : ∀ waiting request name c, .subdir waiting request (.ok (name, c)) ∈ extra →
      System.isStopped t'.actor = false ∧ t'.HasHandle c) : Heeds t t' := by
  obtain ⟨new, hnew, hplain⟩ := h.out
  rw [h0, List.nil_append] at hnew
  rw [hnew] at hout
  have hnone : new.filterMap Output.asker = [] :=
    List.filterMap_eq_nil_iff.2 fun o ho => (hplain o ho).asker
  have hphase : t'.actor.phase.asker = none := by
    cases hp : t'.actor.phase with
    | saving replies responder => exact absurd hp (hidle replies responder)
    | _ => rfl
  have howed' : t'.actor.owed = t'.actor.mailbox.filterMap ActorMessage.asker := by
    simp [DirActor.owed, hphase]
  have hnd' := howed.nodup hnd
  -- what is not said in the stretch itself
  have hlate : ∀ {o : Output}, o ∈ t'.out → ¬ o.Plain → o ∈ extra := by
    intro o ho hp
    rw [hout] at ho
    rcases List.mem_append.1 ho with ho | ho
    · exact absurd (hplain o ho) hp
    · exact ho
  refine ⟨(hm0.trans h.moves).trans hm1, fun _ => halive, ?_, ?_, hsettled, ?_, ?_, ?_, ?_, ?_, ?_⟩
  · intro hd hd' path p hp
    obtain ⟨hd0, hd1⟩ := htold hd hd' path p hp
    have htold := h.told hd0 hd1 path p (hm1.parent ▸ hp)
    rw [hnew] at htold
    rw [hout]
    exact List.mem_append_left _ htold
  · intro replies responder hp
    exact absurd hp (hidle replies responder)
  · rw [howed']
    exact (List.sublist_append_right _ _).trans howed
  · intro x p path hx
    exact absurd (hlate hx id) (hsend x _)
  · rw [hout, List.filterMap_append, hnone, List.nil_append, howed']
    refine ⟨(List.sublist_append_left _ _).nodup hnd', fun k hk => .inr ⟨?_, ?_⟩⟩
    · exact howed.subset (List.mem_append_left _ hk)
    · exact fun hk' => List.disjoint_of_nodup_append hnd' hk hk'
  · intro p path r ho
    have hmem := hlate ho id
    refine ⟨hclean _ r hmem, howed.subset (List.mem_append_left _ ?_)⟩
    exact List.mem_filterMap.2 ⟨_, hmem, rfl⟩
  · intro p msg ho
    rw [hout] at ho
    rcases List.mem_append.1 ho with ho | ho
    · have hmark : msg = .markAsDirty := hplain _ ho
      rw [hmark]
      rfl
    · exact hmsg p msg ho
  · intro waiting request name c ho
    exact hsub waiting request name c (hlate ho id)

theorem Reports.says (h : Reports t t') : ∃ os, t' = { t with out := t.out ++ os } ∧
    ∀ o ∈ os, ∃ path p k, t.actor.context.parent = some (path, p) ∧
      o = .notifyParent p (.updateDirRefHash path k) := by
  rcases h with rfl | ⟨path, p, k, hp, rfl⟩
  · exact ⟨[], by simp, fun _ hm => absurd hm List.not_mem_nil⟩
  · refine ⟨[.notifyParent p (.updateDirRefHash path k)], rfl, fun o ho => ?_⟩
    exact ⟨path, p, k, hp, List.mem_singleton.1 ho⟩

theorem moves_take (t : Turn β) (rest : List ActorMessage) : Moves t (t.take rest) := by
  have h := moves_actor t (a := { t.actor with mailbox := rest }) (o := t.out) rfl rfl rfl
  exact h

theorem owed_idle {a : DirActor} (h : a.phase = .idle) :
    a.owed = a.mailbox.filterMap ActorMessage.asker := by
  simp [DirActor.owed, h, Phase.asker]

theorem filterMap_asker_dropped : ∀ mailbox : List ActorMessage,
    (mailbox.flatMap dropped).filterMap Output.asker = mailbox.filterMap ActorMessage.asker
  | [] => rfl
  | msg :: mailbox => by
    have ih := filterMap_asker_dropped mailbox
    rw [List.flatMap_cons, List.filterMap_append, ih]
    cases msg with
    | saveIfDirty responder =>
      cases responder <;> rfl
    | _ => rfl

theorem dropped_error {mailbox : List ActorMessage} {o : Output} (h : o ∈ mailbox.flatMap dropped) :
    (∃ responder e, o = .saved responder (.error e)) ∨ (∃ responder e, o = .merged responder (.error e)) ∨
      ∃ waiting request e, o = .subdir waiting request (.error e) := by
  obtain ⟨msg, -, ho⟩ := List.mem_flatMap.1 h
  cases msg with
  | saveIfDirty responder => exact .inl ⟨_, _, List.mem_singleton.1 ho⟩
  | mergeSnapshot snapshot responder => exact .inr (.inl ⟨_, _, List.mem_singleton.1 ho⟩)
  | openSubdir base path waiting request => exact .inr (.inr ⟨_, _, _, List.mem_singleton.1 ho⟩)
  | _ => cases ho

/-- The places of the children are distinct. -/
theorem nodup_children (a : DirActor) : ((children a).map (·.1)).Nodup := by
  unfold children
  rw [List.map_append, List.map_map, List.map_map]
  refine List.Nodup.append ?_ ?_ ?_
  · have hk : (a.dirShardHandles.toList.map Prod.fst).Nodup := by
      rw [ExtTreeMap.map_fst_toList_eq_keys]
      exact ExtTreeMap.nodup_keys
    have := hk.map fun x y (h : DirHandlePath.shard x = .shard y) => DirHandlePath.shard.inj h
    rwa [List.map_map] at this
  · have hk : (a.dirHandles.toList.map Prod.fst).Nodup := by
      rw [ExtTreeMap.map_fst_toList_eq_keys]
      exact ExtTreeMap.nodup_keys
    have := hk.map fun x y (h : DirHandlePath.path x = .path y) => DirHandlePath.path.inj h
    rwa [List.map_map] at this
  · intro k hk hk'
    obtain ⟨x, -, rfl⟩ := List.mem_map.1 hk
    obtain ⟨y, -, he⟩ := List.mem_map.1 hk'
    cases he

theorem mem_children_iff {a : DirActor} {path : DirHandlePath} {c : ActorId} :
    (path, c) ∈ children a ↔ a.handleAt path = some c := by
  refine ⟨mem_children, fun h => ?_⟩
  unfold children
  cases path with
  | path name =>
    refine List.mem_append_right _ (List.mem_map.2 ⟨(name, c), ?_, rfl⟩)
    exact ExtTreeMap.mem_toList_iff_getElem?_eq_some.2 h
  | shard index =>
    refine List.mem_append_left _ (List.mem_map.2 ⟨(index, c), ?_, rfl⟩)
    exact ExtTreeMap.mem_toList_iff_getElem?_eq_some.2 h

theorem heeds_asks {t1 : Turn β} {responder : Responder} {rest : List ActorMessage}
    (hp : t.actor.phase = .idle) (hm : t.actor.mailbox = .saveIfDirty responder :: rest)
    (hd : t.actor.dirty = true ∨ t.actor.context.parent = none) (hout : t.out = [])
    (h : Stirs (t.take rest) t1) : Heeds t (t1.askChildren responder) := by
  obtain ⟨new, hnew, hplain⟩ := h.out
  have h0 : (t.take rest).out = [] := hout
  rw [h0, List.nil_append] at hnew
  have hout' : (t1.askChildren responder).out = new ++ (children t1.actor).map fun child =>
      .send child.2 (.saveIfDirty (.parent t1.self child.1)) := by
    rw [← hnew]
    rfl
  have hself : t1.self = t.self := h.self
  have hhandle : ∀ path, (t1.askChildren responder).actor.handleAt path = t1.actor.handleAt path := by
    intro path
    cases path <;> rfl
  have hmove : Moves t1 (t1.askChildren responder) := moves_actor t1 rfl rfl rfl
  have howed : (t1.askChildren responder).actor.owed = t.actor.owed := by
    show responder.asker.toList ++ t1.actor.mailbox.filterMap ActorMessage.asker = _
    rw [owed_idle hp, hm, h.mailbox]
    show responder.asker.toList ++ rest.filterMap ActorMessage.asker = _
    cases responder <;> rfl
  -- what is not plain is a question to a child
  have hlate : ∀ {o : Output}, o ∈ (t1.askChildren responder).out → ¬ o.Plain →
      ∃ path c, t1.actor.handleAt path = some c ∧
        o = .send c (.saveIfDirty (.parent t1.self path)) := by
    intro o ho hplain'
    rw [hout'] at ho
    rcases List.mem_append.1 ho with ho | ho
    · exact absurd (hplain o ho) hplain'
    · obtain ⟨⟨path, c⟩, hc, rfl⟩ := List.mem_map.1 ho
      exact ⟨path, c, mem_children hc, rfl⟩
  refine ⟨((moves_take t rest).trans h.moves).trans hmove, fun _ => ?_, ?_, ?_, ?_, ?_, ?_, ?_, ?_,
    ?_, ?_⟩
  · simp [System.isStopped, hp]
  · intro hd0 hd1 path p hpar
    have htold := h.told hd0 hd1 path p hpar
    rw [hnew] at htold
    rw [hout']
    exact List.mem_append_left _ htold
  · intro replies responder' hph
    obtain ⟨rfl, rfl⟩ := Phase.saving.inj hph
    refine ⟨fun hpar => ?_, fun path c hc => ?_, fun reply hr => ?_⟩
    · rcases hd with hd | hd
      · exact h.dirty hd
      · exact absurd (h.parent.trans hd) hpar
    · exact List.mem_map.2 ⟨(path, c), mem_children_iff.2 ((hhandle path).symm.trans hc), rfl⟩
    · obtain ⟨child, -, rfl⟩ := List.mem_map.1 hr
      rfl
  · intro replies responder' path hph
    rw [hp] at hph
    cases hph
  · rw [howed]
  · intro x p path ho
    obtain ⟨path', c, hc, he⟩ := hlate ho id
    obtain ⟨rfl, hmsg⟩ := Output.send.inj he
    obtain ⟨rfl, rfl⟩ := Responder.parent.inj (ActorMessage.saveIfDirty.inj hmsg)
    refine ⟨hself, (hhandle path).trans hc, _, _, rfl, ?_⟩
    exact List.mem_map.2 ⟨(path, x), mem_children_iff.2 hc, rfl⟩
  · have hnone : new.filterMap Output.asker = [] :=
      List.filterMap_eq_nil_iff.2 fun o ho => (hplain o ho).asker
    have hask : (t1.askChildren responder).out.filterMap Output.asker =
        ((children t1.actor).map (·.1)).map fun path => (t1.self, path) := by
      rw [hout', List.filterMap_append, hnone, List.nil_append, List.filterMap_map, List.map_map,
        ← List.filterMap_eq_map]
      rfl
    rw [hask]
    refine ⟨(nodup_children t1.actor).map fun x y he => (Prod.mk.inj he).2, fun k hk => .inl ?_⟩
    obtain ⟨path, -, rfl⟩ := List.mem_map.1 hk
    exact hself
  · intro p path r ho
    obtain ⟨path', c, -, he⟩ := hlate ho id
    cases he
  · intro p msg ho
    rw [hout'] at ho
    rcases List.mem_append.1 ho with ho | ho
    · have hmark : msg = .markAsDirty := hplain _ ho
      rw [hmark]
      rfl
    · obtain ⟨child, -, he⟩ := List.mem_map.1 ho
      cases he
  · intro waiting request name c ho
    obtain ⟨path', c', -, he⟩ := hlate ho id
    cases he

/-- New handles are those of actors that the turn has spawned. -/
theorem Acts.moves (h : Acts t t') : Moves t t' := by
  have htake : ∀ {t1 : Turn β} {rest : List ActorMessage}, Stirs (t.take rest) t1 → Moves t t1 :=
    fun h => (moves_take t _).trans h.moves
  cases h with
  | waits h =>
    rw [h]
    exact (Stirs.refl t).moves
  | goesOn hp h => exact h.moves
  | handles msg rest hp hm hs h hd => exact htake h
  | opens t1 base waiting request path rest name c hp hm h hc ht =>
    subst ht
    exact (htake h).trans (moves_actor t1 rfl rfl rfl)
  | asks t1 responder rest hp hm hd h ht =>
    subst ht
    exact (htake h).trans (moves_actor t1 rfl rfl rfl)
  | answers t1 responder rest r hp hm h hr ht =>
    subst ht
    exact (htake h).trans (moves_actor t1 rfl rfl rfl)
  | finishes t1 replies responder r state dirty d hp hall hd h ht hr hd' =>
    subst ht
    have h0 : Moves t { t with actor.state := state, actor.dirty := dirty, actor.phase := .idle } := by
      have := moves_actor t (a := { t.actor with state := state, dirty := dirty, phase := .idle })
        (o := t.out) rfl rfl rfl
      exact this
    exact (h0.trans h.moves).trans (moves_actor t1 rfl rfl rfl)
  | autosaves t1 t2 rest d hp hm hd h hr ht =>
    subst ht
    obtain ⟨os, rfl, -⟩ := hr.says
    exact (htake h).trans (moves_actor t1 rfl rfl rfl)
  | starts t1 initial hp h hidle hr hi =>
    obtain ⟨os, rfl, -⟩ := hr.says
    exact h.moves.trans (moves_actor t1 rfl rfl rfl)
  | fails hp ht =>
    subst ht
    exact moves_actor t rfl rfl rfl

/-- A message other than a question to save has been handled. -/
theorem sublist_rest {a : DirActor} {msg : ActorMessage} {rest : List ActorMessage}
    (hp : a.phase = .idle) (hm : a.mailbox = msg :: rest) :
    (rest.filterMap ActorMessage.asker).Sublist a.owed := by
  rw [owed_idle hp, hm]
  exact (List.sublist_cons_self msg rest).filterMap _

theorem not_open {a : DirActor} (h : a.phase.isCalm = true) :
    ∀ replies responder (path : DirHandlePath), a.phase = .saving replies responder →
      (path, none) ∉ replies :=
  fun replies responder _ hp => absurd hp (saving_ne_calm h replies responder)

/-- **What every turn heeds**, unless it only waits. -/
theorem Acts.heeds (h : Acts t t') (hout : t.out = []) (hnd : t.actor.owed.Nodup)
    (hsaving : ∀ replies responder, t.actor.phase = .saving replies responder →
      t.actor.context.parent ≠ none → t.actor.dirty = true) : t' = t ∨ Heeds t t' := by
  have hcalm : t.actor.phase = .idle → t.actor.phase.isCalm = true := by
    intro hp
    rw [hp]
    rfl
  have hstays : ∀ {t0 t1 : Turn β}, Stirs t0 t1 → t0.actor.phase.isCalm = true →
      t1.actor.phase.isCalm = true := by
    intro t0 t1 h h0
    rcases h.phase with hp | hp
    · rw [hp]
      exact h0
    · exact hp
  have hrefl : ∀ t : Turn β, Moves t t := fun t => (Stirs.refl t).moves
  cases h with
  | waits h => exact .inl h
  | goesOn hp h =>
    right
    have hp' := hstays h hp
    refine h.heeds hout (hrefl t) (hrefl t') (List.append_nil _).symm hnd (isStopped_of_calm hp)
      (not_open hp) (saving_ne_calm hp') (fun hd hd' _ _ _ => ⟨hd, hd'⟩) ?_
      (fun _ _ => List.not_mem_nil) (fun _ _ h => absurd h List.not_mem_nil)
      (fun _ _ h => absurd h List.not_mem_nil) fun _ _ _ _ h => absurd h List.not_mem_nil
    rw [List.filterMap_nil, List.nil_append, h.mailbox]
    exact List.sublist_append_right _ _
  | handles msg rest hp hm hs h hd =>
    right
    have hp' := hstays h (hcalm hp)
    refine h.heeds hout (moves_take t rest) (hrefl t') (List.append_nil _).symm hnd
      (isStopped_of_calm (hcalm hp)) (not_open (hcalm hp)) (saving_ne_calm hp')
      (fun hd hd' _ _ _ => ⟨hd, hd'⟩) ?_
      (fun _ _ => List.not_mem_nil) (fun _ _ h => absurd h List.not_mem_nil)
      (fun _ _ h => absurd h List.not_mem_nil) fun _ _ _ _ h => absurd h List.not_mem_nil
    rw [List.filterMap_nil, List.nil_append, h.mailbox]
    exact sublist_rest hp hm
  | opens t1 base waiting request path rest name c hp hm h hc ht =>
    right
    subst ht
    have hp' := hstays h (hcalm hp)
    refine h.heeds hout (moves_take t rest) (moves_actor t1 rfl rfl rfl) rfl hnd
      (isStopped_of_calm (hcalm hp)) (not_open (hcalm hp)) (saving_ne_calm hp')
      (fun hd hd' _ _ _ => ⟨hd, hd'⟩) ?_ ?_ ?_ ?_ ?_
    · show (t1.actor.mailbox.filterMap ActorMessage.asker).Sublist t.actor.owed
      rw [h.mailbox]
      exact sublist_rest hp hm
    · intro x msg ho
      cases List.mem_singleton.1 ho
    · intro responder r ho
      cases List.mem_singleton.1 ho
    · intro p msg ho
      cases List.mem_singleton.1 ho
    · intro waiting' request' name' c' ho
      obtain ⟨-, -, he⟩ := Output.subdir.inj (List.mem_singleton.1 ho)
      obtain ⟨-, rfl⟩ := Prod.mk.inj (Except.ok.inj he)
      exact ⟨isStopped_of_calm hp', hc⟩
  | asks t1 responder rest hp hm hd h ht =>
    right
    rw [ht]
    exact heeds_asks hp hm hd hout h
  | answers t1 responder rest r hp hm h hr ht =>
    right
    subst ht
    have hp' := hstays h (hcalm hp)
    refine h.heeds hout (moves_take t rest) (moves_actor t1 rfl rfl rfl) rfl hnd
      (isStopped_of_calm (hcalm hp)) (not_open (hcalm hp)) (saving_ne_calm hp')
      (fun hd hd' _ _ _ => ⟨hd, hd'⟩) ?_ ?_ ?_ ?_ ?_
    · show (_ ++ t1.actor.mailbox.filterMap ActorMessage.asker).Sublist t.actor.owed
      rw [h.mailbox, owed_idle hp, hm]
      cases responder <;> exact List.Sublist.refl _
    · intro x msg ho
      cases List.mem_singleton.1 ho
    · intro responder' k ho
      obtain ⟨-, he⟩ := Output.saved.inj (List.mem_singleton.1 ho)
      exact hr k he.symm
    · intro p msg ho
      cases List.mem_singleton.1 ho
    · intro waiting request name c ho
      cases List.mem_singleton.1 ho
  | finishes t1 replies responder r state dirty d hp hall hd h ht hr hd' =>
    right
    subst ht
    have hp' : t1.actor.phase.isCalm = true := hstays h rfl
    refine h.heeds hout ?_ (moves_actor t1 rfl rfl rfl) rfl hnd ?_ ?_ (saving_ne_calm hp') ?_ ?_ ?_ ?_
      ?_ ?_
    · exact moves_actor t rfl rfl rfl
    · simp [System.isStopped, hp]
    · intro replies' responder' path hph hr
      obtain ⟨rfl, rfl⟩ := Phase.saving.inj (hp.symm.trans hph)
      have := List.all_eq_true.1 hall _ hr
      cases this
    · intro hclean _ path p hpar
      -- only a root saves without having been dirty
      have hpar' : t.actor.context.parent = some (path, p) := h.parent ▸ hpar
      have hdirty := hsaving replies responder hp (by simp [hpar'])
      rw [hclean] at hdirty
      cases hdirty
    · show (_ ++ t1.actor.mailbox.filterMap ActorMessage.asker).Sublist t.actor.owed
      rw [h.mailbox]
      unfold DirActor.owed
      rw [hp]
      cases responder <;> exact List.Sublist.refl _
    · intro x msg ho
      cases List.mem_singleton.1 ho
    · intro responder' k ho
      obtain ⟨-, he⟩ := Output.saved.inj (List.mem_singleton.1 ho)
      exact hr k he.symm
    · intro p msg ho
      cases List.mem_singleton.1 ho
    · intro waiting request name c ho
      cases List.mem_singleton.1 ho
  | autosaves t1 t2 rest d hp hm hd h hr ht =>
    right
    subst ht
    obtain ⟨os, rfl, hos⟩ := hr.says
    have hp' := hstays h (hcalm hp)
    refine h.heeds hout (moves_take t rest) (moves_actor t1 rfl rfl rfl) rfl hnd
      (isStopped_of_calm (hcalm hp)) (not_open (hcalm hp)) (saving_ne_calm hp')
      (fun hclean => absurd (hd.symm.trans hclean) (by decide)) ?_ ?_ ?_ ?_ ?_
    · have hnone : os.filterMap Output.asker = [] := by
        refine List.filterMap_eq_nil_iff.2 fun o ho => ?_
        obtain ⟨path, p, k, -, rfl⟩ := hos o ho
        rfl
      show (_ ++ t1.actor.mailbox.filterMap ActorMessage.asker).Sublist t.actor.owed
      rw [hnone, List.nil_append, h.mailbox]
      exact sublist_rest hp hm
    · intro x msg ho
      obtain ⟨path, p, k, -, he⟩ := hos _ ho
      cases he
    · intro responder k ho
      obtain ⟨path, p, k, -, he⟩ := hos _ ho
      cases he
    · intro p msg ho
      obtain ⟨path, p, k, -, he⟩ := hos _ ho
      obtain ⟨-, rfl⟩ := Output.notifyParent.inj he
      rfl
    · intro waiting request name c ho
      obtain ⟨path, p, k, -, he⟩ := hos _ ho
      cases he
  | starts t1 initial hp h hidle hr hi =>
    right
    obtain ⟨os, rfl, hos⟩ := hr.says
    refine h.heeds hout (hrefl t) (moves_actor t1 rfl rfl rfl) rfl hnd ?_ ?_ ?_
      (fun hd hd' _ _ _ => ⟨hd, hd'⟩) ?_ ?_ ?_ ?_ ?_
    · simp [System.isStopped, hp]
    · intro replies responder path hph
      rw [hp] at hph
      cases hph
    · intro replies responder hph
      have hph' : t1.actor.phase = .saving replies responder := hph
      rw [hidle] at hph'
      cases hph'
    · have hnone : os.filterMap Output.asker = [] := by
        refine List.filterMap_eq_nil_iff.2 fun o ho => ?_
        obtain ⟨path, p, k, -, rfl⟩ := hos o ho
        rfl
      show (_ ++ t1.actor.mailbox.filterMap ActorMessage.asker).Sublist t.actor.owed
      rw [hnone, List.nil_append, h.mailbox]
      exact List.sublist_append_right _ _
    · intro x msg ho
      obtain ⟨path, p, k, -, he⟩ := hos _ ho
      cases he
    · intro responder k ho
      obtain ⟨path, p, k, -, he⟩ := hos _ ho
      cases he
    · intro p msg ho
      obtain ⟨path, p, k, -, he⟩ := hos _ ho
      obtain ⟨-, rfl⟩ := Output.notifyParent.inj he
      rfl
    · intro waiting request name c ho
      obtain ⟨path, p, k, -, he⟩ := hos _ ho
      cases he
  | fails hp ht =>
    right
    subst ht
    refine (Stirs.refl t).heeds hout (hrefl t) (moves_actor t rfl rfl rfl) rfl hnd ?_ ?_
      (fun _ _ h => by cases h)
      (fun hd hd' _ _ _ => ⟨hd, hd'⟩) ?_ ?_ ?_ ?_ ?_
    · simp [System.isStopped, hp]
    · intro replies responder path hph
      rw [hp] at hph
      cases hph
    · rw [filterMap_asker_dropped]
      show (_ ++ []).Sublist t.actor.owed
      rw [List.append_nil]
      exact List.sublist_append_right _ _
    · intro x msg ho
      rcases dropped_error ho with ⟨_, _, he⟩ | ⟨_, _, he⟩ | ⟨_, _, _, he⟩ <;> cases he
    · intro responder k ho
      rcases dropped_error ho with ⟨_, _, he⟩ | ⟨_, _, he⟩ | ⟨_, _, _, he⟩ <;> cases he
    · intro p msg ho
      rcases dropped_error ho with ⟨_, _, he⟩ | ⟨_, _, he⟩ | ⟨_, _, _, he⟩ <;> cases he
    · intro waiting request name c ho
      rcases dropped_error ho with ⟨_, _, he⟩ | ⟨_, _, he⟩ | ⟨_, _, _, he⟩ <;> cases he

end Turn

namespace System

variable {β : Type} {s : System β} {i : ActorId} {a : DirActor} {t' : Turn β}

theorem settle_self (ha : s.actors[i]? = some a) (hi : t'.self = i) :
    (s.settle t').actors[i]? = some t'.actor := by
  have hlt : i < s.actors.length := (List.getElem?_eq_some_iff.1 ha).1
  show (s.actors.set t'.self t'.actor ++ t'.spawned)[i]? = _
  rw [hi, List.getElem?_append_left (by rwa [List.length_set]), List.getElem?_set_self hlt]

theorem settle_other {j : ActorId} {b : DirActor} (hb : s.actors[j]? = some b) (hj : j ≠ t'.self) :
    (s.settle t').actors[j]? = some b := by
  have hlt : j < s.actors.length := (List.getElem?_eq_some_iff.1 hb).1
  show (s.actors.set t'.self t'.actor ++ t'.spawned)[j]? = _
  rw [List.getElem?_append_left (by rwa [List.length_set]), List.getElem?_set_ne fun h => hj h.symm]
  exact hb

/-- An actor after a turn: the one whose turn it was, another one or one just spawned. -/
theorem getElem?_moved (hm : Turn.Moves (s.turn i a) t') {j : ActorId} {b : DirActor}
    (h : (s.settle t').actors[j]? = some b) :
    (j = i ∧ b = t'.actor) ∨ (j ≠ i ∧ s.actors[j]? = some b) ∨ ∃ ctx initial, b = .new ctx initial := by
  have hi : t'.self = i := hm.self
  rcases getElem?_settle h with ⟨hj, hb⟩ | ⟨hj, hb⟩ | hb
  · exact .inl ⟨hj.trans hi, hb⟩
  · exact .inr (.inl ⟨hi ▸ hj, hb⟩)
  · obtain ⟨new, hnew, hall⟩ := hm.spawned
    rw [hnew] at hb
    exact .inr (.inr (hall b hb))

theorem handleAt_new (ctx : DirContext ActorId) (initial : Option DirV1) (path : DirHandlePath) :
    (DirActor.new ctx initial).handleAt path = none := by
  cases path <;> simp [DirActor.handleAt, DirActor.new]

/-- Nobody gets a handle of an actor that was there before. -/
theorem held_of_settle {j : ActorId} (ha : s.actors[i]? = some a)
    (ht : Turn.Moves (s.turn i a) t') (halive : isStopped t'.actor = false → isStopped a = false)
    (hj : j < s.actors.length) (h : (s.settle t').held j = true) : s.held j = true := by
  rw [held_iff] at h ⊢
  refine h.imp_right ?_
  rintro (⟨k, hk⟩ | ⟨k, b, hb, hs, path, hp⟩)
  · rcases ht.registry k j hk with hk | hk
    · exact .inl ⟨k, hk⟩
    · exact absurd hk (Nat.not_le_of_lt hj)
  · right
    rcases getElem?_moved ht hb with ⟨rfl, rfl⟩ | ⟨-, hb⟩ | ⟨ctx, initial, rfl⟩
    · rcases ht.handles path j hp with hp | hp
      · exact ⟨k, a, ha, halive hs, path, hp⟩
      · exact absurd hp (Nat.not_le_of_lt hj)
    · exact ⟨k, b, hb, hs, path, hp⟩
    · rw [handleAt_new] at hp
      cases hp

theorem owed_new (ctx : DirContext ActorId) (initial : Option DirV1) :
    (DirActor.new ctx initial).owed = [] := rfl

/-- **A turn keeps the marks in order** if no dirty child stays below a clean actor. -/
theorem Flags.settle (h : Flags (fun j => s.held j = true) [] s) (ha : s.actors[i]? = some a)
    (ht : Turn.Heeds (s.turn i a) t')
    (hup : ∀ path c b, s.held i = true → isStopped t'.actor = false → a.handleAt path = some c →
      s.actors[c]? = some b → b.context.parent = some (path, i) → b.dirty = true →
      t'.actor.dirty = true ∨ t'.actor.Marked) :
    Flags (fun j => (s.settle t').held j = true) t'.out (s.settle t') := by
  have hi : t'.self = i := ht.moves.self
  have hself : (s.settle t').actors[i]? = some t'.actor := settle_self ha hi
  have hother : ∀ {j : ActorId} {b : DirActor}, s.actors[j]? = some b → j ≠ i →
      (s.settle t').actors[j]? = some b := fun hb hj => settle_other hb (hi.symm ▸ hj)
  have hlt : ∀ {j : ActorId} {b : DirActor}, s.actors[j]? = some b → j < s.actors.length :=
    fun hb => (List.getElem?_eq_some_iff.1 hb).1
  have hheld : ∀ {j : ActorId} {b : DirActor}, s.actors[j]? = some b →
      (s.settle t').held j = true → s.held j = true :=
    fun hb h => held_of_settle ha ht.moves ht.alive (hlt hb) h
  -- nobody owes the actor an answer
  have hnone : ∀ {x : ActorId} {b : DirActor} {path : DirHandlePath}, s.actors[x]? = some b →
      (i, path) ∉ b.owed := by
    intro x b path hb hk
    obtain ⟨a', replies, responder, ha', hph, hr, -⟩ := h.owes x i path (.inl ⟨b, hb, hk⟩)
    obtain rfl := Option.some.inj (ha.symm.trans ha')
    exact ht.settled replies responder path hph hr
  -- the actor is the one that is asked where it owes an answer
  have hasked : ∀ {p : ActorId} {path : DirHandlePath}, (p, path) ∈ a.owed → p ≠ i ∧
      ∃ a', s.actors[p]? = some a' ∧ a'.handleAt path = some i := by
    intro p path hk
    obtain ⟨a', replies, responder, ha', -, -, hc⟩ := h.owes i p path (.inl ⟨a, ha, hk⟩)
    refine ⟨?_, a', ha', hc⟩
    rintro rfl
    exact hnone ha hk
  refine ⟨?_, ?_, ?_, ?_, ?_, ?_, ?_⟩
  · intro p c a' b path hH hp hs hc hparent hhandle hd
    rcases getElem?_moved ht.moves hp with ⟨rfl, rfl⟩ | ⟨hpi, hp⟩ | ⟨ctx, initial, rfl⟩
    · rcases getElem?_moved ht.moves hc with ⟨rfl, rfl⟩ | ⟨hci, hc⟩ | ⟨ctx, initial, rfl⟩
      · exact .inl hd
      · rcases ht.moves.handles path c hhandle with hold | hnew
        · exact (hup path c b (hheld ha hH) hs hold hc hparent hd).imp_right .inl
        · exact absurd hnew (Nat.not_le_of_lt (hlt hc))
      · cases hd
    · rcases getElem?_moved ht.moves hc with ⟨rfl, rfl⟩ | ⟨hci, hc⟩ | ⟨ctx, initial, rfl⟩
      · cases hd0 : a.dirty with
        | true =>
          have hparent' : a.context.parent = some (path, p) := ht.moves.parent ▸ hparent
          rcases h.up p c a' a path (hheld hp hH) hp hs ha hparent' hhandle hd0 with h1 | h1 | h1
          · exact .inl h1
          · exact .inr (.inl h1)
          · cases h1
        | false => exact .inr (.inr (ht.told hd0 hd path p hparent))
      · rcases h.up p c a' b path (hheld hp hH) hp hs hc hparent hhandle hd with h1 | h1 | h1
        · exact .inl h1
        · exact .inr (.inl h1)
        · cases h1
      · cases hd
    · rw [handleAt_new] at hhandle
      cases hhandle
  · intro p a' replies responder hp hph
    rcases getElem?_moved ht.moves hp with ⟨rfl, rfl⟩ | ⟨hpi, hp⟩ | ⟨ctx, initial, rfl⟩
    · obtain ⟨hd, hcover, -⟩ := ht.saving replies responder hph
      exact ⟨hd, fun path c hc => ⟨none, hcover path c hc⟩⟩
    · exact h.saving p a' replies responder hp hph
    · cases hph
  · intro p c a' b path replies responder r hH hp hph hc hparent hhandle hr hd
    rcases getElem?_moved ht.moves hp with ⟨rfl, rfl⟩ | ⟨hpi, hp⟩ | ⟨ctx, initial, rfl⟩
    · obtain ⟨-, -, hnew⟩ := ht.saving replies responder hph
      cases hnew _ hr
    · rcases getElem?_moved ht.moves hc with ⟨rfl, rfl⟩ | ⟨hci, hc⟩ | ⟨ctx, initial, rfl⟩
      · cases hd0 : a.dirty with
        | true =>
          have hparent' : a.context.parent = some (path, p) := ht.moves.parent ▸ hparent
          rcases h.answered p c a' a path replies responder r (hheld hp hH) hp hph ha hparent'
            hhandle hr hd0 with h1 | h1
          · exact .inl h1
          · cases h1
        | false => exact .inr (ht.told hd0 hd path p hparent)
      · rcases h.answered p c a' b path replies responder r (hheld hp hH) hp hph hc hparent
          hhandle hr hd with h1 | h1
        · exact .inl h1
        · cases h1
      · cases hd
    · cases hph
  · intro x p path hx
    rcases hx with ⟨b, hb, hk⟩ | hx
    · have hold : ∃ b, s.actors[x]? = some b ∧ (p, path) ∈ b.owed := by
        rcases getElem?_moved ht.moves hb with ⟨rfl, rfl⟩ | ⟨-, hb⟩ | ⟨ctx, initial, rfl⟩
        · exact ⟨a, ha, ht.owed.subset hk⟩
        · exact ⟨b, hb, hk⟩
        · rw [owed_new] at hk
          cases hk
      obtain ⟨b0, hb0, hk0⟩ := hold
      obtain ⟨a', replies, responder, ha', hph, hr, hc⟩ := h.owes x p path (.inl ⟨b0, hb0, hk0⟩)
      have hpi : p ≠ i := by
        rintro rfl
        exact hnone hb0 hk0
      exact ⟨a', replies, responder, hother ha' hpi, hph, hr, hc⟩
    · obtain ⟨hp, hc, replies, responder, hph, hr⟩ := ht.asks x p path hx
      obtain rfl : p = i := hp
      exact ⟨t'.actor, replies, responder, hself, hph, hr, hc⟩
  · intro x b hb
    rcases getElem?_moved ht.moves hb with ⟨rfl, rfl⟩ | ⟨-, hb⟩ | ⟨ctx, initial, rfl⟩
    · exact ht.owed.nodup (h.once _ a ha)
    · exact h.once x b hb
    · rw [owed_new]
      exact List.nodup_nil
  · refine ⟨ht.askers.1, fun k hk x b hb hmem => ?_⟩
    rcases ht.askers.2 k hk with hki | ⟨howed, hgone⟩
    · obtain ⟨p, path⟩ := k
      obtain rfl : p = i := hki
      rcases getElem?_moved ht.moves hb with ⟨rfl, rfl⟩ | ⟨-, hb⟩ | ⟨ctx, initial, rfl⟩
      · exact hnone ha (ht.owed.subset hmem)
      · exact hnone hb hmem
      · rw [owed_new] at hmem
        cases hmem
    · rcases getElem?_moved ht.moves hb with ⟨rfl, rfl⟩ | ⟨hxi, hb⟩ | ⟨ctx, initial, rfl⟩
      · exact hgone hmem
      · -- two actors do not owe the same answer
        obtain ⟨p, path⟩ := k
        obtain ⟨-, a', ha', hc⟩ := hasked howed
        obtain ⟨a'', -, -, ha'', -, -, hc'⟩ := h.owes x p path (.inl ⟨b, hb, hmem⟩)
        obtain rfl := Option.some.inj (ha'.symm.trans ha'')
        exact hxi (Option.some.inj (hc'.symm.trans hc))
      · rw [owed_new] at hmem
        cases hmem
  · intro p c a' b path r ho hp hc hb hparent
    obtain ⟨hclean, howed⟩ := ht.clean p path r ho
    obtain ⟨hpi, a'', ha'', hc'⟩ := hasked howed
    obtain rfl := Option.some.inj ((hother ha'' hpi).symm.trans hp)
    obtain rfl := Option.some.inj (hc'.symm.trans hc)
    obtain rfl := Option.some.inj (hself.symm.trans hb)
    exact hclean

/-! ## Steps keep the marks in order -/

variable {H H' : ActorId → Prop} {o : Output} {os : List Output}

theorem Flags.anti (h : Flags H os s) (hH : ∀ p, H' p → H p) : Flags H' os s where
  up p c a b path hp := h.up p c a b path (hH p hp)
  saving := h.saving
  answered p c a b path replies responder r hp :=
    h.answered p c a b path replies responder r (hH p hp)
  owes := h.owes
  once := h.once
  fresh := h.fresh
  clean := h.clean

theorem Flags.commit (h : Flags (fun j => s.held j = true) [] s) (ha : s.actors[i]? = some a)
    (ht : Turn.Heeds (s.turn i a) t')
    (hup : ∀ path c b, s.held i = true → isStopped t'.actor = false → a.handleAt path = some c →
      s.actors[c]? = some b → b.context.parent = some (path, i) → b.dirty = true →
      t'.actor.dirty = true ∨ t'.actor.Marked) :
    Flags (fun j => (s.commit t').held j = true) [] (s.commit t') := by
  have h1 := Flags.emits t'.out (h.settle ha ht hup) (fun p hp => hp) ht.messages
  refine h1.anti fun c hc => ?_
  refine held_of_emits t'.out (fun waiting request name hm => ?_) hc
  obtain ⟨hs, hhas⟩ := ht.subdirs waiting request name c hm
  refine held_iff.2 (.inr ?_)
  rcases hhas with ⟨path, hp⟩ | ⟨k, hk⟩
  · exact .inr ⟨i, t'.actor, settle_self ha ht.moves.self, hs, path, hp⟩
  · exact .inl ⟨k, hk⟩

/-- Something is said that is not about saving. -/
theorem Flags.say (h : Flags (fun j => s.held j = true) [] s) (ho : o.asker = none)
    (hmsg : ∀ p msg, o = .notifyParent p msg → msg.asker = none)
    (hsub : ∀ waiting request name c, o = .subdir waiting request (.ok (name, c)) →
      s.held c = true) : Flags (fun j => (s.emit o).held j = true) [] (s.emit o) := by
  have h0 : Flags (fun j => s.held j = true) [o] s := by
    refine ⟨?_, h.saving, ?_, ?_, h.once, ?_, ?_⟩
    · intro p c a b path hH hp hs hc hpar hhandle hd
      rcases h.up p c a b path hH hp hs hc hpar hhandle hd with h1 | h1 | h1
      · exact .inl h1
      · exact .inr (.inl h1)
      · cases h1
    · intro p c a b path replies responder r hH hp hph hc hpar hhandle hr hd
      rcases h.answered p c a b path replies responder r hH hp hph hc hpar hhandle hr hd with h1 | h1
      · exact .inl h1
      · cases h1
    · intro x p path hx
      rcases hx with hx | hx
      · exact h.owes x p path (.inl hx)
      · rw [← List.mem_singleton.1 hx] at ho
        cases ho
    · rw [List.filterMap_cons_none ho]
      exact ⟨List.nodup_nil, nofun⟩
    · intro p c a b path r hr
      rw [← List.mem_singleton.1 hr] at ho
      cases ho
  refine (h0.emit (fun _ => id) hmsg).anti fun c hc => ?_
  rcases held_of_emit hc with hc | ⟨waiting, request, name, he⟩
  · exact hc
  · exact hsub waiting request name c he

theorem flags_opened (ctx : DirContext ActorId) (w : World β) (r : LocalRoot) (H : ActorId → Prop) :
    Flags H [] (opened ctx w r) := by
  have hget : ∀ {j : ActorId} {b : DirActor}, (opened ctx w r).actors[j]? = some b →
      b = .new ctx none :=
    fun hb => List.mem_singleton.1 (List.mem_of_getElem? hb)
  refine ⟨?_, ?_, ?_, ?_, ?_, ⟨List.nodup_nil, fun k hk => nomatch hk⟩,
    fun _ _ _ _ _ _ hr => nomatch hr⟩
  · intro p c a b path _ _ _ hb _ _ hd
    rw [hget hb] at hd
    cases hd
  · intro p a replies responder ha hp
    rw [hget ha] at hp
    cases hp
  · intro p c a b path replies responder k _ _ _ hb _ _ _ hd
    rw [hget hb] at hd
    cases hd
  · intro x p path hx
    rcases hx with ⟨b, hb, hk⟩ | hx
    · rw [hget hb] at hk
      cases hk
    · cases hx
  · intro x b hb
    rw [hget hb, owed_new]
    exact List.nodup_nil

theorem flags_submit (h : Flags (fun j => s.held j = true) [] s) {handle : List String × ActorId}
    (hmem : handle ∈ s.clientHandles) (request : Request) :
    Flags (fun j => (s.submit handle request).held j = true) [] (s.submit handle request) := by
  have h0 : Flags (fun j => ({ s with requests := s.requests + 1 } : System β).held j = true) []
      { s with requests := s.requests + 1 } :=
    ⟨h.up, h.saving, h.answered, h.owes, h.once, h.fresh, h.clean⟩
  cases request with
  | subdir path =>
    simp only [submit]
    split
    · refine h0.say rfl (fun _ _ he => nomatch he) fun waiting request name c he => ?_
      obtain ⟨-, -, he⟩ := Output.subdir.inj he
      exact held_iff.2 (.inl ⟨handle, hmem, by rw [Except.ok.inj he]⟩)
    · exact h0.say rfl (fun _ _ he => nomatch he) fun _ _ _ _ he => nomatch he
  | _ => exact h0.say rfl (fun _ _ he => nomatch he) fun _ _ _ _ he => nomatch he

/-- A stretch after a message that is no mark leaves a dirty or marked actor dirty or marked. -/
theorem marked_of_take {t t1 : Turn β} {msg : ActorMessage} {rest : List ActorMessage}
    (hm : t.actor.mailbox = msg :: rest) (hmsg : msg = .markAsDirty → t1.actor.dirty = true)
    (h : Turn.Stirs (t.take rest) t1) (hold : t.actor.dirty = true ∨ t.actor.Marked) :
    t1.actor.dirty = true ∨ t1.actor.Marked := by
  rcases hold with hd | hmark
  · exact .inl (h.dirty hd)
  · unfold DirActor.Marked at hmark ⊢
    rw [hm] at hmark
    rw [h.mailbox]
    rcases List.mem_cons.1 hmark with he | hmark
    · exact .inl (hmsg he.symm)
    · exact .inr hmark

/-- No turn leaves a dirty child below a clean actor, but for one that a timer has set off. -/
theorem up_of_acts (h : Flags (fun j => s.held j = true) [] s) (ha : s.actors[i]? = some a)
    (hacts : Turn.Acts (s.turn i a) t') (hk : s.KeepsMarks (.run i)) {path : DirHandlePath}
    {c : ActorId} {b : DirActor} (hheld : s.held i = true) (hs : isStopped t'.actor = false)
    (hhandle : a.handleAt path = some c) (hb : s.actors[c]? = some b)
    (hpar : b.context.parent = some (path, i)) (hd : b.dirty = true) :
    t'.actor.dirty = true ∨ t'.actor.Marked := by
  obtain ⟨hfailed, htimer⟩ := hk i rfl a ha
  have hold : isStopped a = false → a.dirty = true ∨ a.Marked := by
    intro hs
    rcases h.up i c a b path hheld ha hs hb hpar hhandle hd with h1 | h1 | h1
    · exact .inl h1
    · exact .inr h1
    · cases h1
  have hidle : a.phase = .idle → isStopped a = false := by
    intro hp
    simp [isStopped, hp]
  cases hacts with
  | waits ht =>
    subst ht
    exact hold hs
  | goesOn hp ht =>
    refine (hold (Turn.isStopped_of_calm hp)).imp ht.dirty fun hm => ?_
    unfold DirActor.Marked
    rw [ht.mailbox]
    exact hm
  | handles msg rest hp hm hsave ht hmark => exact marked_of_take hm hmark ht (hold (hidle hp))
  | opens t1 base waiting request path' rest name c' hp hm ht hc he =>
    subst he
    have hnext := marked_of_take hm (fun he => by cases he) ht (hold (hidle hp))
    exact hnext
  | asks t1 responder rest hp hm hd' ht he =>
    subst he
    have hnext := marked_of_take hm (fun he => by cases he) ht (hold (hidle hp))
    exact hnext
  | answers t1 responder rest r hp hm ht hr he =>
    subst he
    have hnext := marked_of_take hm (fun he => by cases he) ht (hold (hidle hp))
    exact hnext
  | finishes t1 replies responder r state dirty d hp hall hd0 ht he hr hd' =>
    subst he
    have hp' : a.phase = .saving replies responder := hp
    rw [hp'] at hfailed
    obtain ⟨-, hcover⟩ := h.saving i a replies responder ha hp'
    obtain ⟨reply, hreply⟩ := hcover path c hhandle
    have hsome : reply.isSome = true := List.all_eq_true.1 hall _ hreply
    obtain ⟨result, rfl⟩ := Option.isSome_iff_exists.1 hsome
    cases result with
    | error e => cases List.all_eq_true.1 hfailed _ hreply
    | ok k =>
      -- the child was clean when it answered, so it has told since
      right
      rcases h.answered i c a b path replies responder k hheld ha hp' hb hpar hhandle hreply hd
        with hmark | hmark
      · show ActorMessage.markAsDirty ∈ t1.actor.mailbox
        rw [ht.mailbox]
        exact hmark
      · cases hmark
  | autosaves t1 t2 rest d hp hm hdirty ht hr he =>
    subst he
    obtain ⟨os, rfl, -⟩ := hr.says
    have hp' : a.phase = .idle := hp
    have hm' : a.mailbox = .autosaveTick :: rest := hm
    have hticks : ticks a = some rest := by
      simp only [ticks, hp', hm']
    have hdirty' : a.dirty = true := hdirty
    have hchild : ((Turn.children a).any fun child => s.actors[child.2]?.any fun b =>
        b.dirty && b.context.parent = some (child.1, i)) = true := by
      refine List.any_eq_true.2 ⟨(path, c), Turn.mem_children_iff.2 hhandle, ?_⟩
      simp [hb, hd, hpar]
    have hany : rest.any (·.isMark) = true := by
      simpa only [timerHides, hticks, Option.any_some, hheld, hdirty', hchild, Bool.and_true,
        Bool.true_and, Bool.not_eq_eq_eq_not, Bool.not_false] using htimer
    obtain ⟨msg, hmem, hmark⟩ := List.any_eq_true.1 hany
    right
    show ActorMessage.markAsDirty ∈ t1.actor.mailbox
    rw [ht.mailbox]
    cases msg with
    | markAsDirty => exact hmem
    | _ => cases hmark
  | starts t1 initial hp ht hidle' hr hi =>
    obtain ⟨os, rfl, -⟩ := hr.says
    have hstop : isStopped a = false := by
      have hp' : a.phase = .starting initial := hp
      simp [isStopped, hp']
    refine (hold hstop).imp ht.dirty fun hm => ?_
    show ActorMessage.markAsDirty ∈ t1.actor.mailbox
    rw [ht.mailbox]
    exact hm
  | fails hp ht =>
    subst ht
    cases hs

variable [DecidableEq β] (env : Env β)

/-- An actor that ends. -/
theorem heeds_close (ha : a.phase = .idle) (hm : a.mailbox = []) :
    Turn.Heeds (s.turn i a) ((s.turn i a).close env) := by
  obtain ⟨t1, h, he⟩ : ∃ t1, Turn.Stirs (s.turn i a) t1 ∧
      (s.turn i a).close env = t1.enter .stopped := Turn.stirs_close _
  rw [he]
  have hidle : (s.turn i a).actor.phase = .idle := ha
  have hcalm : a.phase.isCalm = true := by
    rw [ha]
    rfl
  refine h.heeds rfl (Turn.Stirs.refl _).moves (Turn.moves_actor t1 rfl rfl rfl)
    (List.append_nil _).symm ?_ (Turn.isStopped_of_calm hcalm) (Turn.not_open hcalm)
    (fun _ _ h => nomatch h) (fun hd hd' _ _ _ => ⟨hd, hd'⟩) ?_ (fun _ _ h => nomatch h)
    (fun _ _ h => nomatch h) (fun _ _ h => nomatch h) fun _ _ _ _ h => nomatch h
  · rw [Turn.owed_idle hidle]
    show (a.mailbox.filterMap ActorMessage.asker).Nodup
    rw [hm]
    exact List.nodup_nil
  · show (t1.actor.mailbox.filterMap ActorMessage.asker).Sublist a.owed
    rw [h.mailbox]
    exact List.sublist_append_right _ _

/-- **Every step keeps the marks in order**, but for a timer that goes off over a dirty child. -/
theorem flags_step (s : System β) (e : Event) (h : Flags (fun j => s.held j = true) [] s)
    (hk : s.KeepsMarks e) :
    Flags (fun j => (s.step env e).held j = true) [] (s.step env e) := by
  cases e with
  | request handle request =>
    simp only [step]
    split
    · rename_i hmem
      exact flags_submit h hmem request
    · exact h
  | release handle =>
    have h0 : Flags (fun j => s.held j = true) [] (s.step env (.release handle)) :=
      ⟨h.up, h.saving, h.answered, h.owes, h.once, h.fresh, h.clean⟩
    refine h0.anti fun p hp => ?_
    rw [held_iff] at hp ⊢
    refine hp.imp_left ?_
    rintro ⟨handle', hm, he⟩
    exact ⟨handle', (List.mem_filter.1 hm).1, he⟩
  | run i =>
    simp only [step]
    split
    · rename_i a ha
      have hacts : Turn.Acts (s.turn i a) ((s.turn i a).run env) := Turn.acts_run _
      have hsaving : ∀ replies responder, (s.turn i a).actor.phase = .saving replies responder →
          (s.turn i a).actor.context.parent ≠ none → (s.turn i a).actor.dirty = true :=
        fun replies responder hp => (h.saving i a replies responder ha hp).1
      rcases hacts.heeds rfl (h.once i a ha) hsaving with hwait | hheeds
      · rw [hwait, commit_turn ha]
        exact h
      · exact h.commit ha hheeds fun path c b hheld hs hc hb hpar hd =>
          up_of_acts h ha hacts hk hheld hs hc hb hpar hd
    · exact h
  | autosave i =>
    refine h.say rfl (fun p msg he => ?_) fun _ _ _ _ he => ?_
    · obtain ⟨-, rfl⟩ := Output.notifyParent.inj he
      rfl
    · cases he
  | halt i =>
    simp only [step]
    split
    · rename_i a ha
      split
      · rename_i hp hm hheld
        refine h.commit ha (heeds_close env hp hm) fun _ _ _ hheld' _ _ _ _ _ => ?_
        rw [hheld] at hheld'
        cases hheld'
      · exact h
    · exact h
  | reopen =>
    simp only [step]
    split
    · rename_i a ha
      have h0 := flags_opened a.context s.world s.localRoot fun j => (step env s .reopen).held j = true
      rw [show step env s .reopen = _ from rfl] at h0
      simp only [step, ha] at h0
      exact ⟨h0.up, h0.saving, h0.answered, h0.owes, h0.once, h0.fresh, h0.clean⟩
    · exact h

omit [DecidableEq β] in
/-- A dirty child has a dirty parent when no message is on its way. -/
theorem Flags.dirty_parent {s : System β} (h : Flags (fun j => s.held j = true) [] s)
    (hq : s.Quiet) {p c : ActorId} (hc : s.Hangs p c) (hd : s.isDirty c = true) :
    s.isDirty p = true := by
  obtain ⟨hheld, a, b, path, ha, hs, hb, hpar, hhandle⟩ := hc
  have hdirty : b.dirty = true := by
    simpa [isDirty, hb] using hd
  rcases h.up p c a b path hheld ha hs hb hpar hhandle hdirty with h1 | h1 | h1
  · simpa [isDirty, ha] using h1
  · unfold DirActor.Marked at h1
    rw [hq a (List.mem_of_getElem? ha)] at h1
    cases h1
  · cases h1

/-- **Dirty marks go up** in every run in which no timer goes off over a dirty child that has not
just told, and no child fails to save. -/
theorem dirty_goes_up (ctx : DirContext ActorId) (w : World β) (r : LocalRoot) (events : List Event)
    (hk : Run.Steps (step env) KeepsMarks (opened ctx w r) events) :
    Run.Always (step env) (fun s => s.Quiet → s.DirtyUp) (opened ctx w r) events := by
  have hinv : Run.Always (step env) (fun s => Flags (fun j => s.held j = true) [] s)
      (opened ctx w r) events :=
    Run.always_of_steps (fun s e h hc => flags_step env s e h hc) (flags_opened ctx w r _) hk
  intro pre hpre hq i j hij
  -- from the dirty directory upwards
  induction hij using Relation.ReflTransGen.head_induction_on with
  | refl => exact id
  | head hc _ ih => exact fun hd => (hinv pre hpre).dirty_parent hq hc (ih hd)

/-! ### A timer that goes off over a dirty child -/

/-- "d" with "d/e" in a new local root and a file in "d/e", with all messages delivered. -/
def putBelow : List Event :=
  [.run 0, .request rootHandle (.createDir "d" false), .run 0, .run 1, .run 0,
    .request rootHandle (.createDir "d/e" false), .run 0, .run 1, .run 2, .run 1, .run 0,
    .request rootHandle (.fileOp "d/e/x" (.put (.new 1 1))), .run 0, .run 1, .run 2, .run 2, .run 1,
    .run 0]

/-- The root saves all three directories, and another file is put into "d/e". -/
def putAgain : List Event :=
  putBelow ++ [.request rootHandle .save, .run 0, .run 1, .run 2, .run 2, .run 1, .run 0,
    .request rootHandle (.fileOp "d/e/y" (.put (.new 2 2))), .run 0, .run 1, .run 2, .run 2, .run 1,
    .run 0]

/-- The timer of "d" goes off while "d/e" is dirty. -/
def timerBelow : List Event := putBelow ++ [.autosave 1, .run 1, .run 0]

def afterEvents (events : List Event) : System Sym :=
  events.foldl (step (symbolic xxh3Short)) newLocal

/-- `c` is open in `p` under a name. -/
def opensAt (s : System Sym) (p c : ActorId) (name : String) : Bool :=
  s.held p && s.actors[p]?.any fun a => !isStopped a && a.handleAt (.path name) = some c &&
    s.actors[c]?.any fun b => b.context.parent = some (.path name, p)

theorem hangs_of_opensAt {s : System Sym} {p c : ActorId} {name : String}
    (h : opensAt s p c name = true) : s.Hangs p c := by
  simp only [opensAt, Bool.and_eq_true, Option.any_eq_true, decide_eq_true_eq] at h
  obtain ⟨hheld, a, ha, ⟨hs, hc⟩, b, hb, hp⟩ := h
  exact ⟨hheld, a, b, .path name, ha, by simpa using hs, hb, hp, hc⟩

theorem dirty_goes_up_saved : (afterEvents putAgain).isDirty 2 = true ∧
    (afterEvents putAgain).isDirty 0 = true := by
  have hd : (afterEvents putAgain).isDirty 2 = true := by decide +kernel
  refine ⟨hd, ?_⟩
  have h01 : (afterEvents putAgain).Hangs 0 1 :=
    hangs_of_opensAt (show opensAt _ 0 1 "d" = true by decide +kernel)
  have h12 : (afterEvents putAgain).Hangs 1 2 :=
    hangs_of_opensAt (show opensAt _ 1 2 "e" = true by decide +kernel)
  refine dirty_goes_up (symbolic xxh3Short) .localRoot _ _ putAgain ?_ putAgain List.prefix_rfl ?_
    0 2 (.head h01 (.single h12)) hd
  · decide +kernel
  · unfold Quiet
    decide +kernel

/-- "d" is clean over the dirty "d/e", which a save of the root then does not reach. -/
theorem timer_hides_dirty :
    (¬ Run.Always (step (symbolic xxh3Short)) (fun s => s.Quiet → s.DirtyUp) newLocal timerBelow) ∧
    (afterEvents (timerBelow ++ [.request rootHandle .save, .run 0, .run 1, .run 0])).isDirty 2 =
      true := by
  refine ⟨fun h => ?_, by decide +kernel⟩
  have h12 : (afterEvents timerBelow).Hangs 1 2 :=
    hangs_of_opensAt (show opensAt _ 1 2 "e" = true by decide +kernel)
  have hup := h timerBelow List.prefix_rfl (by unfold Quiet; decide +kernel) 1 2 (.single h12)
    (by decide +kernel)
  revert hup
  decide +kernel

end System

end Fs
