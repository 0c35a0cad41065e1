import S5.Fs.Proof.KeysRun

/-!
# What a turn does for others to see

A stretch of a turn in which an actor opens children, marks itself and sends plain messages
(`Turn.Stirs`): it gets new handles only of actors it has just spawned, and when it becomes dirty it
tells its parent. Every turn is such a stretch but for saving, which may also report a hash, answer
who asked and clear the mark (`Turn.Acts`, `Turn.acts_run`, `Turn.stirs_close`).
-/

open Std

namespace Fs

/-- Where in which directory a directory hangs by its hash. -/
def DirContext.parent (ctx : DirContext ActorId) : Option (DirHandlePath × ActorId) :=
  match ctx.link with
  | .dirHandle path p _ _ => some (path, p)
  | _ => none

/-- Phases between a message and the next, or in the middle of one that is no save. -/
def Phase.isCalm : Phase → Bool
  | .starting _ => false
  | .saving _ _ => false
  | .stopped => false
  | _ => true

/-- An output that neither asks to save, nor reports a hash, nor answers a save, nor hands out a
handle. -/
def Output.Plain : Output → Prop
  | .send _ (.saveIfDirty _) => False
  | .send _ (.updateDirRefHash _ _) => False
  | .notifyParent _ msg => msg = .markAsDirty
  | .subdir _ _ (.ok _) => False
  | .saved _ _ => False
  | _ => True

namespace Turn

variable {β : Type}

structure Stirs (t t' : Turn β) : Prop where
  self : t'.self = t.self
  parent : t'.actor.context.parent = t.actor.context.parent
  mailbox : t'.actor.mailbox = t.actor.mailbox
  fresh : t.fresh ≤ t'.fresh
  spawned : ∃ new, t'.spawned = t.spawned ++ new ∧ ∀ b ∈ new, ∃ ctx initial, b = .new ctx initial
  handles : ∀ path c, t'.actor.handleAt path = some c →
    t.actor.handleAt path = some c ∨ t.fresh ≤ c
  registry : ∀ (k : Bytes32) (c : ActorId), t'.registryDirHandles[k]? = some c →
    t.registryDirHandles[k]? = some c ∨ t.fresh ≤ c
  phase : t'.actor.phase = t.actor.phase ∨ t'.actor.phase.isCalm = true
  out : ∃ new, t'.out = t.out ++ new ∧ ∀ o ∈ new, o.Plain
  dirty : t.actor.dirty = true → t'.actor.dirty = true
  told : t.actor.dirty = false → t'.actor.dirty = true → ∀ path p,
    t'.actor.context.parent = some (path, p) → .notifyParent p .markAsDirty ∈ t'.out

variable {t t' t'' : Turn β}

theorem Stirs.refl (t : Turn β) : Stirs t t where
  self := rfl
  parent := rfl
  mailbox := rfl
  fresh := Nat.le_refl _
  spawned := ⟨[], by simp⟩
  handles _ _ := .inl
  registry _ _ := .inl
  phase := .inl rfl
  out := ⟨[], by simp⟩
  dirty := id
  told h h' := absurd (h.symm.trans h') (by decide)

theorem Stirs.trans (h : Stirs t t') (h' : Stirs t' t'') : Stirs t t'' where
  self := h'.self.trans h.self
  parent := h'.parent.trans h.parent
  mailbox := h'.mailbox.trans h.mailbox
  fresh := Nat.le_trans h.fresh h'.fresh
  spawned := by
    obtain ⟨n, hn, hb⟩ := h.spawned
    obtain ⟨n', hn', hb'⟩ := h'.spawned
    refine ⟨n ++ n', by rw [hn', hn, List.append_assoc], fun b hm => ?_⟩
    rcases List.mem_append.1 hm with hm | hm
    · exact hb b hm
    · exact hb' b hm
  handles path c hc := by
    rcases h'.handles path c hc with hc | hc
    · exact h.handles path c hc
    · exact .inr (Nat.le_trans h.fresh hc)
  registry k c hc := by
    rcases h'.registry k c hc with hc | hc
    · exact h.registry k c hc
    · exact .inr (Nat.le_trans h.fresh hc)
  phase := by
    rcases h'.phase with hp | hp
    · rw [hp]
      exact h.phase
    · exact .inr hp
  out := by
    obtain ⟨n, hn, ho⟩ := h.out
    obtain ⟨n', hn', ho'⟩ := h'.out
    refine ⟨n ++ n', by rw [hn', hn, List.append_assoc], fun o hm => ?_⟩
    rcases List.mem_append.1 hm with hm | hm
    · exact ho o hm
    · exact ho' o hm
  dirty hd := h'.dirty (h.dirty hd)
  told hd hd'' path p hp := by
    cases hd' : t'.actor.dirty with
    | false => exact h'.told hd' hd'' path p hp
    | true =>
      obtain ⟨n, hn, -⟩ := h'.out
      rw [hn]
      exact List.mem_append_left _ (h.told hd hd' path p (h'.parent ▸ hp))

/-- Neither the handles nor the mark of the actor change, and it says only plain things. -/
theorem Stirs.of_eq (new : List Output) (hself : t'.self = t.self) (hfresh : t'.fresh = t.fresh)
    (hsp : t'.spawned = t.spawned) (hreg : t'.registryDirHandles = t.registryDirHandles)
    (hc : t'.actor.context.parent = t.actor.context.parent)
    (hm : t'.actor.mailbox = t.actor.mailbox) (hd : t'.actor.dirHandles = t.actor.dirHandles)
    (hs : t'.actor.dirShardHandles = t.actor.dirShardHandles)
    (hdirty : t'.actor.dirty = t.actor.dirty)
    (hp : t'.actor.phase = t.actor.phase ∨ t'.actor.phase.isCalm = true)
    (hout : t'.out = t.out ++ new) (ho : ∀ o ∈ new, o.Plain) : Stirs t t' where
  self := hself
  parent := hc
  mailbox := hm
  fresh := by rw [hfresh]
  spawned := ⟨[], by simp [hsp]⟩
  handles path c h := by
    left
    cases path with
    | path name =>
      show t.actor.dirHandles[name]? = some c
      rw [← hd]
      exact h
    | shard index =>
      show t.actor.dirShardHandles[index]? = some c
      rw [← hs]
      exact h
  registry k c h := by
    left
    rw [← hreg]
    exact h
  phase := hp
  out := ⟨new, hout, ho⟩
  dirty h := by rw [hdirty, h]
  told h h' := by
    rw [hdirty, h] at h'
    cases h'

theorem stirs_emit (t : Turn β) {o : Output} (ho : o.Plain) : Stirs t (t.emit o) :=
  .of_eq [o] rfl rfl rfl rfl rfl rfl rfl rfl rfl (.inl rfl) rfl (by simpa using ho)

theorem stirs_enter (t : Turn β) {phase : Phase} (h : phase.isCalm = true) :
    Stirs t (t.enter phase) :=
  .of_eq [] rfl rfl rfl rfl rfl rfl rfl rfl rfl (.inr h) (by simp [enter]) (List.forall_mem_nil _)

/-- The directory, the world and what lies beside it change. -/
theorem stirs_actor (t : Turn β) {a : DirActor} {w : World β} {r : LocalRoot}
    (hc : a.context.parent = t.actor.context.parent) (hm : a.mailbox = t.actor.mailbox)
    (hd : a.dirHandles = t.actor.dirHandles) (hs : a.dirShardHandles = t.actor.dirShardHandles)
    (hdirty : a.dirty = t.actor.dirty)
    (hp : a.phase = t.actor.phase ∨ a.phase.isCalm = true) :
    Stirs t { t with actor := a, world := w, localRoot := r } :=
  .of_eq [] rfl rfl rfl rfl hc hm hd hs hdirty hp (by simp) (List.forall_mem_nil _)

theorem stirs_world (t : Turn β) (w : World β) : Stirs t { t with world := w } :=
  .of_eq [] rfl rfl rfl rfl rfl rfl rfl rfl rfl (.inl rfl) (by simp) (List.forall_mem_nil _)

theorem stirs_markAsDirty (t : Turn β) : Stirs t t.markAsDirty where
  self := rfl
  parent := rfl
  mailbox := rfl
  fresh := Nat.le_refl _
  spawned := ⟨[], by simp [markAsDirty]⟩
  handles path c h := by
    left
    cases path <;> exact h
  registry _ _ := .inl
  phase := .inl rfl
  out := by
    unfold markAsDirty
    dsimp only
    split
    · exact ⟨_, rfl, by simp [Output.Plain]⟩
    · exact ⟨[], by simp⟩
  dirty _ := rfl
  told h _ path p hp := by
    have hlink : ∃ hash level, t.actor.context.link = .dirHandle path p hash level := by
      have hp' : t.actor.context.parent = some (path, p) := hp
      unfold DirContext.parent at hp'
      split at hp'
      · obtain ⟨rfl, rfl⟩ := Prod.mk.inj (Option.some.inj hp')
        exact ⟨_, _, by assumption⟩
      · cases hp'
    obtain ⟨hash, level, hlink⟩ := hlink
    simp [markAsDirty, h, hlink]

/-! ## Opening children -/

/-- A child is spawned and its handle kept at a place. -/
theorem stirs_spawn (t : Turn β) (ctx : DirContext ActorId) (initial : Option DirV1) {a : DirActor}
    {regs : ExtTreeMap Bytes32 ActorId} {at' : DirHandlePath}
    (hc : a.context = t.actor.context) (hm : a.mailbox = t.actor.mailbox)
    (hdirty : a.dirty = t.actor.dirty) (hp : a.phase = t.actor.phase)
    (hh : ∀ path, a.handleAt path = if path = at' then some t.fresh else t.actor.handleAt path)
    (hreg : ∀ (k : Bytes32) (c : ActorId), regs[k]? = some c → t.registryDirHandles[k]? = some c ∨ c = t.fresh) :
    Stirs t { t.spawn ctx initial with actor := a, registryDirHandles := regs } where
  self := rfl
  parent := by rw [hc]
  mailbox := hm
  fresh := Nat.le_succ _
  spawned := ⟨[.new ctx initial], rfl, fun b hb => ⟨ctx, initial, List.mem_singleton.1 hb⟩⟩
  handles path c h := by
    have h' : a.handleAt path = some c := h
    rw [hh] at h'
    split at h'
    · exact .inr (Nat.le_of_eq (Option.some.inj h'))
    · exact .inl h'
  registry k c h := (hreg k c h).imp_right fun he => Nat.le_of_eq he.symm
  phase := .inl hp
  out := ⟨[], by simp [spawn]⟩
  dirty h := hdirty.trans h
  told h h' := by
    have hd : a.dirty = true := h'
    rw [hdirty, h] at hd
    cases hd

theorem stirs_openDir (t : Turn β) (name : String) (initial : Option DirV1) :
    Stirs t (t.openDir name initial).1 := by
  unfold openDir
  split
  · exact .refl t
  · split
    · exact .refl t
    · rename_i dirRef _
      dsimp only
      split
      · exact stirs_spawn t _ initial rfl rfl rfl rfl (handleAt_insert_dir t.actor name t.fresh)
          fun _ _ => .inl
      · split
        · exact .refl t
        · refine stirs_spawn t _ initial rfl rfl rfl rfl (handleAt_insert_dir t.actor name t.fresh)
            fun k c h => ?_
          rw [ExtTreeMap.getElem?_insert] at h
          split at h
          · exact .inr (Option.some.inj h).symm
          · exact .inl h

theorem stirs_openDirShard (t : Turn β) (index : UInt8) : Stirs t (t.openDirShard index).1 := by
  unfold openDirShard
  split
  · exact .refl t
  · split
    · exact .refl t
    · exact stirs_spawn t _ none rfl rfl rfl rfl (handleAt_insert_shard t.actor index t.fresh)
        fun _ _ => .inl

/-- The actor has the handle, or the handle is that of a published directory. -/
def HasHandle (t : Turn β) (c : ActorId) : Prop :=
  (∃ path, t.actor.handleAt path = some c) ∨ ∃ k : Bytes32, t.registryDirHandles[k]? = some c

theorem openDir_hasHandle {name : String} {initial : Option DirV1} {c : ActorId}
    (h : t.openDir name initial = (t', .ok c)) : t'.HasHandle c := by
  unfold openDir at h
  split at h
  · rename_i child hh
    obtain ⟨rfl, he⟩ := Prod.mk.inj h
    obtain rfl := Except.ok.inj he
    exact .inl ⟨.path name, hh⟩
  · split at h
    · exact nomatch (Prod.mk.inj h).2
    · dsimp only at h
      split at h
      · obtain ⟨rfl, he⟩ := Prod.mk.inj h
        obtain rfl := Except.ok.inj he
        exact .inl ⟨.path name, by simp [DirActor.handleAt]⟩
      · split at h
        · rename_i hk
          obtain ⟨rfl, he⟩ := Prod.mk.inj h
          obtain rfl := Except.ok.inj he
          exact .inr ⟨_, hk⟩
        · obtain ⟨rfl, he⟩ := Prod.mk.inj h
          obtain rfl := Except.ok.inj he
          exact .inl ⟨.path name, by simp [DirActor.handleAt]⟩

theorem openDirShard_hasHandle {index : UInt8} {c : ActorId}
    (h : t.openDirShard index = (t', .ok c)) : t'.HasHandle c := by
  unfold openDirShard at h
  split at h
  · rename_i child hh
    obtain ⟨rfl, he⟩ := Prod.mk.inj h
    obtain rfl := Except.ok.inj he
    exact .inl ⟨.shard index, hh⟩
  · split at h
    · exact nomatch (Prod.mk.inj h).2
    · obtain ⟨rfl, he⟩ := Prod.mk.inj h
      obtain rfl := Except.ok.inj he
      exact .inl ⟨.shard index, by simp [DirActor.handleAt]⟩

variable (env : Env β)

theorem stirs_routeToChild (t : Turn β) (path : String) :
    Stirs t (t.routeToChild env path).1 := by
  unfold routeToChild
  split
  · exact .refl t
  · exact .refl t
  · rename_i index _
    have h := stirs_openDirShard t index
    generalize t.openDirShard index = r at h ⊢
    rcases r with ⟨t', e | child⟩ <;> exact h
  · rename_i name rest _
    have h := stirs_openDir t name none
    generalize t.openDir name none = r at h ⊢
    rcases r with ⟨t', e | child⟩ <;> exact h

variable {env}

theorem routeToChild_hasHandle {path rest : String} {entered : List String} {c : ActorId}
    (h : t.routeToChild env path = (t', .ok (some (c, rest, entered)))) : t'.HasHandle c := by
  unfold routeToChild at h
  split at h
  · exact nomatch (Prod.mk.inj h).2
  · exact nomatch (Prod.mk.inj h).2
  · split at h
    · exact nomatch (Prod.mk.inj h).2
    · rename_i ho
      obtain ⟨rfl, he⟩ := Prod.mk.inj h
      obtain ⟨rfl, -⟩ := Prod.mk.inj (Option.some.inj (Except.ok.inj he))
      exact openDirShard_hasHandle ho
  · split at h
    · exact nomatch (Prod.mk.inj h).2
    · rename_i ho
      obtain ⟨rfl, he⟩ := Prod.mk.inj h
      obtain ⟨rfl, -⟩ := Prod.mk.inj (Option.some.inj (Except.ok.inj he))
      exact openDir_hasHandle ho

/-! ## Changing the directory -/

/-- A new reference is put in and its child opened. -/
theorem stirs_newDir (t : Turn β) {w : World β} (state : DirV1) (name : String)
    (initial : Option DirV1) :
    Stirs t (openDir { t with world := w, actor.state := state } name initial).1 := by
  have h : Stirs t { t with world := w, actor.state := state } :=
    stirs_actor t rfl rfl rfl rfl rfl (.inl rfl)
  exact h.trans (stirs_openDir _ name initial)

theorem stirs_createDirAt (t : Turn β) (path : String) (enableEncryption : Bool) :
    Stirs t (t.createDirAt env path enableEncryption).1 := by
  unfold createDirAt
  split
  · exact .refl t
  · dsimp only
    generalize buildChildDirRef env t.actor.context enableEncryption t.world = r
    obtain ⟨w, dirRef⟩ := r
    have h : Stirs t (openDir { t with
        world := w
        actor.state := { (extractChildDirState t.actor.state path).1 with
          dirs := (extractChildDirState t.actor.state path).1.dirs.insert path dirRef } } path
        (some (extractChildDirState t.actor.state path).2)).1 := stirs_newDir t _ path _
    dsimp only
    generalize openDir _ path _ = r at h ⊢
    rcases r with ⟨t', e | c⟩
    · exact h
    · exact h.trans (stirs_markAsDirty t')

section
variable [DecidableEq β]

theorem stirs_promotePrefix (t : Turn β) (dir : String) :
    Stirs t (t.promotePrefix env dir).1 := by
  unfold promotePrefix
  split
  · exact .refl t
  · dsimp only
    generalize buildChildDirRef env t.actor.context t.actor.context.encryptionType.isSome t.world = r
    obtain ⟨w, dirRef⟩ := r
    dsimp only
    generalize optimizeDirStructure env t.actor.context
      (extractChildDirState t.actor.state dir).2 w = r
    rcases r with ⟨w', e | optimized⟩
    · exact stirs_actor t rfl rfl rfl rfl rfl (.inl rfl)
    · have h : Stirs t (openDir { t with
          world := w'
          actor.state := { (extractChildDirState t.actor.state dir).1 with
            dirs := (extractChildDirState t.actor.state dir).1.dirs.insert dir dirRef } } dir
          (some optimized)).1 := stirs_newDir t _ dir _
      dsimp only
      generalize openDir _ dir _ = r at h ⊢
      rcases r with ⟨t', e | c⟩ <;> exact h

theorem stirs_checkAutoPromote (t : Turn β) (path : String) :
    Stirs t (t.checkAutoPromote env path).1 := by
  unfold checkAutoPromote
  split
  · exact .refl t
  · split
    · exact stirs_promotePrefix t _
    · exact .refl t

end

theorem updateHash_eq {a a' : DirActor} {path : DirHandlePath} {h : Hash}
    (hu : updateHash a path h = some a') : ∃ state, a' = { a with state := state } := by
  obtain ⟨-, state, -, rfl, -⟩ := updateHash_some hu
  exact ⟨state, rfl⟩

/-- Taking over the hashes of saved children changes the directory and may mark it. -/
theorem takeReplies_eq : ∀ (rs : List (DirHandlePath × Option (Except String (Option Hash))))
    (a : DirActor), ∃ state dirty, rs.foldl takeReply a = { a with state := state, dirty := dirty } ∧
      (a.dirty = true → dirty = true)
  | [], a => ⟨a.state, a.dirty, rfl, id⟩
  | r :: rs, a => by
    obtain ⟨state, dirty, hr, hd⟩ := takeReplies_eq rs (takeReply a r)
    have h1 : ∃ state dirty, takeReply a r = { a with state := state, dirty := dirty } ∧
        (a.dirty = true → dirty = true) := by
      unfold takeReply
      split
      · split
        · rename_i hu
          obtain ⟨state, rfl⟩ := updateHash_eq hu
          exact ⟨state, true, rfl, fun _ => rfl⟩
        · exact ⟨a.state, a.dirty, rfl, id⟩
      · exact ⟨a.state, a.dirty, rfl, id⟩
    obtain ⟨state1, dirty1, hr1, hd1⟩ := h1
    refine ⟨state, dirty, ?_, fun h => hd ?_⟩
    · rw [List.foldl_cons, hr, hr1]
    · rw [hr1]
      exact hd1 h

/-! ## Saving -/

/-- The actor may have reported its hash to its parent. -/
def Reports (t t' : Turn β) : Prop :=
  t' = t ∨ ∃ path p h, t.actor.context.parent = some (path, p) ∧
    t' = t.emit (.notifyParent p (.updateDirRefHash path h))

theorem stirs_moveHead (t : Turn β) (h : Hash) : Stirs t (t.moveHead h) := by
  unfold moveHead
  split
  · exact .refl t
  · exact stirs_actor t rfl rfl rfl rfl rfl (.inl rfl)

section
variable [DecidableEq β]

variable (env) in
theorem persist_parent (ctx : DirContext ActorId) (d : DirV1) (w : World β)
    {ctx' : DirContext ActorId} {hash : Option Hash}
    (h : (persist env ctx d w).2 = .ok (ctx', hash)) : ctx'.parent = ctx.parent := by
  rcases persist_context env ctx d w h with rfl | ⟨k, path, i, h₀, level, hlink, rfl⟩
  · rfl
  · simp [DirContext.parent, hlink]

variable (env) in
theorem save_stirs (t : Turn β) (notify : Bool) :
    ∃ t1, Stirs t t1 ∧ Reports t1 (t.save env notify).1 ∧
      (notify = false → (t.save env notify).1 = t1) := by
  have hctx := fun ctx hash (h : _ = Except.ok (ctx, hash)) =>
    persist_parent env t.actor.context t.actor.state t.world h
  unfold save
  generalize persist env t.actor.context t.actor.state t.world = r at hctx
  rcases r with ⟨w, e | ⟨ctx, hash⟩⟩
  · exact ⟨_, stirs_world t w, .inl rfl, fun _ => rfl⟩
  · have h1 : Stirs t { t with world := w, actor.context := ctx } :=
      stirs_actor t (hctx ctx hash rfl) rfl rfl rfl rfl (.inl rfl)
    dsimp only
    split
    · split
      · rename_i bytes _
        have h2 := h1.trans (stirs_moveHead _ (env.blake3 bytes))
        refine ⟨_, h2.trans (stirs_actor _ rfl rfl rfl rfl rfl (.inl rfl)), .inl rfl, fun _ => rfl⟩
      · exact ⟨_, h1, .inl rfl, fun _ => rfl⟩
    · rename_i path parent _ _ hlink
      split
      · refine ⟨_, h1, .inr ⟨path, parent, _, ?_, rfl⟩, nofun⟩
        show ctx.parent = some (path, parent)
        simp [DirContext.parent, hlink]
      · exact ⟨_, h1, .inl rfl, fun _ => rfl⟩
    · exact ⟨_, h1, .inl rfl, fun _ => rfl⟩

theorem stirs_shardBuckets (level : UInt8) (old : DirV1) : ∀ (is : List UInt8) (t : Turn β),
    Stirs t (shardBuckets env level old is t).1
  | [], t => .refl t
  | index :: rest, t => by
    unfold shardBuckets
    dsimp only
    split
    · exact stirs_shardBuckets level old rest t
    · generalize encodeChildDirBytes env t.actor.context (shardState env old level index) t.world = r
      obtain ⟨w1, bytes, keys⟩ := r
      dsimp only
      generalize w1.importBytes env bytes = r
      rcases r with ⟨w2, e | h⟩
      · exact stirs_actor t rfl rfl rfl rfl rfl (.inl rfl)
      · dsimp only
        set t2 : Turn β := { t with
          world := w2
          actor.state.header.shards := some ((t.actor.state.header.shards.getD ∅).insert index
            (storedDirRef t.actor.context h keys (env.utcNow t.world.tick))) } with ht2
        have h2 : Stirs t t2 := stirs_actor t rfl rfl rfl rfl rfl (.inl rfl)
        have h3 := h2.trans (stirs_openDirShard t2 index)
        generalize t2.openDirShard index = r at h3 ⊢
        rcases r with ⟨t3, e | c⟩
        · exact h3
        · exact h3.trans (stirs_shardBuckets level old rest t3)

theorem stirs_shard (t : Turn β) : Stirs t (t.shard env).1 := by
  obtain ⟨level, r, hr, hshard⟩ := shard_cases env t
  have h0 : Stirs t { t with actor.state.header.shardLevel := some level } :=
    stirs_actor t rfl rfl rfl rfl rfl (.inl rfl)
  have h1 : Stirs t r.1 := by
    rw [← hr]
    exact h0.trans (stirs_shardBuckets level _ _ _)
  rcases hshard with hshard | hshard
  · rw [hshard]
    exact h1
  · rw [hshard]
    exact h1.trans (stirs_actor _ rfl rfl rfl rfl rfl (.inl rfl))

theorem stirs_shardIfNeeded (t : Turn β) : Stirs t (t.shardIfNeeded env).1 := by
  unfold shardIfNeeded
  split
  · exact .refl t
  · split
    · exact .refl t
    · have h0 : Stirs t { t with
          actor.lastSerializedLen := env.len (env.toBytes t.actor.state)
          actor.shardSizeCheckOps := 0 } := stirs_actor t rfl rfl rfl rfl rfl (.inl rfl)
      dsimp only
      split
      · exact h0.trans (stirs_shard _)
      · exact h0

end

/-! ## Merging -/

theorem stirs_mergeHeader (t : Turn β) (remote : DirHeader) : Stirs t (t.mergeHeader remote) :=
  stirs_actor t rfl rfl rfl rfl rfl (.inl rfl)

/-- Handles are dropped, and none is new. -/
theorem stirs_mergeLocal (t : Turn β) (snapshot : DirV1) : Stirs t (t.mergeLocal snapshot) where
  self := rfl
  parent := rfl
  mailbox := rfl
  fresh := Nat.le_refl _
  spawned := ⟨[], by simp [mergeLocal]⟩
  handles path c h := by
    left
    cases path with
    | shard index => exact h
    | path name =>
      have h' : (t.actor.dirHandles.filter fun n _ =>
          n ∉ (mergeEntriesLocal t.actor.state snapshot.dirs snapshot.files).dropped)[name]? =
            some c := h
      rw [ExtTreeMap.getElem?_filter'] at h'
      exact (Option.filter_eq_some_iff.1 h').1
  registry _ _ := .inl
  phase := .inl rfl
  out := ⟨[], by simp [mergeLocal]⟩
  dirty := id
  told h h' := absurd (h.symm.trans h') (by decide)

theorem stirs_mergeNext (level : UInt8) (snapshot : DirV1) (responder : Responder) :
    ∀ (is : List UInt8) (t : Turn β), Stirs t (t.mergeNext env level snapshot responder is)
  | [], t => by
    unfold mergeNext
    have h := (stirs_mergeHeader t snapshot.header).trans (stirs_markAsDirty _)
    exact (h.trans (stirs_enter _ rfl)).trans (stirs_emit _ trivial)
  | index :: rest, t => by
    unfold mergeNext
    dsimp only
    split
    · exact stirs_mergeNext level snapshot responder rest t
    · split
      · exact stirs_mergeNext level snapshot responder rest t
      · have h := stirs_openDirShard t index
        generalize t.openDirShard index = r at h ⊢
        rcases r with ⟨t', e | c⟩
        · exact (h.trans (stirs_enter _ rfl)).trans (stirs_emit _ trivial)
        · exact (h.trans (stirs_enter _ rfl)).trans (stirs_emit _ trivial)

theorem stirs_mergeSnapshot (t : Turn β) (snapshot : DirV1) (responder : Responder) :
    Stirs t (t.mergeSnapshot env snapshot responder) := by
  unfold mergeSnapshot
  split
  · have h := (stirs_mergeLocal t snapshot).trans (stirs_mergeHeader _ snapshot.header)
    exact (h.trans (stirs_markAsDirty _)).trans (stirs_emit _ trivial)
  · split
    · exact stirs_emit _ trivial
    · exact stirs_mergeNext _ _ _ _ t

/-! ## Messages -/

section
variable [DecidableEq β]

theorem stirs_exportSnapshotHash (t : Turn β) : Stirs t (t.exportSnapshotHash env).1 := by
  unfold exportSnapshotHash
  repeat' split
  all_goals exact stirs_world t _

theorem stirs_createSnapshot (t : Turn β) (request : Nat) :
    Stirs t (t.createSnapshot env request) := by
  unfold createSnapshot
  split
  · have h : Stirs t (t.exportSnapshotHash env).1 := stirs_exportSnapshotHash t
    generalize t.exportSnapshotHash env = r at h ⊢
    rcases r with ⟨t', e | k⟩
    · exact h.trans (stirs_emit _ trivial)
    · dsimp only
      have h1 := h.trans (stirs_actor t' (w := t'.world.next) (r := t'.localRoot)
        (a := { t'.actor with currentHash := some k }) rfl rfl rfl rfl rfl (.inl rfl))
      split
      · exact h1.trans (stirs_enter _ rfl)
      · exact h1.trans ((stirs_actor _ rfl rfl rfl rfl rfl (.inl rfl)).trans (stirs_emit _ trivial))
  · exact stirs_emit _ trivial

omit [DecidableEq β] in
theorem stirs_deleteSnapshot (t : Turn β) (name : String) (request : Nat) :
    Stirs t (t.deleteSnapshot name request) := by
  unfold deleteSnapshot
  split
  · split
    · exact stirs_emit _ trivial
    · exact (stirs_actor t rfl rfl rfl rfl rfl (.inl rfl)).trans (stirs_emit _ trivial)
  · exact stirs_emit _ trivial

omit [DecidableEq β] in
theorem stirs_pathOp (t : Turn β) (path : String) (op : ActorMessageOp) :
    Stirs t (t.pathOp env path op) := by
  unfold pathOp
  have h := stirs_routeToChild env t path
  generalize t.routeToChild env path = r at h ⊢
  rcases r with ⟨t', e | (_ | ⟨child, rest, entered⟩)⟩
  · exact h
  · dsimp only at h ⊢
    split
    · refine h.trans (Stirs.trans ?_ (stirs_emit _ trivial))
      exact stirs_actor t' rfl rfl rfl rfl rfl (.inr rfl)
    · rename_i enable request
      have h1 : Stirs t' (t'.createDirAt env path enable).1 := stirs_createDirAt t' path enable
      generalize t'.createDirAt env path enable = r at h1 ⊢
      obtain ⟨t2, result⟩ := r
      exact (h.trans h1).trans (stirs_emit _ trivial)
  · exact h.trans (stirs_emit _ trivial)

theorem stirs_finishFileOp (t : Turn β) (path : String) (stored : Bool) :
    Stirs t (t.finishFileOp env path stored) := by
  unfold finishFileOp
  have h0 : Stirs t (t.enter .idle) := stirs_enter t rfl
  dsimp only
  split
  · have h1 : Stirs t ((t.enter .idle).checkAutoPromote env path).1 :=
      h0.trans (stirs_checkAutoPromote _ path)
    generalize (t.enter .idle).checkAutoPromote env path = r at h1 ⊢
    rcases r with ⟨t', e | u⟩
    · exact h1
    · exact h1.trans (stirs_markAsDirty t')
  · exact h0.trans (stirs_markAsDirty _)

end

/-! ## Turns -/

/-- A message is taken out of the mailbox. -/
def take (t : Turn β) (rest : List ActorMessage) : Turn β := { t with actor.mailbox := rest }

/-- The children are asked to save. -/
def askChildren (t : Turn β) (responder : Responder) : Turn β :=
  { t with
    actor.phase := .saving ((children t.actor).map fun (path, _) => (path, none)) responder
    out := t.out ++ (children t.actor).map fun (path, child) =>
      .send child (.saveIfDirty (.parent t.self path)) }

/-- What a turn can do. -/
inductive Acts (t t' : Turn β) : Prop where
  | waits (h : t' = t)
  | goesOn (hp : t.actor.phase.isCalm = true) (h : Stirs t t')
  | handles (msg : ActorMessage) (rest : List ActorMessage) (hp : t.actor.phase = .idle)
      (hm : t.actor.mailbox = msg :: rest) (hs : ∀ responder, msg ≠ .saveIfDirty responder)
      (h : Stirs (t.take rest) t') (hd : msg = .markAsDirty → t'.actor.dirty = true)
  | opens (t1 : Turn β) (base waiting request path rest : _) (name : List String) (c : ActorId)
      (hp : t.actor.phase = .idle)
      (hm : t.actor.mailbox = .openSubdir base path waiting request :: rest)
      (h : Stirs (t.take rest) t1) (hc : t1.HasHandle c)
      (ht : t' = t1.emit (.subdir waiting request (.ok (name, c))))
  | asks (t1 : Turn β) (responder : Responder) (rest : List ActorMessage)
      (hp : t.actor.phase = .idle) (hm : t.actor.mailbox = .saveIfDirty responder :: rest)
      (hd : t.actor.dirty = true ∨ t.actor.context.parent = none) (h : Stirs (t.take rest) t1)
      (ht : t' = t1.askChildren responder)
  | answers (t1 : Turn β) (responder : Responder) (rest : List ActorMessage)
      (r : Except String (Option Hash)) (hp : t.actor.phase = .idle)
      (hm : t.actor.mailbox = .saveIfDirty responder :: rest) (h : Stirs (t.take rest) t1)
      (hr : ∀ k, r = .ok k → t1.actor.dirty = false) (ht : t' = t1.emit (.saved responder r))
  | finishes (t1 : Turn β) (replies : _) (responder : Responder)
      (r : Except String (Option Hash)) (state : DirV1) (dirty d : Bool)
      (hp : t.actor.phase = .saving replies responder)
      (hall : replies.all (·.2.isSome) = true) (hd : t.actor.dirty = true → dirty = true)
      (h : Stirs { t with
        actor.state := state, actor.dirty := dirty, actor.phase := .idle } t1)
      (ht : t' = { t1 with actor.dirty := d }.emit (.saved responder r))
      (hr : ∀ k, r = .ok k → d = false) (hd' : d = true → dirty = true)
  | autosaves (t1 t2 : Turn β) (rest : List ActorMessage) (d : Bool) (hp : t.actor.phase = .idle)
      (hm : t.actor.mailbox = .autosaveTick :: rest) (hd : t.actor.dirty = true)
      (h : Stirs (t.take rest) t1) (hr : Reports t1 t2) (ht : t' = { t2 with actor.dirty := d })
  | starts (t1 : Turn β) (initial : Option DirV1) (hp : t.actor.phase = .starting initial)
      (h : Stirs t t1) (hidle : t1.actor.phase = .idle) (hr : Reports t1 t')
      (hi : initial = none → t' = t1)
  | fails (hp : t.actor.phase = .starting none) (ht : t' = { t with
        actor.mailbox := [], actor.phase := .stopped
        out := t.out ++ t.actor.mailbox.flatMap dropped })

/-- Whether a message is neither a question to save nor a mark. -/
def isOther : ActorMessage → Bool
  | .saveIfDirty _ => false
  | .markAsDirty => false
  | _ => true

theorem acts_handles {msg : ActorMessage} {rest : List ActorMessage} (hp : t.actor.phase = .idle)
    (hm : t.actor.mailbox = msg :: rest) (hmsg : isOther msg = true) (h : Stirs (t.take rest) t') :
    Acts t t' := by
  refine .handles msg rest hp hm (fun responder he => ?_) h fun he => ?_
  · rw [he] at hmsg
    cases hmsg
  · rw [he] at hmsg
    cases hmsg

theorem isRoot_iff : t.isRoot = true ↔ t.actor.context.parent = none := by
  unfold isRoot DirContext.parent
  split <;> simp_all

theorem acts_enterSubdir {base name waiting request path rest : _} {c : ActorId} {below : String}
    {t1 : Turn β} (hp : t.actor.phase = .idle)
    (hm : t.actor.mailbox = .openSubdir base path waiting request :: rest)
    (h : Stirs (t.take rest) t1) (hc : t1.HasHandle c) :
    Acts t (t1.enterSubdir name c below waiting request) := by
  unfold enterSubdir
  split
  · exact .opens t1 base waiting request path rest name c hp hm h hc rfl
  · exact acts_handles hp hm rfl ((h.trans (stirs_enter t1 rfl)).trans (stirs_emit _ trivial))

theorem acts_openSubdir {base : List String} {path : String} {waiting : List ActorId} {request : Nat}
    {rest : List ActorMessage} (hp : t.actor.phase = .idle)
    (hm : t.actor.mailbox = .openSubdir base path waiting request :: rest) :
    Acts t ((t.take rest).openSubdir env base path waiting request) := by
  have hfail : ∀ {t1 : Turn β} {e : String}, Stirs (t.take rest) t1 →
      Acts t (t1.emit (.subdir waiting request (.error e))) := fun h =>
    acts_handles hp hm rfl (h.trans (stirs_emit _ trivial))
  unfold openSubdir
  have h := stirs_routeToChild env (t.take rest) path
  have hhas := fun c r n t' (h : (t.take rest).routeToChild env path = (t', .ok (some (c, r, n)))) =>
    routeToChild_hasHandle h
  generalize (t.take rest).routeToChild env path = r at h hhas ⊢
  rcases r with ⟨t1, e | (_ | ⟨child, below, entered⟩)⟩
  · exact hfail h
  · dsimp only at h ⊢
    generalize hcreated : (if (splitPath path).1 ∈ t1.actor.state.dirs then (t1, Except.ok ()) else
      t1.createDirAt env (splitPath path).1 t1.actor.context.encryptionType.isSome) = created
    have h1 : Stirs (t.take rest) created.1 := by
      rw [← hcreated]
      split
      · exact h
      · exact h.trans (stirs_createDirAt t1 _ _)
    obtain ⟨t2, e | u⟩ := created
    · exact hfail h1
    · dsimp only at h1 ⊢
      have h2 := h1.trans (stirs_openDir t2 (splitPath path).1 none)
      have hhas := fun c t' (h : t2.openDir (splitPath path).1 none = (t', .ok c)) =>
        openDir_hasHandle h
      generalize t2.openDir (splitPath path).1 none = r at h2 hhas ⊢
      rcases r with ⟨t3, e | c⟩
      · exact hfail h2
      · exact acts_enterSubdir hp hm h2 (hhas c t3 rfl)
  · exact acts_enterSubdir hp hm h (hhas child below entered t1 rfl)

section
variable [DecidableEq β]

theorem acts_saveIfDirty {responder : Responder} {rest : List ActorMessage}
    (hp : t.actor.phase = .idle) (hm : t.actor.mailbox = .saveIfDirty responder :: rest) :
    Acts t ((t.take rest).saveIfDirty env responder) := by
  unfold saveIfDirty
  split
  · rename_i hcond
    have hd : t.actor.dirty = true ∨ t.actor.context.parent = none := by
      rcases Bool.or_eq_true_iff.1 hcond with hd | hr
      · exact .inl hd
      · exact .inr (isRoot_iff.1 hr)
    have h : Stirs (t.take rest) ((t.take rest).shardIfNeeded env).1 := stirs_shardIfNeeded _
    generalize (t.take rest).shardIfNeeded env = r at h ⊢
    rcases r with ⟨t1, e | u⟩
    · exact .answers t1 responder rest (.error e) hp hm h nofun rfl
    · exact .asks t1 responder rest hp hm hd h rfl
  · rename_i hcond
    have hclean : (t.take rest).actor.dirty = false := by
      cases hd : (t.take rest).actor.dirty with
      | false => rfl
      | true => simp [hd] at hcond
    exact .answers _ responder rest (.ok none) hp hm (.refl _) (fun _ _ => hclean) rfl

theorem acts_finishSave {replies : List (DirHandlePath × Option (Except String (Option Hash)))}
    {responder : Responder} (hp : t.actor.phase = .saving replies responder)
    (hall : replies.all (·.2.isSome) = true) : Acts t (t.finishSave env replies responder) := by
  obtain ⟨state, dirty, hfold, hmono⟩ := takeReplies_eq replies t.actor
  set t0 : Turn β := { t with
    actor.state := state, actor.dirty := dirty, actor.phase := .idle } with ht0
  simp only [finishSave, hfold]
  rw [← ht0]
  split
  · rename_i hdirty
    obtain ⟨t1, h1, -, hsaved⟩ := save_stirs env t0 false
    have hsaved := hsaved rfl
    generalize t0.save env false = r at hsaved
    obtain ⟨t2, r⟩ := r
    obtain rfl : t2 = t1 := hsaved
    cases r with
    | error e =>
      exact .finishes t2 replies responder (.error e) state dirty t2.actor.dirty hp hall hmono h1 rfl
        nofun fun _ => hdirty
    | ok k =>
      exact .finishes t2 replies responder (.ok k) state dirty false hp hall hmono h1 rfl
        (fun _ _ => rfl) nofun
  · rename_i hclean
    exact .finishes t0 replies responder (.ok none) state dirty dirty hp hall hmono (.refl _) rfl
      (fun _ _ => by simpa [ht0] using hclean) id

theorem acts_autosaveTick {rest : List ActorMessage} (hp : t.actor.phase = .idle)
    (hm : t.actor.mailbox = .autosaveTick :: rest) : Acts t ((t.take rest).autosaveTick env) := by
  unfold autosaveTick
  split
  · rename_i hd
    have h : Stirs (t.take rest) ((t.take rest).shardIfNeeded env).1 := stirs_shardIfNeeded _
    generalize (t.take rest).shardIfNeeded env = r at h ⊢
    rcases r with ⟨t1, e | u⟩
    · exact .autosaves t1 t1 rest t1.actor.dirty hp hm hd h (.inl rfl) rfl
    · dsimp only
      obtain ⟨t2, h2, hr, -⟩ := save_stirs env t1 true
      generalize t1.save env true = r at hr
      rcases r with ⟨t3, e | k⟩
      · exact .autosaves t2 t3 rest t3.actor.dirty hp hm hd (h.trans h2) hr rfl
      · exact .autosaves t2 t3 rest false hp hm hd (h.trans h2) hr rfl
  · exact acts_handles hp hm rfl (.refl _)

theorem acts_processMsg {msg : ActorMessage} {rest : List ActorMessage}
    (hp : t.actor.phase = .idle) (hm : t.actor.mailbox = msg :: rest) :
    Acts t ((t.take rest).processMsg env msg) := by
  cases msg with
  | pathOp path op => exact acts_handles hp hm rfl (stirs_pathOp _ path op)
  | openSubdir base path waiting request => exact acts_openSubdir hp hm
  | updateDirRefHash path hash =>
    simp only [processMsg]
    split
    · rename_i hu
      obtain ⟨state, rfl⟩ := updateHash_eq hu
      refine acts_handles hp hm rfl (Stirs.trans ?_ (stirs_markAsDirty _))
      exact stirs_actor _ rfl rfl rfl rfl rfl (.inl rfl)
    · exact acts_handles hp hm rfl (.refl _)
  | saveIfDirty responder => exact acts_saveIfDirty hp hm
  | exportSnapshotHash request =>
    have h : Stirs (t.take rest) ((t.take rest).exportSnapshotHash env).1 :=
      stirs_exportSnapshotHash _
    exact acts_handles hp hm rfl (h.trans (stirs_emit _ trivial))
  | createSnapshot request => exact acts_handles hp hm rfl (stirs_createSnapshot _ request)
  | deleteSnapshot name request =>
    exact acts_handles hp hm rfl (stirs_deleteSnapshot _ name request)
  | exportSnapshot request => exact acts_handles hp hm rfl (stirs_emit _ trivial)
  | mergeSnapshot snapshot responder =>
    exact acts_handles hp hm rfl (stirs_mergeSnapshot _ snapshot responder)
  | autosaveTick => exact acts_autosaveTick hp hm
  | markAsDirty =>
    refine .handles _ _ hp hm (fun responder he => ?_) (stirs_markAsDirty _) fun _ => rfl
    cases he

theorem acts_start {initial : Option DirV1} (hp : t.actor.phase = .starting initial) :
    Acts t (t.start env initial) := by
  unfold start
  cases initial with
  | some d =>
    have h0 : Stirs t { t with actor.state := d, actor.phase := .idle } :=
      stirs_actor t rfl rfl rfl rfl rfl (.inr rfl)
    obtain ⟨t1, h1, hr, -⟩ := save_stirs env { t with actor.state := d, actor.phase := .idle } true
    refine .starts t1 (some d) hp (h0.trans h1) ?_ hr nofun
    have hph := (save_forward env { t with actor.state := d, actor.phase := .idle } true).2
    rcases hr with hr | ⟨path, p, h, -, hr⟩
    · rw [hr] at hph
      exact hph
    · rw [hr] at hph
      exact hph
  | none =>
    dsimp only
    split
    · refine .starts _ none hp ?_ rfl (.inl rfl) fun _ => rfl
      exact stirs_actor t rfl rfl rfl rfl rfl (.inr rfl)
    · exact .fails hp rfl

/-- **What a turn does.** -/
theorem acts_run (t : Turn β) : Acts t (t.run env) := by
  unfold run
  split
  · rename_i hp
    exact acts_start hp
  · rename_i hp
    split
    · exact .waits rfl
    · rename_i hm
      exact acts_processMsg hp hm
  · rename_i hp
    exact .goesOn (by rw [hp]; rfl) (stirs_finishFileOp t _ _)
  · exact .waits rfl
  · rename_i hp
    split
    · rename_i hall
      exact acts_finishSave hp hall
    · exact .waits rfl
  · rename_i hp
    have hcalm : t.actor.phase.isCalm = true := by
      rw [hp]
      rfl
    split
    · exact .waits rfl
    · exact .goesOn hcalm ((stirs_enter t rfl).trans (stirs_emit _ trivial))
    · split
      · exact .goesOn hcalm (stirs_mergeNext _ _ _ _ t)
      · exact .waits rfl
  · exact .waits rfl
  · exact .waits rfl

/-- An actor that ends has saved itself without telling. -/
theorem stirs_close (t : Turn β) : ∃ t1, Stirs t t1 ∧ t.close env = t1.enter .stopped := by
  unfold close
  dsimp only
  split
  · obtain ⟨t1, h1, -, hsaved⟩ := save_stirs env (t.shardIfNeeded env).1 false
    rw [hsaved rfl]
    exact ⟨t1, (stirs_shardIfNeeded t).trans h1, rfl⟩
  · exact ⟨t, .refl t, rfl⟩

end

end Turn

end Fs
