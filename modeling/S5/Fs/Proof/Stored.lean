import S5.Fs.Proof.KeysRun

/-!
# Stored directories refer to stored blobs

A directory that is written may refer by hash only to blobs that are in the meta store
(`World.Closed`). A turn keeps that if what it writes has such references only: the directory itself
when it is saved or exported (`Turn.fills_save`, `Turn.fills_exportSnapshotHash`) and when it is split
(`Turn.fills_shardIfNeeded`). In between, the reference of a new subdirectory is a placeholder that
leads nowhere (`World.Nearly`).
-/

open Std

namespace Fs

section
variable {β : Type}

/-- The bytes of a directory are read as that directory or not at all, whatever key is tried. -/
structure Env.Authentic (env : Env β) : Prop where
  plain : ∀ s d d', (unsealed env s (env.toBytes d)).bind env.fromBytes = some d' → d' = d
  sealed : ∀ s key nonce d d',
    (unsealed env s (env.encrypt key nonce (env.toBytes d))).bind env.fromBytes = some d' → d' = d

/-- All blobs that a directory refers to by their hash are stored. -/
def World.Has (w : World β) (d : DirV1) : Prop :=
  ∀ path dirRef h, d.refAt path = some dirRef → dirRef.loc path = .blob h → h ∈ w.store

/-- The same up to subdirectories that wait for their first hash. -/
def World.Nearly (w : World β) (d : DirV1) : Prop :=
  ∀ path dirRef h, d.refAt path = some dirRef → dirRef.loc path = .blob h →
    h ∈ w.store ∨ h = 0 ∧ ∃ name, path = .path name

/-- Whatever is read as a directory, under whatever seal, refers to stored blobs only. -/
structure World.Closed (env : Env β) (w : World β) : Prop where
  store : ∀ (h : Hash) (b : β) s d, w.store[h]? = some b →
    (unsealed env s b).bind env.fromBytes = some d → w.Has d
  rootFile : ∀ b d, w.rootFile = some b → env.fromBytes b = some d → w.Has d

def World.Below (w w' : World β) : Prop := ∀ h : Hash, h ∈ w.store → h ∈ w'.store

variable {env : Env β} {w w' w'' : World β}

theorem World.Below.refl (w : World β) : w.Below w := fun _ h => h

theorem World.Below.trans (h : w.Below w') (h' : w'.Below w'') : w.Below w'' := fun k hk => h' k (h k hk)

theorem World.Has.mono {d : DirV1} (h : w.Has d) (hle : w.Below w') : w'.Has d :=
  fun path dirRef k hr hk => hle k (h path dirRef k hr hk)

theorem World.Nearly.mono {d : DirV1} (h : w.Nearly d) (hle : w.Below w') : w'.Nearly d :=
  fun path dirRef k hr hk => (h path dirRef k hr hk).imp_left (hle k)

theorem World.Has.nearly {d : DirV1} (h : w.Has d) : w.Nearly d :=
  fun path dirRef k hr hk => .inl (h path dirRef k hr hk)

theorem World.has_of_refAt {d : DirV1} (h : ∀ path, d.refAt path = none) : w.Has d := by
  intro path dirRef k hr
  rw [h] at hr
  cases hr

theorem World.has_new : w.Has .new := World.has_of_refAt refAt_new

theorem World.Onward.below (h : w.Onward w') : w.Below w' := by
  intro k hk
  rw [ExtTreeMap.mem_iff_isSome_getElem?] at hk ⊢
  obtain ⟨b, hb⟩ := Option.isSome_iff_exists.1 hk
  rw [h.grows.store k b hb]
  rfl

/-- The world has no other blobs than before. -/
theorem World.Closed.of_eq (h : w.Closed env) (hs : w'.store = w.store)
    (hr : w'.rootFile = w.rootFile) : w'.Closed env := by
  have hle : w.Below w' := by
    intro k hk
    rw [hs]
    exact hk
  refine ⟨fun k b s d hb hd => ?_, fun b d hb hd => ?_⟩
  · rw [hs] at hb
    exact (h.store k b s d hb hd).mono hle
  · rw [hr] at hb
    exact (h.rootFile b d hb hd).mono hle

end

/-! ## Writing -/

section
variable {β ι : Type} {env : Env β} {w w' : World β}

/-- The bytes hold a directory, sealed or not. -/
def Encodes (env : Env β) (d : DirV1) (b : β) : Prop :=
  b = env.toBytes d ∨ ∃ key nonce, b = env.encrypt key nonce (env.toBytes d)

theorem Encodes.read (auth : env.Authentic) {d d' : DirV1} {b : β} (h : Encodes env d b) {s : Seal}
    (hd : (unsealed env s b).bind env.fromBytes = some d') : d' = d := by
  rcases h with rfl | ⟨key, nonce, rfl⟩
  · exact auth.plain s d d' hd
  · exact auth.sealed s key nonce d d' hd

theorem encodes_encodeStateBytes {ctx : DirContext ι} {d : DirV1} {b : β}
    (h : encodeStateBytes env ctx d w = (w', .ok b)) :
    Encodes env d b ∧ w'.store = w.store ∧ w'.rootFile = w.rootFile := by
  unfold encodeStateBytes at h
  dsimp only at h
  repeat' split at h
  all_goals cases h
  · exact ⟨.inl rfl, rfl, rfl⟩
  · exact ⟨.inr ⟨_, _, rfl⟩, rfl, rfl⟩

theorem encodes_encodeChildDirBytes {ctx : DirContext ι} {d : DirV1} {b : β}
    {keys : Option (ExtTreeMap UInt8 Bytes32)}
    (h : encodeChildDirBytes env ctx d w = (w', b, keys)) :
    Encodes env d b ∧ w'.store = w.store ∧ w'.rootFile = w.rootFile := by
  unfold encodeChildDirBytes at h
  dsimp only at h
  split at h
  · cases h
    exact ⟨.inr ⟨_, _, rfl⟩, rfl, rfl⟩
  · cases h
    exact ⟨.inl rfl, rfl, rfl⟩

theorem World.setRegistry_store (w : World β) (key : Bytes32) (entry : RegistryEntry) :
    (w.setRegistry key entry).store = w.store := by
  unfold World.setRegistry
  split
  · rfl
  · rfl

variable [DecidableEq β]

/-- A directory that refers to stored blobs only is stored. -/
theorem World.Closed.importBytes (auth : env.Authentic) (h : w.Closed env) {d : DirV1} {b : β}
    (hd : w.Has d) (hb : Encodes env d b) : (w.importBytes env b).1.Closed env ∧
      ∀ k, (w.importBytes env b).2 = .ok k → k ∈ (w.importBytes env b).1.store := by
  have hle := (w.onward_importBytes env b).below
  unfold World.importBytes at hle ⊢
  dsimp only at hle ⊢
  split
  · exact ⟨h.of_eq rfl rfl, fun k hk => by cases hk⟩
  · rename_i hfails
    rw [if_neg hfails] at hle
    split
    · rename_i b' hb'
      refine ⟨h.of_eq rfl rfl, fun k hk => ?_⟩
      obtain rfl := Except.ok.inj hk
      show env.blake3 b ∈ w.store
      rw [ExtTreeMap.mem_iff_isSome_getElem?, hb']
      rfl
    · rename_i hnone
      rw [hnone] at hle
      refine ⟨⟨fun k b' s d' hk hd' => ?_, fun b' d' hb' hd' => ?_⟩, fun k hk => ?_⟩
      · have hk' : (w.store.insert (env.blake3 b) b)[k]? = some b' := hk
        rw [ExtTreeMap.getElem?_insert] at hk'
        split at hk'
        · obtain rfl := Option.some.inj hk'
          obtain rfl := hb.read auth hd'
          exact hd.mono hle
        · exact (h.store k b' s d' hk' hd').mono hle
      · exact (h.rootFile b' d' hb' hd').mono hle
      · obtain rfl := Except.ok.inj hk
        exact ExtTreeMap.mem_insert_self

/-- **Saving a directory** that refers to stored blobs only. -/
theorem closed_persist (auth : env.Authentic) (ctx : DirContext ι) {d : DirV1} (h : w.Closed env)
    (hd : w.Has d) : (persist env ctx d w).1.Closed env ∧ w.Below (persist env ctx d w).1 ∧
      ∀ ctx' k, (persist env ctx d w).2 = .ok (ctx', some k) → k ∈ (persist env ctx d w).1.store := by
  have h1 := onward_encodeStateBytes env ctx d w
  unfold persist
  generalize he : encodeStateBytes env ctx d w = r1 at h1 ⊢
  rcases r1 with ⟨w1, e | b⟩
  · have hstore : w1.Closed env := by
      unfold encodeStateBytes at he
      dsimp only at he
      repeat' split at he
      all_goals cases he
      all_goals exact h
    exact ⟨hstore, h1.below, fun _ _ hk => by cases hk⟩
  · obtain ⟨hb, hs, hr⟩ := encodes_encodeStateBytes he
    have hc1 : w1.Closed env := h.of_eq hs hr
    obtain ⟨hc2, hk2⟩ := hc1.importBytes auth (hd.mono h1.below) hb
    have h2 := h1.trans (w1.onward_importBytes env b)
    dsimp only
    generalize w1.importBytes env b = r2 at h2 hc2 hk2 ⊢
    rcases r2 with ⟨w2, e | k⟩
    · exact ⟨hc2, h2.below, fun _ _ hk => by cases hk⟩
    · dsimp only at h2 hc2 hk2 ⊢
      split
      · refine ⟨⟨hc2.store, fun b' d' hb' hd' => ?_⟩, h2.below, fun _ _ hk => by cases hk⟩
        obtain rfl := Option.some.inj hb'
        obtain rfl := hb.read auth (s := none) hd'
        exact hd.mono h2.below
      · refine ⟨hc2, h2.below, fun ctx' k' hk => ?_⟩
        cases hk
        exact hk2 k rfl
      · refine ⟨hc2.of_eq (World.setRegistry_store _ _ _) (World.setRegistry_rootFile _ _ _),
          fun k' hk' => ?_, fun _ _ hk => by cases hk⟩
        rw [World.setRegistry_store]
        exact h2.below k' hk'
      · exact ⟨hc2, h2.below, fun _ _ hk => by cases hk⟩

/-- The function writes directories that refer to stored blobs only, and so does what it makes. -/
def KeepsClosed (env : Env β) (f : DirV1 → World β → World β × Except String DirV1) : Prop :=
  ∀ d w, w.Closed env → w.Has d →
    (f d w).1.Closed env ∧ ∀ d', (f d w).2 = .ok d' → (f d w).1.Has d'

omit [DecidableEq β] in
theorem has_extract (state : DirV1) (dir : String) : w.Has (extractChildDirState state dir).2 := by
  refine World.has_of_refAt fun path => ?_
  cases path <;> simp [extractChildDirState, DirV1.refAt, DirV1.new, DirHeader.new]

theorem closed_promoteGroups (auth : env.Authentic) (ctx : DirContext ι)
    {optimize : DirV1 → World β → World β × Except String DirV1}
    (hon : ∀ d (w : World β), w.Onward (optimize d w).1) (ho : KeepsClosed env optimize) :
    ∀ dirs : List String, KeepsClosed env (promoteGroups env optimize ctx dirs)
  | [], d, w, hc, hd => ⟨hc, fun d' hd' => Except.ok.inj hd' ▸ hd⟩
  | dir :: rest, d, w, hc, hd => by
    unfold promoteGroups
    split
    · exact closed_promoteGroups auth ctx hon ho rest d w hc hd
    · dsimp only
      have hon1 := hon (extractChildDirState d dir).2 w
      obtain ⟨hc1, hchild⟩ := ho (extractChildDirState d dir).2 w hc (has_extract d dir)
      generalize optimize (extractChildDirState d dir).2 w = r1 at hon1 hc1 hchild ⊢
      rcases r1 with ⟨w1, e | child⟩
      · exact ⟨hc1, fun d' hd' => by cases hd'⟩
      · dsimp only at hon1 hc1 hchild ⊢
        have hon2 := hon1.trans (onward_encodeChildDirBytes env ctx child w1)
        generalize he : encodeChildDirBytes env ctx child w1 = r2 at hon2 ⊢
        obtain ⟨w2, bytes, keys⟩ := r2
        obtain ⟨hb, hs, hr⟩ := encodes_encodeChildDirBytes he
        have hle : w1.Below w2 := by
          have := (onward_encodeChildDirBytes env ctx child w1).below
          rwa [he] at this
        obtain ⟨hc3, hk⟩ := (hc1.of_eq hs hr).importBytes auth ((hchild child rfl).mono hle) hb
        have hon3 := hon2.trans (w2.onward_importBytes env bytes)
        dsimp only
        generalize w2.importBytes env bytes = r3 at hon3 hc3 hk ⊢
        rcases r3 with ⟨w3, e | h⟩
        · exact ⟨hc3, fun d' hd' => by cases hd'⟩
        · refine closed_promoteGroups auth ctx hon ho rest _ w3 hc3 fun path dirRef k hat hloc => ?_
          -- the group is now a reference, the rest is as it was
          rw [refAt_insert] at hat
          split at hat
          · rename_i hpath
            obtain rfl := Option.some.inj hat
            subst hpath
            obtain rfl : h = k := Loc.blob.inj hloc
            exact hk h rfl
          · rw [refAt_extract] at hat
            exact hon3.below k (hd path dirRef k hat hloc)

theorem closed_optimizeFrom (auth : env.Authentic) (order : GroupOrder) (ctx : DirContext ι) :
    ∀ depth : Nat, KeepsClosed env (optimizeFrom env (fun state w => (w, .ok state)) order ctx depth)
  | 0, _, _, hc, hd => ⟨hc, fun _ hd' => Except.ok.inj hd' ▸ hd⟩
  | depth + 1, d, w, hc, hd =>
    closed_promoteGroups auth ctx (onward_optimizeFrom (fun _ w => .refl w) order ctx depth)
      (closed_optimizeFrom auth order ctx depth) _ d w hc hd

theorem closed_optimizeDirStructure (auth : env.Authentic) (ctx : DirContext ι) :
    KeepsClosed env (optimizeDirStructure env ctx) :=
  fun d w hc hd => closed_optimizeFrom auth _ ctx _ d w hc hd

omit [DecidableEq β] in
theorem unsealed_of_decrypt {ctx : DirContext ι} {b plain : β}
    (h : decryptIfNeeded env ctx b = .ok plain) : ∃ s, unsealed env s b = some plain := by
  unfold decryptIfNeeded at h
  split at h
  · exact ⟨none, congrArg some (Except.ok.inj h)⟩
  · split at h
    · split at h
      · cases h
      · rename_i key _
        split at h
        · rename_i p hp
          obtain rfl := Except.ok.inj h
          exact ⟨some key, hp⟩
        · cases h
    · cases h

omit [DecidableEq β] in
/-- **Loading a directory.** -/
theorem World.Closed.load (hc : w.Closed env) {ctx : DirContext ι} {d : DirV1} {n : Nat}
    (h : load env ctx w = .ok (d, n)) : w.Has d := by
  have hdecode : ∀ {b : β}, decodeDir env b = .ok (d, n) → env.fromBytes b = some d := by
    intro b hb
    unfold decodeDir at hb
    split at hb
    · rename_i d' hd'
      obtain ⟨rfl, -⟩ := Prod.mk.inj (Except.ok.inj hb)
      exact hd'
    · cases hb
  have hblob : ∀ {k : Hash}, (do
      let b ← w.readAsBytes k
      let plain ← decryptIfNeeded env ctx b
      decodeDir env plain) = Except.ok (d, n) → w.Has d := by
    intro k hk
    unfold World.readAsBytes at hk
    cases hb : w.store[k]? with
    | none =>
      rw [hb] at hk
      cases hk
    | some b =>
      rw [hb] at hk
      cases hp : decryptIfNeeded env ctx b with
      | error e =>
        simp only [bind, Except.bind, hp] at hk
        cases hk
      | ok plain =>
        simp only [bind, Except.bind, hp] at hk
        obtain ⟨s, hs⟩ := unsealed_of_decrypt hp
        exact hc.store k b s d hb (by rw [hs, Option.bind_some]; exact hdecode hk)
  unfold Fs.load at h
  split at h
  · split at h
    · rename_i b hb
      exact hc.rootFile b d hb (hdecode h)
    · cases h
  · exact hblob h
  · split at h
    · exact hblob h
    · obtain ⟨rfl, -⟩ := Prod.mk.inj (Except.ok.inj h)
      exact World.has_new

end

/-! ## Turns -/

section
variable {β : Type}

/-- The message brings the hash of a stored blob, if any. No snapshots are merged here. -/
def ActorMessage.In (w : World β) : ActorMessage → Prop
  | .updateDirRefHash _ h => h ∈ w.store
  | .mergeSnapshot _ _ => False
  | _ => True

def Output.In (w : World β) : Output → Prop
  | .send _ msg => msg.In w
  | .notifyParent _ msg => msg.In w
  | .saved _ (.ok (some h)) => h ∈ w.store
  | _ => True

def Phase.In (w : World β) : Phase → Prop
  | .starting (some d) => w.Has d
  | .saving replies _ => ∀ path h, (path, some (.ok (some h))) ∈ replies → h ∈ w.store
  | .merging _ _ _ _ => False
  | _ => True

/-- All hashes that the actor knows of are those of stored blobs, up to placeholders. -/
structure DirActor.In (w : World β) (a : DirActor) : Prop where
  refs : w.Nearly a.state
  mail : ∀ msg ∈ a.mailbox, msg.In w
  phase : a.phase.In w

variable {w w' : World β}

theorem ActorMessage.In.mono {msg : ActorMessage} (h : msg.In w) (hle : w.Below w') : msg.In w' := by
  cases msg with
  | updateDirRefHash path k => exact hle k h
  | mergeSnapshot snapshot responder => exact h
  | _ => trivial

theorem Output.In.mono {o : Output} (h : o.In w) (hle : w.Below w') : o.In w' := by
  cases o with
  | send j msg => exact ActorMessage.In.mono h hle
  | notifyParent j msg => exact ActorMessage.In.mono h hle
  | saved responder result =>
    rcases result with e | _ | k
    · trivial
    · trivial
    · exact hle k h
  | _ => trivial

theorem Phase.In.mono {phase : Phase} (h : phase.In w) (hle : w.Below w') : phase.In w' := by
  cases phase with
  | starting initial =>
    cases initial with
    | none => trivial
    | some d => exact World.Has.mono h hle
  | saving replies responder => exact fun path k hk => hle k (h path k hk)
  | merging reply rest snapshot responder => exact h
  | _ => trivial

theorem Phase.in_quiet {phase : Phase} (h : phase.isQuiet = true) : phase.In w := by
  cases phase with
  | starting | saving | merging => cases h
  | _ => trivial

theorem DirActor.In.mono {a : DirActor} (h : a.In w) (hle : w.Below w') : a.In w' :=
  ⟨h.refs.mono hle, fun msg hm => (h.mail msg hm).mono hle, h.phase.mono hle⟩

theorem DirActor.in_new (ctx : DirContext ActorId) {initial : Option DirV1}
    (hi : ∀ d, initial = some d → w.Has d) : (DirActor.new ctx initial).In w := by
  refine ⟨World.has_new.nearly, fun msg hm => absurd hm List.not_mem_nil, ?_⟩
  cases initial with
  | none => trivial
  | some d => exact hi d rfl

end

namespace Turn

variable {β : Type} {env : Env β}

/-- What is stored refers to stored blobs, and so does what the turn knows of up to placeholders. -/
structure Filled (env : Env β) (t : Turn β) : Prop where
  closed : t.world.Closed env
  actor : t.actor.In t.world
  spawned : ∀ b ∈ t.spawned, b.In t.world
  out : ∀ o ∈ t.out, o.In t.world

def Fills (env : Env β) (t t' : Turn β) : Prop :=
  t.Filled env → t'.Filled env ∧ t.world.Below t'.world

variable {t t' t'' : Turn β}

theorem Fills.refl (t : Turn β) : Fills env t t := fun h => ⟨h, .refl _⟩

theorem Fills.trans (h : Fills env t t') (h' : Fills env t' t'') : Fills env t t'' := by
  intro ht
  obtain ⟨h1, hle1⟩ := h ht
  obtain ⟨h2, hle2⟩ := h' h1
  exact ⟨h2, hle1.trans hle2⟩

/-- Only the world, the state and the outputs change. -/
theorem Filled.update (h : t.Filled env) (hle : t.world.Below t'.world) (hc : t'.world.Closed env)
    (hst : t'.world.Nearly t'.actor.state)
    (hmail : ∀ msg ∈ t'.actor.mailbox, msg ∈ t.actor.mailbox)
    (hph : t'.actor.phase = t.actor.phase ∨ t'.actor.phase.isQuiet = true)
    (hsp : ∀ b ∈ t'.spawned, b ∈ t.spawned ∨ b.In t'.world)
    (hout : ∀ o ∈ t'.out, o ∈ t.out ∨ o.In t'.world) :
    t'.Filled env ∧ t.world.Below t'.world := by
  refine ⟨⟨hc, ⟨hst, fun msg hm => (h.actor.mail msg (hmail msg hm)).mono hle, ?_⟩, fun b hb => ?_,
    fun o ho => ?_⟩, hle⟩
  · rcases hph with hph | hph
    · rw [hph]
      exact h.actor.phase.mono hle
    · exact Phase.in_quiet hph
  · rcases hsp b hb with hb | hb
    · exact (h.spawned b hb).mono hle
    · exact hb
  · rcases hout o ho with ho | ho
    · exact (h.out o ho).mono hle
    · exact ho

/-- Nothing is stored, and the references are as they were. -/
theorem fills_same (hs : t'.world.store = t.world.store) (hr : t'.world.rootFile = t.world.rootFile)
    (hst : ∀ path, t'.actor.state.refAt path = t.actor.state.refAt path)
    (hmail : t'.actor.mailbox = t.actor.mailbox)
    (hph : t'.actor.phase = t.actor.phase ∨ t'.actor.phase.isQuiet = true)
    (hsp : t'.spawned = t.spawned) (hout : ∀ o ∈ t'.out, o ∈ t.out ∨ ∀ w : World β, o.In w) :
    Fills env t t' := by
  intro h
  have hle : t.world.Below t'.world := by
    intro k hk
    rw [hs]
    exact hk
  refine h.update hle (h.closed.of_eq hs hr) ?_ (fun msg hm => hmail ▸ hm) hph
    (fun b hb => .inl (hsp ▸ hb)) fun o ho => (hout o ho).imp_right fun hin => hin _
  intro path dirRef k hat hloc
  rw [hst] at hat
  exact (h.actor.refs path dirRef k hat hloc).imp_left (hle k)

theorem out_emit {out : List Output} {o o' : Output} (h : o' ∈ out ++ [o])
    (ho : ∀ w : World β, o.In w) : o' ∈ out ∨ ∀ w : World β, o'.In w := by
  rcases List.mem_append.1 h with h | h
  · exact .inl h
  · rw [List.mem_singleton.1 h]
    exact .inr ho

theorem fills_emit (t : Turn β) {o : Output} (ho : ∀ w : World β, o.In w) :
    Fills env t (t.emit o) :=
  fills_same rfl rfl (fun _ => rfl) rfl (.inl rfl) rfl fun _ ho' => out_emit ho' ho

theorem fills_enter (t : Turn β) {phase : Phase} (h : phase.isQuiet = true) :
    Fills env t (t.enter phase) :=
  fills_same rfl rfl (fun _ => rfl) rfl (.inr h) rfl fun _ => .inl

theorem fills_markAsDirty (t : Turn β) : Fills env t t.markAsDirty := by
  refine fills_same rfl rfl (fun _ => rfl) rfl (.inl rfl) rfl fun o ho => ?_
  unfold markAsDirty at ho
  dsimp only at ho
  split at ho
  · exact out_emit ho fun _ => trivial
  · exact .inl ho

/-! ### Opening children -/

theorem fills_spawn (t : Turn β) {ctx : DirContext ActorId} {initial : Option DirV1}
    (hi : ∀ d, initial = some d → t.world.Has d) {a : DirActor}
    {regs : ExtTreeMap Bytes32 ActorId} (hst : a.state = t.actor.state)
    (hmail : a.mailbox = t.actor.mailbox) (hph : a.phase = t.actor.phase) :
    Fills env t { t.spawn ctx initial with actor := a, registryDirHandles := regs } := by
  intro h
  refine h.update (.refl _) h.closed ?_ (fun msg hm => hmail ▸ hm) (.inl hph) (fun b hb => ?_)
    fun o => .inl
  · show t.world.Nearly a.state
    rw [hst]
    exact h.actor.refs
  · rcases List.mem_append.1 hb with hb | hb
    · exact .inl hb
    · rw [List.mem_singleton.1 hb]
      exact .inr (DirActor.in_new ctx hi)

theorem fills_openDir (t : Turn β) (name : String) (initial : Option DirV1)
    (hi : ∀ d, initial = some d → t.world.Has d) : Fills env t (t.openDir name initial).1 := by
  unfold openDir
  split
  · exact .refl t
  · split
    · exact .refl t
    · dsimp only
      split
      · exact fills_spawn t hi rfl rfl rfl
      · split
        · exact .refl t
        · exact fills_spawn t hi rfl rfl rfl

theorem fills_openDirShard (t : Turn β) (index : UInt8) : Fills env t (t.openDirShard index).1 := by
  unfold openDirShard
  split
  · exact .refl t
  · split
    · exact .refl t
    · exact fills_spawn t (fun d hd => by cases hd) rfl rfl rfl

theorem fills_routeToChild (t : Turn β) (path : String) : Fills env t (t.routeToChild env path).1 := by
  unfold routeToChild
  split
  · exact .refl t
  · exact .refl t
  · rename_i index _
    have h : Fills env t (t.openDirShard index).1 := fills_openDirShard t index
    generalize t.openDirShard index = r at h ⊢
    rcases r with ⟨t1, e | child⟩ <;> exact h
  · rename_i name rest _
    have h : Fills env t (t.openDir name none).1 := fills_openDir t name none fun d hd => by cases hd
    generalize t.openDir name none = r at h ⊢
    rcases r with ⟨t1, e | child⟩ <;> exact h

/-! ### Changing the directory -/

variable (env) in
/-- The reference of a new child is a placeholder or no hash. -/
theorem loc_buildChildDirRef (ctx : DirContext ActorId) (enable : Bool) (w : World β) (name : String)
    {h : Hash} (hloc : (buildChildDirRef env ctx enable w).2.loc (.path name) = .blob h) : h = 0 := by
  unfold buildChildDirRef DirRef.loc DirRef.refTypeD at hloc
  dsimp only at hloc
  by_cases hk : ctx.signingKey.isSome = true
  · simp only [hk, if_true, Option.getD_some] at hloc
    cases hloc
  · simp only [hk, Bool.false_eq_true, if_false, Option.getD_none] at hloc
    exact (Loc.blob.inj hloc).symm

variable (env) in
/-- A new reference that is a placeholder or no hash is put in. -/
theorem fills_newDir (t : Turn β) {w : World β} {name : String} {dirRef : DirRef}
    (hs : w.store = t.world.store) (hr : w.rootFile = t.world.rootFile)
    (hloc : ∀ h, dirRef.loc (.path name) = .blob h → h = 0) :
    Fills env t { t with
      world := w
      actor.state := { (extractChildDirState t.actor.state name).1 with
        dirs := (extractChildDirState t.actor.state name).1.dirs.insert name dirRef } } := by
  intro h
  have hle : t.world.Below w := by
    intro k hk
    rw [hs]
    exact hk
  refine h.update hle (h.closed.of_eq hs hr) ?_ (fun msg => id) (.inl rfl) (fun b => .inl)
    fun o => .inl
  intro path r k hat hk
  rw [refAt_insert] at hat
  split at hat
  · rename_i hpath
    obtain rfl := Option.some.inj hat
    subst hpath
    exact .inr ⟨hloc k hk, name, rfl⟩
  · rw [refAt_extract] at hat
    exact (h.actor.refs path r k hat hk).imp_left (hle k)

theorem fills_createDirAt (t : Turn β) (path : String) (enable : Bool) :
    Fills env t (t.createDirAt env path enable).1 := by
  unfold createDirAt
  split
  · exact .refl t
  · dsimp only
    have hloc := fun k => loc_buildChildDirRef env t.actor.context enable t.world path (h := k)
    have hs : (buildChildDirRef env t.actor.context enable t.world).1.store = t.world.store := rfl
    have hr : (buildChildDirRef env t.actor.context enable t.world).1.rootFile = t.world.rootFile :=
      rfl
    generalize buildChildDirRef env t.actor.context enable t.world = r at hloc hs hr ⊢
    obtain ⟨w, dirRef⟩ := r
    dsimp only at hs hr
    have h1 := fills_newDir env t hs hr hloc
    dsimp only
    set t1 : Turn β := { t with
      world := w
      actor.state := { (extractChildDirState t.actor.state path).1 with
        dirs := (extractChildDirState t.actor.state path).1.dirs.insert path dirRef } } with ht1
    have h2 := h1.trans (fills_openDir t1 path
      (some (extractChildDirState t.actor.state path).2) fun d hd => by
        obtain rfl := Option.some.inj hd
        exact has_extract _ _)
    generalize t1.openDir path (some (extractChildDirState t.actor.state path).2) = r at h2 ⊢
    rcases r with ⟨t2, e | c⟩
    · exact h2
    · exact h2.trans (fills_markAsDirty t2)

section
variable [DecidableEq β]

omit [DecidableEq β] in
/-- The world after a promotion's groups have been written. -/
theorem fills_world (t : Turn β) {w : World β} (hle : t.world.Below w)
    (hc : t.world.Closed env → w.Closed env) : Fills env t { t with world := w } := by
  intro h
  refine h.update hle (hc h.closed) (h.actor.refs.mono hle) (fun msg => id) (.inl rfl) (fun b => .inl)
    fun o => .inl

theorem fills_promotePrefix (auth : env.Authentic) (t : Turn β) (dir : String) :
    Fills env t (t.promotePrefix env dir).1 := by
  unfold promotePrefix
  split
  · exact .refl t
  · dsimp only
    have hloc := fun k => loc_buildChildDirRef env t.actor.context
      t.actor.context.encryptionType.isSome t.world dir (h := k)
    have hs : (buildChildDirRef env t.actor.context t.actor.context.encryptionType.isSome
      t.world).1.store = t.world.store := rfl
    have hr : (buildChildDirRef env t.actor.context t.actor.context.encryptionType.isSome
      t.world).1.rootFile = t.world.rootFile := rfl
    generalize buildChildDirRef env t.actor.context t.actor.context.encryptionType.isSome
      t.world = r at hloc hs hr ⊢
    obtain ⟨w, dirRef⟩ := r
    dsimp only at hs hr
    have h1 := fills_newDir env t hs hr hloc
    dsimp only
    set t1 : Turn β := { t with
      world := w
      actor.state := { (extractChildDirState t.actor.state dir).1 with
        dirs := (extractChildDirState t.actor.state dir).1.dirs.insert dir dirRef } } with ht1
    have hon := onward_optimizeDirStructure env t.actor.context
      (extractChildDirState t.actor.state dir).2 w
    have hopt := fun hc => closed_optimizeDirStructure auth t.actor.context
      (extractChildDirState t.actor.state dir).2 w hc (has_extract t.actor.state dir)
    generalize optimizeDirStructure env t.actor.context (extractChildDirState t.actor.state dir).2 w = r
      at hon hopt ⊢
    rcases r with ⟨w2, e | optimized⟩
    · exact h1.trans (fills_world t1 hon.below fun hc => (hopt hc).1)
    · dsimp only at hon hopt ⊢
      intro h
      obtain ⟨hf1, hle1⟩ := h1 h
      have hopt1 := hopt hf1.closed
      have h2 := (fills_world t1 hon.below fun _ => hopt1.1).trans
        (fills_openDir { t1 with world := w2 } dir (some optimized) fun d hd => by
          obtain rfl := Option.some.inj hd
          exact hopt1.2 _ rfl)
      obtain ⟨hf2, hle2⟩ := h2 hf1
      have hdone := And.intro hf2 (hle1.trans hle2)
      generalize openDir { t1 with world := w2 } dir (some optimized) = r at hdone ⊢
      rcases r with ⟨t2, e | c⟩ <;> exact hdone

theorem fills_checkAutoPromote (auth : env.Authentic) (t : Turn β) (path : String) :
    Fills env t (t.checkAutoPromote env path).1 := by
  unfold checkAutoPromote
  split
  · exact .refl t
  · split
    · exact fills_promotePrefix auth t _
    · exact .refl t

/-! ### Saving -/

omit [DecidableEq β] in
theorem fills_moveHead (t : Turn β) (h : Hash) : Fills env t (t.moveHead h) := by
  unfold moveHead
  split
  · exact .refl t
  · exact fills_same rfl rfl (fun _ => rfl) rfl (.inl rfl) rfl fun _ => .inl

/-- **Saving** puts a directory into the store that refers to stored blobs only, and tells its hash. -/
theorem Filled.save (auth : env.Authentic) (h : t.Filled env) (hd : t.world.Has t.actor.state)
    (notify : Bool) : ((t.save env notify).1.Filled env ∧ t.world.Below (t.save env notify).1.world) ∧
      ∀ k, (t.save env notify).2 = .ok (some k) → k ∈ (t.save env notify).1.world.store := by
  obtain ⟨hc, hle, hk⟩ := closed_persist auth t.actor.context h.closed hd
  unfold Turn.save
  generalize persist env t.actor.context t.actor.state t.world = r at hc hle hk ⊢
  rcases r with ⟨w, e | ⟨ctx, hash⟩⟩
  · exact ⟨fills_world t hle (fun _ => hc) h, fun k hk => by cases hk⟩
  · have h1 : Turn.Filled env { t with world := w, actor.context := ctx } ∧ t.world.Below w :=
      h.update hle hc (h.actor.refs.mono hle) (fun msg => id) (.inl rfl) (fun b => .inl) fun o => .inl
    have hhash : ∀ k, (.ok hash : Except String (Option Hash)) = .ok (some k) → k ∈ w.store := by
      intro k he
      obtain rfl := Except.ok.inj he
      exact hk ctx k rfl
    dsimp only
    split
    · split
      · rename_i bytes _
        set t1 : Turn β := { t with world := w, actor.context := ctx } with ht1
        have h2 : Fills env t1 { t1.moveHead (env.blake3 bytes) with localRoot.saved := true } :=
          (fills_moveHead t1 _).trans (fills_same rfl rfl (fun _ => rfl) rfl (.inl rfl) rfl fun _ => .inl)
        obtain ⟨hf, hle2⟩ := h2 h1.1
        exact ⟨⟨hf, hle.trans hle2⟩, fun k he => hle2 k (hhash k he)⟩
      · exact ⟨h1, hhash⟩
    · split
      · rename_i k
        refine ⟨⟨?_, hle⟩, hhash⟩
        refine ⟨hc, h1.1.actor, h1.1.spawned, fun o ho => ?_⟩
        rcases List.mem_append.1 ho with ho | ho
        · exact h1.1.out o ho
        · rw [List.mem_singleton.1 ho]
          exact hhash k rfl
      · exact ⟨h1, hhash⟩
    · exact ⟨h1, hhash⟩

omit [DecidableEq β] in
theorem has_shardState {w : World β} {d : DirV1} (h : w.Has d) (level index : UInt8) :
    w.Has (shardState env d level index) := by
  intro path dirRef k hat hloc
  cases path with
  | shard i => simp [DirV1.refAt, shardState, DirV1.new, DirHeader.new] at hat
  | path name =>
    have hat' : (shardState env d level index).dirs[name]? = some dirRef := hat
    rw [Actor.shardState_dirs_getElem?] at hat'
    split at hat'
    · exact h (.path name) dirRef k hat' hloc
    · cases hat'

/-- The turn goes on, and a directory without placeholders stays one. -/
structure Kept (env : Env β) (t t' : Turn β) : Prop where
  fills : t'.Filled env ∧ t.world.Below t'.world
  has : t.world.Has t.actor.state → t'.world.Has t'.actor.state

omit [DecidableEq β] in
theorem Kept.refl (h : t.Filled env) : Kept env t t := ⟨⟨h, .refl _⟩, id⟩

omit [DecidableEq β] in
theorem Kept.trans (h : Kept env t t') (h' : Kept env t' t'') : Kept env t t'' :=
  ⟨⟨h'.fills.1, h.fills.2.trans h'.fills.2⟩, fun hd => h'.has (h.has hd)⟩

omit [DecidableEq β] in
/-- The references are as they were. -/
theorem kept_of_fills (h : Fills env t t')
    (hst : ∀ path, t'.actor.state.refAt path = t.actor.state.refAt path) (ht : t.Filled env) :
    Kept env t t' := by
  obtain ⟨hf, hle⟩ := h ht
  refine ⟨⟨hf, hle⟩, fun hd path dirRef k hat hloc => ?_⟩
  rw [hst] at hat
  exact hle k (hd path dirRef k hat hloc)

omit [DecidableEq β] in
/-- A shard is written. -/
theorem kept_insertShard (h : t.Filled env) {w : World β} (hle : t.world.Below w)
    (hc : w.Closed env) (index : UInt8) (dirRef : DirRef) (hk : dirRef.hash ∈ w.store) :
    Kept env t { t with
      world := w
      actor.state.header.shards :=
        some ((t.actor.state.header.shards.getD ∅).insert index dirRef) } := by
  set state : DirV1 := { t.actor.state with
    header.shards := some ((t.actor.state.header.shards.getD ∅).insert index dirRef) } with hstate
  have hat : ∀ path r, state.refAt path = some r →
      (path = .shard index ∧ r = dirRef) ∨ t.actor.state.refAt path = some r := by
    intro path r hr
    rw [hstate, refAt_insertShard] at hr
    split at hr
    · rename_i hp
      exact .inl ⟨hp, (Option.some.inj hr).symm⟩
    · exact .inr hr
  refine ⟨?_, fun hd path r k hr hloc => ?_⟩
  · refine h.update hle hc ?_ (fun msg => id) (.inl rfl) (fun b => .inl) fun o => .inl
    intro path r k hr hloc
    rcases hat path r hr with ⟨rfl, rfl⟩ | hr
    · obtain rfl := Loc.blob.inj hloc
      exact .inl hk
    · exact (h.actor.refs path r k hr hloc).imp_left (hle k)
  · rcases hat path r hr with ⟨rfl, rfl⟩ | hr
    · obtain rfl := Loc.blob.inj hloc
      exact hk
    · exact hle k (hd path r k hr hloc)

theorem kept_shardBuckets (auth : env.Authentic) (level : UInt8) (old : DirV1) :
    ∀ (is : List UInt8) {t : Turn β}, t.Filled env → t.world.Has old →
      Kept env t (shardBuckets env level old is t).1
  | [], _, h, _ => .refl h
  | index :: rest, t, h, hold => by
    unfold shardBuckets
    dsimp only
    split
    · exact kept_shardBuckets auth level old rest h hold
    · have hle1 := (onward_encodeChildDirBytes env t.actor.context
        (shardState env old level index) t.world).below
      generalize he : encodeChildDirBytes env t.actor.context (shardState env old level index) t.world
        = r1 at hle1 ⊢
      obtain ⟨w1, bytes, keys⟩ := r1
      obtain ⟨hb, hs, hr⟩ := encodes_encodeChildDirBytes he
      dsimp only at hle1 ⊢
      obtain ⟨hc2, hk⟩ := (h.closed.of_eq hs hr).importBytes auth
        ((has_shardState hold level index).mono hle1) hb
      have hle2 := hle1.trans (w1.onward_importBytes env bytes).below
      generalize w1.importBytes env bytes = r2 at hc2 hk hle2 ⊢
      rcases r2 with ⟨w2, e | k⟩
      · refine kept_of_fills (fun _ => ?_) (fun path => ?_) h
        · refine h.update hle2 hc2 ?_ (fun msg => id) (.inl rfl) (fun b => .inl) fun o => .inl
          intro path dirRef k hat hloc
          refine (h.actor.refs path dirRef k ?_ hloc).imp_left (hle2 k)
          cases path with
          | path name => exact hat
          | shard i => cases hsh : t.actor.state.header.shards <;> simp_all [DirV1.refAt]
        · cases path with
          | path name => rfl
          | shard i => cases hsh : t.actor.state.header.shards <;> simp [DirV1.refAt, hsh]
      · dsimp only at hc2 hk hle2 ⊢
        have h2 := kept_insertShard h hle2 hc2 index
          (storedDirRef t.actor.context k keys (env.utcNow t.world.tick)) (hk k rfl)
        set t2 : Turn β := { t with
          world := w2
          actor.state.header.shards := some ((t.actor.state.header.shards.getD ∅).insert index
            (storedDirRef t.actor.context k keys (env.utcNow t.world.tick))) } with ht2
        have h3 : Kept env t (t2.openDirShard index).1 :=
          h2.trans (kept_of_fills (fills_openDirShard t2 index) (fun path => by
            rw [(unmoved_openDirShard t2 index).state]) h2.fills.1)
        generalize t2.openDirShard index = r3 at h3 ⊢
        rcases r3 with ⟨t3, e | c⟩
        · exact h3
        · exact h3.trans (kept_shardBuckets auth level old rest h3.fills.1 (hold.mono h3.fills.2))

/-- **Splitting** a directory that refers to stored blobs only. -/
theorem kept_shard (auth : env.Authentic) (h : t.Filled env) (hd : t.world.Has t.actor.state) :
    Kept env t (t.shard env).1 := by
  obtain ⟨level, r, hr, hshard⟩ := shard_cases env t
  set t0 : Turn β := { t with actor.state.header.shardLevel := some level } with ht0
  have hat : ∀ path, t0.actor.state.refAt path = t.actor.state.refAt path := by
    intro path
    cases path <;> rfl
  have h0 : Kept env t t0 :=
    kept_of_fills (fills_same rfl rfl hat rfl (.inl rfl) rfl fun _ => .inl) hat h
  have h1 := h0.trans (kept_shardBuckets auth level t.actor.state
    ((List.range 256).map UInt8.ofNat) h0.fills.1 hd)
  rw [hr] at h1
  rcases hshard with hshard | hshard
  · rw [hshard]
    exact h1
  · rw [hshard]
    have hsub : ∀ path dirRef, ({ r.1.actor.state with dirs := ∅, files := ∅ } : DirV1).refAt path =
        some dirRef → r.1.actor.state.refAt path = some dirRef := by
      intro path dirRef hr
      cases path with
      | path name => simp [DirV1.refAt] at hr
      | shard index => exact hr
    have h2 : Kept env r.1 { r.1 with actor.state.dirs := ∅, actor.state.files := ∅ } := by
      have hf := h1.fills.1
      refine ⟨?_, fun hd path dirRef k hr hloc => hd path dirRef k (hsub path _ hr) hloc⟩
      exact hf.update (.refl _) hf.closed
        (fun path dirRef k hr hloc => hf.actor.refs path dirRef k (hsub path _ hr) hloc)
        (fun msg => id) (.inl rfl) (fun b => .inl) fun o => .inl
    exact h1.trans h2

theorem kept_shardIfNeeded (auth : env.Authentic) (h : t.Filled env)
    (hd : t.actor.Splits env → t.world.Has t.actor.state) : Kept env t (t.shardIfNeeded env).1 := by
  unfold shardIfNeeded
  split
  · exact .refl h
  · rename_i hlevel
    split
    · exact .refl h
    · rename_i hsmall
      dsimp only
      set t0 : Turn β := { t with
        actor.lastSerializedLen := env.len (env.toBytes t.actor.state)
        actor.shardSizeCheckOps := 0 } with ht0
      have h0 : Kept env t t0 := kept_of_fills
        (fills_same rfl rfl (fun _ => rfl) rfl (.inl rfl) rfl fun _ => .inl) (fun _ => rfl) h
      split
      · rename_i hlarge
        have hnone : t.actor.state.header.shardLevel = none := by simpa using hlevel
        exact h0.trans (kept_shard auth h0.fills.1 (hd ⟨hnone, hsmall, hlarge⟩))
      · exact h0

end

end Turn

end Fs
