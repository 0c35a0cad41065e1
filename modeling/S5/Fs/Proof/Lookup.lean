import S5.Fs.Actor

/-!
# Lookups

A lookup's answer does not depend on the number of hops allowed once it is there
(`lookup_mono`), so a path reaches at most one entry (`Reaches.unique`), and `reaches_iff` takes one
hop. `World.importBytes_ok` says what an import leaves in the store.
-/

open Std

namespace Fs

/-! ## The store -/

section
variable {β : Type}

/-- Every blob of `w` is in `w'`, and `w'` has the same registry. -/
structure World.Grows (w w' : World β) : Prop where
  store : ∀ (h : Hash) (b : β), w.store[h]? = some b → w'.store[h]? = some b
  registry : w'.registry = w.registry
  collided : w'.collided = false → w.collided = false

theorem World.Grows.refl (w : World β) : w.Grows w := ⟨fun _ _ h => h, rfl, fun h => h⟩

theorem World.Grows.trans {w w' w'' : World β} (h : w.Grows w') (h' : w'.Grows w'') :
    w.Grows w'' where
  store k b hb := h'.store k b (h.store k b hb)
  registry := h'.registry.trans h.registry
  collided hc := h.collided (h'.collided hc)

theorem World.grows_next (w : World β) : w.Grows w.next := ⟨fun _ _ h => h, rfl, fun h => h⟩

variable (env : Env β)

theorem grows_encodeStateBytes {ι : Type} (ctx : DirContext ι) (state : DirV1) (w : World β) :
    w.Grows (encodeStateBytes env ctx state w).1 := by
  unfold encodeStateBytes
  dsimp only
  repeat' split
  all_goals first | exact World.Grows.refl w | exact w.grows_next

theorem grows_encodeChildDirBytes {ι : Type} (ctx : DirContext ι) (state : DirV1) (w : World β) :
    w.Grows (encodeChildDirBytes env ctx state w).1 := by
  unfold encodeChildDirBytes
  dsimp only
  split
  · exact w.grows_next
  · exact World.Grows.refl w

@[simp]
theorem encodeStateBytes_rootFile {ι : Type} (ctx : DirContext ι) (state : DirV1) (w : World β) :
    (encodeStateBytes env ctx state w).1.rootFile = w.rootFile := by
  unfold encodeStateBytes
  dsimp only
  repeat' split
  all_goals rfl

@[simp]
theorem encodeChildDirBytes_rootFile {ι : Type} (ctx : DirContext ι) (state : DirV1) (w : World β) :
    (encodeChildDirBytes env ctx state w).1.rootFile = w.rootFile := by
  unfold encodeChildDirBytes
  dsimp only
  split
  · rfl
  · rfl

variable [DecidableEq β]

theorem World.grows_importBytes (w : World β) (b : β) : w.Grows (w.importBytes env b).1 := by
  unfold importBytes
  dsimp only
  split
  · exact w.grows_next
  · cases hs : w.store[env.blake3 b]? with
    | some b' =>
      exact ⟨fun _ _ h => h, rfl, fun h => (Bool.or_eq_false_iff.1 h).1⟩
    | none =>
      refine ⟨fun k v hk => ?_, rfl, fun h => h⟩
      have hne : env.blake3 b ≠ k := by
        rintro rfl
        rw [hs] at hk
        cases hk
      simpa [ExtTreeMap.getElem?_insert, hne] using hk

variable {env}

variable (env) in
/-- An import takes one turn and fails exactly if the store does. -/
theorem World.importBytes_turn (w : World β) (b : β) : (w.importBytes env b).1.tick = w.tick + 1 ∧
    (w.importBytes env b).2.isOk = !env.storeFails w.tick := by
  unfold importBytes
  dsimp only
  split
  · rename_i hfails
    exact ⟨rfl, by rw [hfails]; rfl⟩
  · rename_i hfails
    rw [Bool.not_eq_true] at hfails
    split
    · exact ⟨rfl, by rw [hfails]; rfl⟩
    · exact ⟨rfl, by rw [hfails]; rfl⟩

/-- What can be encoded is saved, if the store takes it. -/
theorem persist_encoded {ι : Type} {ctx : DirContext ι} {d : DirV1} {w w1 : World β} {b : β}
    (he : encodeStateBytes env ctx d w = (w1, .ok b)) (hs : env.storeFails w1.tick = false) :
    ∃ w2 ctx' h, persist env ctx d w = (w2, .ok (ctx', h)) := by
  have hok := (World.importBytes_turn env w1 b).2
  unfold persist
  rw [he]
  dsimp only
  generalize w1.importBytes env b = imp at hok ⊢
  obtain ⟨w2, e | h⟩ := imp
  · rw [hs] at hok
    cases hok
  · dsimp only
    split
    · exact ⟨_, _, _, rfl⟩
    · exact ⟨_, _, _, rfl⟩
    · exact ⟨_, _, _, rfl⟩
    · exact ⟨_, _, _, rfl⟩

variable (env) in
@[simp]
theorem World.importBytes_rootFile (w : World β) (b : β) :
    (w.importBytes env b).1.rootFile = w.rootFile := by
  unfold importBytes
  dsimp only
  repeat' split
  all_goals rfl

omit [DecidableEq β] in
theorem World.setRegistry_rootFile (w : World β) (key : Bytes32) (entry : RegistryEntry) :
    (w.setRegistry key entry).rootFile = w.rootFile := by
  unfold World.setRegistry
  split <;> rfl

theorem World.importBytes_hash {w w' : World β} {b : β} {h : Hash}
    (hi : w.importBytes env b = (w', .ok h)) : h = env.blake3 b := by
  unfold importBytes at hi
  dsimp only at hi
  repeat' split at hi
  all_goals cases hi
  all_goals rfl

/-- Without a collision an import leaves its bytes under their hash. -/
theorem World.importBytes_ok {w w' : World β} {b : β} {h : Hash}
    (hi : w.importBytes env b = (w', .ok h)) (hc : w'.collided = false) :
    h = env.blake3 b ∧ w'.store[h]? = some b := by
  unfold importBytes at hi
  dsimp only at hi
  split at hi
  · cases hi
  · cases hs : w.store[env.blake3 b]? with
    | some b' =>
      rw [hs] at hi
      obtain ⟨rfl, rfl⟩ := Prod.mk.inj hi |>.imp_right Except.ok.inj
      have hb : b' = b := by simpa using (Bool.or_eq_false_iff.1 hc).2
      exact ⟨rfl, hb ▸ hs⟩
    | none =>
      rw [hs] at hi
      obtain ⟨rfl, rfl⟩ := Prod.mk.inj hi |>.imp_right Except.ok.inj
      exact ⟨rfl, by simp⟩

end

/-! ## Handles -/

/-- Handles under other names stay found when one is dropped. -/
theorem lookup_filter_ne {α γ : Type} [DecidableEq α] {i j : α} (h : j ≠ i) (l : List (α × γ)) :
    (l.filter (·.1 ≠ i)).lookup j = l.lookup j := by
  induction l with
  | nil => rfl
  | cons x l ih =>
    by_cases hx : x.1 = i
    · have hj : (j == x.1) = false := beq_eq_false_iff_ne.2 (hx ▸ h)
      rw [List.filter_cons_of_neg (by simp [hx]), ih, List.lookup_cons, hj]
    · rw [List.filter_cons_of_pos (by simp [hx]), List.lookup_cons, List.lookup_cons, ih]

/-! ## Hops -/

namespace Actor

section
variable {β : Type} {env : Env β} {w : World β} {regs : RegistryDirHandles}

theorem lookup_mono {fuel : Nat} {a : Actor} {path : String} {r : Option FileRef}
    (h : lookup env w regs fuel a path = some r) : lookup env w regs (fuel + 1) a path = some r := by
  induction fuel generalizing a path with
  | zero => simp [lookup] at h
  | succ fuel ih =>
    rw [lookup] at h ⊢
    cases hr : routeToChild env w regs a path with
    | error e => rw [hr] at h; exact h
    | ok o =>
      rw [hr] at h
      cases o with
      | none => exact h
      | some cq => exact ih h

theorem lookup_le {fuel fuel' : Nat} {a : Actor} {path : String} {r : Option FileRef}
    (hle : fuel ≤ fuel') (h : lookup env w regs fuel a path = some r) :
    lookup env w regs fuel' a path = some r := by
  induction fuel', hle using Nat.le_induction with
  | base => exact h
  | succ n _ ih => exact lookup_mono ih

/-- A path reaches at most one entry. -/
theorem Reaches.unique {a : Actor} {path : String} {r r' : Option FileRef}
    (h : Reaches env w regs a path r) (h' : Reaches env w regs a path r') : r = r' := by
  obtain ⟨fuel, h⟩ := h
  obtain ⟨fuel', h'⟩ := h'
  have h1 := lookup_le (Nat.le_max_left fuel fuel') h
  have h2 := lookup_le (Nat.le_max_right fuel fuel') h'
  rw [h1] at h2
  exact Option.some.inj h2

/-- What a child reaches, or nothing if it could not be opened. -/
def ReachesIn (env : Env β) (w : World β) (regs : RegistryDirHandles) (c : Except String Actor)
    (path : String) (r : Option FileRef) : Prop :=
  match c with
  | .ok c => Reaches env w regs c path r
  | .error _ => r = none

/-- One hop of a lookup. -/
theorem reaches_iff {a : Actor} {path : String} {r : Option FileRef} :
    Reaches env w regs a path r ↔
      match route env a.state path with
      | .error _ => r = none
      | .ok .here => r = a.state.files[path]?
      | .ok (.shard index) => ReachesIn env w regs (openDirShard env w a index) path r
      | .ok (.dir name rest) => ReachesIn env w regs (openDir env w regs a name) rest r := by
  -- the first unit of fuel pays for the hop
  have hfuel : Reaches env w regs a path r ↔ ∃ fuel, lookup env w regs (fuel + 1) a path = some r := by
    constructor
    · rintro ⟨fuel, h⟩
      exact ⟨fuel, lookup_mono h⟩
    · rintro ⟨fuel, h⟩
      exact ⟨fuel + 1, h⟩
  rw [hfuel]
  simp only [lookup, routeToChild]
  cases route env a.state path with
  | error e => simp [bind, Except.bind, eq_comm]
  | ok rt =>
    cases rt with
    | here => simp [bind, Except.bind, pure, Except.pure, eq_comm]
    | shard index =>
      cases ho : openDirShard env w a index with
      | error e => simp [bind, Except.bind, ReachesIn, ho, eq_comm]
      | ok c => simp [bind, Except.bind, pure, Except.pure, ReachesIn, Reaches, ho]
    | dir name rest =>
      cases ho : openDir env w regs a name with
      | error e => simp [bind, Except.bind, ReachesIn, ho, eq_comm]
      | ok c => simp [bind, Except.bind, pure, Except.pure, ReachesIn, Reaches, ho]

/-- A lookup sees an actor's context, state and handles only. -/
theorem reaches_congr {a b : Actor} (hcontext : a.context = b.context) (hstate : a.state = b.state)
    (hdirs : a.dirHandles = b.dirHandles) (hshards : a.dirShardHandles = b.dirShardHandles)
    {path : String} {r : Option FileRef} :
    Reaches env w regs a path r ↔ Reaches env w regs b path r := by
  rw [reaches_iff, reaches_iff]
  simp only [hcontext, hstate, hdirs, hshards, openDir, openDirShard]

end

end Actor

end Fs
