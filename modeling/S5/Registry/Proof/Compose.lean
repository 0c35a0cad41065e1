import S5.Registry.Proof.Slot

/-!
# Writes to a composed registry

A `set` and a `delete` go through a composition in the same way (`write`) and change the slots of
the local registries they reach (`reached`) by a function of the slot (`LeafOp.Spec`).

* `write_isOk`: a write succeeds by what it finds in the slots (`accepts`).
* `mem_leaves_write`, `reached_write`: the slots after a write.
* `Agree K r r'`: `r` and `r'` are composed alike and hold the same under the keys of `K`. Reads
  and writes of such keys keep it (`Agree.get_eq`, `agree_write`), and so does a write that leaves
  them alone on one side only (`agree_write_left`).
-/

namespace Registry

/-- What a local registry answers for a key. -/
abbrev Slot := Except String (Option StreamMessage)

/-- A write on the local registries of a composition. -/
structure LeafOp where
  memory : MemoryRegistry → MemoryRegistry × Answer
  rows : Rows → Rows × Answer
  what : String

namespace LeafOp

def set (m : StreamMessage) : LeafOp where
  memory r := (r.set m, .ok ())
  rows t := t.set m
  what := "quorum not met"

def delete (key : StreamKey) : LeafOp where
  memory r := (r.delete key, .ok ())
  rows t := (t.delete key, .ok ())
  what := "quorum not met for delete"

/-- The operation writes the slot of `key` by `f` and accepts by what `leafOk` says of it. -/
structure Spec (op : LeafOp) (key : StreamKey) (f : Slot → Slot) (leafOk : Slot → Bool) : Prop where
  memory_get : ∀ r, .ok ((op.memory r).1.get key) = f (.ok (r.get key))
  memory_get_ne : ∀ r k, k ≠ key → (op.memory r).1.get k = r.get k
  memory_ok : ∀ r, (op.memory r).2.isOk = leafOk (.ok (r.get key))
  rows_get : ∀ t, (op.rows t).1.get key = f (t.get key)
  rows_get_ne : ∀ t k, k ≠ key → (op.rows t).1.get k = t.get k
  rows_ok : ∀ t, (op.rows t).2.isOk = leafOk (t.get key)

end LeafOp

/-- The slot after `set` of `m`. -/
def Slot.put (m : StreamMessage) : Slot → Slot
  | .error x => .error x
  | .ok e => .ok (if m.shouldStore e then some m else e)

theorem Slot.isOk_put (m : StreamMessage) (s : Slot) : (s.put m).isOk = s.isOk := by
  cases s <;> rfl

theorem LeafOp.spec_set {m : StreamMessage} (hm : m.wire = m) :
    (LeafOp.set m).Spec m.key (Slot.put m) Except.isOk where
  memory_get r := by
    show Except.ok ((r.set m).data m.key) = Except.ok (if _ then _ else _)
    unfold MemoryRegistry.set MemoryRegistry.get
    split <;> simp
  memory_get_ne r k hk := by
    show (r.set m).data k = r.data k
    unfold MemoryRegistry.set
    split
    · exact Function.update_of_ne hk ..
    · rfl
  memory_ok r := rfl
  rows_get t := by
    show (t.set m).1.get m.key = _
    cases hg : t.get m.key with
    | error x =>
      rw [Rows.set_error hg]
      exact hg
    | ok e =>
      rw [Rows.get_set hg, hm]
      rfl
  rows_get_ne t k hk := Rows.get_set_ne hk
  rows_ok t := by
    show (t.set m).2.isOk = _
    unfold Rows.set
    split
    · rename_i hg
      rw [hg]
      rfl
    · rename_i hg
      rw [hg]
      split <;> rfl

theorem LeafOp.spec_delete (key : StreamKey) :
    (LeafOp.delete key).Spec key (fun _ => .ok none) (fun _ => true) where
  memory_get r := by
    show Except.ok ((r.delete key).data key) = _
    simp [MemoryRegistry.delete]
  memory_get_ne r k hk := by
    show (r.delete key).data k = r.data k
    simp [MemoryRegistry.delete, Function.update_of_ne hk]
  memory_ok r := rfl
  rows_get t := Rows.get_delete
  rows_get_ne t k hk := Rows.get_delete_ne hk
  rows_ok t := rfl

namespace WritePolicy

/-- Whether the answers of the backends make up for the policy. -/
def admits (policy : WritePolicy) (oks : List Bool) : Bool :=
  match policy with
  | all => oks.all id
  | any => oks.any id
  | quorum n => n ≤ oks.countP id

theorem isOk_outcome (policy : WritePolicy) (what : String) {results : List Answer}
    (hne : results ≠ []) :
    (policy.outcome what results).isOk = policy.admits (results.map (·.isOk)) := by
  have hc : (results.map (·.isOk)).countP id = results.countP (·.isOk) := by
    rw [List.countP_map]; rfl
  cases policy with
  | all =>
    unfold outcome admits
    dsimp only
    clear hne hc
    induction results with
    | nil => rfl
    | cons res results ih => cases res <;> simp_all [Except.isOk, Except.toBool]
  | any =>
    unfold outcome admits
    dsimp only
    split
    · rename_i h
      obtain ⟨res, hmem, hres⟩ := List.countP_pos_iff.1 h
      have : (results.map (·.isOk)).any id = true :=
        List.any_eq_true.2 ⟨res.isOk, List.mem_map_of_mem hmem, hres⟩
      rw [this]
      rfl
    · rename_i h
      have hnone : ∀ res ∈ results, res.isOk = false := by
        intro res hmem
        by_contra hok
        exact h (List.countP_pos_iff.2 ⟨res, hmem, by simpa using hok⟩)
      have hany : (results.map (·.isOk)).any id = false := by
        simpa using hnone
      rw [hany, List.getLastD_eq_getLast?, List.getLast?_eq_some_getLast hne]
      exact hnone _ (List.getLast_mem hne)
  | quorum n =>
    unfold outcome admits
    dsimp only
    rw [hc]
    by_cases hn : n ≤ results.countP (·.isOk)
    · rw [if_pos hn, decide_eq_true hn]
      rfl
    · rw [if_neg hn, decide_eq_false hn]
      rfl

end WritePolicy

namespace DynRegistry

/-! ## The traversal -/

mutual

/-- The traversal that `set` and `delete` share. -/
def write (op : LeafOp) : DynRegistry → DynRegistry × Answer
  | memory r =>
    let (r, res) := op.memory r
    (memory r, res)
  | redb r =>
    let (table, res) := op.rows r.table
    (redb ⟨table⟩, res)
  | store r =>
    let (files, res) := op.rows r.files
    (store ⟨files⟩, res)
  | remote up served =>
    if up then
      let (served, res) := served.write op
      (remote up served, res)
    else (remote up served, .error connectionFailed)
  | tee near far =>
    match near.write op with
    | (near, .error e) => (tee near far, .error e)
    | (near, .ok ()) =>
      let (far, res) := far.write op
      (tee near far, res)
  | multi backends policy =>
    if backends.isEmpty then (multi backends policy, .ok ())
    else
      let results := writeAll op backends
      (multi (results.map (·.1)) policy, policy.outcome op.what (results.map (·.2)))

def writeAll (op : LeafOp) : List DynRegistry → List (DynRegistry × Answer)
  | [] => []
  | b :: bs => b.write op :: writeAll op bs

end

/-- The bytes of a key that a client sends decode to the key. -/
theorem requestKey_toBytes (key : StreamKey) :
    requestKey key.toBytes.1 (Bytes32.ofBytes key.toBytes.2) = .ok key := by
  have hb : Bytes32.toBytes (Bytes32.ofBytes key.toBytes.2) = key.toBytes.2 := by
    cases key <;> simp [StreamKey.toBytes]
  unfold requestKey
  rw [hb]
  exact StreamKey.fromBytes_toBytes key

mutual

theorem set_eq_write {m : StreamMessage} (hm : m.wire = m) :
    ∀ r : DynRegistry, r.set m = r.write (.set m)
  | memory r => rfl
  | redb r => rfl
  | store r => rfl
  | remote up served => by
    unfold set write
    unfold handleSet
    rw [StreamMessage.deserialize_serialize, hm]
    dsimp only
    rw [set_eq_write hm served]
  | tee near far => by
    unfold set write
    rewrite [set_eq_write hm near, set_eq_write hm far]
    rfl
  | multi backends policy => by
    unfold set write
    rw [setAll_eq_writeAll hm backends]
    rfl

theorem setAll_eq_writeAll {m : StreamMessage} (hm : m.wire = m) :
    ∀ bs : List DynRegistry, setAll bs m = writeAll (.set m) bs
  | [] => rfl
  | b :: bs => by
    unfold setAll writeAll
    rw [set_eq_write hm b, setAll_eq_writeAll hm bs]

end

mutual

theorem delete_eq_write (key : StreamKey) :
    ∀ r : DynRegistry, r.delete key = r.write (.delete key)
  | memory r => rfl
  | redb r => rfl
  | store r => rfl
  | remote up served => by
    unfold delete write handleDelete
    rw [requestKey_toBytes]
    dsimp only
    rw [delete_eq_write key served]
  | tee near far => by
    unfold delete write
    rewrite [delete_eq_write key near, delete_eq_write key far]
    rfl
  | multi backends policy => by
    unfold delete write
    rw [deleteAll_eq_writeAll key backends]
    rfl

theorem deleteAll_eq_writeAll (key : StreamKey) :
    ∀ bs : List DynRegistry, deleteAll bs key = writeAll (.delete key) bs
  | [] => rfl
  | b :: bs => by
    unfold deleteAll writeAll
    rw [delete_eq_write key b, deleteAll_eq_writeAll key bs]

end

/-! ## The slots of a composition -/

section
variable (leafOk : Slot → Bool)

mutual

/-- Whether a write of `key` succeeds, if the local registries accept by their slots. -/
def accepts : DynRegistry → StreamKey → Bool
  | memory r, key => leafOk (.ok (r.get key))
  | redb r, key => leafOk (r.get key)
  | store r, key => leafOk (r.get key)
  | remote up served, key => up && served.accepts key
  | tee near far, key => near.accepts key && far.accepts key
  | multi backends policy, key => backends.isEmpty || policy.admits (acceptsAll backends key)

def acceptsAll : List DynRegistry → StreamKey → List Bool
  | [], _ => []
  | b :: bs, key => b.accepts key :: acceptsAll bs key

end

mutual

/-- The slots under `key` that a write gets to. -/
def reached : DynRegistry → StreamKey → List Slot
  | memory r, key => [.ok (r.get key)]
  | redb r, key => [r.get key]
  | store r, key => [r.get key]
  | remote up served, key => if up then served.reached key else []
  | tee near far, key =>
    near.reached key ++ if near.accepts leafOk key then far.reached key else []
  | multi backends _, key => reachedAll backends key

def reachedAll : List DynRegistry → StreamKey → List Slot
  | [], _ => []
  | b :: bs, key => b.reached key ++ reachedAll bs key

end

end

mutual

/-- The slots under `key` of all local registries. -/
def leaves : DynRegistry → StreamKey → List Slot
  | memory r, key => [.ok (r.get key)]
  | redb r, key => [r.get key]
  | store r, key => [r.get key]
  | remote _ served, key => served.leaves key
  | tee near far, key => near.leaves key ++ far.leaves key
  | multi backends _, key => leavesAll backends key

def leavesAll : List DynRegistry → StreamKey → List Slot
  | [], _ => []
  | b :: bs, key => b.leaves key ++ leavesAll bs key

end

mutual

theorem mem_leaves_of_reached {leafOk : Slot → Bool} {k : StreamKey} {s : Slot} :
    ∀ {r : DynRegistry}, s ∈ r.reached leafOk k → s ∈ r.leaves k
  | memory _, h => h
  | redb _, h => h
  | store _, h => h
  | remote up served, h => by
    cases up with
    | false => exact absurd h List.not_mem_nil
    | true =>
      have hs : s ∈ served.reached leafOk k := h
      show s ∈ served.leaves k
      exact mem_leaves_of_reached hs
  | tee near far, h => by
    unfold reached at h
    unfold leaves
    rcases List.mem_append.1 h with hn | hf
    · exact List.mem_append_left _ (mem_leaves_of_reached hn)
    · split at hf
      · exact List.mem_append_right _ (mem_leaves_of_reached hf)
      · exact absurd hf List.not_mem_nil
  | multi backends _, h => by
    have hs : s ∈ reachedAll leafOk backends k := h
    show s ∈ leavesAll backends k
    exact mem_leavesAll_of_reachedAll hs

theorem mem_leavesAll_of_reachedAll {leafOk : Slot → Bool} {k : StreamKey} {s : Slot} :
    ∀ {bs : List DynRegistry}, s ∈ reachedAll leafOk bs k → s ∈ leavesAll bs k
  | [], h => h
  | b :: bs, h => by
    unfold leavesAll
    rcases List.mem_append.1 h with hb | hbs
    · exact List.mem_append_left _ (mem_leaves_of_reached hb)
    · exact List.mem_append_right _ (mem_leavesAll_of_reachedAll hbs)

end

section
variable {op : LeafOp} {key : StreamKey} {f : Slot → Slot} {leafOk : Slot → Bool}

mutual

theorem write_isOk (hop : op.Spec key f leafOk) :
    ∀ r : DynRegistry, (r.write op).2.isOk = r.accepts leafOk key
  | memory r => hop.memory_ok r
  | redb r => hop.rows_ok r.table
  | store r => hop.rows_ok r.files
  | remote up served => by
    unfold write accepts
    cases up with
    | true => simpa using write_isOk hop served
    | false => rfl
  | tee near far => by
    have hn := write_isOk hop near
    have hf := write_isOk hop far
    unfold write accepts
    rw [← hn, ← hf]
    split
    · rename_i h
      rw [h]
      rfl
    · rename_i h
      rw [h]
      rfl
  | multi backends policy => by
    unfold write accepts
    cases backends with
    | nil => rfl
    | cons b bs =>
      have hall := writeAll_isOk hop (b :: bs)
      have hne : (writeAll op (b :: bs)).map (·.2) ≠ [] := by simp [writeAll]
      simp only [List.isEmpty_cons, Bool.false_eq_true, if_false, Bool.false_or]
      rw [policy.isOk_outcome op.what hne, ← hall, List.map_map]
      rfl

theorem writeAll_isOk (hop : op.Spec key f leafOk) :
    ∀ bs : List DynRegistry, (writeAll op bs).map (·.2.isOk) = acceptsAll leafOk bs key
  | [] => rfl
  | b :: bs => by
    unfold writeAll acceptsAll
    rw [List.map_cons, write_isOk hop b, writeAll_isOk hop bs]

end

/-- What a write leaves of a `tee`. -/
theorem write_tee (hop : op.Spec key f leafOk) (near far : DynRegistry) :
    ((tee near far).write op).1 =
      tee (near.write op).1 (if near.accepts leafOk key then (far.write op).1 else far) := by
  rw [← write_isOk hop near]
  conv_lhs => unfold write
  split
  · rename_i h
    rw [h]
    rfl
  · rename_i h
    rw [h]
    rfl

theorem write_multi (backends : List DynRegistry) (policy : WritePolicy) :
    ((multi backends policy).write op).1 = multi ((writeAll op backends).map (·.1)) policy := by
  unfold write
  cases backends with
  | nil => rfl
  | cons b bs => rfl

theorem write_remote (up : Bool) (served : DynRegistry) :
    ((remote up served).write op).1 = remote up (if up then (served.write op).1 else served) := by
  cases up <;> rfl

/-! ## The slots after a write -/

theorem mem_rows_write (hop : op.Spec key f leafOk) {k : StreamKey} {s : Slot} (t : Rows)
    (hs : s ∈ [(op.rows t).1.get k]) :
    s ∈ [t.get k] ∨ (k = key ∧ ∃ s₀ ∈ [t.get key], s = f s₀) := by
  obtain rfl := List.mem_singleton.1 hs
  by_cases hk : k = key
  · subst hk
    exact .inr ⟨rfl, _, List.mem_singleton.2 rfl, hop.rows_get t⟩
  · rw [hop.rows_get_ne t k hk]
    exact .inl (List.mem_singleton.2 rfl)

mutual

/-- A slot after a write is one from before, or the write has reached it. -/
theorem mem_leaves_write (hop : op.Spec key f leafOk) {k : StreamKey} {s : Slot} :
    ∀ r : DynRegistry, s ∈ (r.write op).1.leaves k →
      s ∈ r.leaves k ∨ (k = key ∧ ∃ s₀ ∈ r.reached leafOk key, s = f s₀)
  | memory r => by
    intro hs
    obtain rfl : s = .ok ((op.memory r).1.get k) := List.mem_singleton.1 hs
    by_cases hk : k = key
    · subst hk
      exact .inr ⟨rfl, _, List.mem_singleton.2 rfl, hop.memory_get r⟩
    · rw [hop.memory_get_ne r k hk]
      exact .inl (List.mem_singleton.2 rfl)
  | redb r => mem_rows_write hop r.table
  | store r => mem_rows_write hop r.files
  | remote up served => by
    intro hs
    rw [write_remote] at hs
    cases up with
    | false => exact .inl hs
    | true => exact mem_leaves_write hop served hs
  | tee near far => by
    intro hs
    rw [write_tee hop] at hs
    unfold leaves reached
    rcases List.mem_append.1 hs with hn | hf
    · rcases mem_leaves_write hop near hn with h | ⟨hk, s₀, h₀, he⟩
      · exact .inl (List.mem_append_left _ h)
      · exact .inr ⟨hk, s₀, List.mem_append_left _ h₀, he⟩
    · by_cases ha : near.accepts leafOk key = true
      · rw [if_pos ha] at hf ⊢
        rcases mem_leaves_write hop far hf with h | ⟨hk, s₀, h₀, he⟩
        · exact .inl (List.mem_append_right _ h)
        · exact .inr ⟨hk, s₀, List.mem_append_right _ h₀, he⟩
      · rw [if_neg ha] at hf
        exact .inl (List.mem_append_right _ hf)
  | multi backends policy => by
    intro hs
    rw [write_multi] at hs
    exact mem_leavesAll_writeAll hop backends hs

theorem mem_leavesAll_writeAll (hop : op.Spec key f leafOk) {k : StreamKey} {s : Slot} :
    ∀ bs : List DynRegistry, s ∈ leavesAll ((writeAll op bs).map (·.1)) k →
      s ∈ leavesAll bs k ∨ (k = key ∧ ∃ s₀ ∈ reachedAll leafOk bs key, s = f s₀)
  | [] => fun hs => .inl hs
  | b :: bs => by
    intro hs
    unfold leavesAll reachedAll
    rcases List.mem_append.1 hs with hb | hbs
    · rcases mem_leaves_write hop b hb with h | ⟨hk, s₀, h₀, he⟩
      · exact .inl (List.mem_append_left _ h)
      · exact .inr ⟨hk, s₀, List.mem_append_left _ h₀, he⟩
    · rcases mem_leavesAll_writeAll hop bs hbs with h | ⟨hk, s₀, h₀, he⟩
      · exact .inl (List.mem_append_right _ h)
      · exact .inr ⟨hk, s₀, List.mem_append_right _ h₀, he⟩

end

mutual

theorem accepts_write (hop : op.Spec key f leafOk) (hf : ∀ s, leafOk (f s) = leafOk s) :
    ∀ r : DynRegistry,
    (r.write op).1.accepts leafOk key = r.accepts leafOk key
  | memory r => by
    show leafOk (.ok ((op.memory r).1.get key)) = _
    rw [hop.memory_get, hf]
    rfl
  | redb r => by
    show leafOk ((op.rows r.table).1.get key) = _
    rw [hop.rows_get, hf]
    rfl
  | store r => by
    show leafOk ((op.rows r.files).1.get key) = _
    rw [hop.rows_get, hf]
    rfl
  | remote up served => by
    rw [write_remote]
    cases up with
    | false => rfl
    | true =>
      show (true && _) = (true && _)
      rw [← accepts_write hop hf served]
      rfl
  | tee near far => by
    rw [write_tee hop]
    unfold accepts
    rw [accepts_write hop hf near]
    cases near.accepts leafOk key with
    | false => rfl
    | true =>
      show (true && (far.write op).1.accepts leafOk key) = _
      rw [accepts_write hop hf far]
  | multi backends policy => by
    rw [write_multi]
    unfold accepts
    rw [acceptsAll_writeAll hop hf backends]
    cases backends <;> rfl

theorem acceptsAll_writeAll (hop : op.Spec key f leafOk) (hf : ∀ s, leafOk (f s) = leafOk s) :
    ∀ bs : List DynRegistry,
    acceptsAll leafOk ((writeAll op bs).map (·.1)) key = acceptsAll leafOk bs key
  | [] => rfl
  | b :: bs => by
    unfold writeAll
    show (b.write op).1.accepts leafOk key :: acceptsAll leafOk _ key = _
    rw [accepts_write hop hf b, acceptsAll_writeAll hop hf bs]
    rfl

end

mutual

/-- The slots that a write reaches are those it reached before, each written. -/
theorem reached_write (hop : op.Spec key f leafOk) (hf : ∀ s, leafOk (f s) = leafOk s) :
    ∀ r : DynRegistry,
    (r.write op).1.reached leafOk key = (r.reached leafOk key).map f
  | memory r => congrArg (fun s => [s]) (hop.memory_get r)
  | redb r => congrArg (fun s => [s]) (hop.rows_get r.table)
  | store r => congrArg (fun s => [s]) (hop.rows_get r.files)
  | remote up served => by
    rw [write_remote]
    cases up with
    | false => rfl
    | true => exact reached_write hop hf served
  | tee near far => by
    rw [write_tee hop]
    unfold reached
    rw [reached_write hop hf near, accepts_write hop hf near, List.map_append]
    by_cases ha : near.accepts leafOk key = true
    · rw [if_pos ha, if_pos ha, if_pos ha, reached_write hop hf far]
    · rw [if_neg ha, if_neg ha]
      rfl
  | multi backends policy => by
    rw [write_multi]
    exact reachedAll_writeAll hop hf backends

theorem reachedAll_writeAll (hop : op.Spec key f leafOk) (hf : ∀ s, leafOk (f s) = leafOk s) :
    ∀ bs : List DynRegistry,
    reachedAll leafOk ((writeAll op bs).map (·.1)) key = (reachedAll leafOk bs key).map f
  | [] => rfl
  | b :: bs => by
    unfold writeAll
    show (b.write op).1.reached leafOk key ++ reachedAll leafOk _ key = _
    rw [reached_write hop hf b, reachedAll_writeAll hop hf bs, ← List.map_append]
    rfl

end

end

/-! ## Registries that hold the same under some keys -/

section
variable (K : StreamKey → Prop)

mutual

/-- Composed alike, with the same slots under the keys of `K`. -/
def Agree : DynRegistry → DynRegistry → Prop
  | memory r, memory r' => ∀ k, K k → r.get k = r'.get k
  | redb r, redb r' => ∀ k, K k → r.get k = r'.get k
  | store r, store r' => ∀ k, K k → r.get k = r'.get k
  | remote up served, remote up' served' => up = up' ∧ Agree served served'
  | tee near far, tee near' far' => Agree near near' ∧ Agree far far'
  | multi backends policy, multi backends' policy' =>
    policy = policy' ∧ AgreeAll backends backends'
  | _, _ => False

def AgreeAll : List DynRegistry → List DynRegistry → Prop
  | [], [] => True
  | b :: bs, b' :: bs' => Agree b b' ∧ AgreeAll bs bs'
  | _, _ => False

end

mutual

theorem Agree.refl : ∀ r : DynRegistry, Agree K r r
  | memory _ => fun _ _ => rfl
  | redb _ => fun _ _ => rfl
  | store _ => fun _ _ => rfl
  | remote _ served => ⟨rfl, Agree.refl served⟩
  | tee near far => ⟨Agree.refl near, Agree.refl far⟩
  | multi backends _ => ⟨rfl, AgreeAll.refl backends⟩

theorem AgreeAll.refl : ∀ bs : List DynRegistry, AgreeAll K bs bs
  | [] => trivial
  | b :: bs => ⟨Agree.refl b, AgreeAll.refl bs⟩

end

variable {K}

mutual

theorem Agree.get_eq {k : StreamKey} (hk : K k) :
    ∀ {r r' : DynRegistry}, Agree K r r' → r.get k = r'.get k
  | memory _, memory _, h => congrArg Except.ok (h k hk)
  | redb _, redb _, h => h k hk
  | store _, store _, h => h k hk
  | remote up served, remote _ served', ⟨hup, h⟩ => by
    subst hup
    unfold get handleGet
    rw [requestKey_toBytes]
    dsimp only
    rw [Agree.get_eq hk h]
  | tee near far, tee near' far', ⟨hn, hf⟩ => by
    unfold get
    rw [Agree.get_eq hk hn, Agree.get_eq hk hf]
  | multi backends _, multi backends' _, ⟨_, h⟩ => by
    unfold get
    rw [AgreeAll.getFirst_eq hk h]

theorem AgreeAll.getFirst_eq {k : StreamKey} (hk : K k) :
    ∀ {bs bs' : List DynRegistry}, AgreeAll K bs bs' → getFirst bs k = getFirst bs' k
  | [], [], _ => rfl
  | b :: bs, b' :: bs', ⟨hb, hbs⟩ => by
    unfold getFirst
    rw [Agree.get_eq hk hb, AgreeAll.getFirst_eq hk hbs]

end

mutual

theorem Agree.accepts_eq {k : StreamKey} (hk : K k) (leafOk : Slot → Bool) :
    ∀ {r r' : DynRegistry}, Agree K r r' → r.accepts leafOk k = r'.accepts leafOk k
  | memory _, memory _, h => congrArg (fun e => leafOk (.ok e)) (h k hk)
  | redb _, redb _, h => congrArg leafOk (h k hk)
  | store _, store _, h => congrArg leafOk (h k hk)
  | remote up served, remote _ served', ⟨hup, h⟩ => by
    subst hup
    unfold accepts
    rw [Agree.accepts_eq hk leafOk h]
  | tee near far, tee near' far', ⟨hn, hf⟩ => by
    unfold accepts
    rw [Agree.accepts_eq hk leafOk hn, Agree.accepts_eq hk leafOk hf]
  | multi backends policy, multi backends' _, ⟨hp, h⟩ => by
    subst hp
    unfold accepts
    rw [AgreeAll.acceptsAll_eq hk leafOk h]
    cases backends <;> cases backends' <;> first | rfl | exact h.elim

theorem AgreeAll.acceptsAll_eq {k : StreamKey} (hk : K k) (leafOk : Slot → Bool) :
    ∀ {bs bs' : List DynRegistry}, AgreeAll K bs bs' →
      acceptsAll leafOk bs k = acceptsAll leafOk bs' k
  | [], [], _ => rfl
  | b :: bs, b' :: bs', ⟨hb, hbs⟩ => by
    unfold acceptsAll
    rw [Agree.accepts_eq hk leafOk hb, AgreeAll.acceptsAll_eq hk leafOk hbs]

end

section
variable {op : LeafOp} {key : StreamKey} {f : Slot → Slot} {leafOk : Slot → Bool}

theorem memory_get_write (hop : op.Spec key f leafOk) (r : MemoryRegistry) (k : StreamKey) :
    (.ok ((op.memory r).1.get k) : Slot) = if k = key then f (.ok (r.get k)) else .ok (r.get k) := by
  split
  · rename_i hk
    subst hk
    exact hop.memory_get r
  · rename_i hk
    rw [hop.memory_get_ne r k hk]

theorem rows_get_write (hop : op.Spec key f leafOk) (t : Rows) (k : StreamKey) :
    (op.rows t).1.get k = if k = key then f (t.get k) else t.get k := by
  split
  · rename_i hk
    subst hk
    exact hop.rows_get t
  · rename_i hk
    exact hop.rows_get_ne t k hk

mutual

/-- A write on both sides keeps the agreement. -/
theorem agree_write (hop : op.Spec key f leafOk) (hk : K key) :
    ∀ {r r' : DynRegistry}, Agree K r r' → Agree K (r.write op).1 (r'.write op).1
  | memory r, memory r', h => fun k hK => by
    have hg : (.ok ((op.memory r).1.get k) : Slot) = .ok ((op.memory r').1.get k) := by
      rw [memory_get_write hop, memory_get_write hop, h k hK]
    exact Except.ok.inj hg
  | redb r, redb r', h => fun k hK => by
    have hg : r.table.get k = r'.table.get k := h k hK
    show (op.rows r.table).1.get k = (op.rows r'.table).1.get k
    rw [rows_get_write hop, rows_get_write hop, hg]
  | store r, store r', h => fun k hK => by
    have hg : r.files.get k = r'.files.get k := h k hK
    show (op.rows r.files).1.get k = (op.rows r'.files).1.get k
    rw [rows_get_write hop, rows_get_write hop, hg]
  | remote up served, remote _ served', ⟨hup, h⟩ => by
    subst hup
    rw [write_remote, write_remote]
    cases up with
    | false => exact ⟨rfl, h⟩
    | true => exact ⟨rfl, agree_write hop hk h⟩
  | tee near far, tee near' far', ⟨hn, hf⟩ => by
    rw [write_tee hop, write_tee hop, hn.accepts_eq hk leafOk]
    refine ⟨agree_write hop hk hn, ?_⟩
    split
    · exact agree_write hop hk hf
    · exact hf
  | multi backends policy, multi backends' _, ⟨hp, h⟩ => by
    rw [write_multi, write_multi]
    exact ⟨hp, agreeAll_writeAll hop hk h⟩

theorem agreeAll_writeAll (hop : op.Spec key f leafOk) (hk : K key) :
    ∀ {bs bs' : List DynRegistry}, AgreeAll K bs bs' →
      AgreeAll K ((writeAll op bs).map (·.1)) ((writeAll op bs').map (·.1))
  | [], [], _ => trivial
  | _ :: _, _ :: _, ⟨hb, hbs⟩ => ⟨agree_write hop hk hb, agreeAll_writeAll hop hk hbs⟩

end

mutual

/-- A write on one side keeps the agreement if it changes no slot under a key of `K`. -/
theorem agree_write_left (hop : op.Spec key f leafOk) :
    ∀ {r r' : DynRegistry}, Agree K r r' → (K key → ∀ s ∈ r.reached leafOk key, f s = s) →
      Agree K (r.write op).1 r'
  | memory r, memory r', h, hs => fun k hK => by
    have hg : (.ok ((op.memory r).1.get k) : Slot) = .ok (r.get k) := by
      rw [memory_get_write hop]
      split
      · rename_i hk
        subst hk
        exact hs hK _ (List.mem_singleton.2 rfl)
      · rfl
    rw [← h k hK]
    exact Except.ok.inj hg
  | redb r, redb r', h, hs => fun k hK => by
    rw [← h k hK]
    show (op.rows r.table).1.get k = r.table.get k
    rw [rows_get_write hop]
    split
    · rename_i hk
      subst hk
      exact hs hK _ (List.mem_singleton.2 rfl)
    · rfl
  | store r, store r', h, hs => fun k hK => by
    rw [← h k hK]
    show (op.rows r.files).1.get k = r.files.get k
    rw [rows_get_write hop]
    split
    · rename_i hk
      subst hk
      exact hs hK _ (List.mem_singleton.2 rfl)
    · rfl
  | remote up served, remote _ served', ⟨hup, h⟩, hs => by
    subst hup
    rw [write_remote]
    cases up with
    | false => exact ⟨rfl, h⟩
    | true => exact ⟨rfl, agree_write_left hop h hs⟩
  | tee near far, tee near' far', ⟨hn, hf⟩, hs => by
    unfold reached at hs
    rw [write_tee hop]
    refine ⟨agree_write_left hop hn fun hK s hm => hs hK s (List.mem_append_left _ hm), ?_⟩
    split
    · rename_i ha
      rw [if_pos ha] at hs
      exact agree_write_left hop hf fun hK s hm => hs hK s (List.mem_append_right _ hm)
    · exact hf
  | multi backends policy, multi backends' _, ⟨hp, h⟩, hs => by
    rw [write_multi]
    exact ⟨hp, agreeAll_writeAll_left hop h hs⟩

theorem agreeAll_writeAll_left (hop : op.Spec key f leafOk) :
    ∀ {bs bs' : List DynRegistry}, AgreeAll K bs bs' →
      (K key → ∀ s ∈ reachedAll leafOk bs key, f s = s) →
      AgreeAll K ((writeAll op bs).map (·.1)) bs'
  | [], [], _, _ => trivial
  | _ :: _, _ :: _, ⟨hb, hbs⟩, hs =>
    ⟨agree_write_left hop hb fun hK s hm => hs hK s (List.mem_append_left _ hm),
      agreeAll_writeAll_left hop hbs fun hK s hm => hs hK s (List.mem_append_right _ hm)⟩

end

end

end

end DynRegistry

end Registry
