import S5.Registry.Proof.Peers

/-!
# When publishing takes effect

* `publish_takes_effect_iff`: after a successful `publish` the revision has not overflowed, every
  backend that accepted the write holds the new entry and `get` answers with its hash
  (`TakesEffect`), exactly when the current revision has a successor, no backend in reach holds an
  entry that the new one does not beat, and a read meets a written backend first (`Effective`).
  The composed `get` that the revision is taken from may answer from a backend that is behind.
-/

namespace Registry

open DynRegistry

/-! ## What a read meets -/

namespace DynRegistry

/-- What a read meets in a slot of rows. -/
def meetsRow (s : Slot) (written : Bool) : Except Unit (Option (Option StreamMessage)) :=
  match s with
  | .error _ => .error ()
  | .ok e => .ok (if written then some none else e.map some)

mutual

/-- The first backend with an entry, in the order of reads, once every backend that a write of
`key` gets to has taken it: `some none` for one that the write gets to, `some (some e)` for one out
of its way. `written` says whether the write gets to this part of the composition. -/
def meets : DynRegistry → StreamKey → Bool → Except Unit (Option (Option StreamMessage))
  | memory r, key, written => .ok (if written then some none else (r.get key).map some)
  | redb r, key, written => meetsRow (r.get key) written
  | store r, key, written => meetsRow (r.get key) written
  | remote up served, key, written =>
    if up then .ok (match served.meets key written with
      | .ok x => x
      | .error _ => none)
    else .error ()
  | tee near far, key, written =>
    match near.meets key written with
    | .error e => .error e
    | .ok (some x) => .ok (some x)
    | .ok none => far.meets key (written && near.accepts Except.isOk key)
  | multi backends _, key, written => .ok (meetsFirst backends key written)

def meetsFirst : List DynRegistry → StreamKey → Bool → Option (Option StreamMessage)
  | [], _, _ => none
  | b :: bs, key, written =>
    match b.meets key written with
    | .ok (some x) => some x
    | .ok none => meetsFirst bs key written
    | .error _ => meetsFirst bs key written

end

/-- What a read answers by what it meets, the written entry being `m`. -/
def Answers (m : StreamMessage) : Except Unit (Option (Option StreamMessage)) → Slot → Prop
  | .error _, .error _ => True
  | .ok none, .ok none => True
  | .ok (some none), .ok (some e) => e = m
  | .ok (some (some e₀)), .ok (some e) => e.hash = e₀.hash
  | _, _ => False

/-- Every backend that a write of `m` gets to takes it or holds it already. -/
def Taken (m : StreamMessage) (r : DynRegistry) : Prop :=
  ∀ e, .ok e ∈ r.reached Except.isOk m.key → Slot.put m (.ok e) = .ok (some m)

/-- The registry, with the write if it gets there. -/
def written (m : StreamMessage) (w : Bool) (r : DynRegistry) : DynRegistry :=
  if w then (r.write (.set m)).1 else r

def writtenAll (m : StreamMessage) (w : Bool) (bs : List DynRegistry) : List DynRegistry :=
  if w then (writeAll (.set m) bs).map (·.1) else bs

theorem answers_slot {m : StreamMessage} {s : Slot} {w : Bool}
    (h : w = true → ∀ e, s = .ok e → Slot.put m (.ok e) = .ok (some m)) :
    Answers m (meetsRow s w) (if w then s.put m else s) := by
  cases s with
  | error x => cases w <;> exact trivial
  | ok e =>
    cases w with
    | true =>
      show Answers m (.ok (some none)) (Slot.put m (.ok e))
      rw [h rfl e rfl]
      rfl
    | false => cases e <;> trivial

variable {m : StreamMessage}

theorem answers_remote (hm : m.wire = m) {a : Except Unit (Option (Option StreamMessage))}
    {s : Slot} : Answers m a s → Answers m
      (.ok (match a with
        | .ok x => x
        | .error _ => none))
      (.ok (match s with
        | .ok (some e) => some e.wire
        | _ => none)) := by
  intro h
  obtain _ | _ | _ | e₀ := a <;> obtain _ | _ | e := s <;> first | exact trivial | exact h.elim | skip
  · show e.wire = m
    rw [show e = m from h, hm]
  · exact h

theorem answers_tee {a b : Except Unit (Option (Option StreamMessage))} {s t : Slot} :
    Answers m a s → Answers m b t → Answers m
      (match a with
        | .error e => .error e
        | .ok (some x) => .ok (some x)
        | .ok none => b)
      (match s with
        | .error e => .error e
        | .ok (some e) => .ok (some e)
        | .ok none => t) := by
  intro ha hb
  obtain _ | _ | _ | e₀ := a <;> obtain _ | _ | e := s <;>
    first | exact ha.elim | exact ha | exact hb

theorem answers_first {a : Except Unit (Option (Option StreamMessage))} {s : Slot}
    {x : Option (Option StreamMessage)} {y : Option StreamMessage} :
    Answers m a s → Answers m (.ok x) (.ok y) → Answers m
      (.ok (match a with
        | .ok (some z) => some z
        | .ok none => x
        | .error _ => x))
      (.ok (match s with
        | .ok (some e) => some e
        | .ok none => y
        | .error _ => y)) := by
  intro ha h
  obtain _ | _ | _ | e₀ := a <;> obtain _ | _ | e := s <;>
    first | exact ha.elim | exact h | exact ha

theorem written_memory_get (hm : m.wire = m) (w : Bool) (r : MemoryRegistry) :
    (written m w (memory r)).get m.key =
      if w then Slot.put m (.ok (r.get m.key)) else .ok (r.get m.key) := by
  cases w with
  | true => exact (LeafOp.spec_set hm).memory_get r
  | false => rfl

mutual

/-- **A read after the write** answers as what it meets says. -/
theorem answers_meets (hm : m.wire = m) : ∀ (r : DynRegistry) (w : Bool), (w = true → Taken m r) →
    Answers m (r.meets m.key w) ((written m w r).get m.key)
  | memory r, w, h => by
    rw [written_memory_get hm]
    exact answers_slot fun hw e he => h hw e (List.mem_singleton.2 he.symm)
  | redb r, w, h => by
    have hg : (written m w (redb r)).get m.key =
        if w then Slot.put m (r.get m.key) else r.get m.key := by
      cases w with
      | true => exact (LeafOp.spec_set hm).rows_get r.table
      | false => rfl
    rw [hg]
    exact answers_slot fun hw e he => h hw e (List.mem_singleton.2 he.symm)
  | store r, w, h => by
    have hg : (written m w (store r)).get m.key =
        if w then Slot.put m (r.get m.key) else r.get m.key := by
      cases w with
      | true => exact (LeafOp.spec_set hm).rows_get r.files
      | false => rfl
    rw [hg]
    exact answers_slot fun hw e he => h hw e (List.mem_singleton.2 he.symm)
  | remote up served, w, h => by
    cases up with
    | false => cases w <;> exact trivial
    | true =>
      have hs := answers_meets hm served w h
      have hg : (written m w (remote true served)).get m.key =
          (remote true (written m w served)).get m.key := by
        cases w <;> rfl
      rw [hg, get_remote]
      exact answers_remote hm hs
  | tee near far, w, h => by
    have hn := answers_meets hm near w fun hw e he => h hw e (List.mem_append_left _ he)
    have hf := answers_meets hm far (w && near.accepts Except.isOk m.key) fun hw e he => by
      obtain ⟨hw, ha⟩ := Bool.and_eq_true_iff.1 hw
      refine h hw e (List.mem_append_right _ ?_)
      rw [if_pos ha]
      exact he
    have hg : written m w (tee near far) =
        tee (written m w near) (written m (w && near.accepts Except.isOk m.key) far) := by
      cases w with
      | true => exact write_tee (LeafOp.spec_set hm) near far
      | false => rfl
    rw [hg]
    conv_rhs => unfold DynRegistry.get
    unfold meets
    exact answers_tee hn hf
  | multi backends policy, w, h => by
    have hg : written m w (multi backends policy) = multi (writtenAll m w backends) policy := by
      cases w with
      | true => exact write_multi backends policy
      | false => rfl
    rw [hg]
    exact answers_meetsFirst hm backends w h

theorem answers_meetsFirst (hm : m.wire = m) : ∀ (bs : List DynRegistry) (w : Bool),
    (w = true → ∀ e, .ok e ∈ reachedAll Except.isOk bs m.key → Slot.put m (.ok e) = .ok (some m)) →
    Answers m (.ok (meetsFirst bs m.key w)) (.ok (getFirst (writtenAll m w bs) m.key))
  | [], w, _ => by cases w <;> exact trivial
  | b :: bs, w, h => by
    have hb := answers_meets hm b w fun hw e he => h hw e (List.mem_append_left _ he)
    have hbs := answers_meetsFirst hm bs w fun hw e he => h hw e (List.mem_append_right _ he)
    have hg : writtenAll m w (b :: bs) = written m w b :: writtenAll m w bs := by
      cases w <;> rfl
    rw [hg]
    unfold meetsFirst getFirst
    exact answers_first hb hbs

end

end DynRegistry

/-! ## Publishing -/

/-- The write of `entry` has taken effect from `r` to `r'`, where `current` was read before. -/
structure TakesEffect (r' : DynRegistry) (current : Option StreamMessage) (entry : StreamMessage) :
    Prop where
  no_overflow : ∀ e ∈ current, e.revision.toNat + 1 < 2 ^ 64
  held : ∀ e, .ok e ∈ r'.reached Except.isOk entry.key → e = some entry
  read : ∃ e, r'.get entry.key = .ok (some e) ∧ e.hash = entry.hash

/-- What publishing `entry` asks of the backends. -/
structure Effective (r : DynRegistry) (current : Option StreamMessage) (entry : StreamMessage) :
    Prop where
  successor : ∀ e ∈ current, e.revision.toNat + 1 < 2 ^ 64
  beats : ∀ e, .ok (some e) ∈ r.reached Except.isOk entry.key → e.rank < entry.rank ∨ e = entry
  meets : ∃ x, r.meets entry.key true = .ok (some x) ∧ ∀ e ∈ x, e.hash = entry.hash

section
variable {sign : Bytes32 → Bytes → Vector UInt8 64} {r : DynRegistry} {publicKey : StreamKey}
  {signingKey : Bytes32} {hash : Hash} {current : Option StreamMessage} {entry : StreamMessage}

theorem newEntry_eq_ok (h : newEntry sign publicKey signingKey current hash = .ok entry) :
    entry.typeId = .registry ∧ entry.key = publicKey ∧ entry.hash = hash ∧ entry.wire = entry := by
  obtain ⟨ht, hk, -, hh, -, hd⟩ := StreamMessage.new_eq_ok h
  refine ⟨ht, hk, hh, StreamMessage.wire_eq_self ?_⟩
  rw [hd]
  simp

theorem publish_eq (hget : r.get publicKey = .ok current)
    (hentry : newEntry sign publicKey signingKey current hash = .ok entry) :
    publish sign r publicKey signingKey hash = r.write (.set entry) := by
  have hg : RegistryApi.get r publicKey = .ok current := hget
  unfold publish
  rw [hg]
  dsimp only
  rw [hentry]
  exact set_eq_write (newEntry_eq_ok hentry).2.2.2 r

/-- A backend ends up with the entry exactly when the entry beats or is what it holds. -/
theorem put_eq_entry_iff (ht : entry.typeId = .registry) (e : Option StreamMessage) :
    Slot.put entry (.ok e) = .ok (some entry) ↔ ∀ e' ∈ e, e'.rank < entry.rank ∨ e' = entry := by
  cases e with
  | none => simp [Slot.put, StreamMessage.shouldStore, ht]
  | some e =>
    by_cases hgt : entry.cmp e = .gt
    · have hlt : e.rank < entry.rank := StreamMessage.cmp_eq_gt.1 hgt
      simp [Slot.put, StreamMessage.shouldStore, ht, hgt, hlt]
    · have hnlt : ¬ e.rank < entry.rank := fun hlt => hgt (StreamMessage.cmp_eq_gt.2 hlt)
      simp [Slot.put, StreamMessage.shouldStore, ht, hgt, hnlt]

theorem taken_iff (ht : entry.typeId = .registry) :
    Taken entry r ↔
      ∀ e, .ok (some e) ∈ r.reached Except.isOk entry.key → e.rank < entry.rank ∨ e = entry := by
  unfold Taken
  simp only [put_eq_entry_iff ht]
  constructor
  · intro h e he
    exact h (some e) he e rfl
  · rintro h e he e' rfl
    exact h e' he

theorem held_iff (hw : entry.wire = entry) :
    (∀ e, .ok e ∈ (r.write (.set entry)).1.reached Except.isOk entry.key → e = some entry) ↔
      Taken entry r := by
  rw [reached_write (LeafOp.spec_set hw) (Slot.isOk_put entry)]
  constructor
  · intro h e he
    have hp : Slot.put entry (.ok e) = .ok (if entry.shouldStore e then some entry else e) := rfl
    have hmem := List.mem_map_of_mem (f := Slot.put entry) he
    rw [hp] at hmem ⊢
    rw [h _ hmem]
  · intro h e he
    obtain ⟨s, hs, hput⟩ := List.mem_map.1 he
    cases s with
    | error x => exact nomatch hput
    | ok e₀ =>
      rw [h e₀ hs] at hput
      exact (Except.ok.inj hput).symm

/-- What a read meets decides whether it answers with the hash. -/
theorem read_iff {a : Except Unit (Option (Option StreamMessage))} {s : Slot}
    (h : Answers entry a s) :
    (∃ e, s = .ok (some e) ∧ e.hash = entry.hash) ↔
      ∃ x, a = .ok (some x) ∧ ∀ e ∈ x, e.hash = entry.hash := by
  obtain _ | _ | _ | e₀ := a <;> obtain _ | _ | e := s <;> first | exact h.elim | simp
  · rw [show e = entry from h]
  · rw [show e.hash = e₀.hash from h]

theorem takesEffect_iff (hget : r.get publicKey = .ok current)
    (hentry : newEntry sign publicKey signingKey current hash = .ok entry) :
    TakesEffect (publish sign r publicKey signingKey hash).1 current entry ↔
      Effective r current entry := by
  obtain ⟨ht, -, -, hw⟩ := newEntry_eq_ok hentry
  rw [publish_eq hget hentry]
  constructor
  · intro h
    have htaken := (held_iff hw).1 h.held
    exact ⟨h.no_overflow, (taken_iff ht).1 htaken,
      (read_iff (answers_meets hw r true fun _ => htaken)).1 h.read⟩
  · intro h
    have htaken := (taken_iff ht).2 h.beats
    exact ⟨h.successor, (held_iff hw).2 htaken,
      (read_iff (answers_meets hw r true fun _ => htaken)).2 h.meets⟩

/-- A publication succeeds when the backends that must take the write can. -/
theorem publish_ok_iff (hget : r.get publicKey = .ok current)
    (hentry : newEntry sign publicKey signingKey current hash = .ok entry) :
    (publish sign r publicKey signingKey hash).2 = .ok () ↔
      r.accepts Except.isOk publicKey = true := by
  obtain ⟨-, hk, -, hw⟩ := newEntry_eq_ok hentry
  rw [publish_eq hget hentry, ← hk, ← write_isOk (LeafOp.spec_set hw)]
  generalize (r.write (.set entry)).2 = res
  obtain _ | _ := res <;> simp [Except.isOk, Except.toBool]

variable (sign r publicKey signingKey hash)

/-- If publishing succeeds it takes effect. -/
def PublishTakesEffect : Prop :=
  (publish sign r publicKey signingKey hash).2 = .ok () →
    ∀ current entry, r.get publicKey = .ok current →
      newEntry sign publicKey signingKey current hash = .ok entry →
      TakesEffect (publish sign r publicKey signingKey hash).1 current entry

/-- **A successful publication takes effect** exactly when, unless the backends refuse it, the
entry beats what the backends hold and a read meets it. -/
theorem publish_takes_effect_iff :
    PublishTakesEffect sign r publicKey signingKey hash ↔
      ∀ current entry, r.get publicKey = .ok current →
        newEntry sign publicKey signingKey current hash = .ok entry →
        r.accepts Except.isOk publicKey = true → Effective r current entry := by
  constructor
  · intro h current entry hget hentry hacc
    have hok := (publish_ok_iff hget hentry).2 hacc
    exact (takesEffect_iff hget hentry).1 (h hok current entry hget hentry)
  · intro h hok current entry hget hentry
    have hacc := (publish_ok_iff hget hentry).1 hok
    exact (takesEffect_iff hget hentry).2 (h current entry hget hentry hacc)

end

/-- An entry under the key `publicKeyEd25519 1`. -/
def signedEntry (revision : UInt64) (hash : Hash) : StreamMessage :=
  ⟨.registry, .publicKeyEd25519 1, revision, hash, List.replicate 64 0, none, rfl,
    fun _ => Nat.zero_le _⟩

def memoryAt (revision : UInt64) : DynRegistry :=
  .memory (MemoryRegistry.new.set (signedEntry revision 9))

/-- At the last revision the new entry wraps to revision 0 and is ignored; behind a local registry
that lags, the remote one ignores it. -/
theorem publish_without_effect :
    let sign : Bytes32 → Bytes → Vector UInt8 64 := fun _ _ => .replicate 64 0
    ¬ PublishTakesEffect sign (memoryAt (.ofNat (2 ^ 64 - 1))) (.publicKeyEd25519 1) 2 7 ∧
      ¬ PublishTakesEffect sign (.tee (memoryAt 1) (memoryAt 5)) (.publicKeyEd25519 1) 2 7 := by
  constructor
  · intro h
    have he := h (by decide +kernel) (some (signedEntry (.ofNat (2 ^ 64 - 1)) 9)) (signedEntry 0 7)
      (by decide +kernel) (by decide +kernel)
    exact absurd (he.no_overflow _ rfl) (by decide +kernel)
  · intro h
    have he := h (by decide +kernel) (some (signedEntry 1 9)) (signedEntry 2 7)
      (by decide +kernel) (by decide +kernel)
    have hfar := he.held (some (signedEntry 5 9)) (by decide +kernel)
    exact absurd hfar (by decide +kernel)

end Registry
