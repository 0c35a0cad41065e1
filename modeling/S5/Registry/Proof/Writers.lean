import S5.Registry.Proof.Converge

/-!
# Writers of one entry

Calls of `StoreRegistry::set` for one key that run at once. A call that has read an older entry may
write after one that has read it too and is newer: the write lands on a higher entry and hides it.

* `kept_iff`: every message whose call has returned is still there or outranked, along a run, exactly
  when no write lands on an entry above it (`NotOlder`).
* `newest_survives`: once all calls of such a run have returned, none of their messages is above the
  entry.
-/

namespace Registry

namespace Writers

variable {key : StreamKey} {s : Writers} {i : Nat}

/-- No message whose call has returned `Ok` is above the entry. -/
def Kept (key : StreamKey) (s : Writers) : Prop :=
  ∀ t ∈ s.tasks, t.isOk = true →
    ∃ e, s.registry.get key = .ok (some e) ∧ t.message.cmp e ≠ .gt

/-- The next step of call `i` is no write of a message to an entry above it. -/
def NotOlder (key : StreamKey) (s : Writers) (i : Nat) : Prop :=
  match s.tasks[i]?, s.registry.get key with
  | some (.writing m), .ok (some e) => e.cmp m ≠ .gt
  | _, _ => True

instance (s : Writers) (i : Nat) : Decidable (NotOlder key s i) := by
  unfold NotOlder
  split <;> infer_instance

theorem notOlder_iff : s.NotOlder key i ↔
    ∀ m e, s.tasks[i]? = some (.writing m) → s.registry.get key = .ok (some e) → e.cmp m ≠ .gt := by
  unfold NotOlder
  split
  · rename_i m e hi he
    simp [hi, he]
  · rename_i hno
    simp only [true_iff]
    intro m e hi he
    exact absurd he (hno m e hi)

/-- All calls have returned `Ok`. -/
def AllOk (s : Writers) : Prop := ∀ t ∈ s.tasks, t.isOk = true

/-- A call that is about to write has read an entry below its message, which is still there unless
another call has written since. -/
structure Reading (key : StreamKey) (s : Writers) : Prop where
  messages : ∀ t ∈ s.tasks, t.message.key = key ∧ t.message.typeId = .registry
  read : ∀ m, .writing m ∈ s.tasks → ∀ e, s.registry.get key = .ok (some e) →
    e.rank < m.rank ∨ ∃ t ∈ s.tasks, t.isOk = true ∧ e.rank ≤ t.message.rank

/-! ## Steps -/

/-- What one step of a call can do. -/
theorem step_cases (hs : s.Reading key) (i : Nat) :
    s.step i = s ∨
    (∃ m e, s.tasks[i]? = some (.start m) ∧ s.registry.get key = .error e ∧
      s.step i = ⟨s.registry, s.tasks.set i (.returned m (.error e))⟩) ∨
    (∃ m, s.tasks[i]? = some (.start m) ∧
      (∀ e, s.registry.get key = .ok (some e) → e.rank < m.rank) ∧
      s.step i = ⟨s.registry, s.tasks.set i (.writing m)⟩) ∨
    (∃ m e, s.tasks[i]? = some (.start m) ∧ s.registry.get key = .ok (some e) ∧ m.rank ≤ e.rank ∧
      s.step i = ⟨s.registry, s.tasks.set i (.returned m (.ok ()))⟩) ∨
    ∃ m, s.tasks[i]? = some (.writing m) ∧
      s.step i = ⟨s.registry.put m, s.tasks.set i (.returned m (.ok ()))⟩ := by
  unfold step
  cases ht : s.tasks[i]? with
  | none => exact .inl rfl
  | some t =>
    obtain ⟨hkey, htype⟩ := hs.messages t (List.mem_of_getElem? ht)
    dsimp only
    cases t with
    | returned m a =>
      refine .inl ?_
      simp only [SetTask.step]
      obtain ⟨hlt, he⟩ := List.getElem?_eq_some_iff.1 ht
      rw [← he, List.set_getElem_self]
    | writing m => exact .inr (.inr (.inr (.inr ⟨m, rfl, rfl⟩)))
    | start m =>
      have hkey : m.key = key := hkey
      have htype : m.typeId = .registry := htype
      subst hkey
      simp only [SetTask.step]
      cases hg : s.registry.get m.key with
      | error e => exact .inr (.inl ⟨m, e, rfl, rfl, rfl⟩)
      | ok existing =>
        dsimp only
        by_cases hst : m.shouldStore existing = true
        · refine .inr (.inr (.inl ⟨m, rfl, fun e he => ?_, by rw [if_pos hst]⟩))
          obtain rfl := Except.ok.inj he
          simpa [StreamMessage.shouldStore, htype, StreamMessage.cmp_eq_gt] using hst
        · cases existing with
          | none => simp [StreamMessage.shouldStore, htype] at hst
          | some e =>
            refine .inr (.inr (.inr (.inl ⟨m, e, rfl, rfl, ?_, by rw [if_neg hst]⟩)))
            simpa [StreamMessage.shouldStore, htype, StreamMessage.cmp_eq_gt] using hst

/-- A call that has returned stays, whichever other one takes a step. -/
theorem mem_set_of_ne {t t' x : SetTask} (ht : t ∈ s.tasks) (hx : s.tasks[i]? = some x) (hne : t ≠ x) :
    t ∈ s.tasks.set i t' := by
  obtain ⟨j, hj⟩ := List.getElem?_of_mem ht
  refine List.mem_of_getElem? (i := j) ?_
  rw [List.getElem?_set_ne]
  · exact hj
  · rintro rfl
    exact hne (Option.some.inj (hj.symm.trans hx))

theorem mem_set_self {t x : SetTask} (hx : s.tasks[i]? = some x) : t ∈ s.tasks.set i t :=
  List.mem_set (List.getElem?_eq_some_iff.1 hx).1 t

/-- A step that leaves the registry and turns a call that has not returned into `t'`. -/
theorem Reading.set (h : s.Reading key) {x t' : SetTask} (hx : s.tasks[i]? = some x)
    (hnot : x.isOk = false) (hmsg : t'.message = x.message)
    (hread : ∀ m, t' = .writing m → ∀ e, s.registry.get key = .ok (some e) → e.rank < m.rank) :
    Reading key ⟨s.registry, s.tasks.set i t'⟩ := by
  refine ⟨fun t ht => ?_, fun m hm e he => ?_⟩
  · rcases List.mem_or_eq_of_mem_set ht with ht | rfl
    · exact h.messages t ht
    · rw [hmsg]
      exact h.messages x (List.mem_of_getElem? hx)
  · rcases List.mem_or_eq_of_mem_set hm with hm | rfl
    · refine (h.read m hm e he).imp_right ?_
      rintro ⟨t, ht, hok, hle⟩
      refine ⟨t, mem_set_of_ne ht hx ?_, hok, hle⟩
      rintro rfl
      simp [hnot] at hok
    · exact .inl (hread m rfl e he)

/-- **Every step keeps `Reading`.** -/
theorem reading_step (h : s.Reading key) (i : Nat) : (s.step i).Reading key := by
  rcases step_cases h i with he | ⟨m, e, hi, -, he⟩ | ⟨m, hi, hlt, he⟩ | ⟨m, e, hi, -, -, he⟩ |
    ⟨m, hi, he⟩
  · rw [he]
    exact h
  · rw [he]
    exact h.set hi rfl rfl fun _ hw => by cases hw
  · rw [he]
    refine h.set hi rfl rfl fun m' hw => ?_
    cases hw
    exact hlt
  · rw [he]
    exact h.set hi rfl rfl fun _ hw => by cases hw
  · -- the entry is now the message of a call that has returned
    have hkey : m.key = key := (h.messages _ (List.mem_of_getElem? hi)).1
    rw [he]
    refine ⟨fun t ht => ?_, fun m' _ e hget => .inr ⟨_, mem_set_self hi, rfl, ?_⟩⟩
    · rcases List.mem_or_eq_of_mem_set ht with ht | rfl
      · exact h.messages t ht
      · exact h.messages (.writing m) (List.mem_of_getElem? hi)
    · subst hkey
      rw [PathRegistry.get_put] at hget
      obtain rfl := Option.some.inj (Except.ok.inj hget)
      exact le_refl _

theorem reading_started (r : PathRegistry) {messages : List StreamMessage}
    (hm : ∀ m ∈ messages, m.key = key ∧ m.typeId = .registry) :
    (started r messages).Reading key := by
  refine ⟨fun t ht => ?_, fun m hw => ?_⟩
  · obtain ⟨m, hmem, rfl⟩ := List.mem_map.1 ht
    exact hm m hmem
  · obtain ⟨m', -, hcontra⟩ := List.mem_map.1 hw
    cases hcontra

/-! ## Writes -/

/-- A step that leaves the registry keeps what is kept, if a call that returns by it is not above the
entry. -/
theorem Kept.set (h : s.Kept key) {t' : SetTask}
    (hok : t'.isOk = true → ∃ e, s.registry.get key = .ok (some e) ∧ t'.message.rank ≤ e.rank) :
    Kept key ⟨s.registry, s.tasks.set i t'⟩ := by
  intro t ht hret
  rcases List.mem_or_eq_of_mem_set ht with ht | rfl
  · exact h t ht hret
  · obtain ⟨e, he, hle⟩ := hok hret
    exact ⟨e, he, cmp_ne_gt.2 hle⟩

/-- A write keeps what is kept exactly if the entry is not above it. -/
theorem kept_write_iff (h : s.Reading key) (hk : s.Kept key) {m : StreamMessage}
    (hi : s.tasks[i]? = some (.writing m)) :
    Kept key ⟨s.registry.put m, s.tasks.set i (.returned m (.ok ()))⟩ ↔ s.NotOlder key i := by
  have hkey : m.key = key := (h.messages _ (List.mem_of_getElem? hi)).1
  subst hkey
  have hget := s.registry.get_put m
  rw [notOlder_iff]
  constructor
  · intro hafter m' e hi' he
    obtain rfl : m = m' := SetTask.writing.inj (Option.some.inj (hi.symm.trans hi'))
    rw [cmp_ne_gt]
    rcases h.read m (List.mem_of_getElem? hi) e he with hlt | ⟨t, ht, hok, hle⟩
    · exact le_of_lt hlt
    · have hne : t ≠ .writing m := by
        rintro rfl
        cases hok
      obtain ⟨e', he', hcmp⟩ := hafter t (mem_set_of_ne ht hi hne) hok
      obtain rfl := Option.some.inj (Except.ok.inj (hget.symm.trans he'))
      exact hle.trans (cmp_ne_gt.1 hcmp)
  · intro hnot t ht hok
    refine ⟨m.wire, hget, ?_⟩
    rw [cmp_ne_gt, StreamMessage.rank_wire]
    rcases List.mem_or_eq_of_mem_set ht with ht | rfl
    · obtain ⟨e, he, hcmp⟩ := hk t ht hok
      exact (cmp_ne_gt.1 hcmp).trans (cmp_ne_gt.1 (hnot m e hi he))
    · exact le_refl _

theorem kept_step_iff (h : s.Reading key) (hk : s.Kept key) (i : Nat) :
    (s.step i).Kept key ↔ s.NotOlder key i := by
  have hstart : ∀ m, s.tasks[i]? = some (.start m) → s.NotOlder key i := by
    intro m hi
    rw [notOlder_iff]
    intro m' e hi' _
    have hcontra := hi.symm.trans hi'
    cases hcontra
  rcases step_cases h i with he | ⟨m, e, hi, -, he⟩ | ⟨m, hi, -, he⟩ | ⟨m, e, hi, hg, hle, he⟩ |
    ⟨m, hi, he⟩
  · refine iff_of_true (by rw [he]; exact hk) (notOlder_iff.2 fun m e hi _ => ?_)
    -- a write changes its call
    have hsame : (s.step i).tasks[i]? = some (.writing m) := by
      rw [he]
      exact hi
    unfold step at hsame
    rw [hi] at hsame
    simp [SetTask.step, (List.getElem?_eq_some_iff.1 hi).1] at hsame
  · rw [he]
    exact iff_of_true (hk.set fun hok => by cases hok) (hstart m hi)
  · rw [he]
    exact iff_of_true (hk.set fun hok => by cases hok) (hstart m hi)
  · rw [he]
    exact iff_of_true (hk.set fun _ => ⟨e, hg, hle⟩) (hstart m hi)
  · rw [he]
    exact kept_write_iff h hk hi

/-- **Messages are kept along a run** exactly when no write lands on an entry above it. -/
theorem kept_iff (r : PathRegistry) {messages : List StreamMessage}
    (hm : ∀ m ∈ messages, m.key = key ∧ m.typeId = .registry) (schedule : List Nat) :
    Run.Always step (Kept key) (started r messages) schedule ↔
      Run.Steps step (NotOlder key) (started r messages) schedule := by
  refine Run.always_iff_of_invariant (fun s i h => reading_step h i)
    (fun s i h hk => kept_step_iff h hk i) (reading_started r hm) fun t ht hok => ?_
  obtain ⟨m, -, rfl⟩ := List.mem_map.1 ht
  cases hok

/-- The messages of the calls stay what they are. -/
theorem messages_step (s : Writers) (i : Nat) :
    (s.step i).tasks.map SetTask.message = s.tasks.map SetTask.message := by
  unfold step
  split
  · rfl
  · rename_i t hi
    have hmsg : (t.step s.registry).2.message = t.message := by
      cases t with
      | start m =>
        simp only [SetTask.step]
        split
        · rfl
        · dsimp only
          split <;> rfl
      | writing m => rfl
      | returned m a => rfl
    dsimp only
    have hat : (s.tasks.map SetTask.message)[i]? = some t.message := by simp [hi]
    obtain ⟨hlt, he⟩ := List.getElem?_eq_some_iff.1 hat
    rw [List.map_set, hmsg, ← he, List.set_getElem_self]

theorem messages_run (s : Writers) (schedule : List Nat) :
    (schedule.foldl step s).tasks.map SetTask.message = s.tasks.map SetTask.message := by
  induction schedule generalizing s with
  | nil => rfl
  | cons i schedule ih =>
    rw [List.foldl_cons, ih, messages_step]

/-- **Concurrent writers lose no newer revision** in a run in which no write lands on an entry above
it: once all have returned, the entry is at least every message. -/
theorem newest_survives (r : PathRegistry) (key : StreamKey) (messages : List StreamMessage)
    (hm : ∀ m ∈ messages, m.key = key ∧ m.typeId = .registry) (schedule : List Nat)
    (h : Run.Steps step (NotOlder key) (started r messages) schedule) :
    Run.Always step (fun s => s.AllOk → ∀ m ∈ messages,
      ∃ e, s.registry.get key = .ok (some e) ∧ m.cmp e ≠ .gt) (started r messages) schedule := by
  intro pre hpre hall m hmem
  have hkept := (kept_iff r hm schedule).2 h pre hpre
  have hmsgs := messages_run (started r messages) pre
  have hm' : m ∈ ((pre.foldl step (started r messages)).tasks.map SetTask.message) := by
    rw [hmsgs]
    simpa [started, SetTask.message] using hmem
  obtain ⟨t, ht, rfl⟩ := List.mem_map.1 hm'
  exact hkept t ht (hall t ht)

/-- Two calls read before either has written, and a third one comes late with a revision between
theirs. -/
def threeWriters : Writers :=
  started emptyPaths [bareMessage .registry 1, bareMessage .registry 3, bareMessage .registry 2]

theorem newest_survives_interleaved :
    ([0, 1, 0, 1, 2, 2].foldl step threeWriters).AllOk ∧
      ∃ e, ([0, 1, 0, 1, 2, 2].foldl step threeWriters).registry.get (.localId 0) = .ok (some e) ∧
        (bareMessage .registry 3).cmp e ≠ .gt := by
  have h := newest_survives emptyPaths (.localId 0)
    [bareMessage .registry 1, bareMessage .registry 3, bareMessage .registry 2] (by decide +kernel)
    [0, 1, 0, 1, 2, 2] ?_ _ List.prefix_rfl
  · have hall : ([0, 1, 0, 1, 2, 2].foldl step threeWriters).AllOk := by
      unfold AllOk
      decide +kernel
    exact ⟨hall, h hall _ (by simp)⟩
  · decide +kernel

/-- The slower of two calls writes revision 1 over the revision 2 that the other has written since. -/
theorem older_write_lands_last :
    let s := [0, 1, 1, 0].foldl step
      (started emptyPaths [bareMessage .registry 1, bareMessage .registry 2])
    s.AllOk ∧ ¬ ∀ m ∈ [bareMessage .registry 1, bareMessage .registry 2],
      ∃ e, s.registry.get (.localId 0) = .ok (some e) ∧ m.cmp e ≠ .gt := by
  refine ⟨by unfold AllOk; decide +kernel, fun h => ?_⟩
  obtain ⟨e, he, hcmp⟩ := h (bareMessage .registry 2) (by simp)
  have hget : ([0, 1, 1, 0].foldl step
      (started emptyPaths [bareMessage .registry 1, bareMessage .registry 2])).registry.get
        (.localId 0) = .ok (some (bareMessage .registry 1)) := by
    decide +kernel
  obtain rfl := Option.some.inj (Except.ok.inj (hget.symm.trans he))
  exact absurd hcmp (by decide +kernel)

end Writers

end Registry
