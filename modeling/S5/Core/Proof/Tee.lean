import S5.Core.Tee
import Mathlib.Data.Nat.Find
import Mathlib.Data.Prod.Lex
import Mathlib.Order.WellFounded

/-!
# What goes through a `TeeStream`

A finite source and a writer with a schedule: it may be pending, and accepts as much of a buffer as it
likes, but something of one that is not empty.

* `round_advances`: what one round hands on and writes.
* `tee_stream_faithful`: the chunks are handed on and written as they come, whatever the schedule.
-/

namespace Tee

/-! ## Sources and writers -/

/-- A finite source: what its polls answer, and then that it is at its end. -/
structure Script where
  items : List (Poll Bytes)

instance : ByteStream Script where
  pollNext s :=
    match s.items with
    | [] => (s, .ready none)
    | .pending :: items => (⟨items⟩, .pending)
    | .ready bytes :: items => (⟨items⟩, .ready (some (.ok bytes)))

def Poll.toOption {α : Type} : Poll α → Option α
  | .pending => none
  | .ready a => some a

def Script.chunks (s : Script) : List Bytes := s.items.filterMap Poll.toOption

/-- What a writer does in a call. -/
inductive Move where
  | pending
  | accept (n : Nat)
  deriving DecidableEq

/-- A writer with what it does in its calls, one after the other. -/
structure ScheduledWriter (schedule : Nat → Move) where
  calls : Nat
  received : Bytes
  shutDown : Bool

def ScheduledWriter.new (schedule : Nat → Move) : ScheduledWriter schedule := ⟨0, [], false⟩

/-- How much of a buffer is accepted: all of it at most, and a byte at least if there is one. -/
def accepted (n : Nat) (buf : Bytes) : Nat := min buf.length (max 1 n)

instance (schedule : Nat → Move) : AsyncWrite (ScheduledWriter schedule) where
  pollWrite w buf :=
    match schedule w.calls with
    | .pending => ({ w with calls := w.calls + 1 }, .pending)
    | .accept n =>
      (⟨w.calls + 1, w.received ++ buf.take (accepted n buf), w.shutDown⟩,
        .ready (.ok (accepted n buf)))
  pollShutdown w :=
    match schedule w.calls with
    | .pending => ({ w with calls := w.calls + 1 }, .pending)
    | .accept _ => (⟨w.calls + 1, w.received, true⟩, .ready (.ok ()))

/-- The writer is not pending for ever. -/
def Live (schedule : Nat → Move) : Prop := ∀ n, ∃ m, n ≤ m ∧ schedule m ≠ .pending

/-! ## Rounds -/

namespace TeeStream

variable {schedule : Nat → Move}

/-- What is still to be written. -/
def buffered (t : TeeStream Script (ScheduledWriter schedule)) : Bytes := t.writeBuf.getD []

/-- A source that is done has nothing left. -/
def Ended (t : TeeStream Script (ScheduledWriter schedule)) : Prop :=
  t.streamDone = true → t.stream.items = []

/-- What happens until an answer, or to the end of a round. -/
inductive Advances (t t' : TeeStream Script (ScheduledWriter schedule)) : Option Answer → Prop where
  | quiet {r : Option Answer} (hr : r = none ∨ r = some .pending)
      (written : t'.writer.received ++ t'.buffered = t.writer.received ++ t.buffered)
      (chunks : t'.stream.chunks = t.stream.chunks) (ended : t'.Ended) : Advances t t' r
  | chunk (bytes : Bytes)
      (written : t'.writer.received ++ t'.buffered = t.writer.received ++ t.buffered ++ bytes)
      (chunks : t.stream.chunks = bytes :: t'.stream.chunks) (ended : t'.Ended) :
      Advances t t' (some (.ready (some (.ok bytes))))
  | last (written : t'.writer.received = t.writer.received ++ t.buffered)
      (chunks : t.stream.chunks = []) (shut : t'.writer.shutDown = true) :
      Advances t t' (some (.ready none))

theorem Advances.of_quiet {t t₁ t₂ : TeeStream Script (ScheduledWriter schedule)} {r : Option Answer}
    (hwritten : t₁.writer.received ++ t₁.buffered = t.writer.received ++ t.buffered)
    (hchunks : t₁.stream.chunks = t.stream.chunks) (h : Advances t₁ t₂ r) : Advances t t₂ r := by
  cases h with
  | quiet hr written chunks ended =>
    exact .quiet hr (written.trans hwritten) (chunks.trans hchunks) ended
  | chunk bytes written chunks ended =>
    exact .chunk bytes (by rw [written, hwritten]) (hchunks ▸ chunks) ended
  | last written chunks shut => exact .last (written.trans hwritten) (hchunks ▸ chunks) shut

theorem accepted_le (n : Nat) (buf : Bytes) : accepted n buf ≤ buf.length := Nat.min_le_left ..

theorem accepted_pos (n : Nat) {buf : Bytes} (h : buf ≠ []) : 0 < accepted n buf := by
  have hlen := List.length_pos_iff.2 h
  unfold accepted
  omega

/-- The buffer goes to the writer: all of it, if the round goes on. -/
theorem write_spec (t : TeeStream Script (ScheduledWriter schedule)) :
    t.write.1.stream = t.stream ∧ t.write.1.streamDone = t.streamDone ∧
      t.write.1.writer.received ++ t.write.1.buffered = t.writer.received ++ t.buffered ∧
      ((t.write.2 = none ∧ t.write.1.writeBuf = none) ∨ t.write.2 = some none ∨
        t.write.2 = some (some .pending)) := by
  unfold write buffered
  cases hbuf : t.writeBuf with
  | none => simp [hbuf]
  | some buf =>
    simp only [AsyncWrite.pollWrite]
    cases schedule t.writer.calls with
    | pending => simp
    | accept n =>
      dsimp only
      split
      · rename_i hall
        simp [hall]
      · simp

theorem read_spec (t : TeeStream Script (ScheduledWriter schedule)) (he : t.Ended)
    (hbuf : t.writeBuf = none) : Advances t t.read.1 t.read.2 := by
  unfold read
  cases hdone : t.streamDone with
  | true =>
    have hitems := he hdone
    simp only [if_true, AsyncWrite.pollShutdown]
    cases schedule t.writer.calls with
    | pending => exact .quiet (.inr rfl) rfl rfl fun _ => hitems
    | accept n =>
      refine .last ?_ ?_ rfl
      · simp [buffered, hbuf]
      · simp [Script.chunks, hitems]
  | false =>
    simp only [Bool.false_eq_true, if_false, ByteStream.pollNext]
    cases hitems : t.stream.items with
    | nil => exact .quiet (.inl rfl) rfl rfl fun _ => hitems
    | cons item items =>
      cases item with
      | pending =>
        refine .quiet (.inr rfl) rfl ?_ fun h => (Bool.false_ne_true h).elim
        rw [Script.chunks, Script.chunks, hitems]
        rfl
      | ready bytes =>
        refine .chunk bytes ?_ ?_ fun h => (Bool.false_ne_true h).elim
        · simp [buffered, hbuf]
        · rw [Script.chunks, Script.chunks, hitems]
          rfl

/-- **One round**: what is written and what is handed on. -/
theorem round_advances (t : TeeStream Script (ScheduledWriter schedule)) (he : t.Ended) :
    Advances t t.round.1 t.round.2 := by
  obtain ⟨hstream, hdone, hwritten, hnext⟩ := t.write_spec
  have he' : t.write.1.Ended := by
    unfold Ended
    rw [hstream, hdone]
    exact he
  have hchunks : t.write.1.stream.chunks = t.stream.chunks := by rw [hstream]
  unfold round
  generalize t.write = w at *
  obtain ⟨t₁, r⟩ := w
  rcases hnext with ⟨rfl, hbuf⟩ | rfl | rfl
  · exact (t₁.read_spec he' hbuf).of_quiet hwritten hchunks
  · exact .quiet (.inl rfl) hwritten hchunks he'
  · exact .quiet (.inr rfl) hwritten hchunks he'

/-! ## Progress -/

/-- How many calls the writer is pending from its `n`th on. -/
noncomputable def wait (hlive : Live schedule) (n : Nat) : Nat := Nat.find (hlive n) - n

theorem wait_lt (hlive : Live schedule) {n : Nat} (h : schedule n = .pending) :
    wait hlive (n + 1) < wait hlive n := by
  obtain ⟨hle, hready⟩ := Nat.find_spec (hlive n)
  have hne : Nat.find (hlive n) ≠ n := fun he => hready (by rw [he, h])
  have hfind : Nat.find (hlive (n + 1)) ≤ Nat.find (hlive n) :=
    Nat.find_min' _ ⟨by omega, hready⟩
  have hlow := (Nat.find_spec (hlive (n + 1))).1
  unfold wait
  omega

/-- What is left to do: polls of the source, bytes to write, and calls until the writer is ready. -/
noncomputable def work (hlive : Live schedule) (t : TeeStream Script (ScheduledWriter schedule)) :
    ℕ ×ₗ ℕ ×ₗ ℕ :=
  toLex (t.stream.items.length + (if t.streamDone then 0 else 1),
    toLex (t.buffered.length + (if t.writeBuf.isSome then 1 else 0), wait hlive t.writer.calls))

theorem work_lt_of_stream (hlive : Live schedule)
    {t t' : TeeStream Script (ScheduledWriter schedule)}
    (h : t'.stream.items.length + (if t'.streamDone then 0 else 1) <
      t.stream.items.length + (if t.streamDone then 0 else 1)) : t'.work hlive < t.work hlive :=
  Prod.Lex.toLex_lt_toLex.2 (.inl h)

theorem work_lt_of_buffer (hlive : Live schedule)
    {t t' : TeeStream Script (ScheduledWriter schedule)} (hstream : t'.stream = t.stream)
    (hdone : t'.streamDone = t.streamDone)
    (h : t'.buffered.length + (if t'.writeBuf.isSome then 1 else 0) <
      t.buffered.length + (if t.writeBuf.isSome then 1 else 0)) : t'.work hlive < t.work hlive := by
  refine Prod.Lex.toLex_lt_toLex.2 (.inr ⟨?_, Prod.Lex.toLex_lt_toLex.2 (.inl h)⟩)
  rw [hstream, hdone]

theorem work_lt_of_wait (hlive : Live schedule) (t : TeeStream Script (ScheduledWriter schedule))
    (h : schedule t.writer.calls = .pending) :
    ({ t with writer := { t.writer with calls := t.writer.calls + 1 } } :
      TeeStream Script (ScheduledWriter schedule)).work hlive < t.work hlive :=
  Prod.Lex.toLex_lt_toLex.2 (.inr ⟨rfl, Prod.Lex.toLex_lt_toLex.2 (.inr ⟨rfl, wait_lt hlive h⟩)⟩)

theorem write_less (hlive : Live schedule) (t : TeeStream Script (ScheduledWriter schedule)) :
    t.write.1.work hlive < t.work hlive ∨ t.write = (t, none) := by
  unfold write
  cases hbuf : t.writeBuf with
  | none => exact .inr rfl
  | some buf =>
    left
    simp only [AsyncWrite.pollWrite]
    cases hmove : schedule t.writer.calls with
    | pending =>
      have hless := t.work_lt_of_wait hlive hmove
      rwa [hbuf] at hless
    | accept n =>
      have hle := accepted_le n buf
      dsimp only
      split
      · refine work_lt_of_buffer hlive rfl rfl ?_
        simp [buffered, hbuf]
      · rename_i hpart
        have hpos : 0 < accepted n buf := accepted_pos n (by
          rintro rfl
          exact hpart (Nat.le_zero.1 hle))
        refine work_lt_of_buffer hlive rfl rfl ?_
        simp only [buffered, hbuf, Option.getD_some, Option.isSome_some, if_true, List.length_drop]
        omega

theorem read_less (hlive : Live schedule) (t : TeeStream Script (ScheduledWriter schedule)) :
    t.read.1.work hlive < t.work hlive ∨ t.read.2 = some (.ready none) := by
  unfold read
  cases hdone : t.streamDone with
  | true =>
    simp only [if_true, AsyncWrite.pollShutdown]
    cases hmove : schedule t.writer.calls with
    | pending =>
      have hless := t.work_lt_of_wait hlive hmove
      rw [hdone] at hless
      exact .inl hless
    | accept n => exact .inr rfl
  | false =>
    left
    simp only [Bool.false_eq_true, if_false, ByteStream.pollNext]
    cases hitems : t.stream.items with
    | nil =>
      refine work_lt_of_stream hlive ?_
      simp [hdone, hitems]
    | cons item items =>
      cases item with
      | pending =>
        refine work_lt_of_stream hlive ?_
        simp [hdone, hitems]
      | ready bytes =>
        refine work_lt_of_stream hlive ?_
        simp [hdone, hitems]

/-- Every round but the last leaves less to do. -/
theorem round_less (hlive : Live schedule) (t : TeeStream Script (ScheduledWriter schedule)) :
    t.round.1.work hlive < t.work hlive ∨ t.round.2 = some (.ready none) := by
  unfold round
  rcases t.write_less hlive with hless | heq
  · have hread := t.write.1.read_less hlive
    generalize t.write = w at *
    obtain ⟨t₁, r⟩ := w
    cases r with
    | none => exact hread.imp_left (·.trans hless)
    | some r => exact .inl hless
  · rw [heq]
    exact t.read_less hlive

/-! ## Polls -/

/-- A poll answers `r`. -/
def PollsTo (t : TeeStream Script (ScheduledWriter schedule)) (r : Answer)
    (t' : TeeStream Script (ScheduledWriter schedule)) : Prop :=
  ∃ fuel, t.pollNext fuel = some (t', r)

/-- Polled until the stream ends, `t` yields the chunks and leaves `t'`. -/
inductive Polls : TeeStream Script (ScheduledWriter schedule) → List Bytes →
    TeeStream Script (ScheduledWriter schedule) → Prop where
  | last {t t' : TeeStream Script (ScheduledWriter schedule)} (h : t.PollsTo (.ready none) t') :
      Polls t [] t'
  | pending {t t₁ t' : TeeStream Script (ScheduledWriter schedule)} {chunks : List Bytes}
      (h : t.PollsTo .pending t₁) (hrest : Polls t₁ chunks t') : Polls t chunks t'
  | chunk {t t₁ t' : TeeStream Script (ScheduledWriter schedule)} {bytes : Bytes}
      {chunks : List Bytes} (h : t.PollsTo (.ready (some (.ok bytes))) t₁)
      (hrest : Polls t₁ chunks t') : Polls t (bytes :: chunks) t'

theorem pollsTo_iff {t t' : TeeStream Script (ScheduledWriter schedule)} {r : Answer} :
    t.PollsTo r t' ↔ t.round = (t', some r) ∨ ∃ t₁, t.round = (t₁, none) ∧ t₁.PollsTo r t' := by
  constructor
  · rintro ⟨fuel, h⟩
    cases fuel with
    | zero => cases h
    | succ fuel =>
      rw [pollNext] at h
      cases hround : t.round with
      | mk t₁ r₁ =>
        rw [hround] at h
        cases r₁ with
        | none => exact .inr ⟨t₁, rfl, fuel, h⟩
        | some r₁ =>
          obtain ⟨rfl, rfl⟩ := Prod.mk.inj (Option.some.inj h)
          exact .inl rfl
  · rintro (h | ⟨t₁, h, fuel, hfuel⟩)
    · exact ⟨1, by rw [pollNext, h]⟩
    · exact ⟨fuel + 1, by rw [pollNext, h]; exact hfuel⟩

/-- **Every poll returns.** -/
theorem exists_pollsTo (hlive : Live schedule) (t : TeeStream Script (ScheduledWriter schedule)) :
    ∃ r t', t.PollsTo r t' := by
  induction hwork : t.work hlive using WellFoundedLT.induction generalizing t with
  | ind w ih =>
    cases hround : t.round with
    | mk t₁ r =>
      cases r with
      | some r => exact ⟨r, t₁, pollsTo_iff.2 (.inl hround)⟩
      | none =>
        have hless := t.round_less hlive
        rw [hround] at hless
        obtain ⟨r, t', h⟩ := ih _ (hwork ▸ hless.resolve_right (by simp)) t₁ rfl
        exact ⟨r, t', pollsTo_iff.2 (.inr ⟨t₁, hround, h⟩)⟩

/-- A poll does what its rounds do. -/
theorem PollsTo.advances {t t' : TeeStream Script (ScheduledWriter schedule)} {r : Answer}
    (h : t.PollsTo r t') (he : t.Ended) : Advances t t' (some r) := by
  obtain ⟨fuel, h⟩ := h
  induction fuel generalizing t with
  | zero => cases h
  | succ fuel ih =>
    have hround := t.round_advances he
    rw [pollNext] at h
    generalize t.round = w at *
    obtain ⟨t₁, r₁⟩ := w
    cases r₁ with
    | some r₁ =>
      obtain ⟨rfl, rfl⟩ := Prod.mk.inj (Option.some.inj h)
      exact hround
    | none =>
      cases hround with
      | quiet hr written chunks ended => exact (ih ended h).of_quiet written chunks

/-- A round that goes on, in front. -/
theorem Polls.of_round {t t₁ t' : TeeStream Script (ScheduledWriter schedule)} {chunks : List Bytes}
    (hround : t.round = (t₁, none)) (h : Polls t₁ chunks t') : Polls t chunks t' := by
  have hfirst : ∀ {r t₂}, t₁.PollsTo r t₂ → t.PollsTo r t₂ := fun h =>
    pollsTo_iff.2 (.inr ⟨t₁, hround, h⟩)
  cases h with
  | last h => exact .last (hfirst h)
  | pending h hrest => exact .pending (hfirst h) hrest
  | chunk h hrest => exact .chunk (hfirst h) hrest

/-- **The stream ends.** -/
theorem exists_polls (hlive : Live schedule) (t : TeeStream Script (ScheduledWriter schedule))
    (he : t.Ended) : ∃ chunks t', Polls t chunks t' := by
  induction hwork : t.work hlive using WellFoundedLT.induction generalizing t with
  | ind w ih =>
    have hless := t.round_less hlive
    have hround := t.round_advances he
    cases hr : t.round with
    | mk t₁ r =>
      rw [hr] at hless hround
      have hpoll : ∀ {r}, t.round = (t₁, some r) → t.PollsTo r t₁ := fun h => pollsTo_iff.2 (.inl h)
      cases hround with
      | quiet hquiet _ _ ended =>
        rcases hquiet with rfl | rfl
        · obtain ⟨chunks, t', h⟩ := ih _ (hwork ▸ hless.resolve_right (by simp)) t₁ ended rfl
          exact ⟨chunks, t', h.of_round hr⟩
        · obtain ⟨chunks, t', h⟩ := ih _ (hwork ▸ hless.resolve_right (by simp)) t₁ ended rfl
          exact ⟨chunks, t', .pending (hpoll hr) h⟩
      | chunk bytes _ _ ended =>
        obtain ⟨chunks, t', h⟩ := ih _ (hwork ▸ hless.resolve_right (by simp)) t₁ ended rfl
        exact ⟨bytes :: chunks, t', .chunk (hpoll hr) h⟩
      | last _ _ _ => exact ⟨[], t₁, .last (hpoll hr)⟩

theorem Polls.faithful {t t' : TeeStream Script (ScheduledWriter schedule)} {chunks : List Bytes}
    (h : Polls t chunks t') (he : t.Ended) :
    chunks = t.stream.chunks ∧
      t'.writer.received = t.writer.received ++ t.buffered ++ t.stream.chunks.flatten ∧
        t'.writer.shutDown = true := by
  induction h with
  | last h =>
    cases h.advances he with
    | quiet hr => simp at hr
    | last written hchunks shut => exact ⟨hchunks.symm, by simp [written, hchunks], shut⟩
  | pending h hrest ih =>
    cases h.advances he with
    | quiet _ written hchunks ended =>
      rw [← written, ← hchunks]
      exact ih ended
  | chunk h hrest ih =>
    cases h.advances he with
    | quiet hr => simp at hr
    | chunk bytes written hchunks ended =>
      obtain ⟨rfl, hreceived, hshut⟩ := ih ended
      refine ⟨hchunks.symm, ?_, hshut⟩
      rw [hreceived, written, hchunks, List.flatten_cons]
      simp only [List.append_assoc]

/-- **What is read is written**: whatever the source and the schedule of the writer, every poll returns,
the stream ends, and then it has handed on the chunks of the source and written them. -/
theorem tee_stream_faithful (source : Script) (schedule : Nat → Move) (hlive : Live schedule) :
    (∀ t : TeeStream Script (ScheduledWriter schedule), ∃ r t', t.PollsTo r t') ∧
    (∃ chunks t', Polls (new source (.new schedule)) chunks t') ∧
    ∀ chunks t', Polls (new source (.new schedule)) chunks t' →
      chunks = source.chunks ∧ t'.writer.received = source.chunks.flatten ∧
        t'.writer.shutDown = true := by
  have he : (new source (ScheduledWriter.new schedule)).Ended := fun h => (Bool.false_ne_true h).elim
  refine ⟨exists_pollsTo hlive, exists_polls hlive _ he, fun chunks t' h => ?_⟩
  exact h.faithful he

/-- A writer that is pending in every other call, and then takes one byte. -/
def slowly (n : Nat) : Move := if n % 2 = 0 then .pending else .accept 1

theorem slowly_live : Live slowly := fun n =>
  ⟨2 * n + 1, by omega, by rw [slowly, if_neg (by omega)]; simp⟩

theorem tee_stream_faithful_slowly :
    ∃ t', Polls (new ⟨[.ready [1, 2], .pending, .ready [], .ready [3]]⟩ (.new slowly)) [[1, 2], [], [3]] t' ∧
      t'.writer.received = [1, 2, 3] ∧ t'.writer.shutDown = true := by
  obtain ⟨-, ⟨chunks, t', h⟩, hall⟩ :=
    tee_stream_faithful ⟨[.ready [1, 2], .pending, .ready [], .ready [3]]⟩ slowly slowly_live
  obtain ⟨hchunks, hreceived, hshut⟩ := hall chunks t' h
  obtain rfl : chunks = [[1, 2], [], [3]] := hchunks
  exact ⟨t', h, hreceived, hshut⟩

end TeeStream

end Tee
