import S5.Fs.Proof.Acts
import S5.Fs.Proof.System
import S5.Fs.Symbolic
import S5.Lib.Run
import Mathlib.Logic.Relation

/-!
# Dirty marks go up

An actor that becomes dirty tells its parent, so a dirty directory has a dirty parent or one with a
`MarkAsDirty` in its mailbox. A parent clears its own mark when it saves. After a `SaveIfDirty` all
its children have answered that they are clean or will be marked again; after an `AutosaveTick` that
is only so if no child was dirty.

`System.DirtyUp` is the property, `System.KeepsMarks` the condition on the steps of a run, and
`System.Flags` the invariant, which the delivery of messages and answers keeps (`Flags.emits`).
-/

open Std

namespace Fs

/-! ## Questions to save -/

def Responder.asker : Responder → Option (ActorId × DirHandlePath)
  | .parent p path => some (p, path)
  | .client _ => none

def Phase.asker : Phase → Option (ActorId × DirHandlePath)
  | .saving _ responder => responder.asker
  | _ => none

@[simp] theorem Phase.asker_saving
    (replies : List (DirHandlePath × Option (Except String (Option Hash)))) (responder : Responder) :
    (Phase.saving replies responder).asker = responder.asker := rfl

def ActorMessage.asker : ActorMessage → Option (ActorId × DirHandlePath)
  | .saveIfDirty responder => responder.asker
  | _ => none

/-- The saves that an actor owes an answer for to another one. -/
def DirActor.owed (a : DirActor) : List (ActorId × DirHandlePath) :=
  a.phase.asker.toList ++ a.mailbox.filterMap ActorMessage.asker

/-- The save that an output asks for or answers. -/
def Output.asker : Output → Option (ActorId × DirHandlePath)
  | .send _ msg => msg.asker
  | .saved responder _ => responder.asker
  | _ => none

/-- A child has told the actor that it has become dirty. -/
def DirActor.Marked (a : DirActor) : Prop := .markAsDirty ∈ a.mailbox

def ActorMessage.isMark : ActorMessage → Bool
  | .markAsDirty => true
  | _ => false

namespace System

variable {β : Type}

/-! ## The property -/

/-- The directory of `c` hangs by its hash in that of `p`, which somebody holds. -/
def Hangs (s : System β) (p c : ActorId) : Prop :=
  s.held p = true ∧ ∃ a b path, s.actors[p]? = some a ∧ isStopped a = false ∧
    s.actors[c]? = some b ∧ b.context.parent = some (path, p) ∧ a.handleAt path = some c

def isDirty (s : System β) (i : ActorId) : Bool := s.actors[i]?.any (·.dirty)

/-- No message is on its way. -/
def Quiet (s : System β) : Prop := ∀ a ∈ s.actors, a.mailbox = []

/-- All directories above a dirty one are dirty. -/
def DirtyUp (s : System β) : Prop :=
  ∀ i j, Relation.ReflTransGen s.Hangs i j → s.isDirty j = true → s.isDirty i = true

/-- Whose turn it is. -/
def Event.turnOf : Event → Option ActorId
  | .run i => some i
  | _ => none

/-- The rest of the mailbox of an actor that handles an `AutosaveTick` next. -/
def ticks (a : DirActor) : Option (List ActorMessage) :=
  match a.phase, a.mailbox with
  | .idle, .autosaveTick :: rest => some rest
  | _, _ => none

/-- The children that have been asked to save have not failed. -/
def noneFailed : Phase → Bool
  | .saving replies _ => replies.all fun reply => reply.2.all (·.isOk)
  | _ => true

/-- The timer makes the actor save itself and clear its mark while a child is dirty that has not just
said so. -/
def timerHides (s : System β) (i : ActorId) (a : DirActor) : Bool :=
  (ticks a).any fun rest => s.held i && a.dirty && !rest.any (·.isMark) &&
    (Turn.children a).any fun child => s.actors[child.2]?.any fun b =>
      b.dirty && b.context.parent = some (child.1, i)

/-- No timer hides a dirty child, and no actor finishes a save in which a child has failed. -/
def KeepsMarks (s : System β) (e : Event) : Prop :=
  ∀ i ∈ e.turnOf, ∀ a ∈ s.actors[i]?, noneFailed a.phase = true ∧ s.timerHides i a = false

instance (s : System β) (e : Event) : Decidable (s.KeepsMarks e) := by
  unfold KeepsMarks
  infer_instance

/-! ## The invariant -/

/-- Marks, saves and the answers to them, while the outputs `os` have not gone out. `H` are the actors
that somebody holds. -/
structure Flags (H : ActorId → Prop) (os : List Output) (s : System β) : Prop where
  up : ∀ (p c : ActorId) (a b : DirActor) (path : DirHandlePath), H p → s.actors[p]? = some a →
    isStopped a = false → s.actors[c]? = some b → b.context.parent = some (path, p) →
    a.handleAt path = some c → b.dirty = true →
    a.dirty = true ∨ a.Marked ∨ .notifyParent p .markAsDirty ∈ os
  saving : ∀ (p : ActorId) (a : DirActor) replies responder, s.actors[p]? = some a →
    a.phase = .saving replies responder → (a.context.parent ≠ none → a.dirty = true) ∧
      ∀ path c, a.handleAt path = some c → ∃ r, (path, r) ∈ replies
  answered : ∀ (p c : ActorId) (a b : DirActor) path replies responder r, H p →
    s.actors[p]? = some a → a.phase = .saving replies responder → s.actors[c]? = some b →
    b.context.parent = some (path, p) → a.handleAt path = some c → (path, some (.ok r)) ∈ replies →
    b.dirty = true → a.Marked ∨ .notifyParent p .markAsDirty ∈ os
  owes : ∀ (x p : ActorId) (path : DirHandlePath), ((∃ b, s.actors[x]? = some b ∧
      (p, path) ∈ b.owed) ∨ .send x (.saveIfDirty (.parent p path)) ∈ os) →
    ∃ a replies responder, s.actors[p]? = some a ∧ a.phase = .saving replies responder ∧
      (path, none) ∈ replies ∧ a.handleAt path = some x
  once : ∀ (x : ActorId) (b : DirActor), s.actors[x]? = some b → b.owed.Nodup
  fresh : (os.filterMap Output.asker).Nodup ∧ ∀ k ∈ os.filterMap Output.asker,
    ∀ (x : ActorId) (b : DirActor), s.actors[x]? = some b → k ∉ b.owed
  clean : ∀ (p c : ActorId) (a b : DirActor) path r, .saved (.parent p path) (.ok r) ∈ os →
    s.actors[p]? = some a → a.handleAt path = some c → s.actors[c]? = some b →
    b.context.parent = some (path, p) → b.dirty = false

variable {H : ActorId → Prop} {o : Output} {os : List Output} {s s' : System β}

/-! ## Deliveries -/

/-- The actor has got a message or an answer that is not about saving. -/
structure Overhears (a a' : DirActor) : Prop where
  context : a'.context = a.context
  dirty : a'.dirty = a.dirty
  handles : ∀ path, a'.handleAt path = a.handleAt path
  stopped : isStopped a' = isStopped a
  saving : ∀ replies responder, a'.phase = .saving replies responder →
    a.phase = .saving replies responder
  stays : ∀ replies responder, a.phase = .saving replies responder →
    a'.phase = .saving replies responder
  mail : ∀ msg ∈ a.mailbox, msg ∈ a'.mailbox
  owed : a'.owed = a.owed

theorem Overhears.refl (a : DirActor) : Overhears a a :=
  ⟨rfl, rfl, fun _ => rfl, rfl, fun _ _ => id, fun _ _ => id, fun _ => id, rfl⟩

/-- An actor of a system in which one has been changed. -/
theorem getElem?_modify {i j : ActorId} {f : DirActor → DirActor} {a' : DirActor}
    (h : (s.modify i f).actors[j]? = some a') :
    ∃ a, s.actors[j]? = some a ∧ a' = if i = j then f a else a := by
  have hm : (s.actors.modify i f)[j]? = some a' := h
  rw [List.getElem?_modify] at hm
  obtain ⟨a, ha, rfl⟩ := Option.map_eq_some_iff.1 hm
  refine ⟨a, ha, ?_⟩
  split
  · rfl
  · rfl

theorem overhears_modify {i j : ActorId} {f : DirActor → DirActor} {a' : DirActor}
    (hf : ∀ a, Overhears a (f a)) (h : (s.modify i f).actors[j]? = some a') :
    ∃ a, s.actors[j]? = some a ∧ Overhears a a' := by
  obtain ⟨a, ha, rfl⟩ := getElem?_modify h
  refine ⟨a, ha, ?_⟩
  split
  · exact hf a
  · exact .refl a

/-- All actors have at most got messages and answers that are not about saving. -/
structure Overheard (s s' : System β) : Prop where
  back : ∀ (j : ActorId) (a' : DirActor), s'.actors[j]? = some a' →
    ∃ a, s.actors[j]? = some a ∧ Overhears a a'
  length : s'.actors.length = s.actors.length

theorem Overheard.of_actors (h : s'.actors = s.actors) : Overheard s s' :=
  ⟨fun _ a ha => ⟨a, h ▸ ha, .refl a⟩, by rw [h]⟩

theorem overheard_modify (s : System β) (i : ActorId) {f : DirActor → DirActor}
    (hf : ∀ a, Overhears a (f a)) : Overheard s (s.modify i f) :=
  ⟨fun _ _ ha => overhears_modify hf ha, List.length_modify _ _ _⟩

theorem Overheard.trans {s'' : System β} (h : Overheard s s') (h' : Overheard s' s'') :
    Overheard s s'' where
  back j a'' ha := by
    obtain ⟨a', ha', h1⟩ := h'.back j a'' ha
    obtain ⟨a, ha, h2⟩ := h.back j a' ha'
    exact ⟨a, ha, h1.context.trans h2.context, h1.dirty.trans h2.dirty,
      fun path => (h1.handles path).trans (h2.handles path), h1.stopped.trans h2.stopped,
      fun r q hp => h2.saving r q (h1.saving r q hp), fun r q hp => h1.stays r q (h2.stays r q hp),
      fun m hm => h1.mail m (h2.mail m hm), h1.owed.trans h2.owed⟩
  length := h'.length.trans h.length

/-- The actor itself, afterwards. -/
theorem Overheard.forth (h : Overheard s s') {j : ActorId} {a : DirActor}
    (ha : s.actors[j]? = some a) : ∃ a', s'.actors[j]? = some a' ∧ Overhears a a' := by
  have hlt : j < s'.actors.length := by
    rw [h.length]
    exact (List.getElem?_eq_some_iff.1 ha).1
  have ha' : s'.actors[j]? = some s'.actors[j] := List.getElem?_eq_getElem hlt
  obtain ⟨b, hb, hov⟩ := h.back j _ ha'
  obtain rfl := Option.some.inj (ha.symm.trans hb)
  exact ⟨_, ha', hov⟩

/-- What is not about saving leaves everything in order, once the mark it may bring has arrived. -/
theorem Flags.overheard (h : Flags H (o :: os) s) (hov : Overheard s s') (ho : o.asker = none)
    (hmark : ∀ (p : ActorId) (a' : DirActor), H p → o = .notifyParent p .markAsDirty →
      s'.actors[p]? = some a' → isStopped a' = false → a'.Marked) : Flags H os s' where
  up p c a' b' path hH ha hs hb hp hc hd := by
    obtain ⟨a, ha0, h1⟩ := hov.back p a' ha
    obtain ⟨b, hb0, h2⟩ := hov.back c b' hb
    rcases h.up p c a b path hH ha0 (h1.stopped ▸ hs) hb0 (h2.context ▸ hp)
      ((h1.handles path).symm.trans hc) (h2.dirty ▸ hd) with hd | hm | hn
    · exact .inl (h1.dirty.trans hd)
    · exact .inr (.inl (h1.mail _ hm))
    · rcases List.mem_cons.1 hn with hn | hn
      · exact .inr (.inl (hmark p a' hH hn.symm ha hs))
      · exact .inr (.inr hn)
  saving p a' replies responder ha hph := by
    obtain ⟨a, ha0, h1⟩ := hov.back p a' ha
    obtain ⟨hd, hcover⟩ := h.saving p a replies responder ha0 (h1.saving _ _ hph)
    refine ⟨fun hp => ?_, fun path c hc => hcover path c ((h1.handles path).symm.trans hc)⟩
    rw [h1.dirty]
    exact hd (h1.context ▸ hp)
  answered p c a' b' path replies responder r hH ha hph hb hp hc hr hd := by
    obtain ⟨a, ha0, h1⟩ := hov.back p a' ha
    obtain ⟨b, hb0, h2⟩ := hov.back c b' hb
    have hs : isStopped a' = false := by
      unfold isStopped
      rw [hph]
    rcases h.answered p c a b path replies responder r hH ha0 (h1.saving _ _ hph) hb0
      (h2.context ▸ hp) ((h1.handles path).symm.trans hc) hr (h2.dirty ▸ hd) with hm | hn
    · exact .inl (h1.mail _ hm)
    · rcases List.mem_cons.1 hn with hn | hn
      · exact .inl (hmark p a' hH hn.symm ha hs)
      · exact .inr hn
  owes x p path hx := by
    have hbefore : (∃ b, s.actors[x]? = some b ∧ (p, path) ∈ b.owed) ∨
        .send x (.saveIfDirty (.parent p path)) ∈ o :: os := by
      rcases hx with ⟨b', hb, hk⟩ | hx
      · obtain ⟨b, hb0, h2⟩ := hov.back x b' hb
        exact .inl ⟨b, hb0, h2.owed ▸ hk⟩
      · exact .inr (List.mem_cons_of_mem _ hx)
    obtain ⟨a, replies, responder, ha, hph, hr, hc⟩ := h.owes x p path hbefore
    obtain ⟨a', ha', h1⟩ := hov.forth ha
    exact ⟨a', replies, responder, ha', h1.stays _ _ hph, hr, (h1.handles path).trans hc⟩
  once x b' hb := by
    obtain ⟨b, hb0, h2⟩ := hov.back x b' hb
    rw [h2.owed]
    exact h.once x b hb0
  fresh := by
    have hf := h.fresh
    rw [List.filterMap_cons_none ho] at hf
    refine ⟨hf.1, fun k hk x b' hb => ?_⟩
    obtain ⟨b, hb0, h2⟩ := hov.back x b' hb
    rw [h2.owed]
    exact hf.2 k hk x b hb0
  clean p c a' b' path r ho ha hc hb hp := by
    obtain ⟨a, ha0, h1⟩ := hov.back p a' ha
    obtain ⟨b, hb0, h2⟩ := hov.back c b' hb
    rw [h2.dirty]
    exact h.clean p c a b path r (List.mem_cons_of_mem _ ho) ha0
      ((h1.handles path).symm.trans hc) hb0 (h2.context ▸ hp)

/-! ## Who is held -/

theorem held_iff {i : ActorId} : s.held i = true ↔ (∃ handle ∈ s.clientHandles, handle.2 = i) ∨
    (∃ k : Bytes32, s.registryDirHandles[k]? = some i) ∨
    ∃ (j : ActorId) (a : DirActor), s.actors[j]? = some a ∧ isStopped a = false ∧
      ∃ path, a.handleAt path = some i := by
  have hpaths : ∀ a : DirActor, (a.dirHandles.any (fun _ j => j = i) ||
      a.dirShardHandles.any fun _ j => j = i) = true ↔ ∃ path, a.handleAt path = some i := by
    intro a
    rw [Bool.or_eq_true, ExtTreeMap.any_iff_exists_getElem?, ExtTreeMap.any_iff_exists_getElem?]
    constructor
    · rintro (⟨name, c, hc, he⟩ | ⟨index, c, hc, he⟩)
      · obtain rfl := of_decide_eq_true he
        exact ⟨.path name, hc⟩
      · obtain rfl := of_decide_eq_true he
        exact ⟨.shard index, hc⟩
    · rintro ⟨path | index, hc⟩
      · exact .inl ⟨_, i, hc, by simp⟩
      · exact .inr ⟨_, i, hc, by simp⟩
  unfold held
  rw [Bool.or_eq_true, Bool.or_eq_true, List.any_eq_true, List.any_eq_true, or_assoc,
    ExtTreeMap.any_iff_exists_getElem?]
  refine or_congr ?_ (or_congr ?_ ?_)
  · simp
  · simp
  · constructor
    · rintro ⟨a, ha, hp⟩
      obtain ⟨j, hj⟩ := List.mem_iff_getElem?.1 ha
      rw [Bool.and_eq_true] at hp
      exact ⟨j, a, hj, by simpa using hp.1, (hpaths a).1 hp.2⟩
    · rintro ⟨j, a, hj, hs, hp⟩
      refine ⟨a, List.mem_of_getElem? hj, ?_⟩
      rw [Bool.and_eq_true]
      exact ⟨by simpa using hs, (hpaths a).2 hp⟩

/-- What an actor gets to hear: a message or an answer. -/
inductive Delivery : Option ActorMessage → (DirActor → DirActor) → Prop where
  | mail (msg : ActorMessage) : Delivery (some msg) fun a => { a with mailbox := a.mailbox ++ [msg] }
  | saved (path : DirHandlePath) (result : Except String (Option Hash)) :
    Delivery none (System.storeReply path result)
  | merged (result : Except String Unit) : Delivery none (storeMerged result)
  | subdir : Delivery none resume

/-- The actor has got some messages and answers. -/
structure Heard (msgs : List ActorMessage) (a a' : DirActor) : Prop where
  context : a'.context = a.context
  state : a'.state = a.state
  handles : ∀ path, a'.handleAt path = a.handleAt path
  mailbox : a'.mailbox = a.mailbox ++ msgs
  stopped : isStopped a' = isStopped a
  starting : ∀ d, a'.phase = .starting d ↔ a.phase = .starting d
  saving : ∀ replies' responder, a'.phase = .saving replies' responder →
    ∃ replies, a.phase = .saving replies responder ∧ replies'.map (·.1) = replies.map (·.1)

theorem Heard.refl (a : DirActor) : Heard [] a a :=
  ⟨rfl, rfl, fun _ => rfl, (List.append_nil _).symm, rfl, fun _ => Iff.rfl, fun r _ h => ⟨r, h, rfl⟩⟩

theorem Heard.trans {msgs msgs' : List ActorMessage} {a a' a'' : DirActor} (h : Heard msgs a a')
    (h' : Heard msgs' a' a'') : Heard (msgs ++ msgs') a a'' where
  context := h'.context.trans h.context
  state := h'.state.trans h.state
  handles path := (h'.handles path).trans (h.handles path)
  mailbox := by rw [h'.mailbox, h.mailbox, List.append_assoc]
  stopped := h'.stopped.trans h.stopped
  starting d := (h'.starting d).trans (h.starting d)
  saving replies'' responder hp := by
    obtain ⟨replies', hp', he'⟩ := h'.saving replies'' responder hp
    obtain ⟨replies, hp, he⟩ := h.saving replies' responder hp'
    exact ⟨replies, hp, he'.trans he⟩

theorem Delivery.heard {msg : Option ActorMessage} {f : DirActor → DirActor} (h : Delivery msg f)
    (a : DirActor) : Heard msg.toList a (f a) := by
  cases h with
  | mail msg =>
    refine ⟨rfl, rfl, fun path => ?_, rfl, rfl, fun _ => Iff.rfl, fun r _ h => ⟨r, h, rfl⟩⟩
    cases path <;> rfl
  | saved path result =>
    unfold System.storeReply
    split
    · rename_i replies responder hp
      refine ⟨rfl, rfl, fun path => ?_, (List.append_nil _).symm, by simp [isStopped, hp],
        fun d => by simp [hp], fun replies' responder' h => ?_⟩
      · cases path <;> rfl
      · obtain ⟨rfl, rfl⟩ := Phase.saving.inj h
        exact ⟨replies, hp, by rw [List.map_map]; rfl⟩
    · exact .refl a
  | merged result =>
    unfold storeMerged
    split
    · rename_i hp
      refine ⟨rfl, rfl, fun path => ?_, (List.append_nil _).symm, by simp [isStopped, hp],
        fun d => by simp [hp], fun _ _ h => by cases h⟩
      cases path <;> rfl
    · exact .refl a
  | subdir =>
    unfold resume
    split
    · rename_i hp
      refine ⟨rfl, rfl, fun path => ?_, (List.append_nil _).symm, by simp [isStopped, hp],
        fun d => by simp [hp], fun _ _ h => by cases h⟩
      cases path <;> rfl
    · exact .refl a

/-- What answers and new handles keep, a reply keeps. -/
theorem reply_induct {P : System β → Prop}
    (hmod : ∀ (s : System β) (i : ActorId) f, Delivery none f → P s → P (s.modify i f))
    (hans : ∀ (s : System β) request answer, P s → P (s.answer request answer))
    (hsub : ∀ (s : System β) waiting request handle, o = .subdir waiting request (.ok handle) →
      P s → P { s with clientHandles := handle :: s.clientHandles }) (h : P s) : P (s.reply o) := by
  unfold reply
  split
  · exact hans _ _ _ h
  · rename_i waiting request result
    have hres : ∀ (waiting : List ActorId) {s : System β}, P s →
        P (waiting.foldl (fun s i => s.modify i resume) s) := by
      intro waiting
      induction waiting with
      | nil => exact fun h => h
      | cons i waiting ih => exact fun h => ih (hmod _ i _ .subdir h)
    have h1 := hans _ request (.subdir result) (hres waiting h)
    dsimp only
    split
    · exact hsub _ _ _ _ rfl h1
    · exact h1
  · exact hans _ _ _ h
  · exact hmod _ _ _ (.saved _ _) h
  · exact hans _ _ _ h
  · exact hmod _ _ _ (.merged _) h
  · exact h

/-- What deliveries, answers and new handles keep, an output keeps. -/
theorem emit_induct {P : System β → Prop}
    (hmod : ∀ (s : System β) (i : ActorId) msg f, Delivery msg f →
      (∀ m, msg = some m → o = .send i m ∨ o = .notifyParent i m) → P s → P (s.modify i f))
    (hans : ∀ (s : System β) request answer, P s → P (s.answer request answer))
    (hsub : ∀ (s : System β) waiting request handle, o = .subdir waiting request (.ok handle) →
      P s → P { s with clientHandles := handle :: s.clientHandles }) (h : P s) : P (s.emit o) := by
  have hreply : ∀ {o' : Output}, (∀ (s : System β) waiting request handle,
      o' = .subdir waiting request (.ok handle) → P s →
      P { s with clientHandles := handle :: s.clientHandles }) → P (s.reply o') := by
    intro o' hsub'
    refine reply_induct (fun s i f hf => hmod s i none f hf fun m hm => ?_) hans hsub' h
    cases hm
  unfold emit
  split
  · rename_i i msg
    split
    · -- nobody gets a handle out of a message that is lost
      cases msg with
      | openSubdir base path waiting request =>
        show P (s.reply (.subdir waiting request (.error "channel closed")))
        exact hreply fun _ _ _ _ he => by cases he
      | saveIfDirty responder =>
        show P (s.reply (.saved responder (.error "channel closed")))
        exact hreply fun _ _ _ _ he => by cases he
      | mergeSnapshot snapshot responder =>
        show P (s.reply (.merged responder (.error "channel closed")))
        exact hreply fun _ _ _ _ he => by cases he
      | _ => exact h
    · refine hmod _ _ _ _ (.mail msg) (fun m hm => ?_) h
      rw [Option.some.inj hm]
      exact .inl rfl
  · split
    · refine hmod _ _ _ _ (.mail _) (fun m hm => ?_) h
      rw [Option.some.inj hm]
      exact .inr rfl
    · exact h
  · exact hreply hsub

theorem held_modify {msg : Option ActorMessage} {f : DirActor → DirActor} (hf : Delivery msg f)
    (s : System β) (i j : ActorId) : (s.modify j f).held i = true ↔ s.held i = true := by
  rw [held_iff, held_iff]
  refine or_congr Iff.rfl (or_congr Iff.rfl ?_)
  constructor
  · rintro ⟨k, a', ha', hs, path, hp⟩
    obtain ⟨a, ha, rfl⟩ := getElem?_modify ha'
    refine ⟨k, a, ha, ?_, path, ?_⟩
    · split at hs
      · rwa [(hf.heard a).stopped] at hs
      · exact hs
    · split at hp
      · rwa [(hf.heard a).handles] at hp
      · exact hp
  · rintro ⟨k, a, ha, hs, path, hp⟩
    have hget : (s.modify j f).actors[k]? = some (if j = k then f a else a) := by
      show (s.actors.modify j f)[k]? = _
      rw [List.getElem?_modify, ha]
      split
      · rfl
      · rfl
    refine ⟨k, _, hget, ?_, path, ?_⟩
    · split
      · rw [(hf.heard a).stopped, hs]
      · exact hs
    · split
      · rw [(hf.heard a).handles, hp]
      · exact hp

/-- Nobody lets go of an actor while messages and answers are delivered. -/
theorem held_emit {i : ActorId} (h : s.held i = true) (o : Output) : (s.emit o).held i = true := by
  refine emit_induct (P := fun s => s.held i = true) (fun s j _ f hf _ h => (held_modify hf s i j).2 h)
    (fun s _ _ h => h) (fun s waiting request handle _ h => ?_) h
  rw [held_iff] at h ⊢
  refine h.imp_left ?_
  rintro ⟨handle', hm, he⟩
  exact ⟨handle', List.mem_cons_of_mem _ hm, he⟩

/-- Only the answer to an `OpenSubdir` gives somebody a handle. -/
theorem held_of_emit {i : ActorId} (h : (s.emit o).held i = true) : s.held i = true ∨
    ∃ waiting request name, o = .subdir waiting request (.ok (name, i)) := by
  refine emit_induct (P := fun s' => s'.held i = true → s.held i = true ∨
      ∃ waiting request name, o = .subdir waiting request (.ok (name, i)))
    (fun s' j _ f hf _ hold h => hold ((held_modify hf s' i j).1 h)) (fun s' _ _ hold h => hold h)
    (fun s' waiting request handle ho hold h => ?_) .inl h
  rw [held_iff] at h
  rcases h with ⟨handle', hm, he⟩ | h
  · rcases List.mem_cons.1 hm with rfl | hm
    · subst he
      exact .inr ⟨waiting, request, _, ho⟩
    · exact hold (held_iff.2 (.inl ⟨handle', hm, he⟩))
  · exact hold (held_iff.2 (.inr h))

theorem held_of_emits {i : ActorId} : ∀ (os : List Output) {s : System β},
    (∀ waiting request name, .subdir waiting request (.ok (name, i)) ∈ os → s.held i = true) →
    (os.foldl System.emit s).held i = true → s.held i = true
  | [], _, _, h => h
  | o :: os, s, hos, h => by
    have h1 := held_of_emits os (fun waiting request name hm =>
      held_emit (hos waiting request name (.tail _ hm)) o) h
    rcases held_of_emit h1 with h | ⟨waiting, request, name, rfl⟩
    · exact h
    · exact hos waiting request name (.head _)

/-- All that has happened to the actors is that they have got messages and answers out of `os`. -/
structure Mailed (s s' : System β) (os : List Output) : Prop where
  length : s'.actors.length = s.actors.length
  heard : ∀ (j : ActorId) (a' : DirActor), s'.actors[j]? = some a' →
    ∃ a msgs, s.actors[j]? = some a ∧ Heard msgs a a' ∧
      ∀ msg ∈ msgs, .send j msg ∈ os ∨ .notifyParent j msg ∈ os

theorem mailed_emit (s : System β) (o : Output) : Mailed s (s.emit o) [o] := by
  refine emit_induct (P := fun s' => Mailed s s' [o]) ?_ (fun s' _ _ h => ⟨h.length, h.heard⟩)
    (fun s' _ _ _ _ h => ⟨h.length, h.heard⟩) ⟨rfl, fun j a ha => ⟨a, [], ha, .refl a, nofun⟩⟩
  intro s' i msg f hf ho h
  refine ⟨(List.length_modify _ _ _).trans h.length, fun j a'' ha'' => ?_⟩
  obtain ⟨a', ha', rfl⟩ := getElem?_modify ha''
  obtain ⟨a, msgs, ha, hheard, hmsgs⟩ := h.heard j a' ha'
  split
  · rename_i hij
    subst hij
    refine ⟨a, msgs ++ msg.toList, ha, hheard.trans (hf.heard a'), fun m hm => ?_⟩
    rcases List.mem_append.1 hm with hm | hm
    · exact hmsgs m hm
    · rw [Option.mem_toList] at hm
      rcases ho m hm with rfl | rfl
      · exact .inl (.head _)
      · exact .inr (.head _)
  · exact ⟨a, msgs, ha, hheard, hmsgs⟩

theorem mailed_emits : ∀ (os : List Output) (s : System β), Mailed s (os.foldl System.emit s) os
  | [], s => ⟨rfl, fun j a ha => ⟨a, [], ha, .refl a, nofun⟩⟩
  | o :: os, s => by
    have h1 := mailed_emit s o
    have h2 := mailed_emits os (s.emit o)
    refine ⟨h2.length.trans h1.length, fun j a'' ha'' => ?_⟩
    obtain ⟨a', msgs', ha', hheard', hmsgs'⟩ := h2.heard j a'' ha''
    obtain ⟨a, msgs, ha, hheard, hmsgs⟩ := h1.heard j a' ha'
    refine ⟨a, msgs ++ msgs', ha, hheard.trans hheard', fun m hm => ?_⟩
    rcases List.mem_append.1 hm with hm | hm
    · refine (hmsgs m hm).imp (fun h => ?_) fun h => ?_
      · rw [List.mem_singleton.1 h]
        exact .head _
      · rw [List.mem_singleton.1 h]
        exact .head _
    · exact (hmsgs' m hm).imp (.tail _) (.tail _)

/-! ## Outputs that go out -/

/-- A message that asks for no save. -/
theorem overheard_enqueue (s : System β) (i : ActorId) {msg : ActorMessage}
    (h : msg.asker = none) : Overheard s (s.enqueue i msg) := by
  refine overheard_modify s i fun a => ⟨rfl, rfl, fun path => ?_, rfl, fun _ _ => id, fun _ _ => id,
    fun m hm => List.mem_append_left _ hm, ?_⟩
  · cases path <;> rfl
  · show a.phase.asker.toList ++ (a.mailbox ++ [msg]).filterMap ActorMessage.asker = _
    rw [List.filterMap_append, List.filterMap_cons_none h, List.filterMap_nil, List.append_nil]
    rfl

theorem overheard_resume : ∀ (waiting : List ActorId) (s : System β),
    Overheard s (waiting.foldl (fun s i => s.modify i resume) s)
  | [], s => .of_actors rfl
  | i :: waiting, s => by
    refine (overheard_modify s i fun a => ?_).trans (overheard_resume waiting _)
    unfold resume
    split
    · rename_i hp
      refine ⟨rfl, rfl, fun path => ?_, by simp [isStopped, hp], nofun, fun _ _ h => ?_, fun _ => id, ?_⟩
      · cases path <;> rfl
      · rw [hp] at h
        cases h
      · simp [DirActor.owed, hp, Phase.asker]
    · exact .refl a

/-- An answer that is not to a parent's question to save. -/
theorem overheard_reply (s : System β) {o : Output} (h : o.asker = none) :
    Overheard s (s.reply o) := by
  unfold reply
  split
  · exact .of_actors rfl
  · rename_i waiting request result
    have h1 := overheard_resume waiting s
    dsimp only
    split
    · exact ⟨h1.back, h1.length⟩
    · exact ⟨h1.back, h1.length⟩
  · exact .of_actors rfl
  · cases h
  · exact .of_actors rfl
  · refine overheard_modify s _ fun a => ?_
    unfold storeMerged
    split
    · rename_i hp
      refine ⟨rfl, rfl, fun path => ?_, by simp [isStopped, hp], nofun, fun _ _ h => ?_, fun _ => id, ?_⟩
      · cases path <;> rfl
      · rw [hp] at h
        cases h
      · simp [DirActor.owed, hp, Phase.asker]
    · exact .refl a
  · exact .of_actors rfl

/-- The answer of a child that has been asked to save. -/
theorem Flags.storeReply {p : ActorId} {path : DirHandlePath} {r : Except String (Option Hash)}
    (h : Flags H (o :: os) s) (ho : o.asker = some (p, path))
    (hno : ∀ q, o ≠ .notifyParent q .markAsDirty)
    (hclean : ∀ k, r = .ok k → o = .saved (.parent p path) (.ok k)) :
    Flags H os (s.modify p (storeReply path r)) := by
  -- apart from the answers that it waits for, the actor is as it was
  have hf : ∀ a : DirActor, (System.storeReply path r a).context = a.context ∧
      (System.storeReply path r a).dirty = a.dirty ∧
      (∀ q, (System.storeReply path r a).handleAt q = a.handleAt q) ∧
      isStopped (System.storeReply path r a) = isStopped a ∧
      (System.storeReply path r a).mailbox = a.mailbox ∧
      (System.storeReply path r a).owed = a.owed := by
    intro a
    unfold System.storeReply
    split
    · rename_i hp
      refine ⟨rfl, rfl, fun q => ?_, by simp [isStopped, hp], rfl, ?_⟩
      · cases q <;> rfl
      · simp only [DirActor.owed, hp, Phase.asker_saving]
    · exact ⟨rfl, rfl, fun _ => rfl, rfl, rfl, rfl⟩
  have hback : ∀ {j : ActorId} {a' : DirActor},
      (s.modify p (System.storeReply path r)).actors[j]? = some a' →
      ∃ a, s.actors[j]? = some a ∧ a'.context = a.context ∧ a'.dirty = a.dirty ∧
        (∀ q, a'.handleAt q = a.handleAt q) ∧ isStopped a' = isStopped a ∧
        a'.mailbox = a.mailbox ∧ a'.owed = a.owed ∧
        ∀ replies' responder, a'.phase = .saving replies' responder → ∃ replies,
          a.phase = .saving replies responder ∧ replies' =
            if p = j then replies.map fun reply =>
              (reply.1, if reply.1 = path then some r else reply.2)
            else replies := by
    intro j a' ha'
    obtain ⟨a, ha, rfl⟩ := getElem?_modify ha'
    refine ⟨a, ha, ?_⟩
    split
    · obtain ⟨h1, h2, h3, h4, h5, h6⟩ := hf a
      refine ⟨h1, h2, h3, h4, h5, h6, fun replies' responder hph => ?_⟩
      unfold System.storeReply at hph
      split at hph
      · rename_i replies responder' hp
        obtain ⟨rfl, rfl⟩ := Phase.saving.inj hph
        exact ⟨replies, hp, rfl⟩
      · rename_i hp
        exact absurd hph (hp _ _)
    · exact ⟨rfl, rfl, fun _ => rfl, rfl, rfl, rfl, fun replies' responder hph => ⟨replies', hph, rfl⟩⟩
  have hnot : ∀ {x : ActorId} {q : ActorId} {path' : DirHandlePath},
      ((∃ b, s.actors[x]? = some b ∧ (q, path') ∈ b.owed) ∨
        .send x (.saveIfDirty (.parent q path')) ∈ os) → (q, path') ≠ (p, path) := by
    rintro x q path' hx he
    have hfr := h.fresh
    rw [List.filterMap_cons_some ho] at hfr
    rcases hx with ⟨b, hb, hk⟩ | hx
    · exact hfr.2 _ (.head _) x b hb (he ▸ hk)
    · have hmem : (p, path) ∈ os.filterMap Output.asker :=
        List.mem_filterMap.2 ⟨_, hx, by rw [← he]; rfl⟩
      exact (List.nodup_cons.1 hfr.1).1 hmem
  refine ⟨?_, ?_, ?_, ?_, ?_, ?_, ?_⟩
  · intro q c a' b' path' hH ha hs hb hp hc hd
    obtain ⟨a, ha0, -, had, hah, has, ham, -⟩ := hback ha
    obtain ⟨b, hb0, hbc, hbd, -⟩ := hback hb
    rcases h.up q c a b path' hH ha0 (has ▸ hs) hb0 (hbc ▸ hp) ((hah path').symm.trans hc)
      (hbd ▸ hd) with hd | hm | hn
    · exact .inl (had.trans hd)
    · exact .inr (.inl (by unfold DirActor.Marked; rw [ham]; exact hm))
    · rcases List.mem_cons.1 hn with hn | hn
      · exact absurd hn.symm (hno q)
      · exact .inr (.inr hn)
  · intro q a' replies' responder ha hph
    obtain ⟨a, ha0, hac, had, hah, -, -, -, hsav⟩ := hback ha
    obtain ⟨replies, hph0, rfl⟩ := hsav replies' responder hph
    obtain ⟨hd, hcover⟩ := h.saving q a replies responder ha0 hph0
    refine ⟨fun hp => had.trans (hd (hac ▸ hp)), fun path' c hc => ?_⟩
    obtain ⟨x, hx⟩ := hcover path' c ((hah path').symm.trans hc)
    split
    · exact ⟨_, List.mem_map.2 ⟨(path', x), hx, rfl⟩⟩
    · exact ⟨x, hx⟩
  · intro q c a' b' path' replies' responder k hH ha hph hb hp hc hr hd
    obtain ⟨a, ha0, -, -, hah, -, ham, -, hsav⟩ := hback ha
    obtain ⟨b, hb0, hbc, hbd, -⟩ := hback hb
    obtain ⟨replies, hph0, hreplies⟩ := hsav replies' responder hph
    have hold : (path', some (.ok k)) ∈ replies → a'.Marked ∨ .notifyParent q .markAsDirty ∈ os := by
      intro hr
      rcases h.answered q c a b path' replies responder k hH ha0 hph0 hb0 (hbc ▸ hp)
        ((hah path').symm.trans hc) hr (hbd ▸ hd) with hm | hn
      · exact .inl (by unfold DirActor.Marked; rw [ham]; exact hm)
      · rcases List.mem_cons.1 hn with hn | hn
        · exact absurd hn.symm (hno q)
        · exact .inr hn
    rw [hreplies] at hr
    split at hr
    · rename_i hpq
      subst hpq
      obtain ⟨⟨path0, x⟩, hx, he⟩ := List.mem_map.1 hr
      have hpx : path0 = path' ∧ (if path0 = path then some r else x) = some (.ok k) :=
        Prod.mk.inj he
      obtain ⟨rfl, hpx⟩ := hpx
      by_cases hpath : path0 = path
      · subst hpath
        rw [if_pos rfl] at hpx
        -- the child has answered just now, and is clean
        have hok := hclean k (Option.some.inj hpx)
        have := h.clean p c a b path0 k (hok ▸ .head _) ha0 ((hah path0).symm.trans hc) hb0
          (hbc ▸ hp)
        rw [hbd, this] at hd
        cases hd
      · rw [if_neg hpath] at hpx
        exact hold (hpx ▸ hx)
    · exact hold hr
  · intro x q path' hx
    have hx' : (∃ b, s.actors[x]? = some b ∧ (q, path') ∈ b.owed) ∨
        .send x (.saveIfDirty (.parent q path')) ∈ os := by
      rcases hx with ⟨b', hb, hk⟩ | hx
      · obtain ⟨b, hb0, -, -, -, -, -, hbo, -⟩ := hback hb
        exact .inl ⟨b, hb0, hbo ▸ hk⟩
      · exact .inr hx
    have hne := hnot hx'
    obtain ⟨a, replies, responder, ha, hph, hr, hc⟩ :=
      h.owes x q path' (hx'.imp_right (List.mem_cons_of_mem _))
    have hget : (s.modify p (System.storeReply path r)).actors[q]? =
        some (if p = q then System.storeReply path r a else a) := by
      show (s.actors.modify p _)[q]? = _
      rw [List.getElem?_modify, ha]
      split
      · rfl
      · rfl
    by_cases hpq : p = q
    · subst hpq
      rw [if_pos rfl] at hget
      refine ⟨_, replies.map fun reply => (reply.1, if reply.1 = path then some r else reply.2),
        responder, hget, ?_,
        ?_, ((hf a).2.2.1 path').trans hc⟩
      · unfold System.storeReply
        rw [hph]
      · refine List.mem_map.2 ⟨(path', none), hr, ?_⟩
        have hpath : path' ≠ path := fun he => hne (by rw [he])
        simp [hpath]
    · rw [if_neg hpq] at hget
      exact ⟨a, replies, responder, hget, hph, hr, hc⟩
  · intro x b' hb
    obtain ⟨b, hb0, -, -, -, -, -, hbo, -⟩ := hback hb
    rw [hbo]
    exact h.once x b hb0
  · have hfr := h.fresh
    rw [List.filterMap_cons_some ho] at hfr
    refine ⟨(List.nodup_cons.1 hfr.1).2, fun k hk x b' hb => ?_⟩
    obtain ⟨b, hb0, -, -, -, -, -, hbo, -⟩ := hback hb
    rw [hbo]
    exact hfr.2 k (List.mem_cons_of_mem _ hk) x b hb0
  · intro q c a' b' path' k ho' ha hc hb hp
    obtain ⟨a, ha0, -, -, hah, -⟩ := hback ha
    obtain ⟨b, hb0, hbc, hbd, -⟩ := hback hb
    rw [hbd]
    exact h.clean q c a b path' k (List.mem_cons_of_mem _ ho') ha0 ((hah path').symm.trans hc) hb0
      (hbc ▸ hp)

/-- A question to save arrives. -/
theorem Flags.ask {x p : ActorId} {path : DirHandlePath}
    (h : Flags H (.send x (.saveIfDirty (.parent p path)) :: os) s) :
    Flags H os (s.enqueue x (.saveIfDirty (.parent p path))) := by
  have hback : ∀ {j : ActorId} {a' : DirActor},
      (s.enqueue x (.saveIfDirty (.parent p path))).actors[j]? = some a' →
      ∃ a, s.actors[j]? = some a ∧ a'.context = a.context ∧ a'.dirty = a.dirty ∧
        (∀ q, a'.handleAt q = a.handleAt q) ∧ a'.phase = a.phase ∧ (a.Marked → a'.Marked) ∧
        a'.owed = a.owed ++ if x = j then [(p, path)] else [] := by
    intro j a' ha'
    obtain ⟨a, ha, rfl⟩ := getElem?_modify ha'
    refine ⟨a, ha, ?_⟩
    split
    · refine ⟨rfl, rfl, fun q => ?_, rfl, fun hm => List.mem_append_left _ hm, ?_⟩
      · cases q <;> rfl
      · simp [DirActor.owed, ActorMessage.asker, Responder.asker]
    · exact ⟨rfl, rfl, fun _ => rfl, rfl, id, by simp⟩
  have hstop : ∀ {a a' : DirActor}, a'.phase = a.phase → isStopped a' = isStopped a := by
    intro a a' hp
    unfold isStopped
    rw [hp]
  have ho : Output.asker (.send x (.saveIfDirty (.parent p path))) = some (p, path) := rfl
  have hfr := h.fresh
  rw [List.filterMap_cons_some ho] at hfr
  refine ⟨?_, ?_, ?_, ?_, ?_, ?_, ?_⟩
  · intro q c a' b' path' hH ha hs hb hp hc hd
    obtain ⟨a, ha0, -, had, hah, hap, ham, -⟩ := hback ha
    obtain ⟨b, hb0, hbc, hbd, -⟩ := hback hb
    rcases h.up q c a b path' hH ha0 (hstop hap ▸ hs) hb0 (hbc ▸ hp) ((hah path').symm.trans hc)
      (hbd ▸ hd) with hd | hm | hn
    · exact .inl (had.trans hd)
    · exact .inr (.inl (ham hm))
    · rcases List.mem_cons.1 hn with hn | hn
      · cases hn
      · exact .inr (.inr hn)
  · intro q a' replies responder ha hph
    obtain ⟨a, ha0, hac, had, hah, hap, -⟩ := hback ha
    obtain ⟨hd, hcover⟩ := h.saving q a replies responder ha0 (hap ▸ hph)
    exact ⟨fun hp => had.trans (hd (hac ▸ hp)),
      fun path' c hc => hcover path' c ((hah path').symm.trans hc)⟩
  · intro q c a' b' path' replies responder k hH ha hph hb hp hc hr hd
    obtain ⟨a, ha0, -, -, hah, hap, ham, -⟩ := hback ha
    obtain ⟨b, hb0, hbc, hbd, -⟩ := hback hb
    rcases h.answered q c a b path' replies responder k hH ha0 (hap ▸ hph) hb0 (hbc ▸ hp)
      ((hah path').symm.trans hc) hr (hbd ▸ hd) with hm | hn
    · exact .inl (ham hm)
    · rcases List.mem_cons.1 hn with hn | hn
      · cases hn
      · exact .inr hn
  · intro y q path' hy
    have hy' : (∃ b, s.actors[y]? = some b ∧ (q, path') ∈ b.owed) ∨
        .send y (.saveIfDirty (.parent q path')) ∈
          .send x (.saveIfDirty (.parent p path)) :: os := by
      rcases hy with ⟨b', hb, hk⟩ | hy
      · obtain ⟨b, hb0, -, -, -, -, -, hbo⟩ := hback hb
        rw [hbo] at hk
        rcases List.mem_append.1 hk with hk | hk
        · exact .inl ⟨b, hb0, hk⟩
        · split at hk
          · rename_i hxy
            obtain ⟨rfl, rfl⟩ := Prod.mk.inj (List.mem_singleton.1 hk)
            exact .inr (hxy ▸ .head _)
          · cases hk
      · exact .inr (.tail _ hy)
    obtain ⟨a, replies, responder, ha, hph, hr, hc⟩ := h.owes y q path' hy'
    have hlt : q < (s.enqueue x (.saveIfDirty (.parent p path))).actors.length := by
      show q < (s.actors.modify x _).length
      rw [List.length_modify]
      exact (List.getElem?_eq_some_iff.1 ha).1
    have ha' := List.getElem?_eq_getElem hlt
    obtain ⟨a0, ha0, -, -, hah, hap, -⟩ := hback ha'
    obtain rfl := Option.some.inj (ha.symm.trans ha0)
    exact ⟨_, replies, responder, ha', hap.trans hph, hr, (hah path').trans hc⟩
  · intro y b' hb
    obtain ⟨b, hb0, -, -, -, -, -, hbo⟩ := hback hb
    rw [hbo]
    refine List.Nodup.append (h.once y b hb0) ?_ ?_
    · split
      · exact List.nodup_singleton _
      · exact List.nodup_nil
    · intro k hk hk'
      split at hk'
      · obtain rfl := List.mem_singleton.1 hk'
        exact hfr.2 _ (.head _) y b hb0 hk
      · cases hk'
  · refine ⟨(List.nodup_cons.1 hfr.1).2, fun k hk y b' hb => ?_⟩
    obtain ⟨b, hb0, -, -, -, -, -, hbo⟩ := hback hb
    rw [hbo]
    intro hmem
    rcases List.mem_append.1 hmem with hmem | hmem
    · exact hfr.2 k (.tail _ hk) y b hb0 hmem
    · split at hmem
      · obtain rfl := List.mem_singleton.1 hmem
        exact (List.nodup_cons.1 hfr.1).1 hk
      · cases hmem
  · intro q c a' b' path' k ho' ha hc hb hp
    obtain ⟨a, ha0, -, -, hah, -⟩ := hback ha
    obtain ⟨b, hb0, hbc, hbd, -⟩ := hback hb
    rw [hbd]
    exact h.clean q c a b path' k (.tail _ ho') ha0 ((hah path').symm.trans hc) hb0 (hbc ▸ hp)

/-- An output goes out. -/
theorem Flags.emit (h : Flags H (o :: os) s) (hH : ∀ p, H p → s.held p = true)
    (hn : ∀ p msg, o = .notifyParent p msg → msg.asker = none) : Flags H os (s.emit o) := by
  have hplain : ∀ {s' : System β}, Overheard s s' → o.asker = none →
      (∀ p, o ≠ .notifyParent p .markAsDirty) → Flags H os s' := fun hov ho hno =>
    h.overheard hov ho fun p _ _ he => absurd he (hno p)
  cases o with
  | answer request result =>
    have hov : Overheard s (s.reply (.answer request result)) := overheard_reply s rfl
    exact hplain hov rfl nofun
  | subdir waiting request result =>
    have hov : Overheard s (s.reply (.subdir waiting request result)) := overheard_reply s rfl
    exact hplain hov rfl nofun
  | merged responder result =>
    have hov : Overheard s (s.reply (.merged responder result)) := overheard_reply s rfl
    exact hplain hov rfl nofun
  | saved responder r =>
    cases responder with
    | client request =>
      have hov : Overheard s (s.reply (.saved (.client request) r)) := overheard_reply s rfl
      exact hplain hov rfl nofun
    | parent p path => exact h.storeReply rfl nofun fun k hk => by rw [hk]
  | notifyParent p msg =>
    have hask := hn p msg rfl
    simp only [System.emit]
    split
    · refine h.overheard (overheard_enqueue s p hask) rfl fun q a' hq he ha _ => ?_
      obtain ⟨rfl, rfl⟩ := Output.notifyParent.inj he
      obtain ⟨a, -, rfl⟩ := getElem?_modify ha
      rw [if_pos rfl]
      exact List.mem_append_right _ (.head _)
    · rename_i hgone
      -- nobody holds the parent, or it has ended
      refine h.overheard (.of_actors rfl) rfl fun q a' hq he ha hs => absurd ?_ hgone
      obtain ⟨rfl, -⟩ := Output.notifyParent.inj he
      simp [hH p hq, closed, ha, hs]
  | send x msg =>
    simp only [System.emit]
    split
    · -- nobody will answer but this
      cases msg with
      | saveIfDirty responder =>
        cases responder with
        | client => exact hplain (.of_actors rfl) rfl nofun
        | parent p path => exact h.storeReply rfl nofun nofun
      | openSubdir base path waiting request =>
        have hov : Overheard s (s.reply (.subdir waiting request (.error "channel closed"))) :=
          overheard_reply s rfl
        exact hplain hov rfl nofun
      | mergeSnapshot snapshot responder =>
        have hov : Overheard s (s.reply (.merged responder (.error "channel closed"))) :=
          overheard_reply s rfl
        exact hplain hov rfl nofun
      | _ => exact hplain (.of_actors rfl) rfl nofun
    · cases msg with
      | saveIfDirty responder =>
        cases responder with
        | client => exact hplain (overheard_enqueue s x rfl) rfl nofun
        | parent p path => exact h.ask
      | _ => exact hplain (overheard_enqueue s x rfl) rfl nofun

theorem Flags.emits : ∀ (os : List Output) {s : System β}, Flags H os s →
    (∀ p, H p → s.held p = true) →
    (∀ p msg, .notifyParent p msg ∈ os → msg.asker = none) → Flags H [] (os.foldl System.emit s)
  | [], _, h, _, _ => h
  | o :: os, _, h, hH, hn => by
    have h1 := h.emit hH fun p msg he => hn p msg (he ▸ .head _)
    exact Flags.emits os h1 (fun p hp => held_emit (hH p hp) o) fun p msg hm => hn p msg (.tail _ hm)

end System

end Fs
