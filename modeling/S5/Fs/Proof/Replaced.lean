import S5.Fs.Proof.DirtyRun
import S5.Fs.Proof.Entries
import Mathlib.Data.List.Forall2

/-!
# Who changes the hash of a subdirectory

A directory knows a child that reports its hash only by the name it was opened under. `Traced` runs a
file system and remembers who has sent each message that waits.

* `Traced.hash_kept`: in every run in which no actor reports a hash after it has been replaced, and no
  merge replaces a directory whose report waits, the hash of a subdirectory changes only by a merge,
  by a report of the child that is open under the name or by its answer to a save.
-/

open Std

namespace Fs

namespace System

variable {β : Type}

/-- What waits for an actor. -/
def mailbox (s : System β) (i : ActorId) : List ActorMessage := (s.actors[i]?.map (·.mailbox)).getD []

/-- The child that an actor has open at a place. -/
def handle (s : System β) (i : ActorId) (path : DirHandlePath) : Option ActorId :=
  s.actors[i]?.bind (·.handleAt path)

/-- Who acts in an event, unless it is a client or a clock. -/
def Event.actor : Event → Option ActorId
  | .run i => some i
  | .halt i => some i
  | _ => none

/-- How many messages an event leaves in a mailbox. -/
def left [DecidableEq β] (env : Env β) (s : System β) (e : Event) (j : ActorId) : Nat :=
  match e with
  | .run i =>
    match s.actors[i]? with
    | some a => if i = j then ((s.turn i a).run env).actor.mailbox.length else (s.mailbox j).length
    | none => (s.mailbox j).length
  | .reopen => 0
  | _ => (s.mailbox j).length

end System

/-- A system and, for each message that waits, who has sent it. -/
structure Traced (β : Type) where
  system : System β
  senders : ActorId → List (Option ActorId)

namespace Traced

open Fs.System

variable {β : Type}

def opened (ctx : DirContext ActorId) (w : World β) (r : LocalRoot) : Traced β :=
  ⟨.opened ctx w r, fun _ => []⟩

/-- The messages that an event puts into a mailbox are sent by whoever acts in it. -/
def step [DecidableEq β] (env : Env β) (t : Traced β) (e : Event) : Traced β where
  system := t.system.step env e
  senders j :=
    let kept := (t.senders j).drop ((t.senders j).length - t.system.left env e j)
    kept ++ List.replicate (((t.system.step env e).mailbox j).length - kept.length) e.actor

/-! ## The property -/

/-- The hash of a subdirectory changes only by a merge, by what the child that is open under the name
has reported, or by what it has answered. -/
def HashKept [DecidableEq β] (env : Env β) (t : Traced β) (e : Event) : Prop :=
  ∀ (p : ActorId) (a a' : DirActor) (name : String) (r r' : DirRef),
    t.system.actors[p]? = some a → (t.system.step env e).actors[p]? = some a' →
    a.state.dirs[name]? = some r → a'.state.dirs[name]? = some r' → r'.hash ≠ r.hash →
    e = .run p ∧ ((∃ snapshot responder rest, a.phase = .idle ∧
        a.mailbox = .mergeSnapshot snapshot responder :: rest) ∨
      ∃ x, a.handleAt (.path name) = some x ∧
        ((∃ rest senders, a.phase = .idle ∧
          a.mailbox = .updateDirRefHash (.path name) r'.hash :: rest ∧
          t.senders p = some x :: senders) ∨
        ∃ replies responder, a.phase = .saving replies responder ∧
          (.path name, some (.ok (some r'.hash))) ∈ replies))

end Traced

namespace System

variable {β : Type}

/-! ## The condition -/

/-- The actor saves itself and tells its parent next. -/
def reportsNext (a : DirActor) : Bool :=
  match a.phase, a.mailbox with
  | .starting (some _), _ => true
  | .idle, .autosaveTick :: _ => a.dirty
  | _, _ => false

/-- The actor is not the one that its parent has open in its place. -/
def replaced (s : System β) (i : ActorId) (a : DirActor) : Bool :=
  a.context.parent.any fun place => s.handle place.2 place.1 ≠ some i

/-- What lies under a name loses against a snapshot. -/
def losesTo (state snapshot : DirV1) (name : String) : Bool :=
  (lww ⟨state.dirs[name]?, state.files[name]?, false⟩ snapshot.dirs[name]?
    snapshot.files[name]?).dropped

/-- The directory for whose child a message reports. -/
def reportedName : ActorMessage → Option String
  | .updateDirRefHash (.path name) _ => some name
  | _ => none

/-- The actor merges a snapshot next and loses a directory whose report waits. -/
def mergesOver (a : DirActor) : Bool :=
  match a.phase, a.mailbox with
  | .idle, .mergeSnapshot snapshot _ :: rest => a.state.header.shardLevel.isNone &&
    rest.any fun msg => (reportedName msg).any (losesTo a.state snapshot)
  | _, _ => false

/-- Nobody reports who has been replaced, and nobody is replaced whose report waits. -/
def ReportsInPlace (s : System β) (e : Event) : Prop :=
  ∀ i ∈ e.turnOf, ∀ a ∈ s.actors[i]?,
    (reportsNext a && s.replaced i a) = false ∧ mergesOver a = false

instance (s : System β) (e : Event) : Decidable (s.ReportsInPlace e) := by
  unfold ReportsInPlace
  infer_instance

/-! ## Turns -/

variable {s : System β} {i : ActorId} {a : DirActor} {t t' : Turn β}

/-- A turn takes one message at most, unless the actor stops. -/
theorem taken_acts (h : Turn.Acts t t') : t'.actor.mailbox = t.actor.mailbox ∨
    (t.actor.phase = .idle ∧ ∃ msg, t.actor.mailbox = msg :: t'.actor.mailbox) ∨
    (isStopped t'.actor = true ∧ t'.actor.mailbox = []) := by
  have htake : ∀ {t1 : Turn β} {msg : ActorMessage} {rest : List ActorMessage},
      t.actor.mailbox = msg :: rest → Turn.Stirs (t.take rest) t1 →
      t.actor.mailbox = msg :: t1.actor.mailbox := by
    intro t1 msg rest hm h
    rw [h.mailbox, hm]
    rfl
  cases h with
  | waits h => exact .inl (by rw [h])
  | goesOn hp h => exact .inl h.mailbox
  | handles msg rest hp hm hs h hd => exact .inr (.inl ⟨hp, msg, htake hm h⟩)
  | opens t1 base waiting request path rest name c hp hm h hc ht =>
    subst ht
    have hrest := htake hm h
    exact .inr (.inl ⟨hp, _, hrest⟩)
  | asks t1 responder rest hp hm hd h ht =>
    subst ht
    have hrest := htake hm h
    exact .inr (.inl ⟨hp, _, hrest⟩)
  | answers t1 responder rest r hp hm h hr ht =>
    subst ht
    have hrest := htake hm h
    exact .inr (.inl ⟨hp, _, hrest⟩)
  | finishes t1 replies responder r state dirty d hp hall hd h ht hr hd' =>
    subst ht
    exact .inl h.mailbox
  | autosaves t1 t2 rest d hp hm hd h hr ht =>
    subst ht
    obtain ⟨os, rfl, -⟩ := hr.says
    have hrest := htake hm h
    exact .inr (.inl ⟨hp, _, hrest⟩)
  | starts t1 initial hp h hidle hr hi =>
    obtain ⟨os, rfl, -⟩ := hr.says
    exact .inl h.mailbox
  | fails hp ht =>
    subst ht
    exact .inr (.inr ⟨rfl, rfl⟩)

/-- A turn takes messages from the front of the mailbox. -/
theorem mailbox_acts (h : Turn.Acts t t') :
    ∃ n, n ≤ t.actor.mailbox.length ∧ t'.actor.mailbox = t.actor.mailbox.drop n := by
  rcases taken_acts h with he | ⟨-, msg, hm⟩ | ⟨-, he⟩
  · exact ⟨0, Nat.zero_le _, he⟩
  · exact ⟨1, by simp [hm], by simp [hm]⟩
  · exact ⟨t.actor.mailbox.length, Nat.le_refl _, by simp [he]⟩

/-- To whom an output reports a hash, and for which place. -/
def reportOf : Output → Option (ActorId × DirHandlePath)
  | .send j (.updateDirRefHash path _) => some (j, path)
  | .notifyParent j (.updateDirRefHash path _) => some (j, path)
  | _ => none

theorem reportOf_plain {o : Output} (h : o.Plain) : reportOf o = none := by
  cases o with
  | send j msg =>
    cases msg with
    | updateDirRefHash path k => exact h.elim
    | _ => rfl
  | notifyParent j msg =>
    have hm : msg = .markAsDirty := h
    subst hm
    rfl
  | _ => rfl

/-- Only an actor that saves itself reports a hash, and only to its parent. -/
theorem reportOf_acts (h : Turn.Acts t t') (hout : t.out = []) {o : Output} (ho : o ∈ t'.out)
    {j : ActorId} {path : DirHandlePath} (hr : reportOf o = some (j, path)) :
    reportsNext t.actor = true ∧ t.actor.context.parent = some (path, j) := by
  have hplain : ∀ {t0 t1 : Turn β}, Turn.Stirs t0 t1 → t0.out = [] → o ∉ t1.out := by
    intro t0 t1 h h0 hmem
    obtain ⟨new, hnew, hp⟩ := h.out
    rw [h0, List.nil_append] at hnew
    rw [hnew] at hmem
    rw [reportOf_plain (hp o hmem)] at hr
    cases hr
  have hsilent : ∀ {t0 t1 : Turn β} {extra : List Output}, Turn.Stirs t0 t1 → t0.out = [] →
      o ∈ t1.out ++ extra → (∀ o ∈ extra, reportOf o = none) → False := by
    intro t0 t1 extra h h0 hmem hextra
    rcases List.mem_append.1 hmem with hmem | hmem
    · exact hplain h h0 hmem
    · rw [hextra o hmem] at hr
      cases hr
  have hsaid : ∀ {t0 t1 : Turn β} {os : List Output}, Turn.Stirs t0 t1 → t0.out = [] →
      o ∈ t1.out ++ os → (∀ o ∈ os, ∃ path p k, t1.actor.context.parent = some (path, p) ∧
        o = .notifyParent p (.updateDirRefHash path k)) →
      t0.actor.context.parent = some (path, j) := by
    intro t0 t1 os h h0 hmem hos
    rcases List.mem_append.1 hmem with hmem | hmem
    · exact absurd hmem (hplain h h0)
    · obtain ⟨path', p, k, hpar, rfl⟩ := hos o hmem
      obtain ⟨rfl, rfl⟩ := Prod.mk.inj (Option.some.inj hr)
      rw [← h.parent]
      exact hpar
  cases h with
  | waits h =>
    rw [h, hout] at ho
    cases ho
  | goesOn hp h => exact absurd ho (hplain h hout)
  | handles msg rest hp hm hs h hd => exact absurd ho (hplain h hout)
  | opens t1 base waiting request path' rest name c hp hm h hc ht =>
    subst ht
    exact (hsilent h hout ho (by simp [reportOf])).elim
  | asks t1 responder rest hp hm hd h ht =>
    subst ht
    refine (hsilent h hout ho fun o ho => ?_).elim
    obtain ⟨child, -, rfl⟩ := List.mem_map.1 ho
    rfl
  | answers t1 responder rest r hp hm h hr' ht =>
    subst ht
    exact (hsilent h hout ho (by simp [reportOf])).elim
  | finishes t1 replies responder r state dirty d hp hall hd h ht hr' hd' =>
    subst ht
    exact (hsilent h hout ho (by simp [reportOf])).elim
  | autosaves t1 t2 rest d hp hm hd h hr' ht =>
    subst ht
    obtain ⟨os, rfl, hos⟩ := hr'.says
    have hpar := hsaid h hout ho hos
    refine ⟨?_, hpar⟩
    simp only [reportsNext, hp, hm]
    exact hd
  | starts t1 initial hp h hidle hr' hi =>
    cases initial with
    | none =>
      rw [hi rfl] at ho
      exact absurd ho (hplain h hout)
    | some d =>
      obtain ⟨os, rfl, hos⟩ := hr'.says
      refine ⟨?_, hsaid h hout ho hos⟩
      simp only [reportsNext, hp]
  | fails hp ht =>
    subst ht
    refine (hsilent (.refl t) hout ho fun o ho => ?_).elim
    rcases Turn.dropped_error ho with ⟨_, _, rfl⟩ | ⟨_, _, rfl⟩ | ⟨_, _, _, rfl⟩
    · rfl
    · rfl
    · rfl

/-- Where a turn ends that does not only wait. -/
theorem phase_acts (h : Turn.Acts t t') : t' = t ∨ t'.actor.phase.isCalm = true ∨
    t'.actor.phase = .stopped ∨ ∃ responder, t'.actor.phase =
      .saving ((Turn.children t'.actor).map fun child => (child.1, none)) responder := by
  have hcalm : ∀ {t0 t1 : Turn β}, Turn.Stirs t0 t1 → t0.actor.phase.isCalm = true →
      t1.actor.phase.isCalm = true := by
    intro t0 t1 h h0
    rcases h.phase with hp | hp
    · rw [hp]
      exact h0
    · exact hp
  have hidle : t.actor.phase = .idle → ∀ rest, (t.take rest).actor.phase.isCalm = true := by
    intro h rest
    show t.actor.phase.isCalm = true
    rw [h]
    rfl
  cases h with
  | waits h => exact .inl h
  | goesOn hp h => exact .inr (.inl (hcalm h hp))
  | handles msg rest hp hm hs h hd => exact .inr (.inl (hcalm h (hidle hp rest)))
  | opens t1 base waiting request path rest name c hp hm h hc ht =>
    subst ht
    have hend := hcalm h (hidle hp rest)
    exact .inr (.inl hend)
  | asks t1 responder rest hp hm hd h ht =>
    subst ht
    exact .inr (.inr (.inr ⟨responder, rfl⟩))
  | answers t1 responder rest r hp hm h hr ht =>
    subst ht
    have hend := hcalm h (hidle hp rest)
    exact .inr (.inl hend)
  | finishes t1 replies responder r state dirty d hp hall hd h ht hr hd' =>
    subst ht
    have hend := hcalm h rfl
    exact .inr (.inl hend)
  | autosaves t1 t2 rest d hp hm hd h hr ht =>
    subst ht
    obtain ⟨os, rfl, -⟩ := hr.says
    have hend := hcalm h (hidle hp rest)
    exact .inr (.inl hend)
  | starts t1 initial hp h hidle' hr hi =>
    obtain ⟨os, rfl, -⟩ := hr.says
    refine .inr (.inl ?_)
    show t1.actor.phase.isCalm = true
    rw [hidle']
    rfl
  | fails hp ht =>
    subst ht
    exact .inr (.inr (.inl rfl))

/-- The questions of a save go to children that are open. -/
theorem asked_acts (h : Turn.Acts t t')
    {replies : List (DirHandlePath × Option (Except String (Option Hash)))} {responder : Responder}
    (hp : t'.actor.phase = .saving replies responder) :
    t' = t ∨ ∀ path ∈ replies.map (·.1), t'.actor.handleAt path ≠ none := by
  rcases phase_acts h with h | h | h | ⟨responder', h⟩
  · exact .inl h
  · exact absurd hp (Turn.saving_ne_calm h _ _)
  · rw [h] at hp
    cases hp
  · right
    rw [h] at hp
    obtain ⟨rfl, -⟩ := Phase.saving.inj hp
    intro path hpath
    obtain ⟨reply, hreply, rfl⟩ := List.mem_map.1 hpath
    obtain ⟨child, hchild, rfl⟩ := List.mem_map.1 hreply
    simp [Turn.mem_children hchild]

/-- A turn does not leave an actor unstarted. -/
theorem started_acts (h : Turn.Acts t t') {d : Option DirV1} (hp : t'.actor.phase = .starting d) :
    t' = t := by
  rcases phase_acts h with h | h | h | ⟨responder', h⟩
  · exact h
  · rw [hp] at h
    cases h
  · rw [h] at hp
    cases hp
  · rw [h] at hp
    cases hp

theorem losesTo_iff (state snapshot : DirV1) (name : String) :
    losesTo state snapshot name = true ↔
      name ∈ (mergeEntriesLocal state snapshot.dirs snapshot.files).dropped := by
  have h := congrArg Named.dropped (mergeEntriesLocal_at state snapshot.dirs snapshot.files name)
  unfold losesTo
  rw [← h]
  exact decide_eq_true_iff

variable [DecidableEq β] (env : Env β)

/-- The handle of a child that reports or whose report waits is kept. -/
theorem handle_kept (hm : mergesOver a = false) {path : DirHandlePath} {c : ActorId}
    (hc : a.handleAt path = some c) (hw : reportsNext a = true ∨ ∃ k,
      .updateDirRefHash path k ∈ ((s.turn i a).run env).actor.mailbox) :
    ((s.turn i a).run env).actor.handleAt path = some c := by
  have hacts : Turn.Acts (s.turn i a) ((s.turn i a).run env) := Turn.acts_run _
  have hedits : Turn.Edits False (s.turn i a) ((s.turn i a).run env) :=
    Turn.edits_run _ False.elim
  cases hedits with
  | thins h =>
    obtain ⟨t1, h1, -, hh, -⟩ := h
    rw [hh]
    exact h1.handles path c hc
  | reported path' hash rest hp hm h hdirs => exact (h.handles path).trans hc
  | saved replies responder hp h hdirs => exact (h.handles path).trans hc
  | merged snapshot responder rest hp hmail hl hh =>
    have hp' : a.phase = .idle := hp
    have hmail' : a.mailbox = .mergeSnapshot snapshot responder :: rest := hmail
    have hl' : a.state.header.shardLevel = none := hl
    refine hh path c hc fun name hname hdrop => ?_
    rcases hw with hw | ⟨k, hw⟩
    · simp [reportsNext, hp', hmail'] at hw
    · obtain ⟨n, -, hleft⟩ := mailbox_acts hacts
      rw [hleft] at hw
      have hin : ActorMessage.updateDirRefHash path k ∈ a.mailbox := List.mem_of_mem_drop hw
      rw [hmail'] at hin
      -- the report waits behind the merge
      rcases List.mem_cons.1 hin with he | hin
      · cases he
      · subst hname
        have hany : (rest.any fun msg => (reportedName msg).any (losesTo a.state snapshot)) = true :=
          List.any_eq_true.2 ⟨_, hin, (losesTo_iff a.state snapshot name).2 hdrop⟩
        simp [mergesOver, hp', hmail', hl', hany] at hm
  | started initial hp h => exact (h.handles path).trans hc

end System

/-! ## Senders -/

namespace Traced

open Fs.System

variable {β : Type}

/-- A report is from the child that is open in its place. -/
def Sound (handle : DirHandlePath → Option ActorId) : ActorMessage → Option ActorId → Prop
  | .updateDirRefHash path _, sender => sender ≠ none ∧ handle path = sender
  | _, _ => True

theorem Sound.mono {handle handle' : DirHandlePath → Option ActorId} {msg : ActorMessage}
    {sender : Option ActorId} (h : Sound handle msg sender)
    (hh : ∀ path k, msg = .updateDirRefHash path k → ∀ c, handle path = some c →
      handle' path = some c) : Sound handle' msg sender := by
  cases msg with
  | updateDirRefHash path k =>
    obtain ⟨hs, he⟩ := h
    refine ⟨hs, ?_⟩
    obtain ⟨c, rfl⟩ := Option.ne_none_iff_exists'.1 hs
    exact hh path k rfl c he
  | _ => trivial

/-- All reports that wait are from children in place, and so are the answers that are awaited. -/
structure Inv (t : Traced β) : Prop where
  mail : ∀ j, List.Forall₂ (Sound (t.system.handle j)) (t.system.mailbox j) (t.senders j)
  asked : ∀ (j : ActorId) (a : DirActor) replies responder, t.system.actors[j]? = some a →
    a.phase = .saving replies responder → ∀ path ∈ replies.map (·.1), a.handleAt path ≠ none
  empty : ∀ (j : ActorId) (a : DirActor) d, t.system.actors[j]? = some a →
    a.phase = .starting d → a.state.dirs = ∅

theorem forall₂_replicate {R : ActorMessage → Option ActorId → Prop} {x : Option ActorId} :
    ∀ {msgs : List ActorMessage}, (∀ msg ∈ msgs, R msg x) →
      List.Forall₂ R msgs (List.replicate msgs.length x)
  | [], _ => .nil
  | msg :: msgs, h => by
    rw [List.length_cons, List.replicate_succ]
    exact .cons (h msg (.head _)) (forall₂_replicate fun m hm => h m (.tail _ hm))

variable [DecidableEq β] (env : Env β)

/-- An event takes messages from the front of a mailbox and puts new ones at its end. -/
theorem mail_step {t : Traced β} {e : Event} {j : ActorId}
    (h : List.Forall₂ (Sound (t.system.handle j)) (t.system.mailbox j) (t.senders j)) {n : Nat}
    {new : List ActorMessage} (hn : n ≤ (t.system.mailbox j).length)
    (hmail : (t.system.step env e).mailbox j = (t.system.mailbox j).drop n ++ new)
    (hleft : t.system.left env e j = (t.system.mailbox j).length - n)
    (hold : ∀ path k, .updateDirRefHash path k ∈ (t.system.mailbox j).drop n → ∀ c,
      t.system.handle j path = some c → (t.system.step env e).handle j path = some c)
    (hnew : ∀ msg ∈ new, Sound ((t.system.step env e).handle j) msg e.actor) :
    List.Forall₂ (Sound ((t.step env e).system.handle j)) ((t.step env e).system.mailbox j)
      ((t.step env e).senders j) := by
  have hlen := h.length_eq
  have hkept : (t.senders j).drop ((t.senders j).length - t.system.left env e j) =
      (t.senders j).drop n := by
    congr 1
    omega
  have hcount : ((t.system.step env e).mailbox j).length - ((t.senders j).drop n).length =
      new.length := by
    rw [hmail, List.length_append, List.length_drop, List.length_drop]
    omega
  have hsenders : (t.step env e).senders j =
      (t.senders j).drop n ++ List.replicate new.length e.actor := by
    simp only [step, hkept, hcount]
  rw [hsenders]
  show List.Forall₂ (Sound ((t.system.step env e).handle j)) ((t.system.step env e).mailbox j) _
  rw [hmail]
  refine List.rel_append ?_ (forall₂_replicate hnew)
  have hdrop := List.forall₂_drop n h
  have hboth := (List.forall₂_and_left _ _).2 ⟨fun msg hm => hm, hdrop⟩
  refine hboth.imp fun msg sender hms => hms.2.mono fun path k he c hc => ?_
  exact hold path k (he ▸ hms.1) c hc

omit [DecidableEq β] in
theorem mailed_at {s s' : System β} {os : List Output} (h : Mailed s s' os) (j : ActorId) :
    ∃ msgs, s'.mailbox j = s.mailbox j ++ msgs ∧ (∀ path, s'.handle j path = s.handle j path) ∧
      ∀ msg ∈ msgs, .send j msg ∈ os ∨ .notifyParent j msg ∈ os := by
  cases ha' : s'.actors[j]? with
  | none =>
    have ha : s.actors[j]? = none := by
      rw [List.getElem?_eq_none_iff] at ha' ⊢
      rwa [h.length] at ha'
    refine ⟨[], ?_, fun path => ?_, fun _ hm => absurd hm List.not_mem_nil⟩
    · simp [mailbox, ha, ha']
    · simp [handle, ha, ha']
  | some a' =>
    obtain ⟨a, msgs, ha, hheard, hmsgs⟩ := h.heard j a' ha'
    refine ⟨msgs, ?_, fun path => ?_, hmsgs⟩
    · simp [mailbox, ha, ha', hheard.mailbox]
    · simp [handle, ha, ha', hheard.handles]

omit [DecidableEq β] in
/-- What is not a report may come from anybody. -/
theorem sound_of_reportedName {h : DirHandlePath → Option ActorId} {msg : ActorMessage}
    {sender : Option ActorId} (hm : ∀ path k, msg ≠ .updateDirRefHash path k) : Sound h msg sender := by
  cases msg with
  | updateDirRefHash path k => exact absurd rfl (hm path k)
  | _ => trivial

variable {env}

/-- Something is said that is no report, and nobody takes a turn. -/
theorem Inv.say {t : Traced β} (h : t.Inv) {e : Event} {os : List Output}
    (hmail : Mailed t.system (t.system.step env e) os)
    (hleft : ∀ j, t.system.left env e j = (t.system.mailbox j).length)
    (hos : ∀ o ∈ os, reportOf o = none) : (t.step env e).Inv where
  mail j := by
    obtain ⟨msgs, hm, hh, hmsgs⟩ := mailed_at hmail j
    refine mail_step env (n := 0) (h.mail j) (Nat.zero_le _) hm (hleft j) ?_ fun msg hmsg => ?_
    · intro path k _ c hc
      rw [hh]
      exact hc
    · refine sound_of_reportedName fun path k he => ?_
      subst he
      rcases hmsgs _ hmsg with ho | ho
      · cases hos _ ho
      · cases hos _ ho
  asked j a' replies' responder ha' hp path hpath := by
    obtain ⟨a, msgs, ha, hheard, -⟩ := hmail.heard j a' ha'
    obtain ⟨replies, hp0, hsame⟩ := hheard.saving replies' responder hp
    rw [hheard.handles]
    exact h.asked j a replies responder ha hp0 path (hsame ▸ hpath)
  empty j a' d ha' hp := by
    obtain ⟨a, msgs, ha, hheard, -⟩ := hmail.heard j a' ha'
    rw [hheard.state]
    exact h.empty j a d ha ((hheard.starting d).1 hp)

section
variable {t : Traced β} {e : Event} {i : ActorId} {a : DirActor} {t' : Turn β}

omit [DecidableEq β] in
/-- Before its outputs go out, a turn leaves all other mailboxes and handles. -/
theorem settle_at {s : System β} (hm : Turn.Moves (s.turn i a) t') {j : ActorId} (hj : j ≠ i) :
    (s.settle t').mailbox j = s.mailbox j ∧
      ∀ path c, s.handle j path = some c → (s.settle t').handle j path = some c := by
  have hi : t'.self = i := hm.self
  cases hb : s.actors[j]? with
  | some b =>
    have hb' : (s.settle t').actors[j]? = some b := settle_other hb (hi.symm ▸ hj)
    refine ⟨by simp [mailbox, hb, hb'], fun path c hc => ?_⟩
    simpa [handle, hb, hb'] using hc
  | none =>
    refine ⟨?_, fun path c hc => ?_⟩
    · cases hb' : (s.settle t').actors[j]? with
      | none => simp [mailbox, hb, hb']
      | some b' =>
        rcases getElem?_moved hm hb' with ⟨he, -⟩ | ⟨-, hb''⟩ | ⟨ctx, initial, rfl⟩
        · exact absurd he hj
        · rw [hb] at hb''
          cases hb''
        · simp [mailbox, hb, hb', DirActor.new]
    · simp [handle, hb] at hc

/-- An actor takes a turn, or ends. -/
theorem Inv.commit (h : t.Inv) (he : e.actor = some i)
    (hstep : t.system.step env e = t.system.commit t') (ha : t.system.actors[i]? = some a)
    (hmoves : Turn.Moves (t.system.turn i a) t') {n : Nat} (hn : n ≤ a.mailbox.length)
    (hmail : t'.actor.mailbox = a.mailbox.drop n)
    (hleft : t.system.left env e i = a.mailbox.length - n)
    (hothers : ∀ j, j ≠ i → t.system.left env e j = (t.system.mailbox j).length)
    (hkeep : ∀ path k c, .updateDirRefHash path k ∈ t'.actor.mailbox → a.handleAt path = some c →
      t'.actor.handleAt path = some c)
    (hreport : ∀ o ∈ t'.out, ∀ j path, reportOf o = some (j, path) →
      t.system.handle j path = some i ∧ (j = i → t'.actor.handleAt path = some i))
    (hasked : ∀ replies responder, t'.actor.phase = .saving replies responder →
      ∀ path ∈ replies.map (·.1), t'.actor.handleAt path ≠ none)
    (hempty : ∀ d, t'.actor.phase = .starting d → t'.actor.state.dirs = ∅) :
    (t.step env e).Inv := by
  have hi : t'.self = i := hmoves.self
  have hself : (t.system.settle t').actors[i]? = some t'.actor := settle_self ha hi
  have hmailed : Mailed (t.system.settle t') (t.system.step env e) t'.out := by
    rw [hstep]
    exact mailed_emits t'.out _
  have hfrom : ∀ {j : ActorId} {msgs : List ActorMessage},
      (∀ msg ∈ msgs, .send j msg ∈ t'.out ∨ .notifyParent j msg ∈ t'.out) →
      ∀ path k, .updateDirRefHash path k ∈ msgs → ∃ o ∈ t'.out, reportOf o = some (j, path) := by
    intro j msgs hmsgs path k hmem
    rcases hmsgs _ hmem with ho | ho
    · exact ⟨_, ho, rfl⟩
    · exact ⟨_, ho, rfl⟩
  refine ⟨fun j => ?_, ?_, ?_⟩
  · obtain ⟨msgs, hm, hh, hmsgs⟩ := mailed_at hmailed j
    by_cases hj : j = i
    · subst hj
      have hbefore : t.system.mailbox j = a.mailbox := by simp [mailbox, ha]
      have hbox : (t.system.settle t').mailbox j = a.mailbox.drop n := by
        simp [mailbox, hself, hmail]
      have hhandle : ∀ path, (t.system.step env e).handle j path = t'.actor.handleAt path := by
        intro path
        rw [hh]
        simp [handle, hself]
      refine mail_step env (n := n) (h.mail j) (by rw [hbefore]; exact hn)
        (by rw [hm, hbox, hbefore])
        (by rw [hbefore]; exact hleft) ?_ fun msg hmsg => ?_
      · intro path k hwait c hc
        rw [hhandle]
        refine hkeep path k c ?_ (by simpa [handle, ha] using hc)
        rw [hmail, ← hbefore]
        exact hwait
      · cases msg with
        | updateDirRefHash path k =>
          obtain ⟨o, ho, hr⟩ := hfrom hmsgs path k hmsg
          rw [he]
          exact ⟨Option.some_ne_none _, (hhandle path).trans ((hreport o ho j path hr).2 rfl)⟩
        | _ => trivial
    · obtain ⟨hbox, hhandles⟩ := settle_at hmoves hj
      refine mail_step env (n := 0) (h.mail j) (Nat.zero_le _) (by rw [hm, hbox]; rfl) (hothers j hj)
        ?_ fun msg hmsg => ?_
      · intro path k _ c hc
        rw [hh]
        exact hhandles path c hc
      · cases msg with
        | updateDirRefHash path k =>
          obtain ⟨o, ho, hr⟩ := hfrom hmsgs path k hmsg
          rw [he]
          refine ⟨Option.some_ne_none _, ?_⟩
          rw [hh]
          exact hhandles path i (hreport o ho j path hr).1
        | _ => trivial
  · intro j b' replies' responder hb' hp path hpath
    obtain ⟨b, msgs, hb, hheard, -⟩ := hmailed.heard j b' hb'
    obtain ⟨replies, hp0, hsame⟩ := hheard.saving replies' responder hp
    rw [hheard.handles]
    rw [hsame] at hpath
    rcases getElem?_moved hmoves hb with ⟨-, rfl⟩ | ⟨-, hb⟩ | ⟨ctx, initial, rfl⟩
    · exact hasked replies responder hp0 path hpath
    · exact h.asked j b replies responder hb hp0 path hpath
    · cases hp0
  · intro j b' d hb' hp
    obtain ⟨b, msgs, hb, hheard, -⟩ := hmailed.heard j b' hb'
    rw [hheard.state]
    have hp0 := (hheard.starting d).1 hp
    rcases getElem?_moved hmoves hb with ⟨-, rfl⟩ | ⟨-, hb⟩ | ⟨ctx, initial, rfl⟩
    · exact hempty d hp0
    · exact h.empty j b d hb hp0
    · rfl

end

omit [DecidableEq β] in
theorem mailed_refl {s s' : System β} (h : s'.actors = s.actors) : Mailed s s' [] := by
  refine ⟨by rw [h], fun j a ha => ⟨a, [], ?_, .refl a, fun _ hm => absurd hm List.not_mem_nil⟩⟩
  rw [← h]
  exact ha

omit [DecidableEq β] in
theorem mailed_submit (s : System β) (handle : List String × ActorId) (request : Request) :
    ∃ o, Mailed s (s.submit handle request) [o] ∧ reportOf o = none := by
  have hsay : ∀ o : Output, Mailed s (({ s with requests := s.requests + 1 } : System β).emit o) [o] := by
    intro o
    have h := mailed_emit ({ s with requests := s.requests + 1 } : System β) o
    exact ⟨h.length, h.heard⟩
  cases request with
  | subdir path =>
    simp only [submit]
    split
    · exact ⟨_, hsay _, rfl⟩
    · exact ⟨_, hsay _, rfl⟩
  | _ =>
    simp only [submit]
    exact ⟨_, hsay _, rfl⟩

/-- Nobody takes a turn, and nothing is said. -/
theorem Inv.same {t : Traced β} (h : t.Inv) {e : Event}
    (hstep : (t.system.step env e).actors = t.system.actors)
    (hleft : ∀ j, t.system.left env e j = (t.system.mailbox j).length) : (t.step env e).Inv :=
  h.say (mailed_refl hstep) hleft fun _ hm => absurd hm List.not_mem_nil

omit [DecidableEq β] in
theorem actors_opened {ctx : DirContext ActorId} {s : System β} (hs : s.actors = [.new ctx none])
    {j : ActorId} {b : DirActor} (hb : s.actors[j]? = some b) : b = .new ctx none := by
  rw [hs] at hb
  exact List.mem_singleton.1 (List.mem_of_getElem? hb)

omit [DecidableEq β] in
/-- A file system that has just been opened. -/
theorem inv_opened {ctx : DirContext ActorId} {t : Traced β}
    (hs : t.system.actors = [.new ctx none])
    (hsenders : ∀ j, (t.system.mailbox j).length = 0 → t.senders j = []) : t.Inv := by
  refine ⟨fun j => ?_, ?_, ?_⟩
  · have hbox : t.system.mailbox j = [] := by
      cases hb : t.system.actors[j]? with
      | none => simp [mailbox, hb]
      | some b =>
        rw [actors_opened hs hb] at hb
        simp [mailbox, hb, DirActor.new]
    rw [hsenders j (by rw [hbox]; rfl), hbox]
    exact .nil
  · intro j b replies responder hb hp
    rw [actors_opened hs hb] at hp
    cases hp
  · intro j b d hb _
    rw [actors_opened hs hb]
    rfl

/-- **Every step keeps reports in place** that meets the condition. -/
theorem inv_step (t : Traced β) (e : Event) (h : t.Inv) (hc : t.system.ReportsInPlace e) :
    (t.step env e).Inv := by
  cases e with
  | request handle request =>
    by_cases hmem : handle ∈ t.system.clientHandles
    · have hstep : t.system.step env (.request handle request) = t.system.submit handle request := by
        simp only [System.step, if_pos hmem]
      obtain ⟨o, hmailed, ho⟩ := mailed_submit t.system handle request
      refine h.say (hstep ▸ hmailed) (fun _ => rfl) fun o' ho' => ?_
      rw [List.mem_singleton.1 ho']
      exact ho
    · refine h.same ?_ fun _ => rfl
      simp only [System.step, if_neg hmem]
  | release handle => exact h.same rfl fun _ => rfl
  | autosave i =>
    have hmailed := mailed_emit t.system (.notifyParent i .autosaveTick)
    refine h.say (e := .autosave i) hmailed (fun _ => rfl) fun o ho => ?_
    rw [List.mem_singleton.1 ho]
    rfl
  | run i =>
    cases ha : t.system.actors[i]? with
    | none =>
      refine h.same ?_ fun j => ?_
      · simp only [System.step, ha]
      · simp only [left, ha]
    | some a =>
      obtain ⟨hreports, hmerges⟩ := hc i rfl a ha
      have hacts : Turn.Acts (t.system.turn i a) ((t.system.turn i a).run env) := Turn.acts_run _
      obtain ⟨n, hn, hmail⟩ := mailbox_acts hacts
      have hn' : n ≤ a.mailbox.length := hn
      have hmail' : ((t.system.turn i a).run env).actor.mailbox = a.mailbox.drop n := hmail
      refine h.commit (i := i) rfl (by simp only [System.step, ha]) ha hacts.moves hn' hmail'
        ?_ ?_ ?_ ?_ ?_ ?_
      · simp only [left, ha, if_pos, hmail', List.length_drop]
      · intro j hj
        simp only [left, ha, if_neg (Ne.symm hj)]
      · intro path k c hwait hcc
        exact handle_kept env hmerges hcc (.inr ⟨k, hwait⟩)
      · intro o ho j path hr
        obtain ⟨hnext, hpar⟩ := reportOf_acts hacts rfl ho hr
        have hnext' : reportsNext a = true := hnext
        have hpar' : a.context.parent = some (path, j) := hpar
        have hin : t.system.handle j path = some i := by
          rw [hnext', Bool.true_and] at hreports
          simpa [replaced, hpar'] using hreports
        refine ⟨hin, fun hj => ?_⟩
        subst hj
        exact handle_kept env hmerges (by simpa [handle, ha] using hin) (.inl hnext')
      · intro replies responder hp path hpath
        rcases asked_acts hacts hp with hwait | hopen
        · rw [hwait] at hp ⊢
          exact h.asked i a replies responder ha hp path hpath
        · exact hopen path hpath
      · intro d hp
        have hwait := started_acts hacts hp
        rw [hwait] at hp ⊢
        exact h.empty i a d ha hp
  | halt i =>
    cases ha : t.system.actors[i]? with
    | none =>
      refine h.same ?_ fun _ => rfl
      simp only [System.step, ha]
    | some a =>
      by_cases hend : a.phase = .idle ∧ a.mailbox = [] ∧ t.system.held i = false
      · obtain ⟨hp, hm, hheld⟩ := hend
        obtain ⟨t1, hstirs, hclose⟩ : ∃ t1, Turn.Stirs (t.system.turn i a) t1 ∧
            (t.system.turn i a).close env = t1.enter .stopped := Turn.stirs_close _
        have hstep : t.system.step env (.halt i) = t.system.commit (t1.enter .stopped) := by
          simp only [System.step, ha, hp, hm, hheld, hclose]
        have hmoves : Turn.Moves (t.system.turn i a) (t1.enter .stopped) :=
          hstirs.moves.trans (Turn.moves_actor t1 rfl rfl rfl)
        have hmail : (t1.enter .stopped).actor.mailbox = a.mailbox.drop 0 := hstirs.mailbox
        have hbox : t.system.mailbox i = a.mailbox := by simp [mailbox, ha]
        refine h.commit (i := i) rfl hstep ha hmoves (Nat.zero_le _) hmail (congrArg _ hbox)
          (fun _ _ => rfl) ?_ ?_ (fun _ _ hp => ?_) fun _ hp => ?_
        · intro path k c hwait
          rw [hmail, hm] at hwait
          cases hwait
        · intro o ho j path hr
          obtain ⟨new, hnew, hplain⟩ := hstirs.out
          have ho' : o ∈ t1.out := ho
          rw [hnew] at ho'
          rw [reportOf_plain (hplain o ho')] at hr
          cases hr
        · cases hp
        · cases hp
      · refine h.same ?_ fun _ => rfl
        simp only [System.step, ha]
        split
        · rename_i hp hm hheld
          exact absurd ⟨hp, hm, hheld⟩ hend
        · rfl
  | reopen =>
    cases ha : t.system.actors[rootId]? with
    | none =>
      refine h.same ?_ fun j => ?_
      · simp only [System.step, ha]
      · have hlen : t.system.actors.length = 0 := Nat.le_zero.1 (List.getElem?_eq_none_iff.1 ha)
        simp [left, mailbox, List.eq_nil_of_length_eq_zero hlen]
    | some a =>
      have hactors : (t.system.step env .reopen).actors = [.new a.context none] := by
        simp only [System.step, ha, System.opened]
      refine inv_opened hactors fun j hj => ?_
      have hj' : ((t.system.step env .reopen).mailbox j).length = 0 := hj
      simp [step, left, hj']

omit [DecidableEq β] in
/-- A turn that keeps its references does not change a hash. -/
theorem hash_of_thins {t t' : Turn β} (h : Turn.Thins False t t') {name : String} {r r' : DirRef}
    (hr : t.actor.state.dirs[name]? = some r) (hr' : t'.actor.state.dirs[name]? = some r') :
    r' = r := by
  obtain ⟨t1, h1, hdirs, -⟩ := h
  have hmid := h1.dirs name r hr
  rcases hdirs with hdirs | hdirs
  · rw [hdirs, hmid] at hr'
    exact (Option.some.inj hr').symm
  · rw [hdirs] at hr'
    simp at hr'

/-- **The hash of a subdirectory is kept** in a step from a state in which reports are in place. -/
theorem Inv.hashKept {t : Traced β} (h : t.Inv) (e : Event) : t.HashKept env e := by
  intro p a a' name r r' ha ha' hr hr' hne
  have hsame : ∀ {s' : System β} {os : List Output}, Mailed t.system s' os →
      s'.actors[p]? = some a' → False := by
    intro s' os hmailed ha'
    obtain ⟨b, msgs, hb, hheard, -⟩ := hmailed.heard p a' ha'
    obtain rfl := Option.some.inj (ha.symm.trans hb)
    rw [hheard.state, hr] at hr'
    exact hne (by rw [Option.some.inj hr'])
  -- the actor's own turn
  have hturn : ∀ {i : ActorId} {b : DirActor} {t' : Turn β}, t.system.actors[i]? = some b →
      Turn.Moves (t.system.turn i b) t' → (t.system.commit t').actors[p]? = some a' →
      p = i ∧ t'.actor.state.dirs[name]? = some r' := by
    intro i b t' hb hmoves hcommit
    obtain ⟨a1, msgs, ha1, hheard, -⟩ := (mailed_emits t'.out _).heard p a' hcommit
    rw [hheard.state] at hr'
    rcases getElem?_moved hmoves ha1 with ⟨hp, rfl⟩ | ⟨-, ha1⟩ | ⟨ctx, initial, rfl⟩
    · exact ⟨hp, hr'⟩
    · obtain rfl := Option.some.inj (ha.symm.trans ha1)
      rw [hr] at hr'
      exact absurd (congrArg DirRef.hash (Option.some.inj hr').symm) hne
    · simp [DirActor.new, DirV1.new] at hr'
  cases e with
  | request handle request =>
    by_cases hmem : handle ∈ t.system.clientHandles
    · simp only [System.step, if_pos hmem] at ha'
      obtain ⟨o, hmailed, -⟩ := mailed_submit t.system handle request
      exact (hsame hmailed ha').elim
    · simp only [System.step, if_neg hmem] at ha'
      exact (hsame (mailed_refl rfl) ha').elim
  | release handle => exact (hsame (mailed_refl rfl) ha').elim
  | autosave i => exact (hsame (mailed_emit t.system _) ha').elim
  | run i =>
    cases hb : t.system.actors[i]? with
    | none =>
      simp only [System.step, hb] at ha'
      exact (hsame (mailed_refl rfl) ha').elim
    | some b =>
      have hacts : Turn.Acts (t.system.turn i b) ((t.system.turn i b).run env) := Turn.acts_run _
      simp only [System.step, hb] at ha'
      obtain ⟨rfl, hdir⟩ := hturn hb hacts.moves ha'
      obtain rfl := Option.some.inj (ha.symm.trans hb)
      refine ⟨rfl, ?_⟩
      have hedits : Turn.Edits False (t.system.turn p a) ((t.system.turn p a).run env) :=
        Turn.edits_run _ False.elim
      cases hedits with
      | thins hthins => exact absurd (congrArg DirRef.hash (hash_of_thins hthins hr hdir)) hne
      | reported path hash rest hp hm hholds hdirs =>
        obtain ⟨r0, hr0, he⟩ := hdirs name r' hdir
        obtain rfl := Option.some.inj (hr.symm.trans hr0)
        split at he
        · rename_i hpath
          subst hpath he
          have hm' : a.mailbox = .updateDirRefHash (.path name) hash :: rest := hm
          have hmail := h.mail p
          rw [show t.system.mailbox p = a.mailbox by simp [mailbox, ha], hm'] at hmail
          obtain ⟨sender, senders, hsound, -, hsenders⟩ := List.forall₂_cons_left_iff.1 hmail
          obtain ⟨hsome, hhandle⟩ := hsound
          obtain ⟨x, rfl⟩ := Option.ne_none_iff_exists'.1 hsome
          refine .inr ⟨x, by simpa [handle, ha] using hhandle, .inl ⟨rest, senders, hp, hm', hsenders⟩⟩
        · exact absurd (congrArg DirRef.hash he) hne
      | saved replies responder hp hholds hdirs =>
        obtain ⟨r0, hr0, he⟩ := hdirs name r' hdir
        obtain rfl := Option.some.inj (hr.symm.trans hr0)
        rcases he with he | ⟨hash, hmem, rfl⟩
        · exact absurd (congrArg DirRef.hash he) hne
        · have hopen := h.asked p a replies responder ha hp (.path name)
            (List.mem_map.2 ⟨_, hmem, rfl⟩)
          obtain ⟨x, hx⟩ := Option.ne_none_iff_exists'.1 hopen
          exact .inr ⟨x, hx, .inr ⟨replies, responder, hp, hmem⟩⟩
      | merged snapshot responder rest hp hm hl hh => exact .inl ⟨snapshot, responder, rest, hp, hm⟩
      | started initial hp hholds =>
        have hempty := h.empty p a initial ha hp
        rw [hempty] at hr
        simp at hr
  | halt i =>
    cases hb : t.system.actors[i]? with
    | none =>
      simp only [System.step, hb] at ha'
      exact (hsame (mailed_refl rfl) ha').elim
    | some b =>
      simp only [System.step, hb] at ha'
      split at ha'
      · obtain ⟨t1, hstirs, hclose⟩ : ∃ t1, Turn.Stirs (t.system.turn i b) t1 ∧
            (t.system.turn i b).close env = t1.enter .stopped := Turn.stirs_close _
        have hmoves : Turn.Moves (t.system.turn i b) ((t.system.turn i b).close env) := by
          rw [hclose]
          exact hstirs.moves.trans (Turn.moves_actor t1 rfl rfl rfl)
        obtain ⟨rfl, hdir⟩ := hturn hb hmoves ha'
        obtain rfl := Option.some.inj (ha.symm.trans hb)
        have hthins : Turn.Thins False (t.system.turn p a) ((t.system.turn p a).close env) :=
          Turn.thins_close _
        exact absurd (congrArg DirRef.hash (hash_of_thins hthins hr hdir)) hne
      · exact (hsame (mailed_refl rfl) ha').elim
  | reopen =>
    cases hb : t.system.actors[rootId]? with
    | none =>
      simp only [System.step, hb] at ha'
      exact (hsame (mailed_refl rfl) ha').elim
    | some b =>
      have hactors : (t.system.step env .reopen).actors = [.new b.context none] := by
        simp only [System.step, hb, System.opened]
      rw [actors_opened hactors ha'] at hr'
      simp [DirActor.new, DirV1.new] at hr'

/-- **A replaced child does not overwrite what a merge has installed**, in every run in which no actor
reports after it has been replaced and none is replaced while its report waits. -/
theorem hash_kept (env : Env β) (ctx : DirContext ActorId) (w : World β) (r : LocalRoot)
    (events : List Event)
    (hc : Run.Steps (step env) (fun t e => t.system.ReportsInPlace e) (opened ctx w r) events) :
    Run.Steps (step env) (HashKept env) (opened ctx w r) events := by
  have hinv : Run.Always (step env) Inv (opened ctx w r) events :=
    Run.always_of_steps (fun t e h hc => inv_step t e h hc) (inv_opened rfl fun _ _ => rfl) hc
  intro pre e hpre
  exact (hinv pre ((List.prefix_append _ _).trans hpre)).hashKept e

/-! ### A child that is replaced and saves itself later -/

/-- What another copy of the directory has under "d", at a time after any of the local ones. -/
def remoteDir (hash : Bytes32) : DirV1 :=
  { DirV1.new with
    dirs := (∅ : ExtTreeMap String DirRef).insert "d"
      { refType := none, hash, tsSeconds := some 1000, tsNanos := some 0, keys := none
        encryptionType := none, extra := none } }

def newTraced : Traced Sym := ⟨newLocal, fun _ => []⟩

def tracedAfter (events : List Event) : Traced Sym :=
  events.foldl (step (symbolic xxh3Short)) newTraced

/-- The hash that the root has under a name. -/
def hashAt (t : Traced Sym) (name : String) : Option Bytes32 :=
  t.system.actors[rootId]?.bind fun a => a.state.dirs[name]?.map (·.hash)

/-- The next turn of the root takes a report for a name under which it has nobody open, and changes the
hash. -/
def reportOverwrites (t : Traced Sym) (name : String) : Bool :=
  t.hashAt name != (t.step (symbolic xxh3Short) (.run rootId)).hashAt name &&
    (t.system.actors[rootId]?.any fun a => a.state.dirs.contains name &&
      (a.handleAt (.path name)).isNone && a.mailbox.head?.bind reportedName = some name) &&
    (t.step (symbolic xxh3Short) (.run rootId)).system.actors[rootId]?.any
      fun a => a.state.dirs.contains name

theorem not_hashKept_of_overwrites {t : Traced Sym} {name : String}
    (h : t.reportOverwrites name = true) : ¬ HashKept (symbolic xxh3Short) t (.run rootId) := by
  simp only [reportOverwrites, Bool.and_eq_true, Option.any_eq_true, decide_eq_true_eq, bne_iff_ne,
    Option.isNone_iff_eq_none] at h
  obtain ⟨⟨hne, a, ha, ⟨hdir, hnone⟩, hhead⟩, a', ha', hdir'⟩ := h
  obtain ⟨r, hr⟩ := Option.ne_none_iff_exists'.1 (by simpa using hdir : a.state.dirs[name]? ≠ none)
  obtain ⟨r', hr'⟩ :=
    Option.ne_none_iff_exists'.1 (by simpa using hdir' : a'.state.dirs[name]? ≠ none)
  have hchanged : r'.hash ≠ r.hash := by
    intro he
    refine hne ?_
    simp only [hashAt, ha, ha', hr, hr', Option.bind_some, Option.map_some, he]
  intro hkept
  obtain ⟨-, ⟨snapshot, responder, rest, -, hm⟩ | ⟨x, hx, -⟩⟩ :=
    hkept rootId a a' name r r' ha ha' hr hr' hchanged
  · rw [hm] at hhead
    simp [reportedName] at hhead
  · rw [hnone] at hx
    cases hx

/-- "d" with a file that it has saved is replaced, and a file is put into the directory that has
taken its place. -/
def replaceSaved : List Event :=
  [.run 0, .request rootHandle (.createDir "d" false), .run 0, .run 1, .run 0,
    .request rootHandle (.fileOp "d/x" (.put (.new 1 1))), .run 0, .run 1, .run 1, .run 0,
    .autosave 1, .run 1, .run 0,
    .request rootHandle (.mergeFromSnapshot (remoteDir 1000)), .run 0,
    .request rootHandle (.fileOp "d/y" (.put (.new 2 2))), .run 0, .run 2, .run 2, .run 2, .run 0,
    .autosave 2, .run 2, .run 0]

/-- A client holds "d" and has put a file into it when "d" is replaced, and then the timer of "d" goes
off. -/
def replaceDirty : List Event :=
  [.run 0, .request rootHandle (.createDir "d" false), .run 0, .run 1, .run 0,
    .request rootHandle (.subdir "d"), .run 0,
    .request (["d"], 1) (.fileOp "x" (.put (.new 1 1))), .run 1, .run 1, .run 0,
    .request rootHandle (.mergeFromSnapshot (remoteDir 7)), .run 0, .autosave 1, .run 1]

theorem hash_kept_replaceSaved :
    Run.Steps (step (symbolic xxh3Short)) (HashKept (symbolic xxh3Short)) newTraced replaceSaved ∧
    (tracedAfter replaceSaved).hashAt "d" ≠ some 1000 :=
  ⟨hash_kept (symbolic xxh3Short) .localRoot _ _ replaceSaved (by decide +kernel), by decide +kernel⟩

/-- The replaced "d" overwrites the hash that the merge has put into its place. -/
theorem replaced_child_overwrites :
    ¬ Run.Steps (step (symbolic xxh3Short)) (HashKept (symbolic xxh3Short)) newTraced
      (replaceDirty ++ [.run rootId]) ∧
    (tracedAfter replaceDirty).hashAt "d" = some 7 ∧
    (tracedAfter (replaceDirty ++ [.run rootId])).hashAt "d" ≠ some 7 := by
  refine ⟨fun h => ?_, by decide +kernel, by decide +kernel⟩
  have hover : (tracedAfter replaceDirty).reportOverwrites "d" = true := by decide +kernel
  exact not_hashKept_of_overwrites hover (h replaceDirty (.run rootId) List.prefix_rfl)

end Traced

end Fs
