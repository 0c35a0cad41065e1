import S5.Fs.Proof.Turn

/-!
# What an event does to the head of a local root

In a file system whose root is a local one (`System.Rooted`), events of all other actors, requests
and answers leave its head, and the root's own turns move it in the ways of `Turn.LocalStep`. That
is `System.step_head`.
-/

open Std

namespace Fs

namespace System

variable {β : Type}

/-! ## What answers and messages leave as it is -/

/-- The actor has got a message or an answer. -/
structure Hears (a a' : DirActor) : Prop where
  context : a'.context = a.context
  currentHash : a'.currentHash = a.currentHash
  running : a'.phase.isRunning = a.phase.isRunning
  starting : ∀ d, a'.phase = .starting d → a.phase = .starting d

theorem Hears.refl (a : DirActor) : Hears a a := ⟨rfl, rfl, rfl, fun _ => id⟩

theorem Hears.trans {a a' a'' : DirActor} (h : Hears a a') (h' : Hears a' a'') : Hears a a'' :=
  ⟨h'.context.trans h.context, h'.currentHash.trans h.currentHash, h'.running.trans h.running,
    fun d hd => h.starting d (h'.starting d hd)⟩

/-- Some actors have got messages or answers. -/
structure Delivers (s s' : System β) : Prop where
  world : s'.world = s.world
  localRoot : s'.localRoot = s.localRoot
  length : s'.actors.length = s.actors.length
  hears : ∀ (i : ActorId) (a' : DirActor), s'.actors[i]? = some a' →
    ∃ a, s.actors[i]? = some a ∧ Hears a a'

theorem Delivers.refl (s : System β) : Delivers s s :=
  ⟨rfl, rfl, rfl, fun _ a h => ⟨a, h, .refl a⟩⟩

theorem Delivers.trans {s s' s'' : System β} (h : Delivers s s') (h' : Delivers s' s'') :
    Delivers s s'' where
  world := h'.world.trans h.world
  localRoot := h'.localRoot.trans h.localRoot
  length := h'.length.trans h.length
  hears i a'' ha := by
    obtain ⟨a', ha', h1⟩ := h'.hears i a'' ha
    obtain ⟨a, ha, h2⟩ := h.hears i a' ha'
    exact ⟨a, ha, h2.trans h1⟩

theorem delivers_modify (s : System β) (i : ActorId) {f : DirActor → DirActor}
    (hf : ∀ a, Hears a (f a)) : Delivers s (s.modify i f) := by
  refine ⟨rfl, rfl, List.length_modify _ _ _, fun j a' ha => ?_⟩
  have hm : (s.actors.modify i f)[j]? = some a' := ha
  rw [List.getElem?_modify] at hm
  obtain ⟨a, hs, rfl⟩ := Option.map_eq_some_iff.1 hm
  refine ⟨a, hs, ?_⟩
  by_cases hij : i = j
  · simpa [hij] using hf a
  · simpa [hij] using Hears.refl a

theorem hears_storeReply (path : DirHandlePath) (result : Except String (Option Hash))
    (a : DirActor) : Hears a (storeReply path result a) := by
  unfold storeReply
  split
  · rename_i hp
    exact ⟨rfl, rfl, by rw [hp]; rfl, nofun⟩
  · exact .refl a

theorem hears_storeMerged (result : Except String Unit) (a : DirActor) :
    Hears a (storeMerged result a) := by
  unfold storeMerged
  split
  · rename_i hp
    exact ⟨rfl, rfl, by rw [hp]; rfl, nofun⟩
  · exact .refl a

theorem hears_resume (a : DirActor) : Hears a (resume a) := by
  unfold resume
  split
  · rename_i hp
    exact ⟨rfl, rfl, by rw [hp]; rfl, nofun⟩
  · exact .refl a

theorem delivers_resume : ∀ (waiting : List ActorId) (s : System β),
    Delivers s (waiting.foldl (fun s i => s.modify i resume) s)
  | [], s => .refl s
  | i :: waiting, s => (delivers_modify s i hears_resume).trans (delivers_resume waiting _)

theorem delivers_reply (s : System β) (o : Output) : Delivers s (s.reply o) := by
  unfold reply
  split
  · exact ⟨rfl, rfl, rfl, fun _ a h => ⟨a, h, .refl a⟩⟩
  · rename_i waiting request result
    have h := delivers_resume waiting s
    dsimp only
    split
    · exact ⟨h.world, h.localRoot, h.length, h.hears⟩
    · exact ⟨h.world, h.localRoot, h.length, h.hears⟩
  · exact ⟨rfl, rfl, rfl, fun _ a h => ⟨a, h, .refl a⟩⟩
  · exact delivers_modify s _ (hears_storeReply _ _)
  · exact ⟨rfl, rfl, rfl, fun _ a h => ⟨a, h, .refl a⟩⟩
  · exact delivers_modify s _ (hears_storeMerged _)
  · exact .refl s

theorem delivers_replies : ∀ (os : List Output) (s : System β), Delivers s (os.foldl reply s)
  | [], s => .refl s
  | o :: os, s => (delivers_reply s o).trans (delivers_replies os _)

theorem delivers_enqueue (s : System β) (i : ActorId) (msg : ActorMessage) :
    Delivers s (s.enqueue i msg) :=
  delivers_modify s i fun _ => ⟨rfl, rfl, rfl, fun _ => id⟩

theorem delivers_emit (s : System β) (o : Output) : Delivers s (s.emit o) := by
  unfold emit
  split
  · split
    · exact delivers_replies _ s
    · exact delivers_enqueue s _ _
  · split
    · exact delivers_enqueue s _ _
    · exact .refl s
  · exact delivers_reply s o

theorem delivers_emits : ∀ (os : List Output) (s : System β), Delivers s (os.foldl emit s)
  | [], s => .refl s
  | o :: os, s => (delivers_emit s o).trans (delivers_emits os _)

theorem delivers_submit (s : System β) (handle : List String × ActorId) (request : Request) :
    Delivers s (s.submit handle request) := by
  have h0 : Delivers s { s with requests := s.requests + 1 } :=
    ⟨rfl, rfl, rfl, fun _ a h => ⟨a, h, .refl a⟩⟩
  unfold submit
  dsimp only
  split
  case h_3 => split <;> exact h0.trans (delivers_emit _ _)
  all_goals exact h0.trans (delivers_emit _ _)

/-! ## Local roots -/

/-- The root is a local one, and nobody else is. -/
structure Rooted (s : System β) : Prop where
  root : ∃ a, s.actors[rootId]? = some a ∧ a.context = .localRoot ∧
    ∀ d, a.phase ≠ .starting (some d)
  others : ∀ (i : ActorId) (a : DirActor), s.actors[i]? = some a → i ≠ rootId →
    a.context.isLocal = false

def head (s : System β) : Head β :=
  ⟨s.localRoot, s.world.rootFile, s.actors[rootId]?.bind (·.currentHash)⟩

/-- The root has started and not stopped. -/
def rootRunning (s : System β) : Bool := s.actors[rootId]?.any (·.phase.isRunning)

theorem Delivers.root {s s' : System β} (h : Delivers s s') :
    (s.actors[rootId]? = none ∧ s'.actors[rootId]? = none) ∨
      ∃ a a', s.actors[rootId]? = some a ∧ s'.actors[rootId]? = some a' ∧ Hears a a' := by
  cases h' : s'.actors[rootId]? with
  | some a' =>
    obtain ⟨a, ha, hh⟩ := h.hears rootId a' h'
    exact .inr ⟨a, a', ha, rfl, hh⟩
  | none =>
    left
    rw [List.getElem?_eq_none_iff, h.length] at h'
    exact ⟨List.getElem?_eq_none_iff.2 h', rfl⟩

theorem Delivers.head {s s' : System β} (h : Delivers s s') : s'.head = s.head := by
  unfold System.head
  rw [h.localRoot, h.world]
  rcases h.root with ⟨hn, hn'⟩ | ⟨a, a', ha, ha', hh⟩
  · rw [hn, hn']
  · rw [ha, ha']
    simp [hh.currentHash]

theorem Delivers.rootRunning {s s' : System β} (h : Delivers s s') :
    s'.rootRunning = s.rootRunning := by
  unfold System.rootRunning
  rcases h.root with ⟨hn, hn'⟩ | ⟨a, a', ha, ha', hh⟩
  · rw [hn, hn']
  · rw [ha, ha']
    simp [hh.running]

theorem Delivers.rooted {s s' : System β} (h : Delivers s s') (hr : s.Rooted) : s'.Rooted := by
  refine ⟨?_, fun i a' ha' hi => ?_⟩
  · obtain ⟨a, ha, hc, hp⟩ := hr.root
    rcases h.root with ⟨hn, -⟩ | ⟨a1, a', ha1, ha', hh⟩
    · rw [hn] at ha
      exact nomatch ha
    · obtain rfl := Option.some.inj (ha.symm.trans ha1)
      exact ⟨a', ha', hh.context.trans hc, fun d hd => hp d (hh.starting _ hd)⟩
  · obtain ⟨a, ha, hh⟩ := h.hears i a' ha'
    rw [hh.context]
    exact hr.others i a ha hi

/-! ## Turns of the root and of the others -/

theorem commit_world (s : System β) (t : Turn β) : (s.commit t).world = t.world :=
  (delivers_emits t.out (s.settle t)).world

/-- A turn in which nothing happens. -/
theorem commit_turn {s : System β} {i : ActorId} {a : DirActor} (ha : s.actors[i]? = some a) :
    s.commit (s.turn i a) = s := by
  have hset : s.actors.set i a ++ [] = s.actors := by
    obtain ⟨hlt, rfl⟩ := List.getElem?_eq_some_iff.1 ha
    rw [List.append_nil, List.set_getElem_self]
  show s.settle (s.turn i a) = s
  simp only [System.settle, turn, hset]

theorem getElem?_settle {s : System β} {t : Turn β} {j : ActorId} {a : DirActor}
    (h : (s.settle t).actors[j]? = some a) :
    (j = t.self ∧ a = t.actor) ∨ (j ≠ t.self ∧ s.actors[j]? = some a) ∨ a ∈ t.spawned := by
  have hs : (s.actors.set t.self t.actor ++ t.spawned)[j]? = some a := h
  by_cases hlt : j < (s.actors.set t.self t.actor).length
  · rw [List.getElem?_append_left hlt, List.getElem?_set] at hs
    split at hs
    · rename_i hj
      split at hs
      · exact .inl ⟨hj.symm, (Option.some.inj hs).symm⟩
      · exact nomatch hs
    · rename_i hj
      exact .inr (.inl ⟨fun he => hj he.symm, hs⟩)
  · rw [List.getElem?_append_right (Nat.le_of_not_lt hlt)] at hs
    exact .inr (.inr (List.mem_of_getElem? hs))

theorem settle_root {s : System β} {t : Turn β} {a : DirActor}
    (hs : s.actors[rootId]? = some a) :
    (s.settle t).actors[rootId]? = some (if t.self = rootId then t.actor else a) := by
  show (s.actors.set t.self t.actor ++ t.spawned)[rootId]? = _
  have hlt : rootId < s.actors.length := (List.getElem?_eq_some_iff.1 hs).1
  rw [List.getElem?_append_left (by rwa [List.length_set]), List.getElem?_set]
  split
  · rename_i h
    rw [if_pos (h ▸ hlt)]
  · exact hs

/-- A turn of another actor. -/
theorem settle_child {s : System β} {i : ActorId} {a : DirActor} {t' : Turn β} (hr : s.Rooted)
    (ha : s.actors[i]? = some a) (hi : i ≠ rootId) (hk : Turn.Keeps (s.turn i a) t') :
    (s.settle t').Rooted ∧ (s.settle t').head = s.head ∧
      (s.settle t').rootRunning = s.rootRunning := by
  have hself : t'.self = i := hk.self
  obtain ⟨r, hroot, hc, hp⟩ := hr.root
  have hroot' : (s.settle t').actors[rootId]? = some r := by
    rw [settle_root hroot, if_neg (hself ▸ hi)]
  refine ⟨⟨⟨r, hroot', hc, hp⟩, fun j b hb hj => ?_⟩, ?_, ?_⟩
  · rcases getElem?_settle hb with ⟨-, rfl⟩ | ⟨-, hb⟩ | hb
    · exact hk.child (hr.others i a ha hi)
    · exact hr.others j b hb hj
    · rcases hk.spawned b hb with hn | hn
      · exact nomatch hn
      · exact hn
  · have hlr : t'.localRoot = s.localRoot := congrArg Head.localRoot hk.head
    have hrf : t'.world.rootFile = s.world.rootFile := congrArg Head.rootFile hk.head
    unfold System.head
    rw [hroot', hroot]
    simp [settle, hlr, hrf]
  · unfold System.rootRunning
    rw [hroot', hroot]

/-- A turn of the root. -/
theorem settle_local {s : System β} {a : DirActor} {t' : Turn β} (hr : s.Rooted)
    (ha : s.actors[rootId]? = some a) (hf : Turn.Frame (s.turn rootId a) t') :
    (s.settle t').Rooted ∧ (s.settle t').head = t'.head ∧
      (s.settle t').rootRunning = t'.actor.phase.isRunning := by
  have hself : t'.self = rootId := hf.self
  obtain ⟨r, hroot, hc, hp⟩ := hr.root
  obtain rfl := Option.some.inj (ha.symm.trans hroot)
  have hroot' : (s.settle t').actors[rootId]? = some t'.actor := by
    rw [settle_root hroot, if_pos hself]
  refine ⟨⟨⟨t'.actor, hroot', hf.context.trans hc, fun d hd => ?_⟩, fun j b hb hj => ?_⟩, ?_, ?_⟩
  · have hsame := hf.started (by rw [hd]; rfl)
    exact hp d (hsame.symm.trans hd)
  · rcases getElem?_settle hb with ⟨hj', -⟩ | ⟨-, hb⟩ | hb
    · exact absurd (hj'.trans hself) hj
    · exact hr.others j b hb hj
    · rcases hf.spawned b hb with hn | hn
      · exact nomatch hn
      · exact hn
  · unfold System.head Turn.head
    rw [hroot']
    rfl
  · unfold System.rootRunning
    rw [hroot']
    rfl

/-! ## Events -/

variable (env : Env β)

/-- What an event does to the head of a local root. -/
inductive HeadStep (s s' : System β) (e : Event) : Prop where
  | keep (hr : s'.rootRunning = true → s.rootRunning = true) (h : s'.head = s.head)
  | load (h : s'.head = s.head.load env)
  | save (hr : s.rootRunning = true) (bytes : β) (h : s'.head = s.head.save env bytes)
  | createSnapshot (a : DirActor) (request : Nat) (rest : List ActorMessage) (now : UInt32 × UInt32)
      (he : e = .run rootId) (ha : s.actors[rootId]? = some a) (hp : a.phase = .idle)
      (hm : a.mailbox = .createSnapshot request :: rest)
      (h : s'.head = s.head.createSnapshot env now (env.toBytes a.state))
  | deleteSnapshot (a : DirActor) (name : String) (request : Nat) (rest : List ActorMessage)
      (he : e = .run rootId) (ha : s.actors[rootId]? = some a) (hp : a.phase = .idle)
      (hm : a.mailbox = .deleteSnapshot name request :: rest)
      (h : s'.head = s.head.deleteSnapshot name)
  | reopen (hr : s'.rootRunning = false) (h : s'.head = { s.head with currentHash := none })

variable {env}

theorem head_turn {s : System β} {a : DirActor} (ha : s.actors[rootId]? = some a) :
    (s.turn rootId a).head = s.head := by
  unfold Turn.head System.head
  rw [ha]
  rfl

theorem rootRunning_eq {s : System β} {a : DirActor} (ha : s.actors[rootId]? = some a) :
    s.rootRunning = a.phase.isRunning := by
  unfold rootRunning
  rw [ha]
  rfl

theorem Delivers.headStep {s s' : System β} {e : Event} (h : Delivers s s') (hr : s.Rooted) :
    s'.Rooted ∧ HeadStep env s s' e :=
  ⟨h.rooted hr, .keep (fun hrun => h.rootRunning ▸ hrun) h.head⟩

/-- A turn of another actor with everything it sends. -/
theorem commit_child {s : System β} {i : ActorId} {a : DirActor} {t' : Turn β} {e : Event}
    (hr : s.Rooted) (ha : s.actors[i]? = some a) (hi : i ≠ rootId)
    (hk : Turn.Keeps (s.turn i a) t') : (s.commit t').Rooted ∧ HeadStep env s (s.commit t') e := by
  obtain ⟨hr1, hh1, hrun1⟩ := settle_child hr ha hi hk
  have hd := delivers_emits t'.out (s.settle t')
  refine ⟨hd.rooted hr1, .keep (fun hrun => ?_) (hd.head.trans hh1)⟩
  rw [← hrun1, ← hd.rootRunning]
  exact hrun

/-- A turn of the root with everything it sends. -/
theorem commit_local {s : System β} {a : DirActor} {t' : Turn β} {e : Event}
    (hr : s.Rooted) (ha : s.actors[rootId]? = some a) (hf : Turn.Frame (s.turn rootId a) t')
    (hs : Turn.LocalStep env (s.turn rootId a) t')
    (he : e = .run rootId ∨ a.mailbox = []) :
    (s.commit t').Rooted ∧ HeadStep env s (s.commit t') e := by
  obtain ⟨hr1, hh1, hrun1⟩ := settle_local hr ha hf
  have hd := delivers_emits t'.out (s.settle t')
  have hh : (s.commit t').head = t'.head := hd.head.trans hh1
  have hrun : (s.commit t').rootRunning = t'.actor.phase.isRunning := hd.rootRunning.trans hrun1
  refine ⟨hd.rooted hr1, ?_⟩
  -- the guards of the turn are guards on the actor it is a turn of
  cases hs with
  | keep hp h =>
    refine .keep (fun _ => ?_) ?_
    · rw [rootRunning_eq ha]
      exact hp
    · rw [hh, h, head_turn ha]
  | stop hp h =>
    refine .keep (fun hn => ?_) ?_
    · rw [hrun, hp] at hn
      exact nomatch hn
    · rw [hh, h, head_turn ha]
  | load h =>
    refine .load ?_
    rw [hh, h, head_turn ha]
  | save hp bytes h =>
    refine .save ?_ bytes ?_
    · rw [rootRunning_eq ha]
      exact hp
    · rw [hh, h, head_turn ha]
  | createSnapshot request rest now hp hm h =>
    rcases he with rfl | hn
    · refine .createSnapshot a request rest now rfl ha hp hm ?_
      rw [hh, h, head_turn ha]
      rfl
    · exact absurd (hn.symm.trans hm) (by simp)
  | deleteSnapshot name request rest hp hm h =>
    rcases he with rfl | hn
    · refine .deleteSnapshot a name request rest rfl ha hp hm ?_
      rw [hh, h, head_turn ha]
    · exact absurd (hn.symm.trans hm) (by simp)

variable [DecidableEq β]

variable (env) in
/-- **What an event does to a local root**: the root stays a local one, and its head moves in one of
the ways of `HeadStep`. -/
theorem step_head {s : System β} (hr : s.Rooted) (e : Event) :
    (s.step env e).Rooted ∧ HeadStep env s (s.step env e) e := by
  obtain ⟨r, hroot, hc, hp⟩ := hr.root
  cases e with
  | request handle request =>
    simp only [step]
    split
    · exact (delivers_submit s handle request).headStep hr
    · exact (Delivers.refl s).headStep hr
  | release handle =>
    exact Delivers.headStep ⟨rfl, rfl, rfl, fun _ a h => ⟨a, h, .refl a⟩⟩ hr
  | autosave i => exact (delivers_emit s (.notifyParent i .autosaveTick)).headStep hr
  | run i =>
    simp only [step]
    split
    · rename_i a ha
      by_cases hi : i = rootId
      · subst hi
        obtain rfl := Option.some.inj (ha.symm.trans hroot)
        obtain ⟨hf, hs⟩ := Turn.run_local env (s.turn rootId a) hc hp
        exact commit_local hr ha hf hs (.inl rfl)
      · exact commit_child hr ha hi (Turn.run_child _ (hr.others i a ha hi))
    · exact (Delivers.refl s).headStep hr
  | halt i =>
    simp only [step]
    split
    · rename_i a ha
      split
      · rename_i hph hm _
        by_cases hi : i = rootId
        · subst hi
          obtain rfl := Option.some.inj (ha.symm.trans hroot)
          have hrun : a.phase.isRunning = true := by rw [hph]; rfl
          obtain ⟨hf, hs⟩ := Turn.close_local env (s.turn rootId a) hc hrun
          exact commit_local hr ha hf hs (.inr hm)
        · exact commit_child hr ha hi (Turn.close_child _ (hr.others i a ha hi))
      · exact (Delivers.refl s).headStep hr
    · exact (Delivers.refl s).headStep hr
  | reopen =>
    simp only [step]
    rw [hroot]
    dsimp only
    refine ⟨⟨⟨.new r.context none, rfl, hc, nofun⟩, fun i a ha hi => ?_⟩, .reopen rfl rfl⟩
    cases i with
    | zero => exact absurd rfl hi
    | succ n => exact nomatch ha

end System

end Fs
