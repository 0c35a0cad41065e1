import S5.Fs.Proof.ForestTurn

/-!
# Requests of a client that waits

A request is handed on from directory to directory until one executes it (`asked_step`). Then the actors
have only their own work and the reports of their children left, in whatever order they take their turns,
and this changes no file (`settling_step`).
-/

open Std

namespace Fs

open Actor (Encodable childContext Kept spawn Tree Node)

namespace System

variable {β : Type} {env : Env β} {s s' : System β} {t : Turn β} {place : ActorId → List String}
  {m m' : FileMap} {i j k : ActorId} {a b c : DirActor}

theorem isWaiting_iff {p : Phase} : p.isWaiting = true ↔ p = .starting none ∨ p = .idle := by
  unfold Phase.isWaiting
  split <;> simp_all

theorem atRest_iff : a.atRest = true ↔ a.phase.isWaiting = true ∧ a.mailbox = [] := by
  unfold DirActor.atRest
  rw [Bool.and_eq_true, List.isEmpty_iff]

/-! ## Settling -/

/-- Whether an actor has only reports of its children to handle, and its own work to finish. -/
def isSettling (a : DirActor) : Bool :=
  a.mailbox.all isNews && match a.phase with
    | .starting _ => true
    | .idle => true
    | .executed _ _ => true
    | _ => false

/-- The request has been executed: what the actors still do changes no file. -/
structure Settling (env : Env β) (s : System β) (m : FileMap) : Prop where
  stands : ∃ place, Stands env s.world s.forest place m
  client : ([], rootId) ∈ s.clientHandles
  quiet : ∀ (j : ActorId) c, s.forest j = some c → isSettling c = true

theorem isSettling_iff : isSettling a = true ↔ (∀ msg ∈ a.mailbox, isNews msg = true) ∧
    ((∃ d, a.phase = .starting d) ∨ a.phase = .idle ∨
      ∃ path stored, a.phase = .executed path stored) := by
  unfold isSettling
  rw [Bool.and_eq_true, List.all_eq_true]
  refine and_congr Iff.rfl ?_
  cases hp : a.phase <;> simp

theorem isSettling_of_atRest (h : a.atRest = true) : isSettling a = true := by
  obtain ⟨hwait, hmail⟩ := atRest_iff.1 h
  refine isSettling_iff.2 ⟨by rw [hmail]; exact List.forall_mem_nil _, ?_⟩
  exact (isWaiting_iff.1 hwait).imp (fun hp => ⟨none, hp⟩) .inl

theorem Commits.settling (h : Commits env s t place m i)
    (hold : ∀ (j : ActorId) c, s.forest j = some c → j ≠ i → isSettling c = true)
    (hactor : isSettling t.actor = true) (hspawned : ∀ c ∈ t.spawned, isSettling c = true) :
    Settling env (s.commit t) m := by
  refine ⟨⟨place, h.holds⟩, h.client, fun j c' hc' => ?_⟩
  rcases h.each j c' hc' with rfl | hc' | ⟨c, hc, hj, rfl | ⟨msg, hmsg, rfl⟩⟩
  · exact hactor
  · exact hspawned c' hc'
  · exact hold j c' hc hj
  · obtain ⟨hnews, hphase⟩ := isSettling_iff.1 (hold j c hc hj)
    refine isSettling_iff.2 ⟨fun x hx => ?_, hphase⟩
    rcases List.mem_append.1 hx with hx | hx
    · exact hnews x hx
    · rw [List.mem_singleton.1 hx]
      exact hmsg

variable [DecidableEq β]

theorem step_run_none (h : s.forest i = none) : s.step env (.run i) = s := by
  have h' : s.actors[i]? = none := h
  simp only [step, h']

theorem step_run (h : s.forest i = some a) : s.step env (.run i) = s.commit ((s.turn i a).run env) := by
  have h' : s.actors[i]? = some a := h
  simp only [step, h']

/-- An idle actor without messages has nothing to do. -/
theorem run_idle (hp : a.phase = .idle) (hm : a.mailbox = []) : (s.turn i a).run env = s.turn i a := by
  have hp' : (s.turn i a).actor.phase = .idle := hp
  have hm' : (s.turn i a).actor.mailbox = [] := hm
  unfold Turn.run
  rw [hp']
  simp only [hm']

theorem step_idle (ha : s.forest i = some a) (hp : a.phase = .idle) (hm : a.mailbox = []) :
    s.step env (.run i) = s := by
  rw [step_run ha, run_idle hp hm, commit_turn ha]

/-- The turn in which an actor reads its directory. -/
theorem step_wake (h : Stands env s.world s.forest place m) (ha : s.forest i = some a)
    (hp : a.phase = .starting none) : ∃ a', Wakes a a' ∧
      (s.step env (.run i)).forest = Function.update s.forest i (some a') ∧
      (s.step env (.run i)).world = s.world ∧
      (s.step env (.run i)).clientHandles = s.clientHandles ∧
      Stands env (s.step env (.run i)).world (s.step env (.run i)).forest place m := by
  obtain ⟨a', hrun, hwakes, hset⟩ := run_starting_none h ha hp
  obtain ⟨hf, hw, hclients⟩ :=
    commit_silent (t := { s.turn i a with actor := a' }) ha rfl (.inl rfl) rfl
  rw [step_run ha, hrun]
  exact ⟨a', hwakes, hf, hw, hclients, by rw [hf, hw]; exact hset⟩

/-- **A turn while the actors settle** changes no file. -/
theorem settling_step (law : env.Lawful) (hstore : ∀ n, env.storeFails n = false)
    (h : Settling env s m) (hsep : Separate m) (i : ActorId)
    (hc : (s.step env (.run i)).world.collided = false) :
    Settling env (s.step env (.run i)) m ∧ Kept s.world (s.step env (.run i)).world := by
  have hnothing : s.step env (.run i) = s →
      Settling env (s.step env (.run i)) m ∧ Kept s.world (s.step env (.run i)).world := by
    intro he
    rw [he]
    exact ⟨h, .refl _⟩
  obtain ⟨⟨place, hstands⟩, hclient, hquiet⟩ := h
  cases ha : s.forest i with
  | none => exact hnothing (step_run_none ha)
  | some a =>
    obtain ⟨hnews, hphase⟩ := isSettling_iff.1 (hquiet i a ha)
    have hold : ∀ (j : ActorId) c, s.forest j = some c → j ≠ i → isSettling c = true :=
      fun j c hc _ => hquiet j c hc
    -- a message or the rest of a file operation
    have hdone : ∀ rest, (∀ msg ∈ rest, isNews msg = true) →
        Passes env s ((s.turn i a).run env) m i rest →
        Settling env (s.step env (.run i)) m ∧ Kept s.world (s.step env (.run i)).world := by
      intro rest hrest hpasses
      rw [step_run ha, commit_world] at hc
      rw [step_run ha, commit_world]
      obtain ⟨place', hcommits⟩ := hpasses.commits hc
      refine ⟨hcommits.settling hold (isSettling_iff.2 ⟨?_, .inr (.inl hpasses.idle)⟩) fun c hc => ?_,
        hpasses.kept⟩
      · rw [hpasses.mailbox]
        exact hrest
      · obtain ⟨ctx, d, rfl⟩ := hpasses.spawned c hc
        rfl
    rcases hphase with ⟨d, hp⟩ | hp | ⟨path, stored, hp⟩
    · cases d with
      | none =>
        obtain ⟨a', hwakes, hf, hw, hclients, hset⟩ := step_wake hstands ha hp
        refine ⟨⟨⟨place, hset⟩, by rw [hclients]; exact hclient, fun j c hc => ?_⟩,
          by rw [hw]; exact .refl _⟩
        rw [hf] at hc
        rcases Forest.update_cases hc with ⟨-, rfl⟩ | ⟨-, hc⟩
        · refine isSettling_iff.2 ⟨?_, .inr (.inl hwakes.phase)⟩
          rw [hwakes.mailbox]
          exact hnews
        · exact hquiet j c hc
      | some d => exact hdone _ hnews (passes_starting_some law hstore hstands hclient ha hp)
    · cases hm : a.mailbox with
      | nil => exact hnothing (step_idle ha hp hm)
      | cons msg rest =>
        rw [hm] at hnews
        have hrest : ∀ msg ∈ rest, isNews msg = true := fun x hx => hnews x (List.mem_cons_of_mem _ hx)
        cases hmsg : msg with
        | markAsDirty => exact hdone rest hrest (passes_markAsDirty hstands hclient ha hp (hmsg ▸ hm))
        | updateDirRefHash path k =>
          cases path with
          | path n =>
            exact hdone rest hrest (passes_updateDirRefHash hstands hclient ha hp (hmsg ▸ hm))
          | shard b =>
            have hbad := hnews msg List.mem_cons_self
            rw [hmsg] at hbad
            cases hbad
        | _ =>
          have hbad := hnews msg List.mem_cons_self
          rw [hmsg] at hbad
          cases hbad
    · exact hdone _ hnews (passes_executed law hstore hstands hclient hsep ha hp)

/-! ## A request on its way -/

/-- What a request for a path makes of the files; no directory is made over a file. -/
def Asks (now : UInt32 × UInt32) (m : FileMap) (segs : List String) : ActorMessageOp → FileMap → Prop
  | .fileOp task _, m' => m' = m.execute now (segs, task)
  | .createDir _ _, m' => m' = m ∧ m segs = none

/-- All that there is to do is that the actor `i` handles a request for a path below it. -/
structure Asked (env : Env β) (s : System β) (place : ActorId → List String) (m m' : FileMap)
    (i : ActorId) (a : DirActor) (segs : List String) (op : ActorMessageOp) : Prop where
  stands : Stands env s.world s.forest place m
  client : ([], rootId) ∈ s.clientHandles
  here : s.forest i = some a
  waiting : a.phase.isWaiting = true
  mailbox : a.mailbox = [.pathOp (joinPath segs) op]
  others : ∀ (j : ActorId) c, s.forest j = some c → j ≠ i → c.atRest = true
  proper : Proper segs
  asks : Asks (env.utcNow s.world.tick) m (place i ++ segs) op m'

variable {segs : List String} {op : ActorMessageOp}

/-- The others may read their directories. -/
theorem Asked.rest (h : Asked env s place m m' i a segs op) (hj : j ≠ i) :
    Asked env (s.step env (.run j)) place m m' i a segs op ∧
      (s.step env (.run j)).world = s.world := by
  cases hc : s.forest j with
  | none =>
    rw [step_run_none hc]
    exact ⟨h, rfl⟩
  | some c =>
    obtain ⟨hwait, hmail⟩ := atRest_iff.1 (h.others j c hc hj)
    rcases isWaiting_iff.1 hwait with hp | hp
    · obtain ⟨c', hwakes, hf, hw, hclients, hset⟩ := step_wake h.stands hc hp
      refine ⟨⟨hset, by rw [hclients]; exact h.client, ?_, h.waiting, h.mailbox, fun k d hd hk => ?_,
        h.proper, by rw [hw]; exact h.asks⟩, hw⟩
      · rw [hf, Function.update_of_ne hj.symm, h.here]
      · rw [hf] at hd
        rcases Forest.update_cases hd with ⟨-, rfl⟩ | ⟨-, hd⟩
        · exact atRest_iff.2 ⟨by rw [hwakes.phase]; rfl, hwakes.mailbox.trans hmail⟩
        · exact h.others k d hd hk
    · rw [step_idle hc hp hmail]
      exact ⟨h, rfl⟩

/-- An actor reads its directory before it handles the request. -/
theorem Asked.wake (h : Asked env s place m m' i a segs op) (hp : a.phase = .starting none) :
    (∃ a', Asked env (s.step env (.run i)) place m m' i a' segs op) ∧
      (s.step env (.run i)).world = s.world := by
  obtain ⟨a', hwakes, hf, hw, hclients, hset⟩ := step_wake h.stands h.here hp
  refine ⟨⟨a', hset, by rw [hclients]; exact h.client, by rw [hf, Function.update_self],
    by rw [hwakes.phase]; rfl, hwakes.mailbox.trans h.mailbox, fun k d hd hk => ?_, h.proper,
    by rw [hw]; exact h.asks⟩, hw⟩
  rw [hf, Function.update_of_ne hk] at hd
  exact h.others k d hd hk

omit [DecidableEq β] in
/-- The request is all that the actor has to read. -/
theorem Asked.quiet (h : Asked env s place m m' i a segs op) :
    Stands env s.world (Function.update s.forest i (some { a with mailbox := [] })) place m := by
  refine h.stands.remail h.here (fun n k hk => ?_) (fun hm => ?_) fun _ _ => List.not_mem_nil
  · rw [h.mailbox] at hk
    cases List.mem_singleton.1 hk
  · rw [h.mailbox] at hm
    cases List.mem_singleton.1 hm

theorem Asked.run_idle (h : Asked env s place m m' i a segs op) (hp : a.phase = .idle) :
    (s.turn i a).run env = ((s.turn i a).take []).pathOp env (joinPath segs) op :=
  run_message hp h.mailbox

/-- A child that is open is handed the request. -/
theorem Asked.hop_held (h : Asked env s place m m' i a segs op) (hp : a.phase = .idle) {n : String}
    {rest : List String} (hsegs : segs = n :: rest) (hj : a.dirHandles[n]? = some j) :
    (∃ c, Asked env (s.step env (.run i)) place m m' j c rest op) ∧
      (s.step env (.run i)).world = s.world := by
  subst hsegs
  obtain ⟨hlt, hplace, c, hc, -⟩ := h.stands.child i a n j h.here hj
  have hji : j ≠ i := Nat.ne_of_gt hlt
  have hroute : ((s.turn i a).take []).routeToChild env _ = _ :=
    routeToChild_held h.stands h.here (by rw [hp]; rfl) h.proper hj
  generalize ht : (s.turn i a).run env = t
  have hrun : t = ((s.turn i a).take []).emit (.send j (.pathOp (joinPath rest) op)) := by
    rw [← ht, h.run_idle hp]
    unfold Turn.pathOp
    rw [hroute]
  have hsettle : (s.settle t).forest = Function.update s.forest i (some { a with mailbox := [] }) := by
    rw [hrun]
    exact forest_settle (t := ((s.turn i a).take []).emit (.send j (.pathOp (joinPath rest) op))) h.here
      rfl rfl
  have hc' : (s.settle t).forest j = some c := by
    rw [hsettle, Function.update_of_ne hji, hc]
  have hworld : t.world = s.world := by
    rw [hrun]
    rfl
  have hout : t.out = [.send j (.pathOp (joinPath rest) op)] := by
    rw [hrun]
    rfl
  obtain ⟨hclients, hforest⟩ := commit_send hout hc' (h.stands.opened j c hc).not_stopped
  rw [hsettle] at hforest
  obtain ⟨hwait, hmail⟩ := atRest_iff.1 (h.others j c hc hji)
  rw [step_run h.here, ht]
  refine ⟨⟨{ c with mailbox := c.mailbox ++ [.pathOp (joinPath rest) op] }, ?_, ?_, ?_, hwait, ?_,
    fun k d hd hk => ?_, h.proper.cons.2, ?_⟩, by rw [commit_world, hworld]⟩
  · rw [hforest, commit_world, hworld]
    exact h.quiet.hear (by rw [Function.update_of_ne hji, hc]) fun _ _ => by simp
  · rw [hclients]
    exact h.client
  · rw [hforest, Function.update_self]
  · rw [hmail]
    rfl
  · rw [hforest, Function.update_of_ne hk] at hd
    rcases Forest.update_cases hd with ⟨-, rfl⟩ | ⟨hki, hd⟩
    · exact atRest_iff.2 ⟨h.waiting, rfl⟩
    · exact h.others k d hd hki
  · rw [commit_world, hworld, hplace, List.append_assoc]
    exact h.asks

/-- A child is opened and handed the request. -/
theorem Asked.hop_closed (h : Asked env s place m m' i a segs op) (hp : a.phase = .idle) {n : String}
    {rest : List String} (hsegs : segs = n :: rest) {ref : DirRef} (href : a.state.dirs[n]? = some ref)
    (hnone : a.dirHandles[n]? = none) :
    (∃ place j c, Asked env (s.step env (.run i)) place m m' j c rest op) ∧
      (s.step env (.run i)).world = s.world := by
  subst hsegs
  have hidle : a.phase.isRunning = true := by rw [hp]; rfl
  obtain ⟨-, hdir⟩ := (h.stands.opened i a h.here).dir hidle
  have hn : n ∈ a.state.dirs := ExtTreeMap.mem_iff_isSome_getElem?.2 (by rw [href]; rfl)
  have hroute : ((s.turn i a).take []).routeToChild env _ = _ :=
    routeToChild_closed h.stands h.here hidle h.proper href hnone
  let ctx := a.context.withNewRef ref (.dirHandle (.path n) i ref.hash 0)
  let msg : ActorMessage := .pathOp (joinPath rest) op
  let a' : DirActor := { a with mailbox := [], dirHandles := a.dirHandles.insert n s.actors.length }
  generalize ht : (s.turn i a).run env = t
  have hrun : t = { ((s.turn i a).take []).spawn ctx none with
      actor := a'
      out := [.send s.actors.length msg] } := by
    rw [← ht, h.run_idle hp]
    unfold Turn.pathOp
    rw [hroute]
    rfl
  have hactor : t.actor = a' := by rw [hrun]
  have hspawned : t.spawned = [.new ctx none] := by
    rw [hrun]
    rfl
  have hself : t.self = i := by
    rw [hrun]
    rfl
  have hworld : t.world = s.world := by
    rw [hrun]
    rfl
  have hsettle := forest_settle_spawned h.here hself hspawned
  rw [hactor] at hsettle
  have hnew : (s.settle t).forest s.actors.length = some (.new ctx none) := by
    rw [hsettle, Function.update_self]
  have hout : t.out = [.send s.actors.length msg] := by rw [hrun]
  obtain ⟨hclients, hforest⟩ := commit_send hout hnew rfl
  rw [hsettle] at hforest
  have hspawn : Stands env s.world
      (Function.update (Function.update s.forest i (some a')) s.actors.length (some (.new ctx none)))
      (Function.update place s.actors.length (place i ++ [n])) m := by
    have hlen : s.actors.length ≠ i := Nat.ne_of_gt (lt_of_forest h.here)
    have hcarries : Carries env s.world a' fun segs => m (place i ++ segs) :=
      ((h.stands.opened i a h.here).hear []).openChild hidle hn _
    have hhandles : ∀ x : String, a'.dirHandles[x]? =
        if x = n then some s.actors.length else a.dirHandles[x]? :=
      fun x => ExtTreeMap.getElem?_insert_ite ..
    have hctx : a'.context = a.context := rfl
    have hstands := h.quiet.spawn (c := .new ctx none) (n := n)
      (Function.update_self i _ _) (by rw [Function.update_of_ne hlen, forest_length])
      (lt_of_forest h.here) hnone hhandles hctx hcarries (.refl _)
      (fun x c k _ hc => hc.mono rfl rfl id .inr (fun _ => id) fun _ => id) .inl (fun _ => id)
      (fun _ _ => id) (.unread rfl rfl rfl rfl ?_) ?_ rfl rfl
    · rwa [Function.update_idem] at hstands
    · have hshelved := hdir.shelved n ref href hnone
      rw [← erase_withNewRef a.context ref n i ref.hash] at hshelved
      exact hshelved
    · exact ⟨⟨ref, ref.hash, href, rfl, .inl rfl, fun k hk => absurd hk List.not_mem_nil⟩, nofun,
        fun _ _ k => List.not_mem_nil⟩
  rw [step_run h.here, ht]
  refine ⟨⟨Function.update place s.actors.length (place i ++ [n]), s.actors.length,
    { DirActor.new ctx none with mailbox := [msg] }, ?_, ?_, ?_, rfl, rfl, fun k d hd hk => ?_,
    h.proper.cons.2, ?_⟩, by rw [commit_world, hworld]⟩
  · rw [hforest, commit_world, hworld]
    exact hspawn.hear (Function.update_self _ _ _) fun _ _ => by simp [msg]
  · rw [hclients]
    exact h.client
  · rw [hforest, Function.update_self]
    rfl
  · rw [hforest, Function.update_of_ne hk, Function.update_of_ne hk] at hd
    rcases Forest.update_cases hd with ⟨-, rfl⟩ | ⟨hki, hd⟩
    · exact atRest_iff.2 ⟨h.waiting, rfl⟩
    · exact h.others k d hd hki
  · rw [commit_world, hworld, Function.update_self, List.append_assoc]
    exact h.asks

omit [DecidableEq β] in
theorem update_append (m : FileMap) (pre segs : List String) (f : Option FileRef) :
    (fun segs' => Function.update m (pre ++ segs) f (pre ++ segs')) =
      Function.update (fun segs' => m (pre ++ segs')) segs f := by
  funext segs'
  by_cases hs : segs' = segs
  · rw [hs, Function.update_self, Function.update_self]
  · rw [Function.update_of_ne hs, Function.update_of_ne fun he => hs (List.append_cancel_left he)]

/-- The files with one entry set or taken away. -/
def setFile (files : ExtTreeMap String FileRef compare) (path : String) :
    Option FileRef → ExtTreeMap String FileRef compare
  | some file => files.insert path file
  | none => files.erase path

theorem getElem?_setFile (files : ExtTreeMap String FileRef compare) (path : String) (value : Option FileRef)
    (k : String) : (setFile files path value)[k]? = if k = path then value else files[k]? := by
  cases value with
  | some file => exact ExtTreeMap.getElem?_insert_ite ..
  | none =>
    show (files.erase path)[k]? = _
    rw [ExtTreeMap.getElem?_erase]
    by_cases hk : k = path
    · rw [if_pos hk, hk, if_pos (Std.compare_eq_iff_eq.2 rfl)]
    · rw [if_neg hk, if_neg fun he => hk (Std.compare_eq_iff_eq.1 he).symm]

/-- **A file operation is executed** where its file is. -/
theorem Asked.execute {task : FileTask} {request : Nat}
    (h : Asked env s place m m' i a segs (.fileOp task request)) (hp : a.phase = .idle)
    (hhead : ∀ n rest, segs = n :: rest → n ∉ a.state.dirs) :
    Settling env (s.step env (.run i)) m' ∧ Kept s.world (s.step env (.run i)).world := by
  have hidle : a.phase.isRunning = true := by rw [hp]; rfl
  obtain ⟨hshards, hdir⟩ := (h.stands.opened i a h.here).dir hidle
  have hroute : ((s.turn i a).take []).routeToChild env _ = _ :=
    routeToChild_here h.stands h.here hidle h.proper hhead
  have hentry := hdir.files segs h.proper hhead
  let value := task.execute (env.utcNow s.world.tick) a.state.files[joinPath segs]?
  let files := setFile a.state.files (joinPath segs) value
  have hfiles : ∀ k : String, files[k]? = if k = joinPath segs then value else a.state.files[k]? :=
    getElem?_setFile _ _ _
  have hm' : m' = Function.update m (place i ++ segs) value := by
    rw [show m' = m.execute (env.utcNow s.world.tick) (place i ++ segs, task) from h.asks]
    unfold FileMap.execute
    rw [hentry]
  let t := ({ (s.turn i a).take [] with
    world := s.world.next
    actor := { a with
      mailbox := []
      state.files := files
      phase := .executed (joinPath segs) value.isSome } } : Turn β).emit
      (.answer request (.file a.state.files[joinPath segs]?))
  have hrun : (s.turn i a).run env = t := by
    rw [h.run_idle hp]
    unfold Turn.pathOp
    rw [hroute]
    rfl
  have hnone : ∀ n rest, segs = n :: rest → a.dirHandles[n]? = none := by
    intro n rest he
    cases hj : a.dirHandles[n]? with
    | none => rfl
    | some j => exact absurd (hdir.held n j hj) (hhead n rest he)
  rw [step_run h.here, hrun]
  have hquiet : ∀ n k, .updateDirRefHash (.path n) k ∉ a.mailbox := by
    intro n k hk
    rw [h.mailbox] at hk
    cases List.mem_singleton.1 hk
  have hcommits : Commits env s t place m' i := by
    refine commits_quiet h.stands h.client h.here rfl (.inr ⟨request, _, rfl⟩) rfl rfl rfl ?_
      s.world.grows_next (fun _ => rfl) (fun j c hc hj segs' hs' hthere => ?_) (fun n c _ _ hc => ?_) id
      (fun _ he => Phase.noConfusion he) fun _ _ hk => absurd hk List.not_mem_nil
    · refine .running rfl hshards ?_ fun hno => absurd rfl (hno _ _)
      rw [hm', update_append]
      exact (hdir.setFile h.proper hhead hfiles).grown s.world.grows_next
    · rw [hm']
      exact Function.update_of_ne (h.stands.apart h.here hc hj hnone hthere) _ _
    · refine hc.mono rfl rfl id (fun hm => ?_) (fun k hk => ?_) fun k hk => absurd hk List.not_mem_nil
      · rw [h.mailbox] at hm
        cases List.mem_singleton.1 hm
      · rcases hk with hk | ⟨replies, responder, hs, -⟩
        · exact absurd hk (hquiet n k)
        · rw [hp] at hs
          cases hs
  refine ⟨hcommits.settling (fun j c hc hj => isSettling_of_atRest (h.others j c hc hj)) ?_
    (List.forall_mem_nil _), ?_⟩
  · exact isSettling_iff.2 ⟨List.forall_mem_nil _, .inr (.inr ⟨_, _, rfl⟩)⟩
  · rw [commit_world]
    exact ⟨s.world.grows_next, rfl⟩

/-- **A directory is made** where its parent is. -/
theorem Asked.newDir {n : String} {enableEncryption : Bool} {request : Nat}
    (h : Asked env s place m m' i a [n] (.createDir enableEncryption request)) (hp : a.phase = .idle)
    (hnew : n ∉ a.state.dirs) :
    Settling env (s.step env (.run i)) m' ∧ Kept s.world (s.step env (.run i)).world := by
  have hidle : a.phase.isRunning = true := by rw [hp]; rfl
  obtain ⟨hshards, hdir⟩ := (h.stands.opened i a h.here).dir hidle
  obtain ⟨rfl, hfree⟩ := h.asks
  have hn := h.proper.cons.1
  have hroute : ((s.turn i a).take []).routeToChild env _ = _ :=
    routeToChild_here h.stands h.here hidle h.proper fun x rest he => (List.cons.inj he).1 ▸ hnew
  have hnone : a.dirHandles[n]? = none := by
    cases hj : a.dirHandles[n]? with
    | none => rfl
    | some j => exact absurd (hdir.held n j hj) hnew
  have href := Actor.newRef_buildChildDirRef env hdir.encodable hdir.unsigned enableEncryption s.world
  generalize hb : buildChildDirRef env a.context.erase enableEncryption s.world = built at href
  obtain ⟨w, ref⟩ := built
  let t := ((((s.turn i a).take []).adopt w n ref (extractChildDirState a.state n).2).markAsDirty).emit
    (.answer request (.created (.ok ())))
  have hrun : (s.turn i a).run env = t := by
    rw [h.run_idle hp]
    unfold Turn.pathOp
    rw [hroute]
    dsimp only
    rw [joinPath_singleton, Turn.createDirAt_eq (t := (s.turn i a).take []) hnew hnone _ hb href.byHash]
    rfl
  rw [step_run h.here, hrun]
  obtain ⟨place', hcommits⟩ : ∃ place, Commits env s t place m' i := by
    refine commits_newDir h.stands h.client h.here hidle (by rw [hp]; nofun) hn hnew href.byHash rfl
      (.inr ⟨request, .created (.ok ()), ?_⟩) rfl rfl rfl rfl rfl rfl hp (fun x k => ?_)
      (fun _ => .inl rfl) href.kept ?_
    · unfold t Turn.emit
      rw [Turn.markAsDirty_out]
      rfl
    · refine ⟨fun hk => absurd hk List.not_mem_nil, fun hk => ?_⟩
      rw [h.mailbox] at hk
      cases List.mem_singleton.1 hk
    · have hflat : Open env w (childContext a.context.erase n ref) (extractChildDirState a.state n).2 ∅
          (extractChildDirState a.state n).2.fileMap :=
        .flat rfl rfl (href.encodable n) hdir.unsigned (ProperKeys.extract hdir.keys hn.2)
      refine hflat.congr (fun segs hs _ => (hdir.extracted hn hnew hfree hs).symm) fun x hx => ?_
      exact absurd hx ExtTreeMap.not_mem_empty
  refine ⟨hcommits.settling (fun j c hc hj => isSettling_of_atRest (h.others j c hc hj)) ?_
    (fun c hc => ?_), ?_⟩
  · exact isSettling_iff.2 ⟨List.forall_mem_nil _, .inr (.inl hp)⟩
  · rw [List.mem_singleton.1 hc]
    rfl
  · rw [commit_world]
    exact href.kept

/-- **A turn while a request is on its way.** -/
theorem asked_step (h : Asked env s place m m' i a segs op) (k : ActorId)
    (hop : ∀ c, s.forest k = some c → orderly env c = true) :
    ((∃ place j c rest, Asked env (s.step env (.run k)) place m m' j c rest op) ∨
      Settling env (s.step env (.run k)) m') ∧ Kept s.world (s.step env (.run k)).world := by
  by_cases hk : k = i
  · subst hk
    have hturn := hop a h.here
    rcases isWaiting_iff.1 h.waiting with hp | hp
    · obtain ⟨⟨a', h'⟩, hw⟩ := h.wake hp
      rw [hw]
      exact ⟨.inl ⟨place, k, a', segs, h'⟩, .refl _⟩
    -- the directory of the first segment, if there is one, goes on with the rest
    have hidle : a.phase.isRunning = true := by rw [hp]; rfl
    obtain ⟨-, hdir⟩ := (h.stands.opened k a h.here).dir hidle
    by_cases hhead : ∀ n rest, segs = n :: rest → n ∉ a.state.dirs
    · cases op with
      | fileOp task request =>
        obtain ⟨hs, hw⟩ := h.execute hp hhead
        exact ⟨.inr hs, hw⟩
      | createDir enableEncryption request =>
        unfold orderly at hturn
        rw [h.mailbox, hp] at hturn
        have hfirst : (splitPath (joinPath segs)).1 ∉ a.state.dirs := by
          rw [Actor.splitPath_fst_joinPath h.proper]
          cases segs with
          | nil => exact fun hm => (hdir.names "" hm).1 rfl
          | cons n rest => exact hhead n rest rfl
        simp only [Phase.isStarting, hfirst, decide_false, Bool.or_self, Bool.false_or,
          Bool.and_eq_true, decide_eq_true_eq] at hturn
        obtain ⟨n, rfl⟩ : ∃ n, segs = [n] := by
          cases segs with
          | nil => exact absurd joinPath_nil hturn.1
          | cons n rest =>
            cases rest with
            | nil => exact ⟨n, rfl⟩
            | cons x rest =>
              rw [joinPath_cons_cons] at hturn
              exact absurd (by simp) hturn.2
        obtain ⟨hs, hw⟩ := h.newDir hp (hhead n [] rfl)
        exact ⟨.inr hs, hw⟩
    · obtain ⟨n, hhead⟩ := not_forall.1 hhead
      obtain ⟨rest, hhead⟩ := not_forall.1 hhead
      obtain ⟨hsegs, hn⟩ := Classical.not_imp.1 hhead
      rw [not_not] at hn
      cases hj : a.dirHandles[n]? with
      | some j =>
        obtain ⟨⟨c, h'⟩, hw⟩ := h.hop_held hp hsegs hj
        rw [hw]
        exact ⟨.inl ⟨place, j, c, rest, h'⟩, .refl _⟩
      | none =>
        obtain ⟨ref, href⟩ := Option.isSome_iff_exists.1 (ExtTreeMap.mem_iff_isSome_getElem?.1 hn)
        obtain ⟨⟨place', j, c, h'⟩, hw⟩ := h.hop_closed hp hsegs href hj
        rw [hw]
        exact ⟨.inl ⟨place', j, c, rest, h'⟩, .refl _⟩
  · obtain ⟨h', hw⟩ := h.rest hk
    rw [hw]
    exact ⟨.inl ⟨place, i, a, segs, h'⟩, .refl _⟩

end System

end Fs
