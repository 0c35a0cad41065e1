import S5.Fs.Proof.WaitingSave

/-!
# A client that waits is served

In every run whose client makes its requests when the actors are at rest, whatever the order of the
turns in between, lookups find the files of a plain map, and after the end of the process those that the
client has saved last.

* `waiting_step`: every event keeps the actors in line with the map and its durable copy.
* `waiting_refines_map`: lookups find what the map has.
* `waiting_crash_finds_save`: after a crash they find what they found just before the last save.
* `waiting_refines_session`: they find what a client of `Actor.stepFs` finds.
-/

open Std

namespace Fs

open Actor (Kept FlatRoot)

namespace System

variable {β : Type} {env : Env β} {s s' : System β} {place : ActorId → List String} {m m' : FileMap}
  {i j : ActorId} {a b c : DirActor} {d : Durable FileMap}

/-! ## The invariant -/

/-- Where the actors are between two requests, with the files of `m` in memory as soon as the last
request has been executed, and those of `saved` in the store. -/
inductive Stage (env : Env β) (s : System β) (m saved : FileMap) : Prop
  | asked {place m₀ i a segs op} (asked : Asked env s place m₀ m i a segs op)
      (shelved : Shelved env s.world .localRoot saved)
  | settling (settling : Settling env s m) (shelved : Shelved env s.world .localRoot saved)
  | saving (saving : Saving env s m) (same : saved = m)

/-- The actors are in line with what the client has in mind. -/
structure Serves (env : Env β) (x : System β × Durable FileMap) : Prop where
  stage : Stage env x.1 x.2.volatile x.2.durable
  separate : Separate x.2.volatile
  storedSeparate : Separate x.2.durable

/-- At rest the last request has been executed. -/
theorem Stage.settled {saved : FileMap} (h : Stage env s m saved) (hrest : s.atRest = true) :
    Settling env s m ∧ Shelved env s.world .localRoot saved := by
  have hall : ∀ (j : ActorId) c, s.forest j = some c → c.phase.isWaiting = true ∧ c.mailbox = [] :=
    fun j c hc => atRest_iff.1 (List.all_eq_true.1 hrest c (List.mem_of_getElem? hc))
  cases h with
  | settling settling shelved => exact ⟨settling, shelved⟩
  | asked asked =>
    have hm := (hall _ _ asked.here).2
    rw [asked.mailbox] at hm
    cases hm
  | saving saving =>
    obtain ⟨r, k, hr, owes⟩ := saving.saves.root
    obtain ⟨hw, hm⟩ := hall _ _ hr
    cases owes with
    | asked _ mailbox =>
      rw [mailbox] at hm
      cases hm
    | saving phase =>
      rw [phase] at hw
      cases hw

/-- Unless a save is going on, what has been saved is in the store. -/
theorem Stage.stored {saved : FileMap} (h : Stage env s m saved) (hsaving : s.isSaving = false) :
    Shelved env s.world .localRoot saved := by
  cases h with
  | asked _ shelved => exact shelved
  | settling _ shelved => exact shelved
  | saving saving =>
    obtain ⟨r, k, hr, owes⟩ := saving.saves.root
    have hr' : s.actors[rootId]? = some r := hr
    have hyes : r.isSaving = true := by
      unfold DirActor.isSaving
      cases owes with
      | asked _ mailbox =>
        rw [mailbox]
        exact Bool.or_true _
      | saving phase =>
        rw [phase]
        rfl
    unfold isSaving at hsaving
    rw [hr', Option.any_some, hyes] at hsaving
    cases hsaving

theorem Stage.context {saved : FileMap} (h : Stage env s m saved) :
    ∃ r, s.forest rootId = some r ∧ r.context = .localRoot := by
  have hstands : ∃ place m, Stands env s.world s.forest place m := by
    cases h with
    | asked asked => exact ⟨_, _, asked.stands⟩
    | settling settling => exact settling.stands.imp fun _ h => ⟨_, h⟩
    | saving saving => exact saving.stands.imp fun _ h => ⟨_, h⟩
  obtain ⟨place, m, hstands⟩ := hstands
  obtain ⟨r, hr, hctx, -⟩ := hstands.root
  exact ⟨r, hr, hctx⟩

/-! ## Requests -/

/-- The root of a file system that has just been opened. -/
theorem stands_opened {w : World β} (h : Shelved env w .localRoot m) (r : LocalRoot) :
    Stands env w (opened .localRoot w r).forest (fun _ => []) m := by
  have hnew : ∀ (j : ActorId) c, (opened .localRoot w r).forest j = some c →
      j = rootId ∧ c = .new .localRoot none := by
    intro j c hc
    have hc' : [DirActor.new .localRoot none][j]? = some c := hc
    cases j with
    | zero => exact ⟨rfl, (Option.some.inj hc').symm⟩
    | succ j => cases hc'
  refine ⟨⟨_, rfl, rfl, nofun⟩, rfl, fun j c hc hj => absurd (hnew j c hc).1 hj, fun i a n j ha hn => ?_,
    fun j c hc => ?_, fun i a n k ha hk => ?_⟩
  · obtain ⟨-, rfl⟩ := hnew i a ha
    have hn' : (∅ : ExtTreeMap String ActorId)[n]? = some j := hn
    simp at hn'
  · obtain ⟨-, rfl⟩ := hnew j c hc
    exact .unread rfl rfl rfl rfl h
  · obtain ⟨-, rfl⟩ := hnew i a ha
    cases hk

theorem settling_opened (s : System β) (hs : Shelved env s.world .localRoot m)
    (hstep : s' = { opened .localRoot s.world s.localRoot with
      answers := s.answers
      requests := s.requests }) : Settling env s' m := by
  subst hstep
  refine ⟨⟨fun _ => [], stands_opened hs s.localRoot⟩, List.mem_cons_self, fun j c hc => ?_⟩
  have hc' : [DirActor.new .localRoot none][j]? = some c := hc
  cases j with
  | zero =>
    obtain rfl := Option.some.inj hc'
    rfl
  | succ j => cases hc'

/-- A request reaches the root's actor. -/
theorem submit_root (h : Settling env s m) (hrest : s.atRest = true) (msg : ActorMessage)
    (hmsg : ∀ path k, msg ≠ .updateDirRefHash path k)
    (hs : s' = ({ s with requests := s.requests + 1 } : System β).emit (.send rootId msg)) :
    ∃ r place, s.forest rootId = some r ∧ r.phase.isWaiting = true ∧ place rootId = [] ∧
      s'.forest = Function.update s.forest rootId (some { r with mailbox := [msg] }) ∧
      s'.world = s.world ∧ s'.clientHandles = s.clientHandles ∧
      Stands env s'.world s'.forest place m := by
  obtain ⟨⟨place, hstands⟩, -, -⟩ := h
  obtain ⟨r, hr, -⟩ := hstands.root
  have hr' : s.actors[rootId]? = some r := hr
  obtain ⟨hwait, hmail⟩ := atRest_iff.1 (List.all_eq_true.1 hrest r (List.mem_of_getElem? hr'))
  have hclosed : ({ s with requests := s.requests + 1 } : System β).closed rootId = false :=
    closed_eq_false (s := { s with requests := s.requests + 1 }) hr (hstands.opened rootId r hr).not_stopped
  rw [emit_send hclosed] at hs
  have hforest : s'.forest = Function.update s.forest rootId (some { r with mailbox := [msg] }) := by
    rw [hs]
    refine (forest_modify { s with requests := s.requests + 1 } rootId
      (fun a => { a with mailbox := a.mailbox ++ [msg] }) hr).trans ?_
    rw [hmail]
    rfl
  refine ⟨r, place, hr, hwait, hstands.top, hforest, by rw [hs]; rfl, by rw [hs]; rfl, ?_⟩
  have hheard := hstands.hear hr hmsg
  rw [hmail, List.nil_append] at hheard
  rw [hforest, hs]
  exact hheard

variable [DecidableEq β]

/-- No file gets above or below another, and no directory is made over a file. -/
def Fits (env : Env β) (x : System β × Durable FileMap) : Waiting → Prop
  | .ask (.file path task) => Proper (segments path) ∧
      Separate (x.2.volatile.execute (env.utcNow x.1.world.tick) (segments path, task))
  | .ask (.createDir path _) => Proper (segments path) ∧ x.2.volatile (segments path) = none
  | _ => True

/-- What is asked of a run. There is no BLAKE3 collision, either. -/
def Admitted (env : Env β) (x : System β × Durable FileMap) (e : Waiting) : Prop :=
  (ready env x.1 e = true ∧ (stepWaiting env x e).1.world.collided = false) ∧ Fits env x e

omit [DecidableEq β] in
/-- A request for a path is on its way. -/
theorem asked_of_rest (h : Settling env s m) (hrest : s.atRest = true) {saved : FileMap}
    (hshelved : Shelved env s.world .localRoot saved) {path : String}
    (hpath : Proper (segments path)) {op : ActorMessageOp}
    (hop : Asks (env.utcNow s.world.tick) m (segments path) op m')
    (hs : s' = ({ s with requests := s.requests + 1 } : System β).emit
      (.send rootId (.pathOp path op))) : Stage env s' m' saved := by
  obtain ⟨r, place, hr, hwait, htop, hforest, hworld, hclient, hstands⟩ :=
    submit_root h hrest (.pathOp path op) nofun hs
  have hasked : Asked env s' place m m' rootId { r with mailbox := [.pathOp path op] }
      (segments path) op := by
    refine ⟨hstands, by rw [hclient]; exact h.client, by rw [hforest, Function.update_self], hwait, ?_,
      fun j c hc hj => ?_, hpath, ?_⟩
    · rw [joinPath_segments]
    · rw [hforest, Function.update_of_ne hj] at hc
      exact List.all_eq_true.1 hrest c (List.mem_of_getElem? hc)
    · rw [htop, hworld, List.nil_append]
      exact hop
  exact .asked hasked (by rwa [hworld])

omit [DecidableEq β] in
/-- A save begins. -/
theorem saving_of_rest (h : Settling env s m) (hrest : s.atRest = true) (k : Nat)
    (hs : s' = ({ s with requests := s.requests + 1 } : System β).emit
      (.send rootId (.saveIfDirty (.client k)))) : Saving env s' m := by
  obtain ⟨r, place, hr, hwait, -, hforest, -, hclient, hstands⟩ :=
    submit_root h hrest (.saveIfDirty (.client k)) nofun hs
  have hall : ∀ (j : ActorId) c, s.forest j = some c → c.Owes none := by
    intro j c hc
    obtain ⟨hw, hm⟩ := atRest_iff.1 (List.all_eq_true.1 hrest c (List.mem_of_getElem? hc))
    exact .nobody hw hm
  have hcases : ∀ (j : ActorId) c, s'.forest j = some c →
      (j = rootId ∧ c = { r with mailbox := [.saveIfDirty (.client k)] }) ∨
        (j ≠ rootId ∧ s.forest j = some c) := by
    intro j c hc
    rw [hforest] at hc
    exact Forest.update_cases hc
  have howes : DirActor.Owes { r with mailbox := [.saveIfDirty (.client k)] } (some (.client k)) :=
    .asked hwait rfl
  have hidle : ∀ (j : ActorId) c, s'.forest j = some c → c.phase.isWaiting = true := by
    intro j c hc
    rcases hcases j c hc with ⟨-, rfl⟩ | ⟨-, hc⟩
    · exact hwait
    · cases hall j c hc with
      | nobody hw => exact hw
  have hnot : ∀ {j : ActorId} {c} {replies : Replies} {r}, s'.forest j = some c →
      c.phase ≠ .saving replies r := by
    intro j c replies r hc hp
    have hw := hidle j c hc
    rw [hp] at hw
    cases hw
  refine ⟨⟨place, hstands⟩, by rw [hclient]; exact h.client, fun j c hc => ?_,
    ⟨_, k, by rw [hforest, Function.update_self], howes⟩, fun i a n j c ha hn hc => ?_,
    fun j c replies r hc hp => absurd hp (hnot hc), fun j c replies r hc hp _ => absurd hp (hnot hc)⟩
  · rcases hcases j c hc with ⟨-, rfl⟩ | ⟨-, hc⟩
    · exact ⟨_, howes⟩
    · exact ⟨_, hall j c hc⟩
  · have hlt := (hstands.child i a n j ha hn).1
    rcases hcases j c hc with ⟨rfl, -⟩ | ⟨-, hc⟩
    · exact absurd hlt (Nat.not_lt_zero i)
    · exact .idle (hall j c hc) fun _ _ => hnot ha

/-! ## Events -/

/-- **Every event** keeps the actors in line with what the client has in mind. -/
theorem waiting_step (law : env.Lawful) (hstore : ∀ n, env.storeFails n = false)
    (x : System β × Durable FileMap) (e : Waiting) (h : Serves env x) (he : Admitted env x e) :
    Serves env (stepWaiting env x e) := by
  obtain ⟨s, d⟩ := x
  obtain ⟨hstage, hsep, hstored⟩ := h
  obtain ⟨⟨hready, hc⟩, hfits⟩ := he
  dsimp only at hstage hsep hstored
  have hgrown : ∀ {s' : System β}, Kept s.world s'.world → Shelved env s.world .localRoot d.durable →
      Shelved env s'.world .localRoot d.durable :=
    fun hk hs => hs.grown hk.grows fun _ => hk.rootFile
  have hrequest : ∀ request, Settling env s d.volatile →
      s.step env (.request ([], rootId) request) = s.submit ([], rootId) request :=
    fun request hs => if_pos hs.client
  cases e with
  | run i =>
    have hop : ∀ a, s.forest i = some a → orderly env a = true := fun a ha => by
      have ha' : s.actors[i]? = some a := ha
      have hall : s.actors[i]?.all (orderly env) = true := hready
      rwa [ha'] at hall
    refine ⟨?_, hsep, hstored⟩
    show Stage env (s.step env (.run i)) d.volatile d.durable
    cases hstage with
    | asked asked shelved =>
      obtain ⟨hstage, hk⟩ := asked_step asked i hop
      rcases hstage with ⟨place, j, c, rest, asked⟩ | settling
      · exact .asked asked (hgrown hk shelved)
      · exact .settling settling (hgrown hk shelved)
    | settling settling shelved =>
      obtain ⟨settling, hk⟩ := settling_step law hstore settling hsep i hc
      exact .settling settling (hgrown hk shelved)
    | saving saving same =>
      rcases saving_step law hstore saving i hop hc with ⟨saving, -⟩ | ⟨settling, shelved⟩
      · exact .saving saving same
      · exact .settling settling (by rwa [same])
  | ask op =>
    cases op with
    | file path task =>
      obtain ⟨hpath, hsep'⟩ := hfits
      have hrest : s.atRest = true := hready
      obtain ⟨settling, shelved⟩ := hstage.settled hrest
      have hasks : Asks (env.utcNow s.world.tick) d.volatile (segments path) (.fileOp task s.requests)
          (d.volatile.execute (env.utcNow s.world.tick) (segments path, task)) := rfl
      exact ⟨asked_of_rest settling hrest shelved hpath hasks (hrequest _ settling), hsep', hstored⟩
    | createDir path enableEncryption =>
      obtain ⟨hpath, hnone⟩ := hfits
      have hrest : s.atRest = true := hready
      obtain ⟨settling, shelved⟩ := hstage.settled hrest
      have hasks : Asks (env.utcNow s.world.tick) d.volatile (segments path)
          (.createDir enableEncryption s.requests) d.volatile := ⟨rfl, hnone⟩
      exact ⟨asked_of_rest settling hrest shelved hpath hasks (hrequest _ settling), hsep, hstored⟩
    | save =>
      have hrest : s.atRest = true := hready
      obtain ⟨settling, -⟩ := hstage.settled hrest
      exact ⟨.saving (saving_of_rest settling hrest s.requests (hrequest _ settling)) rfl, hsep, hsep⟩
    | reopen =>
      have hsaving : (!s.isSaving) = true := hready
      have hshelved := hstage.stored (by simpa using hsaving)
      obtain ⟨r, hr, hctx⟩ := hstage.context
      have hr' : s.actors[rootId]? = some r := hr
      have hstep : s.step env .reopen = { opened .localRoot s.world s.localRoot with
          answers := s.answers
          requests := s.requests } := by
        simp only [step, hr', hctx]
      refine ⟨.settling (settling_opened s hshelved hstep) ?_, hstored, hstored⟩
      show Shelved env (s.step env .reopen).world .localRoot d.durable
      rw [hstep]
      exact hshelved

omit [DecidableEq β] in
/-- A file system that has just been opened on a root without directories. -/
theorem serves_opened {w : World β} {a : Actor} (hroot : FlatRoot env w a) (r : LocalRoot) :
    Serves env (opened .localRoot w r, .ofSaved a.state.fileMap) := by
  have hshelved : Shelved env w .localRoot a.state.fileMap := hroot.refines.stored
  exact ⟨.settling (settling_opened (opened .localRoot w r) hshelved rfl) hshelved, hroot.separate,
    hroot.separate⟩

theorem waiting_serves (law : env.Lawful) (hstore : ∀ n, env.storeFails n = false) {w : World β}
    {a : Actor} (hroot : FlatRoot env w a) {r : LocalRoot} {es : List Waiting}
    (hes : Run.Steps (stepWaiting env) (Admitted env)
      (opened .localRoot w r, .ofSaved a.state.fileMap) es) :
    Run.Always (stepWaiting env) (Serves env) (opened .localRoot w r, .ofSaved a.state.fileMap) es :=
  Run.always_of_steps (waiting_step law hstore) (serves_opened hroot r) hes

/-! ## Runs that are admitted -/

omit [DecidableEq β] in
theorem separate_of_paths {P : List (List String)} (hP : ∀ p ∈ P, ∀ q ∈ P, p <+: q → p = q)
    (hm : ∀ segs, (m segs).isSome → segs ∈ P) : Separate m := by
  intro segs n rest _ hsome
  cases hbelow : m (segs ++ n :: rest) with
  | none => rfl
  | some f =>
    have he := hP segs (hm segs hsome) _ (hm _ (by rw [hbelow]; rfl)) (List.prefix_append _ _)
    exact absurd (List.append_right_eq_self.1 he.symm) (List.cons_ne_nil n rest)

/-- Files are at the paths of `P`, and directories elsewhere. -/
def Among (P : List (List String)) : Waiting → Prop
  | .ask (.file path _) => Proper (segments path) ∧ segments path ∈ P
  | .ask (.createDir path _) => Proper (segments path) ∧ segments path ∉ P
  | _ => True

instance (P : List (List String)) : DecidablePred (Among P) := fun e => by
  unfold Among Proper
  split <;> infer_instance

/-- A client whose files are at paths none of which is above another fits them in. -/
theorem fits_of_paths {P : List (List String)}
    (hP : ∀ p ∈ P, ∀ q ∈ P, p <+: q → p = q) {es : List Waiting} (hes : ∀ e ∈ es, Among P e)
    {x : System β × Durable FileMap} (hv : ∀ segs, (x.2.volatile segs).isSome → segs ∈ P)
    (hd : ∀ segs, (x.2.durable segs).isSome → segs ∈ P) :
    Run.Steps (stepWaiting env) (Fits env) x es := by
  induction es generalizing x with
  | nil => exact Run.steps_nil
  | cons e es ih =>
    obtain ⟨he, hes⟩ := List.forall_mem_cons.1 hes
    have hkeep : (∀ segs, ((stepWaiting env x e).2.volatile segs).isSome → segs ∈ P) ∧
        (∀ segs, ((stepWaiting env x e).2.durable segs).isSome → segs ∈ P) ∧ Fits env x e := by
      cases e with
      | run i => exact ⟨hv, hd, trivial⟩
      | ask op =>
        cases op with
        | file path task =>
          obtain ⟨hpath, hmem⟩ := he
          have hset : ∀ segs, (x.2.volatile.execute (env.utcNow x.1.world.tick)
              (segments path, task) segs).isSome → segs ∈ P := by
            intro segs hsome
            by_cases hs : segs = segments path
            · exact hs ▸ hmem
            · unfold FileMap.execute at hsome
              rw [Function.update_of_ne hs] at hsome
              exact hv segs hsome
          exact ⟨hset, hd, hpath, separate_of_paths hP hset⟩
        | createDir path enableEncryption =>
          obtain ⟨hpath, hnot⟩ := he
          refine ⟨hv, hd, hpath, ?_⟩
          cases hm : x.2.volatile (segments path) with
          | none => rfl
          | some f => exact absurd (hv _ (by rw [hm]; rfl)) hnot
        | save => exact ⟨hv, hv, trivial⟩
        | reopen => exact ⟨hd, hd, trivial⟩
    obtain ⟨hv, hd, hfits⟩ := hkeep
    exact Run.steps_cons.2 ⟨hfits, ih hes hv hd⟩

/-! ## Lookups -/

/-- At rest lookups find what the client has in mind, and after the end of the process they would find
what it has saved last. -/
structure Finds (env : Env β) (x : System β × Durable FileMap) : Prop where
  live : x.1.atRest = true → ∀ path, Proper (segments path) →
    x.1.Reaches env path (x.2.volatile (segments path))
  stored : x.1.isSaving = false → ∀ path, Proper (segments path) →
    (x.1.step env .reopen).Reaches env path (x.2.durable (segments path))

theorem Serves.finds {x : System β × Durable FileMap} (h : Serves env x) : Finds env x := by
  have hreach : ∀ {s : System β} {m : FileMap}, Settling env s m → ∀ path, Proper (segments path) →
      s.Reaches env path (m (segments path)) := by
    intro s m hs path hpath
    obtain ⟨place, hstands⟩ := hs.stands
    have hfound := reaches_stands hstands hpath
    rwa [joinPath_segments] at hfound
  refine ⟨fun hrest => hreach (h.stage.settled hrest).1, fun hsaving => hreach ?_⟩
  obtain ⟨r, hr, hctx⟩ := h.stage.context
  have hr' : x.1.actors[rootId]? = some r := hr
  refine settling_opened x.1 (h.stage.stored hsaving) ?_
  simp only [step, hr', hctx]

/-- **A client that waits finds the files of a map that survives crashes**, in whatever order the actors
take their turns between its requests. -/
theorem waiting_refines_map (law : env.Lawful) (hstore : ∀ n, env.storeFails n = false) {w : World β}
    {a : Actor} (hroot : FlatRoot env w a) {r : LocalRoot} {es : List Waiting}
    (hes : Run.Steps (stepWaiting env) (Admitted env)
      (opened .localRoot w r, .ofSaved a.state.fileMap) es) :
    Run.Always (stepWaiting env) (Finds env) (opened .localRoot w r, .ofSaved a.state.fileMap) es := by
  have hall := waiting_serves law hstore hroot hes
  exact fun pre hpre => (hall pre hpre).finds

/-- Two directories with a file each, up to the first save. -/
def beforeSave : List Waiting :=
  [.ask (.createDir "e" false), .run 0, .run 0, .run 0, .run 1, .run 0,
    .ask (.createDir "f" false), .run 1, .run 0, .run 0, .run 2, .run 0,
    .ask (.file "e/b" (.put (.new 1 1))), .run 0, .run 1, .run 1, .run 0,
    .ask (.file "f/c" (.put (.new 3 3))), .run 0, .run 1, .run 2, .run 2, .run 0]

/-- The children take part in the save in turns, and a file follows that is not saved. -/
def afterSave : List Waiting :=
  [.run 1, .run 0, .run 2, .run 1, .run 0, .run 1, .run 2, .run 0,
    .ask (.file "a" (.put (.new 2 2))), .run 0, .run 0]

def twoDirs : List Waiting := beforeSave ++ .ask .save :: (afterSave ++ [.ask .reopen])

theorem admitted_twoDirs : Run.Steps (stepWaiting (symbolic xxh3Short)) (Admitted (symbolic xxh3Short))
    (opened .localRoot Actor.newFs ⟨.new, none, true⟩, .ofSaved Actor.newRoot.state.fileMap)
    twoDirs := by
  have hempty : ∀ segs, (Actor.newRoot.state.fileMap segs).isSome →
      segs ∈ [["e", "b"], ["f", "c"], ["a"]] := by
    intro segs hsome
    rw [show Actor.newRoot.state.fileMap segs = none from ExtTreeMap.getElem?_empty] at hsome
    cases hsome
  have hready : Run.Steps (stepWaiting (symbolic xxh3Short)) (fun x e =>
      ready (symbolic xxh3Short) x.1 e = true ∧
        (stepWaiting (symbolic xxh3Short) x e).1.world.collided = false)
      (opened .localRoot Actor.newFs ⟨.new, none, true⟩, .ofSaved Actor.newRoot.state.fileMap)
      twoDirs := by decide +kernel
  have hfits := @fits_of_paths _ (symbolic xxh3Short) _ [["e", "b"], ["f", "c"], ["a"]] (by decide)
    twoDirs (by decide +kernel) (opened .localRoot Actor.newFs ⟨.new, none, true⟩,
      .ofSaved Actor.newRoot.state.fileMap) hempty hempty
  exact fun pre e hpre => ⟨hready pre e hpre, hfits pre e hpre⟩

theorem waiting_refines_map_twoDirs : Run.Always (stepWaiting (symbolic xxh3Short))
    (Finds (symbolic xxh3Short))
    (opened .localRoot Actor.newFs ⟨.new, none, true⟩, .ofSaved Actor.newRoot.state.fileMap) twoDirs :=
  waiting_refines_map (symbolic_lawful xxh3Short) (fun _ => rfl) Actor.flatRoot_newRoot admitted_twoDirs

omit [DecidableEq β] in
theorem lookup_mono {fuel : Nat} {v : Except String View} {path : String} {r : Option FileRef}
    (h : s.lookup env fuel v path = some r) : s.lookup env (fuel + 1) v path = some r := by
  induction fuel generalizing v path with
  | zero => cases h
  | succ fuel ih =>
    cases v with
    | error e => exact h
    | ok v =>
      rw [lookup] at h ⊢
      cases hr : route env v.state path with
      | error e =>
        rw [hr] at h
        exact h
      | ok o =>
        rw [hr] at h
        cases o with
        | here => exact h
        | shard index => exact ih h
        | dir name rest => exact ih h

omit [DecidableEq β] in
theorem lookup_le {fuel fuel' : Nat} (hle : fuel ≤ fuel') {v : Except String View} {path : String}
    {r : Option FileRef} (h : s.lookup env fuel v path = some r) :
    s.lookup env fuel' v path = some r := by
  induction fuel', hle using Nat.le_induction with
  | base => exact h
  | succ n _ ih => exact lookup_mono ih

omit [DecidableEq β] in
/-- A path reaches at most one entry. -/
theorem Reaches.unique {path : String} {r r' : Option FileRef} (h : s.Reaches env path r)
    (h' : s.Reaches env path r') : r = r' := by
  obtain ⟨fuel, h⟩ := h
  obtain ⟨fuel', h'⟩ := h'
  have h1 := lookup_le (Nat.le_max_left fuel fuel') h
  have h2 := lookup_le (Nat.le_max_right fuel fuel') h'
  rw [h1] at h2
  exact Option.some.inj h2

/-- A run without what the client has in mind. -/
theorem fst_stepWaiting (es : List Waiting) (x : System β × Durable FileMap) :
    (es.foldl (stepWaiting env) x).1 = es.foldl (fun s e => s.step env e.event) x.1 := by
  induction es generalizing x with
  | nil => rfl
  | cons e es ih => exact ih _

/-- **After a crash a client that waits finds what it has saved last**: whatever it has asked for since,
every lookup finds what it found just before the save. -/
theorem waiting_crash_finds_save (law : env.Lawful) (hstore : ∀ n, env.storeFails n = false)
    {w : World β} {a : Actor} (hroot : FlatRoot env w a) {r : LocalRoot} (before after : List Waiting)
    (hafter : Waiting.ask .save ∉ after)
    (hes : Run.Steps (stepWaiting env) (Admitted env) (opened .localRoot w r, .ofSaved a.state.fileMap)
      (before ++ .ask .save :: (after ++ [.ask .reopen])))
    {path : String} (hpath : Proper (segments path)) (q : Option FileRef) :
    ((before ++ Waiting.ask .save :: (after ++ [Waiting.ask .reopen])).foldl
        (fun s e => s.step env e.event) (opened .localRoot w r)).Reaches env path q ↔
      (before.foldl (fun s e => s.step env e.event) (opened .localRoot w r)).Reaches env path q := by
  have hall := waiting_serves law hstore hroot hes
  have hsaved := Durable.crash_after_save (stepWaiting env) Prod.snd
    (fun x e (he : e ≠ .ask .save) => by
      cases e with
      | run i => rfl
      | ask op => cases op <;> first | rfl | exact absurd rfl he)
    (.ask .save) (.ask .reopen) (fun _ => rfl) (fun _ => rfl) before (fun e hmem he => hafter (he ▸ hmem))
    (opened .localRoot w r, .ofSaved a.state.fileMap)
  -- the save is made at rest, and the process does not end during a save
  have hrest := (hes before (.ask .save) ⟨after ++ [.ask .reopen], by simp⟩).1.1
  have hsaving := (hes (before ++ .ask .save :: after) (.ask .reopen) ⟨[], by simp⟩).1.1
  have hthen := (hall before (List.prefix_append _ _)).finds.live hrest path hpath
  have hnow := (hall (before ++ .ask .save :: after) ⟨[.ask .reopen], by simp⟩).finds.stored
    (by simpa [ready] using hsaving) path hpath
  have hlast : (before ++ Waiting.ask .save :: (after ++ [Waiting.ask .reopen])).foldl (stepWaiting env)
      (opened .localRoot w r, .ofSaved a.state.fileMap) =
      stepWaiting env ((before ++ Waiting.ask .save :: after).foldl (stepWaiting env)
        (opened .localRoot w r, .ofSaved a.state.fileMap)) (.ask .reopen) := by
    rw [← List.cons_append, ← List.append_assoc, List.foldl_append]
    rfl
  have hend := (fst_stepWaiting (before ++ Waiting.ask .save :: (after ++ [Waiting.ask .reopen]))
    (opened .localRoot w r, .ofSaved a.state.fileMap)).symm.trans (congrArg Prod.fst hlast)
  have hdurable := congrArg Durable.volatile hsaved
  rw [hlast] at hdurable
  have hcrash : ((before ++ Waiting.ask .save :: (after ++ [Waiting.ask .reopen])).foldl
      (fun s e => s.step env e.event) (opened .localRoot w r)).Reaches env path
      ((before.foldl (stepWaiting env)
        (opened .localRoot w r, .ofSaved a.state.fileMap)).2.volatile (segments path)) := by
    rw [hend, ← show _ = (before.foldl (stepWaiting env) _).2.volatile from hdurable]
    exact hnow
  rw [fst_stepWaiting] at hthen
  constructor
  · intro h
    rw [h.unique hcrash]
    exact hthen
  · intro h
    rw [h.unique hthen]
    exact hcrash

/-- The files of the two directories are found again; `a` is lost with the crash. -/
theorem waiting_crash_finds_save_twoDirs :
    ((twoDirs.foldl (fun s e => s.step (symbolic xxh3Short) e.event)
        (opened .localRoot Actor.newFs ⟨.new, none, true⟩)).Reaches (symbolic xxh3Short) "f/c"
        (some (.new 3 3)) ↔
      (beforeSave.foldl (fun s e => s.step (symbolic xxh3Short) e.event)
        (opened .localRoot Actor.newFs ⟨.new, none, true⟩)).Reaches (symbolic xxh3Short) "f/c"
        (some (.new 3 3))) ∧
    ∀ q, (twoDirs.foldl (fun s e => s.step (symbolic xxh3Short) e.event)
      (opened .localRoot Actor.newFs ⟨.new, none, true⟩)).Reaches (symbolic xxh3Short) "a" q →
        q = none := by
  have hall := @waiting_crash_finds_save _ (symbolic xxh3Short) _ (symbolic_lawful xxh3Short)
    (fun _ => rfl) _ _ Actor.flatRoot_newRoot ⟨.new, none, true⟩ beforeSave afterSave
    (by simp [afterSave]) admitted_twoDirs
  refine ⟨hall (by unfold Proper; decide +kernel) _, fun q hq => ?_⟩
  have hbefore := (hall (by unfold Proper; decide +kernel) q).1 hq
  exact hbefore.unique ⟨3, by decide +kernel⟩

/-! ## One request after the other -/

/-- The requests of a run. -/
def asked (es : List Waiting) : List Actor.FsOp :=
  es.filterMap fun e => match e with
    | .ask op => some op
    | .run _ => none

/-- Maps that differ in their tombstones at most. -/
def SameLive (m m' : FileMap) : Prop := ∀ segs, Actor.live (m segs) = Actor.live (m' segs)

theorem SameLive.execute {m m' : FileMap} (h : SameLive m m') (now now' : UInt32 × UInt32)
    (op : List String × FileTask) : SameLive (m.execute now op) (m'.execute now' op) := by
  obtain ⟨segs, task⟩ := op
  intro x
  unfold FileMap.execute
  by_cases hx : x = segs
  · rw [hx, Function.update_self, Function.update_self]
    cases task with
    | put file => rfl
    | get => exact h segs
    | delete =>
      have hdeleted : ∀ (now : UInt32 × UInt32) (q : Option FileRef),
          Actor.live (FileTask.delete.execute now q) = none := by
        intro now q
        cases q <;> rfl
      rw [hdeleted, hdeleted]
  · rw [Function.update_of_ne hx, Function.update_of_ne hx]
    exact h x

/-- Whenever the requests are made, the live files are the same. -/
theorem sameLive_run {order : GroupOrder} (es : List Waiting) (x : System β × Durable FileMap)
    (y : (World β × Actor) × Durable FileMap) (hv : SameLive x.2.volatile y.2.volatile)
    (hd : SameLive x.2.durable y.2.durable) :
    SameLive (es.foldl (stepWaiting env) x).2.volatile
      ((asked es).foldl (Actor.stepSession env order) y).2.volatile := by
  induction es generalizing x y with
  | nil => exact hv
  | cons e es ih =>
    cases e with
    | run i => exact ih _ _ hv hd
    | ask op =>
      refine ih (stepWaiting env x (.ask op)) (Actor.stepSession env order y op) ?_ ?_
      · cases op with
        | file path task => exact hv.execute _ _ _
        | createDir path enableEncryption => exact hv
        | save => exact hv
        | reopen => exact hd
      · cases op with
        | file path task => exact hd
        | createDir path enableEncryption => exact hd
        | save => exact hv
        | reopen => exact hd

/-- **The order of the turns does not show**: at rest, a client that waits finds the files that it would
find if every request were handled with all that it sets off before the next turn. -/
theorem waiting_refines_session (law : env.Lawful) (hstore : ∀ n, env.storeFails n = false)
    {order : GroupOrder} (horder : ∀ t d groups, (order t d groups).Perm groups) {w : World β}
    {a : Actor} (hroot : FlatRoot env w a) {r : LocalRoot} {es : List Waiting}
    (hes : Run.Steps (stepWaiting env) (Admitted env)
      (opened .localRoot w r, .ofSaved a.state.fileMap) es)
    (hops : Run.Steps (Actor.stepSession env order) (Actor.Admitted env order)
      ((w, a), .ofSaved a.state.fileMap) (asked es))
    (hrest : (es.foldl (stepWaiting env) (opened .localRoot w r, .ofSaved a.state.fileMap)).1.atRest =
      true)
    {path : String} (hpath : Proper (segments path)) :
    ∃ q q', (es.foldl (fun s e => s.step env e.event) (opened .localRoot w r)).Reaches env path q ∧
      Actor.Finds env ((asked es).foldl (Actor.stepFs env order) (w, a)) path q' ∧
      Actor.live q = Actor.live q' := by
  have hsystem := (waiting_serves law hstore hroot hes _ List.prefix_rfl).finds.live hrest path hpath
  have hsession :=
    (Actor.session_refines_map law hstore horder hroot hops _ List.prefix_rfl).live path hpath
  rw [fst_stepWaiting] at hsystem
  rw [Actor.fst_stepSession] at hsession
  refine ⟨_, _, hsystem, hsession, ?_⟩
  exact sameLive_run es _ _ (fun _ => rfl) (fun _ => rfl) _

end System

end Fs
