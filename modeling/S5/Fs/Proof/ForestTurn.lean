import S5.Fs.Waiting
import S5.Fs.Proof.Forest
import S5.Fs.Proof.Dirty

/-!
# What turns do to the open directories

A turn of an actor of a file system, with what it sends, keeps the open directories holding their files
(`System.Stands`).
-/

open Std

namespace Fs

open Actor (Encodable childContext Kept spawn Tree Node)

/-! ## Writing a directory -/

section
variable {β : Type} [DecidableEq β] {env : Env β} {ι : Type}

/-- **The root that is written** is found again in the root file. -/
theorem persist_root (law : env.Lawful) (hstore : ∀ n, env.storeFails n = false) (w : World β)
    (d : DirV1) : ∃ w', persist env (.localRoot : DirContext ι) d w = (w', .ok (.localRoot, none)) ∧
      w.Grows w' ∧ w'.rootFile = some (env.toBytes d) ∧
      ∃ len, load env (.localRoot : DirContext ι) w' = .ok (d, len) := by
  have himp : (w.importBytes env (env.toBytes d)).2 = .ok (env.blake3 (env.toBytes d)) := by
    unfold World.importBytes
    simp only [hstore, Bool.false_eq_true, if_false]
    split <;> rfl
  have hg := World.grows_importBytes env w (env.toBytes d)
  refine ⟨{ (w.importBytes env (env.toBytes d)).1 with rootFile := some (env.toBytes d) }, ?_,
    ⟨hg.store, hg.registry, hg.collided⟩, rfl, env.len (env.toBytes d), ?_⟩
  · have henc : encodeStateBytes env (.localRoot : DirContext ι) d w = (w, .ok (env.toBytes d)) := rfl
    unfold persist
    rw [henc]
    dsimp only
    generalize w.importBytes env (env.toBytes d) = r at himp
    obtain ⟨w', e | h⟩ := r
    · cases himp
    · rfl
  · simp only [load, DirContext.localRoot, decodeDir, law.fromBytes_toBytes]

end

/-! ## What a turn sends -/

namespace Turn

/-- What an actor that becomes dirty sends. -/
def note (a : DirActor) : List Output :=
  match a.dirty, a.context.link with
  | false, .dirHandle _ parent _ _ => [.notifyParent parent .markAsDirty]
  | _, _ => []

theorem markAsDirty_out {β : Type} (t : Turn β) : t.markAsDirty.out = t.out ++ note t.actor := by
  unfold markAsDirty note
  cases t.actor.dirty with
  | true => exact (List.append_nil _).symm
  | false => cases t.actor.context.link <;> first | rfl | exact (List.append_nil _).symm

variable {β : Type} [DecidableEq β] {env : Env β} {t : Turn β}

/-- An idle actor handles its next message. -/
theorem run_message {msg : ActorMessage} {rest : List ActorMessage} (hp : t.actor.phase = .idle)
    (hm : t.actor.mailbox = msg :: rest) : t.run env = (t.take rest).processMsg env msg := by
  unfold run
  split
  case h_2 =>
    split
    · rename_i hm'
      rw [hm] at hm'
      cases hm'
    · rename_i hm'
      rw [hm] at hm'
      obtain ⟨rfl, rfl⟩ := List.cons.inj hm'
      rfl
  all_goals
    rename_i hp'
    rw [hp] at hp'
    cases hp'

omit [DecidableEq β] in
/-- A child by its hash is opened. -/
theorem openDir_closed {name : String} {ref : DirRef} (hnone : t.actor.dirHandles[name]? = none)
    (href : t.actor.state.dirs[name]? = some ref) (ht : ref.refTypeD = .blake3Hash)
    (initial : Option DirV1) : t.openDir name initial =
      ({ t.spawn (t.actor.context.withNewRef ref (.dirHandle (.path name) t.self ref.hash 0)) initial with
          actor.dirHandles := t.actor.dirHandles.insert name t.fresh }, .ok t.fresh) := by
  unfold openDir
  simp only [hnone, href, ht, dirLink]

/-- A new child is made with the files below it, or with what promotion makes of them. -/
def adopt (t : Turn β) (w : World β) (name : String) (ref : DirRef) (d : DirV1) : Turn β :=
  { t.spawn (t.actor.context.withNewRef ref (.dirHandle (.path name) t.self ref.hash 0)) (some d) with
    world := w
    actor.state := { (extractChildDirState t.actor.state name).1 with
      dirs := t.actor.state.dirs.insert name ref }
    actor.dirHandles := t.actor.dirHandles.insert name t.fresh }

omit [DecidableEq β] in
theorem openDir_adopt {name : String} {ref : DirRef} (hnone : t.actor.dirHandles[name]? = none)
    (ht : ref.refTypeD = .blake3Hash) (w : World β) (d : DirV1) :
    openDir { t with
        world := w
        actor.state := { (extractChildDirState t.actor.state name).1 with
          dirs := (extractChildDirState t.actor.state name).1.dirs.insert name ref } } name (some d) =
      (t.adopt w name ref d, .ok t.fresh) := by
  unfold openDir
  simp only [hnone, ExtTreeMap.getElem?_insert_self, ht, dirLink]
  rfl

omit [DecidableEq β] in
theorem createDirAt_eq {path : String} (hnew : path ∉ t.actor.state.dirs)
    (hnone : t.actor.dirHandles[path]? = none) (enableEncryption : Bool) {w : World β} {ref : DirRef}
    (hb : buildChildDirRef env t.actor.context enableEncryption t.world = (w, ref))
    (ht : ref.refTypeD = .blake3Hash) : t.createDirAt env path enableEncryption =
      ((t.adopt w path ref (extractChildDirState t.actor.state path).2).markAsDirty, .ok ()) := by
  unfold createDirAt
  rw [if_neg hnew]
  simp only [hb]
  rw [openDir_adopt hnone ht]

theorem promotePrefix_eq {dir : String} (hnew : dir ∉ t.actor.state.dirs)
    (hnone : t.actor.dirHandles[dir]? = none) {w w' : World β} {ref : DirRef} {d : DirV1}
    (hb : buildChildDirRef env t.actor.context t.actor.context.encryptionType.isSome t.world = (w, ref))
    (ht : ref.refTypeD = .blake3Hash)
    (hopt : optimizeDirStructure env t.actor.context (extractChildDirState t.actor.state dir).2 w =
      (w', .ok d)) : t.promotePrefix env dir = (t.adopt w' dir ref d, .ok ()) := by
  unfold promotePrefix
  rw [if_neg hnew]
  simp only [hb, hopt]
  rw [openDir_adopt hnone ht]

end Turn

namespace System

variable {β : Type} {env : Env β} {s s' : System β} {t : Turn β} {place : ActorId → List String}
  {m : FileMap} {i j p : ActorId} {a b c : DirActor}

theorem lt_of_forest (ha : s.forest i = some a) : i < s.actors.length :=
  (List.getElem?_eq_some_iff.1 ha).1

theorem forest_length (s : System β) : s.forest s.actors.length = none :=
  List.getElem?_eq_none (Nat.le_refl _)

theorem forest_modify (s : System β) (i : ActorId) (f : DirActor → DirActor) (ha : s.forest i = some a) :
    (s.modify i f).forest = Function.update s.forest i (some (f a)) := by
  funext j
  have ha' : s.actors[i]? = some a := ha
  show (s.actors.modify i f)[j]? = _
  rw [List.getElem?_modify, Function.update_apply]
  by_cases hj : j = i
  · subst hj
    simp [ha']
  · simp only [if_neg hj, if_neg (Ne.symm hj)]
    exact id_map s.actors[j]?

/-- What a turn leaves before its outputs have gone out. -/
theorem forest_settle (ha : s.forest i = some a) (hself : t.self = i) (hspawned : t.spawned = []) :
    (s.settle t).forest = Function.update s.forest i (some t.actor) := by
  funext j
  show (s.actors.set t.self t.actor ++ t.spawned)[j]? = _
  rw [hself, hspawned, List.append_nil, List.getElem?_set, Function.update_apply]
  by_cases hj : j = i
  · rw [if_pos hj.symm, if_pos hj, if_pos (lt_of_forest ha)]
  · rw [if_neg fun he => hj he.symm, if_neg hj]
    rfl

theorem forest_settle_spawned (ha : s.forest i = some a) (hself : t.self = i)
    (hspawned : t.spawned = [c]) : (s.settle t).forest =
      Function.update (Function.update s.forest i (some t.actor)) s.actors.length (some c) := by
  funext j
  show (s.actors.set t.self t.actor ++ t.spawned)[j]? = _
  rw [hself, hspawned, Function.update_apply, Function.update_apply]
  by_cases hj : j < s.actors.length
  · rw [List.getElem?_append_left (by rwa [List.length_set]), List.getElem?_set,
      if_neg (Nat.ne_of_lt hj)]
    by_cases hji : j = i
    · rw [if_pos hji.symm, if_pos hji, if_pos (lt_of_forest ha)]
    · rw [if_neg fun he => hji he.symm, if_neg hji]
      rfl
  · have hji : j ≠ i := fun he => hj (he ▸ lt_of_forest ha)
    have hle : s.actors.length ≤ j := Nat.le_of_not_lt hj
    rw [List.getElem?_append_right (by rwa [List.length_set]), List.length_set, if_neg hji]
    by_cases hl : j = s.actors.length
    · rw [if_pos hl, hl, Nat.sub_self]
      rfl
    · have hlt : s.actors.length < j := Nat.lt_of_le_of_ne hle (Ne.symm hl)
      rw [if_neg hl]
      show [c][j - s.actors.length]? = s.actors[j]?
      rw [List.getElem?_eq_none (Nat.sub_pos_of_lt hlt), List.getElem?_eq_none hle]

/-- A parent is held, whatever its child does. -/
theorem held_parent (h : Stands env s.world s.forest place m) (hclient : ([], rootId) ∈ s'.clientHandles)
    (hp : s.forest p = some b) (hpi : p < i)
    (hsame : ∀ (q : ActorId) c, q ≠ i → s.forest q = some c → s'.forest q = some c) :
    s'.held p = true := by
  rw [held_iff]
  by_cases hr : p = rootId
  · exact .inl ⟨_, hclient, hr.symm⟩
  · obtain ⟨q, c, n, hc, hn⟩ := h.parent p b hp hr
    have hqp := (h.child q c n p hc hn).1
    have hc' := hsame q c (Nat.ne_of_lt (Nat.lt_trans hqp hpi)) hc
    exact .inr (.inr ⟨q, c, hc', (h.opened q c hc).not_stopped, .path n, hn⟩)

theorem closed_eq_false (ha : s.forest i = some a) (hrun : isStopped a = false) : s.closed i = false := by
  have ha' : s.actors[i]? = some a := ha
  unfold closed
  rw [ha']
  exact hrun

theorem emit_send (h : s.closed j = false) (msg : ActorMessage) :
    s.emit (.send j msg) = s.enqueue j msg := by
  simp only [emit, h, Bool.false_eq_true, if_false]

/-- A child reaches its parent. -/
theorem emit_notifyParent (h : Stands env s.world s.forest place m) (hp : s.forest p = some b)
    (hpi : p < i) (hsame : ∀ (q : ActorId) c, q ≠ i → s.forest q = some c → s'.forest q = some c)
    (hclient : ([], rootId) ∈ s'.clientHandles) (msg : ActorMessage) :
    s'.emit (.notifyParent p msg) = s'.enqueue p msg := by
  have hheld := held_parent h hclient hp hpi hsame
  have hclosed : s'.closed p = false :=
    closed_eq_false (hsame p b (Nat.ne_of_lt hpi) hp) (h.opened p b hp).not_stopped
  simp only [emit, hheld, hclosed, Bool.not_false, Bool.and_self, if_true]

/-- How the actors look to a turn that makes its actor dirty: the parent is going to hear of it. -/
structure Notes (env : Env β) (w : World β) (place : ActorId → List String) (m : FileMap) (F F' : Forest)
    (i : ActorId) (a : DirActor) : Prop where
  holds : Stands env w F' place m
  here : F' i = some a
  noted : a.dirty = true ∨ Stands.Noted F' i
  heard : ∀ (j : ActorId) c', F' j = some c' → ∃ c, F j = some c ∧
    (c' = c ∨ c' = { c with mailbox := c.mailbox ++ [.markAsDirty] })

theorem note_cases (h : Stands env s.world s.forest place m) (ha : s.forest i = some a) :
    (Turn.note a = [] ∧ (a.dirty = true ∨ Stands.Noted s.forest i)) ∨
      ∃ p b, p < i ∧ s.forest p = some b ∧ Turn.note a = [.notifyParent p .markAsDirty] ∧
        ∀ (q : ActorId) c (n : String), s.forest q = some c → c.dirHandles[n]? = some i → q = p := by
  by_cases hi : i = rootId
  · left
    subst hi
    obtain ⟨r, hr, hctx, -⟩ := h.root
    obtain rfl := Option.some.inj (ha.symm.trans hr)
    refine ⟨?_, .inr fun q c n hc hn => absurd (h.child q c n rootId hc hn).1 (Nat.not_lt_zero q)⟩
    unfold Turn.note
    rw [hctx]
    cases a.dirty <;> rfl
  · obtain ⟨p, b, n, hb, hn⟩ := h.parent i a ha hi
    obtain ⟨hlt, -, c, hc, hh⟩ := h.child p b n i hb hn
    obtain rfl := Option.some.inj (ha.symm.trans hc)
    obtain ⟨ref, k, -, hctx, -⟩ := hh.linked
    have hlink : a.context.link = .dirHandle (.path n) p k 0 := by rw [hctx]; rfl
    unfold Turn.note
    rw [hlink]
    cases hd : a.dirty with
    | true => exact .inl ⟨rfl, .inl rfl⟩
    | false =>
      exact .inr ⟨p, b, hlt, hb, rfl, fun q c n' hc hn' => (h.handle_unique hc hn' hb hn).1⟩

/-- The end of a turn that sends a message to an actor that is running. -/
theorem commit_send {msg : ActorMessage} (hout : t.out = [.send j msg])
    (hc : (s.settle t).forest j = some c) (hrun : isStopped c = false) :
    (s.commit t).clientHandles = s.clientHandles ∧
      (s.commit t).forest = Function.update (s.settle t).forest j
        (some { c with mailbox := c.mailbox ++ [msg] }) := by
  have hcommit : s.commit t = (s.settle t).enqueue j msg := by
    unfold commit
    rw [hout, List.foldl_cons, List.foldl_nil, emit_send (closed_eq_false hc hrun)]
  rw [hcommit]
  exact ⟨rfl, forest_modify _ j _ hc⟩

/-- The end of a turn that tells the parent something. -/
theorem commit_notifyParent {msg : ActorMessage} (h : Stands env s.world s.forest place m)
    (hclient : ([], rootId) ∈ s.clientHandles) (ha : s.forest i = some a) (hb : s.forest p = some b)
    (hlt : p < i) (hself : t.self = i) (hspawned : t.spawned = []) (hout : t.out = [.notifyParent p msg]) :
    (s.commit t).clientHandles = s.clientHandles ∧
      (s.commit t).forest = Function.update
        (Function.update s.forest p (some { b with mailbox := b.mailbox ++ [msg] })) i (some t.actor) := by
  have hsettle := forest_settle ha hself hspawned
  have hsame : ∀ (q : ActorId) c, q ≠ i → s.forest q = some c → (s.settle t).forest q = some c := by
    intro q c hq hc
    rw [hsettle, Function.update_of_ne hq, hc]
  have hcommit : s.commit t = (s.settle t).enqueue p msg := by
    unfold commit
    rw [hout]
    exact emit_notifyParent h hb hlt hsame hclient _
  rw [hcommit]
  refine ⟨rfl, (forest_modify _ p _ (hsame p b (Nat.ne_of_lt hlt) hb)).trans ?_⟩
  rw [hsettle, Function.update_comm (Nat.ne_of_gt hlt)]

/-- **The end of a turn** whose actor may have become dirty. -/
theorem commit_noted (h : Stands env s.world s.forest place m) (hclient : ([], rootId) ∈ s.clientHandles)
    (ha : s.forest i = some a) (hself : t.self = i)
    (hout : t.out = Turn.note a ∨ ∃ k x, t.out = Turn.note a ++ [.answer k x]) :
    ∃ F', Notes env s.world place m s.forest F' i a ∧
      (s.commit t).clientHandles = s.clientHandles ∧ (s.commit t).world = t.world ∧
      (t.spawned = [] → (s.commit t).forest = Function.update F' i (some t.actor)) ∧
      ∀ c, t.spawned = [c] → (s.commit t).forest =
        Function.update (Function.update F' i (some t.actor)) s.actors.length (some c) := by
  -- an answer is no matter
  have hdone : ∀ x : System β, (Turn.note a).foldl emit (s.settle t) = x →
      (s.commit t).clientHandles = x.clientHandles ∧ (s.commit t).world = x.world ∧
        (s.commit t).forest = x.forest := by
    rintro x rfl
    unfold commit
    rcases hout with hout | ⟨k, y, hout⟩
    · rw [hout]
      exact ⟨rfl, rfl, rfl⟩
    · rw [hout, List.foldl_append]
      exact ⟨rfl, rfl, rfl⟩
  rcases note_cases h ha with ⟨hnote, hnoted⟩ | ⟨p, b, hlt, hb, hnote, honly⟩
  · obtain ⟨hc, hw, hf⟩ := hdone (s.settle t) (by rw [hnote]; rfl)
    refine ⟨s.forest, ⟨h, ha, hnoted, fun j c hc => ⟨c, hc, .inl rfl⟩⟩, hc, hw, fun hsp => ?_,
      fun c hsp => ?_⟩
    · rw [hf, forest_settle ha hself hsp]
    · rw [hf, forest_settle_spawned ha hself hsp]
  · have hpi : p ≠ i := Nat.ne_of_lt hlt
    have hsame : ∀ (q : ActorId) c, q ≠ i → s.forest q = some c → (s.settle t).forest q = some c := by
      intro q c hq hc
      show (s.actors.set t.self t.actor ++ t.spawned)[q]? = some c
      rw [hself, List.getElem?_append_left (by rw [List.length_set]; exact lt_of_forest hc),
        List.getElem?_set_ne (Ne.symm hq)]
      exact hc
    have hemit := emit_notifyParent h hb hlt hsame hclient .markAsDirty
    obtain ⟨hc, hw, hf⟩ := hdone ((s.settle t).enqueue p .markAsDirty) (by rw [hnote]; exact hemit)
    have hheard : (s.commit t).forest = Function.update (s.settle t).forest p
        (some { b with mailbox := b.mailbox ++ [.markAsDirty] }) := by
      rw [hf]
      exact forest_modify _ p _ (hsame p b hpi hb)
    refine ⟨Function.update s.forest p (some { b with mailbox := b.mailbox ++ [.markAsDirty] }),
      ⟨h.hear hb (fun _ _ => by simp), ?_, .inr fun q c n hc hn => ?_, fun j c' hc' => ?_⟩, hc, hw,
      fun hsp => ?_, fun c hsp => ?_⟩
    · rw [Function.update_of_ne (Ne.symm hpi), ha]
    · rcases Forest.update_cases hc with ⟨-, rfl⟩ | ⟨hq, hc⟩
      · exact .inr (List.mem_append_right _ List.mem_cons_self)
      · exact absurd (honly q c n hc hn) hq
    · rcases Forest.update_cases hc' with ⟨hj, rfl⟩ | ⟨-, hc'⟩
      · exact ⟨b, hj ▸ hb, .inr rfl⟩
      · exact ⟨c', hc', .inl rfl⟩
    · rw [hheard, forest_settle ha hself hsp, Function.update_comm hpi]
    · rw [hheard, forest_settle_spawned ha hself hsp,
        Function.update_comm (Nat.ne_of_gt (lt_of_forest hb)), Function.update_comm (Ne.symm hpi)]

/-- Whether a message only reports what has happened to a child. -/
def isNews : ActorMessage → Bool
  | .markAsDirty => true
  | .updateDirRefHash (.path _) _ => true
  | _ => false

/-- After a turn of the actor `i` the actors hold the files of `m`. -/
structure Commits (env : Env β) (s : System β) (t : Turn β) (place : ActorId → List String) (m : FileMap)
    (i : ActorId) : Prop where
  holds : Stands env (s.commit t).world (s.commit t).forest place m
  client : ([], rootId) ∈ (s.commit t).clientHandles
  each : ∀ (j : ActorId) c', (s.commit t).forest j = some c' →
    c' = t.actor ∨ c' ∈ t.spawned ∨ ∃ c, s.forest j = some c ∧ j ≠ i ∧
      (c' = c ∨ ∃ msg, isNews msg = true ∧ c' = { c with mailbox := c.mailbox ++ [msg] })

/-- A turn of the actor `i` after which it is idle, and that changes no file. -/
structure Passes (env : Env β) (s : System β) (t : Turn β) (m : FileMap) (i : ActorId)
    (mailbox : List ActorMessage) : Prop where
  kept : Kept s.world t.world
  commits : t.world.collided = false → ∃ place, Commits env s t place m i
  spawned : ∀ c ∈ t.spawned, ∃ ctx d, c = .new ctx (some d)
  idle : t.actor.phase = .idle
  mailbox : t.actor.mailbox = mailbox

theorem commit_silent (ha : s.forest i = some a) (hself : t.self = i)
    (hout : t.out = [] ∨ ∃ k x, t.out = [.answer k x]) (hspawned : t.spawned = []) :
    (s.commit t).forest = Function.update s.forest i (some t.actor) ∧ (s.commit t).world = t.world ∧
      (s.commit t).clientHandles = s.clientHandles := by
  rw [← forest_settle ha hself hspawned]
  unfold commit
  rcases hout with hout | ⟨k, x, hout⟩
  · rw [hout]
    exact ⟨rfl, rfl, rfl⟩
  · rw [hout]
    exact ⟨rfl, rfl, rfl⟩

/-- A turn that sends no message. -/
theorem commits_quiet {m' : FileMap} (h : Stands env s.world s.forest place m)
    (hclient : ([], rootId) ∈ s.clientHandles) (ha : s.forest i = some a) (hself : t.self = i)
    (hout : t.out = [] ∨ ∃ k x, t.out = [.answer k x]) (hspawned : t.spawned = [])
    (hhandles : t.actor.dirHandles = a.dirHandles) (hctx : t.actor.context = a.context)
    (hopened : Carries env t.world t.actor fun segs => m' (place i ++ segs)) (hg : s.world.Grows t.world)
    (hroot : i ≠ rootId → t.world.rootFile = s.world.rootFile)
    (hothers : ∀ (j : ActorId) c, s.forest j = some c → j ≠ i → ∀ segs, Proper segs →
      (∀ n rest, segs = n :: rest → c.dirHandles[n]? = none) → m' (place j ++ segs) = m (place j ++ segs))
    (hchild : ∀ n c (j : ActorId), a.dirHandles[n]? = some j → Adopted i a n c → Adopted i t.actor n c)
    (hdirty : t.actor.dirty = true → a.dirty = true)
    (hstart : ∀ d, t.actor.phase = .starting d → a.phase = .starting d)
    (hnews : ∀ n k, .updateDirRefHash (.path n) k ∈ t.actor.mailbox →
      .updateDirRefHash (.path n) k ∈ a.mailbox) : Commits env s t place m' i := by
  obtain ⟨hf, hw, hc⟩ := commit_silent ha hself hout hspawned
  refine ⟨?_, by rw [hc]; exact hclient, fun j c' hc' => ?_⟩
  · rw [hf, hw]
    exact h.set ha hhandles hctx hopened hg hroot hothers (fun n c j hn _ => hchild n c j hn)
      (fun hd => .inl (hdirty hd)) hstart hnews
  · rw [hf] at hc'
    rcases Forest.update_cases hc' with ⟨-, rfl⟩ | ⟨hj, hc'⟩
    · exact .inl rfl
    · exact .inr (.inr ⟨c', hc', hj, .inl rfl⟩)

/-- A turn without a new child. -/
theorem commits_marked (h : Stands env s.world s.forest place m)
    (hclient : ([], rootId) ∈ s.clientHandles) (ha : s.forest i = some a) (hself : t.self = i)
    (hout : t.out = Turn.note a ∨ ∃ k x, t.out = Turn.note a ++ [.answer k x])
    (hspawned : t.spawned = []) (hhandles : t.actor.dirHandles = a.dirHandles)
    (hctx : t.actor.context = a.context)
    (hopened : Carries env t.world t.actor fun segs => m (place i ++ segs)) (hkept : Kept s.world t.world)
    (hchild : ∀ n c (j : ActorId), a.dirHandles[n]? = some j → Adopted i a n c → Adopted i t.actor n c)
    (hstart : ∀ d, t.actor.phase = .starting d → a.phase = .starting d)
    (hnews : ∀ n k, .updateDirRefHash (.path n) k ∈ t.actor.mailbox →
      .updateDirRefHash (.path n) k ∈ a.mailbox) : Commits env s t place m i := by
  obtain ⟨F', hnotes, hc, hw, hf, -⟩ := commit_noted h hclient ha hself hout
  have hf := hf hspawned
  refine ⟨?_, by rw [hc]; exact hclient, fun j c' hc' => ?_⟩
  · rw [hf, hw]
    exact hnotes.holds.set hnotes.here hhandles hctx hopened hkept.grows (fun _ => hkept.rootFile)
      (fun _ _ _ _ _ _ _ => rfl) (fun n c j hn _ => hchild n c j hn) (fun _ => hnotes.noted) hstart hnews
  · rw [hf] at hc'
    rcases Forest.update_cases hc' with ⟨-, rfl⟩ | ⟨hj, hc'⟩
    · exact .inl rfl
    · obtain ⟨c, hc, he⟩ := hnotes.heard j c' hc'
      exact .inr (.inr ⟨c, hc, hj, he.imp_right fun he => ⟨_, rfl, he⟩⟩)

/-- A turn with a new child. -/
theorem commits_spawned (h : Stands env s.world s.forest place m)
    (hclient : ([], rootId) ∈ s.clientHandles) (ha : s.forest i = some a) (hself : t.self = i)
    (hout : t.out = Turn.note a ∨ ∃ k x, t.out = Turn.note a ++ [.answer k x]) {n : String}
    (hspawned : t.spawned = [c]) (hnone : a.dirHandles[n]? = none)
    (hhandles : t.actor.dirHandles = a.dirHandles.insert n s.actors.length)
    (hctx : t.actor.context = a.context)
    (hopened : Carries env t.world t.actor fun segs => m (place i ++ segs)) (hkept : Kept s.world t.world)
    (hchild : ∀ x c (j : ActorId), a.dirHandles[x]? = some j → Adopted i a x c → Adopted i t.actor x c)
    (hstart : ∀ d, t.actor.phase = .starting d → a.phase = .starting d)
    (hnews : ∀ n k, .updateDirRefHash (.path n) k ∈ t.actor.mailbox →
      .updateDirRefHash (.path n) k ∈ a.mailbox)
    (hnew : Carries env t.world c fun segs => m (place i ++ n :: segs)) (hadopted : Adopted i t.actor n c)
    (hempty : c.dirHandles = ∅) (hquiet : c.mailbox = []) :
    ∃ place, Commits env s t place m i := by
  obtain ⟨F', hnotes, hc, hw, -, hf⟩ := commit_noted h hclient ha hself hout
  have hf := hf c hspawned
  have hfresh : F' s.actors.length = none := by
    cases hF : F' s.actors.length with
    | none => rfl
    | some c' =>
      obtain ⟨c0, hc0, -⟩ := hnotes.heard _ c' hF
      rw [forest_length] at hc0
      cases hc0
  refine ⟨Function.update place s.actors.length (place i ++ [n]), ?_, by rw [hc]; exact hclient,
    fun j c' hc' => ?_⟩
  · rw [hf, hw]
    refine hnotes.holds.spawn hnotes.here hfresh (lt_of_forest ha) hnone (fun x => ?_) hctx hopened hkept
      hchild (fun _ => hnotes.noted) hstart hnews hnew hadopted hempty hquiet
    rw [hhandles, ExtTreeMap.getElem?_insert_ite]
  · rw [hf] at hc'
    rcases Forest.update_cases hc' with ⟨-, rfl⟩ | ⟨-, hc'⟩
    · rw [hspawned]
      exact .inr (.inl List.mem_cons_self)
    rcases Forest.update_cases hc' with ⟨-, rfl⟩ | ⟨hj, hc'⟩
    · exact .inl rfl
    · obtain ⟨c, hc, he⟩ := hnotes.heard j c' hc'
      exact .inr (.inr ⟨c, hc, hj, he.imp_right fun he => ⟨_, rfl, he⟩⟩)

/-! ## Messages about children -/

/-- An idle actor that becomes dirty, with its children. -/
theorem adopted_marked {n : String} (h : Adopted i a n c) (hp : a.phase = .idle)
    (hctx : b.context = a.context) (hdirs : b.state.dirs[n]? = a.state.dirs[n]?) (hd : b.dirty = true)
    (hmail : ∀ k, .updateDirRefHash (.path n) k ∈ b.mailbox ↔ .updateDirRefHash (.path n) k ∈ a.mailbox) :
    Adopted i b n c := by
  refine h.mono hctx hdirs (fun _ => hd) (fun _ => .inl hd) (fun k hk => ?_) fun k => (hmail k).1
  rcases hk with hk | ⟨replies, responder, hs, -⟩
  · exact .inl ((hmail k).2 hk)
  · rw [hp] at hs
    cases hs

variable [DecidableEq β] {rest : List ActorMessage}

theorem run_message {msg : ActorMessage} (hp : a.phase = .idle) (hm : a.mailbox = msg :: rest) :
    (s.turn i a).run env = ((s.turn i a).take rest).processMsg env msg :=
  @Turn.run_message β _ env (s.turn i a) msg rest hp hm

theorem passes_markAsDirty (h : Stands env s.world s.forest place m)
    (hclient : ([], rootId) ∈ s.clientHandles) (ha : s.forest i = some a) (hp : a.phase = .idle)
    (hm : a.mailbox = .markAsDirty :: rest) : Passes env s ((s.turn i a).run env) m i rest := by
  have hrun : (s.turn i a).run env = ((s.turn i a).take rest).markAsDirty := run_message hp hm
  rw [hrun]
  have hidle : a.phase.isRunning = true := by rw [hp]; rfl
  obtain ⟨hshards, hdir⟩ := (h.opened i a ha).dir hidle
  have hmail : ∀ n k,
      .updateDirRefHash (.path n) k ∈ rest ↔ .updateDirRefHash (.path n) k ∈ a.mailbox := by
    intro n k
    simp [hm]
  have hcommits : Commits env s ((s.turn i a).take rest).markAsDirty place m i :=
    commits_marked h hclient ha rfl (.inl (Turn.markAsDirty_out _)) rfl rfl rfl
      (.changed hidle hshards hdir rfl) (.refl _)
      (fun n c _ _ hc => adopted_marked hc hp rfl rfl rfl (hmail n)) (fun _ => id)
      fun n k => (hmail n k).1
  exact ⟨.refl _, fun _ => ⟨place, hcommits⟩, List.forall_mem_nil _, hp, rfl⟩

/-- A child has told the hash under which it has been saved first. -/
theorem passes_updateDirRefHash {n : String} {k : Hash} (h : Stands env s.world s.forest place m)
    (hclient : ([], rootId) ∈ s.clientHandles) (ha : s.forest i = some a) (hp : a.phase = .idle)
    (hm : a.mailbox = .updateDirRefHash (.path n) k :: rest) :
    Passes env s ((s.turn i a).run env) m i rest := by
  have hrun : (s.turn i a).run env =
      ((s.turn i a).take rest).processMsg env (.updateDirRefHash (.path n) k) := run_message hp hm
  have hidle : a.phase.isRunning = true := by rw [hp]; rfl
  have hcarries := h.opened i a ha
  obtain ⟨hshards, hdir⟩ := hcarries.dir hidle
  have hhead : .updateDirRefHash (.path n) k ∈ a.mailbox := by simp [hm]
  obtain ⟨j, hj⟩ := h.news i a n k ha hhead
  obtain ⟨-, -, c, -, hadopted⟩ := h.child i a n j ha hj
  obtain ⟨ref, l, href, -, -, honly⟩ := hadopted.linked
  obtain rfl := honly k hhead
  have hrest : ∀ x l,
      .updateDirRefHash (.path x) l ∈ rest → .updateDirRefHash (.path x) l ∈ a.mailbox := by
    intro x l hx
    rw [hm]
    exact List.mem_cons_of_mem _ hx
  have hothers : ∀ x l, x ≠ n → .updateDirRefHash (.path x) l ∈ a.mailbox →
      .updateDirRefHash (.path x) l ∈ rest := by
    intro x l hx hmem
    rw [hm] at hmem
    refine (List.mem_cons.1 hmem).resolve_left fun he => hx ?_
    exact DirHandlePath.path.inj (ActorMessage.updateDirRefHash.inj he).1
  -- what the other children have told is not forgotten
  have htold : ∀ x l, x ≠ n → Told a x l → .updateDirRefHash (.path x) l ∈ rest := by
    rintro x l hx (ht | ⟨replies, responder, hs, -⟩)
    · exact hothers x l hx ht
    · rw [hp] at hs
      cases hs
  have hat : a.state.dirs[n]? = some ref := href
  -- the reference has the hash now
  have hchild : ∀ {b : DirActor}, b.context = a.context → b.mailbox = rest →
      (a.dirty = true → b.dirty = true) →
      (∀ x : String, b.state.dirs[x]? = if x = n then some { ref with hash := k } else a.state.dirs[x]?) →
      ∀ x c (j : ActorId), a.dirHandles[x]? = some j → Adopted i a x c → Adopted i b x c := by
    intro b hbctx hmail hd hdirs x c _ _ hx
    have hmark : .markAsDirty ∈ a.mailbox → b.dirty = true ∨ .markAsDirty ∈ b.mailbox := by
      intro hmem
      rw [hm] at hmem
      rw [hmail]
      exact .inr ((List.mem_cons.1 hmem).resolve_left fun he => ActorMessage.noConfusion he)
    by_cases hxn : x = n
    · subst hxn
      obtain ⟨ref', l, href', hctx', -, honly'⟩ := hx.linked
      obtain rfl := Option.some.inj (href.symm.trans href')
      obtain rfl := honly' k hhead
      refine ⟨⟨{ ref with hash := k }, k, by rw [hdirs, if_pos rfl], ?_, .inl rfl,
        fun l hl => honly' l (hrest x l (hmail ▸ hl))⟩, fun hcd => ?_,
        fun d hs l hl => hx.unheard d hs l (hrest x l (hmail ▸ hl))⟩
      · rw [hctx', hbctx]
        rfl
      · exact (hx.dirty hcd).elim (fun had => .inl (hd had)) hmark
    · refine hx.mono hbctx (by rw [hdirs, if_neg hxn]) hd hmark (fun l hl => .inl ?_) fun l hl => ?_
      · rw [hmail]
        exact htold x l hxn hl
      · exact hrest x l (hmail ▸ hl)
  by_cases hsame : ref.hash = k
  · -- the hash is known
    have hnone : Turn.updateHash ((s.turn i a).take rest).actor (.path n) k = none := by
      show Turn.updateHash { a with mailbox := rest } (.path n) k = none
      simp only [Turn.updateHash, hat, if_pos hsame]
    unfold Turn.processMsg at hrun
    simp only [hnone] at hrun
    rw [hrun]
    refine ⟨.refl _, fun _ => ⟨place, ?_⟩, List.forall_mem_nil _, hp, rfl⟩
    refine commits_quiet h hclient ha rfl (.inl rfl) rfl rfl rfl (hcarries.hear rest) (.refl _)
      (fun _ => rfl) (fun _ _ _ _ _ _ _ => rfl) (hchild rfl rfl id fun x => ?_) id (fun _ => id) hrest
    show a.state.dirs[x]? = _
    split
    · rename_i hx
      subst hsame
      rw [hx, href]
    · rfl
  · have hsome : Turn.updateHash ((s.turn i a).take rest).actor (.path n) k =
        some { a with mailbox := rest, state.dirs := a.state.dirs.insert n { ref with hash := k } } := by
      show Turn.updateHash { a with mailbox := rest } (.path n) k = _
      simp only [Turn.updateHash, hat, if_neg hsame]
    unfold Turn.processMsg at hrun
    simp only [hsome] at hrun
    rw [hrun]
    refine ⟨.refl _, fun _ => ⟨place, ?_⟩, List.forall_mem_nil _, hp, rfl⟩
    exact commits_marked h hclient ha rfl (.inl (Turn.markAsDirty_out _)) rfl rfl rfl
      (.changed hidle hshards (hdir.rehash href hj k) rfl) (.refl _)
      (hchild rfl rfl (fun _ => rfl) fun x => ExtTreeMap.getElem?_insert_ite ..) (fun _ => id) hrest

/-! ## First turns -/

theorem run_starting {initial : Option DirV1} (hp : a.phase = .starting initial) :
    (s.turn i a).run env = (s.turn i a).start env initial := by
  have hp' : (s.turn i a).actor.phase = .starting initial := hp
  unfold Turn.run
  split
  case h_1 =>
    rename_i hp''
    rw [hp'] at hp''
    rw [Phase.starting.inj hp'']
  all_goals
    rename_i hp''
    rw [hp'] at hp''
    cases hp''

/-- An actor has read its directory. -/
structure Wakes (a a' : DirActor) : Prop where
  phase : a'.phase = .idle
  mailbox : a'.mailbox = a.mailbox
  dirty : a'.dirty = a.dirty
  context : a'.context = a.context
  dirHandles : a'.dirHandles = a.dirHandles

/-- **An actor reads its directory.** -/
theorem run_starting_none (h : Stands env s.world s.forest place m) (ha : s.forest i = some a)
    (hp : a.phase = .starting none) : ∃ a', (s.turn i a).run env = { s.turn i a with actor := a' } ∧
      Wakes a a' ∧ Stands env s.world (Function.update s.forest i (some a')) place m := by
  have hcarries := h.opened i a ha
  cases hcarries with
  | unsaved phase =>
    rw [hp] at phase
    cases phase
  | running phase =>
    rw [hp] at phase
    cases phase
  | unread phase dirty handles shards shelved =>
    obtain ⟨d, len, hload, hdir⟩ := shelved.opened
    rw [load_erase] at hload
    have hload' : load env (s.turn i a).actor.context (s.turn i a).world = .ok (d, len) := hload
    refine ⟨{ a with
      state := d
      lastSerializedLen := len
      currentHash := (s.turn i a).storedHash env
      phase := .idle }, ?_, ⟨rfl, rfl, rfl, rfl, rfl⟩, ?_⟩
    · rw [run_starting hp]
      unfold Turn.start
      simp only [hload']
      rfl
    · refine h.set ha rfl rfl (.running rfl shards ?_ fun _ _ => ⟨len, hload⟩) (.refl _) (fun _ => rfl)
        (fun _ _ _ _ _ _ _ => rfl) (fun n c j hj => ?_) .inl nofun fun _ _ => id
      · show Open env s.world a.context.erase d a.dirHandles _
        rw [handles]
        exact hdir
      · rw [handles] at hj
        simp at hj

/-- A child is linked by the hash that it has been saved under. -/
theorem adopted_saved (c : DirActor) {n : String} {k : Hash} (h : Adopted p b n a)
    (hctx : c.context = b.context) (hdirs : c.state.dirs[n]? = b.state.dirs[n]?) (htold : Told c n k)
    (honly : ∀ l, .updateDirRefHash (.path n) l ∈ c.mailbox → l = k) {a' : DirActor}
    (hsaved : a'.context = { a.context with link := .dirHandle (.path n) p k 0 })
    (hdirty : a'.dirty = true → a.dirty = true)
    (hmark : b.dirty = true ∨ .markAsDirty ∈ b.mailbox → c.dirty = true ∨ .markAsDirty ∈ c.mailbox)
    (hphase : ∀ d, a'.phase ≠ .starting d) : Adopted p c n a' := by
  obtain ⟨ref, l, href, hl, -, -⟩ := h.linked
  refine ⟨⟨ref, k, hdirs.trans href, ?_, .inr htold, honly⟩, fun hd => hmark (h.dirty (hdirty hd)),
    fun d hd => absurd hd (hphase d)⟩
  rw [hsaved, hl, hctx]
  rfl

/-- The first turn of a new directory. -/
theorem run_starting_some (law : env.Lawful) (hstore : ∀ n, env.storeFails n = false) {d : DirV1}
    (hp : a.phase = .starting (some d)) {k : Hash} (hlink : a.context.link = .dirHandle (.path n) p k 0)
    (henc : Encodable a.context.erase) : ∃ w' x, (s.turn i a).run env = { s.turn i a with
        world := w'
        actor := { a with
          context := { a.context with link := .dirHandle (.path n) p x 0 }
          state := d
          phase := .idle }
        out := [.notifyParent p (.updateDirRefHash (.path n) x)] } ∧
      Kept s.world w' ∧ (w'.collided = false → ∃ len,
        load env { a.context with link := .dirHandle (.path n) p x 0 } w' = .ok (d, len)) := by
  obtain ⟨w', x, hpersist, hkept, hload⟩ := Actor.persist_child law hstore s.world hlink henc d
  refine ⟨w', x, ?_, hkept, hload⟩
  rw [run_starting hp]
  show (Turn.save env _ true).1 = _
  unfold Turn.save
  have hpersist' : persist env (s.turn i a).actor.context d (s.turn i a).world =
      (w', .ok ({ a.context with link := .dirHandle (.path n) p x 0 }, some x)) := hpersist
  simp only [hpersist']
  rfl

/-- **A new directory saves itself** and tells its parent. -/
theorem passes_starting_some (law : env.Lawful) (hstore : ∀ n, env.storeFails n = false)
    (h : Stands env s.world s.forest place m) (hclient : ([], rootId) ∈ s.clientHandles)
    (ha : s.forest i = some a) {d : DirV1} (hp : a.phase = .starting (some d)) :
    Passes env s ((s.turn i a).run env) m i a.mailbox := by
  have hi : i ≠ rootId := by
    rintro rfl
    obtain ⟨r, hr, -, hrp⟩ := h.root
    obtain rfl := Option.some.inj (ha.symm.trans hr)
    exact hrp d hp
  obtain ⟨p, b, n, hb, hn⟩ := h.parent i a ha hi
  obtain ⟨hlt, -, a0, ha0, hadopted⟩ := h.child p b n i hb hn
  obtain rfl := Option.some.inj (ha.symm.trans ha0)
  obtain ⟨ref, k, href, hctx, -, -⟩ := hadopted.linked
  have hlink : a.context.link = .dirHandle (.path n) p k 0 := by rw [hctx]; rfl
  have hcarries := h.opened i a ha
  cases hcarries with
  | unread phase =>
    rw [hp] at phase
    cases phase
  | running phase =>
    rw [hp] at phase
    cases phase
  | @unsaved d' phase dirty handles shards dir =>
    obtain rfl : d = d' := Option.some.inj (Phase.starting.inj (hp.symm.trans phase))
    obtain ⟨w', x, hrun, hkept, hload⟩ :=
      run_starting_some (s := s) (i := i) law hstore hp hlink dir.encodable
    generalize (s.turn i a).run env = t at hrun ⊢
    have hself : t.self = i := by rw [hrun]; rfl
    have hspawned : t.spawned = [] := by rw [hrun]; rfl
    have hout : t.out = [.notifyParent p (.updateDirRefHash (.path n) x)] := by rw [hrun]
    have hworld : t.world = w' := by rw [hrun]
    have hactor : t.actor = { a with
        context := { a.context with link := .dirHandle (.path n) p x 0 }
        state := d
        phase := .idle } := by rw [hrun]
    have hcontext : t.actor.context = { a.context with link := .dirHandle (.path n) p x 0 } := by
      rw [hactor]
    have hdirty : t.actor.dirty = true → a.dirty = true := by
      rw [hactor]
      exact id
    have hidle : ∀ d, t.actor.phase ≠ .starting d := by
      rw [hactor]
      nofun
    obtain ⟨hclients, hforest⟩ := commit_notifyParent h hclient ha hb hlt hself hspawned hout
    refine ⟨by rw [hworld]; exact hkept, fun hc => ⟨place, ?_⟩, ?_, by rw [hactor], by rw [hactor]⟩
    rotate_left
    · rw [hspawned]
      exact List.forall_mem_nil _
    rw [hworld] at hc
    refine ⟨?_, by rw [hclients]; exact hclient, fun j c' hc' => ?_⟩
    · rw [hforest, commit_world, hworld]
      have hmem : ∀ {y l}, .updateDirRefHash (.path y) l ∈
          b.mailbox ++ [.updateDirRefHash (.path n) x] →
          y = n ∧ l = x ∨ .updateDirRefHash (.path y) l ∈ b.mailbox := by
        intro y l hy
        rcases List.mem_append.1 hy with hy | hy
        · exact .inr hy
        · obtain ⟨he, hl⟩ := ActorMessage.updateDirRefHash.inj (List.mem_singleton.1 hy)
          exact .inl ⟨DirHandlePath.path.inj he, hl⟩
      refine h.saved ha hb hn (by rw [hactor]) rfl rfl id (fun _ => id) ?_
        (((h.opened p b hb).grown hkept.grows fun _ => hkept.rootFile).hear _) hkept
        (fun y c j hj _ => ?_) ?_
        (fun y c hy hh => hh.mono rfl rfl id (fun hm => .inr (List.mem_append_left _ hm))
          (fun l hl => hl.imp_left (List.mem_append_left _))
          fun l hl => (hmem hl).resolve_left fun he => hy he.1) (fun y l hy => by rwa [hactor] at hy)
        fun y l hy => (hmem hy).imp_left And.left
      · rw [hactor]
        refine .running rfl shards ?_ fun _ _ => hload hc
        show Open env w' _ d a.dirHandles _
        rw [handles]
        exact (dir.grown hkept.grows).of_context rfl rfl rfl
      · rw [handles] at hj
        simp at hj
      · refine adopted_saved { b with mailbox := b.mailbox ++ [.updateDirRefHash (.path n) x] } hadopted
          rfl rfl (.inl (List.mem_append_right _ List.mem_cons_self))
          (fun l hl => ?_) hcontext hdirty (Or.imp_right (List.mem_append_left _)) hidle
        rcases hmem hl with ⟨-, rfl⟩ | hl
        · rfl
        · exact absurd hl (hadopted.unheard _ hp l)
    · rw [hforest] at hc'
      rcases Forest.update_cases hc' with ⟨-, rfl⟩ | ⟨hj, hc'⟩
      · exact .inl rfl
      refine .inr (.inr ?_)
      rcases Forest.update_cases hc' with ⟨hjp, rfl⟩ | ⟨-, hc'⟩
      · exact ⟨b, hjp ▸ hb, hj, .inr ⟨_, rfl, rfl⟩⟩
      · exact ⟨c', hc', hj, .inl rfl⟩

/-! ## New directories -/

omit [DecidableEq β] in
/-- **A directory makes a child** and gives it the files below. -/
theorem commits_newDir (h : Stands env s.world s.forest place m)
    (hclient : ([], rootId) ∈ s.clientHandles) (ha : s.forest i = some a)
    (hrun : a.phase.isRunning = true) (hsaving : ∀ replies responder, a.phase ≠ .saving replies responder)
    {n : String} (hn : n ≠ "" ∧ '/' ∉ n.toList) (hnew : n ∉ a.state.dirs) {ref : DirRef}
    (htype : ref.refTypeD = .blake3Hash) {d : DirV1} (hself : t.self = i)
    (hout : t.out = Turn.note a ∨ ∃ k x, t.out = Turn.note a ++ [.answer k x])
    (hspawned : t.spawned =
      [.new (a.context.withNewRef ref (.dirHandle (.path n) i ref.hash 0)) (some d)])
    (hstate : t.actor.state =
      { (extractChildDirState a.state n).1 with dirs := a.state.dirs.insert n ref })
    (hhandles : t.actor.dirHandles = a.dirHandles.insert n s.actors.length)
    (hshards : t.actor.dirShardHandles = a.dirShardHandles) (hctx : t.actor.context = a.context)
    (hdirty : t.actor.dirty = true) (hphase : t.actor.phase = .idle)
    (hmail : ∀ x k, .updateDirRefHash (.path x) k ∈ t.actor.mailbox ↔
      .updateDirRefHash (.path x) k ∈ a.mailbox)
    (hmark : .markAsDirty ∈ a.mailbox → t.actor.dirty = true ∨ .markAsDirty ∈ t.actor.mailbox)
    (hkept : Kept s.world t.world)
    (hbelow : Open env t.world (childContext a.context.erase n ref) d ∅
      fun segs => m (place i ++ n :: segs)) : ∃ place, Commits env s t place m i := by
  obtain ⟨hnoshards, hdir⟩ := (h.opened i a ha).dir hrun
  have hnone : a.dirHandles[n]? = none := by
    cases hj : a.dirHandles[n]? with
    | none => rfl
    | some j => exact absurd (hdir.held n j hj) hnew
  have hquiet : ∀ k, .updateDirRefHash (.path n) k ∉ a.mailbox := by
    intro k hk
    obtain ⟨j, hj⟩ := h.news i a n k ha hk
    rw [hnone] at hj
    cases hj
  have hdirs : ∀ x : String, t.actor.state.dirs[x]? = if x = n then some ref else a.state.dirs[x]? := by
    intro x
    rw [hstate]
    exact ExtTreeMap.getElem?_insert_ite ..
  refine commits_spawned h hclient ha hself hout hspawned hnone hhandles hctx ?_ hkept
    (fun x c j hj hc => ?_) (fun d hd => by rw [hphase] at hd; cases hd) (fun x k => (hmail x k).1)
    (.unsaved rfl rfl rfl rfl hbelow) ?_ rfl rfl
  · refine .changed (by rw [hphase]; rfl) (hshards.trans hnoshards) ?_ hdirty
    rw [hctx, hstate, hhandles]
    exact (hdir.grown hkept.grows).newChild hn hnew htype _
  · have hx : x ≠ n := by
      rintro rfl
      rw [hnone] at hj
      cases hj
    refine hc.mono hctx (by rw [hdirs, if_neg hx]) (fun _ => hdirty) hmark (fun k hk => ?_)
      fun k => (hmail x k).1
    rcases hk with hk | ⟨replies, responder, hs, -⟩
    · exact .inl ((hmail x k).2 hk)
    · exact absurd hs (hsaving replies responder)
  · refine ⟨⟨ref, ref.hash, by rw [hdirs, if_pos rfl], by rw [hctx]; rfl, .inl rfl, fun k hk => ?_⟩,
      nofun, fun d _ k hk => ?_⟩
    · exact absurd ((hmail n k).1 hk) (hquiet k)
    · exact hquiet k ((hmail n k).1 hk)

theorem run_executed {path : String} {stored : Bool} (hp : a.phase = .executed path stored) :
    (s.turn i a).run env = (s.turn i a).finishFileOp env path stored := by
  have hp' : (s.turn i a).actor.phase = .executed path stored := hp
  unfold Turn.run
  split
  case h_3 =>
    rename_i hp''
    rw [hp'] at hp''
    obtain ⟨rfl, rfl⟩ := Phase.executed.inj hp''
    rfl
  all_goals
    rename_i hp''
    rw [hp'] at hp''
    cases hp''

/-- **Promotion** moves a large group of files to a new child. -/
theorem commits_promotePrefix (law : env.Lawful) (hstore : ∀ n, env.storeFails n = false)
    (h : Stands env s.world s.forest place m) (hclient : ([], rootId) ∈ s.clientHandles)
    (hsep : Separate m) (ha : s.forest i = some a) (hrun : a.phase.isRunning = true)
    (hsaving : ∀ replies responder, a.phase ≠ .saving replies responder) {n : String}
    (hslash : '/' ∉ n.toList) (hnew : n ∉ a.state.dirs)
    (hlarge : promotionThreshold < countBelow a.state n) :
    ∃ w ref d, ((s.turn i a).enter .idle).promotePrefix env n =
        (((s.turn i a).enter .idle).adopt w n ref d, .ok ()) ∧ Kept s.world w ∧
      (w.collided = false → ∃ place,
        Commits env s (((s.turn i a).enter .idle).adopt w n ref d).markAsDirty place m i) := by
  obtain ⟨-, hdir⟩ := (h.opened i a ha).dir hrun
  have hnone : a.dirHandles[n]? = none := by
    cases hj : a.dirHandles[n]? with
    | none => rfl
    | some j => exact absurd (hdir.held n j hj) hnew
  -- the large group is that of a directory, without a file of its own name
  obtain ⟨k, hk⟩ := exists_key_of_large hlarge
  obtain ⟨x, rest, hproper, rfl⟩ := ProperKeys.below hdir.keys hslash hk
  have hn := hproper.cons.1
  have hfree : m (place i ++ [n]) = none := by
    have hfile := hdir.files (n :: x :: rest) hproper (by
      rintro n' rest' he
      obtain ⟨rfl, -⟩ := List.cons.inj he
      exact hnew)
    rw [joinPath_cons_cons] at hfile
    have hsome : (m (place i ++ n :: x :: rest)).isSome := by
      rw [hfile, ← ExtTreeMap.mem_iff_isSome_getElem?]
      exact hk
    cases hm : m (place i ++ [n]) with
    | none => rfl
    | some f =>
      have hfar : m (place i ++ n :: x :: rest) = none :=
        hsep.drop (h.proper_place ha) [n] x rest hproper (by simp only [hm]; rfl)
      rw [hfar] at hsome
      cases hsome
  have hmoved : ∀ segs, Proper segs →
      (extractChildDirState a.state n).2.fileMap segs = m (place i ++ n :: segs) :=
    fun segs hs => hdir.extracted hn hnew hfree hs
  -- the run
  have href := Actor.newRef_buildChildDirRef env hdir.encodable hdir.unsigned
    a.context.encryptionType.isSome s.world
  generalize hb : buildChildDirRef env a.context.erase a.context.encryptionType.isSome s.world = built
    at href
  obtain ⟨w1, ref⟩ := built
  have hok : ∀ w' e, optimizeDirStructure env a.context (extractChildDirState a.state n).2 w1 =
      (w', .error e) → FailedBetween env w1 w' :=
    fun w' e => failed_optimizeFrom _ a.context _ _ _ _ _
  have hon := onward_optimizeDirStructure env a.context (extractChildDirState a.state n).2 w1
  have hprom : ∀ w' r, optimizeDirStructure env a.context (extractChildDirState a.state n).2 w1 =
      (w', .ok r) → w'.collided = false →
      Promoted env a.context w' (extractChildDirState a.state n).2 r :=
    fun _ _ => promoted_optimizeDirStructureIn law (fun _ _ groups => .refl groups) rfl
  generalize hopt : optimizeDirStructure env a.context (extractChildDirState a.state n).2 w1 = res
    at hok hon hprom
  obtain ⟨w2, e | d⟩ := res
  · obtain ⟨t, -, -, hfails⟩ := hok w2 e rfl
    rw [hstore] at hfails
    cases hfails
  have hkept : Kept s.world w2 := href.kept.trans ⟨hon.grows, hon.rootFile⟩
  have heq : ((s.turn i a).enter .idle).promotePrefix env n =
      (((s.turn i a).enter .idle).adopt w2 n ref d, .ok ()) :=
    Turn.promotePrefix_eq hnew hnone hb href.byHash hopt
  refine ⟨w2, ref, d, heq, hkept, fun hc => ?_⟩
  refine commits_newDir h hclient ha hrun hsaving hn hnew href.byHash rfl
    (.inl (Turn.markAsDirty_out _)) rfl rfl rfl rfl rfl rfl rfl (fun _ _ => Iff.rfl) .inr hkept ?_
  have hbelow : Open env w2 (childContext a.context.erase n ref) d ∅
      (extractChildDirState a.state n).2.fileMap :=
    .ofPromoted (hprom w2 d rfl hc) rfl (href.encodable n) hdir.unsigned
      (fun hplain => href.plain hplain (by rw [hplain]; rfl) n) (ProperKeys.extract hdir.keys hslash)
      (((hsep.drop (h.proper_place ha)).below hn).congr hmoved)
  exact hbelow.congr (fun segs hs _ => (hmoved segs hs).symm)
    fun x hx _ segs hs => (hmoved _ (List.forall_mem_cons.2 ⟨hbelow.names x hx, hs⟩)).symm

/-- **The rest of a file operation** changes no file. -/
theorem passes_executed (law : env.Lawful) (hstore : ∀ n, env.storeFails n = false)
    (h : Stands env s.world s.forest place m) (hclient : ([], rootId) ∈ s.clientHandles)
    (hsep : Separate m) (ha : s.forest i = some a) {path : String} {stored : Bool}
    (hp : a.phase = .executed path stored) : Passes env s ((s.turn i a).run env) m i a.mailbox := by
  have hrun : a.phase.isRunning = true := by rw [hp]; rfl
  have hsaving : ∀ replies responder, a.phase ≠ .saving replies responder := by
    rw [hp]
    nofun
  obtain ⟨hshards, hdir⟩ := (h.opened i a ha).dir hrun
  have hplain : Commits env s ((s.turn i a).enter .idle).markAsDirty place m i := by
    refine commits_marked h hclient ha rfl (.inl (Turn.markAsDirty_out _)) rfl rfl rfl
      (.changed rfl hshards hdir rfl) (.refl _) (fun n c j _ hc => ?_) nofun fun _ _ => id
    refine hc.mono rfl rfl (fun _ => rfl) .inr (fun k hk => ?_) fun _ => id
    rcases hk with hk | ⟨replies, responder, hs, -⟩
    · exact .inl hk
    · exact absurd hs (hsaving replies responder)
  -- nothing is promoted, or a group that is a new directory
  have hcases : (s.turn i a).finishFileOp env path stored = ((s.turn i a).enter .idle).markAsDirty ∨
      ∃ n rest, splitOnce path = some (n, rest) ∧ n ∉ a.state.dirs ∧
        promotionThreshold < countBelow a.state n ∧
        ∀ t, ((s.turn i a).enter .idle).promotePrefix env n = (t, .ok ()) →
          (s.turn i a).finishFileOp env path stored = t.markAsDirty := by
    unfold Turn.finishFileOp
    cases stored with
    | false => exact .inl rfl
    | true =>
      simp only [if_true]
      unfold Turn.checkAutoPromote
      cases hsplit : splitOnce path with
      | none => exact .inl rfl
      | some nr =>
        obtain ⟨n, rest⟩ := nr
        dsimp only
        by_cases hlarge : promotionThreshold < countBelow a.state n
        · by_cases hn : n ∈ a.state.dirs
          · left
            have hthere : ((s.turn i a).enter .idle).promotePrefix env n =
                ((s.turn i a).enter .idle, .ok ()) := by
              unfold Turn.promotePrefix
              exact if_pos hn
            rw [hthere, ite_self]
          · refine .inr ⟨n, rest, rfl, hn, hlarge, fun t ht => ?_⟩
            have hl : promotionThreshold < countBelow ((s.turn i a).enter .idle).actor.state n := hlarge
            rw [if_pos hl, ht]
        · left
          have hl : ¬ promotionThreshold < countBelow ((s.turn i a).enter .idle).actor.state n := hlarge
          rw [if_neg hl]
  rw [run_executed hp]
  rcases hcases with heq | ⟨n, rest, hsplit, hn, hlarge, heq⟩
  · rw [heq]
    exact ⟨.refl _, fun _ => ⟨place, hplain⟩, List.forall_mem_nil _, rfl, rfl⟩
  · obtain ⟨w, ref, d, hpromote, hkept, hcommits⟩ := commits_promotePrefix law hstore h hclient hsep ha
      hrun hsaving (splitOnce_eq_some.1 hsplit).2 hn hlarge
    have hspawned : ((((s.turn i a).enter .idle).adopt w n ref d).markAsDirty).spawned =
      [.new (a.context.withNewRef ref (.dirHandle (.path n) i ref.hash 0)) (some d)] := rfl
    rw [heq _ hpromote]
    refine ⟨hkept, hcommits, fun c hc => ?_, rfl, rfl⟩
    rw [hspawned] at hc
    exact ⟨_, d, List.mem_singleton.1 hc⟩

/-! ## Requests -/

section
omit [DecidableEq β]
variable {segs : List String}

/-- Where the first segment of a path is no directory, the path is handled here. -/
theorem routeToChild_here (h : Stands env s.world s.forest place m) (ha : s.forest i = some a)
    (hrun : a.phase.isRunning = true) (hs : Proper segs)
    (hhead : ∀ n rest, segs = n :: rest → n ∉ a.state.dirs) :
    ((s.turn i a).take rest).routeToChild env (joinPath segs) = ((s.turn i a).take rest, .ok none) := by
  obtain ⟨-, hdir⟩ := (h.opened i a ha).dir hrun
  have hfirst : (splitPath (joinPath segs)).1 ∉ a.state.dirs := by
    rw [Actor.splitPath_fst_joinPath hs]
    cases segs with
    | nil => exact fun hm => (hdir.names "" hm).1 rfl
    | cons n rest => exact hhead n rest rfl
  have hroute : route env ((s.turn i a).take rest).actor.state (joinPath segs) = .ok .here := by
    show route env a.state (joinPath segs) = .ok .here
    simp only [route, hdir.shardLevel, routeDirect, if_neg hfirst]
  unfold Turn.routeToChild
  rw [hroute]

/-- A child that is open is handed a path. -/
theorem routeToChild_held (h : Stands env s.world s.forest place m) (ha : s.forest i = some a)
    (hrun : a.phase.isRunning = true) {n : String} (hs : Proper (n :: segs))
    (hj : a.dirHandles[n]? = some j) :
    ((s.turn i a).take rest).routeToChild env (joinPath (n :: segs)) =
      ((s.turn i a).take rest, .ok (some (j, joinPath segs, [n]))) := by
  obtain ⟨-, hdir⟩ := (h.opened i a ha).dir hrun
  have hroute : route env ((s.turn i a).take rest).actor.state (joinPath (n :: segs)) =
      .ok (.dir n (joinPath segs)) := by
    show route env a.state (joinPath (n :: segs)) = _
    simp only [route, hdir.shardLevel, routeDirect, splitPath_joinPath hs.cons.1.2,
      if_pos (hdir.held n j hj)]
  have hopen : ((s.turn i a).take rest).openDir n none = ((s.turn i a).take rest, .ok j) := by
    have hj' : ((s.turn i a).take rest).actor.dirHandles[n]? = some j := hj
    unfold Turn.openDir
    rw [hj']
  unfold Turn.routeToChild
  simp only [hroute, hopen]

/-- A child that is not open is opened. -/
theorem routeToChild_closed (h : Stands env s.world s.forest place m) (ha : s.forest i = some a)
    (hrun : a.phase.isRunning = true) {n : String} (hs : Proper (n :: segs)) {ref : DirRef}
    (href : a.state.dirs[n]? = some ref) (hnone : a.dirHandles[n]? = none) :
    ((s.turn i a).take rest).routeToChild env (joinPath (n :: segs)) =
      ({ ((s.turn i a).take rest).spawn
            (a.context.withNewRef ref (.dirHandle (.path n) i ref.hash 0)) none with
          actor.dirHandles := a.dirHandles.insert n s.actors.length },
        .ok (some (s.actors.length, joinPath segs, [n]))) := by
  obtain ⟨-, hdir⟩ := (h.opened i a ha).dir hrun
  have hn : n ∈ a.state.dirs := ExtTreeMap.mem_iff_isSome_getElem?.2 (by rw [href]; rfl)
  have hroute : route env ((s.turn i a).take rest).actor.state (joinPath (n :: segs)) =
      .ok (.dir n (joinPath segs)) := by
    show route env a.state (joinPath (n :: segs)) = _
    simp only [route, hdir.shardLevel, routeDirect, splitPath_joinPath hs.cons.1.2, if_pos hn]
  have hopen : ((s.turn i a).take rest).openDir n none = _ :=
    Turn.openDir_closed hnone href (hdir.byHash n ref href) none
  unfold Turn.routeToChild
  simp only [hroute, hopen]
  rfl

end

end System

end Fs
