import S5.Fs.Proof.Waiting

/-!
# A save that all directories take part in

The root asks its open children to save themselves, and so on down; a directory is written when all its
children have answered. Meanwhile every turn leaves the files as they are, and when the root has been
written the directories that are open are in the store.
-/

open Std

namespace Fs

open Actor (Encodable childContext Kept)

/-! ## What the actors wait for -/

/-- Whom the actor owes the answer to a save. -/
inductive DirActor.Owes (c : DirActor) : Option Responder → Prop
  | nobody (phase : c.phase.isWaiting = true) (mailbox : c.mailbox = []) : Owes c none
  | asked {r : Responder} (phase : c.phase.isWaiting = true) (mailbox : c.mailbox = [.saveIfDirty r]) :
      Owes c (some r)
  | saving {replies} {r : Responder} (phase : c.phase = .saving replies r) (mailbox : c.mailbox = []) :
      Owes c (some r)

/-- The replies of a save by what their children have answered. -/
abbrev Replies := List (DirHandlePath × Option (Except String (Option Hash)))

/-- The child `n` has been asked, and has answered `v` if anything. -/
def Replies.Has (replies : Replies) (n : String) (v : Option (Except String (Option Hash))) : Prop :=
  (∃ x ∈ replies, x.1 = .path n) ∧ ∀ x ∈ replies, x.1 = .path n → x.2 = v

/-- Where the child `n` of the actor `i` is in a save of its parent. -/
inductive Attends (i : ActorId) (a : DirActor) (n : String) (c : DirActor) : Prop
  | idle (owes : c.Owes none) (phase : ∀ replies r, a.phase ≠ .saving replies r)
  | asked {replies r} (phase : a.phase = .saving replies r) (reply : Replies.Has replies n none)
      (owes : c.Owes (some (.parent i (.path n))))
  | answered {replies r v} (phase : a.phase = .saving replies r)
      (reply : Replies.Has replies n (some v)) (owes : c.Owes none) (clean : c.dirty = false)
      (value : v = .ok none ∨ ∃ h, v = .ok (some h) ∧ c.context.link = .dirHandle (.path n) i h 0)

variable {c c' : DirActor} {r r' : Responder} {o o' : Option Responder}

theorem DirActor.Owes.unique (h : c.Owes o) (h' : c.Owes o') : o = o' := by
  have hne : ∀ {p : Phase} {replies r}, p.isWaiting = true → p = .saving replies r → False := by
    rintro p replies r hp rfl
    cases hp
  cases h with
  | nobody hp hm =>
    cases h' with
    | nobody => rfl
    | asked hp' hm' =>
      rw [hm] at hm'
      cases hm'
    | saving hp' => exact (hne hp hp').elim
  | asked hp hm =>
    cases h' with
    | nobody hp' hm' =>
      rw [hm'] at hm
      cases hm
    | asked hp' hm' =>
      rw [hm] at hm'
      rw [ActorMessage.saveIfDirty.inj (List.cons.inj hm').1]
    | saving hp' => exact (hne hp hp').elim
  | saving hp hm =>
    cases h' with
    | nobody hp' => exact (hne hp' hp).elim
    | asked hp' => exact (hne hp' hp).elim
    | saving hp' =>
      rw [hp] at hp'
      rw [(Phase.saving.inj hp').2]

theorem DirActor.Owes.no_news (h : c.Owes o) {n : String} {k : Hash} :
    .updateDirRefHash (.path n) k ∉ c.mailbox := by
  intro hm
  cases h with
  | nobody _ mailbox =>
    rw [mailbox] at hm
    cases hm
  | asked _ mailbox =>
    rw [mailbox] at hm
    cases List.mem_singleton.1 hm
  | saving _ mailbox =>
    rw [mailbox] at hm
    cases hm

theorem DirActor.Owes.no_mark (h : c.Owes o) : .markAsDirty ∉ c.mailbox := by
  intro hm
  cases h with
  | nobody _ mailbox =>
    rw [mailbox] at hm
    cases hm
  | asked _ mailbox =>
    rw [mailbox] at hm
    cases List.mem_singleton.1 hm
  | saving _ mailbox =>
    rw [mailbox] at hm
    cases hm

/-- An actor in a save of its own has no message. -/
theorem DirActor.Owes.of_saving (h : c.Owes o) {replies : Replies} (hp : c.phase = .saving replies r) :
    c.mailbox = [] ∧ c.Owes (some r) := by
  have hmail : c.mailbox = [] := by
    cases h with
    | nobody hw =>
      rw [hp] at hw
      cases hw
    | asked hw =>
      rw [hp] at hw
      cases hw
    | saving _ hm => exact hm
  exact ⟨hmail, .saving hp hmail⟩

/-- A child has nothing to do with a save before its parent saves itself. -/
theorem Attends.owes_none {i : ActorId} {a : DirActor} {n : String} (h : Attends i a n c)
    (hp : ∀ replies r, a.phase ≠ .saving replies r) : c.Owes none := by
  cases h with
  | idle owes => exact owes
  | asked phase => exact absurd phase (hp _ _)
  | answered phase => exact absurd phase (hp _ _)

/-- A child that owes an answer owes it to its parent, who waits for it. -/
theorem Attends.asker {i : ActorId} {a : DirActor} {n : String} (h : Attends i a n c)
    (howes : c.Owes (some r)) : ∃ (replies : Replies) (r' : Responder),
      a.phase = .saving replies r' ∧ replies.Has n none ∧ r = .parent i (.path n) := by
  cases h with
  | idle owes => cases owes.unique howes
  | answered phase reply owes => cases owes.unique howes
  | asked phase reply owes => exact ⟨_, _, phase, reply, Option.some.inj (howes.unique owes)⟩

namespace System

variable {β : Type} {env : Env β} {s s' : System β} {t : Turn β} {place : ActorId → List String}
  {m m' : FileMap} {i j k p : ActorId} {a a' b b' : DirActor} {n : String}

/-- The directories are being saved. -/
structure Saves (F : Forest) : Prop where
  each : ∀ (j : ActorId) c, F j = some c → ∃ o, c.Owes o
  root : ∃ r k, F rootId = some r ∧ r.Owes (some (.client k))
  child : ∀ (i : ActorId) a (n : String) (j : ActorId) c, F i = some a → a.dirHandles[n]? = some j →
    F j = some c → Attends i a n c
  asked : ∀ (j : ActorId) c replies r, F j = some c → c.phase = .saving replies r →
    ∀ x ∈ replies, ∃ (n : String) (k : ActorId), x.1 = .path n ∧ c.dirHandles[n]? = some k
  dirty : ∀ (j : ActorId) c replies r, F j = some c → c.phase = .saving replies r → j ≠ rootId →
    c.dirty = true

/-- The client's save is going on. -/
structure Saving (env : Env β) (s : System β) (m : FileMap) : Prop where
  stands : ∃ place, Stands env s.world s.forest place m
  client : ([], rootId) ∈ s.clientHandles
  saves : Saves s.forest

/-! ## An actor reads its directory -/

theorem Wakes.owes (hw : Wakes a a') (hp : a.phase = .starting none) {o : Option Responder}
    (h : a.Owes o) : a'.Owes o := by
  cases h with
  | nobody phase mailbox => exact .nobody (by rw [hw.phase]; rfl) (hw.mailbox.trans mailbox)
  | asked phase mailbox => exact .asked (by rw [hw.phase]; rfl) (hw.mailbox.trans mailbox)
  | saving phase =>
    rw [hp] at phase
    cases phase

theorem Saves.wake {F : Forest} (h : Saves F) (ha : F i = some a) (hw : Wakes a a')
    (hp : a.phase = .starting none) : Saves (Function.update F i (some a')) := by
  have hself : Function.update F i (some a') i = some a' := Function.update_self i _ F
  have howes : ∀ {o}, a.Owes o → a'.Owes o := hw.owes hp
  have hidle : ∀ replies r, a'.phase ≠ .saving replies r := by
    intro replies r hs
    rw [hw.phase] at hs
    cases hs
  refine ⟨fun j c hc => ?_, ?_, fun q d n j c hd hn hc => ?_, fun j c replies r hc hs => ?_,
    fun j c replies r hc hs => ?_⟩
  · rcases Forest.update_cases hc with ⟨-, rfl⟩ | ⟨-, hc⟩
    · exact (h.each i a ha).imp fun _ => howes
    · exact h.each j c hc
  · obtain ⟨r, k, hr, ho⟩ := h.root
    by_cases hi : rootId = i
    · obtain rfl := Option.some.inj (ha.symm.trans (hi ▸ hr))
      exact ⟨a', k, by rw [hi, hself], howes ho⟩
    · exact ⟨r, k, by rw [Function.update_of_ne hi, hr], ho⟩
  · -- as a child the actor is as it was
    have hchild : ∀ {e : DirActor}, (∀ c0, F j = some c0 → Attends q e n c0) → Attends q e n c := by
      intro e he
      rcases Forest.update_cases hc with ⟨hj, rfl⟩ | ⟨-, hc⟩
      · cases he a (hj ▸ ha) with
        | idle owes phase => exact .idle (howes owes) phase
        | asked phase reply owes => exact .asked phase reply (howes owes)
        | answered phase reply owes clean value =>
          exact .answered phase reply (howes owes) (hw.dirty.trans clean) (by rwa [hw.context])
      · exact he c hc
    rcases Forest.update_cases hd with ⟨rfl, rfl⟩ | ⟨-, hd⟩
    · rw [hw.dirHandles] at hn
      refine hchild fun c0 hc0 => .idle ?_ hidle
      refine (h.child q a n j c0 ha hn hc0).owes_none fun replies r hs => ?_
      rw [hp] at hs
      cases hs
    · exact hchild fun c0 hc0 => h.child q d n j c0 hd hn hc0
  · rcases Forest.update_cases hc with ⟨-, rfl⟩ | ⟨-, hc⟩
    · exact absurd hs (hidle _ _)
    · exact h.asked j c replies r hc hs
  · rcases Forest.update_cases hc with ⟨-, rfl⟩ | ⟨-, hc⟩
    · exact absurd hs (hidle _ _)
    · exact h.dirty j c replies r hc hs

/-! ## An actor asks its children -/

/-- A directory without shards that is not split when it is saved. -/
theorem shardIfNeeded_small [DecidableEq β] (hshard : t.actor.state.header.shardLevel = none)
    (hs : small env t.actor) : ∃ len ops, t.shardIfNeeded env =
      ({ t with actor := { t.actor with lastSerializedLen := len, shardSizeCheckOps := ops } },
        .ok ()) := by
  unfold small at hs
  rw [Bool.or_eq_true, Bool.and_eq_true, decide_eq_true_eq, decide_eq_true_eq, decide_eq_true_eq] at hs
  unfold Turn.shardIfNeeded
  rw [hshard, Option.isSome_none, if_neg Bool.false_ne_true]
  split
  · exact ⟨t.actor.lastSerializedLen, t.actor.shardSizeCheckOps, rfl⟩
  · rename_i hbig
    exact ⟨_, _, if_neg (Nat.not_le.2 (hs.resolve_left hbig))⟩

/-- The children are asked one after the other. -/
theorem emit_asks (s s' : System β) {i : ActorId} (l : List (DirHandlePath × ActorId))
    (hl : (l.map Prod.snd).Nodup) (hopen : ∀ x ∈ l, ∃ c, s.forest x.2 = some c ∧ isStopped c = false)
    (hs : s' = (l.map fun (path, child) => Output.send child (.saveIfDirty (.parent i path))).foldl
      emit s) :
    s'.world = s.world ∧ s'.clientHandles = s.clientHandles ∧
      (∀ w place m, Stands env w s.forest place m → Stands env w s'.forest place m) ∧
      (∀ x ∈ l, ∀ c, s.forest x.2 = some c → s'.forest x.2 =
        some { c with mailbox := c.mailbox ++ [.saveIfDirty (.parent i x.1)] }) ∧
      ∀ j, j ∉ l.map Prod.snd → s'.forest j = s.forest j := by
  subst hs
  induction l generalizing s with
  | nil => exact ⟨rfl, rfl, fun _ _ _ => id, List.forall_mem_nil _, fun _ _ => rfl⟩
  | cons x l ih =>
    obtain ⟨path, child⟩ := x
    obtain ⟨hnot, hl⟩ := List.nodup_cons.1 hl
    obtain ⟨⟨c, hc, hrun⟩, hopen⟩ := List.forall_mem_cons.1 hopen
    have hclosed : s.closed child = false := closed_eq_false hc hrun
    have hforest := forest_modify s child
      (fun a => { a with mailbox := a.mailbox ++ [.saveIfDirty (.parent i path)] }) hc
    have hother : ∀ {j : ActorId}, j ≠ child →
        (s.enqueue child (.saveIfDirty (.parent i path))).forest j = s.forest j := by
      intro j hj
      refine (congrFun hforest j).trans ?_
      exact Function.update_of_ne hj _ _
    have hne : ∀ x ∈ l, x.2 ≠ child := by
      intro x hx he
      exact hnot (List.mem_map.2 ⟨x, hx, he⟩)
    obtain ⟨hworld, hclient, hstands, hasked, hsame⟩ := ih (s.enqueue child _) hl fun x hx => by
      obtain ⟨d, hd, hrun⟩ := hopen x hx
      exact ⟨d, (hother (hne x hx)).trans hd, hrun⟩
    rw [List.map_cons, List.foldl_cons, emit_send hclosed]
    refine ⟨hworld, hclient, fun w place m h => hstands w place m ?_, ?_, fun j hj => ?_⟩
    · rw [show (s.enqueue child (.saveIfDirty (.parent i path))).forest = _ from hforest]
      exact h.hear hc fun _ _ => by simp
    · refine List.forall_mem_cons.2 ⟨fun d hd => ?_, fun x hx d hd => ?_⟩
      · obtain rfl := Option.some.inj (hc.symm.trans hd)
        rw [hsame child hnot]
        refine (congrFun hforest child).trans ?_
        exact Function.update_self _ _ _
      · exact hasked x hx d ((hother (hne x hx)).trans hd)
    · rw [List.map_cons, List.mem_cons, not_or] at hj
      rw [hsame j hj.2]
      exact hother hj.1

theorem children_eq (hshards : a.dirShardHandles = ∅) :
    Turn.children a = a.dirHandles.toList.map fun (name, child) => (.path name, child) := by
  unfold Turn.children
  rw [hshards, ExtTreeMap.toList_eq_nil_iff.2 rfl, List.map_nil, List.nil_append]

theorem mem_children (hshards : a.dirShardHandles = ∅) {x : DirHandlePath × ActorId} :
    x ∈ Turn.children a ↔ ∃ n : String, x.1 = .path n ∧ a.dirHandles[n]? = some x.2 := by
  obtain ⟨path, k⟩ := x
  rw [children_eq hshards, List.mem_map]
  constructor
  · rintro ⟨⟨n, j⟩, hy, he⟩
    obtain ⟨rfl, rfl⟩ := Prod.mk.inj he
    exact ⟨n, rfl, ExtTreeMap.mem_toList_iff_getElem?_eq_some.1 hy⟩
  · rintro ⟨n, rfl, hn⟩
    exact ⟨(n, k), ExtTreeMap.mem_toList_iff_getElem?_eq_some.2 hn, rfl⟩

/-- No child is asked twice. -/
theorem nodup_children {F : Forest} {w : World β} (h : Stands env w F place m) (ha : F i = some a)
    (hshards : a.dirShardHandles = ∅) : ((Turn.children a).map Prod.snd).Nodup := by
  rw [children_eq hshards, List.map_map]
  refine List.Pairwise.map _ ?_ (List.Pairwise.and_mem.1 ExtTreeMap.distinct_keys_toList)
  rintro ⟨x, j⟩ ⟨y, k⟩ ⟨hx, hy, hne⟩ rfl
  rw [ExtTreeMap.mem_toList_iff_getElem?_eq_some] at hx hy
  obtain ⟨-, rfl⟩ := h.handle_unique ha hx ha hy
  exact hne (Std.compare_eq_iff_eq.2 rfl)

theorem Saves.asks {F F' : Forest} {w : World β} (h : Saves F) (hstands : Stands env w F place m)
    (ha : F i = some a) {r : Responder} (hp : a.phase = .idle) (hm : a.mailbox = [.saveIfDirty r])
    (hshards : a.dirShardHandles = ∅) (hdirty : i ≠ rootId → a.dirty = true) (ha' : F' i = some a')
    (hphase : a'.phase = .saving ((Turn.children a).map fun (path, _) => (path, none)) r)
    (hmail : a'.mailbox = []) (hhandles : a'.dirHandles = a.dirHandles) (had : a'.dirty = a.dirty)
    (hasked : ∀ (n : String) (j : ActorId) c, a.dirHandles[n]? = some j → F j = some c →
      F' j = some { c with mailbox := c.mailbox ++ [.saveIfDirty (.parent i (.path n))] })
    (hsame : ∀ j, j ≠ i → (∀ n : String, a.dirHandles[n]? ≠ some j) → F' j = F j) : Saves F' := by
  have howes : a.Owes (some r) := .asked (by rw [hp]; rfl) hm
  have howes' : a'.Owes (some r) := .saving hphase hmail
  -- a child has had nothing to do
  have hchild : ∀ {n : String} {j : ActorId} {c}, a.dirHandles[n]? = some j → F j = some c →
      c.phase.isWaiting = true ∧ c.mailbox = [] := by
    intro n j c hn hc
    have hnone : c.Owes none := by
      refine (h.child i a n j c ha hn hc).owes_none fun replies r hs => ?_
      rw [hp] at hs
      cases hs
    cases hnone with
    | nobody phase mailbox => exact ⟨phase, mailbox⟩
  have hcases : ∀ (j : ActorId) c', F' j = some c' → (j = i ∧ c' = a') ∨
      (∃ (n : String) (c : DirActor), i < j ∧ a.dirHandles[n]? = some j ∧ F j = some c ∧
        c' = { c with mailbox := c.mailbox ++ [.saveIfDirty (.parent i (.path n))] }) ∨
      (j ≠ i ∧ F j = some c' ∧ ∀ n : String, a.dirHandles[n]? ≠ some j) := by
    intro j c' hc'
    by_cases hj : j = i
    · subst hj
      exact .inl ⟨rfl, Option.some.inj (hc'.symm.trans ha')⟩
    by_cases hn : ∃ n : String, a.dirHandles[n]? = some j
    · obtain ⟨n, hn⟩ := hn
      obtain ⟨hlt, -, c, hc, -⟩ := hstands.child i a n j ha hn
      exact .inr (.inl ⟨n, c, hlt, hn, hc, Option.some.inj (hc'.symm.trans (hasked n j c hn hc))⟩)
    · rw [hsame j hj (not_exists.1 hn)] at hc'
      exact .inr (.inr ⟨hj, hc', not_exists.1 hn⟩)
  refine ⟨fun j c' hc' => ?_, ?_, fun q d x j c' hd hx hc' => ?_, fun j c' replies r' hc' hs => ?_,
    fun j c' replies r' hc' hs hj => ?_⟩
  · rcases hcases j c' hc' with ⟨-, rfl⟩ | ⟨n, c, -, hn, hc, rfl⟩ | ⟨-, hc, -⟩
    · exact ⟨_, howes'⟩
    · obtain ⟨hwait, hnone⟩ := hchild hn hc
      refine ⟨_, .asked (r := .parent i (.path n)) hwait ?_⟩
      rw [hnone]
      rfl
    · exact h.each j c' hc
  · obtain ⟨r0, k, hr, ho⟩ := h.root
    by_cases hi : rootId = i
    · obtain rfl := Option.some.inj (ha.symm.trans (hi ▸ hr))
      exact ⟨a', k, hi ▸ ha', howes.unique ho ▸ howes'⟩
    · refine ⟨r0, k, ?_, ho⟩
      rw [hsame rootId hi, hr]
      intro n hn
      exact absurd (hstands.child i a n rootId ha hn).1 (Nat.not_lt_zero i)
  · -- the directory above and the one below
    have hd0 : ∃ d0, F q = some d0 ∧ d0.dirHandles[x]? = some j ∧ (q ≠ i → d.phase = d0.phase) := by
      rcases hcases q d hd with ⟨rfl, rfl⟩ | ⟨n, d0, -, hn, hd0, rfl⟩ | ⟨-, hd0, -⟩
      · exact ⟨a, ha, by rwa [← hhandles], fun hq => absurd rfl hq⟩
      · exact ⟨d0, hd0, hx, fun _ => rfl⟩
      · exact ⟨d, hd0, hx, fun _ => rfl⟩
    obtain ⟨d0, hd0, hx0, hphase0⟩ := hd0
    have hlt := (hstands.child q d0 x j hd0 hx0).1
    have hsub : ∀ {e : DirActor}, q ≠ i → Attends q d0 x e → (∀ o, e.Owes o → c'.Owes o) →
        c'.dirty = e.dirty → c'.context = e.context → Attends q d x c' := by
      intro e hq he howes hde hctx
      have hph := hphase0 hq
      cases he with
      | idle owes phase => exact .idle (howes _ owes) fun replies r => hph ▸ phase replies r
      | asked phase reply owes => exact .asked (hph.trans phase) reply (howes _ owes)
      | answered phase reply owes clean value =>
        exact .answered (hph.trans phase) reply (howes _ owes) (hde.trans clean) (by rwa [hctx])
    rcases hcases j c' hc' with ⟨rfl, rfl⟩ | ⟨n, c, -, hn, hc, rfl⟩ | ⟨hj, hc, hno⟩
    · have hq : q ≠ j := Nat.ne_of_lt hlt
      obtain ⟨replies, r', phase, reply, rfl⟩ := (h.child q d0 x j a hd0 hx0 ha).asker howes
      exact .asked ((hphase0 hq).trans phase) reply howes'
    · obtain ⟨rfl, rfl⟩ := hstands.handle_unique hd0 hx0 ha hn
      obtain rfl := Option.some.inj (ha'.symm.trans hd)
      obtain ⟨hwait, hnone⟩ := hchild hn hc
      refine .asked hphase ⟨⟨(.path x, none), ?_, rfl⟩, fun y hy _ => ?_⟩ (.asked hwait ?_)
      · exact List.mem_map.2 ⟨(.path x, j), (mem_children hshards).2 ⟨x, rfl, hn⟩, rfl⟩
      · obtain ⟨z, -, rfl⟩ := List.mem_map.1 hy
        rfl
      · rw [hnone]
        rfl
    · have hq : q ≠ i := by
        rintro rfl
        obtain rfl := Option.some.inj (ha.symm.trans hd0)
        exact hno x hx0
      exact hsub hq (h.child q d0 x j c' hd0 hx0 hc) (fun _ => id) rfl rfl
  · rcases hcases j c' hc' with ⟨rfl, rfl⟩ | ⟨n, c, -, hn, hc, rfl⟩ | ⟨-, hc, -⟩
    · rw [hphase] at hs
      obtain ⟨rfl, rfl⟩ := Phase.saving.inj hs
      intro y hy
      obtain ⟨z, hz, rfl⟩ := List.mem_map.1 hy
      obtain ⟨n, hpath, hn⟩ := (mem_children hshards).1 hz
      exact ⟨n, z.2, hpath, by rw [hhandles]; exact hn⟩
    · have hs' : c.phase = .saving replies r' := hs
      have hwait := (hchild hn hc).1
      rw [hs'] at hwait
      cases hwait
    · exact h.asked j c' replies r' hc hs
  · rcases hcases j c' hc' with ⟨rfl, rfl⟩ | ⟨n, c, -, hn, hc, rfl⟩ | ⟨-, hc, -⟩
    · rw [had]
      exact hdirty hj
    · have hs' : c.phase = .saving replies r' := hs
      have hwait := (hchild hn hc).1
      rw [hs'] at hwait
      cases hwait
    · exact h.dirty j c' replies r' hc hs hj

/-! ## A child answers -/

/-- The replies when the child `n` has answered. -/
def stored (replies : Replies) (n : String) (v : Except String (Option Hash)) : Replies :=
  replies.map fun (p, r) => (p, if p = .path n then some v else r)

theorem storeReply_saving {replies : Replies} {r : Responder} (hb : b.phase = .saving replies r)
    (n : String) (v : Except String (Option Hash)) :
    storeReply (.path n) v b = { b with phase := .saving (stored replies n v) r } := by
  unfold storeReply
  rw [hb]
  rfl

theorem has_stored {replies : Replies} {v' : Option (Except String (Option Hash))}
    {v : Except String (Option Hash)} (h : Replies.Has replies n v') :
    (stored replies n v).Has n (some v) := by
  obtain ⟨⟨x, hx, hxn⟩, -⟩ := h
  refine ⟨⟨(x.1, if x.1 = .path n then some v else x.2), List.mem_map.2 ⟨x, hx, rfl⟩, hxn⟩,
    fun y hy hyn => ?_⟩
  obtain ⟨z, hz, rfl⟩ := List.mem_map.1 hy
  exact if_pos hyn

theorem has_stored_of_ne {replies : Replies} {x : String} {v' : Option (Except String (Option Hash))}
    {v : Except String (Option Hash)} (hx : x ≠ n) (h : Replies.Has replies x v') :
    (stored replies n v).Has x v' := by
  have hne : ∀ {p : DirHandlePath}, p = .path x → p ≠ .path n := by
    rintro p rfl he
    exact hx (DirHandlePath.path.inj he)
  obtain ⟨⟨y, hy, hyx⟩, hall⟩ := h
  refine ⟨⟨(y.1, if y.1 = .path n then some v else y.2), List.mem_map.2 ⟨y, hy, rfl⟩, hyx⟩,
    fun y hy hyx => ?_⟩
  obtain ⟨z, hz, rfl⟩ := List.mem_map.1 hy
  exact (if_neg (hne hyx)).trans (hall z hz hyx)

/-- **A child has answered** that it has nothing to save any more. -/
theorem Saves.answered {F : Forest} {w : World β} (h : Saves F) (hstands : Stands env w F place m)
    (ha : F i = some a) (hb : F p = some b) (hn : b.dirHandles[n]? = some i) {replies : Replies}
    {r : Responder} (hbp : b.phase = .saving replies r)
    (howes : a.Owes (some (.parent p (.path n))))
    (hkids : ∀ (x : String) (j : ActorId) c, a.dirHandles[x]? = some j → F j = some c → c.Owes none)
    (hphase : a'.phase = .idle) (hmail : a'.mailbox = []) (hhandles : a'.dirHandles = a.dirHandles)
    (hclean : a'.dirty = false) {v : Except String (Option Hash)}
    (hvalue : v = .ok none ∨ ∃ k, v = .ok (some k) ∧ a'.context.link = .dirHandle (.path n) p k 0) :
    Saves (Function.update (Function.update F p (some (storeReply (.path n) v b))) i (some a')) := by
  rw [storeReply_saving hbp]
  have hlt := (hstands.child p b n i hb hn).1
  have hpi : p ≠ i := Nat.ne_of_lt hlt
  obtain ⟨o, ho⟩ := h.each p b hb
  obtain ⟨hbmail, hbowes⟩ := ho.of_saving hbp
  let b' : DirActor := { b with phase := .saving (stored replies n v) r }
  have hbowes' : b'.Owes (some r) := .saving rfl hbmail
  have howes' : a'.Owes none := .nobody (by rw [hphase]; rfl) hmail
  have hidle : ∀ replies r, a'.phase ≠ .saving replies r := by
    intro replies r hs
    rw [hphase] at hs
    cases hs
  have hcases : ∀ (j : ActorId) c,
      Function.update (Function.update F p (some b')) i (some a') j = some c →
      (j = i ∧ c = a') ∨ (j = p ∧ c = b') ∨ (j ≠ i ∧ j ≠ p ∧ F j = some c) := by
    intro j c hc
    rcases Forest.update_cases hc with h | ⟨hji, hc⟩
    · exact .inl h
    rcases Forest.update_cases hc with h | ⟨hjp, hc⟩
    · exact .inr (.inl h)
    · exact .inr (.inr ⟨hji, hjp, hc⟩)
  refine ⟨fun j c hc => ?_, ?_, fun q d x j c hd hx hc => ?_, fun j c replies' r' hc hs => ?_,
    fun j c replies' r' hc hs hj => ?_⟩
  · rcases hcases j c hc with ⟨-, rfl⟩ | ⟨-, rfl⟩ | ⟨-, -, hc⟩
    · exact ⟨_, howes'⟩
    · exact ⟨_, hbowes'⟩
    · exact h.each j c hc
  · obtain ⟨r0, k, hr, ho⟩ := h.root
    have hi : rootId ≠ i := Nat.ne_of_lt (Nat.lt_of_le_of_lt (Nat.zero_le p) hlt)
    by_cases hp : rootId = p
    · obtain rfl := Option.some.inj (hb.symm.trans (hp ▸ hr))
      obtain rfl := Option.some.inj (ho.unique hbowes)
      exact ⟨b', k, by rw [Function.update_of_ne hi, hp, Function.update_self], hbowes'⟩
    · exact ⟨r0, k, by rw [Function.update_of_ne hi, Function.update_of_ne hp, hr], ho⟩
  · have hd0 : ∃ d0, F q = some d0 ∧ d0.dirHandles[x]? = some j := by
      rcases hcases q d hd with ⟨rfl, rfl⟩ | ⟨rfl, rfl⟩ | ⟨-, -, hd0⟩
      · exact ⟨a, ha, by rwa [← hhandles]⟩
      · exact ⟨b, hb, hx⟩
      · exact ⟨d, hd0, hx⟩
    obtain ⟨d0, hd0, hx0⟩ := hd0
    have hqj := (hstands.child q d0 x j hd0 hx0).1
    rcases hcases j c hc with ⟨rfl, rfl⟩ | ⟨rfl, rfl⟩ | ⟨hji, hjp, hc0⟩
    · -- the child that has answered
      obtain ⟨rfl, rfl⟩ := hstands.handle_unique hd0 hx0 hb hn
      rcases hcases q d hd with ⟨he, -⟩ | ⟨-, rfl⟩ | ⟨-, hne, -⟩
      · exact absurd he hpi
      · refine .answered rfl ?_ howes' hclean hvalue
        obtain ⟨_, _, phase, reply, -⟩ := (h.child q b x j a hb hn ha).asker howes
        obtain ⟨rfl, -⟩ := Phase.saving.inj (hbp.symm.trans phase)
        exact has_stored reply
      · exact absurd rfl hne
    · -- its parent
      rcases hcases q d hd with ⟨rfl, -⟩ | ⟨rfl, -⟩ | ⟨-, -, hd⟩
      · exact absurd hlt (Nat.lt_asymm hqj)
      · exact absurd hqj (Nat.lt_irrefl q)
      · obtain ⟨_, _, phase, reply, rfl⟩ := (h.child q d x j b hd hx hb).asker hbowes
        exact .asked phase reply hbowes'
    · rcases hcases q d hd with ⟨rfl, rfl⟩ | ⟨rfl, rfl⟩ | ⟨-, -, hd⟩
      · rw [hhandles] at hx
        exact .idle (hkids x j c hx hc0) hidle
      · have hxn : x ≠ n := by
          rintro rfl
          exact hji (Option.some.inj (hx.symm.trans hn))
        cases h.child q b x j c hb hx hc0 with
        | idle owes phase => exact absurd hbp (phase _ _)
        | asked phase reply owes =>
          obtain ⟨rfl, -⟩ := Phase.saving.inj (hbp.symm.trans phase)
          exact .asked rfl (has_stored_of_ne hxn reply) owes
        | answered phase reply owes clean value =>
          obtain ⟨rfl, -⟩ := Phase.saving.inj (hbp.symm.trans phase)
          exact .answered rfl (has_stored_of_ne hxn reply) owes clean value
      · exact h.child q d x j c hd hx hc0
  · rcases hcases j c hc with ⟨-, rfl⟩ | ⟨-, rfl⟩ | ⟨-, -, hc⟩
    · exact absurd hs (hidle _ _)
    · obtain ⟨rfl, -⟩ := Phase.saving.inj hs
      intro y hy
      obtain ⟨z, hz, rfl⟩ := List.mem_map.1 hy
      exact h.asked p b replies r hb hbp z hz
    · exact h.asked j c replies' r' hc hs
  · rcases hcases j c hc with ⟨-, rfl⟩ | ⟨rfl, rfl⟩ | ⟨-, -, hc⟩
    · exact absurd hs (hidle _ _)
    · exact h.dirty j b replies r hb hbp hj
    · exact h.dirty j c replies' r' hc hs hj

theorem commit_saved (ha : s.forest i = some a) (hb : s.forest p = some b) (hpi : p ≠ i)
    (hself : t.self = i) (hspawned : t.spawned = []) {v : Except String (Option Hash)}
    (hout : t.out = [.saved (.parent p (.path n)) v]) :
    (s.commit t).forest =
        Function.update (Function.update s.forest p (some (storeReply (.path n) v b))) i (some t.actor) ∧
      (s.commit t).clientHandles = s.clientHandles := by
  have hsettle := forest_settle ha hself hspawned
  have hb' : (s.settle t).forest p = some b := by
    rw [hsettle, Function.update_of_ne hpi, hb]
  have hcommit : s.commit t = (s.settle t).modify p (storeReply (.path n) v) := by
    unfold commit
    rw [hout]
    rfl
  rw [hcommit]
  refine ⟨(forest_modify _ p _ hb').trans ?_, rfl⟩
  rw [hsettle, Function.update_comm (Ne.symm hpi)]

/-- The parent of a child that answers, and the child. -/
theorem stands_answered {F : Forest} {w w' : World β} (h : Stands env w F place m) (ha : F i = some a)
    (hb : F p = some b) (hn : b.dirHandles[n]? = some i) {replies : Replies} {r : Responder}
    (hbp : b.phase = .saving replies r) {v : Except String (Option Hash)}
    (hhandles : a'.dirHandles = a.dirHandles) (hmail : a'.mailbox = [])
    (hopened : Carries env w' a' fun segs => m (place i ++ segs))
    (hkept : Kept w w')
    (hchild : ∀ x c (j : ActorId), a.dirHandles[x]? = some j → F j = some c → Adopted i a x c →
      Adopted i a' x c)
    (hadopted : Adopted p b n a →
      Adopted p { b with phase := .saving (stored replies n v) r } n a') :
    Stands env w' (Function.update (Function.update F p (some (storeReply (.path n) v b))) i (some a'))
      place m := by
  rw [storeReply_saving hbp]
  obtain ⟨-, -, a0, ha0, hup⟩ := h.child p b n i hb hn
  obtain rfl := Option.some.inj (ha.symm.trans ha0)
  have hbcarries := (h.opened p b hb).grown hkept.grows fun _ => hkept.rootFile
  refine h.saved ha hb hn hhandles rfl rfl id nofun hopened
    (hbcarries.goesOn (by rw [hbp]; rfl) (by rw [hbp]; nofun) rfl rfl rfl rfl rfl rfl) hkept hchild
    (hadopted hup) (fun x c hx hh => hh.mono rfl rfl id .inr (fun k hk => ?_) fun _ => id)
    (fun x k hm => ?_) fun _ _ => .inr
  · rcases hk with hk | ⟨replies', r', hp, hm⟩
    · exact .inl hk
    · obtain ⟨rfl, -⟩ := Phase.saving.inj (hbp.symm.trans hp)
      refine .inr ⟨_, r, rfl, List.mem_map.2 ⟨_, hm, ?_⟩⟩
      exact congrArg (Prod.mk _) (if_neg fun he => hx (DirHandlePath.path.inj he))
  · rw [hmail] at hm
    cases hm

variable [DecidableEq β]

omit [DecidableEq β] in
/-- An actor that has been asked hangs below the one that has asked it. -/
theorem Saves.asker (h : Saves s.forest) (hstands : Stands env s.world s.forest place m)
    (ha : s.forest i = some a) (hi : i ≠ rootId) {r : Responder} (howes : a.Owes (some r)) :
    ∃ (p : ActorId) (b : DirActor) (n : String) (replies : Replies) (r' : Responder),
      p < i ∧ s.forest p = some b ∧ b.dirHandles[n]? = some i ∧ b.phase = .saving replies r' ∧
      b.mailbox = [] ∧ Replies.Has replies n none ∧ r = .parent p (.path n) := by
  obtain ⟨p, b, n, hb, hn⟩ := hstands.parent i a ha hi
  obtain ⟨o, hbowes⟩ := h.each p b hb
  obtain ⟨replies, r', phase, reply, hr⟩ := (h.child p b n i a hb hn ha).asker howes
  exact ⟨p, b, n, replies, r', (hstands.child p b n i hb hn).1, hb, hn, phase, (hbowes.of_saving phase).1,
    reply, hr⟩

/-- A directory without changes has nothing to save. -/
theorem saving_clean (hstands : Stands env s.world s.forest place m)
    (hclient : ([], rootId) ∈ s.clientHandles) (hsaves : Saves s.forest) (ha : s.forest i = some a)
    (hi : i ≠ rootId) (hp : a.phase = .idle) {r : Responder} (hm : a.mailbox = [.saveIfDirty r])
    (hclean : a.dirty = false) : Saving env (s.step env (.run i)) m ∧
      (s.step env (.run i)).world = s.world := by
  have howes : a.Owes (some r) := .asked (by rw [hp]; rfl) hm
  obtain ⟨p, b, n, replies, r', hlt, hb, hn, hbp, hbmail, hreply, rfl⟩ :=
    hsaves.asker hstands ha hi howes
  obtain ⟨-, -, a0, ha0, hup⟩ := hstands.child p b n i hb hn
  obtain rfl := Option.some.inj (ha.symm.trans ha0)
  obtain ⟨ref, k, -, hctx, -⟩ := hup.linked
  have hrun : (s.turn i a).run env =
      ((s.turn i a).take []).emit (.saved (.parent p (.path n)) (.ok none)) := by
    have hroot : ((s.turn i a).take []).isRoot = false := by
      refine Bool.eq_false_iff.2 fun hr => ?_
      have hnone : a.context.parent = none := Turn.isRoot_iff.1 hr
      unfold DirContext.parent at hnone
      rw [hctx] at hnone
      cases hnone
    have hd : ((s.turn i a).take []).actor.dirty = false := hclean
    rw [run_message hp hm]
    show ((s.turn i a).take []).saveIfDirty env _ = _
    unfold Turn.saveIfDirty
    rw [hd, hroot]
    rfl
  obtain ⟨hf, hc⟩ := commit_saved (t := ((s.turn i a).take []).emit
    (.saved (.parent p (.path n)) (.ok none))) ha hb (Nat.ne_of_lt hlt) rfl rfl rfl
  have hidle : ∀ (x : String) (j : ActorId) c, a.dirHandles[x]? = some j → s.forest j = some c →
      c.Owes none := by
    intro x j c hx hc
    refine (hsaves.child i a x j c ha hx hc).owes_none fun replies r hs => ?_
    rw [hp] at hs
    cases hs
  rw [step_run ha, hrun, commit_world]
  refine ⟨⟨⟨place, ?_⟩, by rw [hc]; exact hclient, ?_⟩, rfl⟩
  · rw [hf, commit_world]
    refine stands_answered hstands ha hb hn hbp rfl rfl ((hstands.opened i a ha).hear [])
      (.refl _) (fun x c j _ _ hc => ?_) fun hup => ?_
    · refine hc.mono rfl rfl id (fun hm => absurd hm howes.no_mark) (fun k hk => ?_) fun k hk =>
        absurd hk List.not_mem_nil
      exact hk.imp_left fun hk => absurd hk howes.no_news
    · have hup' : Adopted p b n ((s.turn i a).take []).actor :=
        Stands.adopted_mono_right hup rfl .inl fun _ => id
      refine hup'.mono rfl rfl id .inr (fun k hk => ?_) fun _ => id
      rcases hk with hk | ⟨replies', r', hs, hk⟩
      · exact .inl hk
      · obtain ⟨rfl, -⟩ := Phase.saving.inj (hbp.symm.trans hs)
        cases hreply.2 _ hk rfl
  · rw [hf]
    have hphase : ((s.turn i a).take []).actor.phase = .idle := hp
    exact hsaves.answered hstands ha hb hn hbp howes hidle hphase rfl rfl hclean (.inl rfl)

/-- **A directory asks its children** to save themselves. -/
theorem saving_asks (hstands : Stands env s.world s.forest place m)
    (hclient : ([], rootId) ∈ s.clientHandles) (hsaves : Saves s.forest) (ha : s.forest i = some a)
    (hp : a.phase = .idle) {r : Responder} (hm : a.mailbox = [.saveIfDirty r]) (hsmall : small env a)
    (hdirty : i = rootId ∨ a.dirty = true) : Saving env (s.step env (.run i)) m ∧
      (s.step env (.run i)).world = s.world := by
  have howes : a.Owes (some r) := .asked (by rw [hp]; rfl) hm
  have hidle : a.phase.isRunning = true := by rw [hp]; rfl
  obtain ⟨hshards, hdir⟩ := (hstands.opened i a ha).dir hidle
  have hsmall' : small env ((s.turn i a).take []).actor := hsmall
  obtain ⟨len, ops, hshard⟩ := shardIfNeeded_small (t := (s.turn i a).take []) hdir.shardLevel hsmall'
  let a' : DirActor := { a with
    mailbox := []
    lastSerializedLen := len
    shardSizeCheckOps := ops
    phase := .saving ((Turn.children a).map fun x => (x.1, none)) r }
  let t : Turn β := { s.turn i a with
    actor := a'
    out := (Turn.children a).map fun x => .send x.2 (.saveIfDirty (.parent i x.1)) }
  have hrun : (s.turn i a).run env = t := by
    have hroot : (((s.turn i a).take []).actor.dirty || ((s.turn i a).take []).isRoot) = true := by
      rw [Bool.or_eq_true]
      rcases hdirty with hi | hd
      · right
        obtain ⟨b, hb, hctx, -⟩ := hstands.root
        obtain rfl := Option.some.inj (ha.symm.trans (hi ▸ hb))
        refine Turn.isRoot_iff.2 ?_
        show a.context.parent = none
        unfold DirContext.parent
        rw [hctx]
        rfl
      · exact .inl hd
    rw [run_message hp hm]
    show ((s.turn i a).take []).saveIfDirty env _ = _
    unfold Turn.saveIfDirty
    rw [if_pos hroot, hshard]
    rfl
  have hsettle : (s.settle t).forest = Function.update s.forest i (some a') := forest_settle ha rfl rfl
  have hnotdone : ∀ path stored, a.phase ≠ .executed path stored := by
    intro path stored he
    rw [hp] at he
    cases he
  have hset : Stands env s.world (s.settle t).forest place m := by
    rw [hsettle]
    refine hstands.set ha rfl rfl ((hstands.opened i a ha).goesOn hidle hnotdone rfl rfl rfl rfl rfl rfl)
      (.refl _) (fun _ => rfl) (fun _ _ _ _ _ _ _ => rfl) (fun x c j _ _ hc => ?_) .inl
      (fun _ he => Phase.noConfusion he) fun x k hk => absurd hk List.not_mem_nil
    refine hc.mono rfl rfl id (fun hm => absurd hm howes.no_mark) (fun k hk => ?_) fun k hk =>
      absurd hk List.not_mem_nil
    rcases hk with hk | ⟨replies', r', hs, -⟩
    · exact absurd hk howes.no_news
    · rw [hp] at hs
      cases hs
  -- every child is there
  have hchild : ∀ x ∈ Turn.children a, ∃ c, (s.settle t).forest x.2 = some c ∧ isStopped c = false := by
    intro x hx
    obtain ⟨n, -, hn⟩ := (mem_children hshards).1 hx
    obtain ⟨hlt, -, c, hc, -⟩ := hstands.child i a n x.2 ha hn
    refine ⟨c, ?_, (hstands.opened x.2 c hc).not_stopped⟩
    rw [hsettle, Function.update_of_ne (Nat.ne_of_gt hlt), hc]
  obtain ⟨-, hclients, hkeeps, hasked, hsame⟩ := emit_asks (s.settle t) (s.commit t) (Turn.children a)
    (nodup_children hstands ha hshards) hchild rfl
  have hof : ∀ {x : DirHandlePath × ActorId}, x ∈ Turn.children a → x.2 ≠ i := by
    intro x hx
    obtain ⟨n, -, hn⟩ := (mem_children hshards).1 hx
    exact Nat.ne_of_gt (hstands.child i a n x.2 ha hn).1
  have hnotself : i ∉ (Turn.children a).map Prod.snd := by
    intro hmem
    obtain ⟨x, hx, he⟩ := List.mem_map.1 hmem
    exact hof hx he
  rw [step_run ha, hrun]
  refine ⟨⟨⟨place, ?_⟩, by rw [hclients]; exact hclient, ?_⟩, commit_world s t⟩
  · rw [commit_world]
    exact hkeeps _ _ _ hset
  · have hself : (s.commit t).forest i = some a' := by
      rw [hsame i hnotself, hsettle, Function.update_self]
    refine hsaves.asks hstands ha hp hm hshards (fun hi => hdirty.resolve_left hi) hself rfl rfl rfl rfl
      (fun n j c hn hc => ?_) fun j hji hno => ?_
    · have hmem : (.path n, j) ∈ Turn.children a := (mem_children hshards).2 ⟨n, rfl, hn⟩
      refine hasked (.path n, j) hmem c ?_
      rw [hsettle, Function.update_of_ne (hof hmem), hc]
    · refine (hsame j fun hmem => ?_).trans ?_
      · obtain ⟨x, hx, rfl⟩ := List.mem_map.1 hmem
        obtain ⟨n, -, hn⟩ := (mem_children hshards).1 hx
        exact hno n hn
      · rw [hsettle, Function.update_of_ne hji]

/-! ## A directory is written -/

/-- What the answer of a child makes of the reference to it. -/
def setHash (v : Option (Except String (Option Hash))) (ref : DirRef) : DirRef :=
  match v with
  | some (.ok (some h)) => { ref with hash := h }
  | _ => ref

/-- The actor has taken over what its children have answered. -/
structure TakenOver (env : Env β) (w : World β) (m : FileMap) (replies : Replies) (a b : DirActor) :
    Prop where
  actor : ∃ dirs dirty, b = { a with state.dirs := dirs, dirty := dirty }
  dir : Open env w a.context.erase b.state a.dirHandles m
  dirty : a.dirty = true → b.dirty = true
  clean : b.dirty = false → b.state = a.state
  refs : ∀ (n : String) v, (∀ x ∈ replies, x.1 = .path n → x.2 = v) →
    ((∀ x ∈ replies, x.1 ≠ .path n) ∧ b.state.dirs[n]? = a.state.dirs[n]?) ∨
      ((∃ x ∈ replies, x.1 = .path n) ∧ b.state.dirs[n]? = a.state.dirs[n]?.map (setHash v))

omit [DecidableEq β] in
theorem TakenOver.ref {w : World β} {replies : Replies} (h : TakenOver env w m replies a b)
    {v : Option (Except String (Option Hash))} (hhas : replies.Has n v) :
    b.state.dirs[n]? = a.state.dirs[n]?.map (setHash v) := by
  obtain ⟨⟨x, hx, hxn⟩, hall⟩ := hhas
  rcases h.refs n v hall with ⟨hno, -⟩ | ⟨-, heq⟩
  · exact absurd hxn (hno x hx)
  · exact heq

omit [DecidableEq β] in
theorem taken_one {w : World β} (h : Open env w a.context.erase a.state a.dirHandles m)
    (hn : a.dirHandles[n]? = some j) (v : Option (Except String (Option Hash))) :
    TakenOver env w m [(.path n, v)] a (Turn.takeReply a (.path n, v)) := by
  obtain ⟨ref, href⟩ := Option.isSome_iff_exists.1 (ExtTreeMap.mem_iff_isSome_getElem?.1 (h.held n j hn))
  -- nothing is new, or the reference has another hash
  have hcases : (Turn.takeReply a (.path n, v) = a ∧ setHash v ref = ref) ∨
      ∃ k, v = some (.ok (some k)) ∧ Turn.takeReply a (.path n, v) =
        { a with state.dirs := a.state.dirs.insert n { ref with hash := k }, dirty := true } := by
    rcases v with _ | e | _ | k
    · exact .inl ⟨rfl, rfl⟩
    · exact .inl ⟨rfl, rfl⟩
    · exact .inl ⟨rfl, rfl⟩
    · by_cases hk : ref.hash = k
      · refine .inl ⟨?_, by rw [← hk]; rfl⟩
        simp only [Turn.takeReply, Turn.updateHash, href, if_pos hk]
      · refine .inr ⟨k, rfl, ?_⟩
        simp only [Turn.takeReply, Turn.updateHash, href, if_neg hk]
  rcases hcases with ⟨heq, hsame⟩ | ⟨k, rfl, heq⟩
  · rw [heq]
    refine ⟨⟨_, _, rfl⟩, h, id, fun _ => rfl, fun x v' hv => ?_⟩
    by_cases hx : x = n
    · right
      obtain rfl := hv _ List.mem_cons_self (by rw [hx])
      refine ⟨⟨_, List.mem_cons_self, by rw [hx]⟩, ?_⟩
      rw [hx, href, Option.map_some, hsame]
    · left
      refine ⟨List.forall_mem_singleton.2 fun he => hx (DirHandlePath.path.inj he).symm, rfl⟩
  · rw [heq]
    refine ⟨⟨_, _, rfl⟩, h.rehash href hn k, fun _ => rfl, fun hd => Bool.noConfusion hd,
      fun x v' hv => ?_⟩
    show _ ∧ (a.state.dirs.insert n { ref with hash := k })[x]? = _ ∨
      _ ∧ (a.state.dirs.insert n { ref with hash := k })[x]? = _
    rw [ExtTreeMap.getElem?_insert_ite]
    by_cases hx : x = n
    · right
      obtain rfl := hv _ List.mem_cons_self (by rw [hx])
      refine ⟨⟨_, List.mem_cons_self, by rw [hx]⟩, ?_⟩
      rw [if_pos hx, hx, href]
      rfl
    · left
      refine ⟨List.forall_mem_singleton.2 fun he => hx (DirHandlePath.path.inj he).symm, if_neg hx⟩

theorem setHash_setHash (v : Option (Except String (Option Hash))) (ref : DirRef) :
    setHash v (setHash v ref) = setHash v ref := by
  rcases v with _ | e | _ | k <;> rfl

omit [DecidableEq β] in
theorem taken_foldl {w : World β} {replies : Replies}
    (h : Open env w a.context.erase a.state a.dirHandles m)
    (hslots : ∀ x ∈ replies, ∃ (n : String) (k : ActorId), x.1 = .path n ∧ a.dirHandles[n]? = some k) :
    TakenOver env w m replies a (replies.foldl Turn.takeReply a) := by
  induction replies generalizing a with
  | nil => exact ⟨⟨_, _, rfl⟩, h, id, fun _ => rfl, fun _ _ _ => .inl ⟨List.forall_mem_nil _, rfl⟩⟩
  | cons x replies ih =>
    obtain ⟨path, v⟩ := x
    obtain ⟨⟨n, k, hpath, hn⟩, hslots⟩ := List.forall_mem_cons.1 hslots
    obtain rfl : path = .path n := hpath
    have hone := taken_one h hn v
    rw [List.foldl_cons]
    generalize hb : Turn.takeReply a (.path n, v) = b at hone
    obtain ⟨⟨dirs, dirty, hbeq⟩, hdir, hdirty, hclean, hrefs⟩ := hone
    have hctx : b.context = a.context := by rw [hbeq]
    have hhandles : b.dirHandles = a.dirHandles := by rw [hbeq]
    have hrest := @ih b (by rwa [hctx, hhandles]) (by rwa [hhandles])
    obtain ⟨⟨dirs', dirty', hceq⟩, hdir', hdirty', hclean', hrefs'⟩ := hrest
    refine ⟨⟨dirs', dirty', ?_⟩, by rwa [hctx, hhandles] at hdir', fun hd => hdirty' (hdirty hd),
      fun hd => ?_, fun x v' hv => ?_⟩
    · rw [hceq, hbeq]
    · refine (hclean' hd).trans (hclean ?_)
      cases hbd : b.dirty with
      | false => rfl
      | true =>
        rw [hdirty' hbd] at hd
        cases hd
    · obtain ⟨hv1, hv2⟩ := List.forall_mem_cons.1 hv
      rcases hrefs x v' (List.forall_mem_singleton.2 hv1) with ⟨hno, heq⟩ | ⟨hyes, heq⟩
      · rcases hrefs' x v' hv2 with ⟨hno', heq'⟩ | ⟨⟨y, hy, hyx⟩, heq'⟩
        · exact .inl ⟨List.forall_mem_cons.2 ⟨hno _ List.mem_cons_self, hno'⟩, heq'.trans heq⟩
        · exact .inr ⟨⟨y, List.mem_cons_of_mem _ hy, hyx⟩, by rw [heq', heq]⟩
      · obtain ⟨y, hy, hyx⟩ := hyes
        obtain rfl := List.mem_singleton.1 hy
        refine .inr ⟨⟨_, List.mem_cons_self, hyx⟩, ?_⟩
        rcases hrefs' x v' hv2 with ⟨-, heq'⟩ | ⟨-, heq'⟩
        · rw [heq', heq]
        · rw [heq', heq, Option.map_map]
          exact congrArg (Option.map · _) (funext fun ref => setHash_setHash v' ref)

omit [DecidableEq β] in
/-- A child whose hash has been taken over. -/
theorem adopted_taken {c : DirActor} (h : Adopted i a n c) (hmail : a.mailbox = []) {replies : Replies}
    {r : Responder} (hp : a.phase = .saving replies r) {v : Except String (Option Hash)}
    (hreply : Replies.Has replies n (some v)) (hclean : c.dirty = false)
    (hvalue : v = .ok none ∨ ∃ k, v = .ok (some k) ∧ c.context.link = .dirHandle (.path n) i k 0)
    {link : DirContextParentLink ActorId} (hctx : b.context = { a.context with link })
    (hbmail : b.mailbox = [])
    (href : b.state.dirs[n]? = a.state.dirs[n]?.map (setHash (some v))) : Adopted i b n c := by
  obtain ⟨ref, k, href0, hctx0, hhash, -⟩ := h.linked
  refine ⟨⟨setHash (some v) ref, k, by rw [href, href0]; rfl, ?_, .inl ?_, fun l hl => ?_⟩, fun hd => ?_,
    fun d _ l hl => ?_⟩
  · rw [hctx0, hctx]
    rcases v with e | _ | l <;> rfl
  · rcases hvalue with rfl | ⟨l, rfl, hlink⟩
    · rcases hhash with hhash | hm | ⟨replies', r', hs, hm⟩
      · exact hhash
      · rw [hmail] at hm
        cases hm
      · obtain ⟨rfl, -⟩ := Phase.saving.inj (hp.symm.trans hs)
        cases hreply.2 _ hm rfl
    · rw [hctx0] at hlink
      have hlink' : DirContextParentLink.dirHandle (.path n) i k 0 = .dirHandle (.path n) i l 0 := hlink
      obtain ⟨-, -, rfl, -⟩ := DirContextParentLink.dirHandle.inj hlink'
      rfl
  · rw [hbmail] at hl
    cases hl
  · rw [hclean] at hd
    cases hd
  · rw [hbmail] at hl
    cases hl

/-- A child whose parent has all the answers. -/
theorem attends_all {c : DirActor} (h : Attends i a n c) {replies : Replies} {r : Responder}
    (hp : a.phase = .saving replies r) (hall : replies.all (·.2.isSome) = true) :
    ∃ v, Replies.Has replies n (some v) ∧ c.Owes none ∧ c.dirty = false ∧
      (v = .ok none ∨ ∃ k, v = .ok (some k) ∧ c.context.link = .dirHandle (.path n) i k 0) := by
  cases h with
  | idle owes phase => exact absurd hp (phase _ _)
  | asked phase reply owes =>
    obtain ⟨rfl, -⟩ := Phase.saving.inj (hp.symm.trans phase)
    obtain ⟨⟨x, hx, hxn⟩, hnone⟩ := reply
    have hsome := List.all_eq_true.1 hall x hx
    rw [hnone x hx hxn] at hsome
    cases hsome
  | answered phase reply owes clean value =>
    obtain ⟨rfl, -⟩ := Phase.saving.inj (hp.symm.trans phase)
    exact ⟨_, reply, owes, clean, value⟩

theorem run_saving {replies : Replies} {r : Responder} (hp : a.phase = .saving replies r) :
    (s.turn i a).run env =
      if replies.all (·.2.isSome) then (s.turn i a).finishSave env replies r else s.turn i a := by
  have hp' : (s.turn i a).actor.phase = .saving replies r := hp
  unfold Turn.run
  split
  case h_5 =>
    rename_i hp''
    rw [hp'] at hp''
    obtain ⟨rfl, rfl⟩ := Phase.saving.inj hp''
    rfl
  all_goals
    rename_i hp''
    rw [hp'] at hp''
    cases hp''

/-- **A child directory is written** when its children have answered, and answers itself. -/
theorem saving_finish (law : env.Lawful) (hstore : ∀ n, env.storeFails n = false)
    (hstands : Stands env s.world s.forest place m) (hclient : ([], rootId) ∈ s.clientHandles)
    (hsaves : Saves s.forest) (ha : s.forest i = some a) (hi : i ≠ rootId) {replies : Replies}
    {r : Responder} (hp : a.phase = .saving replies r) (hall : replies.all (·.2.isSome) = true)
    (hc : (s.step env (.run i)).world.collided = false) : Saving env (s.step env (.run i)) m ∧
      Kept s.world (s.step env (.run i)).world := by
  have hrunning : a.phase.isRunning = true := by rw [hp]; rfl
  obtain ⟨hshards, hdir⟩ := (hstands.opened i a ha).dir hrunning
  obtain ⟨o, ho⟩ := hsaves.each i a ha
  obtain ⟨hmail, howes⟩ := ho.of_saving hp
  obtain ⟨p, b, n, replies', r', hlt, hb, hn, hbp, hbmail, hreply, rfl⟩ :=
    hsaves.asker hstands ha hi howes
  obtain ⟨-, -, a0, ha0, hup⟩ := hstands.child p b n i hb hn
  obtain rfl := Option.some.inj (ha.symm.trans ha0)
  obtain ⟨ref, k, -, hctx, -⟩ := hup.linked
  have hlink : a.context.link = .dirHandle (.path n) p k 0 := by rw [hctx]; rfl
  -- the hashes of the children are taken over
  have htaken := taken_foldl hdir (hsaves.asked i a replies _ ha hp)
  have hdirty := htaken.dirty (hsaves.dirty i a replies _ ha hp hi)
  obtain ⟨dirs, dirty, hfold⟩ := htaken.actor
  generalize hc0 : replies.foldl Turn.takeReply a = c0 at htaken hdirty hfold
  obtain ⟨w', x, hpersist, hkept, hload⟩ :=
    Actor.persist_child law hstore s.world hlink hdir.encodable c0.state
  let a' : DirActor := { c0 with
    context := { a.context with link := .dirHandle (.path n) p x 0 }
    phase := .idle
    dirty := false }
  let t : Turn β := { s.turn i a with
    world := w'
    actor := a'
    out := [.saved (.parent p (.path n)) (.ok (some x))] }
  have hrun : (s.turn i a).run env = t := by
    have hctx0 : c0.context = a.context := by rw [hfold]
    rw [run_saving hp, if_pos hall]
    unfold Turn.finishSave
    have hc0' : replies.foldl Turn.takeReply (s.turn i a).actor = c0 := hc0
    rw [hc0']
    dsimp only
    rw [if_pos hdirty]
    unfold Turn.save
    dsimp only
    rw [hctx0, show persist env a.context c0.state (s.turn i a).world = _ from hpersist]
    rfl
  have hhandles : a'.dirHandles = a.dirHandles := by
    show c0.dirHandles = _
    rw [hfold]
  have hmail' : a'.mailbox = [] := by
    show c0.mailbox = _
    rw [hfold]
    exact hmail
  have hshards' : a'.dirShardHandles = ∅ := by
    show c0.dirShardHandles = _
    rw [hfold]
    exact hshards
  have hphase : a'.phase = .idle := rfl
  obtain ⟨hf, hclients⟩ := commit_saved (t := t) ha hb (Nat.ne_of_lt hlt) rfl rfl rfl
  rw [step_run ha, hrun, commit_world] at hc
  rw [step_run ha, hrun, commit_world]
  refine ⟨⟨⟨place, ?_⟩, by rw [hclients]; exact hclient, ?_⟩, hkept⟩
  · rw [hf, commit_world]
    refine stands_answered hstands ha hb hn hbp hhandles hmail' ?_ hkept (fun y c j hy hc hh => ?_)
      fun hup => ?_
    · refine .running rfl hshards' ?_ fun _ _ => hload hc
      rw [hhandles]
      exact (htaken.dir.grown hkept.grows).of_context rfl rfl rfl
    · obtain ⟨v, hhas, -, hclean, hvalue⟩ := attends_all (hsaves.child i a y j c ha hy hc) hp hall
      refine adopted_taken hh hmail hp hhas hclean hvalue rfl hmail' ?_
      exact htaken.ref hhas
    · refine adopted_saved { b with phase := .saving (stored replies' n (.ok (some x))) r' } hup rfl rfl
        (.inr ⟨_, r', rfl, ?_⟩) (fun l hl => ?_) rfl nofun id nofun
      · obtain ⟨⟨z, hz, hzn⟩, hall⟩ := has_stored (v := .ok (some x)) hreply
        rw [← hall z hz hzn, ← hzn]
        exact hz
      · have hl' : .updateDirRefHash (.path n) l ∈ b.mailbox := hl
        rw [hbmail] at hl'
        cases hl'
  · rw [hf]
    refine hsaves.answered hstands ha hb hn hbp howes (fun y j c hy hc => ?_) hphase hmail' hhandles rfl
      (.inr ⟨x, rfl, rfl⟩)
    obtain ⟨-, -, owes, -⟩ := attends_all (hsaves.child i a y j c ha hy hc) hp hall
    exact owes

/-! ## The root is written -/

omit [DecidableEq β] in
theorem moveHead_eq (t : Turn β) (h : Hash) :
    ∃ localRoot currentHash, t.moveHead h = { t with localRoot, actor.currentHash := currentHash } := by
  unfold Turn.moveHead
  cases t.localRoot.pins with
  | none => exact ⟨t.localRoot, t.actor.currentHash, rfl⟩
  | some pins => exact ⟨_, _, rfl⟩

/-- The directory of a local root is saved in the root file. -/
theorem save_root (law : env.Lawful) (hstore : ∀ n, env.storeFails n = false)
    (hctx : t.actor.context = .localRoot) : ∃ w' localRoot currentHash, t.save env false =
        ({ t with world := w', localRoot, actor.currentHash := currentHash }, .ok none) ∧
      t.world.Grows w' ∧
      ∃ len, load env (.localRoot : DirContext ActorId) w' = .ok (t.actor.state, len) := by
  obtain ⟨w', hpersist, hg, hfile, hload⟩ := persist_root law hstore t.world t.actor.state
  obtain ⟨localRoot, currentHash, hmove⟩ :=
    moveHead_eq { t with world := w', actor.context := .localRoot }
      (env.blake3 (env.toBytes t.actor.state))
  refine ⟨w', { localRoot with saved := true }, currentHash, ?_, hg, hload⟩
  have hpersist' : persist env t.actor.context t.actor.state t.world = (w', .ok (.localRoot, none)) := by
    rw [hctx]
    exact hpersist
  unfold Turn.save
  rw [hpersist']
  dsimp only
  rw [show (DirContext.localRoot : DirContext ActorId).link = .localFile from rfl]
  dsimp only
  rw [hfile]
  dsimp only
  rw [hmove]
  dsimp only
  rw [hctx]

/-- The actor `a` has finished a save. -/
structure Written (a a' : DirActor) : Prop where
  phase : a'.phase = .idle
  dirty : a'.dirty = false
  state : a'.state = a.state
  context : a'.context = a.context
  mailbox : a'.mailbox = a.mailbox
  dirHandles : a'.dirHandles = a.dirHandles
  dirShardHandles : a'.dirShardHandles = a.dirShardHandles

/-- The end of the root's save: its directory is in the root file. -/
theorem finishSave_root (law : env.Lawful) (hstore : ∀ n, env.storeFails n = false)
    {replies : Replies} {r : Responder} (hctx : b.context = .localRoot)
    (hb : replies.foldl Turn.takeReply a = b)
    (hclean : b.dirty = false → ∃ len, load env b.context s.world = .ok (b.state, len)) :
    ∃ w' localRoot a' v, (s.turn i a).finishSave env replies r =
        { s.turn i a with
          world := w'
          localRoot
          actor := a'
          out := [.saved r v] } ∧
      Written b a' ∧ s.world.Grows w' ∧
      ∃ len, load env (.localRoot : DirContext ActorId) w' = .ok (b.state, len) := by
  have hb' : replies.foldl Turn.takeReply (s.turn i a).actor = b := hb
  unfold Turn.finishSave
  rw [hb']
  dsimp only
  by_cases hd : b.dirty = true
  · obtain ⟨w', localRoot, currentHash, hsave, hg, hload⟩ := save_root (t := { s.turn i a with
      actor := { b with phase := .idle } }) law hstore hctx
    rw [if_pos hd, hsave]
    exact ⟨w', localRoot, { b with
      phase := .idle
      dirty := false
      currentHash }, .ok none, rfl, ⟨rfl, rfl, rfl, rfl, rfl, rfl, rfl⟩, hg, hload⟩
  · rw [if_neg hd]
    rw [hctx] at hclean
    exact ⟨s.world, s.localRoot, { b with phase := .idle }, .ok none, rfl,
      ⟨rfl, Bool.eq_false_iff.2 hd, rfl, rfl, rfl, rfl, rfl⟩, .refl _, hclean (Bool.eq_false_iff.2 hd)⟩

omit [DecidableEq β] in
/-- When the root has all the answers, the others have nothing to do. -/
theorem Saves.others (h : Saves s.forest) (hstands : Stands env s.world s.forest place m)
    (ha : s.forest rootId = some a) {replies : Replies} {r : Responder}
    (hp : a.phase = .saving replies r) (hall : replies.all (·.2.isSome) = true) {c : DirActor}
    (hc : s.forest j = some c) (hj : j ≠ rootId) : c.Owes none := by
  induction j using Nat.strongRecOn generalizing c with
  | ind j ih =>
    obtain ⟨p, b, n, hb, hn⟩ := hstands.parent j c hc hj
    have hlt := (hstands.child p b n j hb hn).1
    have hattends := h.child p b n j c hb hn hc
    by_cases hpr : p = rootId
    · obtain rfl := Option.some.inj (ha.symm.trans (hpr ▸ hb))
      obtain ⟨-, -, owes, -⟩ := attends_all hattends hp hall
      exact owes
    · have howes := ih p hlt hb hpr
      cases hattends with
      | idle owes => exact owes
      | asked phase =>
        cases howes with
        | nobody hw =>
          rw [phase] at hw
          cases hw
      | answered _ _ owes => exact owes

omit [DecidableEq β] in
/-- The root has taken over what its children have answered, and is in the root file. -/
theorem stands_written {w' : World β} (hstands : Stands env s.world s.forest place m)
    (hsaves : Saves s.forest) (ha : s.forest rootId = some a) (hctx : a.context = .localRoot)
    {replies : Replies} {r : Responder} (hp : a.phase = .saving replies r) (hmail : a.mailbox = [])
    (hall : replies.all (·.2.isSome) = true)
    (htaken : TakenOver env s.world (fun segs => m (place rootId ++ segs)) replies a b)
    (hwritten : Written b a') (hg : s.world.Grows w')
    (hload : ∃ len, load env (.localRoot : DirContext ActorId) w' = .ok (b.state, len)) :
    Stands env w' (Function.update s.forest rootId (some a')) place m := by
  obtain ⟨hshards, -⟩ := (hstands.opened rootId a ha).dir (by rw [hp]; rfl)
  obtain ⟨dirs, dirty, hfold⟩ := htaken.actor
  have hhandles : a'.dirHandles = a.dirHandles := by
    rw [hwritten.dirHandles, hfold]
  have hmail' : a'.mailbox = [] := by
    rw [hwritten.mailbox, hfold]
    exact hmail
  have hctx' : a'.context = a.context := by
    rw [hwritten.context, hfold]
  refine hstands.set ha hhandles hctx' ?_ hg (fun hi => absurd rfl hi) (fun _ _ _ _ _ _ _ => rfl)
    (fun y c j hy hc hh => ?_) (fun hd => ?_) (fun d hd => ?_) fun y l hm => ?_
  · refine .running (by rw [hwritten.phase]; rfl) ?_ ?_ fun _ _ => ?_
    · rw [hwritten.dirShardHandles, hfold]
      exact hshards
    · rw [hctx', hwritten.state, hhandles]
      exact htaken.dir.grown hg
    · rw [hctx', hctx, hwritten.state]
      exact hload
  · obtain ⟨v', hhas, -, hclean, hvalue⟩ := attends_all (hsaves.child _ a y j c ha hy hc) hp hall
    have hctxs : a'.context = { a.context with link := .localFile } := by
      rw [hctx', hctx]
      rfl
    refine adopted_taken hh hmail hp hhas hclean hvalue hctxs hmail' ?_
    rw [hwritten.state]
    exact htaken.ref hhas
  · rw [hwritten.dirty] at hd
    cases hd
  · rw [hwritten.phase] at hd
    cases hd
  · rw [hmail'] at hm
    cases hm

/-- **The root is written** when its children have answered. -/
theorem saving_root (law : env.Lawful) (hstore : ∀ n, env.storeFails n = false)
    (hstands : Stands env s.world s.forest place m) (hclient : ([], rootId) ∈ s.clientHandles)
    (hsaves : Saves s.forest) (ha : s.forest rootId = some a) {replies : Replies} {r : Responder}
    (hp : a.phase = .saving replies r) (hall : replies.all (·.2.isSome) = true) :
    Settling env (s.step env (.run rootId)) m ∧
      Shelved env (s.step env (.run rootId)).world .localRoot m := by
  have hopened := hstands.opened rootId a ha
  obtain ⟨-, hdir⟩ := hopened.dir (by rw [hp]; rfl)
  obtain ⟨a0, k, ha0, ho⟩ := hsaves.root
  obtain rfl := Option.some.inj (ha.symm.trans ha0)
  obtain ⟨hmail, howes⟩ := ho.of_saving hp
  obtain rfl := Option.some.inj (ho.unique howes)
  obtain ⟨a0, ha0, hctx, -⟩ := hstands.root
  obtain rfl := Option.some.inj (ha.symm.trans ha0)
  -- the hashes of the children are taken over
  have htaken := taken_foldl hdir (hsaves.asked rootId a replies _ ha hp)
  obtain ⟨dirs, dirty, hfold⟩ := htaken.actor
  generalize hc0 : replies.foldl Turn.takeReply a = c0 at htaken hfold
  have hctx0 : c0.context = .localRoot := by
    rw [hfold]
    exact hctx
  have hclean : c0.dirty = false → ∃ len, load env c0.context s.world = .ok (c0.state, len) := by
    intro hd
    cases hopened with
    | unread phase =>
      rw [hp] at phase
      cases phase
    | unsaved phase =>
      rw [hp] at phase
      cases phase
    | running _ _ _ clean =>
      have had : a.dirty = false := by
        cases had : a.dirty with
        | false => rfl
        | true =>
          rw [htaken.dirty had] at hd
          cases hd
      rw [hctx0, ← hctx, htaken.clean hd]
      exact clean (by rw [hp]; nofun) had
  obtain ⟨w', localRoot, a', v, hfinish, hwritten, hg, hload⟩ :=
    finishSave_root (s := s) (i := rootId) (r := .client k) law hstore hctx0 hc0 hclean
  let t : Turn β := { s.turn rootId a with
    world := w'
    localRoot
    actor := a'
    out := [.saved (.client k) v] }
  have hrun : (s.turn rootId a).run env = t := by
    rw [run_saving hp, if_pos hall, hfinish]
  have hsettle : (s.commit t).forest = Function.update s.forest rootId (some a') :=
    forest_settle (t := t) ha rfl rfl
  have hset : Stands env w' (s.commit t).forest place m := by
    rw [hsettle]
    exact stands_written hstands hsaves ha hctx hp hmail hall htaken hwritten hg hload
  have hmail' : a'.mailbox = [] := by
    rw [hwritten.mailbox, hfold]
    exact hmail
  have hrest : ∀ (j : ActorId) c, (s.commit t).forest j = some c → c.atRest = true := by
    intro j c hc
    rw [hsettle] at hc
    rcases Forest.update_cases hc with ⟨-, rfl⟩ | ⟨hj, hc⟩
    · exact atRest_iff.2 ⟨by rw [hwritten.phase]; rfl, hmail'⟩
    · cases hsaves.others hstands ha hp hall hc hj with
      | nobody phase mailbox => exact atRest_iff.2 ⟨phase, mailbox⟩
  have hself : (s.commit t).forest rootId = some a' := by
    rw [hsettle, Function.update_self]
  rw [step_run ha, hrun]
  have hshelved := hset.shelved hrest (fun j c hc => lt_of_forest hc) hself hwritten.dirty
  rw [hwritten.context, hctx0, hstands.top] at hshelved
  rw [commit_world]
  refine ⟨⟨⟨place, ?_⟩, hclient, fun j c hc => isSettling_of_atRest (hrest j c hc)⟩, hshelved⟩
  rw [commit_world]
  exact hset

/-! ## Turns -/

theorem saving_wake (h : Saving env s m) (ha : s.forest i = some a) (hp : a.phase = .starting none) :
    Saving env (s.step env (.run i)) m ∧ (s.step env (.run i)).world = s.world := by
  obtain ⟨⟨place, hstands⟩, hclient, hsaves⟩ := h
  obtain ⟨a', hwakes, hf, hw, hclients, hset⟩ := step_wake hstands ha hp
  refine ⟨⟨⟨place, hset⟩, by rw [hclients]; exact hclient, ?_⟩, hw⟩
  rw [hf]
  exact hsaves.wake ha hwakes hp

/-- **A turn during a save** changes no file, and the last one leaves them all in the store. -/
theorem saving_step (law : env.Lawful) (hstore : ∀ n, env.storeFails n = false) (h : Saving env s m)
    (i : ActorId) (hop : ∀ a, s.forest i = some a → orderly env a = true)
    (hc : (s.step env (.run i)).world.collided = false) :
    (Saving env (s.step env (.run i)) m ∧ Kept s.world (s.step env (.run i)).world) ∨
      (Settling env (s.step env (.run i)) m ∧ Shelved env (s.step env (.run i)).world .localRoot m) := by
  have hsame : (Saving env (s.step env (.run i)) m ∧ (s.step env (.run i)).world = s.world) →
      Saving env (s.step env (.run i)) m ∧ Kept s.world (s.step env (.run i)).world := by
    rintro ⟨hs, hw⟩
    rw [hw]
    exact ⟨hs, .refl _⟩
  have hnothing : s.step env (.run i) = s →
      Saving env (s.step env (.run i)) m ∧ Kept s.world (s.step env (.run i)).world := by
    intro he
    rw [he]
    exact ⟨h, .refl _⟩
  obtain ⟨⟨place, hstands⟩, hclient, hsaves⟩ := h
  cases ha : s.forest i with
  | none => exact .inl (hnothing (step_run_none ha))
  | some a =>
    obtain ⟨o, ho⟩ := hsaves.each i a ha
    cases ho with
    | nobody hwait hm =>
      left
      rcases isWaiting_iff.1 hwait with hp | hp
      · exact hsame (saving_wake ⟨⟨place, hstands⟩, hclient, hsaves⟩ ha hp)
      · exact hnothing (step_idle ha hp hm)
    | asked hwait hm =>
      left
      rcases isWaiting_iff.1 hwait with hp | hp
      · exact hsame (saving_wake ⟨⟨place, hstands⟩, hclient, hsaves⟩ ha hp)
      · have hsmall : small env a = true := by
          have hturn := hop a ha
          unfold orderly at hturn
          rwa [hm] at hturn
        by_cases hd : i = rootId ∨ a.dirty = true
        · exact hsame (saving_asks hstands hclient hsaves ha hp hm hsmall hd)
        · obtain ⟨hi, hclean⟩ := not_or.1 hd
          exact hsame (saving_clean hstands hclient hsaves ha hi hp hm (Bool.eq_false_iff.2 hclean))
    | @saving replies r hp hm =>
      by_cases hall : replies.all (·.2.isSome) = true
      · by_cases hi : i = rootId
        · subst hi
          exact .inr (saving_root law hstore hstands hclient hsaves ha hp hall)
        · exact .inl (saving_finish law hstore hstands hclient hsaves ha hi hp hall hc)
      · refine .inl (hnothing ?_)
        rw [step_run ha, run_saving hp, if_neg hall, commit_turn ha]

end System

end Fs
