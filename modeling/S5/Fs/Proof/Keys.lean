import S5.Fs.Keys

/-!
# Sealed blobs

What is written is sealed as the reference to it says: a directory that saves itself
(`sealed_encodeStateBytes`), a child or a shard that its parent writes (`good_writeChild`) and the
groups that a promotion splits off (`promotes_optimizeFrom`).
-/

open Std

namespace Fs

variable {ι β : Type} {env : Env β} {S S' : Sealing} {taken : Bytes32 → Prop} {w w' : World β}

/-! ## Growing typings -/

/-- The store typing `S'` lists all that `S` lists. -/
def Sealing.Le (S S' : Sealing) : Prop := ∀ s l, S s l → S' s l

theorem Sealing.Le.refl (S : Sealing) : S.Le S := fun _ _ h => h

theorem Sealing.Le.trans {S S' S'' : Sealing} (h : S.Le S') (h' : S'.Le S'') : S.Le S'' :=
  fun s l hS => h' s l (h s l hS)

def Sealing.add (S : Sealing) (s : Seal) (l : Loc) : Sealing := fun s' l' => S s' l' ∨ s' = s ∧ l' = l

theorem Sealing.le_add (S : Sealing) (s : Seal) (l : Loc) : S.Le (S.add s l) := fun _ _ => .inl

theorem Sealing.add_self (S : Sealing) (s : Seal) (l : Loc) : S.add s l s l := .inr ⟨rfl, rfl⟩

theorem Refs.mono {s : Seal} {d : DirV1} (h : Refs S s d) (hle : S.Le S') : Refs S' s d := by
  intro path dirRef hr
  obtain ⟨s', ho, hS⟩ := h path dirRef hr
  exact ⟨s', ho, hle _ _ hS⟩

theorem refAt_new (path : DirHandlePath) : DirV1.new.refAt path = none := by
  cases path <;> simp [DirV1.refAt, DirV1.new, DirHeader.new]

theorem refs_new (s : Seal) : Refs S s .new := by
  intro path dirRef hr
  rw [refAt_new] at hr
  exact nomatch hr

/-- The references lead to what is listed under every seal of the kind of `s`, encrypted or not. -/
def RefsAny (S : Sealing) (s : Seal) (d : DirV1) : Prop := ∀ s', s'.isSome = s.isSome → Refs S s' d

theorem RefsAny.mono {s : Seal} {d : DirV1} (h : RefsAny S s d) (hle : S.Le S') : RefsAny S' s d :=
  fun s' hs => (h s' hs).mono hle

theorem Sealing.Good.not_zero (hg : S.Good env taken w) (hw : w.Sane env taken) {s : Seal} :
    ¬ S s (.blob 0) := by
  intro h
  obtain ⟨d, hd, -⟩ := hg.stored s _ h
  unfold World.stored at hd
  dsimp only at hd
  rw [hw.zero] at hd
  exact nomatch hd

/-- Blobs are added and values are drawn, nothing else. -/
structure World.Onward (w w' : World β) : Prop where
  grows : w.Grows w'
  tick : w.tick ≤ w'.tick
  rootFile : w'.rootFile = w.rootFile

theorem World.Onward.refl (w : World β) : w.Onward w := ⟨.refl w, Nat.le_refl _, rfl⟩

theorem World.Onward.trans {w w' w'' : World β} (h : w.Onward w') (h' : w'.Onward w'') :
    w.Onward w'' :=
  ⟨h.grows.trans h'.grows, Nat.le_trans h.tick h'.tick, h'.rootFile.trans h.rootFile⟩

theorem World.onward_next (w : World β) : w.Onward w.next := ⟨w.grows_next, Nat.le_succ _, rfl⟩

/-- What is sane now has always been. -/
theorem World.Sane.of_le (h : w'.Sane env taken) (hc : w'.collided = false → w.collided = false)
    (hs : ∀ (h : Hash) (b : β), w.store[h]? = some b → w'.store[h]? = some b)
    (ht : w.tick ≤ w'.tick) : w.Sane env taken where
  collided := hc h.collided
  zero := by
    cases hz : w.store[(0 : Hash)]? with
    | none => rfl
    | some b =>
      have := hs 0 b hz
      rw [h.zero] at this
      exact nomatch this
  distinct m n hmn hn := h.distinct m n hmn (by omega)
  untaken n hn := h.untaken n (by omega)

theorem World.Onward.sane (h : w.Onward w') (hw : w'.Sane env taken) : w.Sane env taken :=
  hw.of_le h.grows.collided h.grows.store h.tick

theorem World.Drawn.mono {k : Bytes32} (h : w.Drawn env taken k)
    (ht : w.tick ≤ w'.tick) : w'.Drawn env taken k := by
  rcases h with h | ⟨n, hn, rfl⟩
  · exact .inl h
  · exact .inr ⟨n, by omega, rfl⟩

theorem stored_mono (hs : ∀ (h : Hash) (b : β), w.store[h]? = some b → w'.store[h]? = some b)
    (hr : w'.registry = w.registry) {s : Seal} {l : Loc} {d : DirV1}
    (h : w.stored env s l = some d) : w'.stored env s l = some d := by
  have hblob : ∀ k : Hash, (w.store[k]?.bind (unsealed env s)).bind env.fromBytes = some d →
      (w'.store[k]?.bind (unsealed env s)).bind env.fromBytes = some d := by
    intro k hk
    cases hb : w.store[k]? with
    | none => simp [hb] at hk
    | some b =>
      rw [hb] at hk
      rw [hs k b hb]
      exact hk
  cases l with
  | blob k => exact hblob k h
  | pointer k =>
    unfold World.stored at h ⊢
    rw [hr]
    dsimp only at h ⊢
    cases hk : w.registry[k]? with
    | none =>
      rw [hk] at h
      exact h
    | some entry =>
      rw [hk] at h
      exact hblob entry.hash h

/-- More blobs and more draws do no harm. -/
theorem Sealing.Good.onward (hg : S.Good env taken w) (h : w.Onward w') : S.Good env taken w' where
  stored s l hS := by
    obtain ⟨d, hd, hr⟩ := hg.stored s l hS
    exact ⟨d, stored_mono h.grows.store h.grows.registry hd, hr⟩
  pointers := hg.pointers
  drawn s k hS := (hg.drawn s k hS).mono h.tick
  registered k hk := by
    rw [h.grows.registry] at hk
    exact (hg.registered k hk).mono h.tick

theorem RootGood.of_rootFile {root : DirContext ι} (hr : RootGood env S w root)
    (h : w'.rootFile = w.rootFile) : RootGood env S w' root := by
  obtain ⟨s, hs, hl | ⟨hlink, hn, b, hb⟩⟩ := hr
  · exact ⟨s, hs, .inl hl⟩
  · exact ⟨s, hs, .inr ⟨hlink, hn, b, h ▸ hb⟩⟩

theorem RootGood.onward {root : DirContext ι} (hr : RootGood env S w root) (h : w.Onward w') :
    RootGood env S w' root :=
  hr.of_rootFile h.rootFile

theorem RootGood.mono {root : DirContext ι} (hr : RootGood env S w root) (hle : S.Le S') :
    RootGood env S' w root := by
  obtain ⟨s, hs, ⟨l, hl, hS⟩ | ⟨hlink, hn, b, d, hb, hd, hrefs⟩⟩ := hr
  · exact ⟨s, hs, .inl ⟨l, hl, hle _ _ hS⟩⟩
  · exact ⟨s, hs, .inr ⟨hlink, hn, b, d, hb, hd, hrefs.mono hle⟩⟩

/-- A directory that is found where it is listed. -/
theorem Sealing.Good.add {s : Seal} {l : Loc} {d : DirV1} (hg : S.Good env taken w)
    (hd : w.stored env s l = some d) (hr : Refs S s d)
    (hp : ∀ k, l = .pointer k → (∀ s', S s' l → s' = s) ∧ w.Drawn env taken k) :
    (S.add s l).Good env taken w where
  stored s' l' h := by
    rcases h with h | ⟨rfl, rfl⟩
    · obtain ⟨d', hd', hr'⟩ := hg.stored s' l' h
      exact ⟨d', hd', hr'.mono (S.le_add s l)⟩
    · exact ⟨d, hd, hr.mono (S.le_add _ _)⟩
  pointers s₁ s₂ k h₁ h₂ := by
    rcases h₁ with h₁ | ⟨rfl, hl₁⟩
    · rcases h₂ with h₂ | ⟨rfl, hl₂⟩
      · exact hg.pointers s₁ s₂ k h₁ h₂
      · exact (hp k hl₂.symm).1 s₁ (hl₂ ▸ h₁)
    · rcases h₂ with h₂ | ⟨rfl, -⟩
      · exact ((hp k hl₁.symm).1 s₂ (hl₁ ▸ h₂)).symm
      · rfl
  drawn s' k h := by
    rcases h with h | ⟨-, hl⟩
    · exact hg.drawn s' k h
    · exact (hp k hl.symm).2
  registered := hg.registered

/-! ## Writing blobs -/

variable [DecidableEq β]

variable (env) in
theorem World.onward_importBytes (w : World β) (b : β) : w.Onward (w.importBytes env b).1 := by
  refine ⟨World.grows_importBytes env w b, ?_, World.importBytes_rootFile env w b⟩
  unfold importBytes
  dsimp only
  repeat' split
  all_goals exact Nat.le_succ _

variable (env) in
omit [DecidableEq β] in
theorem onward_encodeStateBytes (ctx : DirContext ι) (state : DirV1) (w : World β) :
    w.Onward (encodeStateBytes env ctx state w).1 := by
  unfold encodeStateBytes
  dsimp only
  repeat' split
  all_goals first | exact .refl w | exact w.onward_next

variable (env) in
omit [DecidableEq β] in
theorem onward_encodeChildDirBytes (ctx : DirContext ι) (state : DirV1) (w : World β) :
    w.Onward (encodeChildDirBytes env ctx state w).1 := by
  unfold encodeChildDirBytes
  dsimp only
  split
  · exact w.onward_next
  · exact .refl w

/-- A blob that is written sealed is listed under its hash. -/
theorem Sealing.Good.write (hg : S.Good env taken w) {b plain : β}
    {h : Hash} {s : Seal} {d : DirV1} (hi : w.importBytes env b = (w', .ok h))
    (hc : w'.collided = false) (hu : unsealed env s b = some plain)
    (hd : env.fromBytes plain = some d) (hr : Refs S s d) :
    (S.add s (.blob h)).Good env taken w' := by
  have hg' : S.Good env taken w' := by
    have := hg.onward (w.onward_importBytes env b)
    rwa [hi] at this
  obtain ⟨-, hst⟩ := World.importBytes_ok hi hc
  refine hg'.add ?_ hr (fun k hk => nomatch hk)
  simp [World.stored, hst, hu, hd]

/-! ## Encoding under a context -/

omit [DecidableEq β] in
/-- A directory saves itself under the seal of its context. -/
theorem sealed_encodeStateBytes (law : env.Lawful) {ctx : DirContext ι} {s : Seal}
    (hs : ctx.Sealed s) (state : DirV1) (w : World β) :
    ∃ b, encodeStateBytes env ctx state w = ((encodeStateBytes env ctx state w).1, .ok b) ∧
      unsealed env s b = some (env.toBytes state) := by
  cases s with
  | none =>
    have ht : ctx.encryptionType = none := hs
    refine ⟨env.toBytes state, ?_, rfl⟩
    simp [encodeStateBytes, ht]
  | some k =>
    refine ⟨env.encrypt k (env.nonce w.tick) (env.toBytes state), ?_, law.decrypt_encrypt _ _ _⟩
    simp [encodeStateBytes, hs.1, hs.2]

/-- A parent writes a child, or a directory one of its shards, under the seal that the reference to
it gives. -/
theorem good_writeChild (law : env.Lawful) {ctx : DirContext ι}
    {s : Seal} (hs : ctx.Sealed s) (hg : S.Good env taken w) {d : DirV1}
    (hr : RefsAny S s d)
    {w₁ w₂ : World β} {b : β} {keys : Option (ExtTreeMap UInt8 Bytes32)} {h : Hash}
    (he : encodeChildDirBytes env ctx d w = (w₁, b, keys))
    (hi : w₁.importBytes env b = (w₂, .ok h)) (hc : w₂.collided = false)
    (now : UInt32 × UInt32) :
    ∃ s', (∀ s₀ : Seal, s₀.isSome = s.isSome → Opens s₀ (storedDirRef ctx h keys now) s') ∧
      (S.add s' (.blob h)).Good env taken w₂ := by
  unfold encodeChildDirBytes at he
  dsimp only at he
  cases s with
  | none =>
    have ht : ctx.encryptionType = none := hs
    rw [if_neg (by simp [ht])] at he
    obtain ⟨rfl, hbk⟩ := Prod.mk.inj he
    obtain ⟨rfl, rfl⟩ := Prod.mk.inj hbk
    refine ⟨none, fun s₀ h₀ => ?_, ?_⟩
    · obtain rfl : s₀ = none := by simpa using h₀
      exact .inherited (by simp [storedDirRef, ht]) rfl
    · exact hg.write hi hc rfl (law.fromBytes_toBytes d) (hr none rfl)
  | some k =>
    have ht := hs.1
    rw [if_pos (by simp [ht])] at he
    obtain ⟨rfl, hbk⟩ := Prod.mk.inj he
    obtain ⟨rfl, rfl⟩ := Prod.mk.inj hbk
    refine ⟨some (env.random w.tick), fun _ _ => .keyed (by simp [storedDirRef, ht]) rfl (by simp),
      ?_⟩
    exact (hg.onward w.onward_next).write hi hc (law.decrypt_encrypt _ _ _) (law.fromBytes_toBytes d)
      (hr _ rfl)

/-! ## Promotion -/

theorem refAt_insert (d : DirV1) (name : String) (dirRef : DirRef) (path : DirHandlePath) :
    ({ d with dirs := d.dirs.insert name dirRef } : DirV1).refAt path =
      if path = .path name then some dirRef else d.refAt path := by
  cases path with
  | shard index => simp [DirV1.refAt]
  | path n =>
    simp only [DirV1.refAt, ExtTreeMap.getElem?_insert, DirHandlePath.path.injEq]
    by_cases hn : n = name
    · simp [hn]
    · rw [if_neg (by simpa using Ne.symm hn), if_neg hn]

/-- A directory of files only has no references. -/
theorem refsAny_extract (s : Seal) (state : DirV1) (dir : String) :
    RefsAny S s (extractChildDirState state dir).2 := by
  intro s' _ path dirRef hr
  have hn : (extractChildDirState state dir).2.refAt path = none := by
    cases path <;> simp [extractChildDirState, DirV1.refAt, DirV1.new, DirHeader.new]
  rw [hn] at hr
  exact nomatch hr

theorem refAt_extract (state : DirV1) (dir : String) (path : DirHandlePath) :
    (extractChildDirState state dir).1.refAt path = state.refAt path := by
  cases path <;> rfl

variable (env) in
theorem onward_promoteGroups {optimize : DirV1 → World β → World β × Except String DirV1}
    (ctx : DirContext ι) (ho : ∀ d (w : World β), w.Onward (optimize d w).1) :
    ∀ (dirs : List String) (d : DirV1) (w : World β),
      w.Onward (promoteGroups env optimize ctx dirs d w).1
  | [], _, w => .refl w
  | dir :: rest, d, w => by
    unfold promoteGroups
    split
    · exact onward_promoteGroups ctx ho rest d w
    · dsimp only
      have h1 := ho (extractChildDirState d dir).2 w
      generalize optimize (extractChildDirState d dir).2 w = r1 at h1 ⊢
      rcases r1 with ⟨w1, e | child⟩
      · exact h1
      · dsimp only
        have h2 := h1.trans (onward_encodeChildDirBytes env ctx child w1)
        generalize encodeChildDirBytes env ctx child w1 = r2 at h2 ⊢
        obtain ⟨w2, bytes, keys⟩ := r2
        have h3 := h2.trans (w2.onward_importBytes env bytes)
        dsimp only
        generalize w2.importBytes env bytes = r3 at h3 ⊢
        rcases r3 with ⟨w3, e | h⟩
        · exact h3
        · exact h3.trans (onward_promoteGroups ctx ho rest _ w3)

theorem onward_optimizeFrom {stop : DirV1 → World β → World β × Except String DirV1}
    (hstop : ∀ d (w : World β), w.Onward (stop d w).1) (order : GroupOrder) (ctx : DirContext ι) :
    ∀ (depth : Nat) (d : DirV1) (w : World β), w.Onward (optimizeFrom env stop order ctx depth d w).1
  | 0, d, w => hstop d w
  | depth + 1, d, w =>
    onward_promoteGroups env ctx (onward_optimizeFrom hstop order ctx depth) _ d w

variable (env) in
theorem onward_optimizeDirStructure (ctx : DirContext ι) (d : DirV1) (w : World β) :
    w.Onward (optimizeDirStructure env ctx d w).1 :=
  onward_optimizeFrom (fun _ w => .refl w) _ ctx _ d w

/-- What a function writes is sealed as the references in its result say. -/
def Promotes (env : Env β) (taken : Bytes32 → Prop) (s : Seal)
    (f : DirV1 → World β → World β × Except String DirV1) : Prop :=
  ∀ {S : Sealing} {w : World β} {d : DirV1}, S.Good env taken w → RefsAny S s d →
    (f d w).1.Sane env taken → ∃ S', S.Le S' ∧ S'.Good env taken (f d w).1 ∧
      ∀ d', (f d w).2 = .ok d' → RefsAny S' s d'

theorem promotes_promoteGroups (law : env.Lawful)
    {ctx : DirContext ι} {s : Seal} (hs : ctx.Sealed s)
    {optimize : DirV1 → World β → World β × Except String DirV1}
    (hon : ∀ d (w : World β), w.Onward (optimize d w).1) (ho : Promotes env taken s optimize) :
    ∀ dirs : List String, Promotes env taken s (promoteGroups env optimize ctx dirs)
  | [], S, _, _, hg, hr, _ => ⟨S, .refl S, hg, fun _ hd => Except.ok.inj hd ▸ hr⟩
  | dir :: rest, S, w, d, hg, hr, hc => by
    have hrest := onward_promoteGroups env ctx hon rest
    unfold promoteGroups at hc ⊢
    split at hc
    · rename_i hsmall
      rw [if_pos hsmall]
      exact promotes_promoteGroups law hs hon ho rest hg hr hc
    · rename_i hsmall
      rw [if_neg hsmall]
      dsimp only at hc ⊢
      have h1 := ho hg (refsAny_extract s d dir)
      generalize optimize (extractChildDirState d dir).2 w = r1 at h1 hc ⊢
      rcases r1 with ⟨w1, e | child⟩
      · obtain ⟨S1, hle, hg1, -⟩ := h1 hc
        exact ⟨S1, hle, hg1, nofun⟩
      · dsimp only at hc h1 ⊢
        generalize he : encodeChildDirBytes env ctx child w1 = r2 at hc ⊢
        obtain ⟨w2, bytes, keys⟩ := r2
        dsimp only at hc ⊢
        generalize hi : w2.importBytes env bytes = r3 at hc ⊢
        have hon12 : w1.Onward w2 := by
          have := onward_encodeChildDirBytes env ctx child w1
          rwa [he] at this
        have hon13 : w1.Onward r3.1 := by
          have := w2.onward_importBytes env bytes
          rw [hi] at this
          exact hon12.trans this
        rcases r3 with ⟨w3, e | h⟩
        · obtain ⟨S1, hle, hg1, -⟩ := h1 (hon13.sane hc)
          exact ⟨S1, hle, hg1.onward hon13, nofun⟩
        · have hc3 : w3.Sane env taken := (hrest _ w3).sane hc
          obtain ⟨S1, hle, hg1, hr1⟩ := h1 (hon13.sane hc3)
          obtain ⟨s', hopens, hg3⟩ := good_writeChild law hs hg1 (hr1 child rfl) he hi hc3.collided
            (env.utcNow w1.tick)
          have hle3 : S.Le (S1.add s' (.blob h)) := hle.trans (S1.le_add s' (.blob h))
          -- the group is now a reference, the rest is as it was
          have hr3 : RefsAny (S1.add s' (.blob h)) s
              { (extractChildDirState d dir).1 with
                dirs := (extractChildDirState d dir).1.dirs.insert dir
                  (storedDirRef ctx h keys (env.utcNow w1.tick)) } := by
            intro s₀ hs₀ path dirRef hat
            rw [refAt_insert] at hat
            split at hat
            · rename_i hpath
              obtain rfl := Option.some.inj hat
              exact ⟨s', hopens s₀ hs₀, hpath ▸ S1.add_self s' (.blob h)⟩
            · rw [refAt_extract] at hat
              exact (hr.mono hle3) s₀ hs₀ path dirRef hat
          obtain ⟨S4, hle4, hg4, hr4⟩ :=
            promotes_promoteGroups law hs hon ho rest hg3 hr3 hc
          exact ⟨S4, hle3.trans hle4, hg4, hr4⟩

theorem promotes_optimizeFrom (law : env.Lawful) (order : GroupOrder)
    {ctx : DirContext ι} {s : Seal} (hs : ctx.Sealed s) :
    ∀ depth : Nat, Promotes env taken s
      (optimizeFrom env (fun state w => (w, .ok state)) order ctx depth)
  | 0, S, _, _, hg, hr, _ => ⟨S, .refl S, hg, fun _ hd => Except.ok.inj hd ▸ hr⟩
  | depth + 1, _, _, _, hg, hr, hc =>
    promotes_promoteGroups law hs (onward_optimizeFrom (fun _ w => .refl w) order ctx depth)
      (promotes_optimizeFrom law order hs depth) _ hg hr hc

/-! ## New references -/

variable (env) in
omit [DecidableEq β] in
theorem onward_buildChildDirRef (ctx : DirContext ι) (enable : Bool) (w : World β) :
    w.Onward (buildChildDirRef env ctx enable w).1 :=
  w.onward_next.trans w.next.onward_next

omit [DecidableEq β] in
/-- A registry key that is drawn now is not in use yet. -/
theorem World.Sane.fresh (hw : w'.Sane env taken) {n : Nat} (hn : w.tick ≤ n) (hn' : n < w'.tick) :
    ¬ w.Drawn env taken (env.random n) := by
  rintro (ht | ⟨m, hm, he⟩)
  · exact hw.untaken n hn' ht
  · exact hw.distinct m n (by omega) hn' he.symm

omit [DecidableEq β] in
/-- The reference of a new child leads to the empty directory behind a new registry key, or waits for
the child's first hash. -/
theorem good_buildChildDirRef {ctx : DirContext ι} {enable : Bool} (s : Seal) (name : String)
    (hg : S.Good env taken w) {dirRef : DirRef}
    (hb : buildChildDirRef env ctx enable w = (w', dirRef)) (hw : w'.Sane env taken) :
    ∃ S' s', S.Le S' ∧ S'.Good env taken w' ∧ Opens s dirRef s' ∧
      (S' s' (dirRef.loc (.path name)) ∨ dirRef.loc (.path name) = .blob 0) ∧
      s'.isSome = (enable || s.isSome) := by
  have hon : w.Onward w' := by
    have := onward_buildChildDirRef env ctx enable w
    rwa [hb] at this
  have hopens : ∃ s', Opens s dirRef s' ∧ s'.isSome = (enable || s.isSome) := by
    obtain ⟨-, rfl⟩ := Prod.mk.inj hb
    cases enable with
    | true => exact ⟨some (env.random w.tick), .keyed rfl rfl (by simp), rfl⟩
    | false => exact ⟨s, .inherited rfl rfl, rfl⟩
  obtain ⟨s', ho, hsome⟩ := hopens
  by_cases hk : ctx.signingKey.isSome = true
  · have hloc : dirRef.loc (.path name) = .pointer (env.random (w.tick + 1)) := by
      obtain ⟨-, rfl⟩ := Prod.mk.inj hb
      simp [DirRef.loc, DirRef.refTypeD, hk, World.next]
    have htick : w'.tick = w.tick + 2 := by
      obtain ⟨rfl, -⟩ := Prod.mk.inj hb
      rfl
    have hfresh : ¬ w.Drawn env taken (env.random (w.tick + 1)) :=
      hw.fresh (Nat.le_succ _) (by omega)
    refine ⟨S.add s' (.pointer (env.random (w.tick + 1))), s', S.le_add _ _, ?_, ho, ?_, hsome⟩
    · refine (hg.onward hon).add (d := .new) ?_ (refs_new s') ?_
      · unfold World.stored
        dsimp only
        rw [hon.grows.registry]
        cases hreg : w.registry[env.random (w.tick + 1)]? with
        | none => rfl
        | some entry => exact absurd (hg.registered _ (by rw [hreg]; rfl)) hfresh
      · intro k hk'
        obtain rfl := Loc.pointer.inj hk'
        refine ⟨fun s'' hS => absurd (hg.drawn s'' _ hS) hfresh, .inr ⟨w.tick + 1, by omega, rfl⟩⟩
    · rw [hloc]
      exact .inl (S.add_self _ _)
  · refine ⟨S, s', .refl S, hg.onward hon, ho, .inr ?_, hsome⟩
    obtain ⟨-, rfl⟩ := Prod.mk.inj hb
    simp [DirRef.loc, DirRef.refTypeD, hk]

/-! ## Saving -/

omit [DecidableEq β] in
/-- Nothing of a good typing depends on the root file. -/
theorem Sealing.Good.setRootFile (hg : S.Good env taken w) (b : Option β) :
    S.Good env taken { w with rootFile := b } :=
  ⟨hg.stored, hg.pointers, hg.drawn, hg.registered⟩

omit [DecidableEq β] in
/-- A registry key is pointed to a blob that is listed under the same seal. -/
theorem Sealing.Good.setRegistry (hg : S.Good env taken w) {s : Seal} {k : Bytes32}
    (hk : S s (.pointer k)) {entry : RegistryEntry} (he : S s (.blob entry.hash)) :
    S.Good env taken (w.setRegistry k entry) := by
  unfold World.setRegistry
  split
  · refine ⟨fun s' l hS => ?_, hg.pointers, hg.drawn, fun k' hk' => ?_⟩
    · by_cases hl : l = .pointer k
      · subst hl
        obtain rfl := hg.pointers s' s k hS hk
        obtain ⟨d, hd, hr⟩ := hg.stored s' _ he
        refine ⟨d, ?_, hr⟩
        simpa [World.stored] using hd
      · obtain ⟨d, hd, hr⟩ := hg.stored s' l hS
        refine ⟨d, ?_, hr⟩
        cases l with
        | blob h => exact hd
        | pointer k' =>
          have hne : k ≠ k' := fun hkk => hl (by rw [hkk])
          unfold World.stored at hd ⊢
          dsimp only
          rw [ExtTreeMap.getElem?_insert, if_neg (by simpa using hne)]
          exact hd
    · by_cases hkk : k = k'
      · exact hkk ▸ hg.drawn s k hk
      · refine hg.registered k' ?_
        have : (w.registry.insert k entry)[k']?.isSome := hk'
        rwa [ExtTreeMap.getElem?_insert, if_neg (by simpa using hkk)] at this
  · exact hg

/-- What has been saved of a directory: a child has a new hash, a root its bytes in the root file or
behind its registry key. -/
structure Persisted (env : Env β) (S : Sealing) (s : Seal) (d : DirV1) (ctx : DirContext ι)
    (w w' : World β) (result : Except String (DirContext ι × Option Hash)) : Prop where
  linked : ∀ ctx' hash, result = .ok (ctx', hash) → ctx' = ctx ∧ hash = none ∨
    ∃ path i h₀ level h, ctx.link = .dirHandle path i h₀ level ∧
      ctx' = { ctx with link := .dirHandle path i h level } ∧ hash = some h ∧ S s (.blob h)
  rootFile : w'.rootFile = w.rootFile ∨ ctx.link = .localFile ∧
    ∃ b, w'.rootFile = some b ∧ unsealed env s b = some (env.toBytes d)

omit [DecidableEq β] in
theorem World.setRegistry_collided (w : World β) (k : Bytes32) (entry : RegistryEntry) :
    (w.setRegistry k entry).collided = w.collided := by
  unfold World.setRegistry
  split <;> rfl

omit [DecidableEq β] in
theorem World.Sane.of_setRegistry {k : Bytes32} {entry : RegistryEntry}
    (h : (w.setRegistry k entry).Sane env taken) : w.Sane env taken := by
  unfold World.setRegistry at h
  split at h
  · exact h.of_le id (fun _ _ hb => hb) (Nat.le_refl _)
  · exact h

theorem persist_sane (ctx : DirContext ι) (d : DirV1) (w : World β)
    (hw : (persist env ctx d w).1.Sane env taken) : w.Sane env taken := by
  unfold persist at hw
  have h1 := onward_encodeStateBytes env ctx d w
  generalize encodeStateBytes env ctx d w = r1 at h1 hw
  rcases r1 with ⟨w1, e | b⟩
  · exact h1.sane hw
  · dsimp only at hw
    have h2 := h1.trans (w1.onward_importBytes env b)
    generalize w1.importBytes env b = r2 at h2 hw
    rcases r2 with ⟨w2, e | h⟩
    · exact h2.sane hw
    · dsimp only at hw
      refine h2.sane ?_
      split at hw
      · exact hw.of_le id (fun _ _ h => h) (Nat.le_refl _)
      · exact hw
      · exact hw.of_setRegistry
      · exact hw

variable (env) in
theorem persist_context (ctx : DirContext ι) (d : DirV1) (w : World β) {ctx' : DirContext ι}
    {hash : Option Hash} (h : (persist env ctx d w).2 = .ok (ctx', hash)) :
    ctx' = ctx ∨ ∃ k path i h₀ level, ctx.link = .dirHandle path i h₀ level ∧
      ctx' = { ctx with link := .dirHandle path i k level } := by
  unfold persist at h
  repeat' split at h
  all_goals cases h
  all_goals first | exact .inl rfl | exact .inr ⟨_, _, _, _, _, ‹_›, rfl⟩

theorem good_persist (law : env.Lawful) {ctx : DirContext ι} {s : Seal} (hs : ctx.Sealed s)
    {d : DirV1} (hg : S.Good env taken w) (hr : Refs S s d)
    (hk : ∀ k sk, ctx.link = .registryKey k sk → S s (.pointer k))
    (hw : (persist env ctx d w).1.Sane env taken) :
    ∃ S', S.Le S' ∧ S'.Good env taken (persist env ctx d w).1 ∧
      Persisted env S' s d ctx w (persist env ctx d w).1 (persist env ctx d w).2 := by
  obtain ⟨b, he, hu⟩ := sealed_encodeStateBytes law hs d w
  have h1 := onward_encodeStateBytes env ctx d w
  unfold persist at hw ⊢
  generalize (encodeStateBytes env ctx d w).1 = w1 at he h1
  rw [he] at hw ⊢
  dsimp only at hw ⊢
  have h2 := h1.trans (w1.onward_importBytes env b)
  generalize hi : w1.importBytes env b = r2 at h2 hw ⊢
  rcases r2 with ⟨w2, e | h⟩
  · refine ⟨S, .refl S, hg.onward h2, fun ctx' hash hok => ?_, .inl h2.rootFile⟩
    cases hok
  · dsimp only at hw h2 ⊢
    -- the bytes are in the store now
    have hg2 : w2.collided = false → (S.add s (.blob h)).Good env taken w2 := fun hc =>
      (hg.onward h1).write hi hc hu (law.fromBytes_toBytes d) hr
    have hle := S.le_add s (.blob h)
    have hadd := S.add_self s (.blob h)
    split at hw
    · rename_i hlink
      refine ⟨_, hle, (hg2 hw.collided).setRootFile (some b), fun ctx' hash hok => ?_, ?_⟩
      · cases hok
        exact .inl ⟨rfl, rfl⟩
      · exact .inr ⟨hlink, b, rfl, hu⟩
    · rename_i path i h₀ level hlink
      refine ⟨_, hle, hg2 hw.collided, fun ctx' hash hok => ?_, .inl h2.rootFile⟩
      cases hok
      exact .inr ⟨path, i, h₀, level, h, hlink, rfl, rfl, hadd⟩
    · rename_i k sk hlink
      have hc := hw.collided
      rw [World.setRegistry_collided] at hc
      refine ⟨_, hle, (hg2 hc).setRegistry (hle _ _ (hk k _ hlink)) hadd,
        fun ctx' hash hok => ?_, .inl ((World.setRegistry_rootFile _ _ _).trans h2.rootFile)⟩
      cases hok
      exact .inl ⟨rfl, rfl⟩
    · rename_i k hlink
      refine ⟨_, hle, hg2 hw.collided, fun ctx' hash hok => ?_, .inl h2.rootFile⟩
      cases hok
      exact .inl ⟨rfl, rfl⟩

end Fs
