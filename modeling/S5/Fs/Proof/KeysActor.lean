import S5.Fs.Proof.Keys
import S5.Lib.Map

/-!
# Seals of the actors in a system

Each actor has the seal of its context, and its handles lead to actors with the seals that its
references give (`ActorGood`). All that an actor knows of others is who they are linked to and which
handles they hold, and both only grow (`Extends`).
-/

open Std

namespace Fs

variable {ι β : Type}

/-- The seal of a context. -/
def DirContext.sealOf (ctx : DirContext ι) : Seal :=
  match ctx.encryptionType with
  | none => none
  | some _ => ctx.keys[keySlot]?

theorem DirContext.Sealed.sealOf_eq {ctx : DirContext ι} {s : Seal} (h : ctx.Sealed s) :
    ctx.sealOf = s := by
  unfold DirContext.sealOf
  cases s with
  | none =>
    have ht : ctx.encryptionType = none := h
    rw [ht]
  | some key => rw [h.1, h.2]

def DirContext.LinkedTo (ctx : DirContext ActorId) (path : DirHandlePath) (i : ActorId) : Prop :=
  ∃ hash level, ctx.link = .dirHandle path i hash level

/-- The directory is published in the registry. -/
def DirContext.Published (ctx : DirContext ActorId) : Prop :=
  ∃ key signingKey, ctx.link = .registryKey key signingKey

/-- The handle of the child at a place. -/
def DirActor.handleAt (a : DirActor) : DirHandlePath → Option ActorId
  | .path name => a.dirHandles[name]?
  | .shard index => a.dirShardHandles[index]?

/-! ## What others know of an actor -/

/-- The actor is linked and sealed as before and holds at least the handles it held. -/
structure DirActor.Grows (a a' : DirActor) : Prop where
  sealOf : a'.context.sealOf = a.context.sealOf
  linked : ∀ path i, a.context.LinkedTo path i → a'.context.LinkedTo path i
  published : a.context.Published → a'.context.Published
  handles : ∀ path c, a.handleAt path = some c → a'.handleAt path = some c

theorem DirActor.Grows.refl (a : DirActor) : a.Grows a :=
  ⟨rfl, fun _ _ h => h, fun h => h, fun _ _ h => h⟩

theorem DirActor.Grows.trans {a a' a'' : DirActor} (h : a.Grows a') (h' : a'.Grows a'') :
    a.Grows a'' :=
  ⟨h'.sealOf.trans h.sealOf, fun p i hl => h'.linked p i (h.linked p i hl),
    fun hp => h'.published (h.published hp), fun p c hc => h'.handles p c (h.handles p c hc)⟩

theorem DirActor.grows_of_eq {a a' : DirActor} (hc : a'.context = a.context)
    (hd : a'.dirHandles = a.dirHandles) (hs : a'.dirShardHandles = a.dirShardHandles) :
    a.Grows a' := by
  refine ⟨by rw [hc], fun _ _ h => hc ▸ h, fun h => hc ▸ h, fun path c h => ?_⟩
  cases path with
  | path name =>
    show a'.dirHandles[name]? = some c
    rw [hd]
    exact h
  | shard index =>
    show a'.dirShardHandles[index]? = some c
    rw [hs]
    exact h

def Extends (actors actors' : List DirActor) : Prop :=
  ∀ (c : ActorId) (b : DirActor), actors[c]? = some b → ∃ b', actors'[c]? = some b' ∧ b.Grows b'

theorem Extends.refl (actors : List DirActor) : Extends actors actors :=
  fun _ b h => ⟨b, h, .refl b⟩

theorem Extends.trans {l l' l'' : List DirActor} (h : Extends l l') (h' : Extends l' l'') :
    Extends l l'' := by
  intro c b hb
  obtain ⟨b', hb', hg⟩ := h c b hb
  obtain ⟨b'', hb'', hg'⟩ := h' c b' hb'
  exact ⟨b'', hb'', hg.trans hg'⟩

/-! ## Messages -/

/-- The child at `path` of the actor `i` is stored under `h`. -/
def Tells (S : Sealing) (actors : List DirActor) (i : ActorId) (path : DirHandlePath) (h : Hash) :
    Prop :=
  ∃ a c b, actors[i]? = some a ∧ a.handleAt path = some c ∧ actors[c]? = some b ∧
    b.context.LinkedTo path i ∧ S b.context.sealOf (.blob h)

/-- Who asks the actor `i` to save holds its handle. -/
def ResponderGood (actors : List DirActor) (i : ActorId) : Responder → Prop
  | .client _ => True
  | .parent j path => ∃ b, actors[j]? = some b ∧ b.handleAt path = some i

def MsgGood (S : Sealing) (actors : List DirActor) (i : ActorId) : ActorMessage → Prop
  | .updateDirRefHash path h => Tells S actors i path h
  | .saveIfDirty responder => ResponderGood actors i responder
  | .mergeSnapshot _ _ => False
  | _ => True

def OutGood (S : Sealing) (actors : List DirActor) : Output → Prop
  | .send i msg => MsgGood S actors i msg
  | .notifyParent i msg => MsgGood S actors i msg
  | .saved (.parent i path) (.ok (some h)) => Tells S actors i path h
  | _ => True

section
variable {S S' : Sealing} {actors actors' : List DirActor}

theorem Tells.mono {i : ActorId} {path : DirHandlePath} {h : Hash}
    (ht : Tells S actors i path h) (hle : S.Le S') (he : Extends actors actors') :
    Tells S' actors' i path h := by
  obtain ⟨a, c, b, ha, hc, hb, hl, hS⟩ := ht
  obtain ⟨a', ha', hga⟩ := he i a ha
  obtain ⟨b', hb', hgb⟩ := he c b hb
  exact ⟨a', c, b', ha', hga.handles path c hc, hb', hgb.linked path i hl,
    hgb.sealOf ▸ hle _ _ hS⟩

theorem ResponderGood.mono {i : ActorId} {r : Responder} (h : ResponderGood actors i r)
    (he : Extends actors actors') : ResponderGood actors' i r := by
  cases r with
  | client => trivial
  | parent j path =>
    obtain ⟨b, hb, hi⟩ := h
    obtain ⟨b', hb', hg⟩ := he j b hb
    exact ⟨b', hb', hg.handles path i hi⟩

theorem MsgGood.mono {i : ActorId} {msg : ActorMessage} (h : MsgGood S actors i msg)
    (hle : S.Le S') (he : Extends actors actors') : MsgGood S' actors' i msg := by
  cases msg with
  | updateDirRefHash path hash => exact Tells.mono h hle he
  | saveIfDirty responder => exact ResponderGood.mono h he
  | mergeSnapshot => exact h
  | _ => trivial

theorem OutGood.mono {o : Output} (h : OutGood S actors o) (hle : S.Le S')
    (he : Extends actors actors') : OutGood S' actors' o := by
  cases o with
  | send i msg => exact MsgGood.mono h hle he
  | notifyParent i msg => exact MsgGood.mono h hle he
  | saved responder result =>
    cases responder with
    | client => trivial
    | parent i path =>
      rcases result with e | _ | hash
      · trivial
      · trivial
      · exact Tells.mono h hle he
  | _ => trivial

end

/-! ## Actors -/

/-- The reference leads to what is listed, or its child has not been saved yet. -/
def RefGood (S : Sealing) (s : Seal) (path : DirHandlePath) (dirRef : DirRef) : Prop :=
  ∃ s', Opens s dirRef s' ∧
    (S s' (dirRef.loc path) ∨ ∃ name, path = .path name ∧ dirRef.loc path = .blob 0)

/-- The handle at `path` is that of a child with the seal that the reference there gives. -/
def ChildGood (actors : List DirActor) (i : ActorId) (a : DirActor) (path : DirHandlePath)
    (c : ActorId) : Prop :=
  ∃ b, actors[c]? = some b ∧ (b.context.LinkedTo path i ∨ b.context.Published) ∧
    ∀ dirRef, a.state.refAt path = some dirRef →
      Opens a.context.sealOf dirRef b.context.sealOf ∧
        (b.context.LinkedTo path i → ∃ h, dirRef.loc path = .blob h)

/-- The actor is linked to what is listed, and its parent has its handle. -/
def LinkGood (S : Sealing) (root : DirContext ActorId) (actors : List DirActor) (i : ActorId)
    (ctx : DirContext ActorId) : Prop :=
  match ctx.link with
  | .localFile => ctx = root
  | .registryKey key _ => S ctx.sealOf (.pointer key)
  | .dirHandle path p hash _ => (hash = 0 ∨ S ctx.sealOf (.blob hash)) ∧
      ∃ b, actors[p]? = some b ∧ b.handleAt path = some i

/-- No reference waits for the first hash of its child. -/
def DirActor.Settled (a : DirActor) : Prop :=
  ∀ (name : String) (dirRef : DirRef), a.state.dirs[name]? = some dirRef →
    dirRef.loc (.path name) ≠ .blob 0

instance (a : DirActor) : Decidable a.Settled :=
  decidable_of_iff (∀ kv ∈ a.state.dirs.toList, kv.2.loc (.path kv.1) ≠ .blob 0)
    (ExtTreeMap.forall_getElem?_iff
      (P := fun (name : String) (dirRef : DirRef) => dirRef.loc (.path name) ≠ .blob 0))

/-- A save splits the directory. -/
def DirActor.Splits (env : Env β) (a : DirActor) : Prop :=
  a.state.header.shardLevel = none ∧
    ¬ (a.lastSerializedLen < maxDirBytesBeforeShard ∧
      a.shardSizeCheckOps.toNat < shardSizeCheckOpInterval) ∧
    maxDirBytesBeforeShard ≤ env.len (env.toBytes a.state)

/-- The actor may save its directory: no reference waits for a hash, and if an encrypted directory is
split no subdirectory relies on its key. -/
structure DirActor.Ready (env : Env β) (a : DirActor) : Prop where
  settled : a.Settled
  keyed : a.Splits env → a.context.encryptionType.isSome = true →
    ∀ (name : String) (dirRef : DirRef), a.state.dirs[name]? = some dirRef → dirRef.keys.isSome = true

instance (env : Env β) (a : DirActor) : Decidable (a.Splits env) :=
  inferInstanceAs (Decidable (_ ∧ _))

instance (env : Env β) (a : DirActor) : Decidable (a.Ready env) :=
  decidable_of_iff (a.Settled ∧ (a.Splits env → a.context.encryptionType.isSome = true →
      ∀ kv ∈ a.state.dirs.toList, kv.2.keys.isSome = true)) <| by
    rw [ExtTreeMap.forall_getElem?_iff
      (P := fun (_ : String) (dirRef : DirRef) => dirRef.keys.isSome = true)]
    exact ⟨fun h => ⟨h.1, h.2⟩, fun h => ⟨h.1, h.2⟩⟩

/-- The name is not that of a directory which has been handed to a shard and is still open. -/
def DirActor.NoStale (a : DirActor) (name : String) : Prop :=
  a.state.dirs[name]? = none → a.dirHandles[name]? = none

instance (a : DirActor) (name : String) : Decidable (a.NoStale name) :=
  inferInstanceAs (Decidable (_ → _))

def PhaseGood (S : Sealing) (actors : List DirActor) (i : ActorId) (a : DirActor) : Prop :=
  match a.phase with
  | .saving replies responder =>
    (∀ path h, (path, some (.ok (some h))) ∈ replies → Tells S actors i path h) ∧
      ResponderGood actors i responder ∧ a.Settled
  | .merging _ _ _ _ => False
  | _ => True

structure ActorGood (S : Sealing) (root : DirContext ActorId) (actors : List DirActor)
    (i : ActorId) (a : DirActor) : Prop where
  sealed : a.context.Sealed a.context.sealOf
  linked : LinkGood S root actors i a.context
  refs : ∀ path dirRef, a.state.refAt path = some dirRef → RefGood S a.context.sealOf path dirRef
  children : ∀ path c, a.handleAt path = some c → ChildGood actors i a path c
  unopened : a.phase.isStarting = true → ∀ path, a.handleAt path = none
  initial : ∀ d, a.phase = .starting (some d) → Refs S a.context.sealOf d
  unsplit : a.state.header.shardLevel = none → ∀ index, a.handleAt (.shard index) = none
  mail : ∀ msg ∈ a.mailbox, MsgGood S actors i msg
  phase : PhaseGood S actors i a

section
variable {S S' : Sealing} {root : DirContext ActorId} {actors actors' : List DirActor}

theorem RefGood.mono {s : Seal} {path : DirHandlePath} {dirRef : DirRef}
    (h : RefGood S s path dirRef) (hle : S.Le S') : RefGood S' s path dirRef := by
  obtain ⟨s', ho, hS | hz⟩ := h
  · exact ⟨s', ho, .inl (hle _ _ hS)⟩
  · exact ⟨s', ho, .inr hz⟩

theorem LinkGood.root_of_localFile {i : ActorId} {ctx : DirContext ActorId}
    (h : LinkGood S root actors i ctx) (hlink : ctx.link = .localFile) : ctx = root := by
  unfold LinkGood at h
  rwa [hlink] at h

theorem LinkGood.listed_of_registryKey {i : ActorId} {ctx : DirContext ActorId} {k : Bytes32}
    {sk : Option Bytes32} (h : LinkGood S root actors i ctx) (hlink : ctx.link = .registryKey k sk) :
    S ctx.sealOf (.pointer k) := by
  unfold LinkGood at h
  rwa [hlink] at h

theorem LinkGood.parent_of_dirHandle {i p : ActorId} {ctx : DirContext ActorId}
    {path : DirHandlePath} {hash : Hash} {level : UInt8} (h : LinkGood S root actors i ctx)
    (hlink : ctx.link = .dirHandle path p hash level) :
    (hash = 0 ∨ S ctx.sealOf (.blob hash)) ∧
      ∃ b, actors[p]? = some b ∧ b.handleAt path = some i := by
  unfold LinkGood at h
  rwa [hlink] at h

theorem LinkGood.mono {i : ActorId} {ctx : DirContext ActorId} (h : LinkGood S root actors i ctx)
    (hle : S.Le S') (he : Extends actors actors') : LinkGood S' root actors' i ctx := by
  unfold LinkGood at h ⊢
  split
  · rename_i hlink
    rw [hlink] at h
    exact h
  · rename_i hlink
    rw [hlink] at h
    exact hle _ _ h
  · rename_i path p hash level hlink
    rw [hlink] at h
    obtain ⟨hh, b, hb, hi⟩ := h
    obtain ⟨b', hb', hg⟩ := he p b hb
    exact ⟨hh.imp_right (hle _ _), b', hb', hg.handles path i hi⟩

theorem ActorGood.mono {i : ActorId} {a : DirActor} (h : ActorGood S root actors i a)
    (hle : S.Le S') (he : Extends actors actors') : ActorGood S' root actors' i a where
  sealed := h.sealed
  linked := h.linked.mono hle he
  refs path dirRef hr := (h.refs path dirRef hr).mono hle
  children path c hc := by
    obtain ⟨b, hb, hlink, href⟩ := h.children path c hc
    obtain ⟨b', hb', hg⟩ := he c b hb
    refine ⟨b', hb', hlink.imp (hg.linked path i) hg.published, fun dirRef hr => ?_⟩
    obtain ⟨ho, hblob⟩ := href dirRef hr
    refine ⟨hg.sealOf ▸ ho, fun hl => ?_⟩
    -- a child that is linked now was not published before
    rcases hlink with hl0 | hp0
    · exact hblob hl0
    · obtain ⟨key, sk, hk⟩ := hg.published hp0
      obtain ⟨hash, level, hd⟩ := hl
      exact nomatch hk.symm.trans hd
  unopened := h.unopened
  initial d hd := (h.initial d hd).mono hle
  unsplit := h.unsplit
  mail msg hm := (h.mail msg hm).mono hle he
  phase := by
    have hp := h.phase
    unfold PhaseGood at hp ⊢
    split
    · rename_i hph
      rw [hph] at hp
      exact ⟨fun path k hk => (hp.1 path k hk).mono hle he, hp.2.1.mono he, hp.2.2⟩
    · rename_i hph
      rw [hph] at hp
      exact hp
    · trivial

/-- All references of a settled actor lead to what is listed. -/
theorem ActorGood.refs_settled {i : ActorId} {a : DirActor} (h : ActorGood S root actors i a)
    (hs : a.Settled) : Refs S a.context.sealOf a.state := by
  intro path dirRef hr
  obtain ⟨s', ho, hS | ⟨name, rfl, hz⟩⟩ := h.refs path dirRef hr
  · exact ⟨s', ho, hS⟩
  · exact absurd hz (hs name dirRef hr)

/-- Phases in which an actor awaits nothing from others. -/
def Phase.isQuiet : Phase → Bool
  | .starting _ => false
  | .saving _ _ => false
  | .merging _ _ _ _ => false
  | _ => true

/-- The references give the same key. -/
structure DirRef.Alike (d d' : DirRef) : Prop where
  refType : d'.refType = d.refType
  encryptionType : d'.encryptionType = d.encryptionType
  keys : d'.keys = d.keys

theorem DirRef.Alike.refl (d : DirRef) : DirRef.Alike d d := ⟨rfl, rfl, rfl⟩

theorem DirRef.Alike.blob {d d' : DirRef} (h : DirRef.Alike d d') {path : DirHandlePath}
    (hb : ∃ k, d.loc path = .blob k) : d'.loc path = .blob d'.hash := by
  obtain ⟨k, hk⟩ := hb
  cases path with
  | shard index => rfl
  | path name =>
    unfold DirRef.loc DirRef.refTypeD at hk ⊢
    rw [h.refType]
    dsimp only at hk ⊢
    split at hk
    · rfl
    · exact nomatch hk

/-- The actor takes over another state. -/
theorem ActorGood.setState {l : List DirActor} {i : ActorId} {a : DirActor} {state : DirV1}
    (h : ActorGood S root l i a)
    (hrefs : ∀ path dirRef, state.refAt path = some dirRef →
      RefGood S a.context.sealOf path dirRef)
    (hchild : ∀ path c dirRef, a.handleAt path = some c → state.refAt path = some dirRef →
      ∃ d, a.state.refAt path = some d ∧ DirRef.Alike d dirRef)
    (hlevel : state.header.shardLevel = none → a.state.header.shardLevel = none)
    (hphase : a.phase.isQuiet = true ∨ (a.Settled → DirActor.Settled { a with state := state })) :
    ActorGood S root l i { a with state := state } where
  sealed := h.sealed
  linked := h.linked
  refs := hrefs
  children path c hc := by
    have hc' : a.handleAt path = some c := by
      cases path <;> exact hc
    obtain ⟨b, hb, hl, hr⟩ := h.children path c hc'
    refine ⟨b, hb, hl, fun dirRef hat => ?_⟩
    obtain ⟨d, hd, halike⟩ := hchild path c dirRef hc' hat
    obtain ⟨ho, hblob⟩ := hr d hd
    refine ⟨ho.of_keys halike.encryptionType halike.keys, fun hlinked => ?_⟩
    exact ⟨_, halike.blob (hblob hlinked)⟩
  unopened hs path := by
    have := h.unopened hs path
    cases path <;> exact this
  initial := h.initial
  unsplit hn index := h.unsplit (hlevel hn) index
  mail := h.mail
  phase := by
    have hp := h.phase
    unfold PhaseGood at hp ⊢
    rcases hphase with hq | hs
    · split
      · rename_i hph
        rw [show a.phase = _ from hph] at hq
        exact nomatch hq
      · rename_i hph
        rw [show a.phase = _ from hph] at hq
        exact nomatch hq
      · trivial
    · split
      · rename_i hph
        rw [show a.phase = _ from hph] at hp
        exact ⟨hp.1, hp.2.1, hs hp.2.2⟩
      · rename_i hph
        rw [show a.phase = _ from hph] at hp
        exact hp
      · trivial

/-- A child with another hash. -/
def DirContext.setHash (ctx : DirContext ActorId) (h : Hash) : DirContext ActorId :=
  match ctx.link with
  | .dirHandle path i _ level => { ctx with link := .dirHandle path i h level }
  | _ => ctx

theorem DirActor.grows_setHash (a : DirActor) (h : Hash) :
    a.Grows { a with context := a.context.setHash h } := by
  unfold DirContext.setHash
  split
  · rename_i path i h₀ level hlink
    refine ⟨rfl, fun p j hl => ?_, fun hp => ?_, fun p c hc => by cases p <;> exact hc⟩
    · obtain ⟨h₁, level', hl⟩ := hl
      obtain ⟨rfl, rfl, -, -⟩ := DirContextParentLink.dirHandle.inj (hlink.symm.trans hl)
      exact ⟨h, level, rfl⟩
    · obtain ⟨k, sk, hk⟩ := hp
      exact nomatch hlink.symm.trans hk
  · exact DirActor.grows_of_eq rfl rfl rfl

/-- A child that has been saved under another hash. -/
theorem ActorGood.setHash {i : ActorId} {a : DirActor} {h : Hash}
    (hg : ActorGood S root actors i a) (hS : S a.context.sealOf (.blob h)) :
    ActorGood S root actors i { a with context := a.context.setHash h } := by
  cases hlink : a.context.link with
  | registryKey | localFile =>
    have hc : a.context.setHash h = a.context := by simp [DirContext.setHash, hlink]
    rw [hc]
    exact hg
  | dirHandle path p h₀ level =>
    have hc : a.context.setHash h = { a.context with link := .dirHandle path p h level } := by
      simp [DirContext.setHash, hlink]
    have hl := hg.linked.parent_of_dirHandle hlink
    rw [hc]
    refine ⟨?_, ⟨.inr hS, hl.2⟩, hg.refs, fun q c hcq => ?_, fun hst q => ?_, hg.initial, hg.unsplit,
      hg.mail, hg.phase⟩
    · have := hg.sealed
      unfold DirContext.Sealed at this ⊢
      exact this
    · have hcq' : a.handleAt q = some c := by cases q <;> exact hcq
      exact hg.children q c hcq'
    · have := hg.unopened hst q
      cases q <;> exact this

end

end Fs
