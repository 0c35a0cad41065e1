import S5.Fs.System
import S5.Fs.Proof.Lookup

/-!
# Keys along references

How a directory's blobs are sealed, how references lead from one directory to the next, and what it
takes that every directory below a root opens again (`Opens`, `Descendant`).

A `Sealing` says for stored directories which seal opens them. It is a store typing: it only grows,
and what it lists leads only to what it lists (`Sealing.Good`).
-/

open Std

namespace Fs

/-- The key that the blobs of a directory are encrypted with, `none` if they are not. -/
abbrev Seal := Option Bytes32

variable {ι : Type}

/-- Directories opened under the context are sealed in this way. -/
def DirContext.Sealed (ctx : DirContext ι) : Seal → Prop
  | none => ctx.encryptionType = none
  | some key => ctx.encryptionType = some encryptionTypeXChaCha20Poly1305 ∧
      ctx.keys[keySlot]? = some key

/-- A directory with seal `s` refers to one with another seal: its own one, or that of a key the
reference brings along. -/
inductive Opens (s : Seal) (dirRef : DirRef) : Seal → Prop where
  | inherited (ht : dirRef.encryptionType = none) (hk : dirRef.keys = none) : Opens s dirRef s
  | keyed {keys : ExtTreeMap UInt8 Bytes32} {key : Bytes32}
      (ht : dirRef.encryptionType = some encryptionTypeXChaCha20Poly1305)
      (hk : dirRef.keys = some keys) (hkey : keys[keySlot]? = some key) : Opens s dirRef (some key)

theorem DirContext.Sealed.withNewRef {ctx : DirContext ι} {s s' : Seal} {dirRef : DirRef}
    (h : ctx.Sealed s) (ho : Opens s dirRef s') (link : DirContextParentLink ι) :
    (ctx.withNewRef dirRef link).Sealed s' := by
  cases ho with
  | inherited ht hk =>
    unfold DirContext.withNewRef
    cases s with
    | none => simpa [DirContext.Sealed, ht] using h
    | some key => simpa [DirContext.Sealed, ht, hk] using h
  | keyed ht hk hkey =>
    unfold DirContext.withNewRef
    simp [DirContext.Sealed, ht, hk, ExtTreeMap.getElem?_union, hkey]

theorem DirContext.Sealed.unique {ctx : DirContext ι} {s s' : Seal} (h : ctx.Sealed s)
    (h' : ctx.Sealed s') : s = s' := by
  cases s with
  | none =>
    cases s' with
    | none => rfl
    | some key =>
      have := h.symm.trans h'.1
      exact nomatch this
  | some key =>
    cases s' with
    | none =>
      have := h.1.symm.trans h'
      exact nomatch this
    | some key' => exact h.2.symm.trans h'.2

theorem Opens.unique {s s₁ s₂ : Seal} {dirRef : DirRef} (h₁ : Opens s dirRef s₁)
    (h₂ : Opens s dirRef s₂) : s₁ = s₂ := by
  cases h₁ with
  | inherited ht hk =>
    cases h₂ with
    | inherited => rfl
    | keyed ht' hk' _ => exact nomatch hk.symm.trans hk'
  | keyed ht hk hkey =>
    cases h₂ with
    | inherited ht' hk' => exact nomatch hk.symm.trans hk'
    | keyed ht' hk' hkey' =>
      obtain rfl := Option.some.inj (hk.symm.trans hk')
      exact hkey.symm.trans hkey'

/-- Where a reference points does not matter for its seal. -/
theorem Opens.of_keys {s s' : Seal} {d d' : DirRef} (h : Opens s d s')
    (ht : d'.encryptionType = d.encryptionType) (hk : d'.keys = d.keys) : Opens s d' s' := by
  cases h with
  | inherited ht' hk' => exact .inherited (ht.trans ht') (hk.trans hk')
  | keyed ht' hk' hkey => exact .keyed (ht.trans ht') (hk.trans hk') hkey

/-! ## Stored directories -/

/-- Where a directory is stored. -/
inductive Loc where
  | blob (hash : Hash)
  | pointer (key : Bytes32)
  deriving DecidableEq

/-- Where the reference at a place of a directory points. -/
def DirRef.loc (dirRef : DirRef) : DirHandlePath → Loc
  | .shard _ => .blob dirRef.hash
  | .path _ =>
    match dirRef.refTypeD with
    | .blake3Hash => .blob dirRef.hash
    | .registryKey => .pointer dirRef.hash

/-- The reference at a place of a directory. -/
def DirV1.refAt (d : DirV1) : DirHandlePath → Option DirRef
  | .path name => d.dirs[name]?
  | .shard index => d.header.shards.bind (·[index]?)

section
variable {β : Type} (env : Env β)

def unsealed : Seal → β → Option β
  | none, b => some b
  | some key, b => env.decrypt key b

/-- The directory that opens under a seal. -/
def World.stored (w : World β) (s : Seal) : Loc → Option DirV1
  | .blob h => (w.store[h]?.bind (unsealed env s)).bind env.fromBytes
  | .pointer key =>
    match w.registry[key]? with
    | none => some .new
    | some entry => (w.store[entry.hash]?.bind (unsealed env s)).bind env.fromBytes

/-- What a context is linked to. -/
def DirContext.loc (ctx : DirContext ι) : Option Loc :=
  match ctx.link with
  | .localFile => none
  | .dirHandle _ _ hash _ => some (.blob hash)
  | .registryKey key _ => some (.pointer key)

theorem decryptIfNeeded_eq {ctx : DirContext ι} {s : Seal} (h : ctx.Sealed s) (b plain : β) :
    decryptIfNeeded env ctx b = .ok plain ↔ unsealed env s b = some plain := by
  cases s with
  | none =>
    have ht : ctx.encryptionType = none := h
    simp [decryptIfNeeded, ht, unsealed]
  | some key =>
    simp only [decryptIfNeeded, h.1, h.2, unsealed, if_true]
    cases env.decrypt key b <;> simp

/-- `load` finds what is stored where the context is linked to. -/
theorem load_eq {ctx : DirContext ι} {s : Seal} {w : World β} {l : Loc} {d : DirV1}
    (h : ctx.Sealed s) (hl : ctx.loc = some l) :
    (∃ n, load env ctx w = .ok (d, n)) ↔ w.stored env s l = some d := by
  have hblob : ∀ hash, (∃ n, (do
      let b ← w.readAsBytes hash
      let plain ← decryptIfNeeded env ctx b
      decodeDir env plain) = Except.ok (d, n)) ↔
      (w.store[hash]?.bind (unsealed env s)).bind env.fromBytes = some d := by
    intro hash
    unfold World.readAsBytes
    cases w.store[hash]? with
    | none => simp [bind, Except.bind]
    | some b =>
      cases hd : decryptIfNeeded env ctx b with
      | error e =>
        have hn : unsealed env s b = none := by
          cases hu : unsealed env s b with
          | none => rfl
          | some plain =>
            rw [(decryptIfNeeded_eq env h b plain).2 hu] at hd
            exact nomatch hd
        simp [bind, Except.bind, hd, hn]
      | ok plain =>
        have hu := (decryptIfNeeded_eq env h b plain).1 hd
        simp only [bind, Except.bind, hd, hu, Option.bind_some, decodeDir]
        cases env.fromBytes plain <;> simp
  cases hlink : ctx.link with
  | localFile => simp [DirContext.loc, hlink] at hl
  | dirHandle path handle hash level =>
    obtain rfl : .blob hash = l := by simpa [DirContext.loc, hlink] using hl
    simp only [load, hlink]
    exact hblob hash
  | registryKey key signingKey =>
    obtain rfl : .pointer key = l := by simpa [DirContext.loc, hlink] using hl
    simp only [load, hlink, World.stored]
    cases w.registry[key]? with
    | none => simp
    | some entry => exact hblob entry.hash

/-- The contexts under which directories and shards below a root are opened, along what is stored. -/
inductive Descendant (w : World β) (self : ι) (root : DirContext ι) : DirContext ι → Prop where
  | root : Descendant w self root root
  | dir {ctx : DirContext ι} {d : DirV1} {n : Nat} {name : String} {dirRef : DirRef}
      (h : Descendant w self root ctx) (hl : load env ctx w = .ok (d, n))
      (hd : d.dirs[name]? = some dirRef) :
      Descendant w self root (ctx.withNewRef dirRef (dirLink ctx self name dirRef))
  | shard {ctx : DirContext ι} {d : DirV1} {n : Nat} {index : UInt8} {dirRef : DirRef}
      (level : UInt8) (h : Descendant w self root ctx) (hl : load env ctx w = .ok (d, n))
      (hd : d.header.shards.bind (·[index]?) = some dirRef) :
      Descendant w self root
        (ctx.withNewRef dirRef (.dirHandle (.shard index) self dirRef.hash level))

/-- The context under which what lies at the end of a path is opened. -/
def descend (w : World β) (self : ι) : List DirHandlePath → DirContext ι → Option (DirContext ι)
  | [], ctx => some ctx
  | path :: rest, ctx =>
    match load env ctx w with
    | .error _ => none
    | .ok (d, _) =>
      match d.refAt path with
      | none => none
      | some dirRef =>
        descend w self rest (ctx.withNewRef dirRef (match path with
          | .path name => dirLink ctx self name dirRef
          | .shard index => .dirHandle (.shard index) self dirRef.hash 0))

theorem descendant_descend {w : World β} {self : ι} {root : DirContext ι} :
    ∀ (path : List DirHandlePath) {ctx c : DirContext ι}, Descendant env w self root ctx →
      descend env w self path ctx = some c → Descendant env w self root c
  | [], _, _, h, hc => Option.some.inj hc ▸ h
  | path :: rest, ctx, c, h, hc => by
    unfold descend at hc
    cases hl : load env ctx w with
    | error e =>
      rw [hl] at hc
      exact nomatch hc
    | ok x =>
      obtain ⟨d, n⟩ := x
      rw [hl] at hc
      dsimp only at hc
      cases hr : d.refAt path with
      | none =>
        rw [hr] at hc
        exact nomatch hc
      | some dirRef =>
        rw [hr] at hc
        refine descendant_descend rest ?_ hc
        cases path with
        | path name => exact .dir h hl hr
        | shard index => exact .shard 0 h hl hr

/-! ## Store typings -/

/-- The stored directories and the seals that open them. -/
abbrev Sealing := Seal → Loc → Prop

/-- The references of a directory with seal `s` lead to what is listed. -/
def Refs (S : Sealing) (s : Seal) (d : DirV1) : Prop :=
  ∀ path dirRef, d.refAt path = some dirRef → ∃ s', Opens s dirRef s' ∧ S s' (dirRef.loc path)

/-- A registry key that was taken before, or that has been drawn. -/
def World.Drawn (w : World β) (taken : Bytes32 → Prop) (key : Bytes32) : Prop :=
  taken key ∨ ∃ n < w.tick, key = env.random n

/-- What is listed can be opened and leads to what is listed. A registry key is listed under one seal
only, and no key is in use that has not been drawn yet. -/
structure Sealing.Good (S : Sealing) (taken : Bytes32 → Prop) (w : World β) : Prop where
  stored : ∀ s l, S s l → ∃ d, w.stored env s l = some d ∧ Refs S s d
  pointers : ∀ s s' key, S s (.pointer key) → S s' (.pointer key) → s = s'
  drawn : ∀ s key, S s (.pointer key) → w.Drawn env taken key
  registered : ∀ key, w.registry[key]?.isSome → w.Drawn env taken key

/-- The root can be opened and leads to what is listed. -/
def RootGood (S : Sealing) (w : World β) (root : DirContext ι) : Prop :=
  ∃ s, root.Sealed s ∧ ((∃ l, root.loc = some l ∧ S s l) ∨ root.link = .localFile ∧ s = none ∧
    ∃ b d, w.rootFile = some b ∧ env.fromBytes b = some d ∧ Refs S s d)

/-- Nothing has happened that the design takes to be impossible: BLAKE3 has met no collision and given
no blob the all-zero hash, and no random value has been drawn twice or was taken before. -/
structure World.Sane (w : World β) (taken : Bytes32 → Prop) : Prop where
  collided : w.collided = false
  zero : w.store[(0 : Hash)]? = none
  distinct : ∀ m n, m < n → n < w.tick → env.random m ≠ env.random n
  untaken : ∀ n < w.tick, ¬ taken (env.random n)

section
variable {env} {S : Sealing} {taken : Bytes32 → Prop} {w : World β}

theorem load_of_sealed {ctx : DirContext ι} {s : Seal} {l : Loc} (hg : S.Good env taken w)
    (hs : ctx.Sealed s) (hl : ctx.loc = some l) (h : S s l) :
    ∃ d n, load env ctx w = .ok (d, n) ∧ Refs S s d := by
  obtain ⟨d, hd, hr⟩ := hg.stored s l h
  obtain ⟨n, hn⟩ := (load_eq env hs hl).2 hd
  exact ⟨d, n, hn, hr⟩

theorem load_root {root : DirContext ι} (hg : S.Good env taken w) (hr : RootGood env S w root) :
    ∃ s d n, root.Sealed s ∧ load env root w = .ok (d, n) ∧ Refs S s d := by
  obtain ⟨s, hs, ⟨l, hl, hS⟩ | ⟨hlink, -, b, d, hb, hd, hrefs⟩⟩ := hr
  · obtain ⟨d, n, hld, hrefs⟩ := load_of_sealed hg hs hl hS
    exact ⟨s, d, n, hs, hld, hrefs⟩
  · refine ⟨s, d, env.len b, hs, ?_, hrefs⟩
    simp [load, hlink, hb, decodeDir, hd]

/-- **Everything below a good root opens.** -/
theorem load_descendant {self : ι} {root ctx : DirContext ι} (hg : S.Good env taken w)
    (hr : RootGood env S w root) (h : Descendant env w self root ctx) :
    ∃ s d n, ctx.Sealed s ∧ load env ctx w = .ok (d, n) ∧ Refs S s d := by
  induction h with
  | root =>
    obtain ⟨s, d, n, hs, hl, hrefs⟩ := load_root hg hr
    exact ⟨s, d, n, hs, hl, hrefs⟩
  | @dir ctx d n name dirRef _ hl hd ih =>
    obtain ⟨s, d', n', hs, hl', hrefs⟩ := ih
    obtain ⟨rfl, -⟩ := Prod.mk.inj (Except.ok.inj (hl.symm.trans hl'))
    obtain ⟨s', ho, hS⟩ := hrefs (.path name) dirRef hd
    have hs' := hs.withNewRef ho (dirLink ctx self name dirRef)
    have hloc : (ctx.withNewRef dirRef (dirLink ctx self name dirRef)).loc =
        some (dirRef.loc (.path name)) := by
      unfold DirContext.loc DirContext.withNewRef dirLink DirRef.loc
      cases dirRef.refTypeD <;> rfl
    obtain ⟨d2, n2, hl2, hrefs2⟩ := load_of_sealed hg hs' hloc hS
    exact ⟨s', d2, n2, hs', hl2, hrefs2⟩
  | @shard ctx d n index dirRef level _ hl hd ih =>
    obtain ⟨s, d', n', hs, hl', hrefs⟩ := ih
    obtain ⟨rfl, -⟩ := Prod.mk.inj (Except.ok.inj (hl.symm.trans hl'))
    obtain ⟨s', ho, hS⟩ := hrefs (.shard index) dirRef hd
    have hs' := hs.withNewRef ho (.dirHandle (.shard index) self dirRef.hash level)
    obtain ⟨d2, n2, hl2, hrefs2⟩ := load_of_sealed hg hs' rfl hS
    exact ⟨s', d2, n2, hs', hl2, hrefs2⟩

end

end

end Fs
