import S5.Fs.Context
import S5.Registry.Pinner
import S5.Registry.Publish
import S5.Registry.Proof.Compose

/-!
# What peers can do to a registry

A request of a peer is a write to the registry behind the server, whatever it is composed of and
whoever owns the key it names (`serve_set`, `serve_delete`). The results say which requests spare
what they should not touch.

* `owned_key_genuine`: an Ed25519 key answers with messages of its owner, and a directory rooted
  at it loads heads of its owner, along every run in which no backend takes a message under the
  key that the owner did not publish and no `Delete` finds an entry of it (`SparesKey`).
* `pins_local`: the pin sets of a node are those of its local pin calls along every run in which
  no request of a peer changes a row under a pin key (`SparesPins`).
-/

open Std

namespace Registry

open DynRegistry

/-! ## Requests as writes -/

theorem serve_set {req : SetRequest} {m : StreamMessage}
    (h : StreamMessage.deserialize req.message = .ok m) (r : DynRegistry) :
    serve r (.set req) = (r.write (.set m)).1 := by
  show (handleSet r r.set req).1 = _
  unfold handleSet
  rw [h, ← set_eq_write (StreamMessage.wire_of_deserialize h)]

theorem serve_set_error {req : SetRequest} {e : StreamMessageError}
    (h : StreamMessage.deserialize req.message = .error e) (r : DynRegistry) :
    serve r (.set req) = r := by
  show (handleSet r r.set req).1 = _
  unfold handleSet
  rw [h]

theorem serve_delete {req : DeleteRequest} {key : StreamKey}
    (h : requestKey req.keyType req.keyData = .ok key) (r : DynRegistry) :
    serve r (.delete req) = (r.write (.delete key)).1 := by
  show (handleDelete r r.delete req).1 = _
  unfold handleDelete
  rw [h, ← delete_eq_write key]

theorem serve_delete_error {req : DeleteRequest} {e : StreamKeyDeserializeError}
    (h : requestKey req.keyType req.keyData = .error e) (r : DynRegistry) :
    serve r (.delete req) = r := by
  show (handleDelete r r.delete req).1 = _
  unfold handleDelete
  rw [h]

/-- The message a request asks to store. -/
def RpcProto.message : RpcProto → Option StreamMessage
  | .set req => (StreamMessage.deserialize req.message).toOption
  | _ => none

/-- The key a request asks to delete. -/
def RpcProto.deletes : RpcProto → Option StreamKey
  | .delete req => (requestKey req.keyType req.keyData).toOption
  | _ => none

/-- A message that a backend the request reaches would store. -/
def Takes (r : DynRegistry) (m : StreamMessage) : Prop :=
  ∃ e, .ok e ∈ r.reached Except.isOk m.key ∧ m.shouldStore e = true

/-- A row under the key in a backend the request reaches. -/
def Finds (r : DynRegistry) (key : StreamKey) : Prop :=
  ∃ s ∈ r.reached (fun _ => true) key, s ≠ .ok none

/-- **What a request does**: nothing, or one write. -/
theorem serve_cases (r : DynRegistry) (req : RpcProto) :
    serve r req = r ∨
    (∃ m ∈ req.message, m.wire = m ∧ serve r req = (r.write (.set m)).1) ∨
    (∃ key ∈ req.deletes, serve r req = (r.write (.delete key)).1) := by
  cases req with
  | get req => exact .inl rfl
  | set req =>
    cases h : StreamMessage.deserialize req.message with
    | error e => exact .inl (serve_set_error h r)
    | ok m =>
      refine .inr (.inl ⟨m, ?_, StreamMessage.wire_of_deserialize h, serve_set h r⟩)
      simp [RpcProto.message, h, Except.toOption]
  | delete req =>
    cases h : requestKey req.keyType req.keyData with
    | error e => exact .inl (serve_delete_error h r)
    | ok key =>
      refine .inr (.inr ⟨key, ?_, serve_delete h r⟩)
      simp [RpcProto.deletes, h, Except.toOption]

theorem put_eq_self {r : DynRegistry} {m : StreamMessage} (h : ¬ Takes r m) :
    ∀ s ∈ r.reached Except.isOk m.key, s.put m = s := by
  intro s hs
  cases s with
  | error x => rfl
  | ok e =>
    have hno : ¬ m.shouldStore e = true := fun hst => h ⟨e, hs, hst⟩
    show Except.ok (if m.shouldStore e = true then some m else e) = _
    rw [if_neg hno]

theorem eq_none_of_not_finds {r : DynRegistry} {key : StreamKey} (h : ¬ Finds r key) :
    ∀ s ∈ r.reached (fun _ => true) key, (.ok none : Slot) = s := by
  intro s hs
  by_contra hne
  exact h ⟨s, hs, fun he => hne he.symm⟩

/-- A request keeps an agreement if no write of it changes a slot under a key of `K`. -/
theorem agree_serve_left {K : StreamKey → Prop} {r r' : DynRegistry} {req : RpcProto}
    (h : Agree K r r') (hset : ∀ m ∈ req.message, K m.key → ¬ Takes r m)
    (hdel : ∀ key ∈ req.deletes, K key → ¬ Finds r key) : Agree K (serve r req) r' := by
  rcases serve_cases r req with he | ⟨m, hm, hw, he⟩ | ⟨key, hk, he⟩
  · rw [he]
    exact h
  · rw [he]
    exact agree_write_left (LeafOp.spec_set hw) h fun hK => put_eq_self (hset m hm hK)
  · rw [he]
    exact agree_write_left (LeafOp.spec_delete key) h fun hK =>
      eq_none_of_not_finds (hdel key hk hK)

/-! ## Reads -/

theorem get_remote (served : DynRegistry) (k : StreamKey) :
    (remote true served).get k =
      .ok (match served.get k with
        | .ok (some m) => some m.wire
        | _ => none) := by
  conv_lhs => unfold DynRegistry.get handleGet
  rw [if_pos rfl, requestKey_toBytes]
  dsimp only
  cases served.get k with
  | error e => rfl
  | ok e =>
    cases e with
    | none => rfl
    | some m =>
      show clientGet (some m.serialize) = _
      unfold clientGet
      dsimp only
      rw [StreamMessage.deserialize_serialize]

mutual

/-- What a read returns is in the slot of some backend. -/
theorem get_mem_leaves {k : StreamKey} {e : StreamMessage} :
    ∀ {r : DynRegistry}, r.get k = .ok (some e) →
      ∃ e₀, .ok (some e₀) ∈ r.leaves k ∧ e₀.wire = e.wire
  | memory r, h => ⟨e, List.mem_singleton.2 h.symm, rfl⟩
  | redb r, h => ⟨e, List.mem_singleton.2 h.symm, rfl⟩
  | store r, h => ⟨e, List.mem_singleton.2 h.symm, rfl⟩
  | remote up served, h => by
    cases up with
    | false => exact nomatch h
    | true =>
      rw [get_remote] at h
      cases hs : served.get k with
      | error x => rw [hs] at h; exact nomatch h
      | ok e' =>
        cases e' with
        | none => rw [hs] at h; exact nomatch h
        | some m =>
          rw [hs] at h
          obtain ⟨e₀, hmem, hw⟩ := get_mem_leaves hs
          have he : m.wire = e := Option.some.inj (Except.ok.inj h)
          exact ⟨e₀, hmem, by rw [hw, ← he, StreamMessage.wire_wire]⟩
  | tee near far, h => by
    unfold DynRegistry.get at h
    split at h
    · exact nomatch h
    · rename_i m hn
      obtain ⟨e₀, hmem, hw⟩ := get_mem_leaves (hn.trans h)
      exact ⟨e₀, List.mem_append_left _ hmem, hw⟩
    · obtain ⟨e₀, hmem, hw⟩ := get_mem_leaves h
      exact ⟨e₀, List.mem_append_right _ hmem, hw⟩
  | multi backends policy, h => getFirst_mem_leaves (Except.ok.inj h)

theorem getFirst_mem_leaves {k : StreamKey} {e : StreamMessage} :
    ∀ {bs : List DynRegistry}, getFirst bs k = some e →
      ∃ e₀, .ok (some e₀) ∈ leavesAll bs k ∧ e₀.wire = e.wire
  | [], h => nomatch h
  | b :: bs, h => by
    unfold getFirst at h
    split at h
    · rename_i m hb
      obtain ⟨e₀, hmem, hw⟩ := get_mem_leaves (hb.trans (congrArg Except.ok h))
      exact ⟨e₀, List.mem_append_left _ hmem, hw⟩
    · obtain ⟨e₀, hmem, hw⟩ := getFirst_mem_leaves h
      exact ⟨e₀, List.mem_append_right _ hmem, hw⟩
    · obtain ⟨e₀, hmem, hw⟩ := getFirst_mem_leaves h
      exact ⟨e₀, List.mem_append_right _ hmem, hw⟩

end

/-- What answered still answers, and an entry has not disappeared. -/
def Slot.Le (s s' : Slot) : Prop := ∀ x, s = .ok x → ∃ x', s' = .ok x' ∧ (x.isSome → x'.isSome)

theorem Slot.Le.refl (s : Slot) : s.Le s := fun x hx => ⟨x, hx, id⟩

theorem Slot.le_put (m : StreamMessage) (s : Slot) : s.Le (s.put m) := by
  intro x hx
  subst hx
  refine ⟨if m.shouldStore x then some m else x, rfl, fun hs => ?_⟩
  split
  · rfl
  · exact hs

section
variable {op : LeafOp} {key : StreamKey} {f : Slot → Slot} {leafOk : Slot → Bool}

theorem ite_le (hf : ∀ s, Slot.Le s (f s)) (p : Prop) [Decidable p] (s : Slot) :
    s.Le (if p then f s else s) := by
  split
  · exact hf s
  · exact Slot.Le.refl s

mutual

/-- A write that removes no entry leaves every read with an answer at least as good. -/
theorem get_write_le (hop : op.Spec key f leafOk) (hf : ∀ s, Slot.Le s (f s)) (k : StreamKey) :
    ∀ r : DynRegistry, Slot.Le (r.get k) ((r.write op).1.get k)
  | memory r => by
    show Slot.Le (.ok (r.get k)) (.ok ((op.memory r).1.get k))
    rw [memory_get_write hop]
    exact ite_le hf _ _
  | redb r => by
    show Slot.Le (r.table.get k) ((op.rows r.table).1.get k)
    rw [rows_get_write hop]
    exact ite_le hf _ _
  | store r => by
    show Slot.Le (r.files.get k) ((op.rows r.files).1.get k)
    rw [rows_get_write hop]
    exact ite_le hf _ _
  | remote up served => by
    rw [write_remote]
    cases up with
    | false => exact Slot.Le.refl _
    | true =>
      intro x hx
      rw [if_pos rfl, get_remote]
      refine ⟨_, rfl, fun hsome => ?_⟩
      rw [get_remote] at hx
      obtain rfl := Except.ok.inj hx
      cases hs : served.get k with
      | error e => rw [hs] at hsome; exact nomatch hsome
      | ok e =>
        cases e with
        | none => rw [hs] at hsome; exact nomatch hsome
        | some m =>
          obtain ⟨x', hx', hs'⟩ := get_write_le hop hf k served _ hs
          obtain ⟨m', rfl⟩ := Option.isSome_iff_exists.1 (hs' rfl)
          rw [hx']
          rfl
  | tee near far => by
    have hn := get_write_le hop hf k near
    have hfar : Slot.Le (far.get k)
        ((if near.accepts leafOk key then (far.write op).1 else far).get k) := by
      split
      · exact get_write_le hop hf k far
      · exact Slot.Le.refl _
    rw [write_tee hop]
    intro x hx
    unfold DynRegistry.get at hx ⊢
    split at hx
    · exact nomatch hx
    · rename_i m hm
      obtain ⟨x', hx', hs'⟩ := hn _ hm
      obtain ⟨m', rfl⟩ := Option.isSome_iff_exists.1 (hs' rfl)
      rw [hx']
      exact ⟨some m', rfl, fun _ => rfl⟩
    · rename_i hm
      obtain ⟨x', hx', -⟩ := hn _ hm
      rw [hx']
      cases x' with
      | some m' => exact ⟨some m', rfl, fun _ => rfl⟩
      | none => exact hfar x hx
  | multi backends policy => by
    rw [write_multi]
    intro x hx
    obtain rfl : getFirst backends k = x := Except.ok.inj hx
    exact ⟨_, rfl, getFirst_write_isSome hop hf k backends⟩

theorem getFirst_write_isSome (hop : op.Spec key f leafOk) (hf : ∀ s, Slot.Le s (f s))
    (k : StreamKey) : ∀ bs : List DynRegistry,
      (getFirst bs k).isSome → (getFirst ((writeAll op bs).map (·.1)) k).isSome
  | [] => id
  | b :: bs => by
    have hb := get_write_le hop hf k b
    have hbs := getFirst_write_isSome hop hf k bs
    intro hsome
    show (getFirst ((b.write op).1 :: (writeAll op bs).map (·.1)) k).isSome
    unfold getFirst at hsome ⊢
    split at hsome
    · rename_i m hm
      obtain ⟨x', hx', hs'⟩ := hb _ hm
      obtain ⟨m', rfl⟩ := Option.isSome_iff_exists.1 (hs' rfl)
      rw [hx']
      rfl
    all_goals
      split
      · rfl
      · exact hbs hsome
      · exact hbs hsome

end

end

/-! ## Keys with an owner -/

section
variable (Published : StreamMessage → Prop)

/-- The message is one the owner published, as the wire carries it. -/
def Genuine (e : StreamMessage) : Prop := ∃ p, Published p ∧ p.wire = e.wire

/-- `get` answers with an entry. -/
def Present (key : StreamKey) (r : DynRegistry) : Prop := ∃ e, r.get key = .ok (some e)

/-- A request stores nothing of others under `key` and removes nothing from there. -/
def SparesKey (key : StreamKey) (r : DynRegistry) (req : RpcProto) : Prop :=
  (∀ m ∈ req.message, m.key = key → Takes r m → Genuine Published m) ∧
    ∀ j ∈ req.deletes, j = key → ¬ Finds r key

/-- Every state of the run answers for `key` with a message of the owner, or has had no entry
under it from the start. -/
structure Unforged (key : StreamKey) (r : DynRegistry) (reqs : List RpcProto) : Prop where
  genuine : Run.Always serve (fun r => ∀ e, r.get key = .ok (some e) → Genuine Published e) r reqs
  kept : Run.Ascends serve (fun r r' => Present key r → Present key r') r reqs

variable {Published}

/-- The entries under `key` of all backends are the owner's. -/
def Owned (Published : StreamMessage → Prop) (key : StreamKey) (r : DynRegistry) : Prop :=
  ∀ e, .ok (some e) ∈ r.leaves key → Genuine Published e

theorem Owned.genuine {key : StreamKey} {r : DynRegistry} (h : Owned Published key r)
    {e : StreamMessage} (he : r.get key = .ok (some e)) : Genuine Published e := by
  obtain ⟨e₀, hmem, hw⟩ := get_mem_leaves he
  obtain ⟨p, hp, hpw⟩ := h e₀ hmem
  exact ⟨p, hp, hpw.trans hw⟩

theorem owned_serve {key : StreamKey} {r : DynRegistry} {req : RpcProto}
    (h : Owned Published key r) (hs : SparesKey Published key r req) :
    Owned Published key (serve r req) := by
  rcases serve_cases r req with he | ⟨m, hm, hw, he⟩ | ⟨j, hj, he⟩
  · rw [he]
    exact h
  · rw [he]
    intro e hmem
    rcases mem_leaves_write (LeafOp.spec_set hw) r hmem with hold | ⟨hk, s₀, h₀, hput⟩
    · exact h e hold
    · cases s₀ with
      | error x => exact nomatch hput
      | ok e₀ =>
        by_cases hst : m.shouldStore e₀ = true
        · have hem : e = m := by simpa [Slot.put, hst] using hput
          rw [hem]
          exact hs.1 m hm hk.symm ⟨e₀, h₀, hst⟩
        · have hee : some e = e₀ := by simpa [Slot.put, hst] using hput
          refine h e ?_
          rw [hee, hk]
          exact mem_leaves_of_reached h₀
  · rw [he]
    intro e hmem
    rcases mem_leaves_write (LeafOp.spec_delete j) r hmem with hold | ⟨-, s₀, -, hput⟩
    · exact h e hold
    · exact nomatch hput

theorem present_serve {key : StreamKey} {r : DynRegistry} {req : RpcProto}
    (hs : SparesKey Published key r req) (hp : Present key r) : Present key (serve r req) := by
  obtain ⟨e, hget⟩ := hp
  rcases serve_cases r req with he | ⟨m, hm, hw, he⟩ | ⟨j, hj, he⟩
  · exact ⟨e, by rw [he, hget]⟩
  · obtain ⟨x', hx', hsome⟩ :=
      get_write_le (LeafOp.spec_set hw) (Slot.le_put m) key r _ hget
    obtain ⟨e', rfl⟩ := Option.isSome_iff_exists.1 (hsome rfl)
    exact ⟨e', by rw [he, hx']⟩
  · have hag : Agree (· = key) (r.write (.delete j)).1 r :=
      agree_write_left (LeafOp.spec_delete j) (Agree.refl _ r) fun hK =>
        eq_none_of_not_finds (hK ▸ hs.2 j hj hK)
    have hsame : (r.write (.delete j)).1.get key = r.get key :=
      @Agree.get_eq (· = key) key rfl _ _ hag
    exact ⟨e, by rw [he, hsame, hget]⟩

/-- What a directory rooted at the key `pk` reads of the registry. -/
def headEntry (e : StreamMessage) : Fs.RegistryEntry := ⟨e.revision, e.hash⟩

/-- The state of the directory whose head is `h`. -/
def loadHead {β ι : Type} (env : Fs.Env β) (ctx : Fs.DirContext ι) (w : Fs.World β) (h : Hash) :
    Except String (Fs.DirV1 × Nat) := do
  let b ← w.readAsBytes h
  let plain ← Fs.decryptIfNeeded env ctx b
  Fs.decodeDir env plain

/-- **Keys answer with their owners' messages** in every run whose requests spare the key, and a
directory rooted at the key loads what its owner published. -/
theorem owned_key_genuine (Published : StreamMessage → Prop) (pk : Bytes32) (r : DynRegistry)
    (reqs : List RpcProto) (hstart : Owned Published (.publicKeyEd25519 pk) r)
    (h : Run.Steps serve (SparesKey Published (.publicKeyEd25519 pk)) r reqs) :
    Unforged Published (.publicKeyEd25519 pk) r reqs ∧
    ∀ pre, pre <+: reqs → ∀ (β ι : Type) (env : Fs.Env β) (ctx : Fs.DirContext ι) (w : Fs.World β)
      (signingKey : Option Bytes32) (e : Option StreamMessage),
      ctx.link = .registryKey pk signingKey →
      (pre.foldl serve r).get (.publicKeyEd25519 pk) = .ok e →
      w.registry[pk]? = e.map headEntry →
      (e = none ∧ Fs.load env ctx w = .ok (.new, 0)) ∨
      ∃ p, Published p ∧ Fs.load env ctx w = loadHead env ctx w p.hash := by
  have howned : Run.Always serve (Owned Published (.publicKeyEd25519 pk)) r reqs :=
    Run.always_of_steps (fun _ _ ho hs => owned_serve ho hs) hstart h
  refine ⟨⟨fun pre hp e he => (howned pre hp).genuine he, ?_⟩, ?_⟩
  · refine (Run.ascends_iff (fun _ => id) (fun hab hbc ha => hbc (hab ha))).2 fun pre req hp => ?_
    exact present_serve (h pre req hp)
  · intro pre hp β ι env ctx w signingKey e hlink hget hw
    unfold Fs.load
    rw [hlink]
    dsimp only
    rw [hw]
    cases e with
    | none => exact .inl ⟨rfl, rfl⟩
    | some m =>
      obtain ⟨p, hpub, hpw⟩ := (howned pre hp).genuine hget
      have hh : m.hash = p.hash := by
        show m.wire.hash = p.wire.hash
        rw [hpw]
      refine .inr ⟨p, hpub, ?_⟩
      unfold loadHead
      rw [← hh]
      rfl

end

/-- An entry of revision 7 under an Ed25519 key, whose 64 signature bytes are all `b`. -/
def entryWith (pk : Bytes32) (b : UInt8) : StreamMessage :=
  ⟨.registry, .publicKeyEd25519 pk, 7, 0, List.replicate 64 b, none, rfl, fun _ => Nat.zero_le _⟩

/-- The bytes of a message decode to it. -/
theorem message_entryWith (pk : Bytes32) (b : UInt8) :
    RpcProto.message (.set ⟨(entryWith pk b).serialize⟩) = some (entryWith pk b) := by
  unfold RpcProto.message
  dsimp only
  rw [StreamMessage.deserialize_serialize]
  rfl

theorem owned_memory_new (Published : StreamMessage → Prop) (key : StreamKey) :
    Owned Published key (.memory .new) :=
  fun _ he => nomatch List.mem_singleton.1 he

/-- The owner of a key publishes an entry, a peer plays it back, and others set and delete under
their own keys. -/
def peerRequests : List RpcProto :=
  [.set ⟨(entryWith 2 3).serialize⟩, .set ⟨(entryWith 1 17).serialize⟩,
    .set ⟨(entryWith 1 17).serialize⟩, .get ⟨1, 1⟩, .set ⟨(entryWith 2 0xff).serialize⟩, .delete ⟨1, 2⟩]

theorem owned_key_genuine_peerRequests :
    Unforged (· = entryWith 1 17) (.publicKeyEd25519 1) (.memory .new) peerRequests := by
  refine (owned_key_genuine _ 1 _ _ (owned_memory_new _ _) ?_).1
  have hpublished : ∀ r, SparesKey (· = entryWith 1 17) (.publicKeyEd25519 1) r
      (.set ⟨(entryWith 1 17).serialize⟩) := by
    refine fun r => ⟨fun m hm _ _ => ?_, fun j hj => nomatch hj⟩
    rw [message_entryWith] at hm
    exact ⟨_, rfl, congrArg StreamMessage.wire (Option.some.inj hm)⟩
  have hother : ∀ r b, SparesKey (· = entryWith 1 17) (.publicKeyEd25519 1) r
      (.set ⟨(entryWith 2 b).serialize⟩) := by
    refine fun r b => ⟨fun m hm hkey _ => ?_, fun j hj => nomatch hj⟩
    rw [message_entryWith] at hm
    obtain rfl := Option.some.inj hm
    exact absurd (StreamKey.publicKeyEd25519.inj hkey) (by decide)
  have hget : ∀ r req, SparesKey (· = entryWith 1 17) (.publicKeyEd25519 1) r (.get req) :=
    fun r req => ⟨(fun m hm => nomatch hm), fun j hj => nomatch hj⟩
  refine Run.steps_cons.2 ⟨hother _ _, Run.steps_cons.2 ⟨hpublished _, Run.steps_cons.2
    ⟨hpublished _, Run.steps_cons.2 ⟨hget _ _, Run.steps_cons.2 ⟨hother _ _, Run.steps_cons.2
      ⟨⟨(fun m hm => nomatch hm), fun j hj hkey => ?_⟩, Run.steps_nil⟩⟩⟩⟩⟩⟩
  -- the delete is of another key
  subst hkey
  exact absurd hj (by decide +kernel)

/-- Peers hold no valid signature under `pk` but those of messages the owner published; `verify` is
Ed25519 verification. -/
def Unforgeable (verify : Bytes32 → Bytes → Bytes → Bool) (Published : StreamMessage → Prop)
    (pk : Bytes32) (reqs : List RpcProto) : Prop :=
  ∀ req ∈ reqs, ∀ m ∈ req.message, m.key = .publicKeyEd25519 pk →
    verify pk (signBytes m.key m.revision m.hash) m.signature = true →
    ∃ p, Published p ∧ p.signature = m.signature

/-- A peer stores an entry under a key it does not own: signature bytes `0xff`, which no key
accepts, do as well as any. -/
theorem forged_entry_stored :
    let r := DynRegistry.memory .new
    let reqs := [RpcProto.set ⟨(entryWith 1 0xff).serialize⟩]
    Owned (fun _ => False) (.publicKeyEd25519 1) r ∧
      Unforgeable (fun _ _ _ => false) (fun _ => False) 1 reqs ∧
      ¬ Unforged (fun _ => False) (.publicKeyEd25519 1) r reqs := by
  refine ⟨owned_memory_new _ _, ?_, ?_⟩
  · intro req _ m _ _ hv
    exact nomatch hv
  · intro h
    have hget : ([RpcProto.set ⟨(entryWith 1 0xff).serialize⟩].foldl serve
        (DynRegistry.memory .new)).get (.publicKeyEd25519 1) = .ok (some (entryWith 1 0xff)) := by
      decide +kernel
    obtain ⟨p, hp, -⟩ := h.genuine _ List.prefix_rfl _ hget
    exact hp

/-! ## Pins -/

section
variable (codec : PinCodec)

/-- The keys of pin sets. -/
def IsPinKey (key : StreamKey) : Prop := ∃ h, key = hashToKey h

/-- A request of a peer changes no row under a pin key. -/
def SparesPins (r : DynRegistry) : NodeEvent → Prop
  | .remote req => (∀ m ∈ req.message, IsPinKey m.key → ¬ Takes r m) ∧
      ∀ key ∈ req.deletes, IsPinKey key → ¬ Finds r key
  | _ => True

/-- In every state of the run the pin sets are those that its local calls alone make. -/
def PinsLocal (r : DynRegistry) (events : List NodeEvent) : Prop :=
  ∀ pre, pre <+: events → ∀ h,
    getPinners codec (pre.foldl (nodeStep codec) r) h =
      getPinners codec ((pre.filter NodeEvent.isLocal).foldl (nodeStep codec) r) h

variable {r r' : DynRegistry}

theorem getInternal_agree (h : Agree IsPinKey r r') (hsh : Hash) :
    getInternal codec r (hashToKey hsh) = getInternal codec r' (hashToKey hsh) := by
  have hg : RegistryApi.get r (hashToKey hsh) = RegistryApi.get r' (hashToKey hsh) :=
    h.get_eq ⟨hsh, rfl⟩
  unfold getInternal
  rw [hg]

theorem saveInternal_agree (h : Agree IsPinKey r r') (hsh : Hash) (pinners : Finset PinContext)
    (revision : UInt64) :
    Agree IsPinKey (saveInternal codec r (hashToKey hsh) pinners revision).1
      (saveInternal codec r' (hashToKey hsh) pinners revision).1 := by
  have hK : IsPinKey (hashToKey hsh) := ⟨hsh, rfl⟩
  unfold saveInternal
  split
  · show Agree _ (r.delete _).1 (r'.delete _).1
    rw [delete_eq_write, delete_eq_write]
    exact agree_write (LeafOp.spec_delete _) hK h
  · dsimp only
    split
    · exact h
    · rename_i m hm
      obtain ⟨-, hkey, -, -, -, hdata⟩ := StreamMessage.new_eq_ok hm
      have hw : m.wire = m := by
        apply StreamMessage.wire_eq_self
        rw [hdata]
        exact fun he => codec.encode_ne_nil _ (Option.some.inj he)
      show Agree _ (r.set m).1 (r'.set m).1
      rw [set_eq_write hw, set_eq_write hw]
      exact agree_write (LeafOp.spec_set hw) (hkey ▸ hK) h

theorem unpinHash_fst (r : DynRegistry) (hsh : Hash) (c : PinContext) :
    (unpinHash codec r hsh c).1 =
      match getInternal codec r (hashToKey hsh) with
      | .error _ => r
      | .ok (pinners, revision) =>
        if c ∉ pinners then r
        else (saveInternal codec r (hashToKey hsh) (pinners.erase c) (revision + 1)).1 := by
  unfold unpinHash
  cases getInternal codec r (hashToKey hsh) with
  | error e => rfl
  | ok p =>
    dsimp only
    split
    · rfl
    · generalize saveInternal codec r (hashToKey hsh) (p.1.erase c) (p.2 + 1) = res
      obtain ⟨r', _ | _⟩ := res <;> rfl

/-- A local pin call acts alike on registries with the same pin rows. -/
theorem nodeStep_agree (h : Agree IsPinKey r r') {e : NodeEvent} (he : e.isLocal = true) :
    Agree IsPinKey (nodeStep codec r e) (nodeStep codec r' e) := by
  cases e with
  | remote req => exact nomatch he
  | pin hsh c =>
    show Agree _ (pinHash codec r hsh c).1 (pinHash codec r' hsh c).1
    unfold pinHash
    rw [getInternal_agree codec h]
    split
    · exact h
    · exact saveInternal_agree codec h ..
  | unpin hsh c =>
    show Agree _ (unpinHash codec r hsh c).1 (unpinHash codec r' hsh c).1
    rw [unpinHash_fst, unpinHash_fst, getInternal_agree codec h]
    split
    · exact h
    · split
      · exact h
      · exact saveInternal_agree codec h ..
  | unpinAll hsh =>
    show Agree _ (unpinHashAll codec r hsh).1 (unpinHashAll codec r' hsh).1
    unfold unpinHashAll
    rw [getInternal_agree codec h]
    split
    · exact h
    · split
      · exact h
      · exact saveInternal_agree codec h ..

/-- **Pins follow the local calls** in every run whose requests spare the pin rows. -/
theorem pins_local (r : DynRegistry) (events : List NodeEvent)
    (h : Run.Steps (nodeStep codec) SparesPins r events) : PinsLocal codec r events := by
  intro pre hpre hsh
  have hrun : Agree IsPinKey (pre.foldl (nodeStep codec) r)
      ((pre.filter NodeEvent.isLocal).foldl (nodeStep codec) r) := by
    have hboth : ∀ s t e, Agree IsPinKey s t → NodeEvent.isLocal e = true →
        Agree IsPinKey (nodeStep codec s e) (nodeStep codec t e) :=
      fun _ _ _ ha hv => nodeStep_agree codec ha hv
    have hhidden : ∀ s t e, Agree IsPinKey s t → NodeEvent.isLocal e = false → SparesPins s e →
        Agree IsPinKey (nodeStep codec s e) t := by
      intro s t e ha hv hc
      cases e with
      | remote req => exact agree_serve_left ha hc.1 hc.2
      | pin | unpin | unpinAll => exact nomatch hv
    exact Run.unwinding hboth hhidden (Agree.refl IsPinKey r) (h.of_prefix hpre)
  unfold getPinners
  rw [getInternal_agree codec hrun]

end

/-- The pin sets `∅` and `{LocalFsHead}` in CBOR. -/
def headCodec : PinCodec where
  encode pinners := if .localFsHead ∈ pinners then [0x81, 0x82, 0x01, 0x80] else [0x80]
  decode bytes :=
    if bytes = [0x81, 0x82, 0x01, 0x80] then some {.localFsHead}
    else if bytes = [0x80] then some ∅
    else none
  blake3 _ := 0
  encode_ne_nil pinners := by split <;> simp

/-- A peer's entry under a key of its own leaves the pins alone. -/
theorem pins_local_beside_entry :
    PinsLocal headCodec (.memory .new)
      [.pin 5 .localFsHead, .remote (.set ⟨(entryWith 1 17).serialize⟩)] := by
  refine pins_local headCodec _ _ ?_
  refine Run.steps_cons.2 ⟨trivial, Run.steps_cons.2 ⟨⟨fun m hm hk => ?_, fun j hj => nomatch hj⟩,
    Run.steps_nil⟩⟩
  rw [message_entryWith] at hm
  obtain ⟨h, hkey⟩ := hk
  rw [← Option.some.inj hm] at hkey
  exact nomatch hkey

/-- A peer deletes a pin set. -/
theorem pins_deleted_by_peer :
    ¬ PinsLocal headCodec (.memory .new)
      [.pin 5 .localFsHead, .remote (.delete ⟨3, 5⟩)] := by
  intro h
  exact absurd (h _ List.prefix_rfl 5) (by decide +kernel)

end Registry
