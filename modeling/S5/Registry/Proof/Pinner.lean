import S5.Registry.Pinner
import S5.Registry.Proof.Converge
import Mathlib.Logic.Equiv.Finset

/-!
# The pinner refines a map of pin sets

What `RegistryPinner` is for, a set of contexts for each hash, against how it keeps them: as revisions
of a registry entry, which `set` drops unless they rank above what is there, and whose revision starts
again when a set becomes empty.

* `pinner_refines`: along every run of less than 2⁶⁴ calls every read and every answer is that of the
  map (`PinCall.apply`).
-/

namespace Registry

open RegistryApi

/-- A call that changes pins. -/
inductive PinCall where
  | pin (h : Hash) (c : PinContext)
  | unpin (h : Hash) (c : PinContext)
  | unpinAll (h : Hash)

namespace PinCall

/-- The call on a map of pin sets. -/
def apply (sets : Hash → Finset PinContext) : PinCall → Hash → Finset PinContext
  | pin h c => Function.update sets h (insert c (sets h))
  | unpin h c => Function.update sets h ((sets h).erase c)
  | unpinAll h => Function.update sets h ∅

/-- What the call answers: `unpin_hash` whether the set is empty afterwards. -/
def answer (sets : Hash → Finset PinContext) : PinCall → Option Bool
  | unpin h c => some (((sets h).erase c) = ∅)
  | _ => none

variable {ρ : Type} [RegistryApi ρ] (codec : PinCodec)

/-- The call on a registry. -/
def run (r : ρ) : PinCall → ρ × Except String (Option Bool)
  | pin h c =>
    let (r, res) := pinHash codec r h c
    (r, res.map fun _ => none)
  | unpin h c =>
    let (r, res) := unpinHash codec r h c
    (r, res.map some)
  | unpinAll h =>
    let (r, res) := unpinHashAll codec r h
    (r, res.map fun _ => none)

end PinCall

section
variable {ρ : Type} [RegistryApi ρ] (codec : PinCodec)

/-- The registry holds the pin sets `sets`, none of them in a revision above `n`. -/
def HoldsPins (sets : Hash → Finset PinContext) (n : Nat) (r : ρ) : Prop :=
  ∀ h, ∃ revision : UInt64, revision.toNat ≤ n ∧
    getInternal codec r (hashToKey h) = .ok (sets h, revision)

variable {codec} {sets : Hash → Finset PinContext} {n : Nat} {r : ρ}

theorem hashToKey_injective : Function.Injective hashToKey := fun _ _ h => StreamKey.blake3HashPin.inj h

theorem getInternal_congr {r r' : ρ} {key : StreamKey} (h : get r' key = get r key) :
    getInternal codec r' key = getInternal codec r key := by
  unfold getInternal
  rw [h]

/-- What `get` answers where `get_internal` finds a pin set. -/
theorem get_of_getInternal {key : StreamKey} {pinners : Finset PinContext} {revision : UInt64}
    (h : getInternal codec r key = .ok (pinners, revision)) :
    ∃ e, get r key = .ok e ∧ ∀ m, e = some m → m.revision = revision := by
  unfold getInternal at h
  cases hg : get r key with
  | error x =>
    rw [hg] at h
    cases h
  | ok e =>
    refine ⟨e, rfl, ?_⟩
    rintro m rfl
    rw [hg] at h
    dsimp only at h
    cases hd : m.data with
    | none =>
      rw [hd] at h
      exact (Prod.mk.inj (Except.ok.inj h)).2
    | some data =>
      rw [hd] at h
      dsimp only at h
      cases hdec : codec.decode data with
      | none =>
        rw [hdec] at h
        cases h
      | some p =>
        rw [hdec] at h
        exact (Prod.mk.inj (Except.ok.inj h)).2

end

/-- A registry that reads an entry also takes one, and deletes any. -/
class ObligingRegistry (ρ : Type) [RegistryApi ρ] : Prop extends SlotRegistry ρ where
  set_ok : ∀ (r : ρ) (m : StreamMessage) (e : Option StreamMessage), get r m.key = .ok e →
    (set r m).2 = .ok ()
  delete_ok : ∀ (r : ρ) (k : StreamKey), (delete r k).2 = .ok ()

instance : ObligingRegistry MemoryRegistry where
  set_ok _ _ _ _ := rfl
  delete_ok _ _ := rfl

instance : ObligingRegistry RedbRegistry where
  set_ok r m e he := by
    have hget : r.table.get m.key = .ok e := he
    show (r.table.set m).2 = .ok ()
    unfold Rows.set
    rw [hget]
    dsimp only
    split <;> rfl
  delete_ok _ _ := rfl

section
variable {ρ : Type} [RegistryApi ρ] [ObligingRegistry ρ] {codec : PinCodec} {r : ρ}
  {sets : Hash → Finset PinContext} {n : Nat}

/-- The message under a pin key needs no signature and may be of any size. -/
theorem new_pins (h : Hash) (revision : UInt64) (hash : Hash) (data : Bytes) :
    ∃ m, StreamMessage.new .registry (hashToKey h) revision hash [] (some data) = .ok m := by
  refine ⟨⟨.registry, hashToKey h, revision, hash, [], some data, rfl, fun he => ?_⟩, ?_⟩
  · cases he
  · exact StreamMessage.new_self ⟨.registry, hashToKey h, revision, hash, [], some data, rfl, _⟩

/-- A payload that is not empty is read back as it was. -/
theorem data_of_wire_eq {m m' : StreamMessage} {data : Bytes} (hd : m.data = some data)
    (hne : data ≠ []) (h : m'.wire = m.wire) : m'.data = some data := by
  have hm : m.wire.data = some data := by
    rw [StreamMessage.wire_eq_self (by rw [hd]; simpa using hne), hd]
  have hm' : m'.wire.data = some data := by rw [h, hm]
  have hcases : m'.wire.data = if m'.data.getD [] = [] then none else m'.data := rfl
  rw [hcases] at hm'
  split at hm'
  · cases hm'
  · exact hm'

/-- **A pin set is saved**: it beats the revision it was read with, and other sets stay. -/
theorem saveInternal_spec (hcodec : ∀ pinners, codec.decode (codec.encode pinners) = some pinners)
    {h : Hash} {before : Finset PinContext} {revision : UInt64}
    (hget : getInternal codec r (hashToKey h) = .ok (before, revision))
    (hrev : revision.toNat + 1 < 2 ^ 64) (pinners : Finset PinContext) :
    ∃ r', saveInternal codec r (hashToKey h) pinners (revision + 1) = (r', .ok ()) ∧
      (∃ revision' : UInt64, revision'.toNat ≤ revision.toNat + 1 ∧
        getInternal codec r' (hashToKey h) = .ok (pinners, revision')) ∧
      ∀ k, k ≠ h → getInternal codec r' (hashToKey k) = getInternal codec r (hashToKey k) := by
  have hother : ∀ {k}, k ≠ h → hashToKey k ≠ hashToKey h := fun hk he => hk (hashToKey_injective he)
  unfold saveInternal
  split
  · rename_i hempty
    refine ⟨_, Prod.ext rfl (ObligingRegistry.delete_ok r _), ⟨0, Nat.zero_le _, ?_⟩, fun k hk => ?_⟩
    · unfold getInternal
      rw [SlotRegistry.get_delete, hempty]
    · exact getInternal_congr (SlotRegistry.get_delete_ne r _ _ (hother hk))
  · obtain ⟨m, hm⟩ := new_pins h (revision + 1) (codec.blake3 (codec.encode pinners))
      (codec.encode pinners)
    obtain ⟨htype, hkey, hrevision, -, -, hdata⟩ := StreamMessage.new_eq_ok hm
    obtain ⟨e, he, hold⟩ := get_of_getInternal hget
    rw [← hkey] at he
    have hnext : (revision + 1).toNat = revision.toNat + 1 := by
      rw [UInt64.toNat_add]
      simp
      omega
    have hstore : m.shouldStore e = true := by
      cases e with
      | none => simp [StreamMessage.shouldStore, htype]
      | some old =>
        have hlt : old.rank < m.rank := by
          refine Prod.Lex.toLex_lt_toLex.2 (.inl ?_)
          rw [hold old rfl, hrevision, hnext]
          exact Nat.lt_succ_self _
        simpa [StreamMessage.shouldStore, htype, StreamMessage.cmp_eq_gt] using hlt
    obtain ⟨m', hw, hg⟩ := SlotRegistry.get_set r m e he
    rw [if_pos hstore, hkey] at hg
    have hdata' : m'.data = some (codec.encode pinners) :=
      data_of_wire_eq hdata (codec.encode_ne_nil pinners) hw
    have hrevision' : m'.revision = revision + 1 := by
      rw [← hrevision]
      show m'.wire.revision = m.wire.revision
      rw [hw]
    dsimp only
    rw [hm]
    refine ⟨_, Prod.ext rfl (ObligingRegistry.set_ok r m e he), ⟨revision + 1, hnext.le, ?_⟩,
      fun k hk => ?_⟩
    · unfold getInternal
      rw [hg]
      dsimp only
      rw [hdata']
      dsimp only
      rw [hcodec]
      dsimp only
      rw [hrevision']
    · exact getInternal_congr (SlotRegistry.get_set_ne r m _ (hkey ▸ hother hk))

/-- The sets after one has been saved. -/
theorem HoldsPins.save (hcodec : ∀ pinners, codec.decode (codec.encode pinners) = some pinners)
    (hp : HoldsPins codec sets n r) (hn : n + 1 < 2 ^ 64) (h : Hash) (pinners : Finset PinContext) :
    ∃ revision r', getInternal codec r (hashToKey h) = .ok (sets h, revision) ∧
      saveInternal codec r (hashToKey h) pinners (revision + 1) = (r', .ok ()) ∧
      HoldsPins codec (Function.update sets h pinners) (n + 1) r' := by
  obtain ⟨revision, hrev, hget⟩ := hp h
  obtain ⟨r', hsave, ⟨revision', hle, hself⟩, hother⟩ :=
    saveInternal_spec hcodec hget (by omega) pinners
  refine ⟨revision, r', hget, hsave, fun k => ?_⟩
  by_cases hk : k = h
  · subst hk
    rw [Function.update_self]
    exact ⟨revision', by omega, hself⟩
  · obtain ⟨rev, hle', hgetk⟩ := hp k
    rw [Function.update_of_ne hk, hother k hk]
    exact ⟨rev, by omega, hgetk⟩

omit [ObligingRegistry ρ] in
theorem HoldsPins.mono (hp : HoldsPins codec sets n r) : HoldsPins codec sets (n + 1) r := by
  intro h
  obtain ⟨revision, hle, hget⟩ := hp h
  exact ⟨revision, by omega, hget⟩

/-- **One call** changes the sets as the map does, and answers as it does. -/
theorem holdsPins_run (hcodec : ∀ pinners, codec.decode (codec.encode pinners) = some pinners)
    (hp : HoldsPins codec sets n r) (hn : n + 1 < 2 ^ 64) (call : PinCall) :
    HoldsPins codec (call.apply sets) (n + 1) (call.run codec r).1 ∧
      (call.run codec r).2 = .ok (call.answer sets) := by
  cases call with
  | pin h c =>
    obtain ⟨revision, r', hget, hsave, hp'⟩ := hp.save hcodec hn h (insert c (sets h))
    have hrun : pinHash codec r h c = (r', .ok ()) := by
      unfold pinHash
      rw [hget]
      exact hsave
    simp only [PinCall.run, hrun]
    exact ⟨hp', rfl⟩
  | unpin h c =>
    obtain ⟨revision, r', hget, hsave, hp'⟩ := hp.save hcodec hn h ((sets h).erase c)
    by_cases hc : c ∈ sets h
    · have hrun : unpinHash codec r h c = (r', .ok (decide ((sets h).erase c = ∅))) := by
        unfold unpinHash
        rw [hget]
        dsimp only
        rw [if_neg (not_not.2 hc), hsave]
      simp only [PinCall.run, hrun]
      exact ⟨hp', rfl⟩
    · have hsame : (sets h).erase c = sets h := Finset.erase_eq_of_notMem hc
      have hrun : unpinHash codec r h c = (r, .ok (decide (sets h = ∅))) := by
        unfold unpinHash
        rw [hget]
        dsimp only
        rw [if_pos hc]
      simp only [PinCall.run, hrun, PinCall.apply, PinCall.answer, hsame, Function.update_eq_self]
      exact ⟨hp.mono, rfl⟩
  | unpinAll h =>
    obtain ⟨revision, r', hget, hsave, hp'⟩ := hp.save hcodec hn h ∅
    by_cases he : sets h = ∅
    · have hrun : unpinHashAll codec r h = (r, .ok ()) := by
        unfold unpinHashAll
        rw [hget]
        dsimp only
        rw [if_pos he]
      have hsame : Function.update sets h ∅ = sets := by
        rw [← he, Function.update_eq_self]
      simp only [PinCall.run, hrun, PinCall.apply, hsame]
      exact ⟨hp.mono, rfl⟩
    · have hrun : unpinHashAll codec r h = (r', .ok ()) := by
        unfold unpinHashAll
        rw [hget]
        dsimp only
        rw [if_neg he, hsave]
      simp only [PinCall.run, hrun]
      exact ⟨hp', rfl⟩

/-- **A run of calls** leaves the sets of the map. -/
theorem holdsPins_runs (hcodec : ∀ pinners, codec.decode (codec.encode pinners) = some pinners)
    (hp : HoldsPins codec (fun _ => ∅) 0 r) (calls : List PinCall) (hlen : calls.length < 2 ^ 64) :
    HoldsPins codec (calls.foldl PinCall.apply fun _ => ∅) calls.length
      (calls.foldl (fun r c => (c.run codec r).1) r) := by
  induction calls using List.reverseRecOn with
  | nil => exact hp
  | append_singleton calls c ih =>
    rw [List.length_append, List.length_singleton] at hlen ⊢
    rw [List.foldl_append, List.foldl_append]
    exact (holdsPins_run hcodec (ih (by omega)) (by omega) c).1

end

/-- Along the run over `calls` every read and every answer is that of the map. -/
structure RefinesMap {ρ : Type} [RegistryApi ρ] (codec : PinCodec) (r : ρ) (calls : List PinCall) :
    Prop where
  getPinners : ∀ pre, pre <+: calls → ∀ h,
    getPinners codec (pre.foldl (fun r c => (c.run codec r).1) r) h =
      .ok (pre.foldl PinCall.apply (fun _ => ∅) h)
  isPinned : ∀ pre, pre <+: calls → ∀ h c,
    isPinned codec (pre.foldl (fun r c => (c.run codec r).1) r) h c =
      .ok (c ∈ pre.foldl PinCall.apply (fun _ => ∅) h)
  answer : ∀ pre call, pre ++ [call] <+: calls →
    (call.run codec (pre.foldl (fun r c => (c.run codec r).1) r)).2 =
      .ok (call.answer (pre.foldl PinCall.apply fun _ => ∅))

theorem refinesMap {ρ : Type} [RegistryApi ρ] [ObligingRegistry ρ] {codec : PinCodec} {r : ρ}
    (hcodec : ∀ pinners, codec.decode (codec.encode pinners) = some pinners)
    (hr : ∀ h, get r (hashToKey h) = .ok none) {calls : List PinCall}
    (hlen : calls.length < 2 ^ 64) : RefinesMap codec r calls := by
  have hp : HoldsPins codec (fun _ => ∅) 0 r := by
    intro h
    refine ⟨0, Nat.le_refl _, ?_⟩
    unfold getInternal
    rw [hr]
  have hrun : ∀ pre, pre <+: calls → HoldsPins codec (pre.foldl PinCall.apply fun _ => ∅) pre.length
      (pre.foldl (fun r c => (c.run codec r).1) r) :=
    fun pre hpre => holdsPins_runs hcodec hp pre (hpre.length_le.trans_lt hlen)
  refine ⟨fun pre hpre h => ?_, fun pre hpre h c => ?_, fun pre call hpre => ?_⟩
  · obtain ⟨revision, -, hget⟩ := hrun pre hpre h
    unfold getPinners
    rw [hget]
    rfl
  · obtain ⟨revision, -, hget⟩ := hrun pre hpre h
    unfold isPinned
    rw [hget]
    rfl
  · have hlt := hpre.length_le.trans_lt hlen
    rw [List.length_append, List.length_singleton] at hlt
    exact (holdsPins_run hcodec (hrun pre ((List.prefix_append _ _).trans hpre)) hlt call).2

/-- **The pinner refines a map of pin sets**, over either registry, along every run of fewer calls
than there are revisions. -/
theorem pinner_refines (codec : PinCodec)
    (hcodec : ∀ pinners, codec.decode (codec.encode pinners) = some pinners) (memory : MemoryRegistry)
    (redb : RedbRegistry) (hmemory : ∀ h, get memory (hashToKey h) = .ok none)
    (hredb : ∀ h, get redb (hashToKey h) = .ok none) (calls : List PinCall)
    (hlen : calls.length < 2 ^ 64) : RefinesMap codec memory calls ∧ RefinesMap codec redb calls :=
  ⟨refinesMap hcodec hmemory hlen, refinesMap hcodec hredb hlen⟩

def pinNumber : PinContext → Nat
  | .nodeId id => 3 * id.toNat
  | .localFsHead => 1
  | .localFsSnapshot rootHash => 3 * rootHash.toNat + 2

def pinOfNumber (n : Nat) : Option PinContext :=
  match n % 3 with
  | 0 => some (.nodeId (BitVec.ofNat 256 (n / 3)))
  | 1 => some .localFsHead
  | _ => some (.localFsSnapshot (BitVec.ofNat 256 (n / 3)))

theorem pinOfNumber_pinNumber (c : PinContext) : pinOfNumber (pinNumber c) = some c := by
  cases c with
  | nodeId id => simp [pinOfNumber, pinNumber]
  | localFsHead => rfl
  | localFsSnapshot rootHash =>
    have hmod : (3 * rootHash.toNat + 2) % 3 = 2 := by omega
    have hdiv : (3 * rootHash.toNat + 2) / 3 = rootHash.toNat := by omega
    simp [pinOfNumber, pinNumber, hmod, hdiv]

instance : Encodable PinContext :=
  Encodable.ofLeftInjection pinNumber pinOfNumber pinOfNumber_pinNumber

/-- The set of a local head as CBOR writes it, and other sets by their numbers. -/
def numberCodec : PinCodec where
  encode pinners :=
    if pinners = {.localFsHead} then [0x81, 0x82, 0x01, 0x80]
    else List.replicate (Encodable.encode pinners + 1) 0xff
  decode bytes :=
    if bytes = [0x81, 0x82, 0x01, 0x80] then some {.localFsHead}
    else Encodable.decode (bytes.length - 1)
  blake3 _ := 0
  encode_ne_nil pinners := by split <;> simp

theorem numberCodec_roundtrip (pinners : Finset PinContext) :
    numberCodec.decode (numberCodec.encode pinners) = some pinners := by
  by_cases hp : pinners = {.localFsHead}
  · simp [numberCodec, hp]
  · have hne : List.replicate (Encodable.encode pinners + 1) (0xff : UInt8) ≠
        [0x81, 0x82, 0x01, 0x80] := by
      rw [List.replicate_succ]
      intro h
      exact absurd (List.cons.inj h).1 (by decide)
    simp only [numberCodec, if_neg hp, if_neg hne, List.length_replicate, Nat.add_sub_cancel]
    exact Encodable.encodek pinners

/-- A pin that is removed and set again. -/
theorem pinner_refines_repinned :
    RefinesMap numberCodec MemoryRegistry.new
      [.pin 5 .localFsHead, .unpin 5 .localFsHead, .pin 5 .localFsHead] :=
  (pinner_refines numberCodec numberCodec_roundtrip .new ⟨⟨fun _ => none⟩⟩ (fun _ => rfl)
    (fun _ => rfl) _ (by decide)).1

end Registry
