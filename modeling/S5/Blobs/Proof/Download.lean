import S5.Blobs.Download
import S5.Blobs.Proof.Fetch

/-!
# A download sends the slice that is asked for

The loop of `handle_download` goes on by what each read has given. What it has sent, what it still has
to send and where it reads next fit together at every turn (`sendLoop_spec`), so that no sum or
difference leaves the 64-bit numbers and the chunks make up the slice, however short the reads are.

* `download_exact`: the slice of the first readable blob for a peer that may have it, nothing else
  for others.
* `download_full`: over stores that give whole ranges it is `handleDownload`.
-/

open Std

namespace Blobs

/-! ## The loop -/

section
variable {s : BlobStore} (reads : ShortReads s) {h : Hash} {b : Bytes} {offset toSend : UInt64}

/-- What is left to send. -/
def unsent (b : Bytes) (offset toSend sent : UInt64) : Bytes :=
  (b.drop (offset.toNat + sent.toNat)).take (toSend.toNat - sent.toNat)

theorem length_unsent (hfit : offset.toNat + toSend.toNat ≤ b.length) {sent : UInt64}
    (hsent : sent.toNat ≤ toSend.toNat) :
    (unsent b offset toSend sent).length = toSend.toNat - sent.toNat := by
  rw [unsent, List.length_take, List.length_drop]
  omega

/-- A read of a part of the rest. -/
theorem slice_prefix_unsent {sent position len : UInt64}
    (hpos : position.toNat = offset.toNat + sent.toNat)
    (hlen : len.toNat ≤ toSend.toNat - sent.toNat) :
    Store.slice b position (some len) <+: unsent b offset toSend sent := by
  show (b.drop position.toNat).take len.toNat <+: _
  rw [hpos, unsent]
  exact List.take_prefix_take_left hlen

/-- What a prefix leaves of the rest. -/
theorem append_unsent {sent sent' : UInt64} {bytes : Bytes}
    (hp : bytes <+: unsent b offset toSend sent) (hs : sent'.toNat = sent.toNat + bytes.length) :
    bytes ++ unsent b offset toSend sent' = unsent b offset toSend sent := by
  obtain ⟨tail, ht⟩ := hp
  have htail : tail = (unsent b offset toSend sent).drop bytes.length := by
    rw [← ht, List.drop_left]
  rw [← ht, htail, unsent, unsent, List.drop_take, List.drop_drop, hs]
  rw [Nat.add_assoc, Nat.sub_sub]

theorem toNat_min (x y : UInt64) : (min x y).toNat = min x.toNat y.toNat := by
  show (if x ≤ y then x else y).toNat = _
  split
  · rename_i h
    rw [Nat.min_eq_left (UInt64.le_iff_toNat_le.1 h)]
  · rename_i h
    rw [UInt64.le_iff_toNat_le] at h
    rw [Nat.min_eq_right (by omega)]

/-- **The loop** sends the rest, one byte a turn at least. -/
theorem sendLoop_spec (hb : s[h]? = some b) (hsize : b.length < 2 ^ 64)
    (hfit : offset.toNat + toSend.toNat ≤ b.length) :
    ∀ (fuel n : Nat) (sent : UInt64), sent.toNat ≤ toSend.toNat →
      toSend.toNat - sent.toNat < fuel →
      ∃ chunks, sendLoop reads h offset toSend fuel n sent = .ok chunks ∧
        chunks.flatten = unsent b offset toSend sent
  | 0, _, _, _, hfuel => absurd hfuel (Nat.not_lt_zero _)
  | fuel + 1, n, sent, hsent, hfuel => by
    unfold sendLoop
    by_cases hlt : sent < toSend
    · have hlt' : sent.toNat < toSend.toNat := UInt64.lt_iff_toNat_lt.1 hlt
      obtain ⟨left, hleft, hleftn⟩ := Checked.exists_sub (a := toSend) (b := sent) (by omega)
      obtain ⟨pos, hpos, hposn⟩ := Checked.exists_add (a := offset) (b := sent) (by omega)
      have hlen : (min chunkSize64 left).toNat = min (64 * 1024) (toSend.toNat - sent.toNat) := by
        rw [toNat_min, hleftn]
        rfl
      have hslice : Store.slice b pos (some (min chunkSize64 left)) <+: unsent b offset toSend sent :=
        slice_prefix_unsent hposn (hlen ▸ Nat.min_le_right _ _)
      have hne : Store.slice b pos (some (min chunkSize64 left)) ≠ [] := by
        show (b.drop pos.toNat).take (min chunkSize64 left).toNat ≠ []
        rw [hposn, hlen, ← List.length_pos_iff, List.length_take, List.length_drop]
        omega
      obtain ⟨bytes, hread, hbytes, hp⟩ := reads.read_spec n h b pos _ hb hne
      have hrest := hp.trans hslice
      have hle := hrest.length_le
      rw [length_unsent hfit hsent] at hle
      have hpos' : 0 < bytes.length := List.length_pos_iff.2 hbytes
      have hlen64 : (UInt64.ofNat bytes.length).toNat = bytes.length :=
        UInt64.toNat_ofNat_of_lt' (show _ < 2 ^ 64 by omega)
      obtain ⟨sent', hsent', hsentn⟩ :=
        Checked.exists_add (a := sent) (b := .ofNat bytes.length) (by omega)
      rw [hlen64] at hsentn
      obtain ⟨chunks, hchunks, hflat⟩ := sendLoop_spec hb hsize hfit fuel (n + 1) sent'
        (by omega) (by omega)
      refine ⟨bytes :: chunks, ?_, ?_⟩
      · rw [if_pos hlt, hleft, hpos]
        simp only [checked, bind, Except.bind, hread]
        cases bytes with
        | nil => exact absurd rfl hbytes
        | cons x bytes => simp only [hsent', hchunks]
      · rw [List.flatten_cons, hflat, append_unsent hrest hsentn]
    · have hge : toSend.toNat ≤ sent.toNat := by
        have := UInt64.lt_iff_toNat_lt.not.1 hlt
        omega
      refine ⟨[], by rw [if_neg hlt], ?_⟩
      rw [unsent, show toSend.toNat - sent.toNat = 0 by omega]
      simp

end

/-! ## The request -/

/-- How many bytes of a blob of `size` a request asks for. -/
def requested (req : DownloadBlob) (size : Nat) : Nat :=
  req.maxLen.elim (size - req.offset.toNat) fun m => min m.toNat (size - req.offset.toNat)

theorem requested_fits (req : DownloadBlob) {size : Nat} (h : req.offset.toNat ≤ size) :
    req.offset.toNat + requested req size ≤ size := by
  unfold requested
  cases req.maxLen with
  | none => simp only [Option.elim_none]; omega
  | some m => simp only [Option.elim_some]; omega

/-- What a peer is to get: the range it asks for of the first blob that it may read. -/
def permittedSlice (srv : BlobsServer) (node : NodeId) (cfg : Option PeerConfigBlobs)
    (req : DownloadBlob) : Bytes :=
  if srv.pinner.all (·.isPinned req.hash (.nodeId node)) then
    match (srv.readable cfg).findSome? (·[req.hash]?) with
    | none => []
    | some b => (b.drop req.offset.toNat).take (requested req b.length)
  else []

variable {srv : BlobsServer} {node : NodeId} {req : DownloadBlob}

theorem any_not_isPinned (srv : BlobsServer) (node : NodeId) (h : Hash) :
    srv.pinner.any (!·.isPinned h (.nodeId node)) = !srv.pinner.all (·.isPinned h (.nodeId node)) := by
  cases srv.pinner <;> simp

theorem getElem?_of_find? {stores : List BlobStore} {store : BlobStore} {h : Hash}
    (hfind : stores.find? (·.contains h) = some store) : ∃ b, store[h]? = some b := by
  have hc : store.contains h = true := (List.find?_eq_some_iff_append.1 hfind).1
  rw [contains_eq_isSome] at hc
  exact Option.isSome_iff_exists.1 hc

theorem sized_of_find? {store : BlobStore} {b : Bytes} {cfg : PeerConfigBlobs}
    (hsized : srv.Sized)
    (hfind : (srv.readable (some cfg)).find? (·.contains req.hash) = some store)
    (hb : store[req.hash]? = some b) : b.length < 2 ^ 64 := by
  obtain ⟨name, -, hname⟩ := List.mem_filterMap.1 (List.mem_of_find?_eq_some hfind)
  exact hsized name store hname req.hash b hb

/-- A request for a range that begins in the blob runs the loop on what is asked for. -/
theorem download_of_blob (reads : ∀ s : BlobStore, ShortReads s) {store : BlobStore} {b : Bytes}
    {cfg : PeerConfigBlobs} (hpin : srv.pinner.all (·.isPinned req.hash (.nodeId node)) = true)
    (hfind : (srv.readable (some cfg)).find? (·.contains req.hash) = some store)
    (hb : store[req.hash]? = some b) (hlt : b.length < 2 ^ 64) :
    ∃ size : UInt64, size.toNat = b.length ∧
      (size < req.offset → ∀ fuel, download reads srv node (some cfg) req fuel = .ok []) ∧
      (¬ size < req.offset → ∃ toSend : UInt64, toSend.toNat = requested req b.length ∧
        ∀ fuel, download reads srv node (some cfg) req fuel =
          sendLoop (reads store) req.hash req.offset toSend fuel 0 0) := by
  have hsize : store.size req.hash = some b.length := by simp [BlobStore.size, hb]
  have hlen : (UInt64.ofNat b.length).toNat = b.length :=
    UInt64.toNat_ofNat_of_lt' hlt
  have hstart : ∀ fuel, download reads srv node (some cfg) req fuel =
      if UInt64.ofNat b.length < req.offset then .ok []
      else (checked (Checked.sub (.ofNat b.length) req.offset)).bind fun rest =>
        sendLoop (reads store) req.hash req.offset (req.maxLen.elim rest (min · rest)) fuel 0 0 := by
    intro fuel
    unfold download
    dsimp only
    rw [any_not_isPinned, hpin, if_neg (by simp),
      show (cfg.readableStores.filterMap (srv.stores[·]?)).find? _ = _ from hfind]
    simp only [hsize]
    rfl
  refine ⟨.ofNat b.length, hlen, fun hlt fuel => ?_, fun hlt => ?_⟩
  · rw [hstart, if_pos hlt]
  · obtain ⟨rest, hrest, hrestn⟩ := Checked.exists_sub (a := .ofNat b.length) (b := req.offset)
      (by rw [UInt64.lt_iff_toNat_lt] at hlt; omega)
    rw [hlen] at hrestn
    refine ⟨req.maxLen.elim rest (min · rest), ?_, fun fuel => ?_⟩
    · unfold requested
      cases req.maxLen with
      | none => exact hrestn
      | some m =>
        rw [← hrestn]
        exact toNat_min m rest
    · rw [hstart, if_neg hlt, hrest]
      rfl

/-- **A download** comes to its end and sends what the peer is to get. -/
theorem download_exact (reads : ∀ s : BlobStore, ShortReads s) (srv : BlobsServer)
    (hsized : srv.Sized) (node : NodeId) (cfg : Option PeerConfigBlobs) (req : DownloadBlob) :
    ∃ turns, ∀ fuel, turns ≤ fuel → ∃ chunks,
      download reads srv node cfg req fuel = .ok chunks ∧
        chunks.flatten = permittedSlice srv node cfg req := by
  unfold permittedSlice
  cases cfg with
  | none =>
    refine ⟨0, fun fuel _ => ⟨[], rfl, ?_⟩⟩
    simp [BlobsServer.readable]
  | some cfg =>
    cases hpin : srv.pinner.all (·.isPinned req.hash (.nodeId node)) with
    | false =>
      refine ⟨0, fun fuel _ => ⟨[], ?_, by simp⟩⟩
      unfold download
      dsimp only
      rw [any_not_isPinned, hpin, if_pos (by simp)]
    | true =>
      rw [findSome?_getElem?_eq, if_pos rfl]
      cases hfind : (srv.readable (some cfg)).find? (·.contains req.hash) with
      | none =>
        refine ⟨0, fun fuel _ => ⟨[], ?_, by simp⟩⟩
        unfold download
        dsimp only
        rw [any_not_isPinned, hpin, if_neg (by simp),
          show (cfg.readableStores.filterMap (srv.stores[·]?)).find? _ = _ from hfind]
      | some store =>
        obtain ⟨b, hb⟩ := getElem?_of_find? hfind
        have hlt := sized_of_find? hsized hfind hb
        obtain ⟨size, hsize, hpast, hin⟩ := download_of_blob reads hpin hfind hb hlt
        simp only [Option.bind_some, hb]
        by_cases hpos : size < req.offset
        · refine ⟨0, fun fuel _ => ⟨[], hpast hpos fuel, ?_⟩⟩
          rw [UInt64.lt_iff_toNat_lt] at hpos
          rw [List.drop_eq_nil_of_le (by omega)]
          simp
        · obtain ⟨toSend, htoSend, hloop⟩ := hin hpos
          rw [UInt64.lt_iff_toNat_lt] at hpos
          have hfit := requested_fits req (show _ ≤ b.length by omega)
          rw [← htoSend] at hfit
          refine ⟨toSend.toNat + 1, fun fuel hfuel => ?_⟩
          obtain ⟨chunks, hok, hflat⟩ := sendLoop_spec (reads store) hb hlt hfit fuel 0 0
            (Nat.zero_le _) (by rw [UInt64.toNat_zero]; omega)
          refine ⟨chunks, (hloop fuel).trans hok, hflat.trans ?_⟩
          rw [unsent, htoSend]
          simp

/-! ## Whole reads -/

/-- Over whole reads the loop sends the chunks of `sendChunks`. -/
theorem sendLoop_full {s : BlobStore} {h : Hash} {b : Bytes} {offset toSend : UInt64}
    (hb : s[h]? = some b) (hsize : b.length < 2 ^ 64)
    (hfit : offset.toNat + toSend.toNat ≤ b.length) :
    ∀ (fuel n : Nat) (sent : UInt64), sent.toNat ≤ toSend.toNat →
      toSend.toNat - sent.toNat < fuel →
      sendLoop (.full s) h offset toSend fuel n sent =
        .ok (sendChunks s h offset.toNat toSend.toNat fuel sent.toNat)
  | 0, _, _, _, hfuel => absurd hfuel (Nat.not_lt_zero _)
  | fuel + 1, n, sent, hsent, hfuel => by
    unfold sendLoop sendChunks
    by_cases hlt : sent < toSend
    · have hlt' : sent.toNat < toSend.toNat := UInt64.lt_iff_toNat_lt.1 hlt
      obtain ⟨left, hleft, hleftn⟩ := Checked.exists_sub (a := toSend) (b := sent) (by omega)
      obtain ⟨pos, hpos, hposn⟩ := Checked.exists_add (a := offset) (b := sent) (by omega)
      have hlen : (min chunkSize64 left).toNat = min chunkSize (toSend.toNat - sent.toNat) := by
        rw [toNat_min, hleftn]
        rfl
      have hread : (ShortReads.full s).read n h pos (min chunkSize64 left) =
          s.readAsBytes h (offset.toNat + sent.toNat) (min chunkSize (toSend.toNat - sent.toNat)) := by
        rw [← hposn, ← hlen]
        rfl
      have hbytes : s.readAsBytes h (offset.toNat + sent.toNat)
          (min chunkSize (toSend.toNat - sent.toNat)) =
            some ((b.drop (offset.toNat + sent.toNat)).take
              (min chunkSize (toSend.toNat - sent.toNat))) := by
        simp [BlobStore.readAsBytes, hb]
      have hlength : ((b.drop (offset.toNat + sent.toNat)).take
          (min chunkSize (toSend.toNat - sent.toNat))).length =
            min chunkSize (toSend.toNat - sent.toNat) := by
        rw [List.length_take, List.length_drop]
        omega
      rw [if_pos hlt, if_pos hlt', hleft, hpos]
      simp only [checked, bind, Except.bind, hread, hbytes]
      generalize (b.drop (offset.toNat + sent.toNat)).take
        (min chunkSize (toSend.toNat - sent.toNat)) = bytes at hlength
      have hpos' : 0 < bytes.length := by
        rw [hlength, chunkSize]
        omega
      have hlen64 : (UInt64.ofNat bytes.length).toNat = bytes.length :=
        UInt64.toNat_ofNat_of_lt' (show _ < 2 ^ 64 by omega)
      obtain ⟨sent', hsent', hsentn⟩ :=
        Checked.exists_add (a := sent) (b := .ofNat bytes.length) (by omega)
      rw [hlen64] at hsentn
      have hrec := sendLoop_full hb hsize hfit fuel (n + 1) sent' (by omega) (by omega)
      cases bytes with
      | nil => exact absurd hpos' (Nat.lt_irrefl 0)
      | cons x bytes =>
        simp only [hsent', hrec, hsentn, List.isEmpty_cons, Bool.false_eq_true, if_false]
    · have hge : ¬ sent.toNat < toSend.toNat := UInt64.lt_iff_toNat_lt.not.1 hlt
      rw [if_neg hlt, if_neg hge]

/-- `handleDownload` of a blob that is found. -/
theorem handleDownload_of_blob {store : BlobStore} {b : Bytes} {cfg : PeerConfigBlobs}
    (hpin : srv.pinner.all (·.isPinned req.hash (.nodeId node)) = true)
    (hfind : (srv.readable (some cfg)).find? (·.contains req.hash) = some store)
    (hb : store[req.hash]? = some b) :
    handleDownload srv node (some cfg) req =
      if b.length < req.offset.toNat then []
      else sendChunks store req.hash req.offset.toNat (requested req b.length)
        (requested req b.length + 1) 0 := by
  have hsize : store.size req.hash = some b.length := by simp [BlobStore.size, hb]
  unfold handleDownload requested
  dsimp only
  rw [any_not_isPinned, hpin, if_neg (by simp),
    show (cfg.readableStores.filterMap (srv.stores[·]?)).find? _ = _ from hfind]
  simp only [hsize]
  cases req.maxLen <;> rfl

/-- **Over whole reads** a download is `handleDownload`. -/
theorem download_full (srv : BlobsServer) (hsized : srv.Sized) (node : NodeId)
    (cfg : Option PeerConfigBlobs) (req : DownloadBlob) :
    ∃ fuel, download .full srv node cfg req fuel = .ok (handleDownload srv node cfg req) := by
  cases cfg with
  | none => exact ⟨0, rfl⟩
  | some cfg =>
    cases hpin : srv.pinner.all (·.isPinned req.hash (.nodeId node)) with
    | false =>
      refine ⟨0, ?_⟩
      unfold download handleDownload
      dsimp only
      rw [any_not_isPinned, hpin]
      rfl
    | true =>
      cases hfind : (srv.readable (some cfg)).find? (·.contains req.hash) with
      | none =>
        refine ⟨0, ?_⟩
        unfold BlobsServer.readable at hfind
        unfold download handleDownload
        dsimp only at hfind ⊢
        rw [any_not_isPinned, hpin, if_neg (by simp), if_neg (by simp), hfind]
      | some store =>
        obtain ⟨b, hb⟩ := getElem?_of_find? hfind
        have hlt := sized_of_find? hsized hfind hb
        obtain ⟨size, hsize, hpast, hin⟩ := download_of_blob .full hpin hfind hb hlt
        rw [handleDownload_of_blob hpin hfind hb]
        by_cases hpos : size < req.offset
        · rw [if_pos (by rw [UInt64.lt_iff_toNat_lt] at hpos; omega)]
          exact ⟨0, hpast hpos 0⟩
        · obtain ⟨toSend, htoSend, hloop⟩ := hin hpos
          rw [UInt64.lt_iff_toNat_lt] at hpos
          have hfit := requested_fits req (show _ ≤ b.length by omega)
          rw [if_neg (by omega), ← htoSend]
          refine ⟨toSend.toNat + 1, (hloop _).trans ?_⟩
          exact sendLoop_full hb hlt (htoSend ▸ hfit) _ 0 0 (Nat.zero_le _)
            (by rw [UInt64.toNat_zero]; omega)

/-! A peer reads the second of three bytes. -/

def threeBytes : BlobsServer :=
  { oneStore with
    stores := (∅ : ExtTreeMap String BlobStore).insert "default"
      ((∅ : BlobStore).insert (shortBlake3 [1, 2, 3]) [1, 2, 3])
    pinner := some (Pins.empty.pinHash (shortBlake3 [1, 2, 3]) (.nodeId 7)) }

theorem threeBytes_sized : threeBytes.Sized := by
  intro name s hs h b hb
  simp only [threeBytes, ExtTreeMap.getElem?_insert] at hs
  split at hs
  · obtain rfl := Option.some.inj hs
    rw [ExtTreeMap.getElem?_insert] at hb
    split at hb
    · obtain rfl := Option.some.inj hb
      decide
    · simp at hb
  · simp at hs

theorem download_exact_threeBytes :
    ∃ turns, ∀ fuel, turns ≤ fuel → ∃ chunks,
      download .full threeBytes 7 (threeBytes.cfgFor "node") ⟨shortBlake3 [1, 2, 3], 1, some 1⟩
        fuel = .ok chunks ∧ chunks.flatten = [2] := by
  have hslice : permittedSlice threeBytes 7 (threeBytes.cfgFor "node")
      ⟨shortBlake3 [1, 2, 3], 1, some 1⟩ = [2] := by decide +kernel
  rw [← hslice]
  exact download_exact .full threeBytes threeBytes_sized 7 _ _

end Blobs
