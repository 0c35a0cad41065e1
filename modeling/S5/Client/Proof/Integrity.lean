import S5.Client.Proof.Encrypted
import Mathlib.Data.List.Flatten

/-!
# What a server can make of an encrypted file

A server can answer a download with any bytes. The cipher rejects what was not produced under the same
key and nonce (`OnlyProduced`), so that what decrypts is a run of the file's own chunks from the first
on (`decryptChunks_eq_ok_iff`). That it is all of them is not checked: neither the hash nor the size
of the `FileRef` is looked at.

* `encrypted_integrity_iff`: a download gives the content or fails, unless the server sends some first
  chunks of the file and no more.
-/

open Fs

namespace Client

variable {aead : Aead} {key : Bytes32} {chunks : List Bytes}

/-- The cipher decrypts the chunks of a file under its key and nothing else. -/
def Aead.OnlyProduced (aead : Aead) (key : Bytes32) (chunks : List Bytes) : Prop :=
  ∀ nonce cipher plain, aead.decrypt key nonce cipher = some plain ↔
    ∃ i : Nat, chunks[i]? = some plain ∧ nonce = nonceOf (.ofNat i) ∧
      cipher = aead.encrypt key nonce plain

/-- Indices of 64 bits have nonces of their own. -/
theorem nonceOf_injective : Function.Injective nonceOf := by
  intro i j h
  have hbytes := (List.append_left_inj _).1 h
  have hvalue := congrArg BigEndian.value (List.reverse_injective hbytes)
  rw [BigEndian.value_bytes, BigEndian.value_bytes] at hvalue
  have hi := i.toNat_lt
  have hj := j.toNat_lt
  rw [Nat.mod_eq_of_lt (by omega), Nat.mod_eq_of_lt (by omega)] at hvalue
  exact UInt64.toNat_inj.1 hvalue

theorem ofNat_inj {i j : Nat} (hi : i < 2 ^ 64) (hj : j < 2 ^ 64)
    (h : UInt64.ofNat i = UInt64.ofNat j) : i = j := by
  have hn := congrArg UInt64.toNat h
  rwa [UInt64.toNat_ofNat_of_lt' hi, UInt64.toNat_ofNat_of_lt' hj] at hn

/-- What decrypts at an index is the chunk of that index. -/
theorem decryptChunk_eq_ok_iff (ideal : aead.OnlyProduced key chunks)
    (hchunks : chunks.length ≤ 2 ^ 64) {i : Nat} (hi : i < 2 ^ 64) {cipher plain : Bytes} :
    decryptChunk aead key (.ofNat i) cipher = .ok plain ↔
      chunks[i]? = some plain ∧ cipher = encryptChunk aead key (.ofNat i) plain := by
  have hok : decryptChunk aead key (.ofNat i) cipher = .ok plain ↔
      aead.decrypt key (nonceOf (.ofNat i)) cipher = some plain := by
    unfold decryptChunk
    cases aead.decrypt key (nonceOf (.ofNat i)) cipher <;> simp
  rw [hok, ideal]
  constructor
  · rintro ⟨j, hj, hnonce, hcipher⟩
    have hjlt : j < chunks.length := (List.getElem?_eq_some_iff.1 hj).1
    obtain rfl := ofNat_inj hi (by omega) (nonceOf_injective hnonce)
    exact ⟨hj, hcipher⟩
  · rintro ⟨hget, hcipher⟩
    exact ⟨i, hget, rfl, hcipher⟩

theorem drop_eq_cons_of_getElem? {α : Type} {l : List α} {i : Nat} {x : α} (h : l[i]? = some x) :
    l.drop i = x :: l.drop (i + 1) := by
  obtain ⟨hi, rfl⟩ := List.getElem?_eq_some_iff.1 h
  exact List.drop_eq_getElem_cons hi

theorem drop_encryptChunks {i : Nat} {plain : Bytes} (h : chunks[i]? = some plain) :
    (encryptChunks aead key 0 chunks).drop i =
      encryptChunk aead key (.ofNat i) plain :: (encryptChunks aead key 0 chunks).drop (i + 1) := by
  apply drop_eq_cons_of_getElem?
  rw [getElem?_encryptChunks, h, Nat.zero_add]
  rfl

theorem map_append_eq_ok_iff {x : Except String Bytes} {first bytes : Bytes} :
    x.map (first ++ ·) = .ok bytes ↔ ∃ rest, x = .ok rest ∧ bytes = first ++ rest := by
  cases x with
  | error e => simp [Except.map]
  | ok rest => simp [Except.map, eq_comm]

/-- **What decrypts** is a run of the chunks of the file. -/
theorem decryptChunks_eq_ok_iff (ideal : aead.OnlyProduced key chunks)
    (hchunks : chunks.length ≤ 2 ^ 64) (ps : List Bytes) :
    ∀ {i : Nat} {bytes : Bytes}, i + ps.length ≤ 2 ^ 64 →
      (decryptChunks aead key i ps = .ok bytes ↔
        ps <+: (encryptChunks aead key 0 chunks).drop i ∧
          bytes = ((chunks.drop i).take ps.length).flatten) := by
  induction ps with
  | nil =>
    intro i bytes _
    simp [decryptChunks, eq_comm]
  | cons c ps ih =>
    intro i bytes hlen
    rw [List.length_cons] at hlen
    have hchunk : ∀ plain : Bytes, decryptChunk aead key (.ofNat i) c = .ok plain ↔
        chunks[i]? = some plain ∧ c = encryptChunk aead key (.ofNat i) plain := fun _ =>
      decryptChunk_eq_ok_iff ideal hchunks (by omega)
    rw [decryptChunks]
    cases hget : chunks[i]? with
    | none =>
      -- there is no chunk of this index
      have hend : (encryptChunks aead key 0 chunks).drop i = [] := by
        rw [List.drop_eq_nil_iff, length_encryptChunks]
        exact List.getElem?_eq_none_iff.1 hget
      rw [hend]
      cases hd : decryptChunk aead key (.ofNat i) c with
      | error e => simp
      | ok plain =>
        have hnone := ((hchunk plain).1 hd).1
        rw [hget] at hnone
        cases hnone
    | some plain =>
      have hfirst : (encryptChunks aead key 0 chunks).drop i =
          encryptChunk aead key (.ofNat i) plain :: (encryptChunks aead key 0 chunks).drop (i + 1) :=
        drop_encryptChunks hget
      rw [hfirst, drop_eq_cons_of_getElem? hget, List.length_cons, List.take_succ_cons,
        List.flatten_cons, List.cons_prefix_cons]
      by_cases hc : c = encryptChunk aead key (.ofNat i) plain
      · rw [(hchunk plain).2 ⟨hget, hc⟩]
        dsimp only
        rw [map_append_eq_ok_iff]
        simp only [ih (show i + 1 + ps.length ≤ 2 ^ 64 by omega)]
        constructor
        · rintro ⟨rest, ⟨hp, hrest⟩, hbytes⟩
          exact ⟨⟨hc, hp⟩, hrest ▸ hbytes⟩
        · rintro ⟨⟨-, hp⟩, hbytes⟩
          exact ⟨_, ⟨hp, rfl⟩, hbytes⟩
      · cases hd : decryptChunk aead key (.ofNat i) c with
        | error e => simp [hc]
        | ok plain' =>
          obtain ⟨hget', hc'⟩ := (hchunk plain').1 hd
          obtain rfl := Option.some.inj (hget.symm.trans hget')
          exact absurd hc' hc

/-! ## Truncation -/

/-- Some first chunks of a file, but not all, are less than its content. -/
theorem flatten_take_ne {b : Nat} (hb : 0 < b) (content : Bytes) {k : Nat}
    (hk : k < (Chunked.chunks b content).length) :
    ((Chunked.chunks b content).take k).flatten ≠ content := by
  intro he
  have hcut := Chunked.isCut_chunks hb content
  have htake : Chunked.chunks b content = (Chunked.chunks b content).take k := by
    rw [← Chunked.chunks_flatten hb (hcut.take hb k), he]
  have hlen := congrArg List.length htake
  rw [List.length_take] at hlen
  omega

/-- The server sends some first chunks of the file, but not all. -/
def Truncated (chunks : List Bytes) (answer : Bytes) : Prop :=
  ∃ k, k < chunks.length ∧ answer = (chunks.take k).flatten

theorem downloadFile_eq_ok_iff {b : BlockSize} {blake3 : Bytes → Hash} {content : Bytes}
    {mediaType path : String} {serve : Hash → Except String Bytes} {bytes : Bytes} :
    let up := uploadWith aead blake3 b key content mediaType
    downloadFile aead serve path (some up.fileRef) = .ok bytes ↔
      ∃ answer, serve up.encryptedHash = .ok answer ∧
        decryptChunks aead key 0 (Chunked.chunks (b.value.toNat + overhead) answer) = .ok bytes := by
  intro up
  rw [downloadFile_upload, downloadBytes]
  cases hs : serve up.encryptedHash with
  | error e => simp [Except.mapError, Except.bind]
  | ok answer => simp [Except.mapError, Except.bind]

/-- **The content or nothing**, unless chunks are missing at the end. -/
theorem encrypted_integrity_iff (aead : Aead) (blake3 : Bytes → Hash) (key : Bytes32)
    (content : Bytes) (mediaType path : String) (serve : Hash → Except String Bytes)
    (ideal : aead.OnlyProduced key (Chunked.chunks encryptionBlockSize.value.toNat content))
    (hcontent : content.length ≤ 2 ^ 64)
    (hserve : ∀ hash answer, serve hash = .ok answer → answer.length ≤ 2 ^ 64) :
    let up := uploadEncryptedBlob aead blake3 key content mediaType
    (∀ bytes, downloadFile aead serve path (some up.fileRef) = .ok bytes → bytes = content) ↔
      ∀ answer, serve up.encryptedHash = .ok answer → ¬ Truncated up.chunks answer := by
  intro up
  have hb := encryptionBlockSize.pos
  have hc : 0 < encryptionBlockSize.value.toNat + overhead := Nat.add_pos_left hb _
  have hcount := (Chunked.length_chunks_le hb content).trans hcontent
  have hlen : up.chunks.length =
      (Chunked.chunks encryptionBlockSize.value.toNat content).length := length_encryptChunks 0 _
  constructor
  · rintro hall answer hs ⟨k, hk, rfl⟩
    have hcut : Chunked.IsCut (encryptionBlockSize.value.toNat + overhead) (up.chunks.take k) :=
      ((Chunked.isCut_chunks hb content).grow (forall₂_encryptChunks 0 _)).take hc k
    have hpieces := Chunked.chunks_flatten hc hcut
    have hklen : (up.chunks.take k).length = k := by
      rw [List.length_take]
      omega
    have hdown : downloadFile aead serve path (some up.fileRef) =
        .ok ((Chunked.chunks encryptionBlockSize.value.toNat content).take k).flatten := by
      refine downloadFile_eq_ok_iff.2 ⟨_, hs, ?_⟩
      rw [hpieces, decryptChunks_eq_ok_iff ideal hcount _ (by omega), hklen]
      exact ⟨List.take_prefix k _, rfl⟩
    exact flatten_take_ne hb content (by omega) (hall _ hdown)
  · intro hnot bytes hok
    obtain ⟨answer, hs, hdec⟩ := downloadFile_eq_ok_iff.1 hok
    have hpieces := (Chunked.length_chunks_le hc answer).trans (hserve _ _ hs)
    rw [decryptChunks_eq_ok_iff ideal hcount _ (by omega), List.drop_zero, List.drop_zero] at hdec
    obtain ⟨hp, hbytes⟩ := hdec
    have hle := hp.length_le
    by_cases hall : (Chunked.chunks (encryptionBlockSize.value.toNat + overhead) answer).length <
        up.chunks.length
    · -- less than all of the chunks
      refine absurd ⟨_, hall, ?_⟩ (hnot answer hs)
      rw [show up.chunks.take _ = _ from (List.prefix_iff_eq_take.1 hp).symm,
        Chunked.flatten_chunks hc]
    · rw [hbytes, List.take_of_length_le (by omega), Chunked.flatten_chunks hb]

/-! A file of two chunks, all of it and the first one. -/

/-- A cipher that decrypts the chunks of a file only. -/
def Aead.only (aead : Aead) (chunks : List Bytes) : Aead where
  encrypt := aead.encrypt
  decrypt key nonce cipher := (aead.decrypt key nonce cipher).filter fun plain =>
    (List.range chunks.length).any fun i =>
      chunks[i]? = some plain && nonce = nonceOf (.ofNat i) && cipher = aead.encrypt key nonce plain
  length_encrypt := aead.length_encrypt

theorem onlyProduced_only (law : aead.RoundTrips) (key : Bytes32) (chunks : List Bytes) :
    (aead.only chunks).OnlyProduced key chunks := by
  intro nonce cipher plain
  show (aead.decrypt key nonce cipher).filter _ = some plain ↔ _
  rw [Option.filter_eq_some_iff, List.any_eq_true]
  simp only [List.mem_range, Bool.and_eq_true, decide_eq_true_eq]
  constructor
  · rintro ⟨-, i, -, ⟨hi, hnonce⟩, hcipher⟩
    exact ⟨i, hi, hnonce, hcipher⟩
  · rintro ⟨i, hi, hnonce, hcipher⟩
    refine ⟨?_, i, (List.getElem?_eq_some_iff.1 hi).1, ⟨hi, hnonce⟩, hcipher⟩
    rw [hcipher]
    exact law key nonce plain

theorem chunks_uploadEncryptedBlob (aead : Aead) (blake3 : Bytes → Hash) (key : Bytes32)
    (content : Bytes) (mediaType : String) :
    (uploadEncryptedBlob aead blake3 key content mediaType).chunks =
      encryptChunks aead key 0 (Chunked.chunks encryptionBlockSize.value.toNat content) := rfl

/-- Three bytes more than a block. -/
@[irreducible] def blockAndThree : Bytes := List.replicate 262144 1 ++ [2, 3, 4]

def onlyBlockAndThree : Aead :=
  xchacha20Poly1305.only (Chunked.chunks encryptionBlockSize.value.toNat blockAndThree)

/-- BLAKE3 of the content, and of what is sent for it. -/
def blake3OfBlockAndThree (data : Bytes) : Hash :=
  if data.length = 262147 then 0x00dd20c13a59ba00612d1624b966855bf72ff6aedaa5754b510c87d4ab0f1422
  else 0xd596d09e53f878af8236b6c22d3bd0aa4740b449680db7a175521cb3f66c754c

theorem length_blockAndThree : blockAndThree.length = 262147 := by
  rw [blockAndThree, List.length_append, List.length_replicate]
  rfl

theorem encrypted_integrity_blockAndThree :
    let up := uploadEncryptedBlob onlyBlockAndThree blake3OfBlockAndThree 0 blockAndThree "text/plain"
    let download (sent : List Bytes) :=
      downloadFile onlyBlockAndThree (fun _ => .ok sent.flatten) "file.txt" (some up.fileRef)
    up.chunks.length = 2 ∧ (∀ bytes, download up.chunks = .ok bytes → bytes = blockAndThree) ∧
      ¬ ∀ bytes, download (up.chunks.take 1) = .ok bytes → bytes = blockAndThree := by
  intro up download
  have hb := encryptionBlockSize.pos
  have hcount : up.chunks.length = 2 := by
    rw [chunks_uploadEncryptedBlob, length_encryptChunks, Chunked.length_chunks hb,
      length_blockAndThree]
    decide
  have hsent : up.chunks.flatten.length = 262179 := by
    rw [chunks_uploadEncryptedBlob, length_encryptChunks] at hcount
    rw [chunks_uploadEncryptedBlob, length_flatten_encryptChunks, Chunked.flatten_chunks hb,
      length_blockAndThree, hcount, overhead]
  have hiff (sent : List Bytes) (hsub : sent.Sublist up.chunks) :=
    encrypted_integrity_iff onlyBlockAndThree blake3OfBlockAndThree 0 blockAndThree "text/plain"
      "file.txt" (fun _ => .ok sent.flatten)
      (onlyProduced_only xchacha20Poly1305_roundTrips 0 _) (by rw [length_blockAndThree]; omega)
      (fun _ answer hs => by
        obtain rfl := Except.ok.inj hs
        have hle := hsub.flatten.length_le
        omega)
  refine ⟨hcount, (hiff _ (.refl _)).2 ?_, fun h => ?_⟩
  · rintro answer hs ⟨k, hk, he⟩
    obtain rfl := Except.ok.inj hs
    have hcut : Chunked.chunks (encryptionBlockSize.value.toNat + overhead) up.chunks.flatten =
        up.chunks := chunks_encrypted hb blockAndThree
    refine flatten_take_ne (Nat.add_pos_left hb overhead) up.chunks.flatten (k := k) ?_ ?_
    · exact hk.trans_eq (congrArg List.length hcut).symm
    · exact (congrArg (fun cs => (cs.take k).flatten) hcut).trans he.symm
  · exact (hiff _ (List.take_sublist 1 _)).1 h _ rfl ⟨1, by rw [hcount]; decide, rfl⟩

/-- A server that sends nothing makes an empty file of it. -/
theorem encrypted_file_emptied :
    let up := uploadEncryptedBlob onlyBlockAndThree blake3OfBlockAndThree 0 blockAndThree "text/plain"
    onlyBlockAndThree.OnlyProduced 0 (Chunked.chunks encryptionBlockSize.value.toNat blockAndThree) ∧
      up.fileRef.size = 262147 ∧
      downloadFile onlyBlockAndThree (fun _ => .ok []) "file.txt" (some up.fileRef) = .ok [] := by
  refine ⟨onlyProduced_only xchacha20Poly1305_roundTrips 0 _, ?_, rfl⟩
  exact congrArg UInt64.ofNat length_blockAndThree

end Client
