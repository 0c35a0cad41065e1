import S5.Client.Encrypted
import S5.Core.Stream
import S5.Lib.XChaCha

/-!
# The chunks of an encrypted file

The upload cuts the content by the block size, the download cuts what it gets by the block size and a
tag. A ciphertext is as much longer than its chunk, so that the second cut finds the chunks of the
first (`chunks_encrypted`), and each is decrypted under the index it was encrypted with.

* `encrypted_round_trip`: the announced size is what is sent, and the content comes back.
-/

open Fs

namespace Client

variable {aead : Aead} {key : Bytes32}

/-- Decryption undoes encryption under one key and nonce. -/
def Aead.RoundTrips (aead : Aead) : Prop :=
  ∀ key nonce plain, aead.decrypt key nonce (aead.encrypt key nonce plain) = some plain

/-! ## What is encrypted -/

theorem length_encryptChunks (i : Nat) (chunks : List Bytes) :
    (encryptChunks aead key i chunks).length = chunks.length := by
  induction chunks generalizing i with
  | nil => rfl
  | cons chunk rest ih => rw [encryptChunks, List.length_cons, ih, List.length_cons]

theorem getElem?_encryptChunks (i n : Nat) (chunks : List Bytes) :
    (encryptChunks aead key i chunks)[n]? =
      chunks[n]?.map (encryptChunk aead key (.ofNat (i + n))) := by
  induction chunks generalizing i n with
  | nil => rfl
  | cons chunk rest ih =>
    rw [encryptChunks]
    cases n with
    | zero => rfl
    | succ n =>
      rw [List.getElem?_cons_succ, List.getElem?_cons_succ, ih]
      congr 3
      omega

/-- Every chunk grows by its tag. -/
theorem forall₂_encryptChunks (i : Nat) (chunks : List Bytes) :
    List.Forall₂ (fun p q => q.length = p.length + overhead) chunks
      (encryptChunks aead key i chunks) := by
  induction chunks generalizing i with
  | nil => exact .nil
  | cons chunk rest ih => exact .cons (aead.length_encrypt _ _ _) (ih (i + 1))

theorem length_flatten_encryptChunks (i : Nat) (chunks : List Bytes) :
    (encryptChunks aead key i chunks).flatten.length =
      chunks.flatten.length + chunks.length * overhead := by
  induction chunks generalizing i with
  | nil => rfl
  | cons chunk rest ih =>
    have hchunk : (encryptChunk aead key (.ofNat i) chunk).length = chunk.length + overhead :=
      aead.length_encrypt _ _ _
    rw [encryptChunks, List.flatten_cons, List.length_append, ih, hchunk, List.flatten_cons,
      List.length_append, List.length_cons, Nat.add_mul]
    omega

/-- **The announced size** is that of what is sent. -/
theorem encryptedSize_eq {b : Nat} (hb : 0 < b) (content : Bytes) :
    encryptedSize content.length b =
      (encryptChunks aead key 0 (Chunked.chunks b content)).flatten.length := by
  rw [length_flatten_encryptChunks, Chunked.flatten_chunks hb, Chunked.length_chunks hb]
  have hdiv := Nat.div_add_mod content.length b
  unfold encryptedSize
  dsimp only
  generalize content.length / b = full, content.length % b = rest at hdiv
  rw [Nat.mul_add, Nat.mul_comm full b, Nat.add_mul]
  by_cases hrest : 0 < rest
  · rw [if_pos hrest, if_pos hrest, Nat.one_mul]
    omega
  · rw [if_neg hrest, if_neg hrest]
    split
    · omega
    · rename_i hzero
      obtain rfl : full = 0 := by omega
      rw [Nat.mul_zero] at hdiv
      omega

/-! ## What is decrypted -/

/-- The chunks from an index on. -/
def decryptChunks (aead : Aead) (key : Bytes32) : Nat → List Bytes → Except String Bytes
  | _, [] => .ok []
  | i, chunk :: rest =>
    match decryptChunk aead key (.ofNat i) chunk with
    | .error e => .error ("Decryption failed at chunk " ++ toString i ++ ": " ++ e.display)
    | .ok decrypted => (decryptChunks aead key (i + 1) rest).map (decrypted ++ ·)

/-- **The loop** decrypts the chunks of what is left. -/
theorem decryptLoop_eq {c : Nat} (hc : 0 < c) (encrypted : Bytes) :
    ∀ (turns offset i : Nat) (plaintext : Bytes), encrypted.length - offset ≤ turns →
      decryptLoop aead key c encrypted turns offset i plaintext =
        (decryptChunks aead key i (Chunked.chunks c (encrypted.drop offset))).map (plaintext ++ ·)
  | 0, offset, i, plaintext, hturns => by
    rw [List.drop_eq_nil_of_le (by omega)]
    simp [decryptLoop, decryptChunks, Except.map]
  | turns + 1, offset, i, plaintext, hturns => by
    unfold decryptLoop
    by_cases hlt : offset < encrypted.length
    · have hne : encrypted.drop offset ≠ [] := by
        rw [← List.length_pos_iff, List.length_drop]
        omega
      have hchunk : (encrypted.take (min (offset + c) encrypted.length)).drop offset =
          (encrypted.drop offset).take c := by
        rw [List.drop_take, List.take_eq_take_iff, List.length_drop]
        omega
      have hrest : encrypted.drop (min (offset + c) encrypted.length) =
          (encrypted.drop offset).drop c := by
        rw [List.drop_drop]
        by_cases hle : offset + c ≤ encrypted.length
        · rw [Nat.min_eq_left hle]
        · rw [Nat.min_eq_right (by omega), List.drop_length, List.drop_eq_nil_of_le (by omega)]
      rw [if_pos hlt, Chunked.chunks_of_ne_nil hc hne, decryptChunks]
      dsimp only
      rw [hchunk]
      cases decryptChunk aead key (.ofNat i) ((encrypted.drop offset).take c) with
      | error e => rfl
      | ok decrypted =>
        dsimp only
        rw [decryptLoop_eq hc encrypted turns _ _ _ (by omega), hrest]
        cases decryptChunks aead key (i + 1) (Chunked.chunks c ((encrypted.drop offset).drop c)) with
        | error e => rfl
        | ok rest => simp [Except.map]
    · rw [if_neg hlt, List.drop_eq_nil_of_le (by omega)]
      simp [decryptChunks, Except.map]

theorem decryptChunks_encryptChunks (law : aead.RoundTrips) (i : Nat) (chunks : List Bytes) :
    decryptChunks aead key i (encryptChunks aead key i chunks) = .ok chunks.flatten := by
  induction chunks generalizing i with
  | nil => rfl
  | cons chunk rest ih =>
    have hchunk : decryptChunk aead key (.ofNat i) (encryptChunk aead key (.ofNat i) chunk) =
        .ok chunk := by
      unfold decryptChunk encryptChunk
      rw [law]
    rw [encryptChunks, decryptChunks, hchunk, ih]
    rfl

/-- **The download cuts** what the upload has joined. -/
theorem chunks_encrypted {b : Nat} (hb : 0 < b) (content : Bytes) :
    Chunked.chunks (b + overhead)
        (encryptChunks aead key 0 (Chunked.chunks b content)).flatten =
      encryptChunks aead key 0 (Chunked.chunks b content) :=
  Chunked.chunks_flatten (Nat.add_pos_left hb _)
    ((Chunked.isCut_chunks hb content).grow (forall₂_encryptChunks 0 _))

/-! ## Files -/

/-- A download of a file that was uploaded runs the loop on what the server sends. -/
theorem downloadFile_upload (blake3 : Bytes → Hash) (b : BlockSize) (content : Bytes)
    (mediaType path : String) (serve : Hash → Except String Bytes) :
    let up := uploadWith aead blake3 b key content mediaType
    downloadFile aead serve path (some up.fileRef) =
      (downloadBytes serve up.encryptedHash).bind fun encrypted =>
        (decryptChunks aead key 0 (Chunked.chunks (b.value.toNat + overhead) encrypted)) := by
  intro up
  have hb : b.value ≠ 0 := by
    intro hz
    have hpos := b.pos
    rw [hz] at hpos
    exact absurd hpos (by decide)
  show downloadEncryptedBlob aead serve (.multihashBlake3 up.encryptedHash) key b.value = _
  unfold downloadEncryptedBlob extractHashFromLocation
  simp only [bind, Except.bind]
  cases downloadBytes serve up.encryptedHash with
  | error e => rfl
  | ok encrypted =>
    dsimp only
    rw [if_neg hb, decryptLoop_eq (Nat.add_pos_left b.pos _) _ _ _ _ _ (Nat.sub_le _ _),
      List.drop_zero]
    cases decryptChunks aead key 0 (Chunked.chunks (b.value.toNat + overhead) encrypted) <;> rfl

/-- **Chunked encryption round-trips.** -/
theorem encrypted_round_trip (aead : Aead) (law : aead.RoundTrips) (blake3 : Bytes → Hash)
    (b : BlockSize) (key : Bytes32) (content : Bytes) (mediaType path : String) :
    let up := uploadWith aead blake3 b key content mediaType
    let sent := up.chunks.flatten
    up.encryptedSize = (up.chunks.map List.length).sum ∧
      (∀ i, (Chunked.chunks (b.value.toNat + overhead) sent)[i]? =
        (Chunked.chunks b.value.toNat content)[i]?.map (encryptChunk aead key (.ofNat i))) ∧
      decryptLoop aead key (b.value.toNat + overhead) sent sent.length 0 0 [] = .ok content ∧
      ∀ serve, serve up.encryptedHash = .ok sent →
        downloadFile aead serve path (some up.fileRef) = .ok content := by
  intro up sent
  have hcut : Chunked.chunks (b.value.toNat + overhead) sent =
      encryptChunks aead key 0 (Chunked.chunks b.value.toNat content) :=
    chunks_encrypted b.pos content
  have hplain : decryptChunks aead key 0 (Chunked.chunks (b.value.toNat + overhead) sent) =
      .ok content := by
    rw [hcut, decryptChunks_encryptChunks law, Chunked.flatten_chunks b.pos]
  refine ⟨?_, fun i => ?_, ?_, fun serve hserve => ?_⟩
  · rw [← List.length_flatten]
    exact encryptedSize_eq b.pos content
  · rw [hcut, getElem?_encryptChunks, Nat.zero_add]
  · rw [decryptLoop_eq (Nat.add_pos_left b.pos _) _ _ _ _ _ (Nat.sub_le _ _), List.drop_zero, hplain]
    rfl
  · rw [downloadFile_upload, downloadBytes, hserve]
    exact hplain

/-! Five bytes in three chunks, under the key of zeros. -/

def xchacha20Poly1305 : Aead where
  encrypt key := XChaCha.encrypt (Bytes32.toBytes key)
  decrypt key := XChaCha.decrypt (Bytes32.toBytes key)
  length_encrypt key := XChaCha.length_encrypt (Bytes32.toBytes key)

theorem xchacha20Poly1305_roundTrips : xchacha20Poly1305.RoundTrips :=
  fun key nonce plain => XChaCha.decrypt_encrypt (Bytes32.toBytes key) nonce plain

/-- BLAKE3 of the five bytes, and of what is sent for them. -/
def blake3OfFive (data : Bytes) : Hash :=
  if data.length = 5 then 0x024f67c0425a3dc02fbaf58cb93de5132e3d75c519faa0bada21491d88c97057
  else 0x31e7aac66f12db5c1be64cff04758c143e020899c32974fc5c3089eabd2b0ec1

theorem encrypted_round_trip_threeChunks :
    let up := uploadWith xchacha20Poly1305 blake3OfFive ⟨2, by decide, by decide⟩ 0 [1, 2, 3, 4, 5]
      "text/plain"
    up.chunks.map List.length = [18, 18, 17] ∧ up.encryptedSize = 53 ∧
      downloadFile xchacha20Poly1305 (fun _ => .ok up.chunks.flatten) "five.txt" (some up.fileRef) =
        .ok [1, 2, 3, 4, 5] := by
  intro up
  have hlengths : up.chunks.map List.length = [18, 18, 17] := by
    have hcut : Chunked.chunks 2 ([1, 2, 3, 4, 5] : Bytes) = [[1, 2], [3, 4], [5]] := rfl
    show (encryptChunks _ 0 0 (Chunked.chunks 2 [1, 2, 3, 4, 5])).map List.length = _
    rw [hcut]
    simp [encryptChunks, encryptChunk, xchacha20Poly1305.length_encrypt]
  obtain ⟨hsize, -, -, hdown⟩ := encrypted_round_trip xchacha20Poly1305 xchacha20Poly1305_roundTrips
    blake3OfFive ⟨2, by decide, by decide⟩ 0 [1, 2, 3, 4, 5] "text/plain" "five.txt"
  refine ⟨hlengths, hsize.trans ?_, hdown _ rfl⟩
  show (up.chunks.map List.length).sum = 53
  rw [hlengths]
  rfl

end Client
