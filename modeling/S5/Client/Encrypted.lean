import S5.Fs.Dir
import S5.Lib.BigEndian
import S5.Lib.Chunked

/-!
# Encrypted files of a client

`upload_encrypted_blob`, `download_file` and `download_encrypted_blob`
(`bindings/s5_wasm/src/client.rs`) with `encrypt_chunk` and `decrypt_chunk`
(`bindings/s5_client/src/crypto.rs`). The cipher comes from a library (`Aead`), and so does the hash
function; the server is what it answers a download with.

Keys have their 32 bytes, lengths are bounded by memory, and the server takes every upload.
-/

open Fs

namespace Client

/-! ## Chunks -/

/-- XChaCha20-Poly1305: by key, nonce and text. A ciphertext carries a tag of 16 bytes. -/
structure Aead where
  encrypt : Bytes32 → Bytes → Bytes → Bytes
  decrypt : Bytes32 → Bytes → Bytes → Option Bytes
  length_encrypt : ∀ key nonce plain, (encrypt key nonce plain).length = plain.length + 16

/-- `CryptoError`, of `decrypt_chunk`. -/
inductive CryptoError where
  | decryptionFailed

def CryptoError.display : CryptoError → String
  | decryptionFailed => "Decryption failed: invalid ciphertext or wrong key"

/-- The chunk index, little-endian, padded to 24 bytes. -/
def nonceOf (chunkIndex : UInt64) : Bytes :=
  (BigEndian.bytes 8 chunkIndex.toNat).reverse ++ List.replicate 16 0

section
variable (aead : Aead) (key : Bytes32)

def encryptChunk (chunkIndex : UInt64) (plaintext : Bytes) : Bytes :=
  aead.encrypt key (nonceOf chunkIndex) plaintext

def decryptChunk (chunkIndex : UInt64) (ciphertext : Bytes) : Except CryptoError Bytes :=
  match aead.decrypt key (nonceOf chunkIndex) ciphertext with
  | some plaintext => .ok plaintext
  | none => .error .decryptionFailed

end

/-! ## Upload -/

/-- A block size and its tag fit into a machine word. -/
structure BlockSize where
  value : UInt64
  pos : 0 < value.toNat
  fits : value.toNat + 16 < 2 ^ 64

/-- `ENCRYPTION_BLOCK_SIZE`. -/
def encryptionBlockSize : BlockSize := ⟨256 * 1024, by decide, by decide⟩

/-- The tag of a chunk. -/
def overhead : Nat := 16

/-- `encrypted_size`, of the lengths. -/
def encryptedSize (contentLen blockSize : Nat) : Nat :=
  let numFullBlocks := contentLen / blockSize
  let lastBlockSize := contentLen % blockSize
  if 0 < lastBlockSize then numFullBlocks * (blockSize + overhead) + (lastBlockSize + overhead)
  else if 0 < numFullBlocks then numFullBlocks * (blockSize + overhead)
  else 0

/-- The loop over the chunks, which are numbered from `chunkIndex` on. -/
def encryptChunks (aead : Aead) (key : Bytes32) : Nat → List Bytes → List Bytes
  | _, [] => []
  | chunkIndex, chunk :: rest =>
    encryptChunk aead key (.ofNat chunkIndex) chunk :: encryptChunks aead key (chunkIndex + 1) rest

/-- What an upload announces, what it sends, and the file it makes. -/
structure EncryptedUpload where
  encryptedHash : Hash
  encryptedSize : Nat
  chunks : List Bytes
  fileRef : FileRef

/-- `upload_encrypted_blob` with any block size and the key it has drawn. -/
def uploadWith (aead : Aead) (blake3 : Bytes → Hash) (blockSize : BlockSize) (key : Bytes32)
    (content : Bytes) (mediaType : String) : EncryptedUpload :=
  let encrypted := encryptChunks aead key 0 (Chunked.chunks blockSize.value.toNat content)
  let encryptedHash := blake3 encrypted.flatten
  { encryptedHash
    encryptedSize := encryptedSize content.length blockSize.value.toNat
    chunks := encrypted
    fileRef := { FileRef.new (blake3 content) (.ofNat content.length) with
      mediaType := some mediaType
      locations := some [.encryptionXChaCha20Poly1305 (.multihashBlake3 encryptedHash) key
        blockSize.value] } }

def uploadEncryptedBlob (aead : Aead) (blake3 : Bytes → Hash) (key : Bytes32) (content : Bytes)
    (mediaType : String) : EncryptedUpload :=
  uploadWith aead blake3 encryptionBlockSize key content mediaType

/-! ## Download -/

/-- The name of a location's type. -/
def locationTypeName : BlobLocation → String
  | .identityRawBinary _ => "IdentityRawBinary"
  | .url _ => "Url"
  | .iroh _ => "Iroh"
  | .siaFile _ => "SiaFile"
  | .multihashSha1 _ => "MultihashSha1"
  | .multihashSha2_256 _ => "MultihashSha2_256"
  | .multihashBlake3 _ => "MultihashBlake3"
  | .multihashMd5 _ => "MultihashMd5"
  | .encryptionXChaCha20Poly1305 _ _ _ => "EncryptionXChaCha20Poly1305"
  | .compressionZstd _ => "CompressionZstd"
  | .compressionBrotli _ => "CompressionBrotli"

def extractHashFromLocation : BlobLocation → Except String Hash
  | .multihashBlake3 hash => .ok hash
  | .iroh _ => .error "Iroh location without hash - not yet supported"
  | .encryptionXChaCha20Poly1305 inner _ _ => extractHashFromLocation inner
  | loc => .error ("Unsupported inner location type: " ++ locationTypeName loc)

section
variable (aead : Aead)

/-- The loop over the encrypted bytes. Every turn goes on by a byte at least, so that their number is
enough of them. -/
def decryptLoop (key : Bytes32) (encryptedBlockSize : Nat) (encrypted : Bytes) :
    Nat → Nat → Nat → Bytes → Except String Bytes
  | 0, _, _, plaintext => .ok plaintext
  | turns + 1, offset, chunkIndex, plaintext =>
    if offset < encrypted.length then
      let end_ := min (offset + encryptedBlockSize) encrypted.length
      let chunk := (encrypted.take end_).drop offset
      match decryptChunk aead key (.ofNat chunkIndex) chunk with
      | .error e =>
        .error ("Decryption failed at chunk " ++ toString chunkIndex ++ ": " ++ e.display)
      | .ok decrypted =>
        decryptLoop key encryptedBlockSize encrypted turns end_ (chunkIndex + 1)
          (plaintext ++ decrypted)
    else .ok plaintext

/-- `download_bytes` of all that a hash stands for: what the server sends, unchecked. -/
def downloadBytes (serve : Hash → Except String Bytes) (hash : Hash) : Except String Bytes :=
  (serve hash).mapError ("Download failed: " ++ ·)

variable (serve : Hash → Except String Bytes)

def downloadEncryptedBlob (inner : BlobLocation) (key : Bytes32) (blockSize : UInt64) :
    Except String Bytes := do
  let hash ← extractHashFromLocation inner
  let encrypted ← downloadBytes serve hash
  if blockSize = 0 then .error "Invalid block size: 0"
  else
    decryptLoop aead key (blockSize.toNat + overhead) encrypted encrypted.length 0 0 []

/-- `download_file`; `fileRef` is what `file_get` gives for the path. -/
def downloadFile (path : String) (fileRef : Option FileRef) : Except String Bytes :=
  match fileRef with
  | none => .error ("File not found: " ++ path)
  | some fileRef =>
    let fromLocation : BlobLocation → Option (Except String Bytes)
      | .identityRawBinary data => some (.ok data)
      | .encryptionXChaCha20Poly1305 inner key blockSize =>
        some (downloadEncryptedBlob aead serve inner key blockSize)
      | _ => none
    match (fileRef.locations.getD []).findSome? fromLocation with
    | some res => res
    | none => downloadBytes serve fileRef.hash

end

end Client
