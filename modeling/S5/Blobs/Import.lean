import S5.Blobs.Server
import S5.Core.Store
import S5.Core.Stream
import S5.Lib.Base64Url

/-!
# Blobs in the paths of a store

`BlobStore` (`s5_core/src/blob/store.rs`) down to the objects of its stores: the paths of blobs and
their outboard data (`paths.rs`), `import_bytes`, `import_stream`, `import_file` and `finalize_import`
(`import.rs`), `delete` and `read_as_bytes`.

The hash function, the outboard and the text encodings of hashes come from libraries
(`BlobEncoding`). Stores do not fail, and a stream is polled until it ends.
-/

namespace Blobs

/-! ## Paths -/

/-- A text encoding of bytes: distinct for distinct bytes, and at least six characters long for a
hash. -/
structure TextEncoding where
  encode : Bytes → String
  injective : Function.Injective encode
  long : ∀ bytes : Bytes, bytes.length = 32 → 6 ≤ (encode bytes).toList.length

/-- `URL_SAFE_NO_PAD`. -/
def base64UrlText : TextEncoding where
  encode := Base64Url.encode
  injective := Base64Url.encode_injective
  long bytes h := by
    have hlen := Base64Url.length_encodeList bytes
    rw [Base64Url.encode, String.toList_ofList]
    omega

/-- BLAKE3, Bao, and the text encodings of hashes: `URL_SAFE_NO_PAD` and `base32_fs`. -/
structure BlobEncoding where
  blake3 : Bytes → Hash
  /-- `compute_outboard` of what it reads. -/
  computeOutboard : Bytes → Hash × Option Bytes
  base64 : TextEncoding
  base32 : TextEncoding

variable (env : BlobEncoding)

def pathForHash (hash : Hash) (features : StoreFeatures) : String :=
  let text := if features.caseSensitive then env.base64 else env.base32
  let hashStr := (text.encode (Bytes32.toBytes hash)).toList
  let segment (i j : Nat) := (hashStr.drop i).take (j - i)
  if features.recommendedMaxDirSize < 10000 then
    if features.caseSensitive then
      String.ofList (segment 0 2 ++ '/' :: (segment 2 4 ++ '/' :: hashStr.drop 4))
    else
      String.ofList (segment 0 2 ++ '/' :: (segment 2 4 ++ '/' :: (segment 4 6 ++
        '/' :: hashStr.drop 6)))
  else String.ofList hashStr

def blobPath (hash : Hash) (features : StoreFeatures) : String :=
  "blob3/" ++ pathForHash env hash features

def obao6Path (hash : Hash) (features : StoreFeatures) : String :=
  "obao6/" ++ pathForHash env hash features

/-! ## Streams -/

/-- A `TeeStream` into a `HasherWriter`; `hashed` are the bytes its hasher has been updated with. -/
structure TeeStream where
  stream : List Bytes
  hashed : Bytes
  writeBuf : Option Bytes
  streamDone : Bool

namespace TeeStream

def new (stream : List Bytes) : TeeStream := ⟨stream, [], none, false⟩

/-- Writes what is left of the last chunk; the hasher takes all of it. -/
def flush (t : TeeStream) : TeeStream :=
  match t.writeBuf with
  | some buf => { t with hashed := t.hashed ++ buf, writeBuf := none }
  | none => t

/-- `poll_next`: a chunk is handed on before it is written. -/
def pollNext (t : TeeStream) : TeeStream × Option Bytes :=
  let t := t.flush
  if t.streamDone then (t, none)
  else
    match t.stream with
    | chunk :: rest => ({ t with stream := rest, writeBuf := some chunk }, some chunk)
    | [] => ({ t with streamDone := true }, none)

/-- The chunks of at most `polls` polls, until the stream ends. -/
def collect : Nat → TeeStream → TeeStream × List Bytes
  | 0, t => (t, [])
  | polls + 1, t =>
    match t.pollNext with
    | (t, none) => (t, [])
    | (t, some chunk) =>
      let (t, chunks) := collect polls t
      (t, chunk :: chunks)

end TeeStream

/-! ## Blob stores -/

/-- Where outboard data goes: nowhere (`without_outboard`), to the store of the blobs (`new`), or to
one of its own (`with_outboard`). -/
inductive OutboardStore where
  | none
  | shared
  | separate (store : Store)

/-- A `BlobStore` in its stores. -/
structure BlobFiles where
  store : Store
  outboard : OutboardStore

namespace BlobFiles

/-- `outboard_store.is_some()`. -/
def hasOutboard (b : BlobFiles) : Bool :=
  match b.outboard with
  | .none => false
  | _ => true

/-- Stores the outboard data of a blob, if there are any and there is a place for them. -/
def putOutboard (b : BlobFiles) (hash : Hash) (data : Option Bytes) : BlobFiles :=
  match data, b.outboard with
  | some data, .shared =>
    { b with store := b.store.putBytes (obao6Path env hash b.store.features) data }
  | some data, .separate o =>
    { b with outboard := .separate (o.putBytes (obao6Path env hash o.features) data) }
  | _, _ => b

def finalizeImport (b : BlobFiles) (tempPath : String) (hash : Hash) (size : Nat)
    (outboard : Option Bytes) : BlobFiles × Except String BlobId :=
  let b := b.putOutboard env hash outboard
  let finalPath := blobPath env hash b.store.features
  if b.store.contains finalPath then
    ({ b with store := b.store.delete tempPath }, .ok ⟨hash, size⟩)
  else if b.store.features.supportsRename then
    match b.store.rename tempPath finalPath with
    | .error e => (b, .error e)
    | .ok store => ({ b with store }, .ok ⟨hash, size⟩)
  else
    match b.store.openReadStream tempPath 0 none with
    | .error e => (b, .error e)
    | .ok stream =>
      ({ b with store := (b.store.putStream finalPath stream).delete tempPath }, .ok ⟨hash, size⟩)

/-- From this size on outboard data are computed of bytes in memory. -/
def outboardThreshold : Nat := 2 ^ 16

/-- `import_bytes`; `uuid` names the temporary object. -/
def importBytes (b : BlobFiles) (uuid : String) (bytes : Bytes) : BlobFiles × Except String BlobId :=
  let size := bytes.length
  let (hash, obao) :=
    if b.hasOutboard ∧ outboardThreshold ≤ size then env.computeOutboard bytes
    else (env.blake3 bytes, none)
  let b := b.putOutboard env hash obao
  let finalPath := blobPath env hash b.store.features
  if b.store.contains finalPath then (b, .ok ⟨hash, size⟩)
  else if b.store.features.supportsRename then
    let (store, tempPath) := b.store.putTemp uuid [bytes]
    finalizeImport env { b with store } tempPath hash size obao
  else ({ b with store := b.store.putBytes finalPath bytes }, .ok ⟨hash, size⟩)

/-- The outboard data of an imported stream, read back from the store. -/
def computeFromStore (b : BlobFiles) (path : String) (hash : Hash) : Except String (Option Bytes) :=
  if b.hasOutboard then
    match b.store.openReadStream path 0 none with
    | .error e => .error e
    | .ok chunks =>
      let (h2, ob) := env.computeOutboard chunks.flatten
      if h2 ≠ hash then .error "Hash mismatch during import" else .ok ob
  else .ok none

def importStream (b : BlobFiles) (uuid : String) (chunks : List Bytes) :
    BlobFiles × Except String BlobId :=
  let (tee, written) := (TeeStream.new chunks).collect (chunks.length + 1)
  let (store, tempPath) := b.store.putTemp uuid written
  let b := { b with store }
  match b.store.size tempPath with
  | .error e => (b, .error e)
  | .ok size =>
    let hash := env.blake3 tee.hashed
    match computeFromStore env b tempPath hash with
    | .error e => (b, .error e)
    | .ok outboard => finalizeImport env b tempPath hash size outboard

/-- `import_file` of a file that stays as it is while it is imported. -/
def importFile (b : BlobFiles) (uuid : String) (chunks : List Bytes) :
    BlobFiles × Except String BlobId :=
  let (tee, written) := (TeeStream.new chunks).collect (chunks.length + 1)
  let (hash, outboard) :=
    if b.hasOutboard then env.computeOutboard tee.hashed else (env.blake3 tee.hashed, none)
  let (store, tempPath) := b.store.putTemp uuid written
  finalizeImport env { b with store } tempPath hash chunks.flatten.length outboard

def delete (b : BlobFiles) (hash : Hash) : BlobFiles :=
  let b := { b with store := b.store.delete (blobPath env hash b.store.features) }
  match b.outboard with
  | .none => b
  | .shared => { b with store := b.store.delete (obao6Path env hash b.store.features) }
  | .separate o => { b with outboard := .separate (o.delete (obao6Path env hash o.features)) }

def readAsBytes (b : BlobFiles) (hash : Hash) (offset : UInt64) (maxLen : Option UInt64) :
    Except String Bytes :=
  b.store.openReadBytes (blobPath env hash b.store.features) offset maxLen

end BlobFiles

/-! ## Calls -/

inductive BlobCall where
  | importBytes (uuid : String) (bytes : Bytes)
  | importStream (uuid : String) (chunks : List Bytes)
  | delete (hash : Hash)

namespace BlobCall

/-- The data of an import. -/
def data : BlobCall → Option Bytes
  | importBytes _ bytes => some bytes
  | importStream _ chunks => some chunks.flatten
  | delete _ => none

/-- The blob that a call is about. -/
def hash : BlobCall → Hash
  | importBytes _ bytes => env.blake3 bytes
  | importStream _ chunks => env.blake3 chunks.flatten
  | delete h => h

/-- The store after a call, and the `BlobId` it answers with. -/
def run (b : BlobFiles) : BlobCall → BlobFiles × Except String (Option BlobId)
  | importBytes uuid bytes =>
    let (b, res) := b.importBytes env uuid bytes
    (b, res.map some)
  | importStream uuid chunks =>
    let (b, res) := b.importStream env uuid chunks
    (b, res.map some)
  | delete h => (b.delete env h, .ok none)

def step (b : BlobFiles) (c : BlobCall) : BlobFiles := (c.run env b).1

end BlobCall

end Blobs
