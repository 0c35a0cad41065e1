import S5.Blobs.Fetch
import S5.Blobs.Import

/-!
# Imports into a remote store

`RemoteBlobStore` (`s5_blobs/src/store_remote.rs`) as the store of a `BlobStore`: `import_bytes`,
`import_stream` and `finalize_import` (`s5_core/src/blob/import.rs`) again, over any implementation of
the trait `Store`. `importBytes_objects` and `importStream_objects` say that over a store of objects
they are the ones of `BlobFiles`.

The peer is a `BlobsServer`; the connection to it does not fail.
-/

namespace Blobs

/-! ## The trait -/

/-- The trait `Store`, over the state `σ` that its calls change. A temporary object takes a stream
that is polled as far as the store reads it. -/
structure StoreOps (σ : Type) where
  features : StoreFeatures
  contains : σ → String → Except String Bool
  putBytes : σ → String → Bytes → σ × Except String Unit
  putTemp : σ → TeeStream → σ × TeeStream × Except String String
  putStream : σ → String → List Bytes → σ × Except String Unit
  openReadStream : σ → String → Except String (List Bytes)
  size : σ → String → Except String Nat
  delete : σ → String → σ × Except String Unit
  rename : σ → String → String → σ × Except String Unit

/-- A store of objects; `uuid` names the temporary one. -/
def StoreOps.objects (features : StoreFeatures) (uuid : String) : StoreOps Store where
  features := features
  contains s path := .ok (s.contains path)
  putBytes s path bytes := (s.putBytes path bytes, .ok ())
  putTemp s tee :=
    let (tee, written) := tee.collect (tee.stream.length + 1)
    let (s, path) := s.putTemp uuid written
    (s, tee, .ok path)
  putStream s path chunks := (s.putStream path chunks, .ok ())
  openReadStream s path := s.openReadStream path 0 none
  size s path := s.size path
  delete s path := (s.delete path, .ok ())
  rename s path newPath := match s.rename path newPath with
    | .ok s => (s, .ok ())
    | .error e => (s, .error e)

/-! ## Imports -/

section
variable {σ : Type} (ops : StoreOps σ) (env : BlobEncoding)

/-- `outboard_store` is the store itself (`BlobStore::new`). -/
def putOutboard (s : σ) (hash : Hash) : Option Bytes → σ × Except String Unit
  | none => (s, .ok ())
  | some data => ops.putBytes s (obao6Path env hash ops.features) data

/-- What `finalize_import` does with the temporary object. -/
def moveTemp (s : σ) (tempPath finalPath : String) : σ × Except String Unit :=
  match ops.contains s finalPath with
  | .error e => (s, .error e)
  | .ok true => ops.delete s tempPath
  | .ok false =>
    if ops.features.supportsRename then ops.rename s tempPath finalPath
    else
      match ops.openReadStream s tempPath with
      | .error e => (s, .error e)
      | .ok stream =>
        match ops.putStream s finalPath stream with
        | (s, .error e) => (s, .error e)
        | (s, .ok ()) => ops.delete s tempPath

def finalizeImport (s : σ) (tempPath : String) (hash : Hash) (size : Nat) (outboard : Option Bytes) :
    σ × Except String BlobId :=
  match putOutboard ops env s hash outboard with
  | (s, .error e) => (s, .error e)
  | (s, .ok ()) =>
    match moveTemp ops s tempPath (blobPath env hash ops.features) with
    | (s, .error e) => (s, .error e)
    | (s, .ok ()) => (s, .ok ⟨hash, size⟩)

def importBytes (s : σ) (bytes : Bytes) : σ × Except String BlobId :=
  let size := bytes.length
  let (hash, obao) :=
    if BlobFiles.outboardThreshold ≤ size then env.computeOutboard bytes
    else (env.blake3 bytes, none)
  match putOutboard ops env s hash obao with
  | (s, .error e) => (s, .error e)
  | (s, .ok ()) =>
    let finalPath := blobPath env hash ops.features
    match ops.contains s finalPath with
    | .error e => (s, .error e)
    | .ok true => (s, .ok ⟨hash, size⟩)
    | .ok false =>
      if ops.features.supportsRename then
        match ops.putTemp s (.new [bytes]) with
        | (s, _, .error e) => (s, .error e)
        | (s, _, .ok tempPath) => finalizeImport ops env s tempPath hash size obao
      else
        match ops.putBytes s finalPath bytes with
        | (s, .error e) => (s, .error e)
        | (s, .ok ()) => (s, .ok ⟨hash, size⟩)

def importStream (s : σ) (chunks : List Bytes) : σ × Except String BlobId :=
  match ops.putTemp s (.new chunks) with
  | (s, _, .error e) => (s, .error e)
  | (s, tee, .ok tempPath) =>
    match ops.size s tempPath with
    | .error e => (s, .error e)
    | .ok size =>
      let hash := env.blake3 tee.hashed
      match ops.openReadStream s tempPath with
      | .error e => (s, .error e)
      | .ok stream =>
        let (h2, outboard) := env.computeOutboard stream.flatten
        if h2 ≠ hash then (s, .error "Hash mismatch during import")
        else finalizeImport ops env s tempPath hash size outboard

end

/-! ## The remote store -/

/-- The libraries of a `RemoteBlobStore`, whose base64 is read back from its paths, and its end of the
connection. -/
structure RemoteEnv where
  enc : BlobEncoding
  decode : String → Except String Bytes
  decode_encode : ∀ bytes, decode (enc.base64.encode bytes) = .ok bytes
  slash_free : ∀ bytes, '/' ∉ (enc.base64.encode bytes).toList
  hashBytes : Bytes32 → Hash
  nodeKey : NodeId → String
  node : NodeId

namespace RemoteEnv

variable (env : RemoteEnv)

def base64 : Base64 := ⟨env.enc.base64.encode, env.decode, env.decode_encode, env.slash_free⟩

/-- The ACL the server has for this client. -/
def cfg (srv : BlobsServer) : Option PeerConfigBlobs := srv.cfgFor (env.nodeKey env.node)

/-- The client, as far as it reads. -/
def client (srv : BlobsServer) : Client := .connected env.hashBytes env.nodeKey srv env.node

def pinBlob (srv : BlobsServer) (hash : Hash) : BlobsServer × Except String Bool :=
  handlePin srv env.node (env.cfg srv) ⟨hash⟩

def uploadChunks (srv : BlobsServer) (hash : Hash) (totalSize : Nat) (chunks : List Bytes) :
    BlobsServer × Except String Unit :=
  handleUpload env.enc.blake3 srv env.node (env.cfg srv) ⟨hash, UInt64.ofNat totalSize⟩ chunks

/-- The pin that spares an upload: `upload` runs only if the server does not have the blob. -/
def pinOr (srv : BlobsServer) (hash : Hash)
    (upload : BlobsServer → BlobsServer × Except String Unit) : BlobsServer × Except String Unit :=
  match env.pinBlob srv hash with
  | (srv, .ok true) => (srv, .ok ())
  | (srv, .ok false) => upload srv
  | (srv, .error e) => (srv, .error s!"pin_blob error: {e}")

def putBytes (srv : BlobsServer) (path : String) (bytes : Bytes) : BlobsServer × Except String Unit :=
  match hashFromPath env.base64 path with
  | .error e => (srv, .error e)
  | .ok hash => env.pinOr srv hash fun srv => env.uploadChunks srv hash bytes.length [bytes]

/-- The chunks are read only if the server does not have the blob. -/
def putStream (srv : BlobsServer) (path : String) (tee : TeeStream) :
    BlobsServer × TeeStream × Except String Unit :=
  match hashFromPath env.base64 path with
  | .error e => (srv, tee, .error e)
  | .ok expectedHash =>
    match env.pinBlob srv expectedHash with
    | (srv, .ok true) => (srv, tee, .ok ())
    | (srv, .error e) => (srv, tee, .error s!"pin_blob error: {e}")
    | (srv, .ok false) =>
      let (tee, chunks) := tee.collect (tee.stream.length + 1)
      let actualHash := env.enc.blake3 chunks.flatten
      if actualHash ≠ expectedHash then (srv, tee, .error "hash mismatch")
      else
        let (srv, res) := env.uploadChunks srv expectedHash chunks.flatten.length chunks
        (srv, tee, res)

/-- The path of every temporary object. -/
def remoteTempPath : String := "blob3/temp"

def putTemp (srv : BlobsServer) (tee : TeeStream) : BlobsServer × TeeStream × Except String String :=
  let (srv, tee, res) := env.putStream srv remoteTempPath tee
  (srv, tee, res.map fun _ => remoteTempPath)

def remoteExists (srv : BlobsServer) (path : String) : Except String Bool := do
  let hash ← hashFromPath env.base64 path
  let response ← (env.client srv).query ⟨hash, false⟩
  return response.exists_

def size (srv : BlobsServer) (path : String) : Except String Nat := do
  let hash ← hashFromPath env.base64 path
  let response ← (env.client srv).query ⟨hash, false⟩
  match response.size with
  | some size => return size
  | none => throw s!"size unavailable for blob {path}"

def delete (srv : BlobsServer) (path : String) : BlobsServer × Except String Unit :=
  match hashFromPath env.base64 path with
  | .error e => (srv, .error e)
  | .ok hash =>
    let (srv, res) := handleDelete srv env.node (env.cfg srv) ⟨hash⟩
    (srv, res.map fun _ => ())

/-- `RemoteBlobStore` as a `Store`. -/
def ops : StoreOps BlobsServer where
  features := ⟨false, true, 0xffffffffffffffff⟩
  contains := env.remoteExists
  putBytes := env.putBytes
  putTemp := env.putTemp
  putStream srv path chunks :=
    let (srv, _, res) := env.putStream srv path (.new chunks)
    (srv, res)
  openReadStream srv path := (openReadBytes env.base64 (env.client srv) path 0 none).map ([·])
  size := env.size
  delete := env.delete
  rename srv _ _ := (srv, .error "rename not supported for RemoteBlobStore")

end RemoteEnv

/-- A call that imports data. -/
inductive ImportCall where
  | bytes (bytes : Bytes)
  | stream (chunks : List Bytes)

namespace ImportCall

def data : ImportCall → Bytes
  | bytes b => b
  | stream chunks => chunks.flatten

/-- The import into `BlobStore::new(RemoteBlobStore)`. -/
def run (env : RemoteEnv) (srv : BlobsServer) : ImportCall → BlobsServer × Except String BlobId
  | bytes b => importBytes env.ops env.enc srv b
  | stream chunks => importStream env.ops env.enc srv chunks

end ImportCall

end Blobs
