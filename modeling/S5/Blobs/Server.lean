import S5.Core.Pins

/-!
# The blob server

`BlobsServer` (`s5_blobs/src/net_protocol.rs`): named blob stores, per-peer ACLs and an optional
pinning backend, serving `Query`, `UploadBlob`, `DownloadBlob`, `DeleteBlob` and `PinBlob`. Stores
and pins are values that the handlers return changed; neither fails, so the error branches of
`store.contains` and of the pin calls, which need a failing backend, are not taken.

Outside the repository and so parameters here: `blake3` (the hash of a blob's bytes) and `nodeKey`
(the display string of an endpoint id, the key of the ACL map). The locations that a backend's
`provide` adds to the answer of a query are left out.
-/

open Std

namespace Blobs

/-! ## Stores -/

/-- A blob and its size (`s5_core::BlobId`). -/
structure BlobId where
  hash : Hash
  size : Nat
  deriving DecidableEq

/-- The blobs of a `BlobStore` by hash: distinct hashes have distinct blob paths. -/
abbrev BlobStore := ExtTreeMap Hash Bytes

namespace BlobStore

variable (blake3 : Bytes → Hash)

/-- `import_stream`: the chunks concatenated, under their hash; a blob that is already there is
left as it is. -/
def importStream (s : BlobStore) (chunks : List Bytes) : BlobStore × BlobId :=
  let content := chunks.flatten
  let id := { hash := blake3 content, size := content.length }
  (if id.hash ∈ s then s else s.insert id.hash content, id)

def contains (s : BlobStore) (h : Hash) : Bool := h ∈ s

def size (s : BlobStore) (h : Hash) : Option Nat := s[h]?.map List.length

def delete (s : BlobStore) (h : Hash) : BlobStore := s.erase h

/-- `read_as_bytes`: at most `maxLen` bytes from `offset` on. -/
def readAsBytes (s : BlobStore) (h : Hash) (offset maxLen : Nat) : Option Bytes :=
  s[h]?.map fun b => (b.drop offset).take maxLen

/-- `list_hashes`. -/
def listHashes (s : BlobStore) : List Hash := s.keys

end BlobStore

/-! ## Requests -/

/-- The ACL of a peer (`PeerConfigBlobs`). -/
structure PeerConfigBlobs where
  readableStores : List String
  storeUploadsIn : Option String
  deriving DecidableEq

structure Query where
  hash : Bytes32
  blinded : Bool

structure QueryResponse where
  exists_ : Bool
  size : Option Nat
  actualHash : Option Hash
  deriving DecidableEq

structure UploadBlob where
  expectedHash : Bytes32
  size : UInt64

structure DownloadBlob where
  hash : Bytes32
  offset : UInt64
  maxLen : Option UInt64

structure DeleteBlob where
  hash : Bytes32

structure PinBlob where
  hash : Bytes32

/-- A request; an upload carries the chunks the client streams. -/
inductive RpcMessage where
  | query (req : Query)
  | uploadBlob (req : UploadBlob) (chunks : List Bytes)
  | downloadBlob (req : DownloadBlob)
  | deleteBlob (req : DeleteBlob)
  | pinBlob (req : PinBlob)

inductive Reply where
  | query (resp : QueryResponse)
  | upload (res : Except String Unit)
  | download (chunks : List Bytes)
  | delete (res : Except String Bool)
  | pin (res : Except String Bool)

/-! ## The server -/

structure BlobsServer where
  stores : ExtTreeMap String BlobStore
  peerCfg : ExtTreeMap String PeerConfigBlobs
  pinner : Option Pins

namespace BlobsServer

/-- The ACL of a peer: its own entry, else the wildcard's. -/
def cfgFor (srv : BlobsServer) (nodeKey : String) : Option PeerConfigBlobs :=
  srv.peerCfg[nodeKey]? <|> srv.peerCfg["*"]?

/-- Writes back a store under its name. -/
def setStore (srv : BlobsServer) (name : String) (s : BlobStore) : BlobsServer :=
  { srv with stores := srv.stores.insert name s }

end BlobsServer

section
variable (blake3 : Bytes → Hash) (srv : BlobsServer) (node : NodeId) (cfg : Option PeerConfigBlobs)

def handlePin (req : PinBlob) : BlobsServer × Except String Bool :=
  match cfg with
  | none => (srv, .error "permission denied")
  | some cfg =>
    match cfg.storeUploadsIn with
    | none => (srv, .error "uploads (pinning) not allowed")
    | some storeName =>
      match srv.stores[storeName]? with
      | none => (srv, .error "invalid upload store")
      | some store =>
        if store.contains req.hash then
          ({ srv with pinner := srv.pinner.map (·.pinHash req.hash (.nodeId node)) }, .ok true)
        else (srv, .ok false)

/-- The first hash of the store whose own hash is the blinded one. -/
def findBlobByBlindedHash (hashBytes : Bytes32 → Hash) (store : BlobStore) (blinded : Bytes32) :
    Option Hash :=
  store.listHashes.find? fun h => hashBytes h = blinded

/-- `handle_query`; `hashBytes` is `blake3` of the 32 bytes of a hash. -/
def handleQuery (hashBytes : Bytes32 → Hash) (query : Query) : QueryResponse :=
  match cfg with
  | none => ⟨false, none, none⟩
  | some cfg =>
    let readable := cfg.readableStores.filterMap (srv.stores[·]?)
    if query.blinded then
      match readable.findSome? fun s =>
          (findBlobByBlindedHash hashBytes s query.hash).map (s, ·) with
      | none => ⟨false, none, none⟩
      | some (s, h) => ⟨true, s.size h, some h⟩
    else
      let holding := readable.filter (·.contains query.hash)
      ⟨!holding.isEmpty, holding.findSome? (·.size query.hash), none⟩

def handleUpload (req : UploadBlob) (chunks : List Bytes) : BlobsServer × Except String Unit :=
  match cfg with
  | none => (srv, .error "permission denied")
  | some cfg =>
    match cfg.storeUploadsIn with
    | none => (srv, .error "uploads not allowed")
    | some storeName =>
      match srv.stores[storeName]? with
      | none => (srv, .error "invalid upload store")
      | some store =>
        let (store, got) := store.importStream blake3 chunks
        if got.hash ≠ req.expectedHash ∨ got.size ≠ req.size.toNat then
          -- the cleanup does not ask whether the blob was there before the upload
          (srv.setStore storeName (store.delete got.hash), .error "hash/size mismatch")
        else
          ({ srv.setStore storeName store with
              pinner := srv.pinner.map (·.pinHash got.hash (.nodeId node)) }, .ok ())

/-- The chunk size of a download. -/
def chunkSize : Nat := 64 * 1024

/-- The download loop: reads of at most `chunkSize` until `toSend` bytes are sent. -/
def sendChunks (store : BlobStore) (h : Hash) (offset toSend : Nat) : Nat → Nat → List Bytes
  | 0, _ => []
  | fuel + 1, sent =>
    if sent < toSend then
      match store.readAsBytes h (offset + sent) (min chunkSize (toSend - sent)) with
      | none => []
      | some bytes =>
        if bytes.isEmpty then []
        else bytes :: sendChunks store h offset toSend fuel (sent + bytes.length)
    else []

/-- `handle_download`: every read sends at least one byte, so `toSend` reads are enough. -/
def handleDownload (req : DownloadBlob) : List Bytes :=
  match cfg with
  | none => []
  | some cfg =>
    if srv.pinner.any (!·.isPinned req.hash (.nodeId node)) then []
    else
      match (cfg.readableStores.filterMap (srv.stores[·]?)).find? (·.contains req.hash) with
      | none => []
      | some store =>
        match store.size req.hash with
        | none => []
        | some size =>
          if req.offset.toNat > size then []
          else
            let toSend := match req.maxLen with
              | some m => min m.toNat (size - req.offset.toNat)
              | none => size - req.offset.toNat
            sendChunks store req.hash req.offset.toNat toSend (toSend + 1) 0

def handleDelete (req : DeleteBlob) : BlobsServer × Except String Bool :=
  match cfg with
  | none => (srv, .error "permission denied")
  | some cfg =>
    if cfg.storeUploadsIn.isNone then (srv, .error "delete not allowed")
    else
      match srv.pinner with
      | none => (srv, .error "pinning not enabled")
      | some pinner =>
        let (pinner, orphaned) := pinner.unpinHash req.hash (.nodeId node)
        if orphaned then
          ({ srv with
              stores := srv.stores.map fun _ s => s.delete req.hash
              pinner := some pinner }, .ok true)
        else ({ srv with pinner := some pinner }, .ok false)

end

/-- One request of a peer, handled to completion (`BlobsServer::accept`). -/
def serve (blake3 : Bytes → Hash) (hashBytes : Bytes32 → Hash) (nodeKey : NodeId → String)
    (srv : BlobsServer) (node : NodeId) (msg : RpcMessage) : BlobsServer × Reply :=
  let cfg := srv.cfgFor (nodeKey node)
  match msg with
  | .query req => (srv, .query (handleQuery srv cfg hashBytes req))
  | .uploadBlob req chunks =>
    let (srv, res) := handleUpload blake3 srv node cfg req chunks
    (srv, .upload res)
  | .downloadBlob req => (srv, .download (handleDownload srv node cfg req))
  | .deleteBlob req =>
    let (srv, res) := handleDelete srv node cfg req
    (srv, .delete res)
  | .pinBlob req =>
    let (srv, res) := handlePin srv node cfg req
    (srv, .pin res)

end Blobs
