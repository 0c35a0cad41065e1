import S5.Blobs.Server
import S5.Core.Stream
import S5.Fs.Path

/-!
# Fetching blobs

The client side of blob downloads: `Client::download_bytes`, `Client::blob_download`
(`s5_blobs/src/client.rs`), `RemoteBlobStore::open_read_bytes` (`s5_blobs/src/store_remote.rs`) and
`MultiFetcher` (`s5_blobs/src/multi_fetcher.rs`). A `Client` is what the server at the other end
answers, whatever it is; `Client.connected` is a client of a `BlobsServer`.

The base64 engine of the blob paths lies outside the repository (`Base64`).
-/

open Std

namespace Blobs

/-! ## The client -/

/-- The chunks a server streams, and how the stream ends. -/
structure ChunkStream where
  chunks : List Bytes
  error : Option String

/-- What the server of a connection answers. -/
structure Client where
  query : Query → Except String QueryResponse
  download : DownloadBlob → Except String ChunkStream

/-- A client with the endpoint id `node` of an honest server. -/
def Client.connected (hashBytes : Bytes32 → Hash) (nodeKey : NodeId → String) (srv : BlobsServer)
    (node : NodeId) : Client where
  query q := .ok (handleQuery srv (srv.cfgFor (nodeKey node)) hashBytes q)
  download req := .ok ⟨handleDownload srv node (srv.cfgFor (nodeKey node)) req, none⟩

/-- The loop over `receiver.recv()`. -/
def receive (failed : String → String) (buffer : Bytes) : List Bytes → Option String →
    Except String Bytes
  | chunk :: chunks, error => receive failed (buffer ++ chunk) chunks error
  | [], none => .ok buffer
  | [], some err => .error (failed err)

namespace Client

variable (client : Client)

def downloadBytes (hash : Hash) (offset : UInt64) (maxLen : Option UInt64) : Except String Bytes :=
  match client.download ⟨hash, offset, maxLen⟩ with
  | .error e => .error s!"download failed: {e}"
  | .ok receiver =>
    receive (fun err => s!"download stream failed: {err}") [] receiver.chunks receiver.error

def blobDownloadSlice (hash : Hash) (offset : UInt64) (maxLen : Option UInt64) :
    Except String Bytes :=
  match client.download ⟨hash, offset, maxLen⟩ with
  | .error e => .error e
  | .ok receiver =>
    receive (fun err => s!"download failed: {err}") [] receiver.chunks receiver.error

def blobDownload (hash : Hash) : Except String Bytes := client.blobDownloadSlice hash 0 none

end Client

/-! ## The remote store -/

/-- `URL_SAFE_NO_PAD`, with the texts of its errors: decoding undoes encoding, and no letter of the
alphabet is a slash. -/
structure Base64 where
  encode : Bytes → String
  decode : String → Except String Bytes
  decode_encode : ∀ bytes, decode (encode bytes) = .ok bytes
  slash_free : ∀ bytes, '/' ∉ (encode bytes).toList

variable (base64 : Base64)

/-- `blob_path_for_hash` with the features of a `RemoteBlobStore`. -/
def blobPathForHash (hash : Hash) : String := "blob3/" ++ base64.encode (Bytes32.toBytes hash)

def hashFromPath (path : String) : Except String Hash :=
  let relevant := match Fs.splitOnce path with
    | some (head, rest) => if head.endsWith "blob3" || head.endsWith "obao6" then rest else path
    | none => path
  let b64 := String.ofList (relevant.toList.filter (· ≠ '/'))
  match base64.decode b64 with
  | .error err => .error s!"invalid blob path '{path}': {err}"
  | .ok bytes =>
    if bytes.length ≠ 32 then
      .error s!"invalid blob path '{path}': expected 32-byte hash, got {bytes.length}"
    else .ok (Bytes32.ofBytes bytes)

/-- `RemoteBlobStore::open_read_bytes`. -/
def openReadBytes (client : Client) (path : String) (offset : UInt64) (maxLen : Option UInt64) :
    Except String Bytes :=
  match hashFromPath base64 path with
  | .error e => .error e
  | .ok hash => client.blobDownloadSlice hash offset maxLen

/-! ## The fetcher -/

structure FetchError where
  sourceName : String
  reason : String
  deriving DecidableEq

inductive FetchResult where
  | ok (bytes : Bytes)
  | notFound
  | allFailed (errors : List FetchError)
  deriving DecidableEq

/-- The answers of a blob store on the local node. -/
structure LocalSource where
  contains : Hash → Except String Bool
  readAsBytes : Hash → Except String Bytes

/-- A store that does not fail. -/
def LocalSource.ofStore (store : BlobStore) : LocalSource where
  contains h := .ok (store.contains h)
  readAsBytes h := match store[h]? with
    | some b => .ok b
    | none => .error "not found"

inductive BlobSource where
  | localStore (name : String) (store : LocalSource)
  | remote (name : String) (client : Client)

/-- `try_fetch_from`. -/
def tryFetchFrom (source : BlobSource) (hash : Hash) : Except FetchError (Option Bytes) :=
  match source with
  | .localStore name store =>
    match store.contains hash with
    | .error e => .error ⟨name, s!"contains check failed: {e}"⟩
    | .ok false => .ok none
    | .ok true =>
      match store.readAsBytes hash with
      | .ok bytes => .ok (some bytes)
      | .error e => .error ⟨name, s!"read failed: {e}"⟩
  | .remote name client =>
    match client.query ⟨hash, false⟩ with
    | .error e => .error ⟨name, s!"query failed: {e}"⟩
    | .ok queryResult =>
      if !queryResult.exists_ then .ok none
      else
        match client.downloadBytes hash 0 none with
        | .ok bytes => .ok (some bytes)
        | .error e => .error ⟨name, s!"download failed: {e}"⟩

/-- The loop of `MultiFetcher::fetch`. -/
def fetchFrom (hash : Hash) (errors : List FetchError) : List BlobSource → FetchResult
  | [] => if errors.isEmpty then .notFound else .allFailed errors
  | source :: sources =>
    match tryFetchFrom source hash with
    | .ok (some bytes) => .ok bytes
    | .ok none => fetchFrom hash errors sources
    | .error e => fetchFrom hash (errors ++ [e]) sources

/-- `MultiFetcher::fetch`. -/
def fetch (sources : List BlobSource) (hash : Hash) : FetchResult := fetchFrom hash [] sources

/-- `MultiFetcher::fetch_to_store`. -/
def fetchToStore (blake3 : Bytes → Hash) (sources : List BlobSource) (hash : Hash)
    (dest : BlobStore) : BlobStore × Except String Unit :=
  if dest.contains hash then (dest, .ok ())
  else
    match fetch sources hash with
    | .ok bytes => ((dest.importStream blake3 [bytes]).1, .ok ())
    | .notFound => (dest, .error "blob not found in any source")
    | .allFailed errors =>
      let msgs := String.intercalate ", " (errors.map (·.reason))
      (dest, .error s!"all sources failed: {msgs}")

end Blobs
