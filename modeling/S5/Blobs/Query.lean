import S5.Blobs.Listing

/-!
# Queries over the paths of stores

`handle_query` and `find_blob_by_blinded_hash` (`s5_blobs/src/net_protocol.rs`) down to the objects of
the stores: a plain query looks the path of its hash up, a blinded one lists the store and hashes what
it lists. Stores do not fail; the locations of a blob are left out.
-/

namespace Blobs

/-- A store of the server, with what it lists. -/
structure ListedFiles where
  files : BlobFiles
  listing : Listing files.store

namespace ListedFiles

variable {env : BlobEncoding} (codec : PathDecoding env) (s : ListedFiles)

def contains (env : BlobEncoding) (s : ListedFiles) (h : Hash) : Bool :=
  s.files.store.contains (blobPath env h s.files.store.features)

/-- The size of a blob; it is an error to ask for one that is not there. -/
def size (env : BlobEncoding) (s : ListedFiles) (h : Hash) : Option Nat :=
  (s.files.store.size (blobPath env h s.files.store.features)).toOption

/-- The hashes it lists, none if it lists what is not a path. -/
def hashes : List Hash :=
  match listHashes codec s.files.store.features s.listing.paths with
  | .error _ => []
  | .ok hashes => hashes

def findBlobByBlindedHash (hashBytes : Bytes32 → Hash) (blinded : Bytes32) : Option Hash :=
  (s.hashes codec).find? fun h => hashBytes h = blinded

end ListedFiles

section
variable {env : BlobEncoding} (codec : PathDecoding env) (hashBytes : Bytes32 → Hash)

/-- The stores of an ACL. -/
def readableFiles (stores : String → Option ListedFiles) (cfg : PeerConfigBlobs) :
    List ListedFiles :=
  cfg.readableStores.filterMap stores

/-- `handle_query`; `hashBytes` is BLAKE3 of the 32 bytes of a hash. -/
def queryFiles (stores : String → Option ListedFiles) (cfg : Option PeerConfigBlobs)
    (query : Query) : QueryResponse :=
  match cfg with
  | none => ⟨false, none, none⟩
  | some cfg =>
    let readable := readableFiles stores cfg
    if query.blinded then
      -- the first store that has one ends the search
      match readable.findSome? fun s =>
          (s.findBlobByBlindedHash codec hashBytes query.hash).map (s, ·) with
      | none => ⟨false, none, none⟩
      | some (s, h) => ⟨true, s.size env h, some h⟩
    else
      let holding := readable.filter (·.contains env query.hash)
      ⟨!holding.isEmpty, holding.findSome? (·.size env query.hash), none⟩

end

end Blobs
