import S5.Blobs.Server
import S5.Core.Store
import S5.Lib.Checked

/-!
# Downloads in the numbers of the wire

`handle_download` (`s5_blobs/src/net_protocol.rs`) with its 64-bit arithmetic, which panics on
overflow, over stores that answer a read with fewer bytes than it asks for. `full` is the store that
answers with all of them, as a `MemoryStore` does; what is sent is received.
-/

open Std

namespace Blobs

/-- The reads of a store, by how many came before. A read of a range that is not empty gives a prefix
of it that is not empty. -/
structure ShortReads (s : BlobStore) where
  read : Nat → Hash → UInt64 → UInt64 → Option Bytes
  read_spec : ∀ n h (b : Bytes) offset len, s[h]? = some b →
    Store.slice b offset (some len) ≠ [] → ∃ bytes, read n h offset len = some bytes ∧ bytes ≠ [] ∧
      bytes <+: Store.slice b offset (some len)

/-- Every read gives its whole range. -/
def ShortReads.full (s : BlobStore) : ShortReads s where
  read _ h offset len := s[h]?.map fun b => Store.slice b offset (some len)
  read_spec _ h b offset len hb hne := ⟨_, by rw [hb]; rfl, hne, List.prefix_rfl⟩

/-- The sizes of the blobs are 64-bit numbers. -/
def BlobsServer.Sized (srv : BlobsServer) : Prop :=
  ∀ (name : String) (s : BlobStore), srv.stores[name]? = some s →
    ∀ (h : Hash) (b : Bytes), s[h]? = some b → b.length < 2 ^ 64

/-- How a download does not come to its end. -/
inductive Fault where
  | overflow
  | outOfFuel
  deriving DecidableEq

/-- A result of `Checked` arithmetic. -/
def checked : Option UInt64 → Except Fault UInt64
  | some x => .ok x
  | none => .error .overflow

/-- `CHUNK_SIZE as u64`. -/
def chunkSize64 : UInt64 := 64 * 1024

section
variable {s : BlobStore} (reads : ShortReads s) (h : Hash) (offset toSend : UInt64)

/-- The loop of a download. -/
def sendLoop : Nat → Nat → UInt64 → Except Fault (List Bytes)
  | 0, _, _ => .error .outOfFuel
  | fuel + 1, n, sent =>
    if sent < toSend then do
      let left ← checked (Checked.sub toSend sent)
      let position ← checked (Checked.add offset sent)
      match reads.read n h position (min chunkSize64 left) with
      | none => .ok []
      | some [] => .ok []
      | some bytes =>
        let sent ← checked (Checked.add sent (.ofNat bytes.length))
        let rest ← sendLoop fuel (n + 1) sent
        .ok (bytes :: rest)
    else .ok []

end

/-- `handle_download`. -/
def download (reads : ∀ s : BlobStore, ShortReads s) (srv : BlobsServer) (node : NodeId)
    (cfg : Option PeerConfigBlobs) (req : DownloadBlob) (fuel : Nat) : Except Fault (List Bytes) :=
  match cfg with
  | none => .ok []
  | some cfg =>
    if srv.pinner.any (!·.isPinned req.hash (.nodeId node)) then .ok []
    else
      match (cfg.readableStores.filterMap (srv.stores[·]?)).find? (·.contains req.hash) with
      | none => .ok []
      | some store =>
        match store.size req.hash with
        | none => .ok []
        | some size =>
          let size : UInt64 := .ofNat size
          if req.offset > size then .ok []
          else do
            let rest ← checked (Checked.sub size req.offset)
            let toSend := req.maxLen.elim rest (min · rest)
            sendLoop (reads store) req.hash req.offset toSend fuel 0 0

end Blobs
