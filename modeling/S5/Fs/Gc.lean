import S5.Blobs.Listing

/-!
# Garbage collection

`gc_store` (`s5_fs/src/gc.rs`), by a set of hashes in use and the pins. Stores and pins do not fail, so
a report has no delete errors.
-/

open Blobs

namespace Gc

structure GcReport where
  total : Nat
  keptByPins : Nat
  keptByReachability : Nat
  deleted : Nat
  candidates : List Hash

def GcReport.default : GcReport := ⟨0, 0, 0, 0, []⟩

section
variable (env : BlobEncoding) (reachable : Finset Hash) (pins : Pins) (dryRun : Bool)

/-- What is done about one blob of the list. -/
def gcBlob (s : BlobFiles × GcReport) (h : Hash) : BlobFiles × GcReport :=
  let (blobStore, report) := s
  let report := { report with total := report.total + 1 }
  if pins.pinners h ≠ ∅ then
    (blobStore, { report with keptByPins := report.keptByPins + 1 })
  else if h ∈ reachable then
    (blobStore, { report with keptByReachability := report.keptByReachability + 1 })
  else
    let report := { report with candidates := report.candidates ++ [h] }
    if dryRun then (blobStore, report)
    else (blobStore.delete env h, { report with deleted := report.deleted + 1 })

variable {env} (codec : PathDecoding env)

/-- `gc_store`, of the paths that the store lists. -/
def gcStore (blobStore : BlobFiles) (paths : List String) :
    Except IoErrorKind (BlobFiles × GcReport) :=
  match listHashes codec blobStore.store.features paths with
  | .error e => .error e
  | .ok allHashes =>
    .ok (allHashes.foldl (gcBlob env reachable pins dryRun) (blobStore, .default))

end

end Gc
