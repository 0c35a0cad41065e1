import S5.Blobs.Import

/-!
# Concurrent imports

`import_bytes`, `import_stream` and `import_file` (`s5_core/src/blob/import.rs`) as sequences of calls of
the store, each of which is one step. Any number of imports run at the same time in one blob store
(`Imports`), and blobs are deleted meanwhile; an event begins an import, lets one take its next step, or
deletes a blob.
-/

namespace Blobs

variable (env : BlobEncoding)

/-- What is imported. -/
inductive ImportSource where
  | bytes (bytes : Bytes)
  | stream (chunks : List Bytes)
  | file (chunks : List Bytes)

/-- The data of an import. -/
def ImportSource.data : ImportSource → Bytes
  | bytes data => data
  | stream chunks => chunks.flatten
  | file chunks => chunks.flatten

/-- How far an import has come. -/
inductive ImportPhase where
  | start
  /-- `import_bytes`, before it looks for the blob. -/
  | look (hash : Hash) (obao : Option Bytes)
  /-- `import_bytes` of a blob that was not there. -/
  | put (hash : Hash) (obao : Option Bytes)
  /-- `import_stream`, before it asks for the size of the temporary object. -/
  | measure (hash : Hash)
  /-- `import_stream`, before it reads the temporary object. -/
  | reread (hash : Hash) (size : Nat)
  /-- The start of `finalize_import`. -/
  | finalize (hash : Hash) (size : Nat) (outboard : Option Bytes)
  /-- The outboard data are stored. -/
  | check (hash : Hash) (size : Nat)
  /-- The blob was not there. -/
  | move (hash : Hash) (size : Nat)
  /-- The temporary object has been opened to be copied. -/
  | copy (hash : Hash) (size : Nat) (chunks : List Bytes)
  /-- The temporary object is not needed any more. -/
  | discard (hash : Hash) (size : Nat)
  | finished (res : Except String BlobId)

/-- A call; `uuid` names its temporary object. -/
structure Import where
  uuid : String
  source : ImportSource
  phase : ImportPhase

namespace Import

def tempPath (c : Import) : String := Store.tempPath c.uuid

/-- The first step. -/
def begin (b : BlobFiles) (c : Import) : BlobFiles × ImportPhase :=
  match c.source with
  | .bytes bytes =>
    let (hash, obao) :=
      if b.hasOutboard ∧ BlobFiles.outboardThreshold ≤ bytes.length then env.computeOutboard bytes
      else (env.blake3 bytes, none)
    (b.putOutboard env hash obao, .look hash obao)
  | .stream chunks =>
    let (tee, written) := (TeeStream.new chunks).collect (chunks.length + 1)
    ({ b with store := b.store.putStream c.tempPath written }, .measure (env.blake3 tee.hashed))
  | .file chunks =>
    let (tee, written) := (TeeStream.new chunks).collect (chunks.length + 1)
    let (hash, outboard) :=
      if b.hasOutboard then env.computeOutboard tee.hashed else (env.blake3 tee.hashed, none)
    ({ b with store := b.store.putStream c.tempPath written },
      .finalize hash chunks.flatten.length outboard)

/-- The next call of the store. -/
def step (b : BlobFiles) (c : Import) : BlobFiles × ImportPhase :=
  match c.phase with
  | .start => c.begin env b
  | .look hash obao =>
    if b.store.contains (blobPath env hash b.store.features) then
      (b, .finished (.ok ⟨hash, c.source.data.length⟩))
    else (b, .put hash obao)
  | .put hash obao =>
    if b.store.features.supportsRename then
      ({ b with store := b.store.putStream c.tempPath [c.source.data] },
        .finalize hash c.source.data.length obao)
    else
      ({ b with store := b.store.putBytes (blobPath env hash b.store.features) c.source.data },
        .finished (.ok ⟨hash, c.source.data.length⟩))
  | .measure hash =>
    match b.store.size c.tempPath with
    | .error e => (b, .finished (.error e))
    | .ok size => (b, .reread hash size)
  | .reread hash size =>
    match b.computeFromStore env c.tempPath hash with
    | .error e => (b, .finished (.error e))
    | .ok outboard => (b, .finalize hash size outboard)
  | .finalize hash size outboard => (b.putOutboard env hash outboard, .check hash size)
  | .check hash size =>
    if b.store.contains (blobPath env hash b.store.features) then (b, .discard hash size)
    else (b, .move hash size)
  | .move hash size =>
    if b.store.features.supportsRename then
      match b.store.rename c.tempPath (blobPath env hash b.store.features) with
      | .error e => (b, .finished (.error e))
      | .ok store => ({ b with store }, .finished (.ok ⟨hash, size⟩))
    else
      match b.store.openReadStream c.tempPath 0 none with
      | .error e => (b, .finished (.error e))
      | .ok chunks => (b, .copy hash size chunks)
  | .copy hash size chunks =>
    ({ b with store := b.store.putStream (blobPath env hash b.store.features) chunks },
      .discard hash size)
  | .discard hash size =>
    ({ b with store := b.store.delete c.tempPath }, .finished (.ok ⟨hash, size⟩))
  | .finished res => (b, .finished res)

/-- The first steps of an import that runs alone. -/
def alone (b : BlobFiles) (c : Import) : Nat → BlobFiles × ImportPhase
  | 0 => (b, c.phase)
  | steps + 1 => alone (c.step env b).1 { c with phase := (c.step env b).2 } steps

end Import

/-- A blob store with the imports that have been begun. -/
structure Imports where
  files : BlobFiles
  calls : List Import

inductive ImportEvent where
  | begin (uuid : String) (source : ImportSource)
  /-- The import of this number takes a step. -/
  | run (i : Nat)
  | delete (hash : Hash)

namespace Imports

/-- No import has been begun. -/
def idle (b : BlobFiles) : Imports := ⟨b, []⟩

def step (s : Imports) : ImportEvent → Imports
  | .begin uuid source => { s with calls := s.calls ++ [⟨uuid, source, .start⟩] }
  | .run i =>
    match s.calls[i]? with
    | none => s
    | some c =>
      match c.step env s.files with
      | (files, phase) => ⟨files, s.calls.set i { c with phase }⟩
  | .delete hash => { s with files := s.files.delete env hash }

end Imports

end Blobs
