import S5.Fs.Api

/-!
# Synchronisation

`push_snapshot` and `pull_snapshot` of `s5_node/src/sync.rs`: a plaintext file system is merged into
an encrypted one that lives in the registry, and from there into the plaintext file system of
another node.
-/

namespace Node

open Fs

variable {β : Type} [DecidableEq β] (env : Env β)

/-- Merges a snapshot into a file system and saves it. -/
def mergeAndSave (fs : FS5 β) (snapshot : DirV1) : FS5 β × Except String Unit :=
  match fs.mergeFromSnapshot env snapshot with
  | (fs, .error e) => (fs, .error e)
  | (fs, .ok ()) => fs.save env

def pushSnapshot (plaintext encrypted : FS5 β) : FS5 β × Except String Unit :=
  mergeAndSave env encrypted plaintext.exportSnapshot

def pullSnapshot (encrypted plaintext : FS5 β) : FS5 β × Except String Unit :=
  mergeAndSave env plaintext encrypted.exportSnapshot

/-- The keys two nodes share: the public key of the registry stream, the key that signs it and the
key its blobs are encrypted with. -/
structure SyncKeys where
  publicKey : Bytes32
  signingKey : Bytes32
  encryptionKey : Bytes32

/-- The context under which a node opens the encrypted file system. -/
def SyncKeys.context (keys : SyncKeys) : DirContext Unit :=
  .newEncryptedRegistry keys.publicKey keys.signingKey keys.encryptionKey

/-- The file system after a call, if the call went well. -/
def completed : FS5 β × Except String Unit → Except String (FS5 β)
  | (fs, .ok ()) => .ok fs
  | (_, .error e) => .error e

/-- One file system carried to another node: a push into the encrypted file system in `cloud`, and a
pull from there, by a node that opens it anew, into an empty local root. -/
def sync (keys : SyncKeys) (cloud : World β) (tick : Nat) (source : FS5 β) :
    Except String (World β × FS5 β) := do
  let encrypted ← FS5.openRoot env keys.context cloud
  let encrypted ← completed (pushSnapshot env source encrypted)
  let reopened ← FS5.openRoot env keys.context encrypted.world
  let plaintext ← FS5.openRoot env .localRoot (FS5.newLocalWorld env tick)
  let plaintext ← completed (pullSnapshot env reopened plaintext)
  return (encrypted.world, plaintext)

end Node
