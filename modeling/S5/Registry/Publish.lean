import S5.Registry.Api

/-!
# Publishing the head of a directory

What `DirActor::save` does at a `RegistryKey` link with a signing key once the directory is in the
blob store (`s5_fs/src/actor/persistence.rs`): it signs the hash under the revision after the
current one and sets the entry. The build does not check for overflow, so the revision wraps.

`sign` stands for Ed25519 signing, which lies outside the repository.
-/

namespace Registry

/-- The bytes a registry entry is signed over. -/
def signBytes (key : StreamKey) (revision : UInt64) (hash : Hash) : Bytes :=
  MessageType.registry.toByte :: key.toBytes.1 ::
    (key.toBytes.2 ++ (putU64 revision ++ (0x21 :: Bytes32.toBytes hash)))

/-- `current.as_ref().map_or(0, |entry| entry.revision + 1)`. -/
def nextRevision (current : Option StreamMessage) : UInt64 :=
  current.elim 0 fun entry => entry.revision + 1

section
variable {ρ : Type} [RegistryApi ρ] (sign : Bytes32 → Bytes → Vector UInt8 64)

/-- The entry that publishes `hash`. -/
def newEntry (publicKey : StreamKey) (signingKey : Bytes32) (current : Option StreamMessage)
    (hash : Hash) : Except StreamMessageError StreamMessage :=
  let revision := nextRevision current
  let signature := sign signingKey (signBytes publicKey revision hash)
  StreamMessage.new .registry publicKey revision hash signature.toList none

def publish (r : ρ) (publicKey : StreamKey) (signingKey : Bytes32) (hash : Hash) : ρ × Answer :=
  match RegistryApi.get r publicKey with
  | .error e => (r, .error e)
  | .ok current =>
    match newEntry sign publicKey signingKey current hash with
    | .error e => (r, .error e.display)
    | .ok entry => RegistryApi.set r entry

end

end Registry
