import S5.Fs.Dir
import Mathlib.Data.List.Basic

/-!
# Contexts, storage and the directory codec

`DirContext` (`s5_fs/src/context.rs`), what a directory actor reads and writes outside itself, and
the encoding and decoding of snapshots under a context (`s5_fs/src/actor/persistence.rs`).

`Env` holds what lies outside the repository: the CBOR codec, BLAKE3, XChaCha20-Poly1305, XXH3, the
random generator, the clock and the failures of the blob store. Byte strings are values of a type
`β` about which only these functions know. The answers that differ from call to call are indexed
by a counter in `World`.
-/

open Std

namespace Fs

/-- An XChaCha20-Poly1305 nonce. -/
abbrev Nonce := BitVec 192

structure Env (β : Type) where
  /-- `DirV1::to_bytes`. -/
  toBytes : DirV1 → β
  /-- `DirV1::from_bytes`. -/
  fromBytes : β → Option DirV1
  len : β → Nat
  blake3 : β → Hash
  /-- `encrypt_dir_bytes`: the nonce, then the ciphertext. -/
  encrypt : Bytes32 → Nonce → β → β
  /-- `decrypt_dir_bytes` with a key. -/
  decrypt : Bytes32 → β → Option β
  /-- `xxh3_64` of the bytes of a name. -/
  xxh3_64 : String → UInt64
  /-- 32 bytes from `OsRng`. -/
  random : Nat → Bytes32
  nonce : Nat → Nonce
  /-- `Utc::now()`: its `timestamp() as u32` and `timestamp_subsec_nanos()`. -/
  utcNow : Nat → UInt32 × UInt32
  /-- `DateTime::to_rfc3339` of such a time. -/
  rfc3339 : UInt32 × UInt32 → String
  /-- Whether a write to the meta blob store fails. -/
  storeFails : Nat → Bool

/-- The codec and the cipher undo themselves. -/
structure Env.Lawful {β : Type} (env : Env β) : Prop where
  fromBytes_toBytes : ∀ d, env.fromBytes (env.toBytes d) = some d
  decrypt_encrypt : ∀ key nonce b, env.decrypt key (env.encrypt key nonce b) = some b

/-- What the actors read of a registry entry. -/
structure RegistryEntry where
  revision : UInt64
  hash : Hash
  deriving DecidableEq

/-- `self > existing` of the entry's message. -/
def RegistryEntry.beats (entry existing : RegistryEntry) : Bool :=
  existing.revision < entry.revision ||
    (existing.revision = entry.revision && entry.hash < existing.hash)

/-- What the directory actors of one file system share. -/
structure World (β : Type) where
  /-- The meta blob store. -/
  store : ExtTreeMap Hash β
  /-- `root.fs5.cbor`. -/
  rootFile : Option β
  registry : ExtTreeMap Bytes32 RegistryEntry
  /-- How often the outside has been asked. -/
  tick : Nat
  /-- Whether an import has met other bytes under its hash, a BLAKE3 collision. -/
  collided : Bool

section
variable {β : Type} [DecidableEq β] (env : Env β)

def World.next (w : World β) : World β := { w with tick := w.tick + 1 }

/-- `BlobStore::import_bytes`: the bytes go under their hash; a blob that is there stays. -/
def World.importBytes (w : World β) (b : β) : World β × Except String Hash :=
  let h := env.blake3 b
  if env.storeFails w.tick then (w.next, .error "store write failed")
  else
    match w.store[h]? with
    | some b' => ({ w.next with collided := w.collided || b' ≠ b }, .ok h)
    | none => ({ w.next with store := w.store.insert h b }, .ok h)

/-- `RegistryApi::set`: an entry that the new one does not beat stays. -/
def World.setRegistry (w : World β) (key : Bytes32) (entry : RegistryEntry) : World β :=
  if w.registry[key]?.all entry.beats then { w with registry := w.registry.insert key entry } else w

/-- `BlobStore::read_as_bytes` of a whole blob. -/
def World.readAsBytes (w : World β) (h : Hash) : Except String β :=
  match w.store[h]? with
  | some b => .ok b
  | none => .error "while reading from blob store"

end

/-! ## Contexts -/

inductive DirHandlePath where
  | path (name : String)
  | shard (index : UInt8)
  deriving DecidableEq

/-- How a directory hangs on its parent; `ι` is the type of handles. -/
inductive DirContextParentLink (ι : Type) where
  | registryKey (publicKey : Bytes32) (signingKey : Option Bytes32)
  | localFile
  | dirHandle (path : DirHandlePath) (handle : ι) (initialHash : Bytes32) (shardLevel : UInt8)

structure DirContext (ι : Type) where
  link : DirContextParentLink ι
  encryptionType : Option UInt8
  keys : ExtTreeMap UInt8 Bytes32
  signingKey : Option Bytes32

section
variable {ι : Type}

/-- The context of the local root (`open_local_root`). -/
def DirContext.localRoot : DirContext ι := ⟨.localFile, none, ∅, none⟩

/-- The context of an encrypted registry root (`new_encrypted_registry`). -/
def DirContext.newEncryptedRegistry (streamKey signingKey encryptionKey : Bytes32) :
    DirContext ι where
  link := .registryKey streamKey (some signingKey)
  encryptionType := some encryptionTypeXChaCha20Poly1305
  keys := (∅ : ExtTreeMap UInt8 Bytes32).insert keySlot encryptionKey
  signingKey := some signingKey

/-- The context of a child directory: encryption and keys are inherited, those of `dirRef` come
first. -/
def DirContext.withNewRef (ctx : DirContext ι) (dirRef : DirRef) (link : DirContextParentLink ι) :
    DirContext ι where
  link := link
  encryptionType := dirRef.encryptionType.or ctx.encryptionType
  keys := dirRef.keys.elim ctx.keys (ctx.keys ∪ ·)
  signingKey := match link with
    | .registryKey _ signingKey => signingKey
    | _ => ctx.signingKey

/-! ## Snapshots as bytes -/

variable {β : Type} (env : Env β)

def decryptIfNeeded (ctx : DirContext ι) (b : β) : Except String β :=
  match ctx.encryptionType with
  | none => .ok b
  | some t =>
    if t = encryptionTypeXChaCha20Poly1305 then
      match ctx.keys[keySlot]? with
      | none => .error "missing encryption key 0x0e for XChaCha20-Poly1305"
      | some key =>
        match env.decrypt key b with
        | some plain => .ok plain
        | none => .error "Failed to decrypt directory"
    else .error s!"encryption type {t} not supported"

/-- The bytes a directory is saved as. -/
def encodeStateBytes (ctx : DirContext ι) (state : DirV1) (w : World β) :
    World β × Except String β :=
  let plain := env.toBytes state
  match ctx.encryptionType with
  | none => (w, .ok plain)
  | some t =>
    if t = encryptionTypeXChaCha20Poly1305 then
      match ctx.keys[keySlot]? with
      | none => (w, .error "missing encryption key 0x0e for XChaCha20-Poly1305")
      | some key => (w.next, .ok (env.encrypt key (env.nonce w.tick) plain))
    else (w, .error s!"encryption type {t} not supported")

/-- The bytes of a new child directory, under a key of its own if the context is encrypted. -/
def encodeChildDirBytes (ctx : DirContext ι) (state : DirV1) (w : World β) :
    World β × β × Option (ExtTreeMap UInt8 Bytes32) :=
  let plain := env.toBytes state
  if ctx.encryptionType.isSome then
    let key := env.random w.tick
    (w.next, env.encrypt key (env.nonce w.tick) plain,
      some ((∅ : ExtTreeMap UInt8 Bytes32).insert keySlot key))
  else (w, plain, none)

/-- `DirV1::from_bytes`, with the length of what is decoded. -/
def decodeDir (b : β) : Except String (DirV1 × Nat) :=
  match env.fromBytes b with
  | some d => .ok (d, env.len b)
  | none => .error "invalid directory snapshot"

/-- `DirActor::load`: the state of the directory that a context names, and its serialized length.
The local root is read as it is, everything else is decrypted first. -/
def load (ctx : DirContext ι) (w : World β) : Except String (DirV1 × Nat) :=
  match ctx.link with
  | .localFile =>
    match w.rootFile with
    | some b => decodeDir env b
    | none => .error "root file missing"
  | .dirHandle _ _ initialHash _ => do
    let b ← w.readAsBytes initialHash
    let plain ← decryptIfNeeded env ctx b
    decodeDir env plain
  | .registryKey publicKey _ =>
    match w.registry[publicKey]? with
    | some entry => do
      let b ← w.readAsBytes entry.hash
      let plain ← decryptIfNeeded env ctx b
      decodeDir env plain
    | none => .ok (.new, 0)

/-- Writes a state as `DirActor::save` does: to the store and, at a root, to the root file or the
registry. A child keeps its new hash in its link and answers it. -/
def persist [DecidableEq β] (ctx : DirContext ι) (state : DirV1) (w : World β) :
    World β × Except String (DirContext ι × Option Hash) :=
  match encodeStateBytes env ctx state w with
  | (w, .error e) => (w, .error e)
  | (w, .ok b) =>
    match w.importBytes env b with
    | (w, .error e) => (w, .error e)
    | (w, .ok h) =>
      match ctx.link with
      | .localFile => ({ w with rootFile := some b }, .ok (ctx, none))
      | .dirHandle path handle _ shardLevel =>
        (w, .ok ({ ctx with link := .dirHandle path handle h shardLevel }, some h))
      | .registryKey publicKey (some _) =>
        let revision := match w.registry[publicKey]? with
          | some entry => entry.revision + 1
          | none => 0
        (w.setRegistry publicKey ⟨revision, h⟩, .ok (ctx, none))
      | .registryKey _ none => (w, .ok (ctx, none))

end

end Fs
