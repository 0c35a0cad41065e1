import S5.Core.Pins

/-!
# Blob locations

`BlobLocation` (`s5_core/src/blob/location.rs`): where and how a blob can be fetched. Directory
entries carry locations along; of the file system's own code only `FileRef::new_inline_blob` makes
one.
-/

open Std

structure IrohLocation where
  host : Bytes32
  isPartial : Bool
  deriving DecidableEq

structure SiaFileHost where
  hostkey : String
  v2SiamuxAddresses : List String
  ephemeralAccountPrivateKey : Bytes32
  deriving DecidableEq

structure SiaFileSlab where
  slabEncryptionKey : Bytes32
  shardRoots : ExtTreeMap UInt8 Bytes32
  deriving DecidableEq

structure SiaFile where
  size : UInt64
  slabSize : UInt32
  minShards : UInt8
  hosts : ExtTreeMap UInt8 SiaFileHost
  fileEncryptionKey : Bytes32
  slabs : List SiaFileSlab
  deriving DecidableEq

inductive BlobLocation where
  | identityRawBinary (bytes : Bytes)
  | url (url : String)
  | iroh (loc : IrohLocation)
  | siaFile (file : SiaFile)
  | multihashSha1 (hash : BitVec 160)
  | multihashSha2_256 (hash : Bytes32)
  | multihashBlake3 (hash : Bytes32)
  | multihashMd5 (hash : BitVec 128)
  | encryptionXChaCha20Poly1305 (inner : BlobLocation) (key : Bytes32) (blockSize : UInt64)
  | compressionZstd (inner : BlobLocation)
  | compressionBrotli (inner : BlobLocation)
  deriving DecidableEq
