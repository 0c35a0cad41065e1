import S5.Core.Location
import S5.Lib.CborCodec

/-!
# The CBOR format of blob locations

The derived encodings of `BlobLocation` and its payloads (`s5_core/src/blob/location.rs`), with the
field numbers of the source.
-/

open Std Cbor

/-- `[u8; 32]` under `minicbor::bytes`. -/
def Bytes32.codec : Codec Bytes32 := .byteArray 32

/-- `[u8; 32]` without it. -/
def Bytes32.arrayCodec : Codec Bytes32 := .u8Array 32

/-- A record without a `#[cbor]` attribute is an array. -/
def IrohLocation.codec : Codec IrohLocation where
  encode l := .array [Bytes32.arrayCodec.encode l.host, Codec.bool.encode l.isPartial]
  decode item := do
    let fields ← arrayFields item
    let host ← fields.required 0 Bytes32.arrayCodec.decode
    let isPartial ← fields.defaulted 1 Codec.bool.decode false
    return { host, isPartial }
  decode_encode l := by
    simp [arrayFields, Fields.required, Fields.defaulted, Codec.decode_encode]
  encode_ne_null _ := Item.noConfusion

def SiaFileHost.codec : Codec SiaFileHost where
  encode h := .array [Codec.string.encode h.hostkey, Codec.string.vec.encode h.v2SiamuxAddresses,
    Bytes32.codec.encode h.ephemeralAccountPrivateKey]
  decode item := do
    let fields ← arrayFields item
    let hostkey ← fields.required 0 Codec.string.decode
    let v2SiamuxAddresses ← fields.required 1 Codec.string.vec.decode
    let ephemeralAccountPrivateKey ← fields.required 2 Bytes32.codec.decode
    return { hostkey, v2SiamuxAddresses, ephemeralAccountPrivateKey }
  decode_encode h := by
    simp [arrayFields, Fields.required, Codec.decode_encode]
  encode_ne_null _ := Item.noConfusion

def SiaFileSlab.codec : Codec SiaFileSlab where
  encode s := .array [Bytes32.codec.encode s.slabEncryptionKey,
    (Codec.u8.btreeMap Bytes32.arrayCodec).encode s.shardRoots]
  decode item := do
    let fields ← arrayFields item
    let slabEncryptionKey ← fields.required 0 Bytes32.codec.decode
    let shardRoots ← fields.required 1 (Codec.u8.btreeMap Bytes32.arrayCodec).decode
    return { slabEncryptionKey, shardRoots }
  decode_encode s := by
    simp [arrayFields, Fields.required, Codec.decode_encode]
  encode_ne_null _ := Item.noConfusion

def SiaFile.codec : Codec SiaFile where
  encode f := .array [Codec.u64.encode f.size, Codec.u32.encode f.slabSize,
    Codec.u8.encode f.minShards, (Codec.u8.btreeMap SiaFileHost.codec).encode f.hosts,
    Bytes32.codec.encode f.fileEncryptionKey, SiaFileSlab.codec.vec.encode f.slabs]
  decode item := do
    let fields ← arrayFields item
    let size ← fields.required 0 Codec.u64.decode
    let slabSize ← fields.required 1 Codec.u32.decode
    let minShards ← fields.required 2 Codec.u8.decode
    let hosts ← fields.required 3 (Codec.u8.btreeMap SiaFileHost.codec).decode
    let fileEncryptionKey ← fields.required 4 Bytes32.codec.decode
    let slabs ← fields.required 5 SiaFileSlab.codec.vec.decode
    return { size, slabSize, minShards, hosts, fileEncryptionKey, slabs }
  decode_encode f := by
    simp [arrayFields, Fields.required, Codec.decode_encode]
  encode_ne_null _ := Item.noConfusion

namespace BlobLocation

def sha1Codec : Codec (BitVec 160) := .byteArray 20

def md5Codec : Codec (BitVec 128) := .byteArray 16

/-- `#[cbor(flat)]`: each variant has one field, at place 0 behind its index. -/
def encode : BlobLocation → Item
  | .identityRawBinary bytes => .array [.uint 0, Codec.bytes.encode bytes]
  | .url address => .array [.uint 1, Codec.string.encode address]
  | .iroh loc => .array [.uint 4, IrohLocation.codec.encode loc]
  | .siaFile file => .array [.uint 0x41, SiaFile.codec.encode file]
  | .multihashSha1 hash => .array [.uint 0x11, sha1Codec.encode hash]
  | .multihashSha2_256 hash => .array [.uint 0x12, Bytes32.codec.encode hash]
  | .multihashBlake3 hash => .array [.uint 0x1e, Bytes32.codec.encode hash]
  | .multihashMd5 hash => .array [.uint 0xd5, md5Codec.encode hash]
  | .encryptionXChaCha20Poly1305 inner key blockSize => .array [.uint 0xe2,
      .array [inner.encode, Bytes32.codec.encode key, Codec.u64.encode blockSize]]
  | .compressionZstd inner => .array [.uint 0xc2, inner.encode]
  | .compressionBrotli inner => .array [.uint 0xcb, inner.encode]

/-- `EncryptionXChaCha20Poly1305Location`. -/
def decodeEncryption (decodeInner : Item → Option BlobLocation) (item : Item) :
    Option BlobLocation := do
  let fields ← arrayFields item
  let inner ← fields.required 0 decodeInner
  let key ← fields.required 1 Bytes32.codec.decode
  let blockSize ← fields.required 2 Codec.u64.decode
  return encryptionXChaCha20Poly1305 inner key blockSize

/-- One level of a location, by its variant's index. -/
def decodeStep (decodeInner : Item → Option BlobLocation) (item : Item) : Option BlobLocation := do
  let (index, fields) ← flatFields item
  match index with
  | 0 => identityRawBinary <$> fields.required 0 Codec.bytes.decode
  | 1 => url <$> fields.required 0 Codec.string.decode
  | 4 => iroh <$> fields.required 0 IrohLocation.codec.decode
  | 0x41 => siaFile <$> fields.required 0 SiaFile.codec.decode
  | 0x11 => multihashSha1 <$> fields.required 0 sha1Codec.decode
  | 0x12 => multihashSha2_256 <$> fields.required 0 Bytes32.codec.decode
  | 0x1e => multihashBlake3 <$> fields.required 0 Bytes32.codec.decode
  | 0xd5 => multihashMd5 <$> fields.required 0 md5Codec.decode
  | 0xe2 => fields.required 0 (decodeEncryption decodeInner)
  | 0xc2 => compressionZstd <$> fields.required 0 decodeInner
  | 0xcb => compressionBrotli <$> fields.required 0 decodeInner
  | _ => none

theorem decodeStep_encode (decodeInner : Item → Option BlobLocation) (loc : BlobLocation)
    (h : ∀ inner : BlobLocation, inner.encode.write.length < loc.encode.write.length →
      decodeInner inner.encode = some inner) : decodeStep decodeInner loc.encode = some loc := by
  cases loc with
  | encryptionXChaCha20Poly1305 inner key blockSize =>
    have hpayload : inner.encode.write.length < (Item.array
        [inner.encode, Bytes32.codec.encode key, Codec.u64.encode blockSize]).write.length :=
      length_write_lt_array List.mem_cons_self
    have hinner := h inner (hpayload.trans (length_write_lt_array (by simp)))
    simp [encode, decodeStep, flatFields, Fields.required, decodeEncryption, arrayFields,
      Codec.decode_encode, hinner]
  | compressionZstd inner =>
    have hinner := h inner (length_write_lt_array (by simp))
    simp [encode, decodeStep, flatFields, Fields.required, hinner]
  | compressionBrotli inner =>
    have hinner := h inner (length_write_lt_array (by simp))
    simp [encode, decodeStep, flatFields, Fields.required, hinner]
  | _ => simp [encode, decodeStep, flatFields, Fields.required, Codec.decode_encode]

theorem encode_ne_null (loc : BlobLocation) : loc.encode ≠ .null := by
  cases loc <;> exact Item.noConfusion

def codec : Codec BlobLocation := .recursive encode decodeStep decodeStep_encode encode_ne_null

end BlobLocation
