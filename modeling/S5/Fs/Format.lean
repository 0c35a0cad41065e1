import S5.Core.LocationFormat
import S5.Fs.Dir

/-!
# The CBOR format of directories

The derived encodings of `DirV1` and the records in it (`s5_fs/src/dir.rs`), with the field numbers of
the source. A record's fields are written in the order of their numbers.
-/

open Std Cbor

namespace Fs

/-! ## File references -/

namespace FileRefType

def index : FileRefType → UInt64
  | .blake3Hash => 0x03
  | .registryKey => 0x11
  | .tombstone => 0x20

theorem find_index (t : FileRefType) :
    [blake3Hash, registryKey, tombstone].find? (fun u => u.index = t.index) = some t := by
  cases t <;> rfl

def codec : Codec FileRefType := .indexOnly index [blake3Hash, registryKey, tombstone] find_index

end FileRefType

def headersCodec : Codec (List (String × String)) := (Codec.string.pair Codec.string).vec

namespace WebArchiveMetadata

def fields (m : WebArchiveMetadata) : List (Nat × Option Item) :=
  [(0, some (Codec.string.encode m.ipAddr)),
    (1, some (Codec.u8.encode m.reqHttpVersion)),
    (2, some (headersCodec.encode m.reqHeaders)),
    (3, some (Codec.u8.encode m.resHttpVersion)),
    (4, some (Codec.u16.encode m.resStatusCode)),
    (5, some (Codec.string.encode m.resStatusReason)),
    (6, some (headersCodec.encode m.resHeaders))]

def decode (item : Item) : Option WebArchiveMetadata := do
  let fields ← mapFields item
  let ipAddr ← fields.required 0 Codec.string.decode
  let reqHttpVersion ← fields.required 1 Codec.u8.decode
  let reqHeaders ← fields.required 2 headersCodec.decode
  let resHttpVersion ← fields.required 3 Codec.u8.decode
  let resStatusCode ← fields.required 4 Codec.u16.decode
  let resStatusReason ← fields.required 5 Codec.string.decode
  let resHeaders ← fields.required 6 headersCodec.decode
  return ⟨ipAddr, reqHttpVersion, reqHeaders, resHttpVersion, resStatusCode, resStatusReason,
    resHeaders⟩

theorem numbers (m : WebArchiveMetadata) : m.fields.map Prod.fst = [0, 1, 2, 3, 4, 5, 6] := rfl

theorem fields_read (m : WebArchiveMetadata) : (m.fields.map Prod.fst).Nodup ∧
    mapFields (mapRecord m.fields) = some (Fields.present m.fields) :=
  mapFields_of_numbers m.numbers (by decide)

theorem decode_fields (m : WebArchiveMetadata) : decode (mapRecord m.fields) = some m := by
  obtain ⟨hn, hread⟩ := m.fields_read
  have h0 := Fields.required_present hn 0 Codec.string m.ipAddr (by simp [fields])
  have h1 := Fields.required_present hn 1 Codec.u8 m.reqHttpVersion (by simp [fields])
  have h2 := Fields.required_present hn 2 headersCodec m.reqHeaders (by simp [fields])
  have h3 := Fields.required_present hn 3 Codec.u8 m.resHttpVersion (by simp [fields])
  have h4 := Fields.required_present hn 4 Codec.u16 m.resStatusCode (by simp [fields])
  have h5 := Fields.required_present hn 5 Codec.string m.resStatusReason (by simp [fields])
  have h6 := Fields.required_present hn 6 headersCodec m.resHeaders (by simp [fields])
  simp only [decode, hread, Option.bind_eq_bind, Option.bind_some, h0, h1, h2, h3, h4,
    h5, h6]
  rfl

def codec : Codec WebArchiveMetadata where
  encode m := mapRecord m.fields
  decode := decode
  decode_encode := decode_fields
  encode_ne_null _ := Item.noConfusion

end WebArchiveMetadata

namespace FileRef

def extraCodec : Codec (ExtTreeMap String Unit) := Codec.string.btreeMap Codec.unit

mutual
/-- A version and the versions it goes back to. -/
def encode : FileRef → Item
  | ⟨refType, hash, size, timestamp, timestampSubsecNanos, locations, mediaType, warc, extra, prev,
      versionCount, firstVersion⟩ =>
    mapRecord [(0, refType.map FileRefType.codec.encode),
      (1, some (Bytes32.codec.encode hash)),
      (2, some (Codec.u64.encode size)),
      (3, timestamp.map Codec.u32.encode),
      (4, timestampSubsecNanos.map Codec.u32.encode),
      (5, locations.map BlobLocation.codec.vec.encode),
      (6, mediaType.map Codec.string.encode),
      (0x15, warc.map WebArchiveMetadata.codec.encode),
      (0x16, extra.map extraCodec.encode),
      (0x17, encodeOption prev),
      (0x18, encodeOption firstVersion),
      (0x19, versionCount.map Codec.u32.encode)]
def encodeOption : Option FileRef → Option Item
  | none => none
  | some f => some f.encode
end

/-- One version, with the versions inside it decoded by `decodeVersion`. -/
def decode (decodeVersion : Item → Option FileRef) (item : Item) : Option FileRef := do
  let fields ← mapFields item
  let refType ← fields.optional 0 FileRefType.codec.decode
  let hash ← fields.required 1 Bytes32.codec.decode
  let size ← fields.required 2 Codec.u64.decode
  let timestamp ← fields.optional 3 Codec.u32.decode
  let timestampSubsecNanos ← fields.optional 4 Codec.u32.decode
  let locations ← fields.optional 5 BlobLocation.codec.vec.decode
  let mediaType ← fields.optional 6 Codec.string.decode
  let warc ← fields.optional 0x15 WebArchiveMetadata.codec.decode
  let extra ← fields.optional 0x16 extraCodec.decode
  let prev ← fields.optional 0x17 decodeVersion
  let firstVersion ← fields.optional 0x18 decodeVersion
  let versionCount ← fields.optional 0x19 Codec.u32.decode
  return ⟨refType, hash, size, timestamp, timestampSubsecNanos, locations, mediaType, warc, extra,
    prev, versionCount, firstVersion⟩

def fields (f : FileRef) : List (Nat × Option Item) :=
  [(0, f.refType.map FileRefType.codec.encode),
    (1, some (Bytes32.codec.encode f.hash)),
    (2, some (Codec.u64.encode f.size)),
    (3, f.timestamp.map Codec.u32.encode),
    (4, f.timestampSubsecNanos.map Codec.u32.encode),
    (5, f.locations.map BlobLocation.codec.vec.encode),
    (6, f.mediaType.map Codec.string.encode),
    (0x15, f.warc.map WebArchiveMetadata.codec.encode),
    (0x16, f.extra.map extraCodec.encode),
    (0x17, f.prev.map encode),
    (0x18, f.firstVersion.map encode),
    (0x19, f.versionCount.map Codec.u32.encode)]

theorem encode_eq (f : FileRef) : f.encode = mapRecord f.fields := by
  have hoption : ∀ o, encodeOption o = o.map encode := by
    intro o
    cases o <;> rfl
  cases f
  rw [encode, hoption, hoption]
  rfl

theorem numbers (f : FileRef) :
    f.fields.map Prod.fst = [0, 1, 2, 3, 4, 5, 6, 0x15, 0x16, 0x17, 0x18, 0x19] := rfl

theorem fields_read (f : FileRef) : (f.fields.map Prod.fst).Nodup ∧
    mapFields (mapRecord f.fields) = some (Fields.present f.fields) :=
  mapFields_of_numbers f.numbers (by decide)

/-- A version inside another has fewer bytes. -/
theorem length_write_version {f g : FileRef} (number : Nat) (h : (number, some g.encode) ∈ f.fields) :
    g.encode.write.length < f.encode.write.length := by
  rw [f.encode_eq]
  exact length_write_lt_mapRecord h

theorem encode_ne_null (f : FileRef) : f.encode ≠ .null := by
  rw [f.encode_eq]
  exact Item.noConfusion

theorem decode_encode (decodeVersion : Item → Option FileRef) (f : FileRef)
    (h : ∀ g : FileRef, g.encode.write.length < f.encode.write.length →
      decodeVersion g.encode = some g) : decode decodeVersion f.encode = some f := by
  obtain ⟨hn, hread⟩ := f.fields_read
  have h0 := Fields.optional_present hn 0 FileRefType.codec f.refType (by simp [fields])
  have h1 := Fields.required_present hn 1 Bytes32.codec f.hash (by simp [fields])
  have h2 := Fields.required_present hn 2 Codec.u64 f.size (by simp [fields])
  have h3 := Fields.optional_present hn 3 Codec.u32 f.timestamp (by simp [fields])
  have h4 := Fields.optional_present hn 4 Codec.u32 f.timestampSubsecNanos (by simp [fields])
  have h5 := Fields.optional_present hn 5 BlobLocation.codec.vec f.locations (by simp [fields])
  have h6 := Fields.optional_present hn 6 Codec.string f.mediaType (by simp [fields])
  have h7 := Fields.optional_present hn 0x15 WebArchiveMetadata.codec f.warc (by simp [fields])
  have h8 := Fields.optional_present hn 0x16 extraCodec f.extra (by simp [fields])
  have h9 := Fields.optional_present_of hn 0x17 f.prev (by simp [fields])
    (fun g hg => h g (length_write_version 0x17 (by simp [fields, hg]))) encode_ne_null
  have h10 := Fields.optional_present_of hn 0x18 f.firstVersion (by simp [fields])
    (fun g hg => h g (length_write_version 0x18 (by simp [fields, hg]))) encode_ne_null
  have h11 := Fields.optional_present hn 0x19 Codec.u32 f.versionCount (by simp [fields])
  unfold decode
  rw [f.encode_eq, hread]
  dsimp only [Option.bind_eq_bind, Option.bind_some]
  rw [h0, Option.bind_some, h1, Option.bind_some, h2, Option.bind_some, h3, Option.bind_some, h4,
    Option.bind_some, h5, Option.bind_some, h6, Option.bind_some, h7, Option.bind_some, h8,
    Option.bind_some, h9, Option.bind_some, h10, Option.bind_some, h11]
  cases f
  rfl

def codec : Codec FileRef :=
  .recursive encode decode decode_encode encode_ne_null

end FileRef

/-! ## Directory references -/

namespace DirRefType

def index : DirRefType → UInt64
  | .blake3Hash => 0x03
  | .registryKey => 0x11

theorem find_index (t : DirRefType) :
    [blake3Hash, registryKey].find? (fun u => u.index = t.index) = some t := by
  cases t <;> rfl

def codec : Codec DirRefType := .indexOnly index [blake3Hash, registryKey] find_index

end DirRefType

namespace DirRef

/-- The keys are arrays of integers, not byte strings. -/
def keysCodec : Codec (ExtTreeMap UInt8 Bytes32) := Codec.u8.btreeMap Bytes32.arrayCodec

def fields (d : DirRef) : List (Nat × Option Item) :=
  [(0, d.refType.map DirRefType.codec.encode),
    (1, some (Bytes32.codec.encode d.hash)),
    (3, d.tsSeconds.map Codec.u32.encode),
    (4, d.tsNanos.map Codec.u32.encode),
    (0x0c, d.keys.map keysCodec.encode),
    (0x0e, d.encryptionType.map Codec.u8.encode),
    (0x16, d.extra.map Codec.unit.encode)]

def decode (item : Item) : Option DirRef := do
  let fields ← mapFields item
  let refType ← fields.optional 0 DirRefType.codec.decode
  let hash ← fields.required 1 Bytes32.codec.decode
  let tsSeconds ← fields.optional 3 Codec.u32.decode
  let tsNanos ← fields.optional 4 Codec.u32.decode
  let keys ← fields.optional 0x0c keysCodec.decode
  let encryptionType ← fields.optional 0x0e Codec.u8.decode
  let extra ← fields.optional 0x16 Codec.unit.decode
  return ⟨refType, hash, tsSeconds, tsNanos, keys, encryptionType, extra⟩

theorem numbers (d : DirRef) : d.fields.map Prod.fst = [0, 1, 3, 4, 0x0c, 0x0e, 0x16] := rfl

theorem fields_read (d : DirRef) : (d.fields.map Prod.fst).Nodup ∧
    mapFields (mapRecord d.fields) = some (Fields.present d.fields) :=
  mapFields_of_numbers d.numbers (by decide)

theorem decode_fields (d : DirRef) : decode (mapRecord d.fields) = some d := by
  obtain ⟨hn, hread⟩ := d.fields_read
  have h0 := Fields.optional_present hn 0 DirRefType.codec d.refType (by simp [fields])
  have h1 := Fields.required_present hn 1 Bytes32.codec d.hash (by simp [fields])
  have h2 := Fields.optional_present hn 3 Codec.u32 d.tsSeconds (by simp [fields])
  have h3 := Fields.optional_present hn 4 Codec.u32 d.tsNanos (by simp [fields])
  have h4 := Fields.optional_present hn 0x0c keysCodec d.keys (by simp [fields])
  have h5 := Fields.optional_present hn 0x0e Codec.u8 d.encryptionType (by simp [fields])
  have h6 := Fields.optional_present hn 0x16 Codec.unit d.extra (by simp [fields])
  simp only [decode, hread, Option.bind_eq_bind, Option.bind_some, h0, h1, h2, h3, h4,
    h5, h6]
  rfl

def codec : Codec DirRef where
  encode d := mapRecord d.fields
  decode := decode
  decode_encode := decode_fields
  encode_ne_null _ := Item.noConfusion

end DirRef

/-! ## Snapshots -/

namespace DirHeader

def shardsCodec : Codec (ExtTreeMap UInt8 DirRef) := Codec.u8.btreeMap DirRef.codec

def errorPagesCodec : Codec (ExtTreeMap UInt16 String) := Codec.u16.btreeMap Codec.string

/-- Writers are keys of a map. -/
instance instTransOrdWriter : TransOrd (BitVec 128) := inferInstance

instance instLawfulEqOrdWriter : LawfulEqOrd (BitVec 128) := inferInstance

def lastWrittenByCodec : Codec (ExtTreeMap (BitVec 128) UInt64) :=
  Codec.btreeMap (Codec.u8Array 16) Codec.u64

def fields (h : DirHeader) : List (Nat × Option Item) :=
  [(0x04, h.shardLevel.map Codec.u8.encode),
    (0x05, h.shards.map shardsCodec.encode),
    (6, h.tryFiles.map Codec.string.vec.encode),
    (0x0c, h.opsCounter.map Codec.u64.encode),
    (0x0d, h.lastWrittenBy.map lastWrittenByCodec.encode),
    (14, h.errorPages.map errorPagesCodec.encode)]

def decode (item : Item) : Option DirHeader := do
  let fields ← mapFields item
  let shardLevel ← fields.optional 0x04 Codec.u8.decode
  let shards ← fields.optional 0x05 shardsCodec.decode
  let tryFiles ← fields.optional 6 Codec.string.vec.decode
  let opsCounter ← fields.optional 0x0c Codec.u64.decode
  let lastWrittenBy ← fields.optional 0x0d lastWrittenByCodec.decode
  let errorPages ← fields.optional 14 errorPagesCodec.decode
  return ⟨shardLevel, shards, tryFiles, errorPages, opsCounter, lastWrittenBy⟩

theorem numbers (h : DirHeader) : h.fields.map Prod.fst = [0x04, 0x05, 6, 0x0c, 0x0d, 14] := rfl

theorem fields_read (h : DirHeader) : (h.fields.map Prod.fst).Nodup ∧
    mapFields (mapRecord h.fields) = some (Fields.present h.fields) :=
  mapFields_of_numbers h.numbers (by decide)

theorem decode_fields (h : DirHeader) : decode (mapRecord h.fields) = some h := by
  obtain ⟨hn, hread⟩ := h.fields_read
  have h0 := Fields.optional_present hn 0x04 Codec.u8 h.shardLevel (by simp [fields])
  have h1 := Fields.optional_present hn 0x05 shardsCodec h.shards (by simp [fields])
  have h2 := Fields.optional_present hn 6 Codec.string.vec h.tryFiles (by simp [fields])
  have h3 := Fields.optional_present hn 0x0c Codec.u64 h.opsCounter (by simp [fields])
  have h4 := Fields.optional_present hn 0x0d lastWrittenByCodec h.lastWrittenBy (by simp [fields])
  have h5 := Fields.optional_present hn 14 errorPagesCodec h.errorPages (by simp [fields])
  simp only [decode, hread, Option.bind_eq_bind, Option.bind_some, h0, h1, h2, h3, h4,
    h5]
  rfl

def codec : Codec DirHeader where
  encode h := mapRecord h.fields
  decode := decode
  decode_encode := decode_fields
  encode_ne_null _ := Item.noConfusion

end DirHeader

namespace DirV1

def dirsCodec : Codec (ExtTreeMap String DirRef) := Codec.string.btreeMap DirRef.codec

def filesCodec : Codec (ExtTreeMap String FileRef) := Codec.string.btreeMap FileRef.codec

def codec : Codec DirV1 where
  encode d := .array [Codec.string.encode d.magic, DirHeader.codec.encode d.header,
    dirsCodec.encode d.dirs, filesCodec.encode d.files]
  decode item := do
    let fields ← arrayFields item
    let magic ← fields.required 0 Codec.string.decode
    let header ← fields.required 1 DirHeader.codec.decode
    let dirs ← fields.required 2 dirsCodec.decode
    let files ← fields.required 3 filesCodec.decode
    return { magic, header, dirs, files }
  decode_encode d := by
    simp [arrayFields, Fields.required, Codec.decode_encode]
  encode_ne_null _ := Item.noConfusion

/-- `to_vec` and `to_bytes`. -/
def toBytes (d : DirV1) : Bytes := codec.toVec d

def fromBytes (bytes : Bytes) : Option DirV1 := codec.ofSlice bytes

/-- **The directory format round-trips**: what is written, where the bytes fit in memory, is read
back. -/
theorem format_round_trips (d : DirV1) (h : d.toBytes.length < 2 ^ 64) :
    fromBytes d.toBytes = some d :=
  codec.ofSlice_toVec d h

/-- A shard table, and a file whose earlier version is compressed and encrypted. -/
def layered : DirV1 :=
  let ref : DirRef := ⟨some .blake3Hash, 5, some 1, none, none, some 2, some ()⟩
  let old := { FileRef.new 3 4 with
    locations := some [.encryptionXChaCha20Poly1305 (.compressionZstd (.url "u")) 7 65536] }
  { DirV1.new with
    header := { DirHeader.new with shards := some ((∅ : ExtTreeMap UInt8 DirRef).insert 1 ref) }
    files := (∅ : ExtTreeMap String FileRef).insert "f" (.fromDeleted old 9 0) }

theorem format_round_trips_layered : layered.toBytes.length < 2 ^ 64 ∧
    fromBytes layered.toBytes = some layered := by
  have hlen : layered.toBytes.length < 2 ^ 64 := by decide +kernel
  exact ⟨hlen, format_round_trips layered hlen⟩

end DirV1

end Fs
