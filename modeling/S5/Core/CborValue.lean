import S5.Core.Pins
import Mathlib.Algebra.Ring.Nat

/-!
# CBOR values

`Value` (`s5_core/src/cbor/value.rs`), a single CBOR token, with its `Encode` and its `CborLen`. What
the library `minicbor` writes and measures is a parameter (`Minicbor`), with what its documentation says
of it (`Minicbor.Documented`).
-/

namespace CborValue

/-- The bits of an `f32`. -/
abbrev F32 := BitVec 32

/-- The bits of an `f64`. -/
abbrev F64 := BitVec 64

/-- `minicbor::data::Int`: an integer of 64 bits and a sign. -/
structure IntToken where
  neg : Bool
  val : UInt64
  deriving DecidableEq

inductive Value where
  | bool (val : Bool)
  | u8 (val : UInt8)
  | u16 (val : UInt16)
  | u32 (val : UInt32)
  | u64 (val : UInt64)
  | i8 (val : Int8)
  | i16 (val : Int16)
  | i32 (val : Int32)
  | i64 (val : Int64)
  | int (val : IntToken)
  | f16 (val : F32)
  | f32 (val : F32)
  | f64 (val : F64)
  | bytes (val : Bytes)
  | string (val : String)
  | array (val : UInt64)
  | map (val : UInt64)
  | tag (val : UInt64)
  | simple (val : UInt8)
  | break
  | null
  | undefined
  | beginBytes
  | beginString
  | beginArray
  | beginMap
  deriving DecidableEq

/-- The `Encode` and the `CborLen` of a type. -/
structure Impl (α : Type) where
  encode : α → Bytes
  cborLen : α → Nat

/-- A type is as long as what it is encoded as. -/
def Impl.Exact {α : Type} (i : Impl α) : Prop := ∀ x, i.cborLen x = (i.encode x).length

/-- The library: its types, and the methods of an `Encoder` for tokens. -/
structure Minicbor where
  bool : Impl Bool
  u8 : Impl UInt8
  u16 : Impl UInt16
  u32 : Impl UInt32
  u64 : Impl UInt64
  i8 : Impl Int8
  i16 : Impl Int16
  i32 : Impl Int32
  i64 : Impl Int64
  int : Impl IntToken
  f32 : Impl F32
  f64 : Impl F64
  str : Impl String
  tag : Impl UInt64
  /-- The `CborLen` of a slice `[u8]`, which stands for an array. -/
  sliceLen : Bytes → Nat
  f16 : F32 → Bytes
  bytes : Bytes → Bytes
  array : UInt64 → Bytes
  map : UInt64 → Bytes
  /-- `none` for a simple value that is refused. -/
  simple : UInt8 → Option Bytes
  /-- `end`. -/
  endOfItem : Bytes
  null : Bytes
  undefined : Bytes
  beginBytes : Bytes
  beginStr : Bytes
  beginArray : Bytes
  beginMap : Bytes

/-- What the documentation of the library says. -/
structure Minicbor.Documented (m : Minicbor) : Prop where
  bool : m.bool.Exact
  u8 : m.u8.Exact
  u16 : m.u16.Exact
  u32 : m.u32.Exact
  u64 : m.u64.Exact
  i8 : m.i8.Exact
  i16 : m.i16.Exact
  i32 : m.i32.Exact
  i64 : m.i64.Exact
  int : m.int.Exact
  f32 : m.f32.Exact
  f64 : m.f64.Exact
  str : m.str.Exact
  tag : m.tag.Exact
  /-- A number below 24 is in its head. -/
  u8_len : ∀ x, (m.u8.encode x).length = if x < 24 then 1 else 2
  /-- A head, and the bits. -/
  f32_len : ∀ x, (m.f32.encode x).length = 5
  f16_len : ∀ x, (m.f16 x).length = 3
  /-- A slice is measured as an array of numbers, and written by `bytes` as a byte string. -/
  slice_len : ∀ b, m.sliceLen b = (m.array (UInt64.ofNat b.length)).length + (b.map m.u8.cborLen).sum
  bytes_len : ∀ b, (m.bytes b).length = (m.array (UInt64.ofNat b.length)).length + b.length
  /-- The heads of arrays and maps hold a length as the head of a number holds the number. -/
  array_len : ∀ n, (m.array n).length = (m.u64.encode n).length
  map_len : ∀ n, (m.map n).length = (m.u64.encode n).length
  /-- The head has room for the simple values below 20. -/
  simple_len : ∀ {x bs}, m.simple x = some bs → bs.length = if x < 20 then 1 else 2
  /-- The tokens without an argument are their head. -/
  single_len : ∀ bs ∈ [m.endOfItem, m.null, m.undefined, m.beginBytes, m.beginStr, m.beginArray,
    m.beginMap], bs.length = 1

namespace Value

section
variable (m : Minicbor)

/-- `Encode`: the bytes written to an encoder that takes them all. -/
def encode : Value → Option Bytes
  | bool val => some (m.bool.encode val)
  | u8 val => some (m.u8.encode val)
  | u16 val => some (m.u16.encode val)
  | u32 val => some (m.u32.encode val)
  | u64 val => some (m.u64.encode val)
  | i8 val => some (m.i8.encode val)
  | i16 val => some (m.i16.encode val)
  | i32 val => some (m.i32.encode val)
  | i64 val => some (m.i64.encode val)
  | int val => some (m.int.encode val)
  | f16 val => some (m.f16 val)
  | f32 val => some (m.f32.encode val)
  | f64 val => some (m.f64.encode val)
  | bytes val => some (m.bytes val)
  | string val => some (m.str.encode val)
  | array val => some (m.array val)
  | map val => some (m.map val)
  | tag val => some (m.tag.encode val)
  | simple val => m.simple val
  | .break => some m.endOfItem
  | null => some m.null
  | undefined => some m.undefined
  | beginBytes => some m.beginBytes
  | beginString => some m.beginStr
  | beginArray => some m.beginArray
  | beginMap => some m.beginMap

/-- `CborLen`: `Bytes` has none of its own and is measured as the slice it derefs to. -/
def cborLen : Value → Nat
  | bool val => m.bool.cborLen val
  | u8 val => m.u8.cborLen val
  | u16 val => m.u16.cborLen val
  | u32 val => m.u32.cborLen val
  | u64 val => m.u64.cborLen val
  | i8 val => m.i8.cborLen val
  | i16 val => m.i16.cborLen val
  | i32 val => m.i32.cborLen val
  | i64 val => m.i64.cborLen val
  | int val => m.int.cborLen val
  | f16 val => m.f32.cborLen val
  | f32 val => m.f32.cborLen val
  | f64 val => m.f64.cborLen val
  | bytes val => m.sliceLen val
  | string val => m.str.cborLen val
  | array val => m.u64.cborLen val
  | map val => m.u64.cborLen val
  | tag val => m.tag.cborLen val
  | simple val => m.u8.cborLen val
  | .break => 1
  | null => 1
  | undefined => 1
  | beginBytes => 1
  | beginString => 1
  | beginArray => 1
  | beginMap => 1

end

end Value

end CborValue
