import S5.Core.Store
import S5.Lib.Checked
import S5.Lib.HttpRange

/-!
# Range reads of the stores

`open_read_bytes` and `open_read_stream` of `MemoryStore`, `LocalStore`, `S3Store` and `SiaStore`
(`blob_stores/`), of one object that is there. The first two read it themselves; the others ask a
server for a range of it. `none` is a panic.
-/

namespace Stores

namespace MemoryStore

def openReadBytes (file : Bytes) (offset : UInt64) (maxLen : Option UInt64) : Bytes :=
  let start := offset.toNat
  if file.length ≤ start then []
  else
    let remaining := file.length - start
    let len := maxLen.elim remaining (min remaining ·.toNat)
    (file.take (start + len)).drop start

/-- One chunk. -/
def openReadStream (file : Bytes) (offset : UInt64) (maxLen : Option UInt64) : List Bytes :=
  [openReadBytes file offset maxLen]

end MemoryStore

namespace LocalStore

def openReadBytes (file : Bytes) (offset : UInt64) (maxLen : Option UInt64) : Bytes :=
  let fileLen := file.length
  if fileLen ≤ offset.toNat then []
  else
    let lenToRead := maxLen.elim (fileLen - offset.toNat) (min ·.toNat (fileLen - offset.toNat))
    (file.drop offset.toNat).take lenToRead

/-- `seek` takes the offset for a signed number, and no negative one. -/
def seek (file : Bytes) (offset : UInt64) : Except String Bytes :=
  if offset.toNat < 2 ^ 63 then .ok (file.drop offset.toNat) else .error "Invalid argument"

/-- What the stream reads; its chunks are those of the `ReaderStream`. -/
def openReadStream (file : Bytes) (offset : UInt64) (maxLen : Option UInt64) : Except String Bytes := do
  let rest ← if 0 < offset then seek file offset else .ok file
  return maxLen.elim rest (rest.take ·.toNat)

end LocalStore

namespace S3Store

/-- The last byte of a range. -/
def last (offset len : UInt64) : Option UInt64 := (Checked.add offset len).bind (Checked.sub · 1)

/-- The range that `open_read_stream` puts into the header. -/
def openReadStream (offset : UInt64) (maxLen : Option UInt64) : Option HttpRange :=
  match maxLen with
  | some len => (last offset len).map fun last => .between offset.toNat last.toNat
  | none => some (.since offset.toNat)

/-- The range that `get_object_range` of the library asks for. It asserts that `start` is less than
`end_`, although the range includes both. -/
def getObjectRange (start : UInt64) (end_ : Option UInt64) : Option HttpRange :=
  match end_ with
  | some end_ => if start < end_ then some (.between start.toNat end_.toNat) else none
  | none => some (.since start.toNat)

/-- The range that `open_read_bytes` asks for. -/
def openReadBytes (offset : UInt64) (maxLen : Option UInt64) : Option HttpRange :=
  match maxLen with
  | some len => (last offset len).bind fun last => getObjectRange offset (some last)
  | none => getObjectRange offset none

end S3Store

namespace SiaStore

def authWithRangeHeader (offset : UInt64) (maxLen : Option UInt64) : Option HttpRange :=
  if 0 < offset then
    match maxLen with
    | some maxLen =>
      -- the length is taken for the end of the range
      ((Checked.sub maxLen offset).bind (Checked.sub · 1)).map fun last =>
        .between offset.toNat last.toNat
    | none => some (.since offset.toNat)
  else some .all

/-- `open_read_stream` takes every answer that is a success. -/
def openReadStream (object : Bytes) (offset : UInt64) (maxLen : Option UInt64) :
    Option (Except Nat Bytes) :=
  (authWithRangeHeader offset maxLen).map fun range =>
    let res := range.answer object
    if 200 ≤ res.status ∧ res.status < 300 then .ok res.body else .error res.status

/-- `open_read_bytes` takes none that is partial. -/
def openReadBytes (object : Bytes) (offset : UInt64) (maxLen : Option UInt64) :
    Option (Except Nat Bytes) :=
  (authWithRangeHeader offset maxLen).map fun range =>
    let res := range.answer object
    if res.status = 200 then .ok res.body else .error res.status

end SiaStore

end Stores
