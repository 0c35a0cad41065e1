import S5.Fs.Actor

/-!
# Listing a directory page by page

`list_entries` (`s5_fs/src/actor/listing.rs`) with its cursors (`s5_fs/src/api.rs`), and the client's
walk from page to page.
-/

open Std

namespace Fs

inductive CursorKind where
  | file
  | directory
  deriving DecidableEq

structure CursorData where
  position : String
  kind : CursorKind
  timestamp : Option UInt32
  path : Option (List UInt32)

/-- `encode_cursor` and `decode_cursor`: CBOR in base64url. -/
structure CursorCodec where
  encodeCursor : CursorData → String
  decodeCursor : String → Option CursorData

/-- What the cursor of an entry of a page carries comes back out of it. -/
def CursorCodec.RoundTrips (codec : CursorCodec) : Prop :=
  ∀ (position : String) (kind : CursorKind),
    codec.decodeCursor (codec.encodeCursor ⟨position, kind, none, none⟩) = some ⟨position, kind, none, none⟩

/-- An entry of a page. -/
abbrev ListEntry := String × CursorKind

/-! ## Pages -/

/-- `while out.len() < limit`: takes from the two ranges until the page is full. A directory and a file
of the same name are taken together if there is room. -/
def fillPage : Nat → List String → List String → List ListEntry
  | 0, _, _ => []
  | _ + 1, [], [] => []
  | room + 1, d :: dirs, [] => (d, .directory) :: fillPage room dirs []
  | room + 1, [], f :: files => (f, .file) :: fillPage room [] files
  | room + 1, d :: dirs, f :: files =>
    match compare d f with
    | .lt => (d, .directory) :: fillPage room dirs (f :: files)
    | .gt => (f, .file) :: fillPage room (d :: dirs) files
    | .eq => (d, .directory) :: match room with
      | 0 => []
      | room + 1 => (d, .file) :: fillPage room dirs files

/-- `BTreeMap::range` from an excluded lower bound. -/
def rangeAfter (names : List String) (name : String) : List String :=
  names.filter fun n => compare name n = .lt

/-- `BTreeMap::range` from an included lower bound. -/
def rangeFrom (names : List String) (name : String) : List String :=
  names.filter fun n => compare name n ≠ .gt

/-- A page of the entries of a snapshot, and the cursor of its last entry. -/
def listSnapshot (codec : CursorCodec) (snapshot : DirV1) (cursor : Option String) (limit : Nat) :
    List ListEntry × Option String :=
  let start := (cursor.bind codec.decodeCursor).map fun c => (c.position, c.kind)
  let dirs := match start with
    | none => snapshot.dirs.keys
    | some (name, _) => rangeAfter snapshot.dirs.keys name
  let files := match start with
    | none => snapshot.files.keys
    | some (name, .directory) => rangeFrom snapshot.files.keys name
    | some (name, .file) => rangeAfter snapshot.files.keys name
  let out := fillPage limit dirs files
  (out, out.getLast?.map fun (name, kind) =>
    codec.encodeCursor { position := name, kind, timestamp := none, path := none })

namespace Actor

variable {β : Type} [DecidableEq β]

/-- `list_entries`: the shards of the directory are merged into one snapshot first. -/
def listEntries (env : Env β) (codec : CursorCodec) (w : World β) (fuel : Nat) (a : Actor)
    (cursor : Option String) (limit : Nat) : Except String (List ListEntry × Option String) := do
  let snapshot ← exportMergedSnapshot env w fuel a
  return listSnapshot codec snapshot cursor limit

/-- The pages a client gets that passes each cursor to the next call, until there is none; `none`
outside if `calls` are not enough. -/
def walkPages (env : Env β) (codec : CursorCodec) (w : World β) (fuel : Nat) (a : Actor) (limit : Nat) :
    Nat → Option String → Option (Except String (List (List ListEntry)))
  | 0, _ => none
  | calls + 1, cursor =>
    match listEntries env codec w fuel a cursor limit with
    | .error e => some (.error e)
    | .ok (page, none) => some (.ok [page])
    | .ok (page, some next) =>
      (walkPages env codec w fuel a limit calls (some next)).map (·.map (page :: ·))

end Actor

end Fs
