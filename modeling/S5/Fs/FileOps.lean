import S5.Fs.Actor
import S5.Fs.Turn

/-!
# File operations on a directory and its shards

A `FileOp` on a name without a slash, as a directory and its shards handle it one after the other
(`process_msg` and `route_to_child` of `s5_fs/src/actor.rs`), between sharding transitions of the
directory or of one of its shards (`shard` of `s5_fs/src/actor/sharding.rs`).

`Home` is where the buckets of a name lead, `Below` says which actors a directory is made of.
-/

open Std

namespace Fs

/-- A name without a slash. It has no prefix that `check_auto_promote` could promote. -/
abbrev Name := { n : String // '/' ∉ n.toList }

namespace Actor

variable {β : Type}

/-- Executes a task on an entry of the directory itself. -/
def fileOpHere (a : Actor) (task : FileTask) (now : UInt32 × UInt32) (name : String) : Actor :=
  let files := match task.execute now a.state.files[name]? with
    | some file => a.state.files.insert name file
    | none => a.state.files.erase name
  { a with state.files := files }.markAsDirty

section
variable (env : Env β)

/-- A `FileOp` on a name, with what the task found. The answer is `none` if nobody here executes the
task: a child directory gets it, or it fails, or `fuel` hops are not enough. -/
def fileOp (w : World β) (task : FileTask) (now : UInt32 × UInt32) (name : Name) :
    Nat → Actor → Actor × Option (Option FileRef)
  | 0, a => (a, none)
  | fuel + 1, a =>
    match route env a.state name.1 with
    | .ok .here => (a.fileOpHere task now name.1, some a.state.files[name.1]?)
    | .ok (.shard index) =>
      match openDirShard env w a index with
      | .error _ => (a, none)
      | .ok child =>
        match fileOp w task now name fuel child with
        | (child', found) =>
          let a := a.keepShard index child'
          -- a shard that was clean tells its parent
          (if child.dirty then a else a.markAsDirty, found)
    | .ok (.dir _ _) => (a, none)
    | .error _ => (a, none)

variable [DecidableEq β]

/-- `shard` in the directory, or in the shard that a list of buckets leads to. -/
def shardAt : List UInt8 → World β → Actor → World β × Actor × Except String Unit
  | [], w, a => shard env w a
  | index :: rest, w, a =>
    match openDirShard env w a index with
    | .error e => (w, a, .error e)
    | .ok child =>
      match shardAt rest w child with
      | (w, child', r) => (w, a.keepShard index child', r)

/-! ## Runs -/

inductive DirOp where
  | fileOp (name : Name) (task : FileTask) (now : UInt32 × UInt32)
  | shard (path : List UInt8)

/-- One operation on a directory; `fuel` bounds how deep shards nest. -/
def stepDir (fuel : Nat) (s : World β × Actor) : DirOp → World β × Actor
  | .fileOp name task now => (s.1, (fileOp env s.1 task now name fuel s.2).1)
  | .shard path =>
    match shardAt env path s.1 s.2 with
    | (w, a, _) => (w, a)

/-- The operation is no sharding transition that fails. -/
def ShardsOk (s : World β × Actor) : DirOp → Prop
  | .fileOp _ _ _ => True
  | .shard path => (shardAt env path s.1 s.2).2.2 = .ok ()

omit [DecidableEq β]

/-! ## Where names live -/

/-- The actor `b` is the directory `a` (`[]`) or the shard of it that a list of buckets leads to. -/
inductive Below (w : World β) : Actor → List UInt8 → Actor → Prop where
  | self (a : Actor) : Below w a [] a
  | shard {a child b : Actor} {index : UInt8} {path : List UInt8}
      (href : (a.state.header.shards.bind (·[index]?)).isSome)
      (ho : openDirShard env w a index = .ok child) (h : Below w child path b) :
      Below w a (index :: path) b

/-- The shard that `shard_bucket_for` selects at each level if the bucket exists, and the actor where
there is no such bucket. -/
inductive Home (w : World β) (name : String) : Actor → List UInt8 → Actor → Prop where
  | unsharded {a : Actor} (hl : a.state.header.shardLevel = none) : Home w name a [] a
  | absent {a : Actor} {level index : UInt8} (hl : a.state.header.shardLevel = some level)
      (hb : shardBucketFor env name level = .ok index)
      (href : (a.state.header.shards.bind (·[index]?)).isSome = false) : Home w name a [] a
  | shard {a child b : Actor} {level index : UInt8} {path : List UInt8}
      (hl : a.state.header.shardLevel = some level)
      (hb : shardBucketFor env name level = .ok index)
      (href : (a.state.header.shards.bind (·[index]?)).isSome)
      (ho : openDirShard env w a index = .ok child) (h : Home w name child path b) :
      Home w name a (index :: path) b

end

/-! ## The plain map -/

/-- The operation on a plain map of files. -/
def flatStep (files : ExtTreeMap String FileRef) : DirOp → ExtTreeMap String FileRef
  | .fileOp name task now => files.alter name.1 (task.execute now)
  | .shard _ => files

end Actor

end Fs
