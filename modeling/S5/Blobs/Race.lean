import S5.Blobs.Server

/-!
# Concurrent pin and delete requests

`handle_pin` and `handle_delete` (`s5_blobs/src/net_protocol.rs`) as sequences of atomic steps:
`store.contains` and each `store.delete` are one step, and so is each pin call, whose lock covers
the pin set alone. Requests of any peers run at the same time (`Race`); an event issues one or lets
one of those running take its next step. The order in which a delete visits the stores, that of a
hash map, is chosen by the events.
-/

open Std

namespace Blobs

/-- A request and how far its handler has come. -/
inductive Task where
  /-- `PinBlob`, before `store.contains`. -/
  | pin (node : NodeId) (h : Hash)
  /-- `PinBlob` of a blob that was found, before `pin_hash`. -/
  | pinning (node : NodeId) (h : Hash)
  /-- `DeleteBlob`, before `unpin_hash`. -/
  | delete (node : NodeId) (h : Hash)
  /-- `DeleteBlob` of an orphaned blob, with the stores it has yet to clear. -/
  | deleting (h : Hash) (remaining : List String)
  | finished (res : Except String Bool)
  deriving DecidableEq

namespace Task

def isFinished : Task → Bool
  | finished _ => true
  | _ => false

/-- The peer and the blob of a pin request. -/
def pinOf : Task → Option (NodeId × Hash)
  | pin node h => some (node, h)
  | pinning node h => some (node, h)
  | _ => none

variable (nodeKey : NodeId → String) (srv : BlobsServer)

/-- A delete that has stores left, or is done. -/
def clear (h : Hash) (remaining : List String) : Task :=
  if remaining.isEmpty then finished (.ok true) else deleting h remaining

/-- The next step of a task; `name` is the store that a delete clears next. -/
def step (name : String) : Task → BlobsServer × Task
  | pin node h =>
    match srv.cfgFor (nodeKey node) with
    | none => (srv, finished (.error "permission denied"))
    | some cfg =>
      match cfg.storeUploadsIn with
      | none => (srv, finished (.error "uploads (pinning) not allowed"))
      | some storeName =>
        match srv.stores[storeName]? with
        | none => (srv, finished (.error "invalid upload store"))
        | some store =>
          if store.contains h then
            if srv.pinner.isSome then (srv, pinning node h) else (srv, finished (.ok true))
          else (srv, finished (.ok false))
  | pinning node h =>
    ({ srv with pinner := srv.pinner.map (·.pinHash h (.nodeId node)) }, finished (.ok true))
  | delete node h =>
    match srv.cfgFor (nodeKey node) with
    | none => (srv, finished (.error "permission denied"))
    | some cfg =>
      if cfg.storeUploadsIn.isNone then (srv, finished (.error "delete not allowed"))
      else
        match srv.pinner with
        | none => (srv, finished (.error "pinning not enabled"))
        | some pinner =>
          let (pinner, orphaned) := pinner.unpinHash h (.nodeId node)
          ({ srv with pinner := some pinner },
            if orphaned then clear h srv.stores.keys else finished (.ok false))
  | deleting h remaining =>
    if name ∈ remaining then
      ({ srv with stores := srv.stores.alter name (·.map (·.delete h)) },
        clear h (remaining.erase name))
    else (srv, deleting h remaining)
  | finished res => (srv, finished res)

end Task

/-- The server with the requests it is running. `acked` holds the peers and blobs for which a
`PinBlob` was answered `Ok(true)` and no `DeleteBlob` has been issued since. -/
structure Race where
  srv : BlobsServer
  tasks : List Task
  acked : Finset (NodeId × Hash)

inductive RaceEvent where
  | pinBlob (node : NodeId) (h : Hash)
  | deleteBlob (node : NodeId) (h : Hash)
  | run (i : Nat) (name : String)

namespace Race

variable (nodeKey : NodeId → String)

/-- Lets the task `i`, which is `t`, take a step. -/
def runTask (s : Race) (i : Nat) (t : Task) (name : String) : Race :=
  let (srv, t') := t.step nodeKey s.srv name
  { srv
    tasks := s.tasks.set i t'
    acked := match t.pinOf with
      | some p => if t' = .finished (.ok true) then insert p s.acked else s.acked
      | none => s.acked }

def step (s : Race) : RaceEvent → Race
  | .pinBlob node h => { s with tasks := s.tasks ++ [.pin node h] }
  | .deleteBlob node h =>
    { s with tasks := s.tasks ++ [.delete node h], acked := s.acked.erase (node, h) }
  | .run i name =>
    match s.tasks[i]? with
    | some t => s.runTask nodeKey i t name
    | none => s

/-- A server that is running no request. -/
def idle (srv : BlobsServer) : Race := ⟨srv, [], ∅⟩

end Race

end Blobs
