import S5.Core.Stream

/-!
# Registries and the registry server

The trait `RegistryApi` (`s5_core/src/stream/mod.rs`), its implementations `MemoryRegistry`,
`RedbRegistry` (`registries/redb/src/lib.rs`), `StoreRegistry` (`registries/store/src/lib.rs`),
`RemoteRegistry`, `TeeRegistry` and `MultiRegistry`, and the handlers of `RegistryServer`
(`s5_registry/src/lib.rs`). A call is atomic and returns the registry it leaves.

The database under `RedbRegistry` and the store under `StoreRegistry` do not fail; a row that does
not decode does. A connection to a remote registry is either up or down.
-/

namespace Registry

abbrev Answer := Except String Unit

/-- The trait `RegistryApi`. -/
class RegistryApi (ρ : Type) where
  get : ρ → StreamKey → Except String (Option StreamMessage)
  set : ρ → StreamMessage → ρ × Answer
  delete : ρ → StreamKey → ρ × Answer

/-! ## Local registries -/

/-- The `HashMap` of a `MemoryRegistry`. -/
structure MemoryRegistry where
  data : StreamKey → Option StreamMessage

namespace MemoryRegistry

def new : MemoryRegistry := ⟨fun _ => none⟩

def get (r : MemoryRegistry) (key : StreamKey) : Option StreamMessage := r.data key

def set (r : MemoryRegistry) (message : StreamMessage) : MemoryRegistry :=
  if message.shouldStore (r.data message.key) then
    ⟨Function.update r.data message.key (some message)⟩
  else r

def delete (r : MemoryRegistry) (key : StreamKey) : MemoryRegistry :=
  ⟨Function.update r.data key none⟩

instance : RegistryApi MemoryRegistry where
  get r key := .ok (r.get key)
  set r message := (r.set message, .ok ())
  delete r key := (r.delete key, .ok ())

end MemoryRegistry

/-- Messages kept serialized under the bytes of their keys. -/
structure Rows where
  row : UInt8 × Bytes → Option Bytes

namespace Rows

def get (t : Rows) (key : StreamKey) : Except String (Option StreamMessage) :=
  match t.row key.toBytes with
  | none => .ok none
  | some bytes =>
    match StreamMessage.deserialize bytes with
    | .ok m => .ok (some m)
    | .error e => .error e.display

def set (t : Rows) (message : StreamMessage) : Rows × Answer :=
  match t.get message.key with
  | .error e => (t, .error e)
  | .ok existing =>
    if message.shouldStore existing then
      (⟨Function.update t.row message.key.toBytes (some message.serialize)⟩, .ok ())
    else (t, .ok ())

def delete (t : Rows) (key : StreamKey) : Rows := ⟨Function.update t.row key.toBytes none⟩

end Rows

/-- The table of a `RedbRegistry`. -/
structure RedbRegistry where
  table : Rows

namespace RedbRegistry

def get (r : RedbRegistry) (key : StreamKey) : Except String (Option StreamMessage) :=
  r.table.get key

def set (r : RedbRegistry) (message : StreamMessage) : RedbRegistry × Answer :=
  let (table, res) := r.table.set message
  (⟨table⟩, res)

def delete (r : RedbRegistry) (key : StreamKey) : RedbRegistry := ⟨r.table.delete key⟩

instance : RegistryApi RedbRegistry where
  get := get
  set := set
  delete r key := (r.delete key, .ok ())

end RedbRegistry

/-- The files of a `StoreRegistry`; `key_path` names one by the hex of the key's bytes. -/
structure StoreRegistry where
  files : Rows

namespace StoreRegistry

def get (r : StoreRegistry) (key : StreamKey) : Except String (Option StreamMessage) :=
  r.files.get key

def set (r : StoreRegistry) (message : StreamMessage) : StoreRegistry × Answer :=
  let (files, res) := r.files.set message
  (⟨files⟩, res)

def delete (r : StoreRegistry) (key : StreamKey) : StoreRegistry := ⟨r.files.delete key⟩

end StoreRegistry

/-! ## The server -/

structure GetRequest where
  keyType : UInt8
  keyData : Bytes32

structure SetRequest where
  message : Bytes

structure DeleteRequest where
  keyType : UInt8
  keyData : Bytes32

inductive RpcProto where
  | get (req : GetRequest)
  | set (req : SetRequest)
  | delete (req : DeleteRequest)

/-- The key of a request. -/
def requestKey (keyType : UInt8) (keyData : Bytes32) : Except StreamKeyDeserializeError StreamKey :=
  StreamKey.fromBytes keyType (Bytes32.toBytes keyData)

section
variable {ρ : Type}

/-- `handle_get` on a registry that answers as `get` does. -/
def handleGet (get : StreamKey → Except String (Option StreamMessage)) (req : GetRequest) :
    Option Bytes :=
  match requestKey req.keyType req.keyData with
  | .error _ => none
  | .ok key =>
    match get key with
    | .ok (some message) => some message.serialize
    | .ok none => none
    | .error _ => none

/-- `handle_set` on the registry `r`. -/
def handleSet (r : ρ) (set : StreamMessage → ρ × Answer) (req : SetRequest) : ρ × Answer :=
  match StreamMessage.deserialize req.message with
  | .error e => (r, .error e.display)
  | .ok message => set message

/-- `handle_delete` on the registry `r`. -/
def handleDelete (r : ρ) (delete : StreamKey → ρ × Answer) (req : DeleteRequest) : ρ × Answer :=
  match requestKey req.keyType req.keyData with
  | .error e => (r, .error e.display)
  | .ok key => delete key

/-- The registry after one request of a peer (`RegistryServer::accept`). -/
def serve [RegistryApi ρ] (r : ρ) : RpcProto → ρ
  | .get _ => r
  | .set req => (handleSet r (RegistryApi.set r) req).1
  | .delete req => (handleDelete r (RegistryApi.delete r) req).1

end

/-! ## Compositions -/

inductive WritePolicy where
  | all
  | any
  | quorum (n : Nat)
  deriving DecidableEq

/-- What a `MultiRegistry` makes of the answers of its backends. -/
def WritePolicy.outcome (policy : WritePolicy) (what : String) (results : List Answer) : Answer :=
  let successCount := results.countP (·.isOk)
  match policy with
  | all => results.findSome? (fun | .error e => some (.error e) | .ok () => none) |>.getD (.ok ())
  | any => if 0 < successCount then .ok () else results.getLastD (.ok ())
  | quorum n =>
    if n ≤ successCount then .ok ()
    else .error s!"{what}: {successCount} succeeded, {n} required"

/-- A `dyn RegistryApi`: a local registry or one composed of others. `remote` is a client of a
server for `served`. -/
inductive DynRegistry where
  | memory (r : MemoryRegistry)
  | redb (r : RedbRegistry)
  | store (r : StoreRegistry)
  | remote (up : Bool) (served : DynRegistry)
  | tee (near far : DynRegistry)
  | multi (backends : List DynRegistry) (writePolicy : WritePolicy)

namespace DynRegistry

/-- The error of a call that does not reach the server. -/
def connectionFailed : String := "connection failed"

/-- `Client::get` of what the server answered. -/
def clientGet : Option Bytes → Except String (Option StreamMessage)
  | none => .ok none
  | some bytes =>
    match StreamMessage.deserialize bytes with
    | .ok m => .ok (some m)
    | .error e => .error s!"failed to deserialize registry message: {e.display}"

mutual

def get : DynRegistry → StreamKey → Except String (Option StreamMessage)
  | memory r, key => .ok (r.get key)
  | redb r, key => r.get key
  | store r, key => r.get key
  | remote up served, key =>
    if up then clientGet (handleGet served.get ⟨key.toBytes.1, Bytes32.ofBytes key.toBytes.2⟩)
    else .error connectionFailed
  | tee near far, key =>
    match near.get key with
    | .error e => .error e
    | .ok (some m) => .ok (some m)
    | .ok none => far.get key
  | multi backends _, key => .ok (getFirst backends key)

/-- The first backend with an entry; one that fails is passed over. -/
def getFirst : List DynRegistry → StreamKey → Option StreamMessage
  | [], _ => none
  | b :: bs, key =>
    match b.get key with
    | .ok (some m) => some m
    | .ok none => getFirst bs key
    | .error _ => getFirst bs key

end

mutual

def set : DynRegistry → StreamMessage → DynRegistry × Answer
  | memory r, m => (memory (r.set m), .ok ())
  | redb r, m =>
    let (r, res) := r.set m
    (redb r, res)
  | store r, m =>
    let (r, res) := r.set m
    (store r, res)
  | remote up served, m =>
    if up then
      let (served, res) := handleSet served served.set ⟨m.serialize⟩
      (remote up served, res)
    else (remote up served, .error connectionFailed)
  | tee near far, m =>
    match near.set m with
    | (near, .error e) => (tee near far, .error e)
    | (near, .ok ()) =>
      let (far, res) := far.set m
      (tee near far, res)
  | multi backends policy, m =>
    if backends.isEmpty then (multi backends policy, .ok ())
    else
      let results := setAll backends m
      (multi (results.map (·.1)) policy, policy.outcome "quorum not met" (results.map (·.2)))

def setAll : List DynRegistry → StreamMessage → List (DynRegistry × Answer)
  | [], _ => []
  | b :: bs, m => b.set m :: setAll bs m

end

mutual

def delete : DynRegistry → StreamKey → DynRegistry × Answer
  | memory r, key => (memory (r.delete key), .ok ())
  | redb r, key => (redb (r.delete key), .ok ())
  | store r, key => (store (r.delete key), .ok ())
  | remote up served, key =>
    if up then
      let (served, res) :=
        handleDelete served served.delete ⟨key.toBytes.1, Bytes32.ofBytes key.toBytes.2⟩
      (remote up served, res)
    else (remote up served, .error connectionFailed)
  | tee near far, key =>
    match near.delete key with
    | (near, .error e) => (tee near far, .error e)
    | (near, .ok ()) =>
      let (far, res) := far.delete key
      (tee near far, res)
  | multi backends policy, key =>
    if backends.isEmpty then (multi backends policy, .ok ())
    else
      let results := deleteAll backends key
      (multi (results.map (·.1)) policy,
        policy.outcome "quorum not met for delete" (results.map (·.2)))

def deleteAll : List DynRegistry → StreamKey → List (DynRegistry × Answer)
  | [], _ => []
  | b :: bs, key => b.delete key :: deleteAll bs key

end

instance : RegistryApi DynRegistry := ⟨get, set, delete⟩

end DynRegistry

end Registry
