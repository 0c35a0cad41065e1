import S5.Core.Store
import S5.Lib.Hex
import S5.Registry.Api

/-!
# A registry in the paths of a store

`StoreRegistry` (`registries/store/src/lib.rs`) down to the objects of its store: the row of a key is
the object at `key_path`. `PathRegistry.rows` gives the table that `Rows` is about, and
`PathRegistry.rows_set` says that `set` is the one on it. `setWith` is `set` on a store whose calls may
fail (`CallOutcomes`).

A call of `set` takes two steps, since nothing locks the row between its read and its write
(`SetTask`). `Writers` are any number of calls at once.
-/

namespace Registry

/-! ## Paths -/

/-- `key_path`, of the two parts of `StreamKey::to_bytes`. -/
def keyPath (pfx : String) (key : UInt8 × Bytes) : String :=
  pfx ++ "/" ++ Hex.encode (key.1 :: key.2)

/-- Different keys have different paths. -/
theorem keyPath_injective (pfx : String) : Function.Injective (keyPath pfx) := by
  intro j k h
  have hhex : Hex.encode (j.1 :: j.2) = Hex.encode (k.1 :: k.2) := by
    have hlist := congrArg String.toList h
    simp only [keyPath, String.toList_append, List.append_cancel_left_eq] at hlist
    exact String.toList_injective hlist
  obtain ⟨h1, h2⟩ := List.cons.inj (Hex.encode_injective hhex)
  exact Prod.ext h1 h2

/-- A `StoreRegistry` in its store. -/
structure PathRegistry where
  store : Store
  pfx : String

namespace PathRegistry

variable (r : PathRegistry)

/-- A read that fails counts as a missing entry. -/
def get (key : StreamKey) : Except String (Option StreamMessage) :=
  match r.store.openReadBytes (keyPath r.pfx key.toBytes) 0 none with
  | .error _ => .ok none
  | .ok bytes =>
    match StreamMessage.deserialize bytes with
    | .ok m => .ok (some m)
    | .error e => .error e.display

/-- The write of `set`. -/
def put (message : StreamMessage) : PathRegistry :=
  { r with store := r.store.putBytes (keyPath r.pfx message.key.toBytes) message.serialize }

def set (message : StreamMessage) : PathRegistry × Answer :=
  match r.get message.key with
  | .error e => (r, .error e)
  | .ok existing => if message.shouldStore existing then (r.put message, .ok ()) else (r, .ok ())

def delete (key : StreamKey) : PathRegistry × Answer :=
  ({ r with store := r.store.delete (keyPath r.pfx key.toBytes) }, .ok ())

instance : RegistryApi PathRegistry := ⟨get, set, delete⟩

/-- The rows of the registry, by the bytes of their keys. -/
def rows : Rows := ⟨fun key => r.store.object (keyPath r.pfx key)⟩

theorem rows_get (key : StreamKey) : r.rows.get key = r.get key := by
  unfold get Rows.get rows
  rw [Store.openReadBytes_zero_none]
  dsimp only
  cases r.store.object (keyPath r.pfx key.toBytes) <;> rfl

theorem rows_put (m : StreamMessage) :
    (r.put m).rows = ⟨Function.update r.rows.row m.key.toBytes (some m.serialize)⟩ := by
  unfold rows put
  congr 1
  funext key
  by_cases hk : key = m.key.toBytes
  · simp [hk]
  · have hpath : keyPath r.pfx key ≠ keyPath r.pfx m.key.toBytes :=
      fun h => hk (keyPath_injective r.pfx h)
    simp [hk, hpath]

theorem get_put (m : StreamMessage) : (r.put m).get m.key = .ok (some m.wire) := by
  rw [← rows_get, rows_put]
  unfold Rows.get
  dsimp only
  rw [Function.update_self]
  dsimp only
  rw [StreamMessage.deserialize_serialize]

theorem get_put_ne (m : StreamMessage) {k : StreamKey} (hk : k ≠ m.key) :
    (r.put m).get k = r.get k := by
  have hb : k.toBytes ≠ m.key.toBytes := fun h => hk (StreamKey.toBytes_injective h)
  rw [← rows_get, rows_put, ← rows_get]
  unfold Rows.get
  dsimp only
  rw [Function.update_of_ne hb]

/-- **`set` is the one on the rows.** -/
theorem rows_set (m : StreamMessage) :
    (r.set m).1.rows = (r.rows.set m).1 ∧ (r.set m).2 = (r.rows.set m).2 := by
  unfold set Rows.set
  rw [rows_get]
  cases r.get m.key with
  | error e => exact ⟨rfl, rfl⟩
  | ok existing =>
    dsimp only
    split
    · exact ⟨rows_put r m, rfl⟩
    · exact ⟨rfl, rfl⟩

theorem rows_delete (key : StreamKey) : (r.delete key).1.rows = r.rows.delete key := by
  unfold rows delete Rows.delete
  congr 1
  funext k
  by_cases hk : k = key.toBytes
  · simp [hk]
  · have hpath : keyPath r.pfx k ≠ keyPath r.pfx key.toBytes :=
      fun h => hk (keyPath_injective r.pfx h)
    simp [hk, hpath]

end PathRegistry

/-! ## Calls that fail -/

/-- What becomes of a `put_bytes`. One that fails may have reached the store all the same. -/
inductive PutOutcome where
  | stored
  | failed (landed : Bool)
  deriving DecidableEq

/-- The object has been written. -/
def PutOutcome.landed : PutOutcome → Bool
  | stored => true
  | failed landed => landed

/-- How the store answers the calls of one `set`. -/
structure CallOutcomes where
  readFails : Bool
  put : PutOutcome

/-- A store that answers every call. -/
def CallOutcomes.reliable : CallOutcomes := ⟨false, .stored⟩

namespace PathRegistry

variable (r : PathRegistry)

/-- The error of a call that fails. -/
def storeError : String := "store error"

/-- `get`, where the read may fail. -/
def getWith (calls : CallOutcomes) (key : StreamKey) : Except String (Option StreamMessage) :=
  if calls.readFails then .ok none else r.get key

/-- `set`, where the calls of the store may fail. -/
def setWith (calls : CallOutcomes) (message : StreamMessage) : PathRegistry × Answer :=
  match r.getWith calls message.key with
  | .error e => (r, .error e)
  | .ok existing =>
    if message.shouldStore existing then
      (if calls.put.landed then r.put message else r,
        if calls.put = .stored then .ok () else .error storeError)
    else (r, .ok ())

theorem setWith_reliable (message : StreamMessage) :
    r.setWith .reliable message = r.set message := by
  unfold setWith set
  rfl

end PathRegistry

/-! ## Calls at once -/

/-- A call of `set`: it has yet to read the entry, it has read one that it beats, or it has
returned. -/
inductive SetTask where
  | start (message : StreamMessage)
  | writing (message : StreamMessage)
  | returned (message : StreamMessage) (answer : Answer)

namespace SetTask

def message : SetTask → StreamMessage
  | start m => m
  | writing m => m
  | returned m _ => m

/-- The call has returned `Ok`. -/
def isOk : SetTask → Bool
  | returned _ (.ok ()) => true
  | _ => false

/-- The next read or write of the call. -/
def step (r : PathRegistry) : SetTask → PathRegistry × SetTask
  | start m =>
    match r.get m.key with
    | .error e => (r, returned m (.error e))
    | .ok existing => (r, if m.shouldStore existing then writing m else returned m (.ok ()))
  | writing m => (r.put m, returned m (.ok ()))
  | returned m a => (r, returned m a)

end SetTask

structure Writers where
  registry : PathRegistry
  tasks : List SetTask

namespace Writers

/-- Calls that have just been made. -/
def started (r : PathRegistry) (messages : List StreamMessage) : Writers :=
  ⟨r, messages.map .start⟩

/-- The next step of call `i`. -/
def step (s : Writers) (i : Nat) : Writers :=
  match s.tasks[i]? with
  | none => s
  | some t =>
    let (registry, t) := t.step s.registry
    ⟨registry, s.tasks.set i t⟩

end Writers

end Registry
