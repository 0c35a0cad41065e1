import S5.Registry.Api

/-!
# The registry pinner

`RegistryPinner` (`s5_core/src/pins/registry_pinner.rs`): the pin set of a blob is the payload of
a registry message under the blob's pin key. The lock of a hash makes each call one step. A node
gives the registry it pins in to its `RegistryServer` as well (`S5Node::new_with_endpoint` in
`s5_node/src/lib.rs`), so that its peers' requests act on the same rows (`NodeEvent`).
-/

namespace Registry

/-- The CBOR of pin sets, which lies outside the repository: `minicbor::to_vec` of the sorted
contexts, and `minicbor::decode`. An encoding has at least one byte. -/
structure PinCodec where
  encode : Finset PinContext → Bytes
  decode : Bytes → Option (Finset PinContext)
  blake3 : Bytes → Hash
  encode_ne_nil : ∀ pinners, encode pinners ≠ []

def hashToKey (h : Hash) : StreamKey := .blake3HashPin h

section
variable {ρ : Type} [RegistryApi ρ] (codec : PinCodec) (r : ρ)

/-- The pinners under a key and the revision they are stored with. -/
def getInternal (key : StreamKey) : Except String (Finset PinContext × UInt64) :=
  match RegistryApi.get r key with
  | .error e => .error e
  | .ok none => .ok (∅, 0)
  | .ok (some msg) =>
    match msg.data with
    | none => .ok (∅, msg.revision)
    | some data =>
      match codec.decode data with
      | some pinners => .ok (pinners, msg.revision)
      | none => .error "CBOR decode failed"

/-- Stores a pin set; an empty one is a deleted entry. -/
def saveInternal (key : StreamKey) (pinners : Finset PinContext) (newRevision : UInt64) :
    ρ × Answer :=
  if pinners = ∅ then RegistryApi.delete r key
  else
    let data := codec.encode pinners
    match StreamMessage.new .registry key newRevision (codec.blake3 data) [] (some data) with
    | .error e => (r, .error e.display)
    | .ok message => RegistryApi.set r message

def pinHash (h : Hash) (c : PinContext) : ρ × Answer :=
  match getInternal codec r (hashToKey h) with
  | .error e => (r, .error e)
  | .ok (pinners, revision) => saveInternal codec r (hashToKey h) (insert c pinners) (revision + 1)

def unpinHash (h : Hash) (c : PinContext) : ρ × Except String Bool :=
  match getInternal codec r (hashToKey h) with
  | .error e => (r, .error e)
  | .ok (pinners, revision) =>
    if c ∉ pinners then (r, .ok (pinners = ∅))
    else
      let pinners := pinners.erase c
      match saveInternal codec r (hashToKey h) pinners (revision + 1) with
      | (r, .error e) => (r, .error e)
      | (r, .ok ()) => (r, .ok (pinners = ∅))

def unpinHashAll (h : Hash) : ρ × Answer :=
  match getInternal codec r (hashToKey h) with
  | .error e => (r, .error e)
  | .ok (pinners, revision) =>
    if pinners = ∅ then (r, .ok ())
    else saveInternal codec r (hashToKey h) ∅ (revision + 1)

def getPinners (h : Hash) : Except String (Finset PinContext) :=
  (getInternal codec r (hashToKey h)).map (·.1)

def isPinned (h : Hash) (c : PinContext) : Except String Bool :=
  (getInternal codec r (hashToKey h)).map (c ∈ ·.1)

end

/-! ## A node -/

/-- What acts on the registry of a node: a request of a peer, or a local pin call. -/
inductive NodeEvent where
  | remote (req : RpcProto)
  | pin (h : Hash) (c : PinContext)
  | unpin (h : Hash) (c : PinContext)
  | unpinAll (h : Hash)

def NodeEvent.isLocal : NodeEvent → Bool
  | remote _ => false
  | _ => true

def nodeStep {ρ : Type} [RegistryApi ρ] (codec : PinCodec) (r : ρ) : NodeEvent → ρ
  | .remote req => serve r req
  | .pin h c => (pinHash codec r h c).1
  | .unpin h c => (unpinHash codec r h c).1
  | .unpinAll h => (unpinHashAll codec r h).1

end Registry
