import Aperod.Crypto.Primitives
import Aperod.Go.Range

/-!
# Contract state

`avm/state.go`, `avm/leveldb_store.go` and the contract part of `store/leveldb.go`.  A store is a
key-value map behind two calls; there are three: in memory, in LevelDB, and an overlay that stages
writes over another store.  A Go slice that may be nil is an `Option Bytes`: nil deletes, an empty
slice is a value.

Every call of a contract works on a `TransactionState`, which puts the contract's identifier in front
of its keys.
-/

namespace Aperod.Avm

open Go

variable {S : Type}

/-- `Write`: a nil value deletes the key. -/
structure Write where
  key : Bytes
  value : Option Bytes
  deriving DecidableEq

/-- `Store`: `Get` has the value of a key if it is found, `Apply` commits all writes or none. -/
class Store (S : Type) where
  get : S → Bytes → Result (Option Bytes)
  apply : S → List Write → Result S

/-- What `Get` reports besides an error: the found flag, and the value. -/
def report [Store S] (s : S) (key : Bytes) : Option Bytes :=
  match Store.get s key with
  | .ok value => value
  | .error _ => none

def putOrDelete (data : GoMap Bytes Bytes) (w : Write) : GoMap Bytes Bytes :=
  match w.value with
  | none => data.del w.key
  | some value => data.set w.key value

/-! ### In memory -/

structure MemoryStore where
  data : GoMap Bytes Bytes := ∅
  deriving DecidableEq

instance : Store MemoryStore where
  get s key := .ok (s.data.get key)
  apply s writes := do
    failIf (∃ w ∈ writes, w.key = []) "avm state: empty key"
    .ok { s with data := writes.foldl putOrDelete s.data }

/-- `Writes`: the whole state in the order of the keys. -/
def MemoryStore.writes (s : MemoryStore) : List Write :=
  s.data.sortedKeys.map fun key => ⟨key, s.data.get key⟩

/-! ### LevelDB -/

/-- `LevelStore`: the keys under `a/`, and whether LevelDB reads an empty value back as nil. -/
structure LevelStore where
  data : GoMap Bytes Bytes := ∅
  nilEmpty : Bool := false

/-- What LevelDB has for a stored value. -/
def readBack (nilEmpty : Bool) (value : Option Bytes) : Option Bytes :=
  value.filter fun b => !(nilEmpty && b.isEmpty)

/-- `GetAVMState`, and `ApplyAVMState` with `avmBatch`. -/
instance : Store LevelStore where
  get s key := do
    failIf (key = []) "store: empty AVM key"
    -- `return value, value != nil, err`
    .ok (readBack s.nilEmpty (s.data.get key))
  apply s writes := do
    failIf (∃ w ∈ writes, w.key = []) "store: empty AVM key"
    .ok { s with data := writes.foldl putOrDelete s.data }

/-! ### Overlay -/

/-- `OverlayStore`: staged writes over another store. -/
structure OverlayStore (S : Type) where
  base : S
  writes : GoMap Bytes (Option Bytes) := ∅

instance [Store S] : Store (OverlayStore S) where
  get s key :=
    match s.writes.get key with
    | some value => .ok value
    | none => Store.get s.base key
  apply s writes := do
    failIf (∃ w ∈ writes, w.key = []) "avm overlay: empty key"
    .ok { s with writes := writes.foldl (fun m w => m.set w.key w.value) s.writes }

/-- The writes of a map in the order of the keys. -/
def orderedWrites (writes : GoMap Bytes (Option Bytes)) : List Write :=
  writes.sortedKeys.map fun key => ⟨key, (writes.get key).join⟩

/-- `OverlayStore.Writes`. -/
def OverlayStore.ordered (s : OverlayStore S) : List Write := orderedWrites s.writes

/-! ### The state of one call -/

structure TransactionState (S : Type) where
  base : S
  contractID : Hash32
  writes : GoMap Bytes (Option Bytes) := ∅

/-- `namespaced`: the identifier, a slash and the key. -/
def namespaced (contractID : Hash32) (key : Bytes) : Bytes :=
  Bytes32.bytes contractID ++ [0x2f] ++ key

namespace TransactionState

def get [Store S] (s : TransactionState S) (key : Bytes) : Result (Option Bytes) :=
  match s.writes.get (namespaced s.contractID key) with
  | some value => .ok value
  | none => Store.get s.base (namespaced s.contractID key)

def put (s : TransactionState S) (key : Bytes) (value : Option Bytes) : TransactionState S :=
  { s with writes := s.writes.set (namespaced s.contractID key) value }

end TransactionState

end Aperod.Avm
