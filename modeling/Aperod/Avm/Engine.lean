import Aperod.Avm.State

/-!
# Contract execution

`avm/engine.go`.  What a Wasm module does is given by the calls it makes to the host, one after the
other, depending on what it was told before (`Contract`); which module does what is a parameter
(`Wasm`), with the validation of modules.  The host functions are translated: they charge gas, check
the access list and read or write the state of the call.  A host function that fails closes the
module, so that the call as a whole fails and nothing is written.
-/

namespace Aperod.Avm

open Go

variable {S : Type}

def gasStateRead : UInt64 := 25
def gasStateWrite : UInt64 := 100
def gasInputRead : UInt64 := 10
def gasOutputWrite : UInt64 := 10

def maxInputSize : Nat := 64 * 2 ^ 10
def maxStateKeySize : Nat := 64
def maxStateValue : Nat := 64 * 2 ^ 10

/-- The host calls of a module.  A slice that is read from the memory of the module is `none` if it
is out of bounds; `room n` says whether `n` bytes can be written to the output pointer. -/
inductive Contract
  | done
  | trap (msg : String)
  | consumeGas (amount : UInt64) (next : Contract)
  | stateRead (keyLen : UInt32) (key : Option Bytes) (outCap : UInt32) (room : Nat → Bool)
      (next : Option Bytes → Contract)
  | stateWrite (keyLen valueLen : UInt32) (key value : Option Bytes) (next : Contract)
  | inputRead (outCap : UInt32) (room : Nat → Bool) (next : Bytes → Contract)
  | outputWrite (length : UInt32) (output : Option Bytes) (next : Contract)

/-- The Wasm runtime. -/
structure Wasm where
  /-- `ValidateModule`: the static gas. -/
  validateModule : Bytes → Result UInt64
  /-- `CompileModule`, `InstantiateModule` and the entry function. -/
  instantiate : Bytes → Bytes → Result Contract

structure ExecutionRequest where
  contractID : Hash32
  code : Bytes
  entry : Bytes
  input : Bytes
  gasLimit : UInt64
  readOnly : Bool := false
  accessList : List (Bytes × Bool)

structure ExecutionResult where
  gasUsed : UInt64
  returnData : Bytes
  stateWrites : Nat
  deriving DecidableEq

structure Session (S : Type) where
  state : TransactionState S
  gasUsed : UInt64 := 0
  output : Bytes := []

def Session.charge (s : Session S) (r : ExecutionRequest) (amount : UInt64) : Result (Session S) := do
  failIf (amount > r.gasLimit - s.gasUsed) "avm: out of gas"
  .ok { s with gasUsed := s.gasUsed + amount }

/-- A slice of the module's memory. -/
def readMemory (msg : String) (slice : Option Bytes) : Result Bytes :=
  match slice with
  | none => fail msg
  | some bytes => .ok bytes

section Host

variable [Store S] (r : ExecutionRequest) (access : GoMap Bytes Bool)

/-- `state_read`: the value, if the key is found. -/
def Session.stateRead (s : Session S) (keyLen : UInt32) (key : Option Bytes) (outCap : UInt32)
    (room : Nat → Bool) : Result (Session S × Option Bytes) := do
  let s ← s.charge r (gasStateRead + keyLen.toUInt64)
  let key ← readMemory "avm: invalid state key" key
  failIf (key.length = 0 ∨ key.length > maxStateKeySize) "avm: invalid state key"
  failIf ((access.get key).isNone) "avm: undeclared state read"
  let value ← wrap "avm: state read" (s.state.get key)
  match value with
  | none => .ok (s, none)
  | some value => do
    failIf (UInt32.ofNat value.length > outCap ∨ ¬ room value.length)
      "avm: state read output buffer too small"
    .ok (s, some value)

def Session.stateWrite (s : Session S) (keyLen valueLen : UInt32) (key value : Option Bytes) :
    Result (Session S) := do
  let s ← s.charge r (gasStateWrite + keyLen.toUInt64 + valueLen.toUInt64)
  failIf r.readOnly "avm: write attempted in read-only execution"
  let key ← readMemory "avm: invalid state write" key
  let value ← readMemory "avm: invalid state write" value
  failIf (key.length = 0 ∨ key.length > maxStateKeySize ∨ value.length > maxStateValue)
    "avm: invalid state write"
  failIf (access.get key ≠ some true) "avm: undeclared state write"
  .ok { s with state := s.state.put key (some value) }

def Session.inputRead (s : Session S) (outCap : UInt32) (room : Nat → Bool) : Result (Session S) := do
  let s ← s.charge r (gasInputRead + UInt64.ofNat r.input.length)
  failIf (UInt32.ofNat r.input.length > outCap ∨ ¬ room r.input.length)
    "avm: input buffer too small"
  .ok s

def Session.outputWrite (s : Session S) (length : UInt32) (output : Option Bytes) :
    Result (Session S) := do
  let s ← s.charge r (gasOutputWrite + length.toUInt64)
  failIf (length.toNat > maxStateValue) s!"avm: output exceeds {maxStateValue} bytes"
  let output ← readMemory "avm: invalid output memory" output
  .ok { s with output }

/-- The call of the entry function. -/
def Contract.run : Contract → Session S → Result (Session S)
  | .done, s => .ok s
  | .trap msg, _ => fail s!"avm: contract trapped: {msg}"
  | .consumeGas amount next, s => do
    let s ← s.charge r amount
    next.run s
  | .stateRead keyLen key outCap room next, s => do
    let (s, value) ← s.stateRead r access keyLen key outCap room
    (next value).run s
  | .stateWrite keyLen valueLen key value next, s => do
    let s ← s.stateWrite r access keyLen valueLen key value
    next.run s
  | .inputRead outCap room next, s => do
    let s ← s.inputRead r outCap room
    (next r.input).run s
  | .outputWrite length output next, s => do
    let s ← s.outputWrite r length output
    next.run s

end Host

def accessMap (accessList : List (Bytes × Bool)) : Result (GoMap Bytes Bool) :=
  loop (fun _ (a : Bytes × Bool) m => do
    failIf (a.1.length = 0 ∨ a.1.length > maxStateKeySize)
      s!"avm: access key must be 1..{maxStateKeySize} bytes"
    failIf (m.get a.1).isSome "avm: duplicate access key"
    .ok (m.set a.1 a.2)) 0 accessList ∅

variable [Store S] (W : Wasm)

/-- `Execute` up to the commit: the session at the end. -/
def executeSession (store : S) (request : ExecutionRequest) : Result (Session S) := do
  let r := { request with
    entry := if request.entry = [] then "run".toList.map (fun c => UInt8.ofNat c.toNat)
      else request.entry }
  failIf (r.input.length > maxInputSize)
    s!"avm: input is {r.input.length} bytes, max {maxInputSize}"
  let staticGas ← W.validateModule r.code
  let access ← accessMap r.accessList
  let session : Session S := { state := { base := store, contractID := r.contractID } }
  let session ← session.charge r (staticGas + UInt64.ofNat r.input.length)
  let contract ← W.instantiate r.code r.entry
  contract.run r access session

def execute (store : S) (request : ExecutionRequest) : Result (ExecutionResult × S) := do
  let session ← executeSession W store request
  let writes := orderedWrites session.state.writes
  let result : ExecutionResult := ⟨session.gasUsed, session.output, writes.length⟩
  if request.readOnly then do
    failIf (writes.length ≠ 0) "avm: write attempted in read-only execution"
    .ok (result, store)
  else do
    let store ← wrap "avm: commit state" (Store.apply store writes)
    .ok (result, store)

end Aperod.Avm
