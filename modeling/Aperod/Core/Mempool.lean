import Aperod.Core.TxVerifier
import Aperod.Go.Sort

/-!
# The mempool

`Mempool` of `mempool.go`: pending transactions by hash, with the reservations that keep two pending
transactions from conflicting (key images, one stake transaction for each validator, one AVM
transaction for each signer), the ban list and the base fee that admission is checked against.

`Add` may have to evict transactions first, and which of several equally cheap ones goes depends on
the order of a map; admission is therefore a relation (`Mempool.Adds`), and so is what a rejected call
leaves (`Mempool.Rejects`).  The dump to disk and the eviction counter are left out.
-/

namespace Aperod

open Go

structure MempoolEntry where
  tx : Transaction
  size : Nat
  received : Int
  privileged : Bool := false
  deriving DecidableEq

/-- The fixed part of `MempoolConfig`. -/
structure MempoolConfig where
  maxSize : Nat := 10000
  maxBytes : Nat := 256 * 1024 * 1024
  maxTxSize : Nat := 100000
  /-- In nanoseconds. -/
  ttl : Int := 2 * 3600 * 10 ^ 9
  ringCTV4ActivationHeight : Nat := 0
  ringCTCLSAGActivationHeight : Nat := 0
  avmActivationHeight : Nat := 0

/-- The callbacks of `MempoolConfig`, as they answer at the time of a call. -/
structure MempoolHooks where
  currentHeight : Option Nat := none
  verifier : Option TxVerifier := none
  avmNonceLookup : Option (Bytes32 → Result UInt64) := none
  avmAdmissionCheck : Option (AVMPayload → Result Unit) := none
  stakeAdmissionCheck : Option (Transaction → Nat → Result Unit) := none

structure Mempool where
  cfg : MempoolConfig := {}
  baseFeePerByte : Nat := initialBaseFeePerByte
  entries : GoMap Hash32 MempoolEntry := ∅
  totalBytes : Nat := 0
  keyImages : GoMap KeyImage Hash32 := ∅
  stakeSenders : GoMap ValidatorPubKey Hash32 := ∅
  avmSigners : GoMap Bytes32 Hash32 := ∅
  bannedHashes : GoMap Hash32 Int := ∅

/-- `bannedTxTTL`, in nanoseconds. -/
def bannedTxTTL : Int := 24 * 3600 * 10 ^ 9

def avmGasPriceNAPR : Nat := 10
def avmMaxBlockGas : Nat := 10000000

def avmGasFee (gasLimit : Nat) : Result Nat := do
  failIf (gasLimit > maxUint64 / avmGasPriceNAPR) "avm gas fee overflows uint64"
  .ok (gasLimit * avmGasPriceNAPR)

/-- `stakeExtraPubKey`.  The v4 deposit layout is not among the lengths it knows. -/
def stakeExtraPubKey (extra : Bytes) : Result ValidatorPubKey := do
  failIf (extra.length ≠ stakePayloadSize ∧ extra.length ≠ stakeWithdrawalPayloadSizeV2 ∧
      extra.length ≠ stakePayloadSizeV2 ∧ extra.length ≠ stakePayloadSizeV3)
    s!"stake extra: expected {stakePayloadSize} or {stakePayloadSizeV2} bytes, got {extra.length}"
  .ok (slice extra 1 33)

variable (C : Externals)

namespace Mempool

variable (m : Mempool)

def setBaseFee (baseFeePerByte : Nat) : Mempool :=
  { m with baseFeePerByte := max baseFeePerByte minBaseFeePerByte }

/-! ### Leaving the pool -/

def removeStakeSender (hash : Hash32) (tx : Transaction) : GoMap ValidatorPubKey Hash32 :=
  if tx.isStake then
    match stakeExtraPubKey tx.extra with
    | .ok pub => if m.stakeSenders.get pub = some hash then m.stakeSenders.del pub else m.stakeSenders
    | .error _ => m.stakeSenders
  else m.stakeSenders

def removeAVMSigner (hash : Hash32) (tx : Transaction) : GoMap Bytes32 Hash32 :=
  match (if tx.isAVM then tx.avm else none) with
  | some p =>
    if m.avmSigners.get p.signer = some hash then m.avmSigners.del p.signer else m.avmSigners
  | none => m.avmSigners

def remove (hash : Hash32) : Mempool :=
  match m.entries.get hash with
  | none => m
  | some e =>
    { m with
      keyImages := e.tx.inputs.foldl (fun kis inp => kis.del inp.keyImage) m.keyImages
      stakeSenders := m.removeStakeSender hash e.tx
      avmSigners := m.removeAVMSigner hash e.tx
      totalBytes := m.totalBytes - e.size
      entries := m.entries.del hash }

def banTx (now : Int) (hash : Hash32) : Mempool :=
  let m := m.remove hash
  { m with bannedHashes := m.bannedHashes.set hash now }

def removeAll (txs : List Transaction) : Mempool :=
  txs.foldl (fun m tx => m.remove (tx.hash C)) m

def banAll (now : Int) (txs : List Transaction) : Mempool :=
  txs.foldl (fun m tx => m.banTx now (tx.hash C)) m

def removeBlock (b : Block) : Mempool := m.removeAll C b.txs

/-- `Evict`, along one order of the map: what is older than the TTL leaves, and so do old bans. -/
def evict (order : List (Hash32 × MempoolEntry)) (now : Int) : Mempool :=
  let m := (order.filter fun e => now - e.2.received > m.cfg.ttl).foldl (fun m e => m.remove e.1) m
  { m with bannedHashes := m.bannedHashes.filter fun _ bannedAt => ¬ now - bannedAt > bannedTxTTL }

def isPrivileged (hash : Hash32) : Bool := (m.entries.get hash).any (·.privileged)

/-! ### Selection -/

end Mempool

/-- Fee for each byte, by integer division. -/
def MempoolEntry.feeRate (e : MempoolEntry) : Nat := e.tx.fee.toNat / max e.size 1

/-- Whether the entry may be evicted for its fee rate: system transactions go last. -/
def MempoolEntry.priced (e : MempoolEntry) : Bool :=
  !(e.tx.isCoinbase || e.tx.isStake || e.tx.isLPoDPosition)

namespace Mempool

variable (m : Mempool)

/-- `SelectTxs`, along one order of the map. -/
def selectTxs (order : List (Hash32 × MempoolEntry)) (n : Nat) : List Transaction :=
  ((sortSlice (fun a b => a.2.feeRate > b.2.feeRate) order).take n).map (·.2.tx)

/-! ### Admission -/

/-- The fee a transaction must pay to be admitted; stake transactions and LPoD positions are
exempt. -/
def checkFee (tx : Transaction) : Result Unit :=
  if tx.isStake || tx.isLPoDPosition then .ok ()
  else do
    let base := tx.minFeeAt m.baseFeePerByte
    let minFee ← match (if tx.isAVM then tx.avm else none) with
      | some p =>
        match avmGasFee p.gasLimit.toNat with
        | .ok gasFee => do
          failIf (base > maxUint64 - gasFee) "mempool: AVM gas fee overflows"
          .ok (base + gasFee)
        | .error _ => fail "mempool: AVM gas fee overflows"
      | none => .ok base
    failIf (∃ burn ∈ tx.burnAmount, minFee > maxUint64 - burn ∨ tx.fee.toNat < minFee + burn)
      s!"mempool: intentional burn fee too low: {tx.fee} nAPRO < {minFee + tx.burnAmount.getD 0} nAPRO minimum base fee plus burn"
    failIf (tx.fee.toNat < minFee)
      s!"mempool: fee too low: {tx.fee} nAPRO < {minFee} nAPRO minimum (base plus reserved AVM gas)"

def validateAVMNonce (hooks : MempoolHooks) (tx : Transaction) : Result Unit :=
  match (if tx.isAVM then tx.avm else none), hooks.avmNonceLookup with
  | some p, some lookup => do
    let expected ← wrap "mempool: AVM nonce lookup failed" (lookup p.signer)
    failIf (p.nonce ≠ expected) s!"mempool: AVM nonce {p.nonce}, expected {expected}"
    match hooks.avmAdmissionCheck with
    | some check => wrap "mempool: AVM admission rejected" (check p)
    | none => .ok ()
  | _, _ => .ok ()

def nextBlockHeight (hooks : MempoolHooks) : Nat :=
  match hooks.currentHeight with
  | none => 0
  | some height => if height < maxUint64 then height + 1 else height

/-- `Add` up to the AVM nonce: the checks of the transaction alone. -/
def checkTx (hooks : MempoolHooks) (tx : Transaction) : Result Unit := do
  failIf (tx.isGuardianFund || tx.isLPoD || tx.isLPoDPayout)
    "mempool: guardian fund transaction is consensus-synthesized only"
  failIf (tx.isCoinbase ∧ ¬ tx.isStake)
    "mempool: coinbase (zero-input) transactions are not accepted from external sources"
  let height := nextBlockHeight hooks
  if hooks.currentHeight ≠ none then
    wrap "mempool: transaction activation policy"
      (validateTxVersionAtHeight C tx height m.cfg.ringCTV4ActivationHeight
        m.cfg.ringCTCLSAGActivationHeight m.cfg.avmActivationHeight)
  wrap "mempool: invalid tx" (tx.validate C)
  match hooks.verifier with
  | some v => wrap "mempool: crypto verification failed" (v.verifyTxAtHeight C tx height)
  | none => .ok ()
  failIf (tx.size > m.cfg.maxTxSize)
    s!"mempool: tx too large: {tx.size} bytes (max {m.cfg.maxTxSize})"
  m.checkFee tx
  validateAVMNonce hooks tx

/-- A pending stake transaction of the same validator that became stale gives its place up. -/
def releaseStale (check : Transaction → Nat → Result Unit) (height : Nat) (pub : ValidatorPubKey) :
    Mempool :=
  match m.stakeSenders.get pub with
  | none => m
  | some pending =>
    match m.entries.get pending with
    | none => m
    | some e =>
      match check e.tx height with
      | .ok () => m
      | .error _ => m.remove pending

/-- The stake part of `Add`: the canonical check, and the release of a stale reservation. -/
def checkStakeSender (hooks : MempoolHooks) (tx : Transaction) : Result Mempool :=
  if tx.isStake then do
    let pub ← wrap "mempool: malformed stake extra" (stakeExtraPubKey tx.extra)
    failIf (hooks.stakeAdmissionCheck.isNone ∧ hooks.currentHeight ≠ none)
      "mempool: canonical stake admission unavailable"
    match hooks.stakeAdmissionCheck with
    | none => .ok m
    | some check => do
      wrap "mempool: stale or invalid stake transaction" (check tx (nextBlockHeight hooks))
      .ok (m.releaseStale check (nextBlockHeight hooks) pub)
  else .ok m

/-- The conflict checks of `Add`, under the lock. -/
def checkConflicts (tx : Transaction) : Result Unit := do
  let hash := tx.hash C
  failIf (m.entries.has hash) s!"mempool: duplicate tx {hex8 hash}"
  failIf (m.bannedHashes.has hash)
    s!"mempool: tx {hex8 hash} is banned — failed block production and cannot be re-accepted"
  if tx.isStake then
    failSome (m.stakeSenders.get (slice tx.extra 1 33)) fun conflicting =>
      s!"mempool: stake tx from validator {ValidatorPubKey.id (slice tx.extra 1 33)} already pending (tx {hex8 conflicting}); wait for confirmation before submitting another"
  failSome ((if tx.isAVM then tx.avm else none).bind fun p =>
      (m.avmSigners.get p.signer).map (p.signer, ·)) fun (signer, conflicting) =>
    s!"mempool: AVM transaction from signer {hex8 signer} already pending (tx {hex8 conflicting}); wait for confirmation before submitting another"
  checkAll (fun _ inp => failSome (m.keyImages.get inp.keyImage) fun conflicting =>
    s!"mempool: double-spend attempt, key image conflicts with tx {hex8 conflicting}") 0 tx.inputs

/-- The pool has no room for `size` more bytes. -/
def full (size : Nat) : Bool :=
  m.entries.len ≥ m.cfg.maxSize || (m.cfg.maxBytes > 0 && m.totalBytes + size > m.cfg.maxBytes)

/-- The entries `evictLowestFeeRate` may take: a cheapest priced one, or else an oldest one. -/
def Evicts (hash : Hash32) : Prop :=
  ∃ e, m.entries.get hash = some e ∧
    if e.priced then ∀ hash' e', m.entries.get hash' = some e' → e'.priced → e.feeRate ≤ e'.feeRate
    else ∀ hash' e', m.entries.get hash' = some e' → ¬ e'.priced ∧ e.received ≤ e'.received

/-- The eviction loop of `Add`. -/
inductive MakesRoom (size : Nat) : Mempool → Mempool → Prop
  | done {m : Mempool} : ¬ m.full size → MakesRoom size m m
  | evict {m m' : Mempool} {hash : Hash32} : m.full size → m.Evicts hash →
      MakesRoom size (m.remove hash) m' → MakesRoom size m m'

/-- The last part of `Add`: the entry and its reservations. -/
def insert (now : Int) (tx : Transaction) : Mempool :=
  let hash := tx.hash C
  { m with
    entries := m.entries.set hash { tx, size := tx.size, received := now }
    totalBytes := m.totalBytes + tx.size
    keyImages := tx.inputs.foldl (fun kis inp => kis.set inp.keyImage hash) m.keyImages
    stakeSenders := if tx.isStake then m.stakeSenders.set (slice tx.extra 1 33) hash
      else m.stakeSenders
    avmSigners := match (if tx.isAVM then tx.avm else none) with
      | some p => m.avmSigners.set p.signer hash
      | none => m.avmSigners }

/-- `Add` admits the transaction and leaves the pool `m'`. -/
def Adds (hooks : MempoolHooks) (now : Int) (tx : Transaction) (m' : Mempool) : Prop :=
  m.checkTx C hooks tx = .ok () ∧ ∃ m1 m2, m.checkStakeSender hooks tx = .ok m1 ∧
    m1.checkConflicts C tx = .ok () ∧ MakesRoom tx.size m1 m2 ∧ m' = m2.insert C now tx

/-- The eviction loop with a transaction that does not fit into an empty pool. -/
inductive RunsOut (size : Nat) : Mempool → Mempool → Prop
  | stuck {m : Mempool} : m.full size → m.entries = ∅ → RunsOut size m m
  | evict {m m' : Mempool} {hash : Hash32} : m.full size → m.Evicts hash →
      RunsOut size (m.remove hash) m' → RunsOut size m m'

/-- `Add` returns an error and leaves the pool `m'`: a stale stake transaction may have given its
place up, and the pool may have been emptied in vain. -/
def Rejects (hooks : MempoolHooks) (tx : Transaction) (m' : Mempool) : Prop :=
  (m.checkTx C hooks tx ≠ .ok () ∧ m' = m) ∨
  m.checkTx C hooks tx = .ok () ∧
    ((∃ err, m.checkStakeSender hooks tx = .error err ∧ m' = m) ∨
      ∃ m1, m.checkStakeSender hooks tx = .ok m1 ∧
        ((m1.checkConflicts C tx ≠ .ok () ∧ m' = m1) ∨
          m1.checkConflicts C tx = .ok () ∧ RunsOut tx.size m1 m'))

/-! ### Privileged admission -/

/-- The verification part of `AddPrivileged`; coinbases are trusted. -/
def verifyPrivileged (hooks : MempoolHooks) (tx : Transaction) : Result Unit :=
  match hooks.verifier with
  | some v =>
    if tx.isCoinbase then .ok ()
    else wrap "mempool: crypto verification failed (privileged)"
      (v.verifyTxAtHeight C tx (nextBlockHeight hooks))
  | none => .ok ()

/-- The checks of `AddPrivileged`.  Key images and stake senders are not looked at. -/
def checkPrivileged (hooks : MempoolHooks) (tx : Transaction) : Result Unit := do
  failIf (tx.isGuardianFund || tx.isLPoD || tx.isLPoDPayout)
    "mempool: guardian fund transaction is never admitted"
  wrap "mempool: invalid tx" (tx.validate C)
  validateAVMNonce hooks tx
  verifyPrivileged C hooks tx
  failIf (tx.size > m.cfg.maxTxSize)
    s!"mempool: tx too large: {tx.size} bytes (max {m.cfg.maxTxSize})"
  let hash := tx.hash C
  failIf (m.entries.has hash) s!"mempool: duplicate tx {hex8 hash}"
  failSome ((if tx.isAVM then tx.avm else none).bind fun p =>
      (m.avmSigners.get p.signer).map (p.signer, ·)) fun (signer, conflicting) =>
    s!"mempool: AVM transaction from signer {hex8 signer} already pending (tx {hex8 conflicting}); wait for confirmation before submitting another"

/-- The last part of `AddPrivileged`: the entry and the reservation of an AVM signer. -/
def insertPrivileged (now : Int) (tx : Transaction) : Mempool :=
  let hash := tx.hash C
  { m with
    entries := m.entries.set hash { tx, size := tx.size, received := now, privileged := true }
    totalBytes := m.totalBytes + tx.size
    avmSigners := match (if tx.isAVM then tx.avm else none) with
      | some p => m.avmSigners.set p.signer hash
      | none => m.avmSigners }

/-- `AddPrivileged` admits the transaction and leaves the pool `m'`. -/
def AddsPrivileged (hooks : MempoolHooks) (now : Int) (tx : Transaction) (m' : Mempool) : Prop :=
  m.checkPrivileged C hooks tx = .ok () ∧
    ∃ m1, MakesRoom tx.size m m1 ∧ m' = m1.insertPrivileged C now tx

/-- `AddPrivileged` returns an error and leaves the pool `m'`. -/
def RejectsPrivileged (hooks : MempoolHooks) (tx : Transaction) (m' : Mempool) : Prop :=
  (m.checkPrivileged C hooks tx ≠ .ok () ∧ m' = m) ∨
    m.checkPrivileged C hooks tx = .ok () ∧ RunsOut tx.size m m'

end Mempool

end Aperod
