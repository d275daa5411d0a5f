import Aperod.Core.Block
import Aperod.Go.Uint64

/-!
# The sale ledger

Package `sale`: a signed checkpoint opens an allocation (`Checkpoint.verify`), a reconciliation says
where the rest of the cap is (`verifyReconciledCheckpoint`), and every block moves what it sells from
`remaining` to `sold` (`State.advance`).  An order and a payment may be used once: within a block the
ledger itself remembers them, and for the blocks before it the caller answers `consumed`.
-/

namespace Aperod.Sale

open Go

def capNAPRO : UInt64 := 10000000000 * 100000000

def minimumGuardianReserveNAPRO : UInt64 := 1000000000 * 100000000

def u64 (n : UInt64) : Bytes := beBytes 8 n.toNat

def boolByte (b : Bool) : UInt8 := if b then 1 else 0

def mainnetByte : UInt8 := 0x41

def testnetByte : UInt8 := 0x54

def devnetByte : UInt8 := 0x44

/-! ### Checkpoints -/

structure Attestation where
  validator : ValidatorPubKey
  signature : Bytes
  deriving DecidableEq

structure Checkpoint where
  genesis : Hash32
  network : UInt8
  height : UInt64
  parent : Hash32
  snapshotRoot : Hash32
  historicIssued : UInt64
  otherReserved : UInt64
  saleRemaining : UInt64
  saleAuthority : ValidatorPubKey
  attestations : List Attestation
  deriving DecidableEq

variable (C : Externals)

def Checkpoint.message (c : Checkpoint) : Hash32 :=
  C.hashBytes (ascii "aperod/sale/forward-checkpoint/authorization/v1" ++ c.genesis.bytes ++
    [c.network] ++ u64 c.height ++ c.parent.bytes ++ c.snapshotRoot.bytes ++
    u64 c.historicIssued ++ u64 c.otherReserved ++ u64 c.saleRemaining ++ c.saleAuthority)

def nonzeroPub (key : ValidatorPubKey) : Bool := key.length = 32 && key.any (· ≠ 0)

/-- The trusted authorities, each named once. -/
def allowedAuthorities (trusted : List ValidatorPubKey) : Result (List ValidatorPubKey) :=
  loop (fun _ key (allowed : List ValidatorPubKey) => do
    failIf (¬ nonzeroPub key ∨ key ∈ allowed) "sale: invalid trusted authority configuration"
    .ok (key :: allowed)) 0 trusted []

/-- The authorities that signed, each once. -/
def attestingAuthorities (allowed : List ValidatorPubKey) (msg : Hash32)
    (attestations : List Attestation) : Result (List ValidatorPubKey) :=
  loop (fun _ (a : Attestation) (seen : List ValidatorPubKey) => do
    failIf (a.validator ∉ allowed ∨ a.validator ∈ seen ∨
        ¬ ValidatorPubKey.verify C a.validator msg a.signature)
      "sale: forged, duplicate, or untrusted checkpoint attestation"
    .ok (a.validator :: seen)) 0 attestations []

def Checkpoint.verify (c : Checkpoint) (genesis parent : Hash32) (height : UInt64)
    (trusted : List ValidatorPubKey) : Result Unit := do
  failIf (height = 0 ∨ c.height ≠ height ∨ c.parent ≠ parent ∨ parent = 0 ∨ c.genesis ≠ genesis ∨
      genesis = 0 ∨ c.snapshotRoot = 0 ∨ ¬ nonzeroPub c.saleAuthority)
    "sale: checkpoint is not bound to the canonical activation parent and authority"
  failIf (c.network ≠ mainnetByte ∧ c.network ≠ testnetByte ∧ c.network ≠ devnetByte)
    "sale: unsupported address network"
  failIf (c.saleRemaining = 0 ∨ c.historicIssued > capNAPRO ∨
      c.otherReserved > capNAPRO - c.historicIssued ∨
      c.saleRemaining > capNAPRO - c.historicIssued - c.otherReserved)
    "sale: declared nominal budget exceeds the 10B cap"
  let allowed ← allowedAuthorities trusted
  failIf (allowed.length = 0) "sale: missing trusted authorities"
  let seen ← attestingAuthorities C allowed (c.message C) c.attestations
  failIf (seen.length ≤ 2 * allowed.length / 3)
    "sale: checkpoint requires greater than two-thirds trusted authority signatures"

/-! ### Reconciliation -/

structure NetAllocationBasis where
  burned : UInt64
  walletNet : UInt64
  walletAccountingRoot : Hash32
  deriving DecidableEq

def NetAllocationBasis.consumed (n : NetAllocationBasis) : Result UInt64 := do
  failIf (n.walletAccountingRoot = 0 ∨ n.burned > capNAPRO ∨ n.walletNet > capNAPRO - n.burned)
    "sale: attested post-burn wallet accounting required"
  .ok (n.burned + n.walletNet)

def NetAllocationBasis.digest (n : NetAllocationBasis) : Hash32 :=
  C.hashBytes (ascii "aperod/sale/post-burn-wallet-basis/v2" ++ u64 n.burned ++ u64 n.walletNet ++
    n.walletAccountingRoot.bytes)

structure AllocationEpochBasis where
  fundingHeight : UInt64
  fundingHash : Hash32
  burned : UInt64
  available : UInt64
  protectedLPoDPrincipal : UInt64
  legacyHoldingsUnverified : Bool
  deriving DecidableEq

def AllocationEpochBasis.validate (e : AllocationEpochBasis) : Result Unit :=
  failIf (e.fundingHash = 0 ∨ ¬ e.legacyHoldingsUnverified ∨ e.available = 0 ∨
      e.available > capNAPRO ∨ e.burned > capNAPRO ∨ e.protectedLPoDPrincipal > capNAPRO)
    "sale: explicit nominal LPoD epoch and unverified legacy holdings required"

def AllocationEpochBasis.digest (e : AllocationEpochBasis) : Hash32 :=
  C.hashBytes (ascii "aperod/sale/operator-allocation-epoch/legacy-holdings-unverified/v1" ++
    u64 e.fundingHeight ++ e.fundingHash.bytes ++ u64 e.burned ++ u64 e.available ++
    u64 e.protectedLPoDPrincipal ++ [boolByte e.legacyHoldingsUnverified])

structure Reconciliation where
  netAllocation : Option NetAllocationBasis := none
  allocationEpoch : Option AllocationEpochBasis := none
  genesis : Hash32
  parent : Hash32
  lpodCommitment : Hash32
  otherClaimsRoot : Hash32
  historicIssued : UInt64
  validatorReserved : UInt64
  lpodReserved : UInt64
  guardianReserved : UInt64
  otherReserved : UInt64
  deriving DecidableEq

namespace Reconciliation

variable (r : Reconciliation)

/-- The digest of the fields every version has. -/
def legacyDigest : Hash32 :=
  C.hashBytes (ascii "aperod/sale/disjoint-forward-reconciliation/v1" ++ r.genesis.bytes ++
    r.parent.bytes ++ r.lpodCommitment.bytes ++ r.otherClaimsRoot.bytes ++
    u64 r.historicIssued ++ u64 r.validatorReserved ++ u64 r.lpodReserved ++
    u64 r.guardianReserved ++ u64 r.otherReserved)

def digest : Hash32 :=
  let legacy := Bytes32.bytes (r.legacyDigest C)
  match r.allocationEpoch, r.netAllocation with
  | some e, some n => C.hashBytes (ascii "aperod/sale/invalid-mixed-allocation-bases/v1" ++ legacy ++
      Bytes32.bytes (e.digest C) ++ Bytes32.bytes (n.digest C))
  | some e, none => C.hashBytes (ascii "aperod/sale/operator-epoch-reconciliation/v3" ++ legacy ++
      Bytes32.bytes (e.digest C))
  | none, some n => C.hashBytes (ascii "aperod/sale/disjoint-forward-reconciliation/v2" ++ legacy ++
      Bytes32.bytes (n.digest C))
  | none, none => r.legacyDigest C

/-- The checks of an operator epoch: a basis of its own that agrees with the reconciliation. -/
def checkEpoch : Result Unit :=
  match r.allocationEpoch with
  | none => .ok ()
  | some e => do
    failIf r.netAllocation.isSome "sale: mixed allocation bases"
    e.validate
    failIf (r.historicIssued ≠ e.burned) "sale: nominal epoch burn counter mismatch"

/-- The checks of a net basis. -/
def checkNet : Result Unit :=
  match r.netAllocation with
  | none => .ok ()
  | some n => do
    let consumed ← n.consumed
    failIf (consumed ≠ r.historicIssued) "sale: post-burn consumed allocation mismatch"

/-- `Reconciliation.Unassigned`: what is left of the cap, and what is reserved. -/
def unassigned : Result (UInt64 × UInt64) := do
  r.checkEpoch
  r.checkNet
  let remaining ← loop (fun _ claim (remaining : UInt64) => do
    failIf (claim > remaining) "sale: overlapping declarations or reserves exceed the 10B cap"
    .ok (remaining - claim)) 0
    [r.historicIssued, r.validatorReserved, r.lpodReserved, r.guardianReserved, r.otherReserved]
    capNAPRO
  failIf (∃ e ∈ r.allocationEpoch, remaining ≠ e.available)
    "sale: declared available allocation does not reconcile nominal reserves"
  .ok (remaining, capNAPRO - remaining - r.historicIssued)

/-- The issuance a reconciliation must cover, by its operator epoch. -/
def epochIssued (c : Checkpoint) (height declared : UInt64) : Result UInt64 :=
  match r.allocationEpoch with
  | none => .ok declared
  | some e => do
    failIf r.netAllocation.isSome "sale: mixed allocation bases"
    e.validate
    failIf (e.fundingHeight ≥ height) "sale: LPoD epoch is not before sale activation"
    failIf (c.saleRemaining ≠ e.available)
      "sale: epoch checkpoint must open the current available allocation"
    .ok e.burned

/-- The same, by its net basis. -/
def netIssued (declared : UInt64) : Result UInt64 :=
  match r.netAllocation with
  | none => .ok declared
  | some n => n.consumed

end Reconciliation

def verifyReconciledCheckpoint (c : Checkpoint) (r : Reconciliation)
    (genesis parent canonicalLPoD : Hash32) (height lpodDeclaredIssued : UInt64)
    (trusted : List ValidatorPubKey) : Result Unit := do
  let issued ← r.epochIssued c height lpodDeclaredIssued
  let issued ← r.netIssued issued
  failIf (canonicalLPoD = 0 ∨ r.lpodCommitment ≠ canonicalLPoD ∨ r.otherClaimsRoot = 0 ∨
      r.genesis ≠ genesis ∨ r.parent ≠ parent ∨ r.historicIssued < issued ∨
      c.snapshotRoot ≠ r.digest C)
    "sale: reconciliation is not bound to the canonical LPoD parent and declared issuance"
  let (available, reserved) ← r.unassigned
  failIf (c.historicIssued ≠ r.historicIssued ∨ c.otherReserved ≠ reserved ∨
      c.saleRemaining > available)
    "sale: checkpoint does not reconcile its disjoint allocation claims"
  c.verify C genesis parent height trusted

/-! ### The ledger of one block -/

/-- `Ledger`; the two sets are the orders and payments of the block so far. -/
structure Ledger where
  checkpoint : Checkpoint
  height : UInt64
  hash : Hash32
  remaining : UInt64
  sold : UInt64
  seen : List Hash32 := []
  paid : List Hash32 := []

/-- `SaleSigningMessage`: the hash of the transaction without the signature. -/
def signingMessage (tx : Transaction) : Hash32 :=
  let extra := if tx.extra.length = saleExtraSize then tx.extra.take 216 ++ List.replicate 64 0
    else tx.extra
  C.hashBytes (ascii "aperod/sale/confidential-output-authorization/v1" ++
    Bytes32.bytes ({ tx with extra }.hash C))

/-- One transaction of `ApplyCanonicalTransactions`. -/
def Ledger.sell (height : UInt64) (parent : Hash32) (tx : Transaction) (l : Ledger) :
    Result Ledger := do
  let a ← tx.saleAuthorization C
  failIf (a.genesis ≠ l.checkpoint.genesis ∨ a.height ≠ height.toNat ∨ a.parent ≠ parent ∨
      ¬ ValidatorPubKey.verify C l.checkpoint.saleAuthority (signingMessage C tx)
        (arrayBytes (w := 64) a.signature))
    "sale: unauthorized output or activation context"
  failIf (a.order ∈ l.seen) "sale: purchase order already consumed"
  failIf (a.payment ∈ l.paid) "sale: payment already consumed"
  failIf (a.amount > l.remaining.toNat ∨ a.amount > (uint64Max - l.sold).toNat)
    "sale: insufficient allocation"
  .ok { l with
    seen := a.order :: l.seen
    paid := a.payment :: l.paid
    remaining := l.remaining - UInt64.ofNat a.amount
    sold := l.sold + UInt64.ofNat a.amount }

def Ledger.applyCanonicalTransactions (l : Ledger) (height : UInt64) (parent blockHash : Hash32)
    (txs : List Transaction) : Result Ledger := do
  failIf (height = 0 ∨ height ≠ l.height + 1 ∨ parent ≠ l.hash ∨ blockHash = 0 ∨ blockHash = parent)
    "sale: missing or noncanonical ledger parent"
  loop (fun _ => Ledger.sell C height parent) 0 txs { l with height, hash := blockHash }

/-! ### The state between blocks -/

structure State where
  checkpoint : Hash32
  height : UInt64
  hash : Hash32
  remaining : UInt64
  sold : UInt64 := 0
  deriving DecidableEq

def initialState (c : Checkpoint) : State where
  checkpoint := c.message C
  height := c.height - 1
  hash := c.parent
  remaining := c.saleRemaining

/-- The two kinds of identities that are used once. -/
inductive FenceKind
  | order
  | payment
  deriving DecidableEq

/-- The identities of one transaction are not consumed by an earlier block. -/
def checkFences (consumed : FenceKind → Hash32 → Bool) (tx : Transaction) : Result Unit := do
  let a ← tx.saleAuthorization C
  failIf (consumed .order a.order) "sale: durable replay fence consumed"
  failIf (consumed .payment a.payment) "sale: durable replay fence consumed"

def State.advance (s : State) (c : Checkpoint) (height : UInt64) (parent hash : Hash32)
    (txs : List Transaction) (consumed : FenceKind → Hash32 → Bool) : Result State := do
  failIf (s.checkpoint ≠ c.message C ∨ s.height + 1 ≠ height ∨ height < c.height ∨
      s.hash ≠ parent ∨ hash = 0 ∨ hash = parent ∨ s.remaining > c.saleRemaining ∨
      s.sold ≠ c.saleRemaining - s.remaining)
    "sale: inconsistent canonical state"
  checkAll (fun _ => checkFences C consumed) 0 txs
  let next ← Ledger.applyCanonicalTransactions C
    { checkpoint := c, height := s.height, hash := s.hash, remaining := s.remaining, sold := s.sold }
    height parent hash txs
  .ok { checkpoint := s.checkpoint, height, hash, remaining := next.remaining, sold := next.sold }

end Aperod.Sale
