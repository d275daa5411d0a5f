import Aperod.Lpod.Migration

/-!
# The genesis reserve

`genesis_vesting.go` and `genesis_vesting_funding.go`: a reserve of the genesis allocation is paid in
ten yearly tranches.  Two thirds of the active stake sign its funding (`verifyQuorum`); afterwards
`previewGenesisVesting` pays each tranche in the first block at or after its date, and
`GenesisVestingState.validateSource` re-checks the record against the allocation it came from.
-/

namespace Aperod.Lpod

open Go

def genesisVestingRecipient : Address :=
  "aproegAWbHEE8wunGatJwGLM68f3hskmbQmT8HJik9s827DymS2jScRb2hxqAgD34qfXwfQKKDCoj2okTWeVwsi2CXtA9Ybr76"

def genesisVestingReserve : UInt64 := 849010000 * unit

def genesisVestingBasis : String := "attested-genesis-team-allocation-reclassification/v1"

def genesisNominalTotal : UInt64 := 10000000000 * unit

def genesisVestingTrust : String :=
  "operator-attested-exclusive-unissued-development-genesis-reserve/v1"

def genesisLiquidityTrust : String :=
  "operator-attested-exclusive-unissued-initial-liquidity-genesis-allocation/v1"

def genesisLiquidityAmount : UInt64 := 300000000 * 100000000

def mainnetByte : UInt8 := 0x41

/-- The date of a tranche: 10 February of the years from 2027, in Unix nanoseconds. -/
def trancheDeadline : Fin 10 → Int
  | 0 => 1802217600000000000
  | 1 => 1833753600000000000
  | 2 => 1865376000000000000
  | 3 => 1896912000000000000
  | 4 => 1928448000000000000
  | 5 => 1959984000000000000
  | 6 => 1991606400000000000
  | 7 => 2023142400000000000
  | 8 => 2054678400000000000
  | 9 => 2086214400000000000

def trancheAmount (i : Fin 10) : UInt64 := if i = 9 then 84910000 * unit else 84900000 * unit

def genesisVestingTranche (i : Fin 10) : Int × UInt64 := (trancheDeadline i, trancheAmount i)

variable (C : Externals) (K : Encodings)

/-! ### Funding -/

namespace GenesisVestingFunding

def message (f : GenesisVestingFunding) : Hash32 :=
  C.hashBytes (ascii "aperod/genesis-development-funding/v1\x00" ++
    K.funding { f with attestations := [] })

/-- The declaration of version 1: no liquidity. -/
def checkLegacyDeclaration (f : GenesisVestingFunding) : Result Unit :=
  failIf (f.otherAllocations ≠ genesisNominalTotal - genesisVestingReserve ∨ f.liquidityAmount ≠ 0 ∨
      f.liquidityRecipient ≠ "" ∨ f.liquidityTrust ≠ "")
    "genesis vesting: legacy declaration cannot authorize liquidity"

/-- The liquidity goes to an address of the main network. -/
def checkLiquidityAddress (recipient : Address) : Result Unit :=
  match C.decodeAddress recipient with
  | .error _ => fail "genesis vesting: invalid liquidity address"
  | .ok (network, _) => failIf (network ≠ mainnetByte) "genesis vesting: invalid liquidity address"

/-- The declaration of version 2: a liquidity release to an address of its own. -/
def checkLiquidityDeclaration (f : GenesisVestingFunding) (a : Allocation) : Result Unit := do
  failIf (f.otherAllocations ≠
        genesisNominalTotal - genesisVestingReserve - genesisLiquidityAmount ∨
      f.liquidityAmount ≠ genesisLiquidityAmount ∨ f.liquidityRecipient = "" ∨
      f.liquidityRecipient = genesisVestingRecipient ∨ f.liquidityTrust ≠ genesisLiquidityTrust)
    "genesis vesting: distinct exclusive liquidity declaration required"
  checkLiquidityAddress C f.liquidityRecipient
  failIf (¬ a.nominalSnapshot.any fun s => s.nominalCirculatingBefore ≥ a.nominalEligible ∧
      s.nominalCirculatingBefore - a.nominalEligible ≥ genesisLiquidityAmount)
    "genesis vesting: liquidity exceeds distinct nominal available bound"

/-- The declaration of either version. -/
def checkDeclaration (f : GenesisVestingFunding) (a : Allocation) : Result Unit :=
  if f.version = 1 then f.checkLegacyDeclaration else f.checkLiquidityDeclaration C a

def validate (funding : Option GenesisVestingFunding) (a : Allocation) (height : UInt64) :
    Result Unit :=
  match funding with
  | none => fail "genesis vesting: separate purpose-bound funding attestation required"
  | some f => do
    failIf ((f.version ≠ 1 ∧ f.version ≠ 2) ∨ f.genesis ≠ a.genesis ∨ f.snapshot ≠ a.snapshotRoot ∨
        f.height ≠ height ∨ f.recipient ≠ genesisVestingRecipient ∨
        f.reserve ≠ genesisVestingReserve ∨ f.trust ≠ genesisVestingTrust ∨
        f.attestations.length = 0 ∨ f.attestations.length > 512)
      "genesis vesting: separate purpose-bound funding attestation required"
    f.checkDeclaration C a
    let _ ← loop (fun _ (at' : Attestation) (seen : List ValidatorPubKey) => do
      failIf (at'.validator ∈ seen ∨
          ¬ ValidatorPubKey.verify C at'.validator (f.message C K) at'.signature)
        "genesis vesting: invalid or duplicate funding signature"
      .ok (at'.validator :: seen)) 0 f.attestations []

def verifyQuorum (funding : Option GenesisVestingFunding) (a : Allocation) (height : UInt64)
    (stake : StakeTable) : Result Unit := do
  validate C K funding a height
  let total := stake.total fun s => if s.active then s.amount.toNat else 0
  let signed ← loop (fun _ (at' : Attestation) (signed : Nat) =>
    match stake.get at'.validator with
    | none => fail "genesis vesting: funding signer is not an active validator"
    | some s => do
      failIf (¬ s.active ∨ s.amount = 0)
        "genesis vesting: funding signer is not an active validator"
      .ok (signed + s.amount.toNat)) 0 (funding.elim [] (·.attestations)) 0
  failIf (total = 0 ∨ signed * 3 ≤ total * 2)
    "genesis vesting: funding lacks canonical two-thirds quorum"

end GenesisVestingFunding

/-! ### The reserve -/

def nominalNonCirculatingBound (a : Allocation) : Result UInt64 := do
  failIf (a.version ≠ 3) "genesis vesting: authenticated v3 nominal snapshot required"
  match a.nominalSnapshot with
  | none => fail "genesis vesting: authenticated v3 nominal snapshot required"
  | some s => do
    failIf (¬ s.valid C K a.nominalEligible a.initialValidatorRemaining a.snapshotRoot)
      "genesis vesting: authenticated v3 nominal snapshot required"
    let circulating := s.nominalCirculatingBefore
    failIf (circulating > genesisNominalTotal ∨
        a.initialValidatorRemaining > genesisNominalTotal - circulating)
      "genesis vesting: original 10B allocation exceeded"
    .ok (genesisNominalTotal - circulating - a.initialValidatorRemaining)

namespace GenesisVestingState

/-- The local variables of the loop of `Validate` over the paid heights. -/
structure Sequence where
  paid : UInt64 := 0
  previous : UInt64 := 0
  gap : Bool := false

/-- One tranche in `Validate`. -/
def checkTranche (v : GenesisVestingState) (height : UInt64) (i : Fin 10) (s : Sequence) :
    Result Sequence :=
  let h := v.paidHeights i
  if h = 0 then .ok { s with gap := true }
  else do
    failIf (s.gap ∨ h < v.fundingHeight ∨ h > height ∨ h < s.previous)
      "genesis vesting: invalid payment sequence"
    .ok { s with paid := s.paid + trancheAmount i, previous := h }

def validate (v : GenesisVestingState) (genesis : Hash32) (height : UInt64) : Result Unit := do
  failIf (v.basis ≠ genesisVestingBasis ∨ v.genesis ≠ genesis ∨ genesis = 0 ∨ v.fundingParent = 0 ∨
      v.fundingHeight = 0 ∨ v.fundingHeight > height ∨ v.recipient ≠ genesisVestingRecipient ∨
      v.fundingDebit ≠ genesisVestingReserve ∨ v.sourceSnapshot = 0 ∨
      v.originalNonCirculating < genesisVestingReserve ∨
      v.originalNonCirculating > genesisNominalTotal ∨
      v.otherNonCirculating ≠ v.originalNonCirculating - genesisVestingReserve)
    "genesis vesting: invalid funded allocation"
  let s ← loop (fun _ => v.checkTranche height) 0 (List.finRange 10) {}
  failIf (s.paid ≠ v.paid ∨ s.paid > genesisVestingReserve ∨
      v.remaining ≠ genesisVestingReserve - s.paid) "genesis vesting: non-conserved reserve"
  match v.fundingProof.filter (·.version = 2) with
  | some f =>
    failIf (v.liquidityRecipient ≠ f.liquidityRecipient ∨ v.liquidityPaid ≠ genesisLiquidityAmount)
      "genesis vesting: liquidity release differs from exclusive funding intent"
  | none =>
    failIf (v.liquidityPaid ≠ 0 ∨ v.liquidityRecipient ≠ "")
      "genesis vesting: undeclared liquidity release"

def validateSource (v : GenesisVestingState) (allocation : Option Allocation) (height : UInt64) :
    Result Unit :=
  match allocation with
  | none => fail "genesis vesting: missing allocation"
  | some a => do
    v.validate a.genesis height
    GenesisVestingFunding.validate C K v.fundingProof a v.fundingHeight
    let bound ← nominalNonCirculatingBound C K a
    failIf (v.originalNonCirculating ≠ bound ∨ v.sourceSnapshot ≠ a.snapshotRoot ∨
        v.fundingHeight ≤ a.fundingHeight)
      "genesis vesting: source differs from signed genesis accounting"

/-- Pay a tranche if it is due and not paid yet. -/
def payTranche (timestamp : Int) (height : UInt64) (i : Fin 10) (v : GenesisVestingState) :
    Result GenesisVestingState :=
  let (deadline, amount) := genesisVestingTranche i
  if v.paidHeights i ≠ 0 ∨ timestamp < deadline then .ok v
  else do
    failIf (v.remaining < amount) "genesis vesting: reserve exhausted"
    .ok { v with
      paidHeights := Function.update v.paidHeights i height
      paid := v.paid + amount
      remaining := v.remaining - amount }

def paymentAt (v : GenesisVestingState) (height : UInt64) : UInt64 :=
  if height = 0 then 0
  else (List.finRange 10).foldl
    (fun amount i => if v.paidHeights i = height then amount + trancheAmount i else amount) 0

end GenesisVestingState

def fundGenesisVesting (a : Allocation) (r : Settlement) (height : UInt64) :
    Result GenesisVestingState := do
  GenesisVestingFunding.verifyQuorum C K r.genesisVestingFunding a height r.stake
  let bound ← nominalNonCirculatingBound C K a
  failIf (height ≠ r.genesisVestingActivationHeight ∨ height ≤ a.fundingHeight ∨
      bound < genesisVestingReserve ∨ r.parent = 0)
    "genesis vesting: invalid activation or insufficient unallocated genesis budget"
  let _ ← wrap "genesis vesting: invalid recipient" (C.decodeAddress genesisVestingRecipient)
  let f ← deref r.genesisVestingFunding
  .ok {
    basis := genesisVestingBasis
    genesis := a.genesis
    fundingHeight := height
    fundingParent := r.parent
    recipient := genesisVestingRecipient
    fundingDebit := genesisVestingReserve
    remaining := genesisVestingReserve
    sourceSnapshot := a.snapshotRoot
    originalNonCirculating := bound
    fundingProof := some f
    otherNonCirculating := bound - genesisVestingReserve
    liquidityRecipient := if f.version = 2 then f.liquidityRecipient else ""
    liquidityPaid := if f.version = 2 then genesisLiquidityAmount else 0 }

/-- The reserve a block starts from: the one before, or a new one at the activation. -/
def genesisVestingBefore (before : Checkpoint) (a : Allocation) (r : Settlement) (height : UInt64) :
    Result GenesisVestingState :=
  match before.genesisVesting with
  | none => fundGenesisVesting C K a r height
  | some v => do
    failIf (r.genesisVestingActivationHeight ≠ v.fundingHeight)
      "genesis vesting: activation cannot be disabled or changed after funding"
    v.validateSource C K before.allocation before.state.lastHeight
    .ok v

def previewGenesisVesting (before next : Checkpoint) (r : Settlement) (height : UInt64) :
    Result Checkpoint :=
  if before.genesisVesting = none ∧ (r.genesisVestingActivationHeight = 0 ∨
      height < r.genesisVestingActivationHeight) then .ok next
  else match before.allocation with
    | none => fail "genesis vesting: funded v3 canonical nominal allocation required"
    | some a => do
      failIf (a.version ≠ 3 ∨ ¬ r.positionProtocol)
        "genesis vesting: funded v3 canonical nominal allocation required"
      let v ← genesisVestingBefore C K before a r height
      let v ← loop (fun _ => GenesisVestingState.payTranche r.timestamp height) 0
        (List.finRange 10) v
      v.validateSource C K next.allocation height
      .ok { next with genesisVesting := some v }

end Aperod.Lpod
