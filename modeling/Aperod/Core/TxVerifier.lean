import Aperod.Core.UTXO

/-!
# The transaction verifier

`verifyTx` and `VerifyBlock` of `tx_verifier.go`.  The verification of one transaction is cut into
the steps the source numbers: key images, vesting, ring membership, ring signatures, range proofs,
fee commitment and balance.
-/

namespace Aperod

open Go

/-- `VestingType`; `unknown` stands for every other text. -/
inductive VestingType
  | immediate
  | linear
  | cliffLinear
  | unknown

/-- `VestingSchedule`, with durations in seconds. -/
structure VestingSchedule where
  type : VestingType
  cliffSeconds : Int := 0
  vestSeconds : Int

/-- `mulDiv`, which saturates at `a`. -/
def mulDiv (a b c : Nat) : Nat := if a * b / c < 2 ^ 64 then a * b / c else a

def VestingSchedule.vestedAmount (v : VestingSchedule) (totalAmount : Nat) (genesisTime now : Int) :
    Nat :=
  match v.type with
  | .immediate => totalAmount
  | .linear =>
    let elapsed := now - genesisTime
    if v.vestSeconds ≤ 0 then totalAmount
    else if elapsed ≤ 0 then 0
    else if elapsed ≥ v.vestSeconds then totalAmount
    else mulDiv totalAmount elapsed.toNat v.vestSeconds.toNat
  | .cliffLinear =>
    let cliffEnd := genesisTime + v.cliffSeconds
    let elapsed := now - cliffEnd
    if now < cliffEnd then 0
    else if v.vestSeconds ≤ 0 then totalAmount
    else if elapsed ≥ v.vestSeconds then totalAmount
    else mulDiv totalAmount elapsed.toNat v.vestSeconds.toNat
  | .unknown => 0

def VestingSchedule.lockedAmount (v : VestingSchedule) (totalAmount : Nat) (genesisTime now : Int) :
    Nat :=
  let vested := v.vestedAmount totalAmount genesisTime now
  if vested ≥ totalAmount then 0 else totalAmount - vested

/-- `GenesisAlloc`, as far as it vests. -/
structure GenesisAlloc where
  amount : Nat
  vesting : Option VestingSchedule

def GenesisAlloc.lockedAmount (a : GenesisAlloc) (now genesisTime : Int) : Nat :=
  a.vesting.elim 0 fun v => v.lockedAmount a.amount genesisTime now

/-- `VestingLock`: the amount still locked for a genesis key at a time, and the local clock. -/
structure VestingLock where
  lockedAt : Point32 → Int → Nat
  now : Int

/-- The lock of the genesis allocations. -/
def VestingLock.ofAllocs (allocs : GoMap Point32 GenesisAlloc) (genesisTime now : Int) :
    VestingLock where
  lockedAt pub now := (allocs.get pub).elim 0 fun alloc => alloc.lockedAmount now genesisTime
  now

/-- `TxVerifier`; a nil UTXO set switches the checks that need one off. -/
structure TxVerifier where
  utxos : Option UTXOSet
  vestingLock : Option VestingLock := none
  stakedCollateralRingExclusionActivationHeight : Nat := 0

variable (C : Externals)

def ringSignMessage (txHash : Hash32) (inputIdx : Nat) : Hash32 :=
  C.hashBytes (ascii "aperod/ring-sign/v1" ++ Bytes32.bytes txHash ++ beBytes 4 inputIdx)

namespace TxVerifier

variable (v : TxVerifier)

/-- The height from which rings must not name staked collateral, when the rule is on. -/
def exclusionActive (height : Nat) : Bool :=
  v.stakedCollateralRingExclusionActivationHeight > 0 &&
    height ≥ v.stakedCollateralRingExclusionActivationHeight

/-- `verifyTx` for an LPoD position. -/
def verifyLPoDPosition (tx : Transaction) : Result Unit := do
  let a ← tx.lpodPositionAction C
  if a.action = lpodWithdraw then .ok ()
  else
    let inp ← index tx.inputs 0
    match v.utxos with
    | none => fail "lpod: source key image unavailable or spent"
    | some s =>
      failIf (s.isSpent C inp.keyImage) "lpod: source key image unavailable or spent"
      let src : UTXOKey := ⟨a.sourceTx, a.sourceIndex⟩
      failIf (¬ (∃ u ∈ s.get src, u.oneTimePub = a.sourcePub ∧ u.amountCommit = inp.amountCommit ∧
          u.protocolLocked = false) ∨ s.isStaked src)
        "lpod: source is not an available matching UTXO"
      failIf (¬ ∃ r ∈ s.getByPubKey a.sourcePub, r.key = src) "lpod: ambiguous source output key"
      failIf (∃ vl ∈ v.vestingLock, vl.lockedAt a.sourcePub vl.now > 0)
        "lpod: source is vesting locked"

/-- Step 2: no key image twice within the transaction (raw bytes). -/
def checkDuplicateKeyImages (txHash : Hash32) (tx : Transaction) : Result Unit := do
  let _ ← loop (fun i (inp : RingInput) (seen : List KeyImage) => do
    failIf (inp.keyImage ∈ seen) s!"tx {hex8 txHash}: duplicate key image at input {i}"
    .ok (inp.keyImage :: seen)) 0 tx.inputs []

/-- Step 3: no key image that is already spent. -/
def checkUnspent (txHash : Hash32) (tx : Transaction) : Result Unit :=
  match v.utxos with
  | none => .ok ()
  | some s =>
    checkAll (fun i inp => failIf (s.isSpent C inp.keyImage)
      s!"tx {hex8 txHash}: double-spend at input {i} (key image {hex8 inp.keyImage} already spent)")
      0 tx.inputs

/-- Step 3b: no ring member is a genesis output that is still locked. -/
def checkVesting (txHash : Hash32) (tx : Transaction) : Result Unit :=
  match v.vestingLock with
  | none => .ok ()
  | some vl =>
    checkAll (fun i inp => checkAll (fun _ member => failIf (vl.lockedAt member vl.now > 0)
      s!"tx {hex8 txHash}: input {i} ring member {hex8 member} is a locked genesis allocation ({vl.lockedAt member vl.now} nAPRO still locked) — spending locked genesis tokens is not permitted")
      0 inp.ring) 0 tx.inputs

/-- Step 3c for one member of a CLSAG ring. -/
def checkCLSAGMember (s : UTXOSet) (blockStakeBurns : List UTXOKey) (height : Nat) (pos : String)
    (inp : RingInput) (j : Nat) (member : Point32) : Result Unit := do
  match s.getRingMember member with
  | none => fail s!"{pos} ring member {j} is not an on-chain UTXO"
  | some u =>
    let commit ← index inp.ringCommitments j
    failIf (u.amountCommit ≠ commit) s!"{pos} ring member {j} commitment mismatch"
    failIf (v.exclusionActive height ∧ (u.key ∈ blockStakeBurns ∨ s.isStaked u.key))
      s!"{pos} ring member {j} is staked collateral"

/-- Step 3c for one input: the ring is bound to outputs of the set. -/
def checkRingBinding (s : UTXOSet) (blockStakeBurns : List UTXOKey) (height : Nat)
    (txHash : Hash32) (tx : Transaction) (i : Nat) (inp : RingInput) : Result Unit :=
  let pos := s!"tx {hex8 txHash}: input {i}"
  if tx.usesCLSAG then
    checkAll (v.checkCLSAGMember s blockStakeBurns height pos inp) 0 inp.ring
  else if tx.version = .commitmentBinding then do
    let realMember ← index inp.ring inp.realIndex.toNat
    match s.getByPubKey realMember with
    | none => fail s!"{pos} proven real member {hex8 realMember} is not an active UTXO"
    | some u =>
      failIf (u.amountCommit ≠ inp.amountCommit)
        s!"{pos} proven real member commitment does not match claimed commitment"
  else do
    let present := inp.ring.filterMap s.getByPubKey
    failIf (present.length = 0)
      s!"{pos} all {inp.ring.length} ring members are absent from the UTXO set — fabricated-input inflation attack blocked (C-0a check)"
    failIf ((present.filter (·.amountCommit = inp.amountCommit)).length = 0)
      s!"{pos} no ring member found in UTXO set has AmountCommit matching claimed {hex8 inp.amountCommit} — forged commitment or wrong UTXO (C-0 check)"

def checkRingBindings (blockStakeBurns : List UTXOKey) (height : Nat) (txHash : Hash32)
    (tx : Transaction) : Result Unit :=
  match v.utxos with
  | none => .ok ()
  | some s => checkAll (v.checkRingBinding s blockStakeBurns height txHash tx) 0 tx.inputs

/-- `if err != nil {…}; if !ok {…}` after a ring verification, with the key image compared first. -/
def checkRingResult (pos : String) (i : Nat) (r : Result Bool) (sigImage inputImage : KeyImage) :
    Result Unit := do
  let ok ← wrap s!"{pos}: ring sig error at input {i}" r
  failIf (sigImage ≠ inputImage) s!"{pos}: key image mismatch at input {i}"
  failIf (ok = false) s!"{pos}: invalid ring signature at input {i}"

/-- Step 4 for one input: its ring signature. -/
def checkRingSignature (txHash : Hash32) (tx : Transaction) (i : Nat) (inp : RingInput) :
    Result Unit := do
  let pos := s!"tx {hex8 txHash}"
  let msg := ringSignMessage C txHash i
  if tx.usesCLSAG then
    let sig ← index tx.clsagSignatures i
    match sig with
    | none => fail s!"{pos}: nil CLSAG signature at input {i}"
    | some sig =>
      checkRingResult pos i (C.clsagVerify msg inp.ring inp.ringCommitments inp.pseudoOut sig)
        sig.keyImage inp.keyImage
  else
    let sig ← index tx.signatures i
    match sig with
    | none => fail s!"{pos}: nil signature at input {i}"
    | some sig =>
      checkRingResult pos i
        (if tx.version = .commitmentBinding then
          C.mlsagVerifyV4 msg inp.ring inp.amountCommit inp.realIndex.toNat (some sig)
        else C.mlsagVerify msg inp.ring sig)
        sig.keyImage inp.keyImage

/-- Step 5 for one range proof: it holds, and it is about the output at its position. -/
def checkRangeProof (txHash : Hash32) (tx : Transaction) (i : Nat) (proof : Option RangeProof) :
    Result Unit := do
  let ok ← wrap s!"tx {hex8 txHash}: range proof error at output {i}" (C.verifyRange proof)
  failIf (ok = false) s!"tx {hex8 txHash}: invalid range proof at output {i}"
  let p ← deref proof
  let out ← index tx.outputs i
  failIf (p.valueCommit ≠ out.amountCommit)
    s!"tx {hex8 txHash}: range proof commitment mismatch at output {i}"

/-- Step 5b: the fee commitment is `Commit(fee, 0)`. -/
def checkFeeCommit (txHash : Hash32) (tx : Transaction) : Result Unit := do
  let expected ← wrap s!"tx {hex8 txHash}: fee commitment derivation" (C.commit tx.fee.toNat 0)
  failIf (tx.feeCommit ≠ expected)
    s!"tx {hex8 txHash}: fee commitment mismatch — C_fee ≠ Commit(fee, 0); negative-fee inflation attack rejected"

/-- The commitment an input contributes to the balance. -/
def inputCommit (tx : Transaction) (inp : RingInput) : Commitment :=
  if tx.usesCLSAG then inp.pseudoOut else inp.amountCommit

/-- Step 6: the balance equation. -/
def checkBalance (txHash : Hash32) (tx : Transaction) : Result Unit := do
  let balanced ← wrap s!"tx {hex8 txHash}: commitment sum error"
    (commitSum C (tx.inputs.map (inputCommit tx)) (tx.outputs.map (·.amountCommit))
      tx.feeCommit)
  failIf (balanced = false)
    s!"tx {hex8 txHash}: commitment balance check failed (inputs ≠ outputs + fee)"

/-- `verifyTx` for a transaction with inputs, after `Validate`. -/
def verifyRingTx (tx : Transaction) (blockStakeBurns : List UTXOKey) (height : Nat) :
    Result Unit := do
  let txHash := tx.hash C
  checkDuplicateKeyImages txHash tx
  v.checkUnspent C txHash tx
  v.checkVesting txHash tx
  v.checkRingBindings blockStakeBurns height txHash tx
  checkAll (checkRingSignature C txHash tx) 0 tx.inputs
  checkAll (checkRangeProof C txHash tx) 0 tx.rangeProofs
  checkFeeCommit C txHash tx
  checkBalance C txHash tx

def verifyTx (tx : Transaction) (blockStakeBurns : List UTXOKey) (height : Nat) : Result Unit := do
  tx.validate C
  if tx.isLPoDPosition then v.verifyLPoDPosition C tx
  else if tx.inputs.length = 0 then
    if tx.isStake then .ok ()
    else fail "tx verifier: coinbase (zero-input) transaction rejected — must be engine-synthesized only"
  else v.verifyRingTx C tx blockStakeBurns height

def verifyTxAtHeight (tx : Transaction) (height : Nat) : Result Unit := do
  failIf (v.stakedCollateralRingExclusionActivationHeight > 0 ∧ height = 0)
    "height-aware transaction verification requires a nonzero candidate height"
  v.verifyTx C tx [] height

/-- The collateral a stake deposit of layout v2 or v3 names.  Layout v4 is not read here. -/
def stakeBurn (tx : Transaction) : Option UTXOKey :=
  if tx.isStake then
    if tx.extra.length = stakePayloadSizeV2 then
      match decodeStakeExtraV2 tx.extra with
      | .ok p => if p.action = .deposit then some ⟨p.burnTxHash, p.burnOutIdx⟩ else none
      | .error _ => none
    else if tx.extra.length = stakePayloadSizeV3 then
      match decodeStakeExtraV3 tx.extra with
      | .ok p => if p.action = .deposit then some ⟨p.burnTxHash, p.burnOutIdx⟩ else none
      | .error _ => none
    else none
  else none

/-- The collateral deposited by the stake transactions of a block, when the rule is on. -/
def blockStakeBurns (b : Block) : List UTXOKey :=
  if v.exclusionActive b.header.height then b.txs.filterMap stakeBurn else []

def verifyBlock (b : Block) : Result Unit := do
  failIf (v.stakedCollateralRingExclusionActivationHeight > 0 ∧ b.header.height = 0)
    "height-aware block verification requires a nonzero block height"
  checkAll (fun i tx =>
    if tx.isCoinbase || tx.isGuardianFund || tx.isLPoD || tx.isLPoDPayout then .ok ()
    else wrap s!"block {b.header.height} tx[{i}] {hex8 (tx.hash C)}"
      (v.verifyTx C tx (v.blockStakeBurns b) b.header.height)) 0 b.txs

end TxVerifier

end Aperod
