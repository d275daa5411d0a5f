import Aperod.Core.Transparent
import Aperod.Go.Run
import Aperod.Lpod.Store

/-!
# A transparent instance for LPoD

The transparent crypto package with a codec of positions, encodings of the hashed records, and a chain
of one genesis block on which a reserve of 6 APRO for the validators can be funded.  `DB.extend`
produces the next block of a settlement and commits it, so runs of commits can be evaluated.
-/

namespace Aperod.Lpod

open Go

/-! ### Producing a block -/

section Produce

variable (C : Externals) (K : Encodings) (d : DB) (r : Settlement)

/-- The block of a settlement on the tip, as the producer assembles it: the payout, the digest of the
checkpoint, and the operations. -/
def DB.settledBlock : Result Block := do
  let height := d.tip.2 + 1
  let (c, payments) ← d.previewLPoD C K .sorted height r
  let payout ← d.payoutLPoD C K .sorted height r c payments
  let txs := [payout, lpodCheckpointTx (c.digest C K)] ++ r.transactions
  .ok {
    header := {
      height := height.toNat
      prevHash := r.parent
      merkleRoot := merkleRoot C txs
      timestamp := r.timestamp
      validatorPub := r.proposer }
    txs }

def DB.commitOf (b : Block) : Commit where
  block := b
  hash := b.hash C
  height := d.tip.2 + 1
  settlement := some r
  activatingSales := false
  validateOrder := .sorted
  appendOrder := .sorted

/-- Produce and commit the next block. -/
def DB.extend : Result (Block × DB) := do
  let b ← d.settledBlock C K r
  let d' ← d.commitRawBlock C K .sorted .sorted b (b.hash C) (d.tip.2 + 1) (some r) false
  .ok (b, d')

variable {C K d r}

theorem committed_of_extend {b : Block} {d' : DB} (h : d.extend C K r = .ok (b, d')) :
    Committed C K d (d.commitOf C r b) d' := by
  obtain ⟨b, -, h⟩ := unbind h
  obtain ⟨d1, hcommit, h⟩ := unbind h
  cases h
  exact hcommit

end Produce

/-! ### The instance -/

/-- A position action, field by field; the beneficiary comes last. -/
def marshalPosition (a : LPoDPositionAction) : Bytes :=
  [a.action] ++ a.genesis.bytes ++ a.positionID.bytes ++ a.vault.bytes ++
    leBytes 8 a.nonce.toNat ++ a.owner.bytes ++ a.sourceTx.bytes ++
    leBytes 4 a.sourceIndex.toNat ++ a.sourcePub.bytes ++ leBytes 8 a.amount.toNat ++
    a.blind.bytes ++ leBytes 8 a.withdrawAmount.toNat ++ ascii a.beneficiary

def unmarshalPosition (b : Bytes) : Result LPoDPositionAction := do
  failIf (b.length < 253) "unexpected end of JSON input"
  .ok {
    action := b.headD 0
    genesis := bytesArray 32 (slice b 1 33)
    positionID := bytesArray 32 (slice b 33 65)
    vault := bytesArray 32 (slice b 65 97)
    nonce := UInt64.ofNat (leNat (slice b 97 105))
    owner := bytesArray 32 (slice b 105 137)
    sourceTx := bytesArray 32 (slice b 137 169)
    sourceIndex := UInt32.ofNat (leNat (slice b 169 173))
    sourcePub := bytesArray 32 (slice b 173 205)
    amount := UInt64.ofNat (leNat (slice b 205 213))
    blind := bytesArray 32 (slice b 213 245)
    withdrawAmount := UInt64.ofNat (leNat (slice b 245 253))
    beneficiary := String.ofList ((b.drop 253).map fun x => Char.ofNat x.toNat) }

def lpodHashing : Externals :=
  { hashing with
    positionCodec := ⟨marshalPosition, unmarshalPosition⟩
    positionIDBytes := fun _ source i => source.bytes ++ leBytes 4 i.toNat }

/-- Encodings of what a few blocks need to be told apart; a payout output is its amount. -/
def plainEncodings : Encodings where
  block b := leBytes 8 b.header.height
  checkpoint c := leBytes 8 c.state.lastHeight.toNat
  legacyCheckpoint c := leBytes 8 c.state.lastHeight.toNat
  snapshot s := leBytes 8 s.eligibleNominal.toNat
  migration m := leBytes 8 m.height.toNat
  trustedMigration m _ := leBytes 8 m.height.toNat
  funding f := leBytes 8 f.height.toNat
  payoutOutput _ n _ _ _ :=
    .ok { oneTimePub := BitVec.ofNat _ n.toNat, amountCommit := BitVec.ofNat _ n.toNat }

/-! ### A funded chain -/

def sampleGenesis : Block := { header := { height := 0, merkleRoot := merkleRoot lpodHashing [] } }

/-- The migration that funds block 1 on the genesis block, signed by its one authority. -/
def sampleMigration : Migration :=
  let m : Migration := {
    version := 2
    positionLifecycleVersion := 1
    height := 1
    genesis := sampleGenesis.hash lpodHashing
    reconciliationRoot := 0
    validatorRemaining := 6 * unit
    attestations := [⟨sampleValidator 1, List.replicate 64 0⟩]
    trustedValidators := [sampleValidator 1]
    trustAssumption := v2TrustAssumption
    parentHash := sampleGenesis.hash lpodHashing
    snapshotRoot := 1
    historicalSaleRemain := initialNAPRO }
  { m with reconciliationRoot := m.root lpodHashing plainEncodings }

def sampleDB : DB where
  tip := (sampleGenesis.hash lpodHashing, 0)
  blocks := GoMap.set ∅ (sampleGenesis.hash lpodHashing) sampleGenesis
  heights := GoMap.set ∅ 0 (sampleGenesis.hash lpodHashing)
  stakingPool := some (6 * unit)

def sampleStake : StakeTable := GoMap.set ∅ (sampleValidator 1) ⟨1000000 * unit, true⟩

def sampleSettlement (parent : Hash32) (timestamp : Int) : Settlement where
  parent := parent
  timestamp := timestamp
  proposer := sampleValidator 1
  leader := "leader"
  stake := sampleStake
  previousStake := sampleStake

def sampleFunding : Settlement :=
  { sampleSettlement (sampleGenesis.hash lpodHashing) 2 with migration := some sampleMigration }

/-! ### A guardian -/

def keySignature (ki : KeyImage) : Option MLSAGSignature :=
  some ⟨0, List.replicate 16 0, ki, List.replicate 16 0, List.replicate 16 0, 0, 0⟩

/-- A deposit of 10,000 APRO, the output `(7, 0)` of key 5, in the vault of validator 1. -/
def guardianDeposit (beneficiary : Address) : LPoDPositionAction where
  action := lpodDeposit
  genesis := sampleGenesis.hash lpodHashing
  positionID := lpodPositionID lpodHashing (sampleGenesis.hash lpodHashing) 7 0
  vault := bytesArray 32 (sampleValidator 1)
  nonce := 0
  beneficiary := beneficiary
  owner := 0
  sourceTx := 7
  sourceIndex := 0
  sourcePub := 5
  amount := 10000 * unit
  blind := 0
  withdrawAmount := 0

def guardianDepositTx (beneficiary : Address) : Transaction where
  version := .lpodPosition
  inputs := [{ keyImage := 5, ring := lpodOwnershipRing lpodHashing 5
               amountCommit := BitVec.ofNat _ (10000 * unit).toNat }]
  signatures := [keySignature 0, keySignature 5]
  extra := marshalPosition (guardianDeposit beneficiary)

def guardianWithdrawTx (beneficiary : Address) : Transaction where
  version := .lpodPosition
  signatures := [keySignature 0]
  extra := marshalPosition { guardianDeposit beneficiary with action := lpodWithdraw, nonce := 1 }

def guardianSettlement (parent : Hash32) (beneficiary : Address) : Settlement :=
  { sampleSettlement parent 3 with transactions := [guardianDepositTx beneficiary] }

/-- The chain with its funding block, and with the block of the deposit. -/
def guardedDB (K : Encodings) (beneficiary : Address) : Result (DB × DB) := do
  let (_, d1) ← sampleDB.extend lpodHashing K sampleFunding
  let (_, d2) ← d1.extend lpodHashing K (guardianSettlement d1.tip.1 beneficiary)
  .ok (d1, d2)

theorem guardedDB_run {K : Encodings} {beneficiary : Address} {d1 d2 : DB}
    (h : guardedDB K beneficiary = .ok (d1, d2)) :
    ∃ e1 e2, Run (Committed lpodHashing K) sampleDB [e1, e2] d2 := by
  obtain ⟨⟨b1, x1⟩, h1, h⟩ := unbind h
  obtain ⟨⟨b2, x2⟩, h2, h⟩ := unbind h
  have hd : x2 = d2 := congrArg Prod.snd (Except.ok.inj h)
  subst hd
  exact ⟨_, _, .cons (committed_of_extend h1) (.cons (committed_of_extend h2) (.nil _))⟩

end Aperod.Lpod
