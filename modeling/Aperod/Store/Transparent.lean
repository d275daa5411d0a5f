import Aperod.Lpod.Transparent
import Aperod.Store.Commit

/-!
# A transparent instance with a sale

A chain on the transparent LPoD instance: block 1 funds the reserve from a nominal allocation, block 2
opens an allocation of 1000 for sale.  `DB.extend` produces the next block and commits it.
-/

namespace Aperod.Store

open Go Sale

/-! ### Producing a block -/

section Produce

variable (C : Externals) (K : Lpod.Encodings) (d : DB) (r : Lpod.Settlement)
  (m : Option SaleMigration)

def DB.commitOf (b : Block) (sale : Option SaleSettlement) : Commit where
  block := b
  hash := b.hash C
  height := d.lpod.tip.2 + 1
  sale := sale
  settlement := some r
  validateOrder := .sorted
  appendOrder := .sorted

/-- What the producer of a block has afterwards. -/
structure Extended where
  block : Block
  sale : Option SaleSettlement
  db : DB

/-- Produce and commit the next block. -/
def DB.extend : Result Extended := do
  let b ← d.lpodView.settledBlock C K r
  let sale ← d.prepareSaleBlock C K .sorted b m
  let d' ← d.commitRawBlock C K .sorted .sorted b (b.hash C) (d.lpod.tip.2 + 1) sale (some r)
  .ok ⟨b, sale, d'⟩

variable {C K d r m}

theorem committed_of_extend {x : Extended} (h : d.extend C K r m = .ok x) :
    Committed C K d (d.commitOf C r x.block x.sale) x.db := by
  obtain ⟨b, -, h⟩ := unbind h
  obtain ⟨sale, -, h⟩ := unbind h
  obtain ⟨d1, hcommit, h⟩ := unbind h
  cases h
  exact hcommit

end Produce

/-! ### The chain -/

/-- Payout keys differ from block to block. -/
def saleEncodings : Lpod.Encodings :=
  { Lpod.plainEncodings with
    payoutOutput := fun _ n height _ _ => .ok {
      oneTimePub := BitVec.ofNat _ (n.toNat * 2 ^ 64 + height.toNat)
      amountCommit := BitVec.ofNat _ n.toNat } }

def sampleSnapshot : Lpod.NominalSnapshot where
  basis := Lpod.nominalBasis
  nominalCirculatingBefore := Lpod.initialNAPRO
  eligibleNominal := Lpod.initialNAPRO
  preexistingGuardianReservation := 0
  validatorRemaining := 6 * Lpod.unit
  eligibilityRule := Lpod.v3EligibilityRule

def nominalMigration : Lpod.Migration :=
  let m : Lpod.Migration := {
    version := 3
    positionLifecycleVersion := 1
    height := 1
    genesis := Lpod.sampleGenesis.hash Lpod.lpodHashing
    reconciliationRoot := 0
    validatorRemaining := 6 * Lpod.unit
    attestations := [⟨sampleValidator 1, List.replicate 64 0⟩]
    trustedValidators := [sampleValidator 1]
    trustAssumption := Lpod.v3TrustAssumption
    parentHash := Lpod.sampleGenesis.hash Lpod.lpodHashing
    snapshotRoot := sampleSnapshot.root Lpod.lpodHashing saleEncodings
    nominalEligible := Lpod.initialNAPRO
    nominalSnapshot := some sampleSnapshot }
  { m with reconciliationRoot := m.root Lpod.lpodHashing saleEncodings }

def saleDB : DB := { lpod := Lpod.sampleDB }

def nominalFunding : Lpod.Settlement :=
  { Lpod.sampleSettlement (Lpod.sampleGenesis.hash Lpod.lpodHashing) 2 with
    migration := some nominalMigration }

/-- What is reserved when sales start at block 2. -/
def sampleReconciliation (parent commitment : Hash32) : Reconciliation where
  genesis := Lpod.sampleGenesis.hash Lpod.lpodHashing
  parent := parent
  lpodCommitment := commitment
  otherClaimsRoot := 1
  historicIssued := Lpod.initialNAPRO + 3 * Lpod.unit
  validatorReserved := 3 * Lpod.unit
  lpodReserved := 0
  guardianReserved := minimumGuardianReserveNAPRO
  otherReserved := 0

/-- The migration that opens the sale of 1000 on a block with this checkpoint. -/
def sampleSale (parent commitment : Hash32) : SaleMigration :=
  let r := sampleReconciliation parent commitment
  { reconciliation := r
    trusted := [sampleValidator 1]
    checkpoint := {
      genesis := r.genesis
      network := mainnetByte
      height := 2
      parent := parent
      snapshotRoot := r.digest Lpod.lpodHashing
      historicIssued := r.historicIssued
      otherReserved := r.validatorReserved + r.guardianReserved
      saleRemaining := 1000
      saleAuthority := sampleValidator 1
      attestations := [⟨sampleValidator 1, List.replicate 64 0⟩] } }

/-- A sale of an amount to a one-time key. -/
def saleTx (height : UInt64) (parent order payment : Hash32) (amount : Nat) (pub : Point32) :
    Transaction where
  version := .sale
  outputs := [{ oneTimePub := pub, amountCommit := BitVec.ofNat _ amount }]
  extra := salePrefix ++ Bytes32.bytes (Lpod.sampleGenesis.hash Lpod.lpodHashing) ++
    beBytes 8 height.toNat ++ parent.bytes ++ order.bytes ++ payment.bytes ++
    beBytes 8 amount ++ List.replicate 128 0

/-- A spend of one key image that pays to a one-time key. -/
def spendTx (ki : KeyImage) (pub : Point32) : Transaction where
  version := .clsag
  inputs := [{ keyImage := ki, ring := [], amountCommit := 0 }]
  outputs := [{ oneTimePub := pub, amountCommit := 1 }]

def saleSettlement (parent : Hash32) (timestamp : Int) (txs : List Transaction) : Lpod.Settlement :=
  { Lpod.sampleSettlement parent timestamp with transactions := txs }

def DB.tipDigest (d : DB) : Hash32 :=
  (d.lpod.checkpoints.get d.lpod.tip.1).elim 0 (·.digest Lpod.lpodHashing saleEncodings)

/-- Any form is good. -/
def sampleMerchant : Merchant := ⟨fun _ => true, fun _ => true, fun _ => 0⟩

/-- The next block with these operations. -/
def extendWith (d : DB) (m : SaleMigration) (timestamp : Int) (txs : List Transaction) :
    Result Extended :=
  d.extend Lpod.lpodHashing saleEncodings (saleSettlement d.lpod.tip.1 timestamp txs) (some m)

def DB.openSale (d : DB) : SaleMigration := sampleSale d.lpod.tip.1 d.tipDigest

def openedDB : Result (SaleMigration × DB) := do
  let x1 ← saleDB.extend Lpod.lpodHashing saleEncodings nominalFunding none
  let d1 := x1.db
  let x2 ← extendWith d1 d1.openSale 3 [saleTx 2 d1.lpod.tip.1 5 6 300 9]
  .ok (d1.openSale, x2.db)

theorem openedDB_run {m : SaleMigration} {d : DB} (h : openedDB = .ok (m, d)) :
    ∃ e1 e2, Run (Step Lpod.lpodHashing saleEncodings sampleMerchant) saleDB
      [.commit e1, .commit e2] d := by
  obtain ⟨x1, h1, h⟩ := unbind h
  obtain ⟨x2, h2, h⟩ := unbind h
  have hd : x2.db = d := congrArg Prod.snd (Except.ok.inj h)
  subst hd
  exact ⟨_, _, .cons (committed_of_extend h1) (.cons (committed_of_extend h2) (.nil _))⟩

/-- The chain, a third block with a spend that pays to `pub`, and the second tip selected again. -/
def rewoundDB (pub : Point32) : Result (DB × DB × DB) := do
  let (m, d) ← openedDB
  let x ← extendWith d m 4 [spendTx 2 pub]
  let d' ← x.db.putTip Lpod.lpodHashing saleEncodings .sorted d.lpod.tip.1 d.lpod.tip.2
  .ok (d, x.db, d')

theorem rewoundDB_run {pub : Point32} {d D d' : DB} (h : rewoundDB pub = .ok (d, D, d')) :
    ∃ evs e, Run (Step Lpod.lpodHashing saleEncodings sampleMerchant) saleDB evs d ∧
      Run (Committed Lpod.lpodHashing saleEncodings) d [e] D ∧
      D.putTip Lpod.lpodHashing saleEncodings .sorted d.lpod.tip.1 d.lpod.tip.2 = .ok d' := by
  obtain ⟨⟨m, d1⟩, hopened, h⟩ := unbind h
  obtain ⟨x, hx, h⟩ := unbind h
  obtain ⟨d2, hput, h⟩ := unbind h
  have heq := Except.ok.inj h
  have hd : d1 = d := congrArg Prod.fst heq
  have hD : x.db = D := congrArg (fun p => p.2.1) heq
  have hd' : d2 = d' := congrArg (fun p => p.2.2) heq
  subst hd hD hd'
  obtain ⟨e1, e2, hrun⟩ := openedDB_run hopened
  exact ⟨_, _, hrun, .cons (committed_of_extend hx) (.nil _), hput⟩

end Aperod.Store
