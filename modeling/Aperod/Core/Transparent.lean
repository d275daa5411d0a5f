import Aperod.Core.Registry
import Mathlib.Algebra.Group.Int.Defs

/-!
# A transparent instance of the crypto package

`transparent` replaces the curve by numbers that hide nothing: a commitment is the committed value,
a key image is the key itself, and a proof is accepted exactly when the statement it stands for is
true.  It meets every assumption this development makes of the real package, so the theorems that
carry such assumptions are about something, and it can be evaluated.

Keys with the top bit set are the ones nobody holds: hash-to-curve points are of that kind.
-/

namespace Aperod

open Go

/-- The keys somebody holds in the transparent instance. -/
def transparentKnown (p : Point32) : Bool := p.toNat < 2 ^ 255

/-- `Primitives` without secrets. -/
def transparentPrimitives : Primitives where
  hashBytes b := BitVec.ofNat _ b.length
  Group := Int
  pointFromBytes c := .ok (c.toNat : Int)
  hashToCurvePoint b := BitVec.ofNat _ (2 ^ 255 + b.length)
  commit v _ := if v < 2 ^ 64 then .ok (BitVec.ofNat _ v) else fail "value out of range"
  canonicalKeyImage ki := .ok ki
  verifyKeyImageProof p ki _ _ := failIf (ki ≠ p) "key image proof invalid"
  mlsagVerify _ ring sig := .ok (sig.keyImage ∈ ring && transparentKnown sig.keyImage)
  mlsagVerifyV4 _ ring _ realIdx sig :=
    match sig with
    | none => fail "nil signature"
    | some sig => .ok (sig.keyImage ∈ ring && transparentKnown sig.keyImage &&
        (ring[realIdx]?).any transparentKnown)
  clsagVerify _ ring commits pseudo sig :=
    .ok ((sig.keyImage, pseudo) ∈ ring.zip commits && transparentKnown sig.keyImage)
  verifyRange proof :=
    match proof with
    | none => fail "nil proof"
    | some p => .ok (p.valueCommit.toNat < 2 ^ 64)
  ed25519Verify _ _ _ := true
  decodeAddress _ := .ok (0, 0, 0)
  validateAuthorizedOutputPoints _ _ := .ok ()
  verifyValueAuthorization _ _ _ := .ok ()

/-- `Externals` without secrets. -/
def transparent : Externals where
  toPrimitives := transparentPrimitives
  positionCodec := ⟨fun _ => [], fun _ => fail "not a position"⟩
  payoutCodec := ⟨fun _ => [], fun _ => fail "not a payout"⟩
  positionIDBytes _ _ _ := []
  utf8Valid _ := true
  formatAPRO n := toString n

/-- A hash that keeps short inputs apart. -/
def polyHash (b : Bytes) : Hash32 :=
  BitVec.ofNat _ (b.foldl (fun h x => (h * 257 + x.toNat + 1) % 2 ^ 256) 0)

/-- The transparent instance with that hash, for examples in which blocks have to differ. -/
def hashing : Externals :=
  { transparent with toPrimitives := { transparentPrimitives with hashBytes := polyHash } }

/-! ### Sample data -/

def exampleRing : List Point32 := (List.range 16).map fun i => BitVec.ofNat _ (i + 1)

def coinbaseOf7 : Transaction :=
  { version := .base, outputs := [{ oneTimePub := 1, amountCommit := 7 }] }

def exampleUTXO : UTXO :=
  { txHash := 0, outputIndex := 0, oneTimePub := 1, amountCommit := 7, blockHeight := 0 }

def exampleSet : UTXOSet :=
  { utxos := GoMap.set ∅ exampleUTXO.key exampleUTXO, byPubKey := GoMap.set ∅ 1 exampleUTXO }

/-- Spend the 7 into an output of 5 and a fee of 2. -/
def exampleSpend : Transaction :=
  { version := .commitmentBinding
    inputs := [{ keyImage := 1, ring := exampleRing, amountCommit := 7 }]
    outputs := [{ oneTimePub := 20, amountCommit := 5 }]
    fee := 2
    feeCommit := 2
    rangeProofs := [some ⟨[], 5⟩]
    signatures := [some ⟨0, List.replicate 16 0, 1, List.replicate 16 0, List.replicate 16 0, 0, 0⟩] }

def sampleValidator (v : UInt8) : ValidatorPubKey := List.replicate 32 v

/-- An active output of `MinStakeNAPR`, at outpoint `(1, 0)`. -/
def sampleCollateral : UTXO :=
  { txHash := 1, outputIndex := 0, oneTimePub := 1, txPubKey := 1
    amountCommit := BitVec.ofNat _ minStakeNAPR, blockHeight := 0 }

/-- A v2 deposit of `MinStakeNAPR` for validator `v` that burns the output. -/
def sampleDeposit (v : UInt8) : Transaction :=
  { version := .stake
    extra := [1] ++ sampleValidator v ++ beBytes 8 minStakeNAPR ++ List.replicate 64 0 ++
      Bytes32.bytes 1 ++ beBytes 4 0 ++ Bytes32.bytes 0 }

/-- A v1 withdrawal request of validator `v`. -/
def sampleWithdrawal (v : UInt8) : Transaction :=
  { version := .stake, extra := [2] ++ sampleValidator v ++ List.replicate 72 0 }

end Aperod
