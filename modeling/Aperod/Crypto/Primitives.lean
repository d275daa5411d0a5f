import Aperod.Go.Outcome
import Aperod.Go.Bytes
import Mathlib.Algebra.BigOperators.Group.List.Basic

/-!
# The crypto package

Byte-array types of package `crypto` and its functions as the rest of the node calls them.  The
hash function, the curve, the proof verifiers and the address codec are parameters (`Primitives`):
nothing in this development depends on how they compute, only on what a theorem assumes of them by
name.  `CommitSum` is not a parameter: it is translated from `pedersen.go` over the curve's group.
-/

namespace Aperod

open Go

/-- A 32-byte array. -/
abbrev Bytes32 := BitVec (8 * 32)

/-- A SHA-256 digest. -/
abbrev Hash32 := Bytes32

/-- A compressed curve point. -/
abbrev Point32 := Bytes32

/-- A spent-output fingerprint. -/
abbrev KeyImage := Bytes32

/-- A Pedersen commitment `r·G + v·H`. -/
abbrev Commitment := Bytes32

/-- A blinding scalar. -/
abbrev BlindFactor := Bytes32

/-- `crypto.ValidatorPubKey`: a byte slice, 32 bytes long wherever it was decoded. -/
abbrev ValidatorPubKey := Bytes

instance : LawfulBEq Bytes := List.instLawfulBEq

instance : LawfulBEq Bytes32 := instLawfulBEq

/-- A textual address. -/
abbrev Address := String

def ringSize : Nat := 16

/-- The order of the prime-order subgroup of edwards25519. -/
def groupOrder : Nat := 2 ^ 252 + 27742317777372353535851937790883648493

instance : NeZero groupOrder := ⟨by decide⟩

structure MLSAGSignature where
  c0 : Bytes32
  ss : List Bytes32
  keyImage : KeyImage
  blindSS : List Bytes32
  valueSS : List Bytes32
  linkR : Point32
  linkS : Bytes32
  deriving DecidableEq

structure CLSAGSignature where
  c1 : Bytes32
  s : List Bytes32
  keyImage : KeyImage
  d : Point32
  deriving DecidableEq

/-- `crypto.RangeProof`: the commitment it is about, and the proof elements. -/
structure RangeProof where
  elements : List Bytes32
  valueCommit : Commitment
  deriving DecidableEq

structure KeyImageDLEQProof where
  commitmentG : Point32
  commitmentHp : Point32
  response : Bytes32
  deriving DecidableEq

/-- The functions of package `crypto` (and of the standard library below it) the node calls. -/
structure Primitives where
  /-- `HashBytes`, on the concatenation of its arguments. -/
  hashBytes : Bytes → Hash32
  /-- The curve's group. -/
  Group : Type
  [group : AddCommGroup Group]
  [groupDecEq : DecidableEq Group]
  pointFromBytes : Bytes32 → Result Group
  /-- `HashToCurvePoint`, compressed. -/
  hashToCurvePoint : Bytes → Point32
  commit : Nat → BlindFactor → Result Commitment
  canonicalKeyImage : KeyImage → Result KeyImage
  /-- `VerifyKeyImageProof(P, keyImage, context, proof)`. -/
  verifyKeyImageProof : Point32 → KeyImage → Bytes → KeyImageDLEQProof → Result Unit
  /-- `MLSAGVerify(message, ring, sig)`. -/
  mlsagVerify : Hash32 → List Point32 → MLSAGSignature → Result Bool
  /-- `MLSAGVerifyV4(message, ring, amountCommit, realIdx, sig)`. -/
  mlsagVerifyV4 : Hash32 → List Point32 → Commitment → Nat → Option MLSAGSignature → Result Bool
  /-- `CLSAGVerify(message, ring, ringCommitments, pseudoOut, sig)`. -/
  clsagVerify : Hash32 → List Point32 → List Commitment → Commitment → CLSAGSignature → Result Bool
  verifyRange : Option RangeProof → Result Bool
  /-- `ed25519.Verify(pub, message, sig)`. -/
  ed25519Verify : Bytes → Bytes → Bytes → Bool
  /-- `DecodeAddress`: network byte, spend key, view key. -/
  decodeAddress : Address → Result (UInt8 × Point32 × Point32)
  validateAuthorizedOutputPoints : Point32 → Point32 → Result Unit
  /-- `VerifyValueAuthorization(amount, commit, opening)`. -/
  verifyValueAuthorization : Nat → Commitment → BitVec (8 * 64) → Result Unit

attribute [instance] Primitives.group Primitives.groupDecEq

variable (C : Primitives)

/-- The running point sum of `CommitSum`; `what` names the side in the error. -/
def sumCommitments (what : String) : List Commitment → C.Group → Result C.Group
  | [], acc => .ok acc
  | c :: cs, acc => do
    let pt ← wrap what (C.pointFromBytes c)
    sumCommitments what cs (acc + pt)

/-- `CommitSum`: the balance check `ΣC_in = ΣC_out + C_fee`. -/
def commitSum (inputs outputs : List Commitment) (feeCommit : Commitment) : Result Bool := do
  let sumIn ← sumCommitments C "invalid input commitment" inputs 0
  let sumOut ← sumCommitments C "invalid output commitment" outputs 0
  let feePt ← wrap "invalid fee commitment" (C.pointFromBytes feeCommit)
  .ok (decide (sumIn = sumOut + feePt))

def Bytes32.bytes (a : Bytes32) : Bytes := arrayBytes (w := 32) a

/-- The first `8` bytes in hexadecimal, as `%x` prints `h[:8]`. -/
def hex8 (h : Bytes32) : String := hexString ((Bytes32.bytes h).take 8)

/-- `ValidatorPubKey.ID`: the first eight hexadecimal digits. -/
def ValidatorPubKey.id (pub : ValidatorPubKey) : String := hexString (pub.take 4)

variable {C}

/-- A successful point sum adds the points of the decoded commitments to the accumulator. -/
theorem sumCommitments_eq_ok {what : String} {cs : List Commitment} {acc s : C.Group}
    (h : sumCommitments C what cs acc = .ok s) :
    ∃ pts : List C.Group, List.Forall₂ (fun c p => C.pointFromBytes c = .ok p) cs pts ∧
      s = acc + pts.sum := by
  induction cs generalizing acc with
  | nil => cases h; exact ⟨[], .nil, by simp⟩
  | cons c cs ih =>
    obtain ⟨p, hp, hrest⟩ := unbind h
    obtain ⟨pts, hpts, hs⟩ := ih hrest
    refine ⟨p :: pts, .cons (wrap_eq_ok.mp hp) hpts, ?_⟩
    rw [hs, List.sum_cons, add_assoc]

/-- What a passed balance check says: both sides decode, and their sums agree. -/
theorem commitSum_eq_true {ins outs : List Commitment} {fee : Commitment}
    (h : commitSum C ins outs fee = .ok true) :
    ∃ (pin pout : List C.Group) (pf : C.Group),
      List.Forall₂ (fun c p => C.pointFromBytes c = .ok p) ins pin ∧
      List.Forall₂ (fun c p => C.pointFromBytes c = .ok p) outs pout ∧
      C.pointFromBytes fee = .ok pf ∧ pin.sum = pout.sum + pf := by
  obtain ⟨sumIn, hin, h⟩ := unbind h
  obtain ⟨sumOut, hout, h⟩ := unbind h
  obtain ⟨pf, hfee, h⟩ := unbind h
  obtain ⟨pin, hpin, rfl⟩ := sumCommitments_eq_ok hin
  obtain ⟨pout, hpout, rfl⟩ := sumCommitments_eq_ok hout
  refine ⟨pin, pout, pf, hpin, hpout, wrap_eq_ok.mp hfee, ?_⟩
  simpa using h

end Aperod
