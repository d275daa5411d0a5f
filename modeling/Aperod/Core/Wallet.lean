import Aperod.Core.Validate
import Aperod.Lib.Pedersen

/-!
# Keys and outputs of a wallet

The part of package `crypto` a wallet uses (`wallet.go`, `stealth.go`, `pedersen.go`, `keyimage.go`,
`burn.go`), and the amount encryption of `core/wallet_scanner.go`.

The curve is a parameter, `Curve`, over the group of `Primitives`: scalar multiplication, the two
generators and the encoding of points, with the laws a curve has.  The order of the generators is a
number, so scalars, their encoding and their sums are translated and not assumed.  The signing
functions and the range prover are parameters without laws.  What they draw at random is an argument.
-/

namespace Aperod

open Go

abbrev Scalar := Fin groupOrder

/-- An encoded scalar. -/
abbrev Scalar32 := Bytes32

/-- `s.Bytes()`. -/
def Scalar.bytes (s : Scalar) : Bytes32 := BitVec.ofNat _ s.val

/-- `ScalarFromBytes`: only the canonical encoding. -/
def scalarFromBytes (b : Bytes32) : Result Scalar :=
  if h : b.toNat < groupOrder then .ok ⟨b.toNat, h⟩ else fail "invalid scalar: invalid scalar encoding"

/-- `SetUniformBytes`: 64 bytes modulo the group order. -/
def setUniformBytes (wide : BitVec (8 * 64)) : Scalar := Fin.ofNat groupOrder wide.toNat

def scalarFromUint64 (v : Nat) : Scalar := Fin.ofNat groupOrder v

/-- The curve, and the functions of package `crypto` that need a secret or draw at random. -/
structure Curve (C : Primitives) where
  scalarMult : Scalar → C.Group → C.Group
  /-- The base point `G`. -/
  base : C.Group
  /-- The second generator `H`. -/
  hGenerator : C.Group
  /-- `p.Bytes()`. -/
  pointBytes : C.Group → Point32
  /-- `hashToCurvePoint`. -/
  hashPoint : Bytes → C.Group
  /-- SHA-512. -/
  sha512 : Bytes → BitVec (8 * 64)
  encodeAddress : UInt8 → Point32 → Point32 → Address
  /-- `ProveRange(value, blind)`. -/
  proveRange : Bytes → UInt64 → BlindFactor → Result RangeProof
  /-- `MLSAGSign(message, ring, realIdx, privKey)`. -/
  mlsagSign : Bytes → Hash32 → List Point32 → Nat → Scalar32 → Result MLSAGSignature
  /-- `MLSAGSignV4(message, ring, realIdx, privKey, blind, value)`. -/
  mlsagSignV4 : Bytes → Hash32 → List Point32 → Nat → Scalar32 → BlindFactor → UInt64 →
    Result MLSAGSignature
  /-- `CLSAGSign(message, ring, ringCommitments, pseudoOut, realIdx, privKey, blind, pseudoBlind)`. -/
  clsagSign : Bytes → Hash32 → List Point32 → List Commitment → Commitment → Nat → Scalar32 →
    BlindFactor → BlindFactor → Result CLSAGSignature
  scalarMult_eq : ∀ s p, scalarMult s p = s.val • p
  addOrderOf_base : addOrderOf base = groupOrder
  addOrderOf_hGenerator : addOrderOf hGenerator = groupOrder
  pointFromBytes_pointBytes : ∀ p, C.pointFromBytes (pointBytes p) = .ok p
  hashToCurvePoint_eq : ∀ data, C.hashToCurvePoint data = pointBytes (hashPoint data)
  /-- `Commit`, as `pedersen.go` computes it. -/
  commit_eq : ∀ v blind, v < 2 ^ 64 → C.commit v blind = do
    let r ← wrap "invalid blinding factor (non-canonical scalar)" (scalarFromBytes blind)
    .ok (pointBytes (scalarMult r base + scalarMult (scalarFromUint64 v) hGenerator))

/-! ### Scalars and blinds -/

def addScalars (a b : Scalar32) : Result Scalar32 := do
  let sa ← wrap "AddScalars a" (scalarFromBytes a)
  let sb ← wrap "AddScalars b" (scalarFromBytes b)
  .ok (Scalar.bytes (sa + sb))

/-- `BlindSum`: the blinds of `ins` less those of `outs`. -/
def blindSum (ins outs : List BlindFactor) : Result BlindFactor := do
  let acc ← loop (fun _ b acc => do let s ← scalarFromBytes b; .ok (acc + s)) 0 ins 0
  let acc ← loop (fun _ b acc => do let s ← scalarFromBytes b; .ok (acc + -s)) 0 outs acc
  .ok (Scalar.bytes acc)

section

variable {C : Primitives} (K : Curve C)

def scalarMulBase (s : Scalar32) : Result Point32 := do
  let sc ← scalarFromBytes s
  .ok (K.pointBytes (K.scalarMult sc K.base))

def computeKeyImage (x : Scalar32) (P : Point32) : Result KeyImage := do
  let xScalar ← scalarFromBytes x
  .ok (K.pointBytes (K.scalarMult xScalar (K.hashPoint (Bytes32.bytes P))))

def hashToScalar (data : Bytes) (tag : String) : Scalar :=
  setUniformBytes (K.sha512 (data ++ ascii tag))

def deterministicPaymentBlind (hs : Scalar32) (amount : UInt64) : BlindFactor :=
  Scalar.bytes (setUniformBytes
    (K.sha512 (ascii "aperod-pay-blind-v1" ++ hs.bytes ++ leBytes 8 amount.toNat)))

/-! ### Stealth outputs -/

structure StealthOutput where
  oneTimePub : Point32
  txPubKey : Point32
  hsScalar : Scalar32
  deriving DecidableEq

def createStealthOutputWithScalar (spendPub viewPub : Point32) (r : Scalar) :
    Result StealthOutput := do
  let V ← wrap "view public key" (C.pointFromBytes viewPub)
  let hs := hashToScalar K (Bytes32.bytes (K.pointBytes (K.scalarMult r V))) "aperod-stealth"
  let S ← wrap "spend public key" (C.pointFromBytes spendPub)
  .ok { oneTimePub := K.pointBytes (K.scalarMult hs K.base + S)
        txPubKey := K.pointBytes (K.scalarMult r K.base)
        hsScalar := Scalar.bytes hs }

/-- `ScanForOutput`: the scalar `Hs`, if the output belongs to the wallet. -/
def scanForOutput (viewPriv : Scalar32) (spendPub txPubKey oneTimePub : Point32) :
    Result (Option Scalar32) := do
  let v ← wrap "view private scalar" (scalarFromBytes viewPriv)
  let R ← C.pointFromBytes txPubKey
  let hs := hashToScalar K (Bytes32.bytes (K.pointBytes (K.scalarMult v R))) "aperod-stealth"
  let S ← C.pointFromBytes spendPub
  if K.pointBytes (K.scalarMult hs K.base + S) = oneTimePub then .ok (some (Scalar.bytes hs))
  else .ok none

/-! ### Burn addresses -/

def burnPoint (domain : String) (net : UInt8) : Point32 :=
  K.pointBytes (K.hashPoint (ascii domain ++ [net]))

def burnAddress (net : UInt8) : Address :=
  K.encodeAddress net (burnPoint K "aperod/canonical-burn/spend/v1" net)
    (burnPoint K "aperod/canonical-burn/view/v1" net)

def isBurnAddress (addr : Address) : Bool :=
  match C.decodeAddress addr with
  | .ok (net, _, _) => addr = burnAddress K net
  | .error _ => false

end

/-! ### Amounts -/

section

variable (C : Primitives)

/-- The key stream of the amount encryption: the first eight bytes of a hash. -/
def amountKeyStream (hs : Scalar32) : BitVec (8 * 8) :=
  (C.hashBytes (ascii "aperod/amount-enc/v1" ++ hs.bytes)).setWidth _

def encryptAmount (amount : UInt64) (hs : Scalar32) : BitVec (8 * 8) :=
  amount.toBitVec ^^^ amountKeyStream C hs

def decryptAmount (enc : BitVec (8 * 8)) (hs : Scalar32) : UInt64 :=
  ⟨enc ^^^ amountKeyStream C hs⟩

/-- `Validate` of an address. -/
def validateAddress (addr : Address) : Result Unit := do
  let _ ← C.decodeAddress addr
  .ok ()

end

end Aperod
