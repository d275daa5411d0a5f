import Aperod.Core.Wallet
import Mathlib.Data.Int.GCD

/-!
# Two-of-three wallets

`wallet/multisig.go`: the dealer splits a spend key over the scalars of the curve, and two shares
give it back, directly or through partial signatures.  Of a share only the index and the key are
kept; the coefficient the dealer draws is an argument.
-/

namespace Aperod

open Go

def edOrder : Nat := 7237005577332262213973186563042994240857116359379907606001950938285454250989

structure MultisigShare where
  index : Int
  shareKey : Scalar32
  deriving DecidableEq

structure PartialSig where
  index : Int
  value : Scalar32
  deriving DecidableEq

/-- Little-endian bytes as a number, by way of `SetBytes` on the reversed slice. -/
def bytesToBigInt (b : Bytes) : Nat := beNat b.reverse

def scalar32ToBig (s : Scalar32) : Nat := bytesToBigInt s.bytes

/-- `FillBytes`, reversed; every number it is given is below `edOrder`. -/
def bigToScalar32 (n : Nat) : Scalar32 := bytesArray 32 (beBytes 32 n).reverse

/-- `x.Mod(x, edOrder)`, the Euclidean remainder. -/
def modOrder (x : Int) : Nat := (x % edOrder).toNat

/-- `ModInverse(g, n)`, nil when there is none. -/
def modInverse (g n : Nat) : Option Nat :=
  if g.gcd n = 1 then some (g.gcdA n % n).toNat else none

def lagrangeCoeff (xi xj : Int) : Result Nat := do
  let inv ← deref (modInverse (modOrder (xi - xj)) edOrder)
  .ok (modOrder (modOrder (-xj) * inv))

/-- The values at `1`, `2`, `3` of the line through `secret` with slope `uScalar`. -/
def shamirSplit2of3 (secret : Scalar32) (uScalar : Scalar) : List Scalar32 :=
  [1, 2, 3].map fun i =>
    bigToScalar32 (modOrder (scalar32ToBig uScalar.bytes * i + scalar32ToBig secret))

/-- The shares `MultisigSetup` hands out. -/
def multisigShares (secret : Scalar32) (uScalar : Scalar) : List MultisigShare :=
  (shamirSplit2of3 secret uScalar).mapIdx fun i key => ⟨i + 1, key⟩

def partialSign (share : MultisigShare) (coSignerIndex : Int) : Result PartialSig := do
  failIf (share.index = coSignerIndex) "multisig: own index and co-signer index must differ"
  failIf (share.index < 1 ∨ share.index > 3)
    s!"multisig: share index {share.index} out of range [1,3]"
  failIf (coSignerIndex < 1 ∨ coSignerIndex > 3)
    s!"multisig: co-signer index {coSignerIndex} out of range [1,3]"
  let li ← lagrangeCoeff share.index coSignerIndex
  .ok ⟨share.index, bigToScalar32 (modOrder (scalar32ToBig share.shareKey * li))⟩

def combinePartials : List PartialSig → Result Scalar32
  | [p, q] => do
    failIf (p.index = q.index) s!"multisig: duplicate partial indices: {p.index}"
    .ok (bigToScalar32 (modOrder (scalar32ToBig p.value + scalar32ToBig q.value)))
  | ps => fail s!"multisig: need exactly 2 partials, got {ps.length}"

def combineShares : List MultisigShare → Result Scalar32
  | [s, t] => do
    failIf (s.index = t.index) s!"multisig: duplicate share indices: {s.index}"
    let li ← lagrangeCoeff s.index t.index
    let lj ← lagrangeCoeff t.index s.index
    .ok (bigToScalar32 (modOrder (scalar32ToBig s.shareKey * li + scalar32ToBig t.shareKey * lj)))
  | shares => fail s!"multisig: need exactly 2 shares, got {shares.length}"

end Aperod
