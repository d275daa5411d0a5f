import Aperod.Crypto.Edwards

/-!
# Proofs about key images

`crypto/keyimage_proof.go`: the proof that a one-time key and a key image have one secret.  The
nonces `randomScalar` may return are arguments.
-/

namespace Aperod.Edwards

open Go

variable (E : Edwards)

def checkedDLEQPoint (label : String) (encoded : Point32) : Result E.Group := do
  let canonical ← wrap label (E.canonicalKeyImage encoded)
  failIf (canonical ≠ encoded) s!"{label} is not in the prime-order subgroup"
  wrap label (E.pointFromBytes encoded)

def keyImageDLEQChallenge (P : Point32) (ki : KeyImage) (A B : Point32) (context : Bytes) :
    E.Scalar :=
  E.hashToScalar (ascii "aperod/stake/key-image-dleq/v1" ++ beBytes 8 context.length ++ context ++
    Bytes32.bytes P ++ Bytes32.bytes ki ++ Bytes32.bytes A ++ Bytes32.bytes B)
    "aperod/stake/key-image-dleq/challenge/v1"

/-- `ProveKeyImage`, where `randomScalar` returns `w` and, if it is called again, `w'`. -/
def proveKeyImage (w w' : E.Scalar) (secret : Bytes32) (P : Point32) (context : Bytes) :
    Result (KeyImage × KeyImageDLEQProof) := do
  let x ← wrap "key-image secret" (E.scalarFromBytes secret)
  let _ ← E.checkedDLEQPoint "one-time public key" P
  failIf (E.bytes (E.scalarBaseMult x) ≠ P) "key-image secret does not match one-time public key"
  let ki ← wrap "compute key image" (E.computeKeyImage secret P)
  let hp := E.hashToCurvePoint (Bytes32.bytes P)
  failIf (w = 0 ∧ w' = 0) "key-image proof nonce is zero"
  let w := if w = 0 then w' else w
  let A := E.bytes (E.scalarBaseMult w)
  let B := E.bytes (E.scalarMult w hp)
  let c := E.keyImageDLEQChallenge P ki A B context
  .ok (ki, ⟨A, B, E.scalarBytes (c * x + w)⟩)

def verifyKeyImageProof (P : Point32) (ki : KeyImage) (context : Bytes)
    (proof : KeyImageDLEQProof) : Result Unit := do
  let p ← E.checkedDLEQPoint "one-time public key" P
  let imagePoint ← E.checkedDLEQPoint "key image" ki
  let A ← E.checkedDLEQPoint "proof commitment G" proof.commitmentG
  let B ← E.checkedDLEQPoint "proof commitment Hp" proof.commitmentHp
  let z ← wrap "key-image proof response" (E.scalarFromBytes proof.response)
  let hp := E.hashToCurvePoint (Bytes32.bytes P)
  let c := E.keyImageDLEQChallenge P ki proof.commitmentG proof.commitmentHp context
  failIf (E.scalarBaseMult z ≠ A + E.scalarMult c p ∨
      E.scalarMult z hp ≠ B + E.scalarMult c imagePoint)
    "key-image DLEQ proof verification failed"

end Aperod.Edwards
