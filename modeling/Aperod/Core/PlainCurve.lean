import Aperod.Core.Equiv.TxBuilder
import Aperod.Core.Transparent

/-!
# A curve that can be evaluated

`plainCurve` is the group of numbers modulo the order of the curve, with `G = 1` and `H = 2`.  Discrete
logarithms are trivial in it, so nothing is hidden, but every law of `Curve` holds, and what the
builders do can be computed.
-/

namespace Aperod

open Go

/-- `Primitives` over numbers modulo the group order. -/
def plainPrimitives : Primitives :=
  { transparentPrimitives with
    Group := Scalar
    group := inferInstanceAs (AddCommGroup (Fin groupOrder))
    groupDecEq := inferInstanceAs (DecidableEq (Fin groupOrder))
    pointFromBytes := fun c => .ok (Fin.ofNat groupOrder c.toNat)
    hashToCurvePoint := fun data => Scalar.bytes (Fin.ofNat groupOrder data.length)
    commit := fun v blind => do
      let r ← wrap "invalid blinding factor (non-canonical scalar)" (scalarFromBytes blind)
      .ok (Scalar.bytes (r * 1 + scalarFromUint64 v * 2))
    -- the keys of an address: the spend key is its length, the view key one more
    decodeAddress := fun addr => .ok (0, BitVec.ofNat _ addr.length, BitVec.ofNat _ (addr.length + 1)) }

def plain : Externals := { transparent with toPrimitives := plainPrimitives }

theorem nsmul_scalar_val (m : Nat) (x : Scalar) : (m • x).val = m * x.val % groupOrder := by
  induction m with
  | zero => rw [zero_nsmul, Nat.zero_mul, Nat.zero_mod]; rfl
  | succ m ih => rw [succ_nsmul, Fin.val_add, ih, Nat.mod_add_mod, Nat.succ_mul]

theorem mul_eq_nsmul (s x : Scalar) : s * x = s.val • x := by
  apply Fin.ext
  rw [nsmul_scalar_val, Fin.val_mul]

/-- A multiplier coprime to the order has the full order. -/
theorem addOrderOf_scalar {x : Scalar} (hx : Nat.Coprime groupOrder x.val) :
    addOrderOf x = groupOrder := by
  have hpos : 0 < groupOrder := Nat.pos_of_ne_zero (NeZero.ne groupOrder)
  apply (addOrderOf_eq_iff hpos).mpr
  constructor
  · apply Fin.ext
    rw [nsmul_scalar_val, Nat.mul_mod_right]
    rfl
  · intro m hm hm0 hzero
    have hval : m * x.val % groupOrder = 0 := by
      rw [← nsmul_scalar_val, hzero]
      rfl
    have hdvd : groupOrder ∣ m := hx.dvd_of_dvd_mul_right (Nat.dvd_of_mod_eq_zero hval)
    have hle := Nat.le_of_dvd hm0 hdvd
    omega

/-- Numbers modulo the group order as a curve. -/
def plainCurve : Curve plain where
  scalarMult s p := Fin.mul s (show Scalar from p)
  base := (1 : Scalar)
  hGenerator := (2 : Scalar)
  pointBytes p := Scalar.bytes p
  hashPoint data := Fin.ofNat groupOrder data.length
  sha512 data := BitVec.ofNat _ data.length
  encodeAddress net _ _ := toString net
  proveRange _ value blind := do
    let c ← plainPrimitives.commit value.toNat blind
    .ok ⟨[], c⟩
  mlsagSign _ _ _ _ privKey := .ok ⟨0, [], privKey, [], [], 0, 0⟩
  mlsagSignV4 _ _ _ _ privKey _ _ := .ok ⟨0, [], privKey, [], [], 0, 0⟩
  clsagSign _ _ _ _ _ _ privKey _ _ := .ok ⟨0, [], privKey, 0⟩
  scalarMult_eq s p := mul_eq_nsmul s p
  addOrderOf_base := addOrderOf_scalar (x := 1) (by decide +kernel)
  addOrderOf_hGenerator := addOrderOf_scalar (x := 2) (by decide +kernel)
  pointFromBytes_pointBytes p := congrArg Except.ok (blindScalar_bytes p)
  hashToCurvePoint_eq _ := rfl
  commit_eq _ _ _ := rfl

/-! ### Sample wallets -/

/-- An output of `amount` with blind 5; its key is that of `n` added to the spend key 7. -/
def sampleOwned (n : Nat) (amount : UInt64) : OwnedUTXO where
  txHash := BitVec.ofNat _ n
  outputIndex := 0
  oneTimePub := BitVec.ofNat _ (n + 7)
  amountCommit := BitVec.ofNat _ (5 + 2 * amount.toNat)
  blockHeight := 0
  hsScalar := BitVec.ofNat _ n
  amount := amount
  blind := 5

/-- Decoys `100, 101, …` with commitments `1, 2, …`. -/
def sampleDecoys (n : Nat) : List DecoyUTXO :=
  (List.range n).map fun i => ⟨BitVec.ofNat _ (100 + i), BitVec.ofNat _ (i + 1)⟩

/-- The random choices `i + 1`, with the real member at position 3. -/
def sampleEntropy : Entropy where
  ephemeral i := Fin.ofNat groupOrder (i + 1)
  ringPosition _ := ⟨3, by decide⟩
  fakeKey i j := BitVec.ofNat _ (1000 + 16 * i + j)
  pseudoBlind i := Fin.ofNat groupOrder (i + 1)
  proof _ := []
  signature _ := []

/-- A builder for `owned` at one unit a byte, with the given format. -/
def sampleBuilder (owned : List OwnedUTXO) (version : TxVersion) : TxBuilder where
  spendPriv := 7
  ownedUTXOs := owned
  feePerByte := 1
  decoys := sampleDecoys 30
  txVersion := version
  feePerByte_ne_zero := by decide

end Aperod
