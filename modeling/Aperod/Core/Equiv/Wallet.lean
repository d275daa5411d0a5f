import Aperod.Core.Wallet

/-!
# Scalars, commitments and one-time keys

What the wallet functions compute, in terms of the group.
-/

namespace Aperod

open Go Scalar

variable {v : Nat} {r s : Scalar}

/-! ### Scalars -/

theorem Scalar.bytes_toNat (s : Scalar) : (bytes s).toNat = s.val := by
  have hle : groupOrder ≤ 2 ^ (8 * 32) := by decide
  exact Nat.mod_eq_of_lt (by omega)

theorem Scalar.bytes_injective : Function.Injective bytes := by
  intro s t hst
  have hval := congrArg BitVec.toNat hst
  rw [bytes_toNat, bytes_toNat] at hval
  exact Fin.ext hval

@[simp] theorem scalarFromBytes_bytes (s : Scalar) : scalarFromBytes (bytes s) = .ok s := by
  unfold scalarFromBytes
  rw [dif_pos (by rw [bytes_toNat]; exact s.isLt)]
  congr 1
  apply Fin.ext
  exact bytes_toNat s

theorem scalarFromBytes_eq_ok {b : Bytes32} :
    scalarFromBytes b = .ok s ↔ b = bytes s := by
  constructor
  · intro h
    unfold scalarFromBytes at h
    split_ifs at h with hlt
    · cases h
      apply BitVec.eq_of_toNat_eq
      rw [bytes_toNat]
    · cases h
  · rintro rfl
    exact scalarFromBytes_bytes s

/-- The scalar a blind stands for. -/
def blindScalar (b : BlindFactor) : Scalar := Fin.ofNat groupOrder b.toNat

@[simp] theorem blindScalar_bytes (s : Scalar) : blindScalar (bytes s) = s := by
  apply Fin.ext
  show (bytes s).toNat % groupOrder = s.val
  rw [bytes_toNat, Nat.mod_eq_of_lt s.isLt]

@[simp] theorem blindScalar_zero : blindScalar 0 = 0 := by decide +kernel

/-! ### Blind sums -/

theorem loop_blinds_eq_ok {g : Scalar → Scalar} {i : Nat} {bs : List BlindFactor} {acc t : Scalar}
    (h : loop (fun _ b acc => do let s ← scalarFromBytes b; .ok (acc + g s)) i bs acc = .ok t) :
    t = acc + (bs.map fun b => g (blindScalar b)).sum := by
  induction bs generalizing i acc with
  | nil =>
    cases h
    rw [List.map_nil, List.sum_nil, add_zero]
  | cons b bs ih =>
    obtain ⟨acc', hstep, hrest⟩ := loop_cons_eq_ok.mp h
    obtain ⟨s, hs, hacc⟩ := unbind hstep
    cases hacc
    rw [scalarFromBytes_eq_ok.mp hs, ih hrest, List.map_cons, List.sum_cons, blindScalar_bytes,
      add_assoc]

theorem blindSum_eq_ok {ins outs : List BlindFactor} {b : BlindFactor}
    (h : blindSum ins outs = .ok b) :
    b = bytes ((ins.map blindScalar).sum - (outs.map blindScalar).sum) := by
  obtain ⟨acc, hin, h⟩ := unbind h
  obtain ⟨acc', hout, h⟩ := unbind h
  cases h
  have hacc := loop_blinds_eq_ok (g := id) hin
  have hacc' := loop_blinds_eq_ok hout
  have hneg : (outs.map fun b => -blindScalar b).sum = -(outs.map blindScalar).sum := by
    rw [List.sum_neg, List.map_map]
    rfl
  have hid : (ins.map fun b => id (blindScalar b)) = ins.map blindScalar := rfl
  rw [hacc', hacc, hneg, hid, zero_add, sub_eq_add_neg]

/-! ### Commitments -/

section

variable {C : Primitives} (K : Curve C)

/-- The generators of the commitments. -/
def Curve.generators : Pedersen.Generators C.Group groupOrder :=
  ⟨K.base, K.hGenerator, K.addOrderOf_base, K.addOrderOf_hGenerator⟩

/-- The commitment to `v` with blind `r`, encoded. -/
def Curve.commitment (v : Nat) (r : Scalar) : Commitment :=
  K.pointBytes (Pedersen.commit K.generators v r)

variable {K}

theorem Curve.pointBytes_injective : Function.Injective K.pointBytes := by
  intro p q hpq
  have hp := K.pointFromBytes_pointBytes p
  rw [hpq, K.pointFromBytes_pointBytes] at hp
  exact (Except.ok.inj hp).symm

theorem commit_eq_ok (hv : v < 2 ^ 64) {blind : BlindFactor} {c : Commitment} :
    C.commit v blind = .ok c ↔
      blind = bytes (blindScalar blind) ∧ c = K.commitment v (blindScalar blind) := by
  have horder : 2 ^ 64 < groupOrder := by decide
  have hval : (scalarFromUint64 v).val = v := Nat.mod_eq_of_lt (by omega)
  have hpoint : ∀ r : Scalar, K.pointBytes (K.scalarMult r K.base +
      K.scalarMult (scalarFromUint64 v) K.hGenerator) = K.commitment v r := by
    intro r
    rw [K.scalarMult_eq, K.scalarMult_eq, hval]
    rfl
  rw [K.commit_eq v blind hv, bind_eq_ok]
  constructor
  · rintro ⟨r, hr, hc⟩
    have hblind := scalarFromBytes_eq_ok.mp (wrap_eq_ok.mp hr)
    have hscalar : blindScalar blind = r := by rw [hblind, blindScalar_bytes]
    cases hc
    exact ⟨by rw [hscalar, hblind], by rw [hscalar]; exact hpoint r⟩
  · rintro ⟨hblind, rfl⟩
    refine ⟨blindScalar blind, wrap_eq_ok.mpr (scalarFromBytes_eq_ok.mpr hblind), ?_⟩
    rw [hpoint]

theorem commitment_inj : K.commitment v r = K.commitment v s ↔ r = s := by
  unfold Curve.commitment
  rw [Curve.pointBytes_injective.eq_iff, Pedersen.commit_left_inj]

/-! ### One-time keys -/

theorem scalarMulBase_eq_ok {s : Scalar32} {P : Point32} :
    scalarMulBase K s = .ok P ↔
      ∃ x : Scalar, s = bytes x ∧ P = K.pointBytes (x.val • K.base) := by
  unfold scalarMulBase
  rw [bind_eq_ok]
  constructor
  · rintro ⟨x, hx, hP⟩
    cases hP
    exact ⟨x, scalarFromBytes_eq_ok.mp hx, by rw [K.scalarMult_eq]⟩
  · rintro ⟨x, rfl, rfl⟩
    exact ⟨x, scalarFromBytes_bytes x, by rw [K.scalarMult_eq]⟩

/-- **Diffie–Hellman.**  An output made for the keys of a wallet is found by the wallet, and the
scalar found plus the spend key is the private key of the output. -/
theorem scanForOutput_created {spendPriv viewPriv : Scalar32} {spendPub viewPub : Point32}
    (hspend : scalarMulBase K spendPriv = .ok spendPub)
    (hview : scalarMulBase K viewPriv = .ok viewPub) {so : StealthOutput}
    (h : createStealthOutputWithScalar K spendPub viewPub r = .ok so) :
    scanForOutput K viewPriv spendPub so.txPubKey so.oneTimePub = .ok (some so.hsScalar) ∧
      ∃ x, addScalars so.hsScalar spendPriv = .ok x ∧ scalarMulBase K x = .ok so.oneTimePub := by
  obtain ⟨s, rfl, rfl⟩ := scalarMulBase_eq_ok.mp hspend
  obtain ⟨v, rfl, rfl⟩ := scalarMulBase_eq_ok.mp hview
  have hshared : r.val • v.val • K.base = v.val • r.val • K.base := smul_comm r.val v.val K.base
  have hsum : ∀ hs : Scalar, (hs + s).val • K.base = hs.val • K.base + s.val • K.base :=
    fun hs => (Pedersen.multiples K.base K.addOrderOf_base).map_add hs s
  unfold createStealthOutputWithScalar at h
  rw [K.pointFromBytes_pointBytes, K.pointFromBytes_pointBytes] at h
  simp only [wrap, ok_bind, K.scalarMult_eq, hshared, Except.ok.injEq] at h
  subst h
  refine ⟨?_, ?_⟩
  · simp only [scanForOutput, scalarFromBytes_bytes, wrap, ok_bind, K.scalarMult_eq,
      K.pointFromBytes_pointBytes, if_true]
  · refine ⟨_, by simp only [addScalars, scalarFromBytes_bytes, wrap, ok_bind]; rfl, ?_⟩
    apply scalarMulBase_eq_ok.mpr
    exact ⟨_, rfl, by rw [hsum]⟩

end

/-! ### Amounts -/

theorem decryptAmount_encryptAmount (C : Primitives) (amount : UInt64) (hs : Scalar32) :
    decryptAmount C (encryptAmount C amount hs) hs = amount := by
  apply UInt64.toBitVec_inj.mp
  show (amount.toBitVec ^^^ amountKeyStream C hs) ^^^ amountKeyStream C hs = amount.toBitVec
  rw [BitVec.xor_assoc, BitVec.xor_self, BitVec.xor_zero]

end Aperod
