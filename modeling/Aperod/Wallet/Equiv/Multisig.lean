import Aperod.Core.Equiv.Wallet
import Aperod.Wallet.Multisig
import Mathlib.Algebra.CharP.Basic
import Mathlib.Data.Int.ModEq
import Mathlib.Tactic.LinearCombination

/-!
# Two shares give the key, one gives nothing

The arithmetic is that of the ring of scalars: there a share is `a * x + secret`
(`multisigShares_eq`), and two of them give the line's value at `0` (`interpolation`).
-/

namespace Aperod

open Go Scalar
open scoped Fin.CommRing

theorem modOrder_eq (x : Int) : modOrder x = (x : Scalar).val := by
  have horder : edOrder = groupOrder := by decide +kernel
  have hnonneg := Int.emod_nonneg x (show (groupOrder : Int) ≠ 0 by decide +kernel)
  have hlt := Int.emod_lt_of_pos x (show (0 : Int) < groupOrder by decide +kernel)
  have hcast : ((modOrder x : Nat) : Scalar) = x := by
    rw [modOrder, horder, ← Int.cast_natCast, Int.toNat_of_nonneg hnonneg]
    exact (CharP.intCast_eq_intCast Scalar groupOrder).mpr (Int.mod_modEq x _)
  rw [← hcast, Fin.val_natCast, Nat.mod_eq_of_lt]
  rw [modOrder, horder]
  omega

theorem cast_modOrder (x : Int) : (modOrder x : Scalar) = x := by
  rw [modOrder_eq, Fin.cast_val_eq_self]

@[simp] theorem scalar32ToBig_bytes (s : Scalar) : scalar32ToBig s.bytes = s.val := by
  have hs : s.val < 256 ^ 32 := s.isLt.trans (by decide +kernel)
  rw [scalar32ToBig, bytesToBigInt, beNat, List.reverse_reverse, Bytes32.bytes, arrayBytes,
    leNat_leBytes, bytes_toNat, Nat.mod_eq_of_lt hs]

@[simp] theorem bigToScalar32_modOrder (x : Int) : bigToScalar32 (modOrder x) = bytes x := by
  rw [bigToScalar32, beBytes, List.reverse_reverse, modOrder_eq, ← bytes_toNat]
  exact bytesArray_arrayBytes _

theorem multisigShares_eq (secret a : Scalar) :
    multisigShares secret.bytes a = [1, 2, 3].map fun x => ⟨x, bytes (a * x + secret)⟩ := by
  simp only [multisigShares, shamirSplit2of3, scalar32ToBig_bytes, bigToScalar32_modOrder,
    Int.cast_add, Int.cast_mul, Int.cast_natCast, Fin.cast_val_eq_self]
  rfl

theorem coprime_difference : ∀ x ∈ [1, 2, 3], ∀ y ∈ [0, 1, 2, 3], x ≠ y →
    (modOrder (x - y)).gcd edOrder = 1 := by
  decide +kernel

/-- The differences between the points `0`, `1`, `2`, `3` have inverses. -/
theorem modInverse_difference {x y : Int} (hx : x ∈ [1, 2, 3]) (hy : y ∈ [0, 1, 2, 3])
    (h : x ≠ y) : ∃ u : Nat, modInverse (modOrder (x - y)) edOrder = some u ∧
      ((x : Scalar) - y) * u = 1 := by
  have hcop := coprime_difference x hx y hy h
  have hbezout :=
    congrArg (Int.cast : Int → Scalar) (Nat.gcd_eq_gcd_ab (modOrder (x - y)) edOrder)
  have hzero : (edOrder : Scalar) = 0 := by decide +kernel
  refine ⟨modOrder ((modOrder (x - y)).gcdA edOrder), if_pos hcop, ?_⟩
  rw [hcop] at hbezout
  push_cast at hbezout
  rw [hzero, zero_mul, add_zero, cast_modOrder, Int.cast_sub] at hbezout
  rw [cast_modOrder, ← hbezout]

/-- The line through the shares at `x` and `y`, taken at `0`. -/
theorem interpolation {x y : Int} (hx : x ∈ [1, 2, 3]) (hy : y ∈ [1, 2, 3]) (h : x ≠ y) :
    ∃ l m : Nat, lagrangeCoeff x y = .ok l ∧ lagrangeCoeff y x = .ok m ∧
      ∀ a s : Scalar, (a * x + s) * l + (a * y + s) * m = s := by
  obtain ⟨u, hinv, hu⟩ := modInverse_difference hx (.tail _ hy) h
  obtain ⟨v, hinv', hv⟩ := modInverse_difference hy (.tail _ hx) h.symm
  have hneg : (v : Scalar) = -u := by
    linear_combination -v * hu - u * hv
  refine ⟨_, _, by rw [lagrangeCoeff, hinv]; rfl, by rw [lagrangeCoeff, hinv']; rfl, fun a s => ?_⟩
  simp only [cast_modOrder, Int.cast_mul, Int.cast_natCast, Int.cast_neg, hneg]
  linear_combination s * hu

theorem partialSign_eq {x y : Int} {l : Nat} (hx : x ∈ [1, 2, 3]) (hy : y ∈ [1, 2, 3])
    (h : x ≠ y) (hl : lagrangeCoeff x y = .ok l) (s : Scalar) :
    partialSign ⟨x, s.bytes⟩ y = .ok ⟨x, bytes (s * l)⟩ := by
  have hrange : ∀ z ∈ [1, 2, 3], ¬ (z < 1 ∨ z > (3 : Int)) := by decide
  simp only [partialSign, failIf, h, hrange x hx, hrange y hy, hl, scalar32ToBig_bytes,
    bigToScalar32_modOrder]
  simp

/-- Every secret explains a share, with one coefficient. -/
theorem existsUnique_coefficient {x : Int} (hx : x ∈ [1, 2, 3]) (secret value : Scalar) :
    ∃! a : Scalar, ⟨x, value.bytes⟩ ∈ multisigShares secret.bytes a := by
  have hne : x ≠ 0 := by
    rintro rfl
    revert hx
    decide
  obtain ⟨u, -, hu⟩ := modInverse_difference hx (.head _) hne
  rw [Int.cast_zero, sub_zero] at hu
  simp only [multisigShares_eq, List.mem_map]
  refine ⟨(value - secret) * u, ⟨x, hx, ?_⟩, ?_⟩
  · have hvalue : (value - secret) * u * x + secret = value := by
      linear_combination (value - secret) * hu
    rw [hvalue]
  · rintro a ⟨_, -, h⟩
    obtain ⟨rfl, hkey⟩ := MultisigShare.mk.inj h
    rw [← bytes_injective hkey]
    linear_combination -a * hu

/-- Any two shares give the secret back, directly or through partial signatures; one share fits
every secret, each with one coefficient. -/
theorem two_of_three (secret a : Scalar) {s t : MultisigShare}
    (hs : s ∈ multisigShares secret.bytes a) (ht : t ∈ multisigShares secret.bytes a)
    (h : s.index ≠ t.index) :
    combineShares [s, t] = .ok secret.bytes ∧
    (∃ p q, partialSign s t.index = .ok p ∧ partialSign t s.index = .ok q ∧
      combinePartials [p, q] = .ok secret.bytes) ∧
    ∀ value : Scalar, ∃! b : Scalar, ⟨s.index, value.bytes⟩ ∈ multisigShares secret.bytes b := by
  rw [multisigShares_eq] at hs ht
  obtain ⟨x, hx, rfl⟩ := List.mem_map.mp hs
  obtain ⟨y, hy, rfl⟩ := List.mem_map.mp ht
  obtain ⟨l, m, hl, hm, hsum⟩ := interpolation hx hy h
  have hxy : x ≠ y := h
  refine ⟨?_, ⟨_, _, partialSign_eq hx hy h hl _, partialSign_eq hy hx h.symm hm _, ?_⟩, ?_⟩
  · simp [combineShares, failIf, hxy, hl, hm, hsum]
  · simp [combinePartials, failIf, hxy, hsum]
  · exact existsUnique_coefficient hx secret

theorem two_of_three_five : combineShares [⟨1, bytes 12⟩, ⟨3, bytes 26⟩] = .ok (bytes 5) :=
  (two_of_three 5 7 (by decide +kernel) (by decide +kernel) (by decide)).1

end Aperod
