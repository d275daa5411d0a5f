import Mathlib.Algebra.Field.ZMod
import Mathlib.Algebra.Module.ZMod
import Mathlib.GroupTheory.OrderOfElement
import Mathlib.Tactic.Module
import Mathlib.Tactic.FieldSimp
import Mathlib.Tactic.Abel

/-!
# Multiples of an element of prime order

The elements an integer `n` annihilates are a subgroup, on which numbers modulo `n` act; for a prime
`n` it is a vector space.

* `coe_smul`: the action is repeated addition.
* `eq_smul_of_two_responses`: two answers to one commitment give the discrete logarithm.
-/

namespace DiscreteLog

variable {G : Type*} [AddCommGroup G] {n : ℕ}

/-- The elements that `n` annihilates. -/
def torsion (G : Type*) [AddCommGroup G] (n : ℕ) : AddSubgroup G := (nsmulAddMonoidHom n).ker

theorem mem_torsion {p : G} : p ∈ torsion G n ↔ n • p = 0 := Iff.rfl

instance : Module (ZMod n) (torsion G n) :=
  AddCommGroup.zmodModule fun p => Subtype.ext (mem_torsion.mp p.2)

theorem coe_smul [NeZero n] (s : ZMod n) (p : torsion G n) :
    ((s • p : torsion G n) : G) = s.val • (p : G) := by
  have hcast : s • p = s.val • p := by
    rw [← Nat.cast_smul_eq_nsmul (ZMod n), ZMod.natCast_zmod_val]
  rw [hcast, AddSubgroup.coe_nsmul]

/-- Two answers `z`, `z'` to one commitment `a` under different challenges. -/
theorem eq_smul_of_two_responses {F M : Type*} [Field F] [AddCommGroup M] [Module F M]
    {g p a : M} {z z' c c' : F} (hc : c ≠ c') (h : z • g = a + c • p) (h' : z' • g = a + c' • p) :
    p = ((z - z') / (c - c')) • g := by
  have hdiff : c - c' ≠ 0 := sub_ne_zero.mpr hc
  have hsub : (z - z') • g = (c - c') • p := by
    rw [sub_smul, sub_smul, h, h']
    abel
  rw [div_eq_inv_mul, mul_smul, hsub, inv_smul_smul₀ hdiff]

end DiscreteLog
