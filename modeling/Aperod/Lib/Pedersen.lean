import Mathlib.Algebra.BigOperators.Group.List.Basic
import Mathlib.GroupTheory.OrderOfElement
import Mathlib.Data.ZMod.Defs
import Mathlib.Tactic.Abel

/-!
# Pedersen commitments

In an additive group with two generators `g` and `h` of one order `n`, the commitment to a value
`v` with blind `r` is `r • g + v • h`.  Blinds are numbers modulo `n`; values are natural numbers.

* `commit_sum`: commitments add up, value by value and blind by blind.
* `commit_left_inj`: for a fixed value the blind is determined.
* `blinds_eq_of_balanced`: if the values of two lists of openings have one sum, the commitments have
  one sum exactly when the blinds do.
-/

namespace Pedersen

variable {G : Type*} [AddCommGroup G] {n : ℕ} [NeZero n]

/-- Multiplication of an element of order `n` by numbers modulo `n`. -/
def multiples (g : G) (hg : addOrderOf g = n) : Fin n →+ G where
  toFun r := r.val • g
  map_zero' := by rw [Fin.val_zero, zero_nsmul]
  map_add' a b := by
    have hmod := mod_addOrderOf_nsmul g (a.val + b.val)
    rw [hg] at hmod
    rw [Fin.val_add, hmod, add_nsmul]

theorem multiples_injective (g : G) (hg : addOrderOf g = n) :
    Function.Injective (multiples g hg) := by
  intro a b hab
  have hmod : a.val ≡ b.val [MOD addOrderOf g] := nsmul_eq_nsmul_iff_modEq.mp hab
  rw [hg] at hmod
  have ha := Nat.mod_eq_of_lt a.isLt
  have hb := Nat.mod_eq_of_lt b.isLt
  unfold Nat.ModEq at hmod
  omega

/-- Two generators of order `n`. -/
structure Generators (G : Type*) [AddCommGroup G] (n : ℕ) where
  g : G
  h : G
  addOrderOf_g : addOrderOf g = n
  addOrderOf_h : addOrderOf h = n

variable (B : Generators G n)

/-- The commitment to `v` with blind `r`. -/
def commit (v : ℕ) (r : Fin n) : G := r.val • B.g + v • B.h

variable {B}

theorem commit_left_inj {v : ℕ} {r s : Fin n} : commit B v r = commit B v s ↔ r = s := by
  unfold commit
  rw [add_left_inj]
  exact (multiples_injective B.g B.addOrderOf_g).eq_iff

theorem commit_add (v w : ℕ) (r s : Fin n) :
    commit B (v + w) (r + s) = commit B v r + commit B w s := by
  have hr : (r + s).val • B.g = r.val • B.g + s.val • B.g :=
    (multiples B.g B.addOrderOf_g).map_add r s
  unfold commit
  rw [hr, add_nsmul]
  abel

theorem commit_sum (l : List (ℕ × Fin n)) :
    (l.map fun o => commit B o.1 o.2).sum = commit B (l.map Prod.fst).sum (l.map Prod.snd).sum := by
  induction l with
  | nil =>
    have hzero : (0 : Fin n).val • B.g = 0 := (multiples B.g B.addOrderOf_g).map_zero
    show (0 : G) = (0 : Fin n).val • B.g + 0 • B.h
    rw [hzero, zero_nsmul, add_zero]
  | cons o l ih =>
    rw [List.map_cons, List.map_cons, List.map_cons, List.sum_cons, List.sum_cons, List.sum_cons, ih,
      commit_add]

/-- With one sum of values, commitments balance exactly when the blinds do. -/
theorem blinds_eq_of_balanced {l m : List (ℕ × Fin n)}
    (hvalue : (l.map Prod.fst).sum = (m.map Prod.fst).sum) :
    (l.map fun o => commit B o.1 o.2).sum = (m.map fun o => commit B o.1 o.2).sum ↔
      (l.map Prod.snd).sum = (m.map Prod.snd).sum := by
  rw [commit_sum, commit_sum, hvalue, commit_left_inj]

end Pedersen
