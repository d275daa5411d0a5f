import Aperod.Go.Run
import Mathlib.Algebra.BigOperators.Group.List.Basic
import Mathlib.Algebra.GroupWithZero.Nat

/-!
# Division with a carried remainder

An amount `x` that is due in units of `1/d` is paid in whole units: the quotient is paid and the
remainder is carried to the next division (`quotient`, `remainder`).  Nothing is lost by it
(`quotient_mul_add_remainder`), and over a run the equations telescope, whatever the amounts are and
whatever else happens in between (`telescopes`).
-/

namespace Aperod.Lib.CarriedDivision

open Go

/-- The whole units of `x / d`, with what was carried before. -/
def quotient (d carry x : ℕ) : ℕ := (x + carry) / d

/-- What is carried to the next division. -/
def remainder (d carry x : ℕ) : ℕ := (x + carry) % d

theorem quotient_mul_add_remainder (d carry x : ℕ) :
    d * quotient d carry x + remainder d carry x = x + carry := Nat.div_add_mod _ _

theorem remainder_lt {d : ℕ} (hd : 0 < d) (carry x : ℕ) : remainder d carry x < d :=
  Nat.mod_lt _ hd

/-- A share `p / d` with `p ≤ d` of an amount is at most the amount, also with a carry. -/
theorem quotient_le {d carry p x : ℕ} (hp : p ≤ d) (hcarry : carry < d) :
    quotient d carry (x * p) ≤ x := by
  unfold quotient
  have hpos : 0 < d := by omega
  apply Nat.lt_succ_iff.mp
  rw [Nat.div_lt_iff_lt_mul hpos]
  have hle : x * p ≤ x * d := Nat.mul_le_mul_left x hp
  calc x * p + carry < x * d + d := by omega
    _ = (x + 1) * d := (Nat.succ_mul x d).symm

/-- If every step satisfies the equation of one division, a run satisfies the equation of the
sums. -/
theorem telescopes {σ ε : Type} {step : σ → ε → σ → Prop} {d : ℕ} (carry : σ → ℕ)
    (paid due : ε → ℕ) (hstep : ∀ s e t, step s e t → d * paid e + carry t = due e + carry s) {s t : σ} {es : List ε}
    (h : Run step s es t) :
    d * (es.map paid).sum + carry t = (es.map due).sum + carry s := by
  induction h with
  | nil s => simp
  | cons hs _ ih =>
    have hone := hstep _ _ _ hs
    rw [List.map_cons, List.sum_cons, List.map_cons, List.sum_cons, Nat.mul_add]
    omega

end Aperod.Lib.CarriedDivision
