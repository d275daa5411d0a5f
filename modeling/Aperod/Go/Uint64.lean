import Aperod.Go.Bytes
import Aperod.Go.Outcome
import Aperod.Go.Sort
import Mathlib.Data.List.Lex

/-!
# uint64 amounts and byte-wise string order

`addOr msg` is the addition that fails with `msg` where the sum of the two numbers does not fit 64
bits; `addOr_eq_ok` says that otherwise it is the sum.  Subtraction of Go wraps around: a statement
about it needs the operands to be ordered (`toNat_sub`).

A Go string is compared byte by byte (`less`).
-/

namespace Aperod.Go

/-- `math.MaxUint64`. -/
def uint64Max : UInt64 := 0xFFFFFFFFFFFFFFFF

/-- Addition that fails instead of wrapping around. -/
def addOr (msg : String) (a b : UInt64) : Result UInt64 :=
  if uint64Max - a < b then fail msg else .ok (a + b)

variable {msg : String} {a b c : UInt64}

theorem toNat_uint64Max_sub (a : UInt64) : (uint64Max - a).toNat = 2 ^ 64 - 1 - a.toNat := by
  have hle : a ≤ uint64Max := by
    have hlt := a.toNat_lt
    show a.toNat ≤ 2 ^ 64 - 1
    omega
  rw [UInt64.toNat_sub_of_le _ _ hle]
  rfl

theorem addOr_eq_ok : addOr msg a b = .ok c ↔ c.toNat = a.toNat + b.toNat := by
  have hlt := c.toNat_lt
  have ha := a.toNat_lt
  unfold addOr
  split_ifs with h
  all_goals rw [UInt64.lt_iff_toNat_lt, toNat_uint64Max_sub] at h
  · refine ⟨fun hc => absurd hc (fail_ne_ok _ _), fun hc => ?_⟩
    omega
  · have hsum : (a + b).toNat = a.toNat + b.toNat := by
      rw [UInt64.toNat_add]
      omega
    constructor
    · rintro ⟨⟩
      exact hsum
    · intro hc
      rw [← UInt64.toNat_inj.mp (hc.trans hsum.symm)]

theorem exists_addOr_eq_ok (h : a.toNat + b.toNat < 2 ^ 64) :
    ∃ c, addOr msg a b = .ok c ∧ c.toNat = a.toNat + b.toNat :=
  ⟨UInt64.ofNat (a.toNat + b.toNat), addOr_eq_ok.mpr (UInt64.toNat_ofNat_of_lt' h),
    UInt64.toNat_ofNat_of_lt' h⟩

theorem loop_addOr_eq_ok {α : Type} {f : α → UInt64} {l : List α} {i : Nat} {s t : UInt64} :
    loop (fun _ x total => addOr msg total (f x)) i l s = .ok t ↔
      t.toNat = s.toNat + (l.map fun x => (f x).toNat).sum := by
  induction l generalizing i s with
  | nil =>
    rw [loop_nil, Except.ok.injEq, List.map_nil, List.sum_nil, Nat.add_zero, UInt64.toNat_inj, eq_comm]
  | cons x l ih =>
    rw [loop_cons_eq_ok, List.map_cons, List.sum_cons]
    constructor
    · rintro ⟨s', hs', hrest⟩
      have hone := addOr_eq_ok.mp hs'
      have hsum := ih.mp hrest
      omega
    · intro h
      have hlt := t.toNat_lt
      have hfit : s.toNat + (f x).toNat < 2 ^ 64 := by omega
      obtain ⟨s', hs', hone⟩ : ∃ n, addOr msg s (f x) = .ok n ∧ n.toNat = s.toNat + (f x).toNat :=
        exists_addOr_eq_ok hfit
      exact ⟨s', hs', ih.mpr (by omega)⟩

theorem toNat_sub (h : b.toNat ≤ a.toNat) : (a - b).toNat = a.toNat - b.toNat :=
  UInt64.toNat_sub_of_le _ _ (UInt64.le_iff_toNat_le.mpr h)

/-- `a < b` for strings. -/
def less (a b : Bytes) : Bool := decide (a.map UInt8.toNat < b.map UInt8.toNat)

theorem less_eq_false {a b : Bytes} : less a b = false ↔ b.map UInt8.toNat ≤ a.map UInt8.toNat := by
  unfold less
  rw [decide_eq_false_iff_not, not_lt]

theorem less_weakOrder : WeakOrder less where
  trans hab hbc := less_eq_false.mpr ((less_eq_false.mp hab).trans (less_eq_false.mp hbc))
  total a b := by
    rw [less_eq_false, less_eq_false]
    exact le_total _ _

theorem less_irrefl (a : Bytes) : less a a = false := less_eq_false.mpr le_rfl

theorem less_trans {a b c : Bytes} (h : less a b = true) (h' : less b c = true) :
    less a c = true := by
  unfold less at *
  rw [decide_eq_true_eq] at *
  exact lt_trans h h'

theorem ne_of_less {a b : Bytes} (h : less a b = true) : a ≠ b := by
  rintro rfl
  rw [less_irrefl] at h
  cases h

theorem eq_of_not_less {a b : Bytes} (h : less a b = false) (h' : less b a = false) : a = b := by
  have heq := le_antisymm (less_eq_false.mp h') (less_eq_false.mp h)
  exact (List.map_injective_iff.mpr fun _ _ => UInt8.toNat_inj.mp) heq

end Aperod.Go
