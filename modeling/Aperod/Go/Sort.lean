import Mathlib.Data.List.Sort
import Mathlib.Tactic.Common

/-!
# sort.Slice

`sortSlice less l` orders a slice by a strict comparison.  Go promises no order among elements that
compare equal; a stable sort of an arbitrarily ordered slice gives every order Go may give.

The question a program asks of a sorted slice is often "is `x` among the first `k`".  The answer
depends on how ties were broken exactly when a class of tied elements lies across position `k`
(`CleanCut` says that none does):

* `mem_take_of_cleanCut`: with a clean cut, membership is a count and no order matters;
* `exists_orders_of_not_cleanCut`: otherwise two sorted orders disagree on some element.
-/

namespace Aperod.Go

open List

variable {α : Type}

/-- `sort.Slice(l, less)`. -/
def sortSlice (less : α → α → Bool) (l : List α) : List α := l.mergeSort fun a b => !less b a

/-- No later element of the slice is less than an earlier one. -/
def Sorted (less : α → α → Bool) (l : List α) : Prop := l.Pairwise fun a b => less b a = false

/-- What `sort.Slice` asks of its comparison: "not greater" is transitive and total. -/
structure WeakOrder (less : α → α → Bool) : Prop where
  trans : ∀ {a b c}, less b a = false → less c b = false → less c a = false
  total : ∀ a b, less b a = false ∨ less a b = false

theorem weakOrder_of_key {ι : Type*} [LinearOrder ι] (key : α → ι) :
    WeakOrder fun a b => decide (key a < key b) where
  trans hab hbc := by
    simp only [decide_eq_false_iff_not, not_lt] at hab hbc ⊢
    exact hab.trans hbc
  total a b := by
    simp only [decide_eq_false_iff_not, not_lt]
    exact le_total (key a) (key b)

variable {less : α → α → Bool}

theorem WeakOrder.irrefl (h : WeakOrder less) (a : α) : less a a = false :=
  (h.total a a).elim id id

variable {a x : α} {l l' : List α} {k : Nat}

theorem WeakOrder.asymm (h : WeakOrder less) {b : α} (hab : less a b = true) :
    less b a = false := by
  rcases h.total a b with hle | hge
  · exact hle
  · rw [hab] at hge
    exact absurd hge (by decide)

/-- What is less than `x` is not after anything that ties with `x` or comes later. -/
theorem WeakOrder.not_less_of_less (h : WeakOrder less) {b : α} (hax : less a x = true)
    (hxb : less b x = false) : less b a = false := h.trans (h.asymm hax) hxb

/-! ### The contract of `sort.Slice` -/

theorem sortSlice_perm (l : List α) : (sortSlice less l).Perm l := mergeSort_perm _ _

theorem mem_sortSlice : a ∈ sortSlice less l ↔ a ∈ l :=
  (sortSlice_perm l).mem_iff

theorem WeakOrder.trans_not (h : WeakOrder less) (a b c : α) (hab : (!less b a) = true)
    (hbc : (!less c b) = true) : (!less c a) = true := by
  simp only [Bool.not_eq_true'] at hab hbc ⊢
  exact h.trans hab hbc

theorem WeakOrder.total_not (h : WeakOrder less) (a b : α) :
    ((!less b a) || (!less a b)) = true := by
  rcases h.total a b with hab | hba
  · simp [hab]
  · simp [hba]

theorem sortSlice_sorted (h : WeakOrder less) (l : List α) : Sorted less (sortSlice less l) := by
  have hp := pairwise_mergeSort h.trans_not h.total_not l
  exact hp.imp fun hab => by simpa using hab

theorem sortSlice_of_sorted (hl : Sorted less l) : sortSlice less l = l :=
  mergeSort_of_pairwise (hl.imp fun hab => by simpa using hab)

/-- The sort is stable: a part of the slice that is in order keeps its order. -/
theorem sublist_sortSlice (h : WeakOrder less) {c : List α} (hc : Sorted less c)
    (hsub : c.Sublist l) : c.Sublist (sortSlice less l) :=
  sublist_mergeSort h.trans_not h.total_not (hc.imp fun hab => by simpa using hab) hsub

/-- Without ties in the slice there is one sorted order. -/
theorem sortSlice_eq_of_perm_of_mem (h : WeakOrder less)
    (hanti : ∀ a ∈ l, ∀ b ∈ l, less a b = false → less b a = false → a = b) (hp : l.Perm l') :
    sortSlice less l = sortSlice less l' := by
  have hperm : (sortSlice less l).Perm (sortSlice less l') :=
    (sortSlice_perm l).trans (hp.trans (sortSlice_perm l').symm)
  refine hperm.eq_of_pairwise (fun a b ha hb hab hba => ?_) (sortSlice_sorted h l)
    (sortSlice_sorted h l')
  exact hanti a (mem_sortSlice.mp ha) b (hp.mem_iff.mpr (mem_sortSlice.mp hb)) hba hab

theorem sortSlice_eq_of_perm (h : WeakOrder less)
    (hanti : ∀ a b, less a b = false → less b a = false → a = b) (hp : l.Perm l') :
    sortSlice less l = sortSlice less l' :=
  sortSlice_eq_of_perm_of_mem h (fun a _ b _ => hanti a b) hp

/-! ### The first `k` of a sorted slice -/

/-- How many elements come strictly before `x`. -/
def before (less : α → α → Bool) (l : List α) (x : α) : Nat := l.countP fun y => less y x

/-- How many elements come before `x` or tie with it. -/
def upTo (less : α → α → Bool) (l : List α) (x : α) : Nat := l.countP fun y => !less x y

/-- No class of tied elements lies across position `k`. -/
def CleanCut (less : α → α → Bool) (l : List α) (k : Nat) : Prop :=
  ∀ x ∈ l, upTo less l x ≤ k ∨ k ≤ before less l x

theorem CleanCut.perm (hp : l.Perm l') (h : CleanCut less l k) : CleanCut less l' k := by
  intro x hx
  have hc := h x (hp.mem_iff.mpr hx)
  unfold upTo before at hc ⊢
  rw [← hp.countP_eq, ← hp.countP_eq]
  exact hc

theorem Sorted.head_tail (hs : Sorted less l) (k : Nat) :
    ∀ a ∈ l.take k, ∀ b ∈ l.drop k, less b a = false := by
  rw [← take_append_drop k l] at hs
  exact (pairwise_append.mp hs).2.2

theorem countP_head_tail (p : α → Bool) (l : List α) (k : Nat) :
    l.countP p = (l.take k).countP p + (l.drop k).countP p := by
  rw [← countP_append, take_append_drop]

theorem before_lt_of_mem_take (h : WeakOrder less) (hs : Sorted less l) (hx : x ∈ l.take k) :
    before less l x < k := by
  -- only other elements of the head can be strictly before `x`: fewer than `k`
  have htail : (l.drop k).countP (fun y => less y x) = 0 :=
    countP_eq_zero.mpr fun b hb => by simp [hs.head_tail k x hx b hb]
  have hhead : (l.take k).countP (fun y => less y x) < (l.take k).length := by
    refine lt_of_le_of_ne countP_le_length fun heq => ?_
    have := countP_eq_length.mp heq x hx
    rw [h.irrefl x] at this
    exact absurd this (by decide)
  have hlen : (l.take k).length ≤ k := length_take_le k l
  unfold before
  rw [countP_head_tail _ l k]
  omega

theorem mem_take_of_upTo_le (h : WeakOrder less) (hs : Sorted less l) (hx : x ∈ l)
    (hle : upTo less l x ≤ k) : x ∈ l.take k := by
  by_contra hnot
  have hdrop : x ∈ l.drop k := by
    rw [← take_append_drop k l] at hx
    exact (mem_append.mp hx).resolve_left hnot
  -- the whole head and `x` itself count
  have hhead : (l.take k).countP (fun y => !less x y) = (l.take k).length :=
    countP_eq_length.mpr fun a ha => by simp [hs.head_tail k a ha x hdrop]
  have htail : 0 < (l.drop k).countP (fun y => !less x y) :=
    countP_pos_iff.mpr ⟨x, hdrop, by simp [h.irrefl x]⟩
  have hlen : (l.take k).length = k := by
    have := length_pos_of_mem hdrop
    rw [length_drop] at this
    rw [length_take]
    omega
  unfold upTo at hle
  rw [countP_head_tail _ l k] at hle
  omega

theorem mem_take_of_cleanCut (h : WeakOrder less) (hs : Sorted less l) (hcut : CleanCut less l k)
    (x : α) :
    x ∈ l.take k ↔ x ∈ l ∧ upTo less l x ≤ k := by
  constructor
  · intro hx
    have hmem := mem_of_mem_take hx
    have hlt := before_lt_of_mem_take h hs hx
    exact ⟨hmem, (hcut x hmem).resolve_right (by omega)⟩
  · rintro ⟨hx, hle⟩
    exact mem_take_of_upTo_le h hs hx hle

/-- The slice with the elements tied with `x` in the given order `t`. -/
theorem sorted_around (h : WeakOrder less) {t : List α}
    (ht : ∀ y ∈ t, less y x = false ∧ less x y = false) :
    Sorted less (sortSlice less (l.filter fun y => less y x) ++ t ++
      sortSlice less (l.filter fun y => less x y)) := by
  have hA : ∀ a ∈ sortSlice less (l.filter fun y => less y x), less a x = true := fun a ha => by
    simpa using (mem_filter.mp (mem_sortSlice.mp ha)).2
  have hB : ∀ b ∈ sortSlice less (l.filter (less x)), less x b = true := fun b hb => by
    simpa using (mem_filter.mp (mem_sortSlice.mp hb)).2
  refine pairwise_append.mpr ⟨pairwise_append.mpr ⟨sortSlice_sorted h _, ?_, ?_⟩,
    sortSlice_sorted h _, ?_⟩
  · -- tied elements are in any order
    rw [pairwise_iff_forall_sublist]
    intro a b hab
    have ha := ht a (hab.subset (by simp))
    have hb := ht b (hab.subset (by simp))
    exact h.trans ha.2 hb.1
  · intro a ha b hb
    exact h.not_less_of_less (hA a ha) (ht b hb).1
  · intro a ha b hb
    rcases mem_append.mp ha with ha | ha
    · exact h.not_less_of_less (hA a ha) (h.asymm (hB b hb))
    · exact h.trans (ht a ha).2 (h.asymm (hB b hb))

theorem perm_around [DecidableEq α] (hx : x ∈ l) (h : WeakOrder less) :
    (sortSlice less (l.filter fun y => less y x) ++
      (x :: (l.filter fun y => !less y x && !less x y).erase x) ++
      sortSlice less (l.filter fun y => less x y)).Perm l := by
  have hmem : x ∈ l.filter fun y => !less y x && !less x y :=
    mem_filter.mpr ⟨hx, by simp [h.irrefl x]⟩
  have htied := (perm_cons_erase hmem).symm
  have hrest : ((l.filter fun y => !less y x && !less x y) ++ l.filter (less x)).Perm
      (l.filter fun y => !less y x) := by
    have hp := filter_append_perm (fun y => !less x y) (l.filter fun y => !less y x)
    rw [filter_filter, filter_filter] at hp
    refine List.Perm.trans (List.Perm.of_eq ?_) hp
    congr 1
    · refine filter_congr fun y _ => ?_
      rw [Bool.and_comm]
    · refine filter_congr fun y _ => ?_
      rcases hxy : less x y with _ | _
      · simp
      · simp [h.asymm hxy]
  rw [append_assoc]
  exact ((sortSlice_perm _).append ((htied.append (sortSlice_perm _)).trans hrest)).trans
    (filter_append_perm _ l)

theorem upTo_eq (h : WeakOrder less) (l : List α) (x : α) :
    upTo less l x = before less l x + (l.filter fun y => !less y x && !less x y).length := by
  unfold upTo before
  rw [countP_eq_length_filter, countP_eq_length_filter, ← length_append]
  have hp := filter_append_perm (fun y => less y x) (l.filter fun y => !less x y)
  rw [← hp.length_eq, filter_filter, filter_filter]
  congr 2
  refine filter_congr fun y _ => ?_
  rcases hyx : less y x with _ | _
  · simp
  · simp [h.asymm hyx]

/-- **Ties at the cut**: two sorted orders of one slice disagree on who is among the first `k`. -/
theorem exists_orders_of_not_cleanCut [DecidableEq α] (h : WeakOrder less) (hnd : l.Nodup)
    (hcut : ¬ CleanCut less l k) :
    ∃ x ∈ l, ∃ l1 l2, l1.Perm l ∧ l2.Perm l ∧ Sorted less l1 ∧ Sorted less l2 ∧
      x ∈ l1.take k ∧ x ∉ l2.take k := by
  unfold CleanCut at hcut
  push Not at hcut
  obtain ⟨x, hx, hup, hbefore⟩ := hcut
  have hsize := upTo_eq h l x
  have hperm := perm_around hx h
  have hsorted : ∀ t : List α, t.Perm (l.filter fun y => !less y x && !less x y) → _ :=
    fun t ht => sorted_around (l := l) h fun y hy => by
      simpa using (mem_filter.mp (ht.mem_iff.mp hy)).2
  have hmem : x ∈ l.filter fun y => !less y x && !less x y :=
    mem_filter.mpr ⟨hx, by simp [h.irrefl x]⟩
  have htied := (perm_cons_erase hmem).symm
  have hA : (sortSlice less (l.filter fun y => less y x)).length = before less l x := by
    rw [(sortSlice_perm _).length_eq, before, countP_eq_length_filter]
  have hT := length_erase_of_mem hmem
  have hxA : x ∉ sortSlice less (l.filter fun y => less y x) := fun hmem => by
    simpa [h.irrefl x] using (mem_filter.mp (mem_sortSlice.mp hmem)).2
  have hxT : x ∉ (l.filter fun y => !less y x && !less x y).erase x :=
    fun hmem => (List.Nodup.mem_erase_iff (hnd.filter _)).mp hmem |>.1 rfl
  generalize (l.filter fun y => !less y x && !less x y).erase x = T at *
  have hswap : (T ++ [x]).Perm (x :: T) := perm_append_comm
  generalize sortSlice less (l.filter fun y => less y x) = A at *
  generalize sortSlice less (l.filter (less x)) = B at *
  refine ⟨x, hx, A ++ (x :: T) ++ B, A ++ (T ++ [x]) ++ B, hperm,
    ((hswap.append_left A).append_right B).trans hperm, hsorted _ htied,
    hsorted _ (hswap.trans htied), ?_, ?_⟩
  · -- `x` stands first among its ties, at position `before x < k`
    have heq : A ++ (x :: T) ++ B = (A ++ [x]) ++ (T ++ B) := by simp
    rw [heq, take_append, take_of_length_le (by simp; omega)]
    simp
  · -- `x` stands last among its ties, at position `upTo x - 1 ≥ k`
    have heq : A ++ (T ++ [x]) ++ B = (A ++ T) ++ (x :: B) := by simp
    rw [heq, take_append_of_le_length (by simp; omega)]
    intro hmem
    rcases mem_append.mp (mem_of_mem_take hmem) with hmem | hmem
    · exact hxA hmem
    · exact hxT hmem

end Aperod.Go
