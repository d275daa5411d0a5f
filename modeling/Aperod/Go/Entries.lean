import Aperod.Go.Range
import Mathlib.Algebra.BigOperators.Group.Finset.Piecewise

/-!
# Maps entry by entry

`GoMap.entry f m k` is a number read off one entry, zero where there is none, and `GoMap.total` is the
sum of these numbers.  `GoMap.Rel r m n` compares two maps with the same keys entry by entry.

A loop over a map visits every key once.  `forRange_keys` is the invariant rule with the set of the keys
visited so far, and `forRange_keys_progress` shows that such a loop succeeds.
-/

namespace Aperod.Go

variable {σ V W U : Type}

/-! ### Numbers read off the entries -/

namespace GoMap

variable {K : Type} [DecidableEq K] {f : V → ℕ} {m : GoMap K V} {k : K} {v : V}

/-- A number read off an entry; zero without one. -/
def entry (f : V → ℕ) (m : GoMap K V) (k : K) : ℕ := (m.get k).elim 0 f

theorem entry_some (h : m.get k = some v) : m.entry f k = f v := by
  unfold entry
  rw [h]
  rfl

theorem entry_none (h : m.get k = none) : m.entry f k = 0 := by
  unfold entry
  rw [h]
  rfl

@[simp] theorem entry_set_self (m : GoMap K V) (k : K) (v : V) : (m.set k v).entry f k = f v :=
  entry_some (get_set_self m k v)

theorem entry_set_ne {j : K} (h : j ≠ k) : (m.set k v).entry f j = m.entry f j := by
  unfold entry
  rw [get_set_ne h]

theorem total_eq_sum_entry (f : V → ℕ) (m : GoMap K V) : m.total f = ∑ k ∈ m.keys, m.entry f k := rfl

theorem sum_entry_of_subset {s : Finset K} (h : m.keys ⊆ s) : ∑ k ∈ s, m.entry f k = m.total f := by
  refine (Finset.sum_subset h fun k _ hk => ?_).symm
  exact entry_none (get_eq_none_iff.mpr hk)

theorem sum_map_entry {l : List K} (hn : l.Nodup) (hl : ∀ k, k ∈ l ↔ ∃ v, m.get k = some v)
    (g : K → ℕ) : (l.map g).sum = ∑ k ∈ m.keys, g k := by
  have hkeys : m.keys = l.toFinset := by
    ext k
    rw [mem_keys, List.mem_toFinset, hl]
  rw [hkeys, List.sum_toFinset _ hn]

/-! ### Maps with the same keys -/

/-- The maps have the same keys, and related entries. -/
def Rel (r : V → W → Prop) (m : GoMap K V) (n : GoMap K W) : Prop :=
  ∀ k, Option.Rel r (m.get k) (n.get k)

namespace Rel

variable {r : V → W → Prop} {n : GoMap K W} {w : W}

theorem some (h : Rel r m n) (hk : m.get k = .some v) : ∃ w, n.get k = .some w ∧ r v w := by
  have hrel := h k
  rw [hk] at hrel
  generalize n.get k = o at hrel ⊢
  cases hrel with
  | some hr => exact ⟨_, rfl, hr⟩

theorem some_right (h : Rel r m n) (hk : n.get k = .some w) : ∃ v, m.get k = .some v ∧ r v w := by
  have hrel := h k
  rw [hk] at hrel
  generalize m.get k = o at hrel ⊢
  cases hrel with
  | some hr => exact ⟨_, rfl, hr⟩

theorem none_iff (h : Rel r m n) : m.get k = .none ↔ n.get k = .none := by
  have hrel := h k
  generalize m.get k = a, n.get k = b at hrel ⊢
  cases hrel <;> simp

theorem keys_eq (h : Rel r m n) : m.keys = n.keys := by
  ext k
  rw [← not_iff_not, ← get_eq_none_iff, ← get_eq_none_iff, h.none_iff]

theorem refl {r : V → V → Prop} (hr : ∀ v, r v v) (m : GoMap K V) : Rel r m m := by
  intro k
  cases m.get k with
  | none => exact .none
  | some v => exact .some (hr v)

theorem trans {r' : W → U → Prop} {r'' : V → U → Prop} {l : GoMap K U} (h : Rel r m n)
    (h' : Rel r' n l) (hr : ∀ v w u, r v w → r' w u → r'' v u) : Rel r'' m l := by
  intro k
  cases hm : m.get k with
  | none =>
    rw [h'.none_iff.mp (h.none_iff.mp hm)]
    exact .none
  | some v =>
    obtain ⟨w, hw, hvw⟩ := h.some hm
    obtain ⟨u, hu, hwu⟩ := h'.some hw
    rw [hu]
    exact .some (hr v w u hvw hwu)

theorem map {f : V → W} (hf : ∀ v, r v (f v)) (m : GoMap K V) : Rel r m (m.map f) := by
  intro k
  rw [get_map]
  cases m.get k with
  | none => exact .none
  | some v => exact .some (hf v)

theorem setAll {r : V → V → Prop} {f : V → V} {l : List (K × V)} (hr : ∀ v, r v v)
    (hf : ∀ v, r v (f v)) (hnd : (l.map Prod.fst).Nodup) (hl : ∀ x ∈ l, m.get x.1 = .some x.2) :
    Rel r m (m.setAll f l) := by
  intro k
  by_cases hk : k ∈ l.map Prod.fst
  · obtain ⟨x, hmem, rfl⟩ := List.mem_map.mp hk
    rw [get_setAll_of_mem hnd hmem, hl _ hmem]
    exact .some (hf _)
  · rw [get_setAll_of_not_mem hk]
    exact refl hr m k

theorem set_right (h : Rel r m n) (hk : m.get k = .some v) (hr : r v w) : Rel r m (n.set k w) := by
  intro j
  by_cases hj : j = k
  · rw [hj, hk, get_set_self]
    exact .some hr
  · rw [get_set_ne hj]
    exact h j

end Rel

/-! ### Sums of amounts -/

variable {a a' : GoMap K UInt64} {n : UInt64} {msg : String}

theorem total_addAmount (h : addAmount msg a k n = .ok a') :
    a'.total UInt64.toNat = a.total UInt64.toNat + n.toNat := by
  obtain ⟨hlt, rfl⟩ := addAmount_eq_ok.mp h
  have hsum : (a.amount k + n).toNat = (a.amount k).toNat + n.toNat := by
    rw [UInt64.toNat_add]
    omega
  cases hget : a.get k with
  | none =>
    have hzero : a.amount k = 0 := by
      unfold amount
      rw [hget]
      rfl
    rw [total_set hget, hsum, hzero, UInt64.toNat_zero, Nat.zero_add]
  | some x =>
    have hx : a.amount k = x := by
      unfold amount
      rw [hget]
      rfl
    have hrep := total_replace (f := UInt64.toNat) (w := a.amount k + n) hget
    rw [hsum, hx] at hrep
    rw [hx]
    omega

theorem amount_le_total (a : GoMap K UInt64) (k : K) : (a.amount k).toNat ≤ a.total UInt64.toNat := by
  unfold amount
  cases hget : a.get k with
  | none => exact Nat.zero_le _
  | some x => exact le_total hget

end GoMap

/-! ### Loops over the keys -/

namespace RangeOrder

variable {m : GoMap Bytes V} {body : Bytes → V → σ → Result σ} {s t : σ}

theorem visited_snoc (o : RangeOrder) {past : List (Bytes × V)} {x : Bytes × V}
    (h : past ++ [x] <+: o.visit m) :
    x.1 ∉ (past.map Prod.fst).toFinset ∧ m.get x.1 = some x.2 ∧
      ((past ++ [x]).map Prod.fst).toFinset = insert x.1 (past.map Prod.fst).toFinset ∧
      (past.map Prod.fst).toFinset ⊆ m.keys := by
  have hvisit := o.visit_mem m
  have hnodup : ((past ++ [x]).map Prod.fst).Nodup := hvisit.1.sublist (h.sublist.map _)
  rw [List.map_append, List.nodup_append] at hnodup
  refine ⟨?_, ?_, ?_, ?_⟩
  · intro hmem
    exact hnodup.2.2 x.1 (List.mem_toFinset.mp hmem) x.1 (by simp) rfl
  · exact (hvisit.2 x.1 x.2).mp (h.subset (by simp))
  · ext k
    simp
  · intro k hk
    obtain ⟨e, he, rfl⟩ := List.mem_map.mp (List.mem_toFinset.mp hk)
    exact GoMap.mem_keys.mpr ⟨e.2, (hvisit.2 e.1 e.2).mp (h.subset (List.mem_append_left _ he))⟩

/-- **Invariant rule** for a loop over a map, with the keys visited so far. -/
theorem forRange_keys {o : RangeOrder} (I : Finset Bytes → σ → Prop)
    (hstep : ∀ done k v s s', k ∉ done → m.get k = some v → I done s → body k v s = .ok s' →
      I (insert k done) s') (h : o.forRange m body s = .ok t) (hs : I ∅ s) : I m.keys t := by
  rw [GoMap.keys_eq_toFinset (o.visit_mem m)]
  refine loop_past (fun past s => I (past.map Prod.fst).toFinset s) ?_ h hs
  intro past i x s s' hpre hI hx
  obtain ⟨hnew, hget, hinsert, -⟩ := o.visited_snoc hpre
  rw [hinsert]
  exact hstep _ x.1 x.2 s s' hnew hget hI hx

/-- A loop over a map whose body succeeds under the invariant. -/
theorem forRange_keys_progress {o : RangeOrder} (I : Finset Bytes → σ → Prop)
    (hstep : ∀ done k v s, k ∉ done → done ⊆ m.keys → m.get k = some v → I done s →
      ∃ s', body k v s = .ok s' ∧ I (insert k done) s') (hs : I ∅ s) :
    ∃ t, o.forRange m body s = .ok t ∧ I m.keys t := by
  rw [GoMap.keys_eq_toFinset (o.visit_mem m)]
  refine loop_progress (fun past s => I (past.map Prod.fst).toFinset s) ?_ hs
  intro past i x s hpre hI
  obtain ⟨hnew, hget, hinsert, hsub⟩ := o.visited_snoc hpre
  rw [hinsert]
  exact hstep _ x.1 x.2 s hnew hsub hget hI

end RangeOrder

end Aperod.Go
