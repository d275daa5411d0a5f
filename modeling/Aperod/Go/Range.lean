import Aperod.Go.Map
import Aperod.Go.Uint64
import Mathlib.Algebra.Order.BigOperators.Group.Finset

/-!
# Loops over maps, and maps of amounts

Go does not fix the order in which `range` visits a map.  A `RangeOrder` is one choice of it for every
map with string keys, and code that ranges over such maps takes it as an argument; `forRange` is the
loop.  Where any two iterations can be exchanged, the result is the same in every order
(`forRange_order`).  Collecting the keys and sorting them leaves no choice (`sortedKeys`).

In a map of amounts a missing entry counts as zero (`GoMap.amount`).
-/

namespace Aperod.Go

open List

variable {α σ V : Type}
variable {s t : σ} {i : Nat}

/-! ### Invariants over the elements so far -/

/-- What every successful iteration keeps, where the property may mention the elements so far. -/
theorem loop_past {f : Nat → α → σ → Result σ} (I : List α → σ → Prop) {l : List α}
    (hstep : ∀ past k x s s', past ++ [x] <+: l → I past s → f k x s = .ok s' → I (past ++ [x]) s')
    (h : loop f i l s = .ok t) (hs : I [] s) : I l t := by
  suffices key : ∀ past rest i s, past ++ rest = l → I past s → loop f i rest s = .ok t → I l t from
    key [] l i s rfl hs h
  intro past rest
  induction rest generalizing past with
  | nil =>
    intro i s hl hs h
    cases h
    rwa [← hl, append_nil]
  | cons x rest ih =>
    intro i s hl hs h
    obtain ⟨s', hx, hrest⟩ := loop_cons_eq_ok.mp h
    have hl' : (past ++ [x]) ++ rest = l := by rw [← hl, append_assoc, singleton_append]
    exact ih (past ++ [x]) (i + 1) s' hl' (hstep past i x s s' ⟨rest, hl'⟩ hs hx) hrest

/-- If under the invariant the body succeeds and keeps it, the loop succeeds. -/
theorem loop_progress {f : Nat → α → σ → Result σ} (I : List α → σ → Prop) {l : List α}
    (hstep : ∀ past k x s, past ++ [x] <+: l → I past s →
      ∃ s', f k x s = .ok s' ∧ I (past ++ [x]) s') (hs : I [] s) :
    ∃ t, loop f i l s = .ok t ∧ I l t := by
  suffices key : ∀ past rest i s, past ++ rest = l → I past s →
      ∃ t, loop f i rest s = .ok t ∧ I l t from key [] l i s rfl hs
  intro past rest
  induction rest generalizing past with
  | nil =>
    intro i s hl hs
    exact ⟨s, rfl, by rwa [← hl, append_nil]⟩
  | cons x rest ih =>
    intro i s hl hs
    have hl' : (past ++ [x]) ++ rest = l := by rw [← hl, append_assoc, singleton_append]
    obtain ⟨s', hx, hs'⟩ := hstep past i x s ⟨rest, hl'⟩ hs
    obtain ⟨t, hrest, ht⟩ := ih (past ++ [x]) (i + 1) s' hl' hs'
    exact ⟨t, loop_cons_eq_ok.mpr ⟨s', hx, hrest⟩, ht⟩

/-! ### Exchanging iterations -/

/-- Two successful iterations give the same the other way round. -/
def Exchange (f : α → σ → Result σ) (a b : α) : Prop :=
  ∀ s s' t, f a s = .ok s' → f b s' = .ok t → ∃ s'', f b s = .ok s'' ∧ f a s'' = .ok t

/-- A loop whose iterations can be exchanged gives the same in every order. -/
theorem loop_perm {f : α → σ → Result σ} {l l' : List α} (hp : l.Perm l')
    (hex : l.Pairwise fun a b => Exchange f a b ∧ Exchange f b a) {j : Nat}
    (h : loop (fun _ => f) i l s = .ok t) : loop (fun _ => f) j l' s = .ok t := by
  have hsymm : ∀ {a b}, Exchange f a b ∧ Exchange f b a → Exchange f b a ∧ Exchange f a b :=
    fun hab => ⟨hab.2, hab.1⟩
  induction hp generalizing i j s t with
  | nil => exact h
  | cons x _ ih =>
    obtain ⟨s', hx, hrest⟩ := loop_cons_eq_ok.mp h
    exact loop_cons_eq_ok.mpr ⟨s', hx, ih (pairwise_cons.mp hex).2 hrest⟩
  | swap x y l =>
    obtain ⟨s1, hy, hxl⟩ := loop_cons_eq_ok.mp h
    obtain ⟨s2, hx, hrest⟩ := loop_cons_eq_ok.mp hxl
    have hxy := ((pairwise_cons.mp hex).1 x mem_cons_self).1
    obtain ⟨s3, hx', hy'⟩ := hxy s s1 s2 hy hx
    -- the index is not read, so the rest of the loop is the same loop
    have hindex : ∀ (l : List α) (i j : Nat) (s : σ),
        loop (fun _ => f) i l s = loop (fun _ => f) j l s := by
      intro l
      induction l with
      | nil => intros; rfl
      | cons z l ih => intro i j s; simp only [loop, ih (i + 1) (j + 1)]
    rw [hindex l _ (j + 1 + 1)] at hrest
    exact loop_cons_eq_ok.mpr ⟨s3, hx', loop_cons_eq_ok.mpr ⟨s2, hy', hrest⟩⟩
  | trans hp1 _ ih1 ih2 =>
    have hex2 := (hp1.pairwise_iff hsymm).mp hex
    exact ih2 hex2 (ih1 hex (j := 0) h)

/-! ### Range -/

/-- The order in which `range` visits each map. -/
structure RangeOrder where
  visit : {V : Type} → GoMap Bytes V → List (Bytes × V)
  visit_mem : ∀ {V : Type} (m : GoMap Bytes V), visit m ∈ m.enumerations

/-- `for k, v := range m { … }` with local variables `s`; the body may fail. -/
def RangeOrder.forRange (o : RangeOrder) (m : GoMap Bytes V) (body : Bytes → V → σ → Result σ)
    (s : σ) : Result σ := loop (fun _ (e : Bytes × V) => body e.1 e.2) 0 (o.visit m) s

/-- The order does not matter where the iterations for different keys can be exchanged. -/
theorem RangeOrder.forRange_order {m : GoMap Bytes V} {body : Bytes → V → σ → Result σ}
    (hex : ∀ k v k' v', k ≠ k' →
      Exchange (fun (e : Bytes × V) => body e.1 e.2) (k, v) (k', v')) (o o' : RangeOrder)
    (h : o.forRange m body s = .ok t) : o'.forRange m body s = .ok t := by
  refine loop_perm (GoMap.enumerations_perm (o.visit_mem m) (o'.visit_mem m)) ?_ h
  have hnodup : (o.visit m).Pairwise fun a b => a.1 ≠ b.1 := by
    have hn := (o.visit_mem m).1
    rw [List.Nodup, pairwise_map] at hn
    exact hn
  exact hnodup.imp fun {a b} hne => ⟨hex a.1 a.2 b.1 b.2 hne, hex b.1 b.2 a.1 a.2 (Ne.symm hne)⟩

namespace GoMap

/-- Collect the keys and `sort.Strings` them. -/
def sortedKeys (m : GoMap Bytes V) : List Bytes :=
  m.rangeLift (fun l => sortSlice less (l.map Prod.fst)) fun _ _ hp =>
    sortSlice_eq_of_perm less_weakOrder (fun _ _ => eq_of_not_less) (hp.map _)

variable {m : GoMap Bytes V} {l : List (Bytes × V)}

theorem sortedKeys_perm (h : l ∈ m.enumerations) : m.sortedKeys.Perm (l.map Prod.fst) := by
  unfold sortedKeys
  rw [rangeLift_eq h]
  exact sortSlice_perm _

theorem mem_sortedKeys {k : Bytes} : k ∈ m.sortedKeys ↔ ∃ v, m.get k = some v := by
  obtain ⟨l, hl⟩ := m.exists_enumeration
  rw [(sortedKeys_perm hl).mem_iff, ← mem_toFinset, ← keys_eq_toFinset hl, mem_keys]

theorem sortedKeys_nodup (m : GoMap Bytes V) : m.sortedKeys.Nodup := by
  obtain ⟨l, hl⟩ := m.exists_enumeration
  exact (sortedKeys_perm hl).nodup_iff.mpr hl.1

theorem total_eq_sum (h : l ∈ m.enumerations) (f : V → Nat) :
    m.total f = (l.map fun e => f e.2).sum := by
  unfold total
  rw [keys_eq_toFinset h, sum_toFinset _ h.1, map_map]
  congr 1
  apply map_congr_left
  intro e he
  show (m.get e.1).elim 0 f = f e.2
  rw [(h.2 e.1 e.2).mp he]
  rfl

theorem total_replace {K W : Type} [DecidableEq K] {f : W → Nat} {m : GoMap K W} {k : K} {v w : W}
    (h : m.get k = some v) : (m.set k w).total f + f v = m.total f + f w := by
  rw [← set_del, total_set (get_del_self m k), total_del h]
  omega

theorem le_total {K W : Type} [DecidableEq K] {f : W → Nat} {m : GoMap K W} {k : K} {v : W}
    (h : m.get k = some v) : f v ≤ m.total f := by
  rw [total_del h]
  omega

end GoMap

/-- Visiting the keys in increasing order is one of the orders Go may choose. -/
def RangeOrder.sorted : RangeOrder where
  visit m := m.sortedKeys.filterMap fun k => (m.get k).map fun v => (k, v)
  visit_mem m := by
    refine ⟨?_, fun k v => ?_⟩
    · rw [map_filterMap]
      have hkeys : (m.sortedKeys.filterMap fun k =>
          ((m.get k).map fun v => (k, v)).map Prod.fst) = m.sortedKeys := by
        rw [filterMap_congr (g := some), filterMap_some]
        intro k hk
        obtain ⟨v, hget⟩ := GoMap.mem_sortedKeys.mp hk
        rw [hget]
        rfl
      rw [hkeys]
      exact m.sortedKeys_nodup
    · rw [mem_filterMap]
      constructor
      · rintro ⟨k', -, hk⟩
        obtain ⟨v', hget, heq⟩ := Option.map_eq_some_iff.mp hk
        cases heq
        exact hget
      · intro hget
        exact ⟨k, GoMap.mem_sortedKeys.mpr ⟨v, hget⟩, by rw [hget]; rfl⟩

/-! ### Amounts by name -/

/-- A `map[string]uint64`. -/
abbrev Tally := GoMap Bytes UInt64

namespace GoMap

variable {K : Type} [DecidableEq K]

/-- `m[k]`, zero where there is no entry. -/
def amount (m : GoMap K UInt64) (k : K) : UInt64 := (m.get k).getD 0

/-- `m[k], err = add(m[k], n)` for an addition that fails with `msg`. -/
def addAmount (msg : String) (m : GoMap K UInt64) (k : K) (n : UInt64) :
    Result (GoMap K UInt64) := do
  let total ← addOr msg (m.amount k) n
  .ok (m.set k total)

variable {m m' : GoMap K UInt64} {k j : K} {n : UInt64} {msg : String}

theorem amount_set (m : GoMap K UInt64) (k j : K) (n : UInt64) :
    (m.set k n).amount j = if j = k then n else m.amount j := by
  unfold amount
  rw [get_set]
  split_ifs <;> rfl

theorem addAmount_eq_ok : addAmount msg m k n = .ok m' ↔
    (m.amount k).toNat + n.toNat < 2 ^ 64 ∧ m' = m.set k (m.amount k + n) := by
  unfold addAmount
  rw [bind_eq_ok]
  constructor
  · rintro ⟨t, ht, h⟩
    cases h
    rw [addOr_eq_ok] at ht
    have hlt := t.toNat_lt
    have heq : t = m.amount k + n := by
      apply UInt64.toNat_inj.mp
      rw [UInt64.toNat_add]
      omega
    exact ⟨by omega, by rw [heq]⟩
  · rintro ⟨hlt, rfl⟩
    refine ⟨m.amount k + n, ?_, rfl⟩
    rw [addOr_eq_ok, UInt64.toNat_add]
    omega

theorem toNat_amount_addAmount (h : addAmount msg m k n = .ok m') (j : K) :
    (m'.amount j).toNat = (m.amount j).toNat + if k = j then n.toNat else 0 := by
  obtain ⟨hlt, rfl⟩ := addAmount_eq_ok.mp h
  rw [amount_set]
  by_cases hj : j = k
  · rw [if_pos hj, if_pos hj.symm, UInt64.toNat_add, hj]
    omega
  · rw [if_neg hj, if_neg (Ne.symm hj), Nat.add_zero]

theorem addAmount_exchange {m1 : GoMap K UInt64} {n' : UInt64} (h : addAmount msg m k n = .ok m1)
    (h' : addAmount msg m1 j n' = .ok m') :
    ∃ m2, addAmount msg m j n' = .ok m2 ∧ addAmount msg m2 k n = .ok m' := by
  obtain ⟨hlt, rfl⟩ := addAmount_eq_ok.mp h
  obtain ⟨hlt', rfl⟩ := addAmount_eq_ok.mp h'
  rw [amount_set] at hlt'
  by_cases hj : j = k
  · subst hj
    rw [if_pos rfl, UInt64.toNat_add] at hlt'
    refine ⟨_, addAmount_eq_ok.mpr ⟨by omega, rfl⟩, addAmount_eq_ok.mpr ⟨?_, ?_⟩⟩
    · rw [amount_set, if_pos rfl, UInt64.toNat_add]
      omega
    · rw [amount_set, amount_set, if_pos rfl, if_pos rfl, set_set, set_set, UInt64.add_assoc,
        UInt64.add_assoc, UInt64.add_comm n]
  · rw [if_neg hj] at hlt'
    refine ⟨_, addAmount_eq_ok.mpr ⟨hlt', rfl⟩, addAmount_eq_ok.mpr ⟨?_, ?_⟩⟩
    · rw [amount_set, if_neg (Ne.symm hj)]
      exact hlt
    · rw [amount_set, amount_set, if_neg hj, if_neg (Ne.symm hj)]
      exact set_comm fun heq => absurd heq.symm hj

end GoMap

end Aperod.Go
