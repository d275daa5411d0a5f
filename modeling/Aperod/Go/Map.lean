import Mathlib.Data.Finmap
import Mathlib.Algebra.BigOperators.Group.Finset.Basic
import Mathlib.Tactic.Common

/-!
# Go maps

`GoMap K V` is a finite map with the operations a Go program uses: lookup with the comma-ok form
(`get`), assignment (`set`), `delete` (`del`) and `len`.  Two maps with the same lookups are equal
(`GoMap.ext`), so a statement "the map is exactly as before" is an equation.

Every operation is characterised by its effect on `get` (`get_set`, `get_del`), and `len` by how
an operation changes it (`len_set`, `len_del_lt`).  The order in which `range` visits a map is any
list in `enumerations`.
-/

namespace Aperod.Go

open List

/-- A Go `map[K]V`. -/
def GoMap (K V : Type) : Type := Finmap fun _ : K => V

namespace GoMap

variable {K V : Type}

/-- `make(map[K]V)`. -/
def empty : GoMap K V := (∅ : Finmap fun _ : K => V)

instance : EmptyCollection (GoMap K V) := ⟨empty⟩

variable [DecidableEq K]

instance [DecidableEq V] : DecidableEq (GoMap K V) :=
  inferInstanceAs (DecidableEq (Finmap fun _ : K => V))

/-- `v, ok := m[k]`. -/
def get (m : GoMap K V) (k : K) : Option V := Finmap.lookup k m

/-- `m[k] = v`. -/
def set (m : GoMap K V) (k : K) (v : V) : GoMap K V := Finmap.insert k v m

/-- `delete(m, k)`. -/
def del (m : GoMap K V) (k : K) : GoMap K V := Finmap.erase k m

/-- `_, ok := m[k]`. -/
def has (m : GoMap K V) (k : K) : Bool := (m.get k).isSome

def keys (m : GoMap K V) : Finset K := Finmap.keys m

/-- `len(m)`. -/
def len (m : GoMap K V) : Nat := m.keys.card

/-- The map with every value changed by `f`: a `range` loop that rewrites each entry on its own. -/
def map {W : Type} (f : V → W) (m : GoMap K V) : GoMap K W where
  entries := m.entries.map fun e => ⟨e.1, f e.2⟩
  nodupKeys := by
    have hkeys : (m.entries.map fun e => (⟨e.1, f e.2⟩ : Sigma fun _ : K => W)).keys =
        m.entries.keys := by simp [Multiset.keys]
    rw [← Multiset.nodup_keys, hkeys]
    exact Multiset.nodup_keys.mpr m.nodupKeys

/-- The entries that satisfy `p`: a `range` loop that deletes the others. -/
def filter (p : K → V → Bool) (m : GoMap K V) : GoMap K V where
  entries := m.entries.filter fun e => p e.1 e.2
  nodupKeys := by
    rw [← Multiset.nodup_keys]
    exact Multiset.nodup_of_le (Multiset.map_le_map (Multiset.filter_le _ _))
      (Multiset.nodup_keys.mpr m.nodupKeys)

/-- What a `range` loop computes when the order of the entries does not matter to it. -/
def rangeLift {β : Type} (f : List (K × V) → β) (hf : ∀ l l', l.Perm l' → f l = f l')
    (m : GoMap K V) : β :=
  Quot.lift (fun l => f (l.map fun e => (e.1, e.2))) (fun _ _ h => hf _ _ (h.map _)) m.entries

/-- The number of entries whose value satisfies `p`: a counting `range` loop. -/
def count (p : V → Bool) (m : GoMap K V) : Nat := (m.keys.filter fun k => (m.get k).any p).card

/-- Every entry satisfies `p`: a `range` loop that fails at the first entry that does not. -/
def all (p : K → V → Bool) (m : GoMap K V) : Bool := decide (∀ k ∈ m.keys, (m.get k).all (p k))

/-- The sum of a number over all entries. -/
def total (f : V → Nat) (m : GoMap K V) : Nat := ∑ k ∈ m.keys, (m.get k).elim 0 f

/-- Assign `f v` under `k` for every pair `(k, v)` of a list, in order. -/
def setAll (f : V → V) (l : List (K × V)) (m : GoMap K V) : GoMap K V :=
  l.foldl (fun m e => m.set e.1 (f e.2)) m

/-- Assign every value of a list under its own key, in order. -/
def index (key : V → K) (l : List V) (m : GoMap K V) : GoMap K V :=
  l.foldl (fun m v => m.set (key v) v) m

/-- The lists in which `range m` may visit the entries: any order, each entry once. -/
def enumerations (m : GoMap K V) : Set (List (K × V)) :=
  {l | (l.map Prod.fst).Nodup ∧ ∀ k v, (k, v) ∈ l ↔ m.get k = some v}

/-! ### Lookup -/

variable {m : GoMap K V} {k k' : K} {v : V} {f : V → V} {l l' : List (K × V)} {α : Type}
  {key : α → K} {val : α → V}

@[ext] theorem ext {n : GoMap K V} (h : ∀ k, m.get k = n.get k) : m = n :=
  Finmap.ext_lookup h

@[simp] theorem get_empty (k : K) : (∅ : GoMap K V).get k = none := Finmap.lookup_empty k

theorem get_set (m : GoMap K V) (k k' : K) (v : V) :
    (m.set k v).get k' = if k' = k then some v else m.get k' := by
  split_ifs with h
  · subst h; exact Finmap.lookup_insert m
  · exact Finmap.lookup_insert_of_ne m h

@[simp] theorem get_set_self (m : GoMap K V) (k : K) (v : V) : (m.set k v).get k = some v := by
  rw [get_set, if_pos rfl]

theorem get_set_ne (h : k' ≠ k) : (m.set k v).get k' = m.get k' := by
  rw [get_set, if_neg h]

theorem get_del (m : GoMap K V) (k k' : K) :
    (m.del k).get k' = if k' = k then none else m.get k' := by
  split_ifs with h
  · subst h; exact Finmap.lookup_erase _ _
  · exact Finmap.lookup_erase_ne h

@[simp] theorem get_del_self (m : GoMap K V) (k : K) : (m.del k).get k = none := by
  rw [get_del, if_pos rfl]

theorem get_del_ne (h : k' ≠ k) : (m.del k).get k' = m.get k' := by
  rw [get_del, if_neg h]

@[simp] theorem get_map {W : Type} (f : V → W) (m : GoMap K V) (k : K) :
    (m.map f).get k = (m.get k).map f := by
  ext w
  have hleft : w ∈ (m.map f).get k ↔ ⟨k, w⟩ ∈ (m.map f).entries := Finmap.mem_lookup_iff
  have hright : ∀ v, v ∈ m.get k ↔ ⟨k, v⟩ ∈ m.entries := fun v => Finmap.mem_lookup_iff
  simp only [Option.mem_def, Option.map_eq_some_iff] at hleft hright ⊢
  rw [hleft]
  simp only [map, Multiset.mem_map, hright]
  constructor
  · rintro ⟨⟨k', v⟩, hmem, heq⟩
    cases heq
    exact ⟨v, hmem, rfl⟩
  · rintro ⟨v, hmem, rfl⟩
    exact ⟨⟨k, v⟩, hmem, rfl⟩

@[simp] theorem get_filter (p : K → V → Bool) (m : GoMap K V) (k : K) :
    (m.filter p).get k = (m.get k).filter (p k) := by
  ext v
  have hleft : v ∈ (m.filter p).get k ↔ ⟨k, v⟩ ∈ (m.filter p).entries := Finmap.mem_lookup_iff
  have hright : v ∈ m.get k ↔ ⟨k, v⟩ ∈ m.entries := Finmap.mem_lookup_iff
  rw [← Option.mem_def, ← Option.mem_def, hleft, Option.mem_filter_iff, hright, filter,
    Multiset.mem_filter]

theorem filter_eq_self {p : K → V → Bool} (h : ∀ k v, m.get k = some v → p k v = true) :
    m.filter p = m := by
  ext k : 1
  rw [get_filter]
  cases hget : m.get k with
  | none => rfl
  | some v => rw [Option.filter_some_pos (h k v hget)]

theorem has_eq_true : m.has k = true ↔ ∃ v, m.get k = some v :=
  Option.isSome_iff_exists

theorem has_eq_false : m.has k = false ↔ m.get k = none := by
  simp [has]

theorem has_set_eq_true : (m.set k v).has k' = true ↔ k' = k ∨ m.has k' = true := by
  unfold has
  rw [get_set]
  split_ifs with h <;> simp [h]

theorem del_of_get_none (h : m.get k = none) : m.del k = m := by
  ext k' : 1
  rw [get_del]
  split_ifs with hk
  · rw [hk, h]
  · rfl

theorem del_set_of_get_none (h : m.get k = none) : (m.set k v).del k = m := by
  ext k' : 1
  rw [get_del, get_set]
  split_ifs with hk
  · rw [hk, h]
  · rfl

@[simp] theorem set_set (m : GoMap K V) (k : K) (v w : V) : (m.set k v).set k w = m.set k w := by
  ext k' : 1
  rw [get_set, get_set, get_set]
  split_ifs <;> rfl

theorem set_comm {v' : V} (h : k = k' → v = v') :
    (m.set k v).set k' v' = (m.set k' v').set k v := by
  ext i : 1
  simp only [get_set]
  split_ifs with h1 h2
  · rw [h (h2.symm.trans h1)]
  all_goals rfl

theorem set_del (m : GoMap K V) (k : K) (v : V) : (m.del k).set k v = m.set k v := by
  ext k' : 1
  rw [get_set, get_set, get_del]
  split_ifs <;> rfl

theorem set_eq_self_iff : m.set k v = m ↔ m.get k = some v := by
  constructor
  · intro h
    rw [← h, get_set_self]
  · intro h
    ext k' : 1
    rw [get_set]
    split_ifs with hk
    · rw [hk, h]
    · rfl

/-! ### Size -/

theorem mem_keys : k ∈ m.keys ↔ ∃ v, m.get k = some v :=
  Finmap.mem_keys.trans Finmap.mem_iff

theorem keys_set (m : GoMap K V) (k : K) (v : V) : (m.set k v).keys = insert k m.keys := by
  ext k'
  rw [mem_keys, Finset.mem_insert, mem_keys, get_set]
  split_ifs with h <;> simp [h]

theorem len_set (m : GoMap K V) (k : K) (v : V) :
    (m.set k v).len = if m.has k then m.len else m.len + 1 := by
  have hk : k ∈ m.keys ↔ m.has k = true := by rw [mem_keys, has_eq_true]
  unfold len
  rw [keys_set, Finset.card_insert_eq_ite]
  simp only [hk]

theorem count_set_le (p : V → Bool) (m : GoMap K V) (k : K) (v : V) :
    (m.set k v).count p ≤ m.count p + 1 := by
  refine (Finset.card_le_card (t := insert k (m.keys.filter fun k => (m.get k).any p)) ?_).trans
    (Finset.card_insert_le _ _)
  intro k' hk'
  rw [Finset.mem_filter, keys_set, get_set] at hk'
  rw [Finset.mem_insert, Finset.mem_filter]
  by_cases heq : k' = k
  · exact Or.inl heq
  · rw [if_neg heq] at hk'
    exact Or.inr ⟨Finset.mem_of_mem_insert_of_ne hk'.1 heq, hk'.2⟩

theorem all_eq_true {p : K → V → Bool} :
    m.all p = true ↔ ∀ k v, m.get k = some v → p k v = true := by
  unfold all
  rw [decide_eq_true_eq]
  constructor
  · intro h k v hget
    have hk := h k (mem_keys.mpr ⟨v, hget⟩)
    rwa [hget] at hk
  · intro h k hk
    obtain ⟨v, hget⟩ := mem_keys.mp hk
    rw [hget]
    exact h k v hget

theorem get_eq_none_iff : m.get k = none ↔ k ∉ m.keys := by
  rw [mem_keys, ← Option.not_isSome_iff_eq_none, Option.isSome_iff_exists]

theorem total_set {f : V → Nat} (h : m.get k = none) : (m.set k v).total f = m.total f + f v := by
  unfold total
  rw [keys_set, Finset.sum_insert (get_eq_none_iff.mp h), get_set_self, Nat.add_comm]
  congr 1
  refine Finset.sum_congr rfl fun k' hk' => ?_
  rw [get_set_ne]
  rintro rfl
  exact get_eq_none_iff.mp h hk'

theorem total_del {f : V → Nat} (h : m.get k = some v) : m.total f = (m.del k).total f + f v := by
  rw [← total_set (get_del_self m k), set_del, set_eq_self_iff.mpr h]

/-! ### Assigning many keys -/

theorem count_setAll_le (p : V → Bool) (f : V → V) (l : List (K × V)) (m : GoMap K V) :
    (m.setAll f l).count p ≤ m.count p + l.length := by
  unfold setAll
  induction l generalizing m with
  | nil => exact le_rfl
  | cons e l ih =>
    have hone := count_set_le p m e.1 (f e.2)
    have hrest := ih (m.set e.1 (f e.2))
    rw [foldl_cons, length_cons]
    omega

/-- After assignments in a row a key has its old value if none assigns it, else one assigned to it. -/
theorem get_foldl_set_cases (key : α → K) (val : α → V) (l : List α) (m : GoMap K V) (k : K) :
    (k ∉ l.map key ∧ (l.foldl (fun m x => m.set (key x) (val x)) m).get k = m.get k) ∨
      ∃ x ∈ l, key x = k ∧
        (l.foldl (fun m x => m.set (key x) (val x)) m).get k = some (val x) := by
  induction l generalizing m with
  | nil => exact .inl ⟨not_mem_nil, rfl⟩
  | cons x l ih =>
    rcases ih (m.set (key x) (val x)) with ⟨hl, hget⟩ | ⟨y, hy, hget⟩
    · by_cases hx : k = key x
      · exact .inr ⟨x, mem_cons_self, hx.symm, by rw [foldl_cons, hget, hx, get_set_self]⟩
      · exact .inl ⟨not_mem_cons_of_ne_of_not_mem hx hl, by rw [foldl_cons, hget, get_set_ne hx]⟩
    · exact .inr ⟨y, mem_cons_of_mem _ hy, hget⟩

theorem get_foldl_set_of_not_mem {l : List α} (h : k ∉ l.map key) :
    (l.foldl (fun m x => m.set (key x) (val x)) m).get k = m.get k := by
  rcases get_foldl_set_cases key val l m k with ⟨-, hget⟩ | ⟨x, hx, rfl, -⟩
  · exact hget
  · exact absurd (mem_map_of_mem hx) h

theorem get_foldl_set_some {l : List α}
    (h : (l.foldl (fun m x => m.set (key x) (val x)) m).get k = some v) :
    m.get k = some v ∨ ∃ x ∈ l, key x = k ∧ val x = v := by
  rcases get_foldl_set_cases key val l m k with ⟨-, hget⟩ | ⟨x, hx, hk, hget⟩
  · exact .inl (hget.symm.trans h)
  · exact .inr ⟨x, hx, hk, Option.some.inj (hget.symm.trans h)⟩

theorem get_foldl_set_of_mem {l : List α} (h : k ∈ l.map key) :
    ∃ v, (l.foldl (fun m x => m.set (key x) (val x)) m).get k = some v := by
  rcases get_foldl_set_cases key val l m k with ⟨hnot, -⟩ | ⟨x, -, -, hget⟩
  · exact absurd h hnot
  · exact ⟨val x, hget⟩

theorem get_setAll_of_not_mem (hk : k ∉ l.map Prod.fst) : (m.setAll f l).get k = m.get k :=
  get_foldl_set_of_not_mem hk

theorem get_setAll_of_mem (hnd : (l.map Prod.fst).Nodup) (hk : (k, v) ∈ l) :
    (m.setAll f l).get k = some (f v) := by
  rcases get_foldl_set_cases Prod.fst (fun e => f e.2) l m k with ⟨hnot, -⟩ | ⟨e, he, hek, hget⟩
  · exact absurd (mem_map_of_mem hk) hnot
  · cases inj_on_of_nodup_map hnd he hk hek
    exact hget

theorem setAll_congr (hnd : (l.map Prod.fst).Nodup) (hnd' : (l'.map Prod.fst).Nodup)
    (h : ∀ e, e ∈ l ↔ e ∈ l') :
    m.setAll f l = m.setAll f l' := by
  ext k : 1
  by_cases hk : k ∈ l.map Prod.fst
  · obtain ⟨⟨k, v⟩, hmem, rfl⟩ := mem_map.mp hk
    rw [get_setAll_of_mem hnd hmem, get_setAll_of_mem hnd' ((h _).mp hmem)]
  · have hk' : k ∉ l'.map Prod.fst := fun hmem => hk (by
      obtain ⟨e, he, rfl⟩ := mem_map.mp hmem
      exact mem_map_of_mem ((h e).mpr he))
    rw [get_setAll_of_not_mem hk, get_setAll_of_not_mem hk']

/-- Assignments that agree with `n` make the map agree with `n` where they assign. -/
theorem get_foldl_set {l : List α} {n : GoMap K V} (hl : ∀ x ∈ l, n.get (key x) = some (val x))
    (hk : (∀ x ∈ l, key x ≠ k) → m.get k = n.get k) :
    (l.foldl (fun m x => m.set (key x) (val x)) m).get k = n.get k := by
  rcases get_foldl_set_cases key val l m k with ⟨hnot, hget⟩ | ⟨x, hx, rfl, hget⟩
  · exact hget.trans (hk fun x hx heq => hnot (mem_map.mpr ⟨x, hx, heq⟩))
  · rw [hget, hl x hx]

theorem foldl_set_set_of_mem {l : List α} (h : k ∈ l.map key) :
    l.foldl (fun m x => m.set (key x) (val x)) (m.set k v) =
      l.foldl (fun m x => m.set (key x) (val x)) m := by
  induction l generalizing m with
  | nil => exact absurd h not_mem_nil
  | cons x l ih =>
    rw [foldl_cons, foldl_cons]
    by_cases hx : k = key x
    · rw [hx, set_set]
    · rw [set_comm fun heq => absurd heq hx]
      exact ih ((mem_cons.mp h).resolve_left hx)

/-- Assignments to one key and to others leave a map as it is if both do. -/
theorem foldl_set_cons_eq_self_iff {x : α} {l : List α} (h : key x ∉ l.map key) :
    l.foldl (fun m x => m.set (key x) (val x)) (m.set (key x) (val x)) = m ↔
      m.get (key x) = some (val x) ∧ l.foldl (fun m x => m.set (key x) (val x)) m = m := by
  constructor
  · intro heq
    have hget : m.get (key x) = some (val x) := by
      rw [← heq, get_foldl_set_of_not_mem h, get_set_self]
    rw [set_eq_self_iff.mpr hget] at heq
    exact ⟨hget, heq⟩
  · rintro ⟨hget, heq⟩
    rw [set_eq_self_iff.mpr hget, heq]

theorem get_foldl_set_const {l : List α} :
    (l.foldl (fun m x => m.set (key x) v) m).get k =
      if k ∈ l.map key then some v else m.get k := by
  induction l generalizing m with
  | nil => rfl
  | cons x l ih =>
    rw [foldl_cons, ih, get_set]
    by_cases hx : k = key x <;> simp [hx]

theorem get_foldl_del {l : List α} :
    (l.foldl (fun m x => m.del (key x)) m).get k = if k ∈ l.map key then none else m.get k := by
  induction l generalizing m with
  | nil => rfl
  | cons x l ih =>
    rw [foldl_cons, ih, get_del]
    by_cases hx : k = key x <;> simp [hx]

/-- An index over a list whose keys tell its values apart. -/
theorem get_index {key : V → K} {l : List V} (hkey : ∀ a ∈ l, ∀ b ∈ l, key a = key b → a = b) :
    (m.index key l).get k = some v ↔
      (v ∈ l ∧ key v = k) ∨ (m.get k = some v ∧ ∀ w ∈ l, key w ≠ k) := by
  rcases get_foldl_set_cases key (fun v => v) l m k with ⟨hnot, hget⟩ | ⟨x, hx, rfl, hget⟩
  · rw [mem_map, not_exists] at hnot
    rw [index, hget]
    constructor
    · exact fun h => .inr ⟨h, fun w hw hwk => hnot w ⟨hw, hwk⟩⟩
    · rintro (hv | ⟨h, -⟩)
      · exact absurd hv (hnot v)
      · exact h
  · rw [index, hget, Option.some_inj]
    constructor
    · rintro rfl
      exact .inl ⟨hx, rfl⟩
    · rintro (⟨hv, hk⟩ | ⟨-, hne⟩)
      · exact hkey x hx v hv hk.symm
      · exact absurd rfl (hne x hx)

/-! ### Properties of all entries -/

/-- Every entry has the property. -/
def All (P : K → V → Prop) (m : GoMap K V) : Prop := ∀ k v, m.get k = some v → P k v

namespace All

variable {P : K → V → Prop}

theorem empty : (∅ : GoMap K V).All P := by
  intro k v h
  cases h

theorem set (hm : m.All P) {k : K} {v : V} (hv : P k v) : (m.set k v).All P := by
  intro k' v' h
  rw [get_set] at h
  split_ifs at h with hk
  · cases h
    exact hk ▸ hv
  · exact hm k' v' h

theorem del (hm : m.All P) (k : K) : (m.del k).All P := by
  intro k' v' h
  rw [get_del] at h
  split_ifs at h
  exact hm k' v' h

end All

/-! ### Enumerations -/

theorem exists_enumeration (m : GoMap K V) : ∃ l, l ∈ m.enumerations := by
  refine ⟨m.entries.toList.map fun e => (e.1, e.2), ?_, fun k v => ?_⟩
  · have hnd : (m.entries.keys).Nodup := Multiset.nodup_keys.mpr m.nodupKeys
    rw [← Multiset.coe_nodup, map_map, ← Multiset.map_coe, Multiset.coe_toList]
    exact hnd
  · have hmem : v ∈ m.get k ↔ ⟨k, v⟩ ∈ m.entries := Finmap.mem_lookup_iff
    rw [← Option.mem_def, hmem, mem_map]
    constructor
    · rintro ⟨⟨k', v'⟩, he, heq⟩
      cases heq
      exact Multiset.mem_toList.mp he
    · exact fun he => ⟨⟨k, v⟩, Multiset.mem_toList.mpr he, rfl⟩

theorem count_map {W : Type} (f : V → W) (p : W → Bool) (m : GoMap K V) :
    (m.map f).count p = m.count fun v => p (f v) := by
  unfold count
  congr 1
  ext k
  simp only [Finset.mem_filter, mem_keys, get_map]
  rcases m.get k with _ | v <;> simp

theorem rangeLift_eq {β : Type} {f : List (K × V) → β} {hf : ∀ l l', l.Perm l' → f l = f l'}
    (h : l ∈ m.enumerations) : m.rangeLift f hf = f l := by
  obtain ⟨⟨entries⟩, hnodup⟩ := m
  refine hf _ _ ((perm_ext_iff_of_nodup ?_ (List.Nodup.of_map _ h.1)).mpr fun e => ?_)
  · refine List.Nodup.of_map Prod.fst ?_
    rw [map_map]
    exact Multiset.nodup_keys.mpr hnodup
  · rw [h.2 e.1 e.2]
    have hmem : e.2 ∈ get ⟨Quot.mk _ entries, hnodup⟩ e.1 ↔
        (⟨e.1, e.2⟩ : Sigma fun _ : K => V) ∈ entries := Finmap.mem_lookup_iff
    rw [← Option.mem_def, hmem, mem_map]
    constructor
    · rintro ⟨a, ha, rfl⟩
      exact ha
    · exact fun he => ⟨_, he, rfl⟩

variable (h : l ∈ m.enumerations)
include h

theorem keys_eq_toFinset : m.keys = (l.map Prod.fst).toFinset := by
  ext k
  rw [mem_keys, mem_toFinset, mem_map]
  constructor
  · rintro ⟨v, hv⟩
    exact ⟨(k, v), (h.2 k v).mpr hv, rfl⟩
  · rintro ⟨e, he, rfl⟩
    exact ⟨e.2, (h.2 e.1 e.2).mp he⟩

theorem nodup_of_enumeration : l.Nodup := List.Nodup.of_map _ h.1

theorem enumerations_perm (h' : l' ∈ m.enumerations) : l.Perm l' :=
  (perm_ext_iff_of_nodup (nodup_of_enumeration h) (nodup_of_enumeration h')).mpr
    fun e => (h.2 e.1 e.2).trans (h'.2 e.1 e.2).symm

theorem mem_enumerations_of_perm (hp : l'.Perm l) : l' ∈ m.enumerations :=
  ⟨(hp.map _).nodup_iff.mpr h.1, fun k v => hp.mem_iff.trans (h.2 k v)⟩

/-- Among the pairs of an enumeration, a pair that is absent from a list leaves its key absent. -/
theorem key_not_mem_of_not_mem {x : K × V} (hsub : l' ⊆ l) (hx : x ∈ l)
    (hnot : x ∉ l') : x.1 ∉ l'.map Prod.fst := by
  intro hmem
  obtain ⟨y, hy, heq⟩ := mem_map.mp hmem
  have hgetx := (h.2 x.1 x.2).mp hx
  have hgety := (h.2 y.1 y.2).mp (hsub hy)
  rw [heq, hgetx] at hgety
  have : y = x := Prod.ext heq (Option.some.inj hgety).symm
  exact hnot (this ▸ hy)

theorem get_setAll {f : V → V} [Decidable ((k, v) ∈ l')] (hsub : l' ⊆ l)
    (hnd : (l'.map Prod.fst).Nodup) (hget : m.get k = some v) :
    (m.setAll f l').get k = some (if (k, v) ∈ l' then f v else v) := by
  split_ifs with hmem
  · exact get_setAll_of_mem hnd hmem
  · have hkey := key_not_mem_of_not_mem h hsub ((h.2 k v).mpr hget) hmem
    rw [get_setAll_of_not_mem hkey, hget]

theorem length_enumeration : l.length = m.len := by
  unfold len
  rw [keys_eq_toFinset h, toFinset_card_of_nodup h.1, length_map]

theorem countP_enumeration (p : V → Bool) : l.countP (fun e => p e.2) = m.count p := by
  have hnd : ((l.filter fun e => p e.2).map Prod.fst).Nodup :=
    h.1.sublist (filter_sublist.map _)
  rw [countP_eq_length_filter, ← length_map Prod.fst, ← toFinset_card_of_nodup hnd]
  congr 1
  ext k
  simp only [mem_toFinset, mem_map, mem_filter, Finset.mem_filter, mem_keys]
  constructor
  · rintro ⟨⟨k', v⟩, ⟨hmem, hp⟩, rfl⟩
    have hget := (h.2 k' v).mp hmem
    exact ⟨⟨v, hget⟩, by simp [hget, hp]⟩
  · rintro ⟨⟨v, hget⟩, hp⟩
    exact ⟨(k, v), ⟨(h.2 k v).mpr hget, by simpa [hget] using hp⟩, rfl⟩

end GoMap

end Aperod.Go
