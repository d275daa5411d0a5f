import Aperod.Go.Map

/-!
# Functions that overwrite a part of a map

`Overwrites F S`: at the keys of `S` the map `F m` has values that do not depend on `m`, and at the
others it agrees with `m`.  Assignments and deletions are of this kind, and so is any sequence of them
(`Overwrites.comp`, `Overwrites.foldl`).  What such a function leaves is therefore known from its value
at the empty map, and it leaves `m` as it is just if `m` holds those values (`Overwrites.eq_self_iff`).

Where only the keys matter, `AgreeOff S` says that nothing outside `S` was written, and `Becomes S v`
that all of `S` has one entry now, or none.
-/

namespace Aperod.Go.GoMap

variable {K V : Type} [DecidableEq K]

/-- `F` writes or deletes the keys of `S`, whatever the map holds there, and no others. -/
def Overwrites (F : GoMap K V → GoMap K V) (S : List K) : Prop :=
  ∀ m m' k, (F m).get k = if k ∈ S then (F m').get k else m.get k

variable {F G : GoMap K V → GoMap K V} {S T : List K} {m : GoMap K V} {k : K}

theorem Overwrites.get (h : Overwrites F S) (m : GoMap K V) (k : K) :
    (F m).get k = if k ∈ S then (F ∅).get k else m.get k := h m ∅ k

theorem Overwrites.get_of_not_mem (h : Overwrites F S) (hk : k ∉ S) : (F m).get k = m.get k := by
  rw [h.get, if_neg hk]

theorem Overwrites.get_of_mem (h : Overwrites F S) (hk : k ∈ S) (m m' : GoMap K V) :
    (F m).get k = (F m').get k := by
  rw [h m m', if_pos hk]

theorem overwrites_set (k : K) (v : V) : Overwrites (fun m => m.set k v) [k] := by
  intro m m' k'
  simp only [get_set, List.mem_singleton]
  split_ifs <;> rfl

theorem Overwrites.comp (hF : Overwrites F S) (hG : Overwrites G T) :
    Overwrites (fun m => G (F m)) (S ++ T) := by
  intro m m' k
  by_cases hT : k ∈ T
  · rw [if_pos (List.mem_append_right _ hT)]
    exact hG.get_of_mem hT _ _
  · rw [hG.get_of_not_mem hT, hG.get_of_not_mem hT, hF m m' k]
    by_cases hS : k ∈ S
    · rw [if_pos hS, if_pos (List.mem_append_left _ hS)]
    · rw [if_neg hS, if_neg]
      rw [List.mem_append]
      exact fun h => h.elim hS hT

theorem Overwrites.foldl {α : Type} {f : GoMap K V → α → GoMap K V} {keys : α → List K}
    (h : ∀ x, Overwrites (fun m => f m x) (keys x)) (l : List α) :
    Overwrites (fun m => l.foldl f m) (l.flatMap keys) := by
  induction l with
  | nil => exact fun _ _ _ => rfl
  | cons x l ih => exact (h x).comp ih

/-- What must be in the map for the function to change nothing. -/
theorem Overwrites.eq_self_iff (h : Overwrites F S) : F m = m ↔ ∀ k ∈ S, m.get k = (F ∅).get k := by
  constructor
  · intro heq k hk
    rw [← h.get_of_mem hk m ∅, heq]
  · intro hS
    ext k : 1
    rw [h.get]
    split_ifs with hk
    · rw [hS k hk]
    · rfl

theorem get_setKeys {v : V} {l : List K} {m : GoMap K V} {k : K} :
    (l.foldl (fun m k => m.set k v) m).get k = if k ∈ l then some v else m.get k := by
  have hget : (l.foldl (fun m k => m.set (id k) v) m).get k =
      if k ∈ l.map id then some v else m.get k := get_foldl_set_const
  rwa [List.map_id] at hget

theorem get_delKeys {l : List K} {m : GoMap K V} {k : K} :
    (l.foldl (fun m k => m.del k) m).get k = if k ∈ l then none else m.get k := by
  have hget : (l.foldl (fun m k => m.del (id k)) m).get k = if k ∈ l.map id then none else m.get k :=
    get_foldl_del
  rwa [List.map_id] at hget

/-! ### Sets of keys -/

/-- `m'` is as `m` at the keys outside `S`. -/
def AgreeOff (S : Set K) (m m' : GoMap K V) : Prop := ∀ k, k ∉ S → m'.get k = m.get k

/-- The keys of `S` all get the entry `v`, or lose theirs, and the others stay. -/
def Becomes (S : Set K) (v : Option V) (m m' : GoMap K V) : Prop :=
  AgreeOff S m m' ∧ ∀ k, k ∈ S → m'.get k = v

section Sets

variable {P Q : Set K} {v : Option V} {m1 m2 : GoMap K V}

theorem AgreeOff.refl (m : GoMap K V) : AgreeOff P m m := fun _ _ => rfl

theorem AgreeOff.mono (h : AgreeOff P m m1) (hPQ : P ⊆ Q) : AgreeOff Q m m1 :=
  fun k hk => h k fun hP => hk (hPQ hP)

theorem AgreeOff.trans (h : AgreeOff P m m1) (h' : AgreeOff P m1 m2) : AgreeOff P m m2 :=
  fun k hk => (h' k hk).trans (h k hk)

theorem agreeOff_set {k : K} (v : V) (hk : k ∈ P) : AgreeOff P m (m.set k v) := by
  intro k' hk'
  apply get_set_ne
  rintro rfl
  exact hk' hk

theorem Becomes.trans (h : Becomes P v m m1) (h' : Becomes Q v m1 m2) : Becomes (P ∪ Q) v m m2 := by
  refine ⟨(h.1.mono Set.subset_union_left).trans (h'.1.mono Set.subset_union_right), fun k hk => ?_⟩
  by_cases hQ : k ∈ Q
  · exact h'.2 k hQ
  · rw [h'.1 k hQ]
    exact h.2 k (hk.resolve_right hQ)

/-- What happened before inside the set does not matter. -/
theorem Becomes.of_agreeOff (h : AgreeOff P m m1) (h' : Becomes P v m1 m2) : Becomes P v m m2 :=
  ⟨h.trans h'.1, h'.2⟩

theorem Becomes.eq_iff (h : Becomes P v m m1) : m1 = m ↔ ∀ k ∈ P, m.get k = v := by
  constructor
  · rintro rfl
    exact h.2
  · intro hsame
    ext k : 1
    by_cases hk : k ∈ P
    · rw [h.2 k hk, hsame k hk]
    · exact h.1 k hk

/-- Entries are made at `P`, and then others at `Q`. -/
theorem Becomes.then_eq_iff {v' : Option V} (h : Becomes P v m m1) (h' : Becomes Q v' m1 m2) :
    m2 = m ↔ (∀ k ∈ Q, m.get k = v') ∧ ∀ k ∈ P, k ∉ Q → m.get k = v := by
  constructor
  · rintro rfl
    refine ⟨h'.2, fun k hP hQ => ?_⟩
    rw [h'.1 k hQ, h.2 k hP]
  · rintro ⟨hQ, hP⟩
    ext k : 1
    by_cases hkQ : k ∈ Q
    · rw [h'.2 k hkQ, hQ k hkQ]
    · rw [h'.1 k hkQ]
      by_cases hkP : k ∈ P
      · rw [h.2 k hkP, hP k hkP hkQ]
      · exact h.1 k hkP

theorem becomes_setKeys {v : V} (l : List K) :
    Becomes {k | k ∈ l} (some v) m (l.foldl (fun m k => m.set k v) m) := by
  constructor
  · intro k hk
    rw [get_setKeys]
    exact if_neg hk
  · intro k hk
    rw [get_setKeys]
    exact if_pos hk

theorem becomes_delKeys (l : List K) :
    Becomes {k | k ∈ l} none m (l.foldl (fun m k => m.del k) m) := by
  constructor
  · intro k hk
    rw [get_delKeys]
    exact if_neg hk
  · intro k hk
    rw [get_delKeys]
    exact if_pos hk

end Sets

end Aperod.Go.GoMap
