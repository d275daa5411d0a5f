import Aperod.Go.Map

/-!
# Reverse indexes

A store keeps entries under an identifier; an index says, for a key, which stored entry owns it.
Every entry owns a list of keys (`keysOf`).  An index is right when it names exactly the owners
(`Indexes`); then no two entries own one key (`Indexes.owner_unique`).  Deleting an entry with its
keys and adding an entry whose keys are free keep an index right.
-/

namespace Aperod.Lib

open Go

variable {K I E : Type} [DecidableEq K] [DecidableEq I] {keysOf : E → List K}
  {entries : GoMap I E} {idx idx' : GoMap K I} {i : I} {e : E}

/-- The index names exactly the entries that own a key. -/
def Indexes (keysOf : E → List K) (entries : GoMap I E) (idx : GoMap K I) : Prop :=
  ∀ k i, idx.get k = some i ↔ ∃ e, entries.get i = some e ∧ k ∈ keysOf e

theorem get_release (k k' : K) : (if idx.get k' = some i then idx.del k' else idx).get k =
    if k = k' ∧ idx.get k = some i then none else idx.get k := by
  by_cases hk : k = k'
  · subst hk
    by_cases hi : idx.get k = some i
    · simp [hi]
    · simp [hi]
  · by_cases hi : idx.get k' = some i
    · simp [hi, hk, GoMap.get_del]
    · simp [hi, hk]

namespace Indexes

theorem empty (keysOf : E → List K) : Indexes keysOf (∅ : GoMap I E) (∅ : GoMap K I) := by
  intro k i
  simp

theorem owner_unique (h : Indexes keysOf entries idx) {j : I} {e' : E} {k : K}
    (hi : entries.get i = some e) (hj : entries.get j = some e') (hk : k ∈ keysOf e)
    (hk' : k ∈ keysOf e') : i = j := by
  have hown := (h k i).mpr ⟨e, hi, hk⟩
  rw [(h k j).mpr ⟨e', hj, hk'⟩] at hown
  exact (Option.some.inj hown).symm

theorem del (h : Indexes keysOf entries idx) (hi : entries.get i = some e)
    (hidx : ∀ k, idx'.get k = if k ∈ keysOf e then none else idx.get k) :
    Indexes keysOf (entries.del i) idx' := by
  intro k j
  rw [hidx k, GoMap.get_del]
  split_ifs with hk hj hj
  · simp
  · -- another entry would own the key too
    constructor
    · intro hnone
      cases hnone
    · rintro ⟨e', he', hk'⟩
      exact absurd (h.owner_unique he' hi hk' hk) hj
  · constructor
    · intro hget
      obtain ⟨e', he', hk'⟩ := (h k j).mp hget
      rw [hj, hi] at he'
      cases he'
      exact absurd hk' hk
    · rintro ⟨e', he', -⟩
      cases he'
  · exact h k j

theorem set (h : Indexes keysOf entries idx) (hi : entries.get i = none)
    (hfree : ∀ k ∈ keysOf e, idx.get k = none)
    (hidx : ∀ k, idx'.get k = if k ∈ keysOf e then some i else idx.get k) :
    Indexes keysOf (entries.set i e) idx' := by
  intro k j
  rw [hidx k, GoMap.get_set]
  split_ifs with hk hj hj
  · rw [hj]
    exact ⟨fun _ => ⟨e, rfl, hk⟩, fun _ => rfl⟩
  · constructor
    · intro heq
      exact absurd (Option.some.inj heq).symm hj
    · rintro ⟨e', he', hk'⟩
      have hown := (h k j).mpr ⟨e', he', hk'⟩
      rw [hfree k hk] at hown
      cases hown
  · constructor
    · intro hget
      obtain ⟨e', he', -⟩ := (h k j).mp hget
      rw [hj, hi] at he'
      cases he'
    · rintro ⟨e', he', hk'⟩
      cases he'
      exact absurd hk' hk
  · exact h k j

end Indexes

end Aperod.Lib
