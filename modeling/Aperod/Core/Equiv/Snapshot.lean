import Aperod.Core.Equiv.Replay

/-!
# What a snapshot keeps of the UTXO set

`RestoreFromSnapshot` indexes the saved outputs anew.  The result has the active outputs, the index
and the burned outputs of the set the snapshot was taken of, provided that set was coherent: every
output stands under its own outpoint, and the index by one-time key has exactly the active outputs
that are not locked.  (Two active outputs with one one-time key are what breaks coherence: the index
holds one of them, and after a restart perhaps the other.)
-/

namespace Aperod

open Go GoMap

/-- The maps of the set agree with each other. -/
structure UTXOSet.Coherent (s : UTXOSet) : Prop where
  keyed : ∀ k u, s.utxos.get k = some u → u.key = k
  stakedKeyed : ∀ k u, s.stakedUTXOs.get k = some u → u.key = k
  indexed : ∀ k u, s.utxos.get k = some u → u.protocolLocked = false →
    s.byPubKey.get u.oneTimePub = some u
  listed : ∀ p u, s.byPubKey.get p = some u →
    s.utxos.get u.key = some u ∧ u.oneTimePub = p ∧ u.protocolLocked = false

theorem mem_of_ranges {K V : Type} [DecidableEq K] {m : GoMap K V} {l : List V} (h : Ranges m l)
    {v : V} : v ∈ l ↔ ∃ k, m.get k = some v := by
  obtain ⟨order, ho, rfl⟩ := h
  rw [List.mem_map]
  constructor
  · rintro ⟨⟨k, w⟩, hmem, rfl⟩
    exact ⟨k, (ho.2 k w).mp hmem⟩
  · rintro ⟨k, hget⟩
    exact ⟨(k, v), (ho.2 k v).mpr hget, rfl⟩

/-- Indexing the values of a map by the keys they stand under gives the map back. -/
theorem index_of_ranges {K V : Type} [DecidableEq K] {m : GoMap K V} {l : List V} {key : V → K}
    (h : Ranges m l) (hkey : ∀ k v, m.get k = some v → key v = k) :
    index key l ∅ = m := by
  have hinj : ∀ a ∈ l, ∀ b ∈ l, key a = key b → a = b := by
    intro a ha b hb hab
    obtain ⟨k, hk⟩ := (mem_of_ranges h).mp ha
    obtain ⟨k', hk'⟩ := (mem_of_ranges h).mp hb
    rw [hkey k a hk, hkey k' b hk'] at hab
    rw [hab, hk'] at hk
    exact (Option.some.inj hk).symm
  ext k v
  rw [get_index hinj, mem_of_ranges h]
  constructor
  · rintro (⟨⟨k', hk'⟩, rfl⟩ | ⟨hnone, -⟩)
    · rw [hkey k' v hk']
      exact hk'
    · rw [get_empty] at hnone
      cases hnone
  · intro hget
    exact .inl ⟨⟨k, hget⟩, hkey k v hget⟩

theorem index_byPubKey {s : UTXOSet} (hs : s.Coherent) {l : List UTXO} (h : Ranges s.utxos l) :
    index UTXO.oneTimePub (l.filter (!·.protocolLocked)) ∅ = s.byPubKey := by
  have hmem : ∀ u, u ∈ l.filter (!·.protocolLocked) ↔ s.byPubKey.get u.oneTimePub = some u := by
    intro u
    rw [List.mem_filter, mem_of_ranges h, Bool.not_eq_true']
    constructor
    · rintro ⟨⟨k, hk⟩, hlock⟩
      exact hs.indexed k u hk hlock
    · intro hget
      obtain ⟨hutxo, -, hlock⟩ := hs.listed _ _ hget
      exact ⟨⟨u.key, hutxo⟩, hlock⟩
  have hinj : ∀ a ∈ l.filter (!·.protocolLocked), ∀ b ∈ l.filter (!·.protocolLocked),
      a.oneTimePub = b.oneTimePub → a = b := by
    intro a ha b hb hab
    have ha' := (hmem a).mp ha
    rw [hab, (hmem b).mp hb] at ha'
    exact (Option.some.inj ha').symm
  ext p u
  rw [get_index hinj, hmem]
  constructor
  · rintro (⟨hget, rfl⟩ | ⟨hnone, -⟩)
    · exact hget
    · rw [get_empty] at hnone
      cases hnone
  · intro hget
    obtain ⟨-, hp, -⟩ := hs.listed p u hget
    subst hp
    exact .inl ⟨hget, rfl⟩

theorem sameOutputs_restore {s t : UTXOSet} {snap : UTXOSnapshot} (hs : s.Coherent)
    (hsnap : snap.Of s) (hact : t.clsagActivationHeight = s.clsagActivationHeight)
    (hfresh : t.clsagRecentOutputs = []) : SameOutputs s (t.restoreFromSnapshot snap) := by
  refine ⟨?_, ?_, ?_, hact, ?_⟩
  · exact index_of_ranges hsnap.active hs.keyed
  · exact index_byPubKey hs hsnap.active
  · exact index_of_ranges hsnap.staked hs.stakedKeyed
  · show t.clsagRecentOutputs.length ≤ _
    rw [hfresh]
    exact Nat.zero_le _

end Aperod
