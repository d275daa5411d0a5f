import Aperod.Core.Equiv.UTXO

/-!
# Does `RollbackBlock` undo `ApplyBlock`?

Not for every block: the list of recent CLSAG outputs is never shortened, an output whose one-time
key or outpoint repeats overwrites an entry that is not put back, a full journal drops its oldest
height, and the fallback through the decoy pool revives outputs that were spent long before.
-/

namespace Aperod

open Go GoMap Block KeyImageSet List

variable {C : Externals}
variable {u : UTXO} {m : Point32} {a : SetAction} {c : Commitment} {R R' ms : List Point32}

/-! ### Rollback as a list of actions -/

/-- Undo one action: unmark a key image, revive a pooled member or delete an output. -/
def UTXOSet.undo (journalRestored : List Point32) (s : UTXOSet) : SetAction → UTXOSet
  | .mark ki => { s with keyImages := s.keyImages.remove ki }
  | .take commit members =>
    match s.findPooled journalRestored commit members with
    | some e => s.restore e
    | none => s
  | .create u => s.removeOutput u

variable (C)

/-- What step 2 of `RollbackBlock` undoes for an input, hidden spends included. -/
def Transaction.inputUndos (tx : Transaction) (inp : RingInput) : List SetAction :=
  [.mark (spentForm C inp.keyImage), .take inp.amountCommit (stateTransitionRingMembers tx inp)]

/-- What step 2 undoes for a transaction. -/
def Transaction.undos (height : Nat) (tx : Transaction) : List SetAction :=
  (tx.utxos C height).map .create ++ (tx.inputs.flatMap (tx.inputUndos C) ++
    (stakeKeyImage C tx).toList.map .mark)

/-- What step 2 undoes for a block. -/
def Block.undos (b : Block) : List SetAction := b.txs.flatMap (Transaction.undos C b.header.height)

/-- The outputs a block creates. -/
def Block.utxos (b : Block) : List UTXO := b.txs.flatMap fun tx => tx.utxos C b.header.height

variable {C}

theorem UTXOSet.rollbackTx_eq_undos (s : UTXOSet) (restored : List Point32) (height : Nat)
    (tx : Transaction) :
    rollbackTx C restored height s tx = (tx.undos C height).foldl (undo restored) s := by
  unfold rollbackTx Transaction.undos
  rw [foldl_append, foldl_append, foldl_flatMap, foldl_map, foldl_map]
  cases stakeKeyImage C tx <;> rfl

/-- The members `RollbackBlock` restores from the journal. -/
def UTXOSet.journalMembers (s : UTXOSet) (height : Nat) : List Point32 :=
  ((s.rollbackJournal.get height).getD []).map Prod.fst

theorem UTXOSet.rollbackBlock_eq_undos (s : UTXOSet) (b : Block) :
    s.rollbackBlock C b = (b.undos C).foldl (undo (s.journalMembers b.header.height))
      (s.restoreJournal b.header.height) := by
  unfold rollbackBlock undos
  rw [← journalMembers, foldl_flatMap]
  simp only [← rollbackTx_eq_undos]

namespace Block

variable {b : Block}

theorem create_mem_actions : .create u ∈ b.actions C ↔ u ∈ b.utxos C := by
  simp only [actions, utxos, Transaction.actions, Transaction.inputActions, mem_flatMap,
    mem_append, mem_map, mem_cons, mem_ite_nil_left, not_mem_nil,
    reduceCtorEq, SetAction.create.injEq, and_false, false_or, or_false, exists_false,
    exists_eq_right]

theorem take_mem_actions : .take c ms ∈ b.actions C ↔ ∃ tx ∈ b.txs, ∃ inp ∈ tx.inputs,
    tx.usesCLSAG = false ∧ c = inp.amountCommit ∧ ms = stateTransitionRingMembers tx inp := by
  simp [actions, Transaction.actions, Transaction.inputActions]

theorem create_mem_undos : .create u ∈ b.undos C ↔ u ∈ b.utxos C := by
  simp [undos, utxos, Transaction.undos, Transaction.inputUndos]

theorem take_mem_undos : .take c ms ∈ b.undos C ↔ ∃ tx ∈ b.txs, ∃ inp ∈ tx.inputs,
    c = inp.amountCommit ∧ ms = stateTransitionRingMembers tx inp := by
  simp [undos, Transaction.undos, Transaction.inputUndos]

theorem undos_keys (b : Block) :
    (b.undos C).filterMap SetAction.key = b.txs.flatMap fun tx => tx.markedKeys C := by
  have hinput : ∀ (tx : Transaction) (inp : RingInput),
      (tx.inputUndos C inp).filterMap SetAction.key = [spentForm C inp.keyImage] := fun _ _ => rfl
  have htx : ∀ tx : Transaction,
      (tx.undos C b.header.height).filterMap SetAction.key = tx.markedKeys C := by
    intro tx
    unfold Transaction.undos Transaction.markedKeys
    rw [filterMap_append, filterMap_append, filterMap_flatMap, filterMap_map,
      filterMap_map]
    simp only [hinput, map_eq_flatMap]
    simp [Function.comp_def, SetAction.key]
  unfold undos
  rw [filterMap_flatMap]
  simp only [htx]

end Block

/-! ### The condition -/

namespace UTXOSet

section Condition

variable (C) (s : UTXOSet) (b : Block)

/-- An active output that a disclosed input of the block may take. -/
def Candidate (m : Point32) (u : UTXO) : Prop :=
  s.byPubKey.get m = some u ∧ ∃ tx ∈ b.txs, ∃ inp ∈ tx.inputs, tx.usesCLSAG = false ∧
    u.amountCommit = inp.amountCommit ∧ m ∈ stateTransitionRingMembers tx inp

/-- The first candidate of every disclosed input. -/
def targets : List Point32 :=
  b.txs.flatMap fun tx => tx.inputs.filterMap fun inp =>
    if tx.usesCLSAG then none
    else (s.findMember inp.amountCommit (stateTransitionRingMembers tx inp)).map Prod.fst

/-- The output enters the list of recent outputs. -/
def Tracks (height : Nat) (u : UTXO) : Prop :=
  u.protocolLocked = false ∧ s.clsagActivationHeight ≠ 0 ∧ s.clsagActivationHeight ≤ height

/-- No disclosed input of the block refers to an output of the block. -/
def SpendsEarlier : Prop :=
  ∀ u ∈ b.utxos C, ∀ tx ∈ b.txs, ∀ inp ∈ tx.inputs, tx.usesCLSAG = false →
    u.oneTimePub ∉ stateTransitionRingMembers tx inp

/-- What the set and the block must satisfy for the rollback to be exact. -/
structure RollbackSafe : Prop where
  /-- The inputs of stake transactions, which pass 1 does not look at, are unspent. -/
  stake_unspent : ∀ tx ∈ b.txs, tx.isStake = true → ∀ inp ∈ tx.inputs, s.isSpent C inp.keyImage = false
  /-- No output enters the list of recent outputs. -/
  untracked : ∀ u ∈ b.utxos C, ¬ s.Tracks b.header.height u
  /-- The journal has no entry for the height, and room for one if something is taken. -/
  journal_fresh : s.rollbackJournal.get b.header.height = none
  journal_room : s.targets b = [] ∨ s.rollbackJournal.len < maxRollbackDepth
  /-- Outpoints and one-time keys of the outputs are new to the active set. -/
  outpoint_fresh : ∀ u ∈ b.utxos C, s.utxos.get u.key = none
  key_fresh : ∀ u ∈ b.utxos C, s.byPubKey.get u.oneTimePub = none
  spends_earlier : SpendsEarlier C b
  /-- What may be taken is recorded under its outpoint and not in the decoy pool. -/
  candidate_recorded : ∀ m u, s.Candidate b m u → s.utxos.get u.key = some u
  candidate_unpooled : ∀ m u, s.Candidate b m u → s.spentPubKeys.get m = none
  /-- No ring has a pooled output with the commitment of its input before the first target. -/
  no_fallback : ∀ tx ∈ b.txs, ∀ inp ∈ tx.inputs, s.findPooled (s.targets b) inp.amountCommit
    (stateTransitionRingMembers tx inp) = none

/-- What holds of the states and blocks a node meets, apart from repeated one-time keys. -/
structure Ordinary : Prop where
  /-- An indexed output is recorded under its outpoint. -/
  indexed_recorded : ∀ m u, s.byPubKey.get m = some u → s.utxos.get u.key = some u
  /-- No ring has two active members with the commitment of its input. -/
  one_candidate : ∀ tx ∈ b.txs, ∀ inp ∈ tx.inputs, ∀ m ∈ stateTransitionRingMembers tx inp,
    ∀ m' ∈ stateTransitionRingMembers tx inp, ∀ u u', s.byPubKey.get m = some u →
      s.byPubKey.get m' = some u' → u.amountCommit = inp.amountCommit →
      u'.amountCommit = inp.amountCommit → m = m'
  spends_earlier : SpendsEarlier C b
  /-- The outpoints of the block are not among the recent ones. -/
  outpoint_untracked : ∀ u ∈ b.utxos C, u.key ∉ s.clsagRecentOutputs
  /-- The journal is about earlier blocks. -/
  journal_earlier : ∀ k ∈ s.rollbackJournal.keys, k ≤ b.header.height

end Condition

/-! ### Ring walks -/

section Walks

variable {s t : UTXOSet}

theorem exists_findMember (hmem : m ∈ ms) (hget : s.byPubKey.get m = some u)
    (hcommit : u.amountCommit = c) : ∃ e, s.findMember c ms = some e := by
  induction ms with
  | nil => exact absurd hmem not_mem_nil
  | cons m' ms ih =>
    unfold findMember
    split
    · exact ⟨_, rfl⟩
    · rename_i hnone
      rcases mem_cons.mp hmem with rfl | hmem
      · simp [hget, hcommit] at hnone
      · exact ih hmem

theorem findPooled_eq_some (h : s.findPooled R c ms = some (m, u)) :
    m ∈ ms ∧ s.spentPubKeys.get m = some u ∧ u.amountCommit = c := by
  induction ms with
  | nil => cases h
  | cons m' ms ih =>
    unfold findPooled at h
    split_ifs at h with hmem
    split at h
    · rename_i u' hget
      cases h
      rw [Option.filter_eq_some_iff, decide_eq_true_eq] at hget
      exact ⟨mem_cons_self, hget⟩
    · obtain ⟨hmem, hrest⟩ := ih h
      exact ⟨mem_cons_of_mem _ hmem, hrest⟩

theorem findPooled_congr (h : t.spentPubKeys = s.spentPubKeys) (R : List Point32) (c : Commitment)
    (ms : List Point32) : t.findPooled R c ms = s.findPooled R c ms := by
  induction ms with
  | nil => rfl
  | cons m ms ih =>
    unfold findPooled
    rw [h, ih]

theorem findPooled_none_mono (hR : ∀ m ∈ R, m ∈ R')
    (hpool : t.spentPubKeys = s.spentPubKeys) (h : s.findPooled R c ms = none) :
    t.findPooled R' c ms = none := by
  induction ms with
  | nil => rfl
  | cons m' ms ih =>
    unfold findPooled at h ⊢
    by_cases hmem : m' ∈ R'
    · exact if_pos hmem
    · rw [if_neg hmem, hpool]
      rw [if_neg fun hm => hmem (hR m' hm)] at h
      split at h
      · cases h
      · exact ih h

/-- In a smaller pool, with fewer restored members, the first match is the same as long as it is
pooled. -/
theorem findPooled_of_subset (hR : ∀ m ∈ R', m ∈ R) (hsub : ∀ m ∈ ms,
    t.spentPubKeys.get m = none ∨ t.spentPubKeys.get m = s.spentPubKeys.get m)
    (h : s.findPooled R c ms = some (m, u)) (hpooled : t.spentPubKeys.get m ≠ none) :
    t.findPooled R' c ms = some (m, u) := by
  induction ms with
  | nil => cases h
  | cons m' ms ih =>
    obtain ⟨hhead, hsub⟩ := forall_mem_cons.mp hsub
    unfold findPooled at h ⊢
    split_ifs at h with hmem
    rw [if_neg fun hm => hmem (hR m' hm)]
    split at h
    · rename_i u' hget
      cases h
      rw [hhead.resolve_left hpooled, hget]
    · rename_i hnone
      have hnone' : (t.spentPubKeys.get m').filter (·.amountCommit = c) = none := by
        rcases hhead with hhead | hhead
        · rw [hhead]
          rfl
        · rw [hhead]
          exact hnone
      rw [hnone']
      exact ih hsub h

/-- The walk over the active members is the one over the pool, with nothing restored. -/
theorem findMember_eq_findPooled (s : UTXOSet) (c : Commitment) (ms : List Point32) :
    s.findMember c ms = findPooled { s with spentPubKeys := s.byPubKey } [] c ms := by
  induction ms with
  | nil => rfl
  | cons m ms ih =>
    unfold findMember findPooled
    rw [ih, if_neg not_mem_nil]

theorem findMember_eq_some (h : s.findMember c ms = some (m, u)) :
    m ∈ ms ∧ s.byPubKey.get m = some u ∧ u.amountCommit = c := by
  rw [findMember_eq_findPooled] at h
  exact findPooled_eq_some h

/-- In a set with fewer active members, the first match is the same as long as it is active. -/
theorem findMember_of_subset (hsub : ∀ m ∈ ms, t.byPubKey.get m = none ∨
    t.byPubKey.get m = s.byPubKey.get m) (h : s.findMember c ms = some (m, u))
    (hactive : t.byPubKey.get m ≠ none) : t.findMember c ms = some (m, u) := by
  rw [findMember_eq_findPooled] at h ⊢
  exact findPooled_of_subset (fun _ hm => hm) hsub h hactive

end Walks

/-! ### Recent outputs -/

section Recent

variable {s : UTXOSet} {height : Nat}

theorem addOutput_of_untracked (h : ¬ s.Tracks height u) : s.addOutput height u =
    { s with
      utxos := s.utxos.set u.key u
      byPubKey := if u.protocolLocked then s.byPubKey else s.byPubKey.set u.oneTimePub u } := by
  unfold addOutput trackCLSAGRecent
  rw [get_set_self, Option.any_some]
  by_cases hlocked : u.protocolLocked = true
  · rw [if_pos hlocked]
  · by_cases hheight : s.clsagActivationHeight = 0 ∨ height < s.clsagActivationHeight
    · rw [if_neg hlocked, if_pos hheight]
    · rw [Bool.not_eq_true] at hlocked
      exact absurd ⟨hlocked, by omega, by omega⟩ h

theorem evict_recent (k : UTXOKey) : (s.evict k).clsagRecentOutputs = s.clsagRecentOutputs := by
  unfold evict
  split <;> rfl

theorem mem_recent_of_tracks (h : s.Tracks height u) :
    u.key ∈ (s.addOutput height u).clsagRecentOutputs := by
  obtain ⟨hlocked, hactive, hheight⟩ := h
  unfold addOutput trackCLSAGRecent
  dsimp only
  rw [get_set_self, Option.any_some, hlocked, if_neg (by decide), if_neg (by omega)]
  by_cases hlen : (s.clsagRecentOutputs ++ [u.key]).length ≤ maxCLSAGRecentOutputs
  · rw [if_pos hlen]
    exact mem_append_right _ mem_cons_self
  · rw [if_neg hlen, evict_recent]
    -- beyond the cap there is another entry in front
    have hne : s.clsagRecentOutputs ≠ [] := by
      rintro heq
      rw [heq] at hlen
      exact hlen (Nat.le_of_ble_eq_true rfl)
    rw [tail_append_of_ne_nil hne]
    exact mem_append_right _ mem_cons_self

end Recent

/-! ### The journal -/

/-- Append an entry under a height and prune. -/
def journalEntry (height : Nat) (j : GoMap Nat (List RollbackEntry)) (e : RollbackEntry) :
    GoMap Nat (List RollbackEntry) :=
  pruneJournal (j.set height ((j.get height).getD [] ++ [e]))

section Journal

variable {j : GoMap Nat (List RollbackEntry)} {height : Nat} {T : List RollbackEntry}

theorem pruneJournal_of_len (h : j.len ≤ maxRollbackDepth) : pruneJournal j = j :=
  if_neg (by omega)

theorem journalEntries_of_room (hfresh : j.get height = none) (hroom : j.len < maxRollbackDepth)
    (hT : T ≠ []) : T.foldl (journalEntry height) j = j.set height T := by
  induction T using reverseRecOn with
  | nil => exact absurd rfl hT
  | append_singleton T e ih =>
    have hlen : ∀ v, (j.set height v).len ≤ maxRollbackDepth := by
      intro v
      rw [len_set, has_eq_false.mpr hfresh, if_neg (by decide)]
      omega
    rw [foldl_append, foldl_cons, foldl_nil]
    by_cases hnil : T = []
    · subst hnil
      unfold journalEntry
      rw [foldl_nil, hfresh]
      exact pruneJournal_of_len (hlen _)
    · rw [ih hnil]
      unfold journalEntry
      rw [get_set_self, GoMap.set_set]
      exact pruneJournal_of_len (hlen _)

theorem journalEntries_get_none {k : Nat} (hk : k ≠ height) (hnone : j.get k = none) :
    (T.foldl (journalEntry height) j).get k = none := by
  refine foldlRecOn (motive := fun j : GoMap Nat _ => j.get k = none) T _ hnone fun j hnone e _ => ?_
  have hset : (j.set height ((j.get height).getD [] ++ [e])).get k = none := by
    rw [get_set_ne hk, hnone]
  unfold journalEntry pruneJournal
  split_ifs
  · split
    · rw [get_del, hset, ite_self]
    · exact hset
  · exact hset

theorem journalEntries_of_full (hfull : maxRollbackDepth ≤ j.len)
    (hlower : ∀ k ∈ j.keys, k < height) (hT : T ≠ []) :
    ∃ k ∈ j.keys, (T.foldl (journalEntry height) j).get k = none := by
  obtain ⟨e, T, rfl⟩ := exists_cons_of_ne_nil hT
  rw [foldl_cons]
  set j' := j.set height ((j.get height).getD [] ++ [e]) with hj'
  have hnew : j.has height = false := by
    rw [has_eq_false, ← Option.not_isSome_iff_eq_none]
    intro hsome
    exact lt_irrefl _ (hlower height (mem_keys.mpr (Option.isSome_iff_exists.mp hsome)))
  have hlen : j'.len > maxRollbackDepth := by
    rw [len_set, hnew, if_neg (by decide)]
    omega
  have hne : j.keys.Nonempty := by
    rw [← Finset.card_pos]
    exact lt_of_lt_of_le (by decide) hfull
  obtain ⟨k, hk⟩ := hne
  -- the lowest height, which is dropped, is one of the old ones
  have hkeys : ∀ k, k ∈ j'.keys ↔ k = height ∨ k ∈ j.keys := by
    intro k
    rw [keys_set, Finset.mem_insert]
  have hne' : j'.keys.Nonempty := ⟨k, (hkeys k).mpr (.inr hk)⟩
  have hold : j'.keys.min' hne' ∈ j.keys := by
    have hle := Finset.min'_le j'.keys k ((hkeys k).mpr (.inr hk))
    have hlt := hlower k hk
    rcases (hkeys _).mp (Finset.min'_mem _ hne') with heq | hmem
    · omega
    · exact hmem
  refine ⟨_, hold, journalEntries_get_none (hlower _ hold).ne ?_⟩
  have hmin : j'.keys.min = some (j'.keys.min' hne') := (Finset.coe_min' hne').symm
  unfold journalEntry pruneJournal
  rw [if_pos hlen, hmin]
  exact get_del_self _ _

end Journal

/-! ### While a block is applied -/

/-- The parts of the set no block touches, when no output is tracked. -/
structure Frame (s t : UTXOSet) : Prop where
  staked : t.stakedUTXOs = s.stakedUTXOs
  ringMembers : t.ringMembers = s.ringMembers
  activation : t.clsagActivationHeight = s.clsagActivationHeight
  recent : t.clsagRecentOutputs = s.clsagRecentOutputs

/-- From `s`, in a block that creates `outs`, the actions `done` have taken the entries `T` and led
to `t`. -/
structure Applied (height : Nat) (outs : List UTXO) (s : UTXOSet) (done : List SetAction)
    (T : List RollbackEntry) (t : UTXOSet) : Prop where
  frame : Frame s t
  journal : t.rollbackJournal = T.foldl (journalEntry height) s.rollbackJournal
  utxos : ∀ k, (∀ u ∈ outs, u.key ≠ k) →
    t.utxos.get k = if ∃ e ∈ T, e.2.key = k then none else s.utxos.get k
  byPubKey : ∀ m, (∀ u ∈ outs, u.oneTimePub ≠ m) →
    t.byPubKey.get m = if m ∈ T.map Prod.fst then none else s.byPubKey.get m
  pooled : ∀ m, m ∉ T.map Prod.fst → t.spentPubKeys.get m = s.spentPubKeys.get m
  /-- What was taken was active and matched an input. -/
  sound : ∀ e ∈ T, s.byPubKey.get e.1 = some e.2 ∧
    ∃ ms, .take e.2.amountCommit ms ∈ done ∧ e.1 ∈ ms
  /-- The first match of every input was taken. -/
  complete : ∀ c ms m u, .take c ms ∈ done → s.findMember c ms = some (m, u) → m ∈ T.map Prod.fst

/-- An action of a block that tracks nothing and spends earlier outputs only. -/
def Plain (height : Nat) (outs : List UTXO) (s : UTXOSet) : SetAction → Prop
  | .mark _ => True
  | .take _ ms => ∀ u ∈ outs, u.oneTimePub ∉ ms
  | .create u => u ∈ outs ∧ ¬ s.Tracks height u

section Applying

variable {height : Nat} {outs : List UTXO} {s t : UTXOSet} {done : List SetAction}
  {T : List RollbackEntry}

theorem Applied.init (height : Nat) (outs : List UTXO) (s : UTXOSet) :
    Applied height outs s [] [] s :=
  ⟨⟨rfl, rfl, rfl, rfl⟩, rfl, by simp, by simp, fun _ _ => rfl, by simp, by simp⟩

section

variable (h : Applied height outs s done T t)
include h

theorem Applied.mark (ki : KeyImage) :
    Applied height outs s (done ++ [.mark ki]) T (t.act height (.mark ki)) := by
  refine ⟨⟨h.frame.1, h.frame.2, h.frame.3, h.frame.4⟩, h.journal, h.utxos, h.byPubKey, h.pooled,
    fun e he => ?_, fun c ms m u hmem => ?_⟩
  · obtain ⟨hget, ms, hmem, hms⟩ := h.sound e he
    exact ⟨hget, ms, mem_append_left _ hmem, hms⟩
  · exact h.complete c ms m u (by simpa using hmem)

theorem Applied.create (hu : u ∈ outs)
    (htrack : ¬ s.Tracks height u) :
    Applied height outs s (done ++ [.create u]) T (t.act height (.create u)) := by
  have htrack' : ¬ t.Tracks height u := by
    unfold Tracks
    rw [h.frame.activation]
    exact htrack
  show Applied height outs s _ T (t.addOutput height u)
  rw [addOutput_of_untracked htrack']
  refine ⟨⟨h.frame.1, h.frame.2, h.frame.3, h.frame.4⟩, h.journal, fun k hk => ?_, fun m hm => ?_,
    h.pooled, fun e he => ?_, fun c ms m u hmem => ?_⟩
  · rw [get_set_ne (hk u hu).symm, h.utxos k hk]
  · rw [← h.byPubKey m hm]
    split_ifs
    · rfl
    · exact get_set_ne (hm u hu).symm
  · obtain ⟨hget, ms, hmem, hms⟩ := h.sound e he
    exact ⟨hget, ms, mem_append_left _ hmem, hms⟩
  · exact h.complete c ms m u (by simpa using hmem)

/-- On members that the block does not create, the active set has only lost what was taken. -/
theorem Applied.subset (hms : ∀ u ∈ outs, u.oneTimePub ∉ ms) : ∀ m ∈ ms, t.byPubKey.get m = none ∨
      t.byPubKey.get m = s.byPubKey.get m := by
  intro m hm
  have hne : ∀ u ∈ outs, u.oneTimePub ≠ m := fun u hu heq => hms u hu (heq ▸ hm)
  rw [h.byPubKey m hne]
  split_ifs
  · exact .inl rfl
  · exact .inr rfl

theorem Applied.take (hms : ∀ u ∈ outs, u.oneTimePub ∉ ms) :
    ∃ T', Applied height outs s (done ++ [.take c ms]) T' (t.act height (.take c ms)) := by
  have hsub := h.subset hms
  have hne : ∀ m ∈ ms, ∀ u ∈ outs, u.oneTimePub ≠ m := fun m hm u hu heq => hms u hu (heq ▸ hm)
  unfold act
  dsimp only
  cases hfind : t.findMember c ms with
  | none =>
    refine ⟨T, h.frame, h.journal, h.utxos, h.byPubKey, h.pooled, fun e he => ?_,
      fun c' ms' m u hmem hfirst => ?_⟩
    · obtain ⟨hget, ms', hmem, hms'⟩ := h.sound e he
      exact ⟨hget, ms', mem_append_left _ hmem, hms'⟩
    · rcases mem_append.mp hmem with hmem | hmem
      · exact h.complete c' ms' m u hmem hfirst
      · -- a first match that is still active would have been found
        obtain ⟨rfl, rfl⟩ : c' = c ∧ ms' = ms := by simpa using hmem
        obtain ⟨hm, hget, -⟩ := findMember_eq_some hfirst
        by_contra hnot
        have hactive : t.byPubKey.get m ≠ none := by
          rw [h.byPubKey m (hne m hm), if_neg hnot, hget]
          exact Option.some_ne_none u
        rw [findMember_of_subset hsub hfirst hactive] at hfind
        cases hfind
  | some e =>
    obtain ⟨m, u⟩ := e
    obtain ⟨hm, hget, hcommit⟩ := findMember_eq_some hfind
    have hmT : m ∉ T.map Prod.fst := by
      intro hmem
      rw [h.byPubKey m (hne m hm), if_pos hmem] at hget
      cases hget
    have hgets : s.byPubKey.get m = some u := by
      rw [h.byPubKey m (hne m hm), if_neg hmT] at hget
      exact hget
    refine ⟨T ++ [(m, u)], ⟨h.frame.1, h.frame.2, h.frame.3, h.frame.4⟩, ?_, fun k hk => ?_,
      fun m' hm' => ?_, fun m' hm' => ?_, fun e he => ?_, fun c' ms' m' u' hmem hfirst => ?_⟩
    · rw [foldl_append, ← h.journal]
      rfl
    · show (t.utxos.del u.key).get k = _
      rw [get_del, h.utxos k hk]
      by_cases hk' : k = u.key
      · rw [if_pos hk', if_pos ⟨(m, u), by simp, hk'.symm⟩]
      · rw [if_neg hk']
        congr 1
        simp [Ne.symm hk']
    · show (t.byPubKey.del m).get m' = _
      rw [get_del, h.byPubKey m' hm']
      by_cases heq : m' = m
      · rw [if_pos heq, if_pos (by simp [heq])]
      · rw [if_neg heq]
        congr 1
        simp [heq]
    · have hmm : m' ≠ m ∧ m' ∉ T.map Prod.fst := by
        simp only [map_append, mem_append, map_cons, map_nil,
          mem_singleton, not_or] at hm'
        exact ⟨hm'.2, hm'.1⟩
      rw [← h.pooled m' hmm.2]
      show (if _ then t.spentPubKeys.set m u else t.spentPubKeys).get m' = _
      split_ifs
      · exact get_set_ne hmm.1
      · rfl
    · rcases mem_append.mp he with he | he
      · obtain ⟨hget, ms', hmem, hms'⟩ := h.sound e he
        exact ⟨hget, ms', mem_append_left _ hmem, hms'⟩
      · obtain rfl : e = (m, u) := by simpa using he
        exact ⟨hgets, ms, by simp [hcommit], hm⟩
    · rw [map_append, mem_append]
      rcases mem_append.mp hmem with hmem | hmem
      · exact .inl (h.complete c' ms' m' u' hmem hfirst)
      · obtain ⟨rfl, rfl⟩ : c' = c ∧ ms' = ms := by simpa using hmem
        obtain ⟨hm', hget', -⟩ := findMember_eq_some hfirst
        by_cases hnot : m' ∈ T.map Prod.fst
        · exact .inl hnot
        · have hactive : t.byPubKey.get m' ≠ none := by
            rw [h.byPubKey m' (hne m' hm'), if_neg hnot, hget']
            exact Option.some_ne_none u'
          rw [findMember_of_subset hsub hfirst hactive] at hfind
          cases hfind
          exact .inr (by simp)

/-- **Run lemma** for applying. -/
theorem Applied.run {acts : List SetAction}
    (hplain : ∀ a ∈ acts, Plain height outs s a) :
    ∃ T', Applied height outs s (done ++ acts) T' (acts.foldl (act height) t) := by
  induction acts generalizing done T t with
  | nil => exact ⟨T, by rwa [append_nil]⟩
  | cons a acts ih =>
    have hone : ∃ T', Applied height outs s (done ++ [a]) T' (t.act height a) := by
      have ha := hplain a mem_cons_self
      cases a with
      | mark ki => exact ⟨T, h.mark ki⟩
      | take c ms => exact h.take ha
      | create u => exact ⟨T, h.create ha.1 ha.2⟩
    obtain ⟨T1, hone⟩ := hone
    obtain ⟨T', hall⟩ := ih hone fun a ha => hplain a (mem_cons_of_mem _ ha)
    rw [append_assoc] at hall
    exact ⟨T', hall⟩

end

end Applying

/-! ### While a block is rolled back -/

section Undoing

variable {t : UTXOSet} {acts : List SetAction}

/-- The actions `acts` were undone from `t` without the fallback, which led to `t'`. -/
structure Undone (acts : List SetAction) (t t' : UTXOSet) : Prop where
  frame : Frame t t'
  journal : t'.rollbackJournal = t.rollbackJournal
  pooled : t'.spentPubKeys = t.spentPubKeys
  utxos_dropped : ∀ u, .create u ∈ acts → t'.utxos.get u.key = none
  utxos_kept : ∀ k, (∀ u, .create u ∈ acts → u.key ≠ k) → t'.utxos.get k = t.utxos.get k
  byPubKey_dropped : ∀ u, .create u ∈ acts → t'.byPubKey.get u.oneTimePub = none
  byPubKey_kept : ∀ m, (∀ u, .create u ∈ acts → u.oneTimePub ≠ m) →
    t'.byPubKey.get m = t.byPubKey.get m

theorem Undone.refl (t : UTXOSet) : Undone [] t t :=
  ⟨⟨rfl, rfl, rfl, rfl⟩, rfl, rfl, nofun, fun _ _ => rfl, nofun, fun _ _ => rfl⟩

/-- Undoing one more action in front; `hone` says what it did. -/
theorem Undone.cons {t1 t' : UTXOSet} (hone : Undone [a] t t1)
    (h : Undone acts t1 t') : Undone (a :: acts) t t' := by
  have hsplit : ∀ u, .create u ∈ a :: acts → .create u ∈ [a] ∨ .create u ∈ acts := by
    intro u hu
    rcases mem_cons.mp hu with rfl | hu
    · exact .inl mem_cons_self
    · exact .inr hu
  have hin : ∀ u, .create u ∈ acts → .create u ∈ a :: acts := fun u => mem_cons_of_mem a
  have hhead : ∀ u, .create u ∈ [a] → .create u ∈ a :: acts := by
    intro u hu
    rw [mem_singleton.mp hu]
    exact mem_cons_self
  refine ⟨⟨h.frame.1.trans hone.frame.1, h.frame.2.trans hone.frame.2,
    h.frame.3.trans hone.frame.3, h.frame.4.trans hone.frame.4⟩, h.journal.trans hone.journal,
    h.pooled.trans hone.pooled, fun u hu => ?_, fun k hk => ?_, fun u hu => ?_, fun m hm => ?_⟩
  · by_cases hlater : ∃ w, .create w ∈ acts ∧ w.key = u.key
    · obtain ⟨w, hw, hkey⟩ := hlater
      rw [← hkey]
      exact h.utxos_dropped w hw
    · rw [h.utxos_kept u.key fun w hw hkey => hlater ⟨w, hw, hkey⟩]
      rcases hsplit u hu with hu | hu
      · exact hone.utxos_dropped u hu
      · exact absurd ⟨u, hu, rfl⟩ hlater
  · rw [h.utxos_kept k fun u hu => hk u (hin u hu),
      hone.utxos_kept k fun u hu => hk u (hhead u hu)]
  · by_cases hlater : ∃ w, .create w ∈ acts ∧ w.oneTimePub = u.oneTimePub
    · obtain ⟨w, hw, hkey⟩ := hlater
      rw [← hkey]
      exact h.byPubKey_dropped w hw
    · rw [h.byPubKey_kept u.oneTimePub fun w hw hkey => hlater ⟨w, hw, hkey⟩]
      rcases hsplit u hu with hu | hu
      · exact hone.byPubKey_dropped u hu
      · exact absurd ⟨u, hu, rfl⟩ hlater
  · rw [h.byPubKey_kept m fun u hu => hm u (hin u hu),
      hone.byPubKey_kept m fun u hu => hm u (hhead u hu)]

theorem Undone.one (hquiet : ∀ c ms, .take c ms = a → t.findPooled R c ms = none) :
    Undone [a] t (t.undo R a) := by
  cases a with
  | mark ki =>
    exact ⟨⟨rfl, rfl, rfl, rfl⟩, rfl, rfl, by simp, fun _ _ => rfl, by simp, fun _ _ => rfl⟩
  | take c ms =>
    have hsame : t.undo R (.take c ms) = t := by
      unfold undo
      dsimp only
      rw [hquiet c ms rfl]
    rw [hsame]
    exact ⟨⟨rfl, rfl, rfl, rfl⟩, rfl, rfl, by simp, fun _ _ => rfl, by simp, fun _ _ => rfl⟩
  | create u =>
    refine ⟨⟨rfl, rfl, rfl, rfl⟩, rfl, rfl, fun w hw => ?_, fun k hk => ?_, fun w hw => ?_,
      fun m hm => ?_⟩
    · obtain rfl : w = u := by simpa using hw
      exact get_del_self _ _
    · exact get_del_ne (hk u mem_cons_self).symm
    · obtain rfl : w = u := by simpa using hw
      exact get_del_self _ _
    · exact get_del_ne (hm u mem_cons_self).symm

/-- **Run lemma** for undoing, as long as the fallback finds nothing. -/
theorem Undone.run (hquiet : ∀ c ms, .take c ms ∈ acts → t.findPooled R c ms = none) :
    Undone acts t (acts.foldl (undo R) t) := by
  induction acts generalizing t with
  | nil => exact .refl t
  | cons a acts ih =>
    have hone : Undone [a] t (t.undo R a) :=
      .one fun c ms heq => hquiet c ms (heq ▸ mem_cons_self)
    refine hone.cons (ih fun c ms hmem => ?_)
    -- the fallback reads nothing but the pool, which did not change
    exact findPooled_none_mono (fun _ hm => hm) hone.pooled
      (hquiet c ms (mem_cons_of_mem _ hmem))

/-! ### Restoring the journal -/

theorem foldl_restore (T : List RollbackEntry) (t : UTXOSet) : T.foldl restore t =
    { t with
      utxos := T.foldl (fun m e => m.set e.2.key e.2) t.utxos
      byPubKey := T.foldl (fun m e => m.set e.1 e.2) t.byPubKey
      spentPubKeys := T.foldl (fun m e => m.del e.1) t.spentPubKeys } := by
  induction T generalizing t with
  | nil => rfl
  | cons e T ih =>
    rw [foldl_cons, ih]
    rfl

end Undoing

/-! ### Key images -/

theorem undo_keyImages (t : UTXOSet) (R : List Point32) (a : SetAction) :
    (t.undo R a).keyImages = a.key.toList.foldl remove t.keyImages := by
  cases a with
  | mark ki => rfl
  | take commit members =>
    unfold undo
    dsimp only
    split <;> rfl
  | create u => rfl

theorem undos_keyImages (t : UTXOSet) (R : List Point32) (acts : List SetAction) :
    (acts.foldl (undo R) t).keyImages =
      (acts.filterMap SetAction.key).foldl remove t.keyImages := by
  induction acts generalizing t with
  | nil => rfl
  | cons a acts ih =>
    rw [foldl_cons, ih, undo_keyImages]
    cases hk : a.key <;> simp [hk]

theorem rollbackBlock_keyImages (t : UTXOSet) (b : Block) : (t.rollbackBlock C b).keyImages =
    (b.txs.flatMap fun tx => tx.markedKeys C).foldl remove t.keyImages := by
  rw [rollbackBlock_eq_undos, undos_keyImages, undos_keys]
  unfold restoreJournal
  rw [foldl_restore]

/-! ### The block as a whole -/

section Whole

variable {s : UTXOSet} {b : Block} {T : List RollbackEntry}

theorem mem_targets : m ∈ s.targets b ↔
    ∃ c ms u, .take c ms ∈ b.actions C ∧ s.findMember c ms = some (m, u) := by
  simp only [targets, mem_flatMap, mem_filterMap, take_mem_actions]
  constructor
  · rintro ⟨tx, htx, inp, hinp, hsome⟩
    split_ifs at hsome with hclsag
    obtain ⟨⟨_, u⟩, hfind, rfl⟩ := Option.map_eq_some_iff.mp hsome
    exact ⟨_, _, u, ⟨tx, htx, inp, hinp, by simpa using hclsag, rfl, rfl⟩, hfind⟩
  · rintro ⟨_, _, u, ⟨tx, htx, inp, hinp, hclsag, rfl, rfl⟩, hfind⟩
    exact ⟨tx, htx, inp, hinp, by rw [hclsag, if_neg (by decide), hfind]; rfl⟩

theorem actions_plain (huntracked : ∀ u ∈ b.utxos C, ¬ s.Tracks b.header.height u)
    (hearlier : SpendsEarlier C b) :
    ∀ a ∈ b.actions C, Plain b.header.height (b.utxos C) s a := by
  intro a ha
  cases a with
  | mark ki => exact trivial
  | take c ms =>
    obtain ⟨tx, htx, inp, hinp, hclsag, rfl, rfl⟩ := take_mem_actions.mp ha
    exact fun u hu => hearlier u hu tx htx inp hinp hclsag
  | create u =>
    have hu := create_mem_actions.mp ha
    exact ⟨hu, huntracked u hu⟩

theorem exists_applied (huntracked : ∀ u ∈ b.utxos C, ¬ s.Tracks b.header.height u)
    (hearlier : SpendsEarlier C b) :
    ∃ T, Applied b.header.height (b.utxos C) s (b.actions C) T (s.applyTxs C b) := by
  rw [applyTxs_eq_actions]
  exact (Applied.init _ _ s).run (actions_plain huntracked hearlier)

variable (h : Applied b.header.height (b.utxos C) s (b.actions C) T (s.applyTxs C b))
include h

theorem Applied.candidate {e : RollbackEntry} (he : e ∈ T) : s.Candidate b e.1 e.2 := by
  obtain ⟨hget, ms, htake, hms⟩ := h.sound e he
  obtain ⟨tx, htx, inp, hinp, hclsag, hc, rfl⟩ := take_mem_actions.mp htake
  exact ⟨hget, tx, htx, inp, hinp, hclsag, hc, hms⟩

theorem Applied.targets_subset (hm : m ∈ s.targets b) : m ∈ T.map Prod.fst := by
  obtain ⟨c, ms, u, htake, hfind⟩ := mem_targets.mp hm
  exact h.complete c ms m u htake hfind

theorem Applied.nil_iff : T = [] ↔ s.targets b = [] := by
  constructor
  · rintro rfl
    refine eq_nil_iff_forall_not_mem.mpr fun m hm => ?_
    exact absurd (h.targets_subset hm) not_mem_nil
  · intro hnil
    refine eq_nil_iff_forall_not_mem.mpr fun e he => ?_
    obtain ⟨hget, ms, htake, hms⟩ := h.sound e he
    obtain ⟨⟨m, u⟩, hfind⟩ := exists_findMember hms hget rfl
    have hmem := mem_targets.mpr ⟨_, ms, u, htake, hfind⟩
    rw [hnil] at hmem
    exact absurd hmem not_mem_nil

theorem Applied.journal_get (hfresh : s.rollbackJournal.get b.header.height = none)
    (hroom : s.targets b = [] ∨ s.rollbackJournal.len < maxRollbackDepth) :
    ((s.applyTxs C b).rollbackJournal.get b.header.height).getD [] = T ∧
      (s.applyTxs C b).rollbackJournal.del b.header.height = s.rollbackJournal := by
  rw [h.journal]
  by_cases hT : T = []
  · rw [hT, foldl_nil, hfresh]
    exact ⟨rfl, del_of_get_none hfresh⟩
  · have hlen := hroom.resolve_left fun hnil => hT (h.nil_iff.mpr hnil)
    rw [journalEntries_of_room hfresh hlen hT, get_set_self]
    exact ⟨rfl, del_set_of_get_none hfresh⟩

theorem Applied.restoreJournal_eq (hfresh : s.rollbackJournal.get b.header.height = none)
    (hroom : s.targets b = [] ∨ s.rollbackJournal.len < maxRollbackDepth) :
    (s.applyTxs C b).restoreJournal b.header.height =
      { s.applyTxs C b with
        utxos := T.foldl (fun m e => m.set e.2.key e.2) (s.applyTxs C b).utxos
        byPubKey := T.foldl (fun m e => m.set e.1 e.2) (s.applyTxs C b).byPubKey
        spentPubKeys := T.foldl (fun m e => m.del e.1) (s.applyTxs C b).spentPubKeys
        rollbackJournal := s.rollbackJournal } := by
  obtain ⟨hget, hdel⟩ := h.journal_get hfresh hroom
  unfold restoreJournal
  rw [hget, foldl_restore]
  dsimp only
  rw [hdel]

theorem Applied.restored_pool (m : Point32) :
    (T.foldl (fun m e => m.del e.1) (s.applyTxs C b).spentPubKeys).get m =
      if m ∈ T.map Prod.fst then none else s.spentPubKeys.get m := by
  rw [get_foldl_del]
  split_ifs with hm
  · rfl
  · exact h.pooled m hm

end Whole

/-! ### Exactness -/

attribute [ext] UTXOSet

section Exact

variable {s s' : UTXOSet} {b : Block} {T : List RollbackEntry}

/-- Pass 1 covers all key images of the block except those of stake inputs. -/
theorem marked_unspent_iff (hok : s.applyBlock C b = .ok s') :
    (∀ k ∈ b.txs.flatMap fun tx => tx.markedKeys C, s.keyImages.contains k = false) ↔
      ∀ tx ∈ b.txs, tx.isStake = true → ∀ inp ∈ tx.inputs, s.isSpent C inp.keyImage = false := by
  obtain ⟨⟨r, hcheck⟩, -⟩ := applyBlock_spec hok
  have hchecked : ∀ tx ∈ b.txs, ∀ k ∈ tx.checkedKeys C, s.keyImages.contains k = false :=
    fun tx htx k hk => (checkBlockInputs_reserves hcheck).unspent k
      (mem_flatMap.mpr ⟨tx, htx, hk⟩)
  constructor
  · intro h tx htx _ inp hinp
    refine h _ (mem_flatMap.mpr ⟨tx, htx, ?_⟩)
    exact mem_append_left _ (mem_map_of_mem hinp)
  · intro h k hk
    obtain ⟨tx, htx, hk⟩ := mem_flatMap.mp hk
    rcases mem_append.mp hk with hk | hk
    · obtain ⟨inp, hinp, rfl⟩ := mem_map.mp hk
      by_cases hstake : tx.isStake = true
      · exact h tx htx hstake inp hinp
      · -- an ordinary transaction with an input is not a coinbase
        refine hchecked tx htx _ ?_
        have hcoinbase : (tx.isCoinbase || tx.isStake) = false := by
          have hne : tx.inputs.isEmpty = false := by
            rw [isEmpty_eq_false_iff]
            exact ne_nil_of_mem hinp
          simp [Transaction.isCoinbase, hne, hstake]
        unfold Transaction.checkedKeys
        rw [if_neg fun hv4 => hstake hv4.1, hcoinbase]
        exact mem_map_of_mem hinp
    · refine hchecked tx htx k ?_
      have hsome : stakeKeyImage C tx = some k := by simpa using hk
      have hv4 : tx.isStake ∧ tx.extra.length = stakePayloadSizeV4 := by
        by_contra hnot
        rw [stakeKeyImage, if_neg hnot] at hsome
        cases hsome
      unfold Transaction.checkedKeys
      rw [if_pos hv4]
      exact hk

theorem rollback_keyImages_iff (s : UTXOSet) (b : Block) :
    ((s.applyTxs C b).rollbackBlock C b).keyImages = s.keyImages ↔
      ∀ k ∈ b.txs.flatMap fun tx => tx.markedKeys C, s.keyImages.contains k = false := by
  rw [rollbackBlock_keyImages, applyTxs_keyImages]
  constructor
  · intro heq k hk
    rw [← heq, ← Bool.not_eq_true, contains_foldl_remove]
    exact fun hboth => hboth.2 hk
  · exact foldl_remove_foldl_insert

theorem Applied.undone (h : Applied b.header.height (b.utxos C) s (b.actions C) T (s.applyTxs C b))
    (hfresh : s.rollbackJournal.get b.header.height = none)
    (hroom : s.targets b = [] ∨ s.rollbackJournal.len < maxRollbackDepth)
    (hpool : ∀ m ∈ T.map Prod.fst, s.spentPubKeys.get m = none)
    (hquiet : ∀ tx ∈ b.txs, ∀ inp ∈ tx.inputs, s.findPooled (s.targets b) inp.amountCommit
      (stateTransitionRingMembers tx inp) = none) :
    Undone (b.undos C) ((s.applyTxs C b).restoreJournal b.header.height)
      ((s.applyTxs C b).rollbackBlock C b) := by
  rw [rollbackBlock_eq_undos]
  refine Undone.run fun c ms hmem => ?_
  obtain ⟨tx, htx, inp, hinp, rfl, rfl⟩ := take_mem_undos.mp hmem
  refine findPooled_none_mono (fun m hm => ?_) ?_ (hquiet tx htx inp hinp)
  · unfold journalMembers
    rw [(h.journal_get hfresh hroom).1]
    exact h.targets_subset hm
  · rw [h.restoreJournal_eq hfresh hroom]
    ext m : 1
    rw [h.restored_pool m]
    split_ifs with hm
    · exact (hpool m hm).symm
    · rfl

theorem RollbackSafe.rollback_eq (hsafe : s.RollbackSafe C b) (hok : s.applyBlock C b = .ok s') :
    s'.rollbackBlock C b = s := by
  obtain ⟨-, rfl⟩ := applyBlock_spec hok
  obtain ⟨T, h⟩ := exists_applied hsafe.untracked hsafe.spends_earlier
  have hpool : ∀ m ∈ T.map Prod.fst, s.spentPubKeys.get m = none := by
    intro m hm
    obtain ⟨e, he, rfl⟩ := mem_map.mp hm
    exact hsafe.candidate_unpooled e.1 e.2 (h.candidate he)
  have hun := h.undone hsafe.journal_fresh hsafe.journal_room hpool hsafe.no_fallback
  have hkeys := (rollback_keyImages_iff s b).mpr
    ((marked_unspent_iff hok).mpr hsafe.stake_unspent)
  obtain ⟨hframe, hjournal, hpooled, hdropU, hkeepU, hdropB, hkeepB⟩ := hun
  rw [h.restoreJournal_eq hsafe.journal_fresh hsafe.journal_room] at hframe hjournal hpooled hkeepU hkeepB
  have hout : ∀ u, .create u ∈ b.undos C ↔ u ∈ b.utxos C := fun u => create_mem_undos
  apply UTXOSet.ext
  · ext k : 1
    by_cases hk : ∃ u ∈ b.utxos C, u.key = k
    · obtain ⟨u, hu, rfl⟩ := hk
      rw [hdropU u ((hout u).mpr hu), hsafe.outpoint_fresh u hu]
    · have hk' : ∀ u ∈ b.utxos C, u.key ≠ k := fun u hu heq => hk ⟨u, hu, heq⟩
      rw [hkeepU k fun u hu => hk' u ((hout u).mp hu)]
      refine get_foldl_set (fun e he => ?_) fun hnot => ?_
      · exact hsafe.candidate_recorded e.1 e.2 (h.candidate he)
      · rw [h.utxos k hk', if_neg]
        rintro ⟨e, he, heq⟩
        exact hnot e he heq
  · exact hkeys
  · ext m : 1
    by_cases hm : ∃ u ∈ b.utxos C, u.oneTimePub = m
    · obtain ⟨u, hu, rfl⟩ := hm
      rw [hdropB u ((hout u).mpr hu), hsafe.key_fresh u hu]
    · have hm' : ∀ u ∈ b.utxos C, u.oneTimePub ≠ m := fun u hu heq => hm ⟨u, hu, heq⟩
      rw [hkeepB m fun u hu => hm' u ((hout u).mp hu)]
      refine get_foldl_set (fun e he => ?_) fun hnot => ?_
      · exact (h.sound e he).1
      · rw [h.byPubKey m hm', if_neg]
        intro hmem
        obtain ⟨e, he, heq⟩ := mem_map.mp hmem
        exact hnot e he heq
  · exact hframe.staked.trans h.frame.staked
  · rw [hpooled]
    ext m : 1
    rw [h.restored_pool m]
    split_ifs with hm
    · exact (hpool m hm).symm
    · rfl
  · exact hjournal
  · exact hframe.ringMembers.trans h.frame.ringMembers
  · exact hframe.activation.trans h.frame.activation
  · exact hframe.recent.trans h.frame.recent

end Exact

/-! ### What is never put back -/

section Lost

variable {s t : UTXOSet} {acts : List SetAction} {height : Nat}

theorem undo_frame (t : UTXOSet) (R : List Point32) (a : SetAction) :
    (t.undo R a).rollbackJournal = t.rollbackJournal ∧
      (t.undo R a).clsagRecentOutputs = t.clsagRecentOutputs := by
  cases a with
  | mark ki => exact ⟨rfl, rfl⟩
  | take c ms =>
    unfold undo
    dsimp only
    split <;> exact ⟨rfl, rfl⟩
  | create u => exact ⟨rfl, rfl⟩

/-- `RollbackBlock` drops the journal of its height and leaves the recent outputs alone. -/
theorem rollbackBlock_frame (t : UTXOSet) (b : Block) :
    (t.rollbackBlock C b).rollbackJournal = t.rollbackJournal.del b.header.height ∧
      (t.rollbackBlock C b).clsagRecentOutputs = t.clsagRecentOutputs := by
  rw [rollbackBlock_eq_undos]
  refine foldlRecOn (motive := fun u : UTXOSet => u.rollbackJournal =
    t.rollbackJournal.del b.header.height ∧ u.clsagRecentOutputs = t.clsagRecentOutputs)
    (b.undos C) _ ?_ fun u hu a _ => ?_
  · unfold restoreJournal
    rw [foldl_restore]
    exact ⟨rfl, rfl⟩
  · obtain ⟨hj, hr⟩ := undo_frame u _ a
    exact ⟨hj.trans hu.1, hr.trans hu.2⟩

theorem act_activation (s : UTXOSet) (height : Nat) (a : SetAction) :
    (s.act height a).clsagActivationHeight = s.clsagActivationHeight := by
  cases a with
  | mark ki => rfl
  | take c ms =>
    unfold act
    dsimp only
    split <;> rfl
  | create u =>
    unfold act addOutput trackCLSAGRecent evict
    dsimp only
    split_ifs <;> first | rfl | (split <;> rfl)

theorem actions_activation (s : UTXOSet) (height : Nat) (acts : List SetAction) :
    (acts.foldl (act height) s).clsagActivationHeight = s.clsagActivationHeight :=
  foldlRecOn (motive := fun t : UTXOSet => t.clsagActivationHeight = s.clsagActivationHeight) acts _ rfl
    fun t ht a _ => (act_activation t height a).trans ht

theorem act_recent (ha : ∀ u, a = .create u → ¬ s.Tracks height u) :
    (s.act height a).clsagRecentOutputs = s.clsagRecentOutputs := by
  cases a with
  | mark ki => rfl
  | take c ms =>
    unfold act
    dsimp only
    split <;> rfl
  | create u =>
    show (s.addOutput height u).clsagRecentOutputs = _
    rw [addOutput_of_untracked (ha u rfl)]

theorem exists_recent (hu : .create u ∈ acts) (htrack : s.Tracks height u) :
    ∃ w, .create w ∈ acts ∧ w.key ∈ (acts.foldl (act height) s).clsagRecentOutputs := by
  induction acts using reverseRecOn with
  | nil => exact absurd hu not_mem_nil
  | append_singleton acts a ih =>
    rw [foldl_append, foldl_cons, foldl_nil]
    have hsame : ∀ w, (acts.foldl (act height) s).Tracks height w ↔ s.Tracks height w := by
      intro w
      unfold Tracks
      rw [actions_activation]
    by_cases hlast : ∃ w, a = .create w ∧ s.Tracks height w
    · obtain ⟨w, rfl, hw⟩ := hlast
      exact ⟨w, by simp, mem_recent_of_tracks ((hsame w).mpr hw)⟩
    · have hmem : .create u ∈ acts := by
        rcases mem_append.mp hu with hu | hu
        · exact hu
        · exact absurd ⟨u, (mem_singleton.mp hu).symm, htrack⟩ hlast
      obtain ⟨w, hw, hrecent⟩ := ih hmem
      refine ⟨w, mem_append_left _ hw, ?_⟩
      rw [act_recent fun v hv hv' => hlast ⟨v, hv, (hsame v).mp hv'⟩]
      exact hrecent

theorem undo_pool (t : UTXOSet) (R : List Point32) (a : SetAction) (m : Point32) :
    (t.undo R a).spentPubKeys.get m = none ∨
      (t.undo R a).spentPubKeys.get m = t.spentPubKeys.get m := by
  cases a with
  | mark ki => exact .inr rfl
  | create u => exact .inr rfl
  | take c ms =>
    unfold undo
    dsimp only
    split
    · rename_i e _
      show (t.spentPubKeys.del e.1).get m = none ∨ (t.spentPubKeys.del e.1).get m = _
      rw [get_del]
      split_ifs
      · exact .inl rfl
      · exact .inr rfl
    · exact .inr rfl

theorem undos_pool_none (hnone : t.spentPubKeys.get m = none) :
    (acts.foldl (undo R) t).spentPubKeys.get m = none :=
  foldlRecOn (motive := fun t : UTXOSet => t.spentPubKeys.get m = none) acts _ hnone
    fun t hnone a _ =>
    (undo_pool t R a m).elim id fun h => h.trans hnone

theorem undos_pool_of_fallback (hR : ∀ m ∈ R, m ∈ R')
    (hsub : ∀ m, t.spentPubKeys.get m = none ∨ t.spentPubKeys.get m = s.spentPubKeys.get m)
    (hmem : .take c ms ∈ acts)
    (hfind : s.findPooled R' c ms = some (m, u)) :
    (acts.foldl (undo R) t).spentPubKeys.get m = none := by
  induction acts generalizing t with
  | nil => exact absurd hmem not_mem_nil
  | cons a acts ih =>
    rw [foldl_cons]
    rcases mem_cons.mp hmem with rfl | hmem
    · refine undos_pool_none ?_
      by_cases hpooled : t.spentPubKeys.get m = none
      · rcases undo_pool t R (.take c ms) m with h | h
        · exact h
        · exact h.trans hpooled
      · unfold undo
        dsimp only
        rw [findPooled_of_subset hR (fun m _ => hsub m) hfind hpooled]
        exact get_del_self _ _
    · refine ih (fun m' => ?_) hmem
      rcases undo_pool t R a m' with h | h
      · exact .inl h
      · rw [h]
        exact hsub m'

end Lost

/-! ### Necessity -/

section Necessity

variable {s s' : UTXOSet} {b : Block}

theorem Ordinary.rollbackSafe (hord : s.Ordinary C b) (hok : s.applyBlock C b = .ok s')
    (heq : s'.rollbackBlock C b = s) : s.RollbackSafe C b := by
  have hstake := (marked_unspent_iff hok).mp
  obtain ⟨-, rfl⟩ := applyBlock_spec hok
  replace hstake := hstake ((rollback_keyImages_iff s b).mp (by rw [heq]))
  obtain ⟨hjournal, hrecent⟩ := rollbackBlock_frame (s.applyTxs C b) b
  rw [heq] at hjournal hrecent
  -- a tracked output would have left an outpoint of the block in the list
  have huntracked : ∀ u ∈ b.utxos C, ¬ s.Tracks b.header.height u := by
    intro u hu htrack
    obtain ⟨w, hw, hmem⟩ := exists_recent (create_mem_actions.mpr hu) htrack
    rw [← applyTxs_eq_actions, ← hrecent] at hmem
    exact hord.outpoint_untracked w (create_mem_actions.mp hw) hmem
  have hfresh : s.rollbackJournal.get b.header.height = none := by
    rw [hjournal]
    exact get_del_self _ _
  obtain ⟨T, h⟩ := exists_applied huntracked hord.spends_earlier
  -- a full journal would have lost its oldest height
  have hroom : s.targets b = [] ∨ s.rollbackJournal.len < maxRollbackDepth := by
    by_contra hnot
    rw [not_or, not_lt] at hnot
    have hlower : ∀ k ∈ s.rollbackJournal.keys, k < b.header.height := by
      intro k hk
      refine lt_of_le_of_ne (hord.journal_earlier k hk) ?_
      rintro rfl
      obtain ⟨v, hv⟩ := mem_keys.mp hk
      rw [hfresh] at hv
      cases hv
    obtain ⟨k, hk, hnone⟩ := journalEntries_of_full hnot.2 hlower
      fun hnil => hnot.1 (h.nil_iff.mp hnil)
    obtain ⟨v, hv⟩ := mem_keys.mp hk
    rw [← h.journal] at hnone
    rw [hjournal, get_del_ne (hlower k hk).ne, hnone] at hv
    cases hv
  have hmembers : (s.applyTxs C b).journalMembers b.header.height = T.map Prod.fst := by
    unfold journalMembers
    rw [(h.journal_get hfresh hroom).1]
  have hrestored : ∀ m, ((s.applyTxs C b).restoreJournal b.header.height).spentPubKeys.get m =
      if m ∈ T.map Prod.fst then none else s.spentPubKeys.get m := by
    intro m
    rw [h.restoreJournal_eq hfresh hroom]
    exact h.restored_pool m
  have hundos := rollbackBlock_eq_undos (C := C) (s.applyTxs C b) b
  rw [heq, hmembers] at hundos
  -- what was taken is not in the pool afterwards, so it was not before
  have hpool : ∀ m ∈ T.map Prod.fst, s.spentPubKeys.get m = none := by
    intro m hm
    rw [hundos]
    refine undos_pool_none ?_
    rw [hrestored m, if_pos hm]
  have htaken : ∀ m u, s.Candidate b m u → m ∈ s.targets b := by
    rintro m u ⟨hget, tx, htx, inp, hinp, hclsag, hcommit, hm⟩
    obtain ⟨⟨m', u'⟩, hfind⟩ := exists_findMember hm hget hcommit
    obtain ⟨hm', hget', hcommit'⟩ := findMember_eq_some hfind
    have hone := hord.one_candidate tx htx inp hinp m hm m' hm' u u' hget hget' hcommit hcommit'
    rw [hone]
    exact mem_targets (C := C).mpr
      ⟨_, _, u', take_mem_actions.mpr ⟨tx, htx, inp, hinp, hclsag, rfl, rfl⟩, hfind⟩
  have hsubset : ∀ m ∈ T.map Prod.fst, m ∈ s.targets b := by
    intro m hm
    obtain ⟨e, he, rfl⟩ := mem_map.mp hm
    exact htaken e.1 e.2 (h.candidate he)
  -- a pooled output the fallback revives would be missing in the pool
  have hquiet : ∀ tx ∈ b.txs, ∀ inp ∈ tx.inputs, s.findPooled (s.targets b) inp.amountCommit
      (stateTransitionRingMembers tx inp) = none := by
    intro tx htx inp hinp
    rcases hfind : s.findPooled (s.targets b) inp.amountCommit
      (stateTransitionRingMembers tx inp) with _ | ⟨m, u⟩
    · rfl
    · have hsub : ∀ m, ((s.applyTxs C b).restoreJournal b.header.height).spentPubKeys.get m = none ∨
          ((s.applyTxs C b).restoreJournal b.header.height).spentPubKeys.get m =
            s.spentPubKeys.get m := by
        intro m
        rw [hrestored m]
        split_ifs
        · exact .inl rfl
        · exact .inr rfl
      have hnone := undos_pool_of_fallback hsubset hsub
        (take_mem_undos (C := C).mpr ⟨tx, htx, inp, hinp, rfl, rfl⟩) hfind
      rw [← hundos, (findPooled_eq_some hfind).2.1] at hnone
      cases hnone
  have hun := h.undone hfresh hroom hpool hquiet
  rw [heq] at hun
  exact
    { stake_unspent := hstake
      untracked := huntracked
      journal_fresh := hfresh
      journal_room := hroom
      outpoint_fresh := fun u hu => hun.utxos_dropped u (create_mem_undos.mpr hu)
      key_fresh := fun u hu => hun.byPubKey_dropped u (create_mem_undos.mpr hu)
      spends_earlier := hord.spends_earlier
      candidate_recorded := fun m u hcand => hord.indexed_recorded m u hcand.1
      candidate_unpooled := fun m u hcand => hpool m (h.targets_subset (htaken m u hcand))
      no_fallback := hquiet }

end Necessity

end UTXOSet

/-- The output of 7 for key 1. -/
def outputOf7 : UTXO :=
  { txHash := 1, outputIndex := 0, oneTimePub := 1, amountCommit := 7, blockHeight := 1 }

def fundedSet : UTXOSet :=
  { utxos := (∅ : GoMap UTXOKey UTXO).set outputOf7.key outputOf7
    byPubKey := (∅ : GoMap Point32 UTXO).set 1 outputOf7 }

def spendBlock : Block := { header := { height := 2 }, txs := [exampleSpend] }

theorem fundedSet_candidate (h : fundedSet.Candidate spendBlock m u) :
    m = 1 ∧ u = outputOf7 := by
  have hget : ((∅ : GoMap Point32 UTXO).set 1 outputOf7).get m = some u := h.1
  rw [get_set] at hget
  split_ifs at hget with hm
  · exact ⟨hm, (Option.some.inj hget).symm⟩
  · simp at hget

set_option maxRecDepth 4000

theorem spendBlock_safe : fundedSet.RollbackSafe transparent spendBlock where
  stake_unspent := by decide
  untracked := fun _ _ htrack => htrack.2.1 rfl
  journal_fresh := rfl
  journal_room := .inr (by decide)
  outpoint_fresh := by decide
  key_fresh := by decide
  spends_earlier := by
    unfold UTXOSet.SpendsEarlier
    decide
  candidate_recorded := by
    intro m u h
    obtain ⟨rfl, rfl⟩ := fundedSet_candidate h
    rfl
  candidate_unpooled := fun _ _ _ => rfl
  no_fallback := by decide

end Aperod
