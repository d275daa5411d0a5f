import Aperod.Core.Transparent

/-!
# The UTXO set: what each operation does

The facts later proofs use instead of the definitions.  Pass 1 reserves the key images of a block,
and pass 2 is a list of actions, each of which does one thing.
-/

namespace Aperod

open Go KeyImageSet List

variable {i : Nat} {b : Block} {ki : KeyImage} {c : KeyImageSet} {ks : List KeyImage}

/-! ### Key images -/

namespace KeyImageSet

theorem contains_iff :
    c.contains ki = true ↔ ki ∈ c.recent ∨ ki ∈ c.older := by
  simp [contains]

theorem contains_insert (c : KeyImageSet) (ki ki' : KeyImage) :
    (c.insert ki).contains ki' = true ↔ ki' = ki ∨ c.contains ki' = true := by
  unfold insert
  split_ifs with h
  · constructor
    · exact Or.inr
    · rintro (rfl | h')
      · exact h
      · exact h'
  · rw [contains_iff, contains_iff, Finset.mem_insert, or_assoc]
    rfl

theorem contains_remove (c : KeyImageSet) (ki ki' : KeyImage) :
    (c.remove ki).contains ki' = true ↔ ki' ≠ ki ∧ c.contains ki' = true := by
  rw [contains_iff, contains_iff]
  unfold remove older
  split <;> rename_i h <;> simp [h, ← and_or_left]

theorem not_contains_iff :
    c.contains ki = false ↔ ki ∉ c.recent ∧ ki ∉ c.older := by
  rw [← Bool.not_eq_true, contains_iff, not_or]

theorem contains_foldl_insert (c : KeyImageSet) (ks : List KeyImage) (k : KeyImage) :
    (ks.foldl insert c).contains k = true ↔ c.contains k = true ∨ k ∈ ks := by
  induction ks generalizing c with
  | nil => simp
  | cons ki ks ih =>
    rw [foldl_cons, ih, contains_insert, mem_cons]
    tauto

theorem contains_foldl_remove (c : KeyImageSet) (ks : List KeyImage) (k : KeyImage) :
    (ks.foldl remove c).contains k = true ↔ c.contains k = true ∧ k ∉ ks := by
  induction ks generalizing c with
  | nil => simp
  | cons ki ks ih =>
    rw [foldl_cons, ih, contains_remove, mem_cons]
    tauto

theorem foldl_insert_eq (h : ∀ k ∈ ks, k ∉ c.older) :
    ks.foldl insert c = { c with recent := c.recent ∪ ks.toFinset } := by
  induction ks generalizing c with
  | nil => simp
  | cons k ks ih =>
    have hk : c.insert k = { c with recent := Insert.insert k c.recent } := by
      unfold insert
      split_ifs with hc
      · have hmem : k ∈ c.recent := by
          by_contra hnot
          rw [not_contains_iff.mpr ⟨hnot, h k mem_cons_self⟩] at hc
          exact absurd hc (by decide)
        rw [Finset.insert_eq_of_mem hmem]
      · rfl
    rw [foldl_cons, hk, ih (c := { c with recent := Insert.insert k c.recent })
      fun k' hk' => h k' (mem_cons_of_mem _ hk')]
    rw [toFinset_cons, Finset.insert_union, Finset.union_insert]

theorem foldl_remove_eq (h : ∀ k ∈ ks, k ∉ c.older) :
    ks.foldl remove c = { c with recent := c.recent \ ks.toFinset } := by
  induction ks generalizing c with
  | nil => simp
  | cons k ks ih =>
    have hk : c.remove k = { c with recent := c.recent.erase k } := by
      obtain ⟨recent, sorted, kiDB⟩ := c
      cases kiDB <;> simp_all [remove, older, Finset.erase_eq_of_notMem]
    rw [foldl_cons, hk, ih (c := { c with recent := c.recent.erase k })
      fun k' hk' => h k' (mem_cons_of_mem _ hk')]
    rw [toFinset_cons, Finset.sdiff_insert, Finset.erase_sdiff_comm]

/-- Removing images that were not there before their insertion restores the set, tier by tier. -/
theorem foldl_remove_foldl_insert
    (h : ∀ k ∈ ks, c.contains k = false) : ks.foldl remove (ks.foldl insert c) = c := by
  have hold : ∀ k ∈ ks, k ∉ c.older := fun k hk => (not_contains_iff.mp (h k hk)).2
  have hdisj : Disjoint c.recent ks.toFinset := by
    refine Finset.disjoint_right.mpr fun k hk => ?_
    exact (not_contains_iff.mp (h k (mem_toFinset.mp hk))).1
  rw [foldl_insert_eq hold, foldl_remove_eq (c := { c with recent := c.recent ∪ ks.toFinset }) hold]
  rw [Finset.union_sdiff_cancel_right hdisj]

theorem contains_compact (c : KeyImageSet) (written : KeyImage → Bool) (ki : KeyImage) :
    (c.compact written).contains ki = true ↔
      ki ∈ c.recent ∧ (c.kiDB = none ∨ written ki = true) ∨ ki ∈ c.older := by
  rw [contains_iff]
  unfold compact older
  split_ifs with hrecent
  · simp [hrecent]
  · cases hdb : c.kiDB with
    | none => simp [or_comm]
    | some db => simp [or_comm]

end KeyImageSet

/-- Compaction keeps the spent images exactly if every recent one is written or was in the database
already. -/
theorem UTXOSet.compactKeyImages_keeps_iff {C : Externals} (s : UTXOSet)
    (written : KeyImage → Bool) :
    (∀ ki, s.isSpent C ki = true → (s.compactKeyImages written).1.isSpent C ki = true) ↔
      s.keyImages.kiDB = none ∨ ∀ ki, spentForm C ki ∈ s.keyImages.recent →
        written (spentForm C ki) = true ∨ spentForm C ki ∈ s.keyImages.older := by
  have hspent : ∀ ki, (s.compactKeyImages written).1.isSpent C ki = true ↔
      spentForm C ki ∈ s.keyImages.recent ∧
        (s.keyImages.kiDB = none ∨ written (spentForm C ki) = true) ∨
      spentForm C ki ∈ s.keyImages.older := fun ki => contains_compact _ _ _
  have hbefore : ∀ ki, s.isSpent C ki = true ↔
      spentForm C ki ∈ s.keyImages.recent ∨ spentForm C ki ∈ s.keyImages.older :=
    fun ki => contains_iff
  simp only [hspent, hbefore]
  by_cases hdb : s.keyImages.kiDB = none
  · simp [hdb]
  · simp only [hdb, false_or]
    constructor
    · intro h ki hrecent
      rcases h ki (.inl hrecent) with ⟨-, hwritten⟩ | holder
      · exact .inl hwritten
      · exact .inr holder
    · rintro h ki (hrecent | holder)
      · rcases h ki hrecent with hwritten | holder
        · exact .inl ⟨hrecent, hwritten⟩
        · exact .inr holder
      · exact .inr holder

/-- A spent image that the database does not take is forgotten. -/
theorem failed_write_forgets :
    let s : UTXOSet := { keyImages := { recent := {5}, kiDB := some ∅ } }
    s.isSpent transparent 5 = true ∧
      (s.compactKeyImages fun _ => false).1.isSpent transparent 5 = false := by
  decide

/-! ### Ring members -/

/-- A ring member is an active output, a pooled spent one, or one of the persistent index. -/
theorem UTXOSet.getRingMember_cases {s : UTXOSet} {pub : Point32} {u : UTXO}
    (h : s.getRingMember pub = some u) :
    s.byPubKey.get pub = some u ∨ s.spentPubKeys.get pub = some u ∨
      ∃ store, s.ringMembers = some store ∧ store.lookup pub = some u := by
  unfold getRingMember at h
  split at h
  · rename_i w hw
    cases h
    exact Or.inl (Option.filter_eq_some_iff.mp hw).1
  · split at h
    · rename_i w hw
      cases h
      exact Or.inr (Or.inl (Option.filter_eq_some_iff.mp hw).1)
    · have hb := (Option.filter_eq_some_iff.mp h).1
      obtain ⟨store, hstore, hlook⟩ := Option.bind_eq_some_iff.mp hb
      exact Or.inr (Or.inr ⟨store, hstore, hlook⟩)

/-! ### Pass 1 and key images -/

variable {C : Externals}

/-- The key images pass 1 examines for a transaction. -/
def Transaction.checkedKeys (C : Externals) (tx : Transaction) : List KeyImage :=
  if tx.isStake ∧ tx.extra.length = stakePayloadSizeV4 then (stakeKeyImage C tx).toList
  else if tx.isCoinbase || tx.isStake then []
  else tx.inputs.map fun inp => spentForm C inp.keyImage

/-- From `r` to `r'` the key images `ks` were reserved: they are new to the set, new to the block
and pairwise different. -/
structure Reserves (s : UTXOSet) (r : Reserved) (ks : List KeyImage) (r' : Reserved) : Prop where
  nodup : ks.Nodup
  unspent : ∀ k ∈ ks, s.keyImages.contains k = false
  unseen : ∀ k ∈ ks, r.seen.get k = none
  seen_iff : ∀ k, r'.seen.get k = none ↔ k ∉ ks ∧ r.seen.get k = none

namespace Reserves

variable {s : UTXOSet} {r r' r'' : Reserved} {ks' : List KeyImage}

theorem refl (s : UTXOSet) (r : Reserved) : Reserves s r [] r :=
  ⟨nodup_nil, by simp, by simp, by simp⟩

theorem trans (h : Reserves s r ks r') (h' : Reserves s r' ks' r'') :
    Reserves s r (ks ++ ks') r'' := by
  refine ⟨?_, ?_, ?_, ?_⟩
  · refine nodup_append'.mpr ⟨h.nodup, h'.nodup, ?_⟩
    intro k hk hk'
    exact ((h.seen_iff k).mp (h'.unseen k hk')).1 hk
  · intro k hk
    rcases mem_append.mp hk with hk | hk
    · exact h.unspent k hk
    · exact h'.unspent k hk
  · intro k hk
    rcases mem_append.mp hk with hk | hk
    · exact h.unseen k hk
    · exact ((h.seen_iff k).mp (h'.unseen k hk)).2
  · intro k
    rw [h'.seen_iff, h.seen_iff, mem_append]
    tauto

theorem single {k : KeyImage} (hs : s.keyImages.contains k = false)
    (hr : r.seen.get k = none) (consumed : GoMap UTXOKey Nat) :
    Reserves s r [k] ⟨r.seen.set k i, consumed⟩ := by
  refine ⟨nodup_singleton k, by simpa using hs, by simpa using hr, fun k' => ?_⟩
  rw [GoMap.get_set]
  split_ifs with h <;> simp [h]

end Reserves

namespace UTXOSet

variable {s : UTXOSet} {r r' : Reserved} {tx : Transaction} {height txIdx : Nat}

theorem checkInput_reserves {inp : RingInput}
    (h : s.checkInput C height txIdx tx i inp r = .ok r') :
    Reserves s r [spentForm C inp.keyImage] r' := by
  simp only [checkInput, bind_eq_ok, failIf_eq_ok, failSome_eq_ok, wrap_eq_ok] at h
  obtain ⟨_, -, canonical, hcan, _, hspent, _, hseen, h⟩ := h
  have hform : spentForm C inp.keyImage = canonical := by simp [spentForm, hcan]
  rw [hform]
  have hspent : s.keyImages.contains canonical = false := by simpa using hspent
  split_ifs at h
  · cases h
    exact Reserves.single hspent hseen _
  · obtain ⟨u, -, h⟩ := unbind h
    obtain ⟨_, -, h⟩ := unbind h
    cases h
    exact Reserves.single hspent hseen _

theorem checkInputs_reserves {inputs : List RingInput}
    (h : loop (s.checkInput C height txIdx tx) i inputs r = .ok r') :
    Reserves s r (inputs.map fun inp => spentForm C inp.keyImage) r' := by
  induction inputs generalizing i r with
  | nil => cases h; exact Reserves.refl s _
  | cons inp inputs ih =>
    obtain ⟨r1, hone, hrest⟩ := loop_cons_eq_ok.mp h
    exact (checkInput_reserves hone).trans (ih hrest)

theorem checkStakeKeyImage_reserves (hv4 : tx.isStake ∧ tx.extra.length = stakePayloadSizeV4)
    (h : s.checkStakeKeyImage C height txIdx tx r = .ok r') :
    Reserves s r (stakeKeyImage C tx).toList r' := by
  simp only [checkStakeKeyImage, bind_eq_ok, failIf_eq_ok, failSome_eq_ok, wrap_eq_ok] at h
  obtain ⟨p, hp, canonical, hcan, _, hspent, _, hseen, h⟩ := h
  cases h
  have hkey : stakeKeyImage C tx = some canonical := by
    simp [stakeKeyImage, hv4, hp, hcan]
  rw [hkey]
  exact Reserves.single (by simpa using hspent) hseen _

theorem checkTx_reserves (h : s.checkTx C height txIdx tx r = .ok r') :
    Reserves s r (tx.checkedKeys C) r' := by
  unfold checkTx at h
  unfold Transaction.checkedKeys
  split_ifs at h ⊢ with hv4 hskip
  · exact checkStakeKeyImage_reserves hv4 h
  · cases h
    exact Reserves.refl s r
  · exact checkInputs_reserves h

/-- **Pass 1**: the key images it examines over a whole block are new to the set and pairwise
different. -/
theorem checkBlockInputs_reserves (h : s.checkBlockInputs C b = .ok r') :
    Reserves s {} (b.txs.flatMap fun tx => tx.checkedKeys C) r' := by
  suffices key : ∀ (txs : List Transaction) (i : Nat) (r : Reserved),
      loop (s.checkTx C b.header.height) i txs r = .ok r' →
      Reserves s r (txs.flatMap fun tx => tx.checkedKeys C) r' from key b.txs 0 {} h
  intro txs
  induction txs with
  | nil => intro i r h; cases h; exact Reserves.refl s _
  | cons tx txs ih =>
    intro i r h
    obtain ⟨r1, hone, hrest⟩ := loop_cons_eq_ok.mp h
    exact (checkTx_reserves hone).trans (ih _ _ hrest)

end UTXOSet

/-! ### Pass 2 as a list of actions -/

/-- What pass 2 does to the set, one thing at a time; `RollbackBlock` undoes the same things. -/
inductive SetAction
  | mark (ki : KeyImage)
  | take (commit : Commitment) (members : List Point32)
  | create (u : UTXO)

/-- Mark a key image, take the first matching member out of the active set, or add an output. -/
def UTXOSet.act (height : Nat) (s : UTXOSet) : SetAction → UTXOSet
  | .mark ki => { s with keyImages := s.keyImages.insert ki }
  | .take commit members =>
    match s.findMember commit members with
    | some (m, u) => s.spend height m u
    | none => s
  | .create u => s.addOutput height u

variable (C)

/-- The actions of an input; a hidden spend takes nothing. -/
def Transaction.inputActions (tx : Transaction) (inp : RingInput) : List SetAction :=
  .mark (spentForm C inp.keyImage) ::
    if tx.usesCLSAG then [] else [.take inp.amountCommit (stateTransitionRingMembers tx inp)]

/-- The actions of a transaction, in the order of pass 2. -/
def Transaction.actions (height : Nat) (tx : Transaction) : List SetAction :=
  tx.inputs.flatMap (tx.inputActions C) ++ ((stakeKeyImage C tx).toList.map .mark ++
    (tx.utxos C height).map .create)

/-- The actions of a block, in the order of pass 2. -/
def Block.actions (b : Block) : List SetAction := b.txs.flatMap (Transaction.actions C b.header.height)

variable {C}

namespace UTXOSet

variable (s : UTXOSet)

theorem applyInput_eq_actions (height : Nat) (tx : Transaction) (inp : RingInput) :
    applyInput C height tx s inp = (tx.inputActions C inp).foldl (act height) s := by
  unfold applyInput Transaction.inputActions
  split_ifs <;> rfl

theorem applyTx_eq_actions (height : Nat) (tx : Transaction) :
    applyTx C height s tx = (tx.actions C height).foldl (act height) s := by
  unfold applyTx Transaction.actions
  rw [foldl_append, foldl_append, foldl_flatMap, foldl_map]
  simp only [← applyInput_eq_actions]
  cases stakeKeyImage C tx <;> rfl

/-- **Pass 2** performs the actions of the block one after the other. -/
theorem applyTxs_eq_actions (b : Block) :
    s.applyTxs C b = (b.actions C).foldl (act b.header.height) s := by
  unfold applyTxs Block.actions
  rw [foldl_flatMap]
  simp only [← applyTx_eq_actions]

end UTXOSet

/-! ### Pass 2 and key images -/

def Transaction.markedKeys (C : Externals) (tx : Transaction) : List KeyImage :=
  (tx.inputs.map fun inp => spentForm C inp.keyImage) ++ (stakeKeyImage C tx).toList

def SetAction.key : SetAction → Option KeyImage
  | .mark ki => some ki
  | _ => none

theorem Block.actions_keys (b : Block) :
    (b.actions C).filterMap SetAction.key = b.txs.flatMap fun tx => tx.markedKeys C := by
  have hinput : ∀ (tx : Transaction) (inp : RingInput),
      (tx.inputActions C inp).filterMap SetAction.key = [spentForm C inp.keyImage] := by
    intro tx inp
    unfold Transaction.inputActions
    split_ifs <;> rfl
  have htx : ∀ tx : Transaction,
      (tx.actions C b.header.height).filterMap SetAction.key = tx.markedKeys C := by
    intro tx
    unfold Transaction.actions Transaction.markedKeys
    rw [filterMap_append, filterMap_append, filterMap_flatMap, filterMap_map,
      filterMap_map]
    simp only [hinput, map_eq_flatMap]
    simp [Function.comp_def, SetAction.key]
  unfold Block.actions
  rw [filterMap_flatMap]
  simp only [htx]

namespace UTXOSet

variable (s : UTXOSet)

@[simp] theorem evict_keyImages (k : UTXOKey) : (s.evict k).keyImages = s.keyImages := by
  unfold evict
  split <;> rfl

@[simp] theorem trackCLSAGRecent_keyImages (k : UTXOKey) (h : Nat) :
    (s.trackCLSAGRecent k h).keyImages = s.keyImages := by
  unfold trackCLSAGRecent
  dsimp only
  split_ifs <;> simp

theorem act_keyImages (h : Nat) (a : SetAction) :
    (s.act h a).keyImages = a.key.toList.foldl insert s.keyImages := by
  cases a with
  | mark ki => rfl
  | take commit members =>
    unfold act
    dsimp only
    split <;> rfl
  | create u => simp [act, addOutput, SetAction.key]

theorem actions_keyImages (h : Nat) (acts : List SetAction) :
    (acts.foldl (act h) s).keyImages =
      (acts.filterMap SetAction.key).foldl insert s.keyImages := by
  induction acts generalizing s with
  | nil => rfl
  | cons a acts ih =>
    rw [foldl_cons, ih, act_keyImages]
    cases hk : a.key <;> simp [hk]

theorem applyTxs_keyImages (b : Block) : (s.applyTxs C b).keyImages =
    (b.txs.flatMap fun tx => tx.markedKeys C).foldl insert s.keyImages := by
  rw [applyTxs_eq_actions, actions_keyImages, Block.actions_keys]

/-- **Pass 2**: after a block, exactly its marked key images are spent in addition. -/
theorem applyTxs_contains (b : Block) (k : KeyImage) :
    (s.applyTxs C b).keyImages.contains k = true ↔
      s.keyImages.contains k = true ∨ k ∈ b.txs.flatMap fun tx => tx.markedKeys C := by
  rw [applyTxs_keyImages, contains_foldl_insert]

theorem findMember_congr {s t : UTXOSet} (h : t.byPubKey = s.byPubKey) (c : Commitment)
    (ms : List Point32) : t.findMember c ms = s.findMember c ms := by
  induction ms with
  | nil => rfl
  | cons m ms ih =>
    unfold findMember
    rw [h, ih]

theorem act_staked (h : Nat) (a : SetAction) : (s.act h a).stakedUTXOs = s.stakedUTXOs := by
  cases a with
  | mark ki => rfl
  | take commit members =>
    unfold act
    dsimp only
    split <;> rfl
  | create u =>
    unfold act addOutput trackCLSAGRecent evict
    dsimp only
    split_ifs <;> first | rfl | (split <;> rfl)

theorem applyTxs_staked (b : Block) : (s.applyTxs C b).stakedUTXOs = s.stakedUTXOs := by
  rw [applyTxs_eq_actions]
  exact foldlRecOn (motive := fun t : UTXOSet => t.stakedUTXOs = s.stakedUTXOs) _ _ rfl
    fun t ht a _ => (act_staked ..).trans ht

theorem applyBlock_spec {s s' : UTXOSet} (h : s.applyBlock C b = .ok s') :
    (∃ r, s.checkBlockInputs C b = .ok r) ∧ s' = s.applyTxs C b := by
  obtain ⟨r, hr, h⟩ := unbind h
  cases h
  exact ⟨⟨r, hr⟩, rfl⟩

end UTXOSet

end Aperod
