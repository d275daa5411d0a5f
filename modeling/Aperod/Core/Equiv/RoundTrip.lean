import Aperod.Core.Equiv.Snapshot
import Aperod.Core.Equiv.Rollback
import Aperod.Go.Run

/-!
# A set restored from a snapshot

Where a restored set replies to all calls as the original does (`snapshot_round_trip_iff`), the two
agree but for the way key images are stored (`Alike`), and calls keep it that way.  Otherwise either
a lookup by one-time key sees the difference at once, or as many new outputs as the list of recent
ones still takes push out of the original an output that the restored set keeps.
-/

namespace Aperod

open Go KeyImageSet List UTXOSet GoMap

variable {C : Externals} {s t : UTXOSet}
variable {h height : Nat} {u : UTXO} {k : UTXOKey} {rest : List UTXOKey}
  {l : List (Nat × RollbackEntry)} {j : GoMap Nat (List RollbackEntry)}

/-! ### Reachable sets -/

/-- What is true of an output that is indexed or spent under a one-time key. -/
def UTXO.Under (u : UTXO) (m : Point32) : Prop := u.oneTimePub = m ∧ u.protocolLocked = false

/-- What every set in use satisfies. -/
structure UTXOSet.Kept (s : UTXOSet) : Prop where
  keyed : s.utxos.All fun k u => u.key = k
  staked : s.stakedUTXOs.All fun k u => u.key = k ∧ u.protocolLocked = false
  indexed : s.byPubKey.All fun m u => u.Under m
  decoys : s.spentPubKeys.All fun m u => u.Under m
  journal : s.rollbackJournal.All fun _ es => es ≠ [] ∧ ∀ e ∈ es, e.2.Under e.1
  recent : s.clsagRecentOutputs.length ≤ maxCLSAGRecentOutputs

namespace UTXOSet.Kept

theorem new (keyImages : KeyImageSet) (ringMembers : Option RingMemberStore) (height : Nat) :
    (newUTXOSet keyImages ringMembers height).Kept :=
  ⟨.empty, .empty, .empty, .empty, .empty, Nat.zero_le _⟩

theorem evict (hs : s.Kept) (k : UTXOKey) : (s.evict k).Kept := by
  unfold UTXOSet.evict
  split
  · exact hs
  · exact { hs with keyed := hs.keyed.del _, indexed := hs.indexed.del _ }

theorem trackCLSAGRecent (hs : s.Kept) (k : UTXOKey) (height : Nat) :
    (s.trackCLSAGRecent k height).Kept := by
  unfold UTXOSet.trackCLSAGRecent
  dsimp only
  split_ifs with hlocked hold hroom
  · exact hs
  · exact hs
  · exact { hs with recent := hroom }
  · have hshort : (s.clsagRecentOutputs ++ [k]).tail.length ≤ maxCLSAGRecentOutputs := by
      rw [length_tail, length_append]
      exact hs.recent
    have hkept : UTXOSet.Kept
        { s with clsagRecentOutputs := (s.clsagRecentOutputs ++ [k]).tail } :=
      { hs with recent := hshort }
    exact hkept.evict _

theorem addOutput (hs : s.Kept) (height : Nat) (u : UTXO) : (s.addOutput height u).Kept := by
  refine trackCLSAGRecent ?_ _ _
  refine { hs with keyed := hs.keyed.set rfl, indexed := ?_ }
  split_ifs with hlocked
  · exact hs.indexed
  · exact hs.indexed.set ⟨rfl, Bool.eq_false_iff.mpr hlocked⟩

theorem pruneJournal {P : Nat → List RollbackEntry → Prop}
    (hj : j.All P) : (pruneJournal j).All P := by
  unfold Aperod.pruneJournal
  split_ifs
  · split
    · exact hj.del _
    · exact hj
  · exact hj

theorem spend (hs : s.Kept) (height : Nat) {m : Point32} (hu : u.Under m) :
    (s.spend height m u).Kept := by
  refine ⟨hs.keyed.del _, hs.staked, hs.indexed.del _, ?_, pruneJournal (hs.journal.set ?_),
    hs.recent⟩
  · show GoMap.All _ (if s.spentPubKeys.len < maxSpentDecoys then s.spentPubKeys.set m u
      else s.spentPubKeys)
    split_ifs
    · exact hs.decoys.set hu
    · exact hs.decoys
  · refine ⟨by simp, fun e he => ?_⟩
    rcases mem_append.mp he with hold | hnew
    · cases hget : s.rollbackJournal.get height with
      | none =>
        rw [hget] at hold
        cases hold
      | some es =>
        rw [hget] at hold
        exact (hs.journal height es hget).2 e hold
    · rw [mem_singleton.mp hnew]
      exact hu

theorem act (hs : s.Kept) (height : Nat) (a : SetAction) : (s.act height a).Kept := by
  cases a with
  | mark ki => exact { hs with }
  | take c ms =>
    unfold UTXOSet.act
    dsimp only
    split
    · rename_i m u hfind
      exact hs.spend height (hs.indexed m u (findMember_eq_some hfind).2.1)
    · exact hs
  | create u => exact hs.addOutput height u

theorem restore (hs : s.Kept) {e : RollbackEntry} (he : e.2.Under e.1) : (s.restore e).Kept :=
  ⟨hs.keyed.set rfl, hs.staked, hs.indexed.set he, hs.decoys.del _, hs.journal, hs.recent⟩

theorem undo (hs : s.Kept) (R : List Point32) (a : SetAction) : (s.undo R a).Kept := by
  cases a with
  | mark ki => exact { hs with }
  | take c ms =>
    unfold UTXOSet.undo
    dsimp only
    split
    · rename_i e hfind
      exact hs.restore (hs.decoys e.1 e.2 (findPooled_eq_some hfind).2.1)
    · exact hs
  | create u =>
    exact { hs with keyed := hs.keyed.del _, indexed := hs.indexed.del _ }

theorem applyTxs (hs : s.Kept) (b : Block) : (s.applyTxs C b).Kept := by
  rw [applyTxs_eq_actions]
  exact foldlRecOn _ _ hs fun s hs a _ => hs.act _ a

theorem rollbackBlock (hs : s.Kept) (b : Block) : (s.rollbackBlock C b).Kept := by
  rw [rollbackBlock_eq_undos]
  refine foldlRecOn _ _ ?_ fun s hs a _ => hs.undo _ a
  have hentries : ∀ e ∈ (s.rollbackJournal.get b.header.height).getD [], e.2.Under e.1 := by
    intro e he
    cases hget : s.rollbackJournal.get b.header.height with
    | none =>
      rw [hget] at he
      cases he
    | some es =>
      rw [hget] at he
      exact (hs.journal _ es hget).2 e he
  have hrestored := foldlRecOn _ _ hs fun s hs e he => hs.restore (hentries e he)
  exact { hrestored with journal := hrestored.journal.del _ }

end UTXOSet.Kept

/-- The calls a node makes: the guardian output, which nobody has the key of, is never staked. -/
def UTXOCall.Allowed (s : UTXOSet) : UTXOCall → Prop
  | .markStaked k => ∀ u, s.utxos.get k = some u → u.protocolLocked = false
  | _ => True

def UTXOSet.Step (C : Externals) (s : UTXOSet) (c : UTXOCall) (s' : UTXOSet) : Prop :=
  c.Allowed s ∧ (s.call C c).1 = s'

theorem UTXOSet.Kept.step {s' : UTXOSet} {c : UTXOCall} (hs : s.Kept) (h : s.Step C c s') :
    s'.Kept := by
  obtain ⟨hallowed, rfl⟩ := h
  cases c with
  | get | getByPubKey | getRingMember | isStaked | isSpent => exact hs
  | add u => exact hs.addOutput _ u
  | remove k => exact hs.evict k
  | markSpent ki => exact { hs with }
  | rollbackBlock b => exact hs.rollbackBlock b
  | applyBlock b =>
    show (s.update (s.applyBlock C b)).1.Kept
    cases happly : s.applyBlock C b with
    | error e => exact hs
    | ok s' =>
      obtain ⟨_, -, happly⟩ := unbind happly
      cases happly
      exact hs.applyTxs b
  | markStaked k =>
    show (s.update (s.markStaked k)).1.Kept
    cases hmark : s.markStaked k with
    | error e => exact hs
    | ok s' =>
      obtain ⟨-, u, hget, rfl⟩ := markStaked_eq_ok.mp hmark
      exact ⟨hs.keyed.del _, hs.staked.set ⟨hs.keyed k u hget, hallowed u hget⟩, hs.indexed.del _,
        hs.decoys, hs.journal, hs.recent⟩
  | unmarkStaked k =>
    show (s.unmarkStaked k).Kept
    unfold unmarkStaked
    split
    · exact hs
    · rename_i u hget
      obtain ⟨hkey, hlocked⟩ := hs.staked k u hget
      exact ⟨hs.keyed.set hkey, hs.staked.del _, hs.indexed.set ⟨rfl, hlocked⟩, hs.decoys,
        hs.journal, hs.recent⟩

/-- The sets differ in the way they store key images and, where outputs are not tracked, in the list
of recent ones. -/
def UTXOSet.Alike (s t : UTXOSet) : Prop :=
  ∃ c r, t = { s with keyImages := c, clsagRecentOutputs := r } ∧
    (∀ ki, c.contains ki = s.keyImages.contains ki) ∧
    (s.clsagActivationHeight = 0 ∨ r = s.clsagRecentOutputs)

namespace UTXOSet.Alike

theorem evict (h : s.Alike t) (k : UTXOKey) : (s.evict k).Alike (t.evict k) := by
  obtain ⟨c, r, rfl, hc, hr⟩ := h
  unfold UTXOSet.evict
  dsimp only
  split
  · exact ⟨c, r, rfl, hc, hr⟩
  · exact ⟨c, r, rfl, hc, hr⟩

theorem trackCLSAGRecent (h : s.Alike t) (k : UTXOKey) (height : Nat) :
    (s.trackCLSAGRecent k height).Alike (t.trackCLSAGRecent k height) := by
  obtain ⟨c, r, rfl, hc, hr⟩ := h
  unfold UTXOSet.trackCLSAGRecent
  dsimp only
  by_cases hlocked : (s.utxos.get k).any (·.protocolLocked) = true
  · rw [if_pos hlocked, if_pos hlocked]
    exact ⟨c, r, rfl, hc, hr⟩
  · rw [if_neg hlocked, if_neg hlocked]
    by_cases hold : s.clsagActivationHeight = 0 ∨ height < s.clsagActivationHeight
    · rw [if_pos hold, if_pos hold]
      exact ⟨c, r, rfl, hc, hr⟩
    · rw [if_neg hold, if_neg hold]
      -- outputs are tracked, so the lists are the same
      obtain rfl := hr.resolve_left fun hzero => hold (.inl hzero)
      split_ifs
      · exact ⟨c, _, rfl, hc, .inr rfl⟩
      · have htail : UTXOSet.Alike
            { s with clsagRecentOutputs := (s.clsagRecentOutputs ++ [k]).tail }
            { s with
              keyImages := c
              clsagRecentOutputs := (s.clsagRecentOutputs ++ [k]).tail } :=
          ⟨c, _, rfl, hc, .inr rfl⟩
        exact htail.evict _

theorem addOutput (h : s.Alike t) (height : Nat) (u : UTXO) :
    (s.addOutput height u).Alike (t.addOutput height u) := by
  obtain ⟨c, r, rfl, hc, hr⟩ := h
  let index := if u.protocolLocked then s.byPubKey else s.byPubKey.set u.oneTimePub u
  have hadded : UTXOSet.Alike { s with utxos := s.utxos.set u.key u, byPubKey := index }
      { s with
        utxos := s.utxos.set u.key u
        byPubKey := index
        keyImages := c
        clsagRecentOutputs := r } := ⟨c, r, rfl, hc, hr⟩
  exact hadded.trackCLSAGRecent _ _

theorem act (h : s.Alike t) (height : Nat) (a : SetAction) :
    (s.act height a).Alike (t.act height a) := by
  cases a with
  | mark ki =>
    obtain ⟨c, r, rfl, hc, hr⟩ := h
    refine ⟨c.insert ki, r, rfl, fun ki' => Bool.eq_iff_iff.mpr ?_, hr⟩
    show (c.insert ki).contains ki' = true ↔ (s.keyImages.insert ki).contains ki' = true
    rw [contains_insert, contains_insert, hc]
  | take commit ms =>
    obtain ⟨c, r, rfl, hc, hr⟩ := h
    unfold UTXOSet.act
    dsimp only
    rw [findMember_congr (s := s) (t := { s with keyImages := c, clsagRecentOutputs := r }) rfl]
    split
    · exact ⟨c, r, rfl, hc, hr⟩
    · exact ⟨c, r, rfl, hc, hr⟩
  | create u => exact h.addOutput height u

theorem restore (h : s.Alike t) (e : RollbackEntry) : (s.restore e).Alike (t.restore e) := by
  obtain ⟨c, r, rfl, hc, hr⟩ := h
  exact ⟨c, r, rfl, hc, hr⟩

theorem undo (h : s.Alike t) (R : List Point32) (a : SetAction) :
    (s.undo R a).Alike (t.undo R a) := by
  obtain ⟨c, r, rfl, hc, hr⟩ := h
  cases a with
  | mark ki =>
    refine ⟨c.remove ki, r, rfl, fun ki' => Bool.eq_iff_iff.mpr ?_, hr⟩
    show (c.remove ki).contains ki' = true ↔ (s.keyImages.remove ki).contains ki' = true
    rw [contains_remove, contains_remove, hc]
  | take commit ms =>
    unfold UTXOSet.undo
    dsimp only
    rw [findPooled_congr (t := { s with keyImages := c, clsagRecentOutputs := r }) (s := s) rfl]
    split
    · exact ⟨c, r, rfl, hc, hr⟩
    · exact ⟨c, r, rfl, hc, hr⟩
  | create u => exact ⟨c, r, rfl, hc, hr⟩

theorem applyTxs (h : s.Alike t) (b : Block) : (s.applyTxs C b).Alike (t.applyTxs C b) := by
  rw [applyTxs_eq_actions, applyTxs_eq_actions]
  exact foldl_rel h fun a _ _ _ h => h.act _ a

theorem rollbackBlock (h : s.Alike t) (b : Block) :
    (s.rollbackBlock C b).Alike (t.rollbackBlock C b) := by
  have hjournal : t.rollbackJournal = s.rollbackJournal := by
    obtain ⟨c, r, rfl, -⟩ := h
    rfl
  have hrestored : (s.restoreJournal b.header.height).Alike (t.restoreJournal b.header.height) := by
    have hall := foldl_rel (l := (s.rollbackJournal.get b.header.height).getD []) h
      fun e _ _ _ h => h.restore e
    unfold restoreJournal
    rw [hjournal]
    obtain ⟨c, r, heq, hc, hr⟩ := hall
    rw [heq]
    exact ⟨c, r, rfl, hc, hr⟩
  rw [rollbackBlock_eq_undos, rollbackBlock_eq_undos]
  unfold journalMembers
  rw [hjournal]
  exact foldl_rel hrestored fun a _ _ _ h => h.undo _ a

theorem checkBlockInputs_eq (h : s.Alike t) (b : Block) :
    t.checkBlockInputs C b = s.checkBlockInputs C b := by
  obtain ⟨c, r, rfl, hc, -⟩ := h
  have hinput : checkInput C { s with keyImages := c, clsagRecentOutputs := r } =
      s.checkInput C := by
    unfold checkInput
    simp only [hc]
    rfl
  have htx : checkTx C { s with keyImages := c, clsagRecentOutputs := r } =
      s.checkTx C := by
    unfold checkTx checkStakeKeyImage
    simp only [hc, hinput]
  unfold checkBlockInputs
  rw [htx]

theorem update {r r' : Result UTXOSet} (h : s.Alike t)
    (hr : (∃ e, r = .error e ∧ r' = .error e) ∨ ∃ s' t', r = .ok s' ∧ r' = .ok t' ∧ s'.Alike t') :
    (s.update r).1.Alike (t.update r').1 ∧ (t.update r').2 = (s.update r).2 := by
  rcases hr with ⟨e, rfl, rfl⟩ | ⟨s', t', rfl, rfl, h'⟩
  · exact ⟨h, rfl⟩
  · exact ⟨h', rfl⟩

theorem call (h : s.Alike t) (c : UTXOCall) :
    (s.call C c).1.Alike (t.call C c).1 ∧ (t.call C c).2 = (s.call C c).2 := by
  cases c with
  | get k | getByPubKey pub | isStaked k =>
    refine ⟨h, ?_⟩
    obtain ⟨c, r, rfl, -⟩ := h
    rfl
  | getRingMember pub =>
    refine ⟨h, ?_⟩
    obtain ⟨c, r, rfl, -⟩ := h
    rfl
  | isSpent ki =>
    refine ⟨h, ?_⟩
    obtain ⟨c, r, rfl, hc, -⟩ := h
    exact congrArg UTXOReply.flag (hc _)
  | add u => exact ⟨h.addOutput _ u, rfl⟩
  | remove k => exact ⟨h.evict k, rfl⟩
  | markSpent ki => exact ⟨h.act 0 (.mark _), rfl⟩
  | rollbackBlock b => exact ⟨h.rollbackBlock b, rfl⟩
  | unmarkStaked k =>
    refine ⟨?_, rfl⟩
    obtain ⟨c, r, rfl, hc, hr⟩ := h
    show (s.unmarkStaked k).Alike (unmarkStaked _ k)
    unfold unmarkStaked
    dsimp only
    split
    · exact ⟨c, r, rfl, hc, hr⟩
    · exact ⟨c, r, rfl, hc, hr⟩
  | markStaked k =>
    refine h.update ?_
    obtain ⟨c, r, rfl, hc, hr⟩ := h
    unfold markStaked
    cases failIf (s.stakedUTXOs.has k)
        s!"UTXO {hex8 k.txHash}:{k.outputIndex} already staked" with
    | error e => exact .inl ⟨e, rfl, rfl⟩
    | ok _ =>
      cases s.utxos.get k with
      | none => exact .inl ⟨_, rfl, rfl⟩
      | some u => exact .inr ⟨_, _, rfl, rfl, c, r, rfl, hc, hr⟩
  | applyBlock b =>
    refine h.update ?_
    unfold applyBlock
    rw [h.checkBlockInputs_eq]
    cases s.checkBlockInputs C b with
    | error e => exact .inl ⟨e, rfl, rfl⟩
    | ok _ => exact .inr ⟨_, _, rfl, rfl, h.applyTxs b⟩

theorem replies (h : s.Alike t) (later : List UTXOCall) :
    t.replies C later = s.replies C later := by
  induction later generalizing s t with
  | nil => rfl
  | cons c later ih =>
    obtain ⟨halike, hreply⟩ := h.call c
    unfold replies
    rw [hreply, ih halike]

end UTXOSet.Alike

/-! ### Restoring -/

/-- The index by one-time key has exactly the active outputs that are not locked. -/
def UTXOSet.FullyIndexed (s : UTXOSet) : Prop :=
  ∀ m u, s.byPubKey.get m = some u ↔ s.utxos.get u.key = some u ∧ u.Under m

theorem UTXOSet.Kept.coherent (hs : s.Kept) (hindexed : s.FullyIndexed) : s.Coherent where
  keyed := hs.keyed
  stakedKeyed k u hget := (hs.staked k u hget).1
  indexed k u hget hlocked := (hindexed _ u).mpr ⟨by rw [hs.keyed k u hget, hget], rfl, hlocked⟩
  listed m u hget := (hindexed m u).mp hget

theorem KeyImageSet.flushed_contains (c : KeyImageSet) (ki : KeyImage) :
    c.flushed.contains ki = c.contains ki := by
  rw [Bool.eq_iff_iff, contains_iff, contains_iff]
  show ki ∈ (∅ : Finset KeyImage) ∨ ki ∈ c.recent ∪ c.older ↔ _
  simp

/-- Appending entry by entry gives every height its entries, in their order. -/
theorem get_foldl_journalAppend (l : List (Nat × RollbackEntry))
    (j : GoMap Nat (List RollbackEntry)) (h : Nat) : ((l.foldl journalAppend j).get h).getD [] =
      (j.get h).getD [] ++ (l.filter (·.1 = h)).map Prod.snd := by
  induction l generalizing j with
  | nil => simp
  | cons e l ih =>
    rw [foldl_cons, ih]
    unfold journalAppend
    rw [GoMap.get_set, filter_cons]
    by_cases heq : h = e.1
    · simp [heq]
    · rw [if_neg heq, if_neg (by simpa using Ne.symm heq)]

theorem foldl_journalAppend_eq_none :
    (l.foldl journalAppend j).get h = none ↔ j.get h = none ∧ ∀ e ∈ l, e.1 ≠ h := by
  induction l generalizing j with
  | nil => simp
  | cons e l ih =>
    rw [foldl_cons, ih]
    unfold journalAppend
    rw [GoMap.get_set]
    by_cases heq : h = e.1
    · simp [heq]
    · rw [if_neg heq, forall_mem_cons]
      tauto

theorem flatMap_of_key {α : Type} {order : List (Nat × List α)} {es : List α}
    (hnodup : (order.map Prod.fst).Nodup) (hmem : (h, es) ∈ order) :
    (order.flatMap fun x => if x.1 = h then x.2 else []) = es := by
  induction order with
  | nil => cases hmem
  | cons x order ih =>
    rw [map_cons, nodup_cons] at hnodup
    rw [flatMap_cons]
    rcases mem_cons.mp hmem with rfl | hmem
    · have hrest : (order.flatMap fun x => if x.1 = h then x.2 else []) = [] := by
        rw [flatMap_eq_nil_iff]
        intro x hx
        exact if_neg fun heq => hnodup.1 (mem_map.mpr ⟨x, hx, heq⟩)
      rw [hrest, if_pos rfl, append_nil]
    · have hne : x.1 ≠ h := fun heq => hnodup.1 (mem_map.mpr ⟨(h, es), hmem, heq.symm⟩)
      rw [if_neg hne, nil_append, ih hnodup.2 hmem]

theorem journal_restored (hs : s.Kept)
    (h : ∃ order ∈ s.rollbackJournal.enumerations,
      l = order.flatMap fun (height, entries) => entries.map (height, ·)) :
    (l.filter (!·.2.2.protocolLocked)).foldl journalAppend ∅ = s.rollbackJournal := by
  obtain ⟨order, horder, rfl⟩ := h
  set l := order.flatMap fun (height, entries) => entries.map (height, ·) with hl
  have hmem : ∀ e, e ∈ l ↔ ∃ es, s.rollbackJournal.get e.1 = some es ∧ e.2 ∈ es := by
    rintro ⟨height, e⟩
    rw [mem_flatMap]
    constructor
    · rintro ⟨⟨height', es⟩, hes, he⟩
      obtain ⟨e', he', heq⟩ := mem_map.mp he
      cases heq
      exact ⟨es, (horder.2 _ es).mp hes, he'⟩
    · rintro ⟨es, hes, he⟩
      exact ⟨(height, es), (horder.2 _ es).mpr hes, mem_map.mpr ⟨e, he, rfl⟩⟩
  have hall : l.filter (!·.2.2.protocolLocked) = l := by
    rw [filter_eq_self]
    intro e he
    obtain ⟨es, hes, he⟩ := (hmem e).mp he
    rw [((hs.journal _ es hes).2 _ he).2]
    rfl
  rw [hall]
  ext height : 1
  have hentries : ((l.foldl journalAppend ∅).get height).getD [] =
      order.flatMap fun x => if x.1 = height then x.2 else [] := by
    rw [get_foldl_journalAppend, GoMap.get_empty, Option.getD_none, nil_append, filter_flatMap,
      map_flatMap]
    congr 1
    funext ⟨height', es⟩
    by_cases heq : height' = height
    · simp [heq, filter_map, Function.comp_def]
    · simp [heq, filter_map, Function.comp_def]
  cases hget : s.rollbackJournal.get height with
  | none =>
    rw [foldl_journalAppend_eq_none]
    refine ⟨GoMap.get_empty _, fun e he heq => ?_⟩
    obtain ⟨es, hes, -⟩ := (hmem e).mp he
    rw [heq, hget] at hes
    cases hes
  | some es =>
    obtain ⟨hne, -⟩ := hs.journal height es hget
    rw [flatMap_of_key horder.1 ((horder.2 height es).mpr hget)] at hentries
    cases hnew : (l.foldl journalAppend ∅).get height with
    | none =>
      rw [hnew] at hentries
      exact absurd hentries.symm hne
    | some es' =>
      rw [hnew] at hentries
      exact congrArg some hentries

theorem UTXOSet.Alike.reopen {snap : UTXOSnapshot} (hs : s.Kept) (hindexed : s.FullyIndexed)
    (hrecent : s.clsagActivationHeight = 0 ∨ s.clsagRecentOutputs = []) (hsnap : snap.Of s) :
    s.Alike (s.reopen snap) := by
  have hcoherent := hs.coherent hindexed
  have hdecoys : snap.spentDecoys.filter (!·.protocolLocked) = snap.spentDecoys := by
    rw [filter_eq_self]
    intro u hu
    obtain ⟨m, hm⟩ := (mem_of_ranges hsnap.decoys).mp hu
    rw [(hs.decoys m u hm).2]
    rfl
  refine ⟨s.keyImages.flushed, [], ?_, flushed_contains _,
    hrecent.imp_right Eq.symm⟩
  unfold UTXOSet.reopen restoreFromSnapshot newUTXOSet
  rw [index_of_ranges hsnap.active hs.keyed, index_byPubKey hcoherent hsnap.active,
    index_of_ranges hsnap.staked hcoherent.stakedKeyed, hdecoys,
    index_of_ranges hsnap.decoys fun m u hm => (hs.decoys m u hm).1,
    journal_restored hs hsnap.journal]

/-! ### Telling the sets apart -/

theorem exists_snapshot {order : List (UTXOKey × UTXO)} (horder : order ∈ s.utxos.enumerations) :
    ∃ snap : UTXOSnapshot, snap.Of s ∧ snap.activeUTXOs = order.map Prod.snd := by
  obtain ⟨staked, hstaked⟩ := s.stakedUTXOs.exists_enumeration
  obtain ⟨decoys, hdecoys⟩ := s.spentPubKeys.exists_enumeration
  obtain ⟨journal, hjournal⟩ := s.rollbackJournal.exists_enumeration
  exact ⟨⟨_, staked.map Prod.snd, decoys.map Prod.snd, _⟩, ⟨⟨order, horder, rfl⟩,
    ⟨staked, hstaked, rfl⟩, ⟨decoys, hdecoys, rfl⟩, ⟨journal, hjournal, rfl⟩⟩, rfl⟩

theorem UTXOSet.Kept.indexed_of_lookups (hs : s.Kept)
    (h : ∀ snap : UTXOSnapshot, snap.Of s →
      ∀ m, (s.reopen snap).byPubKey.get m = s.byPubKey.get m) :
    s.FullyIndexed := by
  obtain ⟨order, horder⟩ := s.utxos.exists_enumeration
  intro m u
  constructor
  · intro hget
    obtain ⟨snap, hsnap, hactive⟩ := exists_snapshot horder
    rw [← h snap hsnap m] at hget
    have hlist : (GoMap.index UTXO.oneTimePub
        (snap.activeUTXOs.filter (!·.protocolLocked)) ∅).get m = some u := hget
    obtain hnone | ⟨u, hmem, -, rfl⟩ := GoMap.get_foldl_set_some hlist
    · cases (GoMap.get_empty m).symm.trans hnone
    obtain ⟨k, hk⟩ := (mem_of_ranges hsnap.active).mp (mem_of_mem_filter hmem)
    rw [h snap hsnap m] at hget
    refine ⟨?_, hs.indexed m u hget⟩
    rw [hs.keyed k u hk, hk]
  · rintro ⟨hget, hu⟩
    -- in some order of the snapshot the output comes last, and the last one is indexed
    have hmem : (u.key, u) ∈ order := (horder.2 _ _).mpr hget
    have hlast : order.erase (u.key, u) ++ [(u.key, u)] ∈ s.utxos.enumerations :=
      mem_enumerations_of_perm horder
        ((perm_append_singleton _ _).trans (perm_cons_erase hmem).symm)
    obtain ⟨snap, hsnap, hactive⟩ := exists_snapshot hlast
    rw [← h snap hsnap m]
    show (GoMap.index UTXO.oneTimePub (snap.activeUTXOs.filter (!·.protocolLocked)) ∅).get m = _
    rw [hactive, map_append, map_singleton, filter_append]
    unfold GoMap.index
    rw [filter_singleton, hu.2]
    simp [hu.1]

theorem addOutput_of_room (h : s.Tracks height u)
    (hroom : s.clsagRecentOutputs.length + 1 ≤ maxCLSAGRecentOutputs) :
    s.addOutput height u = { s with
      utxos := s.utxos.set u.key u
      byPubKey := s.byPubKey.set u.oneTimePub u
      clsagRecentOutputs := s.clsagRecentOutputs ++ [u.key] } := by
  obtain ⟨hlocked, hactive, hheight⟩ := h
  have hlen : (s.clsagRecentOutputs ++ [u.key]).length ≤ maxCLSAGRecentOutputs := by
    rw [length_append]
    exact hroom
  unfold addOutput UTXOSet.trackCLSAGRecent
  dsimp only
  rw [get_set_self, Option.any_some, hlocked, if_neg Bool.false_ne_true,
    if_neg Bool.false_ne_true, if_neg (by omega), if_pos hlen]

/-- Tracked outputs with room in the list: they are appended, and active outputs stay active. -/
theorem foldl_addOutput_of_room {us : List UTXO} (h : ∀ u ∈ us, s.Tracks height u)
    (hroom : s.clsagRecentOutputs.length + us.length ≤ maxCLSAGRecentOutputs) :
    (us.foldl (addOutput height) s).clsagRecentOutputs =
        s.clsagRecentOutputs ++ us.map UTXO.key ∧
      (us.foldl (addOutput height) s).clsagActivationHeight = s.clsagActivationHeight ∧
      ∀ k, s.utxos.has k = true →
        (us.foldl (addOutput height) s).utxos.has k = true := by
  induction us generalizing s with
  | nil => exact ⟨(append_nil _).symm, rfl, fun _ hk => hk⟩
  | cons u us ih =>
    rw [length_cons] at hroom
    have hone := addOutput_of_room (h u mem_cons_self) (by omega)
    rw [foldl_cons, hone]
    have hrest := ih (s := { s with
        utxos := s.utxos.set u.key u
        byPubKey := s.byPubKey.set u.oneTimePub u
        clsagRecentOutputs := s.clsagRecentOutputs ++ [u.key] })
      (fun v hv => h v (mem_cons_of_mem _ hv))
      (by rw [length_append, length_singleton]; omega)
    refine ⟨?_, hrest.2.1, fun k hk => hrest.2.2 k (has_set_eq_true.mpr (.inr hk))⟩
    rw [hrest.1, map_cons, append_assoc, singleton_append]

theorem addOutput_of_full (h : s.Tracks height u) (hfull : s.clsagRecentOutputs = k :: rest)
    (hlen : rest.length + 1 = maxCLSAGRecentOutputs) :
    (s.addOutput height u).utxos.get k = none := by
  obtain ⟨hlocked, hactive, hheight⟩ := h
  have hover : ¬ (k :: rest ++ [u.key]).length ≤ maxCLSAGRecentOutputs := by
    rw [length_append, length_cons, length_singleton]
    omega
  unfold addOutput UTXOSet.trackCLSAGRecent
  dsimp only
  rw [get_set_self, Option.any_some, hlocked, if_neg Bool.false_ne_true, if_neg (by omega),
    hfull, if_neg hover]
  unfold UTXOSet.evict
  split
  · assumption
  · exact get_del_self _ _

/-- A coinbase transaction with many outputs. -/
def manyOutputs (n : Nat) : Transaction where
  version := .base
  outputs := replicate n { oneTimePub := 0, amountCommit := 0 }

/-- The block of such a transaction. -/
def fillBlock (height n : Nat) : Block := ⟨{ height }, [manyOutputs n]⟩

theorem applyBlock_fillBlock (height n : Nat) : s.applyBlock C (fillBlock height n) =
    .ok (((manyOutputs n).utxos C height).foldl (addOutput height) s) := rfl

theorem tracks_manyOutputs {n : Nat} (hactive : s.clsagActivationHeight ≠ 0) :
    ∀ u ∈ (manyOutputs n).utxos C s.clsagActivationHeight,
      s.Tracks s.clsagActivationHeight u := by
  intro u hu
  obtain ⟨⟨out, i⟩, -, rfl⟩ := mem_map.mp hu
  exact ⟨rfl, hactive, le_rfl⟩

/-- Make the outpoint active, fill the list of recent outputs and look the outpoint up. -/
def pushOut (height : Nat) (k : UTXOKey) (n : Nat) : List UTXOCall :=
  [.add ⟨k.txHash, k.outputIndex, 0, 0, 0, 0, 0, false⟩, .applyBlock (fillBlock height n), .get k]

/-- The last reply is what the filled set has under the outpoint. -/
theorem replies_pushOut (hactive : s.clsagActivationHeight ≠ 0) (k : UTXOKey) (n : Nat) :
    ∃ s1 : UTXOSet, s1.clsagActivationHeight = s.clsagActivationHeight ∧
      s1.clsagRecentOutputs = s.clsagRecentOutputs ∧ s1.utxos.has k = true ∧
      s.replies C (pushOut s.clsagActivationHeight k n) =
        [.done (.ok ()), .done (.ok ()),
          .output ((((manyOutputs n).utxos C s.clsagActivationHeight).foldl
            (addOutput s.clsagActivationHeight) s1).utxos.get k)] := by
  set u : UTXO := ⟨k.txHash, k.outputIndex, 0, 0, 0, 0, 0, false⟩ with hu
  have huntracked : ¬ s.Tracks 0 u := fun ⟨_, _, hle⟩ => hactive (Nat.le_zero.mp hle)
  have hadd := addOutput_of_untracked huntracked
  refine ⟨s.addOutput 0 u, ?_, ?_, ?_, rfl⟩
  · rw [hadd]
  · rw [hadd]
  · rw [hadd]
    exact has_set_eq_true.mpr (.inl rfl)

/-- New outputs push out of the set an output that a set without the list keeps. -/
theorem pushed_out (hactive : s.clsagActivationHeight ≠ 0)
    (hrecent : s.clsagRecentOutputs = k :: rest)
    (hlen : s.clsagRecentOutputs.length ≤ maxCLSAGRecentOutputs)
    (hsame : t.clsagActivationHeight = s.clsagActivationHeight)
    (hfresh : t.clsagRecentOutputs = []) :
    t.replies C (pushOut s.clsagActivationHeight k (maxCLSAGRecentOutputs - rest.length)) ≠
      s.replies C (pushOut s.clsagActivationHeight k (maxCLSAGRecentOutputs - rest.length)) := by
  rw [hrecent, length_cons] at hlen
  obtain ⟨m, hm⟩ : ∃ m, maxCLSAGRecentOutputs - rest.length = m + 1 :=
    ⟨maxCLSAGRecentOutputs - rest.length - 1, by omega⟩
  rw [hm]
  obtain ⟨s1, hact, hrec, -, hs⟩ := replies_pushOut hactive k (m + 1)
  obtain ⟨t1, htact, htrec, hthas, ht⟩ :=
    replies_pushOut (by rw [hsame]; exact hactive) k (m + 1)
  set us := (manyOutputs (m + 1)).utxos C s.clsagActivationHeight with hus
  have huslen : us.length = m + 1 := by
    rw [hus]
    simp [Transaction.utxos, manyOutputs]
  -- the restored set has room for all of them
  have hkept : (us.foldl (addOutput s.clsagActivationHeight) t1).utxos.has k = true := by
    refine (foldl_addOutput_of_room (fun u hu => ?_) ?_).2.2 k hthas
    · obtain ⟨hlocked, hne, hle⟩ := tracks_manyOutputs hactive u hu
      exact ⟨hlocked, by rw [htact, hsame]; exact hne, by rw [htact, hsame]⟩
    · rw [htrec, hfresh, huslen, length_nil]
      omega
  -- in the other one all but the last fill the list, and the last evicts its head
  have hgone : (us.foldl (addOutput s.clsagActivationHeight) s1).utxos.get k = none := by
    have hne : us ≠ [] := ne_nil_of_length_eq_add_one huslen
    have htracks : ∀ u ∈ us, s1.Tracks s.clsagActivationHeight u := by
      intro u hu
      obtain ⟨hlocked, hne, hle⟩ := tracks_manyOutputs hactive u hu
      exact ⟨hlocked, by rw [hact]; exact hne, by rw [hact]⟩
    rw [← dropLast_concat_getLast hne, foldl_append]
    have hroom : s1.clsagRecentOutputs.length + us.dropLast.length ≤ maxCLSAGRecentOutputs := by
      rw [hrec, hrecent, length_cons, length_dropLast]
      omega
    obtain ⟨hlist, hheight, -⟩ := foldl_addOutput_of_room
      (fun u hu => htracks u (mem_of_mem_dropLast hu)) hroom
    refine addOutput_of_full ?_ (?_ : _ = k :: (rest ++ us.dropLast.map UTXO.key)) ?_
    · obtain ⟨hlocked, hne', hle⟩ := htracks _ (getLast_mem hne)
      exact ⟨hlocked, by rw [hheight]; exact hne', by rw [hheight]; exact hle⟩
    · rw [hlist, hrec, hrecent, cons_append]
    · rw [length_append, length_map, length_dropLast, huslen]
      omega
  rw [hs, hgone]
  rw [hsame] at ht
  rw [ht]
  intro heq
  have hget := (UTXOReply.output.inj (cons.inj (cons.inj (cons.inj heq).2).2).1)
  rw [has_eq_true] at hkept
  obtain ⟨v, hv⟩ := hkept
  rw [hget] at hv
  cases hv

/-! ### The round trip -/

/-- **The snapshot round trip.**  From every set in use, all snapshots lead to sets that reply to
all later calls as the set itself does, exactly if the index by one-time key is complete and exact,
and no recent output is tracked. -/
theorem snapshot_round_trip_iff {keyImages : KeyImageSet} {ringMembers : Option RingMemberStore}
    {height : Nat} {calls : List UTXOCall}
    (hrun : Run (UTXOSet.Step C) (newUTXOSet keyImages ringMembers height) calls s) :
    (∀ snap : UTXOSnapshot, snap.Of s →
        ∀ later, (s.reopen snap).replies C later = s.replies C later) ↔
      s.FullyIndexed ∧ (s.clsagActivationHeight = 0 ∨ s.clsagRecentOutputs = []) := by
  have hs : s.Kept := hrun.invariant UTXOSet.Kept (fun _ _ _ _ hs hstep => hs.step hstep)
    (.new keyImages ringMembers height)
  constructor
  · intro h
    refine ⟨hs.indexed_of_lookups fun snap hsnap m => ?_, ?_⟩
    · have hreply := h snap hsnap [.getByPubKey m]
      exact UTXOReply.output.inj (cons.inj hreply).1
    · by_contra hnot
      rw [not_or] at hnot
      obtain ⟨hactive, hne⟩ := hnot
      obtain ⟨k, rest, hrecent⟩ := exists_cons_of_ne_nil hne
      obtain ⟨order, horder⟩ := s.utxos.exists_enumeration
      obtain ⟨snap, hsnap, -⟩ := exists_snapshot horder
      have hdiff : (s.reopen snap).replies C _ ≠ _ :=
        pushed_out hactive hrecent hs.recent rfl rfl
      exact hdiff (h snap hsnap _)
  · rintro ⟨hindexed, hrecent⟩ snap hsnap later
    exact (UTXOSet.Alike.reopen hs hindexed hrecent hsnap).replies later

def oneOutput : UTXO where
  txHash := 1
  outputIndex := 0
  oneTimePub := 7
  amountCommit := 3
  blockHeight := 2

/-- Before CLSAG a set with one output comes back from its snapshots. -/
theorem one_output_round_trip : ∃ s,
    Run (UTXOSet.Step transparent) (newUTXOSet {} none 0) [.add oneOutput] s ∧
      s.getByPubKey 7 = some oneOutput ∧ ∀ snap : UTXOSnapshot, snap.Of s →
        ∀ later, (s.reopen snap).replies transparent later = s.replies transparent later := by
  set s := (newUTXOSet {} none 0).add oneOutput with hs
  have hadd : s = { newUTXOSet {} none 0 with
      utxos := set ∅ oneOutput.key oneOutput
      byPubKey := set ∅ oneOutput.oneTimePub oneOutput } :=
    addOutput_of_untracked fun h => h.2.1 rfl
  have hrun : Run (UTXOSet.Step transparent) (newUTXOSet {} none 0) [.add oneOutput] s :=
    .cons ⟨trivial, rfl⟩ (.nil _)
  have hindexed : s.FullyIndexed := by
    intro m u
    show (set ∅ oneOutput.oneTimePub oneOutput).get m = some u ↔
      (set ∅ oneOutput.key oneOutput).get u.key = some u ∧ u.Under m
    rw [GoMap.get_set, GoMap.get_set, GoMap.get_empty, GoMap.get_empty]
    constructor
    · intro hget
      split_ifs at hget with hm
      cases hget
      exact ⟨if_pos rfl, hm.symm, rfl⟩
    · rintro ⟨hget, rfl, -⟩
      split_ifs at hget
      cases hget
      exact if_pos rfl
  refine ⟨s, hrun, ?_, (snapshot_round_trip_iff hrun).mpr ⟨hindexed, .inl ?_⟩⟩
  · rw [hadd]
    exact get_set_self _ _ _
  · rw [hadd]
    rfl

/-- After the first CLSAG output a restored set keeps what the set itself evicts. -/
theorem restored_set_keeps_evicted : ∃ (s : UTXOSet) (snap : UTXOSnapshot) (later : List UTXOCall),
    Run (UTXOSet.Step transparent) (newUTXOSet {} none 1) [.applyBlock (fillBlock 1 1)] s ∧
      snap.Of s ∧ (s.reopen snap).replies transparent later ≠ s.replies transparent later := by
  obtain ⟨u, hu⟩ : ∃ u, (manyOutputs 1).utxos transparent 1 = [u] := ⟨_, rfl⟩
  have htracks : (newUTXOSet {} none 1).Tracks 1 u :=
    tracks_manyOutputs (by decide) u (hu ▸ mem_singleton_self u)
  have hadd := addOutput_of_room htracks (by decide)
  set s := (newUTXOSet {} none 1).addOutput 1 u with hs
  have hrun : Run (UTXOSet.Step transparent) (newUTXOSet {} none 1)
      [.applyBlock (fillBlock 1 1)] s := by
    have hcall : ((newUTXOSet {} none 1).call transparent (.applyBlock (fillBlock 1 1))).1 = s := by
      unfold call
      dsimp only
      rw [applyBlock_fillBlock, hu]
      rfl
    exact .cons ⟨trivial, hcall⟩ (.nil _)
  obtain ⟨order, horder⟩ := s.utxos.exists_enumeration
  obtain ⟨snap, hsnap, -⟩ := exists_snapshot horder
  have hactive : s.clsagActivationHeight ≠ 0 := by
    rw [hadd]
    exact one_ne_zero
  have hlist : s.clsagRecentOutputs = u.key :: [] := by
    rw [hadd]
    rfl
  have hlen : s.clsagRecentOutputs.length ≤ maxCLSAGRecentOutputs := by
    rw [hlist]
    exact Nat.succ_le_succ (Nat.zero_le _)
  exact ⟨s, snap, _, hrun, hsnap, pushed_out hactive hlist hlen rfl rfl⟩

end Aperod
