import Aperod.Consensus.Equiv.Finality
import Mathlib.Data.List.Range

/-!
# Does the order of votes matter?

Blocks arrive in height order, votes at any time from two heights before their block on.  A vote that
is early is staged and replayed when its block arrives, so the node ends with the same tally whatever
the interleaving was.  There is one exception: the store keeps certificates in height order, so a
quorum that completes below a stored certificate does not finalize its block.
-/

namespace Aperod

open Go GoMap Chain Finality List

variable {C : Externals}
variable {m : Nat} {b : Block} {h : Hash32} {s : VoteNode} {blocks : List Block}
  {v vote : FinalizeMsg} {pub : ValidatorPubKey} {votes : List FinalizeMsg}

/-! ### Pruning -/

namespace Finality

variable {f f' f0 : Finality} {x : VoteContext} {n : Nat}

/-- The records of the heights from `n` on. -/
def pruneTo (f : Finality) (n : Nat) : Finality :=
  { f with
    votes := f.votes.filter fun bh _ => !(f.pendingVoteHeight.get bh).any (· < n)
    pendingVoteHeight := f.pendingVoteHeight.filter fun _ ht => ¬ ht < n
    lpodFinalizedHashes := f.lpodFinalizedHashes.filter fun h _ => ¬ (h ∈ f.finalized ∧ h < n)
    finalized := f.finalized.filter fun h => ¬ h < n }

theorem pruneTo_votes (f : Finality) (n : Nat) (h : Hash32) : (f.pruneTo n).votes.get h =
    (f.votes.get h).filter fun _ => !(f.pendingVoteHeight.get h).any (· < n) :=
  get_filter ..

theorem pruneTo_pending (f : Finality) (n : Nat) (h : Hash32) :
    (f.pruneTo n).pendingVoteHeight.get h = (f.pendingVoteHeight.get h).filter (¬ · < n) :=
  get_filter ..

theorem mem_pruneTo_finalized :
    m ∈ (f.pruneTo n).finalized ↔ m ∈ f.finalized ∧ n ≤ m := by
  show m ∈ f.finalized.filter _ ↔ _
  rw [Finset.mem_filter, Nat.not_lt]

theorem pruneTo_zero (f : Finality) : f.pruneTo 0 = f := by
  unfold pruneTo
  rw [filter_eq_self (by simp), filter_eq_self (by simp),
    filter_eq_self (by simp), Finset.filter_true_of_mem (by simp)]

theorem prune_eq (f : Finality) (vote : FinalizeMsg) :
    f.prune vote = f.pruneTo (vote.height - votePruneDepth) := by
  unfold prune
  split_ifs with hhigh
  · rfl
  · rw [Nat.sub_eq_zero_of_le (Nat.not_lt.mp hhigh), pruneTo_zero]

theorem pruneTo_keeps (hpending : ∀ ht, f.pendingVoteHeight.get h = some ht → n ≤ ht) :
    (f.pruneTo n).votes.get h = f.votes.get h ∧
      (f.pruneTo n).pendingVoteHeight.get h = f.pendingVoteHeight.get h := by
  rw [pruneTo_votes, pruneTo_pending]
  cases hget : f.pendingVoteHeight.get h with
  | none =>
    constructor
    · cases f.votes.get h <;> simp
    · rfl
  | some ht =>
    have hle : ¬ ht < n := Nat.not_lt.mpr (hpending ht hget)
    constructor
    · cases f.votes.get h <;> simp [hle]
    · rw [Option.filter_some_pos (by simpa using hle)]

theorem pruneTo_pruneTo (hvotes : f.votes.get h = (f0.pruneTo m).votes.get h)
    (hpending : f.pendingVoteHeight.get h = (f0.pruneTo m).pendingVoteHeight.get h) :
    (f.pruneTo n).votes.get h = (f0.pruneTo (max m n)).votes.get h ∧
      (f.pruneTo n).pendingVoteHeight.get h = (f0.pruneTo (max m n)).pendingVoteHeight.get h := by
  simp only [pruneTo_votes, pruneTo_pending, hvotes, hpending]
  cases f0.pendingVoteHeight.get h with
  | none => cases f0.votes.get h <;> simp
  | some ht =>
    by_cases hm : ht < m
    · cases f0.votes.get h <;> simp [hm]
    · by_cases hn : ht < n
      · cases f0.votes.get h <;> simp [hm, hn]
      · cases f0.votes.get h <;> simp [hm, hn]

theorem votesFor_congr {g : Finality} (h : Hash32) (hget : f.votes.get h = g.votes.get h) :
    f.votesFor h = g.votesFor h := by
  unfold votesFor
  rw [hget]

/-! ### One counted vote -/

theorem handleVote_of_block (hcheck : x.checkVote C vote = .ok ())
    (hblock : x.chain.getByHeight vote.height = some b) (hheight : b.header.height = vote.height)
    (hhash : b.hash C = vote.blockHash) :
    (f.handleVote C x vote).2 = if vote.height ∈ f.finalized then f else (f.countVote x vote).2 := by
  have hnames : ¬ (b.header.height ≠ vote.height ∨ b.hash C ≠ vote.blockHash) := by
    rintro (hne | hne)
    · exact hne hheight
    · exact hne hhash
  unfold handleVote
  rw [hcheck, hblock]
  dsimp only
  split_ifs <;> rfl

/-- The quorum branch, on a store that takes the certificate. -/
theorem finalize_of_store (hlen : ∀ pub ∈ (f.votesFor vote.blockHash).keys, pub.length = 32)
    (hstore : x.durable = true → f.checkCertificate
      ⟨vote.height, vote.blockHash, f.votesFor vote.blockHash⟩ = .ok ()) :
    ∃ f', f.finalize x vote = .ok f' := by
  have hkeys : ¬ ∃ pub ∈ (f.votesFor vote.blockHash).keys, pub.length ≠ 32 := by
    rintro ⟨pub, hpub, hne⟩
    exact hne (hlen pub hpub)
  unfold finalize persist saveCertificate
  rw [failIf, if_neg hkeys]
  by_cases hdurable : x.durable = true
  · rw [if_pos hdurable, hstore hdurable]
    exact ⟨_, rfl⟩
  · rw [if_neg hdurable]
    exact ⟨_, rfl⟩

theorem countVote_futureVotes (f : Finality) (x : VoteContext) (vote : FinalizeMsg) :
    (f.countVote x vote).2.futureVotes = f.futureVotes := by
  rcases countVote_cases f x vote with heq | heq | heq | ⟨-, f', hfin, heq⟩
  · rw [heq]
  · rw [heq]
    rfl
  · rw [heq, prune_eq]
    rfl
  · obtain ⟨_, _, rfl, -⟩ := finalize_eq_ok hfin
    rw [heq, prune_eq]
    rfl

theorem handleVote_of_none {tip : Block} (hcheck : x.checkVote C vote = .ok ())
    (hblock : x.chain.getByHeight vote.height = none) (htip : x.chain.tip = some tip)
    (habove : tip.header.height < vote.height)
    (hmax : tip.header.height + futureVoteWindow ≤ maxUint64)
    (hwindow : vote.height ≤ tip.header.height + futureVoteWindow)
    (hhash : x.chain.getByHash vote.blockHash = none)
    (hqueue : f.futureVotes.len < futureVoteLimit) :
    (f.handleVote C x vote).2 =
      if f.futureVotes.has ⟨vote.height, vote.blockHash, vote.validatorPub⟩ then f
      else { f with futureVotes :=
        f.futureVotes.set ⟨vote.height, vote.blockHash, vote.validatorPub⟩ vote } := by
  have hnear : ¬ (vote.height ≤ tip.header.height ∨
      tip.header.height > maxUint64 - futureVoteWindow ∨
      vote.height > tip.header.height + futureVoteWindow) := by
    omega
  unfold handleVote stageVote
  rw [hcheck, hblock]
  rw [htip]
  dsimp only
  rw [failIf, if_neg hnear, hhash, failIf]
  by_cases hhas : f.futureVotes.has ⟨vote.height, vote.blockHash, vote.validatorPub⟩ = true
  · rw [if_pos hhas, failIf, if_pos hhas]
    rfl
  · rw [if_neg hhas, failIf, if_neg hhas, failIf, if_neg (Nat.not_le.mpr hqueue)]
    rfl

end Finality

/-! ### The tally -/

/-- The height below which records are pruned once the blocks with a counted vote are known. -/
structure PruneLevel (C : Externals) (blocks : List Block)
    (counted : Hash32 → Finset ValidatorPubKey) (level : Nat) : Prop where
  bound : ∀ b ∈ blocks, (counted (b.hash C)).Nonempty → b.header.height - votePruneDepth ≤ level
  attained : level = 0 ∨ ∃ b ∈ blocks, (counted (b.hash C)).Nonempty ∧
    level = b.header.height - votePruneDepth

/-- The vote state is the one `f0` becomes when the votes of `counted` are counted for the blocks:
a block with a quorum is finalized and has no records, another one has the records of its voters, and
what was there before is pruned. -/
structure Tallied (C : Externals) (needed : Nat) (f0 : Finality) (t : Nat) (blocks : List Block)
    (counted : Hash32 → Finset ValidatorPubKey) (level : Nat) (f : Finality) : Prop where
  short : ∀ b ∈ blocks, (counted (b.hash C)).card < needed →
    b.header.height ∉ f.finalized ∧ (f.votesFor (b.hash C)).keys = counted (b.hash C)
  quorum : ∀ b ∈ blocks, needed ≤ (counted (b.hash C)).card →
    b.header.height ∈ f.finalized ∧ f.votes.get (b.hash C) = none
  pending : ∀ b ∈ blocks, ∀ ht, f.pendingVoteHeight.get (b.hash C) = some ht →
    ht = b.header.height
  older : ∀ h, (∀ b ∈ blocks, h ≠ b.hash C) →
    f.votes.get h = (f0.pruneTo level).votes.get h ∧
      f.pendingVoteHeight.get h = (f0.pruneTo level).pendingVoteHeight.get h
  olderFinalized : ∀ n ≤ t, n ∈ f.finalized ↔ n ∈ (f0.pruneTo level).finalized
  bounded : ∀ n ∈ f.finalized, n ≤ t ∨ ∃ b ∈ blocks, b.header.height = n

/-- Blocks above height `t` that differ in height and in hash. -/
structure Distinct (C : Externals) (t : Nat) (blocks : List Block) : Prop where
  above : ∀ b ∈ blocks, t < b.header.height
  near : ∀ b ∈ blocks, b.header.height - votePruneDepth ≤ t
  heights : ∀ b ∈ blocks, ∀ b' ∈ blocks, b.header.height = b'.header.height → b = b'
  hashes : ∀ b ∈ blocks, ∀ b' ∈ blocks, b.hash C = b'.hash C → b = b'

def countVoter (counted : Hash32 → Finset ValidatorPubKey) (vote : FinalizeMsg) :
    Hash32 → Finset ValidatorPubKey :=
  Function.update counted vote.blockHash (insert vote.validatorPub (counted vote.blockHash))

section Count

variable {needed t level : Nat} {counted : Hash32 → Finset ValidatorPubKey} {f f0 : Finality}
  {x : VoteContext}

theorem countVoter_self (counted : Hash32 → Finset ValidatorPubKey) (vote : FinalizeMsg) :
    countVoter counted vote vote.blockHash =
      insert vote.validatorPub (counted vote.blockHash) := by
  unfold countVoter
  rw [Function.update_self]

theorem countVoter_ne (hne : h ≠ vote.blockHash) :
    countVoter counted vote h = counted h := by
  unfold countVoter
  rw [Function.update_of_ne hne]

theorem subset_countVoter (counted : Hash32 → Finset ValidatorPubKey) (vote : FinalizeMsg)
    (h : Hash32) : counted h ⊆ countVoter counted vote h := by
  by_cases hh : h = vote.blockHash
  · rw [hh, countVoter_self]
    exact Finset.subset_insert _ _
  · rw [countVoter_ne hh]

theorem countVoter_of_mem (hmem : vote.validatorPub ∈ counted vote.blockHash) :
    countVoter counted vote = counted := by
  unfold countVoter
  rw [Finset.insert_eq_of_mem hmem, Function.update_eq_self]

theorem PruneLevel.count (hlevel : PruneLevel C blocks counted level) (hd : Distinct C t blocks)
    (hb : b ∈ blocks) (hhash : b.hash C = vote.blockHash)
    (hheight : b.header.height = vote.height) :
    PruneLevel C blocks (countVoter counted vote) (max level (vote.height - votePruneDepth)) := by
  constructor
  · intro b' hb' hne
    by_cases hh : b'.hash C = vote.blockHash
    · rw [hd.hashes b' hb' b hb (hh.trans hhash.symm), hheight]
      exact Nat.le_max_right _ _
    · rw [countVoter_ne hh] at hne
      exact (hlevel.bound b' hb' hne).trans (Nat.le_max_left _ _)
  · rcases Nat.le_total level (vote.height - votePruneDepth) with hle | hle
    · have hself : (countVoter counted vote (b.hash C)).Nonempty := by
        rw [hhash, countVoter_self]
        exact Finset.insert_nonempty _ _
      rw [max_eq_right hle, ← hheight]
      exact .inr ⟨b, hb, hself, rfl⟩
    · rw [max_eq_left hle]
      rcases hlevel.attained with hzero | ⟨b', hb', hne, heq⟩
      · exact .inl hzero
      · exact .inr ⟨b', hb', hne.mono (subset_countVoter _ _ _), heq⟩

theorem Tallied.prune {n : Nat} (hT : Tallied C needed f0 t blocks counted level f)
    (hd : Distinct C t blocks) (hn : n ≤ t) :
    Tallied C needed f0 t blocks counted (max level n) (f.pruneTo n) := by
  have hkeeps : ∀ b ∈ blocks, (f.pruneTo n).votes.get (b.hash C) = f.votes.get (b.hash C) ∧
      (f.pruneTo n).pendingVoteHeight.get (b.hash C) = f.pendingVoteHeight.get (b.hash C) := by
    intro b hb
    apply pruneTo_keeps
    intro ht hpending
    have hheight := hT.pending b hb ht hpending
    have habove := hd.above b hb
    omega
  refine ⟨fun b hb hcard => ?_, fun b hb hcard => ?_, fun b hb ht hpending => ?_, fun h hh => ?_,
    fun m hm => ?_, fun m hm => ?_⟩
  · obtain ⟨hfin, hkeys⟩ := hT.short b hb hcard
    rw [votesFor_congr _ (hkeeps b hb).1]
    exact ⟨fun hmem => hfin (mem_pruneTo_finalized.mp hmem).1, hkeys⟩
  · obtain ⟨hfin, hnone⟩ := hT.quorum b hb hcard
    rw [(hkeeps b hb).1]
    have habove := hd.above b hb
    exact ⟨mem_pruneTo_finalized.mpr ⟨hfin, by omega⟩, hnone⟩
  · rw [(hkeeps b hb).2] at hpending
    exact hT.pending b hb ht hpending
  · exact pruneTo_pruneTo (hT.older h hh).1 (hT.older h hh).2
  · rw [mem_pruneTo_finalized, hT.olderFinalized m hm, mem_pruneTo_finalized,
      mem_pruneTo_finalized, max_le_iff, and_assoc]
  · exact hT.bounded m (mem_pruneTo_finalized.mp hm).1

theorem record_get_ne (hne : h ≠ vote.blockHash) :
    (f.record vote).votes.get h = f.votes.get h ∧
      (f.record vote).pendingVoteHeight.get h = f.pendingVoteHeight.get h := by
  constructor
  · exact get_set_ne hne
  · unfold record
    split_ifs
    · rfl
    · exact get_set_ne hne

theorem close_get_ne (hne : h ≠ vote.blockHash)
    (certificate : Option FinalityCertificate) (hashes : GoMap Nat Hash32) :
    ((f.record vote).close vote certificate hashes).votes.get h = f.votes.get h ∧
      ((f.record vote).close vote certificate hashes).pendingVoteHeight.get h =
        f.pendingVoteHeight.get h := by
  rw [← (record_get_ne (f := f) hne).1, ← (record_get_ne (f := f) hne).2]
  exact ⟨get_del_ne hne, get_del_ne hne⟩

section

variable (hT : Tallied C needed f0 t blocks counted level f) (hd : Distinct C t blocks)
  (hb : b ∈ blocks) (hhash : b.hash C = vote.blockHash) (hheight : b.header.height = vote.height)
include hT hb hhash

theorem Tallied.recorded (hfin : vote.height ∉ f.finalized) (hheight : b.header.height = vote.height) :
    ((f.record vote).votesFor vote.blockHash).keys = countVoter counted vote vote.blockHash := by
  have hopen : (counted (b.hash C)).card < needed := by
    by_contra hquorum
    exact hfin (hheight ▸ (hT.quorum b hb (Nat.not_lt.mp hquorum)).1)
  rw [votesFor_record, if_pos rfl, keys_set, countVoter_self, ← hhash,
    (hT.short b hb hopen).2]

include hd hheight

/-- A vote changes the records of its block only; `f'` has what it leaves there. -/
theorem Tallied.touch {f' : Finality}
    (hget : ∀ h, h ≠ vote.blockHash → f'.votes.get h = f.votes.get h ∧
      f'.pendingVoteHeight.get h = f.pendingVoteHeight.get h)
    (hfin : ∀ n, n ≠ vote.height → (n ∈ f'.finalized ↔ n ∈ f.finalized))
    (hshort : (countVoter counted vote vote.blockHash).card < needed → vote.height ∉ f'.finalized ∧
      (f'.votesFor vote.blockHash).keys = countVoter counted vote vote.blockHash)
    (hquorum : needed ≤ (countVoter counted vote vote.blockHash).card →
      vote.height ∈ f'.finalized ∧ f'.votes.get vote.blockHash = none)
    (hpending : ∀ ht, f'.pendingVoteHeight.get vote.blockHash = some ht → ht = vote.height) :
    Tallied C needed f0 t blocks (countVoter counted vote) level f' := by
  have hself : ∀ b' ∈ blocks, b'.hash C = vote.blockHash → b' = b := fun b' hb' hh =>
    hd.hashes b' hb' b hb (hh.trans hhash.symm)
  have hne : ∀ b' ∈ blocks, b'.hash C ≠ vote.blockHash → b'.header.height ≠ vote.height := by
    intro b' hb' hh heq
    rw [hd.heights b' hb' b hb (heq.trans hheight.symm)] at hh
    exact hh hhash
  refine ⟨fun b' hb' hcard => ?_, fun b' hb' hcard => ?_, fun b' hb' ht hget' => ?_,
    fun h hh => ?_, fun n hn => ?_, fun n hn => ?_⟩
  · by_cases hh : b'.hash C = vote.blockHash
    · rw [hh] at hcard ⊢
      rw [hself b' hb' hh, hheight]
      exact hshort hcard
    · rw [countVoter_ne hh] at hcard ⊢
      rw [hfin _ (hne b' hb' hh), votesFor_congr _ (hget _ hh).1]
      exact hT.short b' hb' hcard
  · by_cases hh : b'.hash C = vote.blockHash
    · rw [hh] at hcard ⊢
      rw [hself b' hb' hh, hheight]
      exact hquorum hcard
    · rw [countVoter_ne hh] at hcard
      rw [hfin _ (hne b' hb' hh), (hget _ hh).1]
      exact hT.quorum b' hb' hcard
  · by_cases hh : b'.hash C = vote.blockHash
    · rw [hh] at hget'
      rw [hself b' hb' hh, hheight]
      exact hpending ht hget'
    · rw [(hget _ hh).2] at hget'
      exact hT.pending b' hb' ht hget'
  · have hold : h ≠ vote.blockHash := hhash ▸ hh b hb
    rw [(hget h hold).1, (hget h hold).2]
    exact hT.older h hh
  · have habove := hd.above b hb
    rw [hfin n (by omega)]
    exact hT.olderFinalized n hn
  · by_cases hvote : n = vote.height
    · exact .inr ⟨b, hb, hheight.trans hvote.symm⟩
    · exact hT.bounded n ((hfin n hvote).mp hn)

/-- Recording a new voter that does not complete a quorum. -/
theorem Tallied.record (hfin : vote.height ∉ f.finalized)
    (hshort : (countVoter counted vote vote.blockHash).card < needed) :
    Tallied C needed f0 t blocks (countVoter counted vote) level (f.record vote) := by
  refine hT.touch hd hb hhash hheight (fun _ => record_get_ne) (fun _ _ => Iff.rfl)
    (fun _ => ⟨hfin, hT.recorded hb hhash hfin hheight⟩)
    (fun hquorum => absurd hquorum (Nat.not_le.mpr hshort)) fun ht hpending => ?_
  unfold Finality.record at hpending
  split_ifs at hpending
  · rw [← hheight]
    exact hT.pending b hb ht (hhash ▸ hpending)
  · rw [get_set_self] at hpending
    exact (Option.some.inj hpending).symm

theorem Tallied.close (hquorum : needed ≤ (countVoter counted vote vote.blockHash).card)
    (certificate : Option FinalityCertificate) (hashes : GoMap Nat Hash32) :
    Tallied C needed f0 t blocks (countVoter counted vote) level
      ((f.record vote).close vote certificate hashes) := by
  have hnone : ((f.record vote).close vote certificate hashes).pendingVoteHeight.get
      vote.blockHash = none := get_del_self _ _
  refine hT.touch hd hb hhash hheight (fun _ hne => close_get_ne hne _ _) (fun n hn => ?_)
    (fun hshort => absurd hquorum (Nat.not_le.mpr hshort))
    (fun _ => ⟨Finset.mem_insert_self _ _, get_del_self _ _⟩) fun ht hpending => ?_
  · exact Finset.mem_insert.trans (or_iff_right hn)
  · rw [hnone] at hpending
    cases hpending

theorem Tallied.again (hquorum : needed ≤ (counted vote.blockHash).card) :
    Tallied C needed f0 t blocks (countVoter counted vote) level f := by
  have hle := Finset.card_le_card (subset_countVoter counted vote vote.blockHash)
  refine hT.touch hd hb hhash hheight (fun _ _ => ⟨rfl, rfl⟩) (fun _ _ => Iff.rfl)
    (fun hshort => by omega) (fun _ => ?_) fun ht hpending => ?_
  · rw [← hheight, ← hhash]
    exact hT.quorum b hb (hhash ▸ hquorum)
  · rw [← hheight]
    exact hT.pending b hb ht (hhash ▸ hpending)

end

/-- What a vote must find for its block to be finalized when it completes a quorum: no certificate of
a higher block, or another block of its height, in the store. -/
def StoreTakes (x : VoteContext) (f : Finality) (vote : FinalizeMsg) : Prop :=
  x.durable = true → vote.blockHash ≠ 0 ∧ ∀ prior, f.certificate = some prior →
    prior.height ≤ vote.height ∧ (prior.height = vote.height → prior.blockHash = vote.blockHash)

theorem StoreTakes.checkCertificate {votes : GoMap ValidatorPubKey Bytes}
    (h : StoreTakes x f vote) (hdurable : x.durable = true) (hvotes : votes.len ≠ 0) :
    f.checkCertificate ⟨vote.height, vote.blockHash, votes⟩ = .ok () := by
  obtain ⟨hzero, hprior⟩ := h hdurable
  unfold Finality.checkCertificate
  rw [failIf, if_neg (not_or.mpr ⟨hzero, hvotes⟩)]
  cases hcert : f.certificate with
  | none => rfl
  | some prior =>
    obtain ⟨hle, hsame⟩ := hprior prior hcert
    simp only [ok_bind]
    rw [failIf, if_neg (Nat.not_lt.mpr hle), failIf, if_neg]
    · rfl
    · rintro ⟨heq, hne⟩
      exact hne (hsame heq.symm).symm

/-- **Step lemma.**  One vote for a block that is on the chain. -/
theorem Tallied.count (hT : Tallied C (x.needed x.active.length) f0 t blocks counted level f)
    (hlevel : PruneLevel C blocks counted level) (hd : Distinct C t blocks) (hb : b ∈ blocks)
    (hhash : b.hash C = vote.blockHash) (hheight : b.header.height = vote.height)
    (hlen : ∀ pub ∈ countVoter counted vote vote.blockHash, pub.length = 32)
    (hpos : 0 < x.needed x.active.length)
    (hstore : x.needed x.active.length ≤ (countVoter counted vote vote.blockHash).card →
      vote.height ∉ f.finalized → StoreTakes x f vote) :
    Tallied C (x.needed x.active.length) f0 t blocks (countVoter counted vote)
        (max level (vote.height - votePruneDepth))
        (if vote.height ∈ f.finalized then f else (f.countVote x vote).2) ∧
      ∀ c, (if vote.height ∈ f.finalized then f else (f.countVote x vote).2).certificate = some c →
        f.certificate = some c ∨ c.height = vote.height ∧ c.blockHash = vote.blockHash := by
  by_cases hopen : (counted vote.blockHash).card < x.needed x.active.length
  · have hshort := hT.short b hb (hhash ▸ hopen)
    rw [hheight, hhash] at hshort
    obtain ⟨hfin, hkeys⟩ := hshort
    have hn : vote.height - votePruneDepth ≤ t := hheight ▸ hd.near b hb
    rw [if_neg hfin]
    unfold countVote
    by_cases hhas : (f.votesFor vote.blockHash).has vote.validatorPub = true
    · -- the voter is on record
      have hmem : vote.validatorPub ∈ counted vote.blockHash := by
        rw [← hkeys, GoMap.mem_keys]
        exact has_eq_true.mp hhas
      have hbound := hlevel.bound b hb (hhash ▸ ⟨_, hmem⟩)
      rw [if_pos hhas, countVoter_of_mem hmem, max_eq_left (hheight ▸ hbound)]
      exact ⟨hT, fun c hc => .inl hc⟩
    · have hrecorded := hT.recorded hb hhash hfin hheight
      have hcount : ((f.record vote).votesFor vote.blockHash).len =
          (countVoter counted vote vote.blockHash).card := congrArg Finset.card hrecorded
      rw [if_neg hhas]
      dsimp only
      rw [hcount]
      by_cases hquorum : x.needed x.active.length ≤ (countVoter counted vote vote.blockHash).card
      · have htakes : StoreTakes x (f.record vote) vote := hstore hquorum hfin
        obtain ⟨f', hok⟩ := finalize_of_store
          (hrecorded ▸ hlen) fun hdurable => htakes.checkCertificate hdurable (by omega)
        obtain ⟨certificate, hashes, rfl, hcert⟩ := finalize_eq_ok hok
        rw [if_pos hquorum, hok]
        dsimp only
        rw [prune_eq]
        refine ⟨(hT.close hd hb hhash hheight hquorum certificate hashes).prune hd hn,
          fun c hc => ?_⟩
        rcases hcert with rfl | rfl
        · exact .inl hc
        · cases hc
          exact .inr ⟨rfl, rfl⟩
      · rw [if_neg hquorum]
        rw [prune_eq]
        exact ⟨(hT.record hd hb hhash hheight hfin (Nat.not_le.mp hquorum)).prune hd hn,
          fun c hc => .inl hc⟩
  · -- the block is finalized
    have hquorum := Nat.not_lt.mp hopen
    have hfin : vote.height ∈ f.finalized := by
      rw [← hheight]
      exact (hT.quorum b hb (hhash ▸ hquorum)).1
    have hne : (counted (b.hash C)).Nonempty := by
      rw [hhash, ← Finset.card_pos]
      omega
    rw [if_pos hfin, max_eq_left (hheight ▸ hlevel.bound b hb hne)]
    exact ⟨hT.again hd hb hhash hheight hquorum, fun c hc => .inl hc⟩

end Count

/-! ### Deliveries -/

/-- The vote context of a node with a given chain. -/
def VoteContext.on (x : VoteContext) (chain : Chain) : VoteContext := { x with chain }

/-- What of a node the votes depend on.  `arriving` is a block that was added to the chain and whose
staged votes are still to be replayed. -/
structure VoteNode where
  chain : Chain
  finality : Finality
  arriving : Option Block := none

/-- What happens at a node.  The delivery of a block is `extend` and `replay`; the node's own vote
falls between the two for a received block and after them for a produced one. -/
inductive Delivery
  | extend (b : Block)
  | replay
  | vote (vote : FinalizeMsg)

inductive DeliveryStep (C : Externals) (x : VoteContext) : VoteNode → Delivery → VoteNode → Prop
  | extend {s : VoteNode} {b : Block} {chain : Chain} : s.arriving = none →
      s.chain.addBlock C b = .ok chain →
      DeliveryStep C x s (.extend b) { s with chain, arriving := some b }
  | replay {s : VoteNode} {b : Block} {order : List (FutureVoteKey × FinalizeMsg)} :
      s.arriving = some b → order ∈ s.finality.futureVotes.enumerations →
      DeliveryStep C x s .replay { s with
        finality := s.finality.replayFutureVotes C (x.on s.chain) order b, arriving := none }
  | vote {s : VoteNode} {vote : FinalizeMsg} :
      DeliveryStep C x s (.vote vote)
        { s with finality := (s.finality.handleVote C (x.on s.chain) vote).2 }

/-- The block a delivery adds. -/
def Delivery.block? : Delivery → Option Block
  | .extend b => some b
  | _ => none

/-- The vote a delivery brings. -/
def Delivery.vote? : Delivery → Option FinalizeMsg
  | .vote v => some v
  | _ => none

/-- A valid vote for one of the blocks, with its true height. -/
structure Ballot (C : Externals) (x : VoteContext) (blocks : List Block) (vote : FinalizeMsg) :
    Prop where
  valid : x.checkVote C vote = .ok ()
  width : vote.validatorPub.length = 32
  named : ∃ b ∈ blocks, b.hash C = vote.blockHash ∧ b.header.height = vote.height

/-- A vote comes at most two heights early and finds room in the queue. -/
structure Timely (s : VoteNode) (vote : FinalizeMsg) : Prop where
  window : ∀ tip, s.chain.tip = some tip → vote.height ≤ tip.header.height + futureVoteWindow
  queue : s.finality.futureVotes.len < futureVoteLimit

/-- A vote that completes a quorum finds no certificate of a higher block in the store. -/
def InOrder (x : VoteContext) (s : VoteNode) (vote : FinalizeMsg) : Prop :=
  x.durable = true → vote.height ∉ s.finality.finalized →
    x.needed x.active.length ≤ ((s.finality.record vote).votesFor vote.blockHash).len →
    ∀ prior, s.finality.certificate = some prior → prior.height ≤ vote.height

def votersOf (h : Hash32) (votes : List FinalizeMsg) : Finset ValidatorPubKey :=
  ((votes.filter (·.blockHash = h)).map (·.validatorPub)).toFinset

theorem mem_votersOf :
    pub ∈ votersOf h votes ↔ ∃ v ∈ votes, v.blockHash = h ∧ v.validatorPub = pub := by
  unfold votersOf
  simp [and_assoc]

/-! ### The chain under the votes -/

/-- `past` is on the chain above height `t`, `coming` is not. -/
structure OnChain (C : Externals) (t : Nat) (past coming : List Block) (chain : Chain) : Prop where
  tip : ∃ tip, chain.tip = some tip ∧ tip.header.height = t + past.length
  here : ∀ b ∈ past, chain.getByHeight b.header.height = some b
  ahead : ∀ b ∈ coming, t + past.length < b.header.height ∧
    chain.getByHeight b.header.height = none ∧ chain.getByHash (b.hash C) = none
  window : past.length + coming.length ≤ chain.maxInMemoryBlocks
  low : ∀ b ∈ past, t < b.header.height ∧ b.header.height ≤ t + past.length

section Chain

variable {t : Nat} {past coming : List Block} {chain chain' : Chain}

theorem OnChain.extend (h : OnChain C t past (b :: coming) chain)
    (hd : Distinct C t (b :: coming)) (hnodup : (b :: coming).Nodup)
    (hok : chain.addBlock C b = .ok chain') : OnChain C t (past ++ [b]) coming chain' := by
  obtain ⟨tip, htip, htipHeight⟩ := h.tip
  have habove := (h.ahead b mem_cons_self).1
  have hwindow := h.window
  rw [length_cons] at hwindow
  unfold addBlock at hok
  rw [htip] at hok
  simp only [bind_eq_ok, failIf_eq_ok, not_not] at hok
  obtain ⟨-, hheight, -, -, heq⟩ := hok
  -- the height does not wrap, since the block is above the tip
  have hnext : b.header.height = t + past.length + 1 := by
    unfold succHeight at hheight
    omega
  cases heq
  have hget : ∀ m, m + chain.maxInMemoryBlocks ≠ b.header.height →
      getByHeight (evict C { chain with
        blocks := chain.blocks.set (b.hash C) b, byHeight := chain.byHeight.set b.header.height b
        txIndex := indexTxs C b chain.txIndex, tip := some b } b.header.height) m = (chain.byHeight.set b.header.height b).get m :=
    fun m hm => evict_getByHeight hm
  refine ⟨⟨b, evict_tip _, ?_⟩, fun b' hb' => ?_, fun b' hb' => ?_, ?_, fun b' hb' => ?_⟩
  · rw [length_append, length_singleton]
    omega
  · rw [mem_append, mem_singleton] at hb'
    rcases hb' with hpast | rfl
    · have hlow := h.low b' hpast
      rw [hget _ (by omega), get_set_ne (by omega)]
      exact h.here b' hpast
    · rw [hget _ (by omega), get_set_self]
  · obtain ⟨habove', hheight', hhash'⟩ := h.ahead b' (mem_cons_of_mem _ hb')
    have hne : b' ≠ b := by
      rintro rfl
      exact (nodup_cons.mp hnodup).1 hb'
    have hneHeight : b'.header.height ≠ b.header.height := fun heq =>
      hne (hd.heights b' (mem_cons_of_mem _ hb') b mem_cons_self heq)
    have hneHash : b'.hash C ≠ b.hash C := fun heq =>
      hne (hd.hashes b' (mem_cons_of_mem _ hb') b mem_cons_self heq)
    refine ⟨?_, evict_none.2 _ ?_, evict_none.1 _ ?_⟩
    · rw [length_append, length_singleton]
      omega
    · show (chain.byHeight.set _ b).get _ = none
      rw [get_set_ne hneHeight]
      exact hheight'
    · show (chain.blocks.set _ b).get _ = none
      rw [get_set_ne hneHash]
      exact hhash'
  · rw [evict_maxInMemoryBlocks, length_append, length_singleton]
    show _ ≤ chain.maxInMemoryBlocks
    omega
  · rw [length_append, length_singleton]
    rw [mem_append, mem_singleton] at hb'
    rcases hb' with hpast | rfl
    · have hlow := h.low b' hpast
      omega
    · omega

end Chain

/-! ### The invariant of a run -/

/-- Everything that was given is counted, staged for a block to come, or waiting to be handled. -/
structure Interleaved (C : Externals) (x : VoteContext) (f0 : Finality) (t : Nat)
    (past coming : List Block) (given waiting : List FinalizeMsg)
    (counted : Hash32 → Finset ValidatorPubKey) (level : Nat) (s : VoteNode) : Prop where
  chain : OnChain C t past coming s.chain
  pruned : PruneLevel C (past ++ coming) counted level
  tallied : Tallied C (x.needed x.active.length) f0 t (past ++ coming) counted level s.finality
  split : ∀ b ∈ past ++ coming, ∀ pub, pub ∈ votersOf (b.hash C) given ↔
    pub ∈ counted (b.hash C) ∨
      s.finality.futureVotes.has ⟨b.header.height, b.hash C, pub⟩ = true ∨
      pub ∈ votersOf (b.hash C) waiting
  staged : ∀ key v, s.finality.futureVotes.get key = some v → ∀ b ∈ past ++ coming,
    key.hash = b.hash C → v ∈ given ∧ key = ⟨v.height, v.blockHash, v.validatorPub⟩
  ahead : ∀ b ∈ coming, counted (b.hash C) = ∅
  replayed : ∀ b ∈ past, s.arriving ≠ some b → ∀ pub,
    s.finality.futureVotes.has ⟨b.header.height, b.hash C, pub⟩ = false
  arriving : ∀ b, s.arriving = some b → b ∈ past ∧ b.header.height = t + past.length
  certificate : ∀ c, s.finality.certificate = some c → c.height ≤ t ∨
    ∃ b ∈ past, c.height = b.header.height ∧ c.blockHash = b.hash C
  signed : ∀ b ∈ past ++ coming, ∀ pub sig,
    (s.finality.votesFor (b.hash C)).get pub = some sig →
      ∃ v ∈ given, v.blockHash = b.hash C ∧ v.validatorPub = pub ∧ v.signature = sig

section Handle

variable {x : VoteContext} {f0 : Finality} {t level : Nat} {past coming : List Block}
  {given waiting : List FinalizeMsg} {counted : Hash32 → Finset ValidatorPubKey}

theorem mem_votersOf_cons :
    pub ∈ votersOf h (vote :: waiting) ↔
      vote.blockHash = h ∧ vote.validatorPub = pub ∨ pub ∈ votersOf h waiting := by
  rw [mem_votersOf, mem_votersOf, exists_mem_cons_iff]

/-- A block on the chain differs in hash from every block to come. -/
theorem Interleaved.hash_ne (hI : Interleaved C x f0 t past coming given waiting counted level s)
    (hd : Distinct C t (past ++ coming)) {b' : Block} (hb : b ∈ past) (hb' : b' ∈ coming) :
    b'.hash C ≠ b.hash C := by
  intro heq
  have hbb := hd.hashes b' (mem_append_right _ hb') b (mem_append_left _ hb) heq
  have habove := (hI.chain.ahead b' hb').1
  have hlow := hI.chain.low b hb
  rw [hbb] at habove
  omega

theorem Interleaved.deliver
    (hI : Interleaved C x f0 t past coming given [] counted level s) (vote : FinalizeMsg) :
    Interleaved C x f0 t past coming (given ++ [vote]) [vote] counted level s := by
  refine { hI with
    split := fun b hb pub => ?_
    staged := fun key v hget b hb hkey => ?_
    signed := fun b hb pub sig hget => ?_ }
  · have hsplit : pub ∈ votersOf (b.hash C) (given ++ [vote]) ↔
        pub ∈ votersOf (b.hash C) given ∨ pub ∈ votersOf (b.hash C) [vote] := by
      simp only [mem_votersOf, mem_append, or_and_right, exists_or]
    have hempty : pub ∉ votersOf (b.hash C) [] := by simp [votersOf]
    rw [hsplit, hI.split b hb pub]
    simp only [hempty, or_false, or_assoc]
  · obtain ⟨hgiven, heq⟩ := hI.staged key v hget b hb hkey
    exact ⟨mem_append_left _ hgiven, heq⟩
  · obtain ⟨v, hv, hsigned⟩ := hI.signed b hb pub sig hget
    exact ⟨v, mem_append_left _ hv, hsigned⟩

section

variable (hd : Distinct C t (past ++ coming)) (hpos : 0 < x.needed x.active.length)
  (hballots : ∀ v ∈ given, Ballot C x (past ++ coming) v)
include hd hpos hballots

section

variable (hI : Interleaved C x f0 t past coming given (vote :: waiting) counted level s)
  (hgiven : vote ∈ given) (hhash : b.hash C = vote.blockHash)
  (hheight : b.header.height = vote.height)
include hI hgiven

section

include hhash hheight

theorem Interleaved.handle_here (hb : b ∈ past) (hzero : b.hash C ≠ 0) (horder : InOrder x s vote) :
    Interleaved C x f0 t past coming given waiting (countVoter counted vote)
      (max level (vote.height - votePruneDepth))
      { s with finality := (s.finality.handleVote C (x.on s.chain) vote).2 } := by
  have hmem : b ∈ past ++ coming := mem_append_left _ hb
  have hlen : ∀ pub ∈ countVoter counted vote vote.blockHash, pub.length = 32 := by
    intro pub hpub
    rw [countVoter_self, Finset.mem_insert] at hpub
    rcases hpub with rfl | hcounted
    · exact (hballots vote hgiven).width
    · rw [← hhash] at hcounted
      obtain ⟨v, hv, -, rfl⟩ := mem_votersOf.mp ((hI.split b hmem pub).mpr (.inl hcounted))
      exact (hballots v hv).width
  have hstore : x.needed x.active.length ≤ (countVoter counted vote vote.blockHash).card →
      vote.height ∉ s.finality.finalized → StoreTakes (x.on s.chain) s.finality vote := by
    intro hquorum hfin hdurable
    have hrecorded := hI.tallied.recorded hmem hhash hfin hheight
    refine ⟨hhash ▸ hzero, fun prior hprior => ⟨horder hdurable hfin ?_ prior hprior, fun heq => ?_⟩⟩
    · unfold len
      rw [hrecorded]
      exact hquorum
    · rcases hI.certificate prior hprior with hold | ⟨b', hb', hheight', hhash'⟩
      · have hlow := hI.chain.low b hb
        omega
      · rw [hhash', hd.heights b' (mem_append_left _ hb') b hmem (by omega), hhash]
  obtain ⟨htallied, hcertificate⟩ :=
    Tallied.count (x := x.on s.chain) hI.tallied hI.pruned hd hmem hhash hheight hlen hpos hstore
  have hblock : (x.on s.chain).chain.getByHeight vote.height = some b :=
    hheight ▸ hI.chain.here b hb
  have hcall := handleVote_of_block (f := s.finality) (x := x.on s.chain)
    (hballots vote hgiven).valid hblock hheight hhash
  have hfuture : (s.finality.handleVote C (x.on s.chain) vote).2.futureVotes =
      s.finality.futureVotes := by
    rw [hcall]
    split_ifs
    · rfl
    · exact countVote_futureVotes _ _ _
  rw [← hcall] at htallied hcertificate
  refine ⟨hI.chain, hI.pruned.count hd hmem hhash hheight, htallied, fun b' hb' pub => ?_, ?_,
    fun b' hb' => ?_, ?_, hI.arriving, fun c hc => ?_, fun b' hb' pub sig hget => ?_⟩
  · rw [hI.split b' hb' pub, mem_votersOf_cons]
    rw [hfuture]
    by_cases hh : b'.hash C = vote.blockHash
    · rw [hh, countVoter_self, Finset.mem_insert]
      simp only [true_and, eq_comm, or_assoc, or_left_comm]
    · rw [countVoter_ne hh]
      have hne : ¬ (vote.blockHash = b'.hash C ∧ vote.validatorPub = pub) := fun heq =>
        hh heq.1.symm
      rw [or_iff_right hne]
  · show ∀ key v, (s.finality.handleVote C (x.on s.chain) vote).2.futureVotes.get key = some v → _
    rw [hfuture]
    exact hI.staged
  · rw [countVoter_ne (hhash ▸ hI.hash_ne hd hb hb')]
    exact hI.ahead b' hb'
  · show ∀ b ∈ past, s.arriving ≠ some b → ∀ pub,
      (s.finality.handleVote C (x.on s.chain) vote).2.futureVotes.has _ = false
    rw [hfuture]
    exact hI.replayed
  · rcases hcertificate c hc with hold | ⟨hcheight, hchash⟩
    · exact hI.certificate c hold
    · exact .inr ⟨b, hb, hcheight.trans hheight.symm, hchash.trans hhash.symm⟩
  · rcases handleVote_recorded hget with hold | ⟨-, heq, rfl, rfl⟩
    · exact hI.signed b' hb' pub sig hold
    · exact ⟨vote, hgiven, heq.symm, rfl, rfl⟩

omit hpos in
theorem Interleaved.handle_ahead (hb : b ∈ coming)
    (hmax : b.header.height + futureVoteWindow ≤ maxUint64) (htimely : Timely s vote) :
    Interleaved C x f0 t past coming given waiting counted level
      { s with finality := (s.finality.handleVote C (x.on s.chain) vote).2 } := by
  obtain ⟨tip, htip, htipHeight⟩ := hI.chain.tip
  obtain ⟨habove, hnone, hunknown⟩ := hI.chain.ahead b hb
  have hcall := handleVote_of_none (x := x.on s.chain) (hballots vote hgiven).valid
    (hheight ▸ hnone) htip (by omega) (by omega) (htimely.window tip htip) (hhash ▸ hunknown)
    htimely.queue
  -- for every other block the votes and the queue are as before
  have hother : ∀ b' ∈ past ++ coming, b' ≠ b → ∀ pub,
      (⟨b'.header.height, b'.hash C, pub⟩ : FutureVoteKey) ≠
        ⟨vote.height, vote.blockHash, vote.validatorPub⟩ := by
    intro b' hb' hne pub heq
    have hh : b'.hash C = vote.blockHash := congrArg FutureVoteKey.hash heq
    exact hne (hd.hashes b' hb' b (mem_append_right _ hb) (hh.trans hhash.symm))
  have hwaiting : ∀ b' ∈ past ++ coming, b' ≠ b → ∀ pub,
      (pub ∈ votersOf (b'.hash C) (vote :: waiting) ↔ pub ∈ votersOf (b'.hash C) waiting) := by
    intro b' hb' hne pub
    rw [mem_votersOf_cons]
    refine or_iff_right fun heq => hne ?_
    exact hd.hashes b' hb' b (mem_append_right _ hb) (heq.1.symm.trans hhash.symm)
  by_cases hhas : s.finality.futureVotes.has
      ⟨vote.height, vote.blockHash, vote.validatorPub⟩ = true
  · rw [hcall, if_pos hhas]
    refine { hI with split := fun b' hb' pub => ?_ }
    rw [hI.split b' hb' pub]
    by_cases hbb : b' = b
    · subst hbb
      rw [mem_votersOf_cons]
      by_cases hpub : vote.validatorPub = pub
      · have hstaged : s.finality.futureVotes.has ⟨b'.header.height, b'.hash C, pub⟩ = true := by
          rw [hheight, hhash, ← hpub]
          exact hhas
        simp only [hstaged, true_or, or_true]
      · simp only [hpub, and_false, false_or]
    · rw [hwaiting b' hb' hbb]
  · rw [hcall, if_neg hhas]
    refine { hI with
      tallied := { hI.tallied with }
      split := fun b' hb' pub => ?_
      staged := fun key v hget b' hb' hkey => ?_
      replayed := fun b' hb' harriving pub => ?_ }
    · rw [hI.split b' hb' pub]
      rw [has_set_eq_true]
      by_cases hbb : b' = b
      · subst hbb
        rw [mem_votersOf_cons, hheight]
        simp only [FutureVoteKey.mk.injEq, true_and, eq_comm]
        simp only [or_assoc, or_left_comm]
      · rw [hwaiting b' hb' hbb, or_iff_right (hother b' hb' hbb pub)]
    · have hget : (s.finality.futureVotes.set _ vote).get key = some v := hget
      rw [get_set] at hget
      split_ifs at hget with heq
      · cases hget
        exact ⟨hgiven, heq⟩
      · exact hI.staged key v hget b' hb' hkey
    · have hlow := hI.chain.low b' hb'
      have hbb : b' ≠ b := by
        rintro rfl
        omega
      have hold := hI.replayed b' hb' harriving pub
      have hnew : ¬ (s.finality.futureVotes.set ⟨vote.height, vote.blockHash, vote.validatorPub⟩
          vote).has ⟨b'.header.height, b'.hash C, pub⟩ = true := by
        rw [has_set_eq_true, or_iff_right (hother b' (mem_append_left _ hb') hbb pub),
          hold]
        simp
      exact eq_false_of_ne_true hnew

end

theorem Interleaved.handle (hzero : ∀ b ∈ past ++ coming, b.hash C ≠ 0)
    (hmax : ∀ b ∈ past ++ coming, b.header.height + futureVoteWindow ≤ maxUint64)
    (htimely : Timely s vote) (horder : InOrder x s vote) :
    ∃ counted' level', Interleaved C x f0 t past coming given waiting counted' level'
      { s with finality := (s.finality.handleVote C (x.on s.chain) vote).2 } := by
  obtain ⟨b, hb, hhash, hheight⟩ := (hballots vote hgiven).named
  rcases mem_append.mp hb with hpast | hcoming
  · exact ⟨_, _, handle_here hd hpos hballots hI hgiven hhash hheight hpast (hzero b hb) horder⟩
  · exact ⟨_, _, handle_ahead hd hballots hI hgiven hhash hheight hcoming (hmax b hb) htimely⟩

end

theorem Interleaved.handle_all {votes : List FinalizeMsg} (hb : b ∈ past)
    (hlast : b.header.height = t + past.length) (hzero : b.hash C ≠ 0)
    (hvotes : ∀ v ∈ votes, v ∈ given ∧ b.hash C = v.blockHash ∧ b.header.height = v.height)
    (hI : Interleaved C x f0 t past coming given votes counted level s) :
    ∃ counted' level', Interleaved C x f0 t past coming given [] counted' level'
      { s with finality :=
        votes.foldl (fun f vote => (f.handleVote C (x.on s.chain) vote).2) s.finality } := by
  induction votes generalizing counted level s with
  | nil => exact ⟨_, _, hI⟩
  | cons v votes ih =>
    obtain ⟨hgiven, hhash, hheight⟩ := hvotes v mem_cons_self
    -- a certificate is of a block of the chain, and this is the highest one
    have horder : InOrder x s v := by
      intro _ _ _ prior hprior
      rcases hI.certificate prior hprior with hold | ⟨b', hb', hheight', -⟩
      · have hlow := hI.chain.low b hb
        omega
      · have hlow := hI.chain.low b' hb'
        omega
    exact ih (fun v' hv' => hvotes v' (mem_cons_of_mem _ hv'))
      (handle_here hd hpos hballots hI hgiven hhash hheight hb hzero horder)

end

/-! ### The delivery of a block -/

theorem Interleaved.extend {chain : Chain}
    (hI : Interleaved C x f0 t past (b :: coming) given [] counted level s)
    (hd : Distinct C t (past ++ b :: coming)) (hnodup : (past ++ b :: coming).Nodup)
    (hidle : s.arriving = none) (hok : s.chain.addBlock C b = .ok chain) :
    Interleaved C x f0 t (past ++ [b]) coming given [] counted level
      { s with chain, arriving := some b } := by
  have happend : past ++ [b] ++ coming = past ++ b :: coming := by simp
  have hd' : Distinct C t (b :: coming) :=
    ⟨fun b' hb' => hd.above b' (mem_append_right _ hb'),
      fun b' hb' => hd.near b' (mem_append_right _ hb'),
      fun b' hb' b'' hb'' =>
        hd.heights b' (mem_append_right _ hb') b'' (mem_append_right _ hb''),
      fun b' hb' b'' hb'' =>
        hd.hashes b' (mem_append_right _ hb') b'' (mem_append_right _ hb'')⟩
  have hchain := hI.chain.extend hd' (nodup_append.mp hnodup).2.1 hok
  refine ⟨hchain, happend ▸ hI.pruned, happend ▸ hI.tallied, ?_, ?_,
    fun b' hb' => hI.ahead b' (mem_cons_of_mem _ hb'), fun b' hb' harriving => ?_,
    fun b' hb' => ?_, fun c hc => ?_, ?_⟩
  · rw [happend]
    exact hI.split
  · rw [happend]
    exact hI.staged
  · rw [mem_append, mem_singleton] at hb'
    rcases hb' with hpast | rfl
    · exact hI.replayed b' hpast (by simp [hidle])
    · exact absurd rfl harriving
  · cases hb'
    have hmem : b ∈ past ++ [b] := mem_append_right _ mem_cons_self
    have hlow := hchain.low b hmem
    have habove := (hI.chain.ahead b mem_cons_self).1
    rw [length_append, length_singleton] at hlow ⊢
    exact ⟨hmem, by omega⟩
  · rcases hI.certificate c hc with hold | ⟨b', hb', hcert⟩
    · exact .inl hold
    · exact .inr ⟨b', mem_append_left _ hb', hcert⟩
  · rw [happend]
    exact hI.signed

theorem Interleaved.unstage {order : List (FutureVoteKey × FinalizeMsg)}
    (hI : Interleaved C x f0 t past coming given [] counted level s)
    (hd : Distinct C t (past ++ coming)) (harriving : s.arriving = some b)
    (horder : order ∈ s.finality.futureVotes.enumerations) :
    Interleaved C x f0 t past coming given (stagedFor C order b) counted level
        { s with finality := s.finality.unstage b, arriving := none } ∧
      ∀ v ∈ stagedFor C order b,
        v ∈ given ∧ b.hash C = v.blockHash ∧ b.header.height = v.height := by
  obtain ⟨hb, hlast⟩ := hI.arriving b harriving
  have hmem : b ∈ past ++ coming := mem_append_left _ hb
  have hmine : ∀ v, v ∈ stagedFor C order b ↔
      ∃ key, s.finality.futureVotes.get key = some v ∧ key.height = b.header.height ∧
        key.hash = b.hash C := by
    intro v
    unfold stagedFor
    simp [horder.2, and_comm, and_assoc, and_left_comm]
  have hvotes : ∀ v ∈ stagedFor C order b,
      v ∈ given ∧ b.hash C = v.blockHash ∧ b.header.height = v.height := by
    intro v hv
    obtain ⟨key, hget, hheight, hhash⟩ := (hmine v).mp hv
    obtain ⟨hgiven, hkey⟩ := hI.staged key v hget b hmem hhash
    rw [hkey] at hheight hhash
    exact ⟨hgiven, hhash.symm, hheight.symm⟩
  have hvoters : ∀ pub, pub ∈ votersOf (b.hash C) (stagedFor C order b) ↔
      s.finality.futureVotes.has ⟨b.header.height, b.hash C, pub⟩ = true := by
    intro pub
    rw [mem_votersOf, has_eq_true]
    constructor
    · rintro ⟨v, hv, -, rfl⟩
      obtain ⟨key, hget, hheight, hhash⟩ := (hmine v).mp hv
      obtain ⟨-, hkey⟩ := hI.staged key v hget b hmem hhash
      rw [hkey] at hheight hhash hget
      exact ⟨v, by rw [← hheight, ← hhash]; exact hget⟩
    · rintro ⟨v, hget⟩
      obtain ⟨-, hkey⟩ := hI.staged _ v hget b hmem rfl
      exact ⟨v, (hmine v).mpr ⟨_, hget, rfl, rfl⟩, (congrArg FutureVoteKey.hash hkey).symm,
        (congrArg FutureVoteKey.pub hkey).symm⟩
  have hqueue : ∀ key, (s.finality.unstage b).futureVotes.has key = true ↔
      s.finality.futureVotes.has key = true ∧ b.header.height < key.height := by
    intro key
    rw [has_eq_true, has_eq_true]
    show (∃ v, (GoMap.filter _ _).get key = some v) ↔ _
    simp [Option.filter_eq_some_iff]
  refine ⟨⟨hI.chain, hI.pruned, ⟨hI.tallied.short, hI.tallied.quorum, hI.tallied.pending,
    hI.tallied.older, hI.tallied.olderFinalized, hI.tallied.bounded⟩, fun b' hb' pub => ?_,
    fun key v hget b' hb' hkey => ?_, hI.ahead, fun b' hb' _ pub => ?_, ?_, hI.certificate,
    hI.signed⟩, hvotes⟩
  · rw [hI.split b' hb' pub]
    rw [hqueue]
    have hempty : pub ∉ votersOf (b'.hash C) [] := by simp [votersOf]
    by_cases hbb : b' = b
    · subst hbb
      rw [hvoters]
      have hirrefl := Nat.lt_irrefl b'.header.height
      simp only [hempty, hirrefl, and_false, or_false, false_or]
    · have hnone : pub ∉ votersOf (b'.hash C) (stagedFor C order b) := by
        rw [mem_votersOf]
        rintro ⟨v, hv, hhash, -⟩
        obtain ⟨-, hhash', -⟩ := hvotes v hv
        exact hbb (hd.hashes b' hb' b hmem (hhash.symm.trans hhash'.symm))
      rcases mem_append.mp hb' with hpast | hcoming
      · have hfalse := hI.replayed b' hpast (by rw [harriving]; simpa using Ne.symm hbb) pub
        rw [hfalse]
        simp only [hnone, hempty, Bool.false_eq_true, false_and, or_false]
      · have habove := (hI.chain.ahead b' hcoming).1
        rw [← hlast] at habove
        simp only [hnone, hempty, habove, and_true, or_false]
  · have hget : (filter _ s.finality.futureVotes).get key = some v := hget
    rw [get_filter] at hget
    exact hI.staged key v (Option.filter_eq_some_iff.mp hget).1 b' hb' hkey
  · have hlow := (hI.chain.low b' hb').2
    rw [← hlast] at hlow
    have hno : ¬ (s.finality.unstage b).futureVotes.has
        ⟨b'.header.height, b'.hash C, pub⟩ = true := by
      rw [hqueue]
      rintro ⟨-, hlt⟩
      exact absurd hlt (Nat.not_lt.mpr hlow)
    exact eq_false_of_ne_true hno
  · intro b' hnone
    cases hnone

end Handle

/-! ### Runs -/

/-- Consecutive blocks above height `t`, fewer than the pruning depth, without hash collisions. -/
structure Upcoming (C : Externals) (t : Nat) (blocks : List Block) : Prop where
  heights : blocks.map (·.header.height) = range' (t + 1) blocks.length
  few : blocks.length < votePruneDepth
  hashes : (blocks.map (·.hash C)).Nodup
  nonzero : ∀ b ∈ blocks, b.hash C ≠ 0
  bounded : t + blocks.length + futureVoteWindow ≤ maxUint64

namespace Upcoming

variable {t : Nat}

theorem height_mem (h : Upcoming C t blocks) (hb : b ∈ blocks) :
    t < b.header.height ∧ b.header.height ≤ t + blocks.length := by
  have hmem : b.header.height ∈ range' (t + 1) blocks.length := by
    rw [← h.heights]
    exact mem_map_of_mem hb
  rw [mem_range'_1] at hmem
  omega

theorem distinct (h : Upcoming C t blocks) : Distinct C t blocks := by
  have hheights : (blocks.map (·.header.height)).Nodup := h.heights ▸ nodup_range'
  refine ⟨fun b hb => (h.height_mem hb).1, fun b hb => ?_, fun b hb b' hb' heq => ?_,
    fun b hb b' hb' heq => ?_⟩
  · have hle := (h.height_mem hb).2
    have hfew := h.few
    omega
  · exact inj_on_of_nodup_map hheights hb hb' heq
  · exact inj_on_of_nodup_map h.hashes hb hb' heq

theorem nodup (h : Upcoming C t blocks) : blocks.Nodup := List.Nodup.of_map _ h.hashes

end Upcoming

/-- A delivery; a vote is timely. -/
def TimelyStep (C : Externals) (x : VoteContext) (s : VoteNode) (d : Delivery) (s' : VoteNode) :
    Prop :=
  DeliveryStep C x s d s' ∧ ∀ vote, d = .vote vote → Timely s vote

/-- A timely delivery; votes complete quorums in height order. -/
def OrderedStep (C : Externals) (x : VoteContext) (s : VoteNode) (d : Delivery) (s' : VoteNode) :
    Prop :=
  TimelyStep C x s d s' ∧ ∀ vote, d = .vote vote → InOrder x s vote

section Run

variable {x : VoteContext} {f0 : Finality} {t : Nat} {s' : VoteNode} {events : List Delivery}

/-- **Run lemma.** -/
theorem Interleaved.run (hrun : Run (OrderedStep C x) s events s') :
    ∀ {past coming : List Block} {given : List FinalizeMsg}
      {counted : Hash32 → Finset ValidatorPubKey} {level : Nat},
    Interleaved C x f0 t past coming given [] counted level s → Upcoming C t (past ++ coming) →
    0 < x.needed x.active.length → events.filterMap Delivery.block? = coming →
    (∀ v ∈ given ++ events.filterMap Delivery.vote?, Ballot C x (past ++ coming) v) →
    ∃ counted' level', Interleaved C x f0 t (past ++ coming) []
      (given ++ events.filterMap Delivery.vote?) [] counted' level' s' := by
  induction hrun with
  | nil s =>
    intro past coming given counted level hI hup hpos hblocks hballots
    subst hblocks
    refine ⟨counted, level, ?_⟩
    simpa using hI
  | @cons s s1 s' d events hstep _ ih =>
    intro past coming given counted level hI hup hpos hblocks hballots
    obtain ⟨⟨hdelivery, htimely⟩, horder⟩ := hstep
    cases hdelivery with
    | @extend b chain hidle hok =>
      subst hblocks
      have happend : past ++ [b] ++ events.filterMap Delivery.block? =
          past ++ b :: events.filterMap Delivery.block? := by simp
      have hI' : Interleaved C x f0 t past (b :: events.filterMap Delivery.block?) given [] counted
          level s := hI
      have hnext := hI'.extend hup.distinct hup.nodup hidle hok
      have hrest := ih hnext (happend ▸ hup) hpos rfl (happend ▸ hballots)
      rw [happend] at hrest
      exact hrest
    | @replay b order harriving henum =>
      obtain ⟨hb, hlast⟩ := hI.arriving b harriving
      have hmem : b ∈ past ++ coming := mem_append_left _ hb
      obtain ⟨hunstaged, hvotes⟩ := hI.unstage hup.distinct harriving henum
      obtain ⟨counted', level', hnext⟩ := handle_all hup.distinct hpos
        (fun v hv => hballots v (mem_append_left _ hv)) hb hlast (hup.nonzero b hmem) hvotes hunstaged
      exact ih hnext hup hpos hblocks hballots
    | @vote vote =>
      have happend : given ++ [vote] ++ events.filterMap Delivery.vote? =
          given ++ vote :: events.filterMap Delivery.vote? := by simp
      have hballots' : ∀ v ∈ given ++ [vote] ++ events.filterMap Delivery.vote?,
          Ballot C x (past ++ coming) v := happend ▸ hballots
      have hmax : ∀ b ∈ past ++ coming, b.header.height + futureVoteWindow ≤ maxUint64 := by
        intro b hb
        have hle := (hup.height_mem hb).2
        have hbounded := hup.bounded
        omega
      obtain ⟨counted', level', hnext⟩ := handle hup.distinct hpos
        (fun v hv => hballots' v (mem_append_left _ hv)) (hI.deliver vote)
        (mem_append_right _ mem_cons_self) hup.nonzero hmax (htimely vote rfl)
        (horder vote rfl)
      have hrest := ih hnext hup hpos hblocks hballots'
      rw [happend] at hrest
      exact hrest

/-- A node whose chain ends at height `t` and that knows nothing of the blocks to come. -/
structure Unvoted (C : Externals) (t : Nat) (blocks : List Block) (s : VoteNode) : Prop where
  idle : s.arriving = none
  tip : ∃ tip, s.chain.tip = some tip ∧ tip.header.height = t
  unknown : ∀ b ∈ blocks, s.chain.getByHeight b.header.height = none ∧
    s.chain.getByHash (b.hash C) = none
  window : blocks.length ≤ s.chain.maxInMemoryBlocks
  unrecorded : ∀ b ∈ blocks, s.finality.votes.get (b.hash C) = none ∧
    s.finality.pendingVoteHeight.get (b.hash C) = none
  unstaged : ∀ key v, s.finality.futureVotes.get key = some v → ∀ b ∈ blocks, key.hash ≠ b.hash C
  finalized : ∀ n ∈ s.finality.finalized, n ≤ t
  certificate : ∀ c, s.finality.certificate = some c → c.height ≤ t

theorem Unvoted.interleaved (h : Unvoted C t blocks s)
    (hup : Upcoming C t blocks) (hpos : 0 < x.needed x.active.length) :
    Interleaved C x s.finality t [] blocks [] [] (fun _ => ∅) 0 s := by
  have hnone : ∀ b ∈ blocks, s.finality.votesFor (b.hash C) = ∅ := by
    intro b hb
    unfold votesFor
    rw [(h.unrecorded b hb).1]
    rfl
  have hchain : OnChain C t [] blocks s.chain := by
    refine ⟨h.tip, nofun, fun b hb => ⟨(hup.height_mem hb).1, h.unknown b hb⟩, ?_, nofun⟩
    rw [length_nil, Nat.zero_add]
    exact h.window
  have htallied : Tallied C (x.needed x.active.length) s.finality t blocks (fun _ => ∅) 0
      s.finality := by
    refine ⟨fun b hb _ => ⟨fun hmem => ?_, ?_⟩, fun b hb hcard => ?_, fun b hb ht hget => ?_,
      fun h _ => ?_, fun n _ => ?_, fun n hn => .inl (h.finalized n hn)⟩
    · have habove := (hup.height_mem hb).1
      have hle := h.finalized _ hmem
      omega
    · rw [hnone b hb]
      rfl
    · rw [Finset.card_empty] at hcard
      omega
    · rw [(h.unrecorded b hb).2] at hget
      cases hget
    · rw [pruneTo_zero]
      exact ⟨rfl, rfl⟩
    · rw [pruneTo_zero]
  have hstaged : ∀ key, ∀ b ∈ blocks, key.hash = b.hash C →
      s.finality.futureVotes.get key = none := by
    intro key b hb hkey
    cases hget : s.finality.futureVotes.get key with
    | none => rfl
    | some v => exact absurd hkey (h.unstaged key v hget b hb)
  refine ⟨hchain, ⟨fun b _ hne => absurd hne (by simp), .inl rfl⟩, htallied, fun b hb pub => ?_,
    fun key v hget b hb hkey => ?_, fun _ _ => rfl, nofun, fun b hb => ?_, fun c hc =>
    .inl (h.certificate c hc), fun b hb pub sig hget => ?_⟩
  · rw [has, hstaged ⟨b.header.height, b.hash C, pub⟩ b hb rfl]
    simp [votersOf]
  · exact absurd hkey (h.unstaged key v hget b hb)
  · rw [h.idle] at hb
    cases hb
  · rw [hnone b hb, get_empty] at hget
    cases hget

/-! ### The result -/

/-- What a node has of a block once all votes are in: nothing is staged; with a quorum the block is
finalized, otherwise every voter is on record, once. -/
structure Counted (C : Externals) (needed : Nat) (votes : List FinalizeMsg) (b : Block)
    (f : Finality) : Prop where
  unstaged : ∀ pub, f.futureVotes.has ⟨b.header.height, b.hash C, pub⟩ = false
  quorum : needed ≤ (votersOf (b.hash C) votes).card →
    b.header.height ∈ f.finalized ∧ f.votesFor (b.hash C) = ∅
  short : (votersOf (b.hash C) votes).card < needed →
    b.header.height ∉ f.finalized ∧ (f.votesFor (b.hash C)).keys = votersOf (b.hash C) votes

theorem Unvoted.run (hstart : Unvoted C t blocks s)
    (hup : Upcoming C t blocks) (hpos : 0 < x.needed x.active.length)
    (hrun : Run (OrderedStep C x) s events s') (hblocks : events.filterMap Delivery.block? = blocks)
    (hballots : ∀ v ∈ events.filterMap Delivery.vote?, Ballot C x blocks v)
    (hdone : s'.arriving = none) :
    ∃ counted level, Interleaved C x s.finality t blocks [] (events.filterMap Delivery.vote?) []
        counted level s' ∧
      ∀ b ∈ blocks, counted (b.hash C) = votersOf (b.hash C) (events.filterMap Delivery.vote?) := by
  obtain ⟨counted, level, hI⟩ := Interleaved.run hrun (hstart.interleaved hup hpos) hup hpos hblocks
    hballots
  refine ⟨counted, level, hI, fun b hb => ?_⟩
  ext pub
  have hunstaged := hI.replayed b hb (by simp [hdone]) pub
  have hsplit := hI.split b (mem_append_left _ hb) pub
  rw [hunstaged] at hsplit
  simpa [votersOf] using hsplit.symm

/-- The level is determined by the blocks with a counted vote. -/
theorem PruneLevel.unique {counted1 counted2 : Hash32 → Finset ValidatorPubKey}
    {level1 level2 : Nat} (h1 : PruneLevel C blocks counted1 level1)
    (h2 : PruneLevel C blocks counted2 level2)
    (hsame : ∀ b ∈ blocks, counted1 (b.hash C) = counted2 (b.hash C)) : level1 = level2 := by
  apply Nat.le_antisymm
  · rcases h1.attained with hzero | ⟨b, hb, hne, heq⟩
    · omega
    · rw [heq]
      exact h2.bound b hb (hsame b hb ▸ hne)
  · rcases h2.attained with hzero | ⟨b, hb, hne, heq⟩
    · omega
    · rw [heq]
      exact h1.bound b hb (hsame b hb ▸ hne)

section Agree

variable {needed level : Nat} {f1 f2 : Finality}
  {counted1 counted2 : Hash32 → Finset ValidatorPubKey}

theorem Tallied.finalized_subset (h1 : Tallied C needed f0 t blocks counted1 level f1)
    (h2 : Tallied C needed f0 t blocks counted2 level f2)
    (hsame : ∀ b ∈ blocks, counted1 (b.hash C) = counted2 (b.hash C)) :
    f1.finalized ⊆ f2.finalized := by
  intro n hn
  rcases h1.bounded n hn with hold | ⟨b, hb, rfl⟩
  · exact (h2.olderFinalized n hold).mpr ((h1.olderFinalized n hold).mp hn)
  · by_cases hquorum : needed ≤ (counted1 (b.hash C)).card
    · exact (h2.quorum b hb (hsame b hb ▸ hquorum)).1
    · exact absurd hn (h1.short b hb (Nat.not_le.mp hquorum)).1

theorem Tallied.votesFor_cases (h1 : Tallied C needed f0 t blocks counted1 level f1)
    (h2 : Tallied C needed f0 t blocks counted2 level f2)
    (hsame : ∀ b ∈ blocks, counted1 (b.hash C) = counted2 (b.hash C)) (h : Hash32) :
    f1.votesFor h = f2.votesFor h ∨
      ∃ b ∈ blocks, h = b.hash C ∧ (f1.votesFor h).keys = (f2.votesFor h).keys := by
  by_cases hnew : ∃ b ∈ blocks, h = b.hash C
  · obtain ⟨b, hb, rfl⟩ := hnew
    by_cases hquorum : needed ≤ (counted1 (b.hash C)).card
    · refine .inl (votesFor_congr _ ?_)
      rw [(h1.quorum b hb hquorum).2, (h2.quorum b hb (hsame b hb ▸ hquorum)).2]
    · have hshort := Nat.not_le.mp hquorum
      refine .inr ⟨b, hb, rfl, ?_⟩
      rw [(h1.short b hb hshort).2, (h2.short b hb (hsame b hb ▸ hshort)).2, hsame b hb]
  · refine .inl (votesFor_congr _ ?_)
    have hold : ∀ b ∈ blocks, h ≠ b.hash C := fun b hb heq => hnew ⟨b, hb, heq⟩
    rw [(h1.older h hold).1, (h2.older h hold).1]

end Agree

theorem votersOf_perm {votes' : List FinalizeMsg} (hperm : votes.Perm votes') :
    votersOf h votes = votersOf h votes' := by
  ext pub
  simp only [mem_votersOf, hperm.mem_iff]

end Run

/-- Two nodes start from one state and are given the same blocks, in height order, and the same
votes, in any two orders in which quorums complete in height order.  They finalize the same blocks
and record the same voters, with the same signatures if no validator signed a block twice; each vote
is counted once. -/
theorem vote_order_irrelevant {x : VoteContext} {t : Nat} {blocks : List Block}
    {votes : List FinalizeMsg} {s s1 s2 : VoteNode} {events1 events2 : List Delivery}
    (hstart : Unvoted C t blocks s) (hup : Upcoming C t blocks)
    (hpos : 0 < x.needed x.active.length) (hballots : ∀ v ∈ votes, Ballot C x blocks v)
    (hrun1 : Run (OrderedStep C x) s events1 s1) (hrun2 : Run (OrderedStep C x) s events2 s2)
    (hdone1 : s1.arriving = none) (hdone2 : s2.arriving = none)
    (hblocks1 : events1.filterMap Delivery.block? = blocks)
    (hblocks2 : events2.filterMap Delivery.block? = blocks)
    (hvotes1 : (events1.filterMap Delivery.vote?).Perm votes)
    (hvotes2 : (events2.filterMap Delivery.vote?).Perm votes) :
    s1.finality.finalized = s2.finality.finalized ∧
      (∀ h, (s1.finality.votesFor h).keys = (s2.finality.votesFor h).keys) ∧
      ((∀ v ∈ votes, ∀ v' ∈ votes, v.blockHash = v'.blockHash → v.validatorPub = v'.validatorPub →
          v.signature = v'.signature) →
        ∀ h, s1.finality.votesFor h = s2.finality.votesFor h) ∧
      ∀ b ∈ blocks, Counted C (x.needed x.active.length) votes b s1.finality := by
  obtain ⟨counted1, level1, hI1, hcounted1⟩ := hstart.run hup hpos hrun1 hblocks1
    (fun v hv => hballots v (hvotes1.mem_iff.mp hv)) hdone1
  obtain ⟨counted2, level2, hI2, hcounted2⟩ := hstart.run hup hpos hrun2 hblocks2
    (fun v hv => hballots v (hvotes2.mem_iff.mp hv)) hdone2
  have hvoters1 : ∀ b ∈ blocks, counted1 (b.hash C) = votersOf (b.hash C) votes := fun b hb =>
    (hcounted1 b hb).trans (votersOf_perm hvotes1)
  have hvoters2 : ∀ b ∈ blocks, counted2 (b.hash C) = votersOf (b.hash C) votes := fun b hb =>
    (hcounted2 b hb).trans (votersOf_perm hvotes2)
  have hT1 := hI1.tallied
  have hT2 := hI2.tallied
  have hlevel := hI1.pruned
  have hlevel2 := hI2.pruned
  rw [append_nil] at hT1 hT2 hlevel hlevel2
  have hsame : ∀ b ∈ blocks, counted1 (b.hash C) = counted2 (b.hash C) := fun b hb =>
    (hvoters1 b hb).trans (hvoters2 b hb).symm
  obtain rfl : level1 = level2 := hlevel.unique hlevel2 hsame
  have hcases := hT1.votesFor_cases hT2 hsame
  refine ⟨?_, fun h => ?_, fun hunique h => ?_, fun b hb => ⟨fun pub => ?_, fun hcard => ?_,
    fun hcard => ?_⟩⟩
  · exact Finset.Subset.antisymm (hT1.finalized_subset hT2 hsame)
      (hT2.finalized_subset hT1 fun b hb => (hsame b hb).symm)
  · rcases hcases h with heq | ⟨-, -, -, hkeys⟩
    · rw [heq]
    · exact hkeys
  · rcases hcases h with heq | ⟨b, hb, rfl, hkeys⟩
    · exact heq
    · have hmem : b ∈ blocks ++ [] := mem_append_left _ hb
      ext pub : 1
      cases hget1 : (s1.finality.votesFor (b.hash C)).get pub with
      | none =>
        rw [get_eq_none_iff, hkeys, ← get_eq_none_iff] at hget1
        exact hget1.symm
      | some sig =>
        have hpub : pub ∈ (s2.finality.votesFor (b.hash C)).keys := by
          rw [← hkeys]
          exact mem_keys.mpr ⟨sig, hget1⟩
        obtain ⟨sig', hget2⟩ := mem_keys.mp hpub
        obtain ⟨v, hv, hvhash, hvpub, hvsig⟩ := hI1.signed b hmem pub sig hget1
        obtain ⟨v', hv', hvhash', hvpub', hvsig'⟩ := hI2.signed b hmem pub sig' hget2
        have hsig := hunique v (hvotes1.mem_iff.mp hv) v' (hvotes2.mem_iff.mp hv')
          (hvhash.trans hvhash'.symm) (hvpub.trans hvpub'.symm)
        rw [hget2, ← hvsig, ← hvsig', hsig]
  · exact hI1.replayed b hb (by simp [hdone1]) pub
  · obtain ⟨hfin, hnone⟩ := hT1.quorum b hb (hvoters1 b hb ▸ hcard)
    refine ⟨hfin, ?_⟩
    unfold votesFor
    rw [hnone]
    rfl
  · rw [← hvoters1 b hb] at hcard ⊢
    exact hT1.short b hb hcard

/-! ### One validator, two blocks -/

def secondBlock : Block := blockOn firstBlock 3 []

def thirdBlock : Block := blockOn secondBlock 1 []

/-- Validator 1 alone, with a store. -/
def soleContext : VoteContext where
  chain := {}
  active := [sampleValidator 1]
  fork := none
  needed := committee.cfg.needed

/-- The vote of validator 1 for a block. -/
def soleVote (b : Block) : FinalizeMsg where
  blockHash := b.hash hashing
  height := b.header.height
  validatorPub := sampleValidator 1
  signature := replicate 64 0

/-- The chain with the second block, and with both. -/
def secondChain : Chain := ((chainOf firstBlock).addBlock hashing secondBlock).toOption.getD {}

def thirdChain : Chain := (secondChain.addBlock hashing thirdBlock).toOption.getD {}

/-- The node with both blocks, after some votes. -/
def votedNode (votes : List FinalizeMsg) : VoteNode where
  chain := thirdChain
  finality := votes.foldl
    (fun f vote => (f.handleVote hashing (soleContext.on thirdChain) vote).2) {}

theorem soleBallot (hb : b ∈ [secondBlock, thirdBlock]) :
    Ballot hashing soleContext [secondBlock, thirdBlock] (soleVote b) :=
  ⟨Engine.checkVote_eq_ok.mpr ⟨mem_singleton_self _, rfl⟩, rfl, b, hb, rfl, rfl⟩

set_option maxRecDepth 8000

theorem upcoming_two : Upcoming hashing 1 [secondBlock, thirdBlock] :=
  ⟨by decide +kernel, by decide, by decide +kernel, by decide +kernel, by decide⟩

theorem unvoted_two : Unvoted hashing 1 [secondBlock, thirdBlock] ⟨chainOf firstBlock, {}, none⟩ := by
  refine ⟨rfl, ⟨firstBlock, rfl, rfl⟩, ?_, by decide, fun _ _ => ⟨rfl, rfl⟩, ?_, ?_, nofun⟩
  · decide +kernel
  · intro key v hget
    cases hget
  · intro n hn
    cases hn

theorem nothing_staged : [] ∈ (∅ : GoMap FutureVoteKey FinalizeMsg).enumerations :=
  ⟨nodup_nil, by simp⟩

theorem secondChain_eq : (chainOf firstBlock).addBlock hashing secondBlock = .ok secondChain := rfl

theorem thirdChain_eq : secondChain.addBlock hashing thirdBlock = .ok thirdChain := rfl

theorem soleVote_timely (hb : b.header.height ≤ 5)
    (hqueue : (votedNode votes).finality.futureVotes = ∅) :
    Timely (votedNode votes) (soleVote b) := by
  constructor
  · intro tip htip
    cases htip
    exact hb
  · rw [hqueue]
    decide

/-- Both blocks arrive with no votes staged, then both votes. -/
theorem blocks_then_votes {R : VoteNode → Delivery → VoteNode → Prop} {w : FinalizeMsg}
    (hR : ∀ s d s', DeliveryStep hashing soleContext s d s' → d.vote? = none → R s d s')
    (hv : R (votedNode []) (.vote v) (votedNode [v]))
    (hw : R (votedNode [v]) (.vote w) (votedNode [v, w])) :
    Run R ⟨chainOf firstBlock, {}, none⟩
      [.extend secondBlock, .replay, .extend thirdBlock, .replay, .vote v, .vote w]
      (votedNode [v, w]) :=
  .cons (hR _ _ _ (.extend rfl secondChain_eq) rfl)
    (.cons (hR _ _ _ (.replay rfl nothing_staged) rfl)
      (.cons (hR _ _ _ (.extend rfl thirdChain_eq) rfl)
        (.cons (hR _ _ _ (.replay rfl nothing_staged) rfl) (.cons hv (.cons hw (.nil _))))))

theorem timelyStep_vote (h : Timely s vote) :
    TimelyStep hashing soleContext s (.vote vote)
      { s with finality := (s.finality.handleVote hashing (soleContext.on s.chain) vote).2 } :=
  ⟨.vote, by rintro _ ⟨⟩; exact h⟩

theorem orderedStep_vote (h : Timely s vote)
    (horder : InOrder soleContext s vote) : OrderedStep hashing soleContext s (.vote vote)
      { s with finality := (s.finality.handleVote hashing (soleContext.on s.chain) vote).2 } :=
  ⟨timelyStep_vote h, by rintro _ ⟨⟩; exact horder⟩

/-- The node on which the vote for the third block came before both blocks. -/
def earlyNode (chain : Chain) (arriving : Option Block) : VoteNode where
  chain
  finality.futureVotes := set ∅ ⟨3, thirdBlock.hash hashing, sampleValidator 1⟩
    (soleVote thirdBlock)
  arriving

theorem one_staged {key : FutureVoteKey} :
    [(key, v)] ∈ (set ∅ key v).enumerations := by
  refine ⟨nodup_singleton _, fun k w => ?_⟩
  rw [get_set]
  split_ifs with h
  · subst h
    simp [eq_comm]
  · simp [h]

/-- The votes that are staged on that node. -/
def earlyOrder : List (FutureVoteKey × FinalizeMsg) :=
  [(⟨3, thirdBlock.hash hashing, sampleValidator 1⟩, soleVote thirdBlock)]

/-- The vote state once the second block is there and voted for. -/
def earlySecond : Finality :=
  ((earlyNode secondChain none).finality.handleVote hashing (soleContext.on secondChain)
    (soleVote secondBlock)).2

/-- The vote state once the third block is there, too. -/
def earlyThird : Finality :=
  earlySecond.replayFutureVotes hashing (soleContext.on thirdChain) earlyOrder thirdBlock

/-- The vote for the third block comes before both blocks. -/
theorem early_run : Run (OrderedStep hashing soleContext) ⟨chainOf firstBlock, {}, none⟩
    [.vote (soleVote thirdBlock), .extend secondBlock, .replay, .vote (soleVote secondBlock),
      .extend thirdBlock, .replay] ⟨thirdChain, earlyThird, none⟩ := by
  have hfirst : OrderedStep hashing soleContext ⟨chainOf firstBlock, {}, none⟩
      (.vote (soleVote thirdBlock)) (earlyNode (chainOf firstBlock) none) :=
    orderedStep_vote ⟨by rintro tip ⟨⟩; decide, by decide⟩ nofun
  have hreplay : OrderedStep hashing soleContext (earlyNode secondChain (some secondBlock)) .replay
      (earlyNode secondChain none) := by
    have hstep : DeliveryStep hashing soleContext (earlyNode secondChain (some secondBlock)) .replay
        { chain := secondChain
          finality := (earlyNode secondChain (some secondBlock)).finality.replayFutureVotes hashing
            (soleContext.on secondChain) earlyOrder secondBlock } := .replay rfl one_staged
    exact ⟨⟨hstep, nofun⟩, nofun⟩
  have hsecond : OrderedStep hashing soleContext (earlyNode secondChain none)
      (.vote (soleVote secondBlock)) ⟨secondChain, earlySecond, none⟩ :=
    orderedStep_vote ⟨by rintro tip ⟨⟩; decide, by decide⟩ nofun
  exact .cons hfirst (.cons ⟨⟨.extend rfl secondChain_eq, nofun⟩, nofun⟩ (.cons hreplay
    (.cons hsecond (.cons ⟨⟨.extend rfl thirdChain_eq, nofun⟩, nofun⟩
      (.cons ⟨⟨.replay rfl one_staged, nofun⟩, nofun⟩ (.nil _))))))

theorem on_time_run : Run (OrderedStep hashing soleContext) ⟨chainOf firstBlock, {}, none⟩
    [.extend secondBlock, .replay, .extend thirdBlock, .replay, .vote (soleVote secondBlock),
      .vote (soleVote thirdBlock)] (votedNode [soleVote secondBlock, soleVote thirdBlock]) := by
  refine blocks_then_votes (fun s d s' h hnone => ⟨⟨h, ?_⟩, ?_⟩)
    (orderedStep_vote (soleVote_timely (by decide) rfl) nofun)
    (orderedStep_vote (soleVote_timely (by decide) rfl) ?_)
  · rintro _ rfl
    cases hnone
  · rintro _ rfl
    cases hnone
  · rintro - - - prior ⟨⟩
    decide

/-- An early vote and a late one lead to the same finalized blocks. -/
theorem early_vote_counted :
    (votedNode [soleVote secondBlock, soleVote thirdBlock]).finality.finalized =
      earlyThird.finalized ∧
    ∀ b ∈ [secondBlock, thirdBlock], Counted hashing
      (soleContext.needed soleContext.active.length) [soleVote secondBlock, soleVote thirdBlock] b
      (votedNode [soleVote secondBlock, soleVote thirdBlock]).finality := by
  have hballots : ∀ v ∈ [soleVote secondBlock, soleVote thirdBlock],
      Ballot hashing soleContext [secondBlock, thirdBlock] v := by
    intro v hv
    simp only [mem_cons, not_mem_nil, or_false] at hv
    rcases hv with rfl | rfl
    · exact soleBallot (by simp)
    · exact soleBallot (by simp)
  obtain ⟨hfin, -, -, hcounted⟩ := vote_order_irrelevant unvoted_two upcoming_two
    (by decide) hballots on_time_run early_run rfl rfl rfl rfl (.refl _) (.swap _ _ _)
  exact ⟨hfin, hcounted⟩

/-- The two votes in the order of the heights finalize both blocks.  In the other order the first
block is not finalized: its certificate is refused. -/
theorem late_quorum_not_finalized : ∃ s1 s2 : VoteNode,
    Unvoted hashing 1 [secondBlock, thirdBlock] ⟨chainOf firstBlock, {}, none⟩ ∧
    Upcoming hashing 1 [secondBlock, thirdBlock] ∧
    (∀ b ∈ [secondBlock, thirdBlock],
      Ballot hashing soleContext [secondBlock, thirdBlock] (soleVote b)) ∧
    Run (TimelyStep hashing soleContext) ⟨chainOf firstBlock, {}, none⟩
      [.extend secondBlock, .replay, .extend thirdBlock, .replay, .vote (soleVote secondBlock),
        .vote (soleVote thirdBlock)] s1 ∧
    Run (TimelyStep hashing soleContext) ⟨chainOf firstBlock, {}, none⟩
      [.extend secondBlock, .replay, .extend thirdBlock, .replay, .vote (soleVote thirdBlock),
        .vote (soleVote secondBlock)] s2 ∧
    2 ∈ s1.finality.finalized ∧ 2 ∉ s2.finality.finalized := by
  refine ⟨votedNode [soleVote secondBlock, soleVote thirdBlock],
    votedNode [soleVote thirdBlock, soleVote secondBlock], unvoted_two, upcoming_two,
    fun _ => soleBallot, ?_, ?_, ?_, ?_⟩
  · exact on_time_run.mono fun _ _ _ h => h.1
  · refine blocks_then_votes (fun s d s' h hnone => ⟨h, ?_⟩)
      (timelyStep_vote (soleVote_timely (by decide) rfl))
      (timelyStep_vote (soleVote_timely (by decide) rfl))
    rintro _ rfl
    cases hnone
  · decide +kernel
  · decide +kernel

end Aperod
