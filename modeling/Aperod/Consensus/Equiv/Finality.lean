import Aperod.Consensus.Equiv.Accept
import Aperod.Go.Run

/-!
# Is a finalized block backed by the current validators?

`handleVote` compares the number of votes recorded for a block with a threshold for the current active
set, but recorded votes stay recorded when their validator leaves that set.  So the votes of
validators that are no longer active count.
-/

namespace Aperod

open Go Engine Finality

variable {C : Externals}

namespace Finality

variable {f f' : Finality} {x : VoteContext} {vote : FinalizeMsg} {h : Hash32}
  {pub : ValidatorPubKey} {sig : Bytes}

/-! ### The parts of `handleVote` -/

theorem votesFor_record (f : Finality) (vote : FinalizeMsg) (h : Hash32) :
    (f.record vote).votesFor h =
      if h = vote.blockHash then (f.votesFor h).set vote.validatorPub vote.signature
      else f.votesFor h := by
  unfold record votesFor
  rw [GoMap.get_set]
  split_ifs with heq
  · subst heq
    rfl
  · rfl

theorem votesFor_prune (hget : ((f.prune vote).votesFor h).get pub = some sig) :
    (f.votesFor h).get pub = some sig := by
  unfold prune at hget
  split_ifs at hget
  · unfold votesFor at hget ⊢
    rw [GoMap.get_filter] at hget
    rcases hv : Option.filter _ (f.votes.get h) with _ | m
    · rw [hv] at hget
      simp at hget
    · rw [hv] at hget
      rw [(Option.filter_eq_some_iff.mp hv).1]
      exact hget
  · exact hget

theorem prune_finalized_subset : (f.prune vote).finalized ⊆ f.finalized := by
  unfold prune
  split_ifs
  · exact Finset.filter_subset _ _
  · exact Finset.Subset.refl _

theorem prune_certificate : (f.prune vote).certificate = f.certificate := by
  unfold prune
  split_ifs <;> rfl

theorem stageVote_eq_ok (hok : f.stageVote x vote = .ok f') :
    ∃ futureVotes, f' = { f with futureVotes } := by
  unfold stageVote at hok
  split at hok
  · cases hok
  · simp only [bind_eq_ok] at hok
    obtain ⟨-, -, -, -, -, -, -, -, heq⟩ := hok
    cases heq
    exact ⟨_, rfl⟩

theorem persist_eq_ok {c : FinalityCertificate} (hok : f.persist x c = .ok f') :
    ∃ certificate, f' = { f with certificate } ∧
      (certificate = f.certificate ∨ certificate = some c) := by
  unfold persist at hok
  split_ifs at hok
  · simp only [wrap_eq_ok, saveCertificate, bind_eq_ok] at hok
    obtain ⟨-, -, heq⟩ := hok
    cases heq
    exact ⟨_, rfl, .inr rfl⟩
  · cases hok
    exact ⟨_, rfl, .inl rfl⟩

/-- The state of a finalized block, with its certificate and hash noted. -/
def close (f : Finality) (vote : FinalizeMsg) (certificate : Option FinalityCertificate)
    (hashes : GoMap Nat Hash32) : Finality :=
  { f with
    certificate
    lpodFinalizedHashes := hashes
    finalized := insert vote.height f.finalized
    votes := f.votes.del vote.blockHash
    pendingVoteHeight := f.pendingVoteHeight.del vote.blockHash }

theorem finalize_eq_ok (hok : f.finalize x vote = .ok f') :
    ∃ certificate hashes, f' = f.close vote certificate hashes ∧
      (certificate = f.certificate ∨
        certificate = some ⟨vote.height, vote.blockHash, f.votesFor vote.blockHash⟩) := by
  simp only [finalize, bind_eq_ok] at hok
  obtain ⟨-, -, f1, hsave, heq⟩ := hok
  obtain ⟨certificate, rfl, hcert⟩ := persist_eq_ok hsave
  cases heq
  exact ⟨certificate, _, rfl, hcert⟩

/-! ### One call -/

theorem record_recorded (hget : ((f.record vote).votesFor h).get pub = some sig) :
    (f.votesFor h).get pub = some sig ∨
      h = vote.blockHash ∧ pub = vote.validatorPub ∧ sig = vote.signature := by
  rw [votesFor_record] at hget
  split_ifs at hget with hh
  · rw [GoMap.get_set] at hget
    split_ifs at hget with hp
    · exact .inr ⟨hh, hp, (Option.some.inj hget).symm⟩
    · exact .inl hget
  · exact .inl hget

/-- What a counted vote leaves: the state before if it was counted already, and otherwise the vote
recorded, with the block finalized at a quorum unless its certificate is refused. -/
theorem countVote_cases (f : Finality) (x : VoteContext) (vote : FinalizeMsg) :
    (f.countVote x vote).2 = f ∨ (f.countVote x vote).2 = f.record vote ∨
      (f.countVote x vote).2 = (f.record vote).prune vote ∨
      x.needed x.active.length ≤ ((f.record vote).votesFor vote.blockHash).len ∧
        ∃ f', (f.record vote).finalize x vote = .ok f' ∧
          (f.countVote x vote).2 = f'.prune vote := by
  unfold countVote
  split_ifs
  · exact .inl rfl
  · dsimp only
    split_ifs with hquorum
    · cases (f.record vote).finalize x vote with
      | error e => exact .inr (.inl rfl)
      | ok f' => exact .inr (.inr (.inr ⟨hquorum, f', rfl, rfl⟩))
    · exact .inr (.inr (.inl rfl))

/-- The vote passed the first checks and names a block of the chain by height and hash. -/
def Names (C : Externals) (x : VoteContext) (vote : FinalizeMsg) : Prop :=
  x.checkVote C vote = .ok () ∧ ∃ b, x.chain.getByHeight vote.height = some b ∧
    b.header.height = vote.height ∧ b.hash C = vote.blockHash

/-- A call changes at most the staged votes, or it counts a vote that names a block. -/
theorem handleVote_cases (f : Finality) (x : VoteContext) (vote : FinalizeMsg) :
    (∃ futureVotes, (f.handleVote C x vote).2 = { f with futureVotes }) ∨
      Names C x vote ∧ (f.handleVote C x vote).2 = (f.countVote x vote).2 := by
  unfold handleVote
  cases hcheck : x.checkVote C vote with
  | error err => exact .inl ⟨_, rfl⟩
  | ok u =>
    cases hblock : x.chain.getByHeight vote.height with
    | none =>
      cases hstage : f.stageVote x vote with
      | error err => exact .inl ⟨_, rfl⟩
      | ok f' => exact .inl (stageVote_eq_ok hstage)
    | some b =>
      dsimp only
      split_ifs with hnames hfin
      · exact .inl ⟨_, rfl⟩
      · exact .inl ⟨_, rfl⟩
      · rw [not_or, not_not, not_not] at hnames
        exact .inr ⟨⟨hcheck, b, hblock, hnames.1, hnames.2⟩, rfl⟩

theorem countVote_recorded (hget : ((f.countVote x vote).2.votesFor h).get pub = some sig) :
    (f.votesFor h).get pub = some sig ∨
      h = vote.blockHash ∧ pub = vote.validatorPub ∧ sig = vote.signature := by
  rcases countVote_cases f x vote with heq | heq | heq | ⟨-, f', hfin, heq⟩
  all_goals rw [heq] at hget
  · exact .inl hget
  · exact record_recorded hget
  · exact record_recorded (votesFor_prune hget)
  · obtain ⟨_, _, rfl, -⟩ := finalize_eq_ok hfin
    have hprev := votesFor_prune hget
    unfold votesFor close at hprev
    rw [GoMap.get_del] at hprev
    split_ifs at hprev
    · simp at hprev
    · exact record_recorded hprev

/-- What a call adds to the records: at most the vote itself, once it passed the first checks. -/
theorem handleVote_recorded (hget : ((f.handleVote C x vote).2.votesFor h).get pub = some sig) :
    (f.votesFor h).get pub = some sig ∨
      x.checkVote C vote = .ok () ∧ h = vote.blockHash ∧ pub = vote.validatorPub ∧
        sig = vote.signature := by
  rcases handleVote_cases f x vote with ⟨_, heq⟩ | ⟨hnames, heq⟩
  all_goals rw [heq] at hget
  · exact .inl hget
  · exact (countVote_recorded hget).imp_right fun hnew => ⟨hnames.1, hnew⟩

/-- When a call marks a height finalized: it is the height of the vote, and with the vote the records
of its block reach the threshold. -/
theorem handleVote_marks {n : Nat} (hold : n ∉ f.finalized)
    (hnew : n ∈ (f.handleVote C x vote).2.finalized) :
    n = vote.height ∧ x.checkVote C vote = .ok () ∧
      x.needed x.active.length ≤ ((f.record vote).votesFor vote.blockHash).len := by
  rcases handleVote_cases f x vote with ⟨_, heq⟩ | ⟨hnames, heq⟩
  all_goals rw [heq] at hnew
  · exact absurd hnew hold
  · rcases countVote_cases f x vote with heq | heq | heq | ⟨hquorum, f', hfin, heq⟩
    all_goals rw [heq] at hnew
    · exact absurd hnew hold
    · exact absurd hnew hold
    · exact absurd (prune_finalized_subset hnew) hold
    · obtain ⟨_, _, rfl, -⟩ := finalize_eq_ok hfin
      have hmem := Finset.mem_insert.mp (prune_finalized_subset hnew)
      exact ⟨hmem.resolve_right hold, hnames.1, hquorum⟩

end Finality

/-! ### Steps of a node -/

/-- What happens at a node, as far as votes are concerned. -/
inductive NodeEvent
  /-- A block from the network, or one produced here, becomes canonical. -/
  | accept (b : Block)
  /-- Staged votes are taken out of the queue for a block that arrived. -/
  | unstage (b : Block)
  /-- `handleVote` is called. -/
  | vote (vote : FinalizeMsg)

variable {S : Type} {V : Services S}

inductive NodeStep (C : Externals) (V : Services S) : Engine S → NodeEvent → Engine S → Prop
  | incoming {e e' : Engine S} {env : Env} {b : Block} :
      e.acceptBlock C V env b = .ok e' → NodeStep C V e (.accept b) e'
  | produced {e e' : Engine S} {env : Env} {b : Block} {pool : Mempool} :
      { e with pool }.commitProduced C V env b = .ok e' → NodeStep C V e (.accept b) e'
  | unstage {e : Engine S} {b : Block} :
      NodeStep C V e (.unstage b) { e with finality := e.finality.unstage b }
  | vote {e : Engine S} {vote : FinalizeMsg} : NodeStep C V e (.vote vote) (e.deliver C vote)

namespace Engine

variable {e e' : Engine S} {env : Env} {b : Block}

theorem run_votes (e : Engine S) (votes : List FinalizeMsg) :
    Run (NodeStep C V) e (votes.map .vote) (votes.foldl (fun e vote => e.deliver C vote) e) := by
  induction votes generalizing e with
  | nil => exact .nil e
  | cons vote votes ih => exact .cons .vote (ih _)

/-- Replaying the staged votes is a run of calls of `handleVote`. -/
theorem replayFutureVotes_run (e : Engine S) (env : Env) (b : Block) :
    Run (NodeStep C V) e (.unstage b :: (stagedFor C env.staged b).map .vote)
      (e.replayFutureVotes C env b) := by
  have hfold : e.replayFutureVotes C env b = (stagedFor C env.staged b).foldl
      (fun e vote => e.deliver C vote) { e with finality := e.finality.unstage b } :=
    (List.foldl_hom (fun f => { e with finality := f }) fun _ _ => rfl).symm
  rw [hfold]
  exact .cons .unstage (run_votes _ _)

theorem castVote_run (e : Engine S) (b : Block) :
    ∃ votes : List FinalizeMsg, Run (NodeStep C V) e (votes.map .vote) (e.castVote C b) := by
  unfold castVote
  split
  · rename_i key _
    exact ⟨[e.ownVote C key b], run_votes e _⟩
  · exact ⟨[], .nil e⟩

theorem handleIncomingBlock_run (h : e.handleIncomingBlock C V env b = .ok e') :
    ∃ events, Run (NodeStep C V) e (.accept b :: events) e' := by
  obtain ⟨e1, haccept, heq⟩ := unbind h
  obtain ⟨votes, hvotes⟩ := castVote_run (C := C) (V := V) e1 b
  cases heq
  exact ⟨_, .cons (.incoming haccept) (hvotes.append (replayFutureVotes_run _ env b))⟩

theorem tick_run (h : e.tick C V env = .ok (e', some b)) :
    ∃ events, Run (NodeStep C V) e (.accept b :: events) e' := by
  obtain ⟨_, _, _, e1, -, -, -, -, -, hcommit, rfl⟩ := tick_eq_some h
  obtain ⟨votes, hvotes⟩ := castVote_run (e1.replayFutureVotes C env b) b
  exact ⟨_, .cons (.produced hcommit) ((replayFutureVotes_run e1 env b).append hvotes)⟩

end Engine

/-! ### The invariant -/

namespace Engine

variable (C) (e e' : Engine S) (vote : FinalizeMsg)

/-- The call marks a height finalized that was not. -/
def Marks (height : Nat) : Prop :=
  height ∉ e.finality.finalized ∧ height ∈ (e.deliver C vote).finality.finalized

/-- `sig` is the signature of a valid vote of `pub` for the block. -/
def ValidVote (blockHash : Hash32) (pub : ValidatorPubKey) (sig : Bytes) : Prop :=
  ∃ v : FinalizeMsg, v.blockHash = blockHash ∧ v.validatorPub = pub ∧ v.signature = sig ∧
    v.authentic C e.cfg.validatorAuthorityFork

/-- When the vote is counted, enough validators of the active set have a valid vote recorded for its
block. -/
def CurrentQuorum : Prop :=
  ∃ voters : Finset ValidatorPubKey, e.cfg.needed e.activeValidators.length ≤ voters.card ∧
    ∀ pub ∈ voters, pub ∈ e.activeValidators ∧
      ∃ sig, ((e.finality.record vote).votesFor vote.blockHash).get pub = some sig ∧
        e.ValidVote C vote.blockHash pub sig

/-- No validator with a vote recorded for a pending block leaves the active set. -/
def KeepsVoters : Prop :=
  ∀ h pub sig, (e.finality.votesFor h).get pub = some sig → pub ∈ e'.activeValidators

/-- Every recorded vote is valid and of an active validator. -/
def VotesBacked : Prop :=
  ∀ h pub sig, (e.finality.votesFor h).get pub = some sig →
    pub ∈ e.activeValidators ∧ e.ValidVote C h pub sig

end Engine

/-- A step of a node; if it accepts a block, the block takes no validator with a pending vote out of
the active set. -/
def VoterKeepingStep (C : Externals) (V : Services S) (e : Engine S) (event : NodeEvent)
    (e' : Engine S) : Prop :=
  NodeStep C V e event e' ∧ ∀ b, event = .accept b → e.KeepsVoters e'

/-! ### What a step keeps -/

theorem NodeStep.accept_frame {e e' : Engine S} {b : Block} (hstep : NodeStep C V e (.accept b) e') :
    e.chain.addBlock C b = .ok e'.chain ∧ e'.finality = e.finality ∧ e'.cfg = e.cfg := by
  cases hstep with
  | incoming hok =>
    obtain ⟨-, -, -, -, _, -, -, -, _, _, _, -, hchain, -, rfl⟩ := acceptBlock_eq_ok.mp hok
    exact ⟨hchain, rfl, rfl⟩
  | produced hok =>
    obtain ⟨-, -, -, -, -, _, _, _, -, hchain, -, rfl⟩ := commitProduced_eq_ok.mp hok
    exact ⟨hchain, rfl, rfl⟩

namespace Engine

variable {e e' : Engine S} {b : Block} {vote : FinalizeMsg} {event : NodeEvent}

theorem checkVote_eq_ok {x : VoteContext} {u : Unit} : x.checkVote C vote = .ok u ↔
    vote.validatorPub ∈ x.active ∧ vote.authentic C x.fork := by
  simp [VoteContext.checkVote, bind_eq_ok]

theorem VotesBacked.step (hb : e.VotesBacked C) (hstep : VoterKeepingStep C V e event e') :
    e'.VotesBacked C := by
  obtain ⟨hnode, hkeep⟩ := hstep
  cases event with
  | accept b =>
    -- a block changes no record, and the voters stay by assumption
    obtain ⟨-, hfin, hcfg⟩ := hnode.accept_frame
    intro h pub sig hget
    rw [hfin] at hget
    refine ⟨hkeep b rfl h pub sig hget, ?_⟩
    unfold ValidVote
    rw [hcfg]
    exact (hb h pub sig hget).2
  | unstage b =>
    cases hnode
    exact hb
  | vote vote =>
    cases hnode
    intro h pub sig hget
    rcases handleVote_recorded hget with hold | ⟨hcheck, rfl, rfl, rfl⟩
    · exact hb h pub sig hold
    · obtain ⟨hactive, hauth⟩ := checkVote_eq_ok.mp hcheck
      exact ⟨hactive, vote, rfl, rfl, rfl, hauth⟩

end Engine

/-- In a run in which no accepted block (or the epoch it ends) takes a validator with a vote for a
pending block out of the active set, `handleVote` marks a block finalized only with a quorum of
validators that are active at that moment. -/
theorem finalized_with_current_quorum {e0 e : Engine S} {events : List NodeEvent}
    {vote : FinalizeMsg} {height : Nat} (hfresh : e0.finality.votes = ∅)
    (hrun : Run (VoterKeepingStep C V) e0 events e) (hmark : e.Marks C vote height) :
    e.CurrentQuorum C vote := by
  have hinit : e0.VotesBacked C := by
    intro h pub sig hget
    unfold votesFor at hget
    rw [hfresh] at hget
    simp at hget
  have hbacked : e.VotesBacked C :=
    hrun.invariant (·.VotesBacked C) (fun _ _ _ _ hb hstep => hb.step hstep) hinit
  obtain ⟨-, hcheck, hneeded⟩ := handleVote_marks hmark.1 hmark.2
  obtain ⟨hactive, hauth⟩ := checkVote_eq_ok.mp hcheck
  -- the voters are the validators with a record, the new vote included
  refine ⟨((e.finality.record vote).votesFor vote.blockHash).keys, hneeded, fun pub hpub => ?_⟩
  obtain ⟨sig, hget⟩ := GoMap.mem_keys.mp hpub
  rcases record_recorded hget with hold | ⟨-, rfl, rfl⟩
  · obtain ⟨hact, hvalid⟩ := hbacked _ _ _ hold
    exact ⟨hact, sig, hget, hvalid⟩
  · exact ⟨hactive, _, hget, vote, rfl, rfl, rfl, hauth⟩

/-! ### Three validators -/

def firstBlock : Block := blockOn sampleGenesis 2 []

/-- Validators 1, 2 and 3, two thirds plus one of which are needed, and a block nobody voted for. -/
def committee : Engine Unit where
  cfg := { needed := fun n => n * 667 / 1000 + 1 }
  chain := chainOf firstBlock
  registry := ({ utxos := some {} } : ValidatorRegistry).initFromGenesis
    ([1, 2, 3].map sampleValidator) (10 * minStakeNAPR)
  pool := {}
  store := ()

def firstVote (v : UInt8) : FinalizeMsg where
  height := 1
  blockHash := firstBlock.hash hashing
  validatorPub := sampleValidator v
  signature := List.replicate 64 0

/-- The committee with the votes of some validators recorded. -/
def votedCommittee (voters : List UInt8) : Engine Unit :=
  { committee with finality := voters.foldl (fun f v => f.record (firstVote v)) {} }

theorem votedCommittee_active (voters : List UInt8) :
    (votedCommittee voters).activeValidators = [1, 2, 3].map sampleValidator := by
  have hreg : committee.registry.getActiveValidators = [1, 2, 3].map sampleValidator := by
    exact activeSet_eq (by decide) (by decide)
  unfold activeValidators
  rw [show (votedCommittee voters).registry = committee.registry from rfl, hreg]
  rfl

theorem votedCommittee_voteContext (voters : List UInt8) : (votedCommittee voters).voteContext =
    { chain := chainOf firstBlock, active := [1, 2, 3].map sampleValidator, fork := none
      needed := committee.cfg.needed } := by
  unfold voteContext
  rw [votedCommittee_active]
  rfl

set_option maxRecDepth 8000

theorem deliver_first_vote :
    (votedCommittee []).deliver hashing (firstVote 1) = votedCommittee [1] := by
  unfold deliver
  rw [votedCommittee_voteContext]
  rfl

theorem deliver_second_vote :
    (votedCommittee [1]).deliver hashing (firstVote 2) = votedCommittee [1, 2] := by
  unfold deliver
  rw [votedCommittee_voteContext]
  rfl

theorem third_vote_marks : (votedCommittee [1, 2]).Marks hashing (firstVote 3) 1 := by
  unfold Engine.Marks deliver
  rw [votedCommittee_voteContext]
  exact ⟨by decide, Finset.mem_insert_self _ _⟩

/-- Three votes in a row finalize the block. -/
theorem three_votes_finalize :
    (votedCommittee [1, 2]).Marks hashing (firstVote 3) 1 ∧
      (votedCommittee [1, 2]).CurrentQuorum hashing (firstVote 3) := by
  have hrun : Run (VoterKeepingStep hashing idleServices) (votedCommittee [])
      [.vote (firstVote 1), .vote (firstVote 2)] (votedCommittee [1, 2]) := by
    rw [← deliver_second_vote, ← deliver_first_vote]
    exact .cons ⟨.vote, nofun⟩ (.cons ⟨.vote, nofun⟩ (.nil _))
  exact ⟨third_vote_marks, finalized_with_current_quorum rfl hrun third_vote_marks⟩

theorem committee_checkHeader {e : Engine Unit} {parent : Block} {v : UInt8} {txs : List Transaction}
    (hactive : e.activeValidators = [1, 2, 3].map sampleValidator) (htip : e.chain.tip = some parent)
    (hclock : parent.header.timestamp + 1 - 5 ≤ maxClockSkewNs)
    (hheight : parent.header.height ≠ maxUint64) (hround : parent.header.round ≠ maxUint32)
    (hturn : ([1, 2, 3] : List UInt8)[(parent.header.round + 1) % 3]? = some v) :
    e.checkHeader { now := 5 } (blockOn parent v txs) = .ok () := by
  refine checkHeader_eq_ok.mpr ⟨hclock, ⟨parent, htip, hheight, rfl, hround, rfl⟩, ?_, ?_⟩
  · rw [hactive]
    exact List.mem_map_of_mem (List.mem_of_getElem? hturn)
  · intro pub hpub
    have hpub : e.activeValidators[(parent.header.round + 1) % e.activeValidators.length]? =
      some pub := hpub
    rw [hactive, List.length_map, List.getElem?_map] at hpub
    have hlen : ([1, 2, 3] : List UInt8).length = 3 := rfl
    rw [hlen, hturn] at hpub
    exact (Option.some.inj hpub).symm

/-! ### A voter retires -/

/-- Validator 3 includes the withdrawal request of validator 1. -/
def withdrawalBlock : Block := blockOn firstBlock 3 [sampleWithdrawal 1]

def retiredRegistry : ValidatorRegistry :=
  ((votedCommittee [1]).commitRegistry hashing withdrawalBlock).toOption.getD {}

def retiredChain : Chain :=
  ((votedCommittee [1]).chain.addBlock hashing withdrawalBlock).toOption.getD {}

def retiredSlashing : GoMap (Nat × String) SignedSlot :=
  ((votedCommittee [1]).checkSlashing hashing withdrawalBlock).toOption.getD ∅

/-- The committee after the vote of validator 1 and its withdrawal. -/
def retiredCommittee : Engine Unit :=
  { votedCommittee [1] with slashing := retiredSlashing }.advance hashing { now := 5 }
    withdrawalBlock retiredRegistry retiredChain ()

theorem withdrawalBlock_accepted (f : Finality) :
    { committee with finality := f }.acceptBlock hashing idleServices { now := 5 } withdrawalBlock =
      .ok ({ committee with finality := f, slashing := retiredSlashing }.advance hashing { now := 5 }
        withdrawalBlock retiredRegistry retiredChain ()) := by
  have hactive : { committee with finality := f }.activeValidators = [1, 2, 3].map sampleValidator :=
    votedCommittee_active []
  have hheader : { committee with finality := f }.checkHeader { now := 5 } withdrawalBlock =
      .ok () := committee_checkHeader hactive rfl (by decide) (by decide) (by decide) rfl
  exact acceptBlock_eq_ok.mpr
    ⟨rfl, rfl, rfl, hheader, retiredSlashing, rfl, rfl, rfl, retiredRegistry, retiredChain, (), rfl,
      rfl, rfl, rfl⟩

theorem withdrawalBlock_handled : ∃ e', (votedCommittee []).handleIncomingBlock hashing idleServices
    { now := 5 } withdrawalBlock = .ok e' := ⟨_, bind_ok (withdrawalBlock_accepted {}) rfl⟩

theorem retiredCommittee_active :
    retiredCommittee.activeValidators = [2, 3].map sampleValidator := by
  have hreg : retiredRegistry.getActiveValidators = [2, 3].map sampleValidator := by
    exact activeSet_eq (by decide) (by decide)
  unfold activeValidators
  rw [show retiredCommittee.registry = retiredRegistry from rfl, hreg]
  rfl

theorem retiredCommittee_marks : retiredCommittee.Marks hashing (firstVote 2) 1 := by
  have hcontext : retiredCommittee.voteContext =
      { chain := retiredCommittee.chain, active := [2, 3].map sampleValidator, fork := none
        needed := committee.cfg.needed } := by
    unfold voteContext
    rw [retiredCommittee_active]
    rfl
  unfold Engine.Marks deliver
  rw [hcontext]
  exact ⟨by decide, Finset.mem_insert_self _ _⟩

/-- Validator 1 votes and withdraws.  With two validators left two votes are needed; the vote of
validator 2 finalizes the block, although it is the only active voter. -/
theorem retired_vote_finalizes :
    ∃ (events : List NodeEvent) (e : Engine Unit) (vote : FinalizeMsg),
      (votedCommittee []).finality.votes = ∅ ∧ (∀ n, 0 < committee.cfg.needed n) ∧
      Run (NodeStep hashing idleServices) (votedCommittee []) events e ∧ e.Marks hashing vote 1 ∧
      ¬ e.CurrentQuorum hashing vote := by
  refine ⟨[.vote (firstVote 1), .accept withdrawalBlock], retiredCommittee, firstVote 2, rfl,
    fun n => Nat.succ_pos _, ?_, retiredCommittee_marks, ?_⟩
  · refine .cons .vote ?_
    rw [deliver_first_vote]
    exact .cons (.incoming (withdrawalBlock_accepted (votedCommittee [1]).finality)) (.nil _)
  · rintro ⟨voters, hneeded, hvoters⟩
    rw [retiredCommittee_active] at hneeded
    -- the votes on record are those of 1 and 2, and 1 is not active any more
    have hsub : voters ⊆ {sampleValidator 2} := by
      intro pub hpub
      obtain ⟨hactive, sig, hget, -⟩ := hvoters pub hpub
      rw [retiredCommittee_active] at hactive
      rcases record_recorded hget with hold | ⟨-, rfl, -⟩
      · have hfirst : ((({} : Finality).record (firstVote 1)).votesFor
            (firstBlock.hash hashing)).get pub = some sig := hold
        rcases record_recorded hfirst with hnone | ⟨-, rfl, -⟩
        · simp [votesFor] at hnone
        · exact absurd hactive (by decide)
      · exact Finset.mem_singleton_self _
    have hcard := Finset.card_le_card hsub
    exact absurd (hneeded.trans hcard) (by decide)

end Aperod
