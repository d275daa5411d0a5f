import Aperod.Core.Chain
import Aperod.Core.Registry

/-!
# Finalization votes

`handleVote` of `consensus/poa.go` with the maps it keeps: the votes recorded for each pending block,
votes staged for blocks that have not arrived, the finalized heights and the stored certificate.

A vote goes through four stages: the signer must be active and the signature valid (`checkVote`); a
vote for a height without a block is staged (`stageVote`); otherwise it is recorded (`record`) and, at
the threshold, the block is marked finalized (`finalize`); last, old records are pruned (`prune`).
The threshold `int(float64(n)*BFTThreshold)+1` is the parameter `needed`.
-/

namespace Aperod

open Go

structure FinalizeMsg where
  blockHash : Hash32
  height : Nat
  validatorPub : ValidatorPubKey
  signature : Bytes
  deriving DecidableEq

structure FutureVoteKey where
  height : Nat
  hash : Hash32
  pub : ValidatorPubKey
  deriving DecidableEq

structure FinalityCertificate where
  height : Nat
  blockHash : Hash32
  votes : GoMap ValidatorPubKey Bytes

def futureVoteWindow : Nat := 2
def futureVoteLimit : Nat := 256
def votePruneDepth : Nat := 256

/-- The vote state of the engine, and the certificate in its store. -/
structure Finality where
  votes : GoMap Hash32 (GoMap ValidatorPubKey Bytes) := ∅
  pendingVoteHeight : GoMap Hash32 Nat := ∅
  futureVotes : GoMap FutureVoteKey FinalizeMsg := ∅
  finalized : Finset Nat := ∅
  lpodFinalizedHashes : GoMap Nat Hash32 := ∅
  certificate : Option FinalityCertificate := none

/-- What `handleVote` reads of the rest of the engine. -/
structure VoteContext where
  chain : Chain
  active : List ValidatorPubKey
  fork : Option ValidatorAuthorityFork
  needed : Nat → Nat
  /-- A durable store is configured. -/
  durable : Bool := true

variable (C : Externals)

/-- The message a vote signs. -/
def finalizeMessage (blockHash : Hash32) : Hash32 :=
  C.hashBytes (ascii "aperod/finalize/v1" ++ Bytes32.bytes blockHash)

/-- The signature of a vote is valid for the key that signs for the validator at its height. -/
def FinalizeMsg.authentic (fork : Option ValidatorAuthorityFork) (vote : FinalizeMsg) : Bool :=
  ValidatorPubKey.verify C (authority fork vote.validatorPub vote.height)
    (finalizeMessage C vote.blockHash) vote.signature

/-- The first checks of `handleVote`. -/
def VoteContext.checkVote (x : VoteContext) (vote : FinalizeMsg) : Result Unit := do
  failIf (vote.validatorPub ∉ x.active)
    s!"vote from unknown validator {ValidatorPubKey.id vote.validatorPub}"
  failIf (¬ vote.authentic C x.fork)
    s!"invalid vote signature from {ValidatorPubKey.id vote.validatorPub}"

namespace Finality

variable (f : Finality) (x : VoteContext) (vote : FinalizeMsg)

/-- The votes recorded for a block. -/
def votesFor (blockHash : Hash32) : GoMap ValidatorPubKey Bytes := (f.votes.get blockHash).getD ∅

/-- The branch of `handleVote` for a height that has no block yet. -/
def stageVote : Result Finality :=
  match x.chain.tip with
  | none => fail "finality vote does not identify a canonical block at its claimed height"
  | some tip => do
    failIf (vote.height ≤ tip.header.height ∨ tip.header.height > maxUint64 - futureVoteWindow ∨
        vote.height > tip.header.height + futureVoteWindow)
      "finality vote does not identify a canonical block at its claimed height"
    failIf (x.chain.getByHash vote.blockHash ≠ none)
      "finality vote rebinds a known block hash to another height"
    let key : FutureVoteKey := ⟨vote.height, vote.blockHash, vote.validatorPub⟩
    failIf (f.futureVotes.has key) "duplicate staged finality vote"
    failIf (f.futureVotes.len ≥ futureVoteLimit) "future finality vote queue is full"
    .ok { f with futureVotes := f.futureVotes.set key vote }

/-- Record a vote; the height of a block is noted with its first vote. -/
def record : Finality :=
  { f with
    votes := f.votes.set vote.blockHash
      ((f.votesFor vote.blockHash).set vote.validatorPub vote.signature)
    pendingVoteHeight :=
      if f.votes.has vote.blockHash then f.pendingVoteHeight
      else f.pendingVoteHeight.set vote.blockHash vote.height }

/-- The checks of `SaveFinalityCertificate`: no certificate below or beside the stored one. -/
def checkCertificate (c : FinalityCertificate) : Result Unit := do
  failIf (c.blockHash = 0 ∨ c.votes.len = 0) "finality: invalid certificate"
  match f.certificate with
  | some prior => do
    failIf (c.height < prior.height) "finality: refusing certificate height regression"
    failIf (c.height = prior.height ∧ c.blockHash ≠ prior.blockHash)
      s!"finality: conflicting certificate at height {c.height}"
  | none => .ok ()

/-- `SaveFinalityCertificate`, on a store whose writes succeed. -/
def saveCertificate (c : FinalityCertificate) : Result Finality := do
  f.checkCertificate c
  .ok { f with certificate := some c }

/-- Persist a certificate, when a store is configured. -/
def persist (c : FinalityCertificate) : Result Finality :=
  if x.durable then wrap "finality: persist quorum certificate" (f.saveCertificate c) else .ok f

/-- The quorum branch of `handleVote`: store a certificate, mark the height finalized and drop the
records of the block. -/
def finalize : Result Finality := do
  failIf (∃ pub ∈ (f.votesFor vote.blockHash).keys, pub.length ≠ 32)
    "finality: corrupt in-memory validator identity"
  let f ← f.persist x ⟨vote.height, vote.blockHash, f.votesFor vote.blockHash⟩
  .ok { f with
    finalized := insert vote.height f.finalized
    lpodFinalizedHashes := f.lpodFinalizedHashes.set vote.height vote.blockHash
    votes := f.votes.del vote.blockHash
    pendingVoteHeight := f.pendingVoteHeight.del vote.blockHash }

/-- Forget the records of heights far below the vote. -/
def prune : Finality :=
  if vote.height > votePruneDepth then
    let pruneBelow := vote.height - votePruneDepth
    { f with
      votes := f.votes.filter fun bh _ => !(f.pendingVoteHeight.get bh).any (· < pruneBelow)
      pendingVoteHeight := f.pendingVoteHeight.filter fun _ ht => ¬ ht < pruneBelow
      lpodFinalizedHashes := f.lpodFinalizedHashes.filter fun h _ =>
        ¬ (h ∈ f.finalized ∧ h < pruneBelow)
      finalized := f.finalized.filter fun h => ¬ h < pruneBelow }
  else f

/-- `handleVote` for a vote that names a block of the chain which is not finalized yet.  An error
after the vote was recorded leaves it recorded. -/
def countVote : Result Unit × Finality :=
  if (f.votesFor vote.blockHash).has vote.validatorPub then (.ok (), f)
  else
    let f := f.record vote
    if (f.votesFor vote.blockHash).len ≥ x.needed x.active.length then
      match f.finalize x vote with
      | .ok f' => (.ok (), f'.prune vote)
      | .error e => (.error e, f)
    else (.ok (), f.prune vote)

/-- `handleVote`: its result, and the vote state it leaves. -/
def handleVote : Result Unit × Finality :=
  match x.checkVote C vote with
  | .error e => (.error e, f)
  | .ok () =>
    match x.chain.getByHeight vote.height with
    | none =>
      match f.stageVote x vote with
      | .ok f' => (.ok (), f')
      | .error e => (.error e, f)
    | some block =>
      if block.header.height ≠ vote.height ∨ block.hash C ≠ vote.blockHash then
        (fail "finality vote does not identify a canonical block at its claimed height", f)
      else if vote.height ∈ f.finalized then (.ok (), f)
      else f.countVote x vote

/-- The staged votes `replayFutureVotes` hands back to `handleVote`, along one order of the map. -/
def stagedFor (order : List (FutureVoteKey × FinalizeMsg)) (b : Block) : List FinalizeMsg :=
  (order.filter fun e => e.1.height = b.header.height ∧ e.1.hash = b.hash C).map Prod.snd

/-- The votes `replayFutureVotes` leaves staged. -/
def unstage (b : Block) : Finality :=
  { f with futureVotes := f.futureVotes.filter fun key _ => key.height > b.header.height }

/-- `replayFutureVotes`; errors are logged and dropped. -/
def replayFutureVotes (order : List (FutureVoteKey × FinalizeMsg)) (b : Block) : Finality :=
  (stagedFor C order b).foldl (fun f vote => (f.handleVote C x vote).2) (f.unstage b)

end Finality

end Aperod
