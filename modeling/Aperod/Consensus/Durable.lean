import Aperod.Consensus.Accept

/-!
# What an engine restores

`store.DB` as far as `NewEngine` reads it: the canonical blocks with their height index and tip, the
finality certificate, and the last vote this node signed.  A block body is kept as the block itself.

* `restoreFinalityCertificate` checks the stored certificate against the canonical chain and the
  current committee, or the one a signed migration names.
* `restoreLocalFinalityVote` checks that the stored vote is for an ancestor of the durable tip.
* `restore` is the part of `NewEngine` that calls both.
* `saveLocalFinalityVote` is the only writer of that vote.
-/

namespace Aperod

open Go

variable (C : Externals) {S : Type}

/-! ### The durable chain -/

/-- The blocks of `store.DB`.  A tip that was never set reads as zeroes. -/
structure BlockStore where
  tip : Hash32 × Nat := (0, 0)
  heightIndex : GoMap Nat Hash32 := ∅
  rawBlocks : GoMap Hash32 Block := ∅

namespace BlockStore

variable (d : BlockStore)

/-- `CommitRawBlockWithAVM`: body, height index and tip in one write. -/
def commitRawBlock (b : Block) : BlockStore where
  tip := (b.hash C, b.header.height)
  heightIndex := d.heightIndex.set b.header.height (b.hash C)
  rawBlocks := d.rawBlocks.set (b.hash C) b

/-- `PutTip`; bodies and index stay. -/
def putTip (hash : Hash32) (height : Nat) : BlockStore := { d with tip := (hash, height) }

end BlockStore

/-! ### Certificates -/

/-- `FinalityCommitteeMigration`: a committee that other validators attest for one certificate. -/
structure FinalityCommitteeMigration where
  version : Nat := 1
  genesis : Hash32
  certificateHeight : Nat
  certificateBlockHash : Hash32
  approvalHeight : Nat
  approvalBlockHash : Hash32
  bftThresholdPPM : Nat
  historicalCommittee : List ValidatorPubKey
  approvals : List (ValidatorPubKey × Bytes)

/-- What the node configuration says about a migration.  `thresholdPPM` is
`math.Round(BFTThreshold * 1_000_000)` when it is from 1 to 999999. -/
structure MigrationConfig where
  migration : Option FinalityCommitteeMigration := none
  trustAuthorities : List ValidatorPubKey := []
  thresholdPPM : Option Nat := none

/-- `isZeroFinalityKey`, `isZeroFinalityValidator`. -/
def isZeroFinalityKey (key : ValidatorPubKey) : Bool := key = List.replicate 32 0

/-- Keys in ascending order, each once: `keys[i]` against `keys[i-1]`. -/
def checkAscending (keys : List ValidatorPubKey) (msg : String) (i : Nat) (key : ValidatorPubKey) :
    Result Unit :=
  failIf (i > 0 ∧ (keys[i - 1]?).any fun prev => ¬ prev < key) msg

def FinalityCommitteeMigration.signingMessage (m : FinalityCommitteeMigration) : Result Hash32 := do
  failIf (m.version ≠ 1 ∨ m.genesis = 0 ∨ m.certificateHeight = 0 ∨ m.certificateBlockHash = 0 ∨
      m.approvalHeight < m.certificateHeight ∨ m.approvalBlockHash = 0 ∨ m.bftThresholdPPM = 0 ∨
      m.bftThresholdPPM ≥ 1000000 ∨ m.historicalCommittee.length = 0 ∨
      m.historicalCommittee.length > 256)
    "finality migration: invalid header or committee"
  checkAll (fun i validator => do
    failIf (validator.length ≠ 32 ∨ isZeroFinalityKey validator)
      "finality migration: invalid historical validator key"
    checkAscending m.historicalCommittee
      "finality migration: historical committee must be sorted and unique" i validator)
    0 m.historicalCommittee
  checkAll (fun i approval => do
    failIf (approval.1.length ≠ 32 ∨ isZeroFinalityKey approval.1 ∨ approval.2.length ≠ 64)
      "finality migration: malformed approval"
    checkAscending (m.approvals.map Prod.fst)
      "finality migration: approvals must be sorted and unique" i approval.1)
    0 m.approvals
  .ok (C.hashBytes (ascii "aperod/finality-committee-migration/v1\x00" ++ beBytes 1 m.version ++
    m.genesis.bytes ++ beBytes 8 m.certificateHeight ++
    m.certificateBlockHash.bytes ++ beBytes 8 m.approvalHeight ++
    m.approvalBlockHash.bytes ++ beBytes 4 m.bftThresholdPPM ++
    beBytes 4 m.historicalCommittee.length ++ m.historicalCommittee.flatten))

/-- The loops over approvals and over certificate votes: each is of a member, the first of that
member, and verifies. -/
def countSigners (members : List ValidatorPubKey) (verify : ValidatorPubKey → Bytes → Bool)
    (msg : String) (votes : List (ValidatorPubKey × Bytes)) : Result (List ValidatorPubKey) :=
  loop (fun _ vote seen => do
    failIf (vote.1 ∉ members ∨ vote.1 ∈ seen ∨ verify vote.1 vote.2 = false) msg
    .ok (vote.1 :: seen)) 0 votes []

namespace Engine

variable (e : Engine S) (db : BlockStore)

/-- `verifyFinalityCommitteeMigration`: the committee the migration attests. -/
def verifyFinalityCommitteeMigration (cfg : MigrationConfig) (m : FinalityCommitteeMigration)
    (c : FinalityCertificate) : Result (List ValidatorPubKey) :=
  match e.chain.genesis, e.chain.tip with
  | some genesis, some tip => do
    failIf (m.genesis ≠ genesis.hash C) "finality migration: network genesis mismatch"
    failIf (m.certificateHeight ≠ c.height ∨ m.certificateBlockHash ≠ c.blockHash)
      "finality migration: certificate binding mismatch"
    failIf (m.approvalHeight > tip.header.height)
      "finality migration: approval anchor is above the canonical tip"
    failIf (db.tip ≠ (tip.hash C, tip.header.height))
      "finality migration: durable tip does not match the canonical chain"
    failIf (db.heightIndex.get m.approvalHeight ≠ some m.approvalBlockHash)
      "finality migration: approval anchor is not canonical"
    failIf (cfg.thresholdPPM ≠ some m.bftThresholdPPM)
      "finality migration: quorum rule does not match node configuration"
    failIf (cfg.trustAuthorities.length = 0 ∨ cfg.trustAuthorities.length > 256)
      "finality migration: explicit trust authorities are required"
    let _ ← loop (fun _ authority trusted => do
      failIf (authority.length ≠ 32 ∨ isZeroFinalityKey authority)
        "finality migration: malformed trust authority"
      failIf (authority ∈ trusted) "finality migration: duplicate trust authority"
      .ok (authority :: trusted)) 0 cfg.trustAuthorities []
    let message ← m.signingMessage C
    let verified ← countSigners cfg.trustAuthorities
      (fun pub sig => ValidatorPubKey.verify C
        (authority e.cfg.validatorAuthorityFork pub m.approvalHeight) message sig)
      "finality migration: invalid, duplicate, or untrusted approval" m.approvals
    let neededApprovals := e.cfg.needed cfg.trustAuthorities.length
    failIf (verified.length < neededApprovals)
      s!"finality migration: {verified.length} approvals, need {neededApprovals}"
    .ok m.historicalCommittee
  | _, _ => fail "finality migration: network genesis mismatch"

/-- The certificate is of a block of the canonical chain. -/
def checkCertified (c : FinalityCertificate) : Result Unit :=
  match e.chain.tip with
  | none => fail "finality: certificate is above the canonical tip"
  | some tip =>
    if c.height > tip.header.height then fail "finality: certificate is above the canonical tip"
    else if c.height = tip.header.height then
      failIf (tip.hash C ≠ c.blockHash) "finality: certificate does not match the canonical tip"
    else do
      failIf (db.tip ≠ (tip.hash C, tip.header.height))
        "finality: stored tip does not match the canonical chain"
      failIf (db.heightIndex.get c.height ≠ some c.blockHash)
        "finality: certificate does not match the canonical height index"
      match db.rawBlocks.get c.blockHash with
      | none => fail "finality: certified canonical block body unavailable"
      | some b =>
        failIf (b.header.height ≠ c.height ∨ b.hash C ≠ c.blockHash)
          "finality: certified block body does not match the canonical height index"

/-- The committee a certificate is checked against. -/
def certificateCommittee (cfg : MigrationConfig) (c : FinalityCertificate) :
    Result (List ValidatorPubKey) :=
  match cfg.migration with
  | some m => e.verifyFinalityCommitteeMigration C db cfg m c
  | none => do
    failIf (cfg.trustAuthorities ≠ [])
      "finality: migration authorities configured without a migration file"
    .ok e.activeValidators

/-- `restoreFinalityCertificate`, on the certificate of the store with its votes in the order they
were written. -/
def restoreFinalityCertificate (cfg : MigrationConfig) (votes : List (ValidatorPubKey × Bytes)) :
    Result (Engine S) :=
  match e.finality.certificate with
  | none => do
    failIf (cfg.migration.isSome ∨ cfg.trustAuthorities ≠ [])
      "finality: migration configured without its durable certificate"
    .ok e
  | some c => do
    e.checkCertified C db c
    let committee ← e.certificateCommittee C db cfg c
    let seen ← countSigners committee
      (fun pub sig =>
        FinalizeMsg.authentic C e.cfg.validatorAuthorityFork ⟨c.blockHash, c.height, pub, sig⟩)
      "finality: invalid, duplicate, or non-committee certificate vote" votes
    let needed := e.cfg.needed committee.length
    failIf (seen.length < needed) s!"finality: certificate has {seen.length} votes, need {needed}"
    .ok { e with finality := { e.finality with
      finalized := insert c.height e.finality.finalized
      lpodFinalizedHashes := e.finality.lpodFinalizedHashes.set c.height c.blockHash } }

end Engine

/-! ### The node's own votes -/

/-- `SaveLocalFinalityVote`, on a store whose write succeeds: the vote that is stored then. -/
def saveLocalFinalityVote (stored : Option FinalizeMsg) (v : FinalizeMsg) :
    Result (Option FinalizeMsg) := do
  failIf (v.blockHash = 0 ∨ v.signature = []) "finality: invalid local vote"
  match stored with
  | none => .ok (some v)
  | some prior => do
    failIf (v.height < prior.height) "finality: refusing local vote height regression"
    failIf (v.height = prior.height ∧
        (v.blockHash ≠ prior.blockHash ∨ v.validatorPub ≠ prior.validatorPub))
      s!"finality: conflicting local vote at height {v.height}"
    .ok (some v)

/-- The loop of `verifyLocalVoteAncestry`, from a height and the hash its block must have. -/
def BlockStore.checkAncestry (d : BlockStore) (voteHeight : Nat) (voteHash : Hash32) :
    Nat → Hash32 → Result Unit
  | height, hash => do
    failIf (d.heightIndex.get height ≠ some hash)
      s!"canonical height index {height} conflicts with durable tip ancestry"
    match d.rawBlocks.get hash with
    | none => fail s!"block {hex8 hash} in local vote ancestry is unavailable"
    | some b =>
      failIf (b.header.height ≠ height ∨ b.hash C ≠ hash)
        s!"block body at height {height} conflicts with durable tip ancestry"
      if height = voteHeight then
        failIf (hash ≠ voteHash) "local vote block is not an ancestor of the durable tip"
      else match height with
        | 0 => fail "local vote height is below durable genesis"
        | h + 1 => d.checkAncestry voteHeight voteHash h b.header.prevHash

namespace Engine

variable (e : Engine S) (db : BlockStore)

def verifyLocalVoteAncestry (voteHeight : Nat) (voteHash : Hash32) : Result Unit := do
  failIf (db.tip.1 = 0 ∨ db.tip.2 < voteHeight) "local vote is above the durable tip"
  match e.chain.tip with
  | none => fail "durable tip does not match the in-memory canonical tip"
  | some tip => do
    failIf ((tip.hash C, tip.header.height) ≠ db.tip)
      "durable tip does not match the in-memory canonical tip"
    db.checkAncestry C voteHeight voteHash db.tip.2 db.tip.1

/-- `restoreLocalFinalityVote`: the vote the engine starts with. -/
def restoreLocalFinalityVote (stored : Option FinalizeMsg) : Result (Option FinalizeMsg) :=
  match stored with
  | none => .ok none
  | some vote => do
    failIf (vote.validatorPub ∉ e.activeValidators) "local vote signer is not a current validator"
    failIf (¬ vote.authentic C e.cfg.validatorAuthorityFork) "local vote signature is invalid"
    e.verifyLocalVoteAncestry C db vote.height vote.blockHash
    .ok (some vote)

/-- The restores of `NewEngine`, on the engine it has built by then: the engine and its
`latestLocalVote`.  A restore that fails halts the engine. -/
def restore (cfg : MigrationConfig) (votes : List (ValidatorPubKey × Bytes))
    (stored : Option FinalizeMsg) : Engine S × Option FinalizeMsg :=
  let e :=
    match e.restoreFinalityCertificate C db cfg votes with
    | .ok e' => e'
    | .error _ => { e with halted := true }
  match e.restoreLocalFinalityVote C db stored with
  | .ok vote => (e, vote)
  | .error _ => ({ e with halted := true }, none)

end Engine

end Aperod
