import Aperod.Go.Map
import Aperod.Core.Block
import Mathlib.Data.Finset.Max

/-!
# The UTXO set

`UTXOSet` of `utxo.go`: the active outputs with their index by one-time key, the spent key images,
the outputs burned for staking, the pool of spent outputs kept as ring decoys, the per-height
rollback journal and the bounded list of recent outputs.  A block is applied in two passes: a
read-only check of every input (`checkBlockInputs`) and the update itself (`applyTxs`), which
cannot fail.  `rollbackBlock` is the update's intended inverse.

The persistence callbacks of the Go type are not part of the state: they report keys that were
spent, restored or deleted and do not change the set.
-/

namespace Aperod

open Go

structure UTXO where
  txHash : Hash32
  outputIndex : UInt32
  oneTimePub : Point32
  txPubKey : Point32 := 0
  amountCommit : Commitment
  encAmount : BitVec (8 * 8) := 0
  blockHeight : Nat
  protocolLocked : Bool := false
  deriving DecidableEq

/-- `UTXOKey`: an outpoint. -/
structure UTXOKey where
  txHash : Hash32
  outputIndex : UInt32
  deriving DecidableEq

/-- The outpoint of an output. -/
def UTXO.key (u : UTXO) : UTXOKey := ⟨u.txHash, u.outputIndex⟩

/-! ### Spent key images -/

/-- `compactKeyImageSet`: images of this session (`recent`), and older ones either in the database
`kiDB` or, without a database, in a sorted duplicate-free slice, which is the set `sorted`. -/
structure KeyImageSet where
  recent : Finset KeyImage := ∅
  sorted : Finset KeyImage := ∅
  kiDB : Option (Finset KeyImage) := none
  deriving DecidableEq

namespace KeyImageSet

/-- The older tier. -/
def older (c : KeyImageSet) : Finset KeyImage := c.kiDB.getD c.sorted

def contains (c : KeyImageSet) (ki : KeyImage) : Bool := ki ∈ c.recent || ki ∈ c.older

def insert (c : KeyImageSet) (ki : KeyImage) : KeyImageSet :=
  if c.contains ki then c else { c with recent := Insert.insert ki c.recent }

def remove (c : KeyImageSet) (ki : KeyImage) : KeyImageSet :=
  match c.kiDB with
  | some db => { c with recent := c.recent.erase ki, kiDB := some (db.erase ki) }
  | none => { c with recent := c.recent.erase ki, sorted := c.sorted.erase ki }

/-- The recent images move to the older tier.  `written` has the images for which
`MarkKeyImageSpent` returns no error; its errors are dropped. -/
def compact (c : KeyImageSet) (written : KeyImage → Bool) : KeyImageSet :=
  if c.recent = ∅ then c
  else match c.kiDB with
    | some db => { c with recent := ∅, kiDB := some (db ∪ c.recent.filter (written ·)) }
    | none => { c with recent := ∅, sorted := c.sorted ∪ c.recent }

end KeyImageSet

/-! ### The set -/

/-- `RingMemberStore`: the persistent output index, looked up by one-time key. -/
structure RingMemberStore where
  lookup : Point32 → Option UTXO
  lookup_oneTimePub : ∀ pub u, lookup pub = some u → u.oneTimePub = pub

/-- `rollbackEntry`: a spent output and the key it was indexed under. -/
abbrev RollbackEntry := Point32 × UTXO

structure UTXOSet where
  utxos : GoMap UTXOKey UTXO := ∅
  keyImages : KeyImageSet := {}
  byPubKey : GoMap Point32 UTXO := ∅
  stakedUTXOs : GoMap UTXOKey UTXO := ∅
  spentPubKeys : GoMap Point32 UTXO := ∅
  rollbackJournal : GoMap Nat (List RollbackEntry) := ∅
  ringMembers : Option RingMemberStore := none
  clsagActivationHeight : Nat := 0
  clsagRecentOutputs : List UTXOKey := []

def maxSpentDecoys : Nat := 10000
def maxCLSAGRecentOutputs : Nat := 100000
def maxRollbackDepth : Nat := 256

variable (C : Externals)

/-- The form under which a key image is stored: canonical, or raw when it has no canonical form. -/
def spentForm (ki : KeyImage) : KeyImage :=
  match C.canonicalKeyImage ki with
  | .ok canonical => canonical
  | .error _ => ki

namespace UTXOSet

variable (s : UTXOSet)

def get (k : UTXOKey) : Option UTXO := s.utxos.get k

def getByPubKey (pub : Point32) : Option UTXO := s.byPubKey.get pub

/-- `GetRingMember`: an active output, a retained spent one, or one of the persistent index; never
a protocol-locked one. -/
def getRingMember (pub : Point32) : Option UTXO :=
  match (s.byPubKey.get pub).filter (!·.protocolLocked) with
  | some u => some u
  | none =>
    match (s.spentPubKeys.get pub).filter (!·.protocolLocked) with
    | some u => some u
    | none => (s.ringMembers.bind (·.lookup pub)).filter (!·.protocolLocked)

def markSpent (ki : KeyImage) : UTXOSet :=
  { s with keyImages := s.keyImages.insert (spentForm C ki) }

def isSpent (ki : KeyImage) : Bool := s.keyImages.contains (spentForm C ki)

/-- `CompactKeyImages`, with the number of images it moves. -/
def compactKeyImages (written : KeyImage → Bool) : UTXOSet × Nat :=
  ({ s with keyImages := s.keyImages.compact written }, s.keyImages.recent.card)

def hasSpentKeyImage (ki : KeyImage) : Result Bool := do
  let canonical ← wrap "invalid key image" (C.canonicalKeyImage ki)
  .ok (s.keyImages.contains canonical)

def isStaked (k : UTXOKey) : Bool := s.stakedUTXOs.has k

def markStaked (k : UTXOKey) : Result UTXOSet := do
  failIf (s.stakedUTXOs.has k) s!"UTXO {hex8 k.txHash}:{k.outputIndex} already staked"
  match s.utxos.get k with
  | none => fail s!"UTXO {hex8 k.txHash}:{k.outputIndex} not found in active set"
  | some u =>
    .ok { s with
      byPubKey := s.byPubKey.del u.oneTimePub
      utxos := s.utxos.del k
      stakedUTXOs := s.stakedUTXOs.set k u }

def markStakedKnown (k : UTXOKey) (u : UTXO) : UTXOSet :=
  if s.stakedUTXOs.has k then s
  else match s.utxos.get k with
    | some existing =>
      { s with
        byPubKey := s.byPubKey.del existing.oneTimePub
        utxos := s.utxos.del k
        stakedUTXOs := s.stakedUTXOs.set k existing }
    | none => { s with stakedUTXOs := s.stakedUTXOs.set k u }

def unmarkStaked (k : UTXOKey) : UTXOSet :=
  match s.stakedUTXOs.get k with
  | none => s
  | some u =>
    { s with
      stakedUTXOs := s.stakedUTXOs.del k
      utxos := s.utxos.set k u
      byPubKey := s.byPubKey.set u.oneTimePub u }

/-- Drop an active output from both indexes. -/
def evict (k : UTXOKey) : UTXOSet :=
  match s.utxos.get k with
  | none => s
  | some old =>
    { s with byPubKey := s.byPubKey.del old.oneTimePub, utxos := s.utxos.del k }

/-- `trackCLSAGRecentLocked`: remember the output as recent, and evict the oldest beyond the cap. -/
def trackCLSAGRecent (key : UTXOKey) (height : Nat) : UTXOSet :=
  if (s.utxos.get key).any (·.protocolLocked) then s
  else if s.clsagActivationHeight = 0 ∨ height < s.clsagActivationHeight then s
  else
    let recent := s.clsagRecentOutputs ++ [key]
    if recent.length ≤ maxCLSAGRecentOutputs then { s with clsagRecentOutputs := recent }
    else evict { s with clsagRecentOutputs := recent.tail } (recent.headD key)

end UTXOSet

/-! ### Pass 1: checking the inputs of a block -/

/-- `stateTransitionRingMembers`: the ring members an input may take its output from. -/
def stateTransitionRingMembers (tx : Transaction) (inp : RingInput) : List Point32 :=
  if tx.isLPoDPosition then inp.ring.take 1
  else if tx.version ≠ .commitmentBinding then inp.ring
  else (inp.ring.drop inp.realIndex.toNat).take 1

/-- The local maps of pass 1: key images met so far and outputs reserved so far, each with the
index of the first transaction that uses it. -/
structure Reserved where
  seen : GoMap KeyImage Nat := ∅
  consumed : GoMap UTXOKey Nat := ∅

/-- The ring walk of a legacy input: the first active member with the input's commitment that the
block has not consumed yet; `alreadyReserved` remembers one that it has. -/
def resolveLegacy (byPubKey : GoMap Point32 UTXO) (consumed : GoMap UTXOKey Nat)
    (commit : Commitment) : Option UTXO → List Point32 → Except (Option UTXO) UTXO
  | alreadyReserved, [] => .error alreadyReserved
  | alreadyReserved, m :: ms =>
    match (byPubKey.get m).filter (·.amountCommit = commit) with
    | none => resolveLegacy byPubKey consumed commit alreadyReserved ms
    | some candidate =>
      if consumed.has candidate.key then
        resolveLegacy byPubKey consumed commit (some candidate) ms
      else .ok candidate

/-- The active output an input of a disclosed spend stands for. -/
def UTXOSet.resolveInput (s : UTXOSet) (pos : String) (tx : Transaction) (inp : RingInput)
    (r : Reserved) : Result UTXO :=
  if tx.version = .commitmentBinding then do
    let m ← index inp.ring inp.realIndex.toNat
    match s.byPubKey.get m with
    | none => fail s!"{pos}: v4 real member is not an active UTXO"
    | some u =>
      failIf (u.amountCommit ≠ inp.amountCommit) s!"{pos}: v4 real member commitment mismatch"
      .ok u
  else match resolveLegacy s.byPubKey r.consumed inp.amountCommit none inp.ring with
    | .ok u => .ok u
    | .error (some u) =>
      fail s!"{pos}: UTXO {hex8 u.txHash}:{u.outputIndex} already consumed within block"
    | .error none => fail s!"{pos}: no active ring member has matching commitment"

/-- Pass 1 for one input of an ordinary transaction. -/
def UTXOSet.checkInput (s : UTXOSet) (height txIdx : Nat) (tx : Transaction) (inputIdx : Nat)
    (inp : RingInput) (r : Reserved) : Result Reserved := do
  failIf (tx.version = .commitmentBinding ∧ inp.realIndex.toNat ≥ inp.ring.length)
    s!"block {height} tx[{txIdx}]: v4 real index {inp.realIndex.toNat} out of range"
  let canonical ← wrap s!"block {height} tx[{txIdx}]: invalid key image"
    (C.canonicalKeyImage inp.keyImage)
  failIf (s.keyImages.contains canonical)
    s!"double-spend detected: key image {hex8 inp.keyImage} in block {height} (historical)"
  failSome (r.seen.get canonical) fun firstIdx =>
    s!"double-spend detected: key image {hex8 inp.keyImage} in block {height} (within-block: tx[{firstIdx}] and tx[{txIdx}])"
  let r := { r with seen := r.seen.set canonical txIdx }
  if tx.usesCLSAG then .ok r
  else
    let resolved ← s.resolveInput s!"block {height} tx[{txIdx}] input[{inputIdx}]" tx inp r
    failSome (r.consumed.get resolved.key) fun firstIdx =>
      s!"block {height} tx[{txIdx}] input[{inputIdx}]: UTXO {hex8 resolved.txHash}:{resolved.outputIndex} already consumed by tx[{firstIdx}]"
    .ok { r with consumed := r.consumed.set resolved.key txIdx }

/-- Pass 1 for the key image of a v4 stake deposit. -/
def UTXOSet.checkStakeKeyImage (s : UTXOSet) (height txIdx : Nat) (tx : Transaction)
    (r : Reserved) : Result Reserved := do
  let p ← wrap s!"block {height} tx[{txIdx}]: decode stake key image" (decodeStakeExtraV4 tx.extra)
  let canonical ← wrap s!"block {height} tx[{txIdx}]: invalid stake key image"
    (C.canonicalKeyImage p.keyImage)
  failIf (s.keyImages.contains canonical)
    s!"stake key image {hex8 p.keyImage} is already spent at block {height}"
  failSome (r.seen.get canonical) fun firstIdx =>
    s!"key image {hex8 p.keyImage} reused by tx[{firstIdx}] and stake tx[{txIdx}] in block {height}"
  .ok { r with seen := r.seen.set canonical txIdx }

/-- Pass 1 for one transaction.  A stake transaction contributes the key image of a v4 deposit and
nothing else: its inputs are not looked at. -/
def UTXOSet.checkTx (s : UTXOSet) (height txIdx : Nat) (tx : Transaction) (r : Reserved) :
    Result Reserved :=
  if tx.isStake ∧ tx.extra.length = stakePayloadSizeV4 then s.checkStakeKeyImage C height txIdx tx r
  else if tx.isCoinbase || tx.isStake then .ok r
  else loop (s.checkInput C height txIdx tx) 0 tx.inputs r

/-- Pass 1 of `ApplyBlock`. -/
def UTXOSet.checkBlockInputs (s : UTXOSet) (b : Block) : Result Reserved :=
  loop (s.checkTx C b.header.height) 0 b.txs {}

/-! ### Pass 2: applying the block -/

/-- Keep the journal within `maxRollbackDepth` heights by dropping the lowest. -/
def pruneJournal (j : GoMap Nat (List RollbackEntry)) : GoMap Nat (List RollbackEntry) :=
  if j.len > maxRollbackDepth then
    match j.keys.min with
    | some oldest => j.del oldest
    | none => j
  else j

/-- Take the output `u`, indexed under `m`, out of the active set at `height`. -/
def UTXOSet.spend (s : UTXOSet) (height : Nat) (m : Point32) (u : UTXO) : UTXOSet :=
  { s with
    byPubKey := s.byPubKey.del m
    utxos := s.utxos.del u.key
    rollbackJournal := pruneJournal
      (s.rollbackJournal.set height ((s.rollbackJournal.get height).getD [] ++ [(m, u)]))
    spentPubKeys :=
      if s.spentPubKeys.len < maxSpentDecoys then s.spentPubKeys.set m u else s.spentPubKeys }

/-- The first of `members` that is active with commitment `commit`, and its output. -/
def UTXOSet.findMember (s : UTXOSet) (commit : Commitment) : List Point32 → Option RollbackEntry
  | [] => none
  | m :: ms =>
    match (s.byPubKey.get m).filter (·.amountCommit = commit) with
    | some u => some (m, u)
    | none => s.findMember commit ms

/-- Pass 2 for one input: mark its key image and, unless the spend is hidden, remove its output. -/
def UTXOSet.applyInput (height : Nat) (tx : Transaction) (s : UTXOSet) (inp : RingInput) :
    UTXOSet :=
  let s := { s with keyImages := s.keyImages.insert (spentForm C inp.keyImage) }
  if tx.usesCLSAG then s
  else match s.findMember inp.amountCommit (stateTransitionRingMembers tx inp) with
    | some (m, u) => s.spend height m u
    | none => s

/-- The canonical key image a v4 stake payload carries. -/
def stakeKeyImage (tx : Transaction) : Option KeyImage :=
  if tx.isStake ∧ tx.extra.length = stakePayloadSizeV4 then
    match decodeStakeExtraV4 tx.extra with
    | .ok p =>
      match C.canonicalKeyImage p.keyImage with
      | .ok canonical => some canonical
      | .error _ => none
    | .error _ => none
  else none

/-- The output record `applyTxsLocked` makes from `tx.Outputs[i]`. -/
def Transaction.utxo (tx : Transaction) (height : Nat) (out : Output) (i : Nat) : UTXO where
  txHash := tx.hash C
  outputIndex := UInt32.ofNat i
  oneTimePub := out.oneTimePub
  txPubKey := out.txPubKey
  amountCommit := out.amountCommit
  encAmount := out.encAmount
  blockHeight := height
  protocolLocked := tx.isGuardianFund

/-- Pass 2 for one output record. -/
def UTXOSet.addOutput (height : Nat) (s : UTXOSet) (u : UTXO) : UTXOSet :=
  UTXOSet.trackCLSAGRecent
    { s with
      utxos := s.utxos.set u.key u
      byPubKey := if u.protocolLocked then s.byPubKey else s.byPubKey.set u.oneTimePub u }
    u.key height

/-- The output records of a transaction. -/
def Transaction.utxos (tx : Transaction) (height : Nat) : List UTXO :=
  tx.outputs.zipIdx.map fun (out, i) => tx.utxo C height out i

/-- Pass 2 for one transaction. -/
def UTXOSet.applyTx (height : Nat) (s : UTXOSet) (tx : Transaction) : UTXOSet :=
  let s := tx.inputs.foldl (UTXOSet.applyInput C height tx) s
  let s := match stakeKeyImage C tx with
    | some ki => { s with keyImages := s.keyImages.insert ki }
    | none => s
  (tx.utxos C height).foldl (UTXOSet.addOutput height) s

/-- `applyTxsLocked`, which is also all of `ReplayBlockKnownSpends`. -/
def UTXOSet.applyTxs (s : UTXOSet) (b : Block) : UTXOSet :=
  b.txs.foldl (UTXOSet.applyTx C b.header.height) s

def UTXOSet.applyBlock (s : UTXOSet) (b : Block) : Result UTXOSet := do
  let _ ← s.checkBlockInputs C b
  .ok (s.applyTxs C b)

/-! ### Rollback -/

/-- Make a spent output active again under `m`, and take it out of the decoy pool. -/
def UTXOSet.restore (s : UTXOSet) (e : RollbackEntry) : UTXOSet :=
  { s with
    utxos := s.utxos.set e.2.key e.2
    byPubKey := s.byPubKey.set e.1 e.2
    spentPubKeys := s.spentPubKeys.del e.1 }

/-- Step 1 of `RollbackBlock`: restore every journal entry of the height and drop the height. -/
def UTXOSet.restoreJournal (s : UTXOSet) (height : Nat) : UTXOSet :=
  let s' := ((s.rollbackJournal.get height).getD []).foldl UTXOSet.restore s
  { s' with rollbackJournal := s'.rollbackJournal.del height }

/-- The decoy-pool fallback for one input: the first pooled member with the input's commitment,
unless a member restored from the journal comes before it. -/
def UTXOSet.findPooled (s : UTXOSet) (journalRestored : List Point32) (commit : Commitment) :
    List Point32 → Option RollbackEntry
  | [] => none
  | m :: ms =>
    if m ∈ journalRestored then none
    else match (s.spentPubKeys.get m).filter (·.amountCommit = commit) with
      | some u => some (m, u)
      | none => s.findPooled journalRestored commit ms

/-- Step 2 of `RollbackBlock` for one input. -/
def UTXOSet.rollbackInput (journalRestored : List Point32) (tx : Transaction) (s : UTXOSet)
    (inp : RingInput) : UTXOSet :=
  let s := { s with keyImages := s.keyImages.remove (spentForm C inp.keyImage) }
  match s.findPooled journalRestored inp.amountCommit (stateTransitionRingMembers tx inp) with
  | some e => s.restore e
  | none => s

/-- Step 2 of `RollbackBlock` for one output record. -/
def UTXOSet.removeOutput (s : UTXOSet) (u : UTXO) : UTXOSet :=
  { s with utxos := s.utxos.del u.key, byPubKey := s.byPubKey.del u.oneTimePub }

/-- Step 2 of `RollbackBlock` for one transaction. -/
def UTXOSet.rollbackTx (journalRestored : List Point32) (height : Nat) (s : UTXOSet)
    (tx : Transaction) : UTXOSet :=
  let s := (tx.utxos C height).foldl UTXOSet.removeOutput s
  let s := tx.inputs.foldl (UTXOSet.rollbackInput C journalRestored tx) s
  match stakeKeyImage C tx with
  | some ki => { s with keyImages := s.keyImages.remove ki }
  | none => s

/-- `RollbackBlock`, with persistence callbacks that succeed. -/
def UTXOSet.rollbackBlock (s : UTXOSet) (b : Block) : UTXOSet :=
  let journalRestored := ((s.rollbackJournal.get b.header.height).getD []).map Prod.fst
  b.txs.foldl (UTXOSet.rollbackTx C journalRestored b.header.height)
    (s.restoreJournal b.header.height)

end Aperod
