import Aperod.Lpod.Equiv.Allocation
import Aperod.Lpod.Equiv.Order
import Aperod.Lpod.Transparent

/-!
# A node can load what it committed

When a checkpoint is loaded, the loader derives all its identities again: the accounting state, the
totals of the positions, the carries, the allocation with its pool, the genesis reserve, the digest
in the block, and the record of the block that funded the reserve.  A commit checks only what it
computes itself.  This is enough (`committed_checkpoint_loads`).

`Kept` is what a run preserves about one stored checkpoint, and `DB.Sound` about all of them.  A new
block never overwrites the block of a stored checkpoint, because its own checkpoint has another height
(`no_checkpoint_overwritten`).
-/

namespace Aperod.Lpod

open Go GoMap Checkpoint

variable {C : Externals} {K : Encodings} {o o' : RangeOrder} {d d' : DB} {hash : Hash32}
  {c next : Checkpoint} {a : Allocation} {height : UInt64} {r : Settlement}
variable {activatingSales : Bool} {hash0 : Hash32} {fa : Allocation} {fc next' : Checkpoint}
  {t : Transition} {migration : Option Migration}

/-! ### The funding block in the allocation -/

def Checkpoint.withFunding (c : Checkpoint) (hash : Hash32) : Checkpoint :=
  { c with allocation := c.allocation.map fun a => { a with fundingBlock := hash } }

theorem digest_withFunding (c : Checkpoint) (hash : Hash32) :
    (c.withFunding hash).digest C K = c.digest C K := by
  obtain ⟨vesting, state, carries, allocation, positions, deposited, locked, returned⟩ := c
  cases allocation <;> rfl

theorem validatePositions_withFunding (h : c.validatePositions o = .ok ()) :
    (c.withFunding hash).validatePositions o = .ok () := by
  rw [validatePositions_eq_ok] at *
  refine { h with liability_eq := fun ha => ?_ }
  apply h.liability_eq
  simpa [withFunding] using ha

theorem positionTransition_withFunding (h : d.positionTransition C o c height r = .ok t) :
    d.positionTransition C o (c.withFunding hash) height r =
      .ok { t with next := t.next.withFunding hash } := by
  obtain ⟨a, elapsed, ha, hvalid, helapsed, h⟩ := positionTransition_eq_ok.mp h
  have ha' : (c.withFunding hash).allocation = some { a with fundingBlock := hash } := by
    rw [withFunding, ha]
    rfl
  refine positionTransition_eq_ok.mpr
    ⟨_, elapsed, ha', validatePositions_withFunding hvalid, helapsed, ?_⟩
  obtain ⟨kept, hkept, h⟩ := unbind h
  obtain ⟨accrued, haccrued, h⟩ := unbind h
  obtain ⟨w, hw, h⟩ := unbind h
  obtain ⟨w', hw', h⟩ := unbind h
  obtain ⟨prior, hprior, h⟩ := unbind h
  obtain ⟨vaults, hvaults, h⟩ := unbind h
  cases h
  exact bind_ok hkept <| bind_ok haccrued <| bind_ok hw <|
    bind_ok hw' <| bind_ok hprior <| bind_ok hvaults rfl

theorem rewardDebit_withFunding {vaults : List Vault} {next : Option Allocation}
    (h : rewardDebit (some a) vaults = .ok next) :
    rewardDebit (some { a with fundingBlock := hash }) vaults =
      .ok (next.map fun a => { a with fundingBlock := hash }) := by
  obtain ⟨income, hincome, h⟩ := unbind h
  obtain ⟨⟨⟩, hreward, h⟩ := unbind h
  refine bind_ok hincome <| pass hreward ?_
  split_ifs at h ⊢
  · cases h
    rfl
  · obtain ⟨tail, htail, h⟩ := unbind h
    cases h
    exact bind_ok htail rfl

theorem validateSource_withFunding (v : GenesisVestingState) (allocation : Option Allocation)
    (height : UInt64) :
    v.validateSource C K (allocation.map fun a => { a with fundingBlock := hash }) height =
      v.validateSource C K allocation height := by
  cases allocation <;> rfl

theorem previewGenesisVesting_withFunding
    (h : previewGenesisVesting C K c next r height = .ok next') :
    previewGenesisVesting C K (c.withFunding hash) (next.withFunding hash) r height =
      .ok (next'.withFunding hash) := by
  unfold previewGenesisVesting at *
  have hv : (c.withFunding hash).genesisVesting = c.genesisVesting := rfl
  rw [hv]
  split_ifs at h ⊢ with hskip
  · cases h
    rfl
  · cases ha : c.allocation with
    | none =>
      rw [ha] at h
      cases h
    | some a =>
      rw [ha] at h
      have ha' : (c.withFunding hash).allocation = some { a with fundingBlock := hash } := by
        rw [withFunding, ha]
        rfl
      rw [ha']
      obtain ⟨⟨⟩, hcheck, h⟩ := unbind h
      obtain ⟨v, hbefore, h⟩ := unbind h
      obtain ⟨v', hpaid, h⟩ := unbind h
      obtain ⟨⟨⟩, hsource, h⟩ := unbind h
      cases h
      refine pass hcheck (bind_eq_ok.mpr ⟨v, ?_, bind_ok hpaid <|
        pass ?_ rfl⟩)
      · unfold genesisVestingBefore at *
        rw [hv]
        cases hold : c.genesisVesting with
        | none =>
          rw [hold] at hbefore
          exact hbefore
        | some v0 =>
          rw [hold] at hbefore
          obtain ⟨⟨⟩, hheight, hbefore⟩ := unbind hbefore
          obtain ⟨⟨⟩, hold, hbefore⟩ := unbind hbefore
          refine pass hheight <| pass ?_ hbefore
          exact (validateSource_withFunding v0 c.allocation c.state.lastHeight).trans hold
      · exact (validateSource_withFunding v' next.allocation height).trans hsource

variable {payments : List Payment} {a' : Allocation} {b : Block} {duplicate : String}
  {before : Checkpoint}

theorem previewPositions_withFunding
    (h : d.previewPositions C K o c height r = .ok (next, payments)) :
    d.previewPositions C K o (c.withFunding hash) height r =
      .ok (next.withFunding hash, payments) := by
  obtain ⟨t, ht, h⟩ := unbind h
  obtain ⟨⟨state, carries, payments'⟩, hsettled, h⟩ := unbind h
  obtain ⟨allocation, hallocation, h⟩ := unbind h
  obtain ⟨positions, hpositions, h⟩ := unbind h
  obtain ⟨⟨⟩, hvalid, h⟩ := unbind h
  obtain ⟨next', hvesting, h⟩ := unbind h
  cases h
  have hallocation' : rewardDebit (c.withFunding hash).allocation t.vaults =
      .ok (allocation.map fun a => { a with fundingBlock := hash }) := by
    cases ha : c.allocation with
    | none =>
      rw [ha] at hallocation
      cases hallocation
      rw [withFunding, ha]
      rfl
    | some a =>
      rw [ha] at hallocation
      rw [withFunding, ha]
      exact rewardDebit_withFunding hallocation
  exact bind_ok (positionTransition_withFunding ht) <| bind_ok hsettled <|
    bind_ok hallocation' <| bind_ok hpositions (pass
    (validatePositions_withFunding hvalid) (bind_ok
    (previewGenesisVesting_withFunding hvesting) rfl))

/-! ### What a preview leaves -/

/-- The reserve of the new checkpoint passes its check against the new allocation. -/
theorem previewGenesisVesting_source (h : previewGenesisVesting C K c next r height = .ok next')
    (hframe : next.genesisVesting = c.genesisVesting) :
    (∃ vesting, next' = { next with genesisVesting := vesting }) ∧
      ∀ v, next'.genesisVesting = some v →
        v.validateSource C K next'.allocation height = .ok () := by
  unfold previewGenesisVesting at h
  split_ifs at h with hskip
  · cases h
    refine ⟨⟨next.genesisVesting, rfl⟩, fun v hv => ?_⟩
    rw [hframe, hskip.1] at hv
    cases hv
  · cases ha : c.allocation with
    | none =>
      rw [ha] at h
      cases h
    | some a =>
      rw [ha] at h
      replace h := past h
      obtain ⟨v, -, h⟩ := unbind h
      obtain ⟨v', -, h⟩ := unbind h
      obtain ⟨⟨⟩, hsource, h⟩ := unbind h
      cases h
      refine ⟨⟨some v', rfl⟩, fun v hv => ?_⟩
      cases hv
      exact hsource

theorem positionTransition_frame (h : d.positionTransition C o c height r = .ok t) :
    t.next.genesisVesting = c.genesisVesting := by
  obtain ⟨a, elapsed, -, -, -, h⟩ := positionTransition_eq_ok.mp h
  obtain ⟨kept, -, h⟩ := unbind h
  obtain ⟨accrued, -, h⟩ := unbind h
  obtain ⟨w, -, h⟩ := unbind h
  obtain ⟨w', -, h⟩ := unbind h
  obtain ⟨prior, -, h⟩ := unbind h
  obtain ⟨vaults, -, h⟩ := unbind h
  cases h
  rfl

/-- What the preview of a block on a funded checkpoint leaves. -/
structure Previewed (C : Externals) (K : Encodings) (before : Checkpoint) (a : Allocation)
    (height : UInt64) (next : Checkpoint) (a' : Allocation) : Prop where
  allocation : next.allocation = some a'
  sameGrant : a.SameGrant a'
  drawn : a'.Drawn next.state.rewardInflow
  validate : next.state.validate = .ok ()
  lastHeight : next.state.lastHeight = height
  before_ne : before.state.lastHeight ≠ uint64Max
  height_eq : height = before.state.lastHeight + 1
  positions : next.PositionsValid
  carries : next.carries.all Carry.valid = true
  reserve : ∀ v, next.genesisVesting = some v → v.validateSource C K (some a') height = .ok ()

theorem previewPositions_previewed (ha : c.allocation = some a)
    (hdrawn : a.Drawn c.state.rewardInflow)
    (h : d.previewPositions C K o c height r = .ok (next, payments)) :
    ∃ a', Previewed C K c a height next a' := by
  obtain ⟨t, ht, h⟩ := unbind h
  obtain ⟨⟨state, carries, payments'⟩, hsettle, h⟩ := unbind h
  obtain ⟨allocation, hallocation, h⟩ := unbind h
  obtain ⟨positions, -, h⟩ := unbind h
  obtain ⟨⟨⟩, hvalid, h⟩ := unbind h
  obtain ⟨next', hvesting, h⟩ := unbind h
  cases h
  have hset := settle_settled hsettle
  rw [ha] at hallocation
  obtain ⟨a', rfl, hsame, hdrawn'⟩ := rewardDebit_drawn hallocation hdrawn hset.rewardInflow
  have hpositions := validatePositions_eq_ok.mp hvalid
  obtain ⟨⟨vesting, rfl⟩, hsource⟩ :=
    previewGenesisVesting_source hvesting (positionTransition_frame ht)
  exact ⟨a', ⟨rfl, hsame, hdrawn', hset.validate, hset.lastHeight, hset.lastHeight_ne, hset.height_eq,
    { hpositions with }, hset.carries, hsource⟩⟩

theorem Previewed.height_lt (h : Previewed C K c a height next a') :
    height.toNat = c.state.lastHeight.toNat + 1 := by
  have hne : c.state.lastHeight.toNat ≠ 2 ^ 64 - 1 := fun heq =>
    h.before_ne (UInt64.toNat_inj.mp heq)
  have hlt := c.state.lastHeight.toNat_lt
  rw [h.height_eq]
  show (c.state.lastHeight.toNat + 1) % 2 ^ 64 = _
  omega

/-! ### Stored checkpoints -/

/-- The second transaction of the block commits to the checkpoint. -/
def CommitsTo (C : Externals) (K : Encodings) (b : Block) (c : Checkpoint) : Prop :=
  ∃ tx, b.txs[1]? = some tx ∧ tx.lpodCheckpointDigest = .ok (c.digest C K)

theorem CommitsTo.length (h : CommitsTo C K b c) : ¬ b.txs.length < 2 := by
  obtain ⟨tx, htx, -⟩ := h
  have hlt := (List.getElem?_eq_some_iff.mp htx).1
  omega

theorem CommitsTo.check (h : CommitsTo C K b c) (msg : String) :
    (do
      let tx ← index b.txs 1
      failIf (tx.lpodCheckpointDigest.toOption ≠ some (c.digest C K)) msg) = .ok () := by
  obtain ⟨tx, htx, hdigest⟩ := h
  refine bind_ok (index_eq_ok.mpr htx) ?_
  rw [failIf_eq_ok, not_not, hdigest]
  rfl

/-- The canonical block at the funding height, with its checkpoint `fc`: both are of one grant. -/
structure FundingRecord (C : Externals) (K : Encodings) (d : DB) (a : Allocation) (b : Block)
    (fc : Checkpoint) (fa : Allocation) : Prop where
  canonical : d.heights.get a.fundingHeight = some a.fundingBlock
  body : d.blocks.get a.fundingBlock = some b
  hash : b.hash C = a.fundingBlock
  height : b.header.height = a.fundingHeight.toNat
  parent : a.version = 2 ∨ a.version = 3 → b.header.prevHash = a.fundingParent
  commits : CommitsTo C K b fc
  record : d.checkpoints.get a.fundingBlock = some fc
  allocation : fc.allocation = some fa
  sameGrant : fa.SameGrant a

/-- What a run of commits preserves about the checkpoint stored under `hash`. -/
structure Kept (C : Externals) (K : Encodings) (d : DB) (hash : Hash32) (c : Checkpoint)
    (a : Allocation) : Prop where
  record : d.checkpoints.get hash = some c
  validate : c.state.validate = .ok ()
  positions : c.PositionsValid
  carries : c.carries.all Carry.valid = true
  allocation : c.allocation = some a
  sound : a.Sound C K
  drawn : a.Drawn c.state.rewardInflow
  height_le : a.fundingHeight.toNat ≤ c.state.lastHeight.toNat
  reserve : ∀ v, c.genesisVesting = some v →
    v.validateSource C K (some a) c.state.lastHeight = .ok ()
  block : ∃ b, d.blocks.get hash = some b ∧ b.hash C = hash ∧
    b.header.height = c.state.lastHeight.toNat ∧ CommitsTo C K b c
  funding : ∃ b fc fa, FundingRecord C K d a b fc fa

theorem Kept.checkReserve (h : Kept C K d hash c a) : DB.checkReserve C K c a = .ok () := by
  unfold DB.checkReserve
  cases hv : c.genesisVesting with
  | none => rfl
  | some v => exact h.reserve v hv

theorem Kept.checkCommitment (h : Kept C K d hash c a) : d.checkCommitment C K hash c = .ok () := by
  obtain ⟨b, hbody, hhash, hheight, hcommits⟩ := h.block
  unfold DB.checkCommitment
  rw [hbody]
  refine pass ?_ (hcommits.check _)
  rw [failIf_eq_ok]
  rintro (hne | hne | hlt)
  · exact hne hhash
  · exact hne hheight
  · exact hcommits.length hlt

theorem FundingRecord.readFundingBlock
    (h : FundingRecord C K d a b fc fa) (hversion : a.version = 2 ∨ a.version = 3) :
    d.readFundingBlock C a = .ok b := by
  have hread : d.readCanonicalBlock C a.fundingHeight = .ok b := by
    unfold DB.readCanonicalBlock
    rw [h.canonical, Option.bind_some, h.body]
    refine pass ?_ rfl
    rw [failIf_eq_ok, not_not, h.hash]
  unfold DB.readFundingBlock
  rw [hread]
  refine pass ?_ rfl
  rw [failIf_eq_ok]
  rintro (hne | hne | hne | hlt)
  · exact hne h.hash
  · exact hne h.height
  · exact hne (h.parent hversion)
  · exact h.commits.length hlt

theorem FundingRecord.checkFundingRecord (h : FundingRecord C K d a b fc fa) :
    DB.checkFundingRecord C K a b (.ok (some fc)) = .ok () := by
  refine pass ?_ (h.commits.check _)
  rw [h.allocation, h.sameGrant]
  simp

/-- A kept checkpoint passes every check, if the record of its funding block loads. -/
theorem Kept.load {n : Nat} (h : Kept C K d hash c a)
    (hload : hash ≠ a.fundingBlock →
      d.loadCheckpointAt C K o n a.fundingBlock = .ok (d.checkpoints.get a.fundingBlock)) :
    d.loadCheckpointAt C K o (n + 1) hash = .ok (some c) := by
  have hfunded : d.checkFunded C K (d.loadCheckpointAt C K o n) hash c a = .ok () := by
    refine pass h.checkReserve (pass
      (check_eq_ok h.sound h.drawn h.height_le h.validate) <| pass h.checkCommitment ?_)
    split_ifs with hversion hfirst
    · obtain ⟨b, fc, fa, hf⟩ := h.funding
      refine bind_ok (hf.readFundingBlock hversion) ?_
      have heq : c = fc := Option.some.inj (h.record.symm.trans ((congrArg _ hfirst).trans hf.record))
      rw [heq]
      exact hf.checkFundingRecord
    · obtain ⟨b, fc, fa, hf⟩ := h.funding
      refine bind_ok (hf.readFundingBlock hversion) ?_
      rw [hload hfirst, hf.record]
      exact hf.checkFundingRecord
    · rfl
  rw [DB.loadCheckpointAt, h.record]
  refine pass h.validate <| pass (validatePositions_eq_ok.mpr h.positions) <|
    pass ?_ <| pass ?_ rfl
  · unfold DB.checkFunding
    rw [h.allocation]
    exact hfunded
  · rw [failIf_eq_ok, not_not]
    exact h.carries

/-- What a run of commits preserves about the store. -/
structure DB.Sound (C : Externals) (K : Encodings) (d : DB) : Prop where
  kept : ∀ hash c, d.checkpoints.get hash = some c → ∃ a, Kept C K d hash c a
  height_le : ∀ hash c, d.checkpoints.get hash = some c →
    c.state.lastHeight.toNat ≤ d.tip.2.toNat
  tip : d.checkpoints = ∅ ∨ ∃ c, d.checkpoints.get d.tip.1 = some c ∧ c.state.lastHeight = d.tip.2

/-- What is kept reads two checkpoints, their blocks and the canonical hash of the funding height. -/
theorem Kept.of_same (h : Kept C K d hash c a)
    (hsame : ∀ k, k = hash ∨ k = a.fundingBlock →
      d'.checkpoints.get k = d.checkpoints.get k ∧ d'.blocks.get k = d.blocks.get k)
    (hheight : d'.heights.get a.fundingHeight = d.heights.get a.fundingHeight) :
    Kept C K d' hash c a := by
  obtain ⟨b, fc, fa, hf⟩ := h.funding
  obtain ⟨hrecord, hbody⟩ := hsame hash (.inl rfl)
  obtain ⟨hrecord', hbody'⟩ := hsame a.fundingBlock (.inr rfl)
  refine ⟨hrecord.trans h.record, h.validate, h.positions, h.carries, h.allocation, h.sound, h.drawn,
    h.height_le, h.reserve, ?_, b, fc, fa, ?_⟩
  · rw [hbody]
    exact h.block
  · exact ⟨hheight.trans hf.canonical, hbody'.trans hf.body, hf.hash, hf.height, hf.parent,
      hf.commits, hrecord'.trans hf.record, hf.allocation, hf.sameGrant⟩

theorem DB.Sound.of_same (h : d.Sound C K) (hcheckpoints : d'.checkpoints = d.checkpoints)
    (hblocks : d'.blocks = d.blocks) (hheights : d'.heights = d.heights) (htip : d'.tip = d.tip) :
    d'.Sound C K := by
  refine ⟨fun hash c hget => ?_, fun hash c hget => ?_, ?_⟩
  · rw [hcheckpoints] at hget
    obtain ⟨a, hkept⟩ := h.kept hash c hget
    exact ⟨a, hkept.of_same (fun k _ => by rw [hcheckpoints, hblocks]; exact ⟨rfl, rfl⟩)
      (by rw [hheights])⟩
  · rw [hcheckpoints] at hget
    rw [htip]
    exact h.height_le hash c hget
  · rw [hcheckpoints, htip]
    exact h.tip

/-- A kept checkpoint loads if the one of its funding block is kept: that one is its own funding
block, so the loader recurses once. -/
theorem Kept.lpodCheckpoint (h : Kept C K d hash c a)
    (hfunding : ∀ fc, d.checkpoints.get a.fundingBlock = some fc →
      ∃ fa, Kept C K d a.fundingBlock fc fa) : d.lpodCheckpoint C K o hash = .ok (some c) := by
  have hpos : 0 < d.checkpoints.len :=
    Finset.card_pos.mpr ⟨hash, mem_keys.mpr ⟨c, h.record⟩⟩
  obtain ⟨n, hn⟩ : ∃ n, d.checkpoints.len = n + 1 := ⟨_, (Nat.succ_pred_eq_of_pos hpos).symm⟩
  unfold DB.lpodCheckpoint
  rw [hn]
  refine h.load fun _ => ?_
  obtain ⟨b, fc, fa, hf⟩ := h.funding
  obtain ⟨fa', hkept'⟩ := hfunding _ hf.record
  have heq : fa' = fa := Option.some.inj (hkept'.allocation.symm.trans hf.allocation)
  have hblock : a.fundingBlock = fa'.fundingBlock := by
    rw [heq, hf.sameGrant]
  rw [hf.record]
  exact hkept'.load (absurd hblock)

theorem DB.Sound.lpodCheckpoint (h : d.Sound C K) (hash : Hash32) :
    d.lpodCheckpoint C K o hash = .ok (d.checkpoints.get hash) := by
  cases hget : d.checkpoints.get hash with
  | none =>
    unfold DB.lpodCheckpoint
    rw [DB.loadCheckpointAt, hget]
  | some c =>
    obtain ⟨a, hkept⟩ := h.kept hash c hget
    exact hkept.lpodCheckpoint fun fc hfc => h.kept _ _ hfc

theorem DB.Sound.loadCheckpoint (h : d.Sound C K) :
    d.loadCheckpoint C K o = .ok (d.checkpoints.get d.tip.1) := by
  refine bind_ok (h.lpodCheckpoint d.tip.1) <| pass ?_ rfl
  rw [failIf_eq_ok]
  rintro ⟨c, hc, hne⟩
  rcases h.tip with hempty | ⟨c', hc', heq⟩
  · rw [hempty, get_empty] at hc
    cases hc
  · rw [hc'] at hc
    cases hc
    exact hne heq

/-! ### One commit -/

/-- What a commit with a settlement does: `before` is the checkpoint the block starts from. -/
structure SettledCommit (C : Externals) (K : Encodings) (d : DB) (b : Block) (hash : Hash32)
    (height : UInt64) (d' : DB) (before c : Checkpoint) : Prop where
  preview : ∃ o r payments, d.previewPositions C K o before height r = .ok (c, payments)
  noConflict : ∀ previous, d.checkpoints.get hash = some previous → previous = c
  hash_eq : b.hash C = hash
  height_eq : b.header.height = height.toNat
  prevHash : b.header.prevHash = d.tip.1
  commits : CommitsTo C K b c
  checkpoints : d'.checkpoints = d.checkpoints.set hash c
  blocks : d'.blocks = d.blocks.set hash b
  heights : d'.heights = d.heights.set height hash
  tip : d'.tip = (hash, height)

theorem fundingCheckpoint_eq_ok : d.fundingCheckpoint C K hash height migration = .ok c ↔
    ∃ m issued, migration = some m ∧ height = m.height ∧ d.checkBinding C K m = .ok () ∧
      d.verifyLPoDMigration C K m = .ok (issued, d.tip.1) ∧ d.tip.2 = height - 1 ∧
      d.stakingPool = some m.validatorRemaining ∧ m.checkpoint C K issued hash height = c := by
  cases migration with
  | none => simp [DB.fundingCheckpoint]
  | some m =>
    simp only [DB.fundingCheckpoint, bind_eq_ok, failIf_eq_ok, not_or, not_not, Prod.exists,
      Option.some.injEq, Except.ok.injEq, exists_and_left, exists_const, exists_eq_left']
    aesop

theorem fundingCheckpoint_withFunding {hash' : Hash32}
    (h : d.fundingCheckpoint C K hash height migration = .ok c) :
    d.fundingCheckpoint C K hash' height migration = .ok (c.withFunding hash') := by
  obtain ⟨m, issued, hm, hheight, hbinding, hverify, htip, hpool, rfl⟩ :=
    fundingCheckpoint_eq_ok.mp h
  exact fundingCheckpoint_eq_ok.mpr ⟨m, issued, hm, hheight, hbinding, hverify, htip, hpool, rfl⟩

/-- The block is validated with an unknown funding block, and with another order of the maps; the
digest it commits to is the same. -/
theorem preview_digest {duplicate' : String} {loaded : Option Checkpoint} {before' c' : Checkpoint}
    {payments' : List Payment}
    (hbefore : d.checkpointBefore C K duplicate hash height r loaded = .ok before)
    (hbefore' : d.checkpointBefore C K duplicate' 0 height r loaded = .ok before')
    (h : d.previewPositions C K o before height r = .ok (c, payments))
    (h' : d.previewPositions C K o' before' height r = .ok (c', payments')) :
    c'.digest C K = c.digest C K := by
  have hsame : d.previewPositions C K o' before height r = .ok (c, payments) :=
    previewPositions_order h
  cases loaded with
  | none =>
    have heq : before' = before.withFunding 0 :=
      Except.ok.inj (hbefore'.symm.trans (fundingCheckpoint_withFunding hbefore))
    have hfund : d.previewPositions C K o' (before.withFunding 0) height r =
        .ok (c.withFunding 0, payments) := previewPositions_withFunding hsame
    rw [← heq, h'] at hfund
    cases hfund
    exact digest_withFunding c 0
  | some c0 =>
    replace hbefore := past hbefore
    replace hbefore' := past hbefore'
    cases hbefore
    cases hbefore'
    rw [hsame] at h'
    cases h'
    rfl

/-- A block with a settlement that can be appended has been checked, because only an unfunded chain
without a migration is not. -/
theorem validateLPoDBlock_some (hd : d.Sound C K)
    (hbefore : d.checkpointBefore C K duplicate hash height r (d.checkpoints.get d.tip.1) = .ok before)
    (h : d.validateLPoDBlock C K o b hash height (some r) = .ok ()) :
    b.hash C = hash ∧ b.header.height = height.toNat ∧ b.header.prevHash = r.parent ∧
      r.positionProtocol = true ∧ ∃ c payments, d.previewLPoD C K o height r = .ok (c, payments) ∧
        d.checkSettledBlock C K o b height r c payments = .ok () := by
  obtain ⟨loaded, hloaded, h⟩ := unbind h
  rw [hd.loadCheckpoint] at hloaded
  cases hloaded
  have hchecked : ¬ (r.migration = none ∧
      ((d.checkpoints.get d.tip.1).bind (·.allocation)) = none) := by
    rintro ⟨hmigration, hnone⟩
    cases hget : d.checkpoints.get d.tip.1 with
    | none =>
      rw [hget, DB.checkpointBefore, hmigration] at hbefore
      cases hbefore
    | some c0 =>
      obtain ⟨a, hkept⟩ := hd.kept _ _ hget
      rw [hget, Option.bind_some, hkept.allocation] at hnone
      cases hnone
  rw [if_neg hchecked] at h
  obtain ⟨⟨⟩, hidentity, h⟩ := unbind h
  obtain ⟨⟨c, payments⟩, hpreview, h⟩ := unbind h
  obtain ⟨⟨⟩, hprotocol, hblock⟩ := unbind h
  rw [failIf_eq_ok, not_not] at hprotocol
  simp only [failIf_eq_ok, not_or, not_not] at hidentity
  obtain ⟨hhash, hheight, hprev, -⟩ := hidentity
  exact ⟨hhash, hheight, hprev, hprotocol, c, payments, hpreview, hblock⟩

theorem commit_settled (hd : d.Sound C K)
    (h : d.commitRawBlock C K o o' b hash height (some r) activatingSales = .ok d') :
    ∃ before c, d.checkpointBefore C K "store: duplicate LPoD initial allocation" hash height r
      (d.checkpoints.get d.tip.1) = .ok before ∧ SettledCommit C K d b hash height d' before c := by
  obtain ⟨⟨⟩, hvalidate, h⟩ := unbind h
  replace h := past h
  obtain ⟨d1, happend, h⟩ := unbind h
  cases h
  obtain ⟨loaded, hloaded, happend⟩ := unbind happend
  rw [hd.loadCheckpoint] at hloaded
  cases hloaded
  obtain ⟨⟨⟩, hparent, happend⟩ := unbind happend
  obtain ⟨before, hbefore, happend⟩ := unbind happend
  obtain ⟨c, hc, happend⟩ := unbind happend
  obtain ⟨⟨⟩, hconflict, happend⟩ := unbind happend
  cases happend
  rw [failIf_eq_ok, not_not] at hparent
  refine ⟨before, c, hbefore, ?_⟩
  obtain ⟨hhash, hheight, hprev, hprotocol, c', payments, hpreview, hvalidate⟩ :=
    validateLPoDBlock_some hd hbefore hvalidate
  -- the checkpoint of the preview and the appended one
  replace hpreview := past hpreview
  replace hpreview := past hpreview
  obtain ⟨loaded, hloaded, hpreview⟩ := unbind hpreview
  rw [hd.loadCheckpoint] at hloaded
  cases hloaded
  obtain ⟨before', hbefore', hpreview⟩ := unbind hpreview
  rw [if_pos hprotocol] at hpreview
  unfold DB.settledCheckpoint at hc
  rw [if_pos hprotocol] at hc
  obtain ⟨⟨c1, payments1⟩, hpositions, hc⟩ := unbind hc
  cases hc
  have hdigest := preview_digest hbefore hbefore' hpositions hpreview
  -- the block commits to the checkpoint of the preview
  replace hvalidate := past hvalidate
  replace hvalidate := past hvalidate
  replace hvalidate := past hvalidate
  obtain ⟨payout, -, hvalidate⟩ := unbind hvalidate
  obtain ⟨first, -, hvalidate⟩ := unbind hvalidate
  replace hvalidate := past hvalidate
  obtain ⟨tx, htx, hvalidate⟩ := unbind hvalidate
  rw [failIf_eq_ok, not_not, hdigest] at hvalidate
  have hcommits : CommitsTo C K b c := by
    refine ⟨tx, index_eq_ok.mp htx, ?_⟩
    cases hd : tx.lpodCheckpointDigest with
    | error err =>
      rw [hd] at hvalidate
      cases hvalidate
    | ok digest =>
      rw [hd] at hvalidate
      cases hvalidate
      rfl
  rw [failIf_eq_ok] at hconflict
  refine ⟨⟨o', r, payments1, hpositions⟩, fun previous hprevious => ?_, hhash, hheight,
    hprev.trans hparent, hcommits, rfl, rfl, rfl, rfl⟩
  by_contra hne
  exact hconflict ⟨previous, hprevious, hne⟩

theorem commit_unsettled (hd : d.Sound C K)
    (h : d.commitRawBlock C K o o' b hash height none activatingSales = .ok d') :
    d.checkpoints = ∅ ∧ d'.checkpoints = ∅ := by
  replace h := past h
  replace h := past h
  obtain ⟨d1, happend, h⟩ := unbind h
  cases h
  obtain ⟨loaded, hloaded, happend⟩ := unbind happend
  rw [hd.loadCheckpoint] at hloaded
  cases hloaded
  obtain ⟨⟨⟩, hunfunded, happend⟩ := unbind happend
  cases happend
  rw [failIf_eq_ok] at hunfunded
  rcases hd.tip with hempty | ⟨c, hc, -⟩
  · exact ⟨hempty, hempty⟩
  · rw [hc] at hunfunded
    exact absurd rfl hunfunded

/-- The new checkpoint has a height of its own, so no stored one is under the hash of its block. -/
theorem no_checkpoint_overwritten (hd : d.Sound C K)
    (h : SettledCommit C K d b hash height d' before c) (hnext : Previewed C K before a height c a')
    (hbefore : before.state.lastHeight = d.tip.2) :
    d.checkpoints.get hash = none := by
  by_contra hne
  obtain ⟨previous, hprevious⟩ := Option.ne_none_iff_exists'.mp hne
  have hle := hd.height_le _ _ hprevious
  have hheight := hnext.height_lt
  rw [h.noConflict _ hprevious, hnext.lastHeight, ← hbefore] at hle
  omega

/-- What is stored about a kept checkpoint is not touched by a block at a later height. -/
theorem Kept.frame {c0 : Checkpoint} (hkept : Kept C K d hash0 c0 a)
    (h : SettledCommit C K d b hash height d' before c) (hnone : d.checkpoints.get hash = none)
    (hheight : c0.state.lastHeight.toNat < height.toNat) :
    Kept C K d' hash0 c0 a := by
  have hne : ∀ k c1, d.checkpoints.get k = some c1 → k ≠ hash := by
    rintro k c1 hk rfl
    rw [hk] at hnone
    cases hnone
  obtain ⟨fb, fc, fa, hf⟩ := hkept.funding
  refine hkept.of_same (fun k hk => ?_) ?_
  · have hk : k ≠ hash := by
      rcases hk with rfl | rfl
      · exact hne _ _ hkept.record
      · exact hne _ _ hf.record
    rw [h.checkpoints, h.blocks, get_set_ne hk, get_set_ne hk]
    exact ⟨rfl, rfl⟩
  · have hlower : a.fundingHeight ≠ height := by
      rintro heq
      have hle := hkept.height_le
      rw [heq] at hle
      omega
    rw [h.heights, get_set_ne hlower]

theorem SettledCommit.kept_of_funding (h : SettledCommit C K d b hash height d' before c)
    (hnext : Previewed C K before a height c a') (hsound : a.Sound C K)
    (hheight : a'.fundingHeight.toNat ≤ height.toNat)
    (hfunding : ∃ b fc fa, FundingRecord C K d' a' b fc fa) : Kept C K d' hash c a' := by
  refine ⟨?_, hnext.validate, hnext.positions, hnext.carries, hnext.allocation,
    hsound.of_sameGrant hnext.sameGrant, hnext.drawn, ?_, ?_, ⟨b, ?_, h.hash_eq, ?_, h.commits⟩,
    hfunding⟩
  · rw [h.checkpoints, get_set_self]
  · rw [hnext.lastHeight]
    exact hheight
  · rw [hnext.lastHeight]
    exact hnext.reserve
  · rw [h.blocks, get_set_self]
  · rw [h.height_eq, hnext.lastHeight]

theorem Kept.extend (hkept : Kept C K d hash0 before a)
    (h : SettledCommit C K d b hash height d' before c) (hnext : Previewed C K before a height c a')
    (hnone : d.checkpoints.get hash = none) :
    Kept C K d' hash c a' := by
  have hheight := hnext.height_lt
  obtain ⟨fb, fc, fa, hf⟩ := (hkept.frame h hnone (by omega)).funding
  have hsame : a' = { a with
      validatorRemaining := a'.validatorRemaining, tailIssued := a'.tailIssued } := hnext.sameGrant
  refine h.kept_of_funding hnext hkept.sound ?_ ⟨fb, fc, fa, ?_⟩
  · have hle := hkept.height_le
    rw [hsame]
    show a.fundingHeight.toNat ≤ _
    omega
  · have hgrant : fa.SameGrant a' := by
      unfold Allocation.SameGrant
      rw [hsame, hf.sameGrant]
    rw [hsame] at hgrant ⊢
    exact { hf with sameGrant := hgrant }

structure FundingStart (C : Externals) (K : Encodings) (d : DB) (hash : Hash32) (height : UInt64)
    (before : Checkpoint) (a : Allocation) : Prop where
  allocation : before.allocation = some a
  sound : a.Sound C K
  drawn : a.Drawn before.state.rewardInflow
  fundingHeight : a.fundingHeight = height
  fundingBlock : a.fundingBlock = hash
  fundingParent : a.version = 2 ∨ a.version = 3 → a.fundingParent = d.tip.1
  tip : before.state.lastHeight = d.tip.2

theorem verifyLPoDMigration_parent {m : Migration} {issued : UInt64} {parent : Hash32}
    (h : d.verifyLPoDMigration C K m = .ok (issued, parent))
    (hversion : m.version = 2 ∨ m.version = 3) : m.parentHash = d.tip.1 := by
  unfold DB.verifyLPoDMigration at h
  rw [if_pos hversion] at h
  replace h := past h
  obtain ⟨⟨⟩, hparent, -⟩ := unbind h
  obtain ⟨⟨⟩, hparent, -⟩ := unbind hparent
  rw [failIf_eq_ok, not_or, not_not, not_not] at hparent
  exact hparent.2.symm

theorem fundingCheckpoint_start (h : d.fundingCheckpoint C K hash height migration = .ok before) :
    ∃ a, FundingStart C K d hash height before a := by
  obtain ⟨m, issued, -, hheight, -, hverify, htip, -, rfl⟩ := fundingCheckpoint_eq_ok.mp h
  have hsound := allocation_sound hverify hash
  rw [← hheight] at hsound
  exact ⟨_, rfl, hsound, allocation_drawn issued hash height, rfl, rfl,
    verifyLPoDMigration_parent hverify, htip.symm⟩

theorem FundingStart.kept (hstart : FundingStart C K d hash height before a)
    (h : SettledCommit C K d b hash height d' before c) (hnext : Previewed C K before a height c a')
    :
    Kept C K d' hash c a' := by
  have hsame : a' = { a with
      validatorRemaining := a'.validatorRemaining, tailIssued := a'.tailIssued } := hnext.sameGrant
  have hfundingHeight : a'.fundingHeight = height := by
    rw [hsame]
    exact hstart.fundingHeight
  have hfundingBlock : a'.fundingBlock = hash := by
    rw [hsame]
    exact hstart.fundingBlock
  refine h.kept_of_funding hnext hstart.sound (by rw [hfundingHeight]) ⟨b, c, a', ?_⟩
  refine ⟨?_, ?_, ?_, ?_, fun hversion => ?_, h.commits, ?_, hnext.allocation, rfl⟩
  · rw [hfundingHeight, hfundingBlock, h.heights, get_set_self]
  · rw [hfundingBlock, h.blocks, get_set_self]
  · rw [hfundingBlock, h.hash_eq]
  · rw [hfundingHeight, h.height_eq]
  · rw [hsame] at hversion ⊢
    rw [h.prevHash]
    exact (hstart.fundingParent hversion).symm
  · rw [hfundingBlock, h.checkpoints, get_set_self]

theorem SettledCommit.sound (hd : d.Sound C K) (h : SettledCommit C K d b hash height d' before c)
    (hnext : Previewed C K before a height c a') (hbefore : before.state.lastHeight = d.tip.2)
    (hkept : Kept C K d' hash c a') :
    d'.Sound C K := by
  have hnone := no_checkpoint_overwritten hd h hnext hbefore
  have hheight := hnext.height_lt
  rw [hbefore] at hheight
  refine ⟨fun hash0 c0 hget => ?_, fun hash0 c0 hget => ?_, Or.inr ⟨c, ?_, ?_⟩⟩
  · by_cases heq : hash0 = hash
    · rw [heq, hkept.record] at hget
      cases hget
      exact ⟨a', heq ▸ hkept⟩
    · rw [h.checkpoints, get_set_ne heq] at hget
      obtain ⟨a0, hkept0⟩ := hd.kept _ _ hget
      have hle := hd.height_le _ _ hget
      exact ⟨a0, hkept0.frame h hnone (by omega)⟩
  · rw [h.tip]
    by_cases heq : hash0 = hash
    · rw [heq, hkept.record] at hget
      cases hget
      rw [hnext.lastHeight]
    · rw [h.checkpoints, get_set_ne heq] at hget
      have hle := hd.height_le _ _ hget
      show _ ≤ height.toNat
      omega
  · rw [h.tip]
    exact hkept.record
  · rw [h.tip]
    exact hnext.lastHeight

/-! ### Runs -/

/-- The checkpoint of a committed block is kept, whether the block funds the reserve or extends it. -/
theorem SettledCommit.kept (hd : d.Sound C K)
    (hbefore : d.checkpointBefore C K duplicate hash height r (d.checkpoints.get d.tip.1) = .ok before)
    (h : SettledCommit C K d b hash height d' before c) :
    ∃ a a', Previewed C K before a height c a' ∧ before.state.lastHeight = d.tip.2 ∧
      Kept C K d' hash c a' := by
  obtain ⟨o, r', payments, hpreview⟩ := h.preview
  cases hget : d.checkpoints.get d.tip.1 with
  | none =>
    rw [hget] at hbefore
    obtain ⟨a, hstart⟩ := fundingCheckpoint_start hbefore
    obtain ⟨a', hnext⟩ := previewPositions_previewed hstart.allocation hstart.drawn hpreview
    exact ⟨a, a', hnext, hstart.tip, hstart.kept h hnext⟩
  | some c0 =>
    rw [hget] at hbefore
    replace hbefore := past hbefore
    cases hbefore
    obtain ⟨a, hkept⟩ := hd.kept _ _ hget
    obtain ⟨a', hnext⟩ := previewPositions_previewed hkept.allocation hkept.drawn hpreview
    have htip : before.state.lastHeight = d.tip.2 := by
      rcases hd.tip with hempty | ⟨c1, hc1, heq⟩
      · rw [hempty, get_empty] at hget
        cases hget
      · rw [hget] at hc1
        cases hc1
        exact heq
    exact ⟨a, a', hnext, htip, hkept.extend h hnext (no_checkpoint_overwritten hd h hnext htip)⟩

theorem sound_of_empty (h : d.checkpoints = ∅) : d.Sound C K := by
  refine ⟨fun hash c hget => ?_, fun hash c hget => ?_, Or.inl h⟩
  · rw [h, get_empty] at hget
    cases hget
  · rw [h, get_empty] at hget
    cases hget

/-- A commit keeps the store sound and every stored checkpoint, and it stores the one of its
settlement. -/
theorem Committed.sound {e : Commit} (h : Committed C K d e d') (hd : d.Sound C K) :
    d'.Sound C K ∧
      (∀ hash0 c0, d.checkpoints.get hash0 = some c0 → d'.checkpoints.get hash0 = some c0) ∧
      (e.settlement.isSome → ∃ c, d'.checkpoints.get e.hash = some c) := by
  unfold Committed at h
  cases hr : e.settlement with
  | none =>
    rw [hr] at h
    obtain ⟨hempty, hempty'⟩ := commit_unsettled hd h
    refine ⟨sound_of_empty hempty', fun hash0 c0 hget => ?_, fun hsome => by cases hsome⟩
    rw [hempty, get_empty] at hget
    cases hget
  | some r =>
    rw [hr] at h
    obtain ⟨before, c, hbefore, hcommit⟩ := commit_settled hd h
    obtain ⟨a, a', hnext, htip, hkept⟩ := hcommit.kept hd hbefore
    refine ⟨hcommit.sound hd hnext htip hkept, fun hash0 c0 hget => ?_, fun _ => ⟨c, hkept.record⟩⟩
    have hnone := no_checkpoint_overwritten hd hcommit hnext htip
    rw [hcommit.checkpoints, get_set_ne, hget]
    rintro rfl
    rw [hnone] at hget
    cases hget

/-- **A node never rejects its own checkpoint.**  After every run of commits from a store without a
checkpoint, each settled block of the run has its checkpoint stored, every stored checkpoint passes all
checks of the loader, whatever the order of the maps, and its pool and tail issue account for the
rewards: they come from the pool until it is used up, and the rest is the tail issue. -/
theorem committed_checkpoint_loads {es : List Commit} (hempty : d.checkpoints = ∅)
    (hrun : Run (Committed C K) d es d') (o : RangeOrder) :
    (∀ e ∈ es, e.settlement.isSome → ∃ c, d'.checkpoints.get e.hash = some c) ∧
    d'.loadCheckpoint C K o = .ok (d'.checkpoints.get d'.tip.1) ∧
    ∀ hash c, d'.checkpoints.get hash = some c →
      d'.lpodCheckpoint C K o hash = .ok (some c) ∧
      ∃ a, c.allocation = some a ∧
        a.validatorRemaining.toNat +
          min c.state.rewardInflow.toNat a.initialValidatorRemaining.toNat =
            a.initialValidatorRemaining.toNat ∧
        a.tailIssued.toNat + min c.state.rewardInflow.toNat a.initialValidatorRemaining.toNat =
          c.state.rewardInflow.toNat := by
  have hinv := hrun.history
    (fun past d => d.Sound C K ∧
      ∀ e ∈ past, e.settlement.isSome → ∃ c, d.checkpoints.get e.hash = some c)
    (fun past d1 e d2 _ hd hstep => by
      obtain ⟨hsound, hkeeps, hstored⟩ := hstep.sound hd.1
      refine ⟨hsound, fun e' he' hsome => ?_⟩
      rcases List.mem_append.mp he' with hold | hnew
      · obtain ⟨c, hc⟩ := hd.2 e' hold hsome
        exact ⟨c, hkeeps _ _ hc⟩
      · rw [List.mem_singleton.mp hnew] at hsome ⊢
        exact hstored hsome)
    ⟨sound_of_empty hempty, fun e he => by cases he⟩
  obtain ⟨hsound, hstored⟩ := hinv
  refine ⟨hstored, hsound.loadCheckpoint, fun hash c hget => ⟨?_, ?_⟩⟩
  · rw [hsound.lpodCheckpoint, hget]
  · obtain ⟨a, hkept⟩ := hsound.kept hash c hget
    exact ⟨a, hkept.allocation, hkept.drawn.pool, hkept.drawn.tail⟩

/-- The funding block and the next one on the transparent chain; both have a settlement. -/
theorem committed_checkpoint_loads_sample :
    ∃ e1 e2 : Commit, ∃ d' : DB,
      Run (Committed lpodHashing plainEncodings) sampleDB [e1, e2] d' ∧
      e1.settlement.isSome ∧ e2.settlement.isSome ∧
      (∃ c, d'.checkpoints.get e2.hash = some c) ∧
      d'.loadCheckpoint lpodHashing plainEncodings .sorted = .ok (d'.checkpoints.get d'.tip.1) := by
  obtain ⟨⟨b1, d1⟩, h1, htest⟩ : ∃ p, sampleDB.extend lpodHashing plainEncodings sampleFunding = .ok p ∧
      (p.2.extend lpodHashing plainEncodings (sampleSettlement p.2.tip.1 3)).toOption.isSome = true :=
    exists_ok_of_test (by decide +kernel)
  cases h2 : d1.extend lpodHashing plainEncodings (sampleSettlement d1.tip.1 3) with
  | error err =>
    rw [h2] at htest
    cases htest
  | ok p =>
    have hrun : Run (Committed lpodHashing plainEncodings) sampleDB
        [sampleDB.commitOf lpodHashing sampleFunding b1,
          d1.commitOf lpodHashing (sampleSettlement d1.tip.1 3) p.1] p.2 :=
      .cons (committed_of_extend h1) (.cons (committed_of_extend h2) (.nil _))
    have hloads := committed_checkpoint_loads rfl hrun .sorted
    exact ⟨_, _, _, hrun, rfl, rfl, hloads.1 _ (List.mem_cons_of_mem _ List.mem_cons_self) rfl,
      hloads.2.1⟩

end Aperod.Lpod
