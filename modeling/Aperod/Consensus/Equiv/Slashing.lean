import Aperod.Consensus.Equiv.LocalVote

/-!
# Double signing

The slashing detector keeps the first block it saw for a height and an eight-character validator ID.
It comes after the checks of height, round and proposer, so at any time it only looks at blocks for the
next height, of the one scheduled proposer.
-/

namespace Aperod

open Go GoMap Engine

variable {C : Externals} {S : Type} {V : Services S}
variable {e' : Engine S} {slot : SignedSlot} {k : Nat × String}

/-! ### The detector -/

namespace Engine

variable {e : Engine S} {env : Env} {b : Block} {seen : GoMap (Nat × String) SignedSlot}

/-- What `CheckBlock` records of a block. -/
def slotOf (C : Externals) (b : Block) : SignedSlot := ⟨b.hash C, b.header.signature, b.header.round⟩

theorem checkSlashing_isOk : (∃ seen, e.checkSlashing C b = .ok seen) ↔ e.evidence C b = none := by
  unfold checkSlashing evidence
  cases e.slashing.get b.header.evidenceKey with
  | none => simp
  | some prev => simp [bind_eq_ok]

/-- The key of the block has no record and gets one, and records far below are dropped; or it has one
with the hash of the block. -/
theorem checkSlashing_eq_ok (h : e.checkSlashing C b = .ok seen) :
    (e.slashing.get b.header.evidenceKey = none ∧ ∀ k slot, seen.get k = some slot ↔
        (e.slashing.set b.header.evidenceKey (slotOf C b)).get k = some slot ∧
          b.header.height - slashingPruneDepth ≤ k.1) ∨
      ∃ prev, e.slashing.get b.header.evidenceKey = some prev ∧ prev.hash = b.hash C ∧
        seen = e.slashing := by
  unfold checkSlashing at h
  cases hprev : e.slashing.get b.header.evidenceKey with
  | none =>
    rw [hprev] at h
    cases h
    refine .inl ⟨rfl, fun k slot => ?_⟩
    split_ifs
    · rw [get_filter, Option.filter_eq_some_iff, decide_eq_true_eq, Nat.not_lt]
      rfl
    · exact (and_iff_left (by omega)).symm
  | some prev =>
    rw [hprev] at h
    simp only [bind_eq_ok, failIf_eq_ok, not_not] at h
    obtain ⟨-, hhash, heq⟩ := h
    cases heq
    exact .inr ⟨prev, rfl, hhash, rfl⟩

theorem checkSlashing_get (h : e.checkSlashing C b = .ok seen)
    (hget : seen.get k = some slot) :
    e.slashing.get k = some slot ∨ k = b.header.evidenceKey ∧ slot = slotOf C b := by
  rcases checkSlashing_eq_ok h with ⟨-, hseen⟩ | ⟨_, -, -, rfl⟩
  · have hset := ((hseen k slot).mp hget).1
    rw [get_set] at hset
    split_ifs at hset with heq
    · exact .inr ⟨heq, (Option.some.inj hset).symm⟩
    · exact .inl hset
  · exact .inl hget

theorem checkSlashing_keeps (h : e.checkSlashing C b = .ok seen)
    (hget : e.slashing.get k = some slot) (hk : b.header.height ≤ k.1) :
    seen.get k = some slot := by
  rcases checkSlashing_eq_ok h with ⟨hnone, hseen⟩ | ⟨_, -, -, rfl⟩
  · have hne : k ≠ b.header.evidenceKey := by
      rintro rfl
      rw [hnone] at hget
      cases hget
    exact (hseen k slot).mpr ⟨(get_set_ne hne).trans hget, by omega⟩
  · exact hget

theorem checkSlashing_records (h : e.checkSlashing C b = .ok seen) :
    ∃ slot, seen.get b.header.evidenceKey = some slot ∧ slot.hash = b.hash C := by
  rcases checkSlashing_eq_ok h with ⟨-, hseen⟩ | ⟨prev, hprev, hhash, rfl⟩
  · exact ⟨slotOf C b, (hseen _ _).mpr ⟨get_set_self _ _ _, Nat.sub_le _ _⟩, rfl⟩
  · exact ⟨prev, hprev, hhash⟩

/-! ### Proposals -/

/-- A validly signed block of the scheduled proposer for the next height. -/
structure Proposal (C : Externals) (e : Engine S) (b : Block) : Prop where
  valid : b.validate C
    (authority e.cfg.validatorAuthorityFork b.header.validatorPub b.header.height) = .ok ()
  next : ∃ tip, e.chain.tip = some tip ∧ b.header.height = tip.header.height + 1 ∧
    b.header.round = tip.header.round + 1
  proposer : e.proposerAt b.header.round = some b.header.validatorPub

theorem Proposal.height {tip : Block} (h : e.Proposal C b) (htip : e.chain.tip = some tip) :
    b.header.height = tip.header.height + 1 := by
  obtain ⟨tip', htip', hheight, -⟩ := h.next
  rw [htip] at htip'
  cases htip'
  exact hheight

/-- The engine is open for a block: it would look at the block's proposer next. -/
structure Open (C : Externals) (V : Services S) (e : Engine S) (env : Env) (b : Block) : Prop where
  running : e.halted = false
  parent : e.checkAuthorityParent V b.header = .ok ()
  valid : b.validate C
    (authority e.cfg.validatorAuthorityFork b.header.validatorPub b.header.height) = .ok ()
  clock : b.header.timestamp - env.now ≤ maxClockSkewNs
  next : ∃ tip, e.chain.tip = some tip ∧ tip.header.height ≠ maxUint64 ∧
    b.header.height = tip.header.height + 1 ∧ tip.header.round ≠ maxUint32 ∧
    b.header.round = tip.header.round + 1

theorem checkCandidate_eq_ok : e.checkCandidate C V env b = .ok () ↔
    Open C V e env b ∧ b.header.validatorPub ∈ e.activeValidators ∧
      ∀ pub, e.proposerAt b.header.round = some pub → pub = b.header.validatorPub := by
  unfold checkCandidate
  simp only [bind_eq_ok, failIf_eq_ok, wrap_eq_ok, checkHeader_eq_ok, Bool.not_eq_true]
  constructor
  · rintro ⟨⟨⟩, hrun, ⟨⟩, hparent, ⟨⟩, hvalid, hclock, hnext, hactive, hturn⟩
    exact ⟨⟨hrun, hparent, hvalid, hclock, hnext⟩, hactive, hturn⟩
  · rintro ⟨⟨hrun, hparent, hvalid, hclock, hnext⟩, hactive, hturn⟩
    exact ⟨(), hrun, (), hparent, (), hvalid, hclock, hnext, hactive, hturn⟩

theorem Proposal.of_checkCandidate (h : e.checkCandidate C V env b = .ok ()) : Proposal C e b := by
  obtain ⟨hopen, hactive, hturn⟩ := checkCandidate_eq_ok.mp h
  obtain ⟨tip, htip, -, hheight, -, hround⟩ := hopen.next
  refine ⟨hopen.valid, ⟨tip, htip, hheight, hround⟩, ?_⟩
  -- a member of the active set, so the schedule names somebody
  have hlen : 0 < e.activeValidators.length := List.length_pos_of_mem hactive
  have hlt := Nat.mod_lt b.header.round hlen
  have hsome : e.proposerAt b.header.round =
      some (e.activeValidators[b.header.round % e.activeValidators.length]) :=
    List.getElem?_eq_getElem hlt
  rw [hsome, hturn _ hsome]

/-- A block for which the engine is open passes the checks if it is of the validator of a proposal. -/
theorem Open.checkCandidate {b' : Block} (h : Open C V e env b) (hprop : Proposal C e b')
    (hpub : b.header.validatorPub = b'.header.validatorPub) :
    e.checkCandidate C V env b = .ok () := by
  obtain ⟨tip, htip, -, -, -, hround⟩ := h.next
  obtain ⟨tip', htip', -, hround'⟩ := hprop.next
  rw [htip] at htip'
  cases htip'
  have hturn : e.proposerAt b.header.round = some b.header.validatorPub := by
    rw [hround, ← hround', hpub]
    exact hprop.proposer
  refine checkCandidate_eq_ok.mpr ⟨h, List.mem_of_getElem? hturn, fun pub heq => ?_⟩
  rw [hturn] at heq
  exact (Option.some.inj heq).symm

/-! ### What one delivery does -/

theorem castVote_frame (e : Engine S) (b : Block) :
    (e.castVote C b).chain = e.chain ∧ (e.castVote C b).slashing = e.slashing := by
  unfold castVote
  split <;> exact ⟨rfl, rfl⟩

theorem activeValidators_undo (hvalidators : e'.registry.validators = e.registry.validators)
    (hcfg : e'.cfg = e.cfg) : e'.activeValidators = e.activeValidators := by
  unfold activeValidators ValidatorRegistry.getActiveValidators
  rw [hvalidators, hcfg]

/-- A delivery that does not get past the detector changes nothing.  Otherwise the block is on record,
and it is on the chain, or the engine is halted, or tip and schedule are as before. -/
theorem afterBlock_cases (e : Engine S) (env : Env) (b : Block) :
    (e.afterBlock C V env b = e ∧
      ∀ seen, e.checkCandidate C V env b = .ok () → e.checkSlashing C b ≠ .ok seen) ∨
    ∃ seen, e.checkCandidate C V env b = .ok () ∧ e.checkSlashing C b = .ok seen ∧
      (e.afterBlock C V env b).slashing = seen ∧
      ((e.afterBlock C V env b).halted = true ∨ (e.afterBlock C V env b).chain.tip = some b ∨
        (e.afterBlock C V env b).chain = e.chain ∧ (e.afterBlock C V env b).cfg = e.cfg ∧
          (e.afterBlock C V env b).activeValidators = e.activeValidators) := by
  unfold afterBlock
  cases hrec : e.receiveBlock C V env b with
  | ok e' =>
    refine .inr ?_
    obtain ⟨e1, haccept, heq⟩ := unbind (receiveBlock_eq_ok.mp hrec)
    cases heq
    obtain ⟨hrun, hparent, hvalid, hheader, seen, hslash, -, -, r, chain, store, -, hchain, -, rfl⟩ :=
      acceptBlock_eq_ok.mp haccept
    have hcand : e.checkCandidate C V env b = .ok () := by
      unfold checkCandidate
      simp only [bind_eq_ok, failIf_eq_ok, wrap_eq_ok, Bool.not_eq_true]
      exact ⟨(), hrun, (), hparent, (), hvalid, hheader⟩
    obtain ⟨htip, -⟩ := Chain.addBlock_eq_ok hchain
    have hframe := castVote_frame (C := C) ({ e with slashing := seen }.advance C env b r chain store) b
    refine ⟨seen, hcand, hslash, hframe.2, .inr (.inl ?_)⟩
    show (castVote C _ b).chain.tip = some b
    rw [hframe.1]
    exact htip
  | error p =>
    obtain ⟨e', err⟩ := p
    rcases receiveBlock_eq_error hrec with ⟨rfl, hnot⟩ | ⟨seen, hcand, hslash, hleft⟩
    · exact .inl ⟨rfl, hnot⟩
    · refine .inr ⟨seen, hcand, hslash, ?_⟩
      rcases hleft with ⟨rfl, -⟩ | ⟨s, s', -, -, -, -, ⟨rfl, -⟩ | ⟨r, -, ⟨rfl, -⟩ | ⟨chain, -, rfl⟩⟩⟩
      · exact ⟨rfl, .inr (.inr ⟨rfl, rfl, rfl⟩)⟩
      · exact ⟨rfl, .inr (.inr ⟨rfl, rfl, activeValidators_undo rfl rfl⟩)⟩
      · exact ⟨rfl, .inr (.inr ⟨rfl, rfl, activeValidators_undo rfl rfl⟩)⟩
      · exact ⟨rfl, .inl rfl⟩

end Engine

/-- One call of `handleIncomingBlock`. -/
def DeliveredBlock (C : Externals) (V : Services S) (e : Engine S) (d : Env × Block)
    (e' : Engine S) : Prop :=
  e' = e.afterBlock C V d.1 d.2

/-! ### The invariant -/

/-- Every record is for a height of the chain or of a delivered proposal for the next one. -/
def Watched (C : Externals) (past : List (Env × Block)) (e : Engine S) : Prop :=
  e.halted = false → ∀ k slot, e.slashing.get k = some slot →
    (∃ tip, e.chain.tip = some tip ∧ k.1 ≤ tip.header.height) ∨
    ∃ d ∈ past, k = d.2.header.evidenceKey ∧ slot = slotOf C d.2 ∧ e.Proposal C d.2

section Run

open Engine

variable {e : Engine S} {env : Env} {b : Block} {past : List (Env × Block)} {d : Env × Block}

theorem Engine.Proposal.transfer (h : e.Proposal C b) (hchain : e'.chain = e.chain)
    (hcfg : e'.cfg = e.cfg) (hactive : e'.activeValidators = e.activeValidators) :
    e'.Proposal C b := by
  obtain ⟨hvalid, hnext, hturn⟩ := h
  refine ⟨?_, ?_, ?_⟩
  · rw [hcfg]
    exact hvalid
  · rw [hchain]
    exact hnext
  · unfold proposerAt
    rw [hactive]
    exact hturn

theorem Watched.step (h : Watched C past e) (hstep : DeliveredBlock C V e d e') :
    Watched C (past ++ [d]) e' := by
  obtain ⟨env, b⟩ := d
  intro hrun k slot hget
  rw [hstep] at hrun hget ⊢
  rcases afterBlock_cases e env b with ⟨heq, -⟩ | ⟨seen, hcand, hslash, hseen, hafter⟩
  · rw [heq] at hrun hget ⊢
    rcases h hrun k slot hget with hold | ⟨d, hd, hrest⟩
    · exact .inl hold
    · exact .inr ⟨d, List.mem_append_left _ hd, hrest⟩
  · rw [hseen] at hget
    obtain ⟨hopen, -⟩ := checkCandidate_eq_ok.mp hcand
    obtain ⟨tip, htip, -, hheight, -⟩ := hopen.next
    rcases hafter with hhalted | htip' | ⟨hchain, hcfg, hactive⟩
    · rw [hhalted] at hrun
      cases hrun
    · -- the block is the tip now, and no record is above it
      refine .inl ⟨b, htip', ?_⟩
      rcases checkSlashing_get hslash hget with hold | ⟨rfl, -⟩
      · rcases h hopen.running k slot hold with ⟨tip', htip', hle⟩ | ⟨d, -, rfl, -, hprop⟩
        · rw [htip] at htip'
          cases htip'
          omega
        · have hd := hprop.height htip
          show d.2.header.height ≤ b.header.height
          omega
      · exact Nat.le_refl _
    · rcases checkSlashing_get hslash hget with hold | ⟨rfl, rfl⟩
      · rcases h hopen.running k slot hold with ⟨tip', htip', hle⟩ | ⟨d, hd, hkey, hslot, hprop⟩
        · rw [hchain]
          exact .inl ⟨tip', htip', hle⟩
        · exact .inr ⟨d, List.mem_append_left _ hd, hkey, hslot, hprop.transfer hchain hcfg hactive⟩
      · refine .inr ⟨(env, b), by simp, rfl, rfl, ?_⟩
        exact (Proposal.of_checkCandidate hcand).transfer hchain hcfg hactive

theorem Watched.run {e0 : Engine S} (hfresh : e0.slashing = ∅)
    (hrun : Run (DeliveredBlock C V) e0 past e) : Watched C past e := by
  apply hrun.history (Watched C)
  · intro past e d e' _ h hstep
    exact h.step hstep
  · intro _ k slot hget
    rw [hfresh] at hget
    simp at hget

/-- Evidence is about two delivered blocks, both validly signed for the validator's full key. -/
theorem Watched.evidence {ev : DoubleSignEvidence} (h : Watched C past e)
    (hev : e.reported C V env b = some ev) :
    ∃ d ∈ past, d.2.header.validatorPub = b.header.validatorPub ∧
      d.2.header.height = b.header.height ∧ d.2.hash C ≠ b.hash C ∧ e.Proposal C d.2 ∧ e.Proposal C b ∧
      ev.validator = b.header.validatorPub ∧ ev.hash1 = d.2.hash C ∧ ev.hash2 = b.hash C := by
  unfold reported at hev
  split at hev
  · rename_i hcand
    have hprop := Proposal.of_checkCandidate hcand
    obtain ⟨hopen, -⟩ := checkCandidate_eq_ok.mp hcand
    obtain ⟨tip, htip, hheight, hround⟩ := hprop.next
    unfold Engine.evidence at hev
    split at hev
    · cases hev
    · rename_i prev hprev
      split_ifs at hev with hhash
      cases hev
      rcases h hopen.running _ prev hprev with ⟨tip', htip', hle⟩ | ⟨d, hd, hkey, rfl, hdprop⟩
      · -- the record is for the next height, not for one of the chain
        rw [htip] at htip'
        cases htip'
        have hle : b.header.height ≤ tip.header.height := hle
        omega
      · obtain ⟨tip', htip', hdheight, hdround⟩ := hdprop.next
        rw [htip] at htip'
        cases htip'
        -- one schedule, one round: the same full key
        have hpub : d.2.header.validatorPub = b.header.validatorPub := by
          have hturn := hdprop.proposer
          rw [hdround, ← hround, hprop.proposer] at hturn
          exact (Option.some.inj hturn).symm
        exact ⟨d, hd, hpub, hdheight.trans hheight.symm, hhash, hdprop, hprop, rfl, rfl, rfl⟩
  · cases hev

/-- After a block passed the detector: its record is there while its height is open. -/
def Remembered (C : Externals) (b1 : Block) (e : Engine S) : Prop :=
  e.halted = true ∨ (∃ tip, e.chain.tip = some tip ∧ b1.header.height ≤ tip.header.height) ∨
    (∃ slot, e.slashing.get b1.header.evidenceKey = some slot ∧ slot.hash = b1.hash C) ∧
      e.Proposal C b1

theorem Remembered.start (hcand : e.checkCandidate C V env b = .ok ())
    (hnone : e.evidence C b = none) : Remembered C b (e.afterBlock C V env b) := by
  have hprop := Proposal.of_checkCandidate hcand
  obtain ⟨seen, hslash⟩ := checkSlashing_isOk.mpr hnone
  rcases afterBlock_cases e env b with ⟨-, hnot⟩ | ⟨seen', -, hslash', hseen, hafter⟩
  · exact absurd hslash (hnot seen hcand)
  · rw [hslash] at hslash'
    cases hslash'
    rcases hafter with hhalted | htip | ⟨hchain, hcfg, hactive⟩
    · exact .inl hhalted
    · exact .inr (.inl ⟨b, htip, Nat.le_refl _⟩)
    · refine .inr (.inr ⟨?_, hprop.transfer hchain hcfg hactive⟩)
      rw [hseen]
      exact checkSlashing_records hslash

theorem Remembered.step {b1 : Block} (h : Remembered C b1 e) (hstep : DeliveredBlock C V e d e') :
    Remembered C b1 e' := by
  obtain ⟨env, b⟩ := d
  rw [hstep]
  rcases afterBlock_cases e env b with ⟨heq, -⟩ | ⟨seen, hcand, hslash, hseen, hafter⟩
  · rw [heq]
    exact h
  · obtain ⟨hopen, -⟩ := checkCandidate_eq_ok.mp hcand
    obtain ⟨tip, htip, -, hheight, -⟩ := hopen.next
    rcases hafter with hhalted | htip' | ⟨hchain, hcfg, hactive⟩
    · exact .inl hhalted
    · -- the new tip has the height of the block, or one above it
      refine .inr (.inl ⟨b, htip', ?_⟩)
      rcases h with hhalted | ⟨tip', htip', hle⟩ | ⟨-, hprop⟩
      · rw [hopen.running] at hhalted
        cases hhalted
      · rw [htip] at htip'
        cases htip'
        omega
      · have hb1 := hprop.height htip
        omega
    · rcases h with hhalted | hpassed | ⟨⟨slot, hget, hhash⟩, hprop⟩
      · rw [hopen.running] at hhalted
        cases hhalted
      · rw [← hchain] at hpassed
        exact .inr (.inl hpassed)
      · have hb1 := hprop.height htip
        have hle : b.header.height ≤ b1.header.evidenceKey.1 := by
          show b.header.height ≤ b1.header.height
          omega
        refine .inr (.inr ⟨⟨slot, ?_, hhash⟩, hprop.transfer hchain hcfg hactive⟩)
        rw [hseen]
        exact checkSlashing_keeps hslash hget hle

end Run

/-- Another block of validator 3 for the second height. -/
def rivalBlock (fee : Nat) : Block :=
  let b := blockOn firstBlock 3 []
  { b with header := { b.header with baseFee := fee } }

set_option maxRecDepth 8000

theorem rivalBlock_candidate (fee : Nat) : (voterOn (chainOf firstBlock)).checkCandidate hashing
    idleServices { now := 5 } (rivalBlock fee) = .ok () := by
  have hheader : (voterOn (chainOf firstBlock)).checkHeader { now := 5 } (rivalBlock fee) = .ok () := by
    show (voterOn (chainOf firstBlock)).checkHeader { now := 5 } (blockOn firstBlock 3 []) = .ok ()
    exact committee_checkHeader (voterOn_active _) rfl (by decide) (by decide) (by decide) rfl
  unfold checkCandidate
  simp only [bind_eq_ok]
  exact ⟨(), rfl, (), rfl, (), rfl, hheader⟩

theorem rivalBlock_hash_ne : (rivalBlock initialBaseFeePerByte).hash hashing ≠
    (rivalBlock 1).hash hashing := by
  decide +kernel

theorem rivalBlock_refused : ∃ seen, (voterOn (chainOf firstBlock)).afterBlock hashing idleServices
    { now := 5 } (rivalBlock 1) = { voterOn (chainOf firstBlock) with slashing := seen } := by
  have hrec : ∃ seen err, (voterOn (chainOf firstBlock)).receiveBlock hashing idleServices { now := 5 }
      (rivalBlock 1) = .error ({ voterOn (chainOf firstBlock) with slashing := seen }, err) := by
    unfold receiveBlock
    rw [rivalBlock_candidate]
    exact ⟨_, _, rfl⟩
  obtain ⟨seen, err, hrec⟩ := hrec
  refine ⟨seen, ?_⟩
  unfold afterBlock
  rw [hrec]

end Aperod
