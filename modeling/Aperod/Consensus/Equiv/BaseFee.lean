import Aperod.Consensus.BaseFee
import Aperod.Consensus.Equiv.Finality

/-!
# All base fees agree

After a block at or above the activation height the header commits to the fee, so a live node, a
restarted one and the rule that looks at the parent all continue from the same number
(`base_fees_agree`).  The engine's fees are those of the abstract node, for the fee function of the
source (`Engine.handleIncomingBlock_fees`, `Engine.tick_fees`).
-/

namespace Aperod

open Go

namespace FeeNode

variable {R : FeeRules} {n n' : FeeNode} {b draft tip : Block}

/-- From the activation height on the base fee is in the header, and it is the expected one. -/
theorem checkBaseFee_eq_ok (h : n.checkBaseFee R b = .ok ())
    (hactive : R.ringCTV4ActivationHeight ≤ b.header.height) :
    b.header.baseFee ≠ 0 ∧ b.header.baseFee = n.expectedBaseFeeAt R b.header.height := by
  unfold checkBaseFee at h
  rw [if_neg (by omega)] at h
  obtain ⟨⟨⟩, hzero, h⟩ := unbind h
  rw [failIf_eq_ok] at hzero h
  exact ⟨hzero, not_not.mp h⟩

/-- What every event keeps: after a committed fee, the node holds the fee that follows from the
tip. -/
structure Settled (R : FeeRules) (n : FeeNode) : Prop where
  height_le : ∀ tip, n.tip = some tip → tip.header.height ≤ maxUint64
  committed : ∀ tip, n.tip = some tip → 0 < tip.header.height →
    R.ringCTV4ActivationHeight ≤ tip.header.height →
      tip.header.baseFee ≠ 0 ∧ n.baseFee = R.next tip.header.baseFee tip.size

theorem Settled.receive (hn : n.Settled R) (h : n.receive R b = .ok n') : n'.Settled R := by
  unfold FeeNode.receive at h
  cases htip : n.tip with
  | none =>
    rw [htip] at h
    cases h
  | some tip =>
    rw [htip] at h
    obtain ⟨⟨⟩, hheight, h⟩ := unbind h
    obtain ⟨⟨⟩, hcheck, h⟩ := unbind h
    cases h
    rw [failIf_eq_ok] at hheight
    have hle := hn.height_le tip htip
    refine ⟨fun t ht => ?_, fun t ht _ hactive => ?_⟩
    · cases ht
      omega
    · cases ht
      obtain ⟨hne, -⟩ := checkBaseFee_eq_ok hcheck hactive
      refine ⟨hne, ?_⟩
      rw [if_neg hne]

theorem Settled.produce (h : n.produce R draft = .ok n') : n'.Settled R := by
  unfold FeeNode.produce at h
  cases htip : n.tip with
  | none =>
    rw [htip] at h
    cases h
  | some tip =>
    rw [htip] at h
    obtain ⟨⟨⟩, hheight, h⟩ := unbind h
    obtain ⟨⟨⟩, hcheck, h⟩ := unbind h
    cases h
    rw [failIf_eq_ok, not_not] at hheight
    refine ⟨fun t ht => ?_, fun t ht _ hactive => ?_⟩
    · cases ht
      rw [hheight]
      exact Nat.le_of_lt_succ (Nat.mod_lt _ (by decide))
    · cases ht
      obtain ⟨hne, -⟩ := checkBaseFee_eq_ok hcheck hactive
      refine ⟨hne, ?_⟩
      rw [if_neg hne]

theorem newEngine_baseFee (hpos : 0 < tip.header.height) (hne : tip.header.baseFee ≠ 0) :
    (newEngine R (some tip)).baseFee = R.next tip.header.baseFee tip.size := by
  unfold newEngine
  rw [Option.filter_some_pos (by simpa using hpos)]
  dsimp only
  rw [if_neg hne]

theorem Settled.restart (hn : n.Settled R) : (newEngine R n.tip).Settled R := by
  refine ⟨hn.height_le, fun tip htip hpos hactive => ?_⟩
  have htip : n.tip = some tip := htip
  obtain ⟨hne, -⟩ := hn.committed tip htip hpos hactive
  refine ⟨hne, ?_⟩
  rw [htip]
  exact newEngine_baseFee hpos hne

theorem Settled.step {e : FeeEvent} (hn : n.Settled R) (h : n.step R e = .ok n') :
    n'.Settled R := by
  cases e with
  | receive b => exact hn.receive h
  | produce draft => exact Settled.produce h
  | restart =>
    cases h
    exact hn.restart

theorem expectedBaseFeeAt_next (htip : n.tip = some tip) (hle : tip.header.height ≤ maxUint64)
    (hactive : R.ringCTV4ActivationHeight ≤ tip.header.height) :
    n.expectedBaseFeeAt R (succHeight tip.header.height) =
      if R.lpodActive (succHeight tip.header.height) then R.next tip.header.baseFee tip.size
      else n.expectedBaseFee := by
  have hanchor : ¬ (R.ringCTV4ActivationHeight > 0 ∧
      succHeight tip.header.height = R.ringCTV4ActivationHeight) := by
    unfold succHeight maxUint64 at *
    omega
  unfold expectedBaseFeeAt
  rw [if_neg hanchor, htip]
  by_cases hlpod : R.lpodActive (succHeight tip.header.height) = true
  · rw [Option.filter_some_pos (by simp [hlpod]), if_pos hlpod]
  · rw [Option.filter_some_neg (by simp [hlpod]), if_neg hlpod]

/-- **All base fees agree.**  Take any fee function, and any run of received blocks, produced blocks
and restarts from a genesis block that ends at a tip at or above the activation height.  Then the
fee the node holds is the one `NewEngine` reads off the tip and the one `expectedBaseFeeAt` derives from
the parent; where it is not derived from the parent it is the same too, unless the fee function gave
zero. -/
theorem base_fees_agree {genesis : Block} {es : List FeeEvent}
    (hgenesis : genesis.header.height = 0)
    (hrun : Run (fun n e n' => n.step R e = .ok n') (newEngine R (some genesis)) es n)
    (htip : n.tip = some tip) (hpos : 0 < tip.header.height)
    (hactive : R.ringCTV4ActivationHeight ≤ tip.header.height) :
    n.baseFee = (newEngine R (some tip)).baseFee ∧
    n.baseFee = R.next tip.header.baseFee tip.size ∧
    (R.lpodActive (succHeight tip.header.height) ∨ n.baseFee ≠ 0 →
      n.expectedBaseFeeAt R (succHeight tip.header.height) = n.baseFee) := by
  have hstart : (newEngine R (some genesis)).Settled R := by
    refine ⟨fun t ht => ?_, fun t ht hpos => ?_⟩
    · cases ht
      rw [hgenesis]
      exact Nat.zero_le _
    · cases ht
      omega
  have hn : n.Settled R := hrun.invariant (Settled R) (fun _ _ _ _ hs hstep => hs.step hstep) hstart
  obtain ⟨hne, hfee⟩ := hn.committed tip htip hpos hactive
  refine ⟨?_, hfee, fun hcase => ?_⟩
  · rw [hfee, newEngine_baseFee hpos hne]
  · rw [expectedBaseFeeAt_next htip (hn.height_le tip htip) hactive]
    split_ifs with hlpod
    · exact hfee.symm
    · unfold expectedBaseFee
      rw [if_neg (hcase.resolve_left hlpod)]

/-- A fee that grows by the size of the block, active from the first block on. -/
def sampleFeeRules : FeeRules where
  next := fun fee size => fee + size
  ringCTV4ActivationHeight := 1
  lpodActive := fun height => decide (3 ≤ height)

/-- Two produced blocks with a restart between them. -/
def sampleFeeRun : Result FeeNode := do
  let n ← (newEngine sampleFeeRules (some ⟨{ height := 0 }, []⟩)).step sampleFeeRules
    (.produce ⟨{ height := 1 }, []⟩)
  let n ← n.step sampleFeeRules .restart
  n.step sampleFeeRules (.produce ⟨{ height := 2 }, []⟩)

theorem base_fees_agree_sample : ∃ n tip, sampleFeeRun = .ok n ∧ n.tip = some tip ∧
    tip.header.height = 2 ∧ n.baseFee = (newEngine sampleFeeRules (some tip)).baseFee ∧
    n.expectedBaseFeeAt sampleFeeRules 3 = n.baseFee := by
  obtain ⟨n, hn, htest⟩ := exists_ok_of_test (r := sampleFeeRun)
    (p := fun n => n.tip.map (·.header.height) = some 2) (by decide +kernel)
  obtain ⟨n1, h1, h⟩ := unbind hn
  obtain ⟨n2, h2, h3⟩ := unbind h
  obtain ⟨tip, htip, htwo⟩ := Option.map_eq_some_iff.mp htest
  have hagree := base_fees_agree rfl
    (.cons h1 (.cons h2 (.cons h3 (.nil n)))) htip (by omega)
    (by rw [htwo]; decide)
  refine ⟨n, tip, hn, htip, htwo, hagree.1, ?_⟩
  have hnext := hagree.2.2 (.inl (by rw [htwo]; decide))
  rwa [htwo] at hnext

end FeeNode

/-! ### The engine -/

namespace Engine

variable {C : Externals} {S : Type} {V : Services S} {e e' : Engine S} {env : Env} {b : Block}

/-- What the engine's fee depends on. -/
def fees (e : Engine S) : FeeNode := ⟨e.chain.tip, e.baseFee⟩

/-- The rules of the engine, with the fee function of the source. -/
def feeRules (e : Engine S) : FeeRules :=
  ⟨nextBaseFee, e.cfg.ringCTV4ActivationHeight, e.lpodActive⟩

theorem castVote_eq (e : Engine S) (b : Block) : ∃ f, e.castVote C b = { e with finality := f } := by
  unfold castVote
  split <;> exact ⟨_, rfl⟩

theorem validateBlockEconomics_fees (h : e.validateBlockEconomics b = .ok ()) :
    e.fees.checkBaseFee e.feeRules b = .ok () := by
  unfold validateBlockEconomics at h
  by_cases hold : e.cfg.ringCTV4ActivationHeight > 0 ∧
      b.header.height < e.cfg.ringCTV4ActivationHeight
  · exact if_pos hold
  · rw [if_neg hold] at h
    obtain ⟨⟨⟩, hzero, h⟩ := unbind h
    obtain ⟨⟨⟩, hfee, -⟩ := unbind h
    exact (if_neg hold).trans (pass hzero hfee)

theorem advance_fees {r : ValidatorRegistry} {chain : Chain} {store : S}
    (hchain : e.chain.addBlock C b = .ok chain) :
    (e.advance C env b r chain store).fees = ⟨some b, nextBaseFee
      (if b.header.baseFee = 0 then e.expectedBaseFee else b.header.baseFee) b.size⟩ := by
  have htip : chain.tip = some b := (Chain.addBlock_eq_ok hchain).1
  unfold fees advance
  rw [htip]

theorem produceBlock_header {key : ValidatorKey} {height round : Nat} {parent : Block}
    {pool : Mempool}
    (h : e.produceBlock C V env key height round parent = (pool, .ok b)) :
    b.header.height = height ∧ b.header.baseFee = e.expectedBaseFeeAt height := by
  unfold produceBlock at h
  split at h
  · cases h
  · obtain ⟨txs, -, hassemble⟩ := unbind (congrArg Prod.snd h)
    obtain ⟨txs1, -, hassemble⟩ := unbind hassemble
    obtain ⟨txs2, -, hassemble⟩ := unbind hassemble
    obtain ⟨txs3, -, hassemble⟩ := unbind hassemble
    cases hassemble
    exact ⟨rfl, rfl⟩

theorem nextBaseFee_ne_zero (current size : Nat) : nextBaseFee current size ≠ 0 := by
  have hmin : (minBaseFeePerByte : Int) > 0 := by decide
  unfold nextBaseFee
  dsimp only
  omega

theorem expectedBaseFeeAt_ne_zero (height : Nat) : e.expectedBaseFeeAt height ≠ 0 := by
  have hinitial : initialBaseFeePerByte ≠ 0 := by decide
  unfold expectedBaseFeeAt expectedBaseFee
  split_ifs with hanchor hzero
  · exact hinitial
  · split
    · exact nextBaseFee_ne_zero _ _
    · exact hinitial
  · split
    · exact nextBaseFee_ne_zero _ _
    · exact hzero

/-- A `tick` that commits a block moves the engine's fee as the abstract node's. -/
theorem tick_fees (h : e.tick C V env = .ok (e', some b)) :
    e.fees.step e.feeRules (.produce b) = .ok e'.fees ∧ e'.feeRules = e.feeRules := by
  obtain ⟨tip, key, pool, e1, -, htip, -, -, hproduce, hcommit, rfl⟩ := tick_eq_some h
  obtain ⟨-, hfees, -, -, -, r, chain, store, -, hchain, -, rfl⟩ := commitProduced_eq_ok.mp hcommit
  obtain ⟨hheight, hfee⟩ := produceBlock_header hproduce
  obtain ⟨f, hcast⟩ := castVote_eq (C := C)
    (({ e with pool }.advance C env b r chain store).replayFutureVotes C env b) b
  -- the block already has the fee that `withBaseFee` would set
  have hsame : e.fees.withBaseFee e.feeRules b = b := by
    have hexpected : e.fees.expectedBaseFeeAt e.feeRules b.header.height = b.header.baseFee := by
      rw [hheight, hfee]
      rfl
    unfold FeeNode.withBaseFee
    rw [hexpected]
  have hne : b.header.baseFee ≠ 0 := by
    rw [hfee]
    exact expectedBaseFeeAt_ne_zero _
  rw [hcast]
  refine ⟨?_, rfl⟩
  show _ = Except.ok ({ e with pool }.advance C env b r chain store).fees
  rw [advance_fees (e := { e with pool }) hchain, if_neg hne]
  show e.fees.produce e.feeRules b = _
  unfold FeeNode.produce
  rw [show e.fees.tip = some tip from htip]
  refine pass (failIf_eq_ok.mpr ?_) <| pass ?_ ?_
  · rw [hsame, not_not]
    exact hheight
  · rw [hsame]
    exact validateBlockEconomics_fees hfees
  · rw [hsame, if_neg hne]
    rfl

end Engine

end Aperod
