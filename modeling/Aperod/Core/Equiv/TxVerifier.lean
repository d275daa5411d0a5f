import Aperod.Core.TxVerifier

/-!
# What an accepted transaction satisfies

One inversion theorem for each step of `Validate` and `verifyTx`, so that later proofs never
unfold them.
-/

namespace Aperod

open Go Transaction

variable {C : Externals}

/-! ### Structural validation -/

/-- The versions that carry ring inputs and balance them. -/
def TxVersion.isTransfer : TxVersion → Bool
  | .base | .gameAsset | .commitmentBinding | .clsag | .avm => true
  | _ => false

variable {tx : Transaction}

theorem Transaction.validate_transfer (h : tx.validate C = .ok ())
    (hv : tx.version.isTransfer = true) :
    tx.validateAVM C = .ok () ∧ tx.validateTransfer = .ok () := by
  unfold validate at h
  cases hver : tx.version with
  | base | gameAsset | commitmentBinding | clsag | avm =>
    rw [hver] at h
    obtain ⟨⟨⟩, havm, htransfer⟩ := unbind h
    exact ⟨havm, htransfer⟩
  | _ =>
    rw [hver] at hv
    cases hv

/-- A valid ring transaction: the counts, and the per-input checks. -/
structure Transaction.TransferShape (tx : Transaction) : Prop where
  outputs_le : tx.outputs.length ≤ 16
  rangeProofs_length : tx.rangeProofs.length = tx.outputs.length
  inputs_ok : ∀ i inp, tx.inputs[i]? = some inp → tx.validateInput i inp = .ok ()

theorem Transaction.validateTransfer_spec (h : tx.validateTransfer = .ok ()) (hin : tx.inputs ≠ []) :
    tx.TransferShape := by
  have hcb : tx.isCoinbase = false := by simp [isCoinbase, hin]
  simp only [validateTransfer, bind_eq_ok, hcb, failIf_eq_ok, Bool.false_eq_true,
    if_false] at h
  obtain ⟨_, -, _, -, _, -, _, hout, _, -, _, -, _, -, _, hrp, h⟩ := h
  refine ⟨by omega, by simpa using hrp, fun i inp hi => ?_⟩
  simpa using checkAll_eq_ok_iff.mp h i inp hi

/-- A checked input of a CLSAG spend: a full ring with one commitment for each member. -/
theorem Transaction.validateInput_clsag {i : Nat} {inp : RingInput}
    (h : tx.validateInput i inp = .ok ()) (hv : tx.usesCLSAG = true) :
    inp.ring.length = ringSize ∧ inp.ringCommitments.length = ringSize := by
  simp only [validateInput, validateInputCLSAG, bind_eq_ok, hv,
    failIf_eq_ok, if_true] at h
  obtain ⟨_, hring, _, -, _, -, _, -, _, hc, -⟩ := h
  exact ⟨by simpa using hring, by simpa using hc⟩

/-! ### Verification -/

namespace TxVerifier

variable {v : TxVerifier} {burns : List UTXOKey} {height : Nat}

theorem verifyTx_validate (h : v.verifyTx C tx burns height = .ok ()) : tx.validate C = .ok () := by
  obtain ⟨⟨⟩, hval, -⟩ := unbind h
  exact hval

theorem verifyTx_ring (h : v.verifyTx C tx burns height = .ok ())
    (hpos : tx.isLPoDPosition = false) (hin : tx.inputs ≠ []) :
    v.verifyRingTx C tx burns height = .ok () := by
  replace h := past h
  have hlen : tx.inputs.length ≠ 0 := by simpa using hin
  simpa [hpos, hlen] using h

/-- What the numbered steps of `verifyTx` establish for a transaction with inputs. -/
structure RingChecked (C : Externals) (v : TxVerifier) (tx : Transaction)
    (burns : List UTXOKey) (height : Nat) : Prop where
  unspent : ∀ s, v.utxos = some s → ∀ inp ∈ tx.inputs, s.isSpent C inp.keyImage = false
  binding : ∀ s, v.utxos = some s → ∀ i inp, tx.inputs[i]? = some inp →
    v.checkRingBinding s burns height (tx.hash C) tx i inp = .ok ()
  signature : ∀ i inp, tx.inputs[i]? = some inp →
    checkRingSignature C (tx.hash C) tx i inp = .ok ()
  range : ∀ i proof, tx.rangeProofs[i]? = some proof →
    checkRangeProof C (tx.hash C) tx i proof = .ok ()
  fee : checkFeeCommit C (tx.hash C) tx = .ok ()
  balance : checkBalance C (tx.hash C) tx = .ok ()

theorem verifyRingTx_spec (h : v.verifyRingTx C tx burns height = .ok ()) :
    RingChecked C v tx burns height := by
  simp only [verifyRingTx, bind_eq_ok] at h
  obtain ⟨_, -, _, hunspent, _, -, _, hbind, _, hsig, _, hrange, _, hfee, hbal⟩ := h
  refine ⟨fun s hs inp hinp => ?_, fun s hs i inp hi => ?_, fun i inp hi => ?_,
    fun i proof hi => ?_, hfee, hbal⟩
  · simp only [checkUnspent, hs] at hunspent
    obtain ⟨k, hk⟩ := checkAll_mem hunspent hinp
    simpa using hk
  · simp only [checkRingBindings, hs] at hbind
    simpa using checkAll_eq_ok_iff.mp hbind i inp hi
  · simpa using checkAll_eq_ok_iff.mp hsig i inp hi
  · simpa using checkAll_eq_ok_iff.mp hrange i proof hi

/-! ### The steps one by one -/

variable {txHash : Hash32} {i : Nat} {inp : RingInput}

/-- The ring of a v4 input is bound through its real member. -/
theorem checkRingBinding_v4 {s : UTXOSet}
    (h : v.checkRingBinding s burns height txHash tx i inp = .ok ())
    (hv : tx.version = .commitmentBinding) :
    ∃ m u, inp.ring[inp.realIndex.toNat]? = some m ∧ s.byPubKey.get m = some u ∧
      u.amountCommit = inp.amountCommit := by
  have hnc : tx.usesCLSAG = false := by simp [usesCLSAG, hv]
  simp only [checkRingBinding, hnc, hv, if_true, Bool.false_eq_true, if_false, bind_eq_ok,
    index_eq_ok, UTXOSet.getByPubKey] at h
  obtain ⟨m, hm, h⟩ := h
  split at h
  · exact absurd h (by simp)
  · rename_i u hu
    exact ⟨m, u, hm, hu, by simpa using h⟩

/-- The ring of a CLSAG input is bound member by member; with the exclusion rule on, no member is
staked collateral, neither before the block nor by a listed deposit of it. -/
theorem checkRingBinding_clsag {s : UTXOSet}
    (h : v.checkRingBinding s burns height txHash tx i inp = .ok ()) (hv : tx.usesCLSAG = true)
    {j : Nat} {m : Point32} (hj : inp.ring[j]? = some m) :
    ∃ u, s.getRingMember m = some u ∧ inp.ringCommitments[j]? = some u.amountCommit ∧
      (v.exclusionActive height = true → u.key ∉ burns ∧ s.isStaked u.key = false) := by
  simp only [checkRingBinding, hv, if_true] at h
  have hmem := checkAll_eq_ok_iff.mp h j m hj
  simp only [Nat.zero_add, checkCLSAGMember] at hmem
  split at hmem
  · exact absurd hmem (by simp)
  · rename_i u hu
    simp only [bind_eq_ok, index_eq_ok, failIf_eq_ok] at hmem
    obtain ⟨c, hc, _, hcommit, hexcl⟩ := hmem
    have hceq : u.amountCommit = c := by simpa using hcommit
    refine ⟨u, hu, hceq ▸ hc, fun hact => ?_⟩
    simpa [hact] using hexcl

theorem checkRingSignature_clsag (h : checkRingSignature C txHash tx i inp = .ok ())
    (hv : tx.usesCLSAG = true) :
    ∃ sig, C.clsagVerify (ringSignMessage C txHash i) inp.ring inp.ringCommitments inp.pseudoOut sig
      = .ok true ∧ sig.keyImage = inp.keyImage := by
  simp only [checkRingSignature, hv, if_true, bind_eq_ok] at h
  obtain ⟨osig, -, h⟩ := h
  cases osig with
  | none => exact absurd h (by simp)
  | some sig =>
    simp only [checkRingResult, bind_eq_ok, wrap_eq_ok, failIf_eq_ok] at h
    obtain ⟨ok, hver, _, hki, hok⟩ := h
    refine ⟨sig, ?_, by simpa using hki⟩
    simpa [Bool.eq_true_of_not_eq_false hok] using hver

theorem checkRangeProof_spec {proof : Option RangeProof}
    (h : checkRangeProof C txHash tx i proof = .ok ()) :
    ∃ p out, C.verifyRange (some p) = .ok true ∧ tx.outputs[i]? = some out ∧
      p.valueCommit = out.amountCommit := by
  simp only [checkRangeProof, bind_eq_ok, wrap_eq_ok, failIf_eq_ok, deref_eq_ok,
    index_eq_ok] at h
  obtain ⟨ok, hver, _, hok, p, rfl, out, hout, hcommit⟩ := h
  refine ⟨p, out, ?_, hout, by simpa using hcommit⟩
  simpa [Bool.eq_true_of_not_eq_false hok] using hver

theorem checkFeeCommit_spec (h : checkFeeCommit C txHash tx = .ok ()) :
    C.commit tx.fee.toNat 0 = .ok tx.feeCommit := by
  simp only [checkFeeCommit, bind_eq_ok, wrap_eq_ok, failIf_eq_ok] at h
  obtain ⟨expected, hexp, heq⟩ := h
  have : tx.feeCommit = expected := by simpa using heq
  exact this ▸ hexp

theorem checkBalance_spec (h : checkBalance C txHash tx = .ok ()) :
    commitSum C (tx.inputs.map (inputCommit tx)) (tx.outputs.map (·.amountCommit))
      tx.feeCommit = .ok true := by
  simp only [checkBalance, bind_eq_ok, wrap_eq_ok, failIf_eq_ok] at h
  obtain ⟨balanced, hsum, hb⟩ := h
  simpa [Bool.eq_true_of_not_eq_false hb] using hsum

/-- Every transaction of an accepted block is of a kind the verifier passes over, or accepted. -/
theorem verifyBlock_spec {b : Block} (h : v.verifyBlock C b = .ok ()) (htx : tx ∈ b.txs) :
    (tx.isCoinbase || tx.isGuardianFund || tx.isLPoD || tx.isLPoDPayout) = true ∨
      v.verifyTx C tx (v.blockStakeBurns b) b.header.height = .ok () := by
  replace h := past h
  obtain ⟨k, hk⟩ := checkAll_mem h htx
  by_cases hskip : (tx.isCoinbase || tx.isGuardianFund || tx.isLPoD || tx.isLPoDPayout) = true
  · exact Or.inl hskip
  · rw [if_neg hskip, wrap_eq_ok] at hk
    exact Or.inr hk

end TxVerifier

end Aperod
