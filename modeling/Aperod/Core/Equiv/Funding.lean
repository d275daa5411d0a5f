import Aperod.Core.Equiv.Payments
import Mathlib.Data.UInt

/-!
# Built transactions are sound

Four things the network asks of a transaction, for what the builders return (`SoundTx`): the spent
outputs are different, the amounts add up, the commitments balance, and the fee covers the size.

* The spent keys are always different (`available_nodup`).
* The fee estimate is never below the fee the network computes from the real size (`size_le`).
* The sums wrap at 64 bits (`build_and_buildMulti_sound`).
-/

namespace Aperod

open Go Transaction TxVerifier TxBuilder List

variable {C : Externals} {K : Curve C}
variable {nOut size value : Nat} {isBurn : Bool} {txHash : Hash32} {total : Scalar}
  {amount gasFee rate : UInt64} {changeAddr : Address} {rnd : Entropy} {f : Funding} {b : TxBuilder}
  {tx : Transaction}

/-! ### Selection -/

/-- The exact sum of the selected amounts. -/
def inAmount (selected : List OwnedUTXO) : Nat := (selected.map fun u => u.amount.toNat).sum

theorem dedupByPub_nodup (seen : List Point32) (l : List OwnedUTXO) :
    ((dedupByPub seen l).map (·.oneTimePub)).Nodup ∧
      ∀ u ∈ dedupByPub seen l, u.oneTimePub ∉ seen := by
  induction l generalizing seen with
  | nil => exact ⟨nodup_nil, fun u hu => absurd hu not_mem_nil⟩
  | cons v l ih =>
    unfold dedupByPub
    split_ifs with hseen
    · exact ih seen
    · obtain ⟨hnodup, hnew⟩ := ih (v.oneTimePub :: seen)
      refine ⟨?_, ?_⟩
      · rw [map_cons, nodup_cons]
        refine ⟨?_, hnodup⟩
        intro hmem
        obtain ⟨u, hu, heq⟩ := mem_map.mp hmem
        exact hnew u hu (by rw [heq]; exact mem_cons_self)
      · intro u hu
        rcases mem_cons.mp hu with rfl | hu
        · exact hseen
        · intro hmem
          exact hnew u hu (mem_cons_of_mem _ hmem)

theorem TxBuilder.available_nodup (b : TxBuilder) : (b.available.map (·.oneTimePub)).Nodup :=
  (dedupByPub_nodup [] _).1

/-- The greedy loop takes an initial part of the list, at most `maxInputs` outputs, and returns their
sum modulo `2 ^ 64`. -/
theorem selectInputs_spec (needed : UInt64) (count : Nat) (totalIn : UInt64) (l : List OwnedUTXO)
    (hcount : count < maxInputs) :
    (selectInputs needed count totalIn l).1 <+: l ∧
      count + (selectInputs needed count totalIn l).1.length ≤ maxInputs ∧
      (selectInputs needed count totalIn l).2.toNat =
        (totalIn.toNat + inAmount (selectInputs needed count totalIn l).1) % 2 ^ 64 := by
  induction l generalizing count totalIn with
  | nil =>
    refine ⟨prefix_rfl, Nat.le_of_lt hcount, ?_⟩
    exact (Nat.mod_eq_of_lt (UInt64.toNat_lt totalIn)).symm
  | cons u l ih =>
    unfold selectInputs
    split_ifs with hstop hmax
    · refine ⟨List.nil_prefix, Nat.le_of_lt hcount, ?_⟩
      exact (Nat.mod_eq_of_lt (UInt64.toNat_lt totalIn)).symm
    · refine ⟨⟨l, rfl⟩, ?_, ?_⟩
      · show count + 1 ≤ maxInputs
        omega
      · show (totalIn + u.amount).toNat = (totalIn.toNat + (u.amount.toNat + 0)) % 2 ^ 64
        rw [UInt64.toNat_add, Nat.add_zero]
    · obtain ⟨hfront, hlen, htotal⟩ := ih (count + 1) (totalIn + u.amount) (by omega)
      refine ⟨?_, ?_, ?_⟩
      · exact (prefix_cons_inj u).mpr hfront
      · rw [length_cons]
        omega
      · rw [htotal, UInt64.toNat_add, Nat.mod_add_mod]
        unfold inAmount
        rw [map_cons, sum_cons, Nat.add_assoc]

theorem TxBuilder.selectInputs_available (b : TxBuilder) (needed : UInt64) :
    ((selectInputs needed 0 0 b.available).1.map (·.oneTimePub)).Nodup ∧
      (selectInputs needed 0 0 b.available).1.length ≤ maxInputs ∧
      (selectInputs needed 0 0 b.available).2.toNat =
        inAmount (selectInputs needed 0 0 b.available).1 % 2 ^ 64 := by
  obtain ⟨hfront, hlen, htotal⟩ := selectInputs_spec needed 0 0 b.available (by decide)
  have hzero : (0 : UInt64).toNat = 0 := rfl
  rw [Nat.zero_add] at hlen
  rw [hzero, Nat.zero_add] at htotal
  exact ⟨b.available_nodup.sublist (hfront.sublist.map _), hlen, htotal⟩

/-! ### Amounts -/

/-- What the guarded selection of `Build` returns: the fee is exact, and what is selected is the
amount, the change and the fee modulo `2 ^ 64`. -/
theorem TxBuilder.fund_eq_ok {extraBytes : Nat}
    (h : b.fund amount nOut extraBytes gasFee = .ok f) :
    (f.selected.map (·.oneTimePub)).Nodup ∧ f.selected.length ≤ maxInputs ∧
      f.fee.toNat = (txEstimatedSize b.txVersion f.selected.length nOut + extraBytes) *
        b.feePerByte.toNat + gasFee.toNat ∧
      amount.toNat + f.changeAmount.toNat + f.fee.toNat = inAmount f.selected % 2 ^ 64 := by
  obtain ⟨initialFee, -, h⟩ := unbind h
  obtain ⟨initiallyNeeded, -, h⟩ := unbind h
  obtain ⟨fee, hfee, h⟩ := unbind h
  obtain ⟨needed, hneeded, h⟩ := unbind h
  obtain ⟨⟨⟩, hfunds, h⟩ := unbind h
  cases h
  obtain ⟨hnodup, hlen, htotal⟩ := b.selectInputs_available initiallyNeeded
  generalize selectInputs initiallyNeeded 0 0 b.available = sel at *
  obtain ⟨selected, totalIn⟩ := sel
  dsimp only at *
  -- the two guards
  obtain ⟨⟨⟩, hsize, hfee⟩ := unbind hfee
  obtain ⟨⟨⟩, hsum, hneeded⟩ := unbind hneeded
  have hsize' := Nat.not_lt.mp (failIf_eq_ok.mp hsize)
  have hsum' := Nat.not_lt.mp (failIf_eq_ok.mp hsum)
  have hfunds' : ¬ totalIn < needed := failIf_eq_ok.mp hfunds
  cases hfee
  cases hneeded
  generalize hS : txEstimatedSize b.txVersion selected.length nOut + extraBytes = size at *
  have hrate : 0 < b.feePerByte.toNat := by
    rcases Nat.eq_zero_or_pos b.feePerByte.toNat with hz | hpos
    · exact absurd (UInt64.toNat_inj.mp hz) b.feePerByte_ne_zero
    · exact hpos
  have hprod : size * b.feePerByte.toNat ≤ maxUint64 - gasFee.toNat :=
    (Nat.le_div_iff_mul_le hrate).mp hsize'
  have hgas := UInt64.toNat_lt gasFee
  have hsizeLe : size ≤ size * b.feePerByte.toNat := Nat.le_mul_of_pos_right size hrate
  have hmax : maxUint64 = 2 ^ 64 - 1 := rfl
  have hfeeNat : (UInt64.ofNat size * b.feePerByte + gasFee).toNat =
      size * b.feePerByte.toNat + gasFee.toNat := by
    rw [UInt64.toNat_add, UInt64.toNat_mul, UInt64.toNat_ofNat', Nat.mod_eq_of_lt (a := size)
      (by omega), Nat.mod_eq_of_lt (a := size * b.feePerByte.toNat) (by omega)]
    exact Nat.mod_eq_of_lt (by omega)
  generalize UInt64.ofNat size * b.feePerByte + gasFee = fee at *
  have hneed : (amount + fee).toNat = amount.toNat + fee.toNat := by
    rw [UInt64.toNat_add]
    exact Nat.mod_eq_of_lt (by omega)
  have hle : amount.toNat + fee.toNat ≤ totalIn.toNat := by
    rw [UInt64.lt_iff_toNat_lt] at hfunds'
    omega
  have hchange : (totalIn - amount - fee).toNat = totalIn.toNat - amount.toNat - fee.toNat := by
    have hfirst : amount ≤ totalIn := UInt64.le_iff_toNat_le.mpr (by omega)
    have hsub : (totalIn - amount).toNat = totalIn.toNat - amount.toNat :=
      UInt64.toNat_sub_of_le totalIn amount hfirst
    rw [UInt64.toNat_sub_of_le _ _ (UInt64.le_iff_toNat_le.mpr (by omega)), hsub]
  refine ⟨hnodup, hlen, hfeeNat, ?_⟩
  show amount.toNat + (totalIn - amount - fee).toNat + fee.toNat = _
  rw [← htotal]
  omega

theorem TxBuilder.fundMulti_eq_ok {totalAmount : UInt64}
    (h : b.fundMulti totalAmount nOut = .ok f) :
    (f.selected.map (·.oneTimePub)).Nodup ∧ f.selected.length ≤ maxInputs ∧
      f.fee.toNat = txEstimatedSize b.txVersion f.selected.length nOut * b.feePerByte.toNat %
        2 ^ 64 ∧
      (totalAmount.toNat + f.changeAmount.toNat + f.fee.toNat) % 2 ^ 64 =
        inAmount f.selected % 2 ^ 64 := by
  replace h := past h
  cases h
  obtain ⟨hnodup, hlen, htotal⟩ := b.selectInputs_available
    (totalAmount + txEstimateFeeVersion b.txVersion 1 nOut b.feePerByte)
  generalize selectInputs (totalAmount + txEstimateFeeVersion b.txVersion 1 nOut b.feePerByte) 0 0
    b.available = sel at *
  obtain ⟨selected, totalIn⟩ := sel
  refine ⟨hnodup, hlen, ?_, ?_⟩
  · show (txEstimateFeeVersion b.txVersion selected.length nOut b.feePerByte).toNat = _
    unfold txEstimateFeeVersion
    rw [if_neg b.feePerByte_ne_zero, UInt64.toNat_mul, UInt64.toNat_ofNat', Nat.mod_mul_mod]
  · show (totalAmount.toNat + (totalIn - totalAmount - _).toNat + _) % 2 ^ 64 = _
    rw [← htotal]
    generalize txEstimateFeeVersion b.txVersion selected.length nOut b.feePerByte = fee
    have hback : totalAmount + (totalIn - totalAmount - fee) + fee = totalIn := by
      rw [UInt64.add_assoc, UInt64.sub_add_cancel, UInt64.add_comm, UInt64.sub_add_cancel]
    have hnat := congrArg UInt64.toNat hback
    rw [UInt64.toNat_add, UInt64.toNat_add, Nat.mod_add_mod] at hnat
    exact hnat

/-! ### Size -/

section

variable {path : BuildPath} {plan : BuildPlan}

/-- The size of the payload of an AVM transaction. -/
def avmSize (avm : Option AVMPayload) : Nat :=
  match avm with
  | some p => (p.canonicalBytes true).length
  | none => 0

/-- The bytes an input and its signature take. -/
def inputSize (version : TxVersion) : Nat :=
  if txVersionUsesCLSAG version then 1728
  else if version = .commitmentBinding then 2241 else 1152

/-- The real size, in terms of what was put together; on the MLSAG path of a CLSAG version the
signatures are not counted. -/
theorem Assembled.size_eq (h : Assembled b path rnd plan C tx)
    (hpath : path.clsag b.txVersion = txVersionUsesCLSAG b.txVersion) :
    tx.size = 41 + plan.selected.length * inputSize b.txVersion + plan.entries.length * 779 +
      plan.extra.length + avmSize plan.avm := by
  have hout : tx.outputs.length = plan.entries.length := by rw [h.outputs, length_map]
  have huses : tx.usesCLSAG = txVersionUsesCLSAG b.txVersion := by
    unfold usesCLSAG txVersionUsesCLSAG
    rw [h.version]
  have hsigs := h.signatures
  rw [hpath] at hsigs
  unfold size inputSize ringSize
  change _ + _ + _ + _ + avmSize tx.avm + _ + _ = _
  rw [h.avm, huses, hsigs, h.inputs, h.rangeProofs, h.version, h.extra]
  by_cases hcl : txVersionUsesCLSAG b.txVersion = true
  · have hv4 : b.txVersion ≠ .commitmentBinding := by
      intro hv
      rw [hv] at hcl
      exact absurd hcl (by decide)
    rw [if_pos hcl, if_pos hcl, if_neg hv4]
    omega
  · rw [if_neg hcl, if_neg hcl, if_neg hcl]
    split_ifs
    · omega
    · omega

theorem inputSize_le (version : TxVersion) (nIn nOut : Nat) :
    41 + nIn * inputSize version + nOut * 779 ≤ txEstimatedSize version nIn nOut ∧
      txEstimatedSize version nIn nOut ≤ 41 + nIn * (2 * inputSize version - 63) + nOut * 779 := by
  unfold txEstimatedSize inputSize txOverheadBytes txBytesPerInput txBytesPerOutput ringSize
  dsimp only
  by_cases hcl : txVersionUsesCLSAG version = true
  · rw [if_pos hcl, if_pos hcl]
    omega
  · rw [if_neg hcl, if_neg hcl]
    split_ifs
    · omega
    · omega

theorem minFeeAt_le (hrate : rate ≠ 0) (hsize : tx.size ≤ size) :
    tx.minFeeAt rate.toNat ≤ size * rate.toNat := by
  have hne : rate.toNat ≠ 0 := fun hz => hrate (UInt64.toNat_inj.mp hz)
  have hmul : tx.size * rate.toNat ≤ size * rate.toNat := Nat.mul_le_mul_right _ hsize
  unfold minFeeAt
  simp only [hne, if_false]
  split_ifs with hover
  · -- a saturated fee is below the product
    have hlt := (Nat.div_lt_iff_lt_mul (Nat.pos_of_ne_zero hover.1)).mp hover.2
    rw [Nat.mul_comm] at hlt
    omega
  · exact hmul

theorem minFeeAt_le_wrapped_iff (hrate : rate ≠ 0)
    (hle : tx.size ≤ size) (hlt : size < 2 * tx.size) (hover : maxUint64 < size * rate.toNat) :
    tx.minFeeAt rate.toNat ≤ size * rate.toNat % 2 ^ 64 ↔
      size * rate.toNat % 2 ^ 64 = maxUint64 := by
  have hne : rate.toNat ≠ 0 := fun hz => hrate (UInt64.toNat_inj.mp hz)
  have hmax : maxUint64 = 2 ^ 64 - 1 := rfl
  have hpos : 0 < tx.size := by omega
  unfold minFeeAt
  simp only [hne, if_false]
  split_ifs with hsat
  · omega
  · have hfit : tx.size * rate.toNat ≤ maxUint64 := by
      have hnot : ¬ maxUint64 / tx.size < rate.toNat := fun hlt' => hsat ⟨hpos.ne', hlt'⟩
      have hge := (Nat.le_div_iff_mul_le hpos).mp (Nat.not_lt.mp hnot)
      rw [Nat.mul_comm]
      exact hge
    -- the excess of the estimate alone does not reach `2 ^ 64`
    have hsplit : size * rate.toNat = tx.size * rate.toNat + (size - tx.size) * rate.toNat := by
      rw [← Nat.add_mul, Nat.add_sub_cancel' hle]
    have hexcess : (size - tx.size) * rate.toNat < tx.size * rate.toNat :=
      Nat.mul_lt_mul_of_pos_right (by omega) (Nat.pos_of_ne_zero hne)
    omega

end

/-! ### Balance -/

theorem sumCommitments_pointBytes {C : Primitives} (K : Curve C) (what : String)
    (pts : List C.Group) (acc : C.Group) :
    sumCommitments C what (pts.map K.pointBytes) acc = .ok (acc + pts.sum) := by
  induction pts generalizing acc with
  | nil =>
    rw [sum_nil, add_zero]
    rfl
  | cons p pts ih =>
    rw [map_cons, sumCommitments, K.pointFromBytes_pointBytes, sum_cons, ← add_assoc]
    exact ih (acc + p)

/-- **When the amounts add up, the commitments balance exactly when the blinds do.** -/
theorem checkBalance_iff (K : Curve C)
    {ins outs : List (Nat × Scalar)} {fee : Nat}
    (hin : tx.inputs.map (inputCommit tx) = ins.map fun o => K.commitment o.1 o.2)
    (hout : tx.outputs.map (·.amountCommit) = outs.map fun o => K.commitment o.1 o.2)
    (hfee : tx.feeCommit = K.commitment fee 0)
    (hvalue : (ins.map Prod.fst).sum = (outs.map Prod.fst).sum + fee) :
    checkBalance C txHash tx = .ok () ↔
      (ins.map Prod.snd).sum = (outs.map Prod.snd).sum := by
  have hins : ins.map (fun o => K.commitment o.1 o.2) =
      (ins.map fun o => Pedersen.commit K.generators o.1 o.2).map K.pointBytes := by
    rw [map_map]
    rfl
  have houts : outs.map (fun o => K.commitment o.1 o.2) =
      (outs.map fun o => Pedersen.commit K.generators o.1 o.2).map K.pointBytes := by
    rw [map_map]
    rfl
  -- the fee is one more output, with blind 0
  have happend : ((outs ++ [(fee, 0)]).map fun o : Nat × Scalar =>
      Pedersen.commit K.generators o.1 o.2).sum =
      (outs.map fun o => Pedersen.commit K.generators o.1 o.2).sum +
        Pedersen.commit K.generators fee 0 := by
    rw [map_append, sum_append, map_singleton, sum_singleton]
  have hbal := Pedersen.blinds_eq_of_balanced (B := K.generators)
    (m := outs ++ [(fee, 0)])
    (by rw [hvalue, map_append, sum_append, map_singleton, sum_singleton])
  rw [happend, map_append, sum_append, map_singleton, sum_singleton,
    add_zero] at hbal
  have hcommitSum : commitSum C (tx.inputs.map (inputCommit tx))
      (tx.outputs.map (·.amountCommit)) tx.feeCommit =
      .ok (decide ((ins.map Prod.snd).sum = (outs.map Prod.snd).sum)) := by
    rw [hin, hout, hfee, hins, houts, commitSum, sumCommitments_pointBytes,
      sumCommitments_pointBytes, Curve.commitment, K.pointFromBytes_pointBytes, zero_add, zero_add]
    show Except.ok (decide _) = _
    rw [decide_eq_decide.mpr hbal]
  unfold checkBalance
  rw [hcommitSum]
  show failIf _ _ = .ok () ↔ _
  rw [failIf_eq_ok, decide_eq_false_iff_not, not_not]

section

variable {path : BuildPath} {plan : BuildPlan}

theorem Assembled.inputCommits (h : Assembled b path rnd plan C tx) (K : Curve C)
    (hpath : path.clsag b.txVersion = txVersionUsesCLSAG b.txVersion)
    (hopens : ∀ u ∈ plan.selected, C.commit u.amount.toNat u.blind = .ok u.amountCommit)
    (hout : Outputs C plan.entries value total) :
    ∃ ins : List (Nat × Scalar),
      tx.inputs.map (inputCommit tx) = (ins.map fun o => K.commitment o.1 o.2) ∧
      (ins.map Prod.fst).sum = inAmount plan.selected ∧
      (ins.map Prod.snd).sum =
        if path.clsag b.txVersion then total else inTotal plan.selected := by
  have huses : tx.usesCLSAG = path.clsag b.txVersion := by
    rw [hpath]
    unfold usesCLSAG txVersionUsesCLSAG
    rw [h.version]
  by_cases hcl : path.clsag b.txVersion = true
  · obtain ⟨hpos, hinputs⟩ := h.clsag hcl
    rw [hout.total] at hinputs
    refine ⟨(plan.selected.map fun u => u.amount.toNat).zip ((range plan.selected.length).map
      (pseudoScalar rnd plan.selected.length total)), ?_, ?_, ?_⟩
    · apply ext_getElem?
      intro i
      rcases hu : plan.selected[i]? with _ | u
      · have hlen : plan.selected.length ≤ i := getElem?_eq_none_iff.mp hu
        rw [List.getElem?_eq_none (by rw [length_map, h.inputs]; exact hlen),
          List.getElem?_eq_none (by simp; exact hlen)]
      · obtain ⟨inp, hinp, -, hpseudo⟩ := hinputs i u hu
        have hi : i < plan.selected.length := (List.getElem?_eq_some_iff.mp hu).1
        obtain ⟨-, hcommit⟩ := (commit_eq_ok (UInt64.toNat_lt _)).mp hpseudo
        have hamount : (plan.selected.map fun u => u.amount.toNat)[i]? = some u.amount.toNat := by
          rw [List.getElem?_map, hu]
          rfl
        have hblind : ((range plan.selected.length).map
            (pseudoScalar rnd plan.selected.length total))[i]? =
            some (pseudoScalar rnd plan.selected.length total i) := by
          rw [List.getElem?_map, getElem?_range hi]
          rfl
        rw [List.getElem?_map, hinp, List.getElem?_map,
          (getElem?_zip_eq_some (z := (_, _))).mpr ⟨hamount, hblind⟩]
        show some (inputCommit tx inp) = some (K.commitment u.amount.toNat
          (pseudoScalar rnd plan.selected.length total i))
        unfold inputCommit
        rw [huses, if_pos hcl, hcommit, blindScalar_bytes]
    · rw [map_fst_zip (by simp)]
      rfl
    · rw [map_snd_zip (by simp), if_pos hcl, sum_pseudoScalar rnd hpos]
  · refine ⟨plan.selected.map fun u => (u.amount.toNat, blindScalar u.blind), ?_, ?_, ?_⟩
    · apply ext_getElem?
      intro i
      rcases hu : plan.selected[i]? with _ | u
      · have hlen : plan.selected.length ≤ i := getElem?_eq_none_iff.mp hu
        rw [List.getElem?_eq_none (by rw [length_map, h.inputs]; exact hlen),
          List.getElem?_eq_none (by simp; exact hlen)]
      · obtain ⟨inp, hinp, hhides⟩ := h.hides i u hu
        have hmem : u ∈ plan.selected := mem_of_getElem? hu
        obtain ⟨-, hcommit⟩ := (commit_eq_ok (UInt64.toNat_lt _)).mp (hopens u hmem)
        rw [List.getElem?_map, hinp, List.getElem?_map, List.getElem?_map, hu]
        show some (inputCommit tx inp) = some (K.commitment u.amount.toNat _)
        unfold inputCommit
        rw [huses, if_neg hcl, hhides.amountCommit, hcommit]
    · rw [map_map]
      rfl
    · rw [map_map, if_neg hcl]
      rfl

theorem Outputs.commits {entries : List OutEntry}
    (h : Outputs C entries value total) (K : Curve C) :
    (entries.map (·.output)).map (·.amountCommit) =
      (entries.map fun e => (e.amount.toNat, blindScalar e.blind)).map
        fun o => K.commitment o.1 o.2 := by
  rw [map_map, map_map]
  apply map_congr_left
  intro e he
  exact ((commit_eq_ok (UInt64.toNat_lt e.amount)).mp (h.opens e he)).2

theorem Assembled.balance_iff (h : Assembled b path rnd plan C tx) (K : Curve C)
    (hpath : path.clsag b.txVersion = txVersionUsesCLSAG b.txVersion)
    (hopens : ∀ u ∈ plan.selected, C.commit u.amount.toNat u.blind = .ok u.amountCommit)
    (hfee : C.commit plan.fee.toNat feeBlind = .ok plan.feeCommit)
    (hout : Outputs C plan.entries value total)
    (hvalue : inAmount plan.selected = value + plan.fee.toNat) :
    checkBalance C txHash tx = .ok () ↔
      (path.clsag b.txVersion = true ∨ inTotal plan.selected = total) := by
  obtain ⟨ins, hins, hinValue, hinBlind⟩ := h.inputCommits K hpath hopens hout
  obtain ⟨-, hfeeCommit⟩ := (commit_eq_ok (UInt64.toNat_lt plan.fee)).mp hfee
  have houtValue : ((plan.entries.map fun e => (e.amount.toNat, blindScalar e.blind)).map
      Prod.fst).sum = value := by
    rw [map_map]
    exact hout.value
  have houtBlind : ((plan.entries.map fun e => (e.amount.toNat, blindScalar e.blind)).map
      Prod.snd).sum = total := by
    rw [map_map]
    exact hout.total
  have hcommits : tx.outputs.map (·.amountCommit) =
      (plan.entries.map fun e => (e.amount.toNat, blindScalar e.blind)).map
        fun o => K.commitment o.1 o.2 := by
    rw [h.outputs]
    exact hout.commits K
  rw [checkBalance_iff K hins hcommits (by rw [h.feeCommit]; exact hfeeCommit)
    (by rw [hinValue, houtValue, hvalue]), hinBlind, houtBlind]
  by_cases hcl : path.clsag b.txVersion = true
  · rw [if_pos hcl]
    exact ⟨fun _ => Or.inl hcl, fun _ => rfl⟩
  · rw [if_neg hcl]
    exact ⟨Or.inr, fun h => h.resolve_left hcl⟩

end

/-! ### Sound transactions -/

/-- The ring members at the drawn positions. -/
def realMembers (rnd : Entropy) (tx : Transaction) : List (Option Point32) :=
  tx.inputs.mapIdx fun i inp => inp.ring[(rnd.ringPosition i).val]?

/-- The gas fee reserved for an AVM payload. -/
def avmGas (avm : Option AVMPayload) : Nat :=
  match avm with
  | some p => p.gasLimit.toNat * avmGasPriceNAPR
  | none => 0

/-- What the network asks of a transaction that spends `selected`, pays `paid` and returns `change`. -/
structure SoundTx (C : Externals) (rnd : Entropy) (feePerByte : UInt64) (selected : List OwnedUTXO)
    (paid change gas : Nat) (tx : Transaction) : Prop where
  distinct : (realMembers rnd tx).Nodup
  amounts : inAmount selected = paid + change + tx.fee.toNat
  balance : checkBalance C (tx.hash C) tx = .ok ()
  /-- The fee without an intentional burn covers the size and the gas. -/
  fee : tx.minFeeAt feePerByte.toNat + gas + tx.burnAmount.getD 0 ≤ tx.fee.toNat

section

variable {path : BuildPath} {plan : BuildPlan}

theorem Assembled.realMembers_eq (h : Assembled b path rnd plan C tx) :
    realMembers rnd tx = plan.selected.map fun u => some u.oneTimePub := by
  unfold realMembers
  apply ext_getElem?
  intro i
  rcases hu : plan.selected[i]? with _ | u
  · have hlen : plan.selected.length ≤ i := getElem?_eq_none_iff.mp hu
    rw [List.getElem?_eq_none (by rw [length_mapIdx, h.inputs]; exact hlen),
      List.getElem?_eq_none (by rw [length_map]; exact hlen)]
  · obtain ⟨inp, hinp, hhides⟩ := h.hides i u hu
    rw [getElem?_mapIdx, hinp, List.getElem?_map, hu]
    show some (inp.ring[_]?) = some (some u.oneTimePub)
    rw [hhides.member]

theorem Assembled.realMembers_nodup (h : Assembled b path rnd plan C tx)
    (hnodup : (plan.selected.map (·.oneTimePub)).Nodup) : (realMembers rnd tx).Nodup := by
  have hmap : plan.selected.map (fun u => some u.oneTimePub) =
      (plan.selected.map (·.oneTimePub)).map some := by
    rw [map_map]
    rfl
  rw [h.realMembers_eq, hmap]
  exact hnodup.map (Option.some_injective Point32)

end

theorem burnAmount_burnExtra (hamount : amount ≠ 0) (h : tx.extra = burnExtra isBurn amount) :
    tx.burnAmount.getD 0 = if isBurn then amount.toNat else 0 := by
  unfold burnAmount
  rw [h]
  cases isBurn with
  | false => rfl
  | true =>
    have hne : amount.toNat ≠ 0 := fun hz => hamount (UInt64.toNat_inj.mp hz)
    have hread : leNat (leBytes 8 amount.toNat) = amount.toNat := by
      rw [leNat_leBytes]
      exact Nat.mod_eq_of_lt (UInt64.toNat_lt amount)
    have hparse : parseIntentionalBurnExtra (burnExtra true amount) = .ok (some amount.toNat) := by
      show parseIntentionalBurnExtra (intentionalBurnPrefix ++ leBytes 8 amount.toNat) = _
      unfold parseIntentionalBurnExtra
      simp [failIf, hread, hne]
    rw [hparse]
    rfl

theorem TxBuilder.avmCost_eq_ok {avmBytes : Nat}
    (h : b.avmCost = .ok (avmBytes, gasFee)) :
    avmBytes = avmSize b.avmPayload ∧ gasFee.toNat = avmGas b.avmPayload := by
  unfold avmCost at h
  rcases hp : b.avmPayload with _ | p
  · rw [hp] at h
    cases h
    exact ⟨rfl, rfl⟩
  · rw [hp] at h
    obtain ⟨gas, hgas, h⟩ := unbind h
    obtain ⟨⟨⟩, hfit, hgas⟩ := unbind hgas
    have hfit' := Nat.not_lt.mp (failIf_eq_ok.mp hfit)
    have hmul := (Nat.le_div_iff_mul_le (by decide)).mp hfit'
    have hmax : maxUint64 = 2 ^ 64 - 1 := rfl
    cases hgas
    cases h
    refine ⟨rfl, ?_⟩
    exact Nat.mod_eq_of_lt (by omega)

theorem TxBuilder.totalFee_eq_ok {fee total : UInt64}
    (h : totalFee isBurn amount fee = .ok total) :
    total.toNat = fee.toNat + if isBurn then amount.toNat else 0 := by
  cases isBurn with
  | false =>
    cases h
    rfl
  | true =>
    obtain ⟨⟨⟩, hfit, h⟩ := unbind h
    have hfit' := Nat.not_lt.mp (failIf_eq_ok.mp hfit)
    have hmax : maxUint64 = 2 ^ 64 - 1 := rfl
    have hamount := UInt64.toNat_lt amount
    cases h
    rw [UInt64.toNat_add]
    exact Nat.mod_eq_of_lt (by omega)

section

variable {recipient : Address} {res : BuildResult} {avmBytes : Nat} {feeCommit : Commitment}
  {entries : List OutEntry}
  (hb : BuiltFrom K b rnd amount recipient changeAddr res avmBytes gasFee f feeCommit entries)

include hb

theorem BuiltFrom.fee_covers : res.tx.minFeeAt b.feePerByte.toNat + avmGas b.avmPayload +
    res.tx.burnAmount.getD 0 ≤ res.tx.fee.toNat := by
  obtain ⟨-, -, hfee, -⟩ := fund_eq_ok hb.fund
  obtain ⟨hbytes, hgas⟩ := avmCost_eq_ok hb.avmCost
  have htotal := totalFee_eq_ok hb.totalFee
  have htx := hb.assembled
  have hentries : entries.length ≤ if isBurnAddress K recipient then 1 else 2 := by
    have hentries := hb.outputs
    rcases hburn : isBurnAddress K recipient with _ | _
    · rw [hburn] at hentries
      exact (buildOutputs_pay hentries).2.1
    · rw [hburn] at hentries
      exact (buildOutputs_burn hentries).2
  have hsize : res.tx.size ≤ txEstimatedSize b.txVersion f.selected.length
      (if isBurnAddress K recipient then 1 else 2) +
      ((burnExtra (isBurnAddress K recipient) amount).length + avmBytes) := by
    have hest := (inputSize_le b.txVersion f.selected.length
      (if isBurnAddress K recipient then 1 else 2)).1
    rw [htx.size_eq rfl]
    dsimp only
    omega
  have hmin := minFeeAt_le b.feePerByte_ne_zero hsize
  have hburn := burnAmount_burnExtra hb.amount_ne_zero htx.extra
  have hfeeEq : res.tx.fee = res.totalFee := htx.fee
  rw [hfeeEq]
  omega

theorem BuiltFrom.amounts_iff : inAmount f.selected =
    (if isBurnAddress K recipient then 0 else amount.toNat) + f.changeAmount.toNat +
      res.tx.fee.toNat ↔ inAmount f.selected < 2 ^ 64 := by
  obtain ⟨-, -, -, hsum⟩ := fund_eq_ok hb.fund
  have hfeeEq : res.tx.fee = res.totalFee := hb.assembled.fee
  rw [hfeeEq, totalFee_eq_ok hb.totalFee]
  rcases isBurnAddress K recipient with _ | _
  · simp only [Bool.false_eq_true, if_false]
    omega
  · simp only [if_true]
    omega

theorem BuiltFrom.balance_iff (hexact : inAmount f.selected =
      (if isBurnAddress K recipient then 0 else amount.toNat) + f.changeAmount.toNat +
        res.tx.fee.toNat) : checkBalance C (res.tx.hash C) res.tx = .ok () ↔
      (isBurnAddress K recipient = true → f.changeAmount = 0 →
        txVersionUsesCLSAG b.txVersion = false → inTotal f.selected = 0) := by
  have hfeeEq : res.tx.fee = res.totalFee := hb.assembled.fee
  rw [hfeeEq] at hexact
  rw [hb.assembled.balance_iff K rfl hb.opens hb.feeOpens (buildOutputs_eq_ok hb.outputs) hexact]
  show (txVersionUsesCLSAG b.txVersion = true ∨ _) ↔ _
  unfold outTotal
  rcases txVersionUsesCLSAG b.txVersion with _ | _
  · by_cases hcase : isBurnAddress K recipient = true ∧ f.changeAmount = 0
    · rw [if_pos hcase]
      simp [hcase.1, hcase.2]
    · rw [if_neg hcase]
      have hno : ∀ p : Prop, (isBurnAddress K recipient = true → f.changeAmount = 0 → p) :=
        fun p h1 h2 => absurd ⟨h1, h2⟩ hcase
      exact ⟨fun _ => hno _, fun _ => Or.inr rfl⟩
  · simp

end

section

variable {recipients : List BatchRecipient} {res : BatchBuildResult} {totalAmount : UInt64}
  {feeCommit : Commitment} {entries : List OutEntry}
  (hb : MultiBuiltFrom K b rnd recipients changeAddr res totalAmount f feeCommit entries)
  (hpath : buildMultiPath.clsag b.txVersion = txVersionUsesCLSAG b.txVersion)

include hb

theorem MultiBuiltFrom.amounts_iff : inAmount f.selected = payTotal recipients +
    f.changeAmount.toNat + res.tx.fee.toNat ↔
      payTotal recipients + f.fee.toNat ≤ inAmount f.selected ∧
        inAmount f.selected < payTotal recipients + f.fee.toNat + 2 ^ 64 := by
  obtain ⟨-, -, -, hsum⟩ := fundMulti_eq_ok hb.fund
  have htotal : totalAmount.toNat = payTotal recipients % 2 ^ 64 := by
    rw [hb.totalAmount_eq, UInt64.toNat_ofNat']
  have hchange := UInt64.toNat_lt f.changeAmount
  have hfeeEq : res.tx.fee = f.fee := hb.assembled.fee
  rw [hfeeEq]
  omega

include hpath

/-- The estimate is between the real size and twice the real size. -/
theorem MultiBuiltFrom.size_bounds :
    res.tx.size ≤ txEstimatedSize b.txVersion f.selected.length (recipients.length + 1) ∧
      txEstimatedSize b.txVersion f.selected.length (recipients.length + 1) < 2 * res.tx.size := by
  have hentries : recipients.length ≤ entries.length ∧ entries.length ≤ recipients.length + 1 := by
    by_cases hchange : f.changeAmount = 0
    · rw [(buildMultiOutputs_exact hchange hb.outputs).2.1]
      exact ⟨Nat.le_refl _, Nat.le_succ _⟩
    · rw [(buildMultiOutputs_change hchange hb.outputs).2.1]
      exact ⟨Nat.le_succ _, Nat.le_refl _⟩
  have hsizeEq : res.tx.size = 41 + f.selected.length * inputSize b.txVersion +
      entries.length * 779 := hb.assembled.size_eq hpath
  obtain ⟨hest, hest'⟩ := inputSize_le b.txVersion f.selected.length (recipients.length + 1)
  constructor
  · have hmul := Nat.mul_le_mul_right 779 hentries.2
    rw [hsizeEq]
    exact (Nat.add_le_add_left hmul _).trans hest
  · have hpos := hb.recipients_pos
    have hin : f.selected.length * (2 * inputSize b.txVersion - 63) ≤
        2 * (f.selected.length * inputSize b.txVersion) := by
      have hstep := Nat.mul_le_mul_left f.selected.length
        (Nat.sub_le (2 * inputSize b.txVersion) 63)
      rw [Nat.mul_left_comm] at hstep
      exact hstep
    omega

theorem MultiBuiltFrom.fee_covers_iff :
    res.tx.minFeeAt b.feePerByte.toNat + 0 + res.tx.burnAmount.getD 0 ≤ res.tx.fee.toNat ↔
      (txEstimatedSize b.txVersion f.selected.length (recipients.length + 1) *
        b.feePerByte.toNat < 2 ^ 64 ∨ f.fee.toNat = maxUint64) := by
  obtain ⟨-, -, hfee, -⟩ := fundMulti_eq_ok hb.fund
  obtain ⟨hle, hlt⟩ := hb.size_bounds hpath
  have hfeeEq : res.tx.fee = f.fee := hb.assembled.fee
  have hburn : res.tx.burnAmount.getD 0 = 0 := by
    unfold burnAmount
    rw [hb.assembled.extra]
    rfl
  have hmax : maxUint64 = 2 ^ 64 - 1 := rfl
  rw [hburn, hfeeEq, hfee, Nat.add_zero]
  by_cases hover : txEstimatedSize b.txVersion f.selected.length (recipients.length + 1) *
      b.feePerByte.toNat < 2 ^ 64
  · have hmin := minFeeAt_le b.feePerByte_ne_zero hle
    rw [Nat.mod_eq_of_lt hover]
    exact ⟨fun _ => Or.inl hover, fun _ => hmin⟩
  · rw [minFeeAt_le_wrapped_iff b.feePerByte_ne_zero hle hlt (by omega)]
    exact ⟨Or.inr, fun h => h.resolve_left hover⟩

end

/-- **When a built transaction is sound.**  `Build`: exactly when the selected amounts do not wrap, and
a burn without change has pseudo outputs or blinds that cancel.  `BuildMulti`: exactly when the wrapped
sums come out right. -/
theorem build_and_buildMulti_sound (K : Curve C) (b : TxBuilder) (rnd : Entropy)
    (changeAddr : Address) :
    (∀ (amount : UInt64) (recipient : Address) (res : BuildResult),
      b.build K rnd amount recipient changeAddr = .ok res →
      (SoundTx C rnd b.feePerByte res.selectedUTXOs
          (if isBurnAddress K recipient then 0 else amount.toNat) res.changeAmount.toNat
          (avmGas b.avmPayload) res.tx ↔
        inAmount res.selectedUTXOs < 2 ^ 64 ∧
          (isBurnAddress K recipient = true → res.changeAmount = 0 →
            txVersionUsesCLSAG b.txVersion = false → inTotal res.selectedUTXOs = 0))) ∧
    (∀ (recipients : List BatchRecipient) (res : BatchBuildResult),
      b.buildMulti K rnd recipients changeAddr = .ok res → b.txVersion ≠ .avm →
      ∃ f, b.fundMulti (UInt64.ofNat (payTotal recipients)) (recipients.length + 1) = .ok f ∧
        (SoundTx C rnd b.feePerByte f.selected (payTotal recipients) res.changeAmount.toNat 0
            res.tx ↔
          (payTotal recipients + res.totalFee.toNat ≤ inAmount f.selected ∧
            inAmount f.selected < payTotal recipients + res.totalFee.toNat + 2 ^ 64) ∧
          (txEstimatedSize b.txVersion f.selected.length (recipients.length + 1) *
              b.feePerByte.toNat < 2 ^ 64 ∨ res.totalFee.toNat = maxUint64))) := by
  constructor
  · intro amount recipient res h
    obtain ⟨avmBytes, gasFee, f, feeCommit, entries, hb⟩ := build_eq_ok h
    rw [hb.selectedUTXOs, hb.changeAmount]
    constructor
    · intro hs
      exact ⟨hb.amounts_iff.mp hs.amounts, (hb.balance_iff hs.amounts).mp hs.balance⟩
    · rintro ⟨hlt, hblinds⟩
      have hexact := hb.amounts_iff.mpr hlt
      exact ⟨hb.assembled.realMembers_nodup (fund_eq_ok hb.fund).1, hexact,
        (hb.balance_iff hexact).mpr hblinds, hb.fee_covers⟩
  · intro recipients res h havm
    obtain ⟨totalAmount, f, feeCommit, entries, hb⟩ := buildMulti_eq_ok h
    have hpath : buildMultiPath.clsag b.txVersion = txVersionUsesCLSAG b.txVersion := by
      unfold buildMultiPath txVersionUsesCLSAG
      simp [havm]
    refine ⟨f, by rw [← hb.totalAmount_eq]; exact hb.fund, ?_⟩
    rw [hb.changeAmount, hb.totalFee]
    constructor
    · intro hs
      exact ⟨hb.amounts_iff.mp hs.amounts, (hb.fee_covers_iff hpath).mp hs.fee⟩
    · rintro ⟨hcover, hest⟩
      have hexact := hb.amounts_iff.mpr hcover
      refine ⟨hb.assembled.realMembers_nodup (fundMulti_eq_ok hb.fund).1, hexact, ?_,
        (hb.fee_covers_iff hpath).mpr hest⟩
      have hfeeEq : res.tx.fee = f.fee := hb.assembled.fee
      rw [hfeeEq] at hexact
      exact (hb.assembled.balance_iff K hpath hb.opens hb.feeOpens
        (buildMultiOutputs_eq_ok hb.outputs) hexact).mpr (Or.inr rfl)

/-- The statement at a payment of 100 out of one output of 10000. -/
theorem sample_payment_sound :
    ∃ res, (sampleBuilder [sampleOwned 1 10000] .commitmentBinding).build plainCurve sampleEntropy 100
        "alice" "wallet" = .ok res ∧
      SoundTx plain sampleEntropy 1 res.selectedUTXOs 100 res.changeAmount.toNat 0 res.tx := by
  obtain ⟨res, hres, hamount⟩ : ∃ res, (sampleBuilder [sampleOwned 1 10000]
      .commitmentBinding).build plainCurve sampleEntropy 100 "alice" "wallet" = .ok res ∧
      inAmount res.selectedUTXOs < 2 ^ 64 := exists_ok_of_test (by decide +kernel)
  have hburn : isBurnAddress plainCurve "alice" = false := by decide +kernel
  have hsound := ((build_and_buildMulti_sound plainCurve _ sampleEntropy "wallet").1 100 "alice" res
    hres).mpr ⟨hamount, fun hb => absurd (hburn.symm.trans hb) (by decide)⟩
  exact ⟨res, hres, hsound⟩

/-- A batch of two payments of `2 ^ 63`, whose sum wraps to zero, is built from an output of 10000; a
burn that uses an output up is built without an output to balance its blind.  The network refuses both
for their balance. -/
theorem unbalanced_batch_and_burn :
    (∃ res, (sampleBuilder [sampleOwned 1 10000] .commitmentBinding).buildMulti plainCurve
        sampleEntropy [⟨"alice", 2 ^ 63⟩, ⟨"bob", 2 ^ 63⟩] "wallet" = .ok res ∧
      checkBalance plain (res.tx.hash plain) res.tx ≠ .ok ()) ∧
    (∃ res, (sampleBuilder [sampleOwned 1 4000] .commitmentBinding).build plainCurve
        sampleEntropy 921 "0" "wallet" = .ok res ∧ isBurnAddress plainCurve "0" = true ∧
      checkBalance plain (res.tx.hash plain) res.tx ≠ .ok ()) :=
  ⟨exists_ok_of_test (by decide +kernel), exists_ok_of_test (by decide +kernel)⟩

end Aperod
