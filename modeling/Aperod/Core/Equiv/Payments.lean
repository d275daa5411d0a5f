import Aperod.Core.PlainCurve

/-!
# What a built transaction shows, and to whom

To everybody the real ring member, and to the recipient of a payment its blind, if change remains.
-/

namespace Aperod

open Go TxBuilder

variable {C : Externals} {K : Curve C}

/-! ### Disclosure of the ring position -/

/-- The commitments of input `inp` against the ring commitment of the real member, the output `u`. -/
structure Disclosed (rnd : Entropy) (n : Nat) (total : Scalar) (i : Nat) (u : OwnedUTXO)
    (inp : RingInput) : Prop where
  /-- The real member is at the drawn position. -/
  member : inp.ring[(rnd.ringPosition i).val]? = some u.oneTimePub
  /-- Its ring commitment is the public `AmountCommit` of the input. -/
  amountCommit : inp.ringCommitments[(rnd.ringPosition i).val]? = some inp.amountCommit
  /-- Comparing the two fields finds the position, when the ring commitments differ. -/
  position : inp.ringCommitments.Nodup → ∀ j : Nat,
    inp.ringCommitments[j]? = some inp.amountCommit ↔ j = (rnd.ringPosition i).val
  /-- When the pseudo output repeats it as well. -/
  pseudoOut : inp.ringCommitments[(rnd.ringPosition i).val]? = some inp.pseudoOut ↔
    blindScalar u.blind = pseudoScalar rnd n total i

theorem Assembled.disclosed {b : TxBuilder} {path : BuildPath} {rnd : Entropy} {plan : BuildPlan}
    {tx : Transaction} (h : Assembled b path rnd plan C tx) (K : Curve C)
    (hcl : path.clsag b.txVersion = true)
    (hopens : ∀ u ∈ plan.selected, C.commit u.amount.toNat u.blind = .ok u.amountCommit) :
    tx.inputs ≠ [] ∧ ∀ (i : Nat) (inp : RingInput), tx.inputs[i]? = some inp →
      ∃ u, plan.selected[i]? = some u ∧ Disclosed rnd plan.selected.length
        (plan.entries.map fun e => blindScalar e.blind).sum i u inp := by
  obtain ⟨hpos, hinputs⟩ := h.clsag hcl
  refine ⟨?_, ?_⟩
  · intro hnil
    have hlen := h.inputs
    rw [hnil, List.length_nil] at hlen
    omega
  · intro i inp hinp
    have hi : i < plan.selected.length := by
      rw [← h.inputs]
      exact (List.getElem?_eq_some_iff.mp hinp).1
    have hu : plan.selected[i]? = some plan.selected[i] := List.getElem?_eq_getElem hi
    obtain ⟨inp', hinp', hhides⟩ := h.hides i _ hu
    obtain ⟨inp'', hinp'', hcommits, hpseudo⟩ := hinputs i _ hu
    -- both lemmas speak of the input at position `i`
    cases hinp.symm.trans hinp'
    cases hinp.symm.trans hinp''
    have hmem : plan.selected[i] ∈ plan.selected := List.getElem_mem hi
    obtain ⟨-, hcommit⟩ := (commit_eq_ok (UInt64.toNat_lt _)).mp (hopens _ hmem)
    obtain ⟨-, hout⟩ := (commit_eq_ok (K := K) (UInt64.toNat_lt _)).mp hpseudo
    have hreal : inp.ringCommitments[(rnd.ringPosition i).val]? = some inp.amountCommit := by
      rw [hcommits, hhides.amountCommit]
    refine ⟨_, hu, hhides.member, hreal, ?_, ?_⟩
    · intro hnodup j
      constructor
      · intro hj
        have hlt := (List.getElem?_eq_some_iff.mp hj).1
        exact (List.getElem?_inj hlt hnodup).mp (hj.trans hreal.symm)
      · rintro rfl
        exact hreal
    · rw [hcommits, Option.some.injEq, hout, hcommit, commitment_inj, blindScalar_bytes]

/-- **The real ring position can be read off every input** of a CLSAG transaction made by `Build` or
`BuildMulti`: its ring commitment is repeated in `AmountCommit`.  The pseudo output repeats it exactly
when its blind is that of the spent output. -/
theorem clsag_position_disclosed (K : Curve C) (b : TxBuilder) (rnd : Entropy)
    (changeAddr : Address) :
    (∀ (amount : UInt64) (recipient : Address) (res : BuildResult),
      b.build K rnd amount recipient changeAddr = .ok res → txVersionUsesCLSAG b.txVersion = true →
      res.tx.inputs ≠ [] ∧ ∀ (i : Nat) (inp : RingInput), res.tx.inputs[i]? = some inp →
        ∃ u, res.selectedUTXOs[i]? = some u ∧ Disclosed rnd res.selectedUTXOs.length
          (outTotal (isBurnAddress K recipient) res.changeAmount res.selectedUTXOs) i u inp) ∧
    (∀ (recipients : List BatchRecipient) (res : BatchBuildResult),
      b.buildMulti K rnd recipients changeAddr = .ok res → b.txVersion = .clsag →
      res.tx.inputs ≠ [] ∧ ∃ f, b.fundMulti (UInt64.ofNat (payTotal recipients))
          (recipients.length + 1) = .ok f ∧
        ∀ (i : Nat) (inp : RingInput), res.tx.inputs[i]? = some inp →
          ∃ u, f.selected[i]? = some u ∧
            Disclosed rnd f.selected.length (inTotal f.selected) i u inp) := by
  constructor
  · intro amount recipient res h hcl
    obtain ⟨avmBytes, gasFee, f, feeCommit, entries, hb⟩ := build_eq_ok h
    have hdisc := hb.assembled.disclosed K hcl hb.opens
    rw [hb.changeAmount, hb.selectedUTXOs, ← (buildOutputs_eq_ok hb.outputs).total]
    exact hdisc
  · intro recipients res h hcl
    obtain ⟨totalAmount, f, feeCommit, entries, hb⟩ := buildMulti_eq_ok h
    have hpath : buildMultiPath.clsag b.txVersion = true := by
      rw [hcl]
      rfl
    obtain ⟨hne, hdisc⟩ := hb.assembled.disclosed K hpath hb.opens
    refine ⟨hne, f, ?_, ?_⟩
    · rw [← hb.totalAmount_eq]
      exact hb.fund
    · rw [← (buildMultiOutputs_eq_ok hb.outputs).total]
      exact hdisc

/-- The statement at a payment of 100 out of one output of 10000. -/
theorem sample_clsag_disclosed :
    ∃ res, (sampleBuilder [sampleOwned 1 10000] .clsag).build plainCurve sampleEntropy 100 "alice"
        "wallet" = .ok res ∧
      ∃ inp u, res.tx.inputs[0]? = some inp ∧ res.selectedUTXOs[0]? = some u ∧
        Disclosed sampleEntropy res.selectedUTXOs.length
          (outTotal (isBurnAddress plainCurve "alice") res.changeAmount res.selectedUTXOs) 0 u inp := by
  obtain ⟨res, hres, hlen⟩ : ∃ res, (sampleBuilder [sampleOwned 1 10000] .clsag).build plainCurve
      sampleEntropy 100 "alice" "wallet" = .ok res ∧ res.tx.inputs.length = 1 :=
    exists_ok_of_test (by decide +kernel)
  have hlt : 0 < res.tx.inputs.length := by omega
  have hinp : res.tx.inputs[0]? = some res.tx.inputs[0] := List.getElem?_eq_getElem hlt
  obtain ⟨u, hu, hdisc⟩ := ((clsag_position_disclosed plainCurve _ sampleEntropy "wallet").1 100
    "alice" res hres rfl).2 0 _ hinp
  exact ⟨res, hres, _, u, hinp, hu, hdisc⟩

/-- A payment with ring commitments that are all different: both public commitments of its input are
the ring commitment at the real position. -/
theorem single_input_disclosed :
    ∃ res, (sampleBuilder [sampleOwned 1 10000] .clsag).build plainCurve sampleEntropy 100 "alice"
        "wallet" = .ok res ∧
      ∀ inp ∈ res.tx.inputs, inp.ringCommitments.Nodup ∧
        inp.ringCommitments[(sampleEntropy.ringPosition 0).val]? = some inp.amountCommit ∧
        inp.ringCommitments[(sampleEntropy.ringPosition 0).val]? = some inp.pseudoOut := by
  exact exists_ok_of_test (by decide +kernel)

/-! ### Recovery by the recipient -/

/-- The two private keys of a wallet. -/
structure WalletKeys where
  spendPriv : Scalar32
  viewPriv : Scalar32
  deriving DecidableEq

def WalletKeys.Owns (K : Curve C) (w : WalletKeys) (addr : Address) : Prop :=
  ∃ net spendPub viewPub, C.decodeAddress addr = .ok (net, spendPub, viewPub) ∧
    scalarMulBase K w.spendPriv = .ok spendPub ∧ scalarMulBase K w.viewPriv = .ok viewPub

/-- What the keys recover of an output: it is found, its amount decrypts to `amount`, and the found
scalar with the spend key is the private key of the output. -/
structure WalletKeys.Recovers (K : Curve C) (w : WalletKeys) (out : Output)
    (amount : UInt64) (hs : Scalar32) : Prop where
  found : ∃ spendPub, scalarMulBase K w.spendPriv = .ok spendPub ∧
    scanForOutput K w.viewPriv spendPub out.txPubKey out.oneTimePub = .ok (some hs)
  amount : decryptAmount C out.encAmount hs = amount
  privateKey : ∃ x, addScalars hs w.spendPriv = .ok x ∧ scalarMulBase K x = .ok out.oneTimePub

theorem Output.PaysTo.recovered {w : WalletKeys} {addr : Address} {amount : UInt64} {out : Output}
    {so : StealthOutput} (h : out.PaysTo K addr amount so) (hw : w.Owns K addr) :
    w.Recovers K out amount so.hsScalar := by
  obtain ⟨net, spendPub, viewPub, hdecode, hspend, hview⟩ := hw
  obtain ⟨r, hderived⟩ := h.derived
  unfold stealthTo at hderived
  rw [hdecode] at hderived
  have hcreated : createStealthOutputWithScalar K spendPub viewPub r = .ok so :=
    wrap_eq_ok.mp hderived
  obtain ⟨hscan, hkey⟩ := scanForOutput_created hspend hview hcreated
  refine ⟨⟨spendPub, hspend, ?_⟩, ?_, ?_⟩
  · rw [h.txPubKey, h.oneTimePub]
    exact hscan
  · rw [h.encAmount]
    exact decryptAmount_encryptAmount C amount so.hsScalar
  · rw [h.oneTimePub]
    exact hkey

/-- An output that opens with one blind opens with another exactly when the blinds are one scalar. -/
theorem commit_iff_of_opens (K : Curve C) {amount : UInt64} {blind blind' : BlindFactor}
    {c : Commitment} (h : C.commit amount.toNat blind = .ok c)
    (hcanonical : blind' = Scalar.bytes (blindScalar blind')) :
    C.commit amount.toNat blind' = .ok c ↔ blindScalar blind = blindScalar blind' := by
  obtain ⟨-, hc⟩ := (commit_eq_ok (UInt64.toNat_lt amount)).mp h
  rw [commit_eq_ok (K := K) (UInt64.toNat_lt amount), hc, commitment_inj]
  constructor
  · intro h'
    exact h'.2
  · intro h'
    exact ⟨hcanonical, h'⟩

theorem deterministicPaymentBlind_canonical (hs : Scalar32) (amount : UInt64) :
    deterministicPaymentBlind K hs amount =
      Scalar.bytes (blindScalar (deterministicPaymentBlind K hs amount)) := by
  unfold deterministicPaymentBlind
  rw [blindScalar_bytes]

/-- **Payments reach their recipient.**  The owner of the paid address finds the output, its amount and
its private key.  The blind is the deterministic one exactly when change remains, when a later payment
of the batch balances the transaction, or when the balancing blind happens to be that one. -/
theorem payment_recovered (K : Curve C) (b : TxBuilder) (rnd : Entropy)
    (changeAddr : Address) :
    (∀ (amount : UInt64) (recipient : Address) (res : BuildResult) (w : WalletKeys),
      b.build K rnd amount recipient changeAddr = .ok res → isBurnAddress K recipient = false →
      w.Owns K recipient → ∃ out hs, res.tx.outputs[0]? = some out ∧ w.Recovers K out amount hs ∧
        (C.commit amount.toNat (deterministicPaymentBlind K hs amount) = .ok out.amountCommit ↔
          res.changeAmount ≠ 0 ∨
            inTotal res.selectedUTXOs = blindScalar (deterministicPaymentBlind K hs amount))) ∧
    (∀ (recipients : List BatchRecipient) (res : BatchBuildResult),
      b.buildMulti K rnd recipients changeAddr = .ok res →
      ∃ f, b.fundMulti (UInt64.ofNat (payTotal recipients)) (recipients.length + 1) = .ok f ∧
        ∀ (i : Nat) (r : BatchRecipient) (w : WalletKeys), recipients[i]? = some r →
          w.Owns K r.address → ∃ out hs, res.tx.outputs[i]? = some out ∧
            w.Recovers K out r.amountNAPR hs ∧
            (C.commit r.amountNAPR.toNat (deterministicPaymentBlind K hs r.amountNAPR) =
                .ok out.amountCommit ↔
              res.changeAmount ≠ 0 ∨ i + 1 < recipients.length ∨
                inTotal f.selected - (res.payBlinds.dropLast.map blindScalar).sum =
                  blindScalar (deterministicPaymentBlind K hs r.amountNAPR))) := by
  constructor
  · intro amount recipient res w h hburn hw
    obtain ⟨avmBytes, gasFee, f, feeCommit, entries, hb⟩ := build_eq_ok h
    have hout := hb.outputs
    rw [hburn] at hout
    obtain ⟨-, -, e, so, he, hopens, hamount, hpays, hblind⟩ := buildOutputs_pay hout
    have hget : res.tx.outputs[0]? = some e.output := by
      rw [hb.assembled.outputs, List.getElem?_map, he]
      rfl
    unfold OutEntry.Opens at hopens
    rw [hamount] at hopens
    refine ⟨e.output, so.hsScalar, hget, hpays.recovered hw, ?_⟩
    rw [commit_iff_of_opens K hopens (deterministicPaymentBlind_canonical _ _), hblind,
      hb.changeAmount, hb.selectedUTXOs]
    by_cases hchange : f.changeAmount = 0
    · rw [if_pos hchange, blindScalar_bytes]
      exact ⟨Or.inr, fun h => h.resolve_left fun hne => hne hchange⟩
    · rw [if_neg hchange]
      exact ⟨fun _ => Or.inl hchange, fun _ => rfl⟩
  · intro recipients res h
    obtain ⟨totalAmount, f, feeCommit, entries, hb⟩ := buildMulti_eq_ok h
    refine ⟨f, by rw [← hb.totalAmount_eq]; exact hb.fund, ?_⟩
    intro i r w hr hw
    have hget : ∀ e : OutEntry, entries[i]? = some e → res.tx.outputs[i]? = some e.output := by
      intro e he
      rw [hb.assembled.outputs, List.getElem?_map, he]
      rfl
    rw [hb.changeAmount]
    by_cases hchange : f.changeAmount = 0
    · obtain ⟨-, hlen, hentries⟩ := buildMultiOutputs_exact hchange hb.outputs
      obtain ⟨e, so, he, hopens, hamount, hpays, hblind⟩ := hentries i r hr
      have hbefore : (res.payBlinds.dropLast.map blindScalar).sum =
          (entries.dropLast.map fun e => blindScalar e.blind).sum := by
        rw [hb.payBlinds, ← hlen, List.take_length, ← List.map_dropLast, List.map_map]
        rfl
      unfold OutEntry.Opens at hopens
      rw [hamount] at hopens
      refine ⟨e.output, so.hsScalar, hget e he, hpays.recovered hw, ?_⟩
      rw [commit_iff_of_opens K hopens (deterministicPaymentBlind_canonical _ _), hblind, hbefore]
      by_cases hlast : i + 1 < recipients.length
      · rw [if_pos hlast]
        exact ⟨fun _ => Or.inr (Or.inl hlast), fun _ => rfl⟩
      · rw [if_neg hlast, blindScalar_bytes]
        constructor
        · intro heq
          exact Or.inr (Or.inr heq)
        · intro hcases
          exact (hcases.resolve_left fun hne => hne hchange).resolve_left hlast
    · obtain ⟨-, -, hentries⟩ := buildMultiOutputs_change hchange hb.outputs
      obtain ⟨e, so, he, hopens, hamount, hpays, hblind⟩ := hentries i r hr
      unfold OutEntry.Opens at hopens
      rw [hamount] at hopens
      refine ⟨e.output, so.hsScalar, hget e he, hpays.recovered hw, ?_⟩
      rw [commit_iff_of_opens K hopens (deterministicPaymentBlind_canonical _ _), hblind]
      exact ⟨fun _ => Or.inl hchange, fun _ => rfl⟩

/-- The keys of the address `"alice"` in the plain curve. -/
def aliceKeys : WalletKeys := ⟨5, 6⟩

/-- The statement at a payment that leaves change. -/
theorem payment_with_change_recovered :
    ∃ res out hs, (sampleBuilder [sampleOwned 1 10000] .commitmentBinding).build plainCurve
        sampleEntropy 100 "alice" "wallet" = .ok res ∧ res.tx.outputs[0]? = some out ∧
      aliceKeys.Recovers plainCurve out 100 hs ∧
      plain.commit 100 (deterministicPaymentBlind plainCurve hs 100) = .ok out.amountCommit := by
  obtain ⟨res, hres, hchange⟩ : ∃ res, (sampleBuilder [sampleOwned 1 10000]
      .commitmentBinding).build plainCurve sampleEntropy 100 "alice" "wallet" = .ok res ∧
      res.changeAmount ≠ 0 := exists_ok_of_test (by decide +kernel)
  obtain ⟨out, hs, hout, hrec, hiff⟩ := (payment_recovered plainCurve _ sampleEntropy "wallet").1
    100 "alice" res aliceKeys hres (by decide +kernel)
    ⟨0, 5, 6, rfl, by decide +kernel, by decide +kernel⟩
  exact ⟨res, out, hs, hres, hout, hrec, hiff.mpr (Or.inl hchange)⟩

/-- A payment that uses the selected output up: its recipient finds it, and the blind the recipient
recomputes does not open its commitment. -/
theorem exact_payment_blind_lost :
    ∃ res, (sampleBuilder [sampleOwned 1 3940] .commitmentBinding).build plainCurve sampleEntropy 100
        "alice" "wallet" = .ok res ∧ res.tx.outputs.length = 1 ∧
      ∀ out ∈ res.tx.outputs,
        scanForOutput plainCurve aliceKeys.viewPriv 5 out.txPubKey out.oneTimePub = .ok (some 46) ∧
        decryptAmount plain out.encAmount 46 = 100 ∧
        plain.commit 100 (deterministicPaymentBlind plainCurve 46 100) ≠ .ok out.amountCommit := by
  exact exists_ok_of_test (by decide +kernel)

end Aperod
