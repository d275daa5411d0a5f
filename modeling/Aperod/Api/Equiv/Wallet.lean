import Aperod.Api.Wallet
import Aperod.Consensus.Equiv.Collateral

/-!
# Does the wallet feed report every spend?

It knows the stake layouts v2 and v3 and takes every other one for v1, so it misses v4 collateral.
-/

namespace Aperod

open Go UTXOSet Transaction TxVerifier

variable {C : Externals} {S : Type} {V : Services S} {publicAmount : PublicAmount} {height : Nat}
  {tx : Transaction} {b : Block}

/-- The outputs a transaction consumes are among the events: the key images that applying it marks,
the source of a position deposit, and collateral by its outpoint or its key image. -/
def Transaction.SpendsReported (C : Externals) (tx : Transaction) (height : Nat)
    (events : List WalletEvent) : Prop :=
  (∀ inp ∈ tx.inputs, .spentKeyImage (spentForm C inp.keyImage) height ∈ events) ∧
  (∀ a, tx.lpodPositionAction C = .ok a → a.action = lpodDeposit →
    .spentRef ⟨a.sourceTx, a.sourceIndex⟩ height ∈ events) ∧
  ∀ k, tx.stakeBurnKey = some k → .spentRef k height ∈ events ∨
    ∃ ki, stakeKeyImage C tx = some ki ∧ .spentKeyImage ki height ∈ events

theorem Transaction.SpendsReported.mono {events events' : List WalletEvent}
    (h : tx.SpendsReported C height events) (hsub : events ⊆ events') :
    tx.SpendsReported C height events' := by
  obtain ⟨hin, hpos, hstake⟩ := h
  refine ⟨fun inp hinp => hsub (hin inp hinp), fun a ha hdep => hsub (hpos a ha hdep), ?_⟩
  intro k hk
  apply (hstake k hk).imp (fun href => hsub href)
  rintro ⟨ki, hki, hmem⟩
  exact ⟨ki, hki, hsub hmem⟩

theorem walletStakeSpend_eq (height : Nat) (tx : Transaction) : walletStakeSpend height tx =
    .ok ((stakeBurn tx).toList.map (.spentRef · height)) := by
  have haction : (burnFields tx.extra).action = .ofByte (tx.extra.headD 0) := rfl
  unfold walletStakeSpend TxVerifier.stakeBurn
  generalize StakeAction.ofByte (tx.extra.headD 0) = action at haction ⊢
  by_cases hst : tx.isStake = true
  · by_cases h2 : tx.extra.length = stakePayloadSizeV2
    · by_cases hdep : action = .deposit <;>
        simp [hst, h2, hdep, haction, walletDirectSpend, decodeStakeExtraV2, failIf,
          stakePayloadSizeV2]
    · by_cases h3 : tx.extra.length = stakePayloadSizeV3
      · by_cases hdep : action = .deposit <;>
          simp [hst, h3, hdep, haction, walletDirectSpend, decodeStakeExtraV3, failIf,
            stakePayloadSizeV2, stakePayloadSizeV3, Except.map]
      · simp [hst, h2, h3]
  · simp [hst]

theorem walletOutput_ok (hpublic : ∀ f ∈ publicAmount, ∀ h i, ∃ r, f h i = .ok r) (out : Output)
    (i : UInt32) : ∃ event, walletOutput C publicAmount height tx out i = .ok event := by
  unfold walletOutput
  split_ifs
  · cases publicAmount with
    | none => exact ⟨_, rfl⟩
    | some f =>
      obtain ⟨r, hr⟩ := hpublic f rfl (tx.hash C) i
      simp only [hr, wrap, ok_bind]
      exact ⟨_, rfl⟩
  · exact ⟨_, rfl⟩

/-- One transaction: if the feed can read it, and sees the collateral it burns, it reports all. -/
theorem walletTxEvents_spec (hpublic : ∀ f ∈ publicAmount, ∀ h i, ∃ r, f h i = .ok r)
    (hin : ∀ inp ∈ tx.inputs, ∃ k, C.canonicalKeyImage inp.keyImage = .ok k)
    (hpos : tx.isLPoDPosition = true → ∃ a, tx.lpodPositionAction C = .ok a)
    (hburn : ∀ k, tx.stakeBurnKey = some k → stakeBurn tx = some k) :
    ∃ events, walletTxEvents C publicAmount height tx = .ok events ∧
      tx.SpendsReported C height events := by
  have hspent : ∀ inp ∈ tx.inputs, walletSpentKeyImage C height inp =
      .ok (.spentKeyImage (spentForm C inp.keyImage) height) := by
    intro inp hinp
    obtain ⟨k, hk⟩ := hin inp hinp
    simp only [walletSpentKeyImage, spentForm, hk]
  obtain ⟨outputs, houtputs⟩ : ∃ l, mapLoop (fun _ p => walletOutput C publicAmount height tx p.1
      (UInt32.ofNat p.2)) 0 tx.outputs.zipIdx = .ok l :=
    exists_mapLoop_iff.mpr fun _ _ => walletOutput_ok hpublic _ _
  obtain ⟨spent, hlist⟩ : ∃ l, mapLoop (fun _ => walletSpentKeyImage C height) 0 tx.inputs =
      .ok l := exists_mapLoop_iff.mpr fun inp hinp => ⟨_, hspent inp hinp⟩
  obtain ⟨position, hposition, hsource⟩ : ∃ l, walletPositionSpend C height tx = .ok l ∧
      ∀ a, tx.lpodPositionAction C = .ok a → a.action = lpodDeposit →
        .spentRef ⟨a.sourceTx, a.sourceIndex⟩ height ∈ l := by
    unfold walletPositionSpend
    split_ifs with h
    · obtain ⟨a, ha⟩ := hpos h
      simp only [ha, Except.ok.injEq, exists_eq_left']
      rintro _ rfl hdep
      simp [hdep]
    · refine ⟨[], rfl, fun a ha => ?_⟩
      simp only [lpodPositionAction, bind_eq_ok, failIf_eq_ok] at ha
      exact absurd (Or.inl h) ha.choose_spec.1
  refine ⟨outputs ++ spent ++ position ++ (stakeBurn tx).toList.map (.spentRef · height),
    ?_, fun inp hinp => ?_, fun a ha hdep => ?_, fun k hk => .inl ?_⟩
  · simp only [walletTxEvents, houtputs, hlist, hposition, walletStakeSpend_eq, ok_bind]
  · obtain ⟨i, hi⟩ := List.getElem?_of_mem hinp
    obtain ⟨event, hevent, hok⟩ := mapLoop_getElem? hlist hi
    rw [hspent inp hinp] at hok
    have hmem := List.mem_of_getElem? hevent
    simp [Except.ok.inj hok, hmem]
  · simp [hsource a ha hdep]
  · simp [hburn k hk]

/-! ### Accepted blocks -/

theorem checkTx_canonical {s : UTXOSet} {i : Nat} {r r' : Reserved} {inp : RingInput}
    (h : s.checkTx C height i tx r = .ok r') (hst : tx.isStake = false) (hinp : inp ∈ tx.inputs) :
    ∃ k, C.canonicalKeyImage inp.keyImage = .ok k := by
  have hne : tx.isCoinbase = false := by
    simp [isCoinbase, List.ne_nil_of_mem hinp]
  simp only [UTXOSet.checkTx, hst, hne, Bool.false_eq_true, false_and, if_false, Bool.or_false] at h
  obtain ⟨_, _, _, hone⟩ := loop_mem h hinp
  simp only [checkInput, bind_eq_ok, wrap_eq_ok] at hone
  obtain ⟨-, -, k, hk, -⟩ := hone
  exact ⟨k, hk⟩

theorem position_readable {e : Engine S} {now : Int} (h : e.verifyBlockWithSales C V now b = .ok ())
    (htx : tx ∈ b.txs) (hpos : tx.isLPoDPosition = true) :
    ∃ a, tx.lpodPositionAction C = .ok a := by
  have hv : tx.version = .lpodPosition := of_decide_eq_true hpos
  obtain ⟨b', hb', -, hkept⟩ := verified_block h
  have hmem := hkept tx htx (by simp [isSale, hv])
  rcases verifyBlock_spec hb' hmem with hskip | hver
  · simp [isCoinbase, isGuardianFund, isLPoD,
      isLPoDPosition, isLPoDPayout, hv] at hskip
  · have hval := verifyTx_validate hver
    rw [validate, hv] at hval
    obtain ⟨a, ha, -⟩ := unbind hval
    exact ⟨a, ha⟩

end Aperod
