import Aperod.Lpod.Equiv.Shares

/-!
# The payout pays what the ledger records

`payoutLPoD` runs the transition again and pays the differences: to each position what it is no longer
due and the principal it was returned, to the leader its share, and the releases of the reserve.
-/

namespace Aperod.Lpod

open Go GoMap List

variable {C : Externals} {K : Encodings} {o : RangeOrder} {d : DB} {r : Settlement}
  {height : UInt64}
variable {id : Bytes} {b : Position} {c c' : Checkpoint} {es : List Settling}

/-! ### Principal -/

/-- No deposit of the block takes the identity of a position that is still recorded. -/
def FreshDeposits (C : Externals) (before : Checkpoint) (r : Settlement) : Prop :=
  ∀ id p, before.positions.get id = some p → depositedUnder id (r.deposits C) = 0

/-- The principal a block returns to a position. -/
def principalPaid (before after : Positions) (id : Bytes) : ℕ :=
  after.entry (·.withdrawn.toNat) id - before.entry (·.withdrawn.toNat) id

/-- The principal a position still holds. -/
def principalHeld (m : Positions) (id : Bytes) : ℕ := m.entry (·.remaining.toNat) id

section Principal

variable {before after : Checkpoint} {accrued : Positions} {t : Transition} {payments : List Payment}

variable {p : Position}

section

variable (h : PreviewPays C before r height accrued t after payments)
include h

/-- A position of the new checkpoint with the one of the transition. -/
theorem PreviewPays.next (hp : after.positions.get id = some p) :
    ∃ q, t.next.positions.get id = some q ∧ p.due.toNat ≤ q.due.toNat ∧ p.deposit = q.deposit ∧
      p.withdrawn = q.withdrawn := by
  obtain ⟨q, hq, due, hle, rfl⟩ := h.lowered.some_right hp
  exact ⟨q, hq, hle, rfl, rfl⟩

theorem PreviewPays.sane (hp : after.positions.get id = some p) : p.Sane :=
  UInt64.le_iff_toNat_le.mp (h.canonical id p hp).withdrawn_le

theorem PreviewPays.amount (id : Bytes) :
    after.positions.entry (·.deposit.amount.toNat) id =
      accrued.entry (·.deposit.amount.toNat) id + depositedUnder id (r.deposits C) := by
  rw [← h.transitioned.evolved.amount id]
  cases hp : after.positions.get id with
  | none => rw [entry_none hp, entry_none (h.lowered.none_iff.mpr hp)]
  | some p =>
    obtain ⟨q, hq, -, hdeposit, -⟩ := h.next hp
    rw [entry_some hp, entry_some hq, hdeposit]

/-- A position that was live is still there, with the same deposit, and no less is withdrawn. -/
theorem PreviewPays.live (hb : before.positions.get id = some b) (hlive : b.live = true) :
    ∃ x p, accrued.get id = some x ∧ after.positions.get id = some p ∧
      x.withdrawn = b.withdrawn ∧ x.deposit = b.deposit ∧ p.deposit = b.deposit ∧
      b.withdrawn.toNat ≤ p.withdrawn.toNat := by
  have hkept : (before.positions.filter fun _ p => p.live).get id = some b := by
    rw [get_filter, hb, Option.filter_some, hlive]
    rfl
  obtain ⟨x, hx, carry, due, -, rfl⟩ := h.transitioned.earns.some hkept
  obtain ⟨q, hq, hgrows⟩ := h.transitioned.evolved.old id _ hx
  obtain ⟨p, hp, due', -, rfl⟩ := h.lowered.some hq
  exact ⟨_, _, hx, hp, rfl, rfl, hgrows.deposit, hgrows.withdrawn⟩

theorem PreviewPays.accrued_none (hb : ∀ b, before.positions.get id = some b → b.live = false) :
    accrued.get id = none := by
  rw [← h.transitioned.earns.none_iff, get_filter]
  cases hget : before.positions.get id with
  | none => rfl
  | some b =>
    rw [Option.filter_some, hb b hget]
    rfl

theorem PreviewPays.closed
    (hfresh : FreshDeposits C before r) (hb : before.positions.get id = some b)
    (hlive : b.live = false) :
    after.positions.get id = none := by
  have hnone : accrued.get id = none := h.accrued_none fun b' hb' => by
    rw [hb] at hb'
    cases hb'
    exact hlive
  have hamount := h.amount id
  rw [entry_none hnone, hfresh id b hb] at hamount
  cases hp : after.positions.get id with
  | none => rfl
  | some p =>
    rw [entry_some hp] at hamount
    exact absurd (UInt64.toNat_inj.mp hamount) (h.canonical id p hp).amount_ne

theorem PreviewPays.prior
    (hfresh : FreshDeposits C before r) (hp : after.positions.get id = some p) :
    before.positions.entry (·.withdrawn.toNat) id = accrued.entry (·.withdrawn.toNat) id ∧
      before.positions.entry (·.withdrawn.toNat) id ≤ p.withdrawn.toNat := by
  cases hb : before.positions.get id with
  | none =>
    have hnone : accrued.get id = none := h.accrued_none fun b hb' => by
      rw [hb] at hb'
      cases hb'
    rw [entry_none hb, entry_none hnone]
    exact ⟨rfl, Nat.zero_le _⟩
  | some b =>
    cases hlive : b.live with
    | true =>
      obtain ⟨x, p', hx, hp', hwithdrawn, -, -, hle⟩ := h.live hb hlive
      rw [hp] at hp'
      cases hp'
      rw [entry_some hb, entry_some hx, hwithdrawn]
      exact ⟨rfl, hle⟩
    | false =>
      rw [h.closed hfresh hb hlive] at hp
      cases hp

/-- What a block returns to a position and what it holds afterwards is what it held before and what is
deposited in the block. -/
theorem PreviewPays.principal (hfresh : FreshDeposits C before r) (id : Bytes) :
    principalPaid before.positions after.positions id + principalHeld after.positions id =
      principalHeld before.positions id + depositedUnder id (r.deposits C) := by
  have hamount := h.amount id
  unfold principalPaid principalHeld
  cases hb : before.positions.get id with
  | none =>
    have hnone : accrued.get id = none := h.accrued_none fun b hb' => by
      rw [hb] at hb'
      cases hb'
    rw [entry_none hnone] at hamount
    rw [entry_none hb, entry_none hb]
    cases hp : after.positions.get id with
    | none =>
      rw [entry_none hp] at hamount
      rw [entry_none hp, entry_none hp]
      omega
    | some p =>
      have hsane := h.sane hp
      rw [entry_some hp] at hamount
      rw [entry_some hp, entry_some hp, hsane.remaining]
      unfold Position.Sane at hsane
      omega
  | some b =>
    have hbsane : b.Sane := UInt64.le_iff_toNat_le.mp (h.valid.canonical id b hb).withdrawn_le
    rw [entry_some hb, entry_some hb, hbsane.remaining]
    cases hlive : b.live with
    | true =>
      obtain ⟨x, p, hx, hp, -, hxb, hpb, hle⟩ := h.live hb hlive
      have hsane := h.sane hp
      rw [entry_some hp, entry_some hx, hxb, hpb] at hamount
      rw [entry_some hp, entry_some hp, hsane.remaining, hpb]
      unfold Position.Sane at hsane
      rw [hpb] at hsane
      omega
    | false =>
      -- a closed position has returned all of its principal
      have hreturned := (h.valid.canonical id b hb).returned
      rw [(Position.live_eq_false.mp hlive).1, eq_comm, decide_eq_true_eq] at hreturned
      have hgone := h.closed hfresh hb hlive
      rw [entry_none hgone, entry_none hgone, hfresh id b hb, hreturned]
      omega

theorem PreviewPays.sum_principal (hfresh : FreshDeposits C before r) :
    before.principalReturned.toNat +
        ∑ id ∈ after.positions.keys, principalPaid before.positions after.positions id =
      after.principalReturned.toNat := by
  have htotal := h.transitioned.evolved.total
  dsimp only at htotal
  have hsub : accrued.keys ⊆ after.positions.keys := by
    intro id hid
    obtain ⟨x, hx⟩ := mem_keys.mp hid
    obtain ⟨q, hq, -⟩ := h.transitioned.evolved.old id x hx
    obtain ⟨p, hp, -⟩ := h.lowered.some hq
    exact mem_keys.mpr ⟨p, hp⟩
  have hafter : after.positions.total (·.withdrawn.toNat) =
      t.next.positions.total (·.withdrawn.toNat) := by
    rw [total_eq_sum_entry, total_eq_sum_entry, h.lowered.keys_eq]
    refine Finset.sum_congr rfl fun id hid => ?_
    obtain ⟨p, hp⟩ := mem_keys.mp hid
    obtain ⟨q, hq, -, -, hwithdrawn⟩ := h.next hp
    rw [entry_some hp, entry_some hq, hwithdrawn]
  have hsum : ∑ id ∈ after.positions.keys, principalPaid before.positions after.positions id +
      accrued.total (·.withdrawn.toNat) = after.positions.total (·.withdrawn.toNat) := by
    rw [← sum_entry_of_subset hsub, total_eq_sum_entry, ← Finset.sum_add_distrib]
    refine Finset.sum_congr rfl fun id hid => ?_
    obtain ⟨p, hp⟩ := mem_keys.mp hid
    obtain ⟨heq, hle⟩ := h.prior hfresh hp
    unfold principalPaid
    rw [entry_some hp]
    omega
  rw [h.returned]
  omega

/-- What a block pays a position of what it was due. -/
def earningsPaid (next after : Positions) (id : Bytes) : ℕ :=
  next.entry (·.due.toNat) id - after.entry (·.due.toNat) id

theorem PreviewPays.sum_earnings :
    before.state.angelPaid.toNat +
        ∑ id ∈ after.positions.keys, earningsPaid t.next.positions after.positions id =
      after.state.angelPaid.toNat := by
  have hdue := h.due
  have hsum : ∑ id ∈ after.positions.keys, earningsPaid t.next.positions after.positions id +
      after.positions.total (·.due.toNat) = t.next.positions.total (·.due.toNat) := by
    rw [total_eq_sum_entry, total_eq_sum_entry, h.lowered.keys_eq,
      ← Finset.sum_add_distrib]
    refine Finset.sum_congr rfl fun id hid => ?_
    obtain ⟨p, hp⟩ := mem_keys.mp hid
    obtain ⟨q, hq, hle, -, -⟩ := h.next hp
    unfold earningsPaid
    rw [entry_some hp, entry_some hq]
    omega
  rw [h.settled.angels]
  omega

end

end Principal

/-! ### Amounts by address -/

open DB (Amounts addAmount payLeader payEntitlement payVesting paidAddresses)

/-- The amounts hold `f a` for each address, `n` altogether. -/
structure Credited (f : Address → ℕ) (n : ℕ) (m : Amounts) : Prop where
  amount : ∀ a, (m.amount a).toNat = f a
  total : m.total UInt64.toNat = n

theorem Credited.empty : Credited (fun _ => 0) 0 ∅ where
  amount a := by
    rfl
  total := rfl

variable {f : Address → ℕ} {n : ℕ} {m : Amounts}

theorem Credited.congr {g : Address → ℕ} {k : ℕ} (h : Credited f n m) (hf : ∀ a, f a = g a)
    (hn : n = k) : Credited g k m :=
  ⟨fun a => (h.amount a).trans (hf a), h.total.trans hn⟩

theorem Credited.add (h : Credited f n m) (a : Address) {x : UInt64} (hfit : n + x.toNat < 2 ^ 64) :
    ∃ m', addAmount m a x = .ok m' ∧
      Credited (fun b => f b + if a = b then x.toNat else 0) (n + x.toNat) m' := by
  have hle := amount_le_total m a
  rw [h.total] at hle
  obtain ⟨m', hm'⟩ : ∃ m', addAmount "lpod: amount overflow" m a x = .ok m' :=
    ⟨_, addAmount_eq_ok.mpr ⟨by omega, rfl⟩⟩
  refine ⟨m', hm', fun b => ?_, ?_⟩
  · rw [toNat_amount_addAmount hm' b, h.amount b]
  · rw [total_addAmount hm', h.total]

/-- What the leader of the block gets. -/
def leaderTotal (payments : List Payment) : ℕ := (payments.map fun p => p.leader.toNat).sum

theorem payLeaders_credited {i : ℕ} {payments : List Payment} (h : Credited f n m)
    (hproposer : ∀ p ∈ payments, p.leader ≠ 0 → p.vaultID = r.proposer)
    (hfit : n + leaderTotal payments < 2 ^ 64) :
    ∃ m', loop (fun _ => payLeader r) i payments m = .ok m' ∧
      Credited (fun b => f b + if r.leader = b then leaderTotal payments else 0)
        (n + leaderTotal payments) m' := by
  induction payments generalizing f n i m with
  | nil => exact ⟨m, rfl, h.congr (fun b => by simp [leaderTotal]) rfl⟩
  | cons p payments ih =>
    rw [forall_mem_cons] at hproposer
    have hcons : leaderTotal (p :: payments) = p.leader.toNat + leaderTotal payments := by
      unfold leaderTotal
      rw [map_cons, sum_cons]
    obtain ⟨m1, hm1, hc1⟩ : ∃ m1, payLeader r p m = .ok m1 ∧
        Credited (fun b => f b + if r.leader = b then p.leader.toNat else 0)
          (n + p.leader.toNat) m1 := by
      unfold payLeader
      split_ifs with hpos
      · have hne : p.leader ≠ 0 := UInt64.pos_iff_ne_zero.mp hpos
        obtain ⟨m1, hm1, hc1⟩ := h.add r.leader (x := p.leader) (by omega)
        refine ⟨m1, pass ?_ hm1, hc1⟩
        rw [failIf_eq_ok, not_not]
        exact hproposer.1 hne
      · have hzero : p.leader.toNat = 0 := by
          rw [gt_iff_lt, UInt64.lt_iff_toNat_lt, UInt64.toNat_zero] at hpos
          omega
        exact ⟨m, rfl, h.congr (fun b => by simp [hzero]) (by omega)⟩
    obtain ⟨m', hm', hc'⟩ := ih hc1 hproposer.2 (by omega)
    refine ⟨m', loop_cons_eq_ok.mpr ⟨m1, hm1, hm'⟩, hc'.congr (fun b => ?_) (by omega)⟩
    split_ifs <;> omega

/-- What a block pays for a position. -/
def positionPaid (before next after : Positions) (id : Bytes) : ℕ :=
  earningsPaid next after id + principalPaid before after id

theorem payEntitlement_credited {before next after : Positions} {p : Position}
    (h : Credited f n m) (hp : after.get id = some p)
    (hdue : p.due.toNat ≤ next.entry (·.due.toNat) id)
    (hprior : before.entry (·.withdrawn.toNat) id ≤ p.withdrawn.toNat)
    (hfit : n + positionPaid before next after id < 2 ^ 64) :
    ∃ m', payEntitlement before next id p m = .ok m' ∧
      Credited (fun b => f b + if p.deposit.beneficiary = b then
        positionPaid before next after id else 0) (n + positionPaid before next after id) m' := by
  have howed : ((next.get id).elim 0 (·.due)).toNat = next.entry (·.due.toNat) id := by
    unfold entry
    cases next.get id <;> rfl
  have hwas : ((before.get id).elim 0 (·.withdrawn)).toNat =
      before.entry (·.withdrawn.toNat) id := by
    unfold entry
    cases before.get id <;> rfl
  have hpaid : positionPaid before next after id =
      (next.entry (·.due.toNat) id - p.due.toNat) +
        (p.withdrawn.toNat - before.entry (·.withdrawn.toNat) id) := by
    unfold positionPaid earningsPaid principalPaid
    rw [entry_some hp, entry_some hp]
  -- the returned principal, as the source computes it
  have hprincipal : (if p.withdrawn > (before.get id).elim 0 (·.withdrawn) then
      p.withdrawn - (before.get id).elim 0 (·.withdrawn) else 0).toNat =
      p.withdrawn.toNat - before.entry (·.withdrawn.toNat) id := by
    rw [← hwas]
    split_ifs with hgt
    · exact toNat_sub (hwas ▸ hprior)
    · rw [gt_iff_lt, UInt64.lt_iff_toNat_lt] at hgt
      rw [UInt64.toNat_zero]
      omega
  have hearned : ((next.get id).elim 0 (·.due) - p.due).toNat =
      next.entry (·.due.toNat) id - p.due.toNat := by
    rw [toNat_sub (howed ▸ hdue), howed]
  obtain ⟨x, hx, hxn⟩ : ∃ x, lpodAdd ((next.get id).elim 0 (·.due) - p.due)
      (if p.withdrawn > (before.get id).elim 0 (·.withdrawn) then
        p.withdrawn - (before.get id).elim 0 (·.withdrawn) else 0) = .ok x ∧
      x.toNat = positionPaid before next after id := by
    rw [hpaid, ← hearned, ← hprincipal]
    apply exists_addOr_eq_ok
    omega
  rw [← hxn] at hfit ⊢
  obtain ⟨m', hm', hc'⟩ := h.add p.deposit.beneficiary hfit
  refine ⟨m', ?_, hc'⟩
  refine pass ?_ <| pass ?_ <| bind_ok hx hm'
  · rw [failIf_eq_ok, gt_iff_lt, UInt64.lt_iff_toNat_lt, howed]
    omega
  · rw [failIf_eq_ok, UInt64.lt_iff_toNat_lt, hwas]
    omega

/-- The position goes to this address. -/
def paysTo (m : Positions) (a : Address) (id : Bytes) : Bool :=
  (m.get id).any fun p => decide (p.deposit.beneficiary = a)

theorem payEntitlements_credited {before next after : Positions} (h : Credited f n m)
    (hdue : ∀ id p, after.get id = some p → p.due.toNat ≤ next.entry (·.due.toNat) id)
    (hprior : ∀ id p, after.get id = some p →
      before.entry (·.withdrawn.toNat) id ≤ p.withdrawn.toNat)
    (hfit : n + ∑ id ∈ after.keys, positionPaid before next after id < 2 ^ 64) :
    ∃ m', o.forRange after (payEntitlement before next) m = .ok m' ∧
      Credited (fun b => f b +
          ∑ id ∈ after.keys, if paysTo after b id then positionPaid before next after id else 0)
        (n + ∑ id ∈ after.keys, positionPaid before next after id) m' := by
  refine RangeOrder.forRange_keys_progress (fun done m => Credited
    (fun b => f b + ∑ id ∈ done, if paysTo after b id then positionPaid before next after id else 0)
    (n + ∑ id ∈ done, positionPaid before next after id) m) ?_ ?_
  · intro done id p m hnew hsub hp hI
    have hle : ∑ j ∈ insert id done, positionPaid before next after j ≤
        ∑ j ∈ after.keys, positionPaid before next after j := by
      apply Finset.sum_le_sum_of_subset
      rw [Finset.insert_subset_iff]
      exact ⟨mem_keys.mpr ⟨p, hp⟩, hsub⟩
    rw [Finset.sum_insert hnew] at hle ⊢
    obtain ⟨m', hm', hc'⟩ := payEntitlement_credited hI hp (hdue id p hp) (hprior id p hp) (by omega)
    refine ⟨m', hm', hc'.congr (fun b => ?_) (by omega)⟩
    have hto : paysTo after b id = decide (p.deposit.beneficiary = b) := by
      unfold paysTo
      rw [hp]
      rfl
    rw [Finset.sum_insert hnew, hto]
    simp only [decide_eq_true_eq]
    omega
  · exact h.congr (fun b => by simp) (by simp)

/-! ### The reserve -/

/-- What the reserve pays an address at a height. -/
def GenesisVestingState.paysAt (v : GenesisVestingState) (height : UInt64) (a : Address) : ℕ :=
  (if v.recipient = a then (v.paymentAt height).toNat else 0) +
    if height = v.fundingHeight ∧ v.liquidityRecipient = a then v.liquidityPaid.toNat else 0

/-- The tranches and the liquidity release of a height. -/
def GenesisVestingState.released (v : GenesisVestingState) (height : UInt64) : ℕ :=
  (v.paymentAt height).toNat + if height = v.fundingHeight then v.liquidityPaid.toNat else 0

/-- What the reserve of a checkpoint, if it has one, releases at a height. -/
def Checkpoint.released (c : Checkpoint) (height : UInt64) : ℕ :=
  c.genesisVesting.elim 0 (·.released height)

theorem payVesting_credited {after : Checkpoint} (h : Credited f n m)
    (hvalid : ∀ v, after.genesisVesting = some v →
      ∃ a, after.allocation = some a ∧ v.validate a.genesis height = .ok ())
    (hfit : n + after.released height < 2 ^ 64) :
    ∃ m', payVesting height after m = .ok m' ∧
      Credited (fun b => f b + after.genesisVesting.elim 0 (·.paysAt height b))
        (n + after.released height) m' := by
  unfold payVesting Checkpoint.released at *
  cases hv : after.genesisVesting with
  | none => exact ⟨m, rfl, h⟩
  | some v =>
    rw [hv] at hfit
    obtain ⟨a, ha, hcheck⟩ := hvalid v hv
    have hreleased : v.released height = (v.paymentAt height).toNat +
      if height = v.fundingHeight then v.liquidityPaid.toNat else 0 := rfl
    change n + v.released height < 2 ^ 64 at hfit
    obtain ⟨m1, hm1, hc1⟩ := h.add v.recipient (x := v.paymentAt height) (by omega)
    have hcont : ∀ {k : Amounts → Result Amounts}, (do
        let a ← deref after.allocation
        v.validate a.genesis height
        let amounts ← addAmount m v.recipient (v.paymentAt height)
        k amounts) = k m1 := by
      intro k
      rw [ha]
      show (v.validate a.genesis height >>= fun _ => _) = _
      rw [hcheck, ok_bind, hm1, ok_bind]
    dsimp only
    rw [hcont]
    show ∃ m', _ ∧ Credited (fun b => f b + v.paysAt height b) (n + v.released height) m'
    by_cases hrelease : height = v.fundingHeight ∧ v.liquidityPaid > 0
    · rw [if_pos hrelease]
      rw [hreleased, if_pos hrelease.1] at hfit ⊢
      obtain ⟨m2, hm2, hc2⟩ := hc1.add v.liquidityRecipient (x := v.liquidityPaid) (by omega)
      refine ⟨m2, hm2, hc2.congr (fun b => ?_) (by omega)⟩
      unfold GenesisVestingState.paysAt
      simp only [hrelease.1, true_and]
      omega
    · rw [if_neg hrelease]
      have hnone : (if height = v.fundingHeight then v.liquidityPaid.toNat else 0) = 0 := by
        split_ifs with hheight
        · have hzero : ¬ v.liquidityPaid > 0 := fun hpos => hrelease ⟨hheight, hpos⟩
          rw [gt_iff_lt, UInt64.lt_iff_toNat_lt, UInt64.toNat_zero] at hzero
          omega
        · rfl
      refine ⟨m1, rfl, hc1.congr (fun b => ?_) (by omega)⟩
      have hzero : (if height = v.fundingHeight ∧ v.liquidityRecipient = b then
          v.liquidityPaid.toNat else 0) = 0 := by
        split_ifs with hheight
        · rw [if_pos hheight.1] at hnone
          exact hnone
        · rfl
      unfold GenesisVestingState.paysAt
      rw [hzero, Nat.add_zero]

/-! ### The payout -/

/-- Every address that is paid something, with its amount. -/
def paidAmounts (m : Amounts) : List (Address × UInt64) :=
  (paidAddresses m).map fun a => (a, m.amount a)

theorem paidAmounts_sum (m : Amounts) :
    ((paidAmounts m).map fun e => e.2.toNat).sum = m.total UInt64.toNat := by
  unfold paidAmounts paidAddresses
  rw [map_map, ← sum_toFinset _ (Finset.sort_nodup _ _), Finset.sort_toFinset,
    total_eq_sum_entry]
  have hentry : ∀ a, m.entry UInt64.toNat a = (m.amount a).toNat := by
    intro a
    unfold entry amount
    cases m.get a <;> rfl
  simp only [hentry]
  refine Finset.sum_subset (Finset.filter_subset _ _) fun a ha hnot => ?_
  rw [Finset.mem_filter, not_and] at hnot
  have hzero := hnot ha
  rw [gt_iff_lt, UInt64.lt_iff_toNat_lt, UInt64.toNat_zero] at hzero
  show (m.amount a).toNat = 0
  omega

theorem mem_paidAddresses {a : Address} : a ∈ paidAddresses m ↔ m.amount a ≠ 0 := by
  unfold paidAddresses
  rw [Finset.mem_sort, Finset.mem_filter, gt_iff_lt, UInt64.pos_iff_ne_zero]
  refine ⟨fun h => h.2, fun h => ⟨?_, h⟩⟩
  by_contra hnot
  unfold amount at h
  rw [get_eq_none_iff.mpr hnot] at h
  exact h rfl

/-- What the payout of a block owes an address: the leader's share, what the positions that go to it
are paid, and the releases of the reserve. -/
def owedTo (before next : Positions) (r : Settlement) (height : UInt64) (after : Checkpoint)
    (payments : List Payment) (a : Address) : ℕ :=
  (if r.leader = a then leaderTotal payments else 0) +
    (∑ id ∈ after.positions.keys,
      if paysTo after.positions a id then positionPaid before next after.positions id else 0) +
    after.genesisVesting.elim 0 (·.paysAt height a)

/-- All the ledger has ever paid out. -/
def Checkpoint.paidOut (c : Checkpoint) : ℕ :=
  c.state.leaderPaid.toNat + c.state.angelPaid.toNat + c.principalReturned.toNat

section Payout

variable {before after : Checkpoint} {accrued : Positions} {t : Transition} {payments : List Payment}
  {loaded : Option Checkpoint} {msg : String}

theorem PreviewPays.credited (h : PreviewPays C before r height accrued t after payments)
    (hfresh : FreshDeposits C before r)
    (hfit : after.paidOut + after.released height < before.paidOut + 2 ^ 64) :
    ∃ m1 m2 m, loop (fun _ => payLeader r) 0 payments ∅ = .ok m1 ∧
      o.forRange after.positions (payEntitlement before.positions t.next.positions) m1 = .ok m2 ∧
      payVesting height after m2 = .ok m ∧
      (∀ a, (m.amount a).toNat =
        owedTo before.positions t.next.positions r height after payments a) ∧
      before.paidOut + m.total UInt64.toNat = after.paidOut + after.released height := by
  have hleader : after.state.leaderPaid.toNat = before.state.leaderPaid.toNat +
    leaderTotal payments := h.settled.leader
  have hangel := h.sum_earnings
  have hprincipal := h.sum_principal hfresh
  have hpositions : ∑ id ∈ after.positions.keys,
        positionPaid before.positions t.next.positions after.positions id =
      ∑ id ∈ after.positions.keys, earningsPaid t.next.positions after.positions id +
        ∑ id ∈ after.positions.keys, principalPaid before.positions after.positions id :=
    Finset.sum_add_distrib
  unfold Checkpoint.paidOut at hfit ⊢
  obtain ⟨m1, hm1, hc1⟩ : ∃ m, loop (fun _ => payLeader r) 0 payments ∅ = .ok m ∧ _ := by
    refine payLeaders_credited Credited.empty (fun p hp hne => ?_) (by omega)
    obtain ⟨v, hv, hpays⟩ := h.settled.vault hp
    rw [hpays.vaultID]
    by_contra hother
    have hle := hpays.leader_le
    rw [h.transitioned.income v hv hother] at hle
    exact hne (UInt64.toNat_inj.mp (Nat.le_zero.mp hle))
  obtain ⟨m2, hm2, hc2⟩ : ∃ m, o.forRange after.positions
      (payEntitlement before.positions t.next.positions) m1 = .ok m ∧ _ := by
    refine payEntitlements_credited hc1 (fun id p hp => ?_) (fun id p hp => ?_) (by omega)
    · obtain ⟨q, hq, hle, -, -⟩ := h.next hp
      rw [entry_some hq]
      exact hle
    · exact (h.prior hfresh hp).2
  obtain ⟨m, hm, hc⟩ := payVesting_credited hc2 h.vesting (by omega)
  refine ⟨m1, m2, m, hm1, hm2, hm, fun a => ?_, ?_⟩
  · rw [hc.amount a]
    unfold owedTo
    rw [Nat.zero_add]
  · rw [hc.total]
    omega

/-- The payout starts from the checkpoint the preview started from. -/
theorem payoutBase_eq (hbefore : d.checkpointBefore C K msg 0 height r loaded = .ok before)
    (h : before.allocation = some a) :
    d.payoutBase C K height r loaded = .ok before ∧
      loaded.elim ∅ (·.positions) = before.positions := by
  unfold DB.payoutBase
  cases loaded with
  | none =>
    obtain ⟨m, issued, -, -, -, -, -, -, heq⟩ := fundingCheckpoint_eq_ok.mp hbefore
    exact ⟨hbefore, by rw [← heq]; rfl⟩
  | some c =>
    replace hbefore := past hbefore
    cases hbefore
    rw [Option.filter_some, h]
    exact ⟨rfl, rfl⟩

theorem payoutLPoD_eq (hloaded : d.loadCheckpoint C K o = .ok loaded)
    (hbefore : d.checkpointBefore C K msg 0 height r loaded = .ok before)
    (hpreview : d.previewPositions C K o before height r = .ok (after, payments))
    (hfresh : FreshDeposits C before r)
    (hfit : after.paidOut + after.released height < before.paidOut + 2 ^ 64) :
    ∃ t m, d.positionTransition C o before height r = .ok t ∧
      (∀ a, (m.amount a).toNat =
        owedTo before.positions t.next.positions r height after payments a) ∧
      before.paidOut + m.total UInt64.toNat = after.paidOut + after.released height ∧
      d.payoutLPoD C K o height r after payments = (do
        let outputs ← mapLoop (fun _ a => K.payoutOutput a (m.amount a) height r.parent
          (after.digest C K)) 0 (paidAddresses m)
        .ok { version := .lpodPayout
              extra := C.payoutCodec.marshal ⟨r.leader, after.digest C K⟩, outputs }) := by
  obtain ⟨t, accrued, ht, hpays⟩ := previewPositions_pays hpreview
  obtain ⟨a, -, ha, -⟩ := positionTransition_eq_ok.mp ht
  obtain ⟨hbase, hpositions⟩ := payoutBase_eq hbefore ha
  obtain ⟨m1, m2, m, hm1, hm2, hm, howed, htotal⟩ := hpays.credited hfresh hfit
  refine ⟨t, m, ht, howed, htotal, ?_⟩
  unfold DB.payoutLPoD
  rw [hloaded, ok_bind, hbase, ok_bind, ht, ok_bind, hm1, ok_bind, hpositions, hm2, ok_bind, hm,
    ok_bind]

end Payout

/-! ### Principal over a run -/

/-- A block of a run: its height, its settlement and the checkpoint it leaves. -/
structure Settling where
  height : UInt64
  settlement : Settlement
  after : Checkpoint

/-- The step of a run: the preview of the block on some store, in some order of the maps. -/
def Settles (C : Externals) (K : Encodings) (c : Checkpoint) (e : Settling) (c' : Checkpoint) : Prop :=
  c' = e.after ∧ ∃ d o payments,
    DB.previewPositions C K o d c e.height e.settlement = .ok (c', payments)

/-- The principal the blocks of a run return to a position. -/
def returnedTo (id : Bytes) : Positions → List Settling → ℕ
  | _, [] => 0
  | m, e :: es => principalPaid m e.after.positions id + returnedTo id e.after.positions es

/-- The amounts the blocks of a run deposit under an identity. -/
def depositedIn (C : Externals) (id : Bytes) (es : List Settling) : ℕ :=
  (es.map fun e => depositedUnder id (e.settlement.deposits C)).sum

/-- Over a run, what is returned and what is still held is what was held and what was deposited. -/
theorem returnedTo_add_held
    (h : Run (fun c e c' => Settles C K c e c' ∧ FreshDeposits C c e.settlement) c es c')
    (id : Bytes) :
    returnedTo id c.positions es + principalHeld c'.positions id =
      principalHeld c.positions id + depositedIn C id es := by
  induction h with
  | nil c => exact Nat.add_comm _ _
  | @cons c c1 c2 e es hstep _ ih =>
    obtain ⟨⟨rfl, d, o, payments, hpreview⟩, hfresh⟩ := hstep
    obtain ⟨t, accrued, -, hpays⟩ := previewPositions_pays hpreview
    have hone := hpays.principal hfresh id
    show principalPaid c.positions e.after.positions id + returnedTo id e.after.positions es + _ =
      _ + depositedIn C id (e :: es)
    unfold depositedIn at *
    rw [map_cons, sum_cons]
    omega

theorem positionsValid_of_run
    (h : Run (fun c e c' => Settles C K c e c' ∧ FreshDeposits C c e.settlement) c es c')
    (hc : c.PositionsValid) : ∀ id p, c'.positions.get id = some p →
      p.Canonical c'.state.lastHeight id := by
  refine h.invariant (fun c => ∀ id p, c.positions.get id = some p →
    p.Canonical c.state.lastHeight id) ?_ hc.canonical
  intro a e b _ _ hstep
  obtain ⟨⟨-, d, o, payments, hpreview⟩, -⟩ := hstep
  obtain ⟨t, accrued, -, hpays⟩ := previewPositions_pays hpreview
  exact hpays.canonical

theorem principalHeld_eq_zero {m : Positions} {last : UInt64}
    (hcanon : ∀ id p, m.get id = some p → p.Canonical last id)
    (h : (m.get id).all (·.returned) = true) : principalHeld m id = 0 := by
  unfold principalHeld
  cases hp : m.get id with
  | none => exact entry_none hp
  | some p =>
    rw [hp, Option.all_some] at h
    have hreturned := (hcanon id p hp).returned
    rw [h, eq_comm, decide_eq_true_eq] at hreturned
    rw [entry_some hp]
    unfold Position.remaining
    rw [hreturned, UInt64.sub_self]
    rfl

/-! ### The payout and the ledger -/

/-- What a block on the tip starts from, and what its preview gives. -/
structure Trial where
  loaded : Option Checkpoint
  before : Checkpoint
  after : Checkpoint
  payments : List Payment

/-- The preview of a block on the tip. -/
def DB.trial (K : Encodings) (d : DB) (r : Settlement) : Result Trial := do
  let loaded ← d.loadCheckpoint lpodHashing K .sorted
  let before ← d.checkpointBefore lpodHashing K "lpod: duplicate migration" 0 (d.tip.2 + 1) r loaded
  let (after, payments) ← d.previewPositions lpodHashing K .sorted before (d.tip.2 + 1) r
  .ok { loaded, before, after, payments }

theorem trial_eq_ok {K : Encodings} {d : DB} {x : Trial}
    (h : d.trial K r = .ok x) :
    d.loadCheckpoint lpodHashing K .sorted = .ok x.loaded ∧
      d.checkpointBefore lpodHashing K "lpod: duplicate migration" 0 (d.tip.2 + 1) r x.loaded =
        .ok x.before ∧
      d.previewPositions lpodHashing K .sorted x.before (d.tip.2 + 1) r =
        .ok (x.after, x.payments) := by
  obtain ⟨loaded, hloaded, h⟩ := unbind h
  obtain ⟨before, hbefore, h⟩ := unbind h
  obtain ⟨⟨after, payments⟩, hpreview, h⟩ := unbind h
  have hx := Except.ok.inj h
  subst hx
  exact ⟨hloaded, hbefore, hpreview⟩

theorem freshDeposits_of_none {before : Checkpoint}
    (h : r.deposits C = []) : FreshDeposits C before r := by
  intro id p _
  rw [h]
  rfl

/-- Fifteen seconds after the deposit all of it is withdrawn. -/
def withdrawSettlement (parent : Hash32) (beneficiary : Address) : Settlement :=
  { sampleSettlement parent 15000000003 with transactions := [guardianWithdrawTx beneficiary] }

/-- The block with the deposit and the one with the withdrawal, on the chain before it. -/
def guardianTrials (K : Encodings) (beneficiary : Address) : Result (DB × DB × Trial × Trial) := do
  let (d1, d2) ← guardedDB K beneficiary
  let x ← d1.trial K (guardianSettlement d1.tip.1 beneficiary)
  let y ← d2.trial K (withdrawSettlement d2.tip.1 beneficiary)
  .ok (d1, d2, x, y)

/-- The view key of the address `unpayable` is no point of the curve. -/
def unpayableEncodings : Encodings :=
  { plainEncodings with
    payoutOutput := fun a n height parent digest =>
      if a = "unpayable" then fail "view public key: edwards25519: invalid point encoding"
      else plainEncodings.payoutOutput a n height parent digest }

/-- The chain with the deposit, and a block without operations on it. -/
def unpayableTrial : Result (DB × Transition × Trial) := do
  let (_, d) ← guardedDB unpayableEncodings "unpayable"
  let x ← d.trial unpayableEncodings (sampleSettlement d.tip.1 15000000003)
  let t ← d.positionTransition lpodHashing .sorted x.before 3 (sampleSettlement d.tip.1 15000000003)
  .ok (d, t, x)

/-- The settlement of that block. -/
def unpayableSettlement (d : DB) : Settlement := sampleSettlement d.tip.1 15000000003

theorem unpayableTrial_ok : ∃ d1 d t x, guardedDB unpayableEncodings "unpayable" = .ok (d1, d) ∧
    unpayableTrial = .ok (d, t, x) ∧
    d.positionTransition lpodHashing .sorted x.before 3 (unpayableSettlement d) = .ok t ∧
    (d.loadCheckpoint lpodHashing unpayableEncodings .sorted = .ok x.loaded ∧
      d.checkpointBefore lpodHashing unpayableEncodings "lpod: duplicate migration" 0 3
        (unpayableSettlement d) x.loaded = .ok x.before ∧
      d.previewPositions lpodHashing unpayableEncodings .sorted x.before 3 (unpayableSettlement d) =
        .ok (x.after, x.payments)) ∧
    x.after.paidOut + x.after.released 3 < x.before.paidOut + 2 ^ 64 ∧
    owedTo x.before.positions t.next.positions (unpayableSettlement d) 3 x.after x.payments
      "unpayable" ≠ 0 ∧ ∃ p ∈ x.payments, p.angels ≠ 0 := by
  obtain ⟨⟨d, t, x⟩, h, htip, htest⟩ : ∃ p, unpayableTrial = .ok p ∧ p.1.tip.2 = 2 ∧
      p.2.2.after.paidOut + p.2.2.after.released 3 < p.2.2.before.paidOut + 2 ^ 64 ∧
      owedTo p.2.2.before.positions p.2.1.next.positions (unpayableSettlement p.1) 3 p.2.2.after
        p.2.2.payments "unpayable" ≠ 0 ∧ ∃ q ∈ p.2.2.payments, q.angels ≠ 0 :=
    exists_ok_of_test (by decide +kernel)
  have htrial := h
  obtain ⟨⟨d1, d2⟩, hguarded, h⟩ := unbind h
  obtain ⟨x', hx, h⟩ := unbind h
  obtain ⟨t', ht, h⟩ := unbind h
  cases h
  have hcalls := trial_eq_ok hx
  rw [htip] at hcalls
  exact ⟨d1, d, t, x, hguarded, htrial, ht, hcalls, htest⟩

end Aperod.Lpod
