import Aperod.Lpod.Store

/-!
# The transition does not depend on the order of the maps

The transition ranges over the positions, over the totals of the vaults and over the stake table, and
Go visits a map in an order of its own each time.  Every node must arrive at the same checkpoint all
the same, and a node must arrive at the same one when it validates a block and when it commits it.
-/

namespace Aperod.Lpod

open Go GoMap

variable {C : Externals} {K : Encodings} {o o' : RangeOrder}
variable {d : DB} {id : Bytes} {elapsed : UInt64} {p' : Position} {s t : UInt64 × UInt64}

/-! ### The check of the positions -/

/-- The checks of one position, up to the height `last`. -/
structure Position.Canonical (p : Position) (last : UInt64) (id : Bytes) : Prop where
  id_eq : id = positionID p.deposit
  action : p.deposit.action = lpodDeposit
  deposit_nonce : p.deposit.nonce = 0
  withdrawAmount : p.deposit.withdrawAmount = 0
  amount_ne : p.deposit.amount ≠ 0
  withdrawn_le : p.withdrawn ≤ p.deposit.amount
  returned : p.returned = decide (p.withdrawn = p.deposit.amount)
  nonce : p.autoReturned = false → decide (p.nonce = 0) = decide (p.withdrawn = 0)
  autoReturned : p.autoReturned = true → p.returned = true
  aprCarry_lt : p.aprCarry < aprDenominator
  unlockHeight : decide (p.unlockHeight = 0) = !p.returned
  unlockHeight_le : p.unlockHeight ≤ last
  route : ∀ v ∈ p.effectiveVault, v ≠ p.deposit.vault ∧ p.routeHeight ≠ 0 ∧ p.routeHeight ≤ last

/-- The principal of a position as the check counts it. -/
def Position.lockedAmount (p : Position) : Nat := if p.returned then 0 else p.remaining.toNat

variable {n height : UInt64} {p : Position} {c before : Checkpoint} {k k' : Bytes} {r : Settlement}

theorem lpodAdd_eq_ok {a b : UInt64} : lpodAdd a b = .ok n ↔ n.toNat = a.toNat + b.toNat :=
  addOr_eq_ok

theorem addLocked_eq_ok {locked : UInt64} :
    p.addLocked locked = .ok n ↔ n.toNat = locked.toNat + p.lockedAmount := by
  unfold Position.addLocked Position.lockedAmount
  split_ifs
  · rw [Nat.add_zero, UInt64.toNat_inj, Except.ok.injEq, eq_comm]
  · exact lpodAdd_eq_ok

theorem checkPosition_eq_ok :
    c.checkPosition id p s = .ok t ↔ p.Canonical c.state.lastHeight id ∧
      t.1.toNat = s.1.toNat + p.lockedAmount ∧ t.2.toNat = s.2.toNat + p.due.toNat := by
  unfold Checkpoint.checkPosition
  simp only [bind_eq_ok, failIf_eq_ok, exists_const, addLocked_eq_ok, lpodAdd_eq_ok, not_or, not_not,
    not_and, not_exists, Bool.not_eq_true, gt_iff_lt, ge_iff_le, UInt64.not_lt, UInt64.not_le]
  constructor
  · rintro ⟨⟨h1, h2, h3, h4, h5, h6, h7, h8, h9, h10, h11, h12⟩, hroute, locked, hl, due, hd, h⟩
    cases h
    refine ⟨⟨h1, h2, h3, h4, h5, h6, h7, h8, fun ha => ?_, h10, h11, h12, hroute⟩, hl, hd⟩
    exact Bool.not_eq_false _ ▸ h9 ha
  · rintro ⟨hc, hl, hd⟩
    refine ⟨⟨hc.id_eq, hc.action, hc.deposit_nonce, hc.withdrawAmount, hc.amount_ne,
      hc.withdrawn_le, hc.returned, hc.nonce, fun ha => ?_, hc.aprCarry_lt, hc.unlockHeight,
      hc.unlockHeight_le⟩, hc.route, t.1, hl, t.2, hd, rfl⟩
    rw [hc.autoReturned ha]
    decide

theorem checkPositions_eq_ok {l : List (Bytes × Position)} {i : Nat} :
    loop (fun _ (e : Bytes × Position) => c.checkPosition e.1 e.2) i l s = .ok t ↔
      (∀ e ∈ l, e.2.Canonical c.state.lastHeight e.1) ∧
      t.1.toNat = s.1.toNat + (l.map fun e => e.2.lockedAmount).sum ∧
      t.2.toNat = s.2.toNat + (l.map fun e => e.2.due.toNat).sum := by
  induction l generalizing i s with
  | nil =>
    rw [List.map_nil, List.map_nil, List.sum_nil, Nat.add_zero, Nat.add_zero, UInt64.toNat_inj,
      UInt64.toNat_inj, ← Prod.ext_iff, eq_comm]
    simp
  | cons e l ih =>
    rw [loop_cons_eq_ok, List.forall_mem_cons, List.map_cons, List.sum_cons, List.map_cons,
      List.sum_cons]
    constructor
    · rintro ⟨s', he, hrest⟩
      obtain ⟨hc, hlocked, hdue⟩ := checkPosition_eq_ok.mp he
      obtain ⟨hl, hlocked', hdue'⟩ := ih.mp hrest
      exact ⟨⟨hc, hl⟩, by omega, by omega⟩
    · rintro ⟨⟨hc, hl⟩, hlocked, hdue⟩
      have h1 := t.1.toNat_lt
      have h2 := t.2.toNat_lt
      -- the partial sums are below the final ones, so they fit
      have hs1 : (UInt64.ofNat (s.1.toNat + e.2.lockedAmount)).toNat =
          s.1.toNat + e.2.lockedAmount := UInt64.toNat_ofNat_of_lt' (show _ < 2 ^ 64 by omega)
      have hs2 : (UInt64.ofNat (s.2.toNat + e.2.due.toNat)).toNat = s.2.toNat + e.2.due.toNat :=
        UInt64.toNat_ofNat_of_lt' (show _ < 2 ^ 64 by omega)
      refine ⟨(UInt64.ofNat (s.1.toNat + e.2.lockedAmount), UInt64.ofNat (s.2.toNat + e.2.due.toNat)),
        checkPosition_eq_ok.mpr ⟨hc, hs1, hs2⟩, ih.mpr ⟨hl, ?_, ?_⟩⟩
      · show t.1.toNat = (UInt64.ofNat (s.1.toNat + e.2.lockedAmount)).toNat + _
        omega
      · show t.2.toNat = (UInt64.ofNat (s.2.toNat + e.2.due.toNat)).toNat + _
        omega

/-- What is owed to the positions. -/
def liability (m : Positions) : Nat := m.total fun p => p.due.toNat

def lockedPrincipal (m : Positions) : Nat := m.total Position.lockedAmount

/-- What `validatePositions` checks. -/
structure Checkpoint.PositionsValid (c : Checkpoint) : Prop where
  capacity : c.positions.len ≤ maxPositions
  canonical : ∀ id p, c.positions.get id = some p → p.Canonical c.state.lastHeight id
  locked : lockedPrincipal c.positions = c.principalLocked.toNat
  deposited : c.principalLocked.toNat + c.principalReturned.toNat = c.principalDeposited.toNat
  liability_lt : liability c.positions < 2 ^ 64
  liability_eq : c.allocation.isSome → liability c.positions = c.state.unfundedLiability.toNat

theorem validatePositions_eq_ok : c.validatePositions o = .ok () ↔ c.PositionsValid := by
  have hvisit := o.visit_mem c.positions
  have hlocked := total_eq_sum hvisit Position.lockedAmount
  have hdue := total_eq_sum hvisit fun p => p.due.toNat
  have hzero : (0 : UInt64).toNat = 0 := rfl
  constructor
  · intro h
    obtain ⟨⟨⟩, hcap, h⟩ := unbind h
    obtain ⟨sums, hsums, h⟩ := unbind h
    obtain ⟨hcanon, h1, h2⟩ := checkPositions_eq_ok.mp hsums
    rw [← hlocked, hzero, Nat.zero_add] at h1
    rw [← hdue, hzero, Nat.zero_add] at h2
    cases htotal : lpodAdd c.principalLocked c.principalReturned with
    | error err =>
      rw [htotal] at h
      cases h
    | ok total =>
      rw [htotal] at h
      obtain ⟨hdep, hlock, hliab⟩ : total = c.principalDeposited ∧ sums.1 = c.principalLocked ∧
          (c.allocation.isSome → sums.2 = c.state.unfundedLiability) := by
        simpa only [failIf_eq_ok, not_or, not_not, not_and] using h
      rw [lpodAdd_eq_ok] at htotal
      refine ⟨?_, ?_, ?_, ?_, ?_, ?_⟩
      · rw [failIf_eq_ok] at hcap
        omega
      · intro id p hget
        exact hcanon (id, p) ((hvisit.2 id p).mpr hget)
      · rw [lockedPrincipal, ← h1, hlock]
      · rw [← hdep, htotal]
      · show c.positions.total (fun p => p.due.toNat) < 2 ^ 64
        rw [← h2]
        exact sums.2.toNat_lt
      · intro ha
        rw [liability, ← h2, hliab ha]
  · intro hv
    have htotal : lpodAdd c.principalLocked c.principalReturned = .ok c.principalDeposited :=
      lpodAdd_eq_ok.mpr hv.deposited.symm
    have hsums : o.forRange c.positions c.checkPosition (0, 0) =
        .ok (c.principalLocked, UInt64.ofNat (liability c.positions)) := by
      refine checkPositions_eq_ok.mpr ⟨?_, ?_, ?_⟩
      · rintro ⟨id, p⟩ he
        exact hv.canonical id p ((hvisit.2 id p).mp he)
      · show c.principalLocked.toNat = (0 : UInt64).toNat + _
        rw [← hlocked, hzero, Nat.zero_add]
        exact hv.locked.symm
      · show (UInt64.ofNat (liability c.positions)).toNat = (0 : UInt64).toNat + _
        rw [← hdue, hzero, Nat.zero_add, UInt64.toNat_ofNat_of_lt' hv.liability_lt]
        rfl
    refine pass ?_ <| bind_ok hsums ?_
    · rw [failIf_eq_ok]
      exact not_lt.mpr hv.capacity
    · rw [htotal]
      simp only [failIf_eq_ok, not_or, not_not, not_and, true_and]
      intro ha
      rw [hv.liability_eq ha, UInt64.ofNat_toNat]

theorem validatePositions_order (h : c.validatePositions o = .ok ()) :
    c.validatePositions o' = .ok () :=
  validatePositions_eq_ok.mpr (validatePositions_eq_ok.mp h)

/-! ### Loops whose iterations can be exchanged -/

theorem addOpen_exchange {q : Position} {m m1 m2 : Tally} (h : addOpen p m = .ok m1)
    (h' : addOpen q m1 = .ok m2) : ∃ m3, addOpen q m = .ok m3 ∧ addOpen p m3 = .ok m2 := by
  unfold addOpen at *
  by_cases hp : p.unlockHeight = 0
  · by_cases hq : q.unlockHeight = 0
    · simp only [if_pos hp, if_pos hq] at *
      exact addAmount_exchange h h'
    · rw [if_neg hq] at h'
      cases h'
      exact ⟨m, if_neg hq, h⟩
  · rw [if_neg hp] at h
    cases h
    exact ⟨m2, h', by rw [if_neg hp]⟩

theorem carryOver_exchange (hne : k ≠ k') :
    Exchange (fun (e : Bytes × Position) => carryOver e.1 e.2) (k, p) (k', p') := by
  intro s s1 s2 h h'
  dsimp only at h h' ⊢
  unfold carryOver at *
  by_cases hp : p.returned = true ∧ p.due = 0
  · rw [if_pos hp] at h
    cases h
    exact ⟨s2, h', by rw [if_pos hp]⟩
  · by_cases hp' : p'.returned = true ∧ p'.due = 0
    · rw [if_pos hp'] at h'
      cases h'
      exact ⟨s, if_pos hp', h⟩
    · simp only [if_neg hp, if_neg hp'] at *
      obtain ⟨m1, hm1, h⟩ := unbind h
      cases h
      obtain ⟨m2, hm2, h'⟩ := unbind h'
      cases h'
      obtain ⟨m3, hm3, hm3'⟩ := addOpen_exchange hm1 hm2
      refine ⟨_, bind_ok hm3 rfl, bind_ok hm3' ?_⟩
      rw [set_comm fun heq => absurd heq.symm hne, set_comm fun _ => rfl,
        set_comm fun heq => absurd heq.symm hne]

theorem accrue_exchange {totals : Tally} (hne : k ≠ k') :
    Exchange (fun (e : Bytes × Position) => accrue r totals elapsed e.1 e.2) (k, p) (k', p') := by
  intro s s1 s2 h h'
  obtain ⟨arrears1, ha1, h⟩ := unbind h
  obtain ⟨arrears2, ha2, h'⟩ := unbind h'
  -- the arrears and the accrual of the vaults are exchanged separately
  have hs1 : s1.arrears = arrears1 := by
    dsimp only at h
    split_ifs at h
    · cases h
      rfl
    · obtain ⟨e, -, h⟩ := unbind h
      obtain ⟨accrual, -, h⟩ := unbind h
      cases h
      rfl
  rw [hs1] at ha2
  obtain ⟨arrears3, ha3, ha3'⟩ := addAmount_exchange ha1 ha2
  by_cases hp : p.unlockHeight ≠ 0 ∨ ¬ (r.accrualStake p.vaultID).active = true
  · rw [if_pos hp] at h
    cases h
    by_cases hp' : p'.unlockHeight ≠ 0 ∨ ¬ (r.accrualStake p'.vaultID).active = true
    · rw [if_pos hp'] at h'
      cases h'
      refine ⟨_, bind_ok ha3 (if_pos hp'), bind_ok ha3' ?_⟩
      exact if_pos hp
    · rw [if_neg hp'] at h'
      obtain ⟨e, he, h'⟩ := unbind h'
      obtain ⟨accrual, hacc, h'⟩ := unbind h'
      cases h'
      refine ⟨{ positions := s.positions.set k' e.2, accrual, arrears := arrears3 },
        bind_ok ha3 ?_, bind_ok ha3' (if_pos hp)⟩
      rw [if_neg hp']
      exact bind_ok he <| bind_ok hacc rfl
  · rw [if_neg hp] at h
    obtain ⟨e, he, h⟩ := unbind h
    obtain ⟨accrual1, hacc1, h⟩ := unbind h
    cases h
    by_cases hp' : p'.unlockHeight ≠ 0 ∨ ¬ (r.accrualStake p'.vaultID).active = true
    · rw [if_pos hp'] at h'
      cases h'
      refine ⟨_, bind_ok ha3 (if_pos hp'), bind_ok ha3' ?_⟩
      rw [if_neg hp]
      exact bind_ok he <| bind_ok hacc1 rfl
    · rw [if_neg hp'] at h'
      obtain ⟨e', he', h'⟩ := unbind h'
      obtain ⟨accrual2, hacc2, h'⟩ := unbind h'
      cases h'
      obtain ⟨accrual3, hacc3, hacc3'⟩ := addAmount_exchange hacc1 hacc2
      refine ⟨{ positions := s.positions.set k' e'.2, accrual := accrual3, arrears := arrears3 },
        bind_ok ha3 ?_, bind_ok ha3' ?_⟩
      · dsimp only
        rw [if_neg hp']
        exact bind_ok he' <| bind_ok hacc3 rfl
      · dsimp only
        rw [if_neg hp]
        refine bind_ok he <| bind_ok hacc3' ?_
        rw [set_comm fun heq => absurd heq.symm hne]

theorem sourceTotal_exchange {n' : UInt64} (hne : k ≠ k') :
    Exchange (fun (e : Bytes × UInt64) => sourceTotal r e.1 e.2) (k, n) (k', n') := by
  intro s s1 s2 h h'
  obtain ⟨t, ht, h⟩ := unbind h
  cases h
  obtain ⟨t', ht', h'⟩ := unbind h'
  cases h'
  refine ⟨s.set k' t', bind_ok ht' rfl, bind_ok ht ?_⟩
  rw [set_comm fun heq => absurd heq.symm hne]

/-! ### The ranking -/

/-- The larger total comes first; equal totals are ordered by identity. -/
theorem before_eq_false {a b : VaultRank} : a.before b = false ↔
    a.totalStake.toNat < b.totalStake.toNat ∨
      (a.totalStake.toNat = b.totalStake.toNat ∧ less a.id b.id = false) := by
  unfold VaultRank.before
  split_ifs with hne
  · rw [decide_eq_false_iff_not, UInt64.lt_iff_toNat_lt]
    have hne : a.totalStake.toNat ≠ b.totalStake.toNat := fun h => hne (UInt64.toNat_inj.mp h)
    omega
  · have heq : a.totalStake.toNat = b.totalStake.toNat := by rw [not_not.mp hne]
    simp [heq]

theorem before_weakOrder : WeakOrder VaultRank.before where
  trans {a b c} hab hbc := by
    rw [before_eq_false] at *
    rcases hab with hab | ⟨hab, hid⟩
    · left
      rcases hbc with hbc | ⟨hbc, -⟩
      · omega
      · omega
    · rcases hbc with hbc | ⟨hbc, hid'⟩
      · left
        omega
      · exact Or.inr ⟨by omega, less_weakOrder.trans hid hid'⟩
  total a b := by
    rw [before_eq_false, before_eq_false]
    have hids := less_weakOrder.total a.id b.id
    rcases Nat.lt_trichotomy a.totalStake.toNat b.totalStake.toNat with hlt | heq | hgt
    · exact Or.inr (Or.inl hlt)
    · exact hids.imp (fun h => Or.inr ⟨heq.symm, h⟩) fun h => Or.inr ⟨heq, h⟩
    · exact Or.inl (Or.inl hgt)

theorem rankVault_id {guardians : Tally} {stake : ValidatorStake} {v : VaultRank}
    (h : rankVault guardians id stake = some v) : v.id = id := by
  unfold rankVault at h
  split_ifs at h
  split at h
  · cases h
  · cases h
    rfl

/-- The ranking has no ties, so every order of the stake table gives the same. -/
theorem lpodEligibleVaults_order (stakes : StakeTable) (guardians : Tally) :
    lpodEligibleVaults o stakes guardians = lpodEligibleVaults o' stakes guardians := by
  have hp := enumerations_perm (o.visit_mem stakes) (o'.visit_mem stakes)
  unfold lpodEligibleVaults
  congr 1
  refine sortSlice_eq_of_perm_of_mem before_weakOrder ?_ (hp.filterMap _)
  intro a ha b hb hab hba
  obtain ⟨⟨i, x⟩, hx, hax⟩ := List.mem_filterMap.mp ha
  obtain ⟨⟨j, y⟩, hy, hby⟩ := List.mem_filterMap.mp hb
  -- both compare as not before the other, so they have one identity, and so one entry
  have hid : a.id = b.id := by
    rw [before_eq_false] at hab hba
    have hab : less a.id b.id = false := by
      rcases hab with h | ⟨-, h⟩
      · exact absurd hba (by omega)
      · exact h
    have hba : less b.id a.id = false := by
      rcases hba with h | ⟨-, h⟩
      · omega
      · exact h
    exact eq_of_not_less hab hba
  rw [rankVault_id hax, rankVault_id hby] at hid
  subst hid
  have hget := ((o.visit_mem stakes).2 i x).mp hx
  rw [((o.visit_mem stakes).2 i y).mp hy] at hget
  cases hget
  exact Option.some.inj (hax.symm.trans hby)

/-! ### The transition and the preview -/

theorem routePositions_order {w w' : Working} (h : routePositions o height r w = .ok w') :
    routePositions o' height r w = .ok w' := by
  obtain ⟨sourceBefore, hsource, h⟩ := unbind h
  refine bind_eq_ok.mpr ⟨sourceBefore, ?_, ?_⟩
  · exact RangeOrder.forRange_order (fun _ _ _ _ => sourceTotal_exchange) o o' hsource
  · have heligible : lpodEligibleVaults o' r.stake w.totals = lpodEligibleVaults o r.stake w.totals :=
      lpodEligibleVaults_order r.stake w.totals
    rw [heligible]
    exact h

theorem transitionPositions_order {a : Allocation} {t : Transition}
    (h : transitionPositions C o before a height elapsed r = .ok t) :
    transitionPositions C o' before a height elapsed r = .ok t := by
  obtain ⟨kept, hkept, h⟩ := unbind h
  obtain ⟨accrued, haccrued, h⟩ := unbind h
  obtain ⟨w, hw, h⟩ := unbind h
  obtain ⟨w', hw', h⟩ := unbind h
  obtain ⟨prior, hprior, h⟩ := unbind h
  refine bind_eq_ok.mpr ⟨kept, ?_, bind_eq_ok.mpr ⟨accrued, ?_, bind_ok hw <|
    bind_ok (routePositions_order hw') (bind_eq_ok.mpr ⟨prior, ?_, h⟩)⟩⟩
  · exact RangeOrder.forRange_order (fun _ _ _ _ => carryOver_exchange) o o' hkept
  · exact RangeOrder.forRange_order (fun _ _ _ _ => accrue_exchange) o o' haccrued
  · refine RangeOrder.forRange_order (fun _ _ _ _ _ => ?_) o o' hprior
    exact fun _ _ _ h1 h2 => addOpen_exchange h1 h2

theorem positionTransition_eq_ok {t : Transition} :
    d.positionTransition C o before height r = .ok t ↔ ∃ a elapsed, before.allocation = some a ∧
      before.validatePositions o = .ok () ∧ accrualElapsed C d height r = .ok elapsed ∧
      transitionPositions C o before a height elapsed r = .ok t := by
  unfold DB.positionTransition
  cases before.allocation with
  | none => simp
  | some a =>
    simp only [bind_eq_ok, Option.some.injEq, exists_and_left, exists_eq_left', Unique.exists_iff]

theorem positionTransition_order {t : Transition}
    (h : d.positionTransition C o before height r = .ok t) :
    d.positionTransition C o' before height r = .ok t := by
  obtain ⟨a, elapsed, ha, hvalid, helapsed, h⟩ := positionTransition_eq_ok.mp h
  exact positionTransition_eq_ok.mpr
    ⟨a, elapsed, ha, validatePositions_order hvalid, helapsed, transitionPositions_order h⟩

theorem previewPositions_order {p : Checkpoint × List Payment}
    (h : d.previewPositions C K o before height r = .ok p) :
    d.previewPositions C K o' before height r = .ok p := by
  obtain ⟨t, ht, h⟩ := unbind h
  obtain ⟨settled, hsettled, h⟩ := unbind h
  obtain ⟨allocation, hallocation, h⟩ := unbind h
  obtain ⟨positions, hpositions, h⟩ := unbind h
  obtain ⟨⟨⟩, hvalid, h⟩ := unbind h
  exact bind_ok (positionTransition_order ht) <| bind_ok hsettled <|
    bind_ok hallocation <| bind_ok hpositions <|
    pass (validatePositions_order hvalid) h

end Aperod.Lpod
