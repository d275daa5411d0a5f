import Aperod.Go.Entries
import Aperod.Lpod.Equiv.Order

/-!
# What the transition does to each position

What comes out of `positionTransition`, position by position:

* a position that is closed and owed nothing is dropped (`carryOver_kept`);
* the others may earn, and what the vaults are told to be due is the sum of it (`Accrued`);
* a deposit opens a position, and nothing else does; a withdrawal, a refund or a move changes one, and
  what it takes of the principal is booked as returned (`Change`, `Evolved`).

`Transitioned` has these together.
-/

namespace Aperod.Lpod

open Go GoMap

variable {C : Externals} {o : RangeOrder} {r : Settlement} {height : UInt64}
variable {v : Bytes} {sourceBefore totals : Tally} {genesis : Hash32} {returned : UInt64}
  {kept m n : Positions} {before : Checkpoint} {eligible : List Bytes} {t : Transition}
  {done : Finset Bytes}

/-! ### Positions that are kept -/

/-- A closed position that is owed nothing is not live. -/
def Position.live (p : Position) : Bool := !(p.returned && decide (p.due = 0))

variable {p : Position} {elapsed : UInt64} {vaultOf : GoMap Bytes Bytes} {id : Bytes}
  {accrued : Positions} {w w' : Working} {a : LPoDPositionAction}

theorem Position.live_eq_false : p.live = false ↔ p.returned = true ∧ p.due = 0 := by
  unfold Position.live
  rw [Bool.not_eq_false', Bool.and_eq_true, decide_eq_true_eq]

/-- The loop keeps the live positions, and each is paid through the vault it is in. -/
theorem carryOver_kept {positions : Positions} {vaultIDs : GoMap Bytes Bool} {kept : Carried}
    (h : o.forRange positions carryOver { vaultIDs := vaultIDs } = .ok kept) (id : Bytes) :
    kept.positions.get id = (positions.get id).filter Position.live ∧
      kept.entitlementVault.get id = (kept.positions.get id).map Position.vaultID := by
  have key := RangeOrder.forRange_keys (fun done (s : Carried) => ∀ id,
    s.positions.get id = (if id ∈ done then (positions.get id).filter Position.live else none) ∧
      s.entitlementVault.get id = (s.positions.get id).map Position.vaultID) ?_ h ?_
  · obtain ⟨hget, hvault⟩ := key id
    refine ⟨?_, hvault⟩
    rw [hget]
    split_ifs with hmem
    · rfl
    · rw [get_eq_none_iff.mpr hmem]
      rfl
  · intro done k p s s' hnew hk hI hstep j
    obtain ⟨hget, hvault⟩ := hI j
    unfold carryOver at hstep
    split_ifs at hstep with hclosed
    · cases hstep
      refine ⟨?_, hvault⟩
      rw [hget]
      by_cases hj : j = k
      · rw [if_neg (hj ▸ hnew), if_pos (hj ▸ Finset.mem_insert_self _ _), hj, hk, Option.filter_some,
          Position.live_eq_false.mpr hclosed]
        rfl
      · simp only [Finset.mem_insert, hj, false_or]
    · obtain ⟨totals, -, hstep⟩ := unbind hstep
      cases hstep
      by_cases hj : j = k
      · have hlive : p.live = true := by
          by_contra hnot
          exact hclosed (Position.live_eq_false.mp (Bool.eq_false_iff.mpr hnot))
        rw [hj]
        rw [get_set_self, get_set_self, if_pos (Finset.mem_insert_self _ _), hk,
          Option.filter_some, hlive]
        exact ⟨rfl, rfl⟩
      · dsimp only
        rw [get_set_ne hj, get_set_ne hj]
        simp only [Finset.mem_insert, hj, false_or]
        exact ⟨hget, hvault⟩
  · intro id
    refine ⟨?_, ?_⟩
    · exact get_empty id
    · show (∅ : GoMap Bytes Bytes).get id = ((∅ : Positions).get id).map Position.vaultID
      rfl

/-! ### Accrual -/

/-- The position may have earned something. -/
def Position.Earns (p q : Position) : Prop :=
  ∃ carry due, p.due.toNat ≤ due.toNat ∧ q = { p with aprCarry := carry, due := due }

theorem Position.Earns.refl (p : Position) : p.Earns p := ⟨p.aprCarry, p.due, le_rfl, rfl⟩

theorem earn_earns {stake : ValidatorStake} {guardians q : UInt64} {p' : Position}
    (h : earn stake guardians elapsed p = .ok (q, p')) :
    p.Earns p' ∧ p'.due.toNat = p.due.toNat + q.toNat := by
  obtain ⟨total, -, h⟩ := unbind h
  obtain ⟨tier, -, h⟩ := unbind h
  replace h := past h
  obtain ⟨due, hdue, h⟩ := unbind h
  cases h
  rw [lpodAdd_eq_ok] at hdue
  exact ⟨⟨_, due, by omega, rfl⟩, hdue⟩

/-- What is due through a vault to some positions. -/
def dueVia (vaultOf : GoMap Bytes Bytes) (m : Positions) (v : Bytes) (ids : Finset Bytes) : ℕ :=
  ∑ id ∈ ids, if vaultOf.get id = some v then m.entry (·.due.toNat) id else 0

theorem dueVia_congr {ids : Finset Bytes}
    (h : ∀ id ∈ ids, vaultOf.get id = some v → m.get id = n.get id) :
    dueVia vaultOf m v ids = dueVia vaultOf n v ids := by
  refine Finset.sum_congr rfl fun id hid => ?_
  split_ifs with hv
  · unfold entry
    rw [h id hid hv]
  · rfl

/-- What the accrual loop has done after some positions. -/
structure Accrued (kept : Positions) (vaultOf : GoMap Bytes Bytes) (done : Finset Bytes)
    (s : Accruing) : Prop where
  earns : GoMap.Rel Position.Earns kept s.positions
  /-- The vaults are told what the positions were and are newly due. -/
  due : ∀ v, (s.arrears.amount v).toNat + (s.accrual.amount v).toNat =
    dueVia vaultOf s.positions v done
  /-- The positions that are still to come are as they were. -/
  rest : ∀ id ∉ done, s.positions.get id = kept.get id

theorem dueVia_insert (hnew : id ∉ done)
    (hp : n.get id = some p) (hsame : ∀ j, j ≠ id → n.get j = m.get j) :
    dueVia vaultOf n v (insert id done) =
      dueVia vaultOf m v done + if vaultOf.get id = some v then p.due.toNat else 0 := by
  have hold : dueVia vaultOf n v done = dueVia vaultOf m v done := by
    refine dueVia_congr fun j hj _ => hsame j ?_
    rintro rfl
    exact hnew hj
  unfold dueVia at *
  rw [Finset.sum_insert hnew, entry_some hp, hold, Nat.add_comm]

theorem Accrued.step {s s' : Accruing}
    (hI : Accrued kept vaultOf done s) (hnew : id ∉ done) (hp : kept.get id = some p)
    (hvault : vaultOf.get id = some p.vaultID) (h : accrue r totals elapsed id p s = .ok s') :
    Accrued kept vaultOf (insert id done) s' := by
  have hold : s.positions.get id = some p := (hI.rest id hnew).trans hp
  obtain ⟨arrears, harrears, h⟩ := unbind h
  have hvia : ∀ v, (vaultOf.get id = some v) = (p.vaultID = v) := fun v => by
    rw [hvault, Option.some.injEq]
  dsimp only at h
  split_ifs at h with hidle
  · cases h
    refine ⟨hI.earns, fun v => ?_, fun j hj => hI.rest j fun h => hj (Finset.mem_insert_of_mem h)⟩
    have hdue := hI.due v
    have hone := toNat_amount_addAmount harrears v
    rw [dueVia_insert hnew hold fun _ _ => rfl]
    simp only [hvia]
    omega
  · obtain ⟨⟨q, p'⟩, hearn, h⟩ := unbind h
    obtain ⟨accrual, haccrual, h⟩ := unbind h
    cases h
    obtain ⟨hearns, hp'⟩ := earn_earns hearn
    refine ⟨hI.earns.set_right hp hearns, fun v => ?_, fun j hj => ?_⟩
    · have hdue := hI.due v
      have hone := toNat_amount_addAmount harrears v
      have htwo := toNat_amount_addAmount haccrual v
      dsimp only at htwo ⊢
      rw [dueVia_insert hnew (get_set_self _ _ _) fun j hj => get_set_ne hj]
      simp only [hvia]
      split_ifs at * <;> omega
    · rw [Finset.mem_insert, not_or] at hj
      rw [get_set_ne hj.1]
      exact hI.rest j hj.2

theorem accrue_accrued {s : Accruing}
    (hvault : ∀ id p, kept.get id = some p → vaultOf.get id = some p.vaultID)
    (h : o.forRange kept (accrue r totals elapsed) { positions := kept } = .ok s) :
    Accrued kept vaultOf kept.keys s := by
  refine RangeOrder.forRange_keys (Accrued kept vaultOf) ?_ h ?_
  · intro done id p s s' hnew hp hI hstep
    exact hI.step hnew hp (hvault id p hp) hstep
  · refine ⟨GoMap.Rel.refl Position.Earns.refl kept, fun v => ?_, fun _ _ => rfl⟩
    show ((∅ : Tally).amount v).toNat + ((∅ : Tally).amount v).toNat = ∑ id ∈ ∅, _
    rfl

/-! ### Changes of one position -/

/-- The deposit a transaction makes, if it makes one. -/
def depositOf (C : Externals) (tx : Transaction) : Option LPoDPositionAction :=
  if tx.isLPoDPosition then
    (tx.lpodPositionAction C).toOption.filter fun a => a.action = lpodDeposit
  else none

/-- The amounts deposited under an identity. -/
def depositedUnder (id : Bytes) (as : List LPoDPositionAction) : ℕ :=
  (as.map fun a => if positionID a = id then a.amount.toNat else 0).sum

/-- What is withdrawn of a position does not exceed its deposit. -/
def Position.Sane (p : Position) : Prop := p.withdrawn.toNat ≤ p.deposit.amount.toNat

theorem Position.Sane.remaining (h : p.Sane) :
    p.remaining.toNat = p.deposit.amount.toNat - p.withdrawn.toNat := toNat_sub h

/-- The same deposit later: more of it may be withdrawn, and what is due is untouched. -/
structure Position.Grows (p q : Position) : Prop where
  deposit : q.deposit = p.deposit
  due : q.due = p.due
  withdrawn : p.withdrawn.toNat ≤ q.withdrawn.toNat
  sane : q.Sane

/-- What one step does to the positions and to the principal that was returned: nothing, or it opens a
position with a deposit, or it changes one and books what it takes of the principal. -/
inductive Change : Option LPoDPositionAction → Positions × UInt64 → Positions × UInt64 → Prop
  | keep (s : Positions × UInt64) : Change none s s
  | opened {m : Positions} {returned : UInt64} {a : LPoDPositionAction} :
      m.get (positionID a) = none →
      Change (some a) (m, returned) (m.set (positionID a) { deposit := a }, returned)
  | changed {m : Positions} {returned returned' : UInt64} {id : Bytes} {p q : Position} :
      m.get id = some p → p.Grows q →
      returned'.toNat + p.withdrawn.toNat = returned.toNat + q.withdrawn.toNat →
      Change none (m, returned) (m.set id q, returned')

/-- What the steps since the accrual have done, with the deposits among them. -/
structure Evolved (accrued : Positions) (returned : UInt64) (deposits : List LPoDPositionAction)
    (s : Positions × UInt64) : Prop where
  sane : s.1.All fun _ p => p.Sane
  old : ∀ id p, accrued.get id = some p → ∃ q, s.1.get id = some q ∧ p.Grows q
  /-- A position that was opened since is owed nothing yet. -/
  new : ∀ id q, accrued.get id = none → s.1.get id = some q → q.due = 0
  total : s.1.total (·.withdrawn.toNat) + returned.toNat =
    accrued.total (·.withdrawn.toNat) + s.2.toNat
  amount : ∀ id, s.1.entry (·.deposit.amount.toNat) id =
    accrued.entry (·.deposit.amount.toNat) id + depositedUnder id deposits

theorem Evolved.start (h : accrued.All fun _ p => p.Sane) (returned : UInt64) :
    Evolved accrued returned [] (accrued, returned) where
  sane := h
  old id p hp := ⟨p, hp, rfl, rfl, le_rfl, h id p hp⟩
  new id q hnone hq := by
    rw [hnone] at hq
    cases hq
  total := rfl
  amount id := rfl

theorem Evolved.step {deposits : List LPoDPositionAction}
    {a : Option LPoDPositionAction} {s s' : Positions × UInt64}
    (h : Evolved accrued returned deposits s) (hstep : Change a s s') :
    Evolved accrued returned (deposits ++ a.toList) s' := by
  cases hstep with
  | keep =>
    rw [Option.toList_none, List.append_nil]
    exact h
  | @opened m pr a hnone =>
    -- the identity is free, so it is none of the old positions
    have hfresh : accrued.get (positionID a) = none := by
      by_contra hne
      obtain ⟨p, hp⟩ := Option.ne_none_iff_exists'.mp hne
      obtain ⟨q, hq, -⟩ := h.old _ p hp
      rw [hnone] at hq
      cases hq
    refine ⟨h.sane.set (Nat.zero_le _), fun id p hp => ?_, fun id q hold hq => ?_, ?_, fun id => ?_⟩
    · have hne : id ≠ positionID a := by
        rintro rfl
        rw [hfresh] at hp
        cases hp
      obtain ⟨q, hq, hgrows⟩ := h.old id p hp
      exact ⟨q, (get_set_ne hne).trans hq, hgrows⟩
    · dsimp only at hq
      rw [get_set] at hq
      split_ifs at hq
      · cases hq
        rfl
      · exact h.new id q hold hq
    · have htotal := h.total
      rw [total_set hnone]
      exact htotal
    · have hamount := h.amount id
      have hsum : depositedUnder id (deposits ++ [a]) =
          depositedUnder id deposits + if positionID a = id then a.amount.toNat else 0 := by
        simp [depositedUnder]
      rw [Option.toList_some, hsum]
      by_cases hid : id = positionID a
      · subst hid
        rw [entry_none hnone] at hamount
        rw [entry_set_self, if_pos rfl]
        dsimp only
        omega
      · rw [entry_set_ne hid, if_neg (Ne.symm hid)]
        exact hamount
  | @changed m pr pr' id p q hp hgrows hbooked =>
    refine ⟨h.sane.set hgrows.sane, fun j x hx => ?_, fun j y hold hy => ?_, ?_, fun j => ?_⟩
    · obtain ⟨y, hy, hxy⟩ := h.old j x hx
      by_cases hj : j = id
      · subst hj
        rw [hp] at hy
        cases hy
        exact ⟨q, get_set_self _ _ _, hgrows.deposit.trans hxy.deposit,
          hgrows.due.trans hxy.due, hxy.withdrawn.trans hgrows.withdrawn, hgrows.sane⟩
      · exact ⟨y, (get_set_ne hj).trans hy, hxy⟩
    · dsimp only at hy
      rw [get_set] at hy
      split_ifs at hy with hj
      · cases hy
        rw [hgrows.due]
        exact h.new id p (hj ▸ hold) hp
      · exact h.new j y hold hy
    · have htotal := h.total
      have hrep := total_replace (f := fun x : Position => x.withdrawn.toNat) (w := q) hp
      dsimp only at htotal hrep ⊢
      omega
    · have hamount := h.amount j
      rw [Option.toList_none, List.append_nil, ← hamount]
      by_cases hj : j = id
      · subst hj
        rw [entry_set_self, entry_some hp, hgrows.deposit]
      · exact entry_set_ne hj

/-! ### The steps of the transition -/

/-- The part of the running state that `Change` is about. -/
def Working.books (w : Working) : Positions × UInt64 := (w.positions, w.principalReturned)

theorem deposit_change (h : w.deposit r a = .ok w') : Change (some a) w.books w'.books := by
  obtain ⟨⟨⟩, hfree, h⟩ := unbind h
  replace h := past h
  obtain ⟨total, -, h⟩ := unbind h
  obtain ⟨total', -, h⟩ := unbind h
  replace h := past h
  obtain ⟨deposited, -, h⟩ := unbind h
  obtain ⟨locked, -, h⟩ := unbind h
  obtain ⟨totals, -, h⟩ := unbind h
  cases h
  rw [failIf_eq_ok, not_or, Bool.not_eq_true, has_eq_false] at hfree
  exact .opened hfree.1

theorem withdrawalAmount_le {amount : UInt64} (h : withdrawalAmount p a = .ok amount) :
    amount.toNat ≤ p.remaining.toNat := by
  replace h := past h
  replace h := past h
  obtain ⟨⟨⟩, hle, h⟩ := unbind h
  cases h
  rw [failIf_eq_ok, gt_iff_lt, UInt64.lt_iff_toNat_lt, not_lt] at hle
  exact hle

theorem withdraw_change (hsane : w.positions.All fun _ p => p.Sane)
    (h : w.withdraw height a = .ok w') :
    Change none w.books w'.books := by
  unfold Working.withdraw at h
  cases hp : w.positions.get (positionID a) with
  | none =>
    rw [hp] at h
    cases h
  | some p =>
    rw [hp] at h
    obtain ⟨amount, hamount, h⟩ := unbind h
    obtain ⟨returned, hreturned, h⟩ := unbind h
    cases h
    have hp' : p.Sane := hsane _ p hp
    have hle := withdrawalAmount_le hamount
    have hdep := p.deposit.amount.toNat_lt
    rw [hp'.remaining] at hle
    rw [lpodAdd_eq_ok] at hreturned
    unfold Position.Sane at hp'
    have hsum : (p.withdraw amount height).withdrawn.toNat = p.withdrawn.toNat + amount.toNat := by
      show (p.withdrawn + amount).toNat = _
      rw [UInt64.toNat_add]
      omega
    refine .changed hp ⟨rfl, rfl, by omega, ?_⟩ ?_
    · show (p.withdraw amount height).withdrawn.toNat ≤ p.deposit.amount.toNat
      omega
    · show returned.toNat + p.withdrawn.toNat = w.principalReturned.toNat + _
      omega

theorem applyOperation_change {tx : Transaction}
    (hsane : w.positions.All fun _ p => p.Sane)
    (h : applyOperation C genesis height r tx w = .ok w') :
    Change (depositOf C tx) w.books w'.books := by
  unfold applyOperation at h
  unfold depositOf
  split_ifs at h with hpos
  · rw [if_pos hpos]
    obtain ⟨a, ha, h⟩ := unbind h
    replace h := past h
    rw [ha]
    show Change ((some a).filter fun a => decide (a.action = lpodDeposit)) w.books w'.books
    rw [Option.filter_some]
    split_ifs at h with hdeposit hwithdraw
    · rw [hdeposit, decide_eq_true rfl]
      exact deposit_change h
    · rw [decide_eq_false hdeposit]
      exact withdraw_change hsane h
    · cases h
      rw [decide_eq_false hdeposit]
      exact .keep _
  · cases h
    rw [if_neg hpos]
    exact .keep _

theorem route_withdrawn (p : Position) (destination : Point32) (height : UInt64) :
    (p.route destination height).deposit = p.deposit ∧ (p.route destination height).due = p.due ∧
      (p.route destination height).withdrawn = p.withdrawn := by
  unfold Position.route
  split_ifs
  · exact ⟨rfl, rfl, rfl⟩
  · exact ⟨rfl, rfl, rfl⟩

theorem reassign_change (hp : w.positions.get id = some p) (hsane : p.Sane)
    (h : w.reassign height r sourceBefore eligible id p = .ok w') :
    Change none w.books w'.books := by
  obtain ⟨best, -, h⟩ := unbind h
  split_ifs at h with hbest
  · obtain ⟨returned, hreturned, h⟩ := unbind h
    cases h
    rw [lpodAdd_eq_ok, hsane.remaining] at hreturned
    unfold Position.Sane at hsane
    refine .changed hp ⟨rfl, rfl, hsane, le_rfl⟩ ?_
    show returned.toNat + p.withdrawn.toNat = w.principalReturned.toNat + p.deposit.amount.toNat
    omega
  · replace h := past h
    obtain ⟨totals, -, h⟩ := unbind h
    cases h
    obtain ⟨hdeposit, hdue, hwithdrawn⟩ := route_withdrawn p (bytesArray 32 best) height
    refine .changed hp ⟨hdeposit, hdue, hwithdrawn ▸ le_rfl, ?_⟩ (by rw [hwithdrawn])
    unfold Position.Sane
    rw [hwithdrawn, hdeposit]
    exact hsane

theorem routePosition_change (hsane : w.positions.All fun _ p => p.Sane)
    (h : routePosition height r sourceBefore eligible id w = .ok w') :
    Change none w.books w'.books := by
  unfold routePosition at h
  cases hp : w.positions.get id with
  | none =>
    rw [hp] at h
    cases h
    exact .keep _
  | some p =>
    rw [hp] at h
    dsimp only at h
    split_ifs at h
    · cases h
      exact .keep _
    · exact reassign_change hp (hsane id p hp) h

/-- The deposits of a block. -/
def Settlement.deposits (C : Externals) (r : Settlement) : List LPoDPositionAction :=
  r.transactions.filterMap (depositOf C)

theorem applyOperations_evolved (hsane : w.positions.All fun _ p => p.Sane)
    (h : loop (fun _ => applyOperation C genesis height r) 0 r.transactions w = .ok w') :
    Evolved w.positions w.principalReturned (r.deposits C) w'.books := by
  refine loop_past (fun past (x : Working) => Evolved w.positions w.principalReturned
    (past.filterMap (depositOf C)) x.books) ?_ h (Evolved.start hsane _)
  intro past i tx x x' _ hI hx
  have hstep := hI.step (applyOperation_change hI.sane hx)
  rw [List.filterMap_append]
  exact hstep

theorem routePositions_evolved {deposits : List LPoDPositionAction}
    (hI : Evolved accrued returned deposits w.books) (h : routePositions o height r w = .ok w') :
    Evolved accrued returned deposits w'.books := by
  obtain ⟨sourceBefore, -, h⟩ := unbind h
  refine loop_invariant (fun x : Working => Evolved accrued returned deposits x.books) ?_ h hI
  intro i id x x' _ hI hx
  have hstep := hI.step (routePosition_change hI.sane hx)
  rwa [Option.toList_none, List.append_nil] at hstep

/-! ### The transition -/

/-- What the transition of a checkpoint gives; `accrued` are its live positions with what they earned. -/
structure Transitioned (C : Externals) (before : Checkpoint) (r : Settlement) (accrued : Positions)
    (t : Transition) : Prop where
  earns : GoMap.Rel Position.Earns (before.positions.filter fun _ p => p.live) accrued
  vaultOf : ∀ id, t.entitlementVault.get id = (accrued.get id).map Position.vaultID
  evolved : Evolved accrued before.principalReturned (r.deposits C)
    (t.next.positions, t.next.principalReturned)
  /-- The vaults are told what is due through them. -/
  due : ∀ v ∈ t.vaults, ∃ accrual, v.exactAccrual = some accrual ∧
    v.arrears.toNat + accrual.toNat = dueVia t.entitlementVault accrued v.id accrued.keys
  income : ∀ v ∈ t.vaults, v.id ≠ r.proposer → v.actualIncome = 0
  state : t.next.state = before.state
  vesting : t.next.genesisVesting = before.genesisVesting

theorem positionVault_eq_ok {reward : UInt64} {prior accrual arrears : Tally} {v : Vault}
    (h : positionVault r reward prior accrual arrears id = .ok v) :
    v.id = id ∧ v.exactAccrual = some (accrual.amount id) ∧ v.arrears = arrears.amount id ∧
      (id ≠ r.proposer → v.actualIncome = 0) := by
  obtain ⟨total, -, h⟩ := unbind h
  replace h := past h
  cases h
  exact ⟨rfl, rfl, rfl, fun hne => if_neg hne⟩

theorem transitionPositions_transitioned {a : Allocation}
    (hsane : before.positions.All fun _ p => p.Sane)
    (h : transitionPositions C o before a height elapsed r = .ok t) :
    ∃ accrued, Transitioned C before r accrued t := by
  obtain ⟨kept, hkept, h⟩ := unbind h
  obtain ⟨accrued, haccrued, h⟩ := unbind h
  obtain ⟨w, hw, h⟩ := unbind h
  obtain ⟨w', hw', h⟩ := unbind h
  obtain ⟨prior, -, h⟩ := unbind h
  obtain ⟨vaults, hvaults, h⟩ := unbind h
  cases h
  have hlive : kept.positions = before.positions.filter fun _ p => p.live := by
    ext id : 1
    rw [(carryOver_kept hkept id).1, get_filter]
  have hacc : Accrued kept.positions kept.entitlementVault kept.positions.keys accrued := by
    refine accrue_accrued (fun id p hp => ?_) haccrued
    rw [(carryOver_kept hkept id).2, hp]
    rfl
  -- accrual moves neither the vault nor the principal
  have hsane' : accrued.positions.All fun _ p => p.Sane := by
    intro id q hq
    obtain ⟨p, hp, carry, due, -, rfl⟩ := hacc.earns.some_right hq
    rw [hlive, get_filter, Option.filter_eq_some_iff] at hp
    exact hsane id p hp.1
  refine ⟨accrued.positions, hlive ▸ hacc.earns, fun id => ?_, ?_, fun v hv => ?_, fun v hv => ?_,
    rfl, rfl⟩
  · dsimp only
    rw [(carryOver_kept hkept id).2]
    cases hp : kept.positions.get id with
    | none => rw [hacc.earns.none_iff.mp hp]
    | some p =>
      obtain ⟨q, hq, carry, due, -, rfl⟩ := hacc.earns.some hp
      rw [hq]
      rfl
  · exact routePositions_evolved (applyOperations_evolved hsane' hw) hw'
  · obtain ⟨k, id, -, hid⟩ := mapLoop_mem hvaults hv
    obtain ⟨hid, haccrual, harrears, -⟩ := positionVault_eq_ok hid
    refine ⟨_, haccrual, ?_⟩
    rw [harrears, hid, ← hacc.earns.keys_eq]
    exact hacc.due id
  · obtain ⟨k, id, -, hid⟩ := mapLoop_mem hvaults hv
    obtain ⟨rfl, -, -, hincome⟩ := positionVault_eq_ok hid
    exact hincome

theorem positionTransition_transitioned {d : DB}
    (h : d.positionTransition C o before height r = .ok t) :
    before.PositionsValid ∧ ∃ accrued, Transitioned C before r accrued t := by
  obtain ⟨a, elapsed, -, hvalid, -, h⟩ := positionTransition_eq_ok.mp h
  have hvalid := validatePositions_eq_ok.mp hvalid
  refine ⟨hvalid, transitionPositions_transitioned (fun id p hp => ?_) h⟩
  exact UInt64.le_iff_toNat_le.mp (hvalid.canonical id p hp).withdrawn_le

end Aperod.Lpod
