import Aperod.Lpod.Equiv.Reload
import Aperod.Lpod.Equiv.Transition

/-!
# What a preview pays

`previewPositions` settles the vaults and divides the payment of each vault among its positions, in
proportion to what they are due.  No share exceeds what its position is due, and nothing of a payment
is left over (`payPositions_paid`), because a vault is never paid more than it was told to be due.

`PreviewPays` has what a preview does to the positions and to the totals of the ledger.
-/

namespace Aperod.Lpod

open Go GoMap List

variable {C : Externals} {K : Encodings} {o : RangeOrder} {d : DB} {r : Settlement}
  {height : UInt64}

/-! ### Shares -/

section Share

variable {left due x : ℕ}

theorem share_le (h : left ≤ due) : left * x / due ≤ x := by
  rcases Nat.eq_zero_or_pos due with hzero | hpos
  · rw [hzero, Nat.div_zero]
    exact Nat.zero_le _
  · rw [Nat.div_le_iff_le_mul_add_pred hpos]
    have := Nat.mul_le_mul_right x h
    omega

theorem share_le_left (hx : x ≤ due) : left * x / due ≤ left := by
  rw [Nat.mul_comm]
  exact share_le hx

theorem share_rest_le (h : left ≤ due) (hx : x ≤ due) : left - left * x / due ≤ due - x := by
  rcases Nat.eq_zero_or_pos due with hzero | hpos
  · rw [hzero, Nat.le_zero] at h
    rw [h, Nat.zero_sub]
    exact Nat.zero_le _
  obtain ⟨a, rfl⟩ := Nat.exists_eq_add_of_le h
  obtain ⟨b, hb⟩ := Nat.exists_eq_add_of_le hx
  -- (due - left) * (due - x) is not negative
  have hq : left - b ≤ left * x / (left + a) := by
    rw [Nat.le_div_iff_mul_le hpos]
    rcases Nat.le_total left b with hle | hle
    · rw [Nat.sub_eq_zero_of_le hle, Nat.zero_mul]
      exact Nat.zero_le _
    · obtain ⟨e, rfl⟩ := Nat.exists_eq_add_of_le hle
      have hx : x = e + a := by omega
      have hb : e * b ≤ b * (e + a) := by
        rw [Nat.mul_comm]
        exact Nat.mul_le_mul_left b (Nat.le_add_right e a)
      rw [hx, Nat.add_sub_cancel_left, Nat.add_assoc b e a, Nat.mul_add, Nat.add_mul]
      exact Nat.add_le_add_right hb _
  omega

end Share

/-! ### One payment -/

/-- The position is due no more than before, and the same otherwise. -/
def Position.Lowered (q p : Position) : Prop :=
  ∃ due, due.toNat ≤ q.due.toNat ∧ p = { q with due := due }

theorem Position.Lowered.refl (p : Position) : p.Lowered p := ⟨p.due, le_rfl, rfl⟩

theorem Position.Lowered.trans {p q s : Position} (h : p.Lowered q) (h' : q.Lowered s) :
    p.Lowered s := by
  obtain ⟨due, hle, rfl⟩ := h
  obtain ⟨due', hle', rfl⟩ := h'
  exact ⟨due', Nat.le_trans hle' hle, rfl⟩

/-- What is due through a vault to the positions of a slice. -/
def sliceDue (vaultOf : GoMap Bytes Bytes) (m : Positions) (v : Bytes) (ids : List Bytes) : ℕ :=
  (ids.map fun id => if vaultOf.get id = some v then m.entry (·.due.toNat) id else 0).sum

variable {vaultOf : GoMap Bytes Bytes} {m n : Positions} {v : Bytes} {ids : List Bytes}
  {payments : List Payment} {s s' : State} {vs : List Vault}

theorem sliceDue_congr (h : ∀ id ∈ ids, vaultOf.get id = some v → n.get id = m.get id) :
    sliceDue vaultOf n v ids = sliceDue vaultOf m v ids := by
  unfold sliceDue
  congr 1
  refine map_congr_left fun id hid => ?_
  split_ifs with hv
  · unfold entry
    rw [h id hid hv]
  · rfl

/-- A named vault is the vault of a position just if the comparison of the source says so. -/
theorem getD_eq_iff {x : Option Bytes} (hv : v ≠ []) : x.getD [] = v ↔ x = some v := by
  cases x with
  | none => simp [hv.symm]
  | some y => simp

/-- What a payment through a vault does to the positions. -/
structure PaidThrough (vaultOf : GoMap Bytes Bytes) (v : Bytes) (amount : ℕ) (m n : Positions) :
    Prop where
  lowered : GoMap.Rel Position.Lowered m n
  total : n.total (·.due.toNat) + amount = m.total (·.due.toNat)
  others : ∀ id, vaultOf.get id ≠ some v → n.get id = m.get id

theorem PaidThrough.refl (vaultOf : GoMap Bytes Bytes) (v : Bytes) (m : Positions) :
    PaidThrough vaultOf v 0 m m :=
  ⟨GoMap.Rel.refl Position.Lowered.refl m, rfl, fun _ _ => rfl⟩

theorem PaidThrough.trans {a b : ℕ} {l : Positions} (h : PaidThrough vaultOf v a l m)
    (h' : PaidThrough vaultOf v b m n) :
    PaidThrough vaultOf v (a + b) l n where
  lowered := h.lowered.trans h'.lowered fun _ _ _ => Position.Lowered.trans
  total := by
    have h1 := h.total
    have h2 := h'.total
    omega
  others id hid := (h'.others id hid).trans (h.others id hid)

/-- The state of a payout in which what is left is covered by what is due to the positions to come. -/
structure Payout.Covered (vaultOf : GoMap Bytes Bytes) (v : Bytes) (ids : List Bytes) (s : Payout) :
    Prop where
  due : s.due.toNat = sliceDue vaultOf s.positions v ids
  left_le : s.left.toNat ≤ s.due.toNat

/-- The share of a position is no division by zero, and nothing it is taken from gets below zero. -/
def Payout.Exact (vaultOf : GoMap Bytes Bytes) (v id : Bytes) (s : Payout) : Prop :=
  ∀ p, s.positions.get id = some p → (vaultOf.get id).getD [] = v → p.due ≠ 0 →
    s.due ≠ 0 ∧ p.due.toNat ≤ s.due.toNat ∧
      s.left.toNat * p.due.toNat / s.due.toNat ≤ min s.left.toNat p.due.toNat

theorem payPosition_covered {id : Bytes} {s : Payout} (hv : v ≠ []) (hnew : id ∉ ids)
    (hs : s.Covered vaultOf v (id :: ids)) :
    s.Exact vaultOf v id ∧ ∃ s', payPosition vaultOf v id s = .ok s' ∧ s'.Covered vaultOf v ids ∧
      PaidThrough vaultOf v (s.left.toNat - s'.left.toNat) s.positions s'.positions ∧
      s'.left.toNat ≤ s.left.toNat := by
  have hhead : s.due.toNat =
      (if vaultOf.get id = some v then s.positions.entry (·.due.toNat) id else 0) +
        sliceDue vaultOf s.positions v ids := by
    rw [hs.due]
    unfold sliceDue
    rw [map_cons, sum_cons]
  have hle := hs.left_le
  have hexact : s.Exact vaultOf v id := by
    intro p hp hvault hne
    rw [if_pos ((getD_eq_iff hv).mp hvault), entry_some hp] at hhead
    have hpos : p.due.toNat ≠ 0 := fun hzero => hne (UInt64.toNat_inj.mp hzero)
    refine ⟨?_, by omega, Nat.le_min.mpr ⟨share_le_left (by omega), share_le hle⟩⟩
    rintro hzero
    rw [hzero, UInt64.toNat_zero] at hhead
    omega
  -- a position that is passed over is due nothing through this vault
  have hpass : (if vaultOf.get id = some v then s.positions.entry (·.due.toNat) id else 0) = 0 →
      s.Covered vaultOf v ids ∧ PaidThrough vaultOf v (s.left.toNat - s.left.toNat) s.positions
        s.positions ∧ s.left.toNat ≤ s.left.toNat := by
    intro hzero
    rw [Nat.sub_self]
    exact ⟨⟨by omega, hle⟩, PaidThrough.refl vaultOf v s.positions, le_rfl⟩
  refine ⟨hexact, ?_⟩
  unfold payPosition
  cases hp : s.positions.get id with
  | none =>
    refine ⟨s, rfl, hpass ?_⟩
    rw [entry_none hp, ite_self]
  | some p =>
    rw [entry_some hp] at hhead hpass
    dsimp only
    split_ifs with hskip hzero
    · refine ⟨s, rfl, hpass ?_⟩
      split_ifs with hvault
      · rcases hskip with hne | hdue
        · exact absurd ((getD_eq_iff hv).mpr hvault) hne
        · rw [hdue]
          rfl
      · rfl
    · rw [not_or, not_not] at hskip
      exact absurd hzero (hexact p hp hskip.1 hskip.2).1
    · rw [not_or, not_not] at hskip
      obtain ⟨-, hpdue, hshares⟩ := hexact p hp hskip.1 hskip.2
      obtain ⟨hshare', hshare⟩ := Nat.le_min.mp hshares
      rw [getD_eq_iff hv] at hskip
      obtain ⟨hvault, -⟩ := hskip
      rw [if_pos hvault] at hhead
      have hrest := share_rest_le hle hpdue
      have hleft := s.left.toNat_lt
      have hpaid : (UInt64.ofNat (s.left.toNat * p.due.toNat / s.due.toNat)).toNat =
          s.left.toNat * p.due.toNat / s.due.toNat :=
        UInt64.toNat_ofNat_of_lt' (show _ < 2 ^ 64 by omega)
      have hleft' : (s.left - UInt64.ofNat (s.left.toNat * p.due.toNat / s.due.toNat)).toNat =
          s.left.toNat - s.left.toNat * p.due.toNat / s.due.toNat := by
        rw [toNat_sub (by rw [hpaid]; exact hshare'), hpaid]
      have hdue' : (p.due - UInt64.ofNat (s.left.toNat * p.due.toNat / s.due.toNat)).toNat =
          p.due.toNat - s.left.toNat * p.due.toNat / s.due.toNat := by
        rw [toNat_sub (by rw [hpaid]; exact hshare), hpaid]
      have hrep := total_replace (f := fun x : Position => x.due.toNat)
        (w := { p with due := p.due - UInt64.ofNat (s.left.toNat * p.due.toNat / s.due.toNat) }) hp
      refine ⟨_, rfl, ⟨?_, ?_⟩, ⟨?_, ?_, fun j hj => ?_⟩, ?_⟩
      · show (s.due - p.due).toNat = _
        rw [toNat_sub hpdue, sliceDue_congr fun j hj _ => get_set_ne ?_]
        · omega
        · rintro rfl
          exact hnew hj
      · show (s.left - _).toNat ≤ (s.due - p.due).toNat
        rw [hleft', toNat_sub hpdue]
        exact hrest
      · exact (GoMap.Rel.refl Position.Lowered.refl _).set_right hp ⟨_, by omega, rfl⟩
      · dsimp only at hrep ⊢
        omega
      · refine get_set_ne ?_
        rintro rfl
        exact hj hvault
      · show (s.left - _).toNat ≤ s.left.toNat
        omega

/-- The loop over the positions succeeds, nothing is left, and every step on the way is exact. -/
theorem payPositions_paid {i : ℕ} {s : Payout} (hv : v ≠ []) (hn : ids.Nodup)
    (hs : s.Covered vaultOf v ids) :
    ∃ t, loop (fun _ => payPosition vaultOf v) i ids s = .ok t ∧ t.left = 0 ∧
      PaidThrough vaultOf v s.left.toNat s.positions t.positions ∧
      ∀ done id todo u, ids = done ++ id :: todo →
        loop (fun _ => payPosition vaultOf v) i done s = .ok u → u.Exact vaultOf v id := by
  induction ids generalizing i s with
  | nil =>
    have hdue : s.due.toNat = 0 := hs.due
    have hle := hs.left_le
    have hzero : s.left.toNat = 0 := by omega
    rw [hzero]
    refine ⟨s, rfl, UInt64.toNat_inj.mp hzero, PaidThrough.refl vaultOf v s.positions, ?_⟩
    intro done id todo u heq
    simp at heq
  | cons id ids ih =>
    obtain ⟨hnew, hn⟩ := nodup_cons.mp hn
    obtain ⟨hexact, s', hone, hs', hpaid, hle⟩ := payPosition_covered hv hnew hs
    obtain ⟨t, hrest, hzero, hall, hsteps⟩ := ih hn hs'
    have hall := hpaid.trans hall
    rw [Nat.sub_add_cancel hle] at hall
    refine ⟨t, loop_cons_eq_ok.mpr ⟨s', hone, hrest⟩, hzero, hall, ?_⟩
    rintro (_ | ⟨id', done⟩) id'' todo u heq hu
    · cases heq
      cases hu
      exact hexact
    · cases heq
      obtain ⟨s1, hs1, hu⟩ := loop_cons_eq_ok.mp hu
      rw [hone] at hs1
      cases hs1
      exact hsteps done id'' todo u rfl hu

theorem dueThrough_eq_ok {due : UInt64} (hv : v ≠ []) :
    dueThrough vaultOf m v ids = .ok due ↔ due.toNat = sliceDue vaultOf m v ids := by
  have hbody : (fun (_ : ℕ) (id : Bytes) (due : UInt64) =>
      if (vaultOf.get id).getD [] = v then lpodAdd due ((m.get id).elim 0 (·.due)) else .ok due) =
      fun _ id due => Go.addOr "lpod: amount overflow" due
        (if vaultOf.get id = some v then (m.get id).elim 0 (·.due) else 0) := by
    funext i id due
    simp only [getD_eq_iff hv]
    split_ifs
    · rfl
    · exact (addOr_eq_ok.mpr (Nat.add_zero _).symm).symm
  have hslice : sliceDue vaultOf m v ids = (ids.map fun id =>
      (if vaultOf.get id = some v then (m.get id).elim 0 (·.due) else 0).toNat).sum := by
    unfold sliceDue entry
    congr 1
    refine map_congr_left fun id _ => ?_
    split_ifs
    · cases m.get id <;> rfl
    · rfl
  unfold dueThrough
  rw [hbody, loop_addOr_eq_ok, UInt64.toNat_zero, Nat.zero_add, hslice]

/-- **One payment is split exactly**: the shares are paid out of what the positions are due through
the vault, they add up to the payment, and no step on the way wraps or divides by zero. -/
def SplitExactly (vaultOf : GoMap Bytes Bytes) (ids : List Bytes) (p : Payment) (m : Positions) :
    Prop :=
  ∃ due n, dueThrough vaultOf m p.vaultID ids = .ok due ∧ payVault vaultOf ids p m = .ok n ∧
    PaidThrough vaultOf p.vaultID p.angels.toNat m n ∧
    ∀ done id todo s, ids = done ++ id :: todo →
      loop (fun _ => payPosition vaultOf p.vaultID) 0 done ⟨m, p.angels, due⟩ = .ok s →
        s.Exact vaultOf p.vaultID id

/-- The guardians of a vault are paid no more than they are due through it. -/
def Covers (vaultOf : GoMap Bytes Bytes) (ids : List Bytes) (m : Positions) (p : Payment) : Prop :=
  p.vaultID ≠ [] ∧ p.angels.toNat ≤ sliceDue vaultOf m p.vaultID ids ∧
    sliceDue vaultOf m p.vaultID ids < 2 ^ 64

theorem Covers.splitExactly {p : Payment} (h : Covers vaultOf ids m p) (hn : ids.Nodup) :
    SplitExactly vaultOf ids p m := by
  obtain ⟨hv, hcovered, hfit⟩ := h
  set due := UInt64.ofNat (sliceDue vaultOf m p.vaultID ids)
  have hdue : due.toNat = sliceDue vaultOf m p.vaultID ids := UInt64.toNat_ofNat_of_lt' hfit
  obtain ⟨t, ht, hzero, hpaid, hsteps⟩ := payPositions_paid (s := ⟨m, p.angels, due⟩) hv hn
    ⟨hdue, hdue.symm ▸ hcovered⟩
  have hok := (dueThrough_eq_ok hv).mpr hdue
  have hleft : ¬ t.left ≠ 0 := not_not.mpr hzero
  exact ⟨due, t.positions, hok, bind_ok hok <| bind_ok ht <| pass (failIf_eq_ok.mpr hleft) rfl,
    hpaid, hsteps⟩

/-! ### All payments -/

/-- Payments through different vaults do not get in each other's way. -/
theorem payVaults_split {i : ℕ} (hids : ids.Nodup)
    (hcovers : ∀ p ∈ payments, Covers vaultOf ids m p) (hn : (payments.map (·.vaultID)).Nodup) :
    ∃ n, loop (fun _ => payVault vaultOf ids) i payments m = .ok n ∧
      GoMap.Rel Position.Lowered m n ∧ n.total (·.due.toNat) +
        (payments.map fun p => p.angels.toNat).sum = m.total (·.due.toNat) ∧
      ∀ paid p rest m', payments = paid ++ p :: rest →
        loop (fun _ => payVault vaultOf ids) i paid m = .ok m' → SplitExactly vaultOf ids p m' := by
  induction payments generalizing i m with
  | nil =>
    refine ⟨m, rfl, GoMap.Rel.refl Position.Lowered.refl m, rfl, ?_⟩
    intro paid p rest m' heq
    simp at heq
  | cons p payments ih =>
    rw [map_cons, nodup_cons] at hn
    rw [forall_mem_cons] at hcovers
    obtain ⟨due, m1, -, hone, hpaid, -⟩ := hcovers.1.splitExactly hids
    have hcovers1 : ∀ q ∈ payments, Covers vaultOf ids m1 q := by
      intro q hq
      have hne : q.vaultID ≠ p.vaultID := fun heq => hn.1 (heq ▸ mem_map_of_mem hq)
      unfold Covers
      rw [sliceDue_congr fun id _ hid => hpaid.others id ?_]
      · exact hcovers.2 q hq
      · rw [hid]
        exact fun heq => hne (Option.some.inj heq)
    obtain ⟨n, hrest, hlowered, htotal, hall⟩ := ih hcovers1 hn.2
    refine ⟨n, loop_cons_eq_ok.mpr ⟨m1, hone, hrest⟩,
      hpaid.lowered.trans hlowered fun _ _ _ => Position.Lowered.trans, ?_, ?_⟩
    · have hone := hpaid.total
      rw [map_cons, sum_cons]
      omega
    · rintro (_ | ⟨p', paid⟩) q rest m' heq hm'
      · cases heq
        cases hm'
        exact hcovers.1.splitExactly hids
      · cases heq
        obtain ⟨m2, hm2, hm'⟩ := loop_cons_eq_ok.mp hm'
        rw [hone] at hm2
        cases hm2
        exact hall paid q rest m' rfl hm'

/-! ### The payments of a settlement -/

/-- What the payments of a settlement are: each belongs to a vault of its own, the leader gets no more
than the vault brings, and the guardians no more than they are due. -/
structure PaysVault (v : Vault) (p : Payment) : Prop where
  vaultID : p.vaultID = v.id
  id_ne : v.id ≠ []
  leader_le : p.leader.toNat ≤ v.actualIncome.toNat
  angels_le : ∀ accrual, v.exactAccrual = some accrual →
    p.angels.toNat ≤ v.arrears.toNat + accrual.toNat

theorem Booked.paysVault {c c' : Carry} {t : Tier} {v : Vault} {f : Flow}
    (h : Booked s c t v s' c' f) (hid : v.id ≠ []) : PaysVault v f.toPayment := by
  have hbal := h.balances
  refine ⟨hbal.vaultID, hid, hbal.leader_le, fun accrual haccrual => ?_⟩
  have hdue := hbal.due
  have hacc : f.accrual.toNat = accrual.toNat := by
    rw [h.accrual]
    show (v.exactAccrual.map UInt64.toNat).getD _ = _
    rw [haccrual]
    rfl
  omega

theorem settleVaults_paid {prev : Option Bytes} {out out' : Carries} {fs : List Flow}
    (h : settleVaults prev s out vs = .ok (s', out', fs)) (hvalid : out.all Carry.valid = true) :
    List.Forall₂ PaysVault vs (fs.map Flow.toPayment) ∧ (vs.map (·.id)).Nodup ∧
      s'.leaderPaid.toNat = s.leaderPaid.toNat + (fs.map fun f => f.leader.toNat).sum ∧
      s'.angelPaid.toNat = s.angelPaid.toNat + (fs.map fun f => f.angels.toNat).sum := by
  induction vs generalizing prev s out fs with
  | nil =>
    cases h
    exact ⟨.nil, nodup_nil, rfl, rfl⟩
  | cons v vs ih =>
    obtain ⟨t, s1, c1, f, fs1, hid, -, hb, hvalid1, hrest, rfl⟩ :=
      settleVaults_cons_booked h hvalid
    obtain ⟨hpays, hnodup, hleader, hangel⟩ := ih hrest hvalid1
    have hless := settleVaults_less hrest
    have hleader1 : s1.leaderPaid.toNat = s.leaderPaid.toNat + f.leader.toNat := by
      rw [hb.leader]
      exact congrArg Ledger.leaderPaid hb.ledger
    have hangel1 : s1.angelPaid.toNat = s.angelPaid.toNat + f.angels.toNat := by
      rw [hb.angels]
      exact congrArg Ledger.angelPaid hb.ledger
    refine ⟨.cons (hb.paysVault hid) hpays, ?_, ?_, ?_⟩
    · rw [map_cons, nodup_cons]
      refine ⟨fun hmem => ?_, hnodup⟩
      obtain ⟨w, hw, heq⟩ := mem_map.mp hmem
      exact ne_of_less (hless w hw) heq.symm
    · rw [map_cons, sum_cons]
      omega
    · rw [map_cons, sum_cons]
      omega

theorem settleVaults_due_lt {prev : Option Bytes} {out : Carries} {x : State × Carries × List Flow}
    (h : settleVaults prev s out vs = .ok x) : ∀ v ∈ vs, ∀ accrual, v.exactAccrual = some accrual →
      v.arrears.toNat + accrual.toNat < 2 ^ 64 := by
  induction vs generalizing prev s out x with
  | nil => simp
  | cons v vs ih =>
    obtain ⟨-, -, t, s1, c1, f, fs, -, hone, hrest, -⟩ := settleVaults_cons_eq_ok.mp h
    rw [forall_mem_cons]
    refine ⟨fun accrual haccrual => ?_, ih hrest⟩
    obtain ⟨_, -, hone⟩ := unbind hone
    obtain ⟨_, -, hone⟩ := unbind hone
    obtain ⟨due, hdue, -⟩ := unbind (past hone)
    rw [haccrual, Option.getD_some, add_eq_ok] at hdue
    have hlt := due.toNat_lt
    omega

/-- What a settlement pays, as the totals say. -/
structure SettlePays (s : State) (vs : List Vault) (s' : State) (payments : List Payment) : Prop where
  pays : List.Forall₂ PaysVault vs payments
  nodup : (vs.map (·.id)).Nodup
  leader : s'.leaderPaid.toNat = s.leaderPaid.toNat + (payments.map fun p => p.leader.toNat).sum
  angels : s'.angelPaid.toNat = s.angelPaid.toNat + (payments.map fun p => p.angels.toNat).sum

theorem settle_pays {carries out : Carries}
    (h : settle s carries height vs = .ok (s', out, payments)) : SettlePays s vs s' payments := by
  obtain ⟨flows, hflows, hpayments⟩ := settle_eq_ok.mp h
  obtain ⟨-, -, hcarries, s1, hall, hnext, -⟩ := settleFlows_eq_ok.mp hflows
  obtain ⟨hpays, hnodup, hleader, hangel⟩ := settleVaults_paid hall hcarries
  subst hpayments
  subst hnext
  refine ⟨hpays, hnodup, ?_, ?_⟩
  · rw [map_map]
    exact hleader
  · rw [map_map]
    exact hangel

theorem SettlePays.vault (h : SettlePays s vs s' payments) {p : Payment} (hp : p ∈ payments) :
    ∃ v ∈ vs, PaysVault v p := by
  obtain ⟨hlen, hall⟩ := forall₂_iff_get.mp h.pays
  obtain ⟨i, hi, rfl⟩ := mem_iff_getElem.mp hp
  exact ⟨_, getElem_mem (hlen ▸ hi), hall i (hlen ▸ hi) hi⟩

theorem SettlePays.vaultID_nodup (h : SettlePays s vs s' payments) :
    (payments.map (·.vaultID)).Nodup := by
  obtain ⟨hlen, hall⟩ := forall₂_iff_get.mp h.pays
  have hids : payments.map (·.vaultID) = vs.map (·.id) := by
    refine ext_getElem (by rw [length_map, length_map, hlen]) fun i hi hi' => ?_
    rw [length_map] at hi hi'
    rw [getElem_map, getElem_map]
    exact (hall i hi' hi).vaultID
  rw [hids]
  exact h.nodup

/-! ### The preview -/

/-- What a preview with the transition `t` leaves. -/
structure PreviewPays (C : Externals) (before : Checkpoint) (r : Settlement) (height : UInt64)
    (accrued : Positions) (t : Transition) (after : Checkpoint) (payments : List Payment) : Prop where
  valid : before.PositionsValid
  transitioned : Transitioned C before r accrued t
  settled : SettlePays before.state t.vaults after.state payments
  lowered : GoMap.Rel Position.Lowered t.next.positions after.positions
  due : after.positions.total (·.due.toNat) + (payments.map fun p => p.angels.toNat).sum =
    t.next.positions.total (·.due.toNat)
  returned : after.principalReturned = t.next.principalReturned
  canonical : ∀ id p, after.positions.get id = some p → p.Canonical after.state.lastHeight id
  vesting : ∀ v, after.genesisVesting = some v →
    ∃ a, after.allocation = some a ∧ v.validate a.genesis height = .ok ()

theorem validateSource_validate {v : GenesisVestingState} {allocation : Option Allocation}
    (h : v.validateSource C K allocation height = .ok ()) :
    ∃ a, allocation = some a ∧ v.validate a.genesis height = .ok () := by
  cases allocation with
  | none => cases h
  | some a =>
    obtain ⟨⟨⟩, hvalid, -⟩ := unbind h
    exact ⟨a, rfl, hvalid⟩

theorem Transitioned.sliceDue_eq {before : Checkpoint} {accrued : Positions} {t : Transition}
    (h : Transitioned C before r accrued t) (v : Bytes) :
    sliceDue t.entitlementVault t.next.positions v t.next.positions.sortedKeys =
      dueVia t.entitlementVault accrued v accrued.keys := by
  unfold sliceDue
  rw [sum_map_entry (sortedKeys_nodup _) fun _ => mem_sortedKeys]
  -- a position opened in this block is paid through no vault
  have hnone : ∀ id, id ∉ accrued.keys → t.entitlementVault.get id = none := by
    intro id hid
    rw [h.vaultOf, get_eq_none_iff.mpr hid]
    rfl
  have hsub : accrued.keys ⊆ t.next.positions.keys := by
    intro id hid
    obtain ⟨p, hp⟩ := mem_keys.mp hid
    obtain ⟨q, hq, -⟩ := h.evolved.old id p hp
    exact mem_keys.mpr ⟨q, hq⟩
  rw [← Finset.sum_subset hsub]
  · refine Finset.sum_congr rfl fun id hid => ?_
    obtain ⟨p, hp⟩ := mem_keys.mp hid
    obtain ⟨q, hq, hgrows⟩ := h.evolved.old id p hp
    rw [entry_some hp, entry_some hq, hgrows.due]
  · intro id _ hid
    rw [hnone id hid, if_neg (by simp)]

/-- What the guardians of a vault are due was told to the settlement, which pays no more. -/
theorem Transitioned.covers {before : Checkpoint} {accrued : Positions} {t : Transition}
    {state : State} {carries : Carries} (htrans : Transitioned C before r accrued t)
    (h : settle before.state before.carries height t.vaults = .ok (state, carries, payments)) :
    ∀ p ∈ payments, Covers t.entitlementVault t.next.positions.sortedKeys t.next.positions p := by
  intro p hp
  obtain ⟨flows, hflows, -⟩ := settle_eq_ok.mp h
  obtain ⟨-, -, -, s1, hall, -⟩ := settleFlows_eq_ok.mp hflows
  obtain ⟨v, hmem, hv⟩ := (settle_pays h).vault hp
  obtain ⟨accrual, haccrual, hsum⟩ := htrans.due v hmem
  unfold Covers
  rw [htrans.sliceDue_eq, hv.vaultID, ← hsum]
  exact ⟨hv.id_ne, hv.angels_le accrual haccrual, settleVaults_due_lt hall v hmem accrual haccrual⟩

theorem previewPositions_pays {before after : Checkpoint}
    (h : d.previewPositions C K o before height r = .ok (after, payments)) :
    ∃ t accrued, d.positionTransition C o before height r = .ok t ∧
      PreviewPays C before r height accrued t after payments := by
  obtain ⟨t, ht, h⟩ := unbind h
  obtain ⟨⟨state, carries, payments'⟩, hsettle, h⟩ := unbind h
  obtain ⟨allocation, hallocation, h⟩ := unbind h
  obtain ⟨positions, hpositions, h⟩ := unbind h
  obtain ⟨⟨⟩, hvalid, h⟩ := unbind h
  obtain ⟨next', hvesting, h⟩ := unbind h
  cases h
  obtain ⟨hbefore, accrued, htrans⟩ := positionTransition_transitioned ht
  have hpays := settle_pays hsettle
  obtain ⟨n, hn, hlowered, hdue, -⟩ := payVaults_split (sortedKeys_nodup _)
    (htrans.covers hsettle) hpays.vaultID_nodup
  rw [hn] at hpositions
  cases hpositions
  obtain ⟨⟨vesting, rfl⟩, hsource⟩ := previewGenesisVesting_source hvesting htrans.vesting
  exact ⟨t, accrued, ht, hbefore, htrans, hpays, hlowered, hdue, rfl,
    (validatePositions_eq_ok.mp hvalid).canonical, fun v hv => validateSource_validate (hsource v hv)⟩

end Aperod.Lpod
