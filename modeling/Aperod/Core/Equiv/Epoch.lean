import Aperod.Core.Registry
import Aperod.Go.Entries

/-!
# Epoch transitions and map order

`UpdateEpoch` collects the pending and the active validators in the order of a Go `range`, sorts
each collection by stake alone and cuts it: at the free seats (at most the churn limit) and at the
cap of 21.  The order is irrelevant exactly if no stake tie lies across either cut (`SeatsDecided`).

Both cuts are instances of the first-`k` question about `sortSlice`: `mem_take_of_cleanCut` gives
one direction, `exists_orders_of_not_cleanCut` the other.
-/

namespace Aperod

open Go GoMap ValidatorRegistry List

/-- A validator the epoch at `height` may activate. -/
def eligible (height : Nat) (e : ValidatorEntry) : Bool :=
  e.status = .pending && height / epochLength ≥ e.activationEpoch

/-- No stake tie among the validators that satisfy `p` lies across the last of `seats` seats: the
validators with at least the stake of any one of them all have a seat, or the seats are filled by
validators with more stake. -/
def SeatsDecided (m : Validators) (p : ValidatorEntry → Bool) (seats : Nat) : Prop :=
  ∀ k e, m.get k = some e → p e = true →
    m.count (fun e' => p e' && e'.stakeNAPR ≥ e.stakeNAPR) ≤ seats ∨
      seats ≤ m.count (fun e' => p e' && e'.stakeNAPR > e.stakeNAPR)

/-! ### The two comparisons -/

theorem weakOrder_stakeMore : WeakOrder stakeMore :=
  weakOrder_of_key fun e : ValidatorPubKey × ValidatorEntry => OrderDual.toDual e.2.stakeNAPR

section

variable {m : Validators} {order : ValidatorOrder} (ho : order ∈ m.enumerations)
include ho

theorem upTo_enumeration (p : ValidatorEntry → Bool) (x : ValidatorPubKey × ValidatorEntry) :
    upTo stakeMore (order.filter fun y => p y.2) x =
      m.count fun e' => p e' && e'.stakeNAPR ≥ x.2.stakeNAPR := by
  rw [upTo, countP_filter, ← countP_enumeration ho]
  refine countP_congr fun y _ => ?_
  simp only [stakeMore, Bool.and_eq_true, Bool.not_eq_true', decide_eq_false_iff_not,
    decide_eq_true_eq, not_lt, ge_iff_le]
  tauto

theorem before_enumeration (p : ValidatorEntry → Bool) (x : ValidatorPubKey × ValidatorEntry) :
    before stakeMore (order.filter fun y => p y.2) x =
      m.count fun e' => p e' && e'.stakeNAPR > x.2.stakeNAPR := by
  rw [before, countP_filter, ← countP_enumeration ho]
  refine countP_congr fun y _ => ?_
  simp only [stakeMore, Bool.and_eq_true, decide_eq_true_eq]
  tauto

/-- For the validators of a map that satisfy `p`, a clean cut is a condition on the map. -/
theorem cleanCut_iff_seatsDecided (p : ValidatorEntry → Bool) (seats : Nat) :
    CleanCut stakeMore (order.filter fun x => p x.2) seats ↔ SeatsDecided m p seats := by
  constructor
  · intro h k e hget hp
    have hx := h (k, e) (mem_filter.mpr ⟨(ho.2 k e).mpr hget, hp⟩)
    rwa [upTo_enumeration ho, before_enumeration ho] at hx
  · rintro h ⟨k, e⟩ hx
    obtain ⟨hmem, hp⟩ := mem_filter.mp hx
    rw [upTo_enumeration ho, before_enumeration ho]
    exact h k e ((ho.2 k e).mp hmem) hp

end

/-! ### The steps as bulk assignments -/

/-- The pending validators step 3 activates, for one order of the map. -/
def chosen (height : Nat) (order : ValidatorOrder) (m : Validators) : ValidatorOrder :=
  ((sortedPending order).filter fun x => height / epochLength ≥ x.2.activationEpoch).take
    (activationSlots m)

theorem activateLoop_eq (epoch slots : Nat) (l : ValidatorOrder) (activated : Nat)
    (m : Validators) :
    activateLoop epoch slots activated l m =
      m.setAll (fun e => { e with status := .active })
        ((l.filter fun x => epoch ≥ x.2.activationEpoch).take (slots - activated)) := by
  induction l generalizing activated m with
  | nil => simp [activateLoop, setAll]
  | cons x l ih =>
    obtain ⟨k, e⟩ := x
    rw [activateLoop]
    by_cases hfull : activated ≥ slots
    · rw [if_pos hfull, Nat.sub_eq_zero_of_le hfull, take_zero]
      rfl
    · rw [if_neg hfull]
      by_cases helig : epoch ≥ e.activationEpoch
      · obtain ⟨n, hn⟩ : ∃ n, slots - activated = n + 1 := ⟨slots - activated - 1, by omega⟩
        have hn' : slots - (activated + 1) = n := by omega
        rw [if_pos helig, ih, filter_cons_of_pos (by simpa using helig), hn, hn']
        rfl
      · rw [if_neg helig, ih, filter_cons_of_neg (by simpa using helig)]

theorem activatePending_eq (height : Nat) (order : ValidatorOrder) (m : Validators) :
    activatePending height order m =
      m.setAll (fun e => { e with status := .active }) (chosen height order m) := by
  unfold activatePending chosen
  by_cases hfree : activeCount m < maxValidators
  · rw [if_pos hfree, activateLoop_eq, Nat.sub_zero]
  · rw [if_neg hfree, activationSlots, if_neg hfree, take_zero]
    rfl

/-- The active validators step 4 demotes, for one order of the map. -/
def demoted (order : ValidatorOrder) : ValidatorOrder :=
  (sortSlice stakeMore (withStatus .active order)).drop maxValidators

theorem rebalance_eq (order : ValidatorOrder) (m : Validators) :
    rebalance order m =
      m.setAll (fun e => { e with
        status := .pending, activationEpoch := (e.activationEpoch + 1) % 2 ^ 64 })
        (demoted order) := by
  unfold rebalance demoted
  dsimp only
  split_ifs with hlen
  · rw [drop_eq_nil_of_le (by rw [(sortSlice_perm _).length_eq]; exact hlen)]
    rfl
  · rfl

/-! ### Step 3 -/

section

variable {m : Validators} {height : Nat} {order order' : ValidatorOrder}

theorem candidates_perm (height : Nat) (order : ValidatorOrder) :
    ((sortedPending order).filter fun x => height / epochLength ≥ x.2.activationEpoch).Perm
      (order.filter fun x => eligible height x.2) := by
  have hp := (@sortSlice_perm _ stakeMore (withStatus .pending order)).filter
    fun x => decide (height / epochLength ≥ x.2.activationEpoch)
  refine hp.trans (List.Perm.of_eq ?_)
  rw [withStatus, filter_filter]
  refine filter_congr fun x _ => ?_
  rw [eligible, Bool.and_comm]

theorem candidates_sorted (height : Nat) (order : ValidatorOrder) :
    Sorted stakeMore
      ((sortedPending order).filter fun x => height / epochLength ≥ x.2.activationEpoch) :=
  (sortSlice_sorted weakOrder_stakeMore _).sublist filter_sublist

theorem chosen_keys_nodup (ho : order ∈ m.enumerations) (height : Nat) (m' : Validators) :
    ((chosen height order m').map Prod.fst).Nodup := by
  have hsub : (chosen height order m').Sublist _ := take_sublist _ _
  have hnd : ((order.filter fun x => eligible height x.2).map Prod.fst).Nodup :=
    ho.1.sublist (filter_sublist.map _)
  exact (((candidates_perm height order).map Prod.fst).nodup_iff.mpr hnd).sublist (hsub.map _)

/-- With the free seats decided by stake, every order activates the same validators. -/
theorem activatePending_congr (ho : order ∈ m.enumerations) (ho' : order' ∈ m.enumerations)
    (h : SeatsDecided m (eligible height) (activationSlots m)) :
    activatePending height order m = activatePending height order' m := by
  rw [activatePending_eq, activatePending_eq]
  refine setAll_congr (chosen_keys_nodup ho _ _) (chosen_keys_nodup ho' _ _) fun x => ?_
  have hcut := (cleanCut_iff_seatsDecided ho _ _).mpr h
  have hcut' := (cleanCut_iff_seatsDecided ho' _ _).mpr h
  have hperm := candidates_perm height order
  have hperm' := candidates_perm height order'
  unfold chosen
  rw [mem_take_of_cleanCut weakOrder_stakeMore (candidates_sorted _ _) (hcut.perm hperm.symm),
    mem_take_of_cleanCut weakOrder_stakeMore (candidates_sorted _ _) (hcut'.perm hperm'.symm)]
  -- membership and counts do not see the order
  have hall := hperm.trans (((enumerations_perm ho ho').filter _).trans hperm'.symm)
  rw [hall.mem_iff, upTo, upTo, hall.countP_eq]

theorem activeCount_activatePending_le (height : Nat) (order : ValidatorOrder)
    (h : activeCount m ≤ maxValidators) :
    activeCount (activatePending height order m) ≤ maxValidators := by
  have hle := count_setAll_le (fun e : ValidatorEntry => decide (e.status = .active))
    (fun e => { e with status := .active }) (chosen height order m) m
  have hlen : (chosen height order m).length ≤ activationSlots m := length_take_le _ _
  have hslots : activeCount m + activationSlots m ≤ maxValidators := by
    unfold activationSlots
    split_ifs with hfree
    · have := Nat.min_le_left (maxValidators - activeCount m) churnLimit
      omega
    · omega
  rw [activatePending_eq]
  unfold activeCount at *
  omega

theorem activatePending_of_full (height : Nat) (order : ValidatorOrder)
    (h : maxValidators ≤ activeCount m) : activatePending height order m = m := by
  rw [activatePending, if_neg (not_lt.mpr h)]

section

variable (ho : order ∈ m.enumerations)
include ho

/-- Any sorted order of the eligible validators is what some order of the map leads to. -/
theorem exists_order_of_candidates {l : ValidatorOrder}
    (hp : l.Perm (order.filter fun x => eligible height x.2)) (hs : Sorted stakeMore l) :
    ∃ order' ∈ m.enumerations,
      ((sortedPending order').filter fun x => height / epochLength ≥ x.2.activationEpoch) = l := by
  have helig : ∀ x ∈ l, eligible height x.2 = true := fun x hx =>
    (mem_filter.mp (hp.mem_iff.mp hx)).2
  unfold eligible at helig
  simp only [Bool.and_eq_true, decide_eq_true_eq] at helig
  have hperm : (l ++ order.filter fun x => !eligible height x.2).Perm order :=
    (hp.append_right _).trans (filter_append_perm _ order)
  refine ⟨_, mem_enumerations_of_perm ho hperm, ?_⟩
  have hsub : l.Sublist (withStatus .pending (l ++ order.filter fun x => !eligible height x.2)) := by
    rw [withStatus, filter_append,
      filter_eq_self.mpr fun x hx => by simpa using (helig x hx).1]
    exact sublist_append_left _ _
  have hfilter := (sublist_sortSlice weakOrder_stakeMore hs hsub).filter
    fun x => decide (height / epochLength ≥ x.2.activationEpoch)
  rw [filter_eq_self.mpr fun x hx => by simpa using (helig x hx).2] at hfilter
  -- a sublist with as many elements is the whole list
  have hlen := ((candidates_perm height _).trans ((hperm.filter _).trans hp.symm)).length_eq
  exact (hfilter.eq_of_length hlen.symm).symm

/-! ### Step 4 -/

theorem demoted_keys_nodup :
    ((demoted order).map Prod.fst).Nodup := by
  have hsub : (demoted order).Sublist _ := drop_sublist _ _
  have hnd : ((withStatus .active order).map Prod.fst).Nodup :=
    ho.1.sublist (filter_sublist.map _)
  exact (((sortSlice_perm _).map Prod.fst).nodup_iff.mpr hnd).sublist (hsub.map _)

theorem mem_demoted_iff (x : ValidatorPubKey × ValidatorEntry) :
    x ∈ demoted order ↔ x ∈ withStatus .active order ∧
      x ∉ (sortSlice stakeMore (withStatus .active order)).take maxValidators := by
  have hnd : (sortSlice stakeMore (withStatus .active order)).Nodup :=
    (sortSlice_perm _).nodup_iff.mpr ((nodup_of_enumeration ho).filter _)
  have hmem : x ∈ sortSlice stakeMore (withStatus .active order) ↔ x ∈ withStatus .active order :=
    mem_sortSlice
  rw [← hmem]
  unfold demoted
  generalize sortSlice stakeMore (withStatus .active order) = l at hnd
  have hsplit := take_append_drop maxValidators l
  rw [← hsplit, nodup_append'] at hnd
  constructor
  · exact fun hx => ⟨mem_of_mem_drop hx, fun hx' => hnd.2.2 hx' hx⟩
  · rintro ⟨hx, hnot⟩
    rw [← hsplit] at hx
    exact (mem_append.mp hx).resolve_left hnot

theorem length_withStatus_active :
    (withStatus .active order).length = activeCount m := by
  rw [withStatus, ← countP_eq_length_filter]
  exact countP_enumeration ho fun e => decide (e.status = .active)

theorem rebalance_of_le (h : activeCount m ≤ maxValidators) :
    rebalance order m = m := by
  rw [rebalance, length_withStatus_active ho, if_pos h]

theorem rebalance_congr (ho' : order' ∈ m.enumerations)
    (h : SeatsDecided m (fun e => e.status = .active) maxValidators) :
    rebalance order m = rebalance order' m := by
  rw [rebalance_eq, rebalance_eq]
  refine setAll_congr (demoted_keys_nodup ho) (demoted_keys_nodup ho') fun x => ?_
  have hcut := (cleanCut_iff_seatsDecided ho _ _).mpr h
  have hcut' := (cleanCut_iff_seatsDecided ho' _ _).mpr h
  have hsorted := fun l => sortSlice_sorted weakOrder_stakeMore (withStatus .active l)
  have hperm := fun l => @sortSlice_perm _ stakeMore (withStatus .active l)
  rw [mem_demoted_iff ho, mem_demoted_iff ho',
    mem_take_of_cleanCut weakOrder_stakeMore (hsorted _) (hcut.perm (hperm order).symm),
    mem_take_of_cleanCut weakOrder_stakeMore (hsorted _) (hcut'.perm (hperm order').symm)]
  have hall : (withStatus .active order).Perm (withStatus .active order') :=
    (enumerations_perm ho ho').filter _
  have hall' := (hperm order).trans (hall.trans (hperm order').symm)
  rw [hall.mem_iff, hall'.mem_iff, upTo, upTo, hall'.countP_eq]

end

end

/-! ### The whole transition -/

/-- Every two runs of the epoch transition agree on each status and on the active set. -/
def EpochOrderIrrelevant (r : ValidatorRegistry) (height : Nat) : Prop :=
  ∀ o o' : EpochOrders, o.Valid r height → o'.Valid r height →
    (∀ k, ((r.updateEpoch height o).1.validators.get k).map (·.status) =
      ((r.updateEpoch height o').1.validators.get k).map (·.status)) ∧
    (r.updateEpoch height o).2 = (r.updateEpoch height o').2

section

variable {r : ValidatorRegistry} {height : Nat} {o : EpochOrders}

theorem seatsDecided_released {p : ValidatorEntry → Bool} (hp : ∀ e, p (e.release height) = p e)
    (seats : Nat) :
    SeatsDecided (r.released height) p seats ↔ SeatsDecided r.validators p seats := by
  have hstake : ∀ e : ValidatorEntry, (e.release height).stakeNAPR = e.stakeNAPR := fun _ => rfl
  unfold SeatsDecided released
  simp only [count_map, get_map, hp, hstake, Option.map_eq_some_iff]
  constructor
  · intro h k e hget hpe
    have hk := h k (e.release height) ⟨e, hget, rfl⟩ (by rw [hp]; exact hpe)
    rwa [hstake] at hk
  · rintro h k _ ⟨e, hget, rfl⟩ hpe
    exact h k e hget (by rw [← hp]; exact hpe)

theorem release_status_of_ne {e : ValidatorEntry} {s : ValidatorStatus} (hu : s ≠ .unbonding)
    (hx : s ≠ .exited) : (e.release height).status = s ↔ e.status = s := by
  unfold ValidatorEntry.release
  split_ifs with hc
  · rw [hc.1]
    constructor
    · exact fun h => absurd h.symm hx
    · exact fun h => absurd h.symm hu
  · rfl

theorem eligible_release (e : ValidatorEntry) :
    eligible height (e.release height) = eligible height e := by
  unfold eligible
  rw [decide_eq_decide.mpr (release_status_of_ne (by decide) (by decide))]
  rfl

theorem active_release (e : ValidatorEntry) :
    decide ((e.release height).status = .active) = decide (e.status = .active) :=
  decide_eq_decide.mpr (release_status_of_ne (by decide) (by decide))

theorem activeCount_released (r : ValidatorRegistry) (height : Nat) :
    activeCount (r.released height) = activeCount r.validators := by
  unfold activeCount released
  rw [count_map]
  simp only [active_release]

theorem activationSlots_released (r : ValidatorRegistry) (height : Nat) :
    activationSlots (r.released height) = activationSlots r.validators := by
  unfold activationSlots
  rw [activeCount_released]

theorem activeSet_congr {m : Validators} {order order' : ValidatorOrder}
    (ho : order ∈ m.enumerations) (ho' : order' ∈ m.enumerations) :
    activeSet order = activeSet order' :=
  activeSet_perm _ _ (enumerations_perm ho ho')

theorem exists_valid {pending active : ValidatorOrder}
    (hp : pending ∈ (r.released height).enumerations)
    (ha : active ∈ (activatePending height pending (r.released height)).enumerations) :
    ∃ o : EpochOrders, o.Valid r height ∧ o.pending = pending ∧ o.active = active := by
  obtain ⟨final, hf⟩ := exists_enumeration
    (rebalance active (activatePending height pending (r.released height)))
  exact ⟨⟨pending, active, final⟩, ⟨hp, ha, hf⟩, rfl, rfl⟩

theorem rebalanced_of_free (ho : o.Valid r height)
    (h : activeCount r.validators ≤ maxValidators) :
    r.rebalanced height o = (r.released height).setAll (fun e => { e with status := .active })
      (chosen height o.pending (r.released height)) := by
  rw [← activeCount_released r height] at h
  unfold rebalanced
  rw [rebalance_of_le ho.active (activeCount_activatePending_le height o.pending h)]
  exact activatePending_eq ..

/-- With all seats taken nobody is activated: step 4 sees the map after step 1. -/
theorem rebalanced_of_full (ho : o.Valid r height)
    (h : maxValidators ≤ activeCount r.validators) :
    o.active ∈ (r.released height).enumerations ∧
      r.rebalanced height o = (r.released height).setAll (fun e => { e with
        status := .pending, activationEpoch := (e.activationEpoch + 1) % 2 ^ 64 })
        (demoted o.active) := by
  rw [← activeCount_released r height] at h
  have hsame : r.activated height o = r.released height := activatePending_of_full _ _ h
  have ha := ho.active
  unfold rebalanced
  rw [hsame] at ha ⊢
  exact ⟨ha, rebalance_eq ..⟩

theorem chosen_subset (height : Nat) (order : ValidatorOrder) (m : Validators) :
    chosen height order m ⊆ order := by
  intro x hx
  exact mem_of_mem_filter ((candidates_perm height order).mem_iff.mp (mem_of_mem_take hx))

theorem demoted_subset (order : ValidatorOrder) : demoted order ⊆ order := by
  intro x hx
  exact mem_of_mem_filter (mem_sortSlice.mp (mem_of_mem_drop hx))

section

variable {k : ValidatorPubKey} {e : ValidatorEntry} (ho : o.Valid r height)
  (hget : (r.released height).get k = some e)
include ho hget

theorem updateEpoch_get_free (h : activeCount r.validators ≤ maxValidators) :
    (r.updateEpoch height o).1.validators.get k =
      some (if (k, e) ∈ chosen height o.pending (r.released height)
        then { e with status := .active } else e) := by
  show (r.rebalanced height o).get k = _
  rw [rebalanced_of_free ho h]
  exact get_setAll ho.pending (chosen_subset ..) (chosen_keys_nodup ho.pending _ _) hget

theorem updateEpoch_get_full (h : maxValidators ≤ activeCount r.validators) :
    (r.updateEpoch height o).1.validators.get k =
      some (if (k, e) ∈ demoted o.active then { e with
        status := .pending, activationEpoch := (e.activationEpoch + 1) % 2 ^ 64 } else e) := by
  obtain ⟨ha, heq⟩ := rebalanced_of_full ho h
  show (r.rebalanced height o).get k = _
  rw [heq]
  exact get_setAll ha (demoted_subset _) (demoted_keys_nodup ha) hget

end

/-- What no step of the transition changes, the transition does not change. -/
theorem updateEpoch_rel {R : ValidatorEntry → ValidatorEntry → Prop} (hrefl : ∀ e, R e e)
    (htrans : ∀ e e' e'', R e e' → R e' e'' → R e e'')
    (hstep : ∀ (e : ValidatorEntry) s n q,
      R e { e with status := s, activationEpoch := n, unbondingQueue := q })
    (ho : o.Valid r height) : Rel R r.validators (r.updateEpoch height o).1.validators := by
  have hrelease : Rel R r.validators (r.released height) := .map (fun e => hstep e _ _ _) _
  refine hrelease.trans ?_ htrans
  show Rel R _ (r.rebalanced height o)
  rcases Nat.le_total (activeCount r.validators) maxValidators with h | h
  · rw [rebalanced_of_free ho h]
    refine .setAll hrefl (fun e => hstep e _ _ _) (chosen_keys_nodup ho.pending _ _) fun x hx => ?_
    exact (ho.pending.2 _ _).mp (chosen_subset _ _ _ hx)
  · obtain ⟨ha, heq⟩ := rebalanced_of_full ho h
    rw [heq]
    refine .setAll hrefl (fun e => hstep e _ _ _) (demoted_keys_nodup ha) fun x hx => ?_
    exact (ha.2 _ _).mp (demoted_subset _ hx)

theorem rebalanced_congr {o o' : EpochOrders} (ho : o.Valid r height) (ho' : o'.Valid r height)
    (hslots : SeatsDecided r.validators (eligible height) (activationSlots r.validators))
    (hcap : SeatsDecided r.validators (fun e => e.status = .active) maxValidators) :
    r.rebalanced height o = r.rebalanced height o' := by
  rcases Nat.le_total (activeCount r.validators) maxValidators with h | h
  · rw [rebalanced_of_free ho h, rebalanced_of_free ho' h, ← activatePending_eq,
      ← activatePending_eq]
    refine activatePending_congr ho.pending ho'.pending ?_
    rw [activationSlots_released]
    exact (seatsDecided_released eligible_release _).mpr hslots
  · obtain ⟨ha, heq⟩ := rebalanced_of_full ho h
    obtain ⟨ha', heq'⟩ := rebalanced_of_full ho' h
    rw [heq, heq', ← rebalance_eq, ← rebalance_eq]
    exact rebalance_congr ha ha' ((seatsDecided_released active_release _).mpr hcap)

theorem not_irrelevant {o o' : EpochOrders} (hv : o.Valid r height) (hv' : o'.Valid r height)
    (hk : ((r.updateEpoch height o).1.validators.get k).map (·.status) = some .active)
    (hk' : ((r.updateEpoch height o').1.validators.get k).map (·.status) = some .pending) :
    ¬ EpochOrderIrrelevant r height := by
  intro h
  rw [(h o o' hv hv').1 k, hk'] at hk
  exact absurd hk (by decide)

/-- A stake tie across the free seats: two orders disagree on who is activated. -/
theorem not_irrelevant_of_undecided_slots
    (h : ¬ SeatsDecided r.validators (eligible height) (activationSlots r.validators)) :
    ¬ EpochOrderIrrelevant r height := by
  rw [← @seatsDecided_released r height _ eligible_release,
    ← activationSlots_released r height] at h
  obtain ⟨order, ho⟩ := exists_enumeration (r.released height)
  rw [← cleanCut_iff_seatsDecided ho] at h
  obtain ⟨x, hx, l1, l2, hp1, hp2, hs1, hs2, hin, hout⟩ :=
    exists_orders_of_not_cleanCut weakOrder_stakeMore ((nodup_of_enumeration ho).filter _) h
  obtain ⟨order1, ho1, heq1⟩ := exists_order_of_candidates ho hp1 hs1
  obtain ⟨order2, ho2, heq2⟩ := exists_order_of_candidates ho hp2 hs2
  -- there is a free seat, so step 4 does nothing in either run
  have hfree : activeCount r.validators ≤ maxValidators := by
    rw [← activeCount_released r height]
    by_contra hfull
    rw [activationSlots, if_neg (by omega)] at hin
    exact absurd hin not_mem_nil
  obtain ⟨active1, ha1⟩ :=
    exists_enumeration (activatePending height order1 (r.released height))
  obtain ⟨active2, ha2⟩ :=
    exists_enumeration (activatePending height order2 (r.released height))
  obtain ⟨o1, hv1, rfl, rfl⟩ := exists_valid ho1 ha1
  obtain ⟨o2, hv2, rfl, rfl⟩ := exists_valid ho2 ha2
  obtain ⟨hmem, helig⟩ := mem_filter.mp hx
  have hget := (ho.2 x.1 x.2).mp hmem
  refine not_irrelevant hv1 hv2 (k := x.1) ?_ ?_
  · rw [updateEpoch_get_free hv1 hget hfree, chosen, heq1, if_pos hin]
    rfl
  · rw [updateEpoch_get_free hv2 hget hfree, chosen, heq2, if_neg hout]
    unfold eligible at helig
    simp only [Bool.and_eq_true, decide_eq_true_eq] at helig
    exact congrArg some helig.1

/-- A stake tie across the cap: two orders disagree on who is demoted. -/
theorem not_irrelevant_of_undecided_cap
    (h : ¬ SeatsDecided r.validators (fun e => e.status = .active) maxValidators) :
    ¬ EpochOrderIrrelevant r height := by
  rw [← @seatsDecided_released r height _ active_release] at h
  obtain ⟨order, ho⟩ := exists_enumeration (r.released height)
  rw [← cleanCut_iff_seatsDecided ho] at h
  obtain ⟨x, hx, l1, l2, hp1, hp2, hs1, hs2, hin, hout⟩ :=
    exists_orders_of_not_cleanCut weakOrder_stakeMore ((nodup_of_enumeration ho).filter _) h
  -- more than 21 active validators, so step 3 does nothing in either run
  have hfull : maxValidators ≤ activeCount (r.released height) := by
    have hlen : l2.length = activeCount (r.released height) :=
      hp2.length_eq.trans (length_withStatus_active ho)
    by_contra hlt
    rw [take_of_length_le (by omega)] at hout
    exact hout (hp2.mem_iff.mpr hx)
  have hsame : activatePending height order (r.released height) = r.released height :=
    activatePending_of_full _ _ hfull
  -- an enumeration whose active validators stand in a given sorted order
  have horder : ∀ l : ValidatorOrder, l.Perm (withStatus .active order) → Sorted stakeMore l →
      ∃ a ∈ (r.released height).enumerations,
        sortSlice stakeMore (withStatus .active a) = l := fun l hp hs => by
    have hperm : (l ++ order.filter fun y => !decide (y.2.status = .active)).Perm order :=
      (hp.append_right _).trans (filter_append_perm _ order)
    refine ⟨_, mem_enumerations_of_perm ho hperm, ?_⟩
    have hall : withStatus .active (l ++ order.filter fun y => !decide (y.2.status = .active)) =
        l := by
      rw [withStatus, filter_append,
        filter_eq_self.mpr fun y hy => (mem_filter.mp (hp.mem_iff.mp hy)).2]
      simp
    rw [hall, sortSlice_of_sorted hs]
  obtain ⟨a1, ha1, heq1⟩ := horder l1 hp1 hs1
  obtain ⟨a2, ha2, heq2⟩ := horder l2 hp2 hs2
  have ha1' := ha1
  have ha2' := ha2
  rw [← hsame] at ha1' ha2'
  obtain ⟨o1, hv1, rfl, rfl⟩ := exists_valid ho ha1'
  obtain ⟨o2, hv2, hpend, rfl⟩ := exists_valid ho ha2'
  obtain ⟨hmem, hactive⟩ := mem_filter.mp hx
  have hget := (ho.2 x.1 x.2).mp hmem
  rw [activeCount_released] at hfull
  refine not_irrelevant hv1 hv2 (k := x.1) ?_ ?_
  · rw [updateEpoch_get_full hv1 hget hfull, if_neg]
    · exact congrArg some (by simpa using hactive)
    · exact fun hd => ((mem_demoted_iff ha1 x).mp hd).2 (by rw [heq1]; exact hin)
  · rw [updateEpoch_get_full hv2 hget hfull, if_pos]
    · rfl
    · refine (mem_demoted_iff ha2 x).mpr ⟨mem_filter.mpr ⟨?_, hactive⟩, by rw [heq2]; exact hout⟩
      exact (enumerations_perm ha2 ho).mem_iff.mpr hmem

end

/-- **Map order and the epoch transition**: every order of the validators map leads to the same
statuses and the same active set exactly when no stake tie lies across the free seats of the epoch
or across the cap of 21. -/
theorem updateEpoch_order_irrelevant_iff (r : ValidatorRegistry) (height : Nat) :
    EpochOrderIrrelevant r height ↔
      SeatsDecided r.validators (eligible height) (activationSlots r.validators) ∧
        SeatsDecided r.validators (fun e => e.status = .active) maxValidators := by
  constructor
  · intro h
    constructor
    · by_contra hslots
      exact not_irrelevant_of_undecided_slots hslots h
    · by_contra hcap
      exact not_irrelevant_of_undecided_cap hcap h
  · rintro ⟨hslots, hcap⟩ o o' hv hv'
    have hsame := rebalanced_congr hv hv' hslots hcap
    have hfinal := hv'.final
    rw [← hsame] at hfinal
    refine ⟨fun k => ?_, activeSet_congr hv.final hfinal⟩
    show ((r.rebalanced height o).get k).map _ = ((r.rebalanced height o').get k).map _
    rw [hsame]

/-- One active validator and four pending ones with the same stake, three free seats. -/
def tiedRegistry : ValidatorRegistry where
  validators := ([1, 2, 3, 4, 5] : List UInt8).foldl (fun m b =>
    m.set (replicate 32 b)
      { pubKey := replicate 32 b, stakeNAPR := minStakeNAPR
        status := if b = 1 then .active else .pending, stakeGeneration := 1 }) ∅

/-- Four equal stakes for three seats: who gets a seat depends on the order of the map. -/
theorem tiedRegistry_order_matters : ¬ EpochOrderIrrelevant tiedRegistry 100 := by
  have hundecided : ¬ SeatsDecided tiedRegistry.validators (eligible 100)
      (activationSlots tiedRegistry.validators) := by
    intro h
    have hk := h (replicate 32 2)
    revert hk
    decide
  exact not_irrelevant_of_undecided_slots hundecided

end Aperod
