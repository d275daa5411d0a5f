import Aperod.Core.Equiv.TxVerifier
import Aperod.Core.Equiv.UTXO
import Mathlib.Data.ZMod.Basic
import Mathlib.Algebra.Order.BigOperators.Group.List

/-!
# A spend creates no value

The balance check of `verifyTx` is an equation between curve points, so it only binds committed
values modulo the group order.  Here it is lifted to the integers.

What is assumed of the cryptography is the structure `Openings`: a commitment opens to one value
modulo the group order, a range proof bounds that value by `2 ^ 64`, and an accepted CLSAG names a
ring commitment with the value of the pseudo-output.  The proof reads the value of every input off
the ring binding (`provenMember_value`), the bound of every output off its range proof
(`outputs_value_lt`), and uses that both integer sums are below the group order.
-/

namespace Aperod

open Go Transaction TxVerifier List

variable {u : UTXO} {inp : RingInput} {tx : Transaction}

/-- What the commitments and the proofs about them establish. -/
structure Openings (C : Primitives) where
  /-- The value a point of the group commits to; a commitment has one opening. -/
  val : C.Group →+ ZMod groupOrder
  val_commit : ∀ v r c p, C.commit v r = .ok c → C.pointFromBytes c = .ok p →
    val p = (v : ZMod groupOrder)
  /-- An accepted range proof is about a commitment to a value in `[0, 2 ^ 64)`. -/
  range_sound : ∀ proof, C.verifyRange (some proof) = .ok true →
    ∃ p, C.pointFromBytes proof.valueCommit = .ok p ∧ (val p).val < 2 ^ 64
  /-- An accepted CLSAG proves that some ring commitment minus the pseudo-output commits to 0. -/
  clsag_sound : ∀ msg ring commits pseudo sig,
    C.clsagVerify msg ring commits pseudo sig = .ok true →
    ∃ (j : Nat) (c : Commitment) (p q : C.Group), commits[j]? = some c ∧ C.pointFromBytes c = .ok p ∧
      C.pointFromBytes pseudo = .ok q ∧ val (p - q) = 0

variable {C : Externals}

namespace Openings

variable (O : Openings C)

/-- The value, modulo the group order, of the commitment `c`. -/
def Opens (c : Commitment) (x : ZMod groupOrder) : Prop :=
  ∃ p, C.pointFromBytes c = .ok p ∧ O.val p = x

variable {c : Commitment} {x : ZMod groupOrder}

/-- The integer value a commitment stands for: the least residue of what it opens to. -/
def value (c : Commitment) : Nat :=
  match C.pointFromBytes c with
  | .ok p => (O.val p).val
  | .error _ => 0

theorem Opens.value_eq {O : Openings C} (h : O.Opens c x) : O.value c = x.val := by
  obtain ⟨p, hp, rfl⟩ := h
  simp [value, hp]

theorem Opens.cast_value {O : Openings C} (h : O.Opens c x) :
    (O.value c : ZMod groupOrder) = x := by
  rw [h.value_eq, ZMod.natCast_val, ZMod.cast_id', id]

/-- Every output of the set commits to a value below `2 ^ 64`. -/
def SetBounded (s : UTXOSet) : Prop :=
  ∀ m u, s.getByPubKey m = some u ∨ s.getRingMember m = some u →
    O.value u.amountCommit < 2 ^ 64

/-- The output an accepted input is proven to spend: the disclosed member of a v4 ring, or a member
of a CLSAG ring whose commitment has the value of the pseudo-output. -/
def ProvenMember (s : UTXOSet) (tx : Transaction) (inp : RingInput) (u : UTXO) : Prop :=
  if tx.usesCLSAG then
    ∃ (j : Nat) (m : Point32) (p q : C.Group), inp.ring[j]? = some m ∧ s.getRingMember m = some u ∧
      inp.ringCommitments[j]? = some u.amountCommit ∧ C.pointFromBytes u.amountCommit = .ok p ∧
      C.pointFromBytes inp.pseudoOut = .ok q ∧ O.val (p - q) = 0
  else
    ∃ m, inp.ring[inp.realIndex.toNat]? = some m ∧ s.getByPubKey m = some u

end Openings

/-! ### Sums modulo the group order -/

theorem sum_le_of_forall_lt {l : List Nat} {B n : Nat} (hl : l.length ≤ n)
    (h : ∀ x ∈ l, x < B) : l.sum ≤ n * B := by
  have hsum : l.sum ≤ l.length * B := by
    have := sum_le_card_nsmul l B fun x hx => (h x hx).le
    simpa using this
  exact hsum.trans (Nat.mul_le_mul_right B hl)

variable {α β : Type} {R : α → β → Prop} {l : List α}

theorem map_eq_of_forall₂ {γ : Type} {f : α → γ} {g : β → γ} {l' : List β} (h : List.Forall₂ R l l')
    (hfg : ∀ a ∈ l, ∀ b, R a b → g b = f a) :
    l'.map g = l.map f := by
  induction h with
  | nil => rfl
  | @cons a b l l' hab _ ih =>
    rw [map_cons, map_cons, hfg a mem_cons_self b hab,
      ih fun x hx => hfg x (mem_cons_of_mem a hx)]

theorem Openings.SetBounded.provenMember {O : Openings C} {s : UTXOSet}
    (hset : O.SetBounded s)
    (h : O.ProvenMember s tx inp u) : O.value u.amountCommit < 2 ^ 64 := by
  unfold Openings.ProvenMember at h
  split_ifs at h
  · obtain ⟨j, m, p, q, -, hu, -⟩ := h
    exact hset m u (Or.inr hu)
  · obtain ⟨m, -, hu⟩ := h
    exact hset m u (Or.inl hu)

section

variable (O : Openings C)

theorem val_sum_eq {cs : List Commitment} {pts : List C.Group}
    (h : List.Forall₂ (fun c p => C.pointFromBytes c = .ok p) cs pts) :
    O.val pts.sum = ((cs.map O.value).sum : ZMod groupOrder) := by
  induction h with
  | nil => simp
  | @cons c p cs pts hc _ ih =>
    have hv : (O.value c : ZMod groupOrder) = O.val p := Openings.Opens.cast_value ⟨p, hc, rfl⟩
    simp only [sum_cons, map_cons, map_add, Nat.cast_add, ih, hv]

theorem balance_mod {txHash : Hash32}
    (hfee : checkFeeCommit C txHash tx = .ok ())
    (hbal : checkBalance C txHash tx = .ok ()) :
    (((tx.inputs.map fun inp => O.value (inputCommit tx inp)).sum : Nat) :
        ZMod groupOrder) =
      (((tx.outputs.map fun out => O.value out.amountCommit).sum + tx.fee.toNat : Nat) :
        ZMod groupOrder) := by
  obtain ⟨pin, pout, pf, hin, hout, hpf, hsum⟩ :=
    commitSum_eq_true (checkBalance_spec hbal)
  have hval := congrArg O.val hsum
  rw [map_add, val_sum_eq O hin, val_sum_eq O hout,
    O.val_commit _ _ _ _ (checkFeeCommit_spec hfee) hpf] at hval
  simpa [map_map, Function.comp_def] using hval

variable {v : TxVerifier} {s : UTXOSet} {tx : Transaction} {burns : List UTXOKey} {height : Nat}

theorem exists_provenMember (hs : v.utxos = some s)
    (hr : TxVerifier.RingChecked C v tx burns height) (hshape : tx.TransferShape)
    (hver : tx.usesCLSAG = true ∨ tx.version = .commitmentBinding) :
    ∀ inp ∈ tx.inputs, ∃ u, O.ProvenMember s tx inp u := by
  intro inp hinp
  obtain ⟨i, hi⟩ := List.mem_iff_getElem?.mp hinp
  have hbind := hr.binding s hs i inp hi
  rcases hver with hcl | hv4
  · obtain ⟨sig, hsig, -⟩ := checkRingSignature_clsag (hr.signature i inp hi) hcl
    obtain ⟨j, c, p, q, hj, hp, hq, hpq⟩ := O.clsag_sound _ _ _ _ _ hsig
    obtain ⟨hring, hcommits⟩ := validateInput_clsag (hshape.inputs_ok i inp hi) hcl
    -- the proven commitment sits at a ring position, because the two lists are equally long
    have hjlt : j < inp.ring.length := by
      have := (List.getElem?_eq_some_iff.mp hj).1
      omega
    obtain ⟨u, hu, hcu, -⟩ := checkRingBinding_clsag hbind hcl
      (List.getElem?_eq_getElem hjlt)
    obtain rfl : c = u.amountCommit := Option.some.inj (hj.symm.trans hcu)
    refine ⟨u, ?_⟩
    rw [Openings.ProvenMember, if_pos hcl]
    exact ⟨j, _, p, q, List.getElem?_eq_getElem hjlt, hu, hcu, hp, hq, hpq⟩
  · have hnc : ¬ tx.usesCLSAG = true := by simp [usesCLSAG, hv4]
    obtain ⟨m, u, hm, hu, -⟩ := checkRingBinding_v4 hbind hv4
    refine ⟨u, ?_⟩
    rw [Openings.ProvenMember, if_neg hnc]
    exact ⟨m, hm, hu⟩

theorem provenMember_value (hs : v.utxos = some s)
    (hr : TxVerifier.RingChecked C v tx burns height)
    (hver : tx.usesCLSAG = true ∨ tx.version = .commitmentBinding)
    (hinp : inp ∈ tx.inputs) (hu : O.ProvenMember s tx inp u) :
    O.value u.amountCommit = O.value (inputCommit tx inp) := by
  obtain ⟨i, hi⟩ := List.mem_iff_getElem?.mp hinp
  by_cases hcl : tx.usesCLSAG = true
  · rw [Openings.ProvenMember, if_pos hcl] at hu
    obtain ⟨j, m, p, q, -, -, -, hp, hq, hpq⟩ := hu
    have hval : O.val p = O.val q := by rwa [map_sub, sub_eq_zero] at hpq
    have hin : inputCommit tx inp = inp.pseudoOut := by
      simp [inputCommit, hcl]
    rw [hin, Openings.Opens.value_eq ⟨p, hp, rfl⟩, Openings.Opens.value_eq ⟨q, hq, rfl⟩, hval]
  · have hv4 : tx.version = .commitmentBinding := hver.resolve_left hcl
    rw [Openings.ProvenMember, if_neg hcl] at hu
    obtain ⟨m, hm, hmu⟩ := hu
    obtain ⟨m', u', hm', hu', hcommit⟩ :=
      checkRingBinding_v4 (hr.binding s hs i inp hi) hv4
    obtain rfl : m = m' := Option.some.inj (hm.symm.trans hm')
    obtain rfl : u = u' := Option.some.inj (hmu.symm.trans hu')
    have hin : inputCommit tx inp = inp.amountCommit := by
      simp [inputCommit, hcl]
    rw [hin, hcommit]

theorem outputs_value_lt (hr : TxVerifier.RingChecked C v tx burns height)
    (hshape : tx.TransferShape) : ∀ out ∈ tx.outputs, O.value out.amountCommit < 2 ^ 64 := by
  intro out hout
  obtain ⟨i, hi⟩ := List.mem_iff_getElem?.mp hout
  have hilt : i < tx.rangeProofs.length := by
    have := (List.getElem?_eq_some_iff.mp hi).1
    rw [hshape.rangeProofs_length]
    exact this
  obtain ⟨p, out', hver, hout', hcommit⟩ :=
    checkRangeProof_spec (hr.range i _ (List.getElem?_eq_getElem hilt))
  obtain rfl : out = out' := Option.some.inj (hi.symm.trans hout')
  obtain ⟨q, hq, hlt⟩ := O.range_sound p hver
  rw [hcommit] at hq
  rwa [Openings.Opens.value_eq ⟨q, hq, rfl⟩]

/-- **Conservation**: an accepted v4, CLSAG or AVM spend creates no value.  Its proven input members
exist, and whatever members are proven, their integer values add up to the values of the outputs
plus the fee. -/
theorem verifyTx_value_conserved (hs : v.utxos = some s) (hset : O.SetBounded s)
    (hver : tx.version = .commitmentBinding ∨ tx.version = .clsag ∨ tx.version = .avm)
    (hpos : 0 < tx.inputs.length) (hlen : tx.inputs.length < 2 ^ 128)
    (h : v.verifyTx C tx burns height = .ok ()) :
    (∃ members, List.Forall₂ (O.ProvenMember s tx) tx.inputs members) ∧
    ∀ members, List.Forall₂ (O.ProvenMember s tx) tx.inputs members →
      (members.map fun u => O.value u.amountCommit).sum =
        (tx.outputs.map fun out => O.value out.amountCommit).sum + tx.fee.toNat := by
  have hin : tx.inputs ≠ [] := ne_nil_of_length_pos hpos
  have hkind : tx.usesCLSAG = true ∨ tx.version = .commitmentBinding := by
    rcases hver with hv | hv | hv <;> simp [usesCLSAG, hv]
  have htrans : tx.version.isTransfer = true := by
    rcases hver with hv | hv | hv <;> simp [TxVersion.isTransfer, hv]
  have hposn : tx.isLPoDPosition = false := by
    rcases hver with hv | hv | hv <;> simp [isLPoDPosition, hv]
  have hshape := validateTransfer_spec
    (validate_transfer (verifyTx_validate h) htrans).2 hin
  have hr := verifyRingTx_spec (verifyTx_ring h hposn hin)
  refine ⟨exists_forall₂_iff.mpr (exists_provenMember O hs hr hshape hkind), fun members hmem => ?_⟩
  have hvalues : (members.map fun u => O.value u.amountCommit) =
      tx.inputs.map fun inp => O.value (inputCommit tx inp) :=
    map_eq_of_forall₂ hmem fun inp hinp u hu => provenMember_value O hs hr hkind hinp hu
  -- both sides are far below the group order
  have hinlt : (members.map fun u => O.value u.amountCommit).sum ≤ 2 ^ 128 * 2 ^ 64 := by
    refine sum_le_of_forall_lt ?_ fun x hx => ?_
    · rw [length_map, ← hmem.length_eq]; exact hlen.le
    · obtain ⟨u, hu, rfl⟩ := mem_map.mp hx
      obtain ⟨inp, -, hpm⟩ := exists_left_of_forall₂ hmem hu
      exact hset.provenMember hpm
  have houtlt : (tx.outputs.map fun out => O.value out.amountCommit).sum ≤ 16 * 2 ^ 64 := by
    refine sum_le_of_forall_lt (by simpa using hshape.outputs_le) fun x hx => ?_
    obtain ⟨out, hout, rfl⟩ := mem_map.mp hx
    exact outputs_value_lt O hr hshape out hout
  have hfee : tx.fee.toNat < 2 ^ 64 := tx.fee.toNat_lt
  have hmod := balance_mod O hr.fee hr.balance
  rw [← hvalues] at hmod
  have hbound : 16 * 2 ^ 64 + 2 ^ 64 < groupOrder := by decide
  rwa [ZMod.natCast_eq_natCast_iff', Nat.mod_eq_of_lt (hinlt.trans_lt (by decide)),
    Nat.mod_eq_of_lt (by omega)] at hmod

end

/-! ### An instance -/

/-- The transparent instance meets the assumptions on commitments and proofs. -/
def transparentOpenings : Openings transparent where
  val := Int.castAddHom (ZMod groupOrder)
  val_commit := by
    intro v r c p hc hp
    change (if v < 2 ^ 64 then _ else _) = _ at hc
    split_ifs at hc with hlt
    · cases hc
      cases hp
      have hmod : (BitVec.ofNat (8 * 32) v).toNat = v := by
        rw [BitVec.toNat_ofNat, Nat.mod_eq_of_lt (by omega)]
      show (((BitVec.ofNat (8 * 32) v).toNat : Int) : ZMod groupOrder) = v
      rw [hmod, Int.cast_natCast]
    · cases hc
  range_sound := by
    intro proof h
    have hlt : proof.valueCommit.toNat < 2 ^ 64 := by
      simpa [transparent, transparentPrimitives] using h
    refine ⟨_, rfl, ?_⟩
    show (((proof.valueCommit.toNat : Int) : ZMod groupOrder)).val < 2 ^ 64
    rwa [Int.cast_natCast, ZMod.val_natCast_of_lt (hlt.trans (by decide))]
  clsag_sound := by
    intro msg ring commits pseudo sig h
    have hboth : (sig.keyImage, pseudo) ∈ ring.zip commits ∧
        transparentKnown sig.keyImage = true := by
      simpa [transparent, transparentPrimitives] using h
    obtain ⟨j, hj⟩ := List.mem_iff_getElem?.mp (of_mem_zip hboth.1).2
    refine ⟨j, pseudo, _, _, hj, rfl, rfl, ?_⟩
    show (((pseudo.toNat : Int) - (pseudo.toNat : Int) : Int) : ZMod groupOrder) = 0
    rw [sub_self, Int.cast_zero]

theorem exampleSet_bounded : transparentOpenings.SetBounded exampleSet := by
  intro m u hu
  have hmem : exampleSet.byPubKey.get m = some u := by
    rcases hu with hu | hu
    · exact hu
    · rcases UTXOSet.getRingMember_cases hu with h | h | ⟨store, h, -⟩
      · exact h
      · simp [exampleSet] at h
      · simp [exampleSet] at h
  rw [exampleSet, GoMap.get_set] at hmem
  split_ifs at hmem
  · cases hmem; decide
  · simp at hmem

/-- The theorem applies: the example spends 7 = 5 + 2. -/
theorem exampleSpend_conserved :
    (∃ members, List.Forall₂ (transparentOpenings.ProvenMember exampleSet exampleSpend)
      exampleSpend.inputs members) ∧
    ∀ members, List.Forall₂ (transparentOpenings.ProvenMember exampleSet exampleSpend)
        exampleSpend.inputs members →
      (members.map fun u => transparentOpenings.value u.amountCommit).sum =
        (exampleSpend.outputs.map fun out => transparentOpenings.value out.amountCommit).sum +
          exampleSpend.fee.toNat :=
  @verifyTx_value_conserved transparent transparentOpenings { utxos := some exampleSet } exampleSet
    exampleSpend [] 1 rfl exampleSet_bounded (Or.inl rfl) (by decide) (by decide) rfl

end Aperod
