import Aperod.Core.TxBuilder
import Aperod.Core.Equiv.Wallet

/-!
# What the builders put together

Spec lemmas for the stages of `Build` and `BuildMulti`, one for each, so that what follows about a
built transaction never unfolds a builder.
-/

namespace Aperod

open Go Scalar List

variable {C : Externals} {K : Curve C}

/-! ### Rings -/

theorem fillRing_getElem? {realIdx : Nat} {fakeKey : Nat → Point32} {pub : Point32}
    {slots : List Nat} {decoys : List DecoyUTXO} {seen : List Point32} {ring : List Point32}
    {fallbacks : Nat} (h : fillRing realIdx fakeKey pub slots decoys seen = .ok (ring, fallbacks))
    {k : Nat} (hk : slots[k]? = some realIdx) : ring[k]? = some pub := by
  induction slots generalizing decoys seen ring fallbacks k with
  | nil => simp at hk
  | cons i slots ih =>
    unfold fillRing at h
    split_ifs at h with hi
    · obtain ⟨⟨ring', n⟩, hrest, h⟩ := unbind h
      cases h
      cases k with
      | zero => rfl
      | succ k => exact ih hrest (by simpa using hk)
    · -- another slot: the real one comes later
      cases k with
      | zero => exact absurd (by simpa using hk) hi
      | succ k =>
        have hk' : slots[k]? = some realIdx := by simpa using hk
        cases decoys with
        | cons d decoys =>
          replace h := past h
          obtain ⟨⟨ring', n⟩, hrest, h⟩ := unbind h
          cases h
          exact ih hrest hk'
        | nil =>
          obtain ⟨⟨ring', n⟩, hrest, h⟩ := unbind h
          cases h
          exact ih hrest hk'

theorem fillCommitments_getElem? {realIdx : Nat} {real : Commitment} {slots : List Nat}
    {decoys : List DecoyUTXO} {commits : List Commitment}
    (h : fillCommitments realIdx real slots decoys = .ok commits) {k : Nat}
    (hk : slots[k]? = some realIdx) : commits[k]? = some real := by
  induction slots generalizing decoys commits k with
  | nil => simp at hk
  | cons j slots ih =>
    unfold fillCommitments at h
    split_ifs at h with hj
    · obtain ⟨commits', hrest, h⟩ := unbind h
      cases h
      cases k with
      | zero => rfl
      | succ k => exact ih hrest (by simpa using hk)
    · cases k with
      | zero => exact absurd (by simpa using hk) hj
      | succ k =>
        cases decoys with
        | cons d decoys =>
          obtain ⟨commits', hrest, h⟩ := unbind h
          cases h
          exact ih hrest (by simpa using hk)
        | nil => cases h

/-- `inp` spends `u`, hidden at position `pos`. -/
structure RingInput.Hides (inp : RingInput) (u : OwnedUTXO) (pos : Nat) : Prop where
  amountCommit : inp.amountCommit = u.amountCommit
  member : inp.ring[pos]? = some u.oneTimePub

variable {n i : Nat} {rnd : Entropy} {amount : UInt64} {blind : BlindFactor} {out : Output}
  {r : Scalar} {addr : Address}

namespace TxBuilder

variable {b : TxBuilder} {path : BuildPath}

theorem ringInput_eq_ok {allDecoys : List DecoyUTXO} {i : Nat} {u : OwnedUTXO} {s : SigningInput}
    (h : b.ringInput K path rnd allDecoys i u = .ok s) :
    s.source = u ∧ s.input.Hides u (rnd.ringPosition i) ∧
      (path.clsag b.txVersion = true →
        s.input.ringCommitments[(rnd.ringPosition i).val]? = some u.amountCommit) := by
  obtain ⟨priv, -, h⟩ := unbind h
  replace h := past h
  obtain ⟨⟨ring, fallbacks⟩, hring, h⟩ := unbind h
  obtain ⟨ki, -, h⟩ := unbind h
  have hmember : ring[(rnd.ringPosition i).val]? = some u.oneTimePub :=
    fillRing_getElem? (wrap_eq_ok.mp hring) (List.getElem?_range (Fin.isLt _))
  split_ifs at h with hcl
  · obtain ⟨commits, hcommits, h⟩ := unbind h
    cases h
    exact ⟨rfl, ⟨rfl, hmember⟩, fun _ =>
      fillCommitments_getElem? hcommits (List.getElem?_range (Fin.isLt _))⟩
  · cases h
    exact ⟨rfl, ⟨rfl, hmember⟩, fun hcl' => absurd hcl' hcl⟩

end TxBuilder

/-! ### Pseudo outputs -/

@[simp] theorem blindScalar_feeBlind : blindScalar feeBlind = 0 := blindScalar_zero

theorem fee_blinds_sum (entries : List OutEntry) :
    ((feeBlind :: entries.map (·.blind)).map blindScalar).sum =
      (entries.map fun e => blindScalar e.blind).sum := by
  rw [map_cons, sum_cons, blindScalar_feeBlind, zero_add, map_map]
  rfl

/-- The blind of the `i`-th of `n` pseudo outputs, as a scalar: drawn, and for the last one what is
left of the sum `total` of the outputs' blinds. -/
def pseudoScalar (rnd : Entropy) (n : Nat) (total : Scalar) (i : Nat) : Scalar :=
  if i + 1 < n then rnd.pseudoBlind i
  else total - ((range (n - 1)).map rnd.pseudoBlind).sum

theorem map_blindScalar_bytes (l : List Nat) (f : Nat → Scalar) :
    (l.map fun i => bytes (f i)).map blindScalar = l.map f := by
  rw [map_map]
  apply map_congr_left
  intro i _
  exact blindScalar_bytes (f i)

theorem pseudoBlinds_eq_ok {outBlinds blinds : List BlindFactor}
    (h : pseudoBlinds rnd n outBlinds = .ok blinds) :
    0 < n ∧ blinds = (range n).map fun i =>
      bytes (pseudoScalar rnd n (outBlinds.map blindScalar).sum i) := by
  unfold pseudoBlinds at h
  split_ifs at h with hn
  obtain ⟨last, hlast, h⟩ := unbind h
  cases h
  refine ⟨Nat.pos_of_ne_zero hn, ?_⟩
  have hlast' := blindSum_eq_ok (wrap_eq_ok.mp hlast)
  rw [map_blindScalar_bytes] at hlast'
  obtain ⟨m, rfl⟩ := Nat.exists_eq_succ_of_ne_zero hn
  rw [range_succ, map_append, map_singleton]
  congr 1
  · apply map_congr_left
    intro i hi
    have him : i + 1 < m + 1 := by
      have := mem_range.mp hi
      omega
    rw [pseudoScalar, if_pos him]
  · rw [hlast', pseudoScalar, if_neg (by omega)]

/-- The blinds of the pseudo outputs add up to those of the outputs. -/
theorem sum_pseudoScalar (rnd : Entropy) (hn : 0 < n) (total : Scalar) :
    ((range n).map (pseudoScalar rnd n total)).sum = total := by
  obtain ⟨m, rfl⟩ := Nat.exists_eq_succ_of_ne_zero hn.ne'
  have hdrawn : (range m).map (pseudoScalar rnd (m + 1) total) =
      (range m).map rnd.pseudoBlind := by
    apply map_congr_left
    intro i hi
    have := mem_range.mp hi
    rw [pseudoScalar, if_pos (by omega)]
  rw [Nat.succ_eq_add_one, range_succ, map_append, map_singleton, sum_append,
    sum_singleton, hdrawn, pseudoScalar, if_neg (by omega), Nat.add_sub_cancel,
    add_sub_cancel]

/-! ### Assembly -/

theorem setKeyImages_getElem? {inputs : List RingInput} {images : List KeyImage}
    (hlen : images.length = inputs.length) {inp : RingInput} (hi : inputs[i]? = some inp) :
    ∃ ki, (setKeyImages inputs images)[i]? = some { inp with keyImage := ki } := by
  have hlt : i < images.length := by
    rw [hlen]
    exact (List.getElem?_eq_some_iff.mp hi).1
  refine ⟨images[i], ?_⟩
  unfold setKeyImages
  rw [List.getElem?_zipWith, hi, List.getElem?_eq_getElem hlt]

theorem setKeyImages_length {inputs : List RingInput} {images : List KeyImage}
    (hlen : images.length = inputs.length) : (setKeyImages inputs images).length = inputs.length := by
  unfold setKeyImages
  rw [length_zipWith, hlen, Nat.min_self]

/-- What the transaction put together from `plan` carries. -/
structure Assembled (b : TxBuilder) (path : BuildPath) (rnd : Entropy) (plan : BuildPlan)
    (C : Externals) (tx : Transaction) : Prop where
  version : tx.version = b.txVersion
  outputs : tx.outputs = plan.entries.map (·.output)
  fee : tx.fee = plan.fee
  feeCommit : tx.feeCommit = plan.feeCommit
  extra : tx.extra = plan.extra
  avm : tx.avm = plan.avm
  rangeProofs : tx.rangeProofs.length = plan.entries.length
  inputs : tx.inputs.length = plan.selected.length
  signatures : tx.signatures.length =
    if path.clsag b.txVersion then 0 else plan.selected.length
  hides : ∀ (i : Nat) (u : OwnedUTXO), plan.selected[i]? = some u →
    ∃ inp : RingInput, tx.inputs[i]? = some inp ∧ inp.Hides u (rnd.ringPosition i)
  /-- In the CLSAG path, the ring commitments and the pseudo outputs. -/
  clsag : path.clsag b.txVersion = true → 0 < plan.selected.length ∧
    ∀ (i : Nat) (u : OwnedUTXO), plan.selected[i]? = some u →
      ∃ inp : RingInput, tx.inputs[i]? = some inp ∧
      inp.ringCommitments[(rnd.ringPosition i).val]? = some u.amountCommit ∧
      C.commit u.amount.toNat (bytes (pseudoScalar rnd plan.selected.length
        (plan.entries.map fun e => blindScalar e.blind).sum i)) = .ok inp.pseudoOut

theorem setPseudoOut_eq_ok {path : BuildPath} {blinds : List BlindFactor} {s s' : SigningInput}
    (h : setPseudoOut (C := C) path blinds i s = .ok s') :
    ∃ blind pseudoOut, blinds[i]? = some blind ∧
      C.commit s.source.amount.toNat blind = .ok pseudoOut ∧
      s'.input = { s.input with pseudoOut } := by
  obtain ⟨blind, hblind, h⟩ := unbind h
  obtain ⟨pseudoOut, hcommit, h⟩ := unbind h
  cases h
  exact ⟨blind, pseudoOut, index_eq_ok.mp hblind, wrap_eq_ok.mp hcommit, rfl⟩

namespace TxBuilder

variable {b : TxBuilder} {path : BuildPath} {plan : BuildPlan} {allDecoys : List DecoyUTXO}
  {ins : List SigningInput} {proofs : List RangeProof} {tx : Transaction}

theorem completeMLSAG_eq_ok (hcl : path.clsag b.txVersion = false)
    (hins : mapLoop (b.ringInput K path rnd allDecoys) 0 plan.selected = .ok ins)
    (hproofs : proofs.length = plan.entries.length)
    (h : b.completeMLSAG K path rnd plan ins proofs = .ok tx) :
    Assembled b path rnd plan C tx := by
  obtain ⟨sigs, hsigs, h⟩ := unbind h
  cases h
  have hlen : ins.length = plan.selected.length := mapLoop_length hins
  have hsigsLen : sigs.length = ins.length := mapLoop_length hsigs
  have himages : (sigs.map (·.keyImage)).length = (ins.map (·.input)).length := by
    rw [length_map, length_map, hsigsLen]
  refine ⟨rfl, rfl, rfl, rfl, rfl, rfl, by simpa [unsigned] using hproofs, ?_, ?_, ?_, ?_⟩
  · show (setKeyImages (ins.map (·.input)) (sigs.map (·.keyImage))).length = _
    rw [setKeyImages_length himages, length_map, hlen]
  · show (sigs.map some).length = _
    rw [hcl, if_neg (by decide), length_map, hsigsLen, hlen]
  · intro i u hu
    obtain ⟨s, hs, hring⟩ := mapLoop_getElem? hins hu
    obtain ⟨-, hhides, -⟩ := ringInput_eq_ok hring
    rw [Nat.zero_add] at hhides
    have hinput : (ins.map (·.input))[i]? = some s.input := by rw [List.getElem?_map, hs]; rfl
    obtain ⟨ki, hki⟩ := setKeyImages_getElem? himages hinput
    exact ⟨_, hki, hhides.amountCommit, hhides.member⟩
  · intro hcl'
    rw [hcl] at hcl'
    exact absurd hcl' (by decide)

theorem completeCLSAG_eq_ok (hcl : path.clsag b.txVersion = true)
    (hins : mapLoop (b.ringInput K path rnd allDecoys) 0 plan.selected = .ok ins)
    (hproofs : proofs.length = plan.entries.length)
    (h : b.completeCLSAG K path rnd plan ins proofs = .ok tx) :
    Assembled b path rnd plan C tx := by
  obtain ⟨blinds, hblinds, h⟩ := unbind h
  obtain ⟨ins', hins', h⟩ := unbind h
  obtain ⟨sigs, hsigs, h⟩ := unbind h
  cases h
  have hlen : ins.length = plan.selected.length := mapLoop_length hins
  have hlen' : ins'.length = ins.length := mapLoop_length hins'
  have hsigsLen : sigs.length = ins'.length := mapLoop_length hsigs
  have himages : (sigs.map (·.keyImage)).length = (ins'.map (·.input)).length := by
    rw [length_map, length_map, hsigsLen]
  obtain ⟨hpos, hclosed⟩ := pseudoBlinds_eq_ok hblinds
  rw [hlen] at hpos hclosed
  rw [fee_blinds_sum] at hclosed
  -- the `i`-th input, before and after its pseudo output is set
  have hinput : ∀ (i : Nat) (u : OwnedUTXO), plan.selected[i]? = some u →
      ∃ (s : SigningInput) (pseudoOut : Commitment) (ki : KeyImage),
      (setKeyImages (ins'.map (·.input)) (sigs.map (·.keyImage)))[i]? =
        some { s.input with pseudoOut := pseudoOut, keyImage := ki } ∧
      s.input.Hides u (rnd.ringPosition i) ∧
      s.input.ringCommitments[(rnd.ringPosition i).val]? = some u.amountCommit ∧
      C.commit u.amount.toNat (bytes (pseudoScalar rnd plan.selected.length
        (plan.entries.map fun e => blindScalar e.blind).sum i)) = .ok pseudoOut := by
    intro i u hu
    obtain ⟨s, hs, hring⟩ := mapLoop_getElem? hins hu
    obtain ⟨hsource, hhides, hcommits⟩ := ringInput_eq_ok hring
    obtain ⟨s', hs', hset⟩ := mapLoop_getElem? hins' hs
    obtain ⟨blind, pseudoOut, hblind, hcommit, hinput⟩ := setPseudoOut_eq_ok hset
    rw [Nat.zero_add] at hhides hcommits hblind
    have hi : i < plan.selected.length := (List.getElem?_eq_some_iff.mp hu).1
    rw [hclosed, List.getElem?_map, List.getElem?_range hi, Option.map_some,
      Option.some.injEq] at hblind
    rw [hsource, ← hblind] at hcommit
    have hmap : (ins'.map (·.input))[i]? = some s'.input := by rw [List.getElem?_map, hs']; rfl
    obtain ⟨ki, hki⟩ := setKeyImages_getElem? himages hmap
    rw [hinput] at hki
    exact ⟨s, pseudoOut, ki, hki, hhides, hcommits hcl, hcommit⟩
  refine ⟨rfl, rfl, rfl, rfl, rfl, rfl, by simpa [unsigned] using hproofs, ?_, by rw [if_pos hcl]; rfl,
    ?_, fun _ => ⟨hpos, ?_⟩⟩
  · show (setKeyImages (ins'.map (·.input)) (sigs.map (·.keyImage))).length = _
    rw [setKeyImages_length himages, length_map, hlen', hlen]
  · intro i u hu
    obtain ⟨s, pseudoOut, ki, hget, hhides, -, -⟩ := hinput i u hu
    exact ⟨_, hget, hhides.amountCommit, hhides.member⟩
  · intro i u hu
    obtain ⟨s, pseudoOut, ki, hget, -, hcommits, hcommit⟩ := hinput i u hu
    exact ⟨_, hget, hcommits, hcommit⟩

theorem complete_eq_ok {fallbacks : Nat}
    (h : b.complete K path rnd plan = .ok (tx, fallbacks)) : Assembled b path rnd plan C tx := by
  obtain ⟨allDecoys, -, h⟩ := unbind h
  obtain ⟨ins, hins, h⟩ := unbind h
  obtain ⟨proofs, hproofs, h⟩ := unbind h
  obtain ⟨tx', htx, h⟩ := unbind h
  cases h
  have hlen : proofs.length = plan.entries.length := mapLoop_length hproofs
  unfold assemble at htx
  split_ifs at htx with hcl
  · exact completeCLSAG_eq_ok hcl hins hlen htx
  · exact completeMLSAG_eq_ok (by simpa using hcl) hins hlen htx

end TxBuilder

/-! ### Outputs -/

/-- The entry's output commits to its amount with its blind. -/
def OutEntry.Opens (C : Primitives) (e : OutEntry) : Prop :=
  C.commit e.amount.toNat e.blind = .ok e.output.amountCommit

/-- The output pays `amount` to a one-time key for `addr`. -/
structure Output.PaysTo (K : Curve C) (out : Output) (addr : Address) (amount : UInt64)
    (so : StealthOutput) : Prop where
  derived : ∃ r, stealthTo K r addr = .ok so
  oneTimePub : out.oneTimePub = so.oneTimePub
  txPubKey : out.txPubKey = so.txPubKey
  encAmount : out.encAmount = encryptAmount C amount so.hsScalar

theorem pay_eq_ok {so : StealthOutput} (hso : stealthTo K r addr = .ok so)
    (h : so.pay C amount blind = .ok out) :
    out.PaysTo K addr amount so ∧ C.commit amount.toNat blind = .ok out.amountCommit := by
  obtain ⟨commit, hcommit, h⟩ := unbind h
  cases h
  exact ⟨⟨⟨r, hso⟩, rfl, rfl, rfl⟩, hcommit⟩

theorem txBuildOutputWithBlind_eq_ok (h : txBuildOutputWithBlind K r addr amount blind = .ok out) :
    ∃ so, out.PaysTo K addr amount so ∧ C.commit amount.toNat blind = .ok out.amountCommit := by
  obtain ⟨so, hso, h⟩ := unbind h
  exact ⟨so, pay_eq_ok hso h⟩

theorem txBuildOutputWithEphemeral_eq_ok {given : Option BlindFactor} {eph : Scalar32}
    (h : txBuildOutputWithEphemeral K r addr amount given = .ok (out, blind, eph)) :
    ∃ so, out.PaysTo K addr amount so ∧ C.commit amount.toNat blind = .ok out.amountCommit ∧
      blind = given.getD (deterministicPaymentBlind K so.hsScalar amount) := by
  obtain ⟨so, hso, h⟩ := unbind h
  obtain ⟨out', hpay, h⟩ := unbind h
  cases h
  obtain ⟨hpays, hcommit⟩ := pay_eq_ok hso hpay
  exact ⟨so, hpays, hcommit, rfl⟩

theorem payEntry_eq_ok {r : BatchRecipient} {e : OutEntry} (h : payEntry K rnd i r = .ok e) :
    e.amount = r.amountNAPR ∧ e.Opens C ∧ ∃ so,
      e.output.PaysTo K r.address r.amountNAPR so ∧
      e.blind = deterministicPaymentBlind K so.hsScalar r.amountNAPR := by
  obtain ⟨⟨out, blind⟩, hout, h⟩ := unbind h
  cases h
  obtain ⟨so, hso, hout⟩ := unbind (wrap_eq_ok.mp hout)
  obtain ⟨out', hpay, hout⟩ := unbind hout
  cases hout
  obtain ⟨hpays, hcommit⟩ := pay_eq_ok hso hpay
  exact ⟨rfl, hcommit, so, hpays, rfl⟩

theorem changeEntry_eq_ok {changeAddr : Address} {changeAmount : UInt64}
    {inBlinds outBlinds : List BlindFactor} {e : OutEntry}
    (h : changeEntry K r changeAddr changeAmount inBlinds outBlinds = .ok e) :
    e.amount = changeAmount ∧ e.Opens C ∧
      blindScalar e.blind = (inBlinds.map blindScalar).sum - (outBlinds.map blindScalar).sum := by
  obtain ⟨blind, hblind, h⟩ := unbind h
  obtain ⟨out, hout, h⟩ := unbind h
  cases h
  obtain ⟨so, -, hcommit⟩ := txBuildOutputWithBlind_eq_ok (wrap_eq_ok.mp hout)
  refine ⟨rfl, hcommit, ?_⟩
  rw [blindSum_eq_ok (wrap_eq_ok.mp hblind), blindScalar_bytes]

/-- The sum of the blinds of the selected inputs. -/
def inTotal (selected : List OwnedUTXO) : Scalar := (selected.map fun u => blindScalar u.blind).sum

theorem map_blind_sum (selected : List OwnedUTXO) :
    ((selected.map (·.blind)).map blindScalar).sum = inTotal selected := by
  rw [map_map]
  rfl

/-- Outputs that open, with the sum of their amounts and the sum of their blinds. -/
structure Outputs (C : Primitives) (entries : List OutEntry) (value : Nat) (total : Scalar) :
    Prop where
  opens : ∀ e ∈ entries, e.Opens C
  value : (entries.map fun e => e.amount.toNat).sum = value
  total : (entries.map fun e => blindScalar e.blind).sum = total

/-- The sum of the blinds of the outputs of `Build`: that of the inputs, except that a burn without
change has no outputs. -/
def outTotal (isBurn : Bool) (changeAmount : UInt64) (selected : List OwnedUTXO) : Scalar :=
  if isBurn = true ∧ changeAmount = 0 then 0 else inTotal selected

section

variable {recipient changeAddr : Address} {f : Funding} {entries : List OutEntry}

theorem buildOutputs_burn (h : buildOutputs K rnd true amount recipient changeAddr f = .ok entries) :
    Outputs C entries f.changeAmount.toNat
      (outTotal true f.changeAmount f.selected) ∧ entries.length ≤ 1 := by
  by_cases hchange : f.changeAmount = 0
  · have hnot : ¬ f.changeAmount > 0 := fun hpos => UInt64.pos_iff_ne_zero.mp hpos hchange
    have hno : ¬ (true = true ∧ f.changeAmount > 0) := fun hpos => hnot hpos.2
    unfold buildOutputs at h
    rw [if_neg hno, if_neg hnot] at h
    cases h
    rw [hchange]
    exact ⟨⟨fun e he => absurd he not_mem_nil, rfl, rfl⟩, by decide⟩
  · have hpos : f.changeAmount > 0 := UInt64.pos_iff_ne_zero.mpr hchange
    have htotal : outTotal true f.changeAmount f.selected = inTotal f.selected :=
      if_neg fun h => hchange h.2
    unfold buildOutputs at h
    rw [if_pos ⟨rfl, hpos⟩] at h
    obtain ⟨change, hch, h⟩ := unbind h
    cases h
    obtain ⟨hamount, hopens, hblind⟩ := changeEntry_eq_ok hch
    refine ⟨⟨by simpa using hopens, by simp [hamount], ?_⟩, Nat.le_refl 1⟩
    rw [map_singleton, hblind, map_blind_sum, htotal]
    simp

/-- The outputs of a payment: the payment first, then the change.  The payment has the deterministic
blind exactly when change remains to balance it. -/
theorem buildOutputs_pay (h : buildOutputs K rnd false amount recipient changeAddr f = .ok entries) :
    Outputs C entries (amount.toNat + f.changeAmount.toNat) (inTotal f.selected) ∧
      entries.length ≤ 2 ∧ ∃ e so, entries[0]? = some e ∧ e.Opens C ∧
        e.amount = amount ∧ e.output.PaysTo K recipient amount so ∧
        e.blind = if f.changeAmount = 0 then bytes (inTotal f.selected)
          else deterministicPaymentBlind K so.hsScalar amount := by
  have hno : ¬ (false = true ∧ f.changeAmount > 0) := by simp
  unfold buildOutputs at h
  rw [if_neg hno] at h
  by_cases hchange : f.changeAmount = 0
  · have hnot : ¬ f.changeAmount > 0 := fun hpos => UInt64.pos_iff_ne_zero.mp hpos hchange
    rw [if_neg hnot] at h
    obtain ⟨payBlind, hblind, h⟩ := unbind h
    obtain ⟨⟨payOut, blind, eph⟩, hpay, h⟩ := unbind h
    cases h
    have hbal := blindSum_eq_ok (wrap_eq_ok.mp hblind)
    have hzero : ([feeBlind].map blindScalar).sum = 0 := by simp
    rw [map_blind_sum, hzero, sub_zero] at hbal
    obtain ⟨so, hpays, hcommit, hgiven⟩ := txBuildOutputWithEphemeral_eq_ok (wrap_eq_ok.mp hpay)
    have hgiven' : blind = payBlind := hgiven
    rw [hgiven'] at hcommit
    refine ⟨⟨?_, by simp [hchange], ?_⟩, by simp,
      ⟨payOut, payBlind, amount, eph⟩, so, rfl, hcommit, rfl, hpays, ?_⟩
    · intro e he
      rw [mem_singleton.mp he]
      exact hcommit
    · rw [map_singleton, sum_singleton, hbal, blindScalar_bytes]
    · rw [if_pos hchange]
      exact hbal
  · rw [if_pos (UInt64.pos_iff_ne_zero.mpr hchange)] at h
    obtain ⟨⟨payOut, payBlind, eph⟩, hpay, h⟩ := unbind h
    obtain ⟨change, hch, h⟩ := unbind h
    cases h
    obtain ⟨so, hpays, hcommit, hdet⟩ := txBuildOutputWithEphemeral_eq_ok (wrap_eq_ok.mp hpay)
    obtain ⟨hamount, hopens, hblind⟩ := changeEntry_eq_ok hch
    refine ⟨⟨?_, ?_, ?_⟩, by simp, ⟨payOut, payBlind, amount, eph⟩, so, rfl, hcommit, rfl, hpays,
      ?_⟩
    · intro e he
      rcases mem_pair.mp he with rfl | rfl
      · exact hcommit
      · exact hopens
    · simp [hamount]
    · rw [map_blind_sum] at hblind
      simp [hblind]
    · rw [if_neg hchange]
      exact hdet

variable {recipients : List BatchRecipient}

def payTotal (recipients : List BatchRecipient) : Nat :=
  (recipients.map fun r => r.amountNAPR.toNat).sum

theorem payEntries_eq_ok {pays : List OutEntry}
    (h : mapLoop (payEntry K rnd) 0 recipients = .ok pays) :
    (∀ e ∈ pays, e.Opens C) ∧
      (pays.map fun e => e.amount.toNat).sum = payTotal recipients := by
  constructor
  · intro e he
    obtain ⟨k, r, -, hr⟩ := mapLoop_mem h he
    exact (payEntry_eq_ok hr).2.1
  · unfold payTotal
    congr 1
    apply mapLoop_map _ h
    intro k r e hr
    rw [(payEntry_eq_ok hr).1]

/-- With change, every payment of a batch has the deterministic blind. -/
theorem buildMultiOutputs_change (hchange : f.changeAmount ≠ 0)
    (h : buildMultiOutputs K rnd recipients changeAddr f = .ok entries) :
    Outputs C entries (payTotal recipients + f.changeAmount.toNat)
        (inTotal f.selected) ∧
      entries.length = recipients.length + 1 ∧
      ∀ (i : Nat) (r : BatchRecipient), recipients[i]? = some r → ∃ (e : OutEntry) (so : _),
        entries[i]? = some e ∧ e.Opens C ∧ e.amount = r.amountNAPR ∧
        e.output.PaysTo K r.address r.amountNAPR so ∧
        e.blind = deterministicPaymentBlind K so.hsScalar r.amountNAPR := by
  unfold buildMultiOutputs at h
  rw [if_pos (UInt64.pos_iff_ne_zero.mpr hchange)] at h
  obtain ⟨pays, hpays, h⟩ := unbind h
  obtain ⟨change, hch, h⟩ := unbind h
  cases h
  obtain ⟨hopen, hvalue⟩ := payEntries_eq_ok hpays
  obtain ⟨hamount, hopens, hblind⟩ := changeEntry_eq_ok hch
  rw [map_blind_sum, fee_blinds_sum] at hblind
  have hlen : pays.length = recipients.length := mapLoop_length hpays
  refine ⟨⟨?_, ?_, ?_⟩, by simp [hlen], ?_⟩
  · intro e he
    rcases mem_append.mp he with he | he
    · exact hopen e he
    · rw [mem_singleton.mp he]
      exact hopens
  · rw [map_append, sum_append, hvalue, map_singleton, sum_singleton, hamount]
  · rw [map_append, sum_append, map_singleton, sum_singleton, hblind,
      add_sub_cancel]
  · intro i r hr
    obtain ⟨e, he, hpay⟩ := mapLoop_getElem? hpays hr
    obtain ⟨ha, ho, so, hp, hb⟩ := payEntry_eq_ok hpay
    have hi : i < pays.length := (List.getElem?_eq_some_iff.mp he).1
    exact ⟨e, so, by rw [List.getElem?_append_left hi, he], ho, ha, hp, hb⟩

theorem buildMultiOutputs_exact (hchange : f.changeAmount = 0)
    (h : buildMultiOutputs K rnd recipients changeAddr f = .ok entries) :
    Outputs C entries (payTotal recipients) (inTotal f.selected) ∧
      entries.length = recipients.length ∧
      ∀ (i : Nat) (r : BatchRecipient), recipients[i]? = some r → ∃ (e : OutEntry) (so : _),
        entries[i]? = some e ∧ e.Opens C ∧ e.amount = r.amountNAPR ∧
        e.output.PaysTo K r.address r.amountNAPR so ∧
        e.blind = if i + 1 < recipients.length then
            deterministicPaymentBlind K so.hsScalar r.amountNAPR
          else bytes (inTotal f.selected -
            (entries.dropLast.map fun e => blindScalar e.blind).sum) := by
  have hnot : ¬ f.changeAmount > 0 := fun hpos => UInt64.pos_iff_ne_zero.mp hpos hchange
  unfold buildMultiOutputs at h
  rw [if_neg hnot] at h
  obtain ⟨pays, hpays, h⟩ := unbind h
  obtain ⟨last, hlast, h⟩ := unbind h
  obtain ⟨lastBlind, hblind, h⟩ := unbind h
  obtain ⟨lastOut, hout, h⟩ := unbind h
  cases h
  obtain ⟨hopen, hvalue⟩ := payEntries_eq_ok hpays
  have hbal := blindSum_eq_ok (wrap_eq_ok.mp hblind)
  rw [map_blind_sum, fee_blinds_sum] at hbal
  obtain ⟨so, hso, hcommit⟩ := txBuildOutputWithBlind_eq_ok (wrap_eq_ok.mp hout)
  have hsplit : recipients = recipients.dropLast ++ [last] :=
    (dropLast_append_getLast? last (deref_eq_ok.mp hlast)).symm
  have hlen : pays.length = recipients.dropLast.length := mapLoop_length hpays
  have hlen' : recipients.length = recipients.dropLast.length + 1 := by
    conv_lhs => rw [hsplit]
    rw [length_append, length_singleton]
  refine ⟨⟨?_, ?_, ?_⟩, by rw [length_append, length_singleton, hlen, ← hlen'], ?_⟩
  · intro e he
    rcases mem_append.mp he with he | he
    · exact hopen e he
    · rw [mem_singleton.mp he]
      exact hcommit
  · have hpay : payTotal recipients = payTotal recipients.dropLast + last.amountNAPR.toNat := by
      conv_lhs => rw [hsplit]
      unfold payTotal
      rw [map_append, sum_append, map_singleton, sum_singleton]
    rw [map_append, sum_append, hvalue, map_singleton, sum_singleton, hpay]
  · rw [map_append, sum_append, map_singleton, sum_singleton, hbal,
      blindScalar_bytes, add_sub_cancel]
  · intro i r hr
    have hi : i < recipients.length := (List.getElem?_eq_some_iff.mp hr).1
    rw [hsplit] at hr
    by_cases hlt : i + 1 < recipients.length
    · -- an earlier payment
      rw [List.getElem?_append_left (by omega)] at hr
      obtain ⟨e, he, hpay⟩ := mapLoop_getElem? hpays hr
      obtain ⟨ha, ho, so', hp, hb⟩ := payEntry_eq_ok hpay
      refine ⟨e, so', ?_, ho, ha, hp, by rw [if_pos hlt]; exact hb⟩
      rw [List.getElem?_append_left (by omega), he]
    · -- the last one
      have hidx : i = recipients.dropLast.length := by omega
      subst hidx
      rw [getElem?_concat_length, Option.some.injEq] at hr
      subst hr
      refine ⟨⟨lastOut, lastBlind, last.amountNAPR, 0⟩, so, ?_, hcommit, rfl, hso, ?_⟩
      · rw [← hlen, getElem?_concat_length]
      · rw [if_neg hlt, dropLast_concat]
        exact hbal

theorem buildOutputs_eq_ok {isBurn : Bool}
    (h : buildOutputs K rnd isBurn amount recipient changeAddr f = .ok entries) :
    Outputs C entries ((if isBurn then 0 else amount.toNat) + f.changeAmount.toNat)
      (outTotal isBurn f.changeAmount f.selected) := by
  cases isBurn with
  | true =>
    rw [if_pos rfl, Nat.zero_add]
    exact (buildOutputs_burn h).1
  | false => exact (buildOutputs_pay h).1

theorem buildMultiOutputs_eq_ok
    (h : buildMultiOutputs K rnd recipients changeAddr f = .ok entries) :
    Outputs C entries (payTotal recipients + f.changeAmount.toNat)
      (inTotal f.selected) := by
  by_cases hchange : f.changeAmount = 0
  · have hout := (buildMultiOutputs_exact hchange h).1
    rw [hchange]
    exact hout
  · exact (buildMultiOutputs_change hchange h).1

theorem checkRecipients_eq_ok {i : Nat} {acc total : UInt64}
    (h : loop (TxBuilder.checkRecipient K) i recipients acc = .ok total) :
    total = acc + UInt64.ofNat (payTotal recipients) := by
  induction recipients generalizing i acc with
  | nil =>
    have hacc : acc = total := Except.ok.inj h
    rw [← hacc]
    exact (UInt64.add_zero acc).symm
  | cons r recipients ih =>
    obtain ⟨acc', hstep, hrest⟩ := loop_cons_eq_ok.mp h
    replace hstep := past hstep
    replace hstep := past hstep
    replace hstep := past hstep
    cases hstep
    have hcons : payTotal (r :: recipients) = r.amountNAPR.toNat + payTotal recipients := by
      unfold payTotal
      rw [map_cons, sum_cons]
    rw [ih hrest, hcons, UInt64.ofNat_add, UInt64.ofNat_toNat, UInt64.add_assoc]

end

/-! ### The two builders -/

theorem validateOwnedUTXOOpening_eq_ok {u : OwnedUTXO}
    (h : validateOwnedUTXOOpening C u = .ok ()) :
    C.commit u.amount.toNat u.blind = .ok u.amountCommit := by
  obtain ⟨c, hc, h⟩ := unbind h
  have heq : c = u.amountCommit := by simpa using h
  rw [← heq]
  exact wrap_eq_ok.mp hc

/-- What `Build` writes into `Extra`. -/
def burnExtra (isBurn : Bool) (amount : UInt64) : Bytes :=
  if isBurn then intentionalBurnExtra amount else []

/-- The stages of a successful `Build`. -/
structure BuiltFrom (K : Curve C) (b : TxBuilder) (rnd : Entropy) (amount : UInt64)
    (recipient changeAddr : Address) (res : BuildResult) (avmBytes : Nat) (gasFee : UInt64)
    (f : Funding) (feeCommit : Commitment) (entries : List OutEntry) : Prop where
  amount_ne_zero : amount ≠ 0
  checkAVM : b.checkAVM C = .ok ()
  avmCost : b.avmCost = .ok (avmBytes, gasFee)
  fund : b.fund amount (if isBurnAddress K recipient then 1 else 2)
    ((burnExtra (isBurnAddress K recipient) amount).length + avmBytes) gasFee = .ok f
  totalFee : TxBuilder.totalFee (isBurnAddress K recipient) amount f.fee = .ok res.totalFee
  feeOpens : C.commit res.totalFee.toNat feeBlind = .ok feeCommit
  opens : ∀ u ∈ f.selected, C.commit u.amount.toNat u.blind = .ok u.amountCommit
  outputs : buildOutputs K rnd (isBurnAddress K recipient) amount recipient changeAddr f = .ok entries
  assembled : Assembled b buildPath rnd
    { selected := f.selected, entries, fee := res.totalFee, feeCommit, avm := b.avmPayload,
      extra := burnExtra (isBurnAddress K recipient) amount } C res.tx
  changeAmount : res.changeAmount = f.changeAmount
  selectedUTXOs : res.selectedUTXOs = f.selected

/-- The stages of a successful `BuildMulti`. -/
structure MultiBuiltFrom (K : Curve C) (b : TxBuilder) (rnd : Entropy)
    (recipients : List BatchRecipient) (changeAddr : Address) (res : BatchBuildResult)
    (totalAmount : UInt64) (f : Funding) (feeCommit : Commitment) (entries : List OutEntry) :
    Prop where
  recipients_pos : 0 < recipients.length
  recipients_le : recipients.length ≤ 15
  amounts : loop (TxBuilder.checkRecipient K) 0 recipients 0 = .ok totalAmount
  fund : b.fundMulti totalAmount (recipients.length + 1) = .ok f
  feeOpens : C.commit f.fee.toNat feeBlind = .ok feeCommit
  opens : ∀ u ∈ f.selected, C.commit u.amount.toNat u.blind = .ok u.amountCommit
  outputs : buildMultiOutputs K rnd recipients changeAddr f = .ok entries
  assembled : Assembled b buildMultiPath rnd
    { selected := f.selected, entries, fee := f.fee, feeCommit } C res.tx
  totalFee : res.totalFee = f.fee
  changeAmount : res.changeAmount = f.changeAmount
  payBlinds : res.payBlinds = (entries.take recipients.length).map (·.blind)

theorem MultiBuiltFrom.totalAmount_eq {b : TxBuilder} {recipients : List BatchRecipient}
    {changeAddr : Address} {res : BatchBuildResult} {totalAmount : UInt64} {f : Funding}
    {feeCommit : Commitment} {entries : List OutEntry}
    (h : MultiBuiltFrom K b rnd recipients changeAddr res totalAmount f feeCommit entries) :
    totalAmount = UInt64.ofNat (payTotal recipients) := by
  rw [checkRecipients_eq_ok h.amounts, UInt64.zero_add]

namespace TxBuilder

variable {b : TxBuilder} {recipient changeAddr : Address}

theorem build_eq_ok {res : BuildResult}
    (h : b.build K rnd amount recipient changeAddr = .ok res) :
    ∃ avmBytes gasFee f feeCommit entries,
      BuiltFrom K b rnd amount recipient changeAddr res avmBytes gasFee f feeCommit entries := by
  obtain ⟨⟨⟩, hamount, h⟩ := unbind h
  replace h := past h
  replace h := past h
  obtain ⟨⟨⟩, havm, h⟩ := unbind h
  replace h := past h
  obtain ⟨⟨avmBytes, gasFee⟩, hcost, h⟩ := unbind h
  obtain ⟨f, hfund, h⟩ := unbind h
  obtain ⟨fee, hfee, h⟩ := unbind h
  obtain ⟨feeCommit, hcommit, h⟩ := unbind h
  obtain ⟨⟨⟩, hopens, h⟩ := unbind h
  obtain ⟨entries, hentries, h⟩ := unbind h
  obtain ⟨⟨tx, fallbacks⟩, htx, h⟩ := unbind h
  cases h
  refine ⟨avmBytes, gasFee, f, feeCommit, entries, failIf_eq_ok.mp hamount, havm, hcost, hfund, hfee,
    wrap_eq_ok.mp hcommit, ?_, hentries, complete_eq_ok htx, rfl, rfl⟩
  intro u hu
  obtain ⟨k, hk⟩ := checkAll_mem hopens hu
  exact validateOwnedUTXOOpening_eq_ok (wrap_eq_ok.mp hk)

theorem buildMulti_eq_ok {recipients : List BatchRecipient} {res : BatchBuildResult}
    (h : b.buildMulti K rnd recipients changeAddr = .ok res) :
    ∃ totalAmount f feeCommit entries,
      MultiBuiltFrom K b rnd recipients changeAddr res totalAmount f feeCommit entries := by
  obtain ⟨⟨⟩, hpos, h⟩ := unbind h
  obtain ⟨⟨⟩, hle, h⟩ := unbind h
  obtain ⟨totalAmount, htotal, h⟩ := unbind h
  replace h := past h
  obtain ⟨f, hfund, h⟩ := unbind h
  obtain ⟨feeCommit, hcommit, h⟩ := unbind h
  obtain ⟨⟨⟩, hopens, h⟩ := unbind h
  obtain ⟨entries, hentries, h⟩ := unbind h
  obtain ⟨⟨tx, fallbacks⟩, htx, h⟩ := unbind h
  cases h
  have hpos' := failIf_eq_ok.mp hpos
  have hle' := failIf_eq_ok.mp hle
  refine ⟨totalAmount, f, feeCommit, entries, by omega, by omega, htotal, hfund,
    wrap_eq_ok.mp hcommit, ?_, hentries, complete_eq_ok htx, rfl, rfl, rfl⟩
  intro u hu
  obtain ⟨k, hk⟩ := checkAll_mem hopens hu
  exact validateOwnedUTXOOpening_eq_ok (wrap_eq_ok.mp hk)

end TxBuilder

end Aperod
