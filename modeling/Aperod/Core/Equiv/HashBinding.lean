import Aperod.Core.Equiv.Merkle
import Aperod.Core.Equiv.TxVerifier
import Aperod.Lib.SelfDelimiting

/-!
# What the transaction hash binds

`Hash` writes version, fee, fee commitment, `Extra`, AVM payload, inputs and outputs one after the
other, without a count or a length between them.  Whether the bytes can be read back is therefore up
to what `Validate` says about lengths, kind by kind (`Transaction.sameContent_iff_sameShape`).

* Protocol transactions have an `Extra` of one length or in canonical JSON, an AVM transaction has
  none and a self-delimiting payload: their bytes determine them.
* A coinbase or a ring transaction has up to 255 bytes of `Extra` in front of inputs and outputs of
  fixed widths; given the length of `Extra` the rest is determined, because at most 16 outputs never
  add up to a whole number of inputs.
* A stake transaction has one of five payload lengths and inputs nobody looks at.
-/

namespace Aperod

open Go List AVMPayload

variable {i : Nat} {p : AVMPayload} {a : LPoDPositionAction}

/-! ### The fields of fixed width -/

theorem leBytes_selfDelimiting (w : Nat) : SelfDelimiting (· < 256 ^ w) (leBytes w) := by
  apply SelfDelimiting.of_width (fun n _ => leBytes_length w n)
  intro m n hm hn h
  have hval := congrArg leNat h
  rwa [leNat_leBytes, leNat_leBytes, Nat.mod_eq_of_lt hm, Nat.mod_eq_of_lt hn] at hval

variable {s t : Bytes}

theorem uint64_append_inj {a b : UInt64} (h : leBytes 8 a.toNat ++ s = leBytes 8 b.toNat ++ t) :
    a = b ∧ s = t := by
  obtain ⟨hnat, hst⟩ := leBytes_selfDelimiting 8 a.toNat_lt b.toNat_lt h
  exact ⟨UInt64.toNat_inj.mp hnat, hst⟩

theorem arrayBytes_append_inj {w : Nat} {a b : BitVec (8 * w)}
    (h : arrayBytes a ++ s = arrayBytes b ++ t) : a = b ∧ s = t := by
  obtain ⟨harr, hst⟩ := append_inj h (by rw [arrayBytes_length, arrayBytes_length])
  refine ⟨?_, hst⟩
  rw [← bytesArray_arrayBytes a, harr, bytesArray_arrayBytes]

theorem bytes32_append_inj {a b : Bytes32} (h : a.bytes ++ s = b.bytes ++ t) :
    a = b ∧ s = t :=
  arrayBytes_append_inj h

theorem TxVersion.toByte_injective : Function.Injective TxVersion.toByte := by
  intro v v' h
  cases v <;> cases v' <;> simp_all [TxVersion.toByte] <;> subst h <;> contradiction

theorem AVMAction.toByte_injective : Function.Injective AVMAction.toByte := by
  intro a a' h
  cases a <;> cases a' <;> simp_all [AVMAction.toByte] <;> subst h <;> contradiction

namespace Transaction

theorem outputHashBytes_length (out : Output) : (outputHashBytes out).length = 104 := by
  simp [outputHashBytes]

theorem outputHashBytes_injective : Function.Injective outputHashBytes := by
  intro out out' h
  simp only [outputHashBytes, append_assoc] at h
  obtain ⟨hpub, h⟩ := bytes32_append_inj h
  obtain ⟨hcommit, h⟩ := bytes32_append_inj h
  obtain ⟨htx, h⟩ := bytes32_append_inj h
  have henc : out.encAmount = out'.encAmount := by
    rw [← bytesArray_arrayBytes out.encAmount, h, bytesArray_arrayBytes]
  cases out
  simp_all

/-! ### Inputs -/

/-- The fields of an input that `Hash` does not write at the version of `tx`. -/
def uncovered (tx : Transaction) (inp : RingInput) : UInt8 × List Commitment × Commitment :=
  (if tx.version = .commitmentBinding then 0 else inp.realIndex,
    if tx.usesCLSAG then [] else inp.ringCommitments,
    if tx.usesCLSAG then 0 else inp.pseudoOut)

variable {tx tx' : Transaction} {inp : RingInput}

/-- What `Validate` has checked of a CLSAG input: one commitment for each ring member. -/
def CommitmentsMatch (tx : Transaction) (inp : RingInput) : Prop :=
  tx.usesCLSAG = true → inp.ringCommitments.length = inp.ring.length

/-- With a commitment for every member, the ring of a CLSAG input is hashed as pairs. -/
theorem inputHashBytes_clsag (hm : tx.CommitmentsMatch inp) (hcl : tx.usesCLSAG = true) :
    tx.inputHashBytes inp = inp.keyImage.bytes ++ inp.amountCommit.bytes ++
      inp.ring.flatMap Bytes32.bytes ++
      ((inp.ring.zip inp.ringCommitments).flatMap fun p =>
        Bytes32.bytes p.1 ++ Bytes32.bytes p.2) ++
      inp.pseudoOut.bytes := by
  have hv : tx.version ≠ .commitmentBinding := by
    intro hv
    simp [usesCLSAG, hv] at hcl
  unfold inputHashBytes
  rw [if_neg hv, if_pos hcl, append_nil, ← append_assoc]
  congr 2
  apply flatMap_zipIdx_eq (hm hcl).symm
  intro i rm c hc
  simp only [hc]

theorem inputHashBytes_legacy (hcl : tx.usesCLSAG = false) (inp : RingInput) :
    tx.inputHashBytes inp = inp.keyImage.bytes ++ inp.amountCommit.bytes ++
      inp.ring.flatMap Bytes32.bytes ++
      (if tx.version = .commitmentBinding then [inp.realIndex] else []) := by
  simp [inputHashBytes, hcl]

/-- The width of an input with `n` ring members. -/
def inputWidth (tx : Transaction) (n : Nat) : Nat :=
  64 + 32 * n + (if tx.version = .commitmentBinding then 1 else 0) +
    (if tx.usesCLSAG then 64 * n + 32 else 0)

theorem inputHashBytes_length (h : tx.CommitmentsMatch inp) :
    (tx.inputHashBytes inp).length = tx.inputWidth inp.ring.length := by
  have hring : (inp.ring.flatMap Bytes32.bytes).length = inp.ring.length * 32 :=
    length_flatMap_of_width fun a _ => Bytes32.bytes_length a
  cases hcl : tx.usesCLSAG with
  | true =>
    have hv : tx.version ≠ .commitmentBinding := by
      intro hv
      simp [usesCLSAG, hv] at hcl
    have hpairs : ((inp.ring.zip inp.ringCommitments).flatMap fun p =>
        Bytes32.bytes p.1 ++ Bytes32.bytes p.2).length = inp.ring.length * 64 := by
      rw [length_flatMap_of_width (w := 64) (by simp), length_zip, h hcl, Nat.min_self]
    rw [inputHashBytes_clsag h hcl]
    simp only [length_append, hring, hpairs, Bytes32.bytes_length, inputWidth, hcl, if_true,
      hv, if_false]
    omega
  | false =>
    rw [inputHashBytes_legacy hcl]
    simp only [length_append, hring, Bytes32.bytes_length, inputWidth, hcl,
      Bool.false_eq_true, if_false]
    split <;> simp only [length_singleton, length_nil] <;> omega

/-- An input is determined by its bytes, the size of its ring and what `Hash` leaves out. -/
theorem input_eq_of_bytes {inp' : RingInput} (hm : tx.CommitmentsMatch inp)
    (hm' : tx.CommitmentsMatch inp') (hring : inp.ring.length = inp'.ring.length)
    (hun : tx.uncovered inp = tx.uncovered inp')
    (h : tx.inputHashBytes inp = tx.inputHashBytes inp') : inp = inp' := by
  have hself : SelfDelimiting (fun _ : Bytes32 => True) Bytes32.bytes :=
    fun _ _ _ _ _ _ => bytes32_append_inj
  simp only [uncovered, Prod.mk.injEq] at hun
  obtain ⟨hidx, hcommits, hpseudo⟩ := hun
  cases hcl : tx.usesCLSAG with
  | true =>
    -- the members stand there once more, each with its commitment
    have hv : tx.version ≠ .commitmentBinding := by
      intro hv
      simp [usesCLSAG, hv] at hcl
    have hpair : SelfDelimiting (fun _ : Point32 × Commitment => True)
        fun p => Bytes32.bytes p.1 ++ Bytes32.bytes p.2 := by
      rintro ⟨rm, c⟩ ⟨rm', c'⟩ - - s t hst
      obtain ⟨hrm, hst⟩ := bytes32_append_inj hst
      obtain ⟨hc, hst⟩ := bytes32_append_inj hst
      exact ⟨Prod.ext hrm hc, hst⟩
    have hlen : (inp.ring.zip inp.ringCommitments).length =
        (inp'.ring.zip inp'.ringCommitments).length := by
      rw [length_zip, length_zip, hm hcl, hm' hcl, hring]
    rw [inputHashBytes_clsag hm hcl, inputHashBytes_clsag hm' hcl] at h
    simp only [append_assoc] at h
    obtain ⟨hki, h⟩ := bytes32_append_inj h
    obtain ⟨hamount, h⟩ := bytes32_append_inj h
    obtain ⟨hmembers, h⟩ := hself.flatMap (fun _ _ => trivial) (fun _ _ => trivial) hring h
    obtain ⟨hpairs, hps⟩ := hpair.flatMap (fun _ _ => trivial) (fun _ _ => trivial) hlen h
    have hcs : inp.ringCommitments = inp'.ringCommitments := by
      rw [← map_snd_zip (hm hcl).le, hpairs, map_snd_zip (hm' hcl).le]
    have hpo : inp.pseudoOut = inp'.pseudoOut := Bytes32.bytes_injective hps
    cases inp
    simp_all
  | false =>
    rw [inputHashBytes_legacy hcl, inputHashBytes_legacy hcl] at h
    simp only [append_assoc] at h
    obtain ⟨hki, h⟩ := bytes32_append_inj h
    obtain ⟨hamount, h⟩ := bytes32_append_inj h
    obtain ⟨hmembers, h⟩ := hself.flatMap (fun _ _ => trivial) (fun _ _ => trivial) hring h
    have hreal : inp.realIndex = inp'.realIndex := by
      by_cases hv : tx.version = .commitmentBinding
      · simpa only [hv, if_true, cons.injEq, and_true] using h
      · simpa only [hv, if_false] using hidx
    cases inp
    simp_all

theorem inputs_outputs_eq (hv : tx.version = tx'.version)
    (hm : ∀ inp ∈ tx.inputs, tx.CommitmentsMatch inp)
    (hm' : ∀ inp ∈ tx'.inputs, tx'.CommitmentsMatch inp)
    (hrings : tx.inputs.map (·.ring.length) = tx'.inputs.map (·.ring.length))
    (hun : tx.inputs.map tx.uncovered = tx'.inputs.map tx'.uncovered)
    (h : tx.inputs.flatMap tx.inputHashBytes ++ tx.outputs.flatMap outputHashBytes =
      tx'.inputs.flatMap tx'.inputHashBytes ++ tx'.outputs.flatMap outputHashBytes) :
    tx.inputs = tx'.inputs ∧ tx.outputs = tx'.outputs := by
  have hmatch : tx'.CommitmentsMatch = tx.CommitmentsMatch := by
    funext inp
    simp only [CommitmentsMatch, usesCLSAG, hv]
  have hunc : tx'.uncovered = tx.uncovered := by
    unfold uncovered usesCLSAG
    rw [hv]
  have hbytes : tx'.inputHashBytes = tx.inputHashBytes := by
    unfold inputHashBytes usesCLSAG
    rw [hv]
  rw [hbytes] at h
  rw [hmatch] at hm'
  rw [hunc] at hun
  generalize tx.inputs = l at *
  generalize tx'.inputs = l' at *
  induction l generalizing l' with
  | nil =>
    have hnil : l' = [] := by simpa using hrings
    subst hnil
    exact ⟨rfl, flatMap_width_inj (by decide) outputHashBytes_length outputHashBytes_injective h⟩
  | cons inp l ih =>
    cases l' with
    | nil => simp at hrings
    | cons inp' l' =>
      simp only [map_cons, cons.injEq] at hrings hun
      have hin := hm inp mem_cons_self
      have hin' := hm' inp' mem_cons_self
      have hwidth : (tx.inputHashBytes inp).length = (tx.inputHashBytes inp').length := by
        rw [inputHashBytes_length hin, inputHashBytes_length hin', hrings.1]
      simp only [flatMap_cons, append_assoc] at h
      obtain ⟨hhead, htail⟩ := append_inj h hwidth
      obtain ⟨hl, hout⟩ := ih (fun x hx => hm x (mem_cons_of_mem _ hx)) l'
        (fun x hx => hm' x (mem_cons_of_mem _ hx)) hrings.2 hun.2 htail
      exact ⟨by rw [input_eq_of_bytes hin hin' hrings.1 hun.1 hhead, hl], hout⟩

/-- Rings of the one size `Validate` allows, with a commitment for every member where they are
hashed, and at most 16 outputs. -/
structure Regular (tx : Transaction) : Prop where
  outputs_le : tx.outputs.length ≤ 16
  rings : ∀ inp ∈ tx.inputs, inp.ring.length = ringSize
  commitments : ∀ inp ∈ tx.inputs, tx.CommitmentsMatch inp

def spendBytes (tx : Transaction) : Bytes :=
  tx.inputs.flatMap tx.inputHashBytes ++ tx.outputs.flatMap outputHashBytes

theorem Regular.spendBytes_length (h : tx.Regular) :
    tx.spendBytes.length = tx.inputs.length * tx.inputWidth ringSize + tx.outputs.length * 104 := by
  have hin : (tx.inputs.flatMap tx.inputHashBytes).length =
      tx.inputs.length * tx.inputWidth ringSize :=
    length_flatMap_of_width fun inp hinp => by
      rw [inputHashBytes_length (h.commitments inp hinp), h.rings inp hinp]
  rw [spendBytes, length_append, hin,
    length_flatMap_of_width fun out _ => outputHashBytes_length out]

theorem inputWidth_cases (tx : Transaction) :
    tx.inputWidth ringSize = 576 ∨ tx.inputWidth ringSize = 577 ∨
      tx.inputWidth ringSize = 1632 := by
  unfold inputWidth ringSize
  cases hcl : tx.usesCLSAG with
  | true =>
    have hv : tx.version ≠ .commitmentBinding := by
      intro hv
      simp [usesCLSAG, hv] at hcl
    simp [hv]
  | false => by_cases hv : tx.version = .commitmentBinding <;> simp [hv]

/-- At most 16 outputs never weigh a whole number of inputs. -/
theorem Regular.rings_eq (h : tx.Regular) (h' : tx'.Regular) (hv : tx.version = tx'.version)
    (hspend : tx.spendBytes = tx'.spendBytes) :
    tx.inputs.map (·.ring.length) = tx'.inputs.map (·.ring.length) := by
  have hlens : tx.spendBytes.length = tx'.spendBytes.length := by rw [hspend]
  have hwidth : tx'.inputWidth ringSize = tx.inputWidth ringSize := by
    unfold inputWidth usesCLSAG
    rw [hv]
  rw [h.spendBytes_length, h'.spendBytes_length, hwidth] at hlens
  have hle := h.outputs_le
  have hle' := h'.outputs_le
  have hcount : tx.inputs.length = tx'.inputs.length := by
    rcases inputWidth_cases tx with hw | hw | hw <;> rw [hw] at hlens <;> omega
  have hconst : ∀ {t : Transaction}, t.Regular →
      t.inputs.map (·.ring.length) = replicate t.inputs.length ringSize := fun ht =>
    eq_replicate_iff.mpr ⟨length_map .., by simpa using ht.rings⟩
  rw [hconst h, hconst h', hcount]

end Transaction

/-! ### AVM payloads -/

variable {C : Externals}

/-- The lengths in a payload fit the prefixes they are written in. -/
structure AVMPayload.Bounded (p : AVMPayload) : Prop where
  code : p.code.length < 256 ^ 4
  entry : p.entry.length < 256 ^ 4
  calldata : p.calldata.length < 256 ^ 4
  accessList : p.accessList.length < 256 ^ 2
  keys : ∀ a ∈ p.accessList, a.key.length < 256 ^ 4

theorem checkAccessList_keys {previous : Option Bytes} {l : List AVMAccess}
    (h : checkAccessList i previous l = .ok ()) : ∀ a ∈ l, a.key.length ≤ avmMaxStateKeySize := by
  induction l generalizing i previous with
  | nil => simp
  | cons a l ih =>
    obtain ⟨⟨⟩, hkey, h⟩ := unbind h
    replace h := past h
    rw [failIf_eq_ok] at hkey
    intro b hb
    rcases mem_cons.mp hb with rfl | hb
    · omega
    · exact ih h b hb

theorem AVMPayload.validateAction_code (h : p.validateAction C = .ok ()) :
    p.code.length ≤ avmMaxCodeSize := by
  unfold validateAction at h
  split at h
  · obtain ⟨⟨⟩, hcode, -⟩ := unbind h
    rw [failIf_eq_ok] at hcode
    omega
  · obtain ⟨⟨⟩, hcode, -⟩ := unbind h
    rw [failIf_eq_ok] at hcode
    omega
  · exact absurd h (by simp)

theorem AVMPayload.validate_bounded (h : AVMPayload.validate C (some p) = .ok ()) : p.Bounded := by
  simp only [AVMPayload.validate, bind_eq_ok, failIf_eq_ok] at h
  obtain ⟨_, hact, _, hentry, _, hcall, _, -, _, -, _, hlist, _, hkeys, -⟩ := h
  have hcode := validateAction_code hact
  have hkeys := checkAccessList_keys hkeys
  unfold avmMaxCodeSize at hcode
  unfold avmMaxEntrySize at hentry
  unfold avmMaxCalldataSize at hcall
  unfold avmMaxAccessListKeys at hlist
  unfold avmMaxStateKeySize at hkeys
  exact ⟨by omega, by omega, by omega, by omega, fun a ha => by have := hkeys a ha; omega⟩

theorem writeAVMBytes_selfDelimiting :
    SelfDelimiting (fun l : Bytes => l.length < 256 ^ 4) writeAVMBytes :=
  (leBytes_selfDelimiting 4).lengthPrefixed

theorem accessEntry_selfDelimiting :
    SelfDelimiting (fun a : AVMAccess => a.key.length < 256 ^ 4)
      fun a => writeAVMBytes a.key ++ [if a.write then 1 else 0] := by
  intro a b ha hb s t h
  simp only [append_assoc, singleton_append] at h
  obtain ⟨hkey, h⟩ := writeAVMBytes_selfDelimiting ha hb h
  obtain ⟨hwrite, hst⟩ := cons.inj h
  refine ⟨?_, hst⟩
  rcases a with ⟨ka, wa⟩
  rcases b with ⟨kb, wb⟩
  cases wa <;> cases wb <;> simp_all

/-- A payload within the bounds can be read back, but for its signature. -/
theorem AVMPayload.canonicalBytes_append_inj {p q : AVMPayload} (hp : p.Bounded) (hq : q.Bounded)
    (h : p.canonicalBytes false ++ s = q.canonicalBytes false ++ t) :
    { p with signature := q.signature } = q ∧ s = t := by
  simp only [canonicalBytes, Bool.false_eq_true, if_false, append_nil, append_assoc,
    singleton_append] at h
  obtain ⟨haction, h⟩ := cons.inj h
  obtain ⟨hid, h⟩ := bytes32_append_inj h
  obtain ⟨hcode, h⟩ := writeAVMBytes_selfDelimiting hp.code hq.code h
  obtain ⟨hentry, h⟩ := writeAVMBytes_selfDelimiting hp.entry hq.entry h
  obtain ⟨hcall, h⟩ := writeAVMBytes_selfDelimiting hp.calldata hq.calldata h
  obtain ⟨hgas, h⟩ := uint64_append_inj h
  obtain ⟨hnonce, h⟩ := uint64_append_inj h
  obtain ⟨hsigner, h⟩ := bytes32_append_inj h
  obtain ⟨hcount, h⟩ := leBytes_selfDelimiting 2 hp.accessList hq.accessList h
  obtain ⟨hlist, hst⟩ := accessEntry_selfDelimiting.flatMap hp.keys hq.keys hcount h
  refine ⟨?_, hst⟩
  have hact := AVMAction.toByte_injective haction
  simp_all

/-- The signature stands behind the bytes that are signed. -/
theorem AVMPayload.canonicalBytes_true (p : AVMPayload) : p.canonicalBytes true =
    p.canonicalBytes false ++ arrayBytes (w := 64) p.signature := by
  simp [canonicalBytes]

theorem AVMPayload.canonicalBytes_selfDelimiting :
    SelfDelimiting AVMPayload.Bounded fun p => p.canonicalBytes true := by
  intro p q hp hq s t h
  simp only [canonicalBytes_true, append_assoc] at h
  obtain ⟨heq, h⟩ := canonicalBytes_append_inj hp hq h
  obtain ⟨hsig, hst⟩ := arrayBytes_append_inj h
  rw [← hsig] at heq
  exact ⟨heq, hst⟩

/-- The canonical bytes of a valid payload, with or without the signature, determine every field
that is in them. -/
theorem AVMPayload.canonicalBytes_bind {includeSignature : Bool} {p q : AVMPayload}
    (hp : AVMPayload.validate C (some p) = .ok ()) (hq : AVMPayload.validate C (some q) = .ok ())
    (h : p.canonicalBytes includeSignature = q.canonicalBytes includeSignature) :
    { p with signature := q.signature } = q ∧ (includeSignature = true → p = q) := by
  have hp := validate_bounded hp
  have hq := validate_bounded hq
  replace h := congrArg (· ++ []) h
  cases includeSignature with
  | false => exact ⟨(canonicalBytes_append_inj hp hq h).1, fun h => absurd h Bool.false_ne_true⟩
  | true =>
    obtain ⟨rfl, -⟩ := canonicalBytes_selfDelimiting hp hq h
    exact ⟨rfl, fun _ => rfl⟩

/-- A call with two access keys. -/
def listedCall (signature : BitVec (8 * 64)) : AVMPayload where
  action := .executeContract
  contractID := 1
  code := []
  entry := [0x72]
  calldata := [1, 2]
  gasLimit := 100
  nonce := 3
  signer := 4
  signature := signature
  accessList := [⟨[5], true⟩, ⟨[6, 7], false⟩]

/-- A payload that was signed twice. -/
theorem resigned_call :
    { listedCall 8 with signature := (listedCall 9).signature } = listedCall 9 := by
  have hvalid : AVMPayload.validate transparent (some (listedCall 8)) = .ok () ∧
      AVMPayload.validate transparent (some (listedCall 9)) = .ok () := by
    decide +kernel
  have hbytes : (listedCall 8).canonicalBytes false = (listedCall 9).canonicalBytes false := by
    decide +kernel
  exact (canonicalBytes_bind hvalid.1 hvalid.2 hbytes).1

/-! ### What `Validate` says of each kind -/

namespace Transaction

variable {tx tx' : Transaction}

theorem validate_avm_none (h : tx.validateAVM C = .ok ()) (hv : tx.version ≠ .avm) :
    tx.avm = none := by
  simpa [validateAVM, isAVM, hv] using h

theorem validateTransfer_outputs (h : tx.validateTransfer = .ok ()) : tx.outputs.length ≤ 16 := by
  simp only [validateTransfer, bind_eq_ok, failIf_eq_ok] at h
  omega

theorem validateInput_ring {inp : RingInput} (h : tx.validateInput i inp = .ok ()) :
    inp.ring.length = ringSize := by
  obtain ⟨⟨⟩, hring, -⟩ := unbind h
  simpa using hring

theorem validateTransfer_regular (h : tx.validateTransfer = .ok ()) : tx.Regular := by
  have hinputs : ∀ inp ∈ tx.inputs, ∃ i, tx.validateInput i inp = .ok () := by
    intro inp hinp
    have hne : tx.inputs ≠ [] := ne_nil_of_mem hinp
    obtain ⟨i, hi⟩ := getElem?_of_mem hinp
    exact ⟨i, (validateTransfer_spec h hne).inputs_ok i inp hi⟩
  refine ⟨validateTransfer_outputs h, fun inp hinp => ?_, fun inp hinp hcl => ?_⟩
  · obtain ⟨i, hi⟩ := hinputs inp hinp
    exact validateInput_ring hi
  · obtain ⟨i, hi⟩ := hinputs inp hinp
    obtain ⟨hring, hcommits⟩ := validateInput_clsag hi hcl
    rw [hcommits, hring]

theorem regular_of_no_inputs (hin : tx.inputs = []) (hout : tx.outputs.length ≤ 16) :
    tx.Regular := by
  refine ⟨hout, ?_, ?_⟩ <;> simp [hin]

theorem avm_none_of_noProofs (h : tx.noProofs = true) : tx.avm = none := by
  simp only [noProofs, Bool.and_eq_true, decide_eq_true_eq] at h
  exact h.2

theorem checkDepositSource_input (h : checkDepositSource C tx a = .ok ()) :
    ∀ inp ∈ tx.inputs, inp.ring.length = ringSize := by
  obtain ⟨⟨⟩, hshape, h⟩ := unbind h
  obtain ⟨osig, -, h⟩ := unbind h
  cases osig with
  | none => exact absurd h (by simp)
  | some sig =>
    simp only [bind_eq_ok, failIf_eq_ok, index_eq_ok] at h
    obtain ⟨commit, -, inp, hinp, _, hsame, -⟩ := h
    rw [failIf_eq_ok] at hshape
    have hone : tx.inputs.length = 1 := by
      by_contra hne
      exact hshape (.inr (.inr hne))
    obtain ⟨inp0, hinputs⟩ := length_eq_one_iff.mp hone
    rw [hinputs] at hinp ⊢
    have hinp0 : inp0 = inp := by simpa using hinp
    rw [not_not] at hsame
    intro x hx
    rw [mem_singleton.mp hx, hinp0, ← hsame]
    simp [lpodOwnershipRing, ringSize]

theorem lpodPositionAction_regular (h : tx.lpodPositionAction C = .ok a) :
    C.positionCodec.marshal a = tx.extra ∧ tx.avm = none ∧ tx.Regular := by
  simp only [lpodPositionAction, bind_eq_ok, failIf_eq_ok] at h
  obtain ⟨_, hkind, b, -, _, hcanon, _, -, _, -, _, hempty, _, -, _, -, _, -, h⟩ := h
  rw [not_not] at hcanon
  have hversion : tx.version = .lpodPosition := by
    simpa [isLPoDPosition] using fun hv => hkind (.inl hv)
  have hproofs : tx.noProofs = true := by
    by_contra hne
    exact hempty (.inr hne)
  have hmatch : ∀ inp ∈ tx.inputs, tx.CommitmentsMatch inp := by
    intro inp _ hcl
    simp [usesCLSAG, hversion] at hcl
  have hrings : b = a ∧ ∀ inp ∈ tx.inputs, inp.ring.length = ringSize := by
    split at h
    · simp only [bind_eq_ok, failIf_eq_ok] at h
      obtain ⟨_, hin, h⟩ := h
      have hnil : tx.inputs = [] := by
        by_contra hne
        exact hin (.inl fun hlen => hne (length_eq_zero_iff.mp hlen))
      exact ⟨Except.ok.inj h, by simp [hnil]⟩
    · simp only [bind_eq_ok] at h
      obtain ⟨⟨⟩, hsource, h⟩ := h
      exact ⟨Except.ok.inj h, checkDepositSource_input hsource⟩
  exact ⟨hrings.1 ▸ hcanon, avm_none_of_noProofs hproofs, by omega, hrings.2, hmatch⟩

theorem lpodPayoutAuthorization_shape {a : LPoDPayoutAuthorization}
    (h : tx.lpodPayoutAuthorization C = .ok a) :
    C.payoutCodec.marshal a = tx.extra ∧ tx.avm = none ∧ tx.inputs = [] := by
  simp only [lpodPayoutAuthorization, bind_eq_ok, failIf_eq_ok, not_or, not_not] at h
  obtain ⟨_, ⟨-, hin, -, hproofs, -⟩, b, -, _, hcanon, _, -, h⟩ := h
  have hab : b = a := Except.ok.inj h
  exact ⟨hab ▸ hcanon, avm_none_of_noProofs hproofs, length_eq_zero_iff.mp hin⟩

theorem saleAuthorization_regular {a : SaleAuthorization} (h : tx.saleAuthorization C = .ok a) :
    tx.extra.length = saleExtraSize ∧ tx.avm = none ∧ tx.Regular := by
  obtain ⟨⟨⟩, hshape, -⟩ := unbind h
  simp only [failIf_eq_ok, not_or, not_not] at hshape
  obtain ⟨-, hextra, -, hin, hout, hproofs, -⟩ := hshape
  exact ⟨hextra, avm_none_of_noProofs hproofs,
    regular_of_no_inputs (length_eq_zero_iff.mp hin) (by omega)⟩

theorem validateLPoD_regular (h : tx.validateLPoD = .ok ()) :
    tx.extra.length = lpodPrefix.length + 32 ∧ tx.avm = none ∧ tx.Regular := by
  simp only [validateLPoD, failIf_eq_ok, not_or, not_not] at h
  obtain ⟨hin, hout, hproofs, -, hextra, -⟩ := h
  exact ⟨hextra, avm_none_of_noProofs hproofs,
    regular_of_no_inputs (length_eq_zero_iff.mp hin) (by omega)⟩

theorem validateGuardianFund_regular (h : tx.validateGuardianFund = .ok ()) :
    tx.extra.length = guardianFundExtraSize ∧ tx.Regular := by
  simp only [validateGuardianFund, bind_eq_ok, failIf_eq_ok, not_or, not_not] at h
  obtain ⟨_, ⟨hin, hout, -⟩, hextra⟩ := h
  exact ⟨hextra, regular_of_no_inputs (length_eq_zero_iff.mp hin) (by omega)⟩

theorem validateAVM_payload (h : tx.validateAVM C = .ok ()) (hv : tx.version = .avm) :
    tx.extra = [] ∧ ∃ p, tx.avm = some p ∧ p.Bounded := by
  simp only [validateAVM, isAVM, hv, decide_true, if_true, bind_eq_ok, wrap_eq_ok, failIf_eq_ok,
    not_not] at h
  obtain ⟨_, hextra, _, hpayload, -⟩ := h
  refine ⟨length_eq_zero_iff.mp hextra, ?_⟩
  cases havm : tx.avm with
  | none =>
    rw [havm] at hpayload
    exact absurd hpayload (by simp [AVMPayload.validate])
  | some p =>
    rw [havm] at hpayload
    exact ⟨p, rfl, AVMPayload.validate_bounded hpayload⟩

/-! ### The same bytes and the same lengths -/

/-- Everything of a transaction but its proofs. -/
structure SameContent (tx tx' : Transaction) : Prop where
  version : tx.version = tx'.version
  inputs : tx.inputs = tx'.inputs
  outputs : tx.outputs = tx'.outputs
  fee : tx.fee = tx'.fee
  feeCommit : tx.feeCommit = tx'.feeCommit
  extra : tx.extra = tx'.extra
  avm : tx.avm = tx'.avm

/-- The lengths that the hashed bytes leave open: that of `Extra` in coinbases, ring transactions
and stake transactions, and the sizes of the rings in a stake transaction. -/
def SameShape (tx tx' : Transaction) : Prop :=
  match tx.version with
  | .base | .gameAsset | .commitmentBinding | .clsag => tx.extra.length = tx'.extra.length
  | .stake => tx.extra.length = tx'.extra.length ∧
      tx.inputs.map (·.ring.length) = tx'.inputs.map (·.ring.length)
  | _ => True

/-- The bytes of the AVM payload, if there is one. -/
def avmBytes (tx : Transaction) : Bytes := (tx.avm.map (·.canonicalBytes true)).getD []

theorem hashedBytes_eq (tx : Transaction) :
    tx.hashedBytes = tx.version.toByte :: (leBytes 8 tx.fee.toNat ++ (tx.feeCommit.bytes ++
      (tx.extra ++ (tx.avmBytes ++ tx.spendBytes)))) := by
  unfold hashedBytes avmBytes spendBytes
  cases tx.avm <;> simp

/-- The fields in front of `Extra` are of fixed widths. -/
structure SameHead (tx tx' : Transaction) : Prop where
  version : tx.version = tx'.version
  fee : tx.fee = tx'.fee
  feeCommit : tx.feeCommit = tx'.feeCommit
  body : tx.extra ++ (tx.avmBytes ++ tx.spendBytes) = tx'.extra ++ (tx'.avmBytes ++ tx'.spendBytes)

theorem sameHead_of_bytes (h : tx.hashedBytes = tx'.hashedBytes) : SameHead tx tx' := by
  rw [hashedBytes_eq, hashedBytes_eq] at h
  obtain ⟨hv, h⟩ := cons.inj h
  obtain ⟨hfee, h⟩ := uint64_append_inj h
  obtain ⟨hcommit, h⟩ := bytes32_append_inj h
  exact ⟨TxVersion.toByte_injective hv, hfee, hcommit, h⟩

/-- Once `Extra` and the payload are read, equal ring sizes determine the rest. -/
theorem SameHead.content (h : SameHead tx tx') (hextra : tx.extra = tx'.extra)
    (havm : tx.avm = tx'.avm) (hm : ∀ inp ∈ tx.inputs, tx.CommitmentsMatch inp)
    (hm' : ∀ inp ∈ tx'.inputs, tx'.CommitmentsMatch inp)
    (hrings : tx.spendBytes = tx'.spendBytes →
      tx.inputs.map (·.ring.length) = tx'.inputs.map (·.ring.length))
    (hun : tx.inputs.map tx.uncovered = tx'.inputs.map tx'.uncovered) : SameContent tx tx' := by
  have hspend : tx.spendBytes = tx'.spendBytes := by
    have hbody := h.body
    rw [hextra, avmBytes, havm] at hbody
    exact append_cancel_left (append_cancel_left hbody)
  obtain ⟨hin, hout⟩ := inputs_outputs_eq h.version hm hm' (hrings hspend) hun hspend
  exact ⟨h.version, hin, hout, h.fee, h.feeCommit, hextra, havm⟩

theorem SameHead.extra_eq (h : SameHead tx tx') (hlen : tx.extra.length = tx'.extra.length) :
    tx.extra = tx'.extra :=
  (append_inj h.body hlen).1

theorem SameHead.content_of_regular (h : SameHead tx tx')
    (hlen : tx.extra.length = tx'.extra.length) (havm : tx.avm = none) (havm' : tx'.avm = none)
    (hr : tx.Regular) (hr' : tx'.Regular)
    (hun : tx.inputs.map tx.uncovered = tx'.inputs.map tx'.uncovered) : SameContent tx tx' :=
  h.content (h.extra_eq hlen) (havm.trans havm'.symm) hr.commitments hr'.commitments
    (hr.rings_eq hr' h.version) hun

/-- Of two canonical encodings in front of something, neither is a proper prefix of the other. -/
theorem eq_of_prefixFree {α : Type} {c : Codec α}
    (hc : ∀ a b, c.marshal a <+: c.marshal b → c.marshal a = c.marshal b) {a b : α} {s t : Bytes}
    (h : c.marshal a ++ s = c.marshal b ++ t) : c.marshal a = c.marshal b := by
  have ha : c.marshal a <+: c.marshal b ++ t := ⟨s, h⟩
  rcases prefix_or_prefix_of_prefix ha (prefix_append _ t) with hab | hba
  · exact hc a b hab
  · exact (hc b a hba).symm

end Transaction

/-- No JSON encoding of a payload is a proper prefix of another: an object ends with the brace that
closes it. -/
structure Externals.PrefixFreeCodecs (C : Externals) : Prop where
  position : ∀ a b, C.positionCodec.marshal a <+: C.positionCodec.marshal b →
    C.positionCodec.marshal a = C.positionCodec.marshal b
  payout : ∀ a b, C.payoutCodec.marshal a <+: C.payoutCodec.marshal b →
    C.payoutCodec.marshal a = C.payoutCodec.marshal b

namespace Transaction

variable {tx tx' : Transaction}

theorem validate_stake (h : tx.validate C = .ok ()) (hv : tx.version = .stake) : tx.avm = none := by
  simp only [validate, hv] at h
  obtain ⟨⟨⟩, havm, -⟩ := unbind h
  exact validate_avm_none havm (by simp [hv])

theorem validate_regular (h : tx.validate C = .ok ()) (hv : tx.version.isTransfer = true)
    (hne : tx.version ≠ .avm) : tx.avm = none ∧ tx.Regular := by
  obtain ⟨havm, htransfer⟩ := validate_transfer h hv
  exact ⟨validate_avm_none havm hne, validateTransfer_regular htransfer⟩

theorem SameHead.content_of_shape (hC : C.PrefixFreeCodecs) (hh : SameHead tx tx')
    (h : tx.validate C = .ok ()) (h' : tx'.validate C = .ok ()) (hshape : SameShape tx tx')
    (hun : tx.inputs.map tx.uncovered = tx'.inputs.map tx'.uncovered) : SameContent tx tx' := by
  have hv' : ∀ {v}, tx.version = v → tx'.version = v := fun hv => hh.version ▸ hv
  have hring : tx.version.isTransfer = true → tx.version ≠ .avm →
      tx.extra.length = tx'.extra.length → SameContent tx tx' := by
    intro ht hne hlen
    obtain ⟨havm, hr⟩ := validate_regular h ht hne
    obtain ⟨havm', hr'⟩ := validate_regular h' (hh.version ▸ ht) (hh.version ▸ hne)
    exact hh.content_of_regular hlen havm havm' hr hr' hun
  unfold SameShape at hshape
  cases hv : tx.version with
  | base | gameAsset | commitmentBinding | clsag =>
    simp only [hv] at hshape
    exact hring (by rw [hv]; rfl) (by simp [hv]) hshape
  | stake =>
    simp only [hv] at hshape
    have hlegacy : ∀ {t : Transaction}, t.version = .stake →
        ∀ inp ∈ t.inputs, t.CommitmentsMatch inp := by
      intro t ht inp _ hcl
      simp [usesCLSAG, ht] at hcl
    exact hh.content (hh.extra_eq hshape.1)
      ((validate_stake h hv).trans (validate_stake h' (hv' hv)).symm) (hlegacy hv)
      (hlegacy (hv' hv)) (fun _ => hshape.2) hun
  | avm =>
    have ht : tx.version.isTransfer = true := by rw [hv]; rfl
    have hr := validateTransfer_regular (validate_transfer h ht).2
    have hr' := validateTransfer_regular (validate_transfer h' (hh.version ▸ ht)).2
    simp only [validate, hv] at h
    simp only [validate, hv' hv] at h'
    obtain ⟨⟨⟩, hp, -⟩ := unbind h
    obtain ⟨⟨⟩, hp', -⟩ := unbind h'
    obtain ⟨hextra, p, havm, hbound⟩ := validateAVM_payload hp hv
    obtain ⟨hextra', p', havm', hbound'⟩ := validateAVM_payload hp' (hv' hv)
    have hbody := hh.body
    rw [hextra, hextra', avmBytes, avmBytes, havm, havm'] at hbody
    obtain ⟨hpp, -⟩ := canonicalBytes_selfDelimiting hbound hbound' hbody
    exact hh.content (hextra.trans hextra'.symm) (by rw [havm, havm', hpp]) hr.commitments
      hr'.commitments (hr.rings_eq hr' hh.version) hun
  | guardianFund =>
    simp only [validate, hv] at h
    simp only [validate, hv' hv] at h'
    obtain ⟨⟨⟩, havm, hg⟩ := unbind h
    obtain ⟨⟨⟩, havm', hg'⟩ := unbind h'
    obtain ⟨hlen, hr⟩ := validateGuardianFund_regular hg
    obtain ⟨hlen', hr'⟩ := validateGuardianFund_regular hg'
    exact hh.content_of_regular (hlen.trans hlen'.symm) (validate_avm_none havm (by simp [hv]))
      (validate_avm_none havm' (by simp [hv' hv])) hr hr' hun
  | lpod =>
    simp only [validate, hv] at h
    simp only [validate, hv' hv] at h'
    obtain ⟨hlen, havm, hr⟩ := validateLPoD_regular h
    obtain ⟨hlen', havm', hr'⟩ := validateLPoD_regular h'
    exact hh.content_of_regular (hlen.trans hlen'.symm) havm havm' hr hr' hun
  | lpodPosition =>
    simp only [validate, hv] at h
    simp only [validate, hv' hv] at h'
    obtain ⟨a, ha, -⟩ := unbind h
    obtain ⟨a', ha', -⟩ := unbind h'
    obtain ⟨hcanon, havm, hr⟩ := lpodPositionAction_regular ha
    obtain ⟨hcanon', havm', hr'⟩ := lpodPositionAction_regular ha'
    have hbody := hh.body
    rw [← hcanon, ← hcanon'] at hbody
    have hextra : tx.extra = tx'.extra := by
      rw [← hcanon, ← hcanon', eq_of_prefixFree hC.position hbody]
    exact hh.content_of_regular (by rw [hextra]) havm havm' hr hr' hun
  | lpodPayout =>
    simp only [validate, hv] at h
    simp only [validate, hv' hv] at h'
    obtain ⟨a, ha, -⟩ := unbind h
    obtain ⟨a', ha', -⟩ := unbind h'
    obtain ⟨hcanon, havm, hin⟩ := lpodPayoutAuthorization_shape ha
    obtain ⟨hcanon', havm', hin'⟩ := lpodPayoutAuthorization_shape ha'
    have hbody := hh.body
    rw [← hcanon, ← hcanon'] at hbody
    have hextra : tx.extra = tx'.extra := by
      rw [← hcanon, ← hcanon', eq_of_prefixFree hC.payout hbody]
    exact hh.content hextra (havm.trans havm'.symm) (by simp [hin]) (by simp [hin'])
      (fun _ => by rw [hin, hin']) hun
  | sale =>
    simp only [validate, hv] at h
    simp only [validate, hv' hv] at h'
    obtain ⟨a, ha, -⟩ := unbind h
    obtain ⟨a', ha', -⟩ := unbind h'
    obtain ⟨hlen, havm, hr⟩ := saleAuthorization_regular ha
    obtain ⟨hlen', havm', hr'⟩ := saleAuthorization_regular ha'
    exact hh.content_of_regular (hlen.trans hlen'.symm) havm havm' hr hr' hun
  | unknown b hb =>
    simp only [validate, hv] at h
    split at h <;> exact absurd h (by simp)

/-- Two valid transactions with the same hashed bytes are the same, but for their proofs, exactly if
the lengths agree that the bytes leave open and the fields agree that `Hash` does not write. -/
theorem sameContent_iff_sameShape (hC : C.PrefixFreeCodecs) (h : tx.validate C = .ok ())
    (h' : tx'.validate C = .ok ()) (hbytes : tx.hashedBytes = tx'.hashedBytes) :
    SameContent tx tx' ↔
      SameShape tx tx' ∧ tx.inputs.map tx.uncovered = tx'.inputs.map tx'.uncovered := by
  constructor
  · intro hsame
    refine ⟨?_, ?_⟩
    · unfold SameShape
      split <;> simp [hsame.extra, hsame.inputs]
    · have hunc : tx.uncovered = tx'.uncovered := by
        unfold uncovered usesCLSAG
        rw [hsame.version]
      rw [hsame.inputs, hunc]
  · rintro ⟨hshape, hun⟩
    exact (sameHead_of_bytes hbytes).content_of_shape hC h h' hshape hun

/-! ### Bytes moved from one field to the next -/

/-- 32 bytes `1`. -/
def onesArray : Bytes32 := bytesArray 32 (replicate 32 1)

/-- A v3 deposit: 237 bytes of `Extra` and no input. -/
def longDeposit : Transaction := { version := .stake, extra := replicate 237 1 }

/-- A v2 deposit: the last 64 bytes have become the key image and the commitment of an input. -/
def shortDeposit : Transaction :=
  { version := .stake
    extra := replicate 173 1
    inputs := [{ keyImage := onesArray, ring := [], amountCommit := onesArray }] }

/-- A CLSAG spend of one input, with `Extra` and outputs as given. -/
def onesSpend (extra : Bytes) (outputs : Nat) : Transaction :=
  { version := .clsag
    inputs := [{ keyImage := onesArray, ring := replicate 16 onesArray
                 amountCommit := onesArray, ringCommitments := replicate 16 onesArray
                 pseudoOut := onesArray }]
    outputs := replicate outputs
      { oneTimePub := onesArray, txPubKey := onesArray, amountCommit := onesArray
        encAmount := bytesArray 8 (replicate 8 1) }
    rangeProofs := replicate outputs none
    clsagSignatures := [some ⟨0, replicate 16 0, onesArray, 0⟩]
    extra }

theorem longDeposit_shortDeposit_same_bytes : longDeposit.validate transparent = .ok () ∧
    shortDeposit.validate transparent = .ok () ∧
    longDeposit.hashedBytes = shortDeposit.hashedBytes := by
  decide +kernel

/-- The theorem at the two deposits: their `Extra` lengths differ, so they are not the same. -/
theorem deposits_differ_in_shape : ¬ SameContent longDeposit shortDeposit := by
  obtain ⟨h, h', hbytes⟩ := longDeposit_shortDeposit_same_bytes
  have hC : transparent.PrefixFreeCodecs := ⟨fun _ _ _ => rfl, fun _ _ _ => rfl⟩
  intro hsame
  have hlen := ((sameContent_iff_sameShape hC h h' hbytes).mp hsame).1.1
  rw [longDeposit, shortDeposit, length_replicate, length_replicate] at hlen
  omega

/-- Valid transactions with one hash: a deposit of 237 bytes and one of 173 bytes with an input, and
a spend with two outputs and one with 104 bytes of `Extra` and one output. -/
theorem bytes_move_between_fields :
    (longDeposit.validate transparent = .ok () ∧ shortDeposit.validate transparent = .ok () ∧
      longDeposit.hashedBytes = shortDeposit.hashedBytes ∧
      longDeposit.inputs.length ≠ shortDeposit.inputs.length ∧
      longDeposit.extra ≠ shortDeposit.extra) ∧
    ((onesSpend [] 2).validate transparent = .ok () ∧
      (onesSpend (replicate 104 1) 1).validate transparent = .ok () ∧
      (onesSpend [] 2).hashedBytes = (onesSpend (replicate 104 1) 1).hashedBytes ∧
      (onesSpend [] 2).outputs.length ≠ (onesSpend (replicate 104 1) 1).outputs.length ∧
      (onesSpend [] 2).extra ≠ (onesSpend (replicate 104 1) 1).extra) := by
  decide +kernel

end Transaction

end Aperod
