import Aperod.Crypto.KeyImageProof

/-!
# What an accepted key-image proof says

All points that pass the checks are in the prime subgroup, which is a vector space over the scalars;
there the two equations of `VerifyKeyImageProof` are linear.
-/

namespace Aperod.Edwards

open Go DiscreteLog

variable {E : Edwards} {P : Point32} {ki k : KeyImage} {context : Bytes}
  {proof : KeyImageDLEQProof}

theorem Lawful.checkedDLEQPoint_eq_ok (hE : E.Lawful) {label : String} {p : E.Group} :
    E.checkedDLEQPoint label P = .ok p ↔ ∃ q : E.Prime, q ≠ 0 ∧ P = E.bytes q ∧ p = q := by
  simp only [checkedDLEQPoint, pointFromBytes, bind_eq_ok, wrap_eq_ok, failIf_eq_ok, not_not]
  constructor
  · rintro ⟨_, hcanonical, -, rfl, hp⟩
    obtain ⟨q, hne, rfl⟩ := hE.canonicalKeyImage_self.mp hcanonical
    rw [hE.setBytes_bytes] at hp
    exact ⟨q, hne, rfl, (Except.ok.inj hp).symm⟩
  · rintro ⟨q, hne, rfl, rfl⟩
    exact ⟨_, hE.canonicalKeyImage_self.mpr ⟨q, hne, rfl⟩, (), rfl, hE.setBytes_bytes q⟩

theorem Lawful.verifyKeyImageProof_iff (hE : E.Lawful) :
    E.verifyKeyImageProof P ki context proof = .ok () ↔ ∃ p i a b : E.Prime, ∃ z : E.Scalar,
      (p ≠ 0 ∧ i ≠ 0 ∧ a ≠ 0 ∧ b ≠ 0) ∧ (P = E.bytes p ∧ ki = E.bytes i ∧
        proof.commitmentG = E.bytes a ∧ proof.commitmentHp = E.bytes b) ∧
      E.scalarFromBytes proof.response = .ok z ∧
      z • hE.baseP =
        a + E.keyImageDLEQChallenge P ki proof.commitmentG proof.commitmentHp context • p ∧
      z • hE.hashP (Bytes32.bytes P) =
        b + E.keyImageDLEQChallenge P ki proof.commitmentG proof.commitmentHp context • i := by
  have hG : ∀ {z : E.Scalar}, E.scalarBaseMult z = ((z • hE.baseP : E.Prime) : E.Group) :=
    fun {z} => (hE.coe_smul z hE.baseP).symm
  have hHp : ∀ {z : E.Scalar} {data}, E.scalarMult z (E.hashToCurvePoint data) =
      ((z • hE.hashP data : E.Prime) : E.Group) :=
    fun {z data} => (hE.coe_smul z (hE.hashP data)).symm
  simp only [verifyKeyImageProof, bind_eq_ok, wrap_eq_ok, failIf_eq_ok, hE.checkedDLEQPoint_eq_ok,
    not_or, not_not]
  constructor
  · rintro ⟨_, ⟨p, hp, hP, rfl⟩, _, ⟨i, hi, hki, rfl⟩, _, ⟨a, ha, hA, rfl⟩, _, ⟨b, hb, hB, rfl⟩, z,
      hz, hG', hHp'⟩
    refine ⟨p, i, a, b, z, ⟨hp, hi, ha, hb⟩, ⟨hP, hki, hA, hB⟩, hz, Subtype.ext ?_, Subtype.ext ?_⟩
    · rw [← hG, hG', AddSubgroup.coe_add, hE.coe_smul]
    · rw [← hHp, hHp', AddSubgroup.coe_add, hE.coe_smul]
  · rintro ⟨p, i, a, b, z, ⟨hp, hi, ha, hb⟩, ⟨hP, hki, hA, hB⟩, hz, hG', hHp'⟩
    refine ⟨p, ⟨p, hp, hP, rfl⟩, i, ⟨i, hi, hki, rfl⟩, a, ⟨a, ha, hA, rfl⟩, b, ⟨b, hb, hB, rfl⟩,
      z, hz, ?_, ?_⟩
    · rw [hG, hG', AddSubgroup.coe_add, hE.coe_smul]
    · rw [hHp, hHp', AddSubgroup.coe_add, hE.coe_smul]

/-! ### Completeness -/

theorem Lawful.verify_prove (hE : E.Lawful) {w w' : E.Scalar} {secret : Bytes32}
    (h : E.proveKeyImage w w' secret P context = .ok (ki, proof)) :
    E.verifyKeyImageProof P ki context proof = .ok () := by
  have : Fact E.order.Prime := ⟨hE.prime⟩
  simp only [proveKeyImage, computeKeyImage, bind_eq_ok, wrap_eq_ok, failIf_eq_ok, not_not,
    hE.checkedDLEQPoint_eq_ok, Except.ok.injEq, Prod.mk.injEq] at h
  obtain ⟨x, hx, -, ⟨p, hp, hP, -⟩, -, hmatch, _, ⟨x', hx', rfl⟩, -, hnonce, rfl, rfl⟩ := h
  obtain rfl : x = x' := Except.ok.inj (hx.symm.trans hx')
  have hw : (if w = 0 then w' else w) ≠ 0 := by
    split_ifs with hzero
    · exact fun hzero' => hnonce ⟨hzero, hzero'⟩
    · exact hzero
  have hxG : x • hE.baseP = p := by
    apply Subtype.ext
    rw [hE.coe_smul]
    exact hE.bytes_injective (hmatch.trans hP)
  have hhash := hE.hashP_ne_zero (Bytes32.bytes P)
  have hx0 : x ≠ 0 := by
    rintro rfl
    exact hp (by rw [← hxG, zero_smul])
  refine hE.verifyKeyImageProof_iff.mpr ⟨p, x • hE.hashP (Bytes32.bytes P), _ • hE.baseP,
    _ • hE.hashP (Bytes32.bytes P), _, ⟨hp, smul_ne_zero hx0 hhash,
      smul_ne_zero hw hE.baseP_ne_zero, smul_ne_zero hw hhash⟩,
    ⟨hP, by rw [hE.coe_smul]; rfl, by rw [hE.coe_smul]; rfl, by rw [hE.coe_smul]; rfl⟩, hE.scalarFromBytes_bytes _, ?_, ?_⟩
  · rw [← hxG]
    module
  · module

theorem Lawful.exists_prove (hE : E.Lawful) {x w w' : E.Scalar} (hx : x ≠ 0)
    (hw : ¬ (w = 0 ∧ w' = 0)) (context : Bytes) : ∃ r, E.proveKeyImage w w' (E.scalarBytes x)
      (E.bytes (E.scalarBaseMult x)) context = .ok r := by
  have : Fact E.order.Prime := ⟨hE.prime⟩
  have hP : E.bytes (E.scalarBaseMult x) = E.bytes ((x • hE.baseP : E.Prime) : E.Group) := by
    rw [hE.coe_smul]
    rfl
  have hcheck : E.checkedDLEQPoint "one-time public key" (E.bytes (E.scalarBaseMult x)) = .ok _ :=
    hE.checkedDLEQPoint_eq_ok.mpr ⟨x • hE.baseP, smul_ne_zero hx hE.baseP_ne_zero, hP, rfl⟩
  simp [proveKeyImage, computeKeyImage, hE.scalarFromBytes_bytes, hcheck, failIf, wrap, hw]

/-! ### Special soundness -/

/-- Two accepted proofs with one pair of commitments and different challenges. -/
def Answered (E : Edwards) (P : Point32) (ki : KeyImage) : Prop :=
  ∃ context context' proof proof', E.verifyKeyImageProof P ki context proof = .ok () ∧
    E.verifyKeyImageProof P ki context' proof' = .ok () ∧
    proof.commitmentG = proof'.commitmentG ∧ proof.commitmentHp = proof'.commitmentHp ∧
    E.keyImageDLEQChallenge P ki proof.commitmentG proof.commitmentHp context ≠
      E.keyImageDLEQChallenge P ki proof'.commitmentG proof'.commitmentHp context'

theorem Lawful.extract (hE : E.Lawful) (h : E.Answered P ki) : ∃ x : E.Scalar,
    P = E.bytes (E.scalarBaseMult x) ∧
      ki = E.bytes (E.scalarMult x (E.hashToCurvePoint (Bytes32.bytes P))) := by
  have : Fact E.order.Prime := ⟨hE.prime⟩
  have hinj : ∀ {p q : E.Prime}, E.bytes p = E.bytes q → p = q := fun heq =>
    Subtype.ext (hE.bytes_injective heq)
  obtain ⟨context, context', proof, proof', hv, hv', hG, hHp, hc⟩ := h
  obtain ⟨p, i, a, b, z, -, ⟨hP, hki, ha, hb⟩, -, hzG, hzHp⟩ := hE.verifyKeyImageProof_iff.mp hv
  obtain ⟨p', i', a', b', z', -, ⟨hP', hki', ha', hb'⟩, -, hzG', hzHp'⟩ :=
    hE.verifyKeyImageProof_iff.mp hv'
  obtain rfl := hinj (hP.symm.trans hP')
  obtain rfl := hinj (hki.symm.trans hki')
  obtain rfl := hinj (ha.symm.trans (hG.trans ha'))
  obtain rfl := hinj (hb.symm.trans (hHp.trans hb'))
  have hp : (p : E.Group) = E.scalarBaseMult _ :=
    (congrArg Subtype.val (eq_smul_of_two_responses hc hzG hzG')).trans (hE.coe_smul _ _)
  have hi : (i : E.Group) = E.scalarMult _ (E.hashToCurvePoint (Bytes32.bytes P)) :=
    (congrArg Subtype.val (eq_smul_of_two_responses hc hzHp hzHp')).trans (hE.coe_smul _ _)
  exact ⟨_, hP.trans (congrArg E.bytes hp), hki.trans (congrArg E.bytes hi)⟩

/-! ### The result -/

theorem Lawful.canonicalKeyImage_idem (hE : E.Lawful) (h : E.canonicalKeyImage ki = .ok k) :
    E.canonicalKeyImage k = .ok k := by
  obtain ⟨p, -, hne, hk⟩ := hE.canonicalKeyImage_eq_ok.mp h
  exact hE.canonicalKeyImage_self.mpr ⟨_, hne, hk⟩

/-- Two encodings have one canonical form exactly if their points differ by a torsion point. -/
theorem Lawful.canonicalKeyImage_eq_iff (hE : E.Lawful) {ki' k' : KeyImage} {p p' : E.Group}
    (hp : E.setBytes ki = .ok p) (hp' : E.setBytes ki' = .ok p')
    (h : E.canonicalKeyImage ki = .ok k) (h' : E.canonicalKeyImage ki' = .ok k') :
    k = k' ↔ ∃ T, 8 • T = 0 ∧ p = p' + T := by
  obtain ⟨q, hq, -, rfl⟩ := hE.canonicalKeyImage_eq_ok.mp h
  obtain ⟨q', hq', -, rfl⟩ := hE.canonicalKeyImage_eq_ok.mp h'
  obtain rfl : p = q := Except.ok.inj (hp.symm.trans hq)
  obtain rfl : p' = q' := Except.ok.inj (hp'.symm.trans hq')
  rw [hE.bytes_injective.eq_iff, Subtype.val_inj, hE.clear_eq_iff]
  constructor
  · exact fun heq => ⟨_, heq, by abel⟩
  · rintro ⟨T, hT, rfl⟩
    rwa [add_sub_cancel_left]

/-- **Key-image proofs.**  What is proved is accepted, and every secret and nonce other than zero
give a proof; two answers to one commitment give one secret for key and key image, so a key has
one key image; and `CanonicalKeyImage` is idempotent and identifies what differs by a torsion point. -/
theorem keyImage_proofs_sound (hE : E.Lawful) :
    (∀ w w' secret P context ki proof,
      E.proveKeyImage w w' secret P context = .ok (ki, proof) →
        E.verifyKeyImageProof P ki context proof = .ok ()) ∧
    (∀ (x w w' : E.Scalar) context, x ≠ 0 → ¬ (w = 0 ∧ w' = 0) → ∃ r,
      E.proveKeyImage w w' (E.scalarBytes x) (E.bytes (E.scalarBaseMult x)) context = .ok r) ∧
    (∀ P ki, E.Answered P ki → ∃ x : E.Scalar, P = E.bytes (E.scalarBaseMult x) ∧
      ki = E.bytes (E.scalarMult x (E.hashToCurvePoint (Bytes32.bytes P)))) ∧
    (∀ P ki ki', E.Answered P ki → E.Answered P ki' → ki = ki' ∧ E.canonicalKeyImage ki = .ok ki') ∧
    (∀ ki k, E.canonicalKeyImage ki = .ok k → E.canonicalKeyImage k = .ok k) ∧
    ∀ ki ki' k k' p p', E.setBytes ki = .ok p → E.setBytes ki' = .ok p' →
      E.canonicalKeyImage ki = .ok k → E.canonicalKeyImage ki' = .ok k' →
        (k = k' ↔ ∃ T, 8 • T = 0 ∧ p = p' + T) := by
  have : Fact E.order.Prime := ⟨hE.prime⟩
  refine ⟨fun _ _ _ _ _ _ _ => hE.verify_prove,
    fun _ _ _ context hx hw => hE.exists_prove hx hw context,
    fun _ _ => hE.extract, fun P ki ki' h h' => ?_, fun _ _ => hE.canonicalKeyImage_idem,
    fun _ _ _ _ _ _ => hE.canonicalKeyImage_eq_iff⟩
  obtain ⟨x, hP, hki⟩ := hE.extract h
  obtain ⟨x', hP', hki'⟩ := hE.extract h'
  -- the base point has prime order, so the secret of a key is unique
  have hx : x • hE.baseP = x' • hE.baseP := Subtype.ext (by
    rw [hE.coe_smul, hE.coe_smul]
    exact hE.bytes_injective (hP.symm.trans hP'))
  obtain rfl := smul_left_injective E.Scalar hE.baseP_ne_zero hx
  obtain rfl := hki.trans hki'.symm
  obtain ⟨_, _, _, _, hv, -⟩ := h
  obtain ⟨p, i, -, -, -, ⟨-, hi, -⟩, ⟨-, hki, -⟩, -⟩ := hE.verifyKeyImageProof_iff.mp hv
  exact ⟨rfl, hE.canonicalKeyImage_self.mpr ⟨i, hi, hki⟩⟩

/-- A curve of order 40 with a prime subgroup of order 5. -/
def smallCurve : Edwards where
  order := 5
  Group := ZMod 40
  base := 8
  bytes p := BitVec.ofNat _ p.val
  setBytes b := if b.toNat < 40 then .ok (b.toNat : ZMod 40) else fail "invalid point encoding"
  inv8 := 2
  sha256 _ := 1
  sha512 _ := 3
  hashToCurvePoint _ := 8

theorem smallCurve_lawful : smallCurve.Lawful where
  prime := Nat.prime_five
  order_lt := by decide
  order_base := by decide +kernel
  base_ne_zero := by decide +kernel
  exponent := (by decide +kernel : ∀ p : ZMod 40, (8 * 5) • p = 0)
  inv8_eq := by decide +kernel
  setBytes_bytes := by
    intro (p : ZMod 40)
    have hlt : p.val < 40 := p.val_lt
    have hval : (BitVec.ofNat (8 * 32) p.val).toNat = p.val := by
      rw [BitVec.toNat_ofNat, Nat.mod_eq_of_lt (by omega)]
    simp [smallCurve, hval, hlt]
  found _ := by
    have hfirst : (smallCurve.curveAttempt (1 &&& BitVec.ofNat _ (2 ^ 255 - 1))).or
        (smallCurve.curveAttempt (1 ||| BitVec.ofNat _ (2 ^ 255))) = some smallCurve.base := by
      decide +kernel
    exact ⟨0, hfirst, nofun⟩

theorem small_proof_accepted : smallCurve.Lawful ∧ ∃ ki proof,
    smallCurve.proveKeyImage (1 : ZMod 5) (0 : ZMod 5) 2 16 [] = .ok (ki, proof) ∧
      smallCurve.verifyKeyImageProof 16 ki [] proof = .ok () := by
  obtain ⟨hverify, hprove, -⟩ := keyImage_proofs_sound smallCurve_lawful
  obtain ⟨⟨ki, proof⟩, h⟩ := hprove (2 : ZMod 5) (1 : ZMod 5) (0 : ZMod 5) []
    (by decide : (2 : ZMod 5) ≠ 0) (by decide : ¬ ((1 : ZMod 5) = 0 ∧ (0 : ZMod 5) = 0))
  exact ⟨smallCurve_lawful, ki, proof, h, hverify _ _ _ _ _ _ _ h⟩

end Aperod.Edwards
