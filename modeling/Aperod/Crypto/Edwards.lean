import Aperod.Core.Validate
import Aperod.Lib.DiscreteLog

/-!
# The curve

Package `edwards25519` and the hash functions, as parameters (`Edwards`), and the small functions of
package `crypto` above them: scalars and points as bytes, `hashToScalar`, and `CanonicalKeyImage`.
A scalar is a number modulo the order of the prime subgroup.  What is assumed of the curve is
`Edwards.Lawful`; the hash functions are arbitrary.
-/

namespace Aperod

open Go DiscreteLog

structure Edwards where
  /-- The order of the prime subgroup. -/
  order : Nat
  Group : Type
  [group : AddCommGroup Group]
  [groupDecEq : DecidableEq Group]
  base : Group
  /-- `p.Bytes()`. -/
  bytes : Group → Point32
  /-- `SetBytes`, which takes encodings that are not canonical too. -/
  setBytes : Point32 → Result Group
  /-- `inv8ModL`. -/
  inv8 : ZMod order
  sha256 : Bytes → Bytes32
  sha512 : Bytes → BitVec (8 * 64)
  hashToCurvePoint : Bytes → Group

attribute [instance] Edwards.group Edwards.groupDecEq

/-- The constant `inv8ModL` is the inverse of the cofactor. -/
example : 8 * leNat [0x79, 0x2f, 0xdc, 0xe2, 0x29, 0xe5, 0x06, 0x61, 0xd0, 0xda, 0x1c, 0x7d, 0xb3,
    0x9d, 0xd3, 0x07, 0, 0, 0, 0, 0, 0, 0, 0, 0, 0, 0, 0, 0, 0, 0, 0x06] % groupOrder = 1 := by
  decide +kernel

namespace Edwards

variable (E : Edwards)

abbrev Scalar := ZMod E.order

/-- `s.Bytes()`. -/
def scalarBytes (s : E.Scalar) : Bytes32 := BitVec.ofNat _ s.val

def scalarFromBytes (b : Bytes32) : Result E.Scalar := do
  failIf (¬ b.toNat < E.order) "invalid scalar: invalid scalar encoding"
  .ok (b.toNat : ZMod E.order)

def pointFromBytes (b : Point32) : Result E.Group := wrap "invalid curve point" (E.setBytes b)

def scalarMult (s : E.Scalar) (p : E.Group) : E.Group := s.val • p

def scalarBaseMult (s : E.Scalar) : E.Group := E.scalarMult s E.base

/-- `SetUniformBytes` of a SHA-512 digest. -/
def digestScalar (data : Bytes) : E.Scalar := ((E.sha512 data).toNat : ZMod E.order)

def hashToScalar (data : Bytes) (tag : String) : E.Scalar := E.digestScalar (data ++ ascii tag)

/-- One attempt of `hashToCurvePoint` at an encoding. -/
def curveAttempt (buf : Point32) : Option E.Group :=
  match E.setBytes buf with
  | .ok p => if 8 • p = 0 then none else some (8 • p)
  | .error _ => none

/-- The loop body of `hashToCurvePoint`: both signs of `x`. -/
def curveCandidate (data : Bytes) (ctr : Nat) : Option E.Group :=
  let digest := E.sha256 (ascii "Aperod/hash-to-curve/v2" ++ data ++ leBytes 8 ctr)
  (E.curveAttempt (digest &&& BitVec.ofNat _ (2 ^ 255 - 1))).or
    (E.curveAttempt (digest ||| BitVec.ofNat _ (2 ^ 255)))

def canonicalKeyImage (ki : KeyImage) : Result KeyImage := do
  let p ← wrap "key image not a valid curve point" (E.setBytes ki)
  failIf (8 • p = 0) "key image is a small-order (torsion) point"
  .ok (E.bytes (E.scalarMult E.inv8 (8 • p)))

def computeKeyImage (x : Bytes32) (P : Point32) : Result KeyImage := do
  let x ← E.scalarFromBytes x
  .ok (E.bytes (E.scalarMult x (E.hashToCurvePoint (Bytes32.bytes P))))

/-! ### What is assumed -/

/-- A group of exponent `8 · order` with a base point of prime order, whose points can be read back
from their encodings; `hashToCurvePoint` returns what its loop finds first. -/
structure Lawful : Prop where
  prime : E.order.Prime
  order_lt : E.order < 2 ^ 256
  order_base : E.order • E.base = 0
  base_ne_zero : E.base ≠ 0
  exponent : ∀ p : E.Group, (8 * E.order) • p = 0
  inv8_eq : E.inv8 * 8 = 1
  setBytes_bytes : ∀ p, E.setBytes (E.bytes p) = .ok p
  found : ∀ data, ∃ ctr, E.curveCandidate data ctr = some (E.hashToCurvePoint data) ∧
    ∀ c < ctr, E.curveCandidate data c = none

/-- The prime subgroup. -/
abbrev Prime := torsion E.Group E.order

variable {E}

theorem Lawful.neZero (hE : E.Lawful) : NeZero E.order := ⟨hE.prime.ne_zero⟩

theorem Lawful.scalarFromBytes_bytes (hE : E.Lawful) (s : E.Scalar) :
    E.scalarFromBytes (E.scalarBytes s) = .ok s := by
  have := hE.neZero
  have hlt : s.val < 2 ^ (8 * 32) := s.val_lt.trans hE.order_lt
  have hval : (E.scalarBytes s).toNat = s.val := by
    rw [scalarBytes, BitVec.toNat_ofNat, Nat.mod_eq_of_lt hlt]
  simp [scalarFromBytes, hval, failIf, s.val_lt]

theorem Lawful.bytes_injective (hE : E.Lawful) : Function.Injective E.bytes := by
  intro p q h
  have hp := hE.setBytes_bytes p
  rw [h, hE.setBytes_bytes] at hp
  exact (Except.ok.inj hp).symm

/-- A point multiplied by the cofactor is in the prime subgroup. -/
theorem Lawful.eight_mem (hE : E.Lawful) (p : E.Group) : 8 • p ∈ E.Prime := by
  rw [mem_torsion, ← mul_nsmul, hE.exponent]

theorem Lawful.coe_smul (hE : E.Lawful) (s : E.Scalar) (p : E.Prime) :
    ((s • p : E.Prime) : E.Group) = E.scalarMult s p := by
  have := hE.neZero
  exact DiscreteLog.coe_smul s p

/-- The base point in the prime subgroup. -/
def Lawful.baseP (hE : E.Lawful) : E.Prime := ⟨E.base, hE.order_base⟩

theorem Lawful.baseP_ne_zero (hE : E.Lawful) : hE.baseP ≠ 0 := fun hzero =>
  hE.base_ne_zero (congrArg Subtype.val hzero)

theorem Lawful.hash_mem (hE : E.Lawful) (data : Bytes) :
    E.hashToCurvePoint data ∈ E.Prime ∧ E.hashToCurvePoint data ≠ 0 := by
  have hattempt : ∀ {buf p}, E.curveAttempt buf = some p → p ∈ E.Prime ∧ p ≠ 0 := by
    intro buf p h
    unfold curveAttempt at h
    split at h
    · split_ifs at h with hzero
      cases h
      exact ⟨hE.eight_mem _, hzero⟩
    · cases h
  obtain ⟨ctr, hfound, -⟩ := hE.found data
  rcases Option.or_eq_some_iff.mp hfound with h | ⟨-, h⟩
  · exact hattempt h
  · exact hattempt h

/-- A hashed point in the prime subgroup. -/
def Lawful.hashP (hE : E.Lawful) (data : Bytes) : E.Prime := ⟨_, (hE.hash_mem data).1⟩

theorem Lawful.hashP_ne_zero (hE : E.Lawful) (data : Bytes) : hE.hashP data ≠ 0 := fun hzero =>
  (hE.hash_mem data).2 (congrArg Subtype.val hzero)

/-- On the prime subgroup the two multiplications of `CanonicalKeyImage` cancel. -/
theorem Lawful.inv8_smul_eq_iff (hE : E.Lawful) {p q : E.Prime} : E.inv8 • p = q ↔ p = 8 • q := by
  have hcast : ∀ p : E.Prime, (8 : E.Scalar) • p = 8 • p := fun p => by
    rw [← Nat.cast_smul_eq_nsmul E.Scalar, Nat.cast_ofNat]
  constructor
  · rintro rfl
    rw [← hcast, smul_smul, mul_comm, hE.inv8_eq, one_smul]
  · rintro rfl
    rw [← hcast, smul_smul, hE.inv8_eq, one_smul]

/-- The part of a point in the prime subgroup. -/
def Lawful.clear (hE : E.Lawful) (p : E.Group) : E.Prime := E.inv8 • ⟨8 • p, hE.eight_mem p⟩

theorem Lawful.coe_clear (hE : E.Lawful) (p : E.Group) :
    (hE.clear p : E.Group) = E.scalarMult E.inv8 (8 • p) := hE.coe_smul _ _

@[simp] theorem Lawful.clear_coe (hE : E.Lawful) (q : E.Prime) : hE.clear q = q :=
  hE.inv8_smul_eq_iff.mpr rfl

theorem Lawful.clear_eq_iff (hE : E.Lawful) {p q : E.Group} :
    hE.clear p = hE.clear q ↔ 8 • (p - q) = 0 := by
  have hq : 8 • hE.clear q = ⟨8 • q, hE.eight_mem q⟩ := (hE.inv8_smul_eq_iff.mp rfl).symm
  rw [clear, hE.inv8_smul_eq_iff, hq, Subtype.mk_eq_mk, nsmul_sub, sub_eq_zero]

theorem Lawful.canonicalKeyImage_eq_ok (hE : E.Lawful) {ki k : KeyImage} :
    E.canonicalKeyImage ki = .ok k ↔
      ∃ p, E.setBytes ki = .ok p ∧ hE.clear p ≠ 0 ∧ k = E.bytes (hE.clear p) := by
  have hzero : ∀ p : E.Group, hE.clear p = 0 ↔ 8 • p = 0 := by
    intro p
    have hiff := hE.clear_eq_iff (p := p) (q := ((0 : E.Prime) : E.Group))
    rwa [hE.clear_coe, ZeroMemClass.coe_zero, sub_zero] at hiff
  simp only [canonicalKeyImage, bind_eq_ok, wrap_eq_ok, failIf_eq_ok, Except.ok.injEq, ne_eq, hzero,
    hE.coe_clear, exists_const, eq_comm (a := k)]

/-- `CanonicalKeyImage` keeps exactly the encodings of the points in the prime subgroup. -/
theorem Lawful.canonicalKeyImage_self (hE : E.Lawful) {k : KeyImage} :
    E.canonicalKeyImage k = .ok k ↔ ∃ q : E.Prime, q ≠ 0 ∧ k = E.bytes q := by
  rw [hE.canonicalKeyImage_eq_ok]
  constructor
  · rintro ⟨p, -, hne, hk⟩
    exact ⟨_, hne, hk⟩
  · rintro ⟨q, hne, rfl⟩
    exact ⟨q, hE.setBytes_bytes q, by rwa [hE.clear_coe], by rw [hE.clear_coe]⟩

end Edwards

end Aperod
