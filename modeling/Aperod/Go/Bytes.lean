import Mathlib.Data.List.Basic
import Mathlib.Data.Nat.Basic
import Mathlib.Tactic.Common
import Mathlib.Tactic.Ring

/-!
# Byte strings and fixed-width integers

`leBytes w n` is what `binary.LittleEndian.PutUintXX` writes for a `w`-byte integer, `leNat` what it
reads back; the big-endian forms reverse them.  A fixed-size array `[w]byte` is a `BitVec (8 * w)`
read in little-endian order, so comparing two arrays is comparing two numbers.
-/

namespace Aperod.Go

abbrev Bytes := List UInt8

/-- The `w` low-order bytes of `n`, least significant first. -/
def leBytes : Nat → Nat → Bytes
  | 0, _ => []
  | w + 1, n => UInt8.ofNat n :: leBytes w (n / 256)

/-- The number whose little-endian bytes are given. -/
def leNat : Bytes → Nat
  | [] => 0
  | b :: bs => b.toNat + 256 * leNat bs

/-- Big-endian writing. -/
def beBytes (w n : Nat) : Bytes := (leBytes w n).reverse

/-- Big-endian reading. -/
def beNat (bs : Bytes) : Nat := leNat bs.reverse

/-- `hex.EncodeToString`. -/
def hexString (bs : Bytes) : String :=
  String.join (bs.map fun b =>
    String.ofList [Nat.digitChar (b.toNat / 16), Nat.digitChar (b.toNat % 16)])

/-- The bytes of an array of `w` bytes. -/
def arrayBytes {w : Nat} (a : BitVec (8 * w)) : Bytes := leBytes w a.toNat

/-- `copy(a[:], bs)` into a fresh array of `w` bytes: short input is padded with zero bytes, long
input is cut. -/
def bytesArray (w : Nat) (bs : Bytes) : BitVec (8 * w) := BitVec.ofNat (8 * w) (leNat (bs.take w))

/-- The slice `b[lo:hi]`; every use has `hi ≤ len(b)`. -/
def slice (b : Bytes) (lo hi : Nat) : Bytes := (b.take hi).drop lo

@[simp] theorem leBytes_length (w n : Nat) : (leBytes w n).length = w := by
  induction w generalizing n with
  | zero => rfl
  | succ w ih => simp [leBytes, ih]

theorem leNat_leBytes (w n : Nat) : leNat (leBytes w n) = n % 256 ^ w := by
  induction w generalizing n with
  | zero => simp [leBytes, leNat, Nat.mod_one]
  | succ w ih =>
    have h : (UInt8.ofNat n).toNat = n % 256 := by simp
    rw [leBytes, leNat, ih, h, Nat.pow_succ', Nat.mod_mul]

@[simp] theorem arrayBytes_length {w : Nat} (a : BitVec (8 * w)) : (arrayBytes a).length = w :=
  leBytes_length _ _

theorem bytesArray_arrayBytes {w : Nat} (a : BitVec (8 * w)) : bytesArray w (arrayBytes a) = a := by
  have h : a.toNat < 256 ^ w := by
    have := a.isLt
    rwa [Nat.pow_mul] at this
  rw [bytesArray, List.take_of_length_le (by simp), arrayBytes, leNat_leBytes, Nat.mod_eq_of_lt h,
    BitVec.ofNat_toNat, BitVec.setWidth_eq]

theorem leNat_lt (bs : Bytes) : leNat bs < 256 ^ bs.length := by
  induction bs with
  | nil => simp [leNat]
  | cons b bs ih =>
    have hb : b.toNat < 256 := b.toNat_lt
    rw [leNat, List.length_cons]
    omega

theorem leBytes_leNat (bs : Bytes) : leBytes bs.length (leNat bs) = bs := by
  induction bs with
  | nil => rfl
  | cons b bs ih =>
    have hb : b.toNat < 256 := b.toNat_lt
    have hdiv : (b.toNat + 256 * leNat bs) / 256 = leNat bs := by omega
    have hmod : UInt8.ofNat (b.toNat + 256 * leNat bs) = b := by
      apply UInt8.toNat_inj.mp
      rw [UInt8.toNat_ofNat']
      omega
    rw [List.length_cons, leBytes, leNat, hdiv, hmod, ih]

theorem arrayBytes_bytesArray {w : Nat} {bs : Bytes} (h : bs.length = w) :
    arrayBytes (bytesArray w bs) = bs := by
  subst h
  have hlt : leNat bs < 2 ^ (8 * bs.length) := by
    rw [Nat.pow_mul]
    exact leNat_lt bs
  rw [arrayBytes, bytesArray, List.take_length, BitVec.toNat_ofNat, Nat.mod_eq_of_lt hlt,
    leBytes_leNat]

end Aperod.Go
