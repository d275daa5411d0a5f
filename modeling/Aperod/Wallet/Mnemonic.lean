import Aperod.Core.StakePayload
import Mathlib.Data.List.DropRight

/-!
# Mnemonic phrases

`wallet/mnemonic.go`: entropy to words and back, the two validations, and the seed.  A phrase is the
list of its characters; SHA-256 and PBKDF2 are parameters.
-/

namespace Aperod

open Go

abbrev Text := List Char

/-- `unicode.IsSpace`. -/
def isSpace (c : Char) : Bool :=
  c.val ∈ [9, 10, 11, 12, 13, 32, 0x85, 0xA0, 0x1680, 0x2028, 0x2029, 0x202F, 0x205F, 0x3000] ||
    0x2000 ≤ c.val && c.val ≤ 0x200A

/-- `strings.Fields`. -/
def fields (s : Text) : List Text := (s.splitOnP isSpace).filter (· ≠ [])

/-- `strings.TrimSpace`. -/
def trimSpace (s : Text) : Text := (s.dropWhile isSpace).rdropWhile isSpace

/-- What `validateBIP39WordList` makes sure of. -/
structure WordList where
  words : List Text
  length_eq : words.length = 2048
  nodup : words.Nodup
  word : ∀ w ∈ words, w ≠ [] ∧ ∀ c ∈ w, isSpace c = false

/-- `bip39Index`. -/
def WordList.index (W : WordList) (w : Text) : Option Nat :=
  if w ∈ W.words then some (W.words.idxOf w) else none

/-! ### Bit helpers -/

/-- The `n` low bits, from the last one up. -/
def uintToBits (v : Nat) : Nat → List Bool
  | 0 => []
  | n + 1 => uintToBits (v / 2) n ++ [decide (v % 2 = 1)]

/-- At most 11 bits are given, so nothing is shifted out. -/
def bitsToUint (bits : List Bool) : Nat := bits.foldl (fun v b => 2 * v + b.toNat) 0

/-- The first `k` groups of `n` bits. -/
def groups (n : Nat) : Nat → List Bool → List (List Bool)
  | 0, _ => []
  | k + 1, bits => bits.take n :: groups n k (bits.drop n)

def bytesToBits (b : Bytes) : List Bool := b.flatMap fun x => uintToBits x.toNat 8

def bitsToBytes (bits : List Bool) : Bytes :=
  (groups 8 (bits.length / 8) bits).map fun g => UInt8.ofNat (bitsToUint g)

/-! ### Phrases -/

section

variable (W : WordList) (sha256 : Bytes → Hash32)

def entropyToMnemonic (entropy : Bytes) : Result Text := do
  failIf (entropy.length ≠ 16 ∧ entropy.length ≠ 32) "mnemonic: entropy must be 16 or 32 bytes"
  let checksumBits := entropy.length * 8 / 32
  let bits := bytesToBits entropy ++ (bytesToBits (sha256 entropy).bytes).take checksumBits
  let words ← mapLoop (fun _ g => Go.index W.words (bitsToUint g)) 0
    (groups 11 (bits.length / 11) bits)
  .ok ([' '].intercalate words)

def wordIndex (index : Text → Option Nat) (w : Text) : Result Nat :=
  match index w with
  | some i => .ok i
  | none => fail s!"mnemonic: unknown word {(String.ofList w).quote}"

def mnemonicToEntropyWithIndex (mnemonic : Text) (index : Text → Option Nat) : Result Bytes := do
  let words := fields mnemonic
  failIf (words.length ≠ 12 ∧ words.length ≠ 24) "mnemonic: must be 12 or 24 words"
  let indices ← mapLoop (fun _ => wordIndex index) 0 words
  let bits := indices.flatMap (uintToBits · 11)
  let checksumBits := bits.length / 33
  let entropyBits := bits.length - checksumBits
  let entropy := bitsToBytes (bits.take entropyBits)
  failIf ((bytesToBits (sha256 entropy).bytes).take checksumBits ≠ bits.drop entropyBits)
    "mnemonic: checksum mismatch"
  .ok entropy

def mnemonicToEntropy (mnemonic : Text) : Result Bytes :=
  mnemonicToEntropyWithIndex sha256 mnemonic W.index

def validateMnemonic (mnemonic : Text) : Result Unit := do
  let _ ← mnemonicToEntropy W sha256 mnemonic

/-- The phrases of the historical word list are accepted too. -/
def validateMnemonicForRecovery (legacyIndex : Text → Option Nat) (mnemonic : Text) :
    Result Bool :=
  match validateMnemonic W sha256 mnemonic,
    mnemonicToEntropyWithIndex sha256 mnemonic legacyIndex with
  | .ok _, _ => .ok false
  | .error _, .ok _ => .ok true
  | .error err, .error _ => .error err

end

def mnemonicToSeed (pbkdf2SHA512 : Text → Text → Bytes) (mnemonic passphrase : Text) : Bytes :=
  pbkdf2SHA512 (trimSpace mnemonic) ("mnemonic".toList ++ passphrase)

end Aperod
