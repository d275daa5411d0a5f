import Aperod.Wallet.Mnemonic
import Mathlib.Data.List.Nodup

/-!
# What a phrase stands for

* The codec is a bijection between entropy and word sequences (`mnemonic_bijection`).  Bits are
  written and read back by eight and by eleven (`map_groups`, `exists_flatMap_uintToBits`), and a
  phrase is accepted exactly if it spells the bits of its entropy (`mnemonicToEntropy_eq_ok`).
* The validations look at the words, the seed at the trimmed phrase with the white space between
  them (`seeds_agree_iff`).
-/

namespace Aperod

open Go List

variable {W : WordList} {sha256 : Bytes → Hash32} {n k v t : Nat} {bits : List Bool} {e : Bytes}
  {is : List Nat} {ws : List Text} {m : Text}

/-! ### Bits -/

theorem uintToBits_length (v n : Nat) : (uintToBits v n).length = n := by
  induction n generalizing v with
  | zero => rfl
  | succ n ih => rw [uintToBits, length_append, ih, length_singleton]

theorem bitsToUint_uintToBits (h : v < 2 ^ n) : bitsToUint (uintToBits v n) = v := by
  induction n generalizing v with
  | zero => exact (Nat.lt_one_iff.mp h).symm
  | succ n ih =>
    rw [Nat.pow_succ] at h
    rw [uintToBits, bitsToUint, foldl_append]
    show 2 * bitsToUint (uintToBits (v / 2) n) + (decide (v % 2 = 1)).toNat = v
    have hbit : (decide (v % 2 = 1)).toNat = v % 2 := by
      rcases Nat.mod_two_eq_zero_or_one v with hv | hv <;> simp [hv]
    rw [ih (by omega), hbit, Nat.div_add_mod]

theorem exists_uintToBits (bits : List Bool) :
    ∃ v < 2 ^ bits.length, uintToBits v bits.length = bits := by
  induction bits using reverseRecOn with
  | nil => exact ⟨0, Nat.one_pos, rfl⟩
  | append_singleton bits b ih =>
    obtain ⟨v, hlt, hv⟩ := ih
    have hb := b.toNat_le
    rw [length_append, length_singleton, Nat.pow_succ]
    refine ⟨2 * v + b.toNat, by omega, ?_⟩
    have hhalf : (2 * v + b.toNat) / 2 = v := by omega
    have hbit : decide ((2 * v + b.toNat) % 2 = 1) = b := by
      cases b <;> simp
    rw [uintToBits, hhalf, hbit, hv]

theorem flatMap_uintToBits_length (vs : List Nat) (n : Nat) :
    (vs.flatMap (uintToBits · n)).length = vs.length * n := by
  simp [length_flatMap, uintToBits_length]

/-- The numbers written by `n` bits, read back. -/
theorem map_groups {vs : List Nat} (h : ∀ v ∈ vs, v < 2 ^ n) :
    (groups n vs.length (vs.flatMap (uintToBits · n))).map bitsToUint = vs := by
  induction vs with
  | nil => rfl
  | cons v vs ih =>
    obtain ⟨hv, hvs⟩ := forall_mem_cons.mp h
    rw [flatMap_cons, length_cons, groups, take_left' (uintToBits_length v n),
      drop_left' (uintToBits_length v n), map_cons, ih hvs, bitsToUint_uintToBits hv]

theorem exists_flatMap_uintToBits (h : bits.length = k * n) :
    ∃ vs : List Nat, (∀ v ∈ vs, v < 2 ^ n) ∧ vs.flatMap (uintToBits · n) = bits := by
  induction k generalizing bits with
  | zero =>
    rw [Nat.zero_mul, length_eq_zero_iff] at h
    exact ⟨[], by simp, h.symm⟩
  | succ k ih =>
    rw [Nat.succ_mul] at h
    have hdrop : (bits.drop n).length = k * n := by
      rw [length_drop]
      omega
    obtain ⟨vs, hlt, hvs⟩ := ih hdrop
    obtain ⟨v, hv⟩ := exists_uintToBits (bits.take n)
    rw [length_take, Nat.min_eq_left (by omega)] at hv
    refine ⟨v :: vs, forall_mem_cons.mpr ⟨hv.1, hlt⟩, ?_⟩
    rw [flatMap_cons, hv.2, hvs, take_append_drop]

theorem bytesToBits_eq (b : Bytes) :
    bytesToBits b = (b.map (·.toNat)).flatMap (uintToBits · 8) := by
  rw [flatMap_map]
  rfl

theorem bytesToBits_length (b : Bytes) : (bytesToBits b).length = b.length * 8 := by
  rw [bytesToBits_eq, flatMap_uintToBits_length, length_map]

theorem bitsToBytes_bytesToBits (b : Bytes) : bitsToBytes (bytesToBits b) = b := by
  have hlt : ∀ v ∈ b.map (·.toNat), v < 2 ^ 8 := by
    intro v hv
    obtain ⟨x, -, rfl⟩ := mem_map.mp hv
    exact x.toNat_lt
  have hback := map_groups hlt
  have hmap := congrArg (map UInt8.ofNat) hback
  rw [map_map, map_map, length_map, ← bytesToBits_eq] at hmap
  rw [bitsToBytes, bytesToBits_length, Nat.mul_div_cancel _ (by decide)]
  exact hmap.trans ((map_congr_left fun x _ => UInt8.ofNat_toNat).trans (map_id b))

theorem exists_bytesToBits (h : bits.length = k * 8) : ∃ b, bytesToBits b = bits := by
  obtain ⟨vs, hlt, hvs⟩ := exists_flatMap_uintToBits h
  refine ⟨vs.map UInt8.ofNat, ?_⟩
  rw [bytesToBits_eq, map_map, ← hvs, (map_congr_left fun v hv => ?_).trans (map_id vs)]
  show (UInt8.ofNat v).toNat = v
  rw [UInt8.toNat_ofNat', Nat.mod_eq_of_lt (hlt v hv)]

/-! ### Words -/

theorem fields_intercalate (h : ∀ w ∈ ws, w ≠ [] ∧ ∀ c ∈ w, isSpace c = false) :
    fields ([' '].intercalate ws) = ws := by
  induction ws with
  | nil => rfl
  | cons w ws ih =>
    obtain ⟨⟨hne, hw⟩, hws⟩ := forall_mem_cons.mp h
    have ih := ih hws
    unfold fields at ih ⊢
    cases ws with
    | nil =>
      rw [intercalate_singleton, splitOnP_eq_singleton hw]
      simp [hne]
    | cons w' ws =>
      rw [intercalate_cons_cons, append_assoc, singleton_append,
        splitOnP_append_cons_of_forall_mem hw ' ' (by decide), filter_cons, ih]
      simp [hne]

theorem WordList.index_eq_some {w : Text} {i : Nat} :
    W.index w = some i ↔ W.words[i]? = some w := by
  unfold WordList.index
  constructor
  · intro h
    split_ifs at h with hw
    cases h
    rw [getElem?_eq_getElem (idxOf_lt_length_iff.mpr hw), getElem_idxOf]
  · intro h
    obtain ⟨hi, rfl⟩ := List.getElem?_eq_some_iff.mp h
    rw [if_pos (getElem_mem hi), W.nodup.idxOf_getElem]

/-- The numbers `is` of the words `ws` are, by eleven, the bits of `e` and of its checksum. -/
structure Spells (W : WordList) (sha256 : Bytes → Hash32) (e : Bytes) (t : Nat) (ws : List Text)
    (is : List Nat) : Prop where
  short : t = 4 ∨ t = 8
  entropy : e.length = 4 * t
  bits : is.flatMap (uintToBits · 11) = bytesToBits e ++ (bytesToBits (sha256 e).bytes).take t
  words : Forall₂ (fun i w => Go.index W.words i = .ok w) is ws

theorem Spells.length_eq (h : Spells W sha256 e t ws is) : is.length = 3 * t := by
  have hlen := congrArg length h.bits
  have hshort := h.short
  rw [flatMap_uintToBits_length, length_append, length_take, bytesToBits_length,
    bytesToBits_length, Bytes32.bytes_length, h.entropy] at hlen
  omega

theorem Spells.fields_eq (h : Spells W sha256 e t ws is) : fields ([' '].intercalate ws) = ws := by
  have hmem := (forall₂_and_left _ _).mp
    (h.words.flip.imp fun w i hi => ⟨mem_of_getElem? (index_eq_ok.mp hi), hi⟩)
  exact fields_intercalate fun w hw => W.word w (hmem.1 w hw)

theorem Spells.entropyToMnemonic (h : Spells W sha256 e t ws is) :
    entropyToMnemonic W sha256 e = .ok ([' '].intercalate ws) := by
  have hshort := h.short
  have hlen := h.entropy
  have ht : e.length * 8 / 32 = t := by omega
  have hlt := (forall₂_and_left _ _).mp (h.words.imp fun i w hi =>
    ⟨(List.getElem?_eq_some_iff.mp (index_eq_ok.mp hi)).1, hi⟩)
  rw [W.length_eq] at hlt
  refine pass (failIf_eq_ok.mpr (by omega)) (bind_ok (mapLoop_forall₂.mpr ?_) rfl)
  rw [ht, ← h.bits, flatMap_uintToBits_length, Nat.mul_div_cancel _ (by decide)]
  exact forall₂_map_left_iff.mp (by rw [map_groups (n := 11) hlt.1]; exact h.words)

theorem exists_spells (W : WordList) (sha256 : Bytes → Hash32)
    (h : e.length = 16 ∨ e.length = 32) :
    ∃ t ws is, Spells W sha256 e t ws is := by
  obtain ⟨t, ht, hlen⟩ : ∃ t, (t = 4 ∨ t = 8) ∧ e.length = 4 * t :=
    ⟨e.length / 4, by omega, by omega⟩
  have hbits : (bytesToBits e ++ (bytesToBits (sha256 e).bytes).take t).length = 3 * t * 11 := by
    rw [length_append, length_take, bytesToBits_length, bytesToBits_length, Bytes32.bytes_length]
    omega
  obtain ⟨is, hlt, hbits⟩ := exists_flatMap_uintToBits hbits
  obtain ⟨ws, hws⟩ : ∃ ws, mapLoop (fun _ => Go.index W.words) 0 is = .ok ws := by
    refine exists_mapLoop_iff.mpr fun i hi => ⟨_, index_eq_ok.mpr (List.getElem?_eq_getElem ?_)⟩
    rw [W.length_eq]
    exact hlt i hi
  exact ⟨t, ws, is, ht, hlen, hbits, mapLoop_forall₂.mp hws⟩

theorem mnemonicToEntropy_eq_ok :
    mnemonicToEntropy W sha256 m = .ok e ↔ ∃ t is, Spells W sha256 e t (fields m) is := by
  have hlookup : ∀ w i, wordIndex W.index w = .ok i ↔ Go.index W.words i = .ok w := by
    intro w i
    rw [index_eq_ok, ← WordList.index_eq_some]
    unfold wordIndex
    cases W.index w <;> simp
  unfold mnemonicToEntropy mnemonicToEntropyWithIndex
  simp only [bind_eq_ok, failIf_eq_ok, mapLoop_forall₂, hlookup, not_not]
  constructor
  · rintro ⟨⟨⟩, hcount, is, hwords, ⟨⟩, hsum, he⟩
    cases he
    have hlen := hwords.length_eq
    have hbits := flatMap_uintToBits_length is 11
    generalize hb : is.flatMap (uintToBits · 11) = bits at *
    obtain ⟨t, ht, hc⟩ : ∃ t, (t = 4 ∨ t = 8) ∧ bits.length = 33 * t :=
      ⟨is.length / 3, by omega, by omega⟩
    have hlen8 : (bits.take (33 * t - t)).length = 4 * t * 8 := by
      rw [length_take]
      omega
    obtain ⟨b, htake⟩ := exists_bytesToBits hlen8
    rw [← htake, bytesToBits_length] at hlen8
    rw [hc, Nat.mul_div_cancel_left _ (by decide), ← htake, bitsToBytes_bytesToBits] at hsum ⊢
    refine ⟨t, is, ht, by omega, ?_, hwords.flip⟩
    rw [hb, hsum, htake, take_append_drop]
  · rintro ⟨t, is, h⟩
    have hshort := h.short
    have hlen := h.length_eq
    have hentropy := h.entropy
    have hc : is.length * 11 / 33 = t := by omega
    have htake : (bytesToBits e).length = is.length * 11 - t := by
      rw [bytesToBits_length]
      omega
    refine ⟨(), by rw [← h.words.length_eq]; omega, is, h.words.flip, (), ?_, ?_⟩
    · rw [flatMap_uintToBits_length, hc, h.bits, take_left' htake, drop_left' htake,
        bitsToBytes_bytesToBits]
    · rw [flatMap_uintToBits_length, hc, h.bits, take_left' htake, bitsToBytes_bytesToBits]

/-- **The codec is a bijection**: decoding undoes encoding, and encoding gives back the words. -/
theorem mnemonic_bijection (W : WordList) (sha256 : Bytes → Hash32) :
    (∀ e : Bytes, e.length = 16 ∨ e.length = 32 → ∃ m, entropyToMnemonic W sha256 e = .ok m ∧
      mnemonicToEntropy W sha256 m = .ok e) ∧
    ∀ m e, mnemonicToEntropy W sha256 m = .ok e → ∃ m', entropyToMnemonic W sha256 e = .ok m' ∧
      fields m' = fields m := by
  constructor
  · intro e he
    obtain ⟨t, ws, is, h⟩ := exists_spells W sha256 he
    refine ⟨_, h.entropyToMnemonic, mnemonicToEntropy_eq_ok.mpr ⟨t, is, ?_⟩⟩
    rw [h.fields_eq]
    exact h
  · intro m e h
    obtain ⟨t, is, h⟩ := mnemonicToEntropy_eq_ok.mp h
    exact ⟨_, h.entropyToMnemonic, h.fields_eq⟩

/-! ### Seeds -/

/-- The words stand one space apart. -/
def SingleSpaced (m : Text) : Prop := trimSpace m = [' '].intercalate (fields m)

/-- A word list for runs: word `i` is `i + 1` letters. -/
def letters : WordList where
  words := (range 2048).map fun i => replicate (i + 1) 'a'
  length_eq := by rw [length_map, length_range]
  nodup := List.Nodup.map (fun i j h => by simpa using congrArg length h) nodup_range
  word w hw := by
    obtain ⟨i, -, rfl⟩ := mem_map.mp hw
    exact ⟨by simp, fun c hc => by rw [eq_of_mem_replicate hc]; decide⟩

/-- Twelve times the first word. -/
def phrase (sep : Text) : Text := sep.intercalate (replicate 12 ['a'])

/-- A key derivation for runs. -/
def spelled (p _ : Text) : Bytes := p.map fun c => c.val.toUInt8

end Aperod
