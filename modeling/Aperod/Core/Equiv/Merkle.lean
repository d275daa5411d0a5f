import Aperod.Core.Transparent
import Aperod.Lib.HashTree

/-!
# What the Merkle root of a block binds

`MerkleRoot` pairs the last hash of an odd level with itself, and nothing tells a leaf from an inner
node.  So lists of different lengths can have the same root: `[a, b, c]` and `[a, b, c, c]` do
(`repeated_tx_same_root`).  Apart from a repetition and from a transaction of 64 hashed bytes, which
`Validate` excludes, the root determines the list (`merkleRoot_binds`).  Inclusion proofs are
complete (`merkle_proofs_complete`).

SHA-256 is assumed to have no collision among the strings the two roots are computed from
(`merkleInputs`); an assumption about all strings would be false of every function.
-/

namespace Aperod

open Go Lib List Block HashTree

variable (C : Externals)
variable {u : Unit} {tx : Transaction}

/-- The hash of an inner node. -/
def merkleNode (a b : Hash32) : Hash32 := C.hashBytes (Bytes32.bytes a ++ Bytes32.bytes b)

/-- What an inner node hashes. -/
def nodeBytes (p : Hash32 × Hash32) : Bytes := Bytes32.bytes p.1 ++ Bytes32.bytes p.2

/-- The strings `MerkleRoot` hashes for a list of transactions. -/
def merkleInputs (txs : List Transaction) : List Bytes :=
  if txs = [] then [ascii "aperod/merkle-empty/v1"]
  else txs.map (·.hashedBytes) ++ (reducePairs (merkleNode C) txs.length
    (txs.map (·.hash C))).map nodeBytes

/-- The hash function has no collision among the strings. -/
def HashSeparates (inputs : List Bytes) : Prop :=
  ∀ x ∈ inputs, ∀ y ∈ inputs, C.hashBytes x = C.hashBytes y → x = y

/-- Canonical JSON of the two payloads that travel as JSON names their fields, so it is not short. -/
def LongJSON : Prop :=
  (∀ b a, C.positionCodec.unmarshal b = .ok a → C.positionCodec.marshal a = b → 23 < b.length) ∧
    ∀ b a, C.payoutCodec.unmarshal b = .ok a → C.payoutCodec.marshal a = b → 23 < b.length

variable {C}

/-! ### The root as the value of a tree -/

theorem merkleLevel_eq (hs : List Hash32) :
    merkleLevel C hs = level (merkleNode C) hs := by
  unfold level
  induction hs using levelPairs.induct with
  | case1 => rfl
  | case2 a => rfl
  | case3 a b rest ih =>
    rw [merkleLevel, ih]
    rfl

theorem merkleReduce_eq_eval {fuel : Nat} {ts : List (HashTree Hash32)} {t : HashTree Hash32}
    (h : build fuel ts = some t) :
    merkleReduce C fuel (ts.map (eval (merkleNode C))) = t.eval (merkleNode C) := by
  refine build_induction (motive := fun fuel ts => merkleReduce C fuel
    (ts.map (eval (merkleNode C))) = t.eval (merkleNode C)) (fun fuel => ?_)
    (fun fuel ts hne ih => ?_) h
  · cases fuel <;> rfl
  · have hstep : ∀ hs : List Hash32, hs.length ≠ 1 →
        merkleReduce C (fuel + 1) hs = merkleReduce C fuel (merkleLevel C hs) := by
      intro hs hne
      match hs, hne with
      | [], _ => rfl
      | _ :: _ :: _, _ => rfl
    rw [hstep _ (by rwa [length_map]), merkleLevel_eq, level_map_eval]
    exact ih

def txLeaves (C : Externals) (txs : List Transaction) : List (HashTree Hash32) :=
  txs.map fun tx => .leaf (tx.hash C)

/-- The tree behind a Merkle root. -/
structure TreeOf (C : Externals) (txs : List Transaction) (t : HashTree Hash32) : Prop where
  build : build txs.length (txLeaves C txs) = some t
  root : merkleRoot C txs = t.eval (merkleNode C)
  /-- What it combines is hashed. -/
  pairs : ∀ p ∈ t.pairs (merkleNode C), nodeBytes p ∈ merkleInputs C txs
  /-- Its leaves are hashes of transactions. -/
  leaves : ∀ a ∈ t.leaves, ∃ tx ∈ txs, a = tx.hash C

theorem exists_treeOf {txs : List Transaction} (hne : txs ≠ []) : ∃ t, TreeOf C txs t := by
  have hleaves : txLeaves C txs ≠ [] := by
    unfold txLeaves
    rwa [Ne, map_eq_nil_iff]
  have hbuild : ∃ t, build txs.length (txLeaves C txs) = some t :=
    exists_build hleaves (by simp [txLeaves])
  obtain ⟨t, ht⟩ := hbuild
  have heval : (txLeaves C txs).map (eval (merkleNode C)) =
      txs.map (·.hash C) := by
    unfold txLeaves
    rw [map_map]
    rfl
  refine ⟨t, ht, ?_, fun p hp => ?_, fun a ha => ?_⟩
  · unfold merkleRoot
    rw [if_neg hne, ← heval]
    exact merkleReduce_eq_eval ht
  · unfold merkleInputs
    rw [if_neg hne, mem_append]
    rcases pairs_build ht p hp with ⟨s, hs, hps⟩ | hmem
    · obtain ⟨tx, -, rfl⟩ := mem_map.mp hs
      exact absurd hps not_mem_nil
    · rw [heval] at hmem
      exact .inr (mem_map_of_mem hmem)
  · obtain ⟨s, hs, has⟩ := leaves_build ht a ha
    obtain ⟨tx, htx, rfl⟩ := mem_map.mp hs
    exact ⟨tx, htx, mem_singleton.mp has⟩

/-! ### How many bytes are hashed -/

theorem Bytes32.bytes_injective : Function.Injective Bytes32.bytes := by
  intro a b h
  unfold Bytes32.bytes at h
  rw [← bytesArray_arrayBytes a, h, bytesArray_arrayBytes]

theorem nodeBytes_length (p : Hash32 × Hash32) : (nodeBytes p).length = 64 := by
  simp [nodeBytes, Bytes32.bytes]

theorem nodeBytes_injective : Function.Injective nodeBytes := by
  intro p q h
  have hlen : (Bytes32.bytes p.1).length = (Bytes32.bytes q.1).length := by simp [Bytes32.bytes]
  obtain ⟨h1, h2⟩ := append_inj h hlen
  exact Prod.ext (Bytes32.bytes_injective h1) (Bytes32.bytes_injective h2)

namespace Transaction

theorem hashedBytes_length_ge (tx : Transaction) :
    41 + tx.extra.length + (tx.inputs.flatMap tx.inputHashBytes).length +
      (tx.outputs.flatMap outputHashBytes).length ≤ tx.hashedBytes.length := by
  simp only [hashedBytes, length_append, length_singleton, leBytes_length,
    Bytes32.bytes, arrayBytes_length]
  omega

theorem outputs_length_ge (h : tx.outputs ≠ []) :
    104 ≤ (tx.outputs.flatMap outputHashBytes).length := by
  obtain ⟨out, rest, heq⟩ := exists_cons_of_ne_nil h
  rw [heq, flatMap_cons, length_append]
  have hone : (outputHashBytes out).length = 104 := by simp [outputHashBytes, Bytes32.bytes]
  omega

theorem inputs_length_ge (h : tx.inputs ≠ []) :
    64 ≤ (tx.inputs.flatMap tx.inputHashBytes).length := by
  obtain ⟨inp, rest, heq⟩ := exists_cons_of_ne_nil h
  rw [heq, flatMap_cons, length_append]
  have hone : 64 ≤ (tx.inputHashBytes inp).length := by
    simp only [inputHashBytes, length_append, Bytes32.bytes, arrayBytes_length]
    omega
  omega

theorem hashedBytes_of_outputs (h : tx.outputs ≠ []) :
    64 < tx.hashedBytes.length := by
  have := tx.hashedBytes_length_ge
  have := outputs_length_ge h
  omega

theorem hashedBytes_of_inputs (h : tx.inputs ≠ []) :
    64 < tx.hashedBytes.length := by
  have := tx.hashedBytes_length_ge
  have := inputs_length_ge h
  omega

theorem hashedBytes_of_extra (h : 23 < tx.extra.length) :
    64 < tx.hashedBytes.length := by
  have := tx.hashedBytes_length_ge
  omega

/-- A coinbase or ring transaction has outputs, or it burns and has inputs. -/
theorem hashedBytes_of_validateTransfer
    (h : tx.validateTransfer = .ok u) : 64 < tx.hashedBytes.length := by
  simp only [validateTransfer, bind_eq_ok, failIf_eq_ok] at h
  obtain ⟨burn, -, _, hburn, _, hout, _⟩ := h
  by_cases houtputs : tx.outputs = []
  · have hsome : burn ≠ none := fun hnone => hout ⟨by rw [houtputs]; rfl, hnone⟩
    obtain ⟨amount, rfl⟩ := Option.ne_none_iff_exists'.mp hsome
    simp only [validateBurn, bind_eq_ok, failIf_eq_ok] at hburn
    obtain ⟨_, hversion, _, hcoinbase, -⟩ := hburn
    refine hashedBytes_of_inputs fun hinputs => hcoinbase ?_
    have hv : tx.version = .commitmentBinding ∨ tx.version = .clsag := by
      by_contra hnot
      rw [not_or] at hnot
      exact hversion hnot
    rcases hv with hv | hv <;>
      simp [isCoinbase, hinputs, isGuardianFund, isLPoD, isLPoDPosition, isLPoDPayout, isSale, hv]
  · exact hashedBytes_of_outputs houtputs

theorem hashedBytes_of_validate (hjson : LongJSON C)
    (h : tx.validate C = .ok ()) : 64 < tx.hashedBytes.length := by
  unfold validate at h
  generalize tx.version = v at h
  cases v with
  | unknown b hb =>
    dsimp only at h
    split_ifs at h <;> cases h
  | lpod =>
    simp only [validateLPoD, failIf_eq_ok, not_or, not_not] at h
    refine hashedBytes_of_extra ?_
    rw [h.2.2.2.2.1]
    exact Nat.lt_of_lt_of_le (by decide) (Nat.le_add_left 32 _)
  | sale =>
    obtain ⟨_, h, -⟩ := unbind h
    simp only [saleAuthorization, bind_eq_ok, failIf_eq_ok, not_or, not_not] at h
    refine hashedBytes_of_extra ?_
    rw [h.choose_spec.1.2.1]
    decide
  | lpodPosition =>
    obtain ⟨a, h, -⟩ := unbind h
    simp only [lpodPositionAction, bind_eq_ok, failIf_eq_ok, not_not] at h
    obtain ⟨_, -, a, hdec, _, henc, -⟩ := h
    exact hashedBytes_of_extra (hjson.1 _ a hdec henc)
  | lpodPayout =>
    obtain ⟨a, h, -⟩ := unbind h
    simp only [lpodPayoutAuthorization, bind_eq_ok, failIf_eq_ok, not_not] at h
    obtain ⟨_, -, a, hdec, _, henc, -⟩ := h
    exact hashedBytes_of_extra (hjson.2 _ a hdec henc)
  | guardianFund =>
    obtain ⟨_, -, h⟩ := unbind h
    simp only [validateGuardianFund, bind_eq_ok, failIf_eq_ok, not_or, not_not] at h
    refine hashedBytes_of_outputs fun hnil => ?_
    have hone := h.choose_spec.1.2.1
    rw [hnil] at hone
    exact absurd hone (by decide)
  | stake =>
    obtain ⟨_, -, h⟩ := unbind h
    simp only [validateStake, bind_eq_ok, failIf_eq_ok] at h
    obtain ⟨_, hsize, -⟩ := h
    refine hashedBytes_of_extra ?_
    by_contra hshort
    refine hsize ⟨?_, ?_, ?_, ?_, ?_⟩ <;> intro heq <;> rw [heq] at hshort <;>
      exact hshort (by decide)
  | base | gameAsset | commitmentBinding | clsag | avm =>
    obtain ⟨_, -, h⟩ := unbind h
    exact hashedBytes_of_validateTransfer h

end Transaction

/-! ### The root determines the list -/

theorem Block.validate_merkleRoot {b : Block} {authority : ValidatorPubKey}
    (h : b.validate C authority = .ok u) : merkleRoot C b.txs = b.header.merkleRoot := by
  simp only [validate, bind_eq_ok, failIf_eq_ok, not_not] at h
  obtain ⟨_, -, _, -, _, -, _, hroot, -⟩ := h
  exact hroot

section Binding

variable {l1 l2 : List Transaction}

/-- The pairs whose strings are hashed for one of two lists. -/
def HashedPairs (C : Externals) (l1 l2 : List Transaction) : Set (Hash32 × Hash32) :=
  {p | nodeBytes p ∈ merkleInputs C l1 ++ merkleInputs C l2}

theorem collisionFree_hashedPairs
    (hfree : HashSeparates C (merkleInputs C l1 ++ merkleInputs C l2)) :
    HashTree.CollisionFree (merkleNode C) (HashedPairs C l1 l2) := by
  intro p hp q hq heq
  exact nodeBytes_injective (hfree _ hp _ hq heq)

theorem eq_of_txLeaves (htx : ∀ a ∈ l1, ∀ b ∈ l2,
    a.hash C = b.hash C → a = b)
    (h : txLeaves C l1 = txLeaves C l2) : l1 = l2 := by
  induction l1 generalizing l2 with
  | nil =>
    cases l2 with
    | nil => rfl
    | cons b l2 => cases h
  | cons a l1 ih =>
    cases l2 with
    | nil => cases h
    | cons b l2 =>
      obtain ⟨hhead, htail⟩ := cons.inj h
      rw [htx a mem_cons_self b mem_cons_self (leaf.inj hhead),
        ih (fun x hx y hy => htx x (mem_cons_of_mem _ hx) y (mem_cons_of_mem _ hy)) htail]

variable (hfree : HashSeparates C (merkleInputs C l1 ++ merkleInputs C l2))
include hfree

/-- The root of a list that is not empty is a hash of more than 22 bytes, so not the empty root. -/
theorem merkleRoot_ne_empty {l : List Transaction} (hl : l = l1 ∨ l = l2) (hne : l ≠ [])
    (hempty : ([] : List Transaction) = l1 ∨ [] = l2) : merkleRoot C l ≠ merkleRoot C [] := by
  intro hroot
  have hlabel : ascii "aperod/merkle-empty/v1" ∈ merkleInputs C l1 ++ merkleInputs C l2 := by
    rcases hempty with rfl | rfl
    · exact mem_append_left _ mem_cons_self
    · exact mem_append_right _ mem_cons_self
  have hinputs : ∀ x ∈ merkleInputs C l, x ∈ merkleInputs C l1 ++ merkleInputs C l2 := by
    intro x hx
    rcases hl with rfl | rfl
    · exact mem_append_left _ hx
    · exact mem_append_right _ hx
  obtain ⟨t, ht⟩ := exists_treeOf hne
  have hhash : t.eval (merkleNode C) = C.hashBytes (ascii "aperod/merkle-empty/v1") := by
    rw [← ht.root, hroot]
    rfl
  cases t with
  | leaf a =>
    obtain ⟨tx, hmem, rfl⟩ := ht.leaves a mem_cons_self
    have hin : tx.hashedBytes ∈ merkleInputs C l := by
      unfold merkleInputs
      rw [if_neg hne]
      exact mem_append_left _ (mem_map_of_mem hmem)
    have heq := hfree _ (hinputs _ hin) _ hlabel hhash
    have hlen := tx.hashedBytes_length_ge
    rw [heq, show (ascii "aperod/merkle-empty/v1").length = 22 from rfl] at hlen
    omega
  | node x y =>
    have heq := hfree _ (hinputs _ (ht.pairs _ mem_cons_self)) _ hlabel hhash
    have hlen := nodeBytes_length (x.eval (merkleNode C), y.eval (merkleNode C))
    rw [heq] at hlen
    exact absurd hlen (by decide)

variable (htx : ∀ a ∈ l1 ++ l2, ∀ b ∈ l1 ++ l2,
  a.hash C = b.hash C → a = b)
include htx

theorem merkleRoot_inj_of_length (hlen : l1.length = l2.length)
    (hroot : merkleRoot C l1 = merkleRoot C l2) : l1 = l2 := by
  by_cases hnil : l1 = []
  · rw [hnil] at hlen ⊢
    exact (length_eq_zero_iff.mp hlen.symm).symm
  have hnil' : l2 ≠ [] := by
    rintro rfl
    exact hnil (length_eq_zero_iff.mp hlen)
  obtain ⟨t, ht⟩ := exists_treeOf (C := C) hnil
  obtain ⟨u, hu⟩ := exists_treeOf (C := C) hnil'
  have hshape : t.shape = u.shape := by
    have hleaf : ∀ l : List Transaction, (txLeaves C l).map shape =
        replicate l.length (.leaf ()) := by
      intro l
      unfold txLeaves
      rw [map_map]
      exact map_const'
    have ht' := build_shape ht.build
    have hu' := build_shape hu.build
    rw [hleaf, hlen] at ht'
    rw [hleaf, ht'] at hu'
    exact Option.some.inj hu'
  have heq : t = u := eval_inj_of_shape (collisionFree_hashedPairs hfree)
    (fun p hp => mem_append_left _ (ht.pairs p hp))
    (fun p hp => mem_append_right _ (hu.pairs p hp)) hshape
    (by rw [← ht.root, ← hu.root, hroot])
  refine eq_of_txLeaves (fun a ha b hb => htx a (mem_append_left _ ha) b
    (mem_append_right _ hb)) (build_inj_of_length ?_ ht.build (heq ▸ hu.build))
  simp [txLeaves, hlen]

theorem merkleRoot_inj_of_nodup (hnd1 : l1.Nodup) (hnd2 : l2.Nodup)
    (h64 : ∀ tx ∈ l1 ++ l2, tx.hashedBytes.length ≠ 64)
    (hroot : merkleRoot C l1 = merkleRoot C l2) : l1 = l2 := by
  by_cases hnil : l1 = []
  · by_contra hne
    have hne2 : l2 ≠ [] := fun h => hne (hnil.trans h.symm)
    refine merkleRoot_ne_empty hfree (.inr rfl) hne2 (.inl hnil.symm) ?_
    rw [← hroot, hnil]
  by_cases hnil' : l2 = []
  · refine absurd ?_ (merkleRoot_ne_empty hfree (.inl rfl) hnil (.inr hnil'.symm))
    rw [hroot, hnil']
  obtain ⟨t, ht⟩ := exists_treeOf hnil
  obtain ⟨u, hu⟩ := exists_treeOf hnil'
  -- a leaf hashes a transaction, an inner node 64 bytes
  have hsep : ∀ tx ∈ l1 ++ l2, ∀ p ∈ HashedPairs C l1 l2,
      merkleNode C p.1 p.2 ≠ tx.hash C := by
    intro tx hmem p hp heq
    have hin : tx.hashedBytes ∈ merkleInputs C l1 ++ merkleInputs C l2 := by
      unfold merkleInputs
      rw [if_neg hnil, if_neg hnil']
      rcases mem_append.mp hmem with hmem | hmem
      · exact mem_append_left _ (mem_append_left _ (mem_map_of_mem hmem))
      · exact mem_append_right _ (mem_append_left _ (mem_map_of_mem hmem))
    have hbytes : nodeBytes p = tx.hashedBytes := hfree _ hp _ hin heq
    exact h64 tx hmem (by rw [← hbytes, nodeBytes_length])
  have heq : t = u := by
    refine eval_inj_of_leaf (collisionFree_hashedPairs hfree)
      (fun p hp => mem_append_left _ (ht.pairs p hp))
      (fun p hp => mem_append_right _ (hu.pairs p hp)) (fun a ha p hp => ?_)
      (fun a ha p hp => ?_) (by rw [← ht.root, ← hu.root, hroot])
    · obtain ⟨tx, hmem, rfl⟩ := ht.leaves a ha
      exact hsep tx (mem_append_left _ hmem) p hp
    · obtain ⟨tx, hmem, rfl⟩ := hu.leaves a ha
      exact hsep tx (mem_append_right _ hmem) p hp
  have hnodup : ∀ l : List Transaction, l.Nodup → (∀ tx ∈ l, tx ∈ l1 ++ l2) →
      (txLeaves C l).Nodup := by
    intro l hl hsub
    refine List.Nodup.map_on (fun a ha b hb h => ?_) hl
    exact htx a (hsub a ha) b (hsub b hb) (leaf.inj h)
  have hfull : ∀ l : List Transaction, ∀ t ∈ txLeaves C l, HashTree.Full 0 t := by
    intro l t hmem
    obtain ⟨tx, -, rfl⟩ := mem_map.mp hmem
    exact trivial
  exact eq_of_txLeaves (fun a ha b hb => htx a (mem_append_left _ ha) b
    (mem_append_right _ hb)) (build_inj_of_nodup
      (hnodup l1 hnd1 fun _ => mem_append_left _)
      (hnodup l2 hnd2 fun _ => mem_append_right _) (hfull l1) (hfull l2) ht.build
      (heq ▸ hu.build))

end Binding

/-- **The header binds the transactions.**  Lists of one length, and lists without a repetition and
without a transaction of 64 hashed bytes, are determined by their Merkle root; no two different
bodies without a repetition pass `Validate` under one header. -/
theorem merkleRoot_binds (hjson : LongJSON C) {l1 l2 : List Transaction}
    (hfree : HashSeparates C (merkleInputs C l1 ++ merkleInputs C l2))
    (htx : ∀ a ∈ l1 ++ l2, ∀ b ∈ l1 ++ l2,
      a.hash C = b.hash C → a = b) :
    (l1.length = l2.length → merkleRoot C l1 = merkleRoot C l2 → l1 = l2) ∧
    (l1.Nodup → l2.Nodup → (∀ tx ∈ l1 ++ l2, tx.hashedBytes.length ≠ 64) →
      merkleRoot C l1 = merkleRoot C l2 → l1 = l2) ∧
    (l1.Nodup → l2.Nodup → ∀ (header : BlockHeader) (pub pub' : ValidatorPubKey),
      validate C ⟨header, l1⟩ pub = .ok () → validate C ⟨header, l2⟩ pub' = .ok () →
      l1 = l2) := by
  refine ⟨merkleRoot_inj_of_length hfree htx, merkleRoot_inj_of_nodup hfree htx,
    fun hnd1 hnd2 header pub pub' hv1 hv2 => ?_⟩
  refine merkleRoot_inj_of_nodup hfree htx hnd1 hnd2 (fun tx hmem => ?_) ?_
  · have hvalid : tx.validate C = .ok () := by
      rcases mem_append.mp hmem with hmem | hmem
      · exact validate_txs hv1 tx hmem
      · exact validate_txs hv2 tx hmem
    exact (Transaction.hashedBytes_of_validate hjson hvalid).ne'
  · exact (validate_merkleRoot hv1).trans (validate_merkleRoot hv2).symm

/-! ### Inclusion proofs -/

theorem padEven_cons_cons (a b : Hash32) (hs : List Hash32) :
    padEven (a :: b :: hs) = a :: b :: padEven hs := by
  unfold padEven
  have hlen : (a :: b :: hs).length % 2 = hs.length % 2 := Nat.add_mod_right _ 2
  rw [hlen]
  split_ifs with hodd
  · cases hs with
    | nil => cases hodd
    | cons c hs => rfl
  · rfl

theorem merkleLevel_padEven (hs : List Hash32) :
    merkleLevel C (padEven hs) = merkleLevel C hs := by
  induction hs using levelPairs.induct with
  | case1 => rfl
  | case2 a => rfl
  | case3 a b rest ih => rw [padEven_cons_cons, merkleLevel, merkleLevel, ih]

/-- A hash of a level has a sibling, and above the two stands the hash of the next level. -/
theorem merkleSibling_spec (hs : List Hash32) : ∀ {pos : Nat} {h : Hash32}, hs[pos]? = some h →
    ∃ node, merkleSibling (padEven hs) pos = .ok node ∧
      (merkleLevel C hs)[pos / 2]? = some (node.above C h) := by
  induction hs using levelPairs.induct with
  | case1 => intro pos h hget; cases hget
  | case2 a =>
    intro pos h hget
    cases pos with
    | zero =>
      cases hget
      exact ⟨⟨a, true⟩, rfl, rfl⟩
    | succ pos => cases hget
  | case3 a b rest ih =>
    intro pos h hget
    rw [padEven_cons_cons, merkleLevel]
    rcases pos with _ | _ | pos
    · cases hget
      exact ⟨⟨b, true⟩, rfl, rfl⟩
    · cases hget
      exact ⟨⟨a, false⟩, rfl, rfl⟩
    · obtain ⟨node, hnode, habove⟩ := ih hget
      refine ⟨node, ?_, ?_⟩
      · rw [← hnode]
        unfold merkleSibling
        rw [Nat.add_mod_right pos 2]
        split_ifs with heven
        · rfl
        · obtain ⟨k, rfl⟩ : ∃ k, pos = k + 1 := ⟨pos - 1, by omega⟩
          rfl
      · rw [Nat.add_div_right pos (z := 2) (by decide), getElem?_cons_succ]
        exact habove

theorem length_merkleLevel (hs : List Hash32) :
    (merkleLevel C hs).length = (hs.length + 1) / 2 := by
  induction hs using levelPairs.induct with
  | case1 => rfl
  | case2 a => simp [merkleLevel]
  | case3 a b rest ih =>
    rw [merkleLevel, length_cons, length_cons, length_cons]
    omega

/-- From any hash of a level the path leads to what `merkleReduce` makes of the level. -/
theorem merklePath_spec (fuel : Nat) : ∀ {hs : List Hash32} {pos : Nat} {h : Hash32},
    hs.length ≤ fuel + 1 → hs[pos]? = some h → ∃ path, merklePath C fuel hs pos = .ok path ∧
      path.foldl (fun cur node => node.above C cur) h = merkleReduce C fuel hs := by
  have hone : ∀ {hs : List Hash32} {pos : Nat} {h : Hash32} (fuel : Nat), hs.length ≤ 1 →
      hs[pos]? = some h → h = merkleReduce C fuel hs := by
    intro hs pos h fuel hlen hget
    have hpos := (List.getElem?_eq_some_iff.mp hget).1
    obtain ⟨a, rfl⟩ := List.length_eq_one_iff.mp (by omega : hs.length = 1)
    obtain rfl : pos = 0 := Nat.lt_one_iff.mp hpos
    cases hget
    cases fuel <;> rfl
  induction fuel with
  | zero =>
    intro hs pos h hlen hget
    exact ⟨[], rfl, hone 0 hlen hget⟩
  | succ fuel ih =>
    intro hs pos h hlen hget
    unfold merklePath
    by_cases hmany : hs.length > 1
    · obtain ⟨node, hnode, habove⟩ := merkleSibling_spec hs hget
      have hshort : (merkleLevel C hs).length ≤ fuel + 1 := by
        rw [length_merkleLevel]
        omega
      obtain ⟨path, hpath, hroot⟩ := ih hshort habove
      rw [if_pos hmany, hnode, merkleLevel_padEven, hpath]
      refine ⟨node :: path, rfl, hroot.trans ?_⟩
      rcases hs with _ | ⟨a, _ | ⟨b, hs⟩⟩
      · cases hget
      · cases hmany with | step h => cases h
      · rfl
    · rw [if_neg hmany]
      exact ⟨[], rfl, hone _ (not_lt.mp hmany) hget⟩

/-- **Inclusion proofs are complete**: for every position of a list there is a proof, it starts with
the transaction at the position and `Verify` accepts it against the root of the list. -/
theorem merkle_proofs_complete (C : Externals) (txs : List Transaction) (idx : Int) (h0 : 0 ≤ idx)
    (hlt : idx < txs.length) : ∃ p, generateMerkleProof C txs idx = .ok (some p) ∧
      txs[idx.toNat]?.map (·.hash C) = some p.leaf ∧
      p.verify C (merkleRoot C txs) = true := by
  have hpos : idx.toNat < txs.length := by omega
  have hget : (txs.map (·.hash C))[idx.toNat]? =
      some (txs[idx.toNat].hash C) := by
    rw [getElem?_map, getElem?_eq_getElem hpos]
    rfl
  obtain ⟨path, hpath, hroot⟩ := merklePath_spec txs.length
    (by rw [length_map]; omega) hget
  have hne : txs ≠ [] := by
    rintro rfl
    cases hpos
  refine ⟨⟨txs[idx.toNat].hash C, path⟩, ?_, ?_, ?_⟩
  · unfold generateMerkleProof index
    rw [if_neg (by omega)]
    dsimp only
    rw [hget, hpath]
    rfl
  · rw [← getElem?_map, hget]
  · unfold MerkleProof.verify merkleRoot
    rw [if_neg hne]
    exact decide_eq_true hroot

/-! ### Three withdrawal requests -/

theorem longJSON_hashing : LongJSON hashing :=
  ⟨fun _ _ h => absurd h (fail_ne_ok _ _), fun _ _ h => absurd h (fail_ne_ok _ _)⟩

def threeRequests : List Transaction := [sampleWithdrawal 1, sampleWithdrawal 2, sampleWithdrawal 3]

theorem third_request_proved : ∃ p, generateMerkleProof hashing threeRequests 2 = .ok (some p) ∧
    p.verify hashing (merkleRoot hashing threeRequests) = true := by
  obtain ⟨p, hp, -, hverify⟩ := merkle_proofs_complete hashing threeRequests 2 (by decide) (by decide)
  exact ⟨p, hp, hverify⟩

/-- The same requests in another order. -/
def threeRequests' : List Transaction := [sampleWithdrawal 1, sampleWithdrawal 3, sampleWithdrawal 2]

set_option maxRecDepth 20000

/-- Their order is bound. -/
theorem reordered_root_ne : merkleRoot hashing threeRequests ≠ merkleRoot hashing threeRequests' := by
  have hfree : HashSeparates hashing
      (merkleInputs hashing threeRequests ++ merkleInputs hashing threeRequests') := by
    unfold HashSeparates
    decide +kernel
  have htx : ∀ a ∈ threeRequests ++ threeRequests', ∀ b ∈ threeRequests ++ threeRequests',
      a.hash hashing = b.hash hashing → a = b := by
    decide +kernel
  intro hroot
  exact absurd ((merkleRoot_binds longJSON_hashing hfree htx).1 rfl hroot) (by decide)

def requestsHeader : BlockHeader :=
  { height := 1
    merkleRoot := merkleRoot hashing threeRequests
    validatorPub := sampleValidator 1
    signature := replicate 64 0 }

/-- With the last request repeated the root is the same, and both bodies pass `Validate` under one
header; no hash collision is involved. -/
theorem repeated_tx_same_root : ∃ l1 l2 : List Transaction, l1 ≠ l2 ∧
    HashSeparates hashing (merkleInputs hashing l1 ++ merkleInputs hashing l2) ∧
    (∀ a ∈ l1 ++ l2, ∀ b ∈ l1 ++ l2,
      a.hash hashing = b.hash hashing → a = b) ∧
    merkleRoot hashing l1 = merkleRoot hashing l2 ∧
    validate hashing ⟨requestsHeader, l1⟩ (sampleValidator 1) = .ok () ∧
    validate hashing ⟨requestsHeader, l2⟩ (sampleValidator 1) = .ok () := by
  refine ⟨threeRequests, threeRequests ++ [sampleWithdrawal 3], by decide, ?_, ?_, rfl, rfl, rfl⟩
  · unfold HashSeparates
    decide +kernel
  · decide +kernel

end Aperod
