import Aperod.Core.Validate

/-!
# Blocks

Block headers and blocks, the Merkle root over the transaction hashes, and `Block.Validate`.
-/

namespace Aperod

open Go

structure BlockHeader where
  height : Nat
  prevHash : Hash32 := 0
  merkleRoot : Hash32 := 0
  timestamp : Int := 1
  round : Nat := 0
  validatorPub : ValidatorPubKey := []
  oraclePrice : Nat := 0
  baseFee : Nat := 0
  signature : Bytes := []
  deriving DecidableEq

structure Block where
  header : BlockHeader
  txs : List Transaction := []
  deriving DecidableEq

variable (C : Externals)

/-- `BlockHeader.Hash`: every field but the signature. -/
def BlockHeader.hash (h : BlockHeader) : Hash32 :=
  C.hashBytes (leBytes 8 h.height ++ h.prevHash.bytes ++ h.merkleRoot.bytes ++
    leBytes 8 (h.timestamp % 2 ^ 64).toNat ++ leBytes 4 h.round ++ h.validatorPub ++
    leBytes 8 h.oraclePrice ++ leBytes 8 h.baseFee)

def Block.hash (b : Block) : Hash32 := b.header.hash C

def ValidatorPubKey.verify (pub : ValidatorPubKey) (hash : Hash32) (sig : Bytes) : Bool :=
  sig.length = 64 && C.ed25519Verify pub (hash.bytes) sig

/-- `VerifySignature`, with the signing key the authority rule names for the header. -/
def BlockHeader.verifySignature (h : BlockHeader) (authority : ValidatorPubKey) : Bool :=
  ValidatorPubKey.verify C authority (h.hash C) h.signature

/-! ### Merkle root -/

/-- One level of `merkleReduce`: hashes of neighbours, the last one paired with itself. -/
def merkleLevel : List Hash32 → List Hash32
  | [] => []
  | [a] => [C.hashBytes (a.bytes ++ a.bytes)]
  | a :: b :: rest => C.hashBytes (a.bytes ++ b.bytes) :: merkleLevel rest

/-- `merkleReduce`; every level shortens the list, so its length is enough fuel. -/
def merkleReduce : Nat → List Hash32 → Hash32
  | _, [h] => h
  | 0, _ => 0
  | fuel + 1, hs => merkleReduce fuel (merkleLevel C hs)

def merkleRoot (txs : List Transaction) : Hash32 :=
  if txs = [] then C.hashBytes (ascii "aperod/merkle-empty/v1")
  else merkleReduce C txs.length (txs.map (·.hash C))

/-! ### Inclusion proofs -/

/-- `MerkleNode`: a sibling, and whether it stands on the right. -/
structure MerkleNode where
  hash : Hash32
  right : Bool

structure MerkleProof where
  leaf : Hash32
  path : List MerkleNode

/-- The last hash of an odd level once more. -/
def padEven (hs : List Hash32) : List Hash32 :=
  if hs.length % 2 = 1 then hs ++ hs.getLast?.toList else hs

/-- The sibling of position `pos` on a padded level. -/
def merkleSibling (hs : List Hash32) (pos : Nat) : Result MerkleNode :=
  if pos % 2 = 0 then do .ok ⟨← index hs (pos + 1), true⟩
  else do .ok ⟨← index hs (pos - 1), false⟩

/-- The loop of `GenerateMerkleProof`, with the fuel of `merkleReduce`. -/
def merklePath : Nat → List Hash32 → Nat → Result (List MerkleNode)
  | 0, _, _ => .ok []
  | fuel + 1, hs, pos =>
    if hs.length > 1 then do
      let sibling ← merkleSibling (padEven hs) pos
      let path ← merklePath fuel (merkleLevel C (padEven hs)) (pos / 2)
      .ok (sibling :: path)
    else .ok []

def generateMerkleProof (txs : List Transaction) (idx : Int) : Result (Option MerkleProof) :=
  if idx < 0 ∨ idx ≥ txs.length then .ok none
  else do
    let hashes := txs.map (·.hash C)
    let leaf ← index hashes idx.toNat
    let path ← merklePath C txs.length hashes idx.toNat
    .ok (some ⟨leaf, path⟩)

/-- The hash above `cur` and its sibling. -/
def MerkleNode.above (node : MerkleNode) (cur : Hash32) : Hash32 :=
  if node.right then C.hashBytes (cur.bytes ++ node.hash.bytes)
  else C.hashBytes (node.hash.bytes ++ cur.bytes)

def MerkleProof.verify (p : MerkleProof) (root : Hash32) : Bool :=
  p.path.foldl (fun cur node => node.above C cur) p.leaf = root

/-! ### Validation -/

/-- `Block.Validate`, with the signing key of the proposer. -/
def Block.validate (b : Block) (authority : ValidatorPubKey) : Result Unit := do
  failIf (b.header.timestamp ≤ 0) s!"block {b.header.height}: invalid timestamp"
  failIf (b.header.validatorPub.length = 0)
    s!"block {b.header.height}: missing validator public key"
  failIf (¬ b.header.verifySignature C authority)
    s!"block {b.header.height}: invalid validator signature"
  failIf (merkleRoot C b.txs ≠ b.header.merkleRoot) s!"block {b.header.height}: merkle root mismatch"
  checkAll (fun i tx => wrap s!"block {b.header.height} tx[{i}]" (tx.validate C)) 0 b.txs

def Block.size (b : Block) : Nat :=
  32 + 32 + 32 + 8 + 4 + 32 + 64 + (b.txs.map (·.size)).sum

variable {C}

theorem Block.validate_txs {b : Block} {authority : ValidatorPubKey} {u : Unit}
    (h : b.validate C authority = .ok u) : ∀ tx ∈ b.txs, tx.validate C = .ok () := by
  simp only [Block.validate, bind_eq_ok] at h
  obtain ⟨-, -, -, -, -, -, -, -, h⟩ := h
  intro tx htx
  obtain ⟨k, hk⟩ := checkAll_mem h htx
  exact wrap_eq_ok.mp hk

end Aperod
