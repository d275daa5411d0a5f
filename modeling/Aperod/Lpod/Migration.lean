import Aperod.Lpod.Checkpoint

/-!
# Funding the reserve

`lpod_migration.go`: the reserve is funded once, in the block at the height a migration names.  A
version 1 migration opens every historical issuance (`reconcileLPoD`); versions 2 and 3 declare the
figures, and more than two thirds of the trusted authorities sign the declaration
(`Migration.verifyAuthorization`).  `DB.fundingCheckpoint` is the checkpoint `appendLPoDMigration`
starts from.
-/

namespace Aperod.Lpod

open Go

def publicAllocation : UInt64 := 9000000000 * unit

def validatorAllocation : UInt64 := 2000000000 * unit

/-- `LPoDV3NominalAllocationMaxNAPRO`. -/
def nominalAllocationMax : UInt64 := 7000000000 * unit

/-- `LPoDV3NominalCirculationMaxNAPRO`. -/
def nominalCirculationMax : UInt64 := 10000000000 * unit

def v2TrustAssumption : String := "TRUST_ATTESTED_SNAPSHOT_AND_HISTORICAL_ALLOCATION"

def v3TrustAssumption : String := "TRUST_ATTESTED_NOMINAL_ALLOCATION_RECLASSIFICATION"

def nominalBasis : String := "nominal_genesis_allocation_and_vesting"

def v3EligibilityRule : String :=
  "UNISSUED_UNLOCKED_PUBLIC_ALLOCATION_EXCLUDING_ISSUED_WALLET_UTXOS_VALIDATOR_BUDGET_" ++
    "DEVELOPER_VESTING_GUARDIAN_AND_ALL_OTHER_RESERVES"

variable (C : Externals) (K : Encodings)

def NominalSnapshot.root (s : NominalSnapshot) : Hash32 :=
  C.hashBytes (ascii "aperod/lpod/nominal-reclassification/snapshot/v3" ++ K.snapshot s)

def NominalSnapshot.valid (s : NominalSnapshot) (eligible validatorRemaining : UInt64)
    (root : Hash32) : Bool :=
  s.basis = nominalBasis && s.nominalCirculatingBefore ≥ s.eligibleNominal &&
    s.nominalCirculatingBefore ≤ nominalCirculationMax && s.eligibleNominal = eligible &&
    s.preexistingGuardianReservation = 0 && s.validatorRemaining = validatorRemaining &&
    s.eligibilityRule = v3EligibilityRule && s.root C K = root

/-! ### Authorities -/

def isZeroMigrationAuthority (p : ValidatorPubKey) : Bool := p.all (· = 0)

/-- Two neighbours are equal. -/
def adjacentEqual : List ValidatorPubKey → Bool
  | a :: b :: rest => a = b || adjacentEqual (b :: rest)
  | _ => false

/-- Every signer is trusted, signs once and signed `msg`; the signers. -/
def checkAttestations (trusted : List ValidatorPubKey) (refused : ValidatorPubKey → Bool)
    (msg : Hash32) (text : String) (attestations : List Attestation) :
    Result (List ValidatorPubKey) :=
  loop (fun _ (a : Attestation) (seen : List ValidatorPubKey) => do
    failIf (a.validator ∉ trusted ∨ a.validator ∈ seen ∨ refused a.validator ∨
      ¬ ValidatorPubKey.verify C a.validator msg a.signature) text
    .ok (a.validator :: seen)) 0 attestations []

namespace Migration

variable (m : Migration)

def canonicalV2Authorities : Result (List ValidatorPubKey) := do
  failIf (∃ p ∈ m.trustedValidators, p.length ≠ 32 ∨ isZeroMigrationAuthority p)
    "lpod: missing or zero trusted checkpoint authority"
  let authorities := sortSlice less m.trustedValidators
  failIf (adjacentEqual authorities) "lpod: duplicate trusted checkpoint authority"
  failIf (authorities.length = 0) "lpod: no trusted checkpoint authorities"
  .ok authorities

/-- `Root` of a migration with declared figures. -/
def trustedRoot (domain : String) : Hash32 :=
  match m.canonicalV2Authorities with
  | .ok authorities => C.hashBytes (ascii domain ++ K.trustedMigration m authorities)
  | .error _ => 0

def root : Hash32 :=
  if m.version = 3 then m.trustedRoot C K "aperod/lpod/nominal-reclassification/root/v3"
  else if m.version = 2 then m.trustedRoot C K "aperod/lpod/trusted-checkpoint/root/v2"
  else C.hashBytes (ascii "aperod/lpod/reconciliation/v1" ++ K.migration m)

def attestationMessage : Hash32 :=
  let domain :=
    if m.version = 2 then "aperod/lpod/trusted-checkpoint/authorization/v2"
    else if m.version = 3 then "aperod/lpod/nominal-reclassification/authorization/v3"
    else "aperod/lpod/reconciliation-governance/v1"
  C.hashBytes (ascii domain ++ Bytes32.bytes (m.root C K))

def verifyAttestations : Result Unit := do
  failIf (∃ p ∈ m.trustedValidators, p.length ≠ 32) "lpod: invalid trusted genesis authority"
  let trusted := m.trustedValidators.dedup
  failIf (trusted.length = 0) "lpod: no trusted genesis reconciliation authorities"
  let seen ← checkAttestations C trusted (fun _ => false) (m.attestationMessage C K)
    "lpod: invalid or duplicate reconciliation attestation" m.attestations
  failIf (seen.length ≤ 2 * trusted.length / 3)
    "lpod: reconciliation requires greater-than-two-thirds trusted genesis quorum"

/-- `verifyV2Attestations` and `verifyV3Attestations`, which differ in the texts of their errors; the
authorities are distinct, so counting them and counting the keys of a map of them is the same. -/
def verifyTrustedAttestations (invalid quorum : String) : Result Unit := do
  let authorities ← m.canonicalV2Authorities
  let seen ← checkAttestations C authorities isZeroMigrationAuthority (m.attestationMessage C K)
    invalid m.attestations
  failIf (seen.length ≤ 2 * authorities.length / 3) quorum

def verifyV2Attestations : Result Unit :=
  m.verifyTrustedAttestations C K "lpod: invalid or duplicate trusted checkpoint attestation"
    "lpod: trusted checkpoint requires greater-than-two-thirds authority quorum"

def verifyV3Attestations : Result Unit :=
  m.verifyTrustedAttestations C K "lpod: invalid or duplicate nominal reclassification attestation"
    "lpod: nominal reclassification requires greater-than-two-thirds authority quorum"

/-- A field of the versions 2 and 3 is set. -/
def hasTrustFields : Bool :=
  m.trustAssumption ≠ "" || m.parentHash ≠ 0 || m.snapshotRoot ≠ 0 || m.historicalSaleRemain ≠ 0 ||
    m.nominalEligible ≠ 0 || m.nominalSnapshot ≠ none

/-- `VerifyAuthorization` of version 2. -/
def verifyV2Authorization : Result Unit := do
  let _ ← m.canonicalV2Authorities
  failIf (m.root C K ≠ m.reconciliationRoot) "lpod: invalid trusted checkpoint commitment"
  failIf (m.genesis = 0 ∨ m.trustAssumption ≠ v2TrustAssumption ∨ m.parentHash = 0 ∨
      m.snapshotRoot = 0 ∨ m.historicalSaleRemain < initialNAPRO ∨
      m.historicalIssued > publicAllocation ∨ m.nominalEligible ≠ 0 ∨ m.nominalSnapshot ≠ none ∨
      m.validatorRemaining > validatorAllocation ∨
      m.historicalSaleRemain > publicAllocation - m.historicalIssued ∨
      m.validatorRemaining > publicAllocation - m.historicalIssued - m.historicalSaleRemain)
    "lpod: invalid trusted checkpoint declaration"
  failIf (m.openings.length ≠ 0 ∨ m.bodyRoot ≠ 0)
    "lpod: version 2 cannot contain version 1 history proof fields"
  m.verifyV2Attestations C K

/-- `VerifyAuthorization` of version 3. -/
def verifyV3Authorization : Result Unit := do
  let _ ← m.canonicalV2Authorities
  failIf (m.root C K ≠ m.reconciliationRoot) "lpod: invalid nominal reclassification commitment"
  failIf (m.genesis = 0 ∨ m.trustAssumption ≠ v3TrustAssumption ∨ m.parentHash = 0 ∨
      m.snapshotRoot = 0 ∨ m.nominalEligible < initialNAPRO ∨
      m.nominalEligible > nominalAllocationMax ∨ m.validatorRemaining > validatorAllocation ∨
      m.validatorRemaining > publicAllocation ∨
      m.nominalEligible > publicAllocation - m.validatorRemaining ∨ m.historicalIssued ≠ 0 ∨
      m.historicalSaleRemain ≠ 0 ∨ m.openings.length ≠ 0 ∨ m.bodyRoot ≠ 0 ∨
      ¬ m.nominalSnapshot.any (·.valid C K m.nominalEligible m.validatorRemaining m.snapshotRoot))
    "lpod: invalid nominal reclassification declaration"
  m.verifyV3Attestations C K

def verifyAuthorization : Result Unit := do
  failIf ((m.version ≠ 1 ∧ m.version ≠ 2 ∧ m.version ≠ 3) ∨ m.positionLifecycleVersion ≠ 1 ∨
    m.height = 0) "lpod: invalid reconciliation authorization"
  if m.version = 2 then m.verifyV2Authorization C K
  else if m.version = 3 then m.verifyV3Authorization C K
  else do
    failIf m.hasTrustFields "lpod: version 1 authorization contains version 2 fields"
    failIf (m.root C K ≠ m.reconciliationRoot) "lpod: invalid reconciliation authorization"
    m.verifyAttestations C K

end Migration

/-! ### Reconciliation of the history -/

/-- The local variables of `ReconcileLPoD`. -/
structure Reconciling where
  parent : Hash32 := 0
  bodyRoot : Hash32
  pos : Nat := 0
  issued : UInt64 := 0

def bodyRootStep (parent : Hash32) (b : Block) : Hash32 :=
  C.hashBytes (ascii "aperod/lpod/historical-body/v1" ++ parent.bytes ++
    leBytes 8 (K.block b).length ++ K.block b)

/-- One output of a coinbase: its opening is the next one. -/
def reconcileOutput (openings : List Opening) (h : UInt64) (ti oi : Nat) (out : Output)
    (s : Reconciling) : Result Reconciling :=
  match openings[s.pos]? with
  | none => fail s!"lpod: missing issuance opening at {h}/{ti}/{oi}"
  | some o => do
    failIf (o.height ≠ h ∨ o.txIndex.toNat ≠ ti ∨ o.outputIndex.toNat ≠ oi ∨
        (C.commit o.amount.toNat o.blind).toOption ≠ some out.amountCommit)
      s!"lpod: unproven issuance opening at {h}/{ti}/{oi}"
    failIf (o.amount > publicAllocation - s.issued)
      "lpod: historical issuance exceeds conservative public allocation"
    .ok { s with pos := s.pos + 1, issued := s.issued + o.amount }

def reconcileTx (openings : List Opening) (h : UInt64) (ti : Nat) (tx : Transaction)
    (s : Reconciling) : Result Reconciling := do
  failIf tx.isGuardianFund
    "lpod: legacy Guardian allocation requires explicit migration, not double funding"
  if tx.isCoinbase then loop (fun oi out => reconcileOutput C openings h ti oi out) 0 tx.outputs s
  else .ok s

def reconcileBlock (m : Migration) (read : UInt64 → Result Block) (h : UInt64) (s : Reconciling) :
    Result Reconciling :=
  match read h with
  | .error _ => fail s!"lpod: reconciliation requires full canonical block {h}"
  | .ok b => do
    failIf (b.header.height ≠ h.toNat ∨ b.header.merkleRoot ≠ merkleRoot C b.txs ∨
        (h = 0 ∧ b.hash C ≠ m.genesis) ∨ (h > 0 ∧ b.header.prevHash ≠ s.parent))
      s!"lpod: invalid canonical reconciliation block {h}"
    loop (fun ti tx => reconcileTx C m.openings h ti tx) 0 b.txs
      { s with parent := b.hash C, bodyRoot := bodyRootStep C K s.bodyRoot b }

/-- `ReconcileLPoD`: what was issued, and the last block. -/
def reconcileLPoD (m : Migration) (read : UInt64 → Result Block) : Result (UInt64 × Hash32) := do
  failIf (m.version = 2)
    "lpod: version 2 uses trusted checkpoint verification, not historical reconciliation"
  failIf (m.version = 3)
    "lpod: version 3 uses nominal reclassification verification, not historical reconciliation"
  failIf (m.version ≠ 1 ∨ m.positionLifecycleVersion ≠ 1 ∨ m.height = 0 ∨ m.genesis = 0 ∨
      m.root C K ≠ m.reconciliationRoot)
    "lpod: invalid version, activation, genesis or reconciliation root"
  failIf m.hasTrustFields "lpod: version 1 reconciliation contains version 2 fields"
  m.verifyAttestations C K
  failIf (m.validatorRemaining > validatorAllocation)
    "lpod: attested validator budget exceeds original allocation"
  let s ← loop (fun _ h => reconcileBlock C K m read (UInt64.ofNat h)) 0
    (List.range m.height.toNat)
    { bodyRoot := C.hashBytes (ascii "aperod/lpod/historical-bodies/v1") }
  failIf (s.pos ≠ m.openings.length ∨ s.bodyRoot ≠ m.bodyRoot ∨ s.issued ≠ m.historicalIssued ∨
      s.issued > publicAllocation - m.validatorRemaining - initialNAPRO)
    "lpod: surplus proof entries or insufficient reconciled allocation"
  .ok (s.issued, s.parent)

/-! ### The funded checkpoint -/

/-- What the reserve is taken from. -/
def Migration.saleRemaining (m : Migration) (issued : UInt64) : UInt64 :=
  if m.version = 2 then m.historicalSaleRemain
  else if m.version = 3 then m.nominalEligible
  else publicAllocation - m.validatorRemaining - issued

def Migration.allocation (m : Migration) (issued : UInt64) (hash : Hash32) (height : UInt64) :
    Allocation where
  version := m.version
  positionLifecycleVersion := m.positionLifecycleVersion
  genesis := m.genesis
  fundingHeight := height
  fundingBlock := hash
  reconciliationRoot := m.root C K
  historicalIssued := issued
  remaining := m.saleRemaining issued - initialNAPRO
  validatorRemaining := m.validatorRemaining
  initialValidatorRemaining := m.validatorRemaining
  declaredSaleRemaining := m.historicalSaleRemain
  snapshotRoot := m.snapshotRoot
  fundingParent := m.parentHash
  trustAssumption := m.trustAssumption
  nominalEligible := m.nominalEligible
  nominalSnapshot := if m.version = 3 then m.nominalSnapshot else none

/-- The checkpoint before the first settlement. -/
def Migration.checkpoint (m : Migration) (issued : UInt64) (hash : Hash32) (height : UInt64) :
    Checkpoint where
  state := { fundingDebit := initialNAPRO, balance := initialNAPRO, lastHeight := height - 1 }
  carries := ∅
  allocation := some (m.allocation C K issued hash height)

/-! ### Verification against the canonical chain -/

namespace DB

variable (d : DB)

/-- The genesis block in the header format before the oracle: it is stored under the hash of that
format. -/
def verifyLegacyGenesis (expected : Hash32) : Result Unit :=
  match d.heights.get 0 with
  | none => fail "lpod: trusted checkpoint genesis index unavailable: <nil>"
  | some indexed =>
    match d.blocks.get indexed with
    | none => fail "lpod: trusted checkpoint genesis body unavailable: <nil>"
    | some b => do
      let h := b.header
      failIf (h.height ≠ 0 ∨ h.prevHash ≠ 0 ∨ h.oraclePrice ≠ 0 ∨ h.baseFee ≠ 0 ∨
          b.hash C ≠ expected ∨ merkleRoot C b.txs ≠ h.merkleRoot)
        "lpod: trusted checkpoint genesis body does not match attested genesis"
      let historical := C.hashBytes (leBytes 8 h.height ++ h.prevHash.bytes ++
        h.merkleRoot.bytes ++ leBytes 8 (h.timestamp % 2 ^ 64).toNat ++ leBytes 4 h.round ++
        h.validatorPub)
      failIf (historical ≠ indexed ∨
          ¬ ValidatorPubKey.verify C h.validatorPub historical h.signature)
        "lpod: trusted checkpoint genesis legacy index or signature invalid"

def verifyLPoDV2Genesis (expected : Hash32) : Result Unit :=
  match d.readCanonicalBlock C 0 with
  | .ok b =>
    failIf (b.hash C ≠ expected) "lpod: trusted checkpoint genesis differs from canonical genesis"
  | .error _ => d.verifyLegacyGenesis C expected

/-- The immediate parent a trusted migration names is the canonical tip, with its body. -/
def verifyTrustedParent (m : Migration) : Result Unit := do
  failIf (d.tip.2 ≠ m.height - 1 ∨ d.tip.1 ≠ m.parentHash)
    "lpod: trusted checkpoint parent is not the canonical immediate parent"
  match d.readCanonicalBlock C d.tip.2 with
  | .error _ => fail "lpod: trusted checkpoint parent body is unavailable or noncanonical"
  | .ok b =>
    failIf (b.hash C ≠ m.parentHash)
      "lpod: trusted checkpoint parent body is unavailable or noncanonical"

/-- `VerifyLPoDMigration`: what was issued, and the parent. -/
def verifyLPoDMigration (m : Migration) : Result (UInt64 × Hash32) :=
  if m.version = 2 ∨ m.version = 3 then do
    m.verifyAuthorization C K
    d.verifyTrustedParent C m
    d.verifyLPoDV2Genesis C m.genesis
    .ok (if m.version = 3 then 0 else m.historicalIssued, d.tip.1)
  else reconcileLPoD C K m (d.readCanonicalBlock C)

/-- The database key of a version. -/
def bindingKey (version : UInt8) : UInt8 := if version = 2 then 2 else if version = 3 then 3 else 1

/-- The activation is bound to no other version and to no other root. -/
def checkBinding (m : Migration) : Result Unit := do
  failIf (∃ v ∈ ([1, 2, 3] : List UInt8), v ≠ bindingKey m.version ∧ d.bindings.has v)
    "lpod: conflicting migration version already bound"
  failIf (∃ root ∈ d.bindings.get (bindingKey m.version), root ≠ m.root C K)
    "lpod: immutable activation binding mismatch"

/-- `appendLPoDMigration`: the checkpoint the funding block starts from. -/
def fundingCheckpoint (hash : Hash32) (height : UInt64) (migration : Option Migration) :
    Result Checkpoint :=
  match migration with
  | none => fail "lpod: migration at wrong height"
  | some m => do
    failIf (height ≠ m.height) "lpod: migration at wrong height"
    d.checkBinding C K m
    let (issued, parent) ← d.verifyLPoDMigration C K m
    failIf (d.tip.1 ≠ parent ∨ d.tip.2 ≠ height - 1)
      "lpod: migration does not extend reconciled canonical tip"
    failIf (d.stakingPool ≠ some m.validatorRemaining)
      ("lpod: historical validator-pool reconciliation mismatch; " ++
        "refusing to change existing validator entitlement")
    .ok (m.checkpoint C K issued hash height)

end DB

end Aperod.Lpod
