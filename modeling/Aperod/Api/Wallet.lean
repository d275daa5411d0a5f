import Aperod.Core.UTXO

/-!
# The wallet change feed

`walletBlockEvents` of `api/wallet_changes.go`: what a wallet is told about a block.  The spends are
read off the transactions again, from their inputs, their position payloads and their stake payloads.
The hexadecimal texts of the source are kept as the bytes they stand for.
-/

namespace Aperod

open Go

/-- `amount_napr` or `opening_status` of a public output. -/
inductive OutputOpening
  | amountNAPR (amount : Nat)
  | unavailable
  deriving DecidableEq

inductive WalletEvent
  | output (txHash : Hash32) (outIdx : UInt32) (blockHeight : Nat) (output : Output)
      (opening : Option OutputOpening)
  | spentKeyImage (keyImage : KeyImage) (blockHeight : Nat)
  | spentRef (source : UTXOKey) (blockHeight : Nat)
  deriving DecidableEq

/-- `publicAmount`: the amount of a public output, and whether it is known. -/
abbrev PublicAmount := Option (Hash32 → UInt32 → Result (Nat × Bool))

variable (C : Externals) (publicAmount : PublicAmount) (height : Nat) (tx : Transaction)

def walletOutput (out : Output) (i : UInt32) : Result WalletEvent := do
  let txHash := tx.hash C
  let opening ← if out.txPubKey = 0 then do
      let (amount, known) ← match publicAmount with
        | none => .ok (0, false)
        | some f => wrap s!"read public amount metadata at block {height}" (f txHash i)
      .ok (some (if known ∧ amount > 0 then .amountNAPR amount else .unavailable))
    else .ok none
  .ok (.output txHash i height out opening)

def walletSpentKeyImage (inp : RingInput) : Result WalletEvent :=
  match C.canonicalKeyImage inp.keyImage with
  | .ok keyImage => .ok (.spentKeyImage keyImage height)
  | .error _ => fail s!"invalid key image in canonical block {height}"

def walletPositionSpend : Result (List WalletEvent) :=
  if tx.isLPoDPosition then
    match tx.lpodPositionAction C with
    | .ok a =>
      .ok (if a.action = lpodDeposit then [.spentRef ⟨a.sourceTx, a.sourceIndex⟩ height] else [])
    | .error _ => fail s!"invalid native position spend at height {height}"
  else .ok []

/-- A decoded deposit of layout v2 or v3. -/
def walletDirectSpend (decoded : Result StakeExtraV2) : Result (List WalletEvent) :=
  match decoded with
  | .ok p =>
    if p.action = .deposit then .ok [.spentRef ⟨p.burnTxHash, p.burnOutIdx⟩ height]
    else fail s!"invalid direct stake spend at height {height}"
  | .error _ => fail s!"invalid direct stake spend at height {height}"

/-- The collateral of a deposit.  The default case, meant for layout v1, also passes over v4. -/
def walletStakeSpend : Result (List WalletEvent) :=
  if tx.isStake ∧ tx.extra.length > 0 ∧ StakeAction.ofByte (tx.extra.headD 0) = .deposit then
    if tx.extra.length = stakePayloadSizeV2 then
      walletDirectSpend height (decodeStakeExtraV2 tx.extra)
    else if tx.extra.length = stakePayloadSizeV3 then
      walletDirectSpend height ((decodeStakeExtraV3 tx.extra).map (·.toStakeExtraV2))
    else .ok []
  else .ok []

/-- The body of the loop over `block.Txs`. -/
def walletTxEvents : Result (List WalletEvent) := do
  let outputs ← mapLoop
    (fun _ p => walletOutput C publicAmount height tx p.1 (UInt32.ofNat p.2)) 0 tx.outputs.zipIdx
  let spent ← mapLoop (fun _ => walletSpentKeyImage C height) 0 tx.inputs
  let position ← walletPositionSpend C height tx
  let stake ← walletStakeSpend height tx
  .ok (outputs ++ spent ++ position ++ stake)

def walletBlockEvents (b : Block) : Result (List WalletEvent) := do
  let events ← mapLoop (fun _ => walletTxEvents C publicAmount b.header.height) 0 b.txs
  .ok events.flatten

end Aperod
