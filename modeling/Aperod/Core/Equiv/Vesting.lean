import Aperod.Core.Equiv.TxVerifier
import Aperod.Core.Transparent

/-!
# Does block verification depend on the local clock?

The vesting lock compares the unlock schedules of the genesis allocations with the node's clock.
`verifyBlock_setClock` says what that adds to a verifier without a lock: no key the block names may
be locked at the time.  `verifyBlock_clock_iff` compares two clocks.
-/

namespace Aperod

open Go

variable {C : Externals} {v : TxVerifier} {tx : Transaction} {b : Block} {now : Int}

namespace TxVerifier

/-- The verifier on a node whose clock shows `now`. -/
def setClock (v : TxVerifier) (now : Int) : TxVerifier :=
  { v with vestingLock := v.vestingLock.map ({ · with now }) }

/-- The verifier without vesting enforcement. -/
def withoutLock (v : TxVerifier) : TxVerifier := { v with vestingLock := none }

/-- Part of the genesis allocation of a key is locked at `now`. -/
def Locked (v : TxVerifier) (now : Int) (pub : Point32) : Prop :=
  ∃ vl ∈ v.vestingLock, vl.lockedAt pub now > 0

end TxVerifier

/-- The key of the output that a position deposits. -/
def LPoDPositionAction.spentKeys (a : LPoDPositionAction) : List Point32 :=
  if a.action = lpodWithdraw then [] else [a.sourcePub]

/-- The keys of a transaction that must not be locked. -/
def Transaction.spentKeys (C : Externals) (tx : Transaction) : List Point32 :=
  if tx.isLPoDPosition then (tx.lpodPositionAction C).toOption.elim [] (·.spentKeys)
  else tx.inputs.flatMap (·.ring)

/-- The kinds `VerifyBlock` passes over. -/
def Transaction.exempt (tx : Transaction) : Bool :=
  tx.isCoinbase || tx.isGuardianFund || tx.isLPoD || tx.isLPoDPayout

/-- A key the transactions of the block must find unlocked is locked at `now`. -/
def Block.MeetsLock (C : Externals) (v : TxVerifier) (b : Block) (now : Int) : Prop :=
  ∃ tx ∈ b.txs, tx.exempt = false ∧ ∃ pub ∈ tx.spentKeys C, v.Locked now pub

namespace TxVerifier

theorem checkVesting_setClock {txHash : Hash32} :
    (v.setClock now).checkVesting txHash tx = .ok () ↔
      ∀ pub ∈ tx.inputs.flatMap (·.ring), ¬ v.Locked now pub := by
  unfold checkVesting setClock Locked
  cases v.vestingLock with
  | none => simp
  | some vl =>
    simp only [Option.map_some, checkAll_eq_ok_iff, failIf_eq_ok, List.mem_flatMap]
    constructor
    · rintro h pub ⟨inp, hinp, hpub⟩ ⟨_, hvl, hlocked⟩
      cases hvl
      obtain ⟨i, hi⟩ := List.mem_iff_getElem?.mp hinp
      obtain ⟨j, hj⟩ := List.mem_iff_getElem?.mp hpub
      exact h i inp hi j pub hj hlocked
    · intro h i inp hi j pub hj hlocked
      exact h pub ⟨inp, List.mem_of_getElem? hi, List.mem_of_getElem? hj⟩ ⟨vl, rfl, hlocked⟩

theorem verifyLPoDPosition_setClock : (v.setClock now).verifyLPoDPosition C tx = .ok () ↔
    v.withoutLock.verifyLPoDPosition C tx = .ok () ∧
      ∀ pub ∈ (tx.lpodPositionAction C).toOption.elim [] (·.spentKeys), ¬ v.Locked now pub := by
  unfold verifyLPoDPosition setClock withoutLock Locked
  cases tx.lpodPositionAction C with
  | error err => simp
  | ok a =>
    simp only [ok_bind, Except.toOption, Option.elim, LPoDPositionAction.spentKeys]
    split_ifs
    · simp
    · cases index tx.inputs 0 with
      | error err => simp
      | ok inp => cases v.utxos <;> simp [bind_eq_ok, and_assoc]

theorem verifyRingTx_setClock {burns : List UTXOKey} {height : Nat} :
    (v.setClock now).verifyRingTx C tx burns height = .ok () ↔
      v.withoutLock.verifyRingTx C tx burns height = .ok () ∧
        ∀ pub ∈ tx.inputs.flatMap (·.ring), ¬ v.Locked now pub := by
  unfold verifyRingTx
  simp only [bind_eq_ok]
  constructor
  · rintro ⟨_, hdup, _, hspent, _, hunlocked, hrest⟩
    exact ⟨⟨_, hdup, _, hspent, _, rfl, hrest⟩, checkVesting_setClock.mp hunlocked⟩
  · rintro ⟨⟨_, hdup, _, hspent, _, -, hrest⟩, hunlocked⟩
    exact ⟨_, hdup, _, hspent, _, checkVesting_setClock.mpr hunlocked, hrest⟩

theorem verifyTx_setClock {burns : List UTXOKey} {height : Nat} :
    (v.setClock now).verifyTx C tx burns height = .ok () ↔
      v.withoutLock.verifyTx C tx burns height = .ok () ∧
        ∀ pub ∈ tx.spentKeys C, ¬ v.Locked now pub := by
  unfold verifyTx Transaction.spentKeys
  cases hvalid : tx.validate C with
  | error err => simp
  | ok _ =>
    split_ifs with hpos hin hst
    · exact verifyLPoDPosition_setClock
    · rw [List.length_eq_zero_iff] at hin
      simp [hin]
    · simp
    · exact verifyRingTx_setClock

/-- **What the lock adds to the verification of a block.** -/
theorem verifyBlock_setClock : (v.setClock now).verifyBlock C b = .ok () ↔
    v.withoutLock.verifyBlock C b = .ok () ∧ ¬ b.MeetsLock C v now := by
  have hite : ∀ (c : Bool) (r : Result Unit),
      (if c = true then .ok () else r) = .ok () ↔ (c = false → r = .ok ()) := by
    intro c r
    cases c <;> simp
  have hkeys : ¬ b.MeetsLock C v now ↔ ∀ (i : Nat) tx, b.txs[i]? = some tx →
      tx.exempt = false → ∀ pub ∈ tx.spentKeys C, ¬ v.Locked now pub := by
    constructor
    · rintro h i tx hi hkind pub hpub hlocked
      exact h ⟨tx, List.mem_of_getElem? hi, hkind, pub, hpub, hlocked⟩
    · rintro h ⟨tx, htx, hkind, pub, hpub, hlocked⟩
      obtain ⟨i, hi⟩ := List.mem_iff_getElem?.mp htx
      exact h i tx hi hkind pub hpub hlocked
  rw [hkeys]
  unfold verifyBlock
  simp only [bind_eq_ok, checkAll_eq_ok_iff, hite, wrap_eq_ok, verifyTx_setClock]
  constructor
  · rintro ⟨_, hheight, hall⟩
    exact ⟨⟨_, hheight, fun i tx hi hkind => (hall i tx hi hkind).1⟩,
      fun i tx hi hkind => (hall i tx hi hkind).2⟩
  · rintro ⟨⟨_, hheight, hall⟩, hunlocked⟩
    exact ⟨_, hheight, fun i tx hi hkind => ⟨hall i tx hi hkind, hunlocked i tx hi hkind⟩⟩

/-- **Two clocks agree on a block** exactly if the block fails without the lock as well, or the
times do not differ in whether a key of the block is locked. -/
theorem verifyBlock_clock_iff (C : Externals) (v : TxVerifier) (b : Block) (now now' : Int) :
    ((v.setClock now).verifyBlock C b = .ok () ↔ (v.setClock now').verifyBlock C b = .ok ()) ↔
      (v.withoutLock.verifyBlock C b = .ok () → (b.MeetsLock C v now ↔ b.MeetsLock C v now')) := by
  rw [verifyBlock_setClock, verifyBlock_setClock, and_congr_right_iff, not_iff_not]

/-- A linear schedule of a hundred seconds on a key in the ring of the sample spend. -/
def lockedVerifier : TxVerifier where
  utxos := some exampleSet
  vestingLock := some (.ofAllocs
    (GoMap.set ∅ 1 ⟨10, some { type := .linear, vestSeconds := 100 }⟩) 0 0)

def lockedBlock : Block := ⟨{ height := 1 }, [exampleSpend]⟩

/-- A node rejects a block that it accepts later. -/
theorem clock_decides :
    (lockedVerifier.setClock 99).verifyBlock transparent lockedBlock ≠ .ok () ∧
      (lockedVerifier.setClock 100).verifyBlock transparent lockedBlock = .ok () := by
  decide +kernel

end TxVerifier

end Aperod
