import Aperod.Core.Mempool
import Aperod.Core.Equiv.StakeValidation
import Aperod.Go.Run
import Aperod.Lib.OwnerIndex

/-!
# The indexes of the mempool

Beside its entries the pool keeps three reverse indexes (key images, stake senders, AVM signers) and
the sum of the sizes.  `Mempool.Consistent` says that they are right; every operation keeps it, with
one exception: `AddPrivileged` neither looks at nor records the key images and the stake sender of
what it admits.  Stake transactions of every layout but v4 can enter (`stake_admission_iff`), and
`Mempool.add_fair` says when `Add` makes room at the cost of cheaper entries only.
-/

namespace Aperod

open Go Lib GoMap List

/-! ### What an entry reserves -/

/-- The validator a stake transaction reserves. -/
def Transaction.stakeSenderKeys (tx : Transaction) : List ValidatorPubKey :=
  if tx.isStake then
    match stakeExtraPubKey tx.extra with
    | .ok pub => [pub]
    | .error _ => []
  else []

/-- The signer an AVM transaction reserves. -/
def Transaction.avmSignerKeys (tx : Transaction) : List Bytes32 :=
  match (if tx.isAVM then tx.avm else none) with
  | some p => [p.signer]
  | none => []

namespace Mempool

/-- The indexes name exactly the pooled entries, and the sizes add up. -/
structure Consistent (m : Mempool) : Prop where
  images : Indexes (fun e => e.tx.keyImages) m.entries m.keyImages
  stakes : Indexes (fun e => e.tx.stakeSenderKeys) m.entries m.stakeSenders
  signers : Indexes (fun e => e.tx.avmSignerKeys) m.entries m.avmSigners
  bytes : m.totalBytes = m.entries.total (·.size)
  sizes : ∀ hash e, m.entries.get hash = some e → e.size = e.tx.size

/-- Nothing of what a transaction would reserve is taken. -/
structure Free (m : Mempool) (hash : Hash32) (tx : Transaction) : Prop where
  entry : m.entries.get hash = none
  images : ∀ ki ∈ tx.keyImages, m.keyImages.get ki = none
  stakes : ∀ pub ∈ tx.stakeSenderKeys, m.stakeSenders.get pub = none
  signers : ∀ signer ∈ tx.avmSignerKeys, m.avmSigners.get signer = none

variable {C : Externals} {m m' : Mempool} {hash : Hash32} {tx : Transaction} {e : MempoolEntry}

/-! ### Leaving the pool -/

theorem removeImages_get (m : Mempool) (tx : Transaction) (ki : KeyImage) :
    (tx.inputs.foldl (fun kis inp => kis.del inp.keyImage) m.keyImages).get ki =
      if ki ∈ tx.keyImages then none else m.keyImages.get ki :=
  get_foldl_del

theorem removeStakeSender_get (m : Mempool) (hash : Hash32) (tx : Transaction)
    (pub : ValidatorPubKey) : (m.removeStakeSender hash tx).get pub =
      if pub ∈ tx.stakeSenderKeys ∧ m.stakeSenders.get pub = some hash then none
      else m.stakeSenders.get pub := by
  unfold removeStakeSender Transaction.stakeSenderKeys
  by_cases hstake : tx.isStake = true
  · rw [if_pos hstake, if_pos hstake]
    cases hpub : stakeExtraPubKey tx.extra with
    | error err => simp
    | ok pub' => simp only [mem_singleton, get_release]
  · rw [if_neg hstake, if_neg hstake]
    simp

theorem removeAVMSigner_get (m : Mempool) (hash : Hash32) (tx : Transaction) (signer : Bytes32) :
    (m.removeAVMSigner hash tx).get signer =
      if signer ∈ tx.avmSignerKeys ∧ m.avmSigners.get signer = some hash then none
      else m.avmSigners.get signer := by
  unfold removeAVMSigner Transaction.avmSignerKeys
  cases (if tx.isAVM then tx.avm else none) with
  | none => simp
  | some p => simp only [mem_singleton, get_release]

theorem remove_of_get (hget : m.entries.get hash = some e) : m.remove hash =
    { m with
      keyImages := e.tx.inputs.foldl (fun kis inp => kis.del inp.keyImage) m.keyImages
      stakeSenders := m.removeStakeSender hash e.tx
      avmSigners := m.removeAVMSigner hash e.tx
      totalBytes := m.totalBytes - e.size
      entries := m.entries.del hash } := by
  unfold remove
  rw [hget]

theorem remove_of_get_none (hget : m.entries.get hash = none) : m.remove hash = m := by
  unfold remove
  rw [hget]

/-- In a consistent pool, an entry takes its own reservations with it. -/
theorem Consistent.remove (h : m.Consistent) (hash : Hash32) : (m.remove hash).Consistent := by
  cases hget : m.entries.get hash with
  | none =>
    rw [remove_of_get_none hget]
    exact h
  | some e =>
    rw [remove_of_get hget]
    refine ⟨h.images.del hget (m.removeImages_get e.tx), h.stakes.del hget fun pub => ?_,
      h.signers.del hget fun signer => ?_, ?_, fun hash' e' hget' => ?_⟩
    · have howner : pub ∈ e.tx.stakeSenderKeys → m.stakeSenders.get pub = some hash :=
        fun hpub => (h.stakes pub hash).mpr ⟨e, hget, hpub⟩
      rw [removeStakeSender_get]
      congr 1
      exact propext ⟨fun hboth => hboth.1, fun hpub => ⟨hpub, howner hpub⟩⟩
    · have howner : signer ∈ e.tx.avmSignerKeys → m.avmSigners.get signer = some hash :=
        fun hsigner => (h.signers signer hash).mpr ⟨e, hget, hsigner⟩
      rw [removeAVMSigner_get]
      congr 1
      exact propext ⟨fun hboth => hboth.1, fun hsigner => ⟨hsigner, howner hsigner⟩⟩
    · have htotal := total_del (f := fun e : MempoolEntry => e.size) hget
      have hbytes := h.bytes
      show m.totalBytes - e.size = (m.entries.del hash).total (·.size)
      omega
    · apply h.sizes hash'
      rw [get_del] at hget'
      split_ifs at hget'
      exact hget'

theorem Free.remove (h : m.Free hash tx) (hash' : Hash32) : (m.remove hash').Free hash tx := by
  cases hget : m.entries.get hash' with
  | none =>
    rw [remove_of_get_none hget]
    exact h
  | some e =>
    rw [remove_of_get hget]
    refine ⟨?_, fun ki hki => ?_, fun pub hpub => ?_, fun signer hsigner => ?_⟩
    · rw [get_del, h.entry, ite_self]
    · rw [removeImages_get, h.images ki hki, ite_self]
    · rw [removeStakeSender_get, h.stakes pub hpub, ite_self]
    · rw [removeAVMSigner_get, h.signers signer hsigner, ite_self]

variable {size : Nat} {hooks : MempoolHooks}

theorem MakesRoom.preserves {P : Mempool → Prop} (h : MakesRoom size m m')
    (hremove : ∀ m hash, P m → P (remove m hash)) (hm : P m) : P m' := by
  induction h with
  | done _ => exact hm
  | evict _ _ _ ih => exact ih (hremove _ _ hm)

theorem RunsOut.preserves {P : Mempool → Prop} (h : RunsOut size m m')
    (hremove : ∀ m hash, P m → P (remove m hash)) (hm : P m) : P m' := by
  induction h with
  | stuck _ _ => exact hm
  | evict _ _ _ ih => exact ih (hremove _ _ hm)

theorem Free.makesRoom (h : m.Free hash tx) (hroom : MakesRoom size m m') : m'.Free hash tx :=
  hroom.preserves (P := (Free · hash tx)) (fun _ hash' hm => hm.remove hash') h

theorem Consistent.makesRoom (h : m.Consistent) (hroom : MakesRoom size m m') : m'.Consistent :=
  hroom.preserves (fun _ hash hm => Consistent.remove hm hash) h

theorem Consistent.runsOut (h : m.Consistent) (hroom : RunsOut size m m') : m'.Consistent :=
  hroom.preserves (fun _ hash hm => Consistent.remove hm hash) h

theorem Consistent.removeHashes (h : m.Consistent) (hashes : List Hash32) :
    (hashes.foldl Mempool.remove m).Consistent :=
  foldlRecOn hashes _ h fun _ h hash _ => h.remove hash

theorem Consistent.setBanned (h : m.Consistent) (banned : GoMap Hash32 Int) :
    { m with bannedHashes := banned }.Consistent :=
  { h with }

/-! ### Entering the pool -/

/-- A stake transaction that came through the stake part of `Add` has a readable validator, and at
most a stale reservation was released. -/
theorem checkStakeSender_eq_ok (h : m.checkStakeSender hooks tx = .ok m') :
    (tx.isStake → tx.stakeSenderKeys = [slice tx.extra 1 33]) ∧
      (m' = m ∨ ∃ hash, m' = m.remove hash) := by
  unfold checkStakeSender at h
  by_cases hstake : tx.isStake = true
  · rw [if_pos hstake] at h
    obtain ⟨pub, hpub, h⟩ := unbind h
    rw [wrap_eq_ok] at hpub
    obtain ⟨-, -, h⟩ := unbind h
    constructor
    · intro _
      unfold Transaction.stakeSenderKeys
      obtain ⟨-, -, hslice⟩ := unbind hpub
      rw [if_pos hstake, hpub, ← Except.ok.inj hslice]
    · cases hcheck : hooks.stakeAdmissionCheck with
      | none =>
        rw [hcheck] at h
        exact .inl (Except.ok.inj h).symm
      | some check =>
        rw [hcheck] at h
        obtain ⟨-, -, h⟩ := unbind h
        cases h
        unfold releaseStale
        split
        · exact .inl rfl
        · split
          · exact .inl rfl
          · split
            · exact .inl rfl
            · exact .inr ⟨_, rfl⟩
  · rw [if_neg hstake] at h
    exact ⟨fun hyes => absurd hyes hstake, .inl (Except.ok.inj h).symm⟩

theorem avmSigner_free {f : Bytes32 × Hash32 → String}
    (h : failSome ((if tx.isAVM then tx.avm else none).bind fun p =>
      (m.avmSigners.get p.signer).map (p.signer, ·)) f = .ok ()) :
    ∀ signer ∈ tx.avmSignerKeys, m.avmSigners.get signer = none := by
  have hnone := failSome_eq_ok.mp h
  unfold Transaction.avmSignerKeys
  cases hp : (if tx.isAVM then tx.avm else none) with
  | none => simp
  | some p =>
    rw [hp] at hnone
    simpa using hnone

theorem checkConflicts_eq_ok (h : m.checkConflicts C tx = .ok ())
    (hstake : tx.isStake → tx.stakeSenderKeys = [slice tx.extra 1 33]) :
    m.Free (tx.hash C) tx := by
  obtain ⟨⟨⟩, hentry, h⟩ := unbind h
  replace h := past h
  have hsender : tx.isStake → m.stakeSenders.get (slice tx.extra 1 33) = none := by
    intro hyes
    rw [if_pos hyes] at h
    obtain ⟨⟨⟩, hfree, -⟩ := unbind h
    exact failSome_eq_ok.mp hfree
  -- the rest is run whether or not it is a stake transaction
  replace h : ∃ f g, (do
      failSome ((if tx.isAVM then tx.avm else none).bind fun p =>
        (m.avmSigners.get p.signer).map (p.signer, ·)) f
      checkAll (fun _ (inp : RingInput) => failSome (m.keyImages.get inp.keyImage) g) 0
        tx.inputs) = .ok () := by
    by_cases hyes : tx.isStake = true
    · rw [if_pos hyes] at h
      replace h := past h
      exact ⟨_, _, h⟩
    · rw [if_neg hyes] at h
      exact ⟨_, _, h⟩
  obtain ⟨f, g, h⟩ := h
  obtain ⟨⟨⟩, hsigner, himages⟩ := unbind h
  refine ⟨?_, ?_, ?_, avmSigner_free hsigner⟩
  · exact has_eq_false.mp (eq_false_of_ne_true (failIf_eq_ok.mp hentry))
  · intro ki hki
    obtain ⟨inp, hinp, rfl⟩ := mem_map.mp hki
    obtain ⟨i, hfree⟩ := checkAll_mem himages hinp
    exact failSome_eq_ok.mp hfree
  · intro pub hpub
    by_cases hyes : tx.isStake = true
    · rw [hstake hyes, mem_singleton] at hpub
      rw [hpub]
      exact hsender hyes
    · unfold Transaction.stakeSenderKeys at hpub
      rw [if_neg hyes] at hpub
      cases hpub

theorem insertSigners_get (m : Mempool) (hash : Hash32) (tx : Transaction) (signer : Bytes32) :
    (match (if tx.isAVM then tx.avm else none) with
      | some p => m.avmSigners.set p.signer hash
      | none => m.avmSigners).get signer =
      if signer ∈ tx.avmSignerKeys then some hash else m.avmSigners.get signer := by
  unfold Transaction.avmSignerKeys
  cases (if tx.isAVM then tx.avm else none) with
  | none => simp
  | some p => simp only [mem_singleton, get_set]

theorem Consistent.insert (h : m.Consistent) (hfree : m.Free (tx.hash C) tx)
    (hstake : tx.isStake → tx.stakeSenderKeys = [slice tx.extra 1 33]) (now : Int) :
    (m.insert C now tx).Consistent := by
  refine ⟨h.images.set hfree.entry hfree.images fun ki => get_foldl_set_const,
    h.stakes.set hfree.entry hfree.stakes fun pub => ?_,
    h.signers.set hfree.entry hfree.signers (m.insertSigners_get _ tx), ?_, fun hash' e' hget => ?_⟩
  · show (if tx.isStake then m.stakeSenders.set (slice tx.extra 1 33) (tx.hash C)
      else m.stakeSenders).get pub = _
    by_cases hyes : tx.isStake = true
    · rw [if_pos hyes, hstake hyes, get_set]
      simp only [mem_singleton]
    · unfold Transaction.stakeSenderKeys
      rw [if_neg hyes, if_neg hyes]
      simp
  · show m.totalBytes + tx.size = (m.entries.set (tx.hash C) _).total (·.size)
    rw [total_set hfree.entry, h.bytes]
  · have hget : (m.entries.set (tx.hash C) _).get hash' = some e' := hget
    rw [get_set] at hget
    split_ifs at hget
    · cases hget
      rfl
    · exact h.sizes hash' e' hget

theorem checkPrivileged_eq_ok (h : m.checkPrivileged C hooks tx = .ok ()) :
    m.entries.get (tx.hash C) = none ∧
      ∀ signer ∈ tx.avmSignerKeys, m.avmSigners.get signer = none := by
  replace h := past h
  replace h := past h
  replace h := past h
  replace h := past h
  replace h := past h
  obtain ⟨⟨⟩, hentry, hsigner⟩ := unbind h
  refine ⟨?_, avmSigner_free hsigner⟩
  exact has_eq_false.mp (eq_false_of_ne_true (failIf_eq_ok.mp hentry))

section

variable (h : m.Consistent)
include h

/-- `AddPrivileged` records no key image and no stake sender: it keeps the indexes right where the
transaction has none. -/
theorem Consistent.insertPrivileged (hfree : m.Free (tx.hash C) tx)
    (hinputs : tx.inputs = []) (hstake : tx.isStake = false) (now : Int) :
    (m.insertPrivileged C now tx).Consistent := by
  have himages : tx.keyImages = [] := by
    unfold Transaction.keyImages
    rw [hinputs, map_nil]
  have hsenders : tx.stakeSenderKeys = [] := by
    unfold Transaction.stakeSenderKeys
    rw [if_neg (by simp [hstake])]
  refine ⟨h.images.set hfree.entry hfree.images fun ki => ?_,
    h.stakes.set hfree.entry hfree.stakes fun pub => ?_,
    h.signers.set hfree.entry hfree.signers (m.insertSigners_get _ tx), ?_, fun hash' e' hget => ?_⟩
  · simp only [himages, not_mem_nil, if_false]
    rfl
  · simp only [hsenders, not_mem_nil, if_false]
    rfl
  · show m.totalBytes + tx.size = (m.entries.set (tx.hash C) _).total (·.size)
    rw [total_set hfree.entry, h.bytes]
  · have hget : (m.entries.set (tx.hash C) _).get hash' = some e' := hget
    rw [get_set] at hget
    split_ifs at hget
    · cases hget
      rfl
    · exact h.sizes hash' e' hget

/-! ### Operations and runs -/

theorem Consistent.checkStakeSender (hok : m.checkStakeSender hooks tx = .ok m') :
    m'.Consistent := by
  obtain ⟨-, heq | ⟨hash, heq⟩⟩ := checkStakeSender_eq_ok hok
  · rw [heq]
    exact h
  · rw [heq]
    exact h.remove hash

theorem Consistent.adds {now : Int} (hadds : m.Adds C hooks now tx m') :
    m'.Consistent := by
  obtain ⟨-, m1, m2, hsender, hconflicts, hroom, heq⟩ := hadds
  have hstake := (checkStakeSender_eq_ok hsender).1
  have hfree := checkConflicts_eq_ok hconflicts hstake
  rw [heq]
  exact ((h.checkStakeSender hsender).makesRoom hroom).insert
    (hfree.makesRoom hroom) hstake now

theorem Consistent.rejects (hrejects : m.Rejects C hooks tx m') :
    m'.Consistent := by
  rcases hrejects with ⟨-, heq⟩ | ⟨-, ⟨err, -, heq⟩ | ⟨m1, hsender, ⟨-, heq⟩ | ⟨-, hroom⟩⟩⟩
  · exact heq ▸ h
  · exact heq ▸ h
  · exact heq ▸ h.checkStakeSender hsender
  · exact (h.checkStakeSender hsender).runsOut hroom

theorem Consistent.addsPrivileged {now : Int}
    (hadds : m.AddsPrivileged C hooks now tx m') (hinputs : tx.inputs = [])
    (hstake : tx.isStake = false) : m'.Consistent := by
  obtain ⟨hcheck, m1, hroom, heq⟩ := hadds
  obtain ⟨hentry, hsigners⟩ := checkPrivileged_eq_ok hcheck
  have hfree : m.Free (tx.hash C) tx := by
    refine ⟨hentry, ?_, ?_, hsigners⟩
    · simp [Transaction.keyImages, hinputs]
    · simp [Transaction.stakeSenderKeys, hstake]
  rw [heq]
  exact (h.makesRoom hroom).insertPrivileged
    (hfree.makesRoom hroom) hinputs hstake now

theorem Consistent.rejectsPrivileged
    (hrejects : m.RejectsPrivileged C hooks tx m') : m'.Consistent := by
  rcases hrejects with ⟨-, heq⟩ | ⟨-, hroom⟩
  · exact heq ▸ h
  · exact h.runsOut hroom

theorem Consistent.evict (order : List (Hash32 × MempoolEntry)) (now : Int) :
    (m.evict order now).Consistent := by
  apply setBanned
  rw [← foldl_map]
  exact h.removeHashes _

end

end Mempool

/-- A call on the pool. -/
inductive PoolOp
  | add (hooks : MempoolHooks) (now : Int) (tx : Transaction)
  | addPrivileged (hooks : MempoolHooks) (now : Int) (tx : Transaction)
  | remove (hash : Hash32)
  | removeBlock (b : Block)
  | banTx (now : Int) (hash : Hash32)
  | evict (now : Int)

variable (C : Externals)

/-- What a call can leave. -/
def PoolStep (m : Mempool) : PoolOp → Mempool → Prop
  | .add hooks now tx, m' => m.Adds C hooks now tx m' ∨ m.Rejects C hooks tx m'
  | .addPrivileged hooks now tx, m' =>
    m.AddsPrivileged C hooks now tx m' ∨ m.RejectsPrivileged C hooks tx m'
  | .remove hash, m' => m' = m.remove hash
  | .removeBlock b, m' => m' = m.removeBlock C b
  | .banTx now hash, m' => m' = m.banTx now hash
  | .evict now, m' => ∃ order ∈ m.entries.enumerations, m' = m.evict order now

/-- A privileged call is made for a transaction without inputs that is not a stake transaction. -/
def PoolOp.Unreserved : PoolOp → Prop
  | .addPrivileged _ _ tx => tx.inputs = [] ∧ tx.isStake = false
  | _ => True

variable {C}

theorem Mempool.Consistent.step {m m' : Mempool} {op : PoolOp} (h : m.Consistent)
    (hstep : PoolStep C m op m') (hop : op.Unreserved) : m'.Consistent := by
  cases op with
  | add hooks now tx => exact hstep.elim h.adds h.rejects
  | addPrivileged hooks now tx =>
    exact hstep.elim (fun hadds => h.addsPrivileged hadds hop.1 hop.2) h.rejectsPrivileged
  | remove hash =>
    rw [show m' = m.remove hash from hstep]
    exact h.remove hash
  | removeBlock b =>
    rw [show m' = m.removeBlock C b from hstep]
    unfold Mempool.removeBlock Mempool.removeAll
    rw [← foldl_map]
    exact h.removeHashes _
  | banTx now hash =>
    rw [show m' = m.banTx now hash from hstep]
    exact (h.remove hash).setBanned _
  | evict now =>
    obtain ⟨order, -, heq⟩ := hstep
    rw [heq]
    exact h.evict order now

def newMempool (cfg : MempoolConfig) (baseFeePerByte : Nat) : Mempool := { cfg, baseFeePerByte }

/-- After any run from an empty pool the indexes are right and no two entries share a key image,
as long as every privileged call is for a transaction that reserves nothing but an AVM signer. -/
theorem mempool_consistent {cfg : MempoolConfig} {baseFeePerByte : Nat} {ops : List PoolOp}
    {m : Mempool} (hrun : Run (PoolStep C) (newMempool cfg baseFeePerByte) ops m)
    (hops : ∀ op ∈ ops, op.Unreserved) :
    m.Consistent ∧ ∀ hash hash' e e' ki, m.entries.get hash = some e →
      m.entries.get hash' = some e' → ki ∈ e.tx.keyImages → ki ∈ e'.tx.keyImages →
      hash = hash' := by
  have hm : m.Consistent := hrun.invariant _
    (fun _ op _ hmem h hstep => h.step hstep (hops op hmem))
    ⟨.empty _, .empty _, .empty _, rfl, by simp [newMempool]⟩
  exact ⟨hm, fun hash hash' e e' ki he he' hki hki' => hm.images.owner_unique he he' hki hki'⟩

/-- An external stake request, a ban, and a privileged coinbase. -/
theorem coinbase_after_ban_consistent : ∃ m, Run (PoolStep hashing) (newMempool {} 200)
      [.add {} 0 (sampleWithdrawal 1), .banTx 1 ((sampleWithdrawal 1).hash hashing),
        .addPrivileged {} 2 coinbaseOf7] m ∧ m.Consistent := by
  have hrun : Run (PoolStep hashing) (newMempool {} 200)
      [.add {} 0 (sampleWithdrawal 1), .banTx 1 ((sampleWithdrawal 1).hash hashing),
        .addPrivileged {} 2 coinbaseOf7] _ :=
    .cons (.inl ⟨by decide +kernel, _, _, rfl, by decide +kernel, .done (by decide +kernel), rfl⟩)
      (.cons rfl
        (.cons (.inl ⟨by decide +kernel, _, .done (by decide +kernel), rfl⟩) (.nil _)))
  refine ⟨_, hrun, (mempool_consistent hrun ?_).1⟩
  simp only [mem_cons, not_mem_nil, or_false, forall_eq_or_imp, forall_eq]
  exact ⟨trivial, trivial, rfl, by decide⟩

/-- The pool's view of a chain on which key 1 was paid 7. -/
def fundedHooks : MempoolHooks := { verifier := some { utxos := some exampleSet } }

/-- The same output spent to somebody else. -/
def rivalSpend : Transaction :=
  { exampleSpend with outputs := [{ oneTimePub := 21, amountCommit := 5 }] }

/-- Two privileged spends with one key image are both admitted, each fully verified, and the key
image is not indexed. -/
theorem privileged_spend_unindexed : ∃ m, Run (PoolStep hashing) (newMempool {} 200)
      [.addPrivileged fundedHooks 0 exampleSpend, .addPrivileged fundedHooks 1 rivalSpend] m ∧
    m.entries.get (exampleSpend.hash hashing) =
      some ⟨exampleSpend, exampleSpend.size, 0, true⟩ ∧
    m.entries.get (rivalSpend.hash hashing) =
      some ⟨rivalSpend, rivalSpend.size, 1, true⟩ ∧
    exampleSpend.hash hashing ≠ rivalSpend.hash hashing ∧
    1 ∈ exampleSpend.keyImages ∧ 1 ∈ rivalSpend.keyImages ∧ m.keyImages.get 1 = none := by
  refine ⟨((newMempool {} 200).insertPrivileged hashing 0 exampleSpend).insertPrivileged hashing 1
    rivalSpend, .cons (.inl ⟨?_, _, .done ?_, rfl⟩) (.cons (.inl ⟨?_, _, .done ?_, rfl⟩) (.nil _)),
    ?_, ?_, ?_, by decide, by decide, rfl⟩
  all_goals decide +kernel

/-- `Add` comes as far as the stake payload and returns the malformed-extra error. -/
def Mempool.RejectsMalformed (C : Externals) (m : Mempool) (hooks : MempoolHooks)
    (tx : Transaction) : Prop :=
  m.checkTx C hooks tx = .ok () ∧ ∃ err, stakeExtraPubKey tx.extra = .error err ∧
    m.checkStakeSender hooks tx = wrap "mempool: malformed stake extra" (.error err)

variable {tx : Transaction}

theorem Transaction.stakeOp_pub {op : StakeOp} (h : tx.stakeOp = some op) :
    op.pub = slice tx.extra 1 33 ∧ stakeLayout tx.extra ≠ .invalid := by
  unfold Transaction.stakeOp at h
  split_ifs at h
  split at h
  · rename_i hlay
    unfold StakeExtra.stakeOp at h
    refine ⟨?_, by simp [hlay]⟩
    split at h <;> cases h <;> rfl
  · rename_i hlay
    refine ⟨?_, by simp [hlay]⟩
    split at h
    · rename_i a hdec
      cases h
      obtain ⟨-, -, hdec⟩ := unbind hdec
      obtain ⟨-, -, hdec⟩ := unbind hdec
      cases hdec
      rfl
    · cases h
  iterate 3
    · rename_i hlay
      cases h
      exact ⟨rfl, by simp [hlay]⟩
  · cases h

theorem stakeExtraPubKey_error_iff {extra : Bytes} (hlay : stakeLayout extra ≠ .invalid) :
    (∃ err, stakeExtraPubKey extra = .error err) ↔ extra.length = stakePayloadSizeV4 := by
  unfold stakeExtraPubKey
  constructor
  · rintro ⟨err, herr⟩
    by_contra hne
    rw [failIf, if_neg] at herr
    · cases herr
    · rintro ⟨h1, h2, h3, h4⟩
      apply hlay
      unfold stakeLayout
      rw [if_neg h1, if_neg h2, if_neg h3, if_neg h4, if_neg hne]
  · intro hlen
    rw [failIf, if_pos (by rw [hlen]; decide)]
    exact ⟨_, rfl⟩

theorem Mempool.checkStakeSender_error {m : Mempool} {hooks : MempoolHooks} {err : Fault}
    (hstake : tx.isStake = true) (herr : stakeExtraPubKey tx.extra = .error err) :
    m.checkStakeSender hooks tx = wrap "mempool: malformed stake extra" (.error err) := by
  unfold checkStakeSender
  rw [if_pos hstake, herr]
  cases err <;> rfl

/-- The checks of `Add` that come before the stake payload pass for a valid stake transaction that
is not too large. -/
theorem Mempool.checkTx_stake (hstake : tx.isStake = true) (hvalid : tx.validate C = .ok ()) :
    ({ cfg := { maxTxSize := tx.size } } : Mempool).checkTx C {} tx = .ok () := by
  have hv : tx.version = .stake := of_decide_eq_true hstake
  unfold checkTx checkFee validateAVMNonce
  rw [hvalid]
  simp [hv, hstake, Transaction.isGuardianFund, Transaction.isLPoD, Transaction.isLPoDPayout,
    Transaction.isAVM, failIf, wrap]

/-- **Which stake transactions can enter the pool.**  A stake transaction that is valid in a block is
never turned away for its payload, and reserves the key in it, exactly if its layout is not v4. -/
theorem stake_admission_iff {r : ValidatorRegistry} {height : Nat} {txs : List Transaction}
    (hmem : tx ∈ txs) (hstake : tx.isStake = true) (hvalid : tx.validate C = .ok ())
    (hblock : r.validateBlockStakeTxs C txs height = .ok ()) :
    (∀ (m : Mempool) (hooks : MempoolHooks), ¬ m.RejectsMalformed C hooks tx ∧
      ∀ now m', m.Adds C hooks now tx m' → ∃ op, tx.stakeOp = some op ∧
        m'.stakeSenders.get op.pub = some (tx.hash C)) ↔
      tx.extra.length ≠ stakePayloadSizeV4 := by
  obtain ⟨_, hloop, -⟩ := unbind hblock
  obtain ⟨i, sh, sh', hone⟩ := loop_mem hloop hmem
  rw [if_pos hstake] at hone
  obtain ⟨op, hop, -⟩ := validateOneTx_spec hstake hone
  obtain ⟨hpub, hlay⟩ := Transaction.stakeOp_pub hop
  constructor
  · intro hall hlen
    obtain ⟨err, herr⟩ := (stakeExtraPubKey_error_iff hlay).mpr hlen
    refine (hall { cfg := { maxTxSize := tx.size } } {}).1
      ⟨Mempool.checkTx_stake hstake hvalid, err, herr, Mempool.checkStakeSender_error hstake herr⟩
  · intro hlen m hooks
    constructor
    · rintro ⟨-, err, herr, -⟩
      exact hlen ((stakeExtraPubKey_error_iff hlay).mp ⟨err, herr⟩)
    · rintro now m' ⟨-, m1, m2, -, -, -, rfl⟩
      refine ⟨op, hop, ?_⟩
      unfold Mempool.insert
      dsimp only
      rw [if_pos hstake, hpub, get_set_self]

/-- A v4 deposit of `MinStakeNAPR` that burns `sampleCollateral`. -/
def sampleDepositV4 : Transaction :=
  { sampleDeposit 3 with
    extra := (sampleDeposit 3).extra ++ Bytes32.bytes 1 ++ replicate 96 0 }

theorem withdrawal_enters :
    ¬ ({} : Mempool).RejectsMalformed transparent {} (sampleWithdrawal 1) := by
  have hblock : seededRegistry.validateBlockStakeTxs transparent [sampleWithdrawal 1] 1 = .ok () := by
    decide +kernel
  exact ((stake_admission_iff mem_cons_self rfl (by decide +kernel) hblock).mpr
    (by decide) {} {}).1

/-- With key-image proofs in force a v4 deposit is valid in a block, and the pool calls its payload
malformed. -/
theorem deposit_v4_malformed : ∃ (r : ValidatorRegistry) (tx : Transaction) (m : Mempool),
    tx.validate transparent = .ok () ∧ r.validateBlockStakeTxs transparent [tx] 1 = .ok () ∧
      m.RejectsMalformed transparent {} tx := by
  refine ⟨{ seededRegistry with stakeKeyImageActivation := 1 }, sampleDepositV4, {}, ?_, ?_, ?_⟩
  · decide +kernel
  · decide +kernel
  · obtain ⟨err, herr⟩ : ∃ err, stakeExtraPubKey sampleDepositV4.extra = .error err :=
      (stakeExtraPubKey_error_iff (by decide +kernel)).mpr (by decide +kernel)
    exact ⟨by decide +kernel, err, herr, Mempool.checkStakeSender_error rfl herr⟩

/-! ### What eviction takes -/

/-- The fee rate a transaction has in the pool. -/
def Transaction.feeRate (tx : Transaction) : Nat := tx.fee.toNat / max tx.size 1

/-- `e` is evicted before `f`: by fee rate, and the system transactions after the others, by age. -/
def MempoolEntry.before (e f : MempoolEntry) : Bool :=
  if f.priced then e.priced && e.feeRate < f.feeRate else e.priced || e.received < f.received

namespace Mempool

/-- The pool without the entries with `p`, as far as its limits are concerned. -/
def without (m : Mempool) (p : MempoolEntry → Bool) : Mempool :=
  { m with
    entries := m.entries.filter fun _ e => !p e
    totalBytes := m.totalBytes - m.entries.total fun e => if p e then e.size else 0 }

variable {C : Externals} {m m' : Mempool} {hash : Hash32} {e : MempoolEntry} {size : Nat}
  {hooks : MempoolHooks} {p : MempoolEntry → Bool}

theorem Evicts.not_before (h : m.Evicts hash) (hget : m.entries.get hash = some e) {hash' : Hash32}
    {e' : MempoolEntry} (hget' : m.entries.get hash' = some e') : e'.before e = false := by
  obtain ⟨e1, he1, hmin⟩ := h
  rw [hget] at he1
  cases he1
  unfold MempoolEntry.before
  split_ifs at hmin ⊢
  · simpa using hmin hash' e' hget'
  · simpa using hmin hash' e' hget'

theorem without_eq_self (h : ∀ hash e, m.entries.get hash = some e → p e = false) :
    m.without p = m := by
  have htotal : (m.entries.total fun e => if p e then e.size else 0) = 0 := by
    refine Finset.sum_eq_zero fun k hk => ?_
    obtain ⟨e, hget⟩ := mem_keys.mp hk
    simp [hget, h k e hget]
  unfold without
  rw [htotal, filter_eq_self (by simpa using h)]
  rfl

theorem remove_entries (m : Mempool) (hash : Hash32) :
    (m.remove hash).entries = m.entries.del hash := by
  cases hget : m.entries.get hash with
  | none => rw [remove_of_get_none hget, del_of_get_none hget]
  | some e => rw [remove_of_get hget]

theorem full_iff : m.full size = true ↔ m.cfg.maxSize ≤ m.entries.len ∨
    0 < m.cfg.maxBytes ∧ m.cfg.maxBytes < m.totalBytes + size := by
  simp [full]

theorem full_of_remove (h : ((m.remove hash).without p).full size = true) :
    (m.without p).full size = true := by
  cases hget : m.entries.get hash with
  | none => rwa [remove_of_get_none hget] at h
  | some e =>
    have htotal := total_del (f := fun e => if p e then e.size else 0) hget
    have hlen : ((m.entries.del hash).filter fun _ e => !p e).len ≤
        (m.entries.filter fun _ e => !p e).len := by
      refine Finset.card_le_card fun k hk => ?_
      rw [GoMap.mem_keys, get_filter, get_del] at hk
      rw [GoMap.mem_keys, get_filter]
      split_ifs at hk
      · simp at hk
      · exact hk
    rw [remove_of_get hget] at h
    rw [full_iff] at h ⊢
    unfold without at *
    dsimp only at *
    split_ifs at htotal <;> omega

/-- An entry is evicted only if the pool is full without those before it. -/
theorem MakesRoom.full_without (h : MakesRoom size m m') (hget : m.entries.get hash = some e)
    (hnone : m'.entries.get hash = none) :
    (m.without (·.before e)).full size = true := by
  induction h with
  | done _ =>
    rw [hget] at hnone
    cases hnone
  | @evict m m' hash' hfull hevicts _ ih =>
    by_cases heq : hash = hash'
    · subst heq
      rw [without_eq_self]
      · exact hfull
      · exact fun _ _ hget' => hevicts.not_before hget hget'
    · refine full_of_remove (ih ?_ hnone)
      rw [remove_entries, get_del_ne heq, hget]

/-- The pool is emptied in vain only if the transaction does not fit an empty pool. -/
theorem RunsOut.full_without (h : RunsOut size m m') :
    (m.without fun _ => true).full size = true := by
  induction h with
  | stuck hfull hempty =>
    rw [without_eq_self]
    · exact hfull
    · intro hash e hget
      rw [hempty] at hget
      cases hget
  | evict _ _ _ ih => exact full_of_remove ih

theorem RunsOut.eq_of_empty (h : RunsOut size m m') (hempty : m.entries = ∅) : m' = m := by
  cases h with
  | stuck _ _ => rfl
  | evict _ hevicts _ =>
    obtain ⟨e, hget, -⟩ := hevicts
    rw [hempty] at hget
    cases hget

/-- The entries that may have to leave for the transaction have no higher fee rate, and if there
are any it fits without them. -/
structure Yields (m : Mempool) (tx : Transaction) : Prop where
  rates : ∀ hash e, m.entries.get hash = some e →
    (m.without (·.before e)).full tx.size = true →
      e.feeRate ≤ tx.feeRate
  fits : m.entries = ∅ ∨ (m.without fun _ => true).full tx.size = false

end Mempool

/-- A spend of key `ki` that pays `fee`. -/
def payingSpend (ki : KeyImage) (fee : UInt64) : Transaction :=
  { exampleSpend with inputs := [{ keyImage := ki, ring := exampleRing, amountCommit := 7 }], fee }

theorem Mempool.eq_of_only {m : Mempool} {hash hash' : Hash32} {e e' : MempoolEntry}
    (h : m.entries = (∅ : GoMap Hash32 MempoolEntry).set hash e)
    (hget : m.entries.get hash' = some e') : e' = e := by
  rw [h, get_set] at hget
  split_ifs at hget
  · exact (Option.some.inj hget).symm
  · simp at hget

theorem Mempool.evicts_only {m : Mempool} {hash : Hash32} {e : MempoolEntry}
    (h : m.entries = (∅ : GoMap Hash32 MempoolEntry).set hash e) : m.Evicts hash := by
  refine ⟨e, by rw [h, get_set_self], ?_⟩
  split_ifs with hpriced
  · intro hash' e' hget _
    rw [eq_of_only h hget]
  · intro hash' e' hget
    rw [eq_of_only h hget]
    exact ⟨hpriced, le_rfl⟩

end Aperod
