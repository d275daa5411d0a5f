import Aperod.Avm.Equiv.Isolation
import Aperod.Go.Run

/-!
# Nonces and deployments

What one transaction does to the overlay is said once (`Prepared`): it had the nonce of its signer,
which is one higher afterwards, and it deploys its code where there was none.  Contract state is under
other keys (`Reserved`), so nothing else touches nonces and code.  `Books` keeps, for the payloads
executed so far, that the nonces of every signer are `0, 1, 2, …` and that what was deployed is still
there; `avm_replay_safe` follows for every chain of blocks.
-/

namespace Aperod.Avm

open Go List

variable {S : Type} {C : Externals} {W : Wasm} {p : AVMPayload} {tx : Transaction} {b : Block}
  {es : List AVMPayload} {height : Nat}

/-! ### Nonces in a store -/

/-- The next nonce of a signer is `n`. -/
def StoredNonce [Store S] (s : S) (signer : Bytes32) (n : Nat) : Prop :=
  report s (signerNonceKey signer) = if n = 0 then none else some (encodeNonce (UInt64.ofNat n))

variable {s : S} {o o' : OverlayStore S}

theorem report_of_get [Store S] {key : Bytes} {v : Option Bytes} (h : Store.get s key = .ok v) :
    report s key = v := by
  unfold report
  rw [h]

theorem leNat_encodeNonce (n : UInt64) : UInt64.ofNat (leNat (encodeNonce n)) = n := by
  have hlt : n.toNat < 256 ^ 8 := n.toNat_lt
  rw [encodeNonce, leNat_leBytes, Nat.mod_eq_of_lt hlt, UInt64.ofNat_toNat]

theorem StoredNonce.load [Store S] {signer : Bytes32} {n : Nat} {nonce : UInt64}
    (h : StoredNonce s signer n) (hn : n < 2 ^ 64) (hload : loadNonce s signer = .ok nonce) :
    nonce.toNat = n := by
  obtain ⟨v, hget, hload⟩ := unbind hload
  have hreport := report_of_get hget
  rw [h] at hreport
  split_ifs at hreport with hzero
  · subst hreport
    cases hload
    exact hzero.symm
  · subst hreport
    rw [← Except.ok.inj hload, leNat_encodeNonce]
    exact UInt64.toNat_ofNat_of_lt' hn

/-! ### One transaction -/

/-- What a transaction that is executed does to nonces and code. -/
structure Prepared [Store S] (C : Externals) (tx : Transaction) (p : AVMPayload)
    (o o' : OverlayStore S) : Prop where
  payload : tx.avm = some p
  valid : AVMPayload.validate C (some p) = .ok ()
  base_eq : o'.base = o.base
  staged : o.writes.get [] = none → o'.writes.get [] = none
  load : loadNonce o p.signer = .ok p.nonce
  nonce : report o' (signerNonceKey p.signer) = some (encodeNonce (p.nonce + 1))
  nonce_other : ∀ signer, signer ≠ p.signer →
    report o' (signerNonceKey signer) = report o (signerNonceKey signer)
  code_new : p.action = .deployContract → report o (contractCodeKey p.contractID) = none
  code : p.action = .deployContract → report o' (contractCodeKey p.contractID) = some p.code
  code_other : ∀ id, ¬ (p.action = .deployContract ∧ id = p.contractID) →
    report o' (contractCodeKey id) = report o (contractCodeKey id)

/-- The nonce, the code and the receipt have different keys. -/
theorem lastWrite_metadata (p : AVMPayload) (receipt : Receipt) (kind : Metadata) (x : Bytes32) :
    lastWrite (metadataWrites p receipt) (metadataKey kind x) =
      match kind with
      | .nonce => if x = p.signer then some (some (encodeNonce (p.nonce + 1))) else none
      | .code => if p.action = .deployContract ∧ x = p.contractID then some (some p.code) else none
      | .receipt => if x = receipt.txHash then some (some (encodeReceipt receipt)) else none := by
  have hkey : ∀ kind' x', (metadataKey kind' x' = metadataKey kind x) ↔ kind' = kind ∧ x = x' := by
    intro kind' x'
    rw [metadataKey_eq_iff, eq_comm (a := x)]
  unfold metadataWrites signerNonceKey contractCodeKey receiptKey
  cases kind
  case nonce => by_cases hdeploy : p.action = .deployContract <;> simp [lastWrite, hkey, hdeploy]
  case code => by_cases hdeploy : p.action = .deployContract <;> simp [lastWrite, hkey, hdeploy]
  case receipt => by_cases hdeploy : p.action = .deployContract <;> simp [lastWrite, hkey, hdeploy]

theorem payloadCode_new [Store S] {pos : String} {code : Bytes} (h : payloadCode pos o p = .ok code)
    (hdeploy : p.action = .deployContract) :
    report o (contractCodeKey p.contractID) = none := by
  unfold payloadCode at h
  rw [hdeploy] at h
  obtain ⟨found, hget, h⟩ := unbind h
  obtain ⟨⟨⟩, hnone, -⟩ := unbind h
  rw [failIf_eq_ok, Bool.not_eq_true, Option.isSome_eq_false_iff, Option.isNone_iff_eq_none] at hnone
  rw [report_of_get (wrap_eq_ok.mp hget), hnone]

theorem apply_overlay [Store S] {ws : List Write} (h : Store.apply o ws = .ok o') :
    o'.base = o.base ∧ (o.writes.get [] = none → o'.writes.get [] = none) := by
  obtain ⟨⟨⟩, hkeys, h⟩ := unbind h
  cases h
  rw [failIf_eq_ok] at hkeys
  refine ⟨rfl, fun hnone => ?_⟩
  rw [get_foldl_stage, lastWrite_eq_none fun w hw heq => hkeys ⟨w, hw, heq⟩, hnone]
  rfl

theorem execute_overlay [Store S] {r : ExecutionRequest} {result : ExecutionResult}
    (h : execute W o r = .ok (result, o')) :
    o'.base = o.base ∧ (o.writes.get [] = none → o'.writes.get [] = none) := by
  obtain ⟨session, -, -, rfl | happly⟩ := execute_eq_ok h
  · exact ⟨rfl, id⟩
  · exact apply_overlay happly

theorem prepareTx_spec [Store S] {i : Nat} {receipt : Receipt}
    (h : prepareTx C W height i tx o = .ok (o', receipt))
    (hid : ∀ p, tx.avm = some p → ¬ Reserved p.contractID) : ∃ p, Prepared C tx p o o' := by
  obtain ⟨⟨p, code⟩, hcheck, h⟩ := unbind h
  obtain ⟨⟨result, o1⟩, hexecute, h⟩ := unbind h
  obtain ⟨o2, hstage, h⟩ := unbind h
  cases h
  obtain ⟨⟨⟩, hvalid, hcheck⟩ := unbind (orLeave_eq_ok.mp hcheck)
  obtain ⟨p', hpayload, hcheck⟩ := unbind hcheck
  obtain ⟨nonce, hload, hcheck⟩ := unbind hcheck
  obtain ⟨⟨⟩, hnonce, hcheck⟩ := unbind hcheck
  obtain ⟨code', hcode, hcheck⟩ := unbind hcheck
  cases hcheck
  have hpayload := deref_eq_ok.mp hpayload
  have hload := wrap_eq_ok.mp hload
  rw [failIf_eq_ok, not_not] at hnonce
  rw [← hnonce] at hload
  rw [hpayload] at hvalid
  have hexecute := wrap_eq_ok.mp (orLeave_eq_ok.mp hexecute)
  have hstage := wrap_eq_ok.mp (orLeave_eq_ok.mp hstage)
  -- the call is under other keys
  have hcall : ∀ kind x, report o1 (metadataKey kind x) = report o (metadataKey kind x) := by
    intro kind x
    apply execute_report hexecute
    intro k heq
    exact hid p hpayload ⟨kind, (namespaced_eq_metadataKey_iff.mp heq.symm).1⟩
  have hbase := execute_overlay hexecute
  have hmeta : ∀ kind x, report o' (metadataKey kind x) =
      (lastWrite (metadataWrites p (receiptOf C tx p result)) (metadataKey kind x)).elim
        (report o (metadataKey kind x)) id := by
    intro kind x
    rw [LawfulStore.report_apply _ hstage, hcall]
    exact elim_readBack_eq_iff.mpr fun _ => rfl
  refine ⟨p, hpayload, wrap_eq_ok.mp hvalid, (apply_overlay hstage).1.trans hbase.1,
    fun hnone => (apply_overlay hstage).2 (hbase.2 hnone), hload, ?_, ?_, payloadCode_new hcode, ?_, ?_⟩
  · rw [signerNonceKey, hmeta, lastWrite_metadata]
    simp
  · intro signer hne
    rw [signerNonceKey, hmeta, lastWrite_metadata]
    simp [hne]
  · intro hdeploy
    rw [contractCodeKey, hmeta, lastWrite_metadata]
    simp [hdeploy]
  · intro id hne
    rw [contractCodeKey, hmeta, lastWrite_metadata]
    simp [hne]

/-! ### The payloads of a run -/

/-- The payloads of the contract transactions. -/
def executedTxs (txs : List Transaction) : List AVMPayload :=
  (txs.filter (·.isAVM)).filterMap (·.avm)

/-- The payloads a chain of blocks executes. -/
def executed (blocks : List Block) : List AVMPayload := blocks.flatMap fun b => executedTxs b.txs

def bySigner (signer : Bytes32) (es : List AVMPayload) : List AVMPayload :=
  es.filter (·.signer = signer)

theorem bySigner_concat (signer : Bytes32) (es : List AVMPayload) (p : AVMPayload) :
    bySigner signer (es ++ [p]) =
      if p.signer = signer then bySigner signer es ++ [p] else bySigner signer es := by
  unfold bySigner
  split_ifs <;> simp_all

/-- What is assumed of a payload. -/
structure Ordinary (p : AVMPayload) : Prop where
  id : (p.contractID.bytes).head? ≠ some 0xff
  nonce : p.nonce.toNat ≠ 2 ^ 64 - 1

theorem Ordinary.not_reserved (h : Ordinary p) : ¬ Reserved p.contractID := by
  rintro ⟨kind, hkind⟩
  apply h.id
  have htake := head?_take (l := p.contractID.bytes) (i := 7)
  rw [hkind] at htake
  exact htake.symm

/-- What a store says about the payloads executed so far: the nonces of every signer are `0, 1, …`,
the store has the next one, and what was deployed is there. -/
structure Books [Store S] (s : S) (es : List AVMPayload) : Prop where
  nonces : ∀ signer, (bySigner signer es).map (·.nonce.toNat) =
    range (bySigner signer es).length
  next : ∀ signer, (bySigner signer es).length < 2 ^ 64 ∧
    StoredNonce s signer (bySigner signer es).length
  codes : ∀ p ∈ es, p.action = .deployContract →
    p.code ≠ [] ∧ report s (contractCodeKey p.contractID) = some p.code

theorem Books.congr [Store S] {T : Type} [Store T] {t : T} (h : Books s es)
    (hsame : ∀ kind x, report s (metadataKey kind x) ≠ some [] →
      report t (metadataKey kind x) = report s (metadataKey kind x)) : Books t es := by
  refine ⟨h.nonces, fun signer => ⟨(h.next signer).1, ?_⟩, fun p hp hdeploy => ?_⟩
  · have hnext := (h.next signer).2
    unfold StoredNonce signerNonceKey at hnext ⊢
    rw [hsame .nonce signer, hnext]
    rw [hnext]
    split_ifs
    · exact nofun
    · intro hempty
      have hlength := congrArg length (Option.some.inj hempty)
      cases hlength
  · obtain ⟨hne, hcode⟩ := h.codes p hp hdeploy
    unfold contractCodeKey at hcode ⊢
    refine ⟨hne, ?_⟩
    rw [hsame .code p.contractID, hcode]
    rw [hcode]
    exact fun hempty => hne (Option.some.inj hempty)

theorem books_nil [Store S] (h : ∀ signer, report s (signerNonceKey signer) = none) :
    Books s [] where
  nonces _ := rfl
  next signer := ⟨Nat.two_pow_pos 64, h signer⟩
  codes _ hp := absurd hp not_mem_nil

theorem validate_code (h : AVMPayload.validate C (some p) = .ok ())
    (hdeploy : p.action = .deployContract) : p.code ≠ [] := by
  obtain ⟨⟨⟩, haction, -⟩ := unbind h
  unfold AVMPayload.validateAction at haction
  rw [hdeploy] at haction
  obtain ⟨⟨⟩, hlength, -⟩ := unbind haction
  rw [failIf_eq_ok, not_or] at hlength
  exact fun hnil => hlength.1 (congrArg length hnil)

/-- **Step lemma.** -/
theorem Books.prepared [Store S] (h : Books o es) (hp : Prepared C tx p o o')
    (hordinary : Ordinary p) : Books o' (es ++ [p]) := by
  obtain ⟨hsmall, hstored⟩ := h.next p.signer
  have hnonce : p.nonce.toNat = (bySigner p.signer es).length := hstored.load hsmall hp.load
  have hlast := hordinary.nonce
  refine ⟨fun signer => ?_, fun signer => ?_, fun q hq hdeploy => ?_⟩
  · rw [bySigner_concat]
    split_ifs with hsigner
    · subst hsigner
      rw [map_append, h.nonces, length_append, length_singleton, range_succ]
      exact congrArg _ (congrArg (fun n => [n]) hnonce)
    · exact h.nonces signer
  · rw [bySigner_concat]
    split_ifs with hsigner
    · subst hsigner
      rw [length_append, length_singleton]
      refine ⟨by omega, ?_⟩
      unfold StoredNonce
      rw [hp.nonce, ← hnonce]
      congr 2
    · refine ⟨(h.next signer).1, ?_⟩
      have hnext := (h.next signer).2
      unfold StoredNonce at hnext ⊢
      rw [hp.nonce_other signer (Ne.symm hsigner), hnext]
  · rcases mem_append.mp hq with hold | hnew
    · -- the payload does not deploy where there is code
      obtain ⟨hne, hcode⟩ := h.codes q hold hdeploy
      refine ⟨hne, ?_⟩
      rw [hp.code_other, hcode]
      rintro ⟨hdeploy', hid⟩
      have hnone := hp.code_new hdeploy'
      rw [← hid, hcode] at hnone
      cases hnone
    · obtain rfl := mem_singleton.mp hnew
      exact ⟨validate_code hp.valid hdeploy, hp.code hdeploy⟩

/-- **Run lemma** for the transactions of a block. -/
theorem Books.afterTxs [Store S] {txs : List Transaction} {i : Nat} {rs rs' : List Receipt}
    (hok : prepareTxs C W height i txs (o, rs) = .ok (o', rs'))
    (hordinary : ∀ p ∈ executedTxs txs, Ordinary p) (h : Books o es) (hkey : o.writes.get [] = none)
    :
    Books o' (es ++ executedTxs txs) ∧ o'.base = o.base ∧ o'.writes.get [] = none := by
  induction txs generalizing i o rs es with
  | nil =>
    cases hok
    rw [executedTxs, filter_nil, filterMap_nil, append_nil]
    exact ⟨h, rfl, hkey⟩
  | cons tx txs ih =>
    unfold Avm.prepareTxs at hok
    unfold executedTxs at hordinary ⊢
    split_ifs at hok with havm
    · rw [filter_cons_of_pos havm] at hordinary ⊢
      obtain ⟨⟨o1, receipt⟩, htx, hok⟩ := unbind hok
      have hid : ∀ p, tx.avm = some p → ¬ Reserved p.contractID := by
        intro p hpayload
        rw [filterMap_cons_some hpayload] at hordinary
        exact (hordinary p mem_cons_self).not_reserved
      obtain ⟨p, hp⟩ := prepareTx_spec htx hid
      rw [filterMap_cons_some hp.payload] at hordinary ⊢
      have hone := h.prepared hp (hordinary p mem_cons_self)
      obtain ⟨hbooks, hbase, hkey'⟩ :=
        ih hok (fun q hq => hordinary q (mem_cons_of_mem _ hq)) hone (hp.staged hkey)
      rw [append_assoc] at hbooks
      exact ⟨hbooks, hbase.trans hp.base_eq, hkey'⟩
    · rw [filter_cons_of_neg havm] at hordinary ⊢
      exact ih hok hordinary h hkey

/-! ### Chains of blocks -/

/-- A block is prepared on a store and its writes are applied. -/
def Extends [Store S] (C : Externals) (W : Wasm) (s : S) (b : Block) (s' : S) : Prop :=
  ∃ base prepared, prepareBlock C W s b = .ok (base, prepared) ∧
    Store.apply base prepared.writes = .ok s'

theorem prepareBlock_eq_ok [Store S] {base : S} {prepared : PreparedBlock}
    (h : prepareBlock C W s b = .ok (base, prepared)) :
    ∃ o rs, prepareTxs C W b.header.height 0 b.txs ({ base := s }, []) = .ok (o, rs) ∧
      base = o.base ∧ prepared.writes = o.ordered := by
  unfold prepareBlock at h
  split at h
  · cases h
  · rename_i o rs htxs
    cases h
    exact ⟨o, rs, htxs, rfl, rfl⟩

theorem books_overlay [Store S] (h : Books s es) : Books ({ base := s } : OverlayStore S) es :=
  h.congr fun _ _ _ => report_overlay _ _

theorem Books.extends [LawfulStore S] {s' : S} (h : Books s es) (hext : Extends C W s b s')
    (hordinary : ∀ p ∈ executedTxs b.txs, Ordinary p) : Books s' (es ++ executedTxs b.txs) := by
  obtain ⟨base, prepared, hprepare, happly⟩ := hext
  obtain ⟨o, rs, htxs, rfl, hwrites⟩ := prepareBlock_eq_ok hprepare
  obtain ⟨hbooks, -, -⟩ := Books.afterTxs htxs hordinary (books_overlay h) rfl
  rw [hwrites] at happly
  refine hbooks.congr fun kind x hne => ?_
  rw [report_apply_ordered happly, report_overlay, elim_readBack_eq_iff]
  intro hempty
  rw [report_overlay, hempty] at hne
  exact absurd rfl hne

/-! ### The base -/

/-- The store of an outcome. -/
def storeOf {σ α : Type} : Except (σ × Fault) (σ × α) → σ
  | .ok (s, _) => s
  | .error (s, _) => s

theorem prepareTx_base [Store S] (C : Externals) (W : Wasm) (height i : Nat) (tx : Transaction)
    (o : OverlayStore S) : (storeOf (prepareTx C W height i tx o)).base = o.base := by
  cases h : prepareTx C W height i tx o with
  | error left =>
    show left.1.base = o.base
    rcases bind_eq_error.mp h with h | ⟨⟨p, code⟩, -, h⟩
    · rw [(orLeave_eq_error.mp h).2]
    rcases bind_eq_error.mp h with h | ⟨⟨result, o1⟩, hexecute, h⟩
    · rw [(orLeave_eq_error.mp h).2]
    have hbase := (execute_overlay (wrap_eq_ok.mp (orLeave_eq_ok.mp hexecute))).1
    rcases bind_eq_error.mp h with h | ⟨o2, -, h⟩
    · rw [(orLeave_eq_error.mp h).2]
      exact hbase
    · cases h
  | ok left =>
    obtain ⟨⟨p, code⟩, -, h⟩ := unbind h
    obtain ⟨⟨result, o1⟩, hexecute, h⟩ := unbind h
    obtain ⟨o2, hstage, h⟩ := unbind h
    cases h
    have hbase := (execute_overlay (wrap_eq_ok.mp (orLeave_eq_ok.mp hexecute))).1
    exact (apply_overlay (wrap_eq_ok.mp (orLeave_eq_ok.mp hstage))).1.trans hbase

theorem prepareTxs_base [Store S] (C : Externals) (W : Wasm) (height i : Nat)
    (txs : List Transaction) (s : OverlayStore S × List Receipt) :
    (storeOf (prepareTxs C W height i txs s)).base = s.1.base := by
  induction txs generalizing i s with
  | nil => rfl
  | cons tx txs ih =>
    unfold prepareTxs
    split_ifs
    · have htx := prepareTx_base C W height i tx s.1
      cases h : prepareTx C W height i tx s.1 with
      | error left =>
        rw [h] at htx
        exact htx
      | ok left =>
        rw [h] at htx
        exact (ih _ _).trans htx
    · exact ih _ _

theorem prepareBlock_base [Store S] (s : S) (b : Block) : storeOf (prepareBlock C W s b) = s := by
  have h := prepareTxs_base C W b.header.height 0 b.txs (({ base := s } : OverlayStore S), [])
  unfold prepareBlock
  split <;> rename_i heq <;> rw [heq] at h <;> exact h

/-- On every chain that starts without nonces, the payloads of each signer have the nonces
`0, 1, 2, …`, no payload is executed twice and everything that was deployed is still there; and
preparing a block, whether it fails or not, leaves the base as it is. -/
theorem avm_replay_safe [LawfulStore S] {s0 s : S} {blocks : List Block}
    (hfresh : ∀ signer, report s0 (signerNonceKey signer) = none)
    (hrun : Run (Extends C W) s0 blocks s)
    (hids : ∀ p ∈ executed blocks, (p.contractID.bytes).head? ≠ some 0xff)
    (hmax : ∀ p ∈ executed blocks, p.nonce.toNat ≠ 2 ^ 64 - 1) :
    (∀ signer, (bySigner signer (executed blocks)).map (·.nonce.toNat) =
        range (bySigner signer (executed blocks)).length) ∧
      (executed blocks).Nodup ∧
      (∀ p ∈ executed blocks, p.action = .deployContract →
        report s (contractCodeKey p.contractID) = some p.code) ∧
      ∀ b base err, prepareBlock C W s b = .error (base, err) → base = s := by
  have hbooks : Books s (executed blocks) := by
    refine hrun.history (fun past a => Books a (executed past)) ?_ ?_
    · intro past a b a' hb hpast hext
      rw [executed, flatMap_append, flatMap_singleton]
      refine hpast.extends hext fun p hp => ?_
      have hmem : p ∈ executed blocks := mem_flatMap.mpr ⟨b, hb, hp⟩
      exact ⟨hids p hmem, hmax p hmem⟩
    · exact books_nil hfresh
  refine ⟨hbooks.nonces, ?_, fun p hp hdeploy => (hbooks.codes p hp hdeploy).2, ?_⟩
  · -- a payload that stands twice has one nonce twice among those of its signer
    rw [nodup_iff_count_le_one]
    intro p
    have hrange : ((bySigner p.signer (executed blocks)).map (·.nonce.toNat)).Nodup := by
      rw [hbooks.nonces]
      exact nodup_range
    have hcount := nodup_iff_count_le_one.mp hrange.of_map p
    rwa [bySigner, count_filter (by simp)] at hcount
  · intro b base err h
    have hbase := prepareBlock_base (C := C) (W := W) s b
    rw [h] at hbase
    exact hbase

theorem Books.exists_extends [LawfulStore S] (h : Books s es)
    (hok : (prepareTxs C W b.header.height 0 b.txs (({ base := s } : OverlayStore S), [])).isOk)
    (hordinary : ∀ p ∈ executedTxs b.txs, Ordinary p) : ∃ s', Extends C W s b s' := by
  cases htxs : prepareTxs C W b.header.height 0 b.txs (({ base := s } : OverlayStore S), []) with
  | error left =>
    rw [htxs] at hok
    cases hok
  | ok r =>
    obtain ⟨-, -, hkey⟩ := Books.afterTxs htxs hordinary (books_overlay h) rfl
    obtain ⟨s', happly⟩ := exists_apply_ordered hkey
    have hprepare : prepareBlock C W s b = .ok (r.1.base, ⟨b.header.height, b.hash C, r.2,
        r.1.ordered, hashWrites C r.1.ordered⟩) := by
      unfold prepareBlock
      rw [htxs]
    exact ⟨s', _, _, hprepare, happly⟩

/-- A module that returns at once. -/
def idleWasm : Wasm where
  validateModule _ := .ok 100
  instantiate _ _ := .ok .done

def deployment : AVMPayload where
  action := .deployContract
  contractID := deriveAVMContractID hashing 1 0 [7]
  code := [7]
  entry := [0x72]
  calldata := []
  gasLimit := 1000
  nonce := 0
  signer := 1
  signature := 0
  accessList := []

def firstCall : AVMPayload := { deployment with action := .executeContract, code := [], nonce := 1 }

def deployingBlock : Block where
  header := { height := 1 }
  txs := [{ version := .avm, avm := some deployment }, { version := .avm, avm := some firstCall }]

theorem deployed_code_stays : ∃ s : MemoryStore, Run (Extends hashing idleWasm) {} [deployingBlock] s ∧
    executed [deployingBlock] = [deployment, firstCall] ∧
    report s (contractCodeKey deployment.contractID) = some [7] := by
  have hfresh : ∀ signer, report ({} : MemoryStore) (signerNonceKey signer) = none := fun _ => rfl
  have hexecuted : executed [deployingBlock] = [deployment, firstCall] := rfl
  have hids : ∀ p ∈ executed [deployingBlock], (p.contractID.bytes).head? ≠ some 0xff := by
    decide +kernel
  have hmax : ∀ p ∈ executed [deployingBlock], p.nonce.toNat ≠ 2 ^ 64 - 1 := by decide +kernel
  obtain ⟨s, hext⟩ := (books_nil hfresh).exists_extends (C := hashing) (W := idleWasm) (b := deployingBlock)
    (by decide +kernel) fun p hp => ⟨hids p hp, hmax p hp⟩
  have hrun := Run.cons hext (.nil s)
  obtain ⟨-, -, hcodes, -⟩ := avm_replay_safe hfresh hrun hids hmax
  exact ⟨s, hrun, hexecuted, hcodes deployment mem_cons_self rfl⟩

end Aperod.Avm
