import Aperod.Avm.BlockExecutor
import Aperod.Avm.Equiv.Stores
import Aperod.Core.Equiv.Merkle

/-!
# Contract isolation

The key of contract state is the identifier, a slash and the contract's own key; code, nonces and
receipts have a seven-byte prefix and an identifier.  Two contracts never meet
(`namespaced_eq_iff`).  A contract meets the metadata only if its identifier starts with one of the
three prefixes (`namespaced_eq_metadataKey_iff`).

A call reads and writes only keys with its own identifier in front: it runs alike on stores that agree
on them (`executeSession_rebase`), and leaves all others alone (`executeSession_confined`).
-/

namespace Aperod.Avm

open Go Session List

variable {S T : Type} {id id' : Hash32} {key key' : Bytes} {kind kind' : Metadata} {x x' : Bytes32}
variable {c : Contract} {result : ExecutionResult}

/-! ### Keys -/

theorem namespaced_eq_iff : namespaced id key = namespaced id' key' ↔ id = id' ∧ key = key' := by
  unfold namespaced
  constructor
  · intro h
    rw [append_assoc, append_assoc] at h
    obtain ⟨hid, hkey⟩ := append_inj h (by simp)
    exact ⟨Bytes32.bytes_injective hid, by simpa using hkey⟩
  · rintro ⟨rfl, rfl⟩
    rfl

theorem metadataKey_eq_iff : metadataKey kind x = metadataKey kind' x' ↔ kind = kind' ∧ x = x' := by
  constructor
  · intro h
    obtain ⟨hkind, hx⟩ := append_inj h rfl
    refine ⟨?_, Bytes32.bytes_injective hx⟩
    revert hkind
    cases kind <;> cases kind' <;> decide
  · rintro ⟨rfl, rfl⟩
    rfl

/-- The identifier starts like the keys of the metadata. -/
def Reserved (id : Hash32) : Prop := ∃ kind : Metadata, (id.bytes).take 7 = kind.bytes

/-- The one way in which state and metadata can have the same key. -/
theorem namespaced_eq_metadataKey_iff : namespaced id key = metadataKey kind x ↔
    (id.bytes).take 7 = kind.bytes ∧
      x.bytes = (id.bytes).drop 7 ++ [0x2f] ++ key := by
  have hsplit : namespaced id key =
      (id.bytes).take 7 ++ ((id.bytes).drop 7 ++ [0x2f] ++ key) := by
    rfl
  have hlength : ((id.bytes).take 7).length = kind.bytes.length := by
    simp [Metadata.bytes]
  rw [hsplit, metadataKey]
  constructor
  · intro h
    obtain ⟨htake, hrest⟩ := append_inj h hlength
    exact ⟨htake, hrest.symm⟩
  · rintro ⟨htake, hrest⟩
    rw [htake, hrest]

/-- An identifier meets the metadata under some key it may declare exactly if it is reserved. -/
theorem exists_metadataKey_iff : (∃ key kind x, 1 ≤ key.length ∧ key.length ≤ maxStateKeySize ∧
    namespaced id key = metadataKey kind x) ↔ Reserved id := by
  constructor
  · rintro ⟨key, kind, x, -, -, h⟩
    exact ⟨kind, (namespaced_eq_metadataKey_iff.mp h).1⟩
  · rintro ⟨kind, hkind⟩
    -- six bytes after the slash complete an identifier
    have hlength : ((id.bytes).drop 7 ++ [0x2f] ++ replicate 6 0).length = 32 := by
      simp
    refine ⟨replicate 6 0, kind,
      bytesArray 32 ((id.bytes).drop 7 ++ [0x2f] ++ replicate 6 0), by decide, by decide,
      namespaced_eq_metadataKey_iff.mpr ⟨hkind, ?_⟩⟩
    exact arrayBytes_bytesArray hlength

/-! ### Host calls -/

section Host

variable [Store S] [Store T] {r : ExecutionRequest} {access : GoMap Bytes Bool} {base : S} {t : T}
  {s s' : Session S} {amount : UInt64} {keyLen valueLen outCap length : UInt32}
  {bytes value output : Option Bytes} {room : Nat → Bool}

/-- A session of the contract `id` over `base`: its writes have the identifier in front. -/
structure Session.Of (base : S) (id : Hash32) (s : Session S) : Prop where
  base_eq : s.state.base = base
  id_eq : s.state.contractID = id
  writes : ∀ key v, s.state.writes.get key = some v → ∃ k, key = namespaced id k

/-- The same session over another store. -/
def Session.rebase (s : Session S) (t : T) : Session T :=
  { state := ⟨t, s.state.contractID, s.state.writes⟩, gasUsed := s.gasUsed, output := s.output }

omit [Store S] in
theorem Session.Of.charge (h : s.Of base id) (hcall : s.charge r amount = .ok s') :
    s'.Of base id := by
  replace hcall := past hcall
  cases hcall
  exact ⟨h.base_eq, h.id_eq, h.writes⟩

theorem Session.Of.stateRead {found : Option Bytes} (h : s.Of base id)
    (hcall : s.stateRead r access keyLen bytes outCap room = .ok (s', found)) : s'.Of base id := by
  obtain ⟨s1, hcharge, hcall⟩ := unbind hcall
  obtain ⟨k, -, hcall⟩ := unbind hcall
  replace hcall := past hcall
  replace hcall := past hcall
  obtain ⟨v, -, hcall⟩ := unbind hcall
  have h1 := h.charge hcharge
  cases v with
  | none =>
    cases hcall
    exact h1
  | some v =>
    replace hcall := past hcall
    cases hcall
    exact h1

omit [Store S] in
theorem Session.Of.stateWrite (h : s.Of base id)
    (hcall : s.stateWrite r access keyLen valueLen bytes value = .ok s') : s'.Of base id := by
  obtain ⟨s1, hcharge, hcall⟩ := unbind hcall
  replace hcall := past hcall
  obtain ⟨k, -, hcall⟩ := unbind hcall
  obtain ⟨v, -, hcall⟩ := unbind hcall
  replace hcall := past hcall
  replace hcall := past hcall
  cases hcall
  have h1 := h.charge hcharge
  refine ⟨h1.base_eq, h1.id_eq, ?_⟩
  intro key w hget
  have hget : (s1.state.writes.set (namespaced s1.state.contractID k) (some v)).get key = some w := hget
  rw [GoMap.get_set, h1.id_eq] at hget
  split_ifs at hget with heq
  · exact ⟨k, heq⟩
  · exact h1.writes key w hget

omit [Store S] in
theorem Session.Of.inputRead (h : s.Of base id) (hcall : s.inputRead r outCap room = .ok s') :
    s'.Of base id := by
  obtain ⟨s1, hcharge, hcall⟩ := unbind hcall
  replace hcall := past hcall
  cases hcall
  exact h.charge hcharge

omit [Store S] in
theorem Session.Of.outputWrite (h : s.Of base id) (hcall : s.outputWrite r length output = .ok s') :
    s'.Of base id := by
  obtain ⟨s1, hcharge, hcall⟩ := unbind hcall
  replace hcall := past hcall
  obtain ⟨out, -, hcall⟩ := unbind hcall
  cases hcall
  have h1 := h.charge hcharge
  exact ⟨h1.base_eq, h1.id_eq, h1.writes⟩

theorem Session.Of.run (h : s.Of base id) (hrun : c.run r access s = .ok s') :
    s'.Of base id := by
  induction c generalizing s with
  | done =>
    cases hrun
    exact h
  | trap msg => cases hrun
  | consumeGas amount next ih =>
    obtain ⟨s1, hcall, hrun⟩ := unbind hrun
    exact ih (h.charge hcall) hrun
  | stateRead keyLen key outCap room next ih =>
    obtain ⟨⟨s1, found⟩, hcall, hrun⟩ := unbind hrun
    exact ih found (h.stateRead hcall) hrun
  | stateWrite keyLen valueLen key value next ih =>
    obtain ⟨s1, hcall, hrun⟩ := unbind hrun
    exact ih (h.stateWrite hcall) hrun
  | inputRead outCap room next ih =>
    obtain ⟨s1, hcall, hrun⟩ := unbind hrun
    exact ih r.input (h.inputRead hcall) hrun
  | outputWrite length output next ih =>
    obtain ⟨s1, hcall, hrun⟩ := unbind hrun
    exact ih (h.outputWrite hcall) hrun

/-! ### The same call over another store -/

omit [Store S] [Store T] in
theorem charge_rebase (s : Session S) (t : T) :
    (s.rebase t).charge r amount = (s.charge r amount).map (·.rebase t) := by
  unfold charge
  rw [map_bind_eq]
  rfl

/-- Two stores have the same under the keys of a contract. -/
def AgreeOn (id : Hash32) (base : S) (t : T) : Prop :=
  ∀ k, Store.get base (namespaced id k) = Store.get t (namespaced id k)

theorem get_rebase (h : s.Of base id) (hagree : AgreeOn id base t) (key : Bytes) :
    (s.rebase t).state.get key = s.state.get key := by
  have hbase : Store.get (s.rebase t).state.base (namespaced s.state.contractID key) =
      Store.get s.state.base (namespaced s.state.contractID key) := by
    rw [h.base_eq, h.id_eq, hagree key]
    rfl
  have hid : (s.rebase t).state.contractID = s.state.contractID := rfl
  have hwrites : (s.rebase t).state.writes = s.state.writes := rfl
  unfold TransactionState.get
  rw [hid, hwrites, hbase]

theorem stateRead_rebase (h : s.Of base id) (hagree : AgreeOn id base t) :
    (s.rebase t).stateRead r access keyLen bytes outCap room =
      (s.stateRead r access keyLen bytes outCap room).map fun p => (p.1.rebase t, p.2) := by
  unfold stateRead
  rw [charge_rebase, bind_map_eq, map_bind_eq]
  refine bind_congr_ok fun s1 hs1 => ?_
  rw [map_bind_eq]
  refine bind_congr_ok fun k _ => ?_
  rw [map_bind_eq]
  refine bind_congr_ok fun _ _ => ?_
  rw [map_bind_eq]
  refine bind_congr_ok fun _ _ => ?_
  rw [get_rebase (h.charge hs1) hagree, map_bind_eq]
  refine bind_congr_ok fun found _ => ?_
  cases found with
  | none => rfl
  | some v =>
    rw [map_bind_eq]
    rfl

omit [Store S] [Store T] in
theorem stateWrite_rebase (s : Session S) (t : T) :
    (s.rebase t).stateWrite r access keyLen valueLen bytes value =
      (s.stateWrite r access keyLen valueLen bytes value).map (·.rebase t) := by
  unfold stateWrite
  rw [charge_rebase, bind_map_eq, map_bind_eq]
  refine bind_congr_ok fun s1 _ => ?_
  rw [map_bind_eq]
  refine bind_congr_ok fun _ _ => ?_
  rw [map_bind_eq]
  refine bind_congr_ok fun k _ => ?_
  rw [map_bind_eq]
  refine bind_congr_ok fun v _ => ?_
  rw [map_bind_eq]
  refine bind_congr_ok fun _ _ => ?_
  rw [map_bind_eq]
  rfl

omit [Store S] [Store T] in
theorem inputRead_rebase (s : Session S) (t : T) :
    (s.rebase t).inputRead r outCap room = (s.inputRead r outCap room).map (·.rebase t) := by
  unfold inputRead
  rw [charge_rebase, bind_map_eq, map_bind_eq]
  refine bind_congr_ok fun s1 _ => ?_
  rw [map_bind_eq]
  rfl

omit [Store S] [Store T] in
theorem outputWrite_rebase (s : Session S) (t : T) :
    (s.rebase t).outputWrite r length output = (s.outputWrite r length output).map (·.rebase t) := by
  unfold outputWrite
  rw [charge_rebase, bind_map_eq, map_bind_eq]
  refine bind_congr_ok fun s1 _ => ?_
  rw [map_bind_eq]
  refine bind_congr_ok fun _ _ => ?_
  rw [map_bind_eq]
  rfl

theorem run_rebase (h : s.Of base id) (hagree : AgreeOn id base t) :
    c.run r access (s.rebase t) = (c.run r access s).map (·.rebase t) := by
  induction c generalizing s with
  | done => rfl
  | trap msg => rfl
  | consumeGas amount next ih =>
    unfold Contract.run
    rw [charge_rebase, bind_map_eq, map_bind_eq]
    exact bind_congr_ok fun s1 hcall => ih (h.charge hcall)
  | stateRead keyLen key outCap room next ih =>
    unfold Contract.run
    rw [stateRead_rebase h hagree, bind_map_eq, map_bind_eq]
    exact bind_congr_ok fun p hcall => ih p.2 (h.stateRead hcall)
  | stateWrite keyLen valueLen key value next ih =>
    unfold Contract.run
    rw [stateWrite_rebase, bind_map_eq, map_bind_eq]
    exact bind_congr_ok fun s1 hcall => ih (h.stateWrite hcall)
  | inputRead outCap room next ih =>
    unfold Contract.run
    rw [inputRead_rebase, bind_map_eq, map_bind_eq]
    exact bind_congr_ok fun s1 hcall => ih r.input (h.inputRead hcall)
  | outputWrite length output next ih =>
    unfold Contract.run
    rw [outputWrite_rebase, bind_map_eq, map_bind_eq]
    exact bind_congr_ok fun s1 hcall => ih (h.outputWrite hcall)

end Host

/-! ### Execution -/

section Execute

variable [Store S] [Store T] {W : Wasm} {r : ExecutionRequest} {s : S} {t : T} {session : Session S}

omit [Store S] in
theorem Session.of_start (s : S) (id : Hash32) :
    Session.Of s id { state := { base := s, contractID := id } } := by
  refine ⟨rfl, rfl, ?_⟩
  intro key v hget
  cases hget

theorem executeSession_confined (h : executeSession W s r = .ok session) :
    session.Of s r.contractID := by
  replace h := past h
  obtain ⟨gas, -, h⟩ := unbind h
  obtain ⟨access, -, h⟩ := unbind h
  obtain ⟨charged, hcharge, h⟩ := unbind h
  obtain ⟨contract, -, h⟩ := unbind h
  exact ((of_start s r.contractID).charge hcharge).run h

theorem executeSession_rebase (hagree : AgreeOn r.contractID s t) :
    executeSession W t r = (executeSession W s r).map (·.rebase t) := by
  have hstart := of_start s r.contractID
  unfold executeSession
  rw [map_bind_eq]
  refine bind_congr_ok fun _ _ => ?_
  rw [map_bind_eq]
  refine bind_congr_ok fun gas _ => ?_
  rw [map_bind_eq]
  refine bind_congr_ok fun access _ => ?_
  rw [map_bind_eq]
  -- the session over `t` starts as the one over `s`
  show charge (rebase { state := { base := s, contractID := r.contractID } } t) _ _
    >>= _ = _
  rw [charge_rebase, bind_map_eq]
  refine bind_congr_ok fun charged hcharge => ?_
  rw [map_bind_eq]
  refine bind_congr_ok fun contract _ => ?_
  exact run_rebase (hstart.charge hcharge) hagree

/-- What a call that succeeds returns, and what it writes. -/
theorem execute_eq_ok {s' : S} (h : execute W s r = .ok (result, s')) :
    ∃ session, executeSession W s r = .ok session ∧
      result = ⟨session.gasUsed, session.output, (orderedWrites session.state.writes).length⟩ ∧
      (s' = s ∨ Store.apply s (orderedWrites session.state.writes) = .ok s') := by
  obtain ⟨session, hsession, h⟩ := unbind h
  split_ifs at h with hread
  · replace h := past h
    cases h
    exact ⟨session, hsession, rfl, Or.inl rfl⟩
  · obtain ⟨s1, happly, h⟩ := unbind h
    cases h
    exact ⟨session, hsession, rfl, Or.inr (wrap_eq_ok.mp happly)⟩

end Execute

variable {W : Wasm} {r : ExecutionRequest}

theorem execute_report [LawfulStore S] {s s' : S}
    (h : execute W s r = .ok (result, s')) (hkey : ∀ k, key ≠ namespaced r.contractID k) :
    report s' key = report s key := by
  obtain ⟨session, hsession, -, rfl | happly⟩ := execute_eq_ok h
  · rfl
  · have hnone : session.state.writes.get key = none := by
      cases hget : session.state.writes.get key with
      | none => rfl
      | some v =>
        obtain ⟨k, hk⟩ := (executeSession_confined hsession).writes key v hget
        exact absurd hk (hkey k)
    rw [LawfulStore.report_apply key happly, lastWrite_orderedWrites, hnone]
    rfl

/-- Gas, output and writes of a call. -/
def Session.outcome (s : Session S) : UInt64 × Bytes × GoMap Bytes (Option Bytes) :=
  (s.gasUsed, s.output, s.state.writes)

/-- **Contract isolation.**  The keys of two contracts are different, for all identifiers.  The keys
of a contract are different from all metadata if and only if its identifier is not reserved.  Then a
call changes nothing of another contract and no metadata, and what it returns and writes does not
depend on them. -/
theorem contract_isolation [LawfulStore S] [LawfulStore T] (W : Wasm) (r : ExecutionRequest) :
    (∀ id' key key', id' ≠ r.contractID → namespaced r.contractID key ≠ namespaced id' key') ∧
    ((∀ key kind x, 1 ≤ key.length → key.length ≤ maxStateKeySize →
        namespaced r.contractID key ≠ metadataKey kind x) ↔ ¬ Reserved r.contractID) ∧
    (¬ Reserved r.contractID → ∀ (s s' : S) result, execute W s r = .ok (result, s') →
      (∀ id' key, id' ≠ r.contractID → report s' (namespaced id' key) = report s (namespaced id' key)) ∧
      ∀ kind x, report s' (metadataKey kind x) = report s (metadataKey kind x)) ∧
    ∀ (s : S) (t : T), AgreeOn r.contractID s t →
      (executeSession W s r).map outcome = (executeSession W t r).map outcome := by
  refine ⟨?_, ?_, ?_, ?_⟩
  · intro id' key key' hne heq
    exact hne (namespaced_eq_iff.mp heq).1.symm
  · rw [← exists_metadataKey_iff]
    constructor
    · rintro h ⟨key, kind, x, hpos, hmax, heq⟩
      exact h key kind x hpos hmax heq
    · intro h key kind x hpos hmax heq
      exact h ⟨key, kind, x, hpos, hmax, heq⟩
  · intro hid s s' result hexecute
    constructor
    · intro id' key hne
      apply execute_report hexecute
      intro k heq
      exact hne (namespaced_eq_iff.mp heq).1
    · intro kind x
      apply execute_report hexecute
      intro k heq
      exact hid ⟨kind, (namespaced_eq_metadataKey_iff.mp heq.symm).1⟩
  · intro s t hagree
    rw [executeSession_rebase hagree]
    cases executeSession W s r <;> rfl

/-- A module that writes one byte under `000000`. -/
def writingWasm : Wasm where
  validateModule _ := .ok 100
  instantiate _ _ := .ok (.stateWrite 6 1 (some (replicate 6 0)) (some [1]) .done)

/-- The identifier of a contract that starts like the nonce of a signer. -/
def nonceLikeID : Hash32 := bytesArray 32 (Metadata.nonce.bytes ++ replicate 25 9)

/-- A signer whose nonce lies in the namespace of that contract. -/
def sharedSigner : Bytes32 := bytesArray 32 (replicate 25 9 ++ [0x2f] ++ replicate 6 0)

/-- The call of that contract. -/
def nonceLikeRequest : ExecutionRequest where
  contractID := nonceLikeID
  code := [0]
  entry := [1]
  input := []
  gasLimit := 1000
  accessList := [(replicate 6 0, true)]

/-- A store in which the next nonce of the signer is 5. -/
def nonceStore : MemoryStore :=
  { data := GoMap.set ∅ (signerNonceKey sharedSigner) (encodeNonce 5) }

/-- The state of the contract and the nonce of the signer have the same key, and the call changes the
nonce. -/
theorem contract_writes_nonce :
    namespaced nonceLikeID (replicate 6 0) = signerNonceKey sharedSigner ∧
    report nonceStore (signerNonceKey sharedSigner) = some (encodeNonce 5) ∧
    ∃ x, execute writingWasm nonceStore nonceLikeRequest = .ok x ∧
      report x.2 (signerNonceKey sharedSigner) = some [1] := by
  refine ⟨by decide +kernel, by decide +kernel, ?_⟩
  exact exists_ok_of_test (by decide +kernel)

end Aperod.Avm
