import Aperod.Consensus.Durable
import Aperod.Consensus.Equiv.Finality

/-!
# Does a restart accept the node's own certificate?

The votes of a certificate were valid when they were recorded, and its block is on the canonical
chain.  At a restart the voters are compared with the committee of the chain tip, not with the one
they belonged to when they voted.  `certificates_share_signers` compares the certificates of two nodes.
-/

namespace Aperod

open Go GoMap Finality Engine

variable {C : Externals} {S : Type} {V : Services S}
variable {msg : String} {d : BlockStore} {members : List ValidatorPubKey}
  {votes : List (ValidatorPubKey × Bytes)} {verify : ValidatorPubKey → Bytes → Bool}

/-! ### Counting signers -/

theorem countSigners_loop (hnodup : (votes.map Prod.fst).Nodup) :
    ∀ {i : Nat} {seen seen' : List ValidatorPubKey}, (∀ pub ∈ seen, pub ∉ votes.map Prod.fst) →
      (loop (fun _ (vote : ValidatorPubKey × Bytes) seen => do
          failIf (vote.1 ∉ members ∨ vote.1 ∈ seen ∨ verify vote.1 vote.2 = false) msg
          .ok (vote.1 :: seen)) i votes seen = .ok seen' ↔
        (∀ vote ∈ votes, vote.1 ∈ members ∧ verify vote.1 vote.2 = true) ∧
          seen' = (votes.map Prod.fst).reverse ++ seen) := by
  induction votes with
  | nil =>
    intro i seen seen' _
    rw [loop_nil, Except.ok.injEq]
    constructor
    · rintro rfl
      exact ⟨nofun, rfl⟩
    · rintro ⟨-, rfl⟩
      rfl
  | cons vote votes ih =>
    intro i seen seen' hseen
    rw [List.map_cons, List.nodup_cons] at hnodup
    have hnew : vote.1 ∉ seen := fun hmem => hseen _ hmem (by simp)
    have hrest : ∀ pub ∈ vote.1 :: seen, pub ∉ votes.map Prod.fst := by
      intro pub hpub
      rcases List.mem_cons.mp hpub with rfl | hold
      · exact hnodup.1
      · intro hmem
        exact hseen pub hold (List.mem_cons_of_mem _ hmem)
    rw [loop_cons_eq_ok]
    simp only [bind_eq_ok, failIf_eq_ok, hnew, false_or, not_or, not_not, Bool.not_eq_false,
      Except.ok.injEq]
    constructor
    · rintro ⟨s, ⟨-, hvote, rfl⟩, hloop⟩
      obtain ⟨hall, rfl⟩ := (ih hnodup.2 hrest).mp hloop
      refine ⟨fun v hv => ?_, by simp⟩
      rcases List.mem_cons.mp hv with rfl | hv
      · exact hvote
      · exact hall v hv
    · rintro ⟨hall, rfl⟩
      refine ⟨_, ⟨(), hall vote List.mem_cons_self, rfl⟩, (ih hnodup.2 hrest).mpr ⟨?_, by simp⟩⟩
      exact fun v hv => hall v (List.mem_cons_of_mem _ hv)

theorem countSigners_eq_ok {seen : List ValidatorPubKey}
    (hnodup : (votes.map Prod.fst).Nodup) : countSigners members verify msg votes = .ok seen ↔
      (∀ vote ∈ votes, vote.1 ∈ members ∧ verify vote.1 vote.2 = true) ∧
        seen = (votes.map Prod.fst).reverse := by
  unfold countSigners
  rw [countSigners_loop hnodup (by simp), List.append_nil]

theorem countSigners_sound {seen : List ValidatorPubKey}
    (h : countSigners members verify msg votes = .ok seen) :
    seen.Nodup ∧ ∀ pub ∈ seen, pub ∈ members ∧ ∃ sig, verify pub sig = true := by
  refine loop_invariant (fun seen => seen.Nodup ∧ ∀ pub ∈ seen, pub ∈ members ∧
    ∃ sig, verify pub sig = true) ?_ h (by simp)
  intro _ vote seen _ _ ⟨hnodup, hall⟩ hvote
  obtain ⟨⟨⟩, hcheck, ⟨⟩⟩ := unbind hvote
  simp only [failIf_eq_ok, not_or, not_not, Bool.not_eq_false] at hcheck
  exact ⟨hnodup.cons hcheck.2.1, List.forall_mem_cons.mpr ⟨⟨hcheck.1, _, hcheck.2.2⟩, hall⟩⟩

/-! ### What one vote does -/

namespace Finality

variable {f f' : Finality} {x : VoteContext} {vote : FinalizeMsg}

/-- A new certificate is of the vote's block and holds the votes recorded for it. -/
theorem countVote_certificate {c : FinalityCertificate}
    (hcert : (f.countVote x vote).2.certificate = some c) :
    f.certificate = some c ∨
      c = ⟨vote.height, vote.blockHash, (f.record vote).votesFor vote.blockHash⟩ := by
  rcases countVote_cases f x vote with heq | heq | heq | ⟨-, f', hfin, heq⟩
  all_goals rw [heq] at hcert
  · exact .inl hcert
  · exact .inl hcert
  · rw [prune_certificate] at hcert
    exact .inl hcert
  · rw [prune_certificate] at hcert
    obtain ⟨_, _, rfl, rfl | rfl⟩ := finalize_eq_ok hfin
    · exact .inl hcert
    · exact .inr (Option.some.inj hcert).symm

end Finality

/-! ### The invariant -/

/-- A canonical block of the store. -/
structure BlockStore.Holds (C : Externals) (d : BlockStore) (h : Hash32) (b : Block) : Prop where
  body : d.rawBlocks.get h = some b
  hash : b.hash C = h
  index : d.heightIndex.get b.header.height = some h
  below : b.header.height ≤ d.tip.2

structure StoresChain (C : Externals) (e : Engine S) (d : BlockStore) : Prop where
  tip : ∃ tip, e.chain.tip = some tip ∧ d.tip = (tip.hash C, tip.header.height) ∧
    d.heightIndex.get tip.header.height = some (tip.hash C)
  bounded : d.tip.2 ≤ maxUint64
  chain : ∀ n b, e.chain.getByHeight n = some b → b.header.height = n → d.Holds C (b.hash C) b

/-- The recorded votes and the certificate are valid votes for blocks of the store. -/
structure CertificateBacked (C : Externals) (e : Engine S) (d : BlockStore) : Prop
    extends StoresChain C e d where
  votes : ∀ h pub sig, (e.finality.votesFor h).get pub = some sig → ∃ b, d.Holds C h b ∧
    FinalizeMsg.authentic C e.cfg.validatorAuthorityFork ⟨h, b.header.height, pub, sig⟩
  certificate : ∀ c, e.finality.certificate = some c → ∃ b, d.Holds C c.blockHash b ∧
    b.header.height = c.height ∧ ∀ pub sig, c.votes.get pub = some sig →
      FinalizeMsg.authentic C e.cfg.validatorAuthorityFork ⟨c.blockHash, c.height, pub, sig⟩

/-- One step of a node with its store: an accepted block is committed. -/
def StoredStep (C : Externals) (V : Services S) (s : Engine S × BlockStore) (event : NodeEvent)
    (s' : Engine S × BlockStore) : Prop :=
  NodeStep C V s.1 event s'.1 ∧ s'.2 =
    match event with
    | .accept b => s.2.commitRawBlock C b
    | _ => s.2

theorem StoredStep.vote {e : Engine S} {vote : FinalizeMsg} :
    StoredStep C V (e, d) (.vote vote) (e.deliver C vote, d) := ⟨.vote, rfl⟩

theorem StoredStep.accept {e e' : Engine S} {b : Block}
    (h : NodeStep C V e (.accept b) e') :
    StoredStep C V (e, d) (.accept b) (e', d.commitRawBlock C b) := ⟨h, rfl⟩

namespace CertificateBacked

variable {e e' : Engine S} {b : Block} {vote : FinalizeMsg}

theorem deliver (h : CertificateBacked C e d) (vote : FinalizeMsg) :
    CertificateBacked C (e.deliver C vote) d := by
  have hrecord : Finality.Names C e.voteContext vote → ∀ hh pub sig,
      ((e.finality.record vote).votesFor hh).get pub = some sig → ∃ b, d.Holds C hh b ∧
        FinalizeMsg.authentic C e.cfg.validatorAuthorityFork ⟨hh, b.header.height, pub, sig⟩ := by
    rintro ⟨hcheck, b, hblock, hheight, hhash⟩ hh pub sig hget
    rcases record_recorded hget with hold | ⟨rfl, rfl, rfl⟩
    · exact h.votes hh pub sig hold
    · have hauth := (checkVote_eq_ok.mp hcheck).2
      refine ⟨b, hhash ▸ h.chain _ b hblock hheight, ?_⟩
      rw [hheight]
      exact hauth
  have hcases := handleVote_cases (C := C) e.finality e.voteContext vote
  refine ⟨{ h with }, fun hh pub sig hget => ?_, fun c hc => ?_⟩
  · have hget : ((e.finality.handleVote C e.voteContext vote).2.votesFor hh).get pub = some sig :=
      hget
    rcases hcases with ⟨_, heq⟩ | ⟨hnames, heq⟩
    all_goals rw [heq] at hget
    · exact h.votes hh pub sig hget
    · rcases countVote_recorded hget with hold | ⟨rfl, rfl, rfl⟩
      · exact h.votes hh pub sig hold
      · apply hrecord hnames
        rw [votesFor_record, if_pos rfl, get_set_self]
  · have hc : (e.finality.handleVote C e.voteContext vote).2.certificate = some c := hc
    rcases hcases with ⟨_, heq⟩ | ⟨hnames, heq⟩
    all_goals rw [heq] at hc
    · exact h.certificate c hc
    · rcases countVote_certificate hc with hold | rfl
      · exact h.certificate c hold
      · have hrecorded := hrecord hnames
        obtain ⟨-, b, hblock, hheight, hhash⟩ := hnames
        have hholds := hhash ▸ h.chain _ b hblock hheight
        refine ⟨b, hholds, hheight, fun pub sig hget => ?_⟩
        obtain ⟨b', hholds', hauth⟩ := hrecorded _ pub sig hget
        -- the body under the hash is the block on the chain
        have hbb : b' = b := by
          have hbody := hholds'.body
          rw [hholds.body] at hbody
          exact (Option.some.inj hbody).symm
        rw [hbb, hheight] at hauth
        exact hauth

theorem accept (h : CertificateBacked C e d) (hstep : NodeStep C V e (.accept b) e')
    (hfresh : ∀ b', d.rawBlocks.get (b.hash C) = some b' → b' = b) (hwrap : 0 < b.header.height) :
    CertificateBacked C e' (d.commitRawBlock C b) := by
  obtain ⟨hchain, hfin, hcfg⟩ := hstep.accept_frame
  obtain ⟨htip', -, tip, htip, hheight, -⟩ := Chain.addBlock_eq_ok hchain
  obtain ⟨tip', htip'', hdtip, hindex⟩ := h.tip
  rw [htip] at htip''
  cases htip''
  have hbounded := h.bounded
  rw [hdtip] at hbounded
  -- the height does not wrap
  have hnext : b.header.height = tip.header.height + 1 := by
    unfold succHeight at hheight
    unfold maxUint64 at hbounded
    omega
  have hholds : ∀ hh b', d.Holds C hh b' → (d.commitRawBlock C b).Holds C hh b' := by
    intro hh b' hold
    have hbelow := hold.below
    rw [hdtip] at hbelow
    have hne : hh ≠ b.hash C := by
      rintro rfl
      rw [hfresh b' hold.body] at hbelow
      omega
    refine ⟨?_, hold.hash, ?_, ?_⟩
    · show (d.rawBlocks.set (b.hash C) b).get hh = some b'
      rw [get_set_ne hne]
      exact hold.body
    · show (d.heightIndex.set b.header.height (b.hash C)).get b'.header.height = some hh
      rw [get_set_ne (by omega)]
      exact hold.index
    · show b'.header.height ≤ b.header.height
      omega
  refine ⟨⟨⟨b, htip', rfl, get_set_self _ _ _⟩, ?_, fun n b' hget hn => ?_⟩,
    fun hh pub sig hget => ?_, fun c hc => ?_⟩
  · show b.header.height ≤ maxUint64
    unfold succHeight at hheight
    unfold maxUint64
    omega
  · rcases Chain.getByHeight_of_addBlock hchain hget with ⟨-, rfl⟩ | hold
    · exact ⟨get_set_self _ _ _, rfl, get_set_self _ _ _, Nat.le_refl _⟩
    · exact hholds _ _ (h.chain n b' hold hn)
  · rw [hfin] at hget
    rw [hcfg]
    obtain ⟨b', hold, hauth⟩ := h.votes hh pub sig hget
    exact ⟨b', hholds _ _ hold, hauth⟩
  · rw [hfin] at hc
    rw [hcfg]
    obtain ⟨b', hold, hcert⟩ := h.certificate c hc
    exact ⟨b', hholds _ _ hold, hcert⟩

end CertificateBacked

/-- Every stored body is of a block of `B`, under its hash. -/
def BlockStore.Within (C : Externals) (B : Set Block) (d : BlockStore) : Prop :=
  ∀ h b, d.rawBlocks.get h = some b → b ∈ B ∧ b.hash C = h

section Run

variable {B : Set Block} {s s' : Engine S × BlockStore} {event : NodeEvent}

theorem CertificateBacked.step (hinj : Set.InjOn (Block.hash C) B)
    (h : CertificateBacked C s.1 s.2 ∧ s.2.Within C B) (hstep : StoredStep C V s event s')
    (hevent : ∀ b, event = .accept b → b ∈ B ∧ 0 < b.header.height) :
    CertificateBacked C s'.1 s'.2 ∧ s'.2.Within C B := by
  obtain ⟨e, d⟩ := s
  obtain ⟨e', d'⟩ := s'
  obtain ⟨hnode, hstore⟩ := hstep
  obtain ⟨hbacked, hwithin⟩ := h
  cases event with
  | accept b =>
    obtain ⟨hB, hwrap⟩ := hevent b rfl
    have hfresh : ∀ b', d.rawBlocks.get (b.hash C) = some b' → b' = b := by
      intro b' hget
      obtain ⟨hB', hhash⟩ := hwithin _ b' hget
      exact hinj hB' hB hhash
    rw [hstore]
    refine ⟨hbacked.accept hnode hfresh hwrap, fun hh b' hget => ?_⟩
    have hget : (d.rawBlocks.set (b.hash C) b).get hh = some b' := hget
    rw [get_set] at hget
    split_ifs at hget with heq
    · cases hget
      exact ⟨hB, heq.symm⟩
    · exact hwithin hh b' hget
  | unstage b =>
    rw [hstore]
    cases hnode
    exact ⟨{ hbacked with }, hwithin⟩
  | vote vote =>
    rw [hstore]
    cases hnode
    exact ⟨hbacked.deliver vote, hwithin⟩

end Run

/-! ### The restart -/

section Restore

variable {e e' : Engine S} {c : FinalityCertificate}

/-- The certificate of a backed engine is of a canonical block. -/
theorem CertificateBacked.checkCertified (h : CertificateBacked C e d)
    (hcert : e.finality.certificate = some c) (htip : e'.chain.tip = e.chain.tip) :
    e'.checkCertified C d c = .ok () := by
  obtain ⟨tip, htip', hdtip, hindex⟩ := h.tip
  obtain ⟨b, hholds, hheight, -⟩ := h.certificate c hcert
  have hbelow := hholds.below
  have hcindex := hholds.index
  rw [hdtip] at hbelow
  rw [hheight] at hbelow hcindex
  unfold Engine.checkCertified
  rw [htip, htip']
  dsimp only
  rw [if_neg (Nat.not_lt.mpr hbelow)]
  by_cases heq : c.height = tip.header.height
  · rw [heq, hindex] at hcindex
    rw [if_pos heq, failIf, if_neg (not_not.mpr (Option.some.inj hcindex))]
  · rw [if_neg heq, failIf, if_neg (not_not.mpr hdtip), failIf, if_neg (not_not.mpr hcindex),
      hholds.body]
    simp [failIf, hheight, hholds.hash]

theorem Engine.restoreFinalityCertificate_isOk (hcert : e.finality.certificate = some c)
    (hnodup : (votes.map Prod.fst).Nodup) :
    (∃ e'', e.restoreFinalityCertificate C d {} votes = .ok e'') ↔ e.checkCertified C d c = .ok () ∧
      (∀ vote ∈ votes, vote.1 ∈ e.activeValidators ∧ FinalizeMsg.authentic C
        e.cfg.validatorAuthorityFork ⟨c.blockHash, c.height, vote.1, vote.2⟩ = true) ∧
      e.cfg.needed e.activeValidators.length ≤ votes.length := by
  have hcommittee : e.certificateCommittee C d {} c = .ok e.activeValidators := rfl
  unfold restoreFinalityCertificate
  rw [hcert]
  simp only [bind_eq_ok, hcommittee, countSigners_eq_ok hnodup, failIf_eq_ok, Except.ok.injEq]
  constructor
  · rintro ⟨e'', ⟨⟩, hchecked, _, rfl, _, ⟨hall, rfl⟩, ⟨⟩, hneeded, -⟩
    rw [List.length_reverse, List.length_map] at hneeded
    exact ⟨hchecked, hall, Nat.not_lt.mp hneeded⟩
  · rintro ⟨hchecked, hall, hneeded⟩
    refine ⟨_, (), hchecked, _, rfl, _, ⟨hall, rfl⟩, (), ?_, rfl⟩
    rw [List.length_reverse, List.length_map]
    exact Nat.not_lt.mpr hneeded

end Restore

/-- A run of blocks, votes and epoch changes, on a store that has every accepted block.  A restart on
the same chain and the registry of its tip accepts the certificate the node saved last if and only if
every voter of the certificate is a validator of that registry and the votes reach the threshold for
their number. -/
theorem restored_certificate_iff {e0 e e' : Engine S} {d0 d : BlockStore} {events : List NodeEvent}
    {c : FinalityCertificate} {votes : List (ValidatorPubKey × Bytes)} {B : Set Block}
    (hinj : Set.InjOn (Block.hash C) B) (hchain : StoresChain C e0 d0) (hstored : d0.Within C B)
    (hvotes : e0.finality.votes = ∅) (hnone : e0.finality.certificate = none)
    (hrun : Run (StoredStep C V) (e0, d0) events (e, d))
    (hblocks : ∀ b, .accept b ∈ events → b ∈ B ∧ 0 < b.header.height)
    (hcert : e.finality.certificate = some c) (htip : e'.chain.tip = e.chain.tip)
    (hregistry : e'.registry = e.registry) (hcfg : e'.cfg = e.cfg)
    (hcert' : e'.finality.certificate = some c) (horder : votes ∈ c.votes.enumerations) :
    (∃ e'', e'.restoreFinalityCertificate C d {} votes = .ok e'') ↔
      (∀ pub ∈ c.votes.keys, pub ∈ e.activeValidators) ∧
        e.cfg.needed e.activeValidators.length ≤ c.votes.len := by
  have hstart : CertificateBacked C e0 d0 := by
    refine ⟨hchain, fun h pub sig hget => ?_, fun c hc => ?_⟩
    · unfold votesFor at hget
      rw [hvotes] at hget
      simp at hget
    · rw [hnone] at hc
      cases hc
  obtain ⟨hbacked, -⟩ : CertificateBacked C e d ∧ d.Within C B :=
    hrun.invariant (fun s => CertificateBacked C s.1 s.2 ∧ s.2.Within C B)
      (fun _ _ _ hmem h hstep => CertificateBacked.step hinj h hstep fun b heq => hblocks b (heq ▸ hmem))
      ⟨hstart, hstored⟩
  have hactive : e'.activeValidators = e.activeValidators := by
    unfold activeValidators
    rw [hregistry, hcfg]
  rw [restoreFinalityCertificate_isOk hcert' horder.1, length_enumeration horder, hactive,
    hcfg]
  constructor
  · rintro ⟨-, hall, hneeded⟩
    refine ⟨fun pub hpub => ?_, hneeded⟩
    obtain ⟨sig, hget⟩ := mem_keys.mp hpub
    exact (hall (pub, sig) ((horder.2 pub sig).mpr hget)).1
  · rintro ⟨hall, hneeded⟩
    obtain ⟨b, -, -, hauth⟩ := hbacked.certificate c hcert
    refine ⟨hbacked.checkCertified hcert htip, fun vote hvote => ?_, hneeded⟩
    have hget := (horder.2 vote.1 vote.2).mp hvote
    exact ⟨hall vote.1 (mem_keys.mpr ⟨vote.2, hget⟩), hauth vote.1 vote.2 hget⟩

/-! ### Three votes and a withdrawal -/

/-- The block of the committee is final by the votes of all three. -/
def certifiedCommittee : Engine Unit := (votedCommittee [1, 2]).deliver hashing (firstVote 3)

def firstCertificate : FinalityCertificate :=
  ⟨1, firstBlock.hash hashing, (((votedCommittee [1, 2]).finality.record (firstVote 3)).votesFor
    (firstBlock.hash hashing))⟩

def firstStore : BlockStore :=
  (({} : BlockStore).commitRawBlock hashing sampleGenesis).commitRawBlock hashing firstBlock

/-- A node that starts again with the certificate of its store. -/
def restarted (e : Engine Unit) : Engine Unit :=
  { e with finality := { certificate := e.finality.certificate } }

set_option maxRecDepth 8000

theorem certifiedCommittee_certificate :
    certifiedCommittee.finality.certificate = some firstCertificate := by
  unfold certifiedCommittee deliver
  rw [votedCommittee_voteContext]
  rfl

theorem firstCertificate_voters :
    firstCertificate.votes.keys = ([1, 2, 3].map sampleValidator).toFinset := by
  decide +kernel

theorem firstBlock_hash_ne : firstBlock.hash hashing ≠ sampleGenesis.hash hashing := by
  decide +kernel

theorem committee_storesChain : StoresChain hashing (votedCommittee []) firstStore := by
  have hgenesis : firstStore.Holds hashing (sampleGenesis.hash hashing) sampleGenesis := by
    refine ⟨?_, rfl, ?_, Nat.zero_le _⟩
    · show (set _ (firstBlock.hash hashing) firstBlock).get _ = _
      rw [get_set_ne firstBlock_hash_ne.symm]
      exact get_set_self _ _ _
    · exact (get_set_ne (by decide)).trans (get_set_self _ _ _)
  have hfirst : firstStore.Holds hashing (firstBlock.hash hashing) firstBlock :=
    ⟨get_set_self _ _ _, rfl, get_set_self _ _ _, Nat.le_refl _⟩
  refine ⟨⟨firstBlock, rfl, rfl, hfirst.index⟩, by decide, fun n b hget _ => ?_⟩
  have hget : (((∅ : GoMap Nat Block).set 0 sampleGenesis).set 1 firstBlock).get n = some b := hget
  rw [get_set, get_set] at hget
  split_ifs at hget
  · cases hget
    exact hfirst
  · cases hget
    exact hgenesis
  · simp at hget

theorem certifiedCommittee_run : Run (StoredStep hashing idleServices) (votedCommittee [], firstStore)
    [.vote (firstVote 1), .vote (firstVote 2), .vote (firstVote 3)]
    (certifiedCommittee, firstStore) := by
  unfold certifiedCommittee
  rw [← deliver_second_vote, ← deliver_first_vote]
  exact .cons .vote (.cons .vote (.cons .vote (.nil _)))

/-- After the three votes a restart goes through. -/
theorem certificate_of_active_voters_restored :
    ∃ votes e'', (restarted certifiedCommittee).restoreFinalityCertificate hashing firstStore {} votes =
      .ok e'' := by
  obtain ⟨votes, horder⟩ := exists_enumeration firstCertificate.votes
  have hinj : Set.InjOn (Block.hash hashing) {sampleGenesis, firstBlock} := by
    rintro b (rfl | rfl) b' (rfl | rfl) heq
    · rfl
    · exact absurd heq.symm firstBlock_hash_ne
    · exact absurd heq firstBlock_hash_ne
    · rfl
  have hwithin : firstStore.Within hashing {sampleGenesis, firstBlock} := by
    intro h b hget
    have hget : (((∅ : GoMap Hash32 Block).set (sampleGenesis.hash hashing) sampleGenesis).set
      (firstBlock.hash hashing) firstBlock).get h = some b := hget
    rw [get_set, get_set] at hget
    split_ifs at hget with heq heq'
    · cases hget
      exact ⟨.inr rfl, heq.symm⟩
    · cases hget
      exact ⟨.inl rfl, heq'.symm⟩
    · simp at hget
  have hactive : certifiedCommittee.activeValidators = [1, 2, 3].map sampleValidator :=
    votedCommittee_active [1, 2]
  have htip : (restarted certifiedCommittee).chain.tip = certifiedCommittee.chain.tip := rfl
  refine ⟨votes, (restored_certificate_iff hinj committee_storesChain hwithin rfl rfl
    certifiedCommittee_run (by simp) certifiedCommittee_certificate htip rfl rfl
    certifiedCommittee_certificate horder).mpr ⟨?_, ?_⟩⟩
  · intro pub hpub
    rw [firstCertificate_voters] at hpub
    rw [hactive]
    exact hpub
  · unfold len
    rw [hactive, firstCertificate_voters]
    decide

/-- The certified committee after the withdrawal of validator 1. -/
def retiredCertified : Engine Unit :=
  { committee with finality := certifiedCommittee.finality, slashing := retiredSlashing }.advance
    hashing { now := 5 } withdrawalBlock retiredRegistry retiredChain ()

/-- Validator 1 withdraws after the three votes: the restarted node refuses its own certificate. -/
theorem certificate_of_retired_voter_refused :
    ∃ (events : List NodeEvent) (e : Engine Unit) (d : BlockStore) (c : FinalityCertificate),
      Run (StoredStep hashing idleServices) (votedCommittee [], firstStore) events (e, d) ∧
      e.finality.certificate = some c ∧ ∀ votes ∈ c.votes.enumerations, ∀ e'',
        (restarted e).restoreFinalityCertificate hashing d {} votes ≠ .ok e'' := by
  have haccept : certifiedCommittee.acceptBlock hashing idleServices { now := 5 } withdrawalBlock =
      .ok retiredCertified := by
    exact withdrawalBlock_accepted certifiedCommittee.finality
  have hcert : (restarted retiredCertified).finality.certificate = some firstCertificate :=
    certifiedCommittee_certificate
  have hactive : (restarted retiredCertified).activeValidators = [2, 3].map sampleValidator :=
    retiredCommittee_active
  refine ⟨_, retiredCertified, _, firstCertificate,
    certifiedCommittee_run.append (.cons (.accept (.incoming haccept)) (.nil _)),
    certifiedCommittee_certificate, fun votes horder e'' hok => ?_⟩
  obtain ⟨-, hall, -⟩ := (restoreFinalityCertificate_isOk hcert horder.1).mp ⟨e'', hok⟩
  -- the vote of validator 1 is in the certificate, and it is not active any more
  have hvoter : sampleValidator 1 ∈ firstCertificate.votes.keys := by
    rw [firstCertificate_voters]
    decide
  obtain ⟨sig, hget⟩ := mem_keys.mp hvoter
  have hmember : sampleValidator 1 ∈ (restarted retiredCertified).activeValidators :=
    (hall _ ((horder.2 _ sig).mpr hget)).1
  rw [hactive] at hmember
  exact absurd hmember (by decide)

/-! ### Two certificates -/

/-- The validator signed for the block of the certificate. -/
def Engine.Signed (C : Externals) (e : Engine S) (c : FinalityCertificate) (pub : ValidatorPubKey) :
    Prop :=
  ∃ sig, FinalizeMsg.authentic C e.cfg.validatorAuthorityFork ⟨c.blockHash, c.height, pub, sig⟩

variable {S' : Type} {e e1 : Engine S} {e' e1' : Engine S'} {d' : BlockStore}
  {c c' : FinalityCertificate} {cfg cfg' : MigrationConfig}
  {votes' : List (ValidatorPubKey × Bytes)}

theorem Engine.restored_signers (hcert : e.finality.certificate = some c)
    (h : e.restoreFinalityCertificate C d cfg votes = .ok e1) :
    ∃ committee, e.certificateCommittee C d cfg c = .ok committee ∧ ∃ signers ⊆ committee.toFinset,
      e.cfg.needed committee.length ≤ signers.card ∧ ∀ pub ∈ signers, e.Signed C c pub := by
  unfold restoreFinalityCertificate at h
  rw [hcert] at h
  obtain ⟨⟨⟩, -, h⟩ := unbind h
  obtain ⟨committee, hcommittee, h⟩ := unbind h
  obtain ⟨seen, hseen, h⟩ := unbind h
  obtain ⟨⟨⟩, hneeded, -⟩ := unbind h
  obtain ⟨hnodup, hall⟩ := countSigners_sound hseen
  refine ⟨committee, hcommittee, seen.toFinset, fun pub hpub => ?_, ?_, fun pub hpub => ?_⟩
  · exact List.mem_toFinset.mpr (hall pub (List.mem_toFinset.mp hpub)).1
  · rw [List.toFinset_card_of_nodup hnodup]
    exact Nat.not_lt.mp (failIf_eq_ok.mp hneeded)
  · exact (hall pub (List.mem_toFinset.mp hpub)).2

/-- **Two certificates share signers.**  Two nodes, on any chains and with the current or a migrated
committee, start with certificates of any blocks.  As many validators signed for both blocks as the
two thresholds together exceed the two committees. -/
theorem certificates_share_signers (hcert : e.finality.certificate = some c)
    (h : e.restoreFinalityCertificate C d cfg votes = .ok e1)
    (hcert' : e'.finality.certificate = some c')
    (h' : e'.restoreFinalityCertificate C d' cfg' votes' = .ok e1') :
    ∃ committee committee', e.certificateCommittee C d cfg c = .ok committee ∧
      e'.certificateCommittee C d' cfg' c' = .ok committee' ∧ ∃ both : Finset ValidatorPubKey,
        e.cfg.needed committee.length + e'.cfg.needed committee'.length ≤
          both.card + (committee.toFinset ∪ committee'.toFinset).card ∧
        ∀ pub ∈ both, e.Signed C c pub ∧ e'.Signed C c' pub := by
  obtain ⟨committee, hcommittee, signers, hsub, hneeded, hsigned⟩ := restored_signers hcert h
  obtain ⟨committee', hcommittee', signers', hsub', hneeded', hsigned'⟩ := restored_signers hcert' h'
  refine ⟨committee, committee', hcommittee, hcommittee', signers ∩ signers', ?_, fun pub hpub => ?_⟩
  · have hunion := Finset.card_le_card (Finset.union_subset_union hsub hsub')
    have hinter := Finset.card_union_add_card_inter signers signers'
    omega
  · obtain ⟨hpub, hpub'⟩ := Finset.mem_inter.mp hpub
    exact ⟨hsigned pub hpub, hsigned' pub hpub'⟩

/-- The three validators of the committee signed for its certificate. -/
theorem three_shared_signers : ∃ both : Finset ValidatorPubKey, 3 ≤ both.card ∧
    ∀ pub ∈ both, (restarted certifiedCommittee).Signed hashing firstCertificate pub := by
  have hactive : (restarted certifiedCommittee).activeValidators = [1, 2, 3].map sampleValidator :=
    votedCommittee_active [1, 2]
  have hcert : (restarted certifiedCommittee).finality.certificate = some firstCertificate :=
    certifiedCommittee_certificate
  have hnodup : (([1, 2, 3].map fun v => (sampleValidator v, (firstVote v).signature)).map
    Prod.fst).Nodup := by decide
  obtain ⟨e', hok⟩ := (restoreFinalityCertificate_isOk (C := hashing) (d := firstStore) hcert
    hnodup).mpr (by rw [hactive]; exact ⟨rfl, by decide +kernel, by decide⟩)
  obtain ⟨_, _, ⟨⟩, ⟨⟩, both, hcard, hboth⟩ := certificates_share_signers hcert hok hcert hok
  rw [hactive] at hcard
  exact ⟨both, Nat.le_of_add_le_add_right hcard, fun pub hpub => (hboth pub hpub).1⟩

end Aperod
