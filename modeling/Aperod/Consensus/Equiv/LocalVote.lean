import Aperod.Consensus.Equiv.Certificate

/-!
# The votes of one node, across crashes and restarts

`castVote` signs a vote, hands it to `handleVote`, saves it and only then sends it.  The node can crash
between any two of these, the tip of its database can be moved while it is down, and a vote that was
sent is sent again from `LatestLocalVote`.
-/

namespace Aperod

open Go Engine List

variable {C : Externals} {S : Type} {V : Services S}
variable {b : Block} {e e' : Engine S} {vote : FinalizeMsg} {past : List VoterEvent}
  {stored : Option FinalizeMsg}

/-! ### The node -/

/-- How far `castVote` got. -/
inductive CastPhase
  | idle
  /-- The block is canonical, its vote is due. -/
  | due (b : Block)
  | signed (vote : FinalizeMsg)
  /-- `handleVote` took the vote. -/
  | handled (vote : FinalizeMsg)
  /-- The write of the vote was acknowledged. -/
  | saved (vote : FinalizeMsg)

/-- What a crash loses. -/
structure Session (S : Type) where
  engine : Engine S
  latestLocalVote : Option FinalizeMsg := none
  phase : CastPhase := .idle

/-- The database of a node and, if it is up, its session. -/
structure VoterNode (S : Type) where
  blocks : BlockStore
  localVote : Option FinalizeMsg := none
  session : Option (Session S) := none

inductive VoterEvent
  | accept (b : Block)
  | sign (vote : FinalizeMsg)
  | save (vote : FinalizeMsg)
  /-- `OnVoteCast`, or a vote that `LatestLocalVote` returned. -/
  | broadcast (vote : FinalizeMsg)
  | other

inductive VoterStep (C : Externals) (V : Services S) :
    VoterNode S → VoterEvent → VoterNode S → Prop
  /-- A block, received or produced, becomes canonical in memory and in the database. -/
  | accept {d stored latest} {e e' : Engine S} {b : Block} :
      e.halted = false → NodeStep C V e (.accept b) e' →
      VoterStep C V ⟨d, stored, some ⟨e, latest, .idle⟩⟩ (.accept b)
        ⟨d.commitRawBlock C b, stored, some ⟨e', latest, .due b⟩⟩
  /-- `failCanonicalPersistence`: the block is rolled back and the engine halts, whether the write
  reached the database or not. -/
  | persistFailed {d d' stored latest phase} {e e' : Engine S} {b : Block} :
      e'.halted = true → (d' = d ∨ d' = d.commitRawBlock C b) →
      VoterStep C V ⟨d, stored, some ⟨e, latest, phase⟩⟩ .other ⟨d', stored, some ⟨e', latest, phase⟩⟩
  /-- What leaves the chain as it is: a vote, a transaction, a block that is refused. -/
  | internal {d stored latest phase} {e e' : Engine S} :
      e'.chain = e.chain → (e'.halted = false → e.halted = false) →
      VoterStep C V ⟨d, stored, some ⟨e, latest, phase⟩⟩ .other ⟨d, stored, some ⟨e', latest, phase⟩⟩
  /-- No key, or a key that cannot sign. -/
  | abstain {d stored latest} {e : Engine S} {b : Block} :
      VoterStep C V ⟨d, stored, some ⟨e, latest, .due b⟩⟩ .other ⟨d, stored, some ⟨e, latest, .idle⟩⟩
  | sign {d stored latest} {e : Engine S} {b : Block} {key : ValidatorKey} :
      e.halted = false → e.cfg.myKey = some key →
      VoterStep C V ⟨d, stored, some ⟨e, latest, .due b⟩⟩ (.sign (e.ownVote C key b))
        ⟨d, stored, some ⟨e, latest, .signed (e.ownVote C key b)⟩⟩
  | handle {d stored latest} {e : Engine S} {vote : FinalizeMsg} :
      (e.finality.handleVote C e.voteContext vote).1 = .ok () →
      VoterStep C V ⟨d, stored, some ⟨e, latest, .signed vote⟩⟩ .other
        ⟨d, stored, some ⟨e.deliver C vote, latest, .handled vote⟩⟩
  | handleFailed {d stored latest} {e : Engine S} {vote : FinalizeMsg} {err : Fault} :
      (e.finality.handleVote C e.voteContext vote).1 = .error err →
      VoterStep C V ⟨d, stored, some ⟨e, latest, .signed vote⟩⟩ .other
        ⟨d, stored, some ⟨e.deliver C vote, latest, .idle⟩⟩
  | save {d stored stored' latest} {e : Engine S} {vote : FinalizeMsg} :
      saveLocalFinalityVote stored vote = .ok stored' →
      VoterStep C V ⟨d, stored, some ⟨e, latest, .handled vote⟩⟩ (.save vote)
        ⟨d, stored', some ⟨e, latest, .saved vote⟩⟩
  | saveRefused {d stored latest} {e : Engine S} {vote : FinalizeMsg} {err : Fault} :
      saveLocalFinalityVote stored vote = .error err →
      VoterStep C V ⟨d, stored, some ⟨e, latest, .handled vote⟩⟩ .other
        ⟨d, stored, some ⟨{ e with halted := true }, latest, .idle⟩⟩
  /-- A write that is not acknowledged may have reached the database. -/
  | saveFailed {d stored stored' latest} {e : Engine S} {vote : FinalizeMsg} :
      saveLocalFinalityVote stored vote = .ok stored' →
      VoterStep C V ⟨d, stored, some ⟨e, latest, .handled vote⟩⟩ .other
        ⟨d, stored', some ⟨{ e with halted := true }, latest, .idle⟩⟩
  | saveLost {d stored latest} {e : Engine S} {vote : FinalizeMsg} :
      VoterStep C V ⟨d, stored, some ⟨e, latest, .handled vote⟩⟩ .other
        ⟨d, stored, some ⟨{ e with halted := true }, latest, .idle⟩⟩
  | publish {d stored latest} {e : Engine S} {vote : FinalizeMsg} :
      VoterStep C V ⟨d, stored, some ⟨e, latest, .saved vote⟩⟩ (.broadcast vote)
        ⟨d, stored, some ⟨e, some vote, .idle⟩⟩
  /-- `LatestLocalVote`. -/
  | rebroadcast {d stored phase} {e : Engine S} {vote : FinalizeMsg} :
      e.verifyLocalVoteAncestry C d vote.height vote.blockHash = .ok () →
      VoterStep C V ⟨d, stored, some ⟨e, some vote, phase⟩⟩ (.broadcast vote)
        ⟨d, stored, some ⟨e, some vote, phase⟩⟩
  | rebroadcastRefused {d stored phase} {e : Engine S} {vote : FinalizeMsg} {err : Fault} :
      e.verifyLocalVoteAncestry C d vote.height vote.blockHash = .error err →
      VoterStep C V ⟨d, stored, some ⟨e, some vote, phase⟩⟩ .other
        ⟨d, stored, some ⟨{ e with halted := true }, some vote, phase⟩⟩
  | crash {d stored session} : VoterStep C V ⟨d, stored, session⟩ .other ⟨d, stored, none⟩
  /-- The tip is moved while the node is down. -/
  | moveTip {d stored hash height} :
      VoterStep C V ⟨d, stored, none⟩ .other ⟨d.putTip hash height, stored, none⟩
  /-- `NewEngine`, whatever the configuration and the chain it is given; heights are of 64 bits. -/
  | restart {d stored} {e : Engine S} {cfg : MigrationConfig}
      {votes : List (ValidatorPubKey × Bytes)} :
      (∀ tip, e.chain.tip = some tip → tip.header.height ≤ maxUint64) →
      VoterStep C V ⟨d, stored, none⟩ .other
        ⟨d, stored, some ⟨(e.restore C d cfg votes stored).1, (e.restore C d cfg votes stored).2, .idle⟩⟩

/-! ### What is claimed of two events -/

/-- Two events of a run, in this order: saved votes do not go down, a vote is signed above the saved
ones, and no two sent votes of one height name different blocks. -/
def VoterEvent.Ordered : VoterEvent → VoterEvent → Prop
  | .save v, .save w => v.height ≤ w.height
  | .save v, .sign w => v.height < w.height
  | .broadcast v, .broadcast w => v.height = w.height → v.blockHash = w.blockHash
  | _, _ => True

/-- A vote that may be followed by `w`: a lower one, or one for the same block. -/
def FinalizeMsg.Precedes (v w : FinalizeMsg) : Prop :=
  v.height < w.height ∨ v.height = w.height ∧ v.blockHash = w.blockHash

namespace FinalizeMsg

variable {v w u : FinalizeMsg}

theorem Precedes.refl (v : FinalizeMsg) : v.Precedes v := .inr ⟨rfl, rfl⟩

theorem Precedes.le (h : v.Precedes w) : v.height ≤ w.height := by
  rcases h with h | ⟨h, -⟩
  · exact Nat.le_of_lt h
  · exact Nat.le_of_eq h

theorem Precedes.trans (h : v.Precedes w) (h' : w.Precedes u) : v.Precedes u := by
  rcases h with h | ⟨hheight, hhash⟩
  · exact .inl (Nat.lt_of_lt_of_le h h'.le)
  · unfold Precedes
    rw [hheight, hhash]
    exact h'

theorem Precedes.agree (h : v.Precedes w) (heq : v.height = w.height) : v.blockHash = w.blockHash := by
  rcases h with h | ⟨-, h⟩
  · omega
  · exact h

end FinalizeMsg

theorem saveLocalFinalityVote_eq_ok {stored' : Option FinalizeMsg} {v : FinalizeMsg}
    (h : saveLocalFinalityVote stored v = .ok stored') :
    stored' = some v ∧ ∀ p, stored = some p → p.Precedes v := by
  unfold saveLocalFinalityVote at h
  rw [bind_eq_ok] at h
  obtain ⟨-, -, h⟩ := h
  cases stored with
  | none =>
    cases h
    exact ⟨rfl, nofun⟩
  | some prior =>
    simp only [bind_eq_ok, failIf_eq_ok] at h
    obtain ⟨⟨⟩, hheight, ⟨⟩, hsame, heq⟩ := h
    cases heq
    refine ⟨rfl, ?_⟩
    rintro p ⟨⟩
    by_cases hlt : prior.height < v.height
    · exact .inl hlt
    · have heq : v.height = prior.height := by omega
      rw [not_and, not_or, not_not] at hsame
      exact .inr ⟨heq.symm, (hsame heq).1.symm⟩

/-! ### The restart -/

section Restore

variable {d : BlockStore} {cfg : MigrationConfig} {votes : List (ValidatorPubKey × Bytes)}

/-- The stored vote is not above the tip of a chain. -/
def Engine.NotBelow (e : Engine S) (stored : Option FinalizeMsg) : Prop :=
  ∀ p, stored = some p → ∃ tip, e.chain.tip = some tip ∧ p.height ≤ tip.header.height

theorem Engine.restoreLocalFinalityVote_eq_ok {latest : Option FinalizeMsg}
    (h : e.restoreLocalFinalityVote C d stored = .ok latest) : latest = stored ∧ e.NotBelow stored := by
  unfold restoreLocalFinalityVote at h
  cases stored with
  | none =>
    cases h
    exact ⟨rfl, nofun⟩
  | some vote =>
    simp only [bind_eq_ok, verifyLocalVoteAncestry] at h
    obtain ⟨-, -, -, -, ⟨⟩, ⟨⟨⟩, habove, hancestry⟩, heq⟩ := h
    cases heq
    refine ⟨rfl, ?_⟩
    rintro p ⟨⟩
    cases htip : e.chain.tip with
    | none =>
      rw [htip] at hancestry
      cases hancestry
    | some tip =>
      rw [htip] at hancestry
      simp only [bind_eq_ok, failIf_eq_ok, not_not] at hancestry
      obtain ⟨⟨⟩, hsame, -⟩ := hancestry
      rw [failIf_eq_ok, not_or, ← hsame] at habove
      exact ⟨tip, rfl, Nat.not_lt.mp habove.2⟩

theorem Engine.restoreFinalityCertificate_chain
    (h : e.restoreFinalityCertificate C d cfg votes = .ok e') : e'.chain = e.chain := by
  unfold restoreFinalityCertificate at h
  cases hcert : e.finality.certificate with
  | none =>
    rw [hcert] at h
    simp only [bind_eq_ok] at h
    obtain ⟨-, -, heq⟩ := h
    cases heq
    rfl
  | some c =>
    rw [hcert] at h
    simp only [bind_eq_ok] at h
    obtain ⟨-, -, -, -, -, -, -, -, heq⟩ := h
    cases heq
    rfl

/-- A restarted engine has the stored vote as its latest, or none, and the chain it was given; unless
it is halted that chain reaches up to the stored vote. -/
theorem Engine.restore_spec :
    ((e.restore C d cfg votes stored).2 = stored ∨ (e.restore C d cfg votes stored).2 = none) ∧
      (e.restore C d cfg votes stored).1.chain = e.chain ∧
      ((e.restore C d cfg votes stored).1.halted = false →
        (e.restore C d cfg votes stored).1.NotBelow stored) := by
  unfold restore
  cases hcert : e.restoreFinalityCertificate C d cfg votes with
  | ok e' =>
    have hchain := restoreFinalityCertificate_chain hcert
    dsimp only
    split
    · rename_i latest hlocal
      obtain ⟨hlatest, hbelow⟩ := restoreLocalFinalityVote_eq_ok hlocal
      exact ⟨.inl hlatest, hchain, fun _ => hbelow⟩
    · exact ⟨.inr rfl, hchain, fun h => absurd h (by simp)⟩
  | error err =>
    dsimp only
    split
    · rename_i latest hlocal
      obtain ⟨hlatest, hbelow⟩ := restoreLocalFinalityVote_eq_ok hlocal
      exact ⟨.inl hlatest, rfl, fun _ => hbelow⟩
    · exact ⟨.inr rfl, rfl, fun h => absurd h (by simp)⟩

end Restore

/-! ### The invariant -/

/-- A session is consistent with the stored vote and the events so far. -/
structure Session.Sound (past : List VoterEvent) (stored : Option FinalizeMsg) (s : Session S) :
    Prop where
  latest : ∀ v, s.latestLocalVote = some v → (∃ p, stored = some p ∧ v.Precedes p) ∧
    ∀ w, .broadcast w ∈ past → w.Precedes v
  saved : ∀ v, s.phase = .saved v → stored = some v
  bounded : s.engine.halted = false → ∀ tip, s.engine.chain.tip = some tip →
    tip.header.height ≤ maxUint64
  notBelow : s.engine.halted = false → s.engine.NotBelow stored
  due : ∀ b, s.phase = .due b → s.engine.halted = false →
    s.engine.chain.tip = some b ∧ ∀ p, stored = some p → p.height < b.header.height
  pending : ∀ v, s.phase = .signed v ∨ s.phase = .handled v → s.engine.halted = false →
    ∃ tip, s.engine.chain.tip = some tip ∧ v.height = tip.header.height

/-- The events so far are ordered, and the database knows of what was saved and sent. -/
structure VoterNode.Sound (past : List VoterEvent) (n : VoterNode S) : Prop where
  ordered : past.Pairwise VoterEvent.Ordered
  saved : ∀ v, .save v ∈ past → ∃ p, n.localVote = some p ∧ v.Precedes p
  sent : ∀ v, .broadcast v ∈ past → ∃ p, n.localVote = some p ∧ v.Precedes p
  session : ∀ s, n.session = some s → s.Sound past n.localVote

theorem Session.Sound.append {s : Session S}
    {event : VoterEvent} (h : s.Sound past stored) (hevent : ∀ v, event ≠ .broadcast v) :
    s.Sound (past ++ [event]) stored := by
  refine ⟨fun v hv => ⟨(h.latest v hv).1, fun w hw => ?_⟩, h.saved, h.bounded, h.notBelow,
    h.due, h.pending⟩
  rcases mem_append.mp hw with hw | hw
  · exact (h.latest v hv).2 w hw
  · exact absurd (mem_singleton.mp hw).symm (hevent w)

/-- A halted session has to answer only for the votes it may send. -/
theorem Session.Sound.halt {s s' : Session S}
    (h : s.Sound past stored) (hhalted : s'.engine.halted = true)
    (hlatest : s'.latestLocalVote = s.latestLocalVote)
    (hphase : ∀ v, s'.phase = .saved v → s.phase = .saved v) : s'.Sound past stored := by
  have hnot : ¬ s'.engine.halted = false := by simp [hhalted]
  refine ⟨fun v hv => h.latest v (hlatest ▸ hv), fun v hv => h.saved v (hphase v hv), fun hrun => ?_,
    fun hrun => ?_, fun _ _ hrun => ?_, fun _ _ hrun => ?_⟩
  all_goals exact absurd hrun hnot

namespace VoterNode.Sound

variable {n n' : VoterNode S} {event : VoterEvent}

/-- A step is sound if its event may follow the past, the stored vote only moves on, covers the vote of
the event, and the session is sound. -/
theorem extend (h : n.Sound past) (hlast : ∀ a ∈ past, a.Ordered event)
    (hstored : ∀ p, n.localVote = some p → ∃ p', n'.localVote = some p' ∧ p.Precedes p')
    (hevent : ∀ v, event = .save v ∨ event = .broadcast v →
      ∃ p, n'.localVote = some p ∧ v.Precedes p)
    (hsession : ∀ s, n'.session = some s → s.Sound (past ++ [event]) n'.localVote) :
    n'.Sound (past ++ [event]) := by
  have hkeep : ∀ v : FinalizeMsg, (∃ p, n.localVote = some p ∧ v.Precedes p) →
      ∃ p, n'.localVote = some p ∧ v.Precedes p := by
    rintro v ⟨p, hp, hv⟩
    obtain ⟨p', hp', hpp'⟩ := hstored p hp
    exact ⟨p', hp', hv.trans hpp'⟩
  refine ⟨?_, fun v hv => ?_, fun v hv => ?_, hsession⟩
  · rw [pairwise_append]
    refine ⟨h.ordered, pairwise_singleton _ _, ?_⟩
    intro a ha b hb
    rw [mem_singleton.mp hb]
    exact hlast a ha
  · rcases mem_append.mp hv with hv | hv
    · exact hkeep v (h.saved v hv)
    · exact hevent v (.inl (mem_singleton.mp hv).symm)
  · rcases mem_append.mp hv with hv | hv
    · exact hkeep v (h.sent v hv)
    · exact hevent v (.inr (mem_singleton.mp hv).symm)

/-- A step that neither signs, saves nor sends, and keeps the stored vote. -/
theorem quiet (h : n.Sound past) (hevent : event = .other ∨ ∃ b, event = .accept b)
    (hstored : n'.localVote = n.localVote)
    (hsession : ∀ s, n'.session = some s → s.Sound past n.localVote) :
    n'.Sound (past ++ [event]) := by
  refine h.extend (fun a _ => ?_) (fun p hp => ⟨p, hstored.trans hp, .refl p⟩) (fun v hv => ?_)
    fun s hs => ?_
  · rcases hevent with rfl | ⟨b, rfl⟩ <;> cases a <;> exact trivial
  · rcases hevent with rfl | ⟨b, rfl⟩ <;> simp at hv
  · rw [hstored]
    refine (hsession s hs).append fun v hv => ?_
    rcases hevent with rfl | ⟨b, rfl⟩ <;> cases hv

theorem accept {d stored latest}
    (h : VoterNode.Sound past ⟨d, stored, some ⟨e, latest, .idle⟩⟩) (hrun : e.halted = false)
    (hnode : NodeStep C V e (.accept b) e') (hwrap : 0 < b.header.height) :
    VoterNode.Sound (past ++ [.accept b])
      ⟨d.commitRawBlock C b, stored, some ⟨e', latest, .due b⟩⟩ := by
  have hs := h.session _ rfl
  obtain ⟨hchain, -, -⟩ := hnode.accept_frame
  obtain ⟨htip', -, tip, htip, hheight, -⟩ := Chain.addBlock_eq_ok hchain
  have hbound := hs.bounded hrun tip htip
  unfold succHeight at hheight
  unfold maxUint64 at hbound
  -- the height went up, it did not wrap
  have habove : ∀ p, stored = some p → p.height < b.header.height := by
    intro p hp
    obtain ⟨tip', htip'', hle⟩ := hs.notBelow hrun p hp
    have heq : some tip = some tip' := htip.symm.trans htip''
    cases heq
    omega
  refine h.quiet (.inr ⟨b, rfl⟩) rfl ?_
  rintro s ⟨⟩
  refine ⟨hs.latest, nofun, fun _ tip' heq => ?_,
    fun _ p hp => ⟨b, htip', Nat.le_of_lt (habove p hp)⟩, ?_, nofun⟩
  · rw [Option.some.inj (heq.symm.trans htip')]
    unfold maxUint64
    omega
  · rintro b' ⟨⟩ -
    exact ⟨htip', habove⟩

theorem save {d stored stored' latest}
    (h : VoterNode.Sound past ⟨d, stored, some ⟨e, latest, .handled vote⟩⟩)
    (hok : saveLocalFinalityVote stored vote = .ok stored') :
    stored' = some vote ∧ (∀ p, stored = some p → ∃ p', stored' = some p' ∧ p.Precedes p') ∧
      ∀ s : Session S, s.latestLocalVote = latest → (s.phase = .saved vote ∨ s.phase = .idle) →
        s.engine.chain = e.chain → (s.engine.halted = false → e.halted = false) →
        s.Sound past stored' := by
  have hs := h.session _ rfl
  obtain ⟨rfl, hprior⟩ := saveLocalFinalityVote_eq_ok hok
  have hmove : ∀ p, stored = some p → ∃ p', some vote = some p' ∧ p.Precedes p' :=
    fun p hp => ⟨vote, rfl, hprior p hp⟩
  refine ⟨rfl, hmove, fun s hlatest hphase hchain hrunning => ⟨fun v hv => ?_, fun v hv => ?_,
    fun hrun => ?_, fun hrun p hp => ?_, fun b hb => ?_, fun v hv => ?_⟩⟩
  · obtain ⟨⟨p, hp, hvp⟩, hpast⟩ := hs.latest v (hlatest ▸ hv)
    exact ⟨⟨vote, rfl, hvp.trans (hprior p hp)⟩, hpast⟩
  · rcases hphase with hphase | hphase
    · rw [hphase] at hv
      cases hv
      rfl
    · rw [hphase] at hv
      cases hv
  · rw [hchain]
    exact hs.bounded (hrunning hrun)
  · cases hp
    rw [hchain]
    obtain ⟨tip, htip, hheight⟩ := hs.pending vote (.inr rfl) (hrunning hrun)
    exact ⟨tip, htip, Nat.le_of_eq hheight⟩
  · rcases hphase with hphase | hphase <;> rw [hphase] at hb <;> cases hb
  · rcases hphase with hphase | hphase <;> rw [hphase] at hv <;> rcases hv with hv | hv <;> cases hv

/-- A vote that is sent: everything sent before precedes it. -/
theorem send {d stored latest phase}
    (h : VoterNode.Sound past ⟨d, stored, some ⟨e, latest, phase⟩⟩) {phase' : CastPhase}
    (hstored : ∃ p, stored = some p ∧ vote.Precedes p)
    (hpast : ∀ w, .broadcast w ∈ past → w.Precedes vote) (hphase : phase' = phase ∨ phase' = .idle) :
    VoterNode.Sound (past ++ [.broadcast vote]) ⟨d, stored, some ⟨e, some vote, phase'⟩⟩ := by
  have hs := h.session _ rfl
  refine h.extend (fun a ha => ?_) (fun p hp => ⟨p, hp, .refl p⟩) ?_ ?_
  · cases a with
    | broadcast w => exact (hpast w ha).agree
    | _ => exact trivial
  · rintro v (hv | hv)
    · cases hv
    · cases hv
      exact hstored
  · rintro s ⟨⟩
    have hlatest : ∀ v, some vote = some v → (∃ p, stored = some p ∧ v.Precedes p) ∧
        ∀ w, .broadcast w ∈ past ++ [.broadcast vote] → w.Precedes v := by
      rintro v ⟨⟩
      refine ⟨hstored, fun w hw => ?_⟩
      rcases mem_append.mp hw with hw | hw
      · exact hpast w hw
      · cases mem_singleton.mp hw
        exact .refl _
    rcases hphase with rfl | rfl
    · exact ⟨hlatest, hs.saved, hs.bounded, hs.notBelow, hs.due, hs.pending⟩
    · exact ⟨hlatest, nofun, hs.bounded, hs.notBelow, nofun, nofun⟩

theorem step (h : n.Sound past) (hstep : VoterStep C V n event n')
    (hwrap : ∀ b, event = .accept b → 0 < b.header.height) : n'.Sound (past ++ [event]) := by
  cases hstep with
  | accept hrun hnode => exact h.accept hrun hnode (hwrap _ rfl)
  | persistFailed hhalted _ =>
    refine h.quiet (.inl rfl) rfl ?_
    rintro s ⟨⟩
    exact (h.session _ rfl).halt hhalted rfl fun _ hv => hv
  | internal hchain hhalted =>
    have hs := h.session _ rfl
    refine h.quiet (.inl rfl) rfl ?_
    rintro s ⟨⟩
    refine ⟨hs.latest, hs.saved, fun hrun => ?_, fun hrun => ?_, fun b hb hrun => ?_,
      fun v hv hrun => ?_⟩
    · rw [hchain]
      exact hs.bounded (hhalted hrun)
    · intro p hp
      rw [hchain]
      exact hs.notBelow (hhalted hrun) p hp
    · rw [hchain]
      exact hs.due b hb (hhalted hrun)
    · rw [hchain]
      exact hs.pending v hv (hhalted hrun)
  | abstain =>
    have hs := h.session _ rfl
    refine h.quiet (.inl rfl) rfl ?_
    rintro s ⟨⟩
    exact ⟨hs.latest, nofun, hs.bounded, hs.notBelow, nofun, nofun⟩
  | sign hrun hkey =>
    have hs := h.session _ rfl
    obtain ⟨htip, habove⟩ := hs.due _ rfl hrun
    refine h.extend (fun a ha => ?_) (fun p hp => ⟨p, hp, .refl p⟩) (by simp) ?_
    · cases a with
      | save v =>
        obtain ⟨p, hp, hv⟩ := h.saved v ha
        exact Nat.lt_of_le_of_lt hv.le (habove p hp)
      | _ => exact trivial
    · rintro s ⟨⟩
      refine Session.Sound.append ⟨hs.latest, nofun, hs.bounded, hs.notBelow, nofun, ?_⟩ nofun
      rintro v (⟨⟨⟩⟩ | ⟨⟨⟩⟩) -
      exact ⟨_, htip, rfl⟩
  | handle hok =>
    have hs := h.session _ rfl
    refine h.quiet (.inl rfl) rfl ?_
    rintro s ⟨⟩
    refine ⟨hs.latest, nofun, hs.bounded, hs.notBelow, nofun, ?_⟩
    rintro v (⟨⟨⟩⟩ | ⟨⟨⟩⟩) hrun
    exact hs.pending _ (.inl rfl) hrun
  | handleFailed herr =>
    have hs := h.session _ rfl
    refine h.quiet (.inl rfl) rfl ?_
    rintro s ⟨⟩
    exact ⟨hs.latest, nofun, hs.bounded, hs.notBelow, nofun, nofun⟩
  | save hok =>
    obtain ⟨hstored, hmove, hsession⟩ := h.save hok
    refine h.extend (fun a ha => ?_) hmove ?_ ?_
    · cases a with
      | save v =>
        obtain ⟨p, hp, hv⟩ := h.saved v ha
        obtain ⟨p', hp', hpp'⟩ := hmove p hp
        cases hstored.symm.trans hp'
        exact (hv.trans hpp').le
      | _ => exact trivial
    · rintro v (hv | hv)
      · cases hv
        exact ⟨_, hstored, .refl _⟩
      · cases hv
    · rintro s ⟨⟩
      exact (hsession _ rfl (.inl rfl) rfl id).append nofun
  | saveRefused herr =>
    refine h.quiet (.inl rfl) rfl ?_
    rintro s ⟨⟩
    exact (h.session _ rfl).halt rfl rfl nofun
  | saveFailed hok =>
    obtain ⟨hstored, hmove, hsession⟩ := h.save hok
    refine h.extend (fun a _ => ?_) hmove (by simp) ?_
    · cases a <;> exact trivial
    · rintro s ⟨⟩
      exact (hsession _ rfl (.inr rfl) rfl (by simp)).append nofun
  | saveLost =>
    refine h.quiet (.inl rfl) rfl ?_
    rintro s ⟨⟩
    exact (h.session _ rfl).halt rfl rfl nofun
  | publish =>
    have hstored := (h.session _ rfl).saved _ rfl
    refine h.send ⟨_, hstored, .refl _⟩ (fun w hw => ?_) (.inr rfl)
    obtain ⟨p, hp, hv⟩ := h.sent w hw
    cases hstored.symm.trans hp
    exact hv
  | rebroadcast hok =>
    obtain ⟨hstored, hpast⟩ := (h.session _ rfl).latest _ rfl
    exact h.send hstored hpast (.inl rfl)
  | rebroadcastRefused herr =>
    refine h.quiet (.inl rfl) rfl ?_
    rintro s ⟨⟩
    exact (h.session _ rfl).halt rfl rfl fun _ hv => hv
  | crash =>
    refine h.quiet (.inl rfl) rfl ?_
    rintro s ⟨⟩
  | moveTip =>
    refine h.quiet (.inl rfl) rfl ?_
    rintro s ⟨⟩
  | restart hbound =>
    refine h.quiet (.inl rfl) rfl ?_
    rintro s ⟨⟩
    obtain ⟨hlatest, hchain, hbelow⟩ := restore_spec
    refine ⟨fun v hv => ?_, nofun, fun _ => ?_, hbelow, nofun, nofun⟩
    · rcases hlatest with hlatest | hlatest
      · have hv := hlatest.symm.trans hv
        refine ⟨⟨v, hv, .refl v⟩, fun w hw => ?_⟩
        obtain ⟨p, hp, hwp⟩ := h.sent w hw
        cases hv.symm.trans hp
        exact hwp
      · cases hlatest.symm.trans hv
    · rw [hchain]
      exact hbound

end VoterNode.Sound

/-- **The node's own votes.**  In every run from a node that is down, over crashes and restarts at any
point, no two sent votes of one height name different blocks, the heights of saved votes never go
down, and a vote is signed only above all votes saved before. -/
theorem local_votes_ordered {n0 n : VoterNode S} {events : List VoterEvent}
    (hdown : n0.session = none) (hrun : Run (VoterStep C V) n0 events n)
    (hwrap : ∀ b, .accept b ∈ events → 0 < b.header.height) :
    events.Pairwise VoterEvent.Ordered := by
  have hstart : n0.Sound [] := by
    refine ⟨.nil, by simp, by simp, fun s hs => ?_⟩
    rw [hdown] at hs
    cases hs
  have hsound : n.Sound events := by
    apply hrun.history (fun past n => n.Sound past)
    · intro past n event n' hmem h hstep
      exact h.step hstep fun b heq => hwrap b (heq ▸ hmem)
    · exact hstart
  exact hsound.ordered

/-! ### Two blocks and a crash -/

/-- The key of validator 2. -/
def voterKey : ValidatorKey := ⟨sampleValidator 2, fun _ => replicate 64 0⟩

/-- Validator 2 of the committee, on a chain. -/
def voterOn (chain : Chain) : Engine Unit :=
  { committee with cfg := { committee.cfg with myKey := some voterKey }, chain }

def genesisChain : Chain where
  blocks := GoMap.set ∅ (sampleGenesis.hash hashing) sampleGenesis
  byHeight := GoMap.set ∅ 0 sampleGenesis
  tip := some sampleGenesis
  genesis := some sampleGenesis

/-- The chain, registry and slashing records of a voter after a block. -/
def voterAfter (chain : Chain) (b : Block) : Engine Unit :=
  { voterOn chain with
    slashing := ((voterOn chain).checkSlashing hashing b).toOption.getD ∅ }.advance hashing { now := 5 } b
    (((voterOn chain).commitRegistry hashing b).toOption.getD {})
    ((chain.addBlock hashing b).toOption.getD {}) ()

theorem voterOn_active (chain : Chain) :
    (voterOn chain).activeValidators = [1, 2, 3].map sampleValidator := votedCommittee_active []

set_option maxRecDepth 8000

theorem voterOn_accepts_second : (voterOn (chainOf firstBlock)).acceptBlock hashing idleServices
    { now := 5 } (blockOn firstBlock 3 []) =
      .ok (voterAfter (chainOf firstBlock) (blockOn firstBlock 3 [])) :=
  acceptBlock_eq_ok.mpr ⟨rfl, rfl, rfl,
    committee_checkHeader (voterOn_active _) rfl (by decide) (by decide) (by decide) rfl,
    _, rfl, rfl, rfl, _, _, (), rfl, rfl, rfl, rfl⟩

theorem voterOn_accepts_first : (voterOn genesisChain).acceptBlock hashing idleServices { now := 5 }
    firstBlock = .ok (voterAfter genesisChain firstBlock) :=
  acceptBlock_eq_ok.mpr ⟨rfl, rfl, rfl,
    committee_checkHeader (voterOn_active _) rfl (by decide) (by decide) (by decide) rfl,
    _, rfl, rfl, rfl, _, _, (), rfl, rfl, rfl, rfl⟩

/-- The node down, with the first block in its database or rolled back to the genesis block. -/
def voterDown (d : BlockStore) : VoterNode Unit := ⟨d, none, none⟩

/-- The vote for a block after it was accepted. -/
def voterVote (chain : Chain) (b : Block) : FinalizeMsg :=
  (voterAfter chain b).ownVote hashing voterKey b

/-- The node starts on a chain, accepts a block and signs a vote. -/
theorem voter_signs {chain : Chain} {d : BlockStore}
    (haccept : (voterOn chain).acceptBlock hashing idleServices { now := 5 } b =
      .ok (voterAfter chain b))
    (hbound : ∀ tip, chain.tip = some tip → tip.header.height ≤ maxUint64) :
    Run (VoterStep hashing idleServices) (voterDown d)
      [.other, .accept b, .sign (voterVote chain b)]
      ⟨d.commitRawBlock hashing b, none,
        some ⟨voterAfter chain b, none, .signed (voterVote chain b)⟩⟩ := by
  have hstart : VoterStep hashing idleServices (voterDown d) .other
      ⟨d, none, some ⟨voterOn chain, none, .idle⟩⟩ := by
    show VoterStep hashing idleServices ⟨d, none, none⟩ .other
      ⟨d, none, some ⟨((voterOn chain).restore hashing d {} [] none).1,
        ((voterOn chain).restore hashing d {} [] none).2, .idle⟩⟩
    exact .restart hbound
  exact .cons hstart (.cons (.accept rfl (.incoming haccept)) (.cons (.sign rfl rfl) (.nil _)))

/-- A vote for block 2, a crash before it is saved, the tip moved back to the genesis block, and a vote
for block 1. -/
theorem forgotten_vote_run : ∃ d, Run (VoterStep hashing idleServices) (voterDown firstStore)
    [.other, .accept (blockOn firstBlock 3 []),
      .sign (voterVote (chainOf firstBlock) (blockOn firstBlock 3 [])), .other, .other, .other,
      .accept firstBlock, .sign (voterVote genesisChain firstBlock)]
    ⟨d, none, some ⟨voterAfter genesisChain firstBlock, none,
      .signed (voterVote genesisChain firstBlock)⟩⟩ := by
  have hsecond := voter_signs (d := firstStore) voterOn_accepts_second (by rintro tip ⟨⟩; decide)
  have hfirst := voter_signs
    (d := (firstStore.commitRawBlock hashing (blockOn firstBlock 3 [])).putTip
      (sampleGenesis.hash hashing) 0) voterOn_accepts_first (by rintro tip ⟨⟩; decide)
  exact ⟨_, hsecond.append (.cons .crash (.cons .moveTip hfirst))⟩

theorem voterAfter_active :
    (voterAfter genesisChain firstBlock).activeValidators = [1, 2, 3].map sampleValidator := by
  have hreg : (voterAfter genesisChain firstBlock).registry.getActiveValidators =
      [1, 2, 3].map sampleValidator := by
    exact activeSet_eq (by decide) (by decide)
  unfold activeValidators
  rw [hreg]
  rfl

theorem voterVote_handled : ((voterAfter genesisChain firstBlock).finality.handleVote hashing
    (voterAfter genesisChain firstBlock).voteContext (voterVote genesisChain firstBlock)).1 = .ok () := by
  have hcontext : (voterAfter genesisChain firstBlock).voteContext =
      { chain := (voterAfter genesisChain firstBlock).chain
        active := [1, 2, 3].map sampleValidator, fork := none, needed := committee.cfg.needed } := by
    unfold voteContext
    rw [voterAfter_active]
    rfl
  rw [hcontext]
  rfl

/-- The vote for block 1 can then be saved and sent. -/
theorem forgotten_vote_replaced : ∃ events : List VoterEvent,
    .save (voterVote genesisChain firstBlock) ∈ events ∧
    .broadcast (voterVote genesisChain firstBlock) ∈ events ∧
    events.Pairwise VoterEvent.Ordered := by
  obtain ⟨d, hrun⟩ := forgotten_vote_run
  have hall := hrun.append (.cons (.handle voterVote_handled) (.cons (.save rfl)
    (.cons .publish (.nil _))))
  refine ⟨_, ?_, ?_, local_votes_ordered rfl hall ?_⟩
  · simp
  · simp
  · intro b hb
    simp only [cons_append, nil_append, mem_cons, VoterEvent.accept.injEq, reduceCtorEq,
      not_mem_nil, or_false, false_or] at hb
    rcases hb with rfl | rfl <;> decide

/-- The heights of signed votes go down. -/
theorem unsaved_vote_forgotten : ∃ (n : VoterNode Unit) (events : List VoterEvent)
    (v w : FinalizeMsg), Run (VoterStep hashing idleServices) (voterDown firstStore) events n ∧
      [.sign v, .sign w].Sublist events ∧ w.height < v.height := by
  obtain ⟨d, hrun⟩ := forgotten_vote_run
  refine ⟨_, _, voterVote (chainOf firstBlock) (blockOn firstBlock 3 []),
    voterVote genesisChain firstBlock, hrun, ?_, ?_⟩
  · exact .cons _ (.cons _ (.cons_cons _ (.cons _ (.cons _ (.cons _ (.cons _ (.refl _)))))))
  · show 1 < 2
    decide

end Aperod
