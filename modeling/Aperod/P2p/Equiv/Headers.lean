import Aperod.P2p.Headers
import Aperod.Core.Equiv.ChainLinks

/-!
# Does header synchronisation reach the tip?

A host serves a canonical chain; a peer that has a first part of it asks again and again.  The store
finds the last common block unless that is the genesis block: height 0 also stands for no common
block.  Then the answer comes from the window, which may have lost the first blocks.
-/

namespace Aperod

open Go Chain GoMap List

variable {C : Externals} {c q : Chain} {blocks p : List Block} {k j : Nat} {s : HeaderSources}

/-- The canonical blocks, by height. -/
structure Canonical (C : Externals) (blocks : List Block) : Prop where
  heights : ∀ n (h : n < blocks.length), blocks[n].header.height = n
  linked : blocks.IsChain (Extends C)

/-- The chain is that of `blocks`, with the heights from `k` on in its window. -/
structure Chain.Retains (C : Externals) (c : Chain) (blocks : List Block) (k : Nat) : Prop where
  low : k < blocks.length
  tip : c.tip = blocks.getLast?
  byHeight : ∀ n, c.byHeight.get n = if k ≤ n then blocks[n]? else none
  blocks : ∀ h b, c.blocks.get h = some b → b ∈ blocks ∧ b.hash C = h

/-- The host has the blocks in its store, and those from height `k` on in memory. -/
structure Serves (C : Externals) (s : HeaderSources) (blocks : List Block) (k : Nat) : Prop where
  canonical : Canonical C blocks
  headers : ∃ c, s.headers = some c ∧ c.Retains C blocks k
  byHash : ∃ f, s.blockByHash = some f ∧ ∀ b ∈ blocks, f (b.hash C) = some b
  byHeight : s.blockByHeight = some fun n => blocks[n]?

/-- The headers a peer with the blocks `p` is missing, as many as one answer holds. -/
def nextHeaders (blocks p : List Block) : List BlockHeader :=
  ((blocks.drop p.length).take 10).map (·.header)

theorem length_nextHeaders (blocks p : List Block) :
    (nextHeaders blocks p).length = min 10 (blocks.length - p.length) := by
  simp [nextHeaders]

theorem Chain.Retains.exists_tip (h : c.Retains C blocks k)
    (hheights : ∀ n (h : n < blocks.length), blocks[n].header.height = n) :
    ∃ tip, c.tip = some tip ∧ tip.header.height + 1 = blocks.length := by
  have hlow := h.low
  have hlast : blocks[blocks.length - 1]? = some (blocks[blocks.length - 1]) :=
    getElem?_eq_getElem (by omega)
  refine ⟨_, h.tip.trans (getLast?_eq_getElem?.trans hlast), ?_⟩
  have hheight := hheights (blocks.length - 1) (by omega)
  omega

/-- A walk over heights up to the tip finds the retained blocks. -/
theorem Chain.Retains.walk (h : c.Retains C blocks k) {a n : Nat} (hn : a + n = blocks.length) :
    (range' a n).filterMap c.byHeight.get = blocks.drop (max a k) := by
  induction n generalizing a with
  | zero =>
    rw [drop_eq_nil_of_le (by omega)]
    rfl
  | succ n ih =>
    rw [range'_succ, filterMap_cons, h.byHeight, ih (by omega)]
    by_cases hk : k ≤ a
    · rw [if_pos hk, getElem?_eq_getElem (by omega), max_eq_left hk, max_eq_left (by omega)]
      exact (drop_eq_getElem_cons (by omega)).symm
    · rw [if_neg hk, max_eq_right (by omega), max_eq_right (by omega)]

theorem Chain.Retains.tailHashes_eq (h : c.Retains C blocks k)
    (hheights : ∀ n (h : n < blocks.length), blocks[n].header.height = n) (n : Nat) :
    c.tailHashes C n = (blocks.drop (max (blocks.length - n) k)).map (·.hash C) := by
  obtain ⟨tip, htip, hheight⟩ := h.exists_tip hheights
  unfold Chain.tailHashes
  simp only [htip, hheight]
  rw [h.walk (by omega)]

theorem storedHeaders_eq (n limit : Nat) : storedHeaders (fun n => blocks[n]?) n limit =
    ((blocks.drop n).take limit).map (·.header) := by
  induction limit generalizing n with
  | zero => rfl
  | succ limit ih =>
    unfold storedHeaders
    by_cases hn : n < blocks.length
    · rw [getElem?_eq_getElem hn, drop_eq_getElem_cons hn, take_succ_cons, ih]
      rfl
    · rw [getElem?_eq_none (by omega), drop_eq_nil_of_le (by omega)]
      rfl

/-- The highest of the known blocks is the tip of the peer. -/
theorem foldl_heights {f : Hash32 → Option Block} (hf : ∀ b ∈ p, f (b.hash C) = some b)
    (hheights : ∀ n (h : n < p.length), p[n].header.height = n) {m d : Nat}
    (hd : m + d + 1 = p.length) (a : Nat) :
    ((p.drop m).map (·.hash C)).foldl
      (fun best h => max best ((f h).elim 0 (·.header.height))) a = max a (p.length - 1) := by
  induction d generalizing m a with
  | zero =>
    rw [drop_eq_getElem_cons (by omega), map_cons, foldl_cons,
      hf _ (getElem_mem _), drop_eq_nil_of_le (by omega), Option.elim_some,
      hheights m (by omega), map_nil, foldl_nil]
    omega
  | succ d ih =>
    rw [drop_eq_getElem_cons (by omega), map_cons, foldl_cons,
      hf _ (getElem_mem _), ih (by omega), Option.elim_some,
      hheights m (by omega)]
    omega

/-- From the genesis block on, the window answers with what it retains. -/
theorem Serves.headersFrom_genesis (hs : Serves C s blocks k) {g : Block} (hg : g ∈ blocks)
    (hzero : g.header.height = 0) (hc : c.Retains C blocks k) :
    c.headersFrom C [g.hash C] 10 = ((blocks.drop (max 1 k)).take 10).map (·.header) := by
  obtain ⟨tip, htip, hheight⟩ := hc.exists_tip hs.canonical.heights
  obtain ⟨f, -, hf⟩ := hs.byHash
  unfold Chain.headersFrom
  simp only [htip, foldl_cons, foldl_nil]
  have hstart : ((c.blocks.get (g.hash C)).filter fun b =>
      (c.byHeight.get b.header.height).any fun canon => canon.hash C = g.hash C).elim 1
        (fun b => max 1 (succHeight b.header.height)) = 1 := by
    cases hb : (c.blocks.get (g.hash C)).filter fun b =>
        (c.byHeight.get b.header.height).any fun canon => canon.hash C = g.hash C with
    | none => rfl
    | some b =>
      obtain ⟨hmem, hhash⟩ := hc.blocks _ _ (Option.filter_eq_some_iff.mp hb).1
      have hsame : some b = some g := by rw [← hf b hmem, hhash, hf g hg]
      rw [Option.some.inj hsame, Option.elim_some, hzero]
      rfl
  rw [hstart, hc.walk (by omega)]
  rfl

/-- What a host answers: the store finds the tip of the peer unless that is the genesis block. -/
theorem Serves.answer_eq (hs : Serves C s blocks k) (hq : q.Retains C p j) (hp : p <+: blocks)
    (hne : p ≠ blocks) : handleGetHeaders C s (requestHeaders C q) =
      if p.length = 1 then ((blocks.drop (max 1 k)).take 10).map (·.header)
      else nextHeaders blocks p := by
  obtain ⟨c, hc, hretains⟩ := hs.headers
  obtain ⟨f, hbyHash, hf⟩ := hs.byHash
  have hlow := hq.low
  have hlt : p.length < blocks.length :=
    lt_of_le_of_ne hp.length_le fun heq => hne (hp.eq_of_length heq)
  have hheights : ∀ n (h : n < p.length), p[n].header.height = n := by
    intro n hn
    rw [hp.getElem hn]
    exact hs.canonical.heights n _
  have hlimit : (if (500 : Int) ≤ 0 ∨ (500 : Int) > 10 then 10 else Int.toNat 500) = 10 := rfl
  unfold handleGetHeaders requestHeaders headersFromStore
  simp only [hc, hbyHash, hs.byHeight, hq.tailHashes_eq hheights, Option.elim_some, hlimit]
  rw [foldl_heights (fun b hb => hf b (hp.subset hb)) hheights
    (d := p.length - 1 - max (p.length - 32) j) (by omega), storedHeaders_eq, Nat.zero_max]
  by_cases hone : p.length = 1
  · obtain ⟨g, rfl⟩ := length_eq_one_iff.mp hone
    obtain rfl : j = 0 := Nat.lt_one_iff.mp hlow
    exact hs.headersFrom_genesis (hp.subset (mem_singleton.mpr rfl)) (hheights 0 hlow) hretains
  · have hsome : nextHeaders blocks p ≠ [] := by
      intro hnil
      have hlen := length_nextHeaders blocks p
      rw [hnil, length_nil] at hlen
      omega
    have hbest : ¬ p.length - 1 = 0 := by omega
    simp only [if_neg hone, if_neg hbest]
    rw [Nat.sub_add_cancel (by omega)]
    exact if_neg hsome

/-- A peer with the blocks `p` is answered with the next headers unless it has only the genesis block
and the window has lost the first block; and a peer that is answered so, and takes the blocks of the
headers, reaches the tip. -/
theorem header_sync_iff (hs : Serves C s blocks k) :
    (∀ q p j, Chain.Retains C q p j → p <+: blocks → p ≠ blocks →
      (handleGetHeaders C s (requestHeaders C q) = nextHeaders blocks p ↔ p.length ≠ 1 ∨ k ≤ 1)) ∧
    ∀ (q : Nat → Chain) (p : Nat → List Block) (j : Nat → Nat),
      (∀ i, (q i).Retains C (p i) (j i) ∧ p i <+: blocks) →
      (∀ i, p i ≠ blocks → (p (i + 1)).map (·.header) =
        (p i).map (·.header) ++ handleGetHeaders C s (requestHeaders C (q i))) →
      (p 0).length ≠ 1 ∨ k ≤ 1 → ∃ i, p i = blocks := by
  have hanswer : ∀ q p j, Chain.Retains C q p j → p <+: blocks → p ≠ blocks →
      (handleGetHeaders C s (requestHeaders C q) = nextHeaders blocks p ↔
        p.length ≠ 1 ∨ k ≤ 1) := by
    intro q p j hq hp hne
    rw [hs.answer_eq hq hp hne]
    by_cases hone : p.length = 1
    · rw [if_pos hone]
      constructor
      · intro heq
        -- the first headers of the two are those of the heights `max 1 k` and 1
        have hhead : ∀ n, (((blocks.drop n).take 10).map (·.header))[0]? =
            (blocks[n]?).map (·.header) := by
          intro n
          simp
        obtain ⟨c, -, hc⟩ := hs.headers
        have hlow := hc.low
        have hlt : p.length < blocks.length :=
          lt_of_le_of_ne hp.length_le fun h => hne (hp.eq_of_length h)
        have hmax : max 1 k < blocks.length := by omega
        have hfirst := (hhead _).symm.trans ((congrArg (·[0]?) heq).trans (hhead _))
        rw [getElem?_eq_getElem hmax, getElem?_eq_getElem hlt] at hfirst
        have hheight : (blocks[max 1 k]).header.height = blocks[p.length].header.height :=
          congrArg (·.height) (Option.some.inj hfirst)
        rw [hs.canonical.heights _ hmax, hs.canonical.heights _ hlt] at hheight
        exact .inr (by omega)
      · rintro (h | hk)
        · exact absurd hone h
        · rw [max_eq_left hk, ← hone]
          rfl
    · rw [if_neg hone]
      exact ⟨fun _ => .inl hone, fun _ => rfl⟩
  refine ⟨hanswer, fun q p j hq hstep hstart => ?_⟩
  by_contra hnever
  have hne : ∀ i, p i ≠ blocks := fun i h => hnever ⟨i, h⟩
  -- every answer adds a block, and after the first one there are two
  have hgrow : ∀ i, i + (p 0).length ≤ (p i).length := by
    intro i
    induction i with
    | zero => omega
    | succ i ih =>
      have hlow := (hq 0).1.low
      have hlt : (p i).length < blocks.length := lt_of_le_of_ne (hq i).2.length_le
        fun heq => hne i ((hq i).2.eq_of_length heq)
      have hok : (p i).length ≠ 1 ∨ k ≤ 1 := by
        rcases i with _ | i
        · exact hstart
        · exact .inl (by omega)
      have hnext := congrArg length (hstep i (hne i))
      rw [(hanswer _ _ _ (hq i).1 (hq i).2 (hne i)).mpr hok, length_append, length_map,
        length_map, length_nextHeaders] at hnext
      omega
  have hlast := hgrow blocks.length
  have hle := (hq blocks.length).2.length_le
  have hlow := (hq 0).1.low
  omega

/-! ### Windows of one block -/

def lastOnly (C : Externals) (b : Block) : Chain where
  blocks := set ∅ (b.hash C) b
  byHeight := set ∅ b.header.height b
  tip := some b

def hostOf (C : Externals) (l : List Block) (b : Block) : HeaderSources where
  headers := some (lastOnly C b)
  blockByHash := some fun h => (l ++ [b]).find? (·.hash C = h)
  blockByHeight := some fun n => (l ++ [b])[n]?

theorem lastOnly_retains (l : List Block) (b : Block) (hb : b.header.height = l.length) :
    (lastOnly C b).Retains C (l ++ [b]) l.length := by
  refine ⟨by simp, by simp [lastOnly], fun n => ?_, fun h a ha => ?_⟩
  · show (GoMap.set ∅ b.header.height b).get n = _
    rw [get_set, get_empty]
    by_cases hn : l.length ≤ n
    · rw [if_pos hn, getElem?_append_right hn, getElem?_singleton]
      exact if_congr (by omega) rfl rfl
    · rw [if_neg hn, if_neg (by omega)]
  · rw [lastOnly, get_set, get_empty] at ha
    split_ifs at ha with hh
    cases ha
    exact ⟨by simp, hh.symm⟩

/-- The host has three blocks and the last one in memory.  A peer with the genesis block is sent the
header of the last block. -/
theorem genesis_peer_skips : Serves hashing (hostOf hashing [chainGenesis, requestBlock] quietBlock)
      [chainGenesis, requestBlock, quietBlock] 2 ∧
    (lastOnly hashing chainGenesis).Retains hashing [chainGenesis] 0 ∧
    handleGetHeaders hashing (hostOf hashing [chainGenesis, requestBlock] quietBlock)
      (requestHeaders hashing (lastOnly hashing chainGenesis)) = [quietBlock.header] := by
  refine ⟨⟨⟨by decide +kernel, ?_⟩, ⟨_, rfl, lastOnly_retains [_, _] _ rfl⟩,
    ⟨_, rfl, by decide +kernel⟩, rfl⟩, lastOnly_retains [] _ rfl, by decide +kernel⟩
  exact .cons_cons ⟨rfl, rfl⟩ (.cons_cons ⟨rfl, rfl⟩ (.singleton _))

/-- With two blocks at the host the window begins where the peer's chain ends. -/
theorem genesis_peer_syncs : Serves hashing (hostOf hashing [chainGenesis] requestBlock)
      [chainGenesis, requestBlock] 1 ∧
    handleGetHeaders hashing (hostOf hashing [chainGenesis] requestBlock)
      (requestHeaders hashing (lastOnly hashing chainGenesis)) = [requestBlock.header] := by
  have hserves : Serves hashing (hostOf hashing [chainGenesis] requestBlock)
      [chainGenesis, requestBlock] 1 :=
    ⟨⟨by decide +kernel, .cons_cons ⟨rfl, rfl⟩ (.singleton _)⟩,
      ⟨_, rfl, lastOnly_retains [_] _ rfl⟩, ⟨_, rfl, by decide +kernel⟩, rfl⟩
  exact ⟨hserves, ((header_sync_iff hserves).1 _ [chainGenesis] 0 (lastOnly_retains [] _ rfl)
    ⟨_, rfl⟩ (by decide +kernel)).mpr (.inr le_rfl)⟩

end Aperod
