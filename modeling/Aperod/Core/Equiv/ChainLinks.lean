import Aperod.Core.Equiv.Undo
import Aperod.Go.Run

/-!
# The linkage of the chain

The abstract chain is the list of the retained blocks, oldest first (`Window`).  `Holds` says that the
three maps of a `Chain` are the maps of such a list.  Entering a block appends it to the list
(`Holds.restore`), and taking one out removes it (`Holds.orphan`), as long as no two blocks share a
hash, a height or a transaction (`Separate`).
-/

namespace Aperod

open Go GoMap Chain List

variable {C : Externals}
variable {m n : Nat} {a b : Block} {bs : List Block} {e : Block × Nat}

namespace Chain

variable {c c' : Chain} {old : Block} {w l r : List Block}

/-! ### The maps of a list of blocks -/

/-- The three maps are those of the blocks `w`. -/
structure Holds (C : Externals) (c : Chain) (w : List Block) : Prop where
  byHeight : ∀ n b, c.byHeight.get n = some b ↔ b ∈ w ∧ b.header.height = n
  blocks : ∀ h b, c.blocks.get h = some b ↔ b ∈ w ∧ b.hash C = h
  txIndex : ∀ h e, c.txIndex.get h = some e ↔ e.1 ∈ w ∧ (indexTxs C e.1 ∅).get h = some e

/-- Two blocks of different heights and hashes without a common transaction. -/
structure Separate (C : Externals) (a b : Block) : Prop where
  height : a.header.height ≠ b.header.height
  hash : a.hash C ≠ b.hash C
  txs : ∀ h ∈ txHashes C a, h ∉ txHashes C b

variable {t : Block} {h : Hash32} {max : Nat}

theorem Separate.symm (h : Separate C a b) : Separate C b a :=
  ⟨h.height.symm, h.hash.symm, fun k hb ha => h.txs k ha hb⟩

theorem exists_indexTxs_empty (hmem : h ∈ txHashes C b) : ∃ e, (indexTxs C b ∅).get h = some e := by
  rw [← map_hash_zipIdx] at hmem
  exact get_foldl_set_of_mem hmem

/-- An entry for a block names the block and a position of the transaction there. -/
theorem get_indexTxs_empty (hget : (indexTxs C b ∅).get h = some e) :
    e.1 = b ∧ ∃ tx, b.txs[e.2]? = some tx ∧ tx.hash C = h := by
  rcases get_foldl_set_some hget with hnone | ⟨⟨tx, i⟩, hmem, hkey, rfl⟩
  · rw [get_empty] at hnone
    cases hnone
  · exact ⟨rfl, tx, mem_zipIdx_iff_getElem?.mp hmem, hkey⟩

theorem mem_txHashes_of_get (hget : (indexTxs C b ∅).get h = some e) :
    h ∈ txHashes C b := by
  obtain ⟨-, tx, htx, rfl⟩ := get_indexTxs_empty hget
  exact mem_map_of_mem (mem_of_getElem? htx)

theorem Holds.restore (hc : Holds C c w) (hsep : ∀ a ∈ w, Separate C a b) :
    Holds C (c.restore C b) (w ++ [b]) := by
  have hmem : ∀ {x : Block}, x ∈ w ++ [b] ↔ x ∈ w ∨ x = b := by
    intro x
    rw [mem_append, mem_singleton]
  refine ⟨fun n x => ?_, fun h x => ?_, fun h e => ?_⟩
  · show (c.byHeight.set b.header.height b).get n = some x ↔ _
    rw [get_set, hmem]
    split_ifs with hn
    · constructor
      · rintro ⟨⟩
        exact ⟨.inr rfl, hn.symm⟩
      · rintro ⟨hx | rfl, hheight⟩
        · exact absurd (hheight.trans hn) (hsep x hx).height
        · rfl
    · rw [hc.byHeight]
      constructor
      · exact fun hx => ⟨.inl hx.1, hx.2⟩
      · rintro ⟨hx | rfl, hheight⟩
        · exact ⟨hx, hheight⟩
        · exact absurd hheight.symm hn
  · show (c.blocks.set (b.hash C) b).get h = some x ↔ _
    rw [get_set, hmem]
    split_ifs with hh
    · constructor
      · rintro ⟨⟩
        exact ⟨.inr rfl, hh.symm⟩
      · rintro ⟨hx | rfl, hhash⟩
        · exact absurd (hhash.trans hh) (hsep x hx).hash
        · rfl
    · rw [hc.blocks]
      constructor
      · exact fun hx => ⟨.inl hx.1, hx.2⟩
      · rintro ⟨hx | rfl, hhash⟩
        · exact ⟨hx, hhash⟩
        · exact absurd hhash.symm hh
  · show (indexTxs C b c.txIndex).get h = some e ↔ _
    rw [(overwrites_indexTxs b).get, hmem]
    split_ifs with hh
    · constructor
      · intro hget
        have hb := (get_indexTxs_empty hget).1
        exact ⟨.inr hb, hb ▸ hget⟩
      · rintro ⟨hx | hb, hget⟩
        · exact absurd hh ((hsep e.1 hx).txs h (mem_txHashes_of_get hget))
        · exact hb ▸ hget
    · rw [hc.txIndex]
      constructor
      · exact fun hx => ⟨.inl hx.1, hx.2⟩
      · rintro ⟨hx | hb, hget⟩
        · exact ⟨hx, hget⟩
        · exact absurd (hb ▸ mem_txHashes_of_get hget) hh

theorem Holds.orphan (hc : Holds C c (l ++ old :: r)) (hsep : ∀ a ∈ l ++ r, Separate C a old) :
    Holds C (c.orphan C old.header.height) (l ++ r) := by
  have hmem : ∀ {x : Block}, x ∈ l ++ old :: r ↔ x ∈ l ++ r ∨ x = old := by
    intro x
    simp only [mem_append, mem_cons]
    tauto
  have hold : c.byHeight.get old.header.height = some old :=
    (hc.byHeight _ _).mpr ⟨hmem.mpr (.inr rfl), rfl⟩
  unfold Chain.orphan
  rw [hold]
  refine ⟨fun n x => ?_, fun h x => ?_, fun h e => ?_⟩
  · show (c.byHeight.del old.header.height).get n = some x ↔ _
    rw [get_del]
    split_ifs with hn
    · constructor
      · rintro ⟨⟩
      · rintro ⟨hx, hheight⟩
        exact absurd (hheight.trans hn) (hsep x hx).height
    · rw [hc.byHeight, hmem]
      constructor
      · rintro ⟨hx | rfl, hheight⟩
        · exact ⟨hx, hheight⟩
        · exact absurd hheight.symm hn
      · exact fun hx => ⟨.inl hx.1, hx.2⟩
  · show (c.blocks.del (old.hash C)).get h = some x ↔ _
    rw [get_del]
    split_ifs with hh
    · constructor
      · rintro ⟨⟩
      · rintro ⟨hx, hhash⟩
        exact absurd (hhash.trans hh) (hsep x hx).hash
    · rw [hc.blocks, hmem]
      constructor
      · rintro ⟨hx | rfl, hhash⟩
        · exact ⟨hx, hhash⟩
        · exact absurd hhash.symm hh
      · exact fun hx => ⟨.inl hx.1, hx.2⟩
  · show (unindexTxs C old c.txIndex).get h = some e ↔ _
    rw [get_unindexTxs]
    split_ifs with hh
    · constructor
      · rintro ⟨⟩
      · rintro ⟨hx, hget⟩
        exact absurd hh ((hsep e.1 hx).txs h (mem_txHashes_of_get hget))
    · rw [hc.txIndex, hmem]
      constructor
      · rintro ⟨hx | hb, hget⟩
        · exact ⟨hx, hget⟩
        · exact absurd (hb ▸ mem_txHashes_of_get hget) hh
      · exact fun hx => ⟨.inl hx.1, hx.2⟩

theorem Holds.orphan_absent (hc : Holds C c w) (h : ∀ a ∈ w, a.header.height ≠ n) :
    c.orphan C n = c := by
  unfold Chain.orphan
  cases hget : c.byHeight.get n with
  | none => rfl
  | some a =>
    obtain ⟨ha, hn⟩ := (hc.byHeight n a).mp hget
    exact absurd hn (h a ha)

theorem Holds.stores (hc : Holds C c w) (hb : b ∈ w) : c.Stores C b := by
  refine ⟨(hc.blocks _ _).mpr ⟨hb, rfl⟩, (hc.byHeight _ _).mpr ⟨hb, rfl⟩, ?_⟩
  rw [(overwrites_indexTxs b).eq_self_iff]
  intro h hmem
  obtain ⟨e, he⟩ := exists_indexTxs_empty hmem
  have hfst := (get_indexTxs_empty he).1
  rw [he, hc.txIndex, hfst]
  exact ⟨hb, he⟩

/-! ### Windows -/

/-- The block `b` extends `a`. -/
def Extends (C : Externals) (a b : Block) : Prop :=
  b.header.height = a.header.height + 1 ∧ b.header.prevHash = a.hash C

/-- The retained blocks, oldest first: each extends the one before, and the window is not exceeded. -/
structure Window (C : Externals) (max : Nat) (w : List Block) : Prop where
  pos : 0 < max
  length_le : w.length ≤ max
  extending : w.IsChain (Extends C)
  separate : w.Pairwise (Separate C)

theorem heights_of_extending (h : (a :: w).IsChain (Extends C)) :
    (a :: w).map (·.header.height) = range' a.header.height (w.length + 1) := by
  induction w generalizing a with
  | nil => rfl
  | cons b w ih =>
    rw [isChain_cons_cons] at h
    rw [map_cons, ih h.2, h.1.1]
    rfl

theorem Window.heights (h : Window C max w) : ∃ lo,
    w.map (·.header.height) = range' lo w.length := by
  cases w with
  | nil => exact ⟨0, rfl⟩
  | cons a w => exact ⟨a.header.height, heights_of_extending h.extending⟩

theorem Window.height_bounds (h : Window C max w) (ha : a ∈ w) (ht : w.getLast? = some t) :
    a.header.height ≤ t.header.height ∧ t.header.height < a.header.height + w.length := by
  obtain ⟨lo, hlo⟩ := h.heights
  have hmem : a.header.height ∈ range' lo w.length := by
    rw [← hlo]
    exact mem_map_of_mem ha
  have hlast : (w.map (·.header.height)).getLast? = some t.header.height := by
    rw [getLast?_map, ht]
    rfl
  rw [hlo, getLast?_range'] at hlast
  rw [mem_range'_1] at hmem
  split_ifs at hlast with hzero
  have heq := Option.some.inj hlast
  omega

theorem evict_eq_orphan (n : Nat) : c.evict C n =
    if n ≥ c.maxInMemoryBlocks then c.orphan C (n - c.maxInMemoryBlocks) else c := rfl

@[simp] theorem orphan_maxInMemoryBlocks (n : Nat) :
    (c.orphan C n).maxInMemoryBlocks = c.maxInMemoryBlocks := by
  unfold Chain.orphan
  cases c.byHeight.get n <;> rfl

/-- A block that extends the window: it is appended, and the oldest block leaves a full window. -/
theorem Holds.install (hc : Holds C c w) (hw : Window C c.maxInMemoryBlocks w)
    (hlink : ∀ a, w.getLast? = some a → Extends C a b) (hsep : ∀ a ∈ w, Separate C a b) :
    ∃ w', Holds C (c.install C b) w' ∧ Window C c.maxInMemoryBlocks w' ∧ w'.getLast? = some b ∧
      ∀ x ∈ w', x ∈ w ∨ x = b := by
  have hrestored := hc.restore hsep
  have hchain : (w ++ [b]).IsChain (Extends C) := by
    rw [isChain_append]
    refine ⟨hw.extending, isChain_singleton b, fun a ha y hy => ?_⟩
    cases hy
    exact hlink a ha
  have hseparate : (w ++ [b]).Pairwise (Separate C) := by
    rw [pairwise_append]
    refine ⟨hw.separate, pairwise_singleton _ b, fun a ha y hy => ?_⟩
    rw [mem_singleton.mp hy]
    exact hsep a ha
  have hmax : (c.restore C b).maxInMemoryBlocks = c.maxInMemoryBlocks := rfl
  have hpos := hw.pos
  have hlen := hw.length_le
  unfold Chain.install
  rw [evict_eq_orphan, hmax]
  by_cases hfull : w.length < c.maxInMemoryBlocks
  · -- there is room, and no retained block is as low as the height that leaves
    have hwindow : Window C c.maxInMemoryBlocks (w ++ [b]) := by
      refine ⟨hpos, ?_, hchain, hseparate⟩
      rw [length_append, length_singleton]
      omega
    refine ⟨w ++ [b], ?_, hwindow, getLast?_concat, fun x hx => ?_⟩
    · split_ifs with hge
      · rw [hrestored.orphan_absent]
        · exact hrestored
        · intro a ha heq
          have hbounds := hwindow.height_bounds ha getLast?_concat
          rw [length_append, length_singleton] at hbounds
          omega
      · exact hrestored
    · rcases mem_append.mp hx with hx | hx
      · exact .inl hx
      · exact .inr (mem_singleton.mp hx)
  · -- the window is full, so the oldest block is at the height that leaves
    cases w with
    | nil => exact absurd (by simpa using hfull) (by omega)
    | cons a w =>
      rw [length_cons] at hlen hfull
      rw [cons_append] at hrestored hchain hseparate
      have hheights := heights_of_extending hchain
      have hlast : ((a :: (w ++ [b])).map (·.header.height)).getLast? = some b.header.height := by
        rw [getLast?_map, ← cons_append, getLast?_concat]
        rfl
      rw [hheights, getLast?_range', length_append, length_singleton] at hlast
      have heq := Option.some.inj hlast
      have hleaves : b.header.height - c.maxInMemoryBlocks = a.header.height := by omega
      rw [if_pos (by omega), hleaves]
      have hdrop : ∀ x ∈ [] ++ (w ++ [b]), Separate C x a := fun x hx =>
        ((pairwise_cons.mp hseparate).1 x hx).symm
      refine ⟨w ++ [b], Holds.orphan (r := w ++ [b]) hrestored hdrop, ⟨hpos, ?_, ?_, ?_⟩,
        getLast?_concat, fun x hx => ?_⟩
      · rw [length_append, length_singleton]
        omega
      · exact hchain.tail
      · exact (pairwise_cons.mp hseparate).2
      · rcases mem_append.mp hx with hx | hx
        · exact .inl (mem_cons_of_mem _ hx)
        · exact .inr (mem_singleton.mp hx)

theorem evict_withTip (t : Option Block) (n : Nat) :
    evict C { c with tip := t } n = { c.evict C n with tip := t } := by
  unfold evict
  split_ifs
  · cases c.byHeight.get (n - c.maxInMemoryBlocks) <;> rfl
  · rfl

theorem addBlock_install (h : c.addBlock C b = .ok c') :
    c' = { c.install C b with tip := some b } := by
  rw [addBlock_extend h]
  exact evict_withTip (c := c.restore C b) (some b) b.header.height

@[simp] theorem install_maxInMemoryBlocks :
    (c.install C b).maxInMemoryBlocks = c.maxInMemoryBlocks := evict_maxInMemoryBlocks _

theorem foldl_install_maxInMemoryBlocks (bs : List Block) :
    (bs.foldl (Chain.install C) c).maxInMemoryBlocks = c.maxInMemoryBlocks :=
  foldlRecOn (motive := fun d : Chain => d.maxInMemoryBlocks = c.maxInMemoryBlocks) bs _ rfl
    fun _ h _ _ => (install_maxInMemoryBlocks ..).trans h

theorem Holds.installAll (hc : Holds C c w) (hw : Window C c.maxInMemoryBlocks w)
    (hlink : (w.getLast?.toList ++ bs).IsChain (Extends C))
    (hsepw : ∀ a ∈ w, ∀ x ∈ bs, Separate C a x) (hsep : bs.Pairwise (Separate C)) :
    ∃ w', Holds C (bs.foldl (Chain.install C) c) w' ∧ Window C c.maxInMemoryBlocks w' ∧
      (w.getLast?.toList ++ bs).getLast? = w'.getLast? ∧ ∀ x ∈ w', x ∈ w ∨ x ∈ bs := by
  induction bs generalizing c w with
  | nil =>
    refine ⟨w, hc, hw, ?_, fun x hx => .inl hx⟩
    cases w.getLast? <;> rfl
  | cons b bs ih =>
    obtain ⟨hsepb, hsep⟩ := pairwise_cons.mp hsep
    have hfirst : ∀ a, w.getLast? = some a → Extends C a b := by
      intro a ha
      rw [ha, Option.toList_some, singleton_append, isChain_cons_cons] at hlink
      exact hlink.1
    obtain ⟨w1, hc1, hw1, hlast1, hsub⟩ :=
      hc.install hw hfirst fun a ha => hsepw a ha b mem_cons_self
    have hrest : (b :: bs).IsChain (Extends C) := (isChain_append.mp hlink).2.1
    have hlink1 : (w1.getLast?.toList ++ bs).IsChain (Extends C) := by
      rw [hlast1]
      exact hrest
    have hsepw1 : ∀ a ∈ w1, ∀ x ∈ bs, Separate C a x := by
      intro a ha x hx
      rcases hsub a ha with ha | rfl
      · exact hsepw a ha x (mem_cons_of_mem _ hx)
      · exact hsepb x hx
    rw [← install_maxInMemoryBlocks] at hw1 ⊢
    obtain ⟨w', hc', hw', hlast', hsub'⟩ := ih hc1 hw1 hlink1 hsepw1 hsep
    refine ⟨w', hc', hw', ?_, fun x hx => ?_⟩
    · rw [← hlast', hlast1, getLast?_append, getLast?_append]
      cases bs with
      | nil => rfl
      | cons x bs => rw [getLast?_cons_cons]; rfl
    · rcases hsub' x hx with hx | hx
      · rcases hsub x hx with hx | rfl
        · exact .inl hx
        · exact .inr mem_cons_self
      · exact .inr (mem_cons_of_mem _ hx)

/-! ### Taking out the blocks above a fork point -/

theorem Holds.orphan_filter (hc : Holds C c w) (hw : w.Pairwise (Separate C)) (n : Nat) :
    Holds C (c.orphan C n) (w.filter fun a => decide (a.header.height ≠ n)) := by
  by_cases hex : ∃ old ∈ w, old.header.height = n
  · obtain ⟨old, hmem, rfl⟩ := hex
    obtain ⟨l, r, rfl⟩ := append_of_mem hmem
    rw [pairwise_append, pairwise_cons] at hw
    obtain ⟨-, ⟨hr, -⟩, hl⟩ := hw
    have hsep : ∀ a ∈ l ++ r, Separate C a old := by
      intro a ha
      rcases mem_append.mp ha with ha | ha
      · exact hl a ha old mem_cons_self
      · exact (hr a ha).symm
    have hfilter : (l ++ old :: r).filter (fun a => decide (a.header.height ≠ old.header.height)) =
        l ++ r := by
      rw [filter_append, filter_cons_of_neg (by simp), ← filter_append,
        filter_eq_self]
      exact fun a ha => decide_eq_true (hsep a ha).height
    rw [hfilter]
    exact hc.orphan hsep
  · have habsent : ∀ a ∈ w, a.header.height ≠ n := fun a ha heq => hex ⟨a, ha, heq⟩
    rw [hc.orphan_absent habsent, filter_eq_self.mpr fun a ha => decide_eq_true (habsent a ha)]
    exact hc

theorem Holds.orphanAll (hc : Holds C c w) (hw : w.Pairwise (Separate C)) (ns : List Nat) :
    Holds C (ns.foldl (Chain.orphan C) c) (w.filter fun a => decide (a.header.height ∉ ns)) := by
  induction ns generalizing c w with
  | nil =>
    rw [filter_eq_self.mpr fun a _ => decide_eq_true not_mem_nil]
    exact hc
  | cons n ns ih =>
    have hrest := ih (hc.orphan_filter hw n) (hw.filter _)
    rw [filter_filter] at hrest
    have hcongr : (w.filter fun a => decide (a.header.height ∉ ns) &&
        decide (a.header.height ≠ n)) = w.filter fun a => decide (a.header.height ∉ n :: ns) := by
      congr 1
      funext a
      rw [← Bool.decide_and]
      congr 1
      rw [mem_cons, not_or, and_comm]
    rw [hcongr] at hrest
    exact hrest

theorem foldl_orphan_maxInMemoryBlocks (ns : List Nat) :
    (ns.foldl (Chain.orphan C) c).maxInMemoryBlocks = c.maxInMemoryBlocks :=
  foldlRecOn (motive := fun d : Chain => d.maxInMemoryBlocks = c.maxInMemoryBlocks) ns _ rfl
    fun _ h n _ => (orphan_maxInMemoryBlocks n).trans h

theorem filter_le_prefix (h : w.IsChain (Extends C)) (m : Nat) :
    (w.filter fun a => decide (a.header.height ≤ m)) <+: w := by
  induction w with
  | nil => exact prefix_refl _
  | cons a w ih =>
    by_cases ha : a.header.height ≤ m
    · rw [filter_cons_of_pos (by simpa using ha)]
      exact (prefix_cons_inj a).mpr (ih h.tail)
    · have hnone : ((a :: w).filter fun a => decide (a.header.height ≤ m)) = [] := by
        rw [filter_eq_nil_iff]
        intro x hx
        have hmem : x.header.height ∈ range' a.header.height (w.length + 1) := by
          rw [← heights_of_extending h]
          exact mem_map_of_mem hx
        rw [mem_range'_1] at hmem
        simp only [decide_eq_true_eq]
        omega
      rw [hnone]
      exact nil_prefix

theorem Window.below (h : Window C max w) (m : Nat) :
    Window C max (w.filter fun a => decide (a.header.height ≤ m)) := by
  obtain ⟨rest, hrest⟩ := filter_le_prefix h.extending m
  refine ⟨h.pos, (length_filter_le _ _).trans h.length_le, ?_, h.separate.filter _⟩
  have hchain := h.extending
  rw [← hrest, isChain_append] at hchain
  exact hchain.1

theorem Holds.orphanAbove (hc : Holds C c w) (hw : Window C c.maxInMemoryBlocks w)
    (ht : w.getLast? = some t) (forkPoint : Nat) :
    Holds C (c.orphanAbove C forkPoint t.header.height)
      (w.filter fun a => decide (a.header.height ≤ forkPoint)) := by
  have hall := hc.orphanAll hw.separate
    ((range (t.header.height - forkPoint)).map (t.header.height - ·))
  have hcongr : (w.filter fun a => decide (a.header.height ∉
      (range (t.header.height - forkPoint)).map (t.header.height - ·))) =
      w.filter fun a => decide (a.header.height ≤ forkPoint) := by
    apply filter_congr
    intro a ha
    have hbounds := hw.height_bounds ha ht
    rw [decide_eq_decide]
    constructor
    · intro hnot
      by_contra hlt
      refine hnot (mem_map.mpr ⟨t.header.height - a.header.height, ?_, ?_⟩)
      · rw [mem_range]
        omega
      · omega
    · intro hle hmem
      obtain ⟨i, hi, heq⟩ := mem_map.mp hmem
      rw [mem_range] at hi
      omega
  rw [hcongr] at hall
  exact hall

theorem Window.last_below (h : Window C max w) (ht : w.getLast? = some t)
    (hm : m ≤ t.header.height)
    (ha : (w.filter fun a => decide (a.header.height ≤ m)).getLast? = some a) :
    a ∈ w ∧ a.header.height = m := by
  obtain ⟨hmem, hle⟩ := mem_filter.mp (mem_of_getLast? ha)
  have hle := of_decide_eq_true hle
  refine ⟨hmem, ?_⟩
  by_contra hne
  obtain ⟨lo, hlo⟩ := h.heights
  have hin : ∀ {x : Block}, x ∈ w → x.header.height ∈ range' lo w.length := by
    intro x hx
    rw [← hlo]
    exact mem_map_of_mem hx
  have hat := hin hmem
  have htt := hin (mem_of_getLast? ht)
  rw [mem_range'_1] at hat htt
  have hnext : a.header.height + 1 ∈ w.map (·.header.height) := by
    rw [hlo, mem_range'_1]
    omega
  obtain ⟨x, hx, hheight⟩ := mem_map.mp hnext
  have hbelow : x ∈ w.filter fun a => decide (a.header.height ≤ m) :=
    mem_filter.mpr ⟨hx, decide_eq_true (by omega)⟩
  have hbounds := (h.below m).height_bounds hbelow ha
  omega

/-! ### The four calls -/

/-- Nothing the window holds stands in the way of undoing the addition of a separate block. -/
theorem Holds.undoable (hc : Holds C c w) (hw : Window C c.maxInMemoryBlocks w)
    (htip : c.tip = w.getLast?) (hne : b.header.height ≠ 0) (hsep : ∀ a ∈ w, Separate C a b) :
    c.Undoable C b where
  window := hw.pos
  height_ne_zero := hne
  block_fresh := by
    rw [Option.eq_none_iff_forall_ne_some]
    intro a hget
    obtain ⟨ha, hhash⟩ := (hc.blocks _ _).mp hget
    exact (hsep a ha).hash hhash
  height_fresh := by
    rw [Option.eq_none_iff_forall_ne_some]
    intro a hget
    obtain ⟨ha, hheight⟩ := (hc.byHeight _ _).mp hget
    exact (hsep a ha).height hheight
  txs_fresh tx htx := by
    rw [Option.eq_none_iff_forall_ne_some]
    intro e hget
    obtain ⟨ha, hindex⟩ := (hc.txIndex _ _).mp hget
    exact (hsep e.1 ha).txs _ (mem_txHashes_of_get hindex) (mem_map_of_mem htx)
  tip_stored tip h := hc.stores (mem_of_getLast? (htip.symm.trans h))
  evicted_stored old _ hget := by
    obtain ⟨ha, hheight⟩ := (hc.byHeight _ _).mp hget
    exact ⟨hheight, hc.stores ha⟩

end Chain

open Chain

namespace ChainCall

/-- The condition under which a call keeps the linkage.

* `SetGenesis` is called on an empty chain;
* a block that is added has a hash of its own and repeats no transaction of a retained block, and the
  height does not wrap around;
* the block that is rolled back is the tip;
* a reorganisation starts at or below the tip, its first block names the retained block at the fork
  point as its parent, and its blocks repeat no hash and no transaction of each other or of the
  retained blocks up to the fork point. -/
def Allowed (C : Externals) (s : ChainState) : ChainCall → Prop
  | .setGenesis _ => s.chain.tip = none
  | .addBlock b => b.header.height ≠ 0 ∧
      ∀ n a, s.chain.getByHeight n = some a → a.hash C ≠ b.hash C ∧
        ∀ h ∈ txHashes C a, h ∉ txHashes C b
  | .rollbackLastBlock b => s.chain.tip = some b
  | .reorg forkPoint newBlocks =>
      (∀ t, s.chain.tip = some t → forkPoint ≤ t.header.height) ∧
      (∀ b ∈ newBlocks, b.header.height ≠ 0) ∧
      (∀ a b, s.chain.getByHeight forkPoint = some a → newBlocks.head? = some b →
        b.header.prevHash = a.hash C) ∧
      (∀ n a, s.chain.getByHeight n = some a → n ≤ forkPoint → ∀ b ∈ newBlocks,
        a.hash C ≠ b.hash C ∧ ∀ h ∈ txHashes C a, h ∉ txHashes C b) ∧
      newBlocks.Pairwise fun a b => a.hash C ≠ b.hash C ∧ ∀ h ∈ txHashes C a, h ∉ txHashes C b

end ChainCall

/-- The chain of the state is that of a window. -/
structure Chain.Tracks (C : Externals) (c : Chain) (w : List Block) : Prop where
  holds : Holds C c w
  window : Window C c.maxInMemoryBlocks w
  tip : c.tip = w.getLast?
  height_lt : ∀ a ∈ w, a.header.height < 2 ^ 64

/-- What the calls keep: the chain is that of a window, and so was the one before the last block was
added. -/
structure ChainState.Tracks (C : Externals) (s : ChainState) : Prop where
  chain : ∃ w, s.chain.Tracks C w
  lastAdd : ∀ r, s.lastAdd = some r → ∃ c0 w0 b, Chain.Tracks C c0 w0 ∧ c0.Undoable C b ∧
    c0.addBlock C b = .ok s.chain ∧ r = c0.lastAdd C b

section Calls

variable {s s' : ChainState} {w : List Block}

variable {c c' : Chain}

theorem setGenesis_tracks (hc : c.Tracks C w) (h : c.setGenesis C b = .ok c') (htip : c.tip = none) :
    c'.Tracks C [b] := by
  obtain ⟨⟨⟩, hgenesis, h⟩ := unbind h
  cases h
  rw [failIf_eq_ok, not_or, not_not] at hgenesis
  have hempty : w = [] := getLast?_eq_none_iff.mp (hc.tip.symm.trans htip)
  subst hempty
  have hrestored := hc.holds.restore (b := b) fun a ha => absurd ha not_mem_nil
  refine ⟨⟨?_, hrestored.blocks, hrestored.txIndex⟩, ⟨hc.window.pos, hc.window.pos, ?_, ?_⟩, rfl,
    fun a ha => ?_⟩
  · intro n a
    have hbyHeight := hrestored.byHeight n a
    rw [show (c.restore C b).byHeight = c.byHeight.set b.header.height b from rfl, hgenesis.1]
      at hbyHeight
    exact hbyHeight
  · exact isChain_singleton b
  · exact pairwise_singleton _ b
  · rw [mem_singleton.mp ha, hgenesis.1]
    omega

theorem succHeight_eq (h : m = succHeight n) (hn : n < 2 ^ 64) (hm : m ≠ 0) : m = n + 1 := by
  unfold succHeight at h
  omega

theorem addBlock_tracks (hc : c.Tracks C w) (h : c.addBlock C b = .ok c')
    (hne : b.header.height ≠ 0) (hfresh : ∀ n a, c.getByHeight n = some a → a.hash C ≠ b.hash C ∧
      ∀ h ∈ txHashes C a, h ∉ txHashes C b) :
    (∃ w', c'.Tracks C w') ∧ c.Undoable C b := by
  obtain ⟨htip', -, tip, htip, hheight, hprev⟩ := addBlock_eq_ok h
  have hlast : w.getLast? = some tip := hc.tip.symm.trans htip
  have hlt := hc.height_lt tip (mem_of_getLast? hlast)
  have hsucc := succHeight_eq hheight hlt hne
  have hsep : ∀ a ∈ w, Separate C a b := by
    intro a ha
    obtain ⟨hhash, htxs⟩ := hfresh a.header.height a ((hc.holds.byHeight _ _).mpr ⟨ha, rfl⟩)
    have hbounds := hc.window.height_bounds ha hlast
    exact ⟨by omega, hhash, htxs⟩
  have hlink : ∀ a, w.getLast? = some a → Extends C a b := by
    intro a ha
    rw [hlast] at ha
    cases ha
    exact ⟨hsucc, hprev⟩
  refine ⟨?_, hc.holds.undoable hc.window hc.tip hne hsep⟩
  obtain ⟨w', hholds, hwindow, hlast', hsub⟩ := hc.holds.install hc.window hlink hsep
  cases addBlock_install h
  refine ⟨w', { hholds with }, ?_, hlast'.symm, fun a ha => ?_⟩
  · rw [← install_maxInMemoryBlocks] at hwindow
    exact hwindow
  · rcases hsub a ha with ha | rfl
    · exact hc.height_lt a ha
    · rw [hheight]
      exact Nat.mod_lt _ (by decide)

theorem rollbackLastBlock_tracks {c0 : Chain} (hc : c0.addBlock C b = .ok c)
    (hundo : c0.Undoable C b) {x : Block} (htip : c.tip = some x)
    (h : c.rollbackLastBlock C x (c0.lastAdd C b) = .ok c') : c' = c0 := by
  have heq : x = b := Option.some.inj (htip.symm.trans (addBlock_eq_ok hc).1)
  rw [heq, rollbackLastBlock_addBlock hundo hc] at h
  exact (Except.ok.inj h).symm

theorem extends_of_checkContiguous
    (h : checkContiguous C (a :: bs) = .ok ()) (hne : ∀ x ∈ bs, x.header.height ≠ 0)
    (ha : a.header.height < 2 ^ 64) :
    (a :: bs).IsChain (Extends C) ∧ ∀ x ∈ bs, x.header.height < 2 ^ 64 := by
  induction bs generalizing a with
  | nil => exact ⟨isChain_singleton a, fun x hx => absurd hx not_mem_nil⟩
  | cons b bs ih =>
    obtain ⟨⟨⟩, hheight, h⟩ := unbind h
    obtain ⟨⟨⟩, hprev, h⟩ := unbind h
    rw [failIf_eq_ok, not_not] at hheight hprev
    have hsucc := succHeight_eq hheight ha (hne b mem_cons_self)
    have hlt : b.header.height < 2 ^ 64 := by
      rw [hheight]
      exact Nat.mod_lt _ (by decide)
    obtain ⟨hchain, hbound⟩ := ih h (fun x hx => hne x (mem_cons_of_mem _ hx)) hlt
    refine ⟨isChain_cons_cons.mpr ⟨⟨hsucc, hprev⟩, hchain⟩, fun x hx => ?_⟩
    rcases mem_cons.mp hx with rfl | hx
    · exact hlt
    · exact hbound x hx

theorem pairwise_height_ne (h : bs.IsChain (Extends C)) :
    bs.Pairwise fun a b => a.header.height ≠ b.header.height := by
  cases bs with
  | nil => exact List.Pairwise.nil
  | cons a bs =>
    have hnodup : ((a :: bs).map (·.header.height)).Nodup := by
      rw [heights_of_extending h]
      exact nodup_range'
    exact pairwise_map.mp hnodup

theorem reorg_tracks {forkPoint : Nat} {newBlocks : List Block} (hc : c.Tracks C w)
    (h : c.reorg C forkPoint newBlocks = .ok c')
    (hallowed : ChainCall.Allowed C ⟨c, none⟩ (.reorg forkPoint newBlocks)) :
    ∃ w', c'.Tracks C w' := by
  obtain ⟨hfork, hne, hparent, hfresh, hdistinct⟩ := hallowed
  cases newBlocks with
  | nil => cases h
  | cons first rest =>
    obtain ⟨⟨⟩, hstart, h⟩ := unbind h
    obtain ⟨⟨⟩, hcontiguous, h⟩ := unbind h
    obtain ⟨t, htip, h⟩ := unbind h
    cases h
    rw [failIf_eq_ok, not_not] at hstart
    rw [deref_eq_ok] at htip
    have hlast : w.getLast? = some t := hc.tip.symm.trans htip
    have hle : forkPoint ≤ t.header.height := hfork t htip
    have ht := hc.height_lt t (mem_of_getLast? hlast)
    have hfirst : first.header.height = forkPoint + 1 :=
      succHeight_eq hstart (by omega) (hne first mem_cons_self)
    have hfirst_lt : first.header.height < 2 ^ 64 := by
      rw [hstart]
      exact Nat.mod_lt _ (by decide)
    obtain ⟨hchain, hbound⟩ := extends_of_checkContiguous hcontiguous
      (fun x hx => hne x (mem_cons_of_mem _ hx)) hfirst_lt
    have hretained : ∀ {a : Block}, a ∈ w → c.getByHeight a.header.height = some a := fun ha =>
      (hc.holds.byHeight _ _).mpr ⟨ha, rfl⟩
    -- the first new block extends the newest block that is kept
    have hlink : ((w.filter fun a => decide (a.header.height ≤ forkPoint)).getLast?.toList ++
        first :: rest).IsChain (Extends C) := by
      rw [isChain_append]
      cases hkeep : (w.filter fun a => decide (a.header.height ≤ forkPoint)).getLast? with
      | none => exact ⟨isChain_nil, hchain, fun a ha => by cases ha⟩
      | some a =>
        refine ⟨isChain_singleton a, hchain, fun x hx y hy => ?_⟩
        obtain rfl : a = x := Option.some.inj hx
        obtain rfl : first = y := Option.some.inj hy
        obtain ⟨hmem, hheight⟩ := hc.window.last_below hlast hle hkeep
        refine ⟨by omega, hparent a first ?_ rfl⟩
        rw [← hheight]
        exact hretained hmem
    have hheights := pairwise_height_ne hchain
    have hsep : (first :: rest).Pairwise (Separate C) :=
      (hheights.and hdistinct).imp fun hab => ⟨hab.1, hab.2.1, hab.2.2⟩
    have hsepw : ∀ a ∈ w.filter (fun a => decide (a.header.height ≤ forkPoint)),
        ∀ x ∈ first :: rest, Separate C a x := by
      intro a ha x hx
      obtain ⟨hmem, hbelow⟩ := mem_filter.mp ha
      have hbelow := of_decide_eq_true hbelow
      obtain ⟨hhash, htxs⟩ := hfresh _ a (hretained hmem) hbelow x hx
      have habove : x.header.height ∈ range' first.header.height (rest.length + 1) := by
        rw [← heights_of_extending hchain]
        exact mem_map_of_mem hx
      rw [mem_range'_1] at habove
      exact ⟨by omega, hhash, htxs⟩
    have hkept := hc.holds.orphanAbove hc.window hlast forkPoint
    have hmax : (c.orphanAbove C forkPoint t.header.height).maxInMemoryBlocks =
        c.maxInMemoryBlocks := foldl_orphan_maxInMemoryBlocks _
    have hwindow := hc.window.below forkPoint
    rw [← hmax] at hwindow
    obtain ⟨w', hholds, hwindow', hlast', hsub⟩ := hkept.installAll hwindow hlink hsepw hsep
    refine ⟨w', { hholds with }, ?_, ?_, fun a ha => ?_⟩
    · have hmax' := foldl_install_maxInMemoryBlocks (C := C)
        (c := c.orphanAbove C forkPoint t.header.height) (first :: rest)
      rw [← hmax'] at hwindow'
      exact hwindow'
    · show (first :: rest).getLast? = w'.getLast?
      rw [← hlast', getLast?_append]
      rfl
    · rcases hsub a ha with ha | ha
      · exact hc.height_lt a (mem_filter.mp ha).1
      · rcases mem_cons.mp ha with rfl | ha
        · exact hfirst_lt
        · exact hbound a ha

/-- **What each of the four calls does to the window.** -/
theorem ChainState.Tracks.call {e : ChainCall} (hs : s.Tracks C) (h : s.call C e = .ok s')
    (hallowed : e.Allowed C s) : s'.Tracks C := by
  obtain ⟨w, hc⟩ := hs.chain
  cases e with
  | setGenesis b =>
    obtain ⟨chain, hchain, h⟩ := unbind h
    cases h
    exact ⟨⟨[b], setGenesis_tracks hc hchain hallowed⟩, fun r hr => by cases hr⟩
  | addBlock b =>
    obtain ⟨chain, hchain, h⟩ := unbind h
    cases h
    obtain ⟨hne, hfresh⟩ := hallowed
    obtain ⟨htracks, hundo⟩ := addBlock_tracks hc hchain hne hfresh
    refine ⟨htracks, fun r hr => ?_⟩
    cases hr
    exact ⟨s.chain, w, b, hc, hundo, hchain, rfl⟩
  | rollbackLastBlock b =>
    unfold ChainState.call at h
    cases hlast : s.lastAdd with
    | none =>
      rw [hlast] at h
      cases h
    | some r =>
      rw [hlast] at h
      obtain ⟨chain, hchain, h⟩ := unbind h
      cases h
      obtain ⟨c0, w0, b0, hc0, hundo, hadd, rfl⟩ := hs.lastAdd r hlast
      cases rollbackLastBlock_tracks hadd hundo hallowed hchain
      exact ⟨⟨w0, hc0⟩, fun r hr => by cases hr⟩
  | reorg forkPoint newBlocks =>
    obtain ⟨chain, hchain, h⟩ := unbind h
    cases h
    exact ⟨reorg_tracks hc hchain hallowed, fun r hr => by cases hr⟩

end Calls

/-! ### Runs -/

/-- The linkage of the retained blocks. -/
structure Chain.Consistent (C : Externals) (c : Chain) : Prop where
  /-- The retained heights are a range that ends at the tip. -/
  contiguous : ∃ lo, ∀ n, (∃ b, c.getByHeight n = some b) ↔
    lo ≤ n ∧ ∃ tip, c.tip = some tip ∧ n ≤ tip.header.height
  tip : ∀ tip, c.tip = some tip → c.getByHeight tip.header.height = some tip
  links : ∀ n a b, c.getByHeight n = some a → c.getByHeight (n + 1) = some b →
    b.header.prevHash = a.hash C
  /-- The two maps are of the same blocks, each under its own height and hash. -/
  same : ∀ b, c.getByHeight b.header.height = some b ↔ c.getByHash (b.hash C) = some b
  byHeight : ∀ n b, c.getByHeight n = some b → b.header.height = n
  byHash : ∀ h b, c.getByHash h = some b → b.hash C = h
  found : ∀ n b tx, c.getByHeight n = some b → tx ∈ b.txs →
    ∃ tx' b' i, c.getTransaction (tx.hash C) = .ok (some (tx', b', i)) ∧
      tx'.hash C = tx.hash C ∧ tx' ∈ b'.txs

namespace Chain

variable {c : Chain} {w : List Block}

theorem Tracks.heights (hc : c.Tracks C w) : ∃ lo, ∀ n, (∃ b ∈ w, b.header.height = n) ↔
    lo ≤ n ∧ ∃ tip, c.tip = some tip ∧ n ≤ tip.header.height := by
  obtain ⟨lo, hlo⟩ := hc.window.heights
  refine ⟨lo, fun n => ?_⟩
  have hmem : (∃ b ∈ w, b.header.height = n) ↔ n ∈ range' lo w.length := by
    rw [← hlo, mem_map]
  rw [hmem, mem_range'_1, hc.tip]
  cases hlast : w.getLast? with
  | none =>
    rw [getLast?_eq_none_iff.mp hlast]
    constructor
    · intro h
      exact absurd h.2 (by simp only [length_nil]; omega)
    · rintro ⟨-, tip, htip, -⟩
      cases htip
  | some tip =>
    have htip : (w.map (·.header.height)).getLast? = some tip.header.height := by
      rw [getLast?_map, hlast]
      rfl
    rw [hlo, getLast?_range'] at htip
    split_ifs at htip with hzero
    have heq := Option.some.inj htip
    constructor
    · intro h
      exact ⟨h.1, tip, rfl, by omega⟩
    · rintro ⟨hle, t, ht, hn⟩
      cases ht
      omega

/-- Of two retained blocks at neighbouring heights, the upper one extends the lower one. -/
theorem Tracks.extends (hc : c.Tracks C w) (ha : a ∈ w) (hb : b ∈ w)
    (hheight : b.header.height = a.header.height + 1) : Extends C a b := by
  obtain ⟨l, r, rfl⟩ := append_of_mem ha
  have hchain := (isChain_append.mp hc.window.extending).2.1
  cases r with
  | nil =>
    have hbounds := hc.window.height_bounds hb getLast?_concat
    omega
  | cons x r =>
    rw [isChain_cons_cons] at hchain
    have hx : x ∈ l ++ a :: x :: r :=
      mem_append_right _ (mem_cons_of_mem _ mem_cons_self)
    have hgetx := (hc.holds.byHeight _ x).mpr ⟨hx, hchain.1.1⟩
    have hgetb := (hc.holds.byHeight _ b).mpr ⟨hb, hheight⟩
    rw [hgetx] at hgetb
    cases hgetb
    exact hchain.1

theorem Tracks.consistent (hc : c.Tracks C w) : c.Consistent C := by
  have hbyHeight : ∀ n b, c.getByHeight n = some b ↔ b ∈ w ∧ b.header.height = n :=
    hc.holds.byHeight
  have hbyHash : ∀ h b, c.getByHash h = some b ↔ b ∈ w ∧ b.hash C = h := hc.holds.blocks
  refine ⟨?_, fun tip htip => ?_, fun n a b ha hb => ?_, fun b => ?_,
    fun n b hb => ((hbyHeight n b).mp hb).2, fun h b hb => ((hbyHash h b).mp hb).2,
    fun n b tx hb htx => ?_⟩
  · obtain ⟨lo, hlo⟩ := hc.heights
    refine ⟨lo, fun n => ?_⟩
    rw [← hlo]
    exact exists_congr (hbyHeight n)
  · exact (hbyHeight _ _).mpr ⟨mem_of_getLast? (hc.tip.symm.trans htip), rfl⟩
  · obtain ⟨ha, han⟩ := (hbyHeight _ _).mp ha
    obtain ⟨hb, hbn⟩ := (hbyHeight _ _).mp hb
    exact (hc.extends ha hb (by omega)).2
  · rw [hbyHeight, hbyHash]
    exact ⟨fun h => ⟨h.1, rfl⟩, fun h => ⟨h.1, rfl⟩⟩
  · have hmem : tx.hash C ∈ txHashes C b := mem_map_of_mem htx
    obtain ⟨e, he⟩ := exists_indexTxs_empty hmem
    obtain ⟨hblock, tx', htx', hhash⟩ := get_indexTxs_empty he
    have hindex : c.txIndex.get (tx.hash C) = some e := by
      rw [hc.holds.txIndex, hblock]
      exact ⟨((hbyHeight _ _).mp hb).1, he⟩
    refine ⟨tx', b, e.2, ?_, hhash, mem_of_getElem? htx'⟩
    unfold getTransaction
    rw [hindex, ← hblock]
    refine bind_eq_ok.mpr ⟨tx', index_eq_ok.mpr ?_, rfl⟩
    rw [hblock]
    exact htx'

end Chain

/-- A call that returns no error and meets the condition. -/
def ChainState.Step (C : Externals) (s : ChainState) (e : ChainCall) (s' : ChainState) : Prop :=
  s.call C e = .ok s' ∧ e.Allowed C s

theorem newChain_tracks (maxBlocks : Nat) : ChainState.Tracks C ⟨newChain maxBlocks, none⟩ := by
  refine ⟨⟨[], ⟨?_, ?_, ?_⟩, ⟨?_, Nat.zero_le _, isChain_nil, List.Pairwise.nil⟩, rfl,
    fun a ha => absurd ha not_mem_nil⟩, fun r hr => by cases hr⟩
  · intro n b
    show (∅ : GoMap Nat Block).get n = some b ↔ _
    exact ⟨nofun, fun h => absurd h.1 not_mem_nil⟩
  · intro h b
    show (∅ : GoMap Hash32 Block).get h = some b ↔ _
    exact ⟨nofun, fun h => absurd h.1 not_mem_nil⟩
  · intro h e
    show (∅ : GoMap Hash32 (Block × Nat)).get h = some e ↔ _
    exact ⟨nofun, fun h => absurd h.1 not_mem_nil⟩
  · show 0 < if maxBlocks > 0 then maxBlocks else 1000
    split_ifs with hpos
    · exact hpos
    · decide

/-- **The linkage of the chain.**  After every run of `SetGenesis`, `AddBlock`, `RollbackLastBlock` and
`Reorg` calls that return no error and meet `ChainCall.Allowed`, on a new chain with any window: the
retained heights are a range that ends at the tip, each retained block names the one below as its
parent, both maps are of the same blocks, and every transaction of a retained block is found. -/
theorem chain_linkage {maxBlocks : Nat} {calls : List ChainCall} {s : ChainState}
    (hrun : Run (ChainState.Step C) ⟨newChain maxBlocks, none⟩ calls s) : s.chain.Consistent C := by
  have hinv : s.Tracks C := hrun.invariant (ChainState.Tracks C)
    (fun _ _ _ _ hs hstep => hs.call hstep.1 hstep.2) (newChain_tracks maxBlocks)
  obtain ⟨w, hc⟩ := hinv.chain
  exact hc.consistent

/-! ### Runs that break it -/

theorem run_of_loop {s t : ChainState} {calls : List ChainCall} {i : Nat}
    (h : loop (fun _ e s => s.call C e) i calls s = .ok t) :
    Run (fun s e t => s.call C e = .ok t) s calls t := by
  induction calls generalizing s i with
  | nil =>
    cases h
    exact .nil _
  | cons e calls ih =>
    obtain ⟨u, hu, hrest⟩ := loop_cons_eq_ok.mp h
    exact .cons hu (ih hrest)

/-- The block after the request repeats it, and with a window of two blocks the next one evicts the
first of the two. -/
def repeatingCalls : List ChainCall :=
  let second := Chain.blockOn requestBlock [sampleWithdrawal 1]
  [.setGenesis chainGenesis, .addBlock requestBlock, .addBlock second,
    .addBlock (Chain.blockOn second [])]

/-- A reorganisation at the tip to a block with another parent. -/
def strayBlock : Block := { header := { height := 2 } }

def strayCalls : List ChainCall :=
  [.setGenesis chainGenesis, .addBlock requestBlock, .reorg 1 [strayBlock]]

/-- Two runs without an error after which the linkage fails: a transaction of a retained block is not
found, and a retained block does not name the one below as its parent. -/
theorem linkage_fails :
    (∃ s, Run (fun s e t => ChainState.call hashing s e = .ok t) ⟨newChain 2, none⟩ repeatingCalls s ∧
      ∃ b tx, s.chain.getByHeight 2 = some b ∧ tx ∈ b.txs ∧
        s.chain.getTransaction (tx.hash hashing) = .ok none) ∧
    ∃ s, Run (fun s e t => ChainState.call hashing s e = .ok t) ⟨newChain 0, none⟩ strayCalls s ∧
      ∃ a b, s.chain.getByHeight 1 = some a ∧ s.chain.getByHeight 2 = some b ∧
        b.header.prevHash ≠ a.hash hashing := by
  constructor
  · obtain ⟨s, hs, hget, hlost⟩ : ∃ s, loop (fun _ e s => ChainState.call hashing s e) 0 repeatingCalls
        ⟨newChain 2, none⟩ = .ok s ∧
        s.chain.getByHeight 2 = some (Chain.blockOn requestBlock [sampleWithdrawal 1]) ∧
        s.chain.txIndex.get ((sampleWithdrawal 1).hash hashing) = none :=
      exists_ok_of_test (by decide +kernel)
    refine ⟨s, run_of_loop hs, _, sampleWithdrawal 1, hget, mem_singleton.mpr rfl, ?_⟩
    unfold getTransaction
    rw [hlost]
  · obtain ⟨s, hs, hlower, hupper⟩ : ∃ s, loop (fun _ e s => ChainState.call hashing s e) 0 strayCalls
        ⟨newChain 0, none⟩ = .ok s ∧ s.chain.getByHeight 1 = some requestBlock ∧
        s.chain.getByHeight 2 = some strayBlock := exists_ok_of_test (by decide +kernel)
    exact ⟨s, run_of_loop hs, _, _, hlower, hupper, by decide +kernel⟩

/-- The genesis block and a block with a transaction. -/
theorem request_linked : ∃ s, Run (ChainState.Step hashing) ⟨newChain 0, none⟩
    [.setGenesis chainGenesis, .addBlock requestBlock] s ∧ s.chain.Consistent hashing := by
  obtain ⟨s1, hs1, hmaps, htest⟩ : ∃ s1 : ChainState,
      ChainState.call hashing ⟨newChain 0, none⟩ (.setGenesis chainGenesis) = .ok s1 ∧
      s1.chain.byHeight = GoMap.set ∅ 0 chainGenesis ∧
      (s1.call hashing (.addBlock requestBlock)).toOption.isSome = true :=
    exists_ok_of_test (by decide +kernel)
  cases hs2 : s1.call hashing (.addBlock requestBlock) with
  | error err =>
    rw [hs2] at htest
    cases htest
  | ok s2 =>
    have hfresh : ∀ n a, s1.chain.getByHeight n = some a → a.hash hashing ≠ requestBlock.hash hashing ∧
        ∀ h ∈ txHashes hashing a, h ∉ txHashes hashing requestBlock := by
      intro n a hget
      unfold getByHeight at hget
      rw [hmaps, get_set] at hget
      split_ifs at hget
      · cases hget
        exact ⟨by decide +kernel, fun h hmem => absurd hmem not_mem_nil⟩
      · cases hget
    have hrun : Run (ChainState.Step hashing) ⟨newChain 0, none⟩
        [.setGenesis chainGenesis, .addBlock requestBlock] s2 :=
      .cons ⟨hs1, rfl⟩ (.cons ⟨hs2, by decide, hfresh⟩ (.nil _))
    exact ⟨s2, hrun, chain_linkage hrun⟩

end Aperod
