import Mathlib.Data.List.Nodup
import Mathlib.Data.Set.Function
import Mathlib.Tactic.Common

/-!
# Hash trees over a list

A list is reduced to one value by combining neighbours level by level, the last element of an odd
level with itself.  The value is determined by a binary tree, and the tree is what can be reasoned
about: `eval` forgets it, `build` makes it.

* `eval_inj_of_shape`, `eval_inj_of_leaf`: if the combining function has no collision on the pairs it
  is applied to, trees of one shape, or trees whose leaves are no combined values, are determined by
  their value.
* `build_inj_of_length`, `build_inj_of_nodup`: lists of one length, or lists without repetition, are
  determined by their tree.  Without either condition they are not: `[a, b, c]` and `[a, b, c, c]`
  have the same tree.
-/

namespace Aperod.Lib

open List

/-- A binary tree with values at the leaves. -/
inductive HashTree (α : Type)
  | leaf (a : α)
  | node (l r : HashTree α)
  deriving DecidableEq

namespace HashTree

variable {α : Type}

/-- The value of a tree under a combining function. -/
def eval (f : α → α → α) : HashTree α → α
  | leaf a => a
  | node l r => f (l.eval f) (r.eval f)

/-- The values at the leaves. -/
def leaves : HashTree α → List α
  | leaf a => [a]
  | node l r => l.leaves ++ r.leaves

/-- The pairs the combining function is applied to. -/
def pairs (f : α → α → α) : HashTree α → List (α × α)
  | leaf _ => []
  | node l r => (l.eval f, r.eval f) :: (l.pairs f ++ r.pairs f)

/-- The tree without its values. -/
def shape : HashTree α → HashTree Unit
  | leaf _ => leaf ()
  | node l r => node l.shape r.shape

/-- The tree is complete of the given depth. -/
def Full : Nat → HashTree α → Prop
  | 0, leaf _ => True
  | d + 1, node l r => Full d l ∧ Full d r
  | _, _ => False

/-! ### From values to trees -/

section Eval

variable {f : α → α → α} {P : Set (α × α)} {t u : HashTree α}

/-- The combining function has no collision on `P`. -/
def CollisionFree (f : α → α → α) (P : Set (α × α)) : Prop :=
  Set.InjOn (fun p => f p.1 p.2) P

theorem eval_inj_of_shape (hfree : CollisionFree f P) (ht : ∀ p ∈ t.pairs f, p ∈ P)
    (hu : ∀ p ∈ u.pairs f, p ∈ P) (hshape : t.shape = u.shape) (heval : t.eval f = u.eval f) :
    t = u := by
  induction t generalizing u with
  | leaf a =>
    cases u with
    | leaf b => exact congrArg leaf heval
    | node l r => cases hshape
  | node l r ihl ihr =>
    cases u with
    | leaf b => cases hshape
    | node l' r' =>
      simp only [pairs, mem_cons, mem_append] at ht hu
      obtain ⟨hl, hr⟩ := node.inj hshape
      have hpair := hfree (ht _ (.inl rfl)) (hu _ (.inl rfl)) heval
      obtain ⟨hevl, hevr⟩ := Prod.mk.inj hpair
      rw [ihl (fun p hp => ht p (.inr (.inl hp))) (fun p hp => hu p (.inr (.inl hp))) hl hevl,
        ihr (fun p hp => ht p (.inr (.inr hp))) (fun p hp => hu p (.inr (.inr hp))) hr hevr]

theorem eval_inj_of_leaf (hfree : CollisionFree f P) (ht : ∀ p ∈ t.pairs f, p ∈ P)
    (hu : ∀ p ∈ u.pairs f, p ∈ P) (htleaf : ∀ a ∈ t.leaves, ∀ p ∈ P, f p.1 p.2 ≠ a)
    (huleaf : ∀ a ∈ u.leaves, ∀ p ∈ P, f p.1 p.2 ≠ a) (heval : t.eval f = u.eval f) :
    t = u := by
  induction t generalizing u with
  | leaf a =>
    cases u with
    | leaf b => exact congrArg leaf heval
    | node l r =>
      exact absurd heval.symm (htleaf a mem_cons_self _ (hu _ mem_cons_self))
  | node l r ihl ihr =>
    cases u with
    | leaf b => exact absurd heval (huleaf b mem_cons_self _ (ht _ mem_cons_self))
    | node l' r' =>
      simp only [pairs, leaves, mem_cons, mem_append] at ht hu htleaf huleaf
      have hpair := hfree (ht _ (.inl rfl)) (hu _ (.inl rfl)) heval
      obtain ⟨hevl, hevr⟩ := Prod.mk.inj hpair
      rw [ihl (fun p hp => ht p (.inr (.inl hp))) (fun p hp => hu p (.inr (.inl hp)))
          (fun a ha => htleaf a (.inl ha)) (fun a ha => huleaf a (.inl ha)) hevl,
        ihr (fun p hp => ht p (.inr (.inr hp))) (fun p hp => hu p (.inr (.inr hp)))
          (fun a ha => htleaf a (.inr ha)) (fun a ha => huleaf a (.inr ha)) hevr]

end Eval

/-! ### From lists to trees -/

/-- One level: neighbours are combined, the last one of an odd level with itself. -/
def pairUp : List (HashTree α) → List (HashTree α)
  | [] => []
  | [t] => [node t t]
  | t :: t' :: ts => node t t' :: pairUp ts

/-- The tree of a list; every level is shorter, so the length of the list is enough fuel. -/
def build : Nat → List (HashTree α) → Option (HashTree α)
  | _, [t] => some t
  | 0, _ => none
  | fuel + 1, ts => build fuel (pairUp ts)

section Build

variable {ts us : List (HashTree α)} {t : HashTree α}

theorem length_pairUp : ∀ ts : List (HashTree α), (pairUp ts).length = (ts.length + 1) / 2
  | [] => by simp [pairUp]
  | [_] => by simp [pairUp]
  | t :: t' :: ts => by
    rw [pairUp, length_cons, length_pairUp ts, length_cons, length_cons]
    omega

theorem build_step {fuel : Nat} (h : ts.length ≠ 1) :
    build (fuel + 1) ts = build fuel (pairUp ts) := by
  match ts, h with
  | [], _ => rfl
  | _ :: _ :: _, _ => rfl

theorem build_cases {fuel : Nat} (h : build fuel ts = some t) :
    ts = [t] ∨ ts.length ≠ 1 ∧ ∃ fuel', fuel = fuel' + 1 ∧ build fuel' (pairUp ts) = some t := by
  by_cases hone : ts.length = 1
  · obtain ⟨x, rfl⟩ := length_eq_one_iff.mp hone
    cases fuel <;> cases h <;> exact .inl rfl
  · cases fuel with
    | zero =>
      match ts, hone, h with
      | [], _, h => cases h
      | _ :: _ :: _, _, h => cases h
    | succ fuel => exact .inr ⟨hone, fuel, rfl, by rwa [build_step hone] at h⟩

/-- The induction a built tree gives: over the levels. -/
theorem build_induction {motive : Nat → List (HashTree α) → Prop}
    (hone : ∀ fuel, motive fuel [t])
    (hstep : ∀ fuel ts, ts.length ≠ 1 → motive fuel (pairUp ts) → motive (fuel + 1) ts)
    {fuel : Nat} (h : build fuel ts = some t) : motive fuel ts := by
  induction fuel generalizing ts with
  | zero =>
    rcases build_cases h with rfl | ⟨-, _, hsucc, -⟩
    · exact hone 0
    · exact absurd hsucc (Nat.succ_ne_zero _).symm
  | succ fuel ih =>
    rcases build_cases h with rfl | ⟨hne, _, hsucc, hlevel⟩
    · exact hone _
    · cases hsucc
      exact hstep fuel ts hne (ih hlevel)

theorem exists_build {fuel : Nat} (hne : ts ≠ []) (hfuel : ts.length ≤ fuel + 1) :
    ∃ t, build fuel ts = some t := by
  induction fuel generalizing ts with
  | zero =>
    match ts, hne, hfuel with
    | [t], _, _ => exact ⟨t, rfl⟩
  | succ fuel ih =>
    by_cases hone : ts.length = 1
    · obtain ⟨t, rfl⟩ := length_eq_one_iff.mp hone
      exact ⟨t, rfl⟩
    · have hpos : 0 < ts.length := length_pos_iff.mpr hne
      have hlen := length_pairUp ts
      rw [build_step hone]
      refine ih ?_ (by omega)
      rintro hnil
      rw [hnil, length_nil] at hlen
      omega

theorem pairUp_inj_of_length : ∀ {ts us : List (HashTree α)}, ts.length = us.length →
    pairUp ts = pairUp us → ts = us
  | [], [], _, _ => rfl
  | [t], [u], _, h => by
    obtain ⟨ht, -⟩ := node.inj (cons.inj h).1
    rw [ht]
  | t :: t' :: ts, u :: u' :: us, hlen, h => by
    obtain ⟨hhead, htail⟩ := cons.inj h
    obtain ⟨ht, ht'⟩ := node.inj hhead
    have hlen' : ts.length = us.length := by
      rw [length_cons, length_cons, length_cons, length_cons] at hlen
      omega
    rw [ht, ht', pairUp_inj_of_length hlen' htail]
  | [_], _ :: _ :: _, hlen, _ => by simp at hlen
  | _ :: _ :: _, [_], hlen, _ => by simp at hlen

/-- A repetition at the end is the only thing a level forgets. -/
theorem pairUp_inj_of_nodup : ∀ {ts us : List (HashTree α)}, ts.Nodup → us.Nodup →
    pairUp ts = pairUp us → ts = us
  | [], [], _, _, _ => rfl
  | [], [_], _, _, h => by cases h
  | [], _ :: _ :: _, _, _, h => by cases h
  | [_], [], _, _, h => by cases h
  | _ :: _ :: _, [], _, _, h => by cases h
  | [t], [u], _, _, h => by
    obtain ⟨ht, -⟩ := node.inj (cons.inj h).1
    rw [ht]
  | [t], u :: u' :: us, _, hu, h => by
    obtain ⟨ht, ht'⟩ := node.inj (cons.inj h).1
    rw [← ht, ← ht', nodup_cons] at hu
    exact absurd mem_cons_self hu.1
  | t :: t' :: ts, [u], ht, _, h => by
    obtain ⟨hu, hu'⟩ := node.inj (cons.inj h).1
    rw [hu, hu', nodup_cons] at ht
    exact absurd mem_cons_self ht.1
  | t :: t' :: ts, u :: u' :: us, hts, hus, h => by
    obtain ⟨hhead, htail⟩ := cons.inj h
    obtain ⟨ht, ht'⟩ := node.inj hhead
    have hts' : ts.Nodup := (nodup_cons.mp (nodup_cons.mp hts).2).2
    have hus' : us.Nodup := (nodup_cons.mp (nodup_cons.mp hus).2).2
    rw [ht, ht', pairUp_inj_of_nodup hts' hus' htail]

theorem mem_pairUp : ∀ {ts : List (HashTree α)} {t : HashTree α}, t ∈ pairUp ts →
    ∃ l ∈ ts, ∃ r ∈ ts, t = node l r
  | [x], t, h => by
    rw [pairUp, mem_singleton] at h
    exact ⟨x, mem_cons_self, x, mem_cons_self, h⟩
  | x :: y :: ts, t, h => by
    rcases mem_cons.mp h with rfl | h
    · exact ⟨x, mem_cons_self, y, mem_cons_of_mem _ mem_cons_self, rfl⟩
    · obtain ⟨l, hl, r, hr, heq⟩ := mem_pairUp h
      exact ⟨l, mem_cons_of_mem _ (mem_cons_of_mem _ hl), r,
        mem_cons_of_mem _ (mem_cons_of_mem _ hr), heq⟩

theorem nodup_pairUp : ∀ {ts : List (HashTree α)}, ts.Nodup → (pairUp ts).Nodup
  | [], _ => nodup_nil
  | [_], _ => nodup_singleton _
  | t :: t' :: ts, h => by
    obtain ⟨ht, hrest⟩ := nodup_cons.mp h
    refine nodup_cons.mpr ⟨fun hmem => ?_, nodup_pairUp (nodup_cons.mp hrest).2⟩
    obtain ⟨l, hl, r, -, heq⟩ := mem_pairUp hmem
    obtain ⟨rfl, -⟩ := node.inj heq
    exact ht (mem_cons_of_mem _ hl)

theorem full_pairUp {d : Nat} (h : ∀ t ∈ ts, Full d t) : ∀ t ∈ pairUp ts, Full (d + 1) t := by
  intro t ht
  obtain ⟨l, hl, r, hr, rfl⟩ := mem_pairUp ht
  exact ⟨h l hl, h r hr⟩

theorem full_unique {d e : Nat} (hd : Full d t) (he : Full e t) : d = e := by
  induction t generalizing d e with
  | leaf a =>
    cases d with
    | zero =>
      cases e with
      | zero => rfl
      | succ e => exact he.elim
    | succ d => exact hd.elim
  | node l r ihl _ =>
    cases d with
    | zero => exact hd.elim
    | succ d =>
      cases e with
      | zero => exact he.elim
      | succ e => rw [ihl hd.1 he.1]

/-- Combining at least once makes the tree deeper. -/
theorem exists_full_build {fuel d : Nat} (hts : ∀ t ∈ ts, Full d t) (h : build fuel ts = some t) :
    ∃ e, Full e t ∧ d ≤ e ∧ (ts.length ≠ 1 → d < e) := by
  revert d
  refine build_induction (motive := fun _ ts => ∀ {d : Nat}, (∀ t ∈ ts, Full d t) →
    ∃ e, Full e t ∧ d ≤ e ∧ (ts.length ≠ 1 → d < e)) (fun _ d hts => ?_)
    (fun _ ts _ ih d hts => ?_) h
  · exact ⟨d, hts t mem_cons_self, le_rfl, absurd rfl⟩
  · obtain ⟨e, he, hle, -⟩ := ih (full_pairUp hts)
    exact ⟨e, he, by omega, fun _ => by omega⟩

/-- A tree that was combined is too deep to be an element. -/
theorem not_full_of_build {fuel d : Nat} (hts : ∀ t ∈ ts, Full d t) (h : build fuel ts = some t)
    (hne : ts.length ≠ 1) : ¬ Full d t := by
  intro hfull
  obtain ⟨e, he, -, hlt⟩ := exists_full_build hts h
  exact absurd (full_unique hfull he) (hlt hne).ne

theorem build_inj_of_length {n m : Nat} (hlen : ts.length = us.length)
    (ht : build n ts = some t) (hu : build m us = some t) : ts = us := by
  revert us m
  refine build_induction (motive := fun _ ts => ∀ {us m}, ts.length = us.length →
    build m us = some t → ts = us) (fun _ us m hlen hu => ?_) (fun _ ts hne ih us m hlen hu => ?_) ht
  · rcases build_cases hu with rfl | ⟨hne, -⟩
    · rfl
    · exact absurd hlen.symm hne
  · rcases build_cases hu with rfl | ⟨-, m', -, hu⟩
    · exact absurd hlen hne
    · refine pairUp_inj_of_length hlen (ih ?_ hu)
      rw [length_pairUp, length_pairUp, hlen]

theorem build_inj_of_nodup {n m d : Nat} (hts : ts.Nodup) (hus : us.Nodup)
    (hft : ∀ t ∈ ts, Full d t) (hfu : ∀ u ∈ us, Full d u) (ht : build n ts = some t)
    (hu : build m us = some t) : ts = us := by
  revert us m d
  refine build_induction (motive := fun n ts => ts.Nodup → build n ts = some t → ∀ {us m d},
    us.Nodup → (∀ t ∈ ts, Full d t) → (∀ u ∈ us, Full d u) → build m us = some t → ts = us)
    (fun _ hts ht us m d hus hft hfu hu => ?_)
    (fun n ts hne ih hts ht us m d hus hft hfu hu => ?_) ht hts ht
  · rcases build_cases hu with rfl | ⟨hne, -⟩
    · rfl
    · exact absurd (hft t mem_cons_self) (not_full_of_build hfu hu hne)
  · rcases build_cases hu with rfl | ⟨-, m', -, hu'⟩
    · exact absurd (hfu t mem_cons_self) (not_full_of_build hft ht hne)
    · rw [build_step hne] at ht
      exact pairUp_inj_of_nodup hts hus (ih (nodup_pairUp hts) ht (nodup_pairUp hus)
        (full_pairUp hft) (full_pairUp hfu) hu')

/-! ### Values of a built tree -/

/-- The pairs one level of values combines. -/
def levelPairs : List α → List (α × α)
  | [] => []
  | [a] => [(a, a)]
  | a :: b :: as => (a, b) :: levelPairs as

/-- The next level of values. -/
def level (f : α → α → α) (as : List α) : List α := (levelPairs as).map fun p => f p.1 p.2

/-- All pairs that are combined on the way to one value. -/
def reducePairs (f : α → α → α) : Nat → List α → List (α × α)
  | _, [_] => []
  | 0, _ => []
  | fuel + 1, as => levelPairs as ++ reducePairs f fuel (level f as)

theorem level_map_eval (f : α → α → α) : ∀ ts : List (HashTree α),
    level f (ts.map (eval f)) = (pairUp ts).map (eval f)
  | [] => by simp [level, levelPairs, pairUp]
  | [t] => by simp [level, levelPairs, pairUp, eval]
  | t :: t' :: ts => by
    have ih := level_map_eval f ts
    unfold level at ih ⊢
    rw [map_cons, map_cons, levelPairs, map_cons, ih, pairUp, map_cons]
    rfl

theorem mem_levelPairs {f : α → α → α} {l r : HashTree α} : ∀ {ts : List (HashTree α)},
    node l r ∈ pairUp ts → (l.eval f, r.eval f) ∈ levelPairs (ts.map (eval f))
  | [t], h => by
    rw [pairUp, mem_singleton] at h
    obtain ⟨rfl, rfl⟩ := node.inj h
    exact mem_cons_self
  | t :: t' :: ts, h => by
    rcases mem_cons.mp h with h | h
    · obtain ⟨rfl, rfl⟩ := node.inj h
      exact mem_cons_self
    · exact mem_cons_of_mem _ (mem_levelPairs h)

/-- What a built tree combines is what its elements combine and what `reducePairs` lists. -/
theorem pairs_build {f : α → α → α} {fuel : Nat} (h : build fuel ts = some t) :
    ∀ p ∈ t.pairs f, (∃ s ∈ ts, p ∈ s.pairs f) ∨ p ∈ reducePairs f fuel (ts.map (eval f)) := by
  refine build_induction (motive := fun fuel ts => ∀ p ∈ t.pairs f,
    (∃ s ∈ ts, p ∈ s.pairs f) ∨ p ∈ reducePairs f fuel (ts.map (eval f)))
    (fun _ p hp => .inl ⟨t, mem_cons_self, hp⟩) (fun fuel ts hne ih p hp => ?_) h
  have hstep : reducePairs f (fuel + 1) (ts.map (eval f)) =
      levelPairs (ts.map (eval f)) ++ reducePairs f fuel ((pairUp ts).map (eval f)) := by
    rw [← level_map_eval]
    match ts, hne with
    | [], _ => rfl
    | _ :: _ :: _, _ => rfl
  rw [hstep, mem_append]
  rcases ih p hp with ⟨s, hs, hps⟩ | hlater
  · -- a pair below one of the new nodes, or that node's own
    obtain ⟨l, hl, r, hr, rfl⟩ := mem_pairUp hs
    rcases mem_cons.mp hps with rfl | hps
    · exact .inr (.inl (mem_levelPairs hs))
    · rcases mem_append.mp hps with hps | hps
      · exact .inl ⟨l, hl, hps⟩
      · exact .inl ⟨r, hr, hps⟩
  · exact .inr (.inr hlater)

theorem leaves_build {fuel : Nat} (h : build fuel ts = some t) :
    ∀ a ∈ t.leaves, ∃ s ∈ ts, a ∈ s.leaves := by
  refine build_induction (motive := fun _ ts => ∀ a ∈ t.leaves, ∃ s ∈ ts, a ∈ s.leaves)
    (fun _ a ha => ⟨t, mem_cons_self, ha⟩) (fun _ ts _ ih a ha => ?_) h
  obtain ⟨s, hs, has⟩ := ih a ha
  obtain ⟨l, hl, r, hr, rfl⟩ := mem_pairUp hs
  rcases mem_append.mp has with has | has
  · exact ⟨l, hl, has⟩
  · exact ⟨r, hr, has⟩

theorem map_shape_pairUp : ∀ ts : List (HashTree α),
    (pairUp ts).map shape = pairUp (ts.map shape)
  | [] => rfl
  | [_] => rfl
  | t :: t' :: ts => by
    rw [pairUp, map_cons, map_shape_pairUp ts]
    rfl

theorem build_shape {fuel : Nat} (h : build fuel ts = some t) :
    build fuel (ts.map shape) = some t.shape := by
  refine build_induction (motive := fun fuel ts => build fuel (ts.map shape) = some t.shape)
    (fun fuel => ?_) (fun fuel ts hne ih => ?_) h
  · cases fuel <;> rfl
  · rw [build_step (by rwa [length_map]), ← map_shape_pairUp]
    exact ih

end Build

end HashTree

end Aperod.Lib
