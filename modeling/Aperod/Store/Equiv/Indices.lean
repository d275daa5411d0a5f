import Aperod.Go.Overwrite
import Aperod.Store.Commit

/-!
# The keys a block writes in the indices

A commit writes under the key images of the inputs, the sources of LPoD deposits, and the outputs with
their one-time keys; a rollback deletes these keys, whatever was there before the commit.  The keys of
a transaction are lists (`imageKeys`, `sourceKeys`, `outputKeys`, `pubKeys`), and

* `Written` says that nothing else changed in a commit, and that all the key images are marked, those
  of stake deposits (`stakeKeys`) too;
* `Erased` says that a rollback leaves none of them; it does not know the key images of stake deposits.

`Undoable` is what the indices must be like before the commit for the rollback to give them back.
-/

namespace Aperod.Store

open Go GoMap Records List

variable {A : Type} {C : Externals} {rollback : Bool} {height : UInt64} {w w' w1 : Records}
  {tx : Transaction} {txs txs' : List Transaction}

/-! ### Keys -/

def keysOf (f : Transaction → List A) (txs : List Transaction) : Set A := {k | ∃ tx ∈ txs, k ∈ f tx}

theorem keysOf_singleton (f : Transaction → List A) (tx : Transaction) :
    keysOf f [tx] = {k | k ∈ f tx} := by
  simp [keysOf]

theorem keysOf_append (f : Transaction → List A) (txs txs' : List Transaction) :
    keysOf f (txs ++ txs') = keysOf f txs ∪ keysOf f txs' := by
  ext k
  simp [keysOf, or_and_right, exists_or]

theorem keysOf_mono {f : Transaction → List A} (h : txs ⊆ txs') : keysOf f txs ⊆ keysOf f txs' := by
  rintro k ⟨tx, htx, hk⟩
  exact ⟨tx, h htx, hk⟩

def imageKeys (C : Externals) (tx : Transaction) : List KeyImage :=
  tx.keyImages.map (keyImageSpentKey C)

/-- The key of a version 4 stake deposit. -/
def stakeKeys (C : Externals) (tx : Transaction) : List KeyImage :=
  match stakeKeyImage tx with
  | .ok (some ki) => [keyImageSpentKey C ki]
  | _ => []

def outputKeys (C : Externals) (tx : Transaction) : List OutputKey :=
  tx.outputs.mapIdx fun i _ => (tx.hash C, UInt32.ofNat i)

def pubKeys (tx : Transaction) : List Point32 := tx.outputs.map (·.oneTimePub)

def sourceKeys (C : Externals) (tx : Transaction) : List OutputKey :=
  if ¬ tx.isLPoDPosition then []
  else match C.positionCodec.unmarshal tx.extra with
    | .ok a => if a.action = lpodDeposit then [(a.sourceTx, a.sourceIndex)] else []
    | .error _ => []

theorem storedOutputs_keys (C : Externals) (height : UInt64) (tx : Transaction) :
    (storedOutputs C height tx).map (fun u => (u.txHash, u.outputIndex)) = outputKeys C tx := by
  apply ext_getElem?
  intro i
  simp [storedOutputs, storedUTXO, outputKeys, Function.comp_def]

theorem storedOutputs_pubs (C : Externals) (height : UInt64) (tx : Transaction) :
    (storedOutputs C height tx).map (·.oneTimePub) = pubKeys tx := by
  apply ext_getElem?
  intro i
  simp [storedOutputs, storedUTXO, pubKeys, Function.comp_def]

/-! ### What is left alone -/

/-- Of the outputs only those that `txs` name were written. -/
structure Touched (C : Externals) (txs : List Transaction) (w w' : Records) : Prop where
  utxos : GoMap.AgreeOff (keysOf (outputKeys C) txs) w.utxos w'.utxos
  ringMembers : GoMap.AgreeOff (keysOf pubKeys txs) w.ringMembers w'.ringMembers
  spentUTXOs : GoMap.AgreeOff (keysOf (fun tx => sourceKeys C tx ++ outputKeys C tx) txs) w.spentUTXOs
    w'.spentUTXOs

/-- The indices of `txs` as a commit writes them. -/
structure Written (C : Externals) (txs : List Transaction) (w w' : Records) : Prop where
  touched : Touched C txs w w'
  keyImages : GoMap.Becomes (keysOf (fun tx => imageKeys C tx ++ stakeKeys C tx) txs) (some ())
    w.keyImages w'.keyImages

/-- The indices of `txs` were deleted, and no others. -/
structure Erased (C : Externals) (txs : List Transaction) (w w' : Records) : Prop where
  keyImages : GoMap.Becomes (keysOf (imageKeys C) txs) none w.keyImages w'.keyImages
  utxos : GoMap.Becomes (keysOf (outputKeys C) txs) none w.utxos w'.utxos
  ringMembers : GoMap.Becomes (keysOf pubKeys txs) none w.ringMembers w'.ringMembers
  spentUTXOs : GoMap.Becomes (keysOf (fun tx => sourceKeys C tx ++ outputKeys C tx) txs) none
    w.spentUTXOs w'.spentUTXOs

theorem Touched.refl (w : Records) : Touched C txs w w := ⟨.refl _, .refl _, .refl _⟩

theorem Touched.trans (h : Touched C txs w w1) (h' : Touched C txs w1 w') : Touched C txs w w' :=
  ⟨h.utxos.trans h'.utxos, h.ringMembers.trans h'.ringMembers, h.spentUTXOs.trans h'.spentUTXOs⟩

theorem Touched.mono (h : Touched C txs w w') (hsub : txs ⊆ txs') : Touched C txs' w w' :=
  ⟨h.utxos.mono (keysOf_mono hsub), h.ringMembers.mono (keysOf_mono hsub),
    h.spentUTXOs.mono (keysOf_mono hsub)⟩

theorem becomes_keysOf_nil {V : Type} [DecidableEq A] (f : Transaction → List A) (v : Option V)
    (m : GoMap A V) : GoMap.Becomes (keysOf f []) v m m :=
  ⟨.refl m, fun _ ⟨_, htx, _⟩ => absurd htx not_mem_nil⟩

theorem Written.nil (w : Records) : Written C [] w w := ⟨.refl w, becomes_keysOf_nil _ _ _⟩

theorem Written.append (h : Written C txs w w1) (h' : Written C txs' w1 w') :
    Written C (txs ++ txs') w w' := by
  refine ⟨?_, ?_⟩
  · exact (h.touched.mono (subset_append_left _ _)).trans
      (h'.touched.mono (subset_append_right _ _))
  · rw [keysOf_append]
    exact h.keyImages.trans h'.keyImages

theorem Erased.nil (w : Records) : Erased C [] w w :=
  ⟨becomes_keysOf_nil _ _ _, becomes_keysOf_nil _ _ _, becomes_keysOf_nil _ _ _,
    becomes_keysOf_nil _ _ _⟩

theorem Erased.append (h : Erased C txs w w1) (h' : Erased C txs' w1 w') :
    Erased C (txs ++ txs') w w' := by
  constructor <;> rw [keysOf_append]
  · exact h.keyImages.trans h'.keyImages
  · exact h.utxos.trans h'.utxos
  · exact h.ringMembers.trans h'.ringMembers
  · exact h.spentUTXOs.trans h'.spentUTXOs

theorem Erased.of_mem_iff (h : Erased C txs w w') (hmem : ∀ tx, tx ∈ txs ↔ tx ∈ txs') :
    Erased C txs' w w' := by
  have hkeys : ∀ {A : Type} (f : Transaction → List A), keysOf f txs = keysOf f txs' := by
    intro A f
    simp only [keysOf, hmem]
  constructor <;> rw [← hkeys]
  · exact h.keyImages
  · exact h.utxos
  · exact h.ringMembers
  · exact h.spentUTXOs

/-! ### One transaction -/

/-- The keys of a transaction can be read. -/
structure Indexable (C : Externals) (tx : Transaction) : Prop where
  images : ∀ inp ∈ tx.inputs, ∃ ki, C.canonicalKeyImage inp.keyImage = .ok ki
  source : tx.isLPoDPosition = true → ∃ a, C.positionCodec.unmarshal tx.extra = .ok a

theorem indexInput_eq_ok {inp : RingInput} :
    indexInput C rollback inp w = .ok w' ↔ (∃ ki, C.canonicalKeyImage inp.keyImage = .ok ki) ∧
      w' = { w with keyImages := mark rollback (keyImageSpentKey C inp.keyImage) w.keyImages } := by
  unfold indexInput keyImageSpentKey
  cases C.canonicalKeyImage inp.keyImage with
  | error err => simp
  | ok ki => simp [eq_comm]

theorem indexInputs_eq_ok {inputs : List RingInput} {i : Nat} :
    loop (fun _ => indexInput C rollback) i inputs w = .ok w' ↔
      (∀ inp ∈ inputs, ∃ ki, C.canonicalKeyImage inp.keyImage = .ok ki) ∧
      w' = { w with
        keyImages := inputs.foldl (fun m inp => mark rollback (keyImageSpentKey C inp.keyImage) m)
          w.keyImages } := by
  induction inputs generalizing i w with
  | nil => simp [eq_comm]
  | cons inp inputs ih =>
    rw [loop_cons_eq_ok]
    constructor
    · rintro ⟨w1, hhead, hrest⟩
      obtain ⟨hki, rfl⟩ := indexInput_eq_ok.mp hhead
      obtain ⟨hall, rfl⟩ := ih.mp hrest
      exact ⟨forall_mem_cons.mpr ⟨hki, hall⟩, rfl⟩
    · rintro ⟨hall, rfl⟩
      obtain ⟨hki, hall⟩ := forall_mem_cons.mp hall
      exact ⟨_, indexInput_eq_ok.mpr ⟨hki, rfl⟩, ih.mpr ⟨hall, rfl⟩⟩

theorem indexSource_eq_ok :
    indexSource C rollback tx w = .ok w' ↔
      (tx.isLPoDPosition = true → ∃ a, C.positionCodec.unmarshal tx.extra = .ok a) ∧
      w' = { w with
        spentUTXOs := (sourceKeys C tx).foldl (fun m k => mark rollback k m) w.spentUTXOs } := by
  unfold indexSource sourceKeys
  split_ifs with hposition
  · cases C.positionCodec.unmarshal tx.extra with
    | error err => simp [hposition]
    | ok a =>
      by_cases hdeposit : a.action = lpodDeposit
      · simp only [ok_bind, if_pos hdeposit, Except.ok.injEq, foldl_cons, foldl_nil]
        exact ⟨fun h => ⟨fun _ => ⟨a, rfl⟩, h.symm⟩, fun h => h.2.symm⟩
      · simp only [ok_bind, if_neg hdeposit, Except.ok.injEq, foldl_nil]
        exact ⟨fun h => ⟨fun _ => ⟨a, rfl⟩, h.symm⟩, fun h => h.2.symm⟩
  · rw [Except.ok.injEq]
    exact ⟨fun h => ⟨fun hyes => absurd hyes hposition, h.symm⟩, fun h => h.2.symm⟩

/-- The key images and the source of a transaction; its outputs come last. -/
theorem indexTx_eq_ok :
    indexTx C rollback height tx w = .ok w' ↔ Indexable C tx ∧
      w' = (storedOutputs C height tx).foldl
        (if rollback then deleteOutput else putOutput) { w with
          keyImages := (imageKeys C tx).foldl (fun m k => mark rollback k m) w.keyImages
          spentUTXOs := (sourceKeys C tx).foldl (fun m k => mark rollback k m) w.spentUTXOs } := by
  rw [imageKeys, Transaction.keyImages, map_map, foldl_map]
  constructor
  · intro h
    obtain ⟨w1, hinputs, h⟩ := unbind h
    obtain ⟨w2, hsource, h⟩ := unbind h
    obtain ⟨hall, rfl⟩ := indexInputs_eq_ok.mp hinputs
    obtain ⟨hread, rfl⟩ := indexSource_eq_ok.mp hsource
    exact ⟨⟨hall, hread⟩, (Except.ok.inj h).symm⟩
  · rintro ⟨⟨hall, hread⟩, rfl⟩
    exact bind_ok (indexInputs_eq_ok.mpr ⟨hall, rfl⟩) <|
      bind_ok (indexSource_eq_ok.mpr ⟨hread, rfl⟩) rfl

theorem foldl_deleteOutput (us : List StoredUTXO) (w : Records) :
    us.foldl deleteOutput w = { w with
      utxos := (us.map fun u => (u.txHash, u.outputIndex)).foldl (fun m k => m.del k) w.utxos
      ringMembers := (us.map (·.oneTimePub)).foldl (fun m k => m.del k) w.ringMembers
      spentUTXOs := (us.map fun u => (u.txHash, u.outputIndex)).foldl (fun m k => m.del k)
        w.spentUTXOs } := by
  induction us generalizing w with
  | nil => rfl
  | cons u us ih =>
    rw [foldl_cons, ih]
    rfl

theorem deleteOutputs_touched (h : tx ∈ txs) (w : Records) :
    Touched C txs w ((storedOutputs C height tx).foldl deleteOutput w) := by
  rw [foldl_deleteOutput, storedOutputs_keys, storedOutputs_pubs]
  refine ⟨(becomes_delKeys _).1.mono ?_, (becomes_delKeys _).1.mono ?_,
    (becomes_delKeys _).1.mono ?_⟩
  · exact fun k hk => ⟨tx, h, hk⟩
  · exact fun k hk => ⟨tx, h, hk⟩
  · exact fun k hk => ⟨tx, h, mem_append_right _ hk⟩

theorem putOutputs_touched (h : tx ∈ txs) (w : Records) :
    Touched C txs w ((storedOutputs C height tx).foldl putOutput w) := by
  -- one output after the other; each has its keys among those of the transaction
  suffices key : ∀ us ⊆ storedOutputs C height tx, ∀ w,
      Touched C txs w (us.foldl putOutput w) from key _ (List.Subset.refl _) w
  intro us
  induction us with
  | nil => exact fun _ w => .refl w
  | cons u us ih =>
    intro hus w
    obtain ⟨hu, hus⟩ := cons_subset.mp hus
    have hput : Touched C txs w (w.putOutput u) := by
      refine ⟨agreeOff_set _ ⟨tx, h, ?_⟩, agreeOff_set _ ⟨tx, h, ?_⟩, .refl _⟩
      · rw [← storedOutputs_keys C height tx]
        exact mem_map_of_mem hu
      · rw [← storedOutputs_pubs C height tx]
        exact mem_map_of_mem hu
    exact hput.trans (ih hus _)

theorem foldl_putOutput_keyImages (us : List StoredUTXO) (w : Records) :
    (us.foldl putOutput w).keyImages = w.keyImages :=
  foldlRecOn (motive := fun w' : Records => w'.keyImages = w.keyImages) us _ rfl fun _ h _ _ => h

theorem indexTx_touched (h : tx ∈ txs) (hindex : indexTx C false height tx w = .ok w') :
    Touched C txs w w' ∧
      GoMap.AgreeOff (keysOf (imageKeys C) txs) w.keyImages w'.keyImages := by
  obtain ⟨-, rfl⟩ := indexTx_eq_ok.mp hindex
  have hmarked : Touched C txs w { w with
      keyImages := (imageKeys C tx).foldl (fun m k => m.set k ()) w.keyImages
      spentUTXOs := (sourceKeys C tx).foldl (fun m k => m.set k ()) w.spentUTXOs } := by
    refine ⟨.refl _, .refl _, ?_⟩
    exact (becomes_setKeys _).1.mono fun k hk => ⟨tx, h, mem_append_left _ hk⟩
  refine ⟨hmarked.trans (putOutputs_touched h _), ?_⟩
  show GoMap.AgreeOff _ w.keyImages ((storedOutputs C height tx).foldl putOutput _).keyImages
  rw [foldl_putOutput_keyImages]
  exact (becomes_setKeys _).1.mono fun k hk => ⟨tx, h, hk⟩

theorem indexTx_erased (hindex : indexTx C true height tx w = .ok w') : Erased C [tx] w w' := by
  obtain ⟨-, rfl⟩ := indexTx_eq_ok.mp hindex
  rw [if_pos rfl, foldl_deleteOutput, storedOutputs_keys, storedOutputs_pubs]
  constructor <;> rw [keysOf_singleton]
  · exact becomes_delKeys _
  · exact becomes_delKeys _
  · exact becomes_delKeys _
  · show GoMap.Becomes _ none w.spentUTXOs ((outputKeys C tx).foldl (fun m k => m.del k)
      ((sourceKeys C tx).foldl (fun m k => m.del k) w.spentUTXOs))
    rw [← foldl_append]
    exact becomes_delKeys _

/-! ### Blocks -/

variable {b : Block}

theorem appendLPoDIndices_touched (h : appendLPoDIndices C false b w = .ok w') :
    Touched C b.txs w w' ∧
      GoMap.AgreeOff (keysOf (imageKeys C) b.txs) w.keyImages w'.keyImages := by
  refine loop_invariant (fun w1 => Touched C b.txs w w1 ∧
    GoMap.AgreeOff (keysOf (imageKeys C) b.txs) w.keyImages w1.keyImages) ?_ h ⟨.refl w, .refl _⟩
  rintro _ tx w1 w2 hmem ⟨htouched, himages⟩ hstep
  obtain ⟨htouched', himages'⟩ := indexTx_touched hmem hstep
  exact ⟨htouched.trans htouched', himages.trans himages'⟩

theorem appendLPoDIndices_indexable (h : appendLPoDIndices C rollback b w = .ok w') :
    ∀ tx ∈ b.txs, Indexable C tx := by
  intro tx htx
  obtain ⟨k, w1, w2, hstep⟩ := loop_mem h htx
  exact (indexTx_eq_ok.mp hstep).1

theorem exists_appendLPoDIndices (h : ∀ tx ∈ b.txs, Indexable C tx) (w : Records) :
    ∃ w', appendLPoDIndices C true b w = .ok w' ∧ Erased C b.txs w w' := by
  refine loop_progress (fun past w1 => Erased C past w w1) ?_ (.nil w)
  intro past k tx w1 hpast herased
  have htx : tx ∈ b.txs := hpast.subset (mem_append_right _ mem_cons_self)
  obtain ⟨w2, hstep⟩ : ∃ w2, indexTx C true (UInt64.ofNat b.header.height) tx w1 = .ok w2 :=
    ⟨_, indexTx_eq_ok.mpr ⟨h tx htx, rfl⟩⟩
  exact ⟨w2, hstep, herased.append (indexTx_erased hstep)⟩

theorem spendKeyImages_becomes {m m' : GoMap KeyImage Unit}
    (h : loop (fun _ => spendKeyImages C) 0 txs m = .ok m') :
    GoMap.Becomes (keysOf (fun tx => imageKeys C tx ++ stakeKeys C tx) txs) (some ()) m m' := by
  refine loop_past (fun past m1 =>
    GoMap.Becomes (keysOf (fun tx => imageKeys C tx ++ stakeKeys C tx) past) (some ()) m m1) ?_ h ?_
  · intro past k tx m1 m2 _ hpast hstep
    rw [keysOf_append, keysOf_singleton]
    refine hpast.trans ?_
    obtain ⟨stake, hstake, hstep⟩ := unbind hstep
    cases hstep
    have hkeys : imageKeys C tx ++ stakeKeys C tx =
        (tx.keyImages ++ stake.toList).map (keyImageSpentKey C) := by
      rw [stakeKeys, hstake, map_append]
      cases stake <;> rfl
    rw [hkeys, ← foldl_map (g := fun m k => GoMap.set m k ())]
    exact becomes_setKeys _
  · exact becomes_keysOf_nil _ _ m

theorem Written.of_indices {keyImages : GoMap KeyImage Unit}
    (h : appendLPoDIndices C false b w = .ok w')
    (hspend : loop (fun _ => spendKeyImages C) 0 b.txs w'.keyImages = .ok keyImages) :
    Written C b.txs w { w' with keyImages } := by
  obtain ⟨htouched, himages⟩ := appendLPoDIndices_touched h
  refine ⟨{ htouched with }, ?_⟩
  refine .of_agreeOff (himages.mono ?_) (spendKeyImages_becomes hspend)
  rintro k ⟨tx, htx, hk⟩
  exact ⟨tx, htx, mem_append_left _ hk⟩

/-! ### What a rollback needs -/

/-- Nothing was stored under the keys of `txs` that a rollback deletes, and the key images of their
stake deposits, which it does not delete, were marked already or are those of inputs too. -/
structure Undoable (C : Externals) (w : Records) (txs : List Transaction) : Prop where
  images : ∀ k ∈ keysOf (imageKeys C) txs, w.keyImages.get k = none
  stakes : ∀ k ∈ keysOf (stakeKeys C) txs, k ∉ keysOf (imageKeys C) txs → w.keyImages.get k = some ()
  outputs : ∀ k ∈ keysOf (outputKeys C) txs, w.utxos.get k = none ∧ w.spentUTXOs.get k = none
  pubs : ∀ k ∈ keysOf pubKeys txs, w.ringMembers.get k = none
  sources : ∀ k ∈ keysOf (sourceKeys C) txs, w.spentUTXOs.get k = none

/-- The indices after a commit of `txs` and a rollback; in between only outputs of `txs` changed. -/
theorem eq_iff_undoable {w2 w3 : Records} (hwritten : Written C txs w w1)
    (htouched : Touched C txs w1 w2) (hsame : w2.keyImages = w1.keyImages)
    (herased : Erased C txs w2 w3) : w3 = w ↔ Undoable C w txs := by
  have htouched := hwritten.touched.trans htouched
  have herasedImages := herased.keyImages
  rw [hsame] at herasedImages
  have himages := hwritten.keyImages.then_eq_iff herasedImages
  have hutxos := (GoMap.Becomes.of_agreeOff htouched.utxos herased.utxos).eq_iff
  have hring := (GoMap.Becomes.of_agreeOff htouched.ringMembers herased.ringMembers).eq_iff
  have hspent := (GoMap.Becomes.of_agreeOff htouched.spentUTXOs herased.spentUTXOs).eq_iff
  constructor
  · intro heq
    rw [heq] at himages hutxos hring hspent
    have himages := himages.mp rfl
    have hspent := hspent.mp rfl
    refine ⟨himages.1, ?_, ?_, hring.mp rfl, ?_⟩
    · rintro k ⟨tx, htx, hk⟩ hnot
      exact himages.2 k ⟨tx, htx, mem_append_right _ hk⟩ hnot
    · rintro k ⟨tx, htx, hk⟩
      exact ⟨hutxos.mp rfl k ⟨tx, htx, hk⟩, hspent k ⟨tx, htx, mem_append_right _ hk⟩⟩
    · rintro k ⟨tx, htx, hk⟩
      exact hspent k ⟨tx, htx, mem_append_left _ hk⟩
  · intro h
    have hk : w3.keyImages = w.keyImages := by
      refine himages.mpr ⟨h.images, ?_⟩
      rintro k ⟨tx, htx, hk⟩ hnot
      rcases mem_append.mp hk with hk | hk
      · exact absurd ⟨tx, htx, hk⟩ hnot
      · exact h.stakes k ⟨tx, htx, hk⟩ hnot
    have hu : w3.utxos = w.utxos := hutxos.mpr fun k hk => (h.outputs k hk).1
    have hr : w3.ringMembers = w.ringMembers := hring.mpr h.pubs
    have hs : w3.spentUTXOs = w.spentUTXOs := by
      refine hspent.mpr ?_
      rintro k ⟨tx, htx, hk⟩
      rcases mem_append.mp hk with hk | hk
      · exact h.sources k ⟨tx, htx, hk⟩
      · exact (h.outputs k ⟨tx, htx, hk⟩).2
    obtain ⟨k, u, r, s⟩ := w
    cases hk
    cases hu
    cases hr
    cases hs
    rfl

end Aperod.Store
