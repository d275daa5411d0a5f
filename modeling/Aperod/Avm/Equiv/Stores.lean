import Aperod.Avm.State
import Aperod.Go.Overwrite

/-!
# The stores agree

What a list of writes leaves under a key is the last write to it (`lastWrite`).  Every store follows
that (`LawfulStore`), with one difference: a value that is read back from LevelDB may be lost if it
is empty, since `GetAVMState` takes a nil slice for a missing key.  That is the only difference
(`stores_agree`).
-/

namespace Aperod.Avm

open Go GoMap List Store

variable {S B : Type} {ws : List Write} {key : Bytes}
variable {nilEmpty : Bool} {w : Write}

/-! ### The last write -/

/-- What a list of writes leaves under a key, if it writes to it. -/
def lastWrite : List Write → Bytes → Option (Option Bytes)
  | [], _ => none
  | w :: ws, key => (lastWrite ws key).or (if w.key = key then some w.value else none)

theorem lastWrite_append (ws ws' : List Write) (key : Bytes) :
    lastWrite (ws ++ ws') key = (lastWrite ws' key).or (lastWrite ws key) := by
  induction ws with
  | nil => simp [lastWrite]
  | cons w ws ih => rw [cons_append, lastWrite, lastWrite, ih, Option.or_assoc]

theorem lastWrite_eq_none (h : ∀ w ∈ ws, w.key ≠ key) : lastWrite ws key = none := by
  induction ws with
  | nil => rfl
  | cons w ws ih =>
    have hhead : w.key ≠ key := h w mem_cons_self
    rw [lastWrite, ih fun x hx => h x (mem_cons_of_mem _ hx), if_neg hhead]
    rfl

theorem lastWrite_of_nodup (hnodup : (ws.map (·.key)).Nodup) (hw : w ∈ ws) :
    lastWrite ws w.key = some w.value := by
  induction ws with
  | nil => exact absurd hw not_mem_nil
  | cons x ws ih =>
    rw [map_cons, nodup_cons] at hnodup
    rw [lastWrite]
    rcases mem_cons.mp hw with rfl | hw
    · have hnone : lastWrite ws w.key = none := by
        apply lastWrite_eq_none
        intro y hy heq
        exact hnodup.1 (heq ▸ mem_map_of_mem hy)
      rw [hnone, if_pos rfl]
      rfl
    · rw [ih hnodup.2 hw]
      rfl

theorem lastWrite_orderedWrites (m : GoMap Bytes (Option Bytes)) (key : Bytes) :
    lastWrite (orderedWrites m) key = m.get key := by
  have hkeys : (orderedWrites m).map (·.key) = m.sortedKeys := by
    rw [orderedWrites, map_map]
    exact map_id _
  cases hget : m.get key with
  | none =>
    apply lastWrite_eq_none
    rintro w hw rfl
    have hmem : w.key ∈ m.sortedKeys := hkeys ▸ mem_map_of_mem hw
    obtain ⟨v, hv⟩ := mem_sortedKeys.mp hmem
    rw [hget] at hv
    cases hv
  | some v =>
    have hmem : (⟨key, v⟩ : Write) ∈ orderedWrites m := by
      refine mem_map.mpr ⟨key, mem_sortedKeys.mpr ⟨v, hget⟩, ?_⟩
      rw [hget]
      rfl
    exact lastWrite_of_nodup (hkeys ▸ m.sortedKeys_nodup) hmem

theorem get_foldl_putOrDelete (ws : List Write) (data : GoMap Bytes Bytes) (key : Bytes) :
    (ws.foldl putOrDelete data).get key = (lastWrite ws key).getD (data.get key) := by
  induction ws generalizing data with
  | nil => rfl
  | cons w ws ih =>
    rw [foldl_cons, ih, lastWrite]
    cases lastWrite ws key with
    | some v => rfl
    | none =>
      by_cases heq : w.key = key
      · rw [if_pos heq, ← heq]
        cases hv : w.value <;> simp [putOrDelete, hv]
      · have hne : key ≠ w.key := Ne.symm heq
        rw [if_neg heq]
        cases hv : w.value <;> simp [putOrDelete, hv, get_set_ne hne, get_del_ne hne]

theorem get_foldl_stage (ws : List Write) (m : GoMap Bytes (Option Bytes)) (key : Bytes) :
    (ws.foldl (fun m w => m.set w.key w.value) m).get key = (lastWrite ws key).or (m.get key) := by
  induction ws generalizing m with
  | nil => rfl
  | cons w ws ih =>
    rw [foldl_cons, ih, lastWrite, Option.or_assoc]
    by_cases heq : w.key = key
    · rw [if_pos heq, ← heq, get_set_self]
      rfl
    · rw [if_neg heq, get_set_ne (Ne.symm heq)]
      rfl

/-! ### Laws -/

/-- A store that keeps what is written to it, but for empty values where it is lossy. -/
class LawfulStore (S : Type) extends Store S where
  lossy : S → Bool
  apply_iff : ∀ (s : S) (ws : List Write),
    (∃ s', apply s ws = .ok s') ↔ ∀ w ∈ ws, w.key ≠ []
  lossy_apply : ∀ {s s' : S} {ws : List Write}, apply s ws = .ok s' → lossy s' = lossy s
  report_apply : ∀ {s s' : S} {ws : List Write} (key : Bytes), apply s ws = .ok s' →
    report s' key = (lastWrite ws key).elim (report s key) (readBack (lossy s))

theorem failIf_emptyKey {α : Type} {msg : String} {a : α} :
    (∃ r, (failIf (∃ w ∈ ws, w.key = []) msg >>= fun _ => Except.ok a) = .ok r) ↔
      ∀ w ∈ ws, w.key ≠ [] := by
  simp only [bind_eq_ok, failIf_eq_ok]
  constructor
  · rintro ⟨r, ⟨⟩, hnone, -⟩ w hw hempty
    exact hnone ⟨w, hw, hempty⟩
  · intro h
    refine ⟨a, (), ?_, rfl⟩
    rintro ⟨w, hw, hempty⟩
    exact h w hw hempty

@[simp] theorem readBack_false (value : Option Bytes) : readBack false value = value := by
  cases value <;> simp [readBack]

theorem report_memory (s : MemoryStore) (key : Bytes) : report s key = s.data.get key := rfl

theorem report_level (s : LevelStore) (hkey : key ≠ []) :
    report s key = readBack s.nilEmpty (s.data.get key) := by
  simp [report, Store.get, failIf, hkey]

theorem report_level_nil (s : LevelStore) : report s [] = none := by
  simp [report, Store.get, failIf, fail]

theorem report_overlay [Store S] (s : OverlayStore S) (key : Bytes) :
    report s key = (s.writes.get key).elim (report s.base key) id := by
  simp only [report, Store.get]
  cases s.writes.get key <;> rfl

instance : LawfulStore MemoryStore where
  lossy _ := false
  apply_iff _ _ := failIf_emptyKey
  lossy_apply _ := rfl
  report_apply {s s' ws} key h := by
    replace h := past h
    cases h
    rw [report_memory, report_memory]
    show (ws.foldl putOrDelete s.data).get key = _
    rw [get_foldl_putOrDelete]
    cases lastWrite ws key <;> simp

instance : LawfulStore LevelStore where
  lossy s := s.nilEmpty
  apply_iff _ _ := failIf_emptyKey
  lossy_apply h := by
    replace h := past h
    cases h
    rfl
  report_apply {s s' ws} key h := by
    obtain ⟨⟨⟩, hkeys, h⟩ := unbind h
    cases h
    rw [failIf_eq_ok] at hkeys
    by_cases hkey : key = []
    · have hnone : lastWrite ws key = none := by
        apply lastWrite_eq_none
        intro w hw heq
        exact hkeys ⟨w, hw, heq.trans hkey⟩
      rw [hnone, hkey, report_level_nil]
      exact (report_level_nil s).symm
    · rw [report_level _ hkey, report_level _ hkey]
      show readBack s.nilEmpty ((ws.foldl putOrDelete s.data).get key) = _
      rw [get_foldl_putOrDelete]
      cases lastWrite ws key <;> rfl

instance [Store S] : LawfulStore (OverlayStore S) where
  lossy _ := false
  apply_iff _ _ := failIf_emptyKey
  lossy_apply _ := rfl
  report_apply {s s' ws} key h := by
    replace h := past h
    cases h
    rw [report_overlay, report_overlay]
    show ((ws.foldl (fun m w => m.set w.key w.value) s.writes).get key).elim _ _ = _
    rw [get_foldl_stage]
    cases lastWrite ws key <;> simp

/-! ### Sequences of write sets -/

/-- Apply write sets one after the other; a set that is refused changes nothing. -/
def applySets [Store S] (s : S) (sets : List (List Write)) : S :=
  sets.foldl (fun s ws => match apply s ws with
    | .ok s' => s'
    | .error _ => s) s

/-- The writes of the sets that are not refused. -/
def acceptedWrites (sets : List (List Write)) : List Write :=
  (sets.filter fun ws => decide (∀ w ∈ ws, w.key ≠ [])).flatten

theorem acceptedWrites_cons_of_ok [LawfulStore S] {s s' : S} (h : apply s ws = .ok s')
    (sets : List (List Write)) : acceptedWrites (ws :: sets) = ws ++ acceptedWrites sets := by
  have hkeys := (LawfulStore.apply_iff s ws).mp ⟨s', h⟩
  rw [acceptedWrites, filter_cons, if_pos (decide_eq_true hkeys)]
  rfl

theorem acceptedWrites_cons_of_error [LawfulStore S] {s : S} {err : Fault}
    (h : apply s ws = .error err) (sets : List (List Write)) :
    acceptedWrites (ws :: sets) = acceptedWrites sets := by
  have hkeys : ¬ ∀ w ∈ ws, w.key ≠ [] := by
    intro hall
    obtain ⟨s', hs'⟩ := (LawfulStore.apply_iff s ws).mpr hall
    rw [h] at hs'
    cases hs'
  rw [acceptedWrites, filter_cons, if_neg (by simpa using hkeys)]
  rfl

theorem key_ne_of_accepted {sets : List (List Write)} (hw : w ∈ acceptedWrites sets) :
    w.key ≠ [] := by
  obtain ⟨ws, hws, hmem⟩ := mem_flatten.mp hw
  exact of_decide_eq_true (mem_filter.mp hws).2 w hmem

theorem report_applySets [LawfulStore S] (s : S) (sets : List (List Write)) (key : Bytes) :
    report (applySets s sets) key =
      (lastWrite (acceptedWrites sets) key).elim (report s key) (readBack (LawfulStore.lossy s)) := by
  induction sets generalizing s with
  | nil => rfl
  | cons ws sets ih =>
    rw [applySets, foldl_cons, ← applySets, ih]
    cases happly : apply s ws with
    | error err =>
      rw [acceptedWrites_cons_of_error happly]
    | ok s' =>
      rw [acceptedWrites_cons_of_ok happly, lastWrite_append]
      rw [LawfulStore.lossy_apply happly]
      -- a later write to the key hides this set
      cases lastWrite (acceptedWrites sets) key with
      | some v => rfl
      | none => exact LawfulStore.report_apply key happly

theorem applySets_overlay [Store S] (s : OverlayStore S) (sets : List (List Write)) :
    (applySets s sets).base = s.base ∧ ∀ key, (applySets s sets).writes.get key =
      (lastWrite (acceptedWrites sets) key).or (s.writes.get key) := by
  induction sets generalizing s with
  | nil => exact ⟨rfl, fun _ => rfl⟩
  | cons ws sets ih =>
    rw [applySets, foldl_cons, ← applySets]
    cases happly : apply s ws with
    | error err =>
      rw [acceptedWrites_cons_of_error happly]
      exact ih s
    | ok s' =>
      rw [acceptedWrites_cons_of_ok happly]
      replace happly := past happly
      cases happly
      refine ⟨(ih _).1, fun key => ?_⟩
      rw [(ih _).2, get_foldl_stage, lastWrite_append, Option.or_assoc]

theorem exists_apply_ordered [LawfulStore S] {s : OverlayStore S} (hs : s.writes.get [] = none) :
    ∃ base', apply s.base s.ordered = .ok base' := by
  rw [LawfulStore.apply_iff]
  rintro w hw hempty
  obtain ⟨key, hkey, rfl⟩ := mem_map.mp hw
  obtain ⟨v, hv⟩ := mem_sortedKeys.mp hkey
  rw [show key = [] from hempty, hs] at hv
  cases hv

theorem report_apply_ordered [LawfulStore S] {s : OverlayStore S} {base' : S}
    (h : apply s.base s.ordered = .ok base') (key : Bytes) :
    report base' key =
      (s.writes.get key).elim (report s.base key) (readBack (LawfulStore.lossy s.base)) := by
  rw [LawfulStore.report_apply key h, OverlayStore.ordered, lastWrite_orderedWrites]

theorem readBack_eq_self_iff {value : Option Bytes} :
    readBack nilEmpty value = value ↔ (value = some [] → nilEmpty = false) := by
  cases value with
  | none => simp [readBack]
  | some b => cases b <;> cases nilEmpty <;> simp [readBack]

/-- What the stores report, if what was there before is the same, differs by what is read back. -/
theorem elim_readBack_eq_iff {written : Option (Option Bytes)}
    {before : Option Bytes} : written.elim before (readBack nilEmpty) = written.elim before id ↔
      (written = some (some []) → nilEmpty = false) := by
  cases written with
  | none => simp
  | some value => simp [readBack_eq_self_iff]

theorem report_empty_level (nilEmpty : Bool) (key : Bytes) :
    report ({ nilEmpty } : LevelStore) key = report ({} : MemoryStore) key := by
  by_cases hkey : key = []
  · rw [hkey]
    rfl
  · rw [report_level _ hkey]
    rfl

end Aperod.Avm
