import Mathlib.Data.List.Forall2
import Mathlib.Data.List.Flatten
import Mathlib.Tactic.Common

/-!
# Self-delimiting encodings

An encoding into lists is self-delimiting on a set of values if what stands in front of an arbitrary
rest can be read back: the value and the place where the rest begins.  Fields encoded one after the
other can then be taken off one by one.

* `SelfDelimiting.of_width`: encodings of a fixed width.
* `SelfDelimiting.lengthPrefixed`: lists behind their length.
* `SelfDelimiting.flatMap`: lists of one length, element by element.
* `flatMap_width_inj`: a concatenation of pieces of one positive width determines the list.
* `flatMap_zipIdx_eq`: a concatenation that looks up a second list by index.
-/

open List

variable {α β Γ : Type*}

/-- From `enc a ++ s` the value `a` and the rest `s` can be read back, for values with `P`. -/
def SelfDelimiting (P : α → Prop) (enc : α → List Γ) : Prop :=
  ∀ ⦃a b : α⦄, P a → P b → ∀ ⦃s t : List Γ⦄, enc a ++ s = enc b ++ t → a = b ∧ s = t

namespace SelfDelimiting

variable {P : α → Prop} {enc : α → List Γ}

theorem of_width {w : ℕ} (hlen : ∀ a, P a → (enc a).length = w)
    (hinj : ∀ a b, P a → P b → enc a = enc b → a = b) : SelfDelimiting P enc := by
  intro a b ha hb s t h
  have hlens : (enc a).length = (enc b).length := by rw [hlen a ha, hlen b hb]
  obtain ⟨henc, hrest⟩ := append_inj h hlens
  exact ⟨hinj a b ha hb henc, hrest⟩

theorem lengthPrefixed {Q : ℕ → Prop} {len : ℕ → List Γ} (hlen : SelfDelimiting Q len) :
    SelfDelimiting (fun l : List Γ => Q l.length) fun l => len l.length ++ l := by
  intro l l' hl hl' s t h
  rw [append_assoc, append_assoc] at h
  obtain ⟨hcount, hrest⟩ := hlen hl hl' h
  exact append_inj hrest hcount

theorem flatMap (henc : SelfDelimiting P enc) {l l' : List α} (hl : ∀ a ∈ l, P a)
    (hl' : ∀ a ∈ l', P a) (hlen : l.length = l'.length) {s t : List Γ}
    (h : l.flatMap enc ++ s = l'.flatMap enc ++ t) : l = l' ∧ s = t := by
  induction l generalizing l' with
  | nil =>
    have hnil : l' = [] := length_eq_zero_iff.mp hlen.symm
    subst hnil
    exact ⟨rfl, h⟩
  | cons a l ih =>
    cases l' with
    | nil => simp at hlen
    | cons b l' =>
      rw [flatMap_cons, flatMap_cons, append_assoc, append_assoc] at h
      obtain ⟨rfl, hrest⟩ := henc (hl a mem_cons_self) (hl' b mem_cons_self) h
      obtain ⟨rfl, hst⟩ := ih (fun x hx => hl x (mem_cons_of_mem _ hx))
        (fun x hx => hl' x (mem_cons_of_mem _ hx)) (by simpa using hlen) hrest
      exact ⟨rfl, hst⟩

end SelfDelimiting

theorem length_flatMap_of_width {f : α → List Γ} {w : ℕ} {l : List α}
    (hlen : ∀ a ∈ l, (f a).length = w) : (l.flatMap f).length = l.length * w := by
  rw [length_flatMap, map_congr_left hlen, map_const', sum_replicate_nat]

theorem flatMap_width_inj {f : α → List Γ} {w : ℕ} (hw : 0 < w) (hlen : ∀ a, (f a).length = w)
    (hinj : Function.Injective f) {l l' : List α} (h : l.flatMap f = l'.flatMap f) : l = l' := by
  have hcount : l.length = l'.length := by
    have hlens := congrArg length h
    rw [length_flatMap_of_width fun a _ => hlen a,
      length_flatMap_of_width fun a _ => hlen a] at hlens
    exact Nat.eq_of_mul_eq_mul_right hw hlens
  have hself : SelfDelimiting (fun _ : α => True) f :=
    .of_width (fun a _ => hlen a) fun a b _ _ hab => hinj hab
  have hnil : l.flatMap f ++ [] = l'.flatMap f ++ [] := by rw [h]
  exact (hself.flatMap (fun _ _ => trivial) (fun _ _ => trivial) hcount hnil).1

/-- A concatenation that looks up the `i`-th element of a second list is one over the pairs. -/
theorem flatMap_zipIdx_eq {l : List α} {m : List β} (hlen : l.length = m.length)
    {f : α × ℕ → List Γ} {g : α × β → List Γ}
    (hfg : ∀ i a b, m[i]? = some b → f (a, i) = g (a, b)) :
    l.zipIdx.flatMap f = (l.zip m).flatMap g := by
  suffices h : ∀ (k : ℕ), (∀ i a b, m[i]? = some b → f (a, k + i) = g (a, b)) →
      (l.zipIdx k).flatMap f = (l.zip m).flatMap g from h 0 (by simpa using hfg)
  clear hfg
  induction l generalizing m with
  | nil => simp
  | cons a l ih =>
    intro k hk
    cases m with
    | nil => simp at hlen
    | cons b m =>
      have hhead : f (a, k) = g (a, b) := hk 0 a b rfl
      have htail := ih (by simpa using hlen) (k + 1) fun i a' b' hb => by
        rw [Nat.add_assoc, Nat.add_comm 1 i]
        exact hk (i + 1) a' b' hb
      rw [zipIdx_cons, flatMap_cons, hhead, htail, zip_cons_cons, flatMap_cons]
