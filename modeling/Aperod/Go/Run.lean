import Mathlib.Data.List.Basic
import Mathlib.Tactic.Common

/-!
# Runs of a step relation

`Run step s es t`: from state `s`, taking one step for each event of `es` in order, `t` is reached.
-/

namespace Aperod.Go

variable {σ ε : Type*}

/-- The states a step relation leads through, event by event. -/
inductive Run (step : σ → ε → σ → Prop) : σ → List ε → σ → Prop
  | nil (s : σ) : Run step s [] s
  | cons {s t u : σ} {e : ε} {es : List ε} : step s e t → Run step t es u → Run step s (e :: es) u

namespace Run

variable {step : σ → ε → σ → Prop} {s t : σ} {es : List ε}

theorem append {es' : List ε} {u : σ} (h : Run step s es t) (h' : Run step t es' u) :
    Run step s (es ++ es') u := by
  induction h with
  | nil => exact h'
  | cons he _ ih => exact .cons he (ih h')

theorem concat_inv {e : ε} {u : σ} (h : Run step s (es ++ [e]) u) :
    ∃ t, Run step s es t ∧ step t e u := by
  induction es generalizing s with
  | nil =>
    cases h with
    | cons he hrest =>
      cases hrest
      exact ⟨s, .nil s, he⟩
  | cons a es ih =>
    cases h with
    | cons ha hrest =>
      obtain ⟨t, hes, he⟩ := ih hrest
      exact ⟨t, .cons ha hes, he⟩

/-- **Invariant rule.** -/
theorem invariant (I : σ → Prop) (hstep : ∀ a e b, e ∈ es → I a → step a e b → I b)
    (h : Run step s es t) (hs : I s) : I t := by
  induction h with
  | nil => exact hs
  | cons he _ ih =>
    exact ih (fun a e b hmem => hstep a e b (List.mem_cons_of_mem _ hmem))
      (hstep _ _ _ List.mem_cons_self hs he)

/-- **Invariant rule with history**: the property may mention the events taken so far. -/
theorem history (I : List ε → σ → Prop)
    (hstep : ∀ past a e b, e ∈ es → I past a → step a e b → I (past ++ [e]) b)
    (h : Run step s es t) (hs : I [] s) : I es t := by
  suffices key : ∀ past, I past s → I (past ++ es) t by simpa using key [] hs
  clear hs
  induction h with
  | nil => intro past hpast; simpa using hpast
  | @cons a b c e es he _ ih =>
    intro past hpast
    have hone := hstep past a e b List.mem_cons_self hpast he
    have hrest := ih (fun p a' e' b' hmem => hstep p a' e' b' (List.mem_cons_of_mem _ hmem))
      (past ++ [e]) hone
    simpa using hrest

theorem mono {step' : σ → ε → σ → Prop} (himp : ∀ a e b, step a e b → step' a e b)
    (h : Run step s es t) : Run step' s es t := by
  induction h with
  | nil => exact .nil _
  | cons he _ ih => exact .cons (himp _ _ _ he) ih

/-- **Equivalence rule**: two step relations have the same runs from the states of an invariant
under which they agree. -/
theorem congr {step' : σ → ε → σ → Prop} (I : σ → Prop)
    (hiff : ∀ a e b, I a → (step a e b ↔ step' a e b))
    (hkeep : ∀ a e b, I a → step a e b → I b) (hs : I s) :
    Run step s es t ↔ Run step' s es t := by
  constructor
  · intro h
    induction h with
    | nil => exact .nil _
    | cons he _ ih => exact .cons ((hiff _ _ _ hs).mp he) (ih (hkeep _ _ _ hs he))
  · intro h
    induction h with
    | nil => exact .nil _
    | cons he _ ih =>
      have hstep := (hiff _ _ _ hs).mpr he
      exact .cons hstep (ih (hkeep _ _ _ hs hstep))

end Run

end Aperod.Go
