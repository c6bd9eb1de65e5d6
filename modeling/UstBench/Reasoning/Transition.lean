import Mathlib.Tactic.Common

/-!
# Runs of a transition system

A partial step function on states, driven by a list of actions.  An action that is not enabled ends
the run without a result.
-/

namespace Reasoning

variable {S A : Type}

def execute (step : S → A → Option S) : List A → S → Option S
  | [], s => some s
  | a :: as, s => (step s a).bind (execute step as)

/-- Every action of the run is taken in a state that `C` allows it in. -/
def Throughout (step : S → A → Option S) (C : S → A → Prop) : List A → S → Prop
  | [], _ => True
  | a :: as, s => C s a ∧ ∀ s', step s a = some s' → Throughout step C as s'

/-- What every allowed step keeps holds at the end of every allowed run. -/
theorem invariant_execute {step : S → A → Option S} {C : S → A → Prop} {I : S → Prop}
    (hstep : ∀ {s a s'}, I s → C s a → step s a = some s' → I s') {as : List A} {s s' : S}
    (h : I s) (hc : Throughout step C as s) (hr : execute step as s = some s') : I s' := by
  induction as generalizing s with
  | nil =>
    cases hr
    exact h
  | cons a as ih =>
    rw [execute, Option.bind_eq_some_iff] at hr
    rcases hr with ⟨t, ht, hrest⟩
    exact ih (hstep h hc.1 ht) (hc.2 t ht) hrest

theorem throughout_of_forall {step : S → A → Option S} {C : S → A → Prop} (hC : ∀ s a, C s a)
    (as : List A) (s : S) : Throughout step C as s := by
  induction as generalizing s with
  | nil => trivial
  | cons a as ih => exact ⟨hC s a, fun s' _ ↦ ih s'⟩

/-- Two ways to say in which states the actions are allowed. -/
theorem throughout_congr {step : S → A → Option S} {C C' : S → A → Prop}
    (h : ∀ s a, C s a ↔ C' s a) {as : List A} {s : S} :
    Throughout step C as s ↔ Throughout step C' as s := by
  induction as generalizing s with
  | nil => exact Iff.rfl
  | cons a as ih =>
    unfold Throughout
    exact and_congr (h s a) (forall_congr' fun t ↦ imp_congr_right fun _ ↦ ih)

end Reasoning
