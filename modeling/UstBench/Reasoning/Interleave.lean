import Mathlib.Logic.Function.Basic
import Mathlib.Tactic.Common

/-!
# Processes over a shared store

Finitely or infinitely many deterministic processes, each with its own local state, take turns on one
shared store.  `RelyGuarantee` is the usual proof rule: an invariant for every process that the steps
of the others do not disturb holds along every schedule.
-/

namespace Reasoning

section Processes

variable {ι S L : Type} [DecidableEq ι]

/-- The turn of process `i`. -/
def stepAt (step : ι → S × L → S × L) (i : ι) (c : S × (ι → L)) : S × (ι → L) :=
  ((step i (c.1, c.2 i)).1, Function.update c.2 i (step i (c.1, c.2 i)).2)

def runSchedule (step : ι → S × L → S × L) (sched : List ι) (c : S × (ι → L)) : S × (ι → L) :=
  sched.foldl (fun c i ↦ stepAt step i c) c

/-- Before each of its turns, the process and the store are as `C` wants them. -/
def Along (step : ι → S × L → S × L) (C : ι → S → L → Prop) : List ι → S × (ι → L) → Prop
  | [], _ => True
  | i :: sched, c => C i c.1 (c.2 i) ∧ Along step C sched (stepAt step i c)

/-- `Own i` is what process `i` keeps of the store and its state, as long as its turns meet `C` and
the others change the store only as `Rely i` allows. -/
structure RelyGuarantee (step : ι → S × L → S × L) (C Own : ι → S → L → Prop)
    (Rely : ι → S → S → Prop) : Prop where
  keeps : ∀ i {s l}, C i s l → Own i s l → Own i (step i (s, l)).1 (step i (s, l)).2
  guarantees : ∀ i {s l}, C i s l → Own i s l → ∀ j, j ≠ i → Rely j s (step i (s, l)).1
  stable : ∀ i {s s' l}, Rely i s s' → Own i s l → Own i s' l

variable {step : ι → S × L → S × L} {C Own : ι → S → L → Prop} {Rely : ι → S → S → Prop}

theorem RelyGuarantee.stepAt (h : RelyGuarantee step C Own Rely) {c : S × (ι → L)} {i : ι}
    (hc : C i c.1 (c.2 i)) (hown : ∀ j, Own j c.1 (c.2 j)) (j : ι) :
    Own j (stepAt step i c).1 ((stepAt step i c).2 j) := by
  unfold Reasoning.stepAt
  dsimp only
  by_cases hj : j = i
  · rw [hj, Function.update_self]
    exact h.keeps i hc (hown i)
  · rw [Function.update_of_ne hj]
    exact h.stable j (h.guarantees i hc (hown i) j hj) (hown j)

/-- The invariants hold at the end of every schedule whose turns meet the condition. -/
theorem RelyGuarantee.run (h : RelyGuarantee step C Own Rely) {sched : List ι} {c : S × (ι → L)}
    (hc : Along step C sched c) (hown : ∀ j, Own j c.1 (c.2 j)) (j : ι) :
    Own j (runSchedule step sched c).1 ((runSchedule step sched c).2 j) := by
  induction sched generalizing c with
  | nil => exact hown j
  | cons i sched ih =>
    apply ih hc.2
    intro k
    exact h.stepAt hc.1 hown k

end Processes

end Reasoning
