import UstBench.Runner.Progress
import UstBench.Workload.Counting

/-!
# A benchmark as a child of the runner

To the runner a child's program is an `Image`: the events it adds and how it ends.  Every run of
`basic-benchmark` and `sha2-benchmark`, whatever fails in it, is step for step the run of such an
image, so what is proved of images holds of the two programs.
-/

namespace UstBench.Workload

open Reasoning Reasoning.Prog

/-- The calls of the module in the order `main` makes them. -/
def MainSys.adds (sys : MainSys) : List (CString × Sys) :=
  [(.main, sys.main), (.start, sys.start), (.end_, sys.end_)]

structure MainSys.Succeeds (sys : MainSys) : Prop where
  main : sys.main.Succeeds
  start : sys.start.Succeeds
  end_ : sys.end_.Succeeds

/-- What a program with these arguments adds, and how it ends, when no call fails. -/
def MainSys.image (sys : MainSys) (argv : List (List Char)) : Image :=
  match argv with
  | [] => ⟨[(.main, sys.main)], .signaled⟩
  | [_] => ⟨[(.main, sys.main)], .exited 0⟩
  | [_, count] =>
    if strtol count ≤ 0 then ⟨[(.main, sys.main)], .exited 1⟩ else ⟨sys.adds, .exited 0⟩
  | _ => ⟨[(.main, sys.main)], .exited 1⟩

/-- The counter of the program can count to the number of iterations, if one is given. -/
def Program.Counts (p : Program) (argv : List (List Char)) : Prop :=
  ∀ name count, argv = [name, count] → strtol count ≤ p.counterMax

/-- As many turns as the loop needs. -/
def turnsOf : List (List Char) → ℕ
  | [_, count] => (strtol count).toNat
  | _ => 0

/-- All steps of a child, taken one after the other. -/
def stepsDone (w : World) (todo : List ChildStep) : Kernel × Child :=
  childStep^[todo.length] (w.kernel, ⟨w.proc, todo, none⟩)

/-- The child whose `main` has come back, or has died. -/
def ended {L : Type} : Except Fault (Exit L) × World → Kernel × Child
  | (.ok e, w) => (w.kernel, ⟨w.proc, [], some (.exited e.code)⟩)
  | (.error _, w) => (w.kernel, ⟨w.proc, [], some .signaled⟩)

/-- The steps of the image lead from `w` to where the call leads. -/
def Mirrors {L : Type} (image : Image) (m : Call (Exit L)) (w : World) : Prop :=
  stepsDone w image.steps = ended (run m w)

/-! ## One call -/

section Calls

variable {L : Type} {sys : Sys} {name : CString} {w w' : World} {m : ℤ → Call (Exit L)}

theorem mirrors_pure (code : ℕ) (left : Option L) (w : World) :
    Mirrors ⟨[], .exited code⟩ (pure ⟨code, left⟩) w := rfl

theorem mirrors_throw (f : Fault) (w : World) :
    Mirrors ⟨[], .signaled⟩ (throw f : Call (Exit L)) w := rfl

theorem run_op_add (w : World) : run ((Op.log (.add name)).run sys) w =
    match run (sharedEventsAdd sys name) w with
    | (.ok r, w') => (.ok (.status r), w')
    | (.error f, w') => (.error f, w') := by
  show run ((LogOp.add name).run sys) w = _
  rw [LogOp.run, run_bind]
  rcases run (sharedEventsAdd sys name) w with ⟨f | r, w'⟩ <;> rfl

/-- An add that returns leaves the child with the steps behind it. -/
theorem mirrors_add (image : Image) {r : ℤ} (hadd : run (sharedEventsAdd sys name) w = (.ok r, w'))
    (h : Mirrors image (m r) w') :
    Mirrors ⟨(name, sys) :: image.adds, image.ending⟩ (sharedEventsAdd sys name >>= m) w := by
  unfold Mirrors at h ⊢
  rw [run_bind_ok hadd, ← h]
  show childStep^[image.steps.length] (childStep (w.kernel,
    ⟨w.proc, .call (.log (.add name)) sys :: image.steps, none⟩)) = _
  have hop : run ((Op.log (.add name)).run sys) ⟨w.kernel, w.proc⟩ = (.ok (.status r), w') := by
    rw [run_op_add, hadd]
  rw [childStep_ok _ hop]
  rfl

/-- A child that dies in an add has nothing left to do, and stays as it is. -/
theorem mirrors_died {f : Fault} (hadd : run (sharedEventsAdd sys name) w = (.error f, w')) :
    Mirrors ⟨[(name, sys)], .signaled⟩ (sharedEventsAdd sys name >>= m) w := by
  unfold Mirrors
  rw [run_bind_error hadd]
  show childStep (childStep (w.kernel,
    ⟨w.proc, [.call (.log (.add name)) sys, .stop .signaled], none⟩)) = _
  have hop : run ((Op.log (.add name)).run sys) ⟨w.kernel, w.proc⟩ = (.error f, w') := by
    rw [run_op_add, hadd]
  rw [childStep_error _ hop]
  rfl

/-- An add, and what is behind it in every case. -/
theorem exists_mirrors_add {adds : List (CString × Sys)}
    (h : ∀ r w', run (sharedEventsAdd sys name) w = (.ok r, w') →
      ∃ image : Image, image.adds <+: adds ∧ Mirrors image (m r) w') :
    ∃ image : Image, image.adds <+: (name, sys) :: adds ∧
      Mirrors image (sharedEventsAdd sys name >>= m) w := by
  rcases hadd : run (sharedEventsAdd sys name) w with ⟨f | r, w'⟩
  · refine ⟨_, ?_, mirrors_died hadd⟩
    exact List.prefix_cons_inj _ |>.mpr List.nil_prefix
  · obtain ⟨image, hadds, himage⟩ := h r w' hadd
    exact ⟨_, (List.prefix_cons_inj _).mpr hadds, mirrors_add image hadd himage⟩

end Calls

/-! ## The programs -/

section Main

variable {p : Program} {fuel : ℕ} {argv : List (List Char)} {sys : MainSys}

/-- A program stops after an add that has failed, and goes on otherwise. -/
theorem exists_mirrors_stop {L : Type} {r : ℤ} {w : World} {left : Option L} {m : Call (Exit L)}
    {adds : List (CString × Sys)} (h : ∃ image : Image, image.adds <+: adds ∧ Mirrors image m w) :
    ∃ image : Image, image.adds <+: adds ∧
      Mirrors image (if r ≠ 0 then return ⟨1, left⟩ else m) w := by
  by_cases hr : r ≠ 0
  · rw [if_pos hr]
    exact ⟨_, List.nil_prefix, mirrors_pure 1 left w⟩
  · rw [if_neg hr]
    exact h

/-- The loop is left where the counter can count to its bound. -/
theorem Program.loop_left {count : List Char} (hpos : 1 ≤ strtol count)
    (hmax : strtol count ≤ p.counterMax) (hfuel : (strtol count).toNat ≤ fuel) :
    ∃ t, p.loop (strtol count) fuel = some t := by
  have hcast : ((strtol count).toNat : ℤ) = strtol count := Int.toNat_of_nonneg (by omega)
  obtain ⟨t, ht⟩ := (p.leaves_iff (strtol count).toNat).mpr (by omega)
  rw [hcast] at ht
  exact ⟨t, ht.whileLoop_eq hfuel⟩

theorem exists_mirrors_main (hcounts : p.Counts argv) (hfuel : turnsOf argv ≤ fuel) (w : World) :
    ∃ image : Image, image.adds <+: sys.adds ∧ Mirrors image (p.main fuel argv sys) w := by
  unfold Program.main
  apply exists_mirrors_add
  intro r w' _
  apply exists_mirrors_stop
  split
  · exact ⟨_, List.nil_prefix, mirrors_throw _ _⟩
  · exact ⟨_, List.nil_prefix, mirrors_pure _ _ _⟩
  · rename_i name count
    by_cases hpos : strtol count ≤ 0
    · simp only [if_pos hpos]
      exact ⟨_, List.nil_prefix, mirrors_pure _ _ _⟩
    · simp only [if_neg hpos]
      obtain ⟨t, ht⟩ := p.loop_left (by omega) (hcounts name count rfl) hfuel
      apply exists_mirrors_add
      intro r' w'' _
      apply exists_mirrors_stop
      rw [ht]
      apply exists_mirrors_add
      intro r'' w''' _
      apply exists_mirrors_stop
      exact ⟨_, List.nil_prefix, mirrors_pure _ _ _⟩
  · exact ⟨_, List.nil_prefix, mirrors_pure _ _ _⟩

/-- With no call failing, and room for its events, the image is the one of the arguments. -/
theorem mirrors_image (hcounts : p.Counts argv) (hfuel : turnsOf argv ≤ fuel)
    (hs : sys.Succeeds) {pid : ℤ} {L : List SharedEvent} {w : World} (hw : Idle pid L w)
    (hroom : L.length + 3 ≤ maxEventCount) :
    Mirrors (sys.image argv) (p.main fuel argv sys) w := by
  obtain ⟨w₁, hr₁, hw₁⟩ := hw.add_room hs.main (by omega) .main
  have hone : ∀ {ending : Status} {m : ℤ → Call (Exit p.Locals)},
      Mirrors ⟨[], ending⟩ (m 0) w₁ →
        Mirrors ⟨[(.main, sys.main)], ending⟩ (sharedEventsAdd sys.main .main >>= m) w :=
    fun h ↦ mirrors_add _ hr₁ h
  unfold Program.main MainSys.image
  rcases argv with _ | ⟨name, _ | ⟨count, _ | ⟨more, rest⟩⟩⟩
  · exact hone (mirrors_throw _ _)
  · exact hone (mirrors_pure _ _ _)
  · dsimp only
    by_cases hpos : strtol count ≤ 0
    · rw [if_pos hpos]
      apply hone
      simp only [ne_eq, not_true_eq_false, if_false, if_pos hpos]
      exact mirrors_pure _ _ _
    · obtain ⟨t, ht⟩ := p.loop_left (by omega) (hcounts name count rfl) hfuel
      have hlen₁ : (L ++ [addedEvent (.main, sys.main)]).length < maxEventCount := by
        rw [List.length_append, List.length_singleton]
        omega
      obtain ⟨w₂, hr₂, hw₂⟩ := hw₁.add_room hs.start hlen₁ .start
      have hlen₂ :
          (L ++ [addedEvent (.main, sys.main)] ++ [addedEvent (.start, sys.start)]).length <
            maxEventCount := by
        rw [List.length_append, List.length_append, List.length_singleton, List.length_singleton]
        omega
      obtain ⟨w₃, hr₃, -⟩ := hw₂.add_room hs.end_ hlen₂ .end_
      rw [if_neg hpos]
      apply mirrors_add ⟨[(.start, sys.start), (.end_, sys.end_)], .exited 0⟩ hr₁
      simp only [ne_eq, not_true_eq_false, if_false, if_neg hpos, ht]
      apply mirrors_add ⟨[(.end_, sys.end_)], .exited 0⟩ hr₂
      simp only [not_true_eq_false, if_false]
      apply mirrors_add ⟨[], .exited 0⟩ hr₃
      exact mirrors_pure _ _ _
  · exact hone (mirrors_pure _ _ _)

end Main

/-- Every run of a benchmark whose loop is left, whatever fails in it, is the run of an image whose
events are the first ones of `main`, `start` and `end`; with nothing failing, and room in the log,
it is the image its arguments stand for. -/
theorem main_mirrors_image {p : Program} {fuel : ℕ} {argv : List (List Char)} {sys : MainSys}
    (hcounts : p.Counts argv) (hfuel : turnsOf argv ≤ fuel) (w : World) :
    (∃ image : Image, image.adds <+: sys.adds ∧ Mirrors image (p.main fuel argv sys) w) ∧
      (sys.Succeeds → ∀ pid L, Idle pid L w → L.length + 3 ≤ maxEventCount →
        Mirrors (sys.image argv) (p.main fuel argv sys) w) :=
  ⟨exists_mirrors_main hcounts hfuel w, fun hs _ _ hw hroom ↦
    mirrors_image hcounts hfuel hs hw hroom⟩

/-- Calls of which the one for `start` finds no clock. -/
def clocklessStart : MainSys :=
  ⟨.succeeding ⟨1, 0⟩, { Sys.succeeding ⟨2, 0⟩ with clock := .error 22 }, .succeeding ⟨3, 0⟩⟩

theorem main_mirrors_image_clockless :
    ∃ image : Image, image.adds <+: clocklessStart.adds ∧
      Mirrors image ((Program.basic .plain).main 1000000
        ["basic-benchmark".toList, "1000000".toList] clocklessStart) ⟨.empty, .start 1⟩ := by
  have hcounts : (Program.basic .plain).Counts ["basic-benchmark".toList, "1000000".toList] := by
    intro name count h
    cases h
    decide
  exact (main_mirrors_image hcounts (by decide) _).1

end UstBench.Workload
