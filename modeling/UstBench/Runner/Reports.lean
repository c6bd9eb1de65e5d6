import UstBench.Runner.Printing
import UstBench.Runner.Progress

/-!
# Whose events a report shows

The children run in any order, and then the parent prints their logs.  With every call succeeding
each report is the one of its own child; in general it is, unless a call before `execv` failed in a
way that leaves the child alive.
-/

namespace UstBench

open Reasoning Reasoning.Prog

/-- The report the child is to leave: its `"exec"` event and what its program adds, as far as the
array goes. -/
def ChildRun.ownReport (r : ChildRun) (image : Image) : Report :=
  ((CString.exec.bytes, r.adding.stampTime .exec) ::
    image.adds.map fun x ↦ (x.1.bytes, x.2.stampTime x.1)).take maxEventCount

/-- The system after the turns of a schedule. -/
def runChildren {n : ℕ} (k : Kernel) (runs : Fin n → ChildRun) (procs : Fin n → Proc)
    (sched : List (Fin n)) : Kernel × (Fin n → Child) :=
  runSchedule (fun _ ↦ childStep) sched (k, childrenOf runs procs)

/-- Before each of its turns a child meets `StepMeets`. -/
def RunMeets {n : ℕ} (k : Kernel) (runs : Fin n → ChildRun) (procs : Fin n → Proc)
    (sched : List (Fin n)) (pids : Fin n → ℤ) : Prop :=
  Along (fun _ ↦ childStep) (fun i ↦ StepMeets (pids i)) sched (k, childrenOf runs procs)

theorem Kernel.report_eq (k : Kernel) (pid : ℤ) :
    k.report pid = ((k.segment (shmName maxShmNameLen pid)).getD .zeroed).report := by
  unfold Kernel.report
  cases k.segment (shmName maxShmNameLen pid) with
  | none => rfl
  | some s => rfl

theorem Kernel.HasLog.fits {k : Kernel} {pid : ℤ} {L : List SharedEvent}
    (h : k.HasLog (shmName maxShmNameLen pid) L) : k.Fits pid := by
  intro s hs
  have hmax := h.1
  rw [hs] at hmax
  exact hmax

theorem Kernel.HasLog.report {k : Kernel} {pid : ℤ} {L : List SharedEvent}
    (h : k.HasLog (shmName maxShmNameLen pid) L) (ht : ∀ e ∈ L, e.Terminated) :
    k.report pid = L.map fun e ↦ (e.nameBytes, e.ts) := by
  rw [k.report_eq, SharedEvents.report_of_terminated h.1 (by rw [h.2]; exact ht), h.2]

theorem addedEvent_printed {x : CString × Sys} (h : x.1.bytes.length < maxEventNameLength) :
    ((addedEvent x).nameBytes, (addedEvent x).ts) = (x.1.bytes, x.2.stampTime x.1) :=
  congrArg (·, x.2.stampTime x.1) (nameBytes_strncpy h _)

/-- A log that holds what the child records is printed as its own report. -/
theorem report_of_recorded {k : Kernel} {pid : ℤ} {r : ChildRun} {image : Image}
    (h : k.HasLog (shmName maxShmNameLen pid) (r.recorded image))
    (hnames : ∀ x ∈ image.adds, x.1.bytes.length < maxEventNameLength) :
    k.report pid = r.ownReport image := by
  have hrec : r.recorded image =
      (((.exec, r.adding) :: image.adds).map addedEvent).take maxEventCount := by
    have hone : [addedEvent (.exec, r.adding)].length ≤ maxEventCount := show 1 ≤ 256 by decide
    rw [ChildRun.recorded, addAll_eq_take hone]
    rfl
  have hlen : ∀ x ∈ (CString.exec, r.adding) :: image.adds,
      x.1.bytes.length < maxEventNameLength := by
    intro x hx
    rcases List.mem_cons.mp hx with rfl | hx
    · exact show CString.exec.bytes.length < 256 by decide
    · exact hnames x hx
  rw [h.report, hrec, List.map_take, List.map_map]
  · rw [ChildRun.ownReport]
    congr 1
    exact List.map_congr_left fun x hx ↦ addedEvent_printed (hlen x hx)
  · intro e he
    rw [hrec] at he
    rcases List.mem_map.mp (List.mem_of_mem_take he) with ⟨x, hx, rfl⟩
    exact terminated_strncpy (hlen x hx) _

/-! ## Runs without failures -/

def ChildStep.Succeeds : ChildStep → Prop
  | .call _ sys => sys.Succeeds
  | _ => True

theorem stepMeets_of_succeeds {pid : ℤ} {k : Kernel} {ch : Child}
    (h : ∀ x ∈ ch.todo, x.Succeeds) : StepMeets pid k ch := by
  unfold StepMeets
  split
  · rename_i sys rest htodo
    have hs : sys.Succeeds := h (.call (.log .clear) sys) (by rw [htodo]; exact List.mem_cons_self)
    exact fun _ hr ↦ absurd (.inl hr) (@not_openFails sys ⟨k, ch.proc⟩ pid hs)
  · rename_i name sys rest htodo
    have hs : sys.Succeeds :=
      h (.call (.log (.add name)) sys) (by rw [htodo]; exact List.mem_cons_self)
    exact fun _ ↦ ⟨hs.clock, fun _ ↦ not_openFails hs⟩
  · trivial

theorem childStep_todo_subset (k : Kernel) (ch : Child) :
    (childStep (k, ch)).2.todo ⊆ ch.todo := by
  rcases ch with ⟨p, todo, s⟩
  cases todo with
  | nil => exact List.Subset.refl _
  | cons x rest =>
    cases x with
    | call op sys =>
      rcases h : run (op.run sys) ⟨k, p⟩ with ⟨f | res, w⟩
      · rw [childStep_error op h]
        exact List.nil_subset _
      · rw [childStep_ok op h]
        exact List.subset_cons_self _ _
    | execv => exact List.subset_cons_self _ _
    | stop s => exact List.nil_subset _

/-- If all calls still to be made succeed, every turn meets the condition. -/
theorem along_of_succeeds {n : ℕ} {pids : Fin n → ℤ} {sched : List (Fin n)}
    {c : Kernel × (Fin n → Child)} (h : ∀ i, ∀ x ∈ (c.2 i).todo, x.Succeeds) :
    Along (fun _ ↦ childStep) (fun i ↦ StepMeets (pids i)) sched c := by
  induction sched generalizing c with
  | nil => trivial
  | cons i sched ih =>
    refine ⟨stepMeets_of_succeeds (h i), ih fun j x hx ↦ ?_⟩
    unfold stepAt at hx
    by_cases hj : j = i
    · subst hj
      simp only [Function.update_self] at hx
      exact h j x (childStep_todo_subset _ _ hx)
    · simp only [Function.update_of_ne hj] at hx
      exact h j x hx

theorem runChild_succeeds {r : ChildRun} {image : Image} (hr : r.Succeeds)
    (himage : r.image = some image) (hs : ∀ x ∈ image.adds, x.2.Succeeds) :
    ∀ x ∈ runChild r, x.Succeeds := by
  intro x hx
  simp only [runChild, ChildRun.execSteps, himage, Image.steps, List.mem_cons, List.mem_append,
    List.mem_map, List.not_mem_nil, or_false] at hx
  rcases hx with rfl | rfl | rfl | rfl | ⟨y, hy, rfl⟩ | rfl
  · exact hr.closing
  · exact hr.clearing
  · exact hr.adding
  · trivial
  · exact hs y hy
  · trivial

/-- With distinct pids and every call succeeding, the loop of `main` prints for each child, in
order, exactly its `"exec"` event and its own events, whatever the schedule and the old segments
were. -/
theorem reports_isolated {n : ℕ} {k : Kernel} {runs : Fin n → ChildRun} {images : Fin n → Image}
    {pids : Fin n → ℤ} {procs : Fin n → Proc} {sched : List (Fin n)} {parent : World}
    {sys : Fin n → PrintSys} (hpids : ∀ i, IsPid (pids i)) (hinj : Function.Injective pids)
    (hprocs : ∀ i, (procs i).pid = pids i ∧ (procs i).ctx = none)
    (hruns : ∀ i, (runs i).Succeeds) (himage : ∀ i, (runs i).image = some (images i))
    (hadds : ∀ i, (images i).adds.length ≤ 255 ∧ ∀ x ∈ (images i).adds,
      x.2.Succeeds ∧ x.1.bytes.length < maxEventNameLength)
    (hdone : ∀ i, ((runChildren k runs procs sched).2 i).status ≠ none)
    (hkernel : parent.kernel = (runChildren k runs procs sched).1) (hctx : parent.proc.ctx = none)
    (hsys : ∀ i, (sys i).opening.Succeeds) :
    (∀ i, shmName maxShmNameLen (pids i) =
      "/shared_events_".toList ++ Reasoning.Decimal.printInt (pids i)) ∧
    ∃ w', run (printChildren (List.ofFn fun i ↦ (pids i, sys i)) 0) parent = (.ok 0, w') ∧
      w'.proc.stdout = parent.proc.stdout ++ joinReports (List.ofFn fun i ↦
        (CString.exec.bytes, (runs i).adding.stampTime .exec) ::
          (images i).adds.map fun x ↦ (x.1.bytes, x.2.stampTime x.1)) := by
  have hs : ∀ i, (runs i).ImageSucceeds := by
    intro i image hi x hx
    rw [himage i] at hi
    cases hi
    exact ((hadds i).2 x hx).1
  have hmeets : RunMeets k runs procs sched pids :=
    along_of_succeeds fun i ↦
      runChild_succeeds (hruns i) (himage i) fun x hx ↦ ((hadds i).2 x hx).1
  -- every child has left its own log
  have hlog : ∀ i, parent.kernel.HasLog (shmName maxShmNameLen (pids i))
      ((runs i).recorded (images i)) := by
    intro i
    rw [hkernel]
    have hp := progress_of_schedule hpids hinj hs hprocs hmeets i
    exact hp.hasLog_of_stopped (hruns i) (himage i) (hdone i)
  have hreport : ∀ i, parent.kernel.report (pids i) =
      (CString.exec.bytes, (runs i).adding.stampTime .exec) ::
        (images i).adds.map fun x ↦ (x.1.bytes, x.2.stampTime x.1) := by
    intro i
    rw [report_of_recorded (hlog i) fun x hx ↦ ((hadds i).2 x hx).2, ChildRun.ownReport,
      List.take_of_length_le]
    rw [List.length_cons, List.length_map]
    exact Nat.succ_le_succ (hadds i).1
  constructor
  · intro i
    rw [shmName_eq (hpids i).natAbs_lt]
    rfl
  · have hcs : ∀ x ∈ List.ofFn fun i ↦ (pids i, sys i),
        x.2.opening.Succeeds ∧ parent.kernel.Fits x.1 := by
      intro x hx
      rcases List.mem_ofFn.mp hx with ⟨i, rfl⟩
      exact ⟨hsys i, (hlog i).fits⟩
    rcases printChildren_succeeds hctx (fun x hx ↦ (hcs x hx).1) (fun x hx ↦ (hcs x hx).2)
      with ⟨w', hr, -⟩
    refine ⟨w', hr, ?_⟩
    rw [(printChildren_ok hctx hr).2.2, List.map_ofFn]
    congr 3
    funext i
    exact hreport i

/-- A child that adds `"start"`, with nothing failing. -/
def quietChild : ChildRun where
  closing := .succeeding ⟨8, 0⟩
  clearing := .succeeding ⟨8, 0⟩
  adding := .succeeding ⟨8, 0⟩
  image := some ⟨[(.start, .succeeding ⟨9, 0⟩)], .exited 0⟩
  closingAgain := .succeeding ⟨9, 0⟩

theorem reports_isolated_two :
    (∀ i : Fin 2, shmName maxShmNameLen (i.val + 1) =
      "/shared_events_".toList ++ Reasoning.Decimal.printInt (i.val + 1)) ∧
    ∃ w', run (printChildren (List.ofFn fun i : Fin 2 ↦ ((i.val + 1 : ℤ), succeedingPrint)) 0)
        ⟨(runChildren staleKernel (fun _ : Fin 2 ↦ quietChild) (fun i ↦ .start (i.val + 1))
          [0, 1, 1, 0, 0, 1, 0, 1, 1, 0, 0, 1]).1, .start 3⟩ = (.ok 0, w') ∧
      w'.proc.stdout = [] ++ joinReports (List.ofFn fun _ : Fin 2 ↦
        [(CString.exec.bytes, ⟨8, 0⟩), (CString.start.bytes, ⟨9, 0⟩)]) := by
  have hok : ∀ ts, (Sys.succeeding ts).Succeeds := Sys.succeeds_succeeding
  apply @reports_isolated 2 staleKernel (fun _ ↦ quietChild)
    (fun _ ↦ ⟨[(.start, .succeeding ⟨9, 0⟩)], .exited 0⟩) (fun i ↦ i.val + 1)
    (fun i ↦ .start (i.val + 1)) [0, 1, 1, 0, 0, 1, 0, 1, 1, 0, 0, 1]
  · intro i
    unfold IsPid
    omega
  · intro i j h
    dsimp only at h
    omega
  · exact fun _ ↦ ⟨rfl, rfl⟩
  · exact fun _ ↦ ⟨hok _, hok _, hok _⟩
  · exact fun _ ↦ rfl
  · intro i
    refine ⟨by decide, fun x hx ↦ ?_⟩
    rw [List.mem_singleton.mp hx]
    exact ⟨hok _, by decide⟩
  · exact Fin.forall_fin_two.mpr ⟨show some (Status.exited 0) ≠ none by decide,
      show some (Status.exited 0) ≠ none by decide⟩
  · rfl
  · rfl
  · exact fun _ ↦ hok _

/-! ## Runs in which calls fail -/

/-- If every turn meets the condition, then a `main` that ends well has printed for each child only
its own events, the `"exec"` event of this run first. -/
theorem main_reports_own {n : ℕ} {k : Kernel} {runs : Fin n → ChildRun} {pids : Fin n → ℤ}
    {procs : Fin n → Proc} {sched : List (Fin n)} {waits : Fin n → WaitResult}
    {parent w' : World} {sys : Fin n → PrintSys} (hpids : ∀ i, IsPid (pids i))
    (hinj : Function.Injective pids)
    (hprocs : ∀ i, (procs i).pid = pids i ∧ (procs i).ctx = none)
    (himage : ∀ i image, (runs i).image = some image → ∀ x ∈ image.adds,
      x.2.Succeeds ∧ x.1.bytes.length < maxEventNameLength)
    (hmeets : RunMeets k runs procs sched pids)
    (hwaits : ∀ i s, waits i = .status s → ((runChildren k runs procs sched).2 i).status = some s)
    (hkernel : parent.kernel = (runChildren k runs procs sched).1) (hctx : parent.proc.ctx = none)
    (hmain : run (main (List.ofFn fun i ↦ (pids i, waits i, sys i))) parent = (.ok 0, w')) :
    ∃ images : Fin n → Image, (∀ i, (runs i).image = some (images i)) ∧
      w'.proc.stdout = parent.proc.stdout ++
        document (List.ofFn fun i ↦ (runs i).ownReport (images i)) := by
  have hs : ∀ i, (runs i).ImageSucceeds := fun i image hi x hx ↦ (himage i image hi x hx).1
  obtain ⟨hexit, -, hout⟩ := main_ok hctx hmain
  have hlog : ∀ i, ∃ image, (runs i).image = some image ∧
      parent.kernel.HasLog (shmName maxShmNameLen (pids i)) ((runs i).recorded image) := by
    intro i
    rcases hexit (pids i, waits i, sys i) (List.mem_ofFn.mpr ⟨i, rfl⟩) with ⟨code, hw, hcode⟩
    rw [hkernel]
    have hp := progress_of_schedule hpids hinj hs hprocs hmeets i
    exact hp.hasLog_of_exited (hwaits i _ hw) hcode
  choose images hi hl using hlog
  refine ⟨images, hi, ?_⟩
  rw [hout, List.map_ofFn]
  congr 3
  funext i
  exact report_of_recorded (hl i) fun x hx ↦ (himage i _ (hi i) x hx).2

/-- A child whose clear finds no room for the mapping, and whose program ends well. -/
def unclearedChild : ChildRun where
  closing := .succeeding ⟨8, 0⟩
  clearing := { Sys.succeeding ⟨8, 0⟩ with mmap := some 12 }
  adding := .succeeding ⟨8, 0⟩
  image := some ⟨[], .exited 0⟩
  closingAgain := .succeeding ⟨8, 0⟩

theorem main_reports_stale :
    ∃ w', ((runChildren staleKernel (fun _ : Fin 1 ↦ unclearedChild) (fun _ ↦ .start 1)
        [0, 0, 0, 0, 0]).2 0).status = some (.exited 0) ∧
      run (main [(1, .status (.exited 0), succeedingPrint)])
        ⟨(runChildren staleKernel (fun _ : Fin 1 ↦ unclearedChild) (fun _ ↦ .start 1)
          [0, 0, 0, 0, 0]).1, .start 2⟩ = (.ok 0, w') ∧
      w'.proc.stdout = document [[([109, 97, 105, 110], ⟨7, 0⟩), (CString.exec.bytes, ⟨8, 0⟩)]] := by
  refine ⟨_, rfl, rfl, rfl⟩

theorem main_reports_own_quiet :
    ∃ (w' : World) (images : Fin 1 → Image),
      run (main (List.ofFn fun _ : Fin 1 ↦ (1, .status (.exited 0), succeedingPrint)))
        ⟨(runChildren staleKernel (fun _ : Fin 1 ↦ quietChild) (fun _ ↦ .start 1)
          [0, 0, 0, 0, 0, 0]).1, .start 2⟩ = (.ok 0, w') ∧
      (∀ i, quietChild.image = some (images i)) ∧
      w'.proc.stdout = [] ++ document (List.ofFn fun i ↦ quietChild.ownReport (images i)) := by
  have hok : ∀ ts, (Sys.succeeding ts).Succeeds := Sys.succeeds_succeeding
  simp only [exists_and_left]
  refine ⟨_, rfl, ?_⟩
  apply @main_reports_own 1 staleKernel (fun _ ↦ quietChild) (fun _ ↦ 1) (fun _ ↦ .start 1)
    [0, 0, 0, 0, 0, 0] (fun _ ↦ .status (.exited 0)) ⟨_, .start 2⟩ _ (fun _ ↦ succeedingPrint)
  · intro i
    unfold IsPid
    omega
  · exact fun i j _ ↦ Subsingleton.elim i j
  · exact fun _ ↦ ⟨rfl, rfl⟩
  · intro i image hi x hx
    cases hi
    rw [List.mem_singleton.mp hx]
    exact ⟨hok _, by decide⟩
  · apply along_of_succeeds
    intro i
    apply @runChild_succeeds quietChild _ ⟨hok _, hok _, hok _⟩ rfl
    intro x hx
    rw [List.mem_singleton.mp hx]
    exact hok _
  · intro i s hs
    cases hs
    rw [Subsingleton.elim i 0]
    rfl
  · rfl
  · rfl
  · rfl

end UstBench
