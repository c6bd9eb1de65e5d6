import UstBench.Runner.Program
import UstBench.SharedEvents.Cursor

/-!
# What the runner prints

`print_events` prints the log of a segment, `main` the logs of all children between brackets.  A
report that cannot be opened leaves `main` with a failure, and one that runs into a half-open
context or an overlong log never comes back, so a run that ends well has printed every log.
-/

namespace UstBench

open Reasoning Reasoning.Prog

/-- The events of one child as they are printed: name bytes and time stamp. -/
abbrev Report := List (List UInt8 × Timespec)

def SharedEvents.report (s : SharedEvents) : Report :=
  (List.ofFn fun k ↦ (s.printedName k, (s.events k).ts)).take s.count

/-- The lines of a report behind the first `i`. -/
def reportEntries : ℕ → Report → List Printf
  | _, [] => []
  | i, e :: es => .entry (if i = 0 then ' ' else ',') e.1 e.2 :: reportEntries (i + 1) es

def reportItems (r : Report) : List Printf :=
  .text "\x7b".toList :: reportEntries 0 r ++ [.text "\n\x7d\n".toList]

def joinReports : List Report → List Printf
  | [] => []
  | r :: rs => reportItems r ++ (if rs = [] then [] else [.text ",".toList]) ++ joinReports rs

/-- The whole output of `main`. -/
def document (rs : List Report) : List Printf :=
  .text "[\n".toList :: joinReports rs ++ [.text "]\n".toList]

/-- The report of a process; without a segment it is empty. -/
def Kernel.report (k : Kernel) (pid : ℤ) : Report :=
  ((k.segment (shmName maxShmNameLen pid)).map SharedEvents.report).getD []

/-- The log of a process fits the array. -/
def Kernel.Fits (k : Kernel) (pid : ℤ) : Prop :=
  ∀ s, k.segment (shmName maxShmNameLen pid) = some s → s.count ≤ maxEventCount

/-! ## The reports -/

namespace SharedEvents

theorem report_getElem? {s : SharedEvents} {n : ℕ} (hn : n < s.count) (hs : n < maxEventCount) :
    s.report[n]? = some (s.printedName ⟨n, hs⟩, (s.events ⟨n, hs⟩).ts) := by
  rw [report, List.getElem?_take_of_lt hn, List.getElem?_ofFn, dif_pos hs]

theorem length_report {s : SharedEvents} (h : s.count ≤ maxEventCount) :
    s.report.length = s.count := by
  rw [report, List.length_take, List.length_ofFn]
  omega

theorem drop_report {s : SharedEvents} {n : ℕ} (hn : n < s.count) (hs : n < maxEventCount) :
    s.report.drop n = (s.printedName ⟨n, hs⟩, (s.events ⟨n, hs⟩).ts) :: s.report.drop (n + 1) := by
  have hget := report_getElem? hn hs
  have hlt : n < s.report.length := (List.getElem?_eq_some_iff.mp hget).1
  rw [List.drop_eq_getElem_cons hlt, (List.getElem?_eq_some_iff.mp hget).2]

-- with a NUL in every counted name field, the printed names are the stored ones
theorem report_of_terminated {s : SharedEvents} (hmax : s.count ≤ maxEventCount)
    (h : ∀ e ∈ s.log, e.Terminated) : s.report = s.log.map fun e ↦ (e.nameBytes, e.ts) := by
  apply List.ext_getElem?
  intro n
  by_cases hn : n < s.count
  · have hs : n < maxEventCount := by omega
    have hlog := log_getElem? hn hs
    have hterm := h _ (List.mem_of_getElem? hlog)
    rw [report_getElem? hn hs, List.getElem?_map, hlog, Option.map_some,
      printedName_of_terminated hterm]
  · rw [List.getElem?_eq_none (by rw [length_report hmax]; omega),
      List.getElem?_eq_none (by rw [List.length_map, length_log hmax]; omega)]

@[simp] theorem report_zeroed : zeroed.report = [] := rfl

end SharedEvents

/-- Making an empty segment changes no report. -/
theorem Kernel.report_ensure (k : Kernel) (n : ShmName) (pid : ℤ) :
    (k.ensure n).report pid = k.report pid := by
  unfold Kernel.report
  by_cases hn : shmName maxShmNameLen pid = n
  · rw [hn, k.segment_ensure_self n]
    cases k.segment n with
    | some s => rfl
    | none => simp
  · rw [k.segment_ensure_of_ne hn]

theorem Kernel.fits_ensure (k : Kernel) (n : ShmName) (pid : ℤ) :
    (k.ensure n).Fits pid ↔ k.Fits pid := by
  unfold Kernel.Fits
  by_cases hn : shmName maxShmNameLen pid = n
  · rw [hn, k.segment_ensure_self n]
    cases k.segment n with
    | some s => simp
    | none => simp [SharedEvents.zeroed]
  · rw [k.segment_ensure_of_ne hn]

/-! ## `print_events` -/

def World.print (w : World) (items : List Printf) : World :=
  { w with proc := { w.proc with stdout := w.proc.stdout ++ items } }

namespace World

@[simp] theorem print_kernel (w : World) (items : List Printf) :
    (w.print items).kernel = w.kernel := rfl
@[simp] theorem print_ctx (w : World) (items : List Printf) :
    (w.print items).proc.ctx = w.proc.ctx := rfl
@[simp] theorem print_stdout (w : World) (items : List Printf) :
    (w.print items).proc.stdout = w.proc.stdout ++ items := rfl

end World

theorem run_printf (p : Printf) (w : World) : run (printf p) w = (.ok (), w.print [p]) := rfl

section Loop

variable {w : World} {ino : Ino} {c : Ctx} {fuel n : ℕ}

-- the read position counts the lines printed so far
theorem printLoop_prints (reading : ℕ → Sys) (h : w.Mapped ino c) (hn : c.rptr = n)
    (hle : n ≤ (w.kernel.seg ino).count) (hmax : (w.kernel.seg ino).count ≤ maxEventCount)
    (hf : (w.kernel.seg ino).count < fuel + n) :
    ∃ w' c', run (printLoop reading fuel n) w = (.ok 0, w') ∧ w'.Mapped ino c' ∧
      w'.kernel = w.kernel ∧ w'.proc.stdout =
        w.proc.stdout ++ reportEntries n ((w.kernel.seg ino).report.drop n) := by
  induction fuel generalizing w c n with
  | zero => omega
  | succ fuel ih =>
    by_cases he : n = (w.kernel.seg ino).count
    · have hend : c.rptr = (w.kernel.seg ino).count := by rw [hn, he]
      have hdrop : (w.kernel.seg ino).report.drop n = [] := by
        apply List.drop_eq_nil_of_le
        rw [SharedEvents.length_report hmax]
        omega
      rw [printLoop, run_bind, run_read_at_end (reading n) h hend hmax, hdrop]
      exact ⟨w, c, rfl, h, rfl, (List.append_nil _).symm⟩
    · have hlt : n < (w.kernel.seg ino).count := by omega
      have hs : n < maxEventCount := by omega
      rw [printLoop, run_bind, run_read_of_mapped (reading n) h hn hs he]
      simp only [run_bind, run_get, run_printf]
      -- one line further, with the position moved on
      obtain ⟨w', c', hrun, hm, hk, hout⟩ := ih
        (w := (w.setCtx (some { c with rptr := n + 1 })).print [_]) (n := n + 1)
        ⟨rfl, h.events, h.live⟩ (by push_cast; rfl) hlt hmax
        (by change (w.kernel.seg ino).count < _; omega)
      refine ⟨w', c', hrun, hm, hk, hout.trans ?_⟩
      simp [SharedEvents.drop_report hlt hs, reportEntries]

-- behind the last slot lies nothing to read
theorem printLoop_overlong (reading : ℕ → Sys) (h : w.Mapped ino c) (hn : c.rptr = n)
    (hle : n ≤ maxEventCount) (hmax : maxEventCount < (w.kernel.seg ino).count)
    (hf : maxEventCount < fuel + n) :
    ∃ w', run (printLoop reading fuel n) w = (.error .outOfBounds, w') := by
  induction fuel generalizing w c n with
  | zero => omega
  | succ fuel ih =>
    by_cases he : n = maxEventCount
    · have hz : toSizeT c.rptr ≠ (w.kernel.seg ino).count := by
        rw [hn, toSizeT_natCast hle]
        omega
      have hr : ¬(0 ≤ c.rptr ∧ c.rptr.toNat < maxEventCount) := by omega
      simp only [printLoop, sharedEventsRead, run_bind, openFailed_of_open h.ctx,
        Bool.false_eq_true, if_false, derefEvents_of_mapped h, run_get, h.ctx, if_neg hz,
        dif_neg hr, run_throw]
      exact ⟨w, rfl⟩
    · rw [printLoop, run_bind, run_read_of_mapped (reading n) h hn (by omega) (by omega)]
      simp only [run_bind, run_get, run_printf]
      exact ih (w := (w.setCtx (some { c with rptr := n + 1 })).print [_]) (n := n + 1)
        ⟨rfl, h.events, h.live⟩ (by push_cast; rfl) (by omega) hmax (by omega)

end Loop

/-- How `print_events` ends when it finds the module closed. -/
inductive PrintOutcome (w : World) (pid : ℤ) : Except Fault ℤ × World → Prop
  | printed {w'} (fits : w.kernel.Fits pid)
      (kernel : w'.kernel = w.kernel.ensure (shmName maxShmNameLen pid))
      (ctx : w'.proc.ctx = none)
      (stdout : w'.proc.stdout = w.proc.stdout ++ reportItems (w.kernel.report pid)) :
      PrintOutcome w pid (.ok 0, w')
  | failed {w'} (kernel : w'.kernel = w.kernel) (ctx : w'.proc.ctx = none) :
      PrintOutcome w pid (.ok (-1), w')
  | half {w' c} (kernel : w'.kernel = w.kernel) (ctx : w'.proc.ctx = some c)
      (events : c.events = .unset) : PrintOutcome w pid (.ok (-1), w')
  | died {w' fault} : PrintOutcome w pid (.error fault, w')

/-- The segment an open leaves has the report of the pid. -/
theorem Opened.report_eq {w w₁ : World} {pid : ℤ} {ino : Ino} {c : Ctx}
    (h : Opened w w₁ (shmName maxShmNameLen pid) ino c) :
    (w₁.kernel.seg ino).report = w.kernel.report pid := by
  rw [← w.kernel.report_ensure (shmName maxShmNameLen pid) pid, ← h.kernel, Kernel.report,
    Kernel.segment_of_shm h.shm]
  rfl

theorem Opened.fits_iff {w w₁ : World} {pid : ℤ} {ino : Ino} {c : Ctx}
    (h : Opened w w₁ (shmName maxShmNameLen pid) ino c) :
    w.kernel.Fits pid ↔ (w₁.kernel.seg ino).count ≤ maxEventCount := by
  rw [← w.kernel.fits_ensure (shmName maxShmNameLen pid) pid, ← h.kernel, Kernel.Fits,
    Kernel.segment_of_shm h.shm]
  simp

theorem printEvents_of_opened {sys : PrintSys} {w w₁ : World} {pid : ℤ} {ino : Ino} {c : Ctx}
    (hopen : run (sharedEventsOpen sys.opening pid) w = (.ok 0, w₁))
    (h : Opened w w₁ (shmName maxShmNameLen pid) ino c) :
    PrintOutcome w pid (run (printEvents sys pid) w) ∧
      (w.kernel.Fits pid → ∃ w', run (printEvents sys pid) w = (.ok 0, w')) := by
  have hm := h.mapped
  -- the loop starts at position 0, behind the opening brace
  have h₂ : ((w₁.setCtx (some { c with rptr := 0 })).print [.text "\x7b".toList]).Mapped ino
      { c with rptr := 0 } := ⟨rfl, hm.events, hm.live⟩
  have hrun : run (printEvents sys pid) w =
      run (do
        let ret ← printLoop sys.reading (maxEventCount + 1) 0
        printf (.text "\n\x7d\n".toList)
        sharedEventsClose sys.closing
        return ret) ((w₁.setCtx (some { c with rptr := 0 })).print [.text "\x7b".toList]) := by
    simp only [printEvents, run_bind, hopen, rewind_of_mapped hm, run_printf,
      show ¬(0 : ℤ) = -1 by decide, if_false]
  rw [hrun]
  by_cases hmax : (w₁.kernel.seg ino).count ≤ maxEventCount
  · obtain ⟨w₃, c₃, hloop, hm₃, hk₃, hout₃⟩ := printLoop_prints sys.reading h₂ rfl (Nat.zero_le _)
      hmax (Nat.lt_succ_of_le hmax)
    have hm₃' : (w₃.print [.text "\n\x7d\n".toList]).Mapped ino c₃ :=
      ⟨hm₃.ctx, hm₃.events, hm₃.live⟩
    obtain ⟨w₄, hclose, hk, hctx, -, hout⟩ := close_of_mapped sys.closing hm₃'
    rw [run_bind_ok hloop, run_bind, run_printf]
    dsimp only
    rw [run_bind_ok hclose]
    refine ⟨.printed (h.fits_iff.mpr hmax) ?_ hctx ?_, fun _ ↦ ⟨w₄, rfl⟩⟩
    · exact hk.trans (hk₃.trans h.kernel)
    · rw [hout, World.print_stdout, hout₃]
      change ((w₁.proc.stdout ++ _) ++ reportEntries 0 (w₁.kernel.seg ino).report) ++ _ = _
      rw [h.stdout, h.report_eq, reportItems]
      simp
  · -- a count beyond the array is never reached by the position
    obtain ⟨w₃, hloop⟩ := printLoop_overlong sys.reading h₂ rfl (Nat.zero_le _)
      (Nat.lt_of_not_le hmax) (Nat.lt_succ_self _)
    rw [run_bind_error hloop]
    exact ⟨.died, fun hf ↦ absurd (h.fits_iff.mp hf) hmax⟩

theorem printEvents_outcome (sys : PrintSys) (pid : ℤ) {w : World} (hc : w.proc.ctx = none) :
    PrintOutcome w pid (run (printEvents sys pid) w) := by
  have ho := open_outcome sys.opening pid hc
  have hrun : ∀ {w₁}, run (sharedEventsOpen sys.opening pid) w = (.ok (-1), w₁) →
      run (printEvents sys pid) w = (.ok (-1), w₁) := by
    intro w₁ hr
    rw [printEvents, run_bind, hr]
    rfl
  generalize hr : run (sharedEventsOpen sys.opening pid) w = r at ho
  cases ho with
  | opened h => exact (printEvents_of_opened hr h).1
  | failed kernel ctx =>
    rw [hrun hr]
    exact .failed kernel ctx
  | half kernel ctx events =>
    rw [hrun hr]
    exact .half kernel ctx events
  | died =>
    rw [printEvents, run_bind, hr]
    exact .died

/-! ## `main` -/

/-- One turn of the loop of `main`. -/
theorem run_printChildren_cons {sys : PrintSys} {pid : ℤ} {rest : List (ℤ × PrintSys)} {ret : ℤ}
    {w : World} :
    run (printChildren ((pid, sys) :: rest) ret) w =
      match run (printEvents sys pid) w with
      | (.ok r, w₁) => run (printChildren rest (if r = -1 then -1 else ret))
          (w₁.print (if rest ≠ [] then [.text ",".toList] else []))
      | (.error f, w₁) => (.error f, w₁) := by
  rw [printChildren, run_bind]
  rcases run (printEvents sys pid) w with ⟨f | r, w₁⟩
  · rfl
  · dsimp only
    by_cases hrest : rest ≠ []
    · rw [if_pos hrest, if_pos hrest]
      rfl
    · rw [if_neg hrest, if_neg hrest]
      simp [World.print]

/-- A failure that is noted is not forgotten. -/
theorem printChildren_failed {cs : List (ℤ × PrintSys)} {w w' : World} {ret : ℤ}
    (h : run (printChildren cs (-1)) w = (.ok ret, w')) : ret = -1 := by
  induction cs generalizing w with
  | nil =>
    cases h
    rfl
  | cons x cs ih =>
    obtain ⟨pid, sys⟩ := x
    rw [run_printChildren_cons] at h
    rcases hr : run (printEvents sys pid) w with ⟨f | r, w₁⟩
    · rw [hr] at h
      cases h
    · simp only [hr, ite_self] at h
      exact ih h

/-- If the loop of `main` ends without a failure, it has printed the report of every child. -/
theorem printChildren_ok {cs : List (ℤ × PrintSys)} {ret : ℤ} {w w' : World}
    (hc : w.proc.ctx = none) (h : run (printChildren cs ret) w = (.ok 0, w')) :
    ret = 0 ∧ (∀ x ∈ cs, w.kernel.Fits x.1) ∧
      w'.proc.stdout = w.proc.stdout ++ joinReports (cs.map fun x ↦ w.kernel.report x.1) := by
  induction cs generalizing w ret with
  | nil =>
    cases h
    simp [joinReports]
  | cons x rest ih =>
    obtain ⟨pid, sys⟩ := x
    have ho := printEvents_outcome sys pid hc
    rw [run_printChildren_cons] at h
    generalize run (printEvents sys pid) w = r at ho h
    cases ho with
    | failed => exact absurd (printChildren_failed h) (by decide)
    | half => exact absurd (printChildren_failed h) (by decide)
    | died => cases h
    | @printed w₁ fits kernel ctx stdout =>
      -- the segments of the others are read behind this report as they were in front of it
      simp only [show ¬(0 : ℤ) = -1 by decide, if_false] at h
      obtain ⟨hret, hfits, hout⟩ := ih (by exact ctx) h
      simp only [World.print_kernel, kernel, Kernel.fits_ensure, Kernel.report_ensure] at hfits hout
      refine ⟨hret, ?_, ?_⟩
      · intro y hy
        rcases List.mem_cons.mp hy with rfl | hy
        · exact fits
        · exact hfits y hy
      · rw [hout, World.print_stdout, stdout]
        cases rest <;> simp [joinReports]

/-- With every call succeeding, and logs that fit, the loop of `main` ends without a failure. -/
theorem printChildren_succeeds {cs : List (ℤ × PrintSys)} {w : World} (hc : w.proc.ctx = none)
    (hs : ∀ x ∈ cs, x.2.opening.Succeeds) (hf : ∀ x ∈ cs, w.kernel.Fits x.1) :
    ∃ w', run (printChildren cs 0) w = (.ok 0, w') ∧ w'.proc.ctx = none := by
  induction cs generalizing w with
  | nil => exact ⟨w, rfl, hc⟩
  | cons x rest ih =>
    obtain ⟨pid, sys⟩ := x
    obtain ⟨w₁, ino, c, hopen, h⟩ := open_succeeds (hs _ List.mem_cons_self) pid hc
    have hp := printEvents_of_opened hopen h
    obtain ⟨w₂, hprint⟩ := hp.2 (hf _ List.mem_cons_self)
    have ho := hp.1
    rw [hprint] at ho
    rw [run_printChildren_cons, hprint]
    cases ho with
    | printed fits kernel ctx stdout =>
      simp only [show ¬(0 : ℤ) = -1 by decide, if_false]
      apply ih
      · exact ctx
      · exact fun y hy ↦ hs y (List.mem_cons_of_mem _ hy)
      · intro y hy
        rw [World.print_kernel, kernel, Kernel.fits_ensure]
        exact hf y (List.mem_cons_of_mem _ hy)

theorem waitChildren_eq (waits : List WaitResult) :
    waitChildren waits = if ∀ x ∈ waits, waitChild x = 0 then 0 else -1 := by
  have hfold : ∀ ret : ℤ, waits.foldl (fun ret x ↦ if waitChild x ≠ 0 then -1 else ret) ret =
      if ∀ x ∈ waits, waitChild x = 0 then ret else -1 := by
    induction waits with
    | nil => simp
    | cons x waits ih =>
      intro ret
      rw [List.foldl_cons, ih]
      by_cases hx : waitChild x = 0 <;> simp [hx]
  exact hfold 0

/-- The status word of a child is zero only after an exit with code zero. -/
theorem waitChild_eq_zero_iff (x : WaitResult) :
    waitChild x = 0 ↔ ∃ code, x = .status (.exited code) ∧ code % 256 = 0 := by
  cases x with
  | failed => simp [waitChild]
  | status s =>
    cases s with
    | signaled => simp [waitChild]
    | exited code =>
      simp only [waitChild, WaitResult.status.injEq, Status.exited.injEq]
      constructor
      · intro h
        exact ⟨code, rfl, by omega⟩
      · rintro ⟨c, rfl, h⟩
        rw [h]
        rfl

/-- If `main` ends well, every child has, and the output is the document of all their logs. -/
theorem main_ok {children : List (ℤ × WaitResult × PrintSys)} {w w' : World}
    (hc : w.proc.ctx = none) (h : run (main children) w = (.ok 0, w')) :
    (∀ x ∈ children, ∃ code, x.2.1 = .status (.exited code) ∧ code % 256 = 0) ∧
      (∀ x ∈ children, w.kernel.Fits x.1) ∧
      w'.proc.stdout = w.proc.stdout ++ document (children.map fun x ↦ w.kernel.report x.1) := by
  rw [main, waitChildren_eq] at h
  by_cases hw : ∀ x ∈ children.map fun x ↦ x.2.1, waitChild x = 0
  · rw [if_pos hw, if_pos (by decide)] at h
    rw [run_bind, run_printf] at h
    obtain ⟨ret, w₂, h₂, h⟩ := run_bind_eq_ok h
    rw [run_bind, run_printf] at h
    cases h
    obtain ⟨-, hfits, hout⟩ := printChildren_ok (by exact hc) h₂
    refine ⟨?_, ?_, ?_⟩
    · intro x hx
      exact (waitChild_eq_zero_iff _).mp (hw _ (List.mem_map_of_mem hx))
    · intro x hx
      exact hfits _ (List.mem_map_of_mem hx)
    · change w₂.proc.stdout ++ [_] = _
      rw [hout, List.map_map]
      simp [document, Function.comp_def, World.print]
  · rw [if_neg hw, if_neg (by decide)] at h
    cases h

/-! ## A small system -/

/-- A kernel in which an earlier process with pid 1 has left the event `"main"`. -/
def staleKernel : Kernel :=
  (Kernel.empty.create (shmName maxShmNameLen 1)).setSeg 0
    ⟨1, fun _ ↦ ⟨⟨7, 0⟩, strncpy ⟨[109, 97, 105, 110], by decide⟩⟩⟩

def succeedingPrint : PrintSys :=
  ⟨.succeeding ⟨9, 0⟩, .succeeding ⟨9, 0⟩, fun _ ↦ .succeeding ⟨9, 0⟩, .succeeding ⟨9, 0⟩⟩

end UstBench
