import UstBench.Runner.Reports
import UstBench.Runner.Timestamps
import UstBench.Workload.Process

/-!
# A launch of the runner with a benchmark

The runner forks its children, which become a benchmark and record when they get where, and prints
what they left.  A launch that ends well is read as the array of these readings of the clock.
-/

namespace UstBench.Workload

open Reasoning Reasoning.Prog

/-- Everything one launch depends on: the arguments of the benchmark, what the segments held before,
the children with the answers the system gives to their calls and the order of their turns, and the
parent. -/
structure Launch where
  argv : List (List Char)
  n : ℕ
  kernel : Kernel
  pids : Fin n → ℤ
  procs : Fin n → Proc
  runs : Fin n → ChildRun
  calls : Fin n → MainSys
  sched : List (Fin n)
  waits : Fin n → WaitResult
  print : Fin n → PrintSys
  parent : Proc

/-- What the clock shows a process at the places it records. -/
structure Stamps where
  exec : Timespec
  main : Timespec
  start : Timespec
  end_ : Timespec

namespace Stamps

structure Valid (s : Stamps) : Prop where
  exec : s.exec.Valid
  main : s.main.Valid
  start : s.start.Valid
  end_ : s.end_.Valid

/-- From `execv` to `main`. -/
def startTime (s : Stamps) : ℚ := s.main.seconds - s.exec.seconds

/-- The time of the loop. -/
def runTime (s : Stamps) : ℚ := s.end_.seconds - s.start.seconds

/-- What a process that came to its `main`, and perhaps behind its loop, is reported with. -/
def json (s : Stamps) (looped : Bool) : Json :=
  .obj ([("exec".toList, .num s.exec.seconds), ("main".toList, .num s.main.seconds)] ++
    if looped then [("start".toList, .num s.start.seconds), ("end".toList, .num s.end_.seconds)]
    else [])

end Stamps

/-- The arguments give a number of iterations that is positive. -/
def Loops (argv : List (List Char)) : Bool :=
  match argv with
  | [_, count] => 0 < strtol count
  | _ => false

namespace Launch

def children (l : Launch) : Kernel × (Fin l.n → Child) :=
  runChildren l.kernel l.runs l.procs l.sched

/-- How the runner ends. -/
def exit (l : Launch) : Except Fault ℤ × World :=
  run (UstBench.main (List.ofFn fun i ↦ (l.pids i, l.waits i, l.print i)))
    ⟨l.children.1, l.parent⟩

/-- What the clock shows to the child and to the benchmark it becomes: at the end of the call that
adds `start`, and at the beginning of every other one. -/
def stamps (l : Launch) (i : Fin l.n) : Stamps where
  exec := (l.runs i).adding.stampTime .exec
  main := (l.calls i).main.stampTime .main
  start := (l.calls i).start.stampTime .start
  end_ := (l.calls i).end_.stampTime .end_

/-- Children of their own pids that become the benchmark if their `execv` succeeds, and whose calls
before it do not fail in a way that leaves them alive; the parent waits for them. -/
structure OfBenchmark (l : Launch) : Prop where
  isPid : ∀ i, IsPid (l.pids i)
  injective : Function.Injective l.pids
  fresh : ∀ i, (l.procs i).pid = l.pids i ∧ (l.procs i).ctx = none
  image : ∀ i image, (l.runs i).image = some image → image = (l.calls i).image l.argv
  calls : ∀ i, (l.calls i).Succeeds
  meets : RunMeets l.kernel l.runs l.procs l.sched l.pids
  waits : ∀ i s, l.waits i = .status s → (l.children.2 i).status = some s
  closed : l.parent.ctx = none
  silent : l.parent.stdout = []
  clock : ∀ i, (l.stamps i).Valid

end Launch

/-! ## The image of a benchmark -/

section Image

variable {sys : MainSys} {argv : List (List Char)}

theorem image_adds (sys : MainSys) (argv : List (List Char)) :
    (sys.image argv).adds = if Loops argv then sys.adds else [(.main, sys.main)] := by
  unfold MainSys.image Loops
  rcases argv with _ | ⟨name, _ | ⟨count, _ | ⟨more, rest⟩⟩⟩
  · rfl
  · rfl
  · dsimp only
    by_cases hpos : strtol count ≤ 0
    · rw [if_pos hpos, if_neg (by simpa using hpos)]
    · rw [if_neg hpos, if_pos (by simpa using hpos)]
  · rfl

theorem mem_image_adds {x : CString × Sys} (h : x ∈ (sys.image argv).adds) : x ∈ sys.adds := by
  rw [image_adds] at h
  split at h
  · exact h
  · rw [List.mem_singleton.mp h]
    exact List.mem_cons_self

theorem adds_succeed (hs : sys.Succeeds) {x : CString × Sys} (h : x ∈ sys.adds) :
    x.2.Succeeds ∧ x.1.bytes.length < maxEventNameLength := by
  simp only [MainSys.adds, List.mem_cons, List.not_mem_nil, or_false] at h
  rcases h with rfl | rfl | rfl
  · exact ⟨hs.main, show CString.main.bytes.length < 256 by decide⟩
  · exact ⟨hs.start, show CString.start.bytes.length < 256 by decide⟩
  · exact ⟨hs.end_, show CString.end_.bytes.length < 256 by decide⟩

end Image

/-! ## The output -/

namespace Launch

variable {l : Launch} {w : World}

/-- The lines the runner prints of one child. -/
def report (l : Launch) (i : Fin l.n) : Report :=
  (CString.exec.bytes, (l.stamps i).exec) ::
    ((l.calls i).image l.argv).adds.map fun x ↦ (x.1.bytes, x.2.stampTime x.1)

theorem report_eq (l : Launch) (i : Fin l.n) : l.report i =
    [(CString.exec.bytes, (l.stamps i).exec), (CString.main.bytes, (l.stamps i).main)] ++
      if Loops l.argv then
        [(CString.start.bytes, (l.stamps i).start), (CString.end_.bytes, (l.stamps i).end_)]
      else [] := by
  unfold report
  rw [image_adds]
  split <;> rfl

theorem jsonReport_eq (l : Launch) (i : Fin l.n) :
    jsonReport (l.report i) = (l.stamps i).json (Loops l.argv) := by
  rw [report_eq]
  unfold jsonReport Stamps.json
  split <;> rfl

theorem readable_report (h : l.OfBenchmark) (i : Fin l.n) : Readable (l.report i) := by
  have hv := h.clock i
  rw [report_eq]
  intro e he
  have hmem : e ∈ [(CString.exec.bytes, (l.stamps i).exec),
      (CString.main.bytes, (l.stamps i).main), (CString.start.bytes, (l.stamps i).start),
      (CString.end_.bytes, (l.stamps i).end_)] := by
    rcases List.mem_append.mp he with he | he
    · exact List.mem_append_left _ he
    · split at he
      · exact List.mem_append_right [_, _] he
      · cases he
  simp only [List.mem_cons, List.not_mem_nil, or_false] at hmem
  rcases hmem with rfl | rfl | rfl | rfl
  · exact ⟨by simp [Printable, CString.exec], hv.exec⟩
  · exact ⟨by simp [Printable, CString.main], hv.main⟩
  · exact ⟨by simp [Printable, CString.start], hv.start⟩
  · exact ⟨by simp [Printable, CString.end_], hv.end_⟩

/-- A child that has exited with status 0 has left its own lines. -/
theorem report_of_exited (h : l.OfBenchmark) {i : Fin l.n} {code : ℕ}
    (hwait : l.waits i = .status (.exited code)) (hcode : code % 256 = 0) :
    l.children.1.report (l.pids i) = l.report i := by
  have hs : ∀ i, (l.runs i).ImageSucceeds := by
    intro i image hi x hx
    rw [h.image i image hi] at hx
    exact (adds_succeed (h.calls i) (mem_image_adds hx)).1
  have hp := progress_of_schedule h.isPid h.injective hs h.fresh h.meets i
  obtain ⟨image, hi, hlog⟩ := hp.hasLog_of_exited (h.waits i _ hwait) hcode
  have himage := h.image i image hi
  subst himage
  have hnames : ∀ x ∈ ((l.calls i).image l.argv).adds, x.1.bytes.length < maxEventNameLength :=
    fun x hx ↦ (adds_succeed (h.calls i) (mem_image_adds hx)).2
  refine (report_of_recorded hlog hnames).trans ?_
  apply List.take_of_length_le
  -- there are four lines at most
  rw [List.length_cons, List.length_map, image_adds]
  split
  · exact show 4 ≤ 256 by decide
  · exact show 2 ≤ 256 by decide

/-- The output of a launch that ended well. -/
theorem jsonLoads_output (h : l.OfBenchmark) (hexit : l.exit = (.ok 0, w)) :
    jsonLoads (stdoutBytes w.proc.stdout) =
      some (.arr (List.ofFn fun i ↦ (l.stamps i).json (Loops l.argv))) := by
  obtain ⟨hwaits, -, hout⟩ := main_ok (w := ⟨l.children.1, l.parent⟩) h.closed hexit
  have hreports : (List.ofFn fun i ↦ (l.pids i, l.waits i, l.print i)).map
      (fun x ↦ l.children.1.report x.1) = List.ofFn l.report := by
    rw [List.map_ofFn]
    congr 1
    funext i
    obtain ⟨code, hcode, hzero⟩ := hwaits _ (List.mem_ofFn.mpr ⟨i, rfl⟩)
    exact report_of_exited h hcode hzero
  have hread : ∀ r ∈ List.ofFn l.report, Readable r := by
    intro r hr
    obtain ⟨i, rfl⟩ := List.mem_ofFn.mp hr
    exact readable_report h i
  rw [hout, hreports]
  show jsonLoads (stdoutBytes (l.parent.stdout ++ _)) = _
  rw [h.silent, List.nil_append, jsonLoads_document hread, List.map_ofFn]
  congr 3
  funext i
  exact l.jsonReport_eq i

end Launch

end UstBench.Workload
