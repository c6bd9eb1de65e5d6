import UstBench.SharedEvents.Module
import UstBench.SharedEvents.Effects

/-!
# The functions of `lttng-ust-benchmarks.c`

The runner forks one child per CPU, waits for all of them and prints the event logs they left.  What
it prints is kept as the list of its `printf` calls.
-/

namespace UstBench

open Reasoning Reasoning.Prog

/-! ## The children -/

/-- How a process ends. -/
inductive Status where
  | exited (code : ℕ)
  | signaled
deriving DecidableEq, Repr

/-- One step of a child. -/
inductive ChildStep where
  | call (op : Op) (sys : Sys)
  | execv
  | stop (status : Status)

/-- The program a child becomes: the events it adds, and how it ends. -/
structure Image where
  adds : List (CString × Sys)
  ending : Status

def Image.steps (image : Image) : List ChildStep :=
  image.adds.map (fun x ↦ .call (.log (.add x.1)) x.2) ++ [.stop image.ending]

/-- The answers of the system to one child.  Without an image `execv` has failed. -/
structure ChildRun where
  closing : Sys
  clearing : Sys
  adding : Sys
  image : Option Image
  closingAgain : Sys

/-- What follows `shared_events_add("exec")`. -/
def ChildRun.execSteps (r : ChildRun) : List ChildStep :=
  match r.image with
  | some image => .execv :: image.steps
  | none => [.call .close r.closingAgain, .stop (.exited 1)]

/-- The child's half of `run_child`.  The results of its calls are not looked at. -/
def runChild (r : ChildRun) : List ChildStep :=
  .call .close r.closing :: .call (.log .clear) r.clearing ::
    .call (.log (.add .exec)) r.adding :: r.execSteps

structure Child where
  proc : Proc
  todo : List ChildStep
  status : Option Status

/-- A child whose process dies in a call does nothing more.  `execv` starts the pid afresh, with
neither context, descriptors nor mappings. -/
def childStep : Kernel × Child → Kernel × Child
  | (k, ch) =>
    match ch.todo with
    | [] => (k, ch)
    | .call op sys :: rest =>
      match run (op.run sys) ⟨k, ch.proc⟩ with
      | (.ok _, w) => (w.kernel, ⟨w.proc, rest, ch.status⟩)
      | (.error _, w) => (w.kernel, ⟨w.proc, [], some .signaled⟩)
    | .execv :: rest => (k, ⟨.start ch.proc.pid, rest, ch.status⟩)
    | .stop status :: _ => (k, ⟨ch.proc, [], some status⟩)

/-! ## The parent -/

/-- What `waitpid` gives the parent: an error, or the status of the child. -/
inductive WaitResult where
  | failed
  | status (s : Status)
deriving DecidableEq, Repr

/-- The status word is returned as it is, with the exit code in its second byte. -/
def waitChild : WaitResult → ℤ
  | .failed => -1
  | .status (.exited code) => (code % 256 * 256 : ℕ)
  | .status .signaled => -1

def printf (p : Printf) : Call Unit :=
  Prog.modify fun w ↦ { w with proc := { w.proc with stdout := w.proc.stdout ++ [p] } }

/-- The answers of the system to the calls of one `print_events`. -/
structure PrintSys where
  opening : Sys
  rewinding : Sys
  reading : ℕ → Sys
  closing : Sys

/-- The reading loop of `print_events`, entered after `i` events. -/
def printLoop (reading : ℕ → Sys) : ℕ → ℕ → Call ℤ
  | 0, _ => Prog.throw .outOfFuel
  | fuel + 1, i => do
    match ← sharedEventsRead (reading i) with
    | .null => return 0
    | .minusOne => return -1 -- the closing brace is still printed
    | .event ino k =>
      let seg := (← Prog.get).kernel.seg ino
      printf (.entry (if i = 0 then ' ' else ',') (seg.printedName k) (seg.events k).ts)
      printLoop reading fuel (i + 1)

def printEvents (sys : PrintSys) (pid : ℤ) : Call ℤ := do
  if (← sharedEventsOpen sys.opening pid) = -1 then
    -- nothing is printed, not even the braces
    return -1
  else if (← sharedEventsRewind sys.rewinding) = -1 then
    sharedEventsClose sys.closing
    return -1
  else
    printf (.text "\x7b".toList)
    let ret ← printLoop sys.reading (maxEventCount + 1) 0
    printf (.text "\n\x7d\n".toList)
    sharedEventsClose sys.closing
    return ret

/-- The loop of `main` over `print_events`.  The comma is printed whatever became of the report. -/
def printChildren : List (ℤ × PrintSys) → ℤ → Call ℤ
  | [], ret => return ret
  | (pid, sys) :: rest, ret => do
    let r ← printEvents sys pid
    if rest ≠ [] then
      printf (.text ",".toList)
    printChildren rest (if r = -1 then -1 else ret)

/-- The loop of `main` over `wait_child`. -/
def waitChildren (waits : List WaitResult) : ℤ :=
  waits.foldl (fun ret x ↦ if waitChild x ≠ 0 then -1 else ret) 0

/-- `main` once the children are started. -/
def main (children : List (ℤ × WaitResult × PrintSys)) : Call ℤ := do
  let ret := waitChildren (children.map fun x ↦ x.2.1)
  if ret ≠ -1 then
    printf (.text "[\n".toList)
    let ret ← printChildren (children.map fun x ↦ (x.1, x.2.2)) ret
    printf (.text "]\n".toList)
    return ret
  else
    return ret

end UstBench
