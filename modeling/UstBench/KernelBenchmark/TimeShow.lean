import Mathlib.Algebra.Group.Int.Defs
import Mathlib.Algebra.GroupWithZero.Nat
import Mathlib.Logic.Function.Basic
import Mathlib.Tactic.Common

/-!
# `lttng_benchmark.c`

`time_show` starts one `benchmark_thread` per online CPU, waits for all of them and adds their times.
The reader and the threads are interleaved; a step is one access to the array of threads, one
operation on a completion, or one turn of the measurement loop.
-/

namespace UstBench.KernelBenchmark

structure Timeval where
  tvSec : ℤ
  tvUsec : ℤ
deriving DecidableEq

/-- The value of an integer in an `unsigned long long`. -/
def toU64 (x : ℤ) : ℕ := (x % 2 ^ 64).toNat

/-- The time `benchmark_thread` computes, in `unsigned long long` throughout. -/
def elapsed (startTv endTv : Timeval) : ℕ :=
  let time := toU64 (endTv.tvSec - startTv.tvSec)
  let time := toU64 (time * 1000000)
  toU64 (time + (endTv.tvUsec - startTv.tvUsec))

/-- `struct benchmark_thread`, without the task: the completion `end` by its count. -/
structure BenchmarkThread where
  prev : Bool
  endDone : ℕ
  time : ℕ

/-- What a run depends on: the online CPUs, the number of events, and what each thread reads from the
clock before and after its loop. -/
structure Setup where
  cpus : List ℕ
  eventCount : ℕ
  startTv : ℕ → Timeval
  endTv : ℕ → Timeval

def Setup.time (b : Setup) (cpu : ℕ) : ℕ := elapsed (b.startTv cpu) (b.endTv cpu)

/-- Where a `benchmark_thread` is. -/
inductive WorkerPc where
  | created
  | waiting
  | measuring (i : ℕ)
  | measured
  | stored
  | finished
deriving DecidableEq

/-- Where `time_show` is: the loops by the CPUs they still have to visit. -/
inductive ReaderPc where
  | init (rest : List ℕ)
  | start (rest : List ℕ)
  | release
  | wait (rest : List ℕ)
  | sum (rest : List ℕ) (time : ℕ)
  | free (time : ℕ)
  | returned (time : ℕ)
deriving DecidableEq

inductive Fault where
  | outOfBounds
  | useAfterFree
  | deadStack
deriving DecidableEq

/-- `threads` is what the allocated memory holds.  `mainStart` says whether the completion on the
stack of `time_show` was completed, `signal` whether one is pending for the reader. -/
structure State where
  threads : ℕ → BenchmarkThread
  workers : ℕ → Option WorkerPc
  reader : ReaderPc
  mainStart : Bool
  signal : Bool
  freed : Bool
  fault : Option Fault

def State.initial (b : Setup) (memory : ℕ → BenchmarkThread) : State :=
  ⟨memory, fun _ ↦ none, .init b.cpus, false, false, false, none⟩

inductive Action where
  | signal
  | reader
  | worker (cpu : ℕ)
deriving DecidableEq

/-- An access to `threads[cpu]` on the way from `s` to `s'`. -/
def State.access (b : Setup) (s : State) (cpu : ℕ) (s' : State) : State :=
  if s.freed then
    { s with fault := some .useAfterFree }
  else if cpu < b.cpus.length then
    s'
  else
    { s with fault := some .outOfBounds }

def State.setThread (s : State) (cpu : ℕ) (t : BenchmarkThread) : State :=
  { s with threads := Function.update s.threads cpu t }

def State.setWorker (s : State) (cpu : ℕ) (pc : WorkerPc) : State :=
  { s with workers := Function.update s.workers cpu (some pc) }

/-- A wait for a completed `end` takes one off its count.  An interrupted one goes on without; its
result is not looked at. -/
def readerStep (b : Setup) (s : State) : Option State :=
  match s.reader with
  | .init (cpu :: rest) =>
    some <| s.access b cpu
      ({ s with reader := .init rest }.setThread cpu
        { s.threads cpu with endDone := 0, time := 0 })
  | .init [] => some { s with reader := .start b.cpus }
  | .start (cpu :: rest) =>
    -- the index is the number of the CPU, the length of `threads` how many CPUs are online
    some <| s.access b cpu
      (({ s with reader := .start rest }.setThread cpu
        { s.threads cpu with prev := true }).setWorker cpu .created)
  | .start [] => some { s with reader := .release }
  | .release => some { s with mainStart := true, reader := .wait b.cpus }
  | .wait (cpu :: rest) =>
    if 0 < (s.threads cpu).endDone then
      some <| s.access b cpu
        ({ s with reader := .wait rest }.setThread cpu
          { s.threads cpu with endDone := (s.threads cpu).endDone - 1 })
    else if s.signal then
      -- the thread is summed and its memory freed without having finished
      some <| s.access b cpu { s with reader := .wait rest }
    else
      none
  | .wait [] => some { s with reader := .sum b.cpus 0 }
  | .sum (cpu :: rest) time =>
    some <| s.access b cpu
      { s with reader := .sum rest (toU64 (time + (s.threads cpu).time)) }
  | .sum [] time => some { s with reader := .free time }
  | .free time => some { s with freed := true, reader := .returned time }
  | .returned _ => none

def workerStep (b : Setup) (s : State) (cpu : ℕ) : Option State :=
  match s.workers cpu with
  | none => none
  | some .created => some <| s.access b cpu (s.setWorker cpu .waiting)
  | some .waiting =>
    match s.reader with
    -- `prev` points into the stack of a function that has returned
    | .returned _ => some { s with fault := some .deadStack }
    | _ => if s.mainStart then some (s.setWorker cpu (.measuring 0)) else none
  | some (.measuring i) =>
    if i < b.eventCount then
      some (s.setWorker cpu (.measuring (i + 1)))
    else
      some (s.setWorker cpu .measured)
  | some .measured =>
    some <| s.access b cpu
      ((s.setThread cpu { s.threads cpu with time := b.time cpu }).setWorker cpu .stored)
  | some .stored =>
    some <| s.access b cpu
      ((s.setThread cpu { s.threads cpu with endDone := (s.threads cpu).endDone + 1 }).setWorker cpu
        .finished)
  | some .finished => none

/-- Nothing happens after a fault. -/
def step (b : Setup) (s : State) (a : Action) : Option State :=
  match s.fault with
  | some _ => none
  | none =>
    match a with
    | .signal => some { s with signal := true }
    | .reader => readerStep b s
    | .worker cpu => workerStep b s cpu

/-! ## What a step does -/

/-- An access that goes wrong does nothing else. -/
theorem access_cases (b : Setup) (s : State) (cpu : ℕ) (s' : State) :
    s.access b cpu s' = s' ∨ ∃ fault, s.access b cpu s' = { s with fault := some fault } := by
  unfold State.access
  split
  · exact .inr ⟨_, rfl⟩
  · split
    · exact .inl rfl
    · exact .inr ⟨_, rfl⟩

/-- The steps of `time_show`: the turns of its loops, each at the entry of a CPU, and what is between
the loops. -/
inductive ReaderMove (b : Setup) (s : State) : State → Prop where
  | init {cpu : ℕ} {rest : List ℕ} (hr : s.reader = .init (cpu :: rest)) :
      ReaderMove b s (s.access b cpu
        (({ s with reader := .init rest } : State).setThread cpu
          { s.threads cpu with endDone := 0, time := 0 }))
  | start {cpu : ℕ} {rest : List ℕ} (hr : s.reader = .start (cpu :: rest)) :
      ReaderMove b s (s.access b cpu
        ((({ s with reader := .start rest } : State).setThread cpu
          { s.threads cpu with prev := true }).setWorker cpu .created))
  | wait {cpu : ℕ} {rest : List ℕ} (hr : s.reader = .wait (cpu :: rest))
      (hdone : 0 < (s.threads cpu).endDone) :
      ReaderMove b s (s.access b cpu
        (({ s with reader := .wait rest } : State).setThread cpu
          { s.threads cpu with endDone := (s.threads cpu).endDone - 1 }))
  | interrupted {cpu : ℕ} {rest : List ℕ} (hr : s.reader = .wait (cpu :: rest))
      (hdone : (s.threads cpu).endDone = 0) (hsig : s.signal = true) :
      ReaderMove b s (s.access b cpu { s with reader := .wait rest })
  | sum {cpu time : ℕ} {rest : List ℕ} (hr : s.reader = .sum (cpu :: rest) time) :
      ReaderMove b s (s.access b cpu
        { s with reader := .sum rest (toU64 (time + (s.threads cpu).time)) })
  | initialised (hr : s.reader = .init []) : ReaderMove b s { s with reader := .start b.cpus }
  | started (hr : s.reader = .start []) : ReaderMove b s { s with reader := .release }
  | released (hr : s.reader = .release) :
      ReaderMove b s { s with mainStart := true, reader := .wait b.cpus }
  | waited (hr : s.reader = .wait []) : ReaderMove b s { s with reader := .sum b.cpus 0 }
  | summed {time : ℕ} (hr : s.reader = .sum [] time) :
      ReaderMove b s { s with reader := .free time }
  | freed {time : ℕ} (hr : s.reader = .free time) :
      ReaderMove b s { s with freed := true, reader := .returned time }

/-- The steps of a `benchmark_thread`. -/
inductive WorkerMove (b : Setup) (s : State) (cpu : ℕ) : State → Prop where
  | created (hw : s.workers cpu = some .created) :
      WorkerMove b s cpu (s.access b cpu (s.setWorker cpu .waiting))
  | deadStack {time : ℕ} (hw : s.workers cpu = some .waiting) (hr : s.reader = .returned time) :
      WorkerMove b s cpu { s with fault := some .deadStack }
  | waited (hw : s.workers cpu = some .waiting) (hm : s.mainStart = true) :
      WorkerMove b s cpu (s.setWorker cpu (.measuring 0))
  | turn {i : ℕ} (hw : s.workers cpu = some (.measuring i)) (hi : i < b.eventCount) :
      WorkerMove b s cpu (s.setWorker cpu (.measuring (i + 1)))
  | left {i : ℕ} (hw : s.workers cpu = some (.measuring i)) (hi : b.eventCount ≤ i) :
      WorkerMove b s cpu (s.setWorker cpu .measured)
  | measured (hw : s.workers cpu = some .measured) :
      WorkerMove b s cpu (s.access b cpu
        ((s.setThread cpu { s.threads cpu with time := b.time cpu }).setWorker cpu .stored))
  | stored (hw : s.workers cpu = some .stored) :
      WorkerMove b s cpu (s.access b cpu
        ((s.setThread cpu { s.threads cpu with endDone := (s.threads cpu).endDone + 1 }).setWorker cpu
          .finished))

section Moves

variable {b : Setup} {s s' : State}

theorem readerStep_move (hs : readerStep b s = some s') : ReaderMove b s s' := by
  unfold readerStep at hs
  cases hr : s.reader with
  | init todo =>
    rw [hr] at hs
    cases todo with
    | cons cpu rest =>
      cases hs
      exact .init hr
    | nil =>
      cases hs
      exact .initialised hr
  | start todo =>
    rw [hr] at hs
    cases todo with
    | cons cpu rest =>
      cases hs
      exact .start hr
    | nil =>
      cases hs
      exact .started hr
  | release =>
    rw [hr] at hs
    cases hs
    exact .released hr
  | wait todo =>
    rw [hr] at hs
    cases todo with
    | cons cpu rest =>
      by_cases hdone : 0 < (s.threads cpu).endDone
      · simp only [if_pos hdone, Option.some.injEq] at hs
        rw [← hs]
        exact .wait hr hdone
      · by_cases hsig : s.signal = true
        · simp only [if_neg hdone, if_pos hsig, Option.some.injEq] at hs
          rw [← hs]
          exact .interrupted hr (Nat.eq_zero_of_not_pos hdone) hsig
        · simp only [if_neg hdone, if_neg hsig] at hs
          cases hs
    | nil =>
      cases hs
      exact .waited hr
  | sum todo time =>
    rw [hr] at hs
    cases todo with
    | cons cpu rest =>
      cases hs
      exact .sum hr
    | nil =>
      cases hs
      exact .summed hr
  | free time =>
    rw [hr] at hs
    cases hs
    exact .freed hr
  | returned time =>
    rw [hr] at hs
    cases hs

theorem workerStep_move {cpu : ℕ} (hs : workerStep b s cpu = some s') : WorkerMove b s cpu s' := by
  unfold workerStep at hs
  cases hw : s.workers cpu with
  | none =>
    rw [hw] at hs
    cases hs
  | some pc =>
    rw [hw] at hs
    cases pc with
    | created =>
      cases hs
      exact .created hw
    | waiting =>
      simp only at hs
      split at hs
      · rename_i hr
        cases hs
        exact .deadStack hw hr
      · split at hs
        · rename_i hm
          cases hs
          exact .waited hw hm
        · cases hs
    | measuring i =>
      simp only at hs
      by_cases hi : i < b.eventCount
      · simp only [if_pos hi, Option.some.injEq] at hs
        rw [← hs]
        exact .turn hw hi
      · simp only [if_neg hi, Option.some.injEq] at hs
        rw [← hs]
        exact .left hw (Nat.le_of_not_lt hi)
    | measured =>
      cases hs
      exact .measured hw
    | stored =>
      cases hs
      exact .stored hw
    | finished => cases hs

end Moves

end UstBench.KernelBenchmark
