import UstBench.Reasoning.Json
import Mathlib.Data.List.Dedup

/-!
# The results of `benchmarks.py`

The values the driver computes with: the reports of the runner, the result of one benchmark, and
the flattened and averaged results.  Numbers are exact rationals.
-/

namespace UstBench.Driver

open Reasoning

/-- The exceptions that the code raises or that the steps it makes may raise.  The subclasses of
`OSError` are not told apart. -/
inductive Exc where
  | keyboardInterrupt
  | systemExit
  | osError
  | valueError
  | typeError
  | keyError
  | indexError
  | zeroDivisionError
  | calledProcessError
  | runtimeError (text : String)
  | exception (text : String)
  deriving DecidableEq

inductive Value where
  | none
  | num (q : ℚ)
  | str (s : String)
  | list (elements : List Value)
  | dict (items : List (String × Value))

/-- A dictionary: its items in the order of their insertion. -/
abbrev Dict := List (String × Value)

def Dict.set (d : Dict) (key : String) (v : Value) : Dict :=
  if d.any fun p ↦ p.1 = key then
    d.map fun p ↦ if p.1 = key then (key, v) else p
  else
    d ++ [(key, v)]

/-! ## Arithmetic on what `json.loads` gave -/

def div (a b : ℚ) : Except Exc ℚ := if b = 0 then .error .zeroDivisionError else .ok (a / b)

theorem div_of_ne {a b : ℚ} (h : b ≠ 0) : div a b = .ok (a / b) := if_neg h

theorem div_eq_ok {a b q : ℚ} (h : div a b = .ok q) : b ≠ 0 ∧ q = a / b := by
  unfold div at h
  by_cases hb : b = 0
  · rw [if_pos hb] at h
    cases h
  · rw [if_neg hb] at h
    cases h
    exact ⟨hb, rfl⟩

def len : Json → Except Exc ℕ
  | .arr elements => .ok elements.length
  | .obj members => .ok (members.map Prod.fst).dedup.length
  | .str s => .ok s.length
  | _ => .error .typeError

/-- `v[i]` for an index -/
def item (v : Json) (i : ℕ) : Except Exc Json :=
  match v with
  | .arr elements => elements[i]?.elim (.error .indexError) .ok
  | .str s => s[i]?.elim (.error .indexError) fun c ↦ .ok (.str [c])
  | .obj _ => .error .keyError
  | _ => .error .typeError

/-- `v[key]` for a string: of a repeated name the last member counts. -/
def member (v : Json) (key : String) : Except Exc Json :=
  match v with
  | .obj members => (members.reverse.lookup key.toList).elim (.error .keyError) .ok
  | _ => .error .typeError

def number : Json → Except Exc ℚ
  | .num q => .ok q
  | .bool true => .ok 1
  | .bool false => .ok 0
  | _ => .error .typeError

def difference (report : Json) (later earlier : String) : Except Exc ℚ := do
  let x ← member report later
  let y ← member report earlier
  return (← number x) - (← number y)

/-! ## One benchmark -/

/-- The parameters `do_benchmarks` hands to `do_ust_benchmark`. -/
structure Benchmark where
  baseline : List String
  ust : List String
  nrLoops : Option ℕ := none
  tpPerLoop : ℕ := 1

def Benchmark.args (b : Benchmark) : List String := b.nrLoops.elim [] fun n ↦ [toString n]

structure Sums where
  baseStart : ℚ := 0
  ustStart : ℚ := 0
  ustStartOverhead : ℚ := 0
  ustEnStart : ℚ := 0
  ustEnStartOverhead : ℚ := 0
  baseRun : ℚ := 0
  ustRun : ℚ := 0
  ustEnRun : ℚ := 0

/-- One turn of the summing loop of `do_ust_benchmark`. -/
def Sums.add (nrLoops : Option ℕ) (baseAll ustAll ustEnAll : Json) (s : Sums) (i : ℕ) :
    Except Exc Sums := do
  let base ← item baseAll i
  let ust ← item ustAll i
  let ustEn ← item ustEnAll i
  let baseStart := s.baseStart + (← difference base "main" "exec")
  let ustStart := s.ustStart + (← difference ust "main" "exec")
  let ustStartOverhead := s.ustStartOverhead + (ustStart - baseStart)
  let ustEnStart := s.ustEnStart + (← difference ustEn "main" "exec")
  let ustEnStartOverhead := s.ustEnStartOverhead + (ustEnStart - baseStart)
  if nrLoops.isSome then
    let baseRun := s.baseRun + (← difference base "end" "start")
    let ustRun := s.ustRun + (← difference ust "end" "start")
    let ustEnRun := s.ustEnRun + (← difference ustEn "end" "start")
    return ⟨baseStart, ustStart, ustStartOverhead, ustEnStart, ustEnStartOverhead, baseRun, ustRun,
      ustEnRun⟩
  else
    return ⟨baseStart, ustStart, ustStartOverhead, ustEnStart, ustEnStartOverhead, s.baseRun,
      s.ustRun, s.ustEnRun⟩

/-- The run times and the time for each event: none of them without a number of loops. -/
def runTimes (b : Benchmark) (n : ℚ) (s : Sums) :
    Except Exc (Value × Value × Value × Value × Value) :=
  match b.nrLoops with
  | none => return (.none, .none, .none, .none, .none)
  | some nrLoops => do
    let baseRun ← div s.baseRun n
    let ustRun ← div s.ustRun n
    let ustEnRun ← div s.ustEnRun n
    let nrEvents : ℚ := nrLoops * b.tpPerLoop
    let ustNs ← div ((ustRun - baseRun) * 10 ^ 9) nrEvents
    let ustEnNs ← div ((ustEnRun - baseRun) * 10 ^ 9) nrEvents
    return (.num baseRun, .num ustRun, .num ustEnRun, .num ustNs, .num ustEnNs)

def argsValue (args : List String) : Value := .list (args.map .str)

/-- What `do_ust_benchmark` makes of the reports of its three runs. -/
def ustResult (b : Benchmark) (baseAll ustAll ustEnAll : Json) : Except Exc Value := do
  let count ← len baseAll
  let s ← (List.range count).foldlM (Sums.add b.nrLoops baseAll ustAll ustEnAll) {}
  let n : ℚ := count
  let baseStart ← div s.baseStart n
  let ustStart ← div s.ustStart n
  let ustStartOverhead ← div s.ustStartOverhead n
  let ustEnStart ← div s.ustEnStart n
  let ustEnStartOverhead ← div s.ustEnStartOverhead n
  let (baseRun, ustRun, ustEnRun, ustNs, ustEnNs) ← runTimes b n s
  let ustPct ← div (ustStartOverhead * 100) baseStart
  let ustEnPct ← div (ustEnStartOverhead * 100) baseStart
  return .dict
    [("baseline", .dict
      [("args", argsValue (b.baseline ++ b.args)), ("start_time", .num baseStart),
        ("run_time", baseRun)]),
     ("tracing_disabled", .dict
      [("args", argsValue (b.ust ++ b.args)), ("start_time", .num ustStart),
        ("run_time", ustRun), ("ns_per_event", ustNs),
        ("start_overhead_s", .num ustStartOverhead), ("start_overhead_pct", .num ustPct)]),
     ("tracing_enabled", .dict
      [("args", argsValue (b.ust ++ b.args)), ("start_time", .num ustEnStart),
        ("run_time", ustEnRun), ("ns_per_event", ustEnNs),
        ("start_overhead_s", .num ustEnStartOverhead), ("start_overhead_pct", .num ustEnPct)])]

/-- What `do_kernel_benchmark` makes of its two run times. -/
def kernelResult (nrLoops cpuCount : ℕ) (baseRun tracingEnRun : ℚ) : Except Exc Value := do
  let tracingEnRun ← div tracingEnRun cpuCount
  let baseRun ← div baseRun cpuCount
  let nsPerEvent ← div ((tracingEnRun - baseRun) * 10 ^ 9) nrLoops
  return .dict
    [("baseline", .dict [("run_time", .num baseRun)]),
     ("tracing_enabled", .dict
      [("run_time", .num tracingEnRun), ("ns_per_event", .num nsPerEvent)])]

theorem except_bind_eq_ok {ε α β : Type} {x : Except ε α} {f : α → Except ε β} {b : β}
    (h : x >>= f = .ok b) : ∃ a, x = .ok a ∧ f a = .ok b := by
  cases x with
  | error e => cases h
  | ok a => exact ⟨a, rfl, h⟩

/-! ## Flattening and averaging -/

mutual

def flattenDictInternal (pre : String) : Value → Dict → Dict
  | .str s, dst => dst.set pre (.str s)
  | .dict items, dst => flattenItems pre items dst
  | .list elements, dst => flattenElements pre 0 elements dst
  | .num q, dst => dst.set pre (.num q)
  | .none, dst => dst

def flattenItems (pre : String) : List (String × Value) → Dict → Dict
  | [], dst => dst
  | (key, v) :: rest, dst =>
    let fullprefix := if 0 < pre.length then pre ++ "." ++ key else key
    flattenItems pre rest (flattenDictInternal fullprefix v dst)

def flattenElements (pre : String) : ℕ → List Value → Dict → Dict
  | _, [], dst => dst
  | i, v :: rest, dst =>
    let fullprefix := pre ++ "." ++ toString i
    flattenElements pre (i + 1) rest (flattenDictInternal fullprefix v dst)

end

def flattenDict (data : Value) : Dict := flattenDictInternal "" data []

/-- The keys of all flattened passes, as a set. -/
def allKeys (flatData : List Dict) : List String := (flatData.flatMap (·.map Prod.fst)).dedup

/-- One turn of the inner averaging loop, on `total`, `count` and `avg_data`. -/
def averagePass (key : String) : ℚ × ℕ × Dict → Dict → ℚ × ℕ × Dict
  | (total, count, avgData), flatPassData =>
    let (total, count) := match flatPassData.lookup key with
      | some (.num q) => (total + q, count + 1)
      | _ => (total, count)
    (total, count, if 0 < count then avgData.set key (.num (total / count)) else avgData)

def averageKey (flatData : List Dict) (avgData : Dict) (key : String) : Dict :=
  (flatData.foldl (averagePass key) (0, 0, avgData)).2.2

/-- The averages of one CPU level, with the keys taken in the order given. -/
def average (flatData : List Dict) (keys : List String) : Dict :=
  keys.foldl (averageKey flatData) []

end UstBench.Driver
