import Mathlib.Data.Nat.Fib.Basic
import UstBench.Workload.Counting

/-!
# The sums of `basic-benchmark`

The two variables of the loop are consecutive Fibonacci numbers.  Its sums fit an `int` for as many
turns as there are such numbers below its largest value.
-/

namespace UstBench.Workload

open Reasoning

/-- In no turn that the loop makes, a sum of the two variables overflows. -/
def SumsFit (build : Build) (iterations : ℤ) : Prop :=
  ∀ k, Turns (below (Program.basic build).counter iterations) (basicTurn build) k basicStart →
    .sum ∉ ((basicTurn build)^[k] basicStart).overflows ∧
      .tracepoint ∉ ((basicTurn build)^[k] basicStart).overflows

/-- The tracepoint of `sum.tp`, where it is enabled, adds one number further on. -/
def lastFitting : Build → ℕ
  | .sum true => 44
  | _ => 45

theorem lastFitting_le (build : Build) : lastFitting build ≤ 45 := by
  unfold lastFitting
  split <;> omega

/-! ## Fibonacci numbers in an `int` -/

theorem fib_le_intMax {n : ℕ} (h : n ≤ 46) : (Nat.fib n : ℤ) ≤ intMax := by
  have hmono : Nat.fib n ≤ Nat.fib 46 := Nat.fib_mono h
  have hlast : Nat.fib 46 = 1836311903 := by decide
  unfold intMax
  omega

theorem intMax_lt_fib : intMax < (Nat.fib 47 : ℤ) := by
  have hfirst : Nat.fib 47 = 2971215073 := by decide
  unfold intMax
  omega

theorem toInt_fib {n : ℕ} (h : n ≤ 46) : toInt (Nat.fib n) = Nat.fib n :=
  toInt_of_fits (by omega) (fib_le_intMax h)

theorem fib_add_fib (n : ℕ) : (Nat.fib n : ℤ) + Nat.fib (n + 1) = Nat.fib (n + 2) := by
  rw [Nat.fib_add_two, Nat.cast_add]

section Turn

variable {build : Build} {s : BasicLocals} {n : ℕ}

theorem basicTurn_fib (hx : s.x = Nat.fib n) (hy : s.y = Nat.fib (n + 1)) (hn : n ≤ 44) :
    (basicTurn build s).x = Nat.fib (n + 1) ∧ (basicTurn build s).y = Nat.fib (n + 2) := by
  constructor
  · exact hy
  · show toInt (s.x + s.y) = _
    rw [hx, hy, fib_add_fib, toInt_fib (by omega)]

/-- What a turn computes of two consecutive numbers, the second of them in the body and the third in
the tracepoint. -/
theorem sum_mem_basicTurn (hx : s.x = Nat.fib n) (hy : s.y = Nat.fib (n + 1)) :
    .sum ∈ (basicTurn build s).overflows ↔
      .sum ∈ s.overflows ∨ toInt (Nat.fib (n + 2)) ≠ Nat.fib (n + 2) := by
  rw [mem_overflows_basicTurn, hx, hy, fib_add_fib]
  simp

theorem tracepoint_mem_basicTurn (hx : s.x = Nat.fib n) (hy : s.y = Nat.fib (n + 1)) (hn : n ≤ 44) :
    .tracepoint ∈ (basicTurn build s).overflows ↔ .tracepoint ∈ s.overflows ∨
      build = .sum true ∧ toInt (Nat.fib (n + 3)) ≠ Nat.fib (n + 3) := by
  rw [mem_overflows_basicTurn, hx, hy, fib_add_fib, toInt_fib (by omega), fib_add_fib (n + 1)]
  simp

end Turn

/-! ## The loop -/

section Loop

variable {build : Build} {k : ℕ}

theorem basic_fib (build : Build) (h : k ≤ 45) :
    ((basicTurn build)^[k] basicStart).x = Nat.fib k ∧
      ((basicTurn build)^[k] basicStart).y = Nat.fib (k + 1) := by
  induction k with
  | zero => exact ⟨rfl, rfl⟩
  | succ k ih =>
    have hk := ih (by omega)
    rw [Function.iterate_succ_apply']
    exact basicTurn_fib hk.1 hk.2 (by omega)

/-- No sum of the first turns overflows. -/
theorem basic_sums_fit (h : k ≤ lastFitting build) :
    .sum ∉ ((basicTurn build)^[k] basicStart).overflows ∧
      .tracepoint ∉ ((basicTurn build)^[k] basicStart).overflows := by
  have hlast := lastFitting_le build
  induction k with
  | zero => exact ⟨List.not_mem_nil, List.not_mem_nil⟩
  | succ k ih =>
    have hbefore := ih (by omega)
    have hk := basic_fib build (show k ≤ 45 by omega)
    rw [Function.iterate_succ_apply', sum_mem_basicTurn hk.1 hk.2,
      tracepoint_mem_basicTurn hk.1 hk.2 (by omega), toInt_fib (by omega)]
    constructor
    · simp [hbefore.1]
    · -- the sum of the tracepoint counts only where there is one
      rw [not_or, not_and]
      refine ⟨hbefore.2, ?_⟩
      intro hbuild
      rw [hbuild] at h
      have hlimit : k + 1 ≤ 44 := h
      rw [toInt_fib (by omega)]
      simp

/-- The turn behind the last fitting one overflows. -/
theorem basic_sum_overflows (build : Build) :
    .sum ∈ ((basicTurn build)^[lastFitting build + 1] basicStart).overflows ∨
      .tracepoint ∈ ((basicTurn build)^[lastFitting build + 1] basicStart).overflows := by
  have hfib : toInt (Nat.fib 47) ≠ Nat.fib 47 := toInt_ne_of_lt intMax_lt_fib
  by_cases hbuild : build = .sum true
  · have hk := basic_fib build (show 44 ≤ 45 by omega)
    have hlast : lastFitting build = 44 := by rw [hbuild]; rfl
    rw [hlast, Function.iterate_succ_apply', tracepoint_mem_basicTurn hk.1 hk.2 (by omega)]
    exact .inr (.inr ⟨hbuild, hfib⟩)
  · have hk := basic_fib build (show 45 ≤ 45 by omega)
    have hlast : lastFitting build = 45 := by
      unfold lastFitting
      split
      · exact absurd rfl hbuild
      · rfl
    rw [hlast, Function.iterate_succ_apply', sum_mem_basicTurn hk.1 hk.2]
    exact .inl (.inr hfib)

theorem turns_iff (build : Build) {n : ℕ} (hn : n ≤ 2 ^ 31 - 1) :
    Turns (below (Program.basic build).counter n) (basicTurn build) k basicStart ↔ k ≤ n :=
  turns_iff_of_counter fun _ hj ↦ basic_counter build (hj.trans hn)

end Loop

theorem SumsFit.le {build : Build} {iterations : ℤ} (h : SumsFit build iterations) :
    iterations ≤ lastFitting build := by
  by_contra hlt
  -- the turn that overflows is made, long before the counter does
  have hlast := lastFitting_le build
  have hturns : Turns (below (Program.basic build).counter iterations) (basicTurn build)
      (lastFitting build + 1) basicStart :=
    turns_of_counter (fun k hk ↦ basic_counter build (by omega)) (by omega)
  rcases basic_sum_overflows build with hsum | htracepoint
  · exact (h _ hturns).1 hsum
  · exact (h _ hturns).2 htracepoint

/-- For every number of iterations that the program accepts, no sum of its two variables overflows in
any turn exactly if the number is not above 45, or 44 where the tracepoint adds them too. -/
theorem sumsFit_iff (build : Build) {count : List Char} (h : 1 ≤ strtol count) :
    SumsFit build (strtol count) ↔ strtol count ≤ lastFitting build := by
  constructor
  · exact SumsFit.le
  · intro hle k hturns
    have hlast := lastFitting_le build
    have hcast : ((strtol count).toNat : ℤ) = strtol count := Int.toNat_of_nonneg (by omega)
    rw [← hcast] at hturns
    have hk : k ≤ (strtol count).toNat := (turns_iff build (by omega)).mp hturns
    exact basic_sums_fit (by omega)

theorem sumsFit_iff_hundred : SumsFit .plain (strtol "100".toList) ↔
    strtol "100".toList ≤ lastFitting .plain :=
  sumsFit_iff .plain (by decide)

-- the counts of `benchmarks.py`, and the smallest ones that overflow
theorem sums_overflow :
    strtol "10000000".toList = 10000000 ∧ ¬SumsFit .plain 10000000 ∧
      strtol "1000000".toList = 1000000 ∧ ¬SumsFit .generated 1000000 ∧
      strtol "46".toList = 46 ∧ ¬SumsFit .plain 46 ∧
      strtol "45".toList = 45 ∧ ¬SumsFit (.sum true) 45 := by
  refine ⟨by decide, ?_, by decide, ?_, by decide, ?_, by decide, ?_⟩
  · intro h
    exact absurd h.le (by decide)
  · intro h
    exact absurd h.le (by decide)
  · intro h
    exact absurd h.le (by decide)
  · intro h
    exact absurd h.le (by decide)

end UstBench.Workload
