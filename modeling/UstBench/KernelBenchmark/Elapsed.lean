import Mathlib.Algebra.BigOperators.Ring.Finset
import Mathlib.Algebra.Order.BigOperators.Group.List
import Mathlib.Algebra.Order.Ring.Int
import Mathlib.Data.Rat.Cast.Defs
import UstBench.KernelBenchmark.Lifetime

/-!
# Elapsed time

The microseconds between two readings of the clock, as integers, and what `benchmark_thread` and
`time_show` compute of them modulo `2 ^ 64`.
-/

namespace UstBench.KernelBenchmark

open Reasoning

/-! ## One thread -/

/-- The moment a reading stands for, in microseconds. -/
def Timeval.micros (t : Timeval) : ℤ := t.tvSec * 1000000 + t.tvUsec

/-- The microseconds are below a second. -/
structure Timeval.Normal (t : Timeval) : Prop where
  nonneg : 0 ≤ t.tvUsec
  lt : t.tvUsec < 1000000

theorem natCast_toU64 (x : ℤ) : (toU64 x : ℤ) = x % 2 ^ 64 := by
  unfold toU64
  omega

-- a negative difference of the microseconds is added as a wrapped value
theorem elapsed_eq_toU64 (startTv endTv : Timeval) :
    elapsed startTv endTv = toU64 (endTv.micros - startTv.micros) := by
  have hsec : (toU64 (toU64 (endTv.tvSec - startTv.tvSec) * 1000000) : ℤ) =
      (endTv.tvSec - startTv.tvSec) * 1000000 % 2 ^ 64 := by
    rw [natCast_toU64, natCast_toU64, Int.mul_emod, Int.emod_emod, ← Int.mul_emod]
  apply Int.ofNat_inj.mp
  show (toU64 (toU64 (toU64 (endTv.tvSec - startTv.tvSec) * 1000000) +
    (endTv.tvUsec - startTv.tvUsec)) : ℤ) = toU64 (endTv.micros - startTv.micros)
  rw [natCast_toU64, hsec, natCast_toU64, Int.emod_add_emod]
  unfold Timeval.micros
  congr 1
  omega

theorem elapsed_exact {startTv endTv : Timeval} (h0 : startTv.micros ≤ endTv.micros)
    (h1 : endTv.micros - startTv.micros < 2 ^ 64) :
    (elapsed startTv endTv : ℤ) = endTv.micros - startTv.micros := by
  rw [elapsed_eq_toU64, natCast_toU64]
  omega

/-- The differences `benchmark_thread` takes fit a 64-bit `long`. -/
def DifferencesFit (startTv endTv : Timeval) : Prop :=
  -2 ^ 63 ≤ endTv.tvSec - startTv.tvSec ∧ endTv.tvSec - startTv.tvSec < 2 ^ 63 ∧
    -2 ^ 63 ≤ endTv.tvUsec - startTv.tvUsec ∧ endTv.tvUsec - startTv.tvUsec < 2 ^ 63

theorem differencesFit {startTv endTv : Timeval} (hs : startTv.Normal) (he : endTv.Normal)
    (h0 : startTv.micros ≤ endTv.micros) (h1 : endTv.micros - startTv.micros < 2 ^ 64) :
    DifferencesFit startTv endTv := by
  have hs0 := hs.nonneg
  have hs1 := hs.lt
  have he0 := he.nonneg
  have he1 := he.lt
  unfold Timeval.micros at h0 h1
  unfold DifferencesFit
  omega

/-! ## All threads -/

/-- The microseconds from the first reading of a thread to its second one. -/
def Setup.micros (b : Setup) (cpu : ℕ) : ℤ := (b.endTv cpu).micros - (b.startTv cpu).micros

def Setup.totalMicros (b : Setup) (n : ℕ) : ℤ := ((List.range n).map b.micros).sum

/-- `n` CPUs, whose clocks do not go backwards between two readings, for less than `2 ^ 64`
microseconds in all. -/
structure Setup.Clocked (b : Setup) (n : ℕ) : Prop where
  cpus : b.cpus = List.range n
  normal : ∀ cpu < n, (b.startTv cpu).Normal ∧ (b.endTv cpu).Normal
  ordered : ∀ cpu < n, (b.startTv cpu).micros ≤ (b.endTv cpu).micros
  total : b.totalMicros n < 2 ^ 64

/-- The mean of the threads, in seconds. -/
def Setup.meanSeconds (b : Setup) (n : ℕ) : ℚ := (b.totalMicros n : ℚ) / 10 ^ 6 / n

section Clocked

variable {b : Setup} {n : ℕ}

theorem Setup.Clocked.micros_nonneg (h : b.Clocked n) {m : ℤ}
    (hm : m ∈ (List.range n).map b.micros) : 0 ≤ m := by
  rcases List.mem_map.mp hm with ⟨cpu, hcpu, rfl⟩
  have hord := h.ordered cpu (List.mem_range.mp hcpu)
  unfold Setup.micros
  omega

theorem Setup.Clocked.micros_lt (h : b.Clocked n) {cpu : ℕ} (hcpu : cpu < n) :
    b.micros cpu < 2 ^ 64 := by
  have hmem : b.micros cpu ∈ (List.range n).map b.micros :=
    List.mem_map_of_mem (List.mem_range.mpr hcpu)
  have hle : b.micros cpu ≤ b.totalMicros n :=
    List.single_le_sum (fun m hm ↦ h.micros_nonneg hm) _ hmem
  have htotal := h.total
  omega

theorem Setup.Clocked.time_eq (h : b.Clocked n) {cpu : ℕ} (hcpu : cpu < n) :
    (b.time cpu : ℤ) = b.micros cpu :=
  elapsed_exact (h.ordered cpu hcpu) (h.micros_lt hcpu)

theorem Setup.Clocked.differencesFit (h : b.Clocked n) {cpu : ℕ} (hcpu : cpu < n) :
    DifferencesFit (b.startTv cpu) (b.endTv cpu) :=
  KernelBenchmark.differencesFit (h.normal cpu hcpu).1 (h.normal cpu hcpu).2 (h.ordered cpu hcpu)
    (h.micros_lt hcpu)

/-- No sum of `time_show` wraps. -/
theorem Setup.Clocked.sum_time (h : b.Clocked n) :
    ((((List.range n).map b.time).sum : ℕ) : ℤ) = b.totalMicros n := by
  rw [Nat.cast_list_sum, List.map_map]
  show (List.map _ (List.range n)).sum = (List.map _ (List.range n)).sum
  congr 1
  apply List.map_congr_left
  intro cpu hcpu
  exact h.time_eq (List.mem_range.mp hcpu)

theorem Setup.Clocked.total_eq (h : b.Clocked n) : (b.total b.cpus : ℤ) = b.totalMicros n := by
  have hsum := h.sum_time
  have htotal := h.total
  unfold Setup.total
  rw [h.cpus]
  omega

/-- A thread that has stored its time, has stored the microseconds between its readings. -/
theorem Setup.Clocked.thread_time (h : b.Clocked n) {s : State} (hinv : Inv b s) {cpu : ℕ}
    (hcpu : cpu < n)
    (hw : s.workers cpu = some .stored ∨ s.workers cpu = some .finished) :
    ((s.threads cpu).time : ℤ) = b.micros cpu := by
  have hmem : cpu ∈ b.cpus := by
    rw [h.cpus]
    exact List.mem_range.mpr hcpu
  have hth := hinv.threads cpu hmem
  unfold ThreadOk at hth
  rw [← h.time_eq hcpu]
  cases hw with
  | inl hstored =>
    rw [hstored] at hth
    rw [hth.2.1]
  | inr hfinished =>
    rw [hfinished] at hth
    rw [hth.2.1]

theorem Setup.Clocked.returned_time (h : b.Clocked n) {s : State} (hinv : Inv b s) {time : ℕ}
    (hr : s.reader = .returned time) : (time : ℤ) = b.totalMicros n := by
  have hok := hinv.reader
  unfold ReaderOk at hok
  rw [hr] at hok
  rw [hok]
  exact h.total_eq

end Clocked

/-! ## What `time_show` prints -/

/-- `sprintf(buf, "%llu\n", time)` -/
def showTime (time : ℕ) : List Char := Nat.toDigits 10 time ++ ['\n']

/-- What a read of the file `time` may give: the total of a run in which no wait is cut short. -/
def Setup.Shows (b : Setup) (text : List Char) : Prop :=
  ∃ memory as s time, Throughout (step b) Uninterrupted as (.initial b memory) ∧
    execute (step b) as (.initial b memory) = some s ∧ s.reader = .returned time ∧
      text = showTime time

theorem Setup.Clocked.shows {b : Setup} {n : ℕ} (h : b.Clocked n) {text : List Char}
    (ht : b.Shows text) : ∃ time : ℕ, (time : ℤ) = b.totalMicros n ∧ text = showTime time := by
  rcases ht with ⟨memory, as, s, time, hu, hr, hret, htext⟩
  exact ⟨time, h.returned_time (inv_execute h.cpus hu hr) hret, htext⟩

end UstBench.KernelBenchmark
