import UstBench.Driver.Results
import Mathlib.Algebra.BigOperators.Field
import Mathlib.Algebra.BigOperators.Intervals
import Mathlib.Algebra.BigOperators.Fin
import Mathlib.Algebra.Order.BigOperators.Group.Finset
import Mathlib.Algebra.Order.Field.Rat
import Mathlib.Data.List.FinRange
import Mathlib.Tactic.IntervalCases
import Mathlib.Tactic.Linarith
import Mathlib.Tactic.LinearCombination
import Mathlib.Tactic.Ring

/-!
# The start-up overhead

`do_ust_benchmark` adds to its overheads the difference of the running totals, not that of the
process at hand.  What it reports is a mean of prefix sums, in which a process counts the more the
earlier it is listed.  This is the difference of the means in every order of the processes only if
the order cannot matter.
-/

namespace UstBench.Driver

open Reasoning

/-- `main - exec` of the `i`-th report. -/
def startTime (reports : List Json) (i : ℕ) : ℚ :=
  (reports[i]?.bind fun report ↦ (difference report "main" "exec").toOption).getD 0

def mean (n : ℕ) (f : ℕ → ℚ) : ℚ := (∑ i ∈ Finset.range n, f i) / n

def Value.get (v : Value) (key : String) : Option Value :=
  match v with
  | .dict items => items.lookup key
  | _ => none

/-- `v[mode][key]` -/
def Value.entry (v : Value) (mode key : String) : Option Value := (v.get mode).bind (·.get key)

/-- The overhead reported for `mode` is the difference of the mean start times, and so of the two
start times reported. -/
structure OverheadIsMean (v : Value) (mode : String) (n : ℕ) (base ust : ℕ → ℚ) : Prop where
  overhead : v.entry mode "start_overhead_s" = some (.num (mean n ust - mean n base))
  starts : v.entry mode "start_time" = some (.num (mean n ust)) ∧
    v.entry "baseline" "start_time" = some (.num (mean n base))

/-- The overheads of the processes, each as often as there are processes behind it, cancel out. -/
def EvenOverheads (n : ℕ) (base ust : ℕ → ℚ) : Prop :=
  ∑ i ∈ Finset.range n, ((n : ℚ) - 1 - i) * (ust i - base i) = 0

/-- The overheads reported are the differences of the means, and they stay what they are when the
processes of each run are listed in another order. -/
structure OverheadsOfMeans (b : Benchmark) (base ust ustEn : List Json) (v : Value) : Prop where
  disabled : OverheadIsMean v "tracing_disabled" base.length (startTime base) (startTime ust)
  enabled : OverheadIsMean v "tracing_enabled" base.length (startTime base) (startTime ustEn)
  reordered : ∀ base' ust' ustEn', base'.Perm base → ust'.Perm ust → ustEn'.Perm ustEn →
    ∃ v', ustResult b (.arr base') (.arr ust') (.arr ustEn') = .ok v' ∧
      v'.entry "tracing_disabled" "start_overhead_s" =
        v.entry "tracing_disabled" "start_overhead_s" ∧
      v'.entry "tracing_enabled" "start_overhead_s" = v.entry "tracing_enabled" "start_overhead_s"

/-- There is one process, or those of all three runs took the same time to start. -/
def EqualStarts (n : ℕ) (base ust ustEn : ℕ → ℚ) : Prop :=
  n = 1 ∨ ∃ q, ∀ i < n, base i = q ∧ ust i = q ∧ ustEn i = q

/-- A report with the stamps `do_ust_benchmark` reads. -/
structure Complete (nrLoops : Option ℕ) (report : Json) : Prop where
  start : ∃ q, difference report "main" "exec" = .ok q
  loop : nrLoops.isSome → ∃ q, difference report "end" "start" = .ok q

/-- What a turn reads, if it does not raise. -/
def Reads (nrLoops : Option ℕ) (reports : List Json) (i : ℕ) : Prop :=
  ∃ report, item (.arr reports) i = .ok report ∧ Complete nrLoops report

/-! ## Prefix sums -/

-- every term is in the prefix sums behind it
theorem sum_prefix_sums (d : ℕ → ℚ) (n : ℕ) :
    ∑ i ∈ Finset.range n, ∑ j ∈ Finset.range (i + 1), d j =
      ∑ i ∈ Finset.range n, d i + ∑ i ∈ Finset.range n, ((n : ℚ) - 1 - i) * d i := by
  induction n with
  | zero => simp
  | succ n ih =>
    have hweights : ∑ i ∈ Finset.range n, (((n + 1 : ℕ) : ℚ) - 1 - i) * d i =
        ∑ i ∈ Finset.range n, d i + ∑ i ∈ Finset.range n, ((n : ℚ) - 1 - i) * d i := by
      rw [← Finset.sum_add_distrib]
      apply Finset.sum_congr rfl
      intro i _
      push_cast
      ring
    rw [Finset.sum_range_succ, ih, Finset.sum_range_succ d n,
      Finset.sum_range_succ (fun i : ℕ ↦ (((n + 1 : ℕ) : ℚ) - 1 - i) * d i) n, hweights]
    push_cast
    ring

/-- A sum in which the first of `n` numbers counts `n` times, and the last one once. -/
def weightedSum (n : ℕ) (f : ℕ → ℚ) : ℚ := ∑ i ∈ Finset.range n, ((n : ℚ) - i) * f i

/-- Numbers whose weighted sum is the same in every order are all the same. -/
theorem eq_of_weighted_sum {n : ℕ} {f : Fin n → ℚ}
    (h : ∀ σ : Equiv.Perm (Fin n), ∑ k, ((n : ℚ) - k) * f (σ k) = ∑ k, ((n : ℚ) - k) * f k)
    (i j : Fin n) : f i = f j := by
  by_contra hne
  have hij : i ≠ j := fun heq ↦ hne (congrArg f heq)
  have hcast : ((j : ℕ) : ℚ) - (i : ℕ) ≠ 0 := by
    rw [sub_ne_zero, ne_eq, Nat.cast_inj]
    exact fun heq ↦ hij (Fin.ext heq.symm)
  -- of the sums in the given order and with the two exchanged, only their own terms differ
  have hdiff : ∑ k, ((n : ℚ) - k) * (f (Equiv.swap i j k) - f k) = 0 := by
    simp only [mul_sub, Finset.sum_sub_distrib]
    rw [sub_eq_zero]
    simpa only [mul_sub, Finset.sum_sub_distrib] using h (Equiv.swap i j)
  rw [Fintype.sum_eq_add i j hij, Equiv.swap_apply_left, Equiv.swap_apply_right] at hdiff
  · have hprod : (((j : ℕ) : ℚ) - (i : ℕ)) * (f j - f i) = 0 := by linear_combination hdiff
    rcases mul_eq_zero.mp hprod with h0 | h0
    · exact hcast h0
    · exact hne (sub_eq_zero.mp h0).symm
  · intro k hk
    rw [Equiv.swap_apply_of_ne_of_ne hk.1 hk.2, sub_self, mul_zero]

/-! ## The sums -/

theorem startTime_of_item {reports : List Json} {report : Json} {i : ℕ} {q : ℚ}
    (hi : item (.arr reports) i = .ok report) (hd : difference report "main" "exec" = .ok q) :
    startTime reports i = q := by
  change reports[i]?.elim (Except.error Exc.indexError) Except.ok = Except.ok report at hi
  cases hr : reports[i]? with
  | none =>
    rw [hr] at hi
    cases hi
  | some r =>
    rw [hr] at hi
    cases hi
    rw [startTime, hr, Option.bind_some, hd]
    rfl

/-- A loop that has returned has made every turn. -/
theorem foldlM_turn {σ ε : Type} {f : σ → ℕ → Except ε σ} {s t : σ} {n : ℕ}
    (h : (List.range n).foldlM f s = .ok t) {i : ℕ} (hi : i < n) : ∃ u v, f u i = .ok v := by
  induction n generalizing t with
  | zero => omega
  | succ n ih =>
    rw [List.range_succ, List.foldlM_append] at h
    obtain ⟨u, hu, h⟩ := except_bind_eq_ok h
    obtain ⟨t', ht', h⟩ := except_bind_eq_ok h
    by_cases hlast : i = n
    · rw [hlast]
      exact ⟨u, t', ht'⟩
    · exact ih hu (by omega)

theorem Reads.getElem? {nrLoops : Option ℕ} {reports : List Json} {i : ℕ}
    (h : Reads nrLoops reports i) : ∃ report, reports[i]? = some report ∧ Complete nrLoops report := by
  obtain ⟨report, hi, hcomplete⟩ := h
  change reports[i]?.elim (Except.error Exc.indexError) Except.ok = Except.ok report at hi
  cases hr : reports[i]? with
  | none =>
    rw [hr] at hi
    cases hi
  | some r =>
    rw [hr] at hi
    cases hi
    exact ⟨_, rfl, hcomplete⟩

theorem Reads.lt {nrLoops : Option ℕ} {reports : List Json} {i : ℕ} (h : Reads nrLoops reports i) :
    i < reports.length := by
  obtain ⟨report, hr, -⟩ := h.getElem?
  exact (List.getElem?_eq_some_iff.mp hr).1

section Sums

variable {nrLoops : Option ℕ} {base ust ustEn : List Json}

/-- A turn has read a complete report of each run. -/
theorem Sums.add_reads {s s' : Sums} {i : ℕ}
    (h : s.add nrLoops (.arr base) (.arr ust) (.arr ustEn) i = .ok s') :
    Reads nrLoops base i ∧ Reads nrLoops ust i ∧ Reads nrLoops ustEn i := by
  unfold Sums.add at h
  obtain ⟨rb, hb, h⟩ := except_bind_eq_ok h
  obtain ⟨ru, hu, h⟩ := except_bind_eq_ok h
  obtain ⟨re, he, h⟩ := except_bind_eq_ok h
  obtain ⟨x, hx, h⟩ := except_bind_eq_ok h
  obtain ⟨y, hy, h⟩ := except_bind_eq_ok h
  obtain ⟨z, hz, h⟩ := except_bind_eq_ok h
  dsimp only at h
  by_cases hl : nrLoops.isSome
  · rw [if_pos hl] at h
    obtain ⟨p, hp, h⟩ := except_bind_eq_ok h
    obtain ⟨q, hq, h⟩ := except_bind_eq_ok h
    obtain ⟨r, hr, h⟩ := except_bind_eq_ok h
    exact ⟨⟨rb, hb, ⟨x, hx⟩, fun _ ↦ ⟨p, hp⟩⟩, ⟨ru, hu, ⟨y, hy⟩, fun _ ↦ ⟨q, hq⟩⟩,
      ⟨re, he, ⟨z, hz⟩, fun _ ↦ ⟨r, hr⟩⟩⟩
  · exact ⟨⟨rb, hb, ⟨x, hx⟩, fun h0 ↦ absurd h0 hl⟩, ⟨ru, hu, ⟨y, hy⟩, fun h0 ↦ absurd h0 hl⟩,
      ⟨re, he, ⟨z, hz⟩, fun h0 ↦ absurd h0 hl⟩⟩

theorem Sums.foldlM_reads {n : ℕ} {s t : Sums}
    (h : (List.range n).foldlM (Sums.add nrLoops (.arr base) (.arr ust) (.arr ustEn)) s = .ok t)
    {i : ℕ} (hi : i < n) : Reads nrLoops base i ∧ Reads nrLoops ust i ∧ Reads nrLoops ustEn i := by
  obtain ⟨u, v, huv⟩ := foldlM_turn h hi
  exact Sums.add_reads huv

/-- The sums that the reports are made from are those of the start times, and the overheads add up
the totals. -/
theorem Sums.add_starts {s s' : Sums} {i : ℕ}
    (h : s.add nrLoops (.arr base) (.arr ust) (.arr ustEn) i = .ok s') :
    s'.baseStart = s.baseStart + startTime base i ∧
      s'.ustStart = s.ustStart + startTime ust i ∧
      s'.ustEnStart = s.ustEnStart + startTime ustEn i ∧
      s'.ustStartOverhead = s.ustStartOverhead + (s'.ustStart - s'.baseStart) ∧
      s'.ustEnStartOverhead = s.ustEnStartOverhead + (s'.ustEnStart - s'.baseStart) := by
  unfold Sums.add at h
  obtain ⟨b, hb, h⟩ := except_bind_eq_ok h
  obtain ⟨u, hu, h⟩ := except_bind_eq_ok h
  obtain ⟨e, he, h⟩ := except_bind_eq_ok h
  obtain ⟨x, hx, h⟩ := except_bind_eq_ok h
  obtain ⟨y, hy, h⟩ := except_bind_eq_ok h
  obtain ⟨z, hz, h⟩ := except_bind_eq_ok h
  rw [startTime_of_item hb hx, startTime_of_item hu hy, startTime_of_item he hz]
  dsimp only at h
  split at h
  · obtain ⟨p, -, h⟩ := except_bind_eq_ok h
    obtain ⟨q, -, h⟩ := except_bind_eq_ok h
    obtain ⟨r, -, h⟩ := except_bind_eq_ok h
    cases h
    exact ⟨rfl, rfl, rfl, rfl, rfl⟩
  · cases h
    exact ⟨rfl, rfl, rfl, rfl, rfl⟩

theorem Sums.foldlM_starts {n : ℕ} {s : Sums}
    (h : (List.range n).foldlM (Sums.add nrLoops (.arr base) (.arr ust) (.arr ustEn)) {} = .ok s) :
    s.baseStart = ∑ i ∈ Finset.range n, startTime base i ∧
      s.ustStart = ∑ i ∈ Finset.range n, startTime ust i ∧
      s.ustEnStart = ∑ i ∈ Finset.range n, startTime ustEn i ∧
      s.ustStartOverhead = ∑ i ∈ Finset.range n, ∑ j ∈ Finset.range (i + 1),
        (startTime ust j - startTime base j) ∧
      s.ustEnStartOverhead = ∑ i ∈ Finset.range n, ∑ j ∈ Finset.range (i + 1),
        (startTime ustEn j - startTime base j) := by
  induction n generalizing s with
  | zero =>
    cases h
    exact ⟨rfl, rfl, rfl, rfl, rfl⟩
  | succ n ih =>
    rw [List.range_succ, List.foldlM_append] at h
    obtain ⟨t, ht, h⟩ := except_bind_eq_ok h
    obtain ⟨hb, hu, he, huo, heo⟩ := ih ht
    obtain ⟨s', hs', h⟩ := except_bind_eq_ok h
    cases h
    obtain ⟨hb', hu', he', huo', heo'⟩ := Sums.add_starts hs'
    have hbase : s.baseStart = ∑ i ∈ Finset.range (n + 1), startTime base i := by
      rw [hb', hb, Finset.sum_range_succ]
    have hust : s.ustStart = ∑ i ∈ Finset.range (n + 1), startTime ust i := by
      rw [hu', hu, Finset.sum_range_succ]
    have hustEn : s.ustEnStart = ∑ i ∈ Finset.range (n + 1), startTime ustEn i := by
      rw [he', he, Finset.sum_range_succ]
    -- the overhead grows by the totals, which are the prefix sums of this turn
    refine ⟨hbase, hust, hustEn, ?_, ?_⟩
    · rw [Finset.sum_range_succ _ n, huo', huo, hust, hbase, ← Finset.sum_sub_distrib]
    · rw [Finset.sum_range_succ _ n, heo', heo, hustEn, hbase, ← Finset.sum_sub_distrib]

end Sums

/-! ## The result -/

/-- The mean of the totals after each process. -/
def meanOfTotals (n : ℕ) (base ust : ℕ → ℚ) : ℚ :=
  (∑ i ∈ Finset.range n, ∑ j ∈ Finset.range (i + 1), (ust j - base j)) / n

theorem meanOfTotals_eq (n : ℕ) (base ust : ℕ → ℚ) :
    meanOfTotals n base ust = (weightedSum n ust - weightedSum n base) / n := by
  unfold meanOfTotals weightedSum
  rw [sum_prefix_sums, ← Finset.sum_add_distrib, ← Finset.sum_sub_distrib]
  congr 1
  apply Finset.sum_congr rfl
  intro i _
  ring

theorem meanOfTotals_eq_iff {n : ℕ} (hn : (n : ℚ) ≠ 0) (base ust : ℕ → ℚ) :
    meanOfTotals n base ust = mean n ust - mean n base ↔ EvenOverheads n base ust := by
  have hmeans : mean n ust - mean n base = (∑ i ∈ Finset.range n, (ust i - base i)) / n := by
    rw [mean, mean, ← sub_div, Finset.sum_sub_distrib]
  rw [hmeans, meanOfTotals, sum_prefix_sums, add_div, EvenOverheads, add_eq_left, div_eq_zero_iff]
  exact or_iff_left hn

theorem num_of_entry {v : Value} {mode key : String} {p q : ℚ}
    (hp : v.entry mode key = some (.num p)) (hq : v.entry mode key = some (.num q)) : p = q := by
  rw [hp] at hq
  cases hq
  rfl

/-- What is reported of the start times for one mode. -/
structure StartEntries (v : Value) (mode : String) (n : ℕ) (base ust : ℕ → ℚ) : Prop where
  baseline : v.entry "baseline" "start_time" = some (.num (mean n base))
  start : v.entry mode "start_time" = some (.num (mean n ust))
  overhead : v.entry mode "start_overhead_s" = some (.num (meanOfTotals n base ust))

theorem ustResult_entries {b : Benchmark} {base ust ustEn : List Json} {v : Value}
    (h : ustResult b (.arr base) (.arr ust) (.arr ustEn) = .ok v) :
    (base.length : ℚ) ≠ 0 ∧
      StartEntries v "tracing_disabled" base.length (startTime base) (startTime ust) ∧
      StartEntries v "tracing_enabled" base.length (startTime base) (startTime ustEn) := by
  unfold ustResult at h
  obtain ⟨n, hn, h⟩ := except_bind_eq_ok h
  obtain ⟨s, hs, h⟩ := except_bind_eq_ok h
  obtain ⟨bs, hbs, h⟩ := except_bind_eq_ok h
  obtain ⟨us, hus, h⟩ := except_bind_eq_ok h
  obtain ⟨uo, huo, h⟩ := except_bind_eq_ok h
  obtain ⟨es, hes, h⟩ := except_bind_eq_ok h
  obtain ⟨eo, heo, h⟩ := except_bind_eq_ok h
  obtain ⟨⟨baseRun, ustRun, ustEnRun, ustNs, ustEnNs⟩, -, h⟩ := except_bind_eq_ok h
  obtain ⟨up, -, h⟩ := except_bind_eq_ok h
  obtain ⟨ep, -, h⟩ := except_bind_eq_ok h
  cases h
  cases hn
  -- every start time is one of the sums divided by the number of reports
  obtain ⟨hb, hu, he, huo', heo'⟩ := Sums.foldlM_starts hs
  obtain ⟨hne, hbs⟩ := div_eq_ok hbs
  have hmb : bs = mean base.length (startTime base) := by rw [hbs, hb]; rfl
  have hmu : us = mean base.length (startTime ust) := by rw [(div_eq_ok hus).2, hu]; rfl
  have hme : es = mean base.length (startTime ustEn) := by rw [(div_eq_ok hes).2, he]; rfl
  have hmuo : uo = meanOfTotals base.length (startTime base) (startTime ust) := by
    rw [(div_eq_ok huo).2, huo']
    rfl
  have hmeo : eo = meanOfTotals base.length (startTime base) (startTime ustEn) := by
    rw [(div_eq_ok heo).2, heo']
    rfl
  subst hmb hmu hme hmuo hmeo
  exact ⟨hne, ⟨rfl, rfl, rfl⟩, ⟨rfl, rfl, rfl⟩⟩

theorem StartEntries.overheadIsMean_iff {v : Value} {mode : String} {n : ℕ} {base ust : ℕ → ℚ}
    (hn : (n : ℚ) ≠ 0) (h : StartEntries v mode n base ust) :
    OverheadIsMean v mode n base ust ↔ EvenOverheads n base ust := by
  rw [← meanOfTotals_eq_iff hn]
  constructor
  · intro hm
    have heq := h.overhead.symm.trans hm.overhead
    simpa using heq
  · intro heq
    exact ⟨heq ▸ h.overhead, h.start, h.baseline⟩

/-- What it takes for a result: complete reports, and no division by 0. -/
theorem ustResult_needs {b : Benchmark} {base ust ustEn : List Json} {v : Value}
    (h : ustResult b (.arr base) (.arr ust) (.arr ustEn) = .ok v) :
    (∀ i < base.length, Reads b.nrLoops base i ∧ Reads b.nrLoops ust i ∧ Reads b.nrLoops ustEn i) ∧
      mean base.length (startTime base) ≠ 0 ∧
      ∀ k, b.nrLoops = some k → k ≠ 0 ∧ b.tpPerLoop ≠ 0 := by
  unfold ustResult at h
  obtain ⟨n, hn, h⟩ := except_bind_eq_ok h
  obtain ⟨s, hs, h⟩ := except_bind_eq_ok h
  obtain ⟨bs, hbs, h⟩ := except_bind_eq_ok h
  obtain ⟨us, -, h⟩ := except_bind_eq_ok h
  obtain ⟨uo, -, h⟩ := except_bind_eq_ok h
  obtain ⟨es, -, h⟩ := except_bind_eq_ok h
  obtain ⟨eo, -, h⟩ := except_bind_eq_ok h
  obtain ⟨r, hr, h⟩ := except_bind_eq_ok h
  obtain ⟨up, hup, h⟩ := except_bind_eq_ok h
  cases hn
  have hmean : bs = mean base.length (startTime base) := by
    rw [(div_eq_ok hbs).2, (Sums.foldlM_starts hs).1]
    rfl
  refine ⟨fun i hi ↦ Sums.foldlM_reads hs hi, hmean ▸ (div_eq_ok hup).1, ?_⟩
  intro k hk
  unfold runTimes at hr
  rw [hk] at hr
  obtain ⟨q₁, -, hr⟩ := except_bind_eq_ok hr
  obtain ⟨q₂, -, hr⟩ := except_bind_eq_ok hr
  obtain ⟨q₃, -, hr⟩ := except_bind_eq_ok hr
  obtain ⟨q₄, hq, hr⟩ := except_bind_eq_ok hr
  have hevents : (k : ℚ) * b.tpPerLoop ≠ 0 := (div_eq_ok hq).1
  exact ⟨fun h0 ↦ hevents (by rw [h0, Nat.cast_zero, zero_mul]),
    fun h0 ↦ hevents (by rw [h0, Nat.cast_zero, mul_zero])⟩

/-! ## That there is a result -/

section Returns

variable {nrLoops : Option ℕ} {base ust ustEn : List Json}

theorem item_of_lt {reports : List Json} {i : ℕ} (h : i < reports.length) :
    item (.arr reports) i = .ok reports[i] := by
  show reports[i]?.elim (Except.error Exc.indexError) Except.ok = _
  rw [List.getElem?_eq_getElem h]
  rfl

/-- The three runs have a complete report for each of the same processes. -/
structure CompleteRuns (nrLoops : Option ℕ) (base ust ustEn : List Json) : Prop where
  base_complete : ∀ r ∈ base, Complete nrLoops r
  ust_complete : ∀ r ∈ ust, Complete nrLoops r
  ustEn_complete : ∀ r ∈ ustEn, Complete nrLoops r
  ust_length : ust.length = base.length
  ustEn_length : ustEn.length = base.length

theorem Sums.add_returns (h : CompleteRuns nrLoops base ust ustEn) (s : Sums) {i : ℕ}
    (hi : i < base.length) :
    ∃ s', s.add nrLoops (.arr base) (.arr ust) (.arr ustEn) i = .ok s' := by
  have hu : i < ust.length := h.ust_length ▸ hi
  have he : i < ustEn.length := h.ustEn_length ▸ hi
  have hb := h.base_complete _ (List.getElem_mem hi)
  have hub := h.ust_complete _ (List.getElem_mem hu)
  have heb := h.ustEn_complete _ (List.getElem_mem he)
  obtain ⟨x, hx⟩ := hb.start
  obtain ⟨y, hy⟩ := hub.start
  obtain ⟨z, hz⟩ := heb.start
  unfold Sums.add
  rw [item_of_lt hi, item_of_lt hu, item_of_lt he]
  simp only [bind, Except.bind, hx, hy, hz]
  by_cases hl : nrLoops.isSome
  · obtain ⟨p, hp⟩ := hb.loop hl
    obtain ⟨q, hq⟩ := hub.loop hl
    obtain ⟨r, hr⟩ := heb.loop hl
    simp only [if_pos hl, hp, hq, hr]
    exact ⟨_, rfl⟩
  · simp only [if_neg hl]
    exact ⟨_, rfl⟩

theorem Sums.foldlM_returns (h : CompleteRuns nrLoops base ust ustEn) {n : ℕ}
    (hn : n ≤ base.length) :
    ∃ s, (List.range n).foldlM (Sums.add nrLoops (.arr base) (.arr ust) (.arr ustEn)) {} =
      .ok s := by
  induction n with
  | zero => exact ⟨_, rfl⟩
  | succ n ih =>
    obtain ⟨s, hs⟩ := ih (by omega)
    obtain ⟨s', hs'⟩ := Sums.add_returns h s (show n < base.length by omega)
    refine ⟨s', ?_⟩
    rw [List.range_succ, List.foldlM_append, hs]
    show (s.add nrLoops _ _ _ n >>= fun s' ↦ pure s') = _
    rw [hs']
    rfl

theorem runTimes_returns {b : Benchmark} {n : ℚ} (s : Sums) (hn : n ≠ 0)
    (hev : ∀ k, b.nrLoops = some k → k ≠ 0 ∧ b.tpPerLoop ≠ 0) : ∃ t, runTimes b n s = .ok t := by
  unfold runTimes
  cases hl : b.nrLoops with
  | none => exact ⟨_, rfl⟩
  | some k =>
    obtain ⟨hk, ht⟩ := hev k hl
    have hne : (k : ℚ) * b.tpPerLoop ≠ 0 :=
      mul_ne_zero (Nat.cast_ne_zero.mpr hk) (Nat.cast_ne_zero.mpr ht)
    simp only [div_of_ne hn, div_of_ne hne, bind, Except.bind]
    exact ⟨_, rfl⟩

theorem ustResult_returns {b : Benchmark} (h : CompleteRuns b.nrLoops base ust ustEn)
    (hstart : mean base.length (startTime base) ≠ 0)
    (hev : ∀ k, b.nrLoops = some k → k ≠ 0 ∧ b.tpPerLoop ≠ 0) :
    ∃ v, ustResult b (.arr base) (.arr ust) (.arr ustEn) = .ok v := by
  obtain ⟨s, hs⟩ := Sums.foldlM_returns h (Nat.le_refl _)
  have hn : (base.length : ℚ) ≠ 0 := fun h0 ↦ hstart (by rw [mean, h0, div_zero])
  obtain ⟨t, ht⟩ := runTimes_returns s hn hev
  have hb : s.baseStart / base.length ≠ 0 := by
    rw [(Sums.foldlM_starts hs).1]
    exact hstart
  have hlen : len (.arr base) = .ok base.length := rfl
  unfold ustResult
  simp only [hlen, bind, Except.bind, hs, div_of_ne hn, ht, div_of_ne hb]
  exact ⟨_, rfl⟩

end Returns

/-! ## The order of the processes -/

section Orders

variable {b : Benchmark} {l l' base ust ustEn : List Json} {v : Value}

theorem startTime_eq {report : Json} {i : ℕ} (h : l[i]? = some report) :
    startTime l i = ((difference report "main" "exec").toOption).getD 0 := by
  rw [startTime, h]
  rfl

/-- In another order every start time is one of the same processes. -/
theorem startTime_of_perm (h : l'.Perm l) {i : ℕ} (hi : i < l.length) :
    ∃ j < l.length, startTime l' i = startTime l j := by
  have hi' : i < l'.length := h.length_eq ▸ hi
  obtain ⟨j, hj, hget⟩ := List.mem_iff_getElem.mp (h.mem_iff.mp (List.getElem_mem hi'))
  refine ⟨j, hj, ?_⟩
  rw [startTime_eq (List.getElem?_eq_getElem hi'), startTime_eq (List.getElem?_eq_getElem hj), hget]

/-- One process has one order, and the same start times have one too. -/
theorem startTime_perm (hl : l.length = 1 ∨ ∃ q, ∀ i < l.length, startTime l i = q)
    (h : l'.Perm l) {i : ℕ} (hi : i < l.length) : startTime l' i = startTime l i := by
  obtain ⟨j, hj, heq⟩ := startTime_of_perm h hi
  rw [heq]
  rcases hl with hone | ⟨q, hq⟩
  · congr 1
    omega
  · rw [hq j hj, hq i hi]

/-- Where no order changes the weighted sum, all processes took the same time. -/
theorem startTime_eq_of_weighted (h : ∀ l', l'.Perm l →
      weightedSum l.length (startTime l') = weightedSum l.length (startTime l)) {i j : ℕ}
    (hi : i < l.length) (hj : j < l.length) : startTime l i = startTime l j := by
  -- a permutation of the places is an order of the list
  apply @eq_of_weighted_sum l.length (fun k ↦ startTime l k) ?_ ⟨i, hi⟩ ⟨j, hj⟩
  intro σ
  have hperm : (List.ofFn (l.get ∘ σ)).Perm l := by
    have hofFn := σ.ofFn_comp_perm l.get
    rwa [List.ofFn_get] at hofFn
  have hsum := h _ hperm
  rw [weightedSum, weightedSum, Finset.sum_range, Finset.sum_range] at hsum
  rw [← hsum]
  apply Finset.sum_congr rfl
  intro k _
  have hk : (List.ofFn (l.get ∘ σ))[(k : ℕ)]? = some (l.get (σ k)) := by
    rw [List.getElem?_ofFn, dif_pos k.isLt]
    rfl
  have hσ : l[((σ k : Fin l.length) : ℕ)]? = some (l.get (σ k)) :=
    List.getElem?_eq_getElem (σ k).isLt
  rw [startTime_eq hk, startTime_eq hσ]

theorem CompleteRuns.of_ok (hust : ust.length = base.length) (hustEn : ustEn.length = base.length)
    (h : ∀ i < base.length, Reads b.nrLoops base i ∧ Reads b.nrLoops ust i ∧
      Reads b.nrLoops ustEn i) : CompleteRuns b.nrLoops base ust ustEn := by
  have hcomplete : ∀ l : List Json, (∀ i < l.length, Reads b.nrLoops l i) →
      ∀ r ∈ l, Complete b.nrLoops r := by
    intro l hl r hr
    obtain ⟨i, hi, rfl⟩ := List.mem_iff_getElem.mp hr
    obtain ⟨report, hreport, hc⟩ := (hl i hi).getElem?
    rw [List.getElem?_eq_getElem hi] at hreport
    cases hreport
    exact hc
  exact ⟨hcomplete _ fun i hi ↦ (h i hi).1, hcomplete _ fun i hi ↦ (h i (hust ▸ hi)).2.1,
    hcomplete _ fun i hi ↦ (h i (hustEn ▸ hi)).2.2, hust, hustEn⟩

theorem CompleteRuns.perm {nrLoops : Option ℕ} (h : CompleteRuns nrLoops base ust ustEn)
    {base' ust' ustEn' : List Json} (hbase : base'.Perm base) (hust : ust'.Perm ust)
    (hustEn : ustEn'.Perm ustEn) : CompleteRuns nrLoops base' ust' ustEn' where
  base_complete r hr := h.base_complete r (hbase.mem_iff.mp hr)
  ust_complete r hr := h.ust_complete r (hust.mem_iff.mp hr)
  ustEn_complete r hr := h.ustEn_complete r (hustEn.mem_iff.mp hr)
  ust_length := by rw [hust.length_eq, hbase.length_eq, h.ust_length]
  ustEn_length := by rw [hustEn.length_eq, hbase.length_eq, h.ustEn_length]

theorem mean_congr {n : ℕ} {f g : ℕ → ℚ} (h : ∀ i < n, f i = g i) : mean n f = mean n g := by
  unfold mean
  rw [Finset.sum_congr rfl fun i hi ↦ h i (Finset.mem_range.mp hi)]

theorem meanOfTotals_congr {n : ℕ} {base base' ust ust' : ℕ → ℚ} (hbase : ∀ i < n, base i = base' i)
    (hust : ∀ i < n, ust i = ust' i) : meanOfTotals n base ust = meanOfTotals n base' ust' := by
  have hsum : ∀ {f g : ℕ → ℚ}, (∀ i < n, f i = g i) → weightedSum n f = weightedSum n g :=
    fun h ↦ Finset.sum_congr rfl fun i hi ↦ by rw [h i (Finset.mem_range.mp hi)]
  rw [meanOfTotals_eq, meanOfTotals_eq, hsum hbase, hsum hust]

/-- Of two processes or more that take the same time in each run, the overheads are even only if it
is the same time in both. -/
theorem EvenOverheads.eq_of_constant {n : ℕ} (hn : 1 < n) {base ust : ℕ → ℚ} {x y : ℚ}
    (h : EvenOverheads n base ust) (hbase : ∀ i < n, base i = x) (hust : ∀ i < n, ust i = y) :
    y = x := by
  have hsum : (∑ i ∈ Finset.range n, ((n : ℚ) - 1 - i)) * (y - x) = 0 := by
    rw [Finset.sum_mul, ← h]
    apply Finset.sum_congr rfl
    intro i hi
    rw [hbase i (Finset.mem_range.mp hi), hust i (Finset.mem_range.mp hi)]
  -- all weights are at least 0, and that of the first process is above it
  have hpos : 0 < ∑ i ∈ Finset.range n, ((n : ℚ) - 1 - i) := by
    apply Finset.sum_pos'
    · intro i hi
      have hle : ((i + 1 : ℕ) : ℚ) ≤ n := Nat.cast_le.mpr (Finset.mem_range.mp hi)
      push_cast at hle
      linarith
    · refine ⟨0, Finset.mem_range.mpr (by omega), ?_⟩
      have hlt : ((1 : ℕ) : ℚ) < n := Nat.cast_lt.mpr hn
      push_cast at hlt ⊢
      linarith
  rcases mul_eq_zero.mp hsum with h0 | h0
  · exact absurd h0 hpos.ne'
  · exact sub_eq_zero.mp h0

/-- The weighted sum of one run does not change, if the overhead does not. -/
theorem weightedSum_eq_of_entry {n : ℕ} {mode : String} {v v' : Value} {base base' ust ust' : ℕ → ℚ}
    (hn : (n : ℚ) ≠ 0) (h : StartEntries v mode n base ust) (h' : StartEntries v' mode n base' ust')
    (heq : v'.entry mode "start_overhead_s" = v.entry mode "start_overhead_s") :
    weightedSum n ust' - weightedSum n base' = weightedSum n ust - weightedSum n base := by
  have hmean : meanOfTotals n base' ust' = meanOfTotals n base ust :=
    num_of_entry (h'.overhead) (heq.trans h.overhead)
  rw [meanOfTotals_eq, meanOfTotals_eq] at hmean
  exact (div_left_inj' hn).mp hmean

theorem OverheadsOfMeans.equalStarts (hust : ust.length = base.length)
    (hustEn : ustEn.length = base.length)
    (h : ustResult b (.arr base) (.arr ust) (.arr ustEn) = .ok v)
    (hm : OverheadsOfMeans b base ust ustEn v) :
    EqualStarts base.length (startTime base) (startTime ust) (startTime ustEn) := by
  obtain ⟨hn, hdisabled, henabled⟩ := ustResult_entries h
  by_cases hone : base.length = 1
  · exact .inl hone
  have htwo : 1 < base.length := by
    have hpos : base.length ≠ 0 := fun h0 ↦ hn (by rw [h0, Nat.cast_zero])
    omega
  -- reordering one run alone shows that its processes took the same time
  have hbase : ∀ i < base.length, startTime base i = startTime base 0 := by
    intro i hi
    refine startTime_eq_of_weighted (fun base' hp ↦ ?_) hi (by omega)
    obtain ⟨v', hv', heq, -⟩ := hm.reordered base' ust ustEn hp (.refl _) (.refl _)
    have hentries := (ustResult_entries hv').2.1
    rw [hp.length_eq] at hentries
    have hsum := weightedSum_eq_of_entry hn hdisabled hentries heq
    exact sub_right_injective hsum
  have hustStart : ∀ i < base.length, startTime ust i = startTime ust 0 := by
    intro i hi
    refine startTime_eq_of_weighted (fun ust' hp ↦ ?_) (hust ▸ hi) (by omega)
    obtain ⟨v', hv', heq, -⟩ := hm.reordered base ust' ustEn (.refl _) hp (.refl _)
    have hsum := weightedSum_eq_of_entry hn hdisabled (ustResult_entries hv').2.1 heq
    rw [hust]
    exact sub_left_injective hsum
  have hustEnStart : ∀ i < base.length, startTime ustEn i = startTime ustEn 0 := by
    intro i hi
    refine startTime_eq_of_weighted (fun ustEn' hp ↦ ?_) (hustEn ▸ hi) (by omega)
    obtain ⟨v', hv', -, heq⟩ := hm.reordered base ust ustEn' (.refl _) (.refl _) hp
    have hsum := weightedSum_eq_of_entry hn henabled (ustResult_entries hv').2.2 heq
    rw [hustEn]
    exact sub_left_injective hsum
  -- with constant times in each run, the mean is reported only if they are the same
  have hsame := ((hdisabled.overheadIsMean_iff hn).mp hm.disabled).eq_of_constant htwo hbase
    hustStart
  have hsameEn := ((henabled.overheadIsMean_iff hn).mp hm.enabled).eq_of_constant htwo hbase
    hustEnStart
  exact .inr ⟨startTime base 0, fun i hi ↦ ⟨hbase i hi, (hustStart i hi).trans hsame,
    (hustEnStart i hi).trans hsameEn⟩⟩

theorem EqualStarts.even {n : ℕ} {base ust ustEn : ℕ → ℚ} (h : EqualStarts n base ust ustEn) :
    EvenOverheads n base ust ∧ EvenOverheads n base ustEn := by
  rcases h with rfl | ⟨q, hq⟩
  · constructor <;> simp [EvenOverheads]
  · constructor
    · refine Finset.sum_eq_zero fun i hi ↦ ?_
      rw [(hq i (Finset.mem_range.mp hi)).1, (hq i (Finset.mem_range.mp hi)).2.1, sub_self, mul_zero]
    · refine Finset.sum_eq_zero fun i hi ↦ ?_
      rw [(hq i (Finset.mem_range.mp hi)).1, (hq i (Finset.mem_range.mp hi)).2.2, sub_self, mul_zero]

theorem EqualStarts.overheadsOfMeans (hust : ust.length = base.length)
    (hustEn : ustEn.length = base.length)
    (h : ustResult b (.arr base) (.arr ust) (.arr ustEn) = .ok v)
    (hs : EqualStarts base.length (startTime base) (startTime ust) (startTime ustEn)) :
    OverheadsOfMeans b base ust ustEn v := by
  obtain ⟨hn, hdisabled, henabled⟩ := ustResult_entries h
  obtain ⟨hreads, hstart, hevents⟩ := ustResult_needs h
  have hcomplete := CompleteRuns.of_ok hust hustEn hreads
  refine ⟨(hdisabled.overheadIsMean_iff hn).mpr hs.even.1,
    (henabled.overheadIsMean_iff hn).mpr hs.even.2, ?_⟩
  intro base' ust' ustEn' hpb hpu hpe
  have hsb : ∀ i < base.length, startTime base' i = startTime base i :=
    fun i hi ↦ startTime_perm (hs.imp_right fun ⟨q, hq⟩ ↦ ⟨q, fun i hi ↦ (hq i hi).1⟩) hpb hi
  have hsu : ∀ i < base.length, startTime ust' i = startTime ust i := by
    intro i hi
    refine startTime_perm ?_ hpu (hust ▸ hi)
    rw [hust]
    exact hs.imp_right fun ⟨q, hq⟩ ↦ ⟨q, fun i hi ↦ (hq i hi).2.1⟩
  have hse : ∀ i < base.length, startTime ustEn' i = startTime ustEn i := by
    intro i hi
    refine startTime_perm ?_ hpe (hustEn ▸ hi)
    rw [hustEn]
    exact hs.imp_right fun ⟨q, hq⟩ ↦ ⟨q, fun i hi ↦ (hq i hi).2.2⟩
  have hmean : mean base'.length (startTime base') ≠ 0 := by
    rw [hpb.length_eq, mean_congr hsb]
    exact hstart
  -- the reordered runs are as complete as these, so they have a result
  obtain ⟨v', hv'⟩ := ustResult_returns (hcomplete.perm hpb hpu hpe) hmean hevents
  obtain ⟨-, hdisabled', henabled'⟩ := ustResult_entries hv'
  rw [hpb.length_eq] at hdisabled' henabled'
  refine ⟨v', hv', ?_, ?_⟩
  · rw [hdisabled'.overhead, hdisabled.overhead, meanOfTotals_congr hsb hsu]
  · rw [henabled'.overhead, henabled.overhead, meanOfTotals_congr hsb hse]

end Orders

/-- What `do_ust_benchmark` reports as overheads are the differences of the mean start times, in
whatever order the processes are listed, exactly if there is one process or all took the same time;
and it does report on complete runs. -/
theorem startOverhead_iff {b : Benchmark} {base ust ustEn : List Json}
    (hust : ust.length = base.length) (hustEn : ustEn.length = base.length) :
    (∀ v, ustResult b (.arr base) (.arr ust) (.arr ustEn) = .ok v →
      (OverheadsOfMeans b base ust ustEn v ↔
        EqualStarts base.length (startTime base) (startTime ust) (startTime ustEn))) ∧
      (CompleteRuns b.nrLoops base ust ustEn → mean base.length (startTime base) ≠ 0 →
        (∀ k, b.nrLoops = some k → k ≠ 0 ∧ b.tpPerLoop ≠ 0) →
          ∃ v, ustResult b (.arr base) (.arr ust) (.arr ustEn) = .ok v) := by
  refine ⟨?_, ustResult_returns⟩
  exact fun v h ↦ ⟨fun hm ↦ hm.equalStarts hust hustEn h, fun hs ↦ hs.overheadsOfMeans hust hustEn h⟩

/-- A report of a process that was at its `main` after `q` seconds. -/
def reportAfter (q : ℚ) : Json := .obj [("exec".toList, .num 0), ("main".toList, .num q)]

def fastPass : Benchmark := { baseline := [], ust := [] }

theorem complete_reportAfter (q : ℚ) : Complete none (reportAfter q) :=
  ⟨⟨q - 0, rfl⟩, fun h ↦ absurd h (by decide)⟩

theorem completeRuns_reportAfter (p q : ℚ) :
    CompleteRuns none [reportAfter 1, reportAfter 1] [reportAfter p, reportAfter q]
      [reportAfter 1, reportAfter 1] := by
  refine ⟨?_, ?_, ?_, rfl, rfl⟩ <;>
  · intro r hr
    simp only [List.mem_cons, List.not_mem_nil, or_false] at hr
    rcases hr with rfl | rfl <;> exact complete_reportAfter _

theorem startTime_reportAfter (p q : ℚ) :
    startTime [reportAfter p, reportAfter q] 0 = p ∧
      startTime [reportAfter p, reportAfter q] 1 = q := ⟨sub_zero p, sub_zero q⟩

theorem startEntries_reportAfter (p q : ℚ) :
    ∃ v, ustResult fastPass (.arr [reportAfter 1, reportAfter 1])
        (.arr [reportAfter p, reportAfter q]) (.arr [reportAfter 1, reportAfter 1]) = .ok v ∧
      StartEntries v "tracing_disabled" 2 (startTime [reportAfter 1, reportAfter 1])
        (startTime [reportAfter p, reportAfter q]) := by
  have hbase : mean 2 (startTime [reportAfter 1, reportAfter 1]) ≠ 0 := by
    rw [mean, Finset.sum_range_succ, Finset.sum_range_one, (startTime_reportAfter 1 1).1,
      (startTime_reportAfter 1 1).2]
    norm_num
  obtain ⟨v, hv⟩ := @ustResult_returns _ _ _ fastPass (completeRuns_reportAfter p q) hbase
    fun k hk ↦ absurd hk (by simp [fastPass])
  exact ⟨v, hv, (ustResult_entries hv).2.1⟩

-- the same processes in another order
theorem startOverhead_depends_on_order :
    ∃ v v', ustResult fastPass (.arr [reportAfter 1, reportAfter 1])
        (.arr [reportAfter 2, reportAfter 1]) (.arr [reportAfter 1, reportAfter 1]) = .ok v ∧
      ustResult fastPass (.arr [reportAfter 1, reportAfter 1])
        (.arr [reportAfter 1, reportAfter 2]) (.arr [reportAfter 1, reportAfter 1]) = .ok v' ∧
      v.entry "tracing_disabled" "start_overhead_s" = some (.num 1) ∧
      v'.entry "tracing_disabled" "start_overhead_s" = some (.num (1 / 2)) ∧
      ¬OverheadIsMean v "tracing_disabled" 2 (startTime [reportAfter 1, reportAfter 1])
        (startTime [reportAfter 2, reportAfter 1]) := by
  obtain ⟨v, hv, h⟩ := startEntries_reportAfter 2 1
  obtain ⟨v', hv', h'⟩ := startEntries_reportAfter 1 2
  refine ⟨v, v', hv, hv', ?_, ?_, ?_⟩
  · rw [h.overhead]
    simp only [meanOfTotals, Finset.sum_range_succ, Finset.sum_range_zero, startTime_reportAfter]
    norm_num
  · rw [h'.overhead]
    simp only [meanOfTotals, Finset.sum_range_succ, Finset.sum_range_zero, startTime_reportAfter]
    norm_num
  · rw [h.overheadIsMean_iff (by norm_num)]
    simp only [EvenOverheads, Finset.sum_range_succ, Finset.sum_range_zero, startTime_reportAfter]
    norm_num

-- all processes take one second to start
theorem startOverhead_iff_two :
    ∃ v, ustResult fastPass (.arr [reportAfter 1, reportAfter 1])
        (.arr [reportAfter 1, reportAfter 1]) (.arr [reportAfter 1, reportAfter 1]) = .ok v ∧
      OverheadsOfMeans fastPass [reportAfter 1, reportAfter 1] [reportAfter 1, reportAfter 1]
        [reportAfter 1, reportAfter 1] v ∧
      (OverheadsOfMeans fastPass [reportAfter 1, reportAfter 1] [reportAfter 1, reportAfter 1]
          [reportAfter 1, reportAfter 1] v ↔
        EqualStarts 2 (startTime [reportAfter 1, reportAfter 1])
          (startTime [reportAfter 1, reportAfter 1])
          (startTime [reportAfter 1, reportAfter 1])) := by
  obtain ⟨v, hv, -⟩ := startEntries_reportAfter 1 1
  have hiff := (@startOverhead_iff fastPass [reportAfter 1, reportAfter 1]
    [reportAfter 1, reportAfter 1] [reportAfter 1, reportAfter 1] rfl rfl).1 v hv
  obtain ⟨hzero, hone⟩ := startTime_reportAfter 1 1
  refine ⟨v, hv, hiff.mpr (.inr ⟨1, fun i hi ↦ ?_⟩), hiff⟩
  have hi : i < 2 := hi
  interval_cases i
  · exact ⟨hzero, hzero, hzero⟩
  · exact ⟨hone, hone, hone⟩

end UstBench.Driver
