import UstBench.Driver.Measured
import UstBench.Workload.Tracepoints

/-!
# The number of events

`do_ust_benchmark` divides by a number of events that it computes from its parameters.  The programs
come from the Makefile and from `tpgen.py`.  For every benchmark of `do_benchmarks` the number is
that of the calls a process makes.
-/

namespace UstBench.Driver

open Reasoning Reasoning.Prog Workload

/-- `RANDOM_TP_COUNT` -/
def randomTpCount : String := "16"

/-! ## A benchmark and its programs -/

/-- The programs of a benchmark: the first one without tracepoints, the other with as many as the
benchmark says. -/
structure Benchmark.BuiltOf (b : Benchmark) (generated : List Fired) (base ust : Binary) :
    Prop where
  untraced : base.tracepoints generated = []
  traced : (ust.tracepoints generated).length = b.tpPerLoop ∨ b.nrLoops = none
  loops : ∀ n ∈ b.nrLoops, 1 ≤ n ∧ n < 2 ^ 31
  baseline : b.baseline = [base.target]
  ust : b.ust = [ust.target]

theorem builtOf {generated : List Fired} (hlen : generated.length = 16) {fullPasses fastPasses : ℕ}
    {name : String} {b : Benchmark} {passes : ℕ}
    (hb : (name, b, passes) ∈ ustBenchmarks fullPasses fastPasses) :
    ∃ base ust, b.BuiltOf generated base ust := by
  have hmany : ∀ n ∈ some 10000000, 1 ≤ n ∧ n < 2 ^ 31 := by
    rintro _ ⟨⟩
    decide
  have hfewer : ∀ n ∈ some 1000000, 1 ≤ n ∧ n < 2 ^ 31 := by
    rintro _ ⟨⟩
    decide
  have hnone : ∀ n ∈ (none : Option ℕ), 1 ≤ n ∧ n < 2 ^ 31 :=
    fun n hn ↦ absurd hn (Option.not_mem_none n)
  simp only [ustBenchmarks, List.mem_cons, Prod.mk.injEq, List.not_mem_nil, or_false] at hb
  rcases hb with ⟨-, rfl, -⟩ | ⟨-, rfl, -⟩ | ⟨-, rfl, -⟩ | ⟨-, rfl, -⟩ | ⟨-, rfl, -⟩ | ⟨-, rfl, -⟩
  · exact ⟨.basicBenchmark, .basicBenchmarkUst, rfl, .inl rfl, hmany, rfl, rfl⟩
  · exact ⟨.sha2Benchmark, .sha2BenchmarkUst, rfl, .inl rfl, hfewer, rfl, rfl⟩
  · refine ⟨.basicBenchmark, .basicBenchmarkGenTp, rfl, .inl ?_, hfewer, rfl, rfl⟩
    exact (List.length_map _).trans hlen
  · exact ⟨.basicBenchmark, .basicBenchmarkUst, rfl, .inr rfl, hnone, rfl, rfl⟩
  · exact ⟨.sha2Benchmark, .sha2BenchmarkUst, rfl, .inr rfl, hnone, rfl, rfl⟩
  · exact ⟨.basicBenchmark, .basicBenchmarkGenTp, rfl, .inr rfl, hnone, rfl, rfl⟩

namespace Benchmark

variable {b : Benchmark} {generated : List Fired} {base ust : Binary}

/-- The arguments of the runner are those of the process. -/
theorem argv_eq {bin : Binary} {program : List String} (h : program = [bin.target]) :
    (program ++ b.args).map String.toList = bin.argv b.nrLoops := by
  unfold args Binary.argv
  rw [h]
  cases b.nrLoops <;> rfl

/-- The calls of a process of the program with the tracepoints. -/
def calls (b : Benchmark) (generated : List Fired) (lib : Sha2) (enabled : Bool) (bin : Binary) :
    List Fired :=
  b.nrLoops.elim [] (bin.callsOf generated lib enabled)

theorem map_id_calls {lib : Sha2} {enabled : Bool} (bin : Binary) :
    (b.calls generated lib enabled bin).map Fired.id =
      (List.replicate (b.nrLoops.getD 0) (bin.tracepoints generated)).flatten := by
  unfold calls
  cases b.nrLoops with
  | none => rfl
  | some n => exact Binary.map_id_callsOf n

theorem BuiltOf.calls_base (h : b.BuiltOf generated base ust) (lib : Sha2) (enabled : Bool) :
    b.calls generated lib enabled base = [] := by
  have hids := @map_id_calls b generated lib enabled base
  rw [h.untraced, List.flatten_replicate_nil] at hids
  exact List.map_eq_nil_iff.mp hids

/-- The number that `do_ust_benchmark` divides by. -/
theorem BuiltOf.length_calls (h : b.BuiltOf generated base ust) (lib : Sha2) (enabled : Bool) :
    (b.calls generated lib enabled ust).length = b.nrLoops.getD 0 * b.tpPerLoop := by
  have hids := congrArg List.length (@map_id_calls b generated lib enabled ust)
  rw [List.length_map, List.length_flatten, List.map_replicate, List.sum_replicate_nat] at hids
  rcases h.traced with htp | hnone
  · rw [hids, htp]
  · rw [hids, hnone]
    show 0 * _ = 0 * _
    rw [zero_mul, zero_mul]

/-- The time for each event is one for each of the calls. -/
theorem ifLoops_congr {p q : ℕ → ℚ} (h : ∀ n, b.nrLoops = some n → p n = q n) :
    b.ifLoops p = b.ifLoops q := by
  unfold ifLoops
  cases hl : b.nrLoops with
  | none => rfl
  | some n => exact congrArg Value.num (h n hl)

end Benchmark

/-- Whatever `tpgen.py` draws: of every benchmark of `do_benchmarks`, a process of the baseline
makes no call of a tracepoint, and a process of the other program makes the calls of all its
tracepoints, in order, as often as it is told.  Their number divides the time for each event. -/
theorem nsPerEvent_counts_calls (rnd : Tpgen.Random) (hfloat : ∀ n, Tpgen.Plain (rnd.float n)) :
    ∃ (g : Tpgen.Globals) (text : String) (generated : List Fired),
      run (Tpgen.script rnd ["./tpgen.py", randomTpCount]) Tpgen.Globals.start = (.ok (), g) ∧
      g.files.getLast? = some ("generated_tp.h", text) ∧
      generatedTp text.toList = some generated ∧
      ∀ fullPasses fastPasses name (b : Benchmark) passes,
        (name, b, passes) ∈ ustBenchmarks fullPasses fastPasses →
        ∃ base ust : Binary,
          (b.baseline ++ b.args).map String.toList = base.argv b.nrLoops ∧
          (b.ust ++ b.args).map String.toList = ust.argv b.nrLoops ∧
          ∀ lib enabled, base.Makes generated lib enabled b.nrLoops [] ∧
            ∃ calls, ust.Makes generated lib enabled b.nrLoops calls ∧
              calls.map Fired.id =
                (List.replicate (b.nrLoops.getD 0) (ust.tracepoints generated)).flatten ∧
              ∀ n (base ust ustEn : Times),
                (ustValue b n base ust ustEn).entry "tracing_disabled" "ns_per_event" =
                  some (b.ifLoops fun _ ↦
                    (mean n ust.run - mean n base.run) * 10 ^ 9 / calls.length) ∧
                (ustValue b n base ust ustEn).entry "tracing_enabled" "ns_per_event" =
                  some (b.ifLoops fun _ ↦
                    (mean n ustEn.run - mean n base.run) * 10 ^ 9 / calls.length) := by
  have hnum : Python.int randomTpCount.toList = some 16 := by decide
  obtain ⟨g, tps, hr, hg⟩ :=
    @Tpgen.script_generated rnd ["./tpgen.py", randomTpCount] _ _ rfl hnum
  have hlen : (tps.map generatedCall).length = 16 := by
    rw [List.length_map, ← List.length_map Tpgen.Tracepoint.index, hg.index, List.length_range']
    rfl
  refine ⟨g, _, _, hr, ?_, generatedTp_header hfloat hg, ?_⟩
  · rw [hg.files, List.getLast?_concat]
  intro fullPasses fastPasses name b passes hb
  obtain ⟨base, ust, h⟩ := builtOf hlen hb
  refine ⟨base, ust, Benchmark.argv_eq h.baseline, Benchmark.argv_eq h.ust, ?_⟩
  intro lib enabled
  have hbase := base.makes (tps.map generatedCall) lib enabled h.loops
  have hnone := h.calls_base lib enabled
  have hcount := h.length_calls lib enabled
  unfold Benchmark.calls at hnone
  rw [hnone] at hbase
  refine ⟨hbase, _, ust.makes (tps.map generatedCall) lib enabled h.loops,
    Benchmark.map_id_calls ust, ?_⟩
  intro n baseTimes ustTimes ustEnTimes
  have hdivisor : ∀ q : ℚ, b.ifLoops (fun nrLoops ↦ q / (nrLoops * b.tpPerLoop)) =
      b.ifLoops fun _ ↦ q / (b.calls (tps.map generatedCall) lib enabled ust).length := by
    intro q
    apply Benchmark.ifLoops_congr
    intro nrLoops hl
    rw [hcount, hl, Nat.cast_mul]
    rfl
  exact ⟨congrArg some (hdivisor _), congrArg some (hdivisor _)⟩

/-- The benchmark of the generated tracepoints as `do_benchmarks` has it. -/
def genTpBenchmark : Benchmark :=
  ⟨["basic-benchmark"], ["basic-benchmark-gen-tp"], some 1000000, 16⟩

theorem nsPerEvent_counts_calls_half :
    ∃ (g : Tpgen.Globals) (text : String) (generated : List Fired),
      run (Tpgen.script ⟨id, fun _ ↦ "0.5", fun _ ↦ by decide⟩ ["./tpgen.py", randomTpCount])
        Tpgen.Globals.start = (.ok (), g) ∧
      g.files.getLast? = some ("generated_tp.h", text) ∧
      generatedTp text.toList = some generated ∧
      ∃ base ust : Binary,
        base.argv (some 1000000) = ["basic-benchmark".toList, "1000000".toList] ∧
        ust.argv (some 1000000) = ["basic-benchmark-gen-tp".toList, "1000000".toList] ∧
        ∀ lib enabled, base.Makes generated lib enabled (some 1000000) [] ∧
          ∃ calls, ust.Makes generated lib enabled (some 1000000) calls ∧
            calls.map Fired.id = (List.replicate 1000000 (ust.tracepoints generated)).flatten ∧
            ∀ n (base ust ustEn : Times),
              (ustValue genTpBenchmark n base ust ustEn).entry "tracing_disabled" "ns_per_event" =
                some (.num ((mean n ust.run - mean n base.run) * 10 ^ 9 / calls.length)) ∧
              (ustValue genTpBenchmark n base ust ustEn).entry "tracing_enabled" "ns_per_event" =
                some (.num ((mean n ustEn.run - mean n base.run) * 10 ^ 9 / calls.length)) := by
  obtain ⟨g, text, generated, hr, hlast, hgen, hall⟩ := nsPerEvent_counts_calls
    ⟨id, fun _ ↦ "0.5", fun _ ↦ by decide⟩ fun _ ↦ show Tpgen.Plain "0.5" by decide
  obtain ⟨base, ust, hbase, hust, hmakes⟩ := hall 5 100 "gen-tp" genTpBenchmark 5
    (List.mem_cons_of_mem _ (List.mem_cons_of_mem _ List.mem_cons_self))
  exact ⟨g, text, generated, hr, hlast, hgen, base, ust, hbase.symm, hust.symm, hmakes⟩

end UstBench.Driver
