import UstBench.Driver.Flatten
import UstBench.Driver.Passes
import UstBench.KernelBenchmark.Elapsed

/-!
# The run times of a kernel pass

`do_kernel_benchmark` reads the total that `time_show` printed, twice, and makes a mean of it.  From
the clock of every thread up to the result of the pass nothing is lost.
-/

namespace UstBench.Driver

open Reasoning Reasoning.Prog KernelBenchmark

/-! ## What is computed from the two times -/

section Result

variable {nrLoops cpuCount : ℕ} {baseRun tracingEnRun : ℚ}

theorem kernelResult_at {v : Value}
    (h : kernelResult nrLoops cpuCount baseRun tracingEnRun = .ok v) :
    v.at ["baseline", "run_time"] = some (.num (baseRun / cpuCount)) ∧
      v.at ["tracing_enabled", "run_time"] = some (.num (tracingEnRun / cpuCount)) := by
  unfold kernelResult at h
  rcases except_bind_eq_ok h with ⟨traced, htraced, h⟩
  rcases except_bind_eq_ok h with ⟨base, hbase, h⟩
  rcases except_bind_eq_ok h with ⟨_, -, h⟩
  cases h
  rw [← (div_eq_ok htraced).2, ← (div_eq_ok hbase).2]
  exact ⟨rfl, rfl⟩

theorem kernelResult_ok (hloops : nrLoops ≠ 0) (hcount : cpuCount ≠ 0) :
    ∃ v, kernelResult nrLoops cpuCount baseRun tracingEnRun = .ok v := by
  have hcpus : (cpuCount : ℚ) ≠ 0 := Nat.cast_ne_zero.mpr hcount
  have hturns : (nrLoops : ℚ) ≠ 0 := Nat.cast_ne_zero.mpr hloops
  unfold kernelResult
  rw [div_of_ne hcpus, div_of_ne hcpus]
  show ∃ v, (div _ _ >>= _) = _
  rw [div_of_ne hturns]
  exact ⟨_, rfl⟩

end Result

/-- What `benchmark` makes of the text of `time`. -/
theorem float_showTime (time : ℕ) :
    Python.float (Python.rstrip (showTime time)) = some (time : ℚ) := by
  have hspace : ∀ c ∈ Nat.toDigits 10 time, Python.isSpace c = false :=
    fun c hc ↦ Python.isSpace_eq_false_of_isDigit (Decimal.isDigit_of_mem hc)
  rw [showTime, Python.rstrip_newline hspace, Python.float_toDigits]

/-! ## A kernel pass -/

/-- What `time` may be read as: the total of `base` in the measurement of `base_run`, and that of
`traced` in the other one. -/
def Env.ReadsTime (env : Env) (base traced : Setup) : Prop :=
  ∀ w text, env.reply w .readTime = .ok text →
    if .baseRun ∈ w.within then base.Shows text else traced.Shows text

/-- No step of a kernel pass fails. -/
structure Env.Serves (env : Env) (reports : Json) : Prop extends env.Obliging reports where
  reads : ∀ w s, s.part = .module ∨ s.part = .cpuRead → ∃ r, env.reply w s = .ok r

/-- `n` CPUs are online, and the measurement of `base_run` is under way or not. -/
def Measuring (n : ℕ) (isBase : Prop) (w : World) : Prop :=
  w.online = Finset.range n ∧ (.baseRun ∈ w.within ↔ isBase)

theorem stable_measuring (n : ℕ) (isBase : Prop) {ps : List Part} (hp : .cpuWrite ∉ ps) :
    Stable (Measuring n isBase) ps [] where
  step r hs hw := by
    constructor
    · rw [World.after_online fun he ↦ hp (he ▸ hs)]
      exact hw.1
    · rw [World.after_within]
      exact hw.2
  push _ hf := absurd hf List.not_mem_nil
  back h _ _ := absurd rfl h

namespace Measuring

variable {env : Env} {reports : Json} {n nrLoops : ℕ} {isBase : Prop} {base traced : Setup}

theorem not_serves {w : World} {s : Step} {e : Exc}
    (hs : s.part = .module ∨ s.part = .cpuRead ∨ s.part = .script)
    (he : env.reply w s = .error e) : ¬env.Serves reports := by
  intro hserves
  have hok : ∃ r, env.reply w s = .ok r := by
    rcases hs with hs | hs | hs
    · exact hserves.reads w s (.inl hs)
    · exact hserves.reads w s (.inr hs)
    · rcases hserves.reply w s (.inr (.inr (.inr hs))) with ⟨r, hr, -⟩
      exact ⟨r, hr⟩
  rcases hok with ⟨r, hr⟩
  rw [hr] at he
  cases he

section Fails

variable {E : Exc → World → Prop} (hE : ¬env.Serves reports → ∀ e w, E e w)

include hE

/-- A step of a kernel pass gives what the environment may reply to it. -/
theorem triple_reply {s : Step} {Q : s.Result → Prop}
    (hs : s.part = .module ∨ s.part = .cpuRead ∨ s.part = .script)
    (hreply : ∀ w r, Measuring n isBase w → env.reply w s = .ok r → Q r) :
    Triple (Measuring n isBase) (env.call s) (fun r w ↦ Measuring n isBase w ∧ Q r) E := by
  have hpart : Part.cpuWrite ∉ [s.part] := by
    rw [List.mem_singleton]
    rcases hs with hs | hs | hs <;> rw [hs] <;> decide
  apply triple_call
  · intro w r hw hr
    exact ⟨(stable_measuring n isBase hpart).step _ List.mem_cons_self hw, hreply w r hw hr⟩
  · exact fun w e _ he ↦ hE (not_serves hs he) e _

theorem triple_step {s : Step} (hs : s.part = .module ∨ s.part = .cpuRead ∨ s.part = .script) :
    Triple (Measuring n isBase) (env.call s) (fun _ ↦ Measuring n isBase) E :=
  (triple_reply hE (Q := fun _ ↦ True) hs fun _ _ _ _ ↦ trivial).conseq (fun _ hw ↦ hw)
    (fun _ _ hw ↦ hw.1) fun _ _ he ↦ he

theorem triple_load (m : LinuxModule) :
    Triple (Measuring n isBase) (m.load env) (fun _ ↦ Measuring n isBase) E :=
  triple_bind (triple_step hE (.inl rfl)) fun _ ↦ triple_whenever (triple_step hE (.inl rfl))

theorem triple_kernelBenchmark {b : Setup} (hb : b.Clocked n)
    (hread : ∀ w text, Measuring n isBase w → env.reply w .readTime = .ok text → b.Shows text) :
    Triple (Measuring n isBase) (kernelBenchmark env nrLoops)
      (fun q w ↦ Measuring n isBase w ∧ q = (b.totalMicros n : ℚ) / 10 ^ 6) E := by
  unfold kernelBenchmark
  apply triple_bind (triple_load hE _)
  intro _
  apply triple_bind (triple_load hE _)
  intro _
  apply triple_bind (triple_step hE (.inl rfl))
  intro _
  apply triple_bind (triple_reply hE (.inl rfl) hread)
  intro text
  apply triple_assume
  intro hshows
  rcases hb.shows hshows with ⟨time, htime, rfl⟩
  rw [float_showTime]
  apply triple_bind (Q := fun t w ↦ Measuring n isBase w ∧ t = (time : ℚ))
  · exact triple_pure _ fun w hw ↦ ⟨hw, rfl⟩
  intro t
  apply triple_pure
  intro w hw
  refine ⟨hw.1, ?_⟩
  rw [hw.2, ← htime]
  rfl

/-- The calls of LTTng keep what is measured, and return where none of them fails. -/
theorem triple_lttng {m : Prog World Exc Unit} {q : World → Prop}
    (hm : Keeps (Measuring n isBase) m)
    (hreturns : env.Obliging reports → Triple (fun _ ↦ True) m (fun _ ↦ q) fun _ _ ↦ False) :
    Triple (Measuring n isBase) m (fun _ ↦ Measuring n isBase) E := by
  by_cases hserves : env.Serves reports
  · apply (hm.both (hreturns hserves.toObliging)).conseq
    · exact fun _ hw ↦ ⟨hw, trivial⟩
    · exact fun _ _ hw ↦ hw.1
    · exact fun _ _ he ↦ he.2.elim
  · exact hm.conseq (fun _ hw ↦ hw) (fun _ _ hw ↦ hw) fun e w _ ↦ hE hserves e w

theorem triple_tracingEnRun (htraced : traced.Clocked n) (hread : env.ReadsTime base traced) :
    Triple (Measuring n False) (kernelBenchmark env nrLoops)
      (fun q w ↦ Measuring n False w ∧ q = (traced.totalMicros n : ℚ) / 10 ^ 6) E := by
  apply triple_kernelBenchmark hE htraced
  intro w text hw hr
  have hor := hread w text hr
  rwa [if_neg hw.2.mp] at hor

theorem triple_cpuCount :
    Triple (Measuring n isBase) (onlineCount env) (fun m w ↦ Measuring n isBase w ∧ m = n) E := by
  apply triple_onlineCount
  · intro w r hw
    exact (@stable_measuring n isBase [.cpuRead] (by decide)).step r List.mem_cons_self hw
  · intro w hw
    rw [hw.1, Finset.card_range]
  · exact fun w e _ he ↦ hE (not_serves (.inr (.inl rfl)) he) e _

end Fails

/-- The measurement in front of the tracing, in its own frame. -/
theorem triple_baseRun {failed : Prop} (hE : ¬env.Serves reports → failed)
    (hbase : base.Clocked n) (hread : env.ReadsTime base traced) :
    Triple (Measuring n False) (inFrame .baseRun (kernelBenchmark env nrLoops))
      (fun q w ↦ Measuring n False w ∧ q = (base.totalMicros n : ℚ) / 10 ^ 6)
      fun _ _ ↦ failed := by
  apply triple_inFrame
  intro w hw
  have hshows : ∀ w' text, Measuring n True w' → env.reply w' .readTime = .ok text →
      base.Shows text := by
    intro w' text hw' hr
    have hor := hread w' text hr
    rwa [if_pos (hw'.2.mpr trivial)] at hor
  apply (triple_kernelBenchmark (fun hs _ _ ↦ hE hs) hbase hshows).conseq
  · rintro _ rfl
    exact ⟨hw.1, by simp⟩
  · -- the frame is left again, so the CPUs are all there is to know of the state inside
    exact fun _ w' hw' ↦ ⟨⟨hw'.1.1, hw.2⟩, hw'.2⟩
  · exact fun _ _ he ↦ he

/-- The last step of a pass: the means, unless there is nothing to divide by. -/
theorem triple_kernelResult {P : World → Prop} (hn : 1 ≤ n) :
    Triple P
      (ofExcept (kernelResult nrLoops n (base.totalMicros n / 10 ^ 6)
        (traced.totalMicros n / 10 ^ 6)))
      (fun v _ ↦ v.at ["baseline", "run_time"] = some (.num (base.meanSeconds n)) ∧
        v.at ["tracing_enabled", "run_time"] = some (.num (traced.meanSeconds n)))
      fun _ _ ↦ ¬(env.Serves reports ∧ nrLoops ≠ 0) := by
  cases hresult : kernelResult nrLoops n (base.totalMicros n / 10 ^ 6)
      (traced.totalMicros n / 10 ^ 6) with
  | ok v => exact triple_pure v fun _ _ ↦ kernelResult_at hresult
  | error e =>
    apply triple_throw e
    intro _ _ h
    have hcount : n ≠ 0 := by omega
    rcases kernelResult_ok h.2 hcount with ⟨v, hv⟩
    rw [hresult] at hv
    cases hv

/-- A kernel pass gives the means of its two measurements, and gives them where no step fails. -/
theorem triple_doKernelBenchmark (hbase : base.Clocked n) (htraced : traced.Clocked n)
    (hread : env.ReadsTime base traced) (hn : 1 ≤ n) :
    Triple (Measuring n False) (doKernelBenchmark env nrLoops)
      (fun v _ ↦ v.at ["baseline", "run_time"] = some (.num (base.meanSeconds n)) ∧
        v.at ["tracing_enabled", "run_time"] = some (.num (traced.meanSeconds n)))
      fun _ _ ↦ ¬(env.Serves reports ∧ nrLoops ≠ 0) := by
  have hfails : ¬env.Serves reports → ¬(env.Serves reports ∧ nrLoops ≠ 0) := fun hs h ↦ hs h.1
  have hE : ¬env.Serves reports → ∀ (_ : Exc) (_ : World), ¬(env.Serves reports ∧ nrLoops ≠ 0) :=
    fun hs _ _ ↦ hfails hs
  have hkeep : Stable (Measuring n False) [.lttng, .activation] [] :=
    stable_measuring n False (by decide)
  apply triple_inFrame
  intro w hw
  have hstart : ∀ w', w' = w.push .kernelPass → Measuring n False w' := by
    intro w' heq
    rw [heq]
    exact ⟨hw.1, by simpa using hw.2⟩
  apply Triple.conseq (P := Measuring n False) ?_ hstart (fun _ _ hq ↦ hq) fun _ _ he ↦ he
  apply triple_bind (triple_baseRun hfails hbase hread)
  intro baseRun
  apply triple_assume
  rintro rfl
  apply triple_bind (Q := fun _ ↦ Measuring n False)
  · exact triple_bind (triple_step hE (.inl rfl)) fun _ ↦ triple_keep _
  intro names
  apply triple_bind (triple_lttng hE (hkeep.exits.lttngStart (by decide) (by decide) names .kernel)
    fun ho ↦ returns_lttngStart ho names .kernel)
  intro _
  apply triple_bind (triple_tracingEnRun hE htraced hread)
  intro tracingEnRun
  apply triple_assume
  rintro rfl
  apply triple_bind (triple_lttng hE (hkeep.exits.lttngStop (by decide))
    fun ho ↦ returns_lttngStop ho)
  intro _
  apply triple_bind (triple_cpuCount hE)
  intro cpuCount
  apply triple_assume
  rintro rfl
  apply triple_bind (triple_step hE (.inr (.inr rfl)))
  exact fun _ ↦ triple_kernelResult hn

end Measuring

/-! ## From the clock to the result -/

/-- After every run in which no wait is cut short: what a thread has stored is its time, when
`time_show` returns all of them have stored theirs, and it returns the sum. -/
def TimesExact (b : Setup) (n : ℕ) : Prop :=
  ∀ memory as s, Throughout (step b) Uninterrupted as (.initial b memory) →
    execute (step b) as (.initial b memory) = some s →
      (∀ cpu < n, s.workers cpu = some .stored ∨ s.workers cpu = some .finished →
        ((s.threads cpu).time : ℤ) = b.micros cpu) ∧
      ∀ time, s.reader = .returned time →
        (∀ cpu < n, ((s.threads cpu).time : ℤ) = b.micros cpu) ∧ (time : ℤ) = b.totalMicros n

/-- Whatever a kernel pass returns has the two means for its run times. -/
def RunTimesExact (env : Env) (base traced : Setup) (n : ℕ) : Prop :=
  ∀ w nrLoops v w', w.online = Finset.range n → .baseRun ∉ w.within →
    run (doKernelBenchmark env nrLoops) w = (.ok v, w') →
      v.at ["baseline", "run_time"] = some (.num (base.meanSeconds n)) ∧
        v.at ["tracing_enabled", "run_time"] = some (.num (traced.meanSeconds n))

/-- On `n` CPUs no difference of two readings overflows, the microseconds of every thread, their sum
and the means a kernel pass makes of two such sums are exact, and a pass in which no step fails does
return them. -/
theorem elapsedTime_exact (n : ℕ) (hn : 1 ≤ n) :
    (∀ b : Setup, b.Clocked n →
      (∀ cpu < n, DifferencesFit (b.startTv cpu) (b.endTv cpu)) ∧ TimesExact b n) ∧
      ∀ (base traced : Setup) (env : Env), base.Clocked n → traced.Clocked n →
        env.ReadsTime base traced → RunTimesExact env base traced n ∧
          ∀ reports w nrLoops, env.Serves reports → w.online = Finset.range n →
            .baseRun ∉ w.within → nrLoops ≠ 0 →
              ∃ v w', run (doKernelBenchmark env nrLoops) w = (.ok v, w') := by
  constructor
  · intro b hb
    refine ⟨fun cpu hcpu ↦ hb.differencesFit hcpu, ?_⟩
    intro memory as s hu hr
    have hinv := inv_execute hb.cpus hu hr
    refine ⟨fun cpu hcpu hw ↦ hb.thread_time hinv hcpu hw, ?_⟩
    intro time hret
    refine ⟨?_, hb.returned_time hinv hret⟩
    intro cpu hcpu
    have hmem : cpu ∈ b.cpus := by
      rw [hb.cpus]
      exact List.mem_range.mpr hcpu
    have hcons : s.reader.Consumed cpu := by
      rw [hret]
      trivial
    exact hb.thread_time hinv hcpu (.inr (hinv.finished hmem hcons))
  · intro base traced env hbase htraced hread
    have hmeasuring : ∀ {w : World}, w.online = Finset.range n → .baseRun ∉ w.within →
        Measuring n False w := fun ho hw ↦ ⟨ho, by simpa using hw⟩
    constructor
    · intro w nrLoops v w' ho hw hr
      have hpass : Triple (Measuring n False) (doKernelBenchmark env nrLoops) _
          fun _ _ ↦ ¬(env.Serves (.arr []) ∧ nrLoops ≠ 0) :=
        Measuring.triple_doKernelBenchmark hbase htraced hread hn
      exact hpass.of_ok (hmeasuring ho hw) hr
    · intro reports w nrLoops hserves ho hw hloops
      rcases hr : run (doKernelBenchmark env nrLoops) w with ⟨e | v, w'⟩
      · exact absurd ⟨hserves, hloops⟩
          ((Measuring.triple_doKernelBenchmark hbase htraced hread hn).of_error
            (hmeasuring ho hw) hr)
      · exact ⟨v, w', rfl⟩

/-! ## Two CPUs -/

/-- Two CPUs.  The clock of the first goes over to the next second during the loop, the loop of the
second takes `late` microseconds. -/
def borrowing (late : ℤ) : Setup where
  cpus := [0, 1]
  eventCount := 1
  startTv cpu := if cpu = 0 then ⟨0, 999999⟩ else ⟨0, 0⟩
  endTv cpu := if cpu = 0 then ⟨1, 4⟩ else ⟨0, late⟩

theorem totalMicros_borrowing (late : ℤ) : (borrowing late).totalMicros 2 = 5 + late := by
  simp [Setup.totalMicros, Setup.micros, Timeval.micros, borrowing, List.range_succ]

theorem clocked_borrowing {late : ℤ} (h0 : 0 ≤ late) (h1 : late < 1000000) :
    (borrowing late).Clocked 2 where
  cpus := rfl
  normal cpu _ := by
    by_cases hcpu : cpu = 0
    · simp only [borrowing, hcpu, if_true]
      exact ⟨⟨by decide, by decide⟩, ⟨by decide, by decide⟩⟩
    · simp only [borrowing, hcpu, if_false]
      exact ⟨⟨by decide, by decide⟩, ⟨h0, h1⟩⟩
  ordered cpu _ := by
    by_cases hcpu : cpu = 0
    · simp only [borrowing, hcpu, if_true]
      decide
    · simp only [borrowing, hcpu, if_false, Timeval.micros]
      omega
  total := by
    rw [totalMicros_borrowing]
    omega

/-- The second thread is done before the first one starts. -/
def oneByOne : List Action :=
  List.replicate 5 .reader ++ [.worker 1, .reader, .reader] ++ List.replicate 5 (.worker 1) ++
    List.replicate 6 (.worker 0) ++ List.replicate 7 .reader

theorem shows_borrowing {late : ℤ} {time : ℕ}
    (h : (execute (step (borrowing late)) oneByOne
      (.initial (borrowing late) fun _ ↦ ⟨false, 0, 0⟩)).map State.reader = some (.returned time)) :
    (borrowing late).Shows (showTime time) := by
  rcases Option.map_eq_some_iff.mp h with ⟨s, hs, hreader⟩
  exact ⟨_, oneByOne, s, time, uninterrupted_of_no_signal (by decide) rfl, hs, hreader, rfl⟩

/-- All goes well.  The second thread takes seven microseconds, and eleven when it is traced. -/
def Env.timed : Env :=
  .of fun w s ↦
    match s with
    | .readTime => .ok (showTime (if .baseRun ∈ w.within then 12 else 16))
    | s => goodReply s

theorem readsTime_timed : Env.timed.ReadsTime (borrowing 7) (borrowing 11) := by
  intro w text hr
  cases hr
  split
  · exact @shows_borrowing 7 12 rfl
  · exact @shows_borrowing 11 16 rfl

theorem serves_timed : Env.timed.Serves sampleReports where
  reply w s hs := by
    cases s
    case checkOutput args => exact ⟨_, rfl, jsonLoads_sample⟩
    case handle d => exact ⟨true, rfl, rfl⟩
    case destroy | createSnapshot | enableChannel | enableEvent | start | stop =>
      exact ⟨0, rfl, le_refl (0 : ℤ)⟩
    all_goals exact ⟨_, rfl, trivial⟩
  reads w s hs := by
    cases s
    all_goals exact ⟨_, rfl⟩

-- the seconds are `12 / 10 ^ 6 / 2` and `16 / 10 ^ 6 / 2`
theorem elapsedTime_exact_borrowing :
    TimesExact (borrowing 7) 2 ∧
      ∃ v w', run (doKernelBenchmark .timed 1000) twoCpus = (.ok v, w') ∧
        v.at ["baseline", "run_time"] = some (.num ((borrowing 7).meanSeconds 2)) ∧
        v.at ["tracing_enabled", "run_time"] = some (.num ((borrowing 11).meanSeconds 2)) := by
  have h := elapsedTime_exact 2 (by decide)
  have hbase : (borrowing 7).Clocked 2 := clocked_borrowing (by decide) (by decide)
  have htraced : (borrowing 11).Clocked 2 := clocked_borrowing (by decide) (by decide)
  have hpass := h.2 _ _ .timed hbase htraced readsTime_timed
  have honline : twoCpus.online = Finset.range 2 := by decide
  have hwithin : .baseRun ∉ twoCpus.within := List.not_mem_nil
  rcases hpass.2 sampleReports twoCpus 1000 serves_timed honline hwithin (by decide) with ⟨v, w', hr⟩
  exact ⟨(h.1 _ hbase).2, v, w', hr, hpass.1 twoCpus 1000 v w' honline hwithin hr⟩

end UstBench.Driver
