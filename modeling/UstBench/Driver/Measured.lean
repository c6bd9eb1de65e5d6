import UstBench.Driver.Overhead
import UstBench.Driver.Passes
import UstBench.Workload.Launch

/-!
# What a UST pass measures

`do_ust_benchmark` runs the runner three times and computes with what it printed.  When it returns,
its numbers are those of the processes that were launched: means over the processes of differences
between what the clock showed them.
-/

namespace UstBench.Driver

open Reasoning Reasoning.Prog Workload

/-- `end - start` of the `i`-th report. -/
def runTime (reports : List Json) (i : ℕ) : ℚ :=
  (reports[i]?.bind fun report ↦ (difference report "end" "start").toOption).getD 0

/-- The times of the processes of one run. -/
structure Times where
  start : ℕ → ℚ
  run : ℕ → ℚ

def timesOf (reports : List Json) : Times := ⟨startTime reports, runTime reports⟩

/-- A number that there is only for a benchmark that loops. -/
def Benchmark.ifLoops (b : Benchmark) (q : ℕ → ℚ) : Value :=
  match b.nrLoops with
  | none => .none
  | some nrLoops => .num (q nrLoops)

/-- The entry of a mode of tracing, from the times of `n` processes. -/
def modeValue (b : Benchmark) (n : ℕ) (base ust : Times) : Value :=
  .dict
    [("args", argsValue (b.ust ++ b.args)), ("start_time", .num (mean n ust.start)),
      ("run_time", b.ifLoops fun _ ↦ mean n ust.run),
      ("ns_per_event", b.ifLoops fun nrLoops ↦
        (mean n ust.run - mean n base.run) * 10 ^ 9 / (nrLoops * b.tpPerLoop)),
      ("start_overhead_s", .num (meanOfTotals n base.start ust.start)),
      ("start_overhead_pct",
        .num (meanOfTotals n base.start ust.start * 100 / mean n base.start))]

/-- The value of a benchmark, from the times of the processes of its three runs. -/
def ustValue (b : Benchmark) (n : ℕ) (base ust ustEn : Times) : Value :=
  .dict
    [("baseline", .dict
      [("args", argsValue (b.baseline ++ b.args)), ("start_time", .num (mean n base.start)),
        ("run_time", b.ifLoops fun _ ↦ mean n base.run)]),
     ("tracing_disabled", modeValue b n base ust),
     ("tracing_enabled", modeValue b n base ustEn)]

/-! ## Loops that may raise -/

section Fold

variable {σ ε : Type} {f : σ → ℕ → Except ε σ} {s t : σ} {n : ℕ}

/-- What every turn adds to a number of the state adds up. -/
theorem foldlM_sum (get : σ → ℚ) (g : ℕ → ℚ)
    (hstep : ∀ s t i, f s i = .ok t → get t = get s + g i)
    (h : (List.range n).foldlM f s = .ok t) : get t = get s + ∑ i ∈ Finset.range n, g i := by
  induction n generalizing t with
  | zero =>
    cases h
    rw [Finset.sum_range_zero, add_zero]
  | succ n ih =>
    rw [List.range_succ, List.foldlM_append] at h
    obtain ⟨u, hu, h⟩ := except_bind_eq_ok h
    obtain ⟨t', ht', h⟩ := except_bind_eq_ok h
    cases h
    rw [hstep u t n ht', ih hu, Finset.sum_range_succ, add_assoc]

end Fold

/-! ## The value -/

section Value

variable {b : Benchmark} {base ust ustEn : List Json}

theorem runTime_of_item {reports : List Json} {report : Json} {i : ℕ} {q : ℚ}
    (hi : item (.arr reports) i = .ok report) (hd : difference report "end" "start" = .ok q) :
    runTime reports i = q := by
  change reports[i]?.elim (Except.error Exc.indexError) Except.ok = Except.ok report at hi
  unfold runTime
  cases hr : reports[i]? with
  | none =>
    rw [hr] at hi
    cases hi
  | some r =>
    rw [hr] at hi
    cases hi
    rw [Option.bind_some, hd]
    rfl

/-- What a turn adds to the run times. -/
theorem Sums.add_runs {nrLoops : Option ℕ} {s s' : Sums} {i : ℕ} (hl : nrLoops.isSome)
    (h : s.add nrLoops (.arr base) (.arr ust) (.arr ustEn) i = .ok s') :
    s'.baseRun = s.baseRun + runTime base i ∧ s'.ustRun = s.ustRun + runTime ust i ∧
      s'.ustEnRun = s.ustEnRun + runTime ustEn i := by
  unfold Sums.add at h
  obtain ⟨rb, hb, h⟩ := except_bind_eq_ok h
  obtain ⟨ru, hu, h⟩ := except_bind_eq_ok h
  obtain ⟨re, he, h⟩ := except_bind_eq_ok h
  obtain ⟨x, -, h⟩ := except_bind_eq_ok h
  obtain ⟨y, -, h⟩ := except_bind_eq_ok h
  obtain ⟨z, -, h⟩ := except_bind_eq_ok h
  dsimp only at h
  rw [if_pos hl] at h
  obtain ⟨p, hp, h⟩ := except_bind_eq_ok h
  obtain ⟨q, hq, h⟩ := except_bind_eq_ok h
  obtain ⟨r, hr, h⟩ := except_bind_eq_ok h
  cases h
  rw [runTime_of_item hb hp, runTime_of_item hu hq, runTime_of_item he hr]
  exact ⟨rfl, rfl, rfl⟩

theorem Sums.foldlM_runs {nrLoops : Option ℕ} {n : ℕ} {s : Sums} (hl : nrLoops.isSome)
    (h : (List.range n).foldlM (Sums.add nrLoops (.arr base) (.arr ust) (.arr ustEn)) {} = .ok s) :
    s.baseRun = ∑ i ∈ Finset.range n, runTime base i ∧
      s.ustRun = ∑ i ∈ Finset.range n, runTime ust i ∧
      s.ustEnRun = ∑ i ∈ Finset.range n, runTime ustEn i := by
  have hb := foldlM_sum Sums.baseRun (runTime base)
    (fun _ _ _ hs ↦ (Sums.add_runs hl hs).1) h
  have hu := foldlM_sum Sums.ustRun (runTime ust)
    (fun _ _ _ hs ↦ (Sums.add_runs hl hs).2.1) h
  have he := foldlM_sum Sums.ustEnRun (runTime ustEn)
    (fun _ _ _ hs ↦ (Sums.add_runs hl hs).2.2) h
  exact ⟨hb.trans (zero_add _), hu.trans (zero_add _), he.trans (zero_add _)⟩

theorem runTimes_eq {n : ℕ} {s : Sums} {r : Value × Value × Value × Value × Value}
    (hs : (List.range n).foldlM (Sums.add b.nrLoops (.arr base) (.arr ust) (.arr ustEn)) {} = .ok s)
    (h : runTimes b n s = .ok r) :
    r = (b.ifLoops fun _ ↦ mean n (runTime base), b.ifLoops fun _ ↦ mean n (runTime ust),
      b.ifLoops fun _ ↦ mean n (runTime ustEn),
      b.ifLoops fun nrLoops ↦
        (mean n (runTime ust) - mean n (runTime base)) * 10 ^ 9 / (nrLoops * b.tpPerLoop),
      b.ifLoops fun nrLoops ↦
        (mean n (runTime ustEn) - mean n (runTime base)) * 10 ^ 9 / (nrLoops * b.tpPerLoop)) := by
  unfold runTimes at h
  unfold Benchmark.ifLoops
  cases hl : b.nrLoops with
  | none =>
    rw [hl] at h
    cases h
    rfl
  | some nrLoops =>
    obtain ⟨hbase, hust, hen⟩ := Sums.foldlM_runs (by rw [hl]; rfl) hs
    rw [hl] at h
    obtain ⟨q₁, h₁, h⟩ := except_bind_eq_ok h
    obtain ⟨q₂, h₂, h⟩ := except_bind_eq_ok h
    obtain ⟨q₃, h₃, h⟩ := except_bind_eq_ok h
    obtain ⟨q₄, h₄, h⟩ := except_bind_eq_ok h
    obtain ⟨q₅, h₅, h⟩ := except_bind_eq_ok h
    cases h
    rw [(div_eq_ok h₄).2, (div_eq_ok h₅).2, (div_eq_ok h₁).2, (div_eq_ok h₂).2, (div_eq_ok h₃).2,
      hbase, hust, hen]
    rfl

/-- The value is one of means, and there are as many reports as it needs. -/
theorem ustResult_eq {v : Value} (h : ustResult b (.arr base) (.arr ust) (.arr ustEn) = .ok v) :
    v = ustValue b base.length (timesOf base) (timesOf ust) (timesOf ustEn) ∧
      mean base.length (startTime base) ≠ 0 ∧
      ∀ i < base.length,
        Reads b.nrLoops base i ∧ Reads b.nrLoops ust i ∧ Reads b.nrLoops ustEn i := by
  obtain ⟨-, hdisabled, henabled⟩ := ustResult_entries h
  obtain ⟨hreads, hne, -⟩ := ustResult_needs h
  unfold ustResult at h
  obtain ⟨n, hn, h⟩ := except_bind_eq_ok h
  obtain ⟨s, hs, h⟩ := except_bind_eq_ok h
  obtain ⟨bs, hbs, h⟩ := except_bind_eq_ok h
  obtain ⟨us, hus, h⟩ := except_bind_eq_ok h
  obtain ⟨uo, huo, h⟩ := except_bind_eq_ok h
  obtain ⟨es, hes, h⟩ := except_bind_eq_ok h
  obtain ⟨eo, heo, h⟩ := except_bind_eq_ok h
  obtain ⟨r, hr, h⟩ := except_bind_eq_ok h
  obtain ⟨up, hup, h⟩ := except_bind_eq_ok h
  obtain ⟨ep, hep, h⟩ := except_bind_eq_ok h
  cases h
  cases hn
  rw [runTimes_eq hs hr] at hdisabled henabled ⊢
  -- the entries of the start times are known
  have hmb : bs = mean base.length (startTime base) := num_of_entry rfl hdisabled.baseline
  have hmu : us = mean base.length (startTime ust) := num_of_entry rfl hdisabled.start
  have hme : es = mean base.length (startTime ustEn) := num_of_entry rfl henabled.start
  have hmuo : uo = meanOfTotals base.length (startTime base) (startTime ust) :=
    num_of_entry rfl hdisabled.overhead
  have hmeo : eo = meanOfTotals base.length (startTime base) (startTime ustEn) :=
    num_of_entry rfl henabled.overhead
  rw [(div_eq_ok hup).2, (div_eq_ok hep).2, hmb, hmu, hme, hmuo, hmeo]
  exact ⟨rfl, hne, hreads⟩

end Value

/-! ## The times of a launch -/

section Launch

variable {l : Launch} {looped : Bool}

/-- The times of the processes of a launch. -/
def launchTimes (l : Launch) : Times where
  start i := if h : i < l.n then (l.stamps ⟨i, h⟩).startTime else 0
  run i := if h : i < l.n then (l.stamps ⟨i, h⟩).runTime else 0

/-- The reports of its processes, as `json.loads` gives them. -/
def launchReports (l : Launch) (looped : Bool) : List Json :=
  List.ofFn fun i ↦ (l.stamps i).json looped

theorem difference_json (s : Stamps) (looped : Bool) :
    difference (s.json looped) "main" "exec" = .ok s.startTime := by
  cases looped <;> rfl

theorem difference_json_looped (s : Stamps) :
    difference (s.json true) "end" "start" = .ok s.runTime := rfl

theorem launchReports_getElem? (l : Launch) (looped : Bool) (i : ℕ) :
    (launchReports l looped)[i]? =
      if h : i < l.n then some ((l.stamps ⟨i, h⟩).json looped) else none := by
  unfold launchReports
  rw [List.getElem?_ofFn]

theorem startTime_launch (l : Launch) (looped : Bool) :
    startTime (launchReports l looped) = (launchTimes l).start := by
  funext i
  unfold startTime launchTimes
  rw [launchReports_getElem?]
  by_cases hi : i < l.n
  · simp only [dif_pos hi, Option.bind_some, difference_json]
    rfl
  · simp only [dif_neg hi]
    rfl

theorem runTime_launch (l : Launch) : runTime (launchReports l true) = (launchTimes l).run := by
  funext i
  unfold runTime launchTimes
  rw [launchReports_getElem?]
  by_cases hi : i < l.n
  · simp only [dif_pos hi, Option.bind_some, difference_json_looped]
    rfl
  · simp only [dif_neg hi]
    rfl

/-- Reports that the times of a loop were read of are those of processes that came behind it. -/
theorem looped_of_reads {nrLoops : Option ℕ} {i : ℕ} (h : Reads nrLoops (launchReports l looped) i)
    (hl : nrLoops.isSome) : looped = true := by
  obtain ⟨report, hi, hcomplete⟩ := h
  obtain ⟨q, hq⟩ := hcomplete.loop hl
  change (launchReports l looped)[i]?.elim (Except.error Exc.indexError) Except.ok = _ at hi
  rw [launchReports_getElem?] at hi
  cases looped with
  | true => rfl
  | false =>
    by_cases hlt : i < l.n
    · rw [dif_pos hlt] at hi
      cases hi
      cases hq
    · rw [dif_neg hlt] at hi
      cases hi

theorem times_of_reads {nrLoops : Option ℕ} {i : ℕ} (h : Reads nrLoops (launchReports l looped) i) :
    (timesOf (launchReports l looped)).start = (launchTimes l).start ∧
      (nrLoops.isSome → (timesOf (launchReports l looped)).run = (launchTimes l).run) := by
  refine ⟨startTime_launch l looped, fun hl ↦ ?_⟩
  rw [looped_of_reads h hl]
  exact runTime_launch l

/-- The times of the loops count only for a benchmark that loops. -/
theorem ustValue_congr {b : Benchmark} {n : ℕ} {base base' ust ust' ustEn ustEn' : Times}
    (hbase : base.start = base'.start ∧ (b.nrLoops.isSome → base.run = base'.run))
    (hust : ust.start = ust'.start ∧ (b.nrLoops.isSome → ust.run = ust'.run))
    (hen : ustEn.start = ustEn'.start ∧ (b.nrLoops.isSome → ustEn.run = ustEn'.run)) :
    ustValue b n base ust ustEn = ustValue b n base' ust' ustEn' := by
  unfold ustValue modeValue Benchmark.ifLoops
  rw [hbase.1, hust.1, hen.1]
  cases hl : b.nrLoops with
  | none => rfl
  | some nrLoops =>
    have hsome : b.nrLoops.isSome := by
      rw [hl]
      rfl
    rw [hbase.2 hsome, hust.2 hsome, hen.2 hsome]

theorem launch_le {l' : Launch} {looped' : Bool} {nrLoops : Option ℕ}
    (h : ∀ i < l.n, Reads nrLoops (launchReports l' looped') i) : l.n ≤ l'.n := by
  by_contra hlt
  have hread := (h l'.n (by omega)).lt
  unfold launchReports at hread
  rw [List.length_ofFn] at hread
  omega

end Launch

/-! ## The steps behind the data -/

/-- A run of the tool. -/
def Entry.isLaunch (e : Entry) : Bool := decide (e.step.part = .runner)

/-- Some steps, the latest first: they are in the log, in order, and every run of the tool is one of
them. -/
structure Accounts (steps : List Entry) (w : World) : Prop where
  logged : steps.Sublist w.log
  launches : steps.filter Entry.isLaunch = w.log.filter Entry.isLaunch

/-- The calls in progress, the CPUs that are online, and the steps that count so far. -/
structure Standing (c : List Frame) (cpus : Finset ℕ) (steps : List Entry) (w : World) : Prop where
  within : w.within = c
  online : w.online = cpus
  accounts : Accounts steps w

section Steps

variable {env : Env} {w w' : World} {s : Step} {r : Except Exc s.Result} {c : List Frame}
  {cpus : Finset ℕ} {steps : List Entry} {e : Entry} {ps : List Part}

theorem accounts_log (w : World) : Accounts w.log w := ⟨.refl _, rfl⟩

/-- A step that counts. -/
theorem Accounts.cons (h : Accounts steps w) :
    Accounts (⟨s, r, w.within, w.active, w.online⟩ :: steps) (w.after s r) where
  logged := h.logged.cons_cons _
  launches := by rw [World.after_log, List.filter_cons, List.filter_cons, h.launches]

/-- A step that does not count. -/
theorem Accounts.skip (h : Accounts steps w) (hs : s.part ≠ .runner) :
    Accounts steps (w.after s r) where
  logged := h.logged.cons _
  launches := by
    rw [h.launches, World.after_log, List.filter_cons_of_neg]
    exact fun hl ↦ hs (of_decide_eq_true hl)

/-- What counted may be left out, but for the runs of the tool. -/
theorem Accounts.of_cons (h : Accounts (e :: steps) w) (he : e.step.part ≠ .runner) :
    Accounts steps w where
  logged := (List.sublist_cons_self _ _).trans h.logged
  launches := by
    rw [← h.launches, List.filter_cons_of_neg]
    exact fun hl ↦ he (of_decide_eq_true hl)

theorem Standing.cons (h : Standing c cpus steps w) (hs : s.part ≠ .cpuWrite) :
    Standing c cpus (⟨s, r, c, w.active, cpus⟩ :: steps) (w.after s r) where
  within := World.after_within.trans h.within
  online := (World.after_online hs).trans h.online
  accounts := by
    have hcons := @Accounts.cons w s r steps h.accounts
    rwa [h.within, h.online] at hcons

theorem Standing.push (h : Standing c cpus steps w) (f : Frame) :
    Standing (f :: c) cpus steps (w.push f) :=
  ⟨congrArg (f :: ·) h.within, h.online, h.accounts.logged, h.accounts.launches⟩

/-- Behind a call from a world in which the calls `c` were in progress. -/
theorem Standing.back {c' : List Frame} (h : Standing c' cpus steps w') (hw : w.within = c) :
    Standing c cpus steps (w'.back w) :=
  ⟨hw, h.online, h.accounts.logged, h.accounts.launches⟩

theorem stable_and {J K : World → Prop} {fs : List Frame} (hJ : Stable J ps fs)
    (hK : Stable K ps fs) : Stable (fun w ↦ J w ∧ K w) ps fs where
  step r hs hw := ⟨hJ.step r hs hw.1, hK.step r hs hw.2⟩
  push f hf hw := ⟨hJ.push f hf hw.1, hK.push f hf hw.2⟩
  back hne hw hw' := ⟨hJ.back hne hw.1 hw'.1, hK.back hne hw.2 hw'.2⟩

theorem stable_standing (hps : .runner ∉ ps) (hw : .cpuWrite ∉ ps) :
    Stable (Standing c cpus steps) ps [] where
  step _ hs h :=
    ⟨World.after_within.trans h.within, (World.after_online fun he ↦ hw (he ▸ hs)).trans h.online,
      h.accounts.skip fun he ↦ hps (he ▸ hs)⟩
  push _ hf := absurd hf List.not_mem_nil
  back hne := absurd rfl hne

/-- What is kept between the steps, and what is left of it where one of them raises. -/
theorem Stable.leaving {J : World → Prop} (h : Stable J ps []) {E : World → Prop}
    (hE : ∀ {w}, J w → E w) : Exits env J E ps [] where
  call hp hs := (h.call hp hs).conseq (fun _ hw ↦ hw) (fun _ _ hw ↦ hw) fun _ _ hw ↦ hE hw
  raise := hE
  push := h.push
  back := h.back
  backRaised hne := absurd rfl hne

end Steps

/-! ## The session -/

section Session

variable {env : Env}

/-- A start that returns has activated the session. -/
theorem active_lttngStart (names : List String) (d : Domain) :
    Triple (fun _ ↦ True) (lttngStart env names d) (fun _ w ↦ w.active = true) fun _ _ ↦ True := by
  apply triple_bind (returns_any _)
  intro _
  apply triple_bind (Q := fun ret w ↦ 0 ≤ ret → w.active = true)
  · apply triple_call
    · intro w ret _ _ hret
      show (w.active || decide (0 ≤ ret)) = true
      rw [decide_eq_true hret, Bool.or_true]
    · exact fun _ _ _ _ ↦ trivial
  · intro ret
    exact triple_when (fun _ ↦ triple_throw _ fun _ _ ↦ trivial) fun hret _ hw ↦
      hw (not_lt.mp hret)

/-- A stop that returns has ended that. -/
theorem inactive_lttngStop :
    Triple (fun _ ↦ True) (lttngStop env) (fun _ w ↦ w.active = false) fun _ _ ↦ True := by
  apply triple_bind (returns_any _)
  intro _
  apply triple_bind (returns_any _)
  intro _
  apply triple_bind (Q := fun ret w ↦ 0 ≤ ret → w.active = false)
  · apply triple_call
    · intro w ret _ _ hret
      show (w.active && decide (ret < 0)) = false
      rw [decide_eq_false (not_lt.mpr hret), Bool.and_false]
    · exact fun _ _ _ _ ↦ trivial
  · intro ret
    exact triple_when (fun _ ↦ triple_throw _ fun _ _ ↦ trivial) fun hret _ hw ↦
      hw (not_lt.mp hret)

end Session

/-! ## The runs of the tool -/

/-- What the runner answers to these arguments is the output of a launch that ended well, of the
benchmark they name. -/
def Env.Launches (env : Env) (args : List String) : Prop :=
  ∀ w output, env.reply w (.checkOutput (runnerBin :: args)) = .ok output →
    ∃ l : Launch, l.argv = args.map String.toList ∧ l.OfBenchmark ∧
      ∃ w₁, l.exit = (.ok 0, w₁) ∧ output = stdoutBytes w₁.proc.stdout

/-- The step has run the tool, and given the output of a launch that ended well. -/
structure Entry.Answers (e : Entry) (c : List Frame) (withUst active : Bool) (cpus : Finset ℕ)
    (args : List String) (l : Launch) : Prop where
  argv : l.argv = args.map String.toList
  benchmark : l.OfBenchmark
  logged : ∃ w, l.exit = (.ok 0, w) ∧ e = ⟨.checkOutput (runnerBin :: args),
    .ok (stdoutBytes w.proc.stdout), .runner withUst :: c, active, cpus⟩

/-- A pass of the benchmark with the session `active` in front of it: the steps it was measured
with, and the value of the times of their processes.  A session is active during the last one, and
of the calls before only if one was already. -/
def Benchmark.Measured (b : Benchmark) (c : List Frame) (active : Bool) (cpus : Finset ℕ)
    (steps : List Entry) (v : Value) : Prop :=
  ∃ (e₁ e₂ e₃ : Entry) (base ust ustEn : Launch), steps = [e₃, e₂, e₁] ∧
    e₁.Answers c false active cpus (b.baseline ++ b.args) base ∧
    e₂.Answers c false active cpus (b.ust ++ b.args) ust ∧
    e₃.Answers c true true cpus (b.ust ++ b.args) ustEn ∧
    base.n ≤ ust.n ∧ base.n ≤ ustEn.n ∧ mean base.n (launchTimes base).start ≠ 0 ∧
    v = ustValue b base.n (launchTimes base) (launchTimes ust) (launchTimes ustEn)

section Tool

variable {env : Env} {c : List Frame} {cpus : Finset ℕ} {steps : List Entry} {active : Bool}
  {args : List String}

theorem answers_checkOutput {withUst : Bool} (henv : env.Launches args) :
    Triple (fun w ↦ Standing (.runner withUst :: c) cpus steps w ∧ w.active = active)
      (env.call (.checkOutput (runnerBin :: args)))
      (fun output w ↦ ∃ e l, ((Standing (.runner withUst :: c) cpus (e :: steps) w ∧
        w.active = active) ∧ e.Answers c withUst active cpus args l) ∧
          jsonLoads output = some (.arr (launchReports l (Loops l.argv))))
      fun _ _ ↦ True := by
  apply triple_call
  · intro w output hw hr
    obtain ⟨l, hargv, hb, w₁, hexit, rfl⟩ := henv w output hr
    refine ⟨⟨.checkOutput (runnerBin :: args), .ok (stdoutBytes w₁.proc.stdout),
      .runner withUst :: c, active, cpus⟩, l, ⟨⟨?_, ?_⟩, hargv, hb, w₁, hexit, rfl⟩,
      l.jsonLoads_output hb hexit⟩
    · have hcons := @Standing.cons w (.checkOutput (runnerBin :: args))
        (.ok (stdoutBytes w₁.proc.stdout)) _ _ _ hw.1 (by nofun)
      rwa [hw.2] at hcons
    · exact (World.after_active (by nofun) (by nofun)).trans hw.2
  · exact fun _ _ _ _ ↦ trivial

theorem answered_runBenchmarkTool {withUst : Bool} (henv : env.Launches args) :
    Triple (fun w ↦ Standing c cpus steps w ∧ w.active = active) (runBenchmarkTool env args withUst)
      (fun v w ↦ ∃ e l, ((Standing c cpus (e :: steps) w ∧ w.active = (active && !withUst)) ∧
        e.Answers c withUst (active || withUst) cpus args l) ∧
          v = .arr (launchReports l (Loops l.argv)))
      fun _ _ ↦ True := by
  apply triple_inFrame
  intro w hw
  have hexits : ∀ steps, Exits env (Standing (.runner withUst :: c) cpus steps) (fun _ ↦ True)
      [.lttng, .activation] [] :=
    fun _ ↦ (stable_standing (by decide) (by decide)).leaving fun _ ↦ trivial
  apply triple_bind (Q := fun _ w' ↦
    Standing (.runner withUst :: c) cpus steps w' ∧ w'.active = (active || withUst))
  · cases withUst with
    | false =>
      apply triple_when nofun
      rintro _ _ rfl
      exact ⟨hw.1.push _, hw.2.trans (Bool.or_false _).symm⟩
    | true =>
      apply triple_when (fun _ ↦ ?_) fun h ↦ absurd rfl h
      apply (((hexits steps).lttngStart (by decide) (by decide) ["*"] .ust).both
        (active_lttngStart ["*"] .ust)).conseq
      · rintro _ rfl
        exact ⟨hw.1.push _, trivial⟩
      · exact fun _ _ hw' ↦ ⟨hw'.1, hw'.2.trans (Bool.or_true _).symm⟩
      · exact fun _ _ _ ↦ trivial
  intro _
  apply triple_bind (answers_checkOutput henv)
  intro output
  apply triple_exists
  intro e
  apply triple_exists
  intro l
  apply triple_assume
  intro hjson
  apply triple_assume
  intro he
  apply triple_bind (Q := fun _ w' ↦
    Standing (.runner withUst :: c) cpus (e :: steps) w' ∧ w'.active = (active && !withUst))
  · cases withUst with
    | false =>
      apply triple_when nofun
      exact fun _ w' hw' ↦ ⟨hw'.1, by rw [hw'.2, Bool.or_false, Bool.not_false, Bool.and_true]⟩
    | true =>
      apply triple_when (fun _ ↦ ?_) fun h ↦ absurd rfl h
      apply (((hexits (e :: steps)).lttngStop (by decide)).both inactive_lttngStop).conseq
      · exact fun _ hw' ↦ ⟨hw'.1, trivial⟩
      · exact fun _ _ hw' ↦ ⟨hw'.1, hw'.2.trans (Bool.and_false _).symm⟩
      · exact fun _ _ _ ↦ trivial
  · intro _
    rw [hjson]
    apply triple_pure
    exact fun w' hw' ↦ ⟨e, l, ⟨⟨hw'.1.back hw.1.within, hw'.2⟩, he⟩, rfl⟩

/-- The value is the one of the times of the processes. -/
theorem ustResult_launches {b : Benchmark} {base ust ustEn : Launch} {v : Value}
    (h : ustResult b (.arr (launchReports base (Loops base.argv)))
      (.arr (launchReports ust (Loops ust.argv)))
      (.arr (launchReports ustEn (Loops ustEn.argv))) = .ok v) :
    base.n ≤ ust.n ∧ base.n ≤ ustEn.n ∧ mean base.n (launchTimes base).start ≠ 0 ∧
      v = ustValue b base.n (launchTimes base) (launchTimes ust) (launchTimes ustEn) := by
  obtain ⟨hvalue, hne, hreads⟩ := ustResult_eq h
  have hn : (launchReports base (Loops base.argv)).length = base.n := List.length_ofFn
  rw [hn] at hvalue hne hreads
  rw [startTime_launch] at hne
  -- a mean that is not 0 is that of a process at least
  have hpos : 0 < base.n := by
    rw [Nat.pos_iff_ne_zero]
    intro h0
    apply hne
    rw [mean, h0, Nat.cast_zero, div_zero]
  obtain ⟨hb, hu, he⟩ := hreads 0 hpos
  refine ⟨launch_le fun i hi ↦ (hreads i hi).2.1, launch_le fun i hi ↦ (hreads i hi).2.2, hne, ?_⟩
  rw [hvalue]
  exact ustValue_congr (times_of_reads hb) (times_of_reads hu) (times_of_reads he)

theorem measured_doUstBenchmark {b : Benchmark} (hbase : env.Launches (b.baseline ++ b.args))
    (hust : env.Launches (b.ust ++ b.args)) :
    Triple (fun w ↦ Standing c cpus steps w ∧ w.active = active) (doUstBenchmark env b)
      (fun v w ↦ ∃ new, (Standing c cpus (new ++ steps) w ∧ w.active = false) ∧
        b.Measured c active cpus new v)
      fun _ _ ↦ True := by
  apply triple_bind_found (answered_runBenchmarkTool hbase)
  intro e₁ base h₁
  rw [Bool.or_false] at h₁
  rw [Bool.not_false, Bool.and_true]
  apply triple_bind_found (answered_runBenchmarkTool hust)
  intro e₂ ust h₂
  rw [Bool.or_false] at h₂
  rw [Bool.not_false, Bool.and_true]
  apply triple_bind_found (answered_runBenchmarkTool hust)
  intro e₃ ustEn h₃
  rw [Bool.or_true] at h₃
  rw [Bool.not_true, Bool.and_false]
  have hstable : Stable (fun w ↦ Standing c cpus (e₃ :: e₂ :: e₁ :: steps) w ∧ w.active = false)
      [.script] [] :=
    stable_and (stable_standing (by decide) (by decide))
      (stable_active false [] (by decide) (by decide))
  have hexits : Exits env _ (fun _ ↦ True) _ [] := hstable.leaving fun _ ↦ trivial
  apply triple_bind (hexits.call (p := .script) (by decide) (by rfl))
  intro _
  apply triple_ofExcept_eq
  · intro v hv w hw
    exact ⟨[e₃, e₂, e₁], hw, e₁, e₂, e₃, base, ust, ustEn, rfl, h₁, h₂, h₃, ustResult_launches hv⟩
  · exact fun _ _ _ ↦ trivial

end Tool

/-- When `do_ust_benchmark` returns, its runs of the tool since then are three that gave the outputs
of launches that ended well, the last one with the session active, and the value is the one of the
times of their processes: what else failed, or was left in the segments, does not show in it. -/
theorem doUstBenchmark_measures {env : Env} {b : Benchmark} {w w' : World} {v : Value}
    (hbase : env.Launches (b.baseline ++ b.args)) (hust : env.Launches (b.ust ++ b.args))
    (h : run (doUstBenchmark env b) w = (.ok v, w')) :
    ∃ steps, b.Measured w.within w.active w.online steps v ∧ Accounts (steps ++ w.log) w' ∧
      w'.active = false := by
  obtain ⟨steps, ⟨hstanding, hactive⟩, hmeasured⟩ := (measured_doUstBenchmark hbase hust).of_ok
    ⟨⟨rfl, rfl, accounts_log w⟩, rfl⟩ h
  exact ⟨steps, hmeasured, hstanding.accounts, hactive⟩

/-- The calls of a benchmark at the seconds 2 to 4. -/
def sampleCalls : MainSys := ⟨.succeeding ⟨2, 0⟩, .succeeding ⟨3, 0⟩, .succeeding ⟨4, 0⟩⟩

/-- A benchmark that is told to loop, or not. -/
def sampleImage (looped : Bool) : Image :=
  ⟨if looped then sampleCalls.adds else [(.main, sampleCalls.main)], .exited 0⟩

/-- What it leaves. -/
def sampleReport (looped : Bool) : Report := if looped then sampleRun else sampleRun.take 2

def sampleOutput (looped : Bool) : List UInt8 := stdoutBytes (document [sampleReport looped])

/-- One child that goes through all its steps, with nothing failing. -/
def sampleLaunch (looped : Bool) (args : List String) : Launch where
  argv := args.map String.toList
  n := 1
  kernel := staleKernel
  pids _ := 1
  procs _ := .start 1
  runs _ := ⟨.succeeding ⟨1, 0⟩, .succeeding ⟨1, 0⟩, .succeeding ⟨1, 0⟩, some (sampleImage looped),
    .succeeding ⟨1, 0⟩⟩
  calls _ := sampleCalls
  sched := [0, 0, 0, 0, 0, 0, 0, 0]
  waits _ := .status (.exited 0)
  print _ := succeedingPrint
  parent := .start 2

theorem succeeds_sampleCalls : sampleCalls.Succeeds :=
  ⟨Sys.succeeds_succeeding _, Sys.succeeds_succeeding _, Sys.succeeds_succeeding _⟩

theorem status_sample (looped : Bool) :
    ((sampleLaunch looped []).children.2 (0 : Fin 1)).status = some (.exited 0) := by
  cases looped <;> decide +kernel

theorem exit_sample (looped : Bool) : (sampleLaunch looped []).exit.1.toOption = some 0 ∧
    (sampleLaunch looped []).exit.2.proc.stdout = document [sampleReport looped] := by
  cases looped <;> decide +kernel

theorem valid_sample (s : ℕ) (h : s < 5) : Timespec.Valid ⟨s, 0⟩ :=
  ⟨show (0 : ℤ) ≤ s by omega, show (s : ℤ) < 2 ^ 63 by omega, le_refl (0 : ℤ),
    show (0 : ℤ) < 10 ^ 9 by decide⟩

theorem ofBenchmark_sample {looped : Bool} {args : List String}
    (h : sampleCalls.image (args.map String.toList) = sampleImage looped) :
    (sampleLaunch looped args).OfBenchmark where
  isPid _ := show IsPid 1 by
    unfold IsPid
    omega
  injective i j _ := @Subsingleton.elim (Fin 1) _ i j
  fresh _ := ⟨rfl, rfl⟩
  image i image hi := by
    cases hi
    exact h.symm
  calls _ := succeeds_sampleCalls
  meets := by
    apply along_of_succeeds
    intro i
    have hok : ∀ ts, (Sys.succeeding ts).Succeeds := Sys.succeeds_succeeding
    apply @runChild_succeeds _ (sampleImage looped) ⟨hok _, hok _, hok _⟩ rfl
    intro x hx
    rw [← h] at hx
    exact (adds_succeed succeeds_sampleCalls (mem_image_adds hx)).1
  waits i s hs := by
    cases hs
    have hi : i = (0 : Fin 1) := @Subsingleton.elim (Fin 1) _ i 0
    rw [hi]
    exact status_sample looped
  closed := rfl
  silent := rfl
  clock _ := ⟨valid_sample 1 (by decide), valid_sample 2 (by decide), valid_sample 3 (by decide),
    valid_sample 4 (by decide)⟩

theorem launches_sample {env : Env} {looped : Bool} {args : List String}
    (henv : ∀ w, env.reply w (.checkOutput (runnerBin :: args)) = .ok (sampleOutput looped))
    (h : sampleCalls.image (args.map String.toList) = sampleImage looped) :
    env.Launches args := by
  intro w output houtput
  rw [henv w] at houtput
  refine ⟨sampleLaunch looped args, rfl, ofBenchmark_sample h,
    (sampleLaunch looped []).exit.2, ?_, ?_⟩
  · show (sampleLaunch looped []).exit = _
    obtain ⟨hok, -⟩ := exit_sample looped
    rcases hexit : (sampleLaunch looped []).exit with ⟨f | r, w₁⟩
    · rw [hexit] at hok
      cases hok
    · rw [hexit] at hok
      cases hok
      rfl
  · rw [(exit_sample looped).2]
    exact (Except.ok.inj houtput).symm

theorem doUstBenchmark_measures_sample :
    ∃ v w', run (doUstBenchmark (.withFault fun _ _ ↦ false)
        ⟨["basic-benchmark"], ["basic-benchmark-ust"], some 10, 1⟩) twoCpus = (.ok v, w') ∧
      ∃ steps, Benchmark.Measured ⟨["basic-benchmark"], ["basic-benchmark-ust"], some 10, 1⟩ []
          false {0, 1} steps v ∧ Accounts steps w' ∧ w'.active = false := by
  have hreturns := @returns_doUstBenchmark _ _ (@obliging_withFault (fun _ _ ↦ false) nofun)
    (fun _ _ ↦ False) _ (ustResult_sample
      ⟨["basic-benchmark"], ["basic-benchmark-ust"], some 10, 1⟩ (by decide) (by decide))
  rcases hr : run (doUstBenchmark (.withFault fun _ _ ↦ false)
    ⟨["basic-benchmark"], ["basic-benchmark-ust"], some 10, 1⟩) twoCpus with ⟨e | v, w'⟩
  · exact (hreturns.of_error rfl hr).elim
  · have hlaunches := fun args ↦ @launches_sample (.withFault fun _ _ ↦ false) true args fun _ ↦ rfl
    obtain ⟨steps, hmeasured, haccounts, hactive⟩ :=
      doUstBenchmark_measures (hlaunches _ rfl) (hlaunches _ rfl) hr
    rw [show twoCpus.log = [] by rfl, List.append_nil] at haccounts
    exact ⟨v, w', rfl, steps, hmeasured, haccounts, hactive⟩

end UstBench.Driver
