import UstBench.Driver.Counted
import UstBench.Driver.Levels
import UstBench.Driver.PerEvent
import UstBench.Driver.Published

/-!
# What a run reports

The data that `main` writes at its end are those of the passes it has made: each with the steps that
it was measured with, on the CPUs of its level, and no run of the tool is lost or counted twice.
What is missing was announced.
-/

namespace UstBench.Driver

open Reasoning Reasoning.Prog

/-- What a pass of a benchmark, or of the kernel, was measured with, and what it returned. -/
def MeasuredAs (c : List Frame) (cpus : Finset ℕ) (active : Bool) (steps : List Entry) (v : Value) :
    Option Benchmark → Prop
  | some b => b.Measured c active cpus steps v
  | none => KernelMeasured 1000000 c active cpus steps v

/-- A pass that has returned. -/
structure PassRun (c : List Frame) (cpus : Finset ℕ) where
  name : String
  benchmark : Option Benchmark
  /-- whether a session was active in front of it -/
  active : Bool
  steps : List Entry
  value : Value
  measured : MeasuredAs c cpus active steps value benchmark

namespace PassRun

variable {c : List Frame} {cpus : Finset ℕ}

def plan (p : PassRun c cpus) : String × Option Benchmark := (p.name, p.benchmark)

/-- Its entry in the data. -/
def entry (p : PassRun c cpus) : Value := .dict [(p.name, p.value)]

/-- The steps of some passes, the latest first. -/
def stepsOf (passes : List (PassRun c cpus)) : List Entry := passes.reverse.flatMap steps

theorem stepsOf_concat (passes : List (PassRun c cpus)) (p : PassRun c cpus) :
    stepsOf (passes ++ [p]) = p.steps ++ stepsOf passes := by
  rw [stepsOf, List.reverse_concat, List.flatMap_cons]
  rfl

theorem map_entry_concat (passes : List (PassRun c cpus)) {p : PassRun c cpus} {name : String}
    {o : Option Benchmark} (h : p.plan = (name, o)) :
    (passes ++ [p]).map entry = passes.map entry ++ [.dict [(name, p.value)]] := by
  have hname : p.name = name := congrArg Prod.fst h
  rw [List.map_append, ← hname]
  rfl

theorem map_plan_concat (passes : List (PassRun c cpus)) {p : PassRun c cpus} {name : String}
    {o : Option Benchmark} (h : p.plan = (name, o)) (n : ℕ) :
    (passes ++ [p]).map plan ++ List.replicate n (name, o) =
      passes.map plan ++ List.replicate (n + 1) (name, o) := by
  rw [List.map_append, List.map_singleton, h, List.append_assoc, List.singleton_append,
    List.replicate_succ]

end PassRun

/-- The passes that some of the loops of `do_benchmarks` make. -/
def planOf (benchmarks : List (String × Benchmark × ℕ)) : List (String × Option Benchmark) :=
  benchmarks.flatMap fun p ↦ List.replicate p.2.2 (p.1, some p.2.1)

/-- The passes of a level, in order, with some of the kernel at the end. -/
def planned (fullPasses fastPasses kernelPasses : ℕ) : List (String × Option Benchmark) :=
  planOf (ustBenchmarks fullPasses fastPasses) ++ List.replicate kernelPasses ("kernel", none)

/-- A message of the script, printed in the calls `c`. -/
def Printed (c : List Frame) (text : String) (w : World) : Prop :=
  ∃ e ∈ w.log, e.step = .print text ∧ e.within = c

/-- Either `p`, or the script has said that not. -/
def OrPrinted (p : Prop) (c : List Frame) (text : String) (w : World) : Prop := p ∨ Printed c text w

theorem stable_orPrinted (p : Prop) (c : List Frame) (text : String) (ps : List Part)
    (fs : List Frame) : Stable (OrPrinted p c text) ps fs where
  step := by
    rintro w s r - (hp | ⟨e, he, htext⟩)
    · exact .inl hp
    · exact .inr ⟨e, List.mem_cons_of_mem _ he, htext⟩
  push _ _ h := h
  back _ _ h := h

theorem printed_print {env : Env} {J : World → Prop} {c : List Frame} (text : String)
    (hJ : Stable J [.script] []) (hwithin : ∀ {w}, J w → w.within = c) :
    Triple J (env.call (.print text)) (fun _ w ↦ J w ∧ Printed c text w) fun _ _ ↦ True := by
  apply triple_call
  · intro w _ hw _
    refine ⟨hJ.step (s := .print text) _ List.mem_cons_self hw, _, List.mem_cons_self, rfl, ?_⟩
    exact hwithin hw
  · exact fun _ _ _ _ ↦ trivial

/-! ## The passes of a level -/

/-- `do_benchmarks` where it returns, and `before` what counted in front of it. -/
structure Ended {c : List Frame} {cpus : Finset ℕ} (before : List Entry)
    (passes : List (PassRun c cpus)) (w : World) : Prop where
  standing : Standing c cpus (PassRun.stepsOf passes ++ before) w
  quiet : ∀ p ∈ passes.tail, p.active = false

/-- `do_benchmarks` behind some passes that went well. -/
structure Behind {c : List Frame} {cpus : Finset ℕ} (before : List Entry)
    (passes : List (PassRun c cpus)) (w : World) : Prop extends Ended before passes w where
  inactive : passes ≠ [] → w.active = false

section Passes

variable {env : Env} {defaultCount : ℕ} {x : Option ℕ} {c : List Frame} {cpus : Finset ℕ}
  {before : List Entry}

theorem stable_ended (passes : List (PassRun c cpus)) :
    Stable (Ended before passes) [.script] [] where
  step r hs h := ⟨(stable_standing (by decide) (by decide)).step r hs h.standing, h.quiet⟩
  push _ hf := absurd hf List.not_mem_nil
  back hne := absurd rfl hne

/-- One more pass. -/
theorem behind_pass {m : Prog World Exc Value} {o : Option Benchmark} {E : Exc → World → Prop}
    (passes : List (PassRun c cpus)) (name : String)
    (hm : ∀ active, Triple
      (fun w ↦ Standing c cpus (PassRun.stepsOf passes ++ before) w ∧ w.active = active) m
      (fun v w ↦ ∃ new, (Standing c cpus (new ++ (PassRun.stepsOf passes ++ before)) w ∧
        w.active = false) ∧ MeasuredAs c cpus active new v o) E) :
    Triple (Behind before passes) m
      (fun v w ↦ ∃ p : PassRun c cpus, (Behind before (passes ++ [p]) w ∧ p.plan = (name, o)) ∧
        p.value = v) E := by
  apply triple_each
  intro w hw
  apply (hm w.active).conseq
  · rintro _ rfl
    exact ⟨hw.standing, rfl⟩
  · rintro v w' ⟨new, ⟨hstanding, hactive⟩, hmeasured⟩
    refine ⟨⟨name, o, w.active, new, v, hmeasured⟩, ⟨⟨⟨?_, ?_⟩, fun _ ↦ hactive⟩, rfl⟩, rfl⟩
    · rwa [PassRun.stepsOf_concat, List.append_assoc]
    · cases hpasses : passes with
      | nil => exact fun p hp ↦ absurd hp List.not_mem_nil
      | cons q rest =>
        -- behind the first pass there is no session
        intro p hp
        rw [List.cons_append, List.tail_cons, List.mem_append, List.mem_singleton] at hp
        rcases hp with hp | rfl
        · exact hw.quiet p (by rwa [hpasses])
        · exact hw.inactive (by rw [hpasses]; exact List.cons_ne_nil q rest)
  · exact fun _ _ he ↦ he

/-- The benchmarks of the UST passes are launched. -/
def Env.LaunchesAll (env : Env) (benchmarks : List (String × Benchmark × ℕ)) : Prop :=
  ∀ p ∈ benchmarks, env.Launches (p.2.1.baseline ++ p.2.1.args) ∧
    env.Launches (p.2.1.ust ++ p.2.1.args)

theorem behind_ustPasses {b : Benchmark} (hbase : env.Launches (b.baseline ++ b.args))
    (hust : env.Launches (b.ust ++ b.args)) (name : String) (n : ℕ)
    (passes : List (PassRun c cpus)) :
    Triple (Behind before passes) (ustPasses env name b n (passes.map PassRun.entry))
      (fun data w ↦ ∃ passes' : List (PassRun c cpus), (Behind before passes' w ∧
        passes'.map PassRun.plan =
          passes.map PassRun.plan ++ List.replicate n (name, some b)) ∧
            data = passes'.map PassRun.entry)
      fun _ _ ↦ True := by
  induction n generalizing passes with
  | zero => exact triple_pure _ fun _ hw ↦ ⟨passes, ⟨hw, (List.append_nil _).symm⟩, rfl⟩
  | succ n ih =>
    apply triple_bind (behind_pass (o := some b) passes name
      fun _ ↦ measured_doUstBenchmark hbase hust)
    intro v
    apply triple_exists
    intro p
    apply triple_assume
    rintro rfl
    apply triple_assume
    intro hplan
    rw [← PassRun.map_entry_concat passes hplan, ← PassRun.map_plan_concat passes hplan]
    exact ih (passes ++ [p])

theorem behind_eachBenchmark {last : List Value → Prog World Exc (List Value)}
    {Q : List (String × Option Benchmark) → List Value → World → Prop}
    (hlast : ∀ passes : List (PassRun c cpus), Triple (Behind before passes)
      (last (passes.map PassRun.entry)) (Q (passes.map PassRun.plan)) fun _ _ ↦ True)
    {benchmarks : List (String × Benchmark × ℕ)} (h : env.LaunchesAll benchmarks)
    (passes : List (PassRun c cpus)) :
    Triple (Behind before passes) (eachBenchmark env last benchmarks (passes.map PassRun.entry))
      (Q (passes.map PassRun.plan ++ planOf benchmarks)) fun _ _ ↦ True := by
  induction benchmarks generalizing passes with
  | nil =>
    rw [planOf, List.flatMap_nil, List.append_nil]
    exact hlast passes
  | cons p rest ih =>
    obtain ⟨name, b, n⟩ := p
    unfold Env.LaunchesAll at h
    rw [List.forall_mem_cons] at h
    apply triple_bind (behind_ustPasses h.1.1 h.1.2 name n passes)
    intro data
    apply triple_exists
    intro passes'
    apply triple_assume
    rintro rfl
    apply triple_assume
    intro hplans
    have hrest := ih h.2 passes'
    rw [hplans, List.append_assoc] at hrest
    exact hrest

/-- The message of the handler of the kernel passes. -/
def kernelSkipped : String := "Failed to run kernel benchmark, skipping"

/-- One more kernel pass, or none and a message. -/
theorem behind_kernelPass (hmodule : env.HasModule defaultCount x)
    (passes : List (PassRun c cpus)) :
    Triple (Behind before passes)
      (tryCatch
        (do
          let result ← doKernelBenchmark env 1000000
          pure (some result))
        fun _ ↦ do
          env.call (.print kernelSkipped)
          pure none)
      (fun result w ↦
        (∃ p : PassRun c cpus, (Behind before (passes ++ [p]) w ∧ p.plan = ("kernel", none)) ∧
          result = some p.value) ∨
        (Ended before passes w ∧ Printed c kernelSkipped w) ∧ result = none)
      fun _ _ ↦ True := by
  apply triple_tryCatch (E := fun _ ↦ Ended before passes)
  · apply triple_bind (Q := fun v w ↦ ∃ p : PassRun c cpus,
      (Behind before (passes ++ [p]) w ∧ p.plan = ("kernel", none)) ∧ p.value = v)
    · apply triple_each
      intro w hw
      apply (behind_pass (o := none) passes "kernel"
        fun _ ↦ measured_doKernelBenchmark hmodule 1000000).conseq
      · rintro _ rfl
        exact hw
      · exact fun _ _ hp ↦ hp
      · exact fun _ _ hstanding ↦ ⟨hstanding, hw.quiet⟩
    · intro v
      apply triple_pure
      rintro w ⟨p, hp, rfl⟩
      exact .inl ⟨p, hp, rfl⟩
  · intro e
    apply triple_bind (printed_print kernelSkipped (stable_ended passes) fun h ↦ h.standing.within)
    intro _
    exact triple_pure _ fun _ hw ↦ .inr ⟨hw, rfl⟩

/-- The kernel passes are as many as were asked for, or one has failed. -/
theorem ended_kernelPasses (hmodule : env.HasModule defaultCount x) (n : ℕ)
    (passes : List (PassRun c cpus)) :
    Triple (Behind before passes) (kernelPasses env n (passes.map PassRun.entry))
      (fun data w ↦ ∃ (passes' : List (PassRun c cpus)) (k : ℕ), (Ended before passes' w ∧
        passes'.map PassRun.plan = passes.map PassRun.plan ++ List.replicate k ("kernel", none) ∧
          k ≤ n ∧ OrPrinted (k = n) c kernelSkipped w) ∧ data = passes'.map PassRun.entry)
      fun _ _ ↦ True := by
  induction n generalizing passes with
  | zero =>
    exact triple_pure _ fun _ hw ↦
      ⟨passes, 0, ⟨hw.toEnded, (List.append_nil _).symm, le_rfl, .inl rfl⟩, rfl⟩
  | succ n ih =>
    apply triple_bind (behind_kernelPass hmodule passes)
    intro result
    cases result with
    | none =>
      apply triple_pure
      rintro w (⟨p, -, hp⟩ | ⟨⟨hended, hprinted⟩, -⟩)
      · cases hp
      · exact ⟨passes, 0, ⟨hended, (List.append_nil _).symm, Nat.zero_le _, .inr hprinted⟩, rfl⟩
    | some v =>
      apply triple_each
      rintro w (⟨p, ⟨hbehind, hplan⟩, hp⟩ | ⟨-, hp⟩)
      · cases hp
        show Triple _ (kernelPasses env n (_ ++ [.dict [("kernel", p.value)]])) _ _
        rw [← PassRun.map_entry_concat passes hplan]
        apply (ih (passes ++ [p])).conseq
        · rintro _ rfl
          exact hbehind
        · rintro data w' ⟨passes', k, ⟨hended, hplans, hk, hall⟩, hdata⟩
          exact ⟨passes', k + 1, ⟨hended, hplans.trans (PassRun.map_plan_concat passes hplan k),
            Nat.succ_le_succ hk, hall.imp_left (congrArg _)⟩, hdata⟩
        · exact fun _ _ he ↦ he
      · cases hp

theorem ended_doBenchmarks {full fast : ℕ} (hlaunch : env.LaunchesAll (ustBenchmarks full fast))
    (hmodule : env.HasModule defaultCount x) :
    Triple (Standing c cpus before) (doBenchmarks env full fast)
      (fun data w ↦ ∃ (passes : List (PassRun c cpus)) (k : ℕ), (Ended before passes w ∧
        passes.map PassRun.plan = planned full fast k ∧ k ≤ full ∧
          OrPrinted (k = full) c kernelSkipped w) ∧ data = passes.map PassRun.entry)
      fun _ _ ↦ True := by
  rw [doBenchmarks_eq]
  apply (behind_eachBenchmark (Q := fun plan data w ↦ ∃ (passes : List (PassRun c cpus)) (k : ℕ),
    (Ended before passes w ∧ passes.map PassRun.plan = plan ++ List.replicate k ("kernel", none) ∧
      k ≤ full ∧ OrPrinted (k = full) c kernelSkipped w) ∧ data = passes.map PassRun.entry)
    (ended_kernelPasses hmodule full) hlaunch []).conseq
  · exact fun _ hw ↦ ⟨⟨hw, fun _ hp ↦ absurd hp List.not_mem_nil⟩, fun h ↦ absurd rfl h⟩
  · exact fun _ _ hq ↦ hq
  · exact fun _ _ he ↦ he

end Passes

/-! ## The levels -/

/-- A level of `main` that was gone through, when `s` was online at the start. -/
structure LevelRun (s : Finset ℕ) where
  cpuCount : ℕ
  passes : List (PassRun [.level cpuCount] (lowest cpuCount s))
  kernelPasses : ℕ
  kernelPasses_le : kernelPasses ≤ 5
  plan : passes.map PassRun.plan = planned 5 100 kernelPasses
  /-- a session may have been left on by the level before, but by no pass of this one -/
  quiet : ∀ p ∈ passes.tail, p.active = false

namespace LevelRun

variable {s : Finset ℕ}

/-- Its number of CPUs, and its data. -/
def data (level : LevelRun s) : ℕ × List Value := (level.cpuCount, level.passes.map PassRun.entry)

/-- All kernel passes are there, or the script has said that one has failed. -/
def Complete (level : LevelRun s) : World → Prop :=
  OrPrinted (level.kernelPasses = 5) [.level level.cpuCount] kernelSkipped

/-- The steps of some levels, the latest first. -/
def stepsOf (levels : List (LevelRun s)) : List Entry :=
  levels.reverse.flatMap fun level ↦ PassRun.stepsOf level.passes

theorem stepsOf_concat (levels : List (LevelRun s)) (level : LevelRun s) :
    stepsOf (levels ++ [level]) = PassRun.stepsOf level.passes ++ stepsOf levels := by
  rw [stepsOf, List.reverse_concat, List.flatMap_cons]
  rfl

end LevelRun

/-- The loop of `main` behind some levels. -/
structure BehindLevels {s : Finset ℕ} (levels : List (LevelRun s)) (w : World) : Prop where
  within : w.within = []
  accounts : Accounts (LevelRun.stepsOf levels) w
  complete : ∀ level ∈ levels, level.Complete w

/-- The message of the handler of the levels. -/
def countSkipped : String := "Failed to set CPU count, skipping"

section Levels

variable {env : Env} {defaultCount : ℕ} {x : Option ℕ} {s : Finset ℕ} {n : ℕ}
  {done : List (LevelRun s)} {ps : List Part}

theorem stable_complete (levels : List (LevelRun s)) (ps : List Part) (fs : List Frame) :
    Stable (fun w ↦ ∀ level ∈ levels, level.Complete w) ps fs where
  step r hs h level hl := (stable_orPrinted _ _ _ ps fs).step r hs (h level hl)
  push _ _ h := h
  back _ _ h := h

theorem stable_behindLevels (hps : .runner ∉ ps) : Stable (BehindLevels done) ps [] where
  step r hs h := ⟨World.after_within.trans h.within, h.accounts.skip fun he ↦ hps (he ▸ hs),
    (stable_complete done ps []).step r hs h.complete⟩
  push _ hf := absurd hf List.not_mem_nil
  back hne := absurd rfl hne

/-- The lowest `n` CPUs, or a message. -/
theorem behind_setOnlineCount (hn : 1 ≤ n) (hns : n ≤ s.card) :
    Triple (fun w ↦ Between s (lowest (n + 1) s) (lowest (n + 1) s) w ∧ BehindLevels done w)
      (tryCatch
        (do
          setOnlineCount env n
          pure true)
        fun _ ↦ do
          env.call (.print countSkipped)
          pure false)
      (fun isSet w ↦ BehindLevels done w ∧
        (isSet = true → Between s (lowest n s) (lowest n s) w) ∧
          (isSet = false → Printed [] countSkipped w))
      fun _ _ ↦ True := by
  have hstable : Stable (BehindLevels done) [.cpuRead, .cpuWrite, .script] [] :=
    stable_behindLevels (by decide)
  apply triple_tryCatch (E := fun _ ↦ BehindLevels done)
  · apply triple_bind (((between_setOnlineCount hn hns).both
      (hstable.exits.setOnlineCount (by decide) (by decide) n)).conseq
        (fun _ hw ↦ hw) (fun _ _ hw ↦ hw) fun _ _ hw ↦ hw.2)
    intro _
    exact triple_pure _ fun w hw ↦ ⟨hw.2, fun _ ↦ hw.1, fun h ↦ absurd h.symm Bool.false_ne_true⟩
  · intro e
    apply triple_bind (printed_print countSkipped (stable_behindLevels (by decide))
      BehindLevels.within)
    intro _
    exact triple_pure _ fun w hw ↦ ⟨hw.1, fun h ↦ absurd h Bool.false_ne_true, fun _ ↦ hw.2⟩

variable (hlaunch : env.LaunchesAll (ustBenchmarks 5 100))
  (hmodule : env.HasModule defaultCount x)

include hlaunch hmodule

theorem behind_level (done : List (LevelRun s)) (c : ℕ) :
    Triple (fun w ↦ w.online = lowest c s ∧ BehindLevels done w)
    (inFrame (.level c) (doBenchmarks env 5 100))
    (fun data w ↦ ∃ level : LevelRun s, BehindLevels (done ++ [level]) w ∧ level.data = (c, data))
    fun _ _ ↦ True := by
  apply triple_inFrame
  intro w hw
  apply ((ended_doBenchmarks hlaunch hmodule).both
    ((stable_complete done Part.ofBenchmarks Frame.ofBenchmarks).exits.keepsBenchmarks 5 100)).conseq
  · rintro _ rfl
    have hstanding : Standing [] (lowest c s) (LevelRun.stepsOf done) w :=
      ⟨hw.2.within, hw.1, hw.2.accounts⟩
    exact ⟨hstanding.push (.level c), hw.2.complete⟩
  · rintro data w' ⟨⟨passes, k, ⟨hended, hplan, hk, hall⟩, rfl⟩, hcomplete⟩
    refine ⟨⟨c, passes, k, hk, hplan, hended.quiet⟩, ⟨hw.2.within, ?_, ?_⟩, rfl⟩
    · rw [LevelRun.stepsOf_concat]
      exact ⟨hended.standing.accounts.logged, hended.standing.accounts.launches⟩
    · intro level hl
      rw [List.mem_append, List.mem_singleton] at hl
      rcases hl with hl | rfl
      · exact hcomplete level hl
      · exact hall
  · exact fun _ _ _ ↦ trivial

theorem behind_levels (hn : n ≤ s.card) (done : List (LevelRun s)) (allData allAvg : Dict) :
    Triple (fun w ↦ Between s (lowest (n + 1) s) (lowest (n + 1) s) w ∧ BehindLevels done w)
      (levels env (countdown n) allData allAvg)
      (fun result w ↦ ∃ new : List (LevelRun s), (BehindLevels (done ++ new) w ∧
        new.map LevelRun.cpuCount <+: countdown n ∧
          OrPrinted (new.map LevelRun.cpuCount = countdown n) [] countSkipped w) ∧
        result.1 = (new.map LevelRun.data).foldl
          (fun d x ↦ d.set (levelKey x.1) (.list x.2)) allData)
      fun _ _ ↦ True := by
  induction n generalizing done allData allAvg with
  | zero =>
    apply triple_pure
    intro w hw
    refine ⟨[], ⟨?_, List.nil_prefix, .inl rfl⟩, rfl⟩
    rw [List.append_nil]
    exact hw.2
  | succ n ih =>
    rw [countdown_succ, levels]
    apply triple_bind (behind_setOnlineCount (by omega) hn)
    intro isSet
    cases isSet with
    | false =>
      apply triple_pure
      intro w hw
      refine ⟨[], ⟨?_, List.nil_prefix, .inr (hw.2.2 rfl)⟩, rfl⟩
      rw [List.append_nil]
      exact hw.1
    | true =>
      rw [if_pos rfl]
      apply triple_bind (((between_level (by omega) hn 5 100).both
        (behind_level hlaunch hmodule done (n + 1))).conseq ?_ (fun _ _ hw ↦ hw)
          fun _ _ _ ↦ trivial)
      · intro data
        -- the data is that of the level, and the loop goes on behind it
        apply triple_each
        rintro w ⟨hbetween, level, hbehind, hdata⟩
        have hcount : level.cpuCount = n + 1 := congrArg Prod.fst hdata
        apply triple_bind (Q := fun _ w ↦
          Between s (lowest (n + 1) s) (lowest (n + 1) s) w ∧ BehindLevels (done ++ [level]) w)
        · apply (((stable_between _ lowest_subset).exits.averageData (by decide) _).both
            ((@stable_behindLevels s (done ++ [level]) [.script] (by decide)).exits.averageData
              (by decide) _)).conseq
          · rintro _ rfl
            exact ⟨hbetween, hbehind⟩
          · exact fun _ _ hw ↦ hw
          · exact fun _ _ _ ↦ trivial
        intro avgData
        apply (ih (by omega) (done ++ [level]) _ _).conseq (fun _ hw ↦ hw) ?_ fun _ _ he ↦ he
        rintro result w' ⟨new, ⟨hnew, hprefix, hall⟩, hresult⟩
        refine ⟨level :: new, ⟨?_, ?_, ?_⟩, ?_⟩
        · rwa [List.append_assoc, List.singleton_append] at hnew
        · rw [List.map_cons, hcount]
          exact List.cons_prefix_cons.mpr ⟨rfl, hprefix⟩
        · rw [List.map_cons, hcount]
          exact hall.imp_left (congrArg _)
        · rw [hresult, List.map_cons, List.foldl_cons, hdata]
          rfl
      · rintro w ⟨hbehind, hset, -⟩
        have hbetween := hset rfl
        exact ⟨hbetween, Finset.Subset.antisymm hbetween.upper hbetween.lower, hbehind⟩

end Levels

/-! ## The report -/

/-- The averages of some levels, from the data of their passes. -/
def averagesOf (order : KeyOrder) (data : List (ℕ × List Value)) : Dict :=
  data.map fun x ↦ (levelKey x.1, .dict (levelAverages order x))

/-- What `main` writes at its end. -/
def reportOf (order : KeyOrder) (data : List (ℕ × List Value)) (uname : List String) : Value :=
  .dict
    [("data", .dict (data.map fun x ↦ (levelKey x.1, .list x.2))),
     ("average", .dict (averagesOf order data)),
     ("platform", .dict
      ((["system", "node", "release", "version", "machine", "processor"].zip uname).map
        fun p ↦ (p.1, .str p.2)))]

/-- `all_data`, where every level has its own key. -/
theorem foldl_levelKey {data : List (ℕ × List Value)} (h : (data.map Prod.fst).Nodup) :
    data.foldl (fun (d : Dict) x ↦ d.set (levelKey x.1) (.list x.2)) [] =
      data.map fun x ↦ (levelKey x.1, .list x.2) := by
  have hkeys := h.map levelKey_injective
  rw [List.map_map] at hkeys
  have hset := @setAll_of_nodup (data.map fun x ↦ (levelKey x.1, .list x.2)) (by
    rw [List.map_map]
    exact hkeys)
  rwa [setAll, List.foldl_map] at hset

theorem levelEntry_injective :
    Function.Injective fun x : ℕ × List Value ↦ (levelKey x.1, Value.list x.2) := by
  intro x y h
  obtain ⟨hkey, hlist⟩ := Prod.mk.inj h
  exact Prod.ext (levelKey_injective hkey) (Value.list.inj hlist)

/-- The results of the loop of `main`, for levels that all are different. -/
theorem run_levels_results {env : Env} {counts : List ℕ} {w w' : World} {result : Dict × Dict}
    {data : List (ℕ × List Value)} (hnd : counts.Nodup)
    (hrun : run (levels env counts [] []) w = (.ok result, w'))
    (hdata : data.map Prod.fst <+: counts)
    (hresult : result.1 = data.foldl (fun (d : Dict) x ↦ d.set (levelKey x.1) (.list x.2)) []) :
    ∃ order, result.1 = (data.map fun x ↦ (levelKey x.1, .list x.2)) ∧
      result.2 = averagesOf order data := by
  obtain ⟨order, data', hdata', -, havg, hresult'⟩ := run_levels_aggregate hnd hrun
  have hnd' := hnd.sublist hdata'.sublist
  rw [foldl_levelKey (hnd.sublist hdata.sublist)] at hresult
  rw [foldl_levelKey hnd', hresult] at hresult'
  -- the data determine the levels
  rw [← levelEntry_injective.list_map hresult', aggregate_eq (hnd.sublist hdata.sublist)] at havg
  exact ⟨order, hresult, havg⟩

theorem files_writeJs {env : Env} {data : Value} {filename : String} {w w' : World}
    (h : run (writeJs env data filename) w = (.ok (), w')) :
    w'.files = (filename, env.pformat data ++ "\n") :: w.files := by
  unfold writeJs at h
  rw [run_call] at h
  obtain ⟨hr, rfl⟩ := Prod.mk.injEq .. ▸ h
  rw [hr]
  rfl

/-- When `main` returns, what it has written last are the averages and the report of levels that it
has gone through: every entry of the data is that of a pass made on the CPUs of its level, with its
own steps of the log.  These come in the order of the data, and every run of the tool is among them.
Levels and kernel passes are missing only at the end, and only if the script has said so. -/
theorem main_reports {env : Env} {defaultCount : ℕ} {x : Option ℕ}
    (hlaunch : env.LaunchesAll (ustBenchmarks 5 100)) (hmodule : env.HasModule defaultCount x)
    {w w' : World} (hlog : w.log = []) (hwithin : w.within = [])
    (hrun : run (main env) w = (.ok (), w')) :
    ∃ (levels : List (LevelRun w.online)) (order : KeyOrder) (uname : List String),
      levels.map LevelRun.cpuCount <+: countdown w.online.card ∧
      OrPrinted (levels.map LevelRun.cpuCount = countdown w.online.card) [] countSkipped w' ∧
      (∀ level ∈ levels, level.Complete w') ∧
      Accounts (LevelRun.stepsOf levels) w' ∧
      (jsOut, env.pformat (reportOf order (levels.map LevelRun.data) uname) ++ "\n") ::
        ((flattenDict (.dict (averagesOf order (levels.map LevelRun.data)))).map
          (propertiesFile env propsDir)).reverse <+: w'.files := by
  obtain ⟨n, w₁, hcount, hrun⟩ := run_bind_eq_ok hrun
  obtain ⟨⟨allData, allAvg⟩, w₂, hlevels, hrun⟩ := run_bind_eq_ok hrun
  obtain ⟨uname, w₃, huname, hrun⟩ := run_bind_eq_ok hrun
  obtain ⟨_, w₄, hprops, hjs⟩ := run_bind_eq_ok hrun
  have hbegin : BehindLevels ([] : List (LevelRun w.online)) w := by
    refine ⟨hwithin, ?_, fun _ h ↦ absurd h List.not_mem_nil⟩
    have haccounts := accounts_log w
    rwa [hlog] at haccounts
  have hstart := (triple_onlineCount (E := fun _ _ ↦ True)
    (P := fun v ↦ Between w.online w.online w.online v ∧
      BehindLevels ([] : List (LevelRun w.online)) v) (m := w.online.card)
    (fun v r hv ↦ ⟨hv.1.after subset_rfl _ r nofun,
      (@stable_behindLevels _ [] [.cpuRead] (by decide)).step (s := .readCpuFile .online) r
        List.mem_cons_self hv.2⟩)
    (fun v hv ↦ by rw [Finset.Subset.antisymm hv.1.upper hv.1.lower])
    fun _ _ _ _ ↦ trivial).of_ok ⟨between_start hlog hwithin, hbegin⟩ hcount
  obtain ⟨hw₁, rfl⟩ := hstart
  have hall : lowest (w.online.card + 1) w.online = w.online := lowest_eq_self (Nat.le_succ _)
  obtain ⟨levels, ⟨hbehind, hprefix, hprinted⟩, hdata⟩ :=
    (behind_levels hlaunch hmodule le_rfl [] [] []).of_ok (by rwa [hall]) hlevels
  have hkeys : (levels.map LevelRun.data).map Prod.fst = levels.map LevelRun.cpuCount :=
    List.map_map
  obtain ⟨order, hresults, havg⟩ := run_levels_results (nodup_countdown _) hlevels
    (by rwa [hkeys]) hdata
  -- what is behind the levels runs no tool, and leaves the messages where they are
  have hstable : Stable (fun v ↦ BehindLevels levels v ∧
      OrPrinted (levels.map LevelRun.cpuCount = countdown w.online.card) [] countSkipped v)
      [.script] [] := stable_and (stable_behindLevels (by decide)) (stable_orPrinted _ _ _ _ _)
  have hend₃ := (hstable.call (p := .script) (by decide) (by rfl)).of_ok ⟨hbehind, hprinted⟩ huname
  have hend₄ := (hstable.exits.writePlotProperties (by decide) _ _).of_ok hend₃ hprops
  have hend := (hstable.call (p := .script) (by decide) (by rfl)).of_ok hend₄ hjs
  refine ⟨levels, order, uname, hprefix, hend.2, hend.1.complete, hend.1.accounts, w₃.files, ?_⟩
  rw [files_writeJs hjs, files_writePlotProperties hprops, List.cons_append]
  dsimp only at hresults havg
  rw [hresults, havg]
  rfl

/-! ## A run on one CPU -/

/-- All goes well, and the tool is always told to loop, or never. -/
def Env.serving (looped : Bool) : Env := .of fun _ s ↦
  match s with
  | .checkOutput _ => .ok (sampleOutput looped)
  | s => goodReply s

def servedReports (looped : Bool) : Json := .arr [jsonReport (sampleReport looped)]

theorem readable_sampleReport (looped : Bool) : Readable (sampleReport looped) := by
  cases looped with
  | false =>
    exact Workload.Launch.readable_report (@ofBenchmark_sample false ["basic-benchmark"] rfl)
      (0 : Fin 1)
  | true =>
    exact Workload.Launch.readable_report (@ofBenchmark_sample true ["basic-benchmark", "1"] rfl)
      (0 : Fin 1)

theorem obliging_serving (looped : Bool) :
    (Env.serving looped).Obliging (servedReports looped) where
  reply w s hs := by
    cases s
    case checkOutput args =>
      refine ⟨_, rfl, jsonLoads_document ?_⟩
      intro r hr
      rw [List.mem_singleton.mp hr]
      exact readable_sampleReport looped
    case handle d => exact ⟨true, rfl, rfl⟩
    case destroy | createSnapshot | enableChannel | enableEvent | start | stop =>
      exact ⟨0, rfl, le_refl (0 : ℤ)⟩
    all_goals exact ⟨_, rfl, trivial⟩

theorem ustResult_served (b : Benchmark) (hl : b.nrLoops ≠ some 0) (ht : b.tpPerLoop ≠ 0) :
    ∃ v, ustResult b (servedReports b.nrLoops.isSome) (servedReports b.nrLoops.isSome)
      (servedReports b.nrLoops.isSome) = .ok v := by
  cases hb : b.nrLoops with
  | some n => exact ustResult_sample b hl ht
  | none =>
    have hitem : item (servedReports false) 0 = .ok (jsonReport (sampleReport false)) := rfl
    have hdiff : difference (jsonReport (sampleReport false)) "main" "exec" = .ok 1 := by
      have hexec : member (jsonReport (sampleReport false)) "exec" =
          .ok (.num ((1 : ℤ) + (0 : ℤ) / 10 ^ 9)) := rfl
      have hmain : member (jsonReport (sampleReport false)) "main" =
          .ok (.num ((2 : ℤ) + (0 : ℤ) / 10 ^ 9)) := rfl
      rw [difference, hmain, hexec]
      show Except.ok _ = _
      norm_num
    have hlen : len (servedReports false) = .ok 1 := rfl
    have hadd : Sums.add none (servedReports false) (servedReports false) (servedReports false)
        {} 0 = .ok ⟨1, 1, 0, 1, 0, 0, 0, 0⟩ := by
      simp [Sums.add, hitem, hdiff, bind, Except.bind, pure, Except.pure]
    simp [ustResult, hb, hlen, hadd, runTimes, div, bind, Except.bind, pure, Except.pure]

/-- What LTTng and the tool answer to a pass is all that it depends on. -/
structure Env.Agree (env env' : Env) (args : List String) : Prop where
  lttng : ∀ s, s.part = .lttng ∨ s.part = .activation → env.call s = env'.call s
  output : env.call (.checkOutput (runnerBin :: args)) =
    env'.call (.checkOutput (runnerBin :: args))
  strerror : env.strerror = env'.strerror

section OneCpu

variable {E : Exc → World → Prop}

theorem Env.Agree.runBenchmarkTool {env env' : Env} {args : List String} (h : env.Agree env' args)
    (withUst : Bool) : runBenchmarkTool env args withUst = runBenchmarkTool env' args withUst := by
  have hraise : raiseIfNegative env = raiseIfNegative env' := by
    funext ret
    rw [raiseIfNegative, raiseIfNegative, h.strerror]
  have henable : enableEvent env = enableEvent env' := by
    funext name
    rw [enableEvent, enableEvent, h.lttng (.enableEvent name) (.inl rfl), hraise]
  have hprepare : ∀ names d, lttngPrepare env names d = lttngPrepare env' names d := by
    intro names d
    rw [lttngPrepare, lttngPrepare, h.lttng .sessionDaemonAlive (.inl rfl),
      h.lttng .launchSessiond (.inl rfl), h.lttng .destroy (.inl rfl),
      h.lttng .createSnapshot (.inl rfl), h.lttng (.channelSetDefaultAttr d) (.inl rfl),
      h.lttng (.handle d) (.inl rfl), h.lttng .enableChannel (.inl rfl), hraise, henable]
  have hstart : ∀ names d, lttngStart env names d = lttngStart env' names d := by
    intro names d
    rw [lttngStart, lttngStart, hprepare, h.lttng .start (.inr rfl), hraise]
  have hstop : lttngStop env = lttngStop env' := by
    rw [lttngStop, lttngStop, h.lttng .stop (.inl rfl), h.lttng .destroy (.inl rfl), hraise]
  rw [Driver.runBenchmarkTool, Driver.runBenchmarkTool, hstart, h.output, hstop]

variable {eventCount : ℕ}

theorem doUstBenchmark_counting {b : Benchmark} {base ust : String} (hbase : b.baseline = [base])
    (hust : b.ust = [ust]) : doUstBenchmark (.counting eventCount) b =
      doUstBenchmark (.serving b.nrLoops.isSome) b := by
  have hagree : ∀ program : String, (Env.counting eventCount).Agree (.serving b.nrLoops.isSome)
      ([program] ++ b.args) := by
    intro program
    refine ⟨?_, ?_, rfl⟩
    · intro s hs
      cases s
      all_goals first | rfl | (rcases hs with hs | hs <;> cases hs)
    · have hlen :
          decide (2 < (runnerBin :: ([program] ++ b.args)).length) = b.nrLoops.isSome := by
        unfold Benchmark.args
        cases b.nrLoops <;> rfl
      rw [← hlen]
      rfl
  rw [doUstBenchmark, doUstBenchmark, hbase, hust, (hagree base).runBenchmarkTool,
    (hagree ust).runBenchmarkTool, (hagree ust).runBenchmarkTool]
  rfl

theorem returns_counting {s : Step} (hs : s.part = .script) :
    Triple (fun _ ↦ True) ((Env.counting eventCount).call s) (fun _ _ ↦ True) E := by
  apply triple_call
  · exact fun _ _ _ _ ↦ trivial
  · intro w e _ he
    cases s
    all_goals first | cases he | cases hs

theorem returns_kernelPasses_counting (n : ℕ) (data : List Value) :
    Triple (fun _ ↦ True) (kernelPasses (.counting eventCount) n data) (fun _ _ ↦ True) E := by
  induction n generalizing data with
  | zero => exact triple_keep _
  | succ n ih =>
    apply triple_bind (Q := fun _ _ ↦ True)
    · apply triple_tryCatch (keeps_true _)
      exact fun _ ↦ triple_bind (returns_counting rfl) fun _ ↦ triple_keep _
    · intro result
      cases result with
      | none => exact triple_keep _
      | some result => exact ih _

theorem returns_doBenchmarks_counting :
    Triple (fun w ↦ w.active = false) (doBenchmarks (.counting eventCount) 5 100)
      (fun _ _ ↦ True) E := by
  have hserved : ∀ p ∈ ustBenchmarks 5 100, doUstBenchmark (.counting eventCount) p.2.1 =
      doUstBenchmark (.serving p.2.1.nrLoops.isSome) p.2.1 ∧
        p.2.1.nrLoops ≠ some 0 ∧ p.2.1.tpPerLoop ≠ 0 := by
    simp only [ustBenchmarks, List.forall_mem_cons, List.not_mem_nil, false_imp_iff, implies_true,
      and_true]
    refine ⟨?_, ?_, ?_, ?_, ?_, ?_⟩
    all_goals exact ⟨doUstBenchmark_counting rfl rfl, by decide, by decide⟩
  apply triple_passes (P := fun _ w ↦ w.active = false)
  · intro p hp _
    obtain ⟨hb, hl, ht⟩ := hserved p hp
    rw [hb]
    exact returns_doUstBenchmark (obliging_serving _) (ustResult_served p.2.1 hl ht)
  · exact fun data ↦ (returns_kernelPasses_counting 5 data).conseq (fun _ _ ↦ trivial)
      (fun _ _ hw ↦ hw) fun _ _ he ↦ he

/-- The one level goes through, and `main` returns. -/
theorem returns_main_counting : Triple (fun w ↦ w.online = {0} ∧ w.active = false)
    (main (.counting eventCount)) (fun _ _ ↦ True) fun _ _ ↦ False := by
  apply triple_bind (triple_onlineCount (m := 1)
    (fun w _ hw ↦ ⟨by rw [World.after_online (by nofun), hw.1],
      by rw [World.after_active (by nofun) (by nofun), hw.2]⟩)
    (fun _ hw ↦ by rw [hw.1]; rfl) (fun _ _ _ he ↦ by cases he))
  intro n
  apply triple_assume
  rintro rfl
  apply triple_bind (Q := fun _ _ ↦ True)
  · rw [countdown_succ, levels]
    apply triple_bind (returns_setLevel (x := {0}) (fun _ _ _ ↦ rfl) (fun _ _ ↦ rfl)
      (stable_active false [] (by decide) (by decide)) le_rfl le_rfl _)
    intro isSet
    apply triple_assume
    rintro rfl
    rw [if_pos rfl]
    apply triple_bind (Q := fun _ _ ↦ True)
    · apply triple_inFrame
      intro w hw
      apply returns_doBenchmarks_counting.conseq
      · rintro _ rfl
        exact hw.2
      · exact fun _ _ _ ↦ trivial
      · exact fun _ _ he ↦ he
    intro data
    apply triple_bind (Q := fun _ _ ↦ True)
    · exact triple_bind (returns_counting rfl) fun _ ↦ triple_bind (triple_keys _) fun _ ↦
        triple_keep _
    · exact fun _ ↦ triple_keep _
  rintro ⟨allData, allAvg⟩
  apply triple_bind (returns_counting rfl)
  intro uname
  apply triple_bind (Q := fun _ _ ↦ True)
  · exact triple_bind (returns_counting rfl) fun _ ↦
      triple_forEach fun _ _ ↦ returns_counting rfl
  · exact fun _ ↦ returns_counting rfl

end OneCpu

theorem launchesAll_counting (eventCount : ℕ) :
    (Env.counting eventCount).LaunchesAll (ustBenchmarks 5 100) := by
  have hlaunches := fun looped args ↦ @launches_sample (.counting eventCount) looped args
  unfold ustBenchmarks Env.LaunchesAll
  simp only [List.forall_mem_cons, List.not_mem_nil, false_imp_iff, implies_true, and_true]
  refine ⟨?_, ?_, ?_, ?_, ?_, ?_⟩
  all_goals first
    | exact ⟨hlaunches true _ (fun _ ↦ rfl) rfl, hlaunches true _ (fun _ ↦ rfl) rfl⟩
    | exact ⟨hlaunches false _ (fun _ ↦ rfl) rfl, hlaunches false _ (fun _ ↦ rfl) rfl⟩

theorem main_reports_oneCpu :
    ∃ w', run (main (.counting 1000000)) oneCpuWorld = (.ok (), w') ∧
      ∃ (levels : List (LevelRun {0})) (order : KeyOrder) (uname : List String),
        levels.map LevelRun.cpuCount <+: countdown 1 ∧
        OrPrinted (levels.map LevelRun.cpuCount = countdown 1) [] countSkipped w' ∧
        (∀ level ∈ levels, level.Complete w') ∧ Accounts (LevelRun.stepsOf levels) w' ∧
        (jsOut, (Env.counting 1000000).pformat
            (reportOf order (levels.map LevelRun.data) uname) ++ "\n") ::
          ((flattenDict (.dict (averagesOf order (levels.map LevelRun.data)))).map
            (propertiesFile (.counting 1000000) propsDir)).reverse <+: w'.files := by
  rcases hr : run (main (.counting 1000000)) oneCpuWorld with ⟨e | u, w'⟩
  · exact (returns_main_counting.of_error ⟨rfl, rfl⟩ hr).elim
  · exact ⟨w', rfl,
      main_reports (launchesAll_counting 1000000) (hasModule_counting 1000000) rfl rfl hr⟩

end UstBench.Driver
