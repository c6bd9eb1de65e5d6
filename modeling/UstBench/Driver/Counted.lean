import UstBench.Driver.Measured
import UstBench.Driver.RunTime
import UstBench.KernelBenchmark.Attributes
import UstBench.KernelBenchmark.Completion

/-!
# What a kernel pass counts

The driver and the kernel module meet in the files of the module: the driver writes a number of
events into one of them as text, and reads from another one the time that a measurement takes.  The
module forgets the number when it is unloaded, and comes with another one when it is loaded.
-/

namespace UstBench.Driver

open Reasoning Reasoning.Prog KernelBenchmark

/-- The `event_count` of the module behind a step, or `none` while the module is not loaded. -/
def moduleAfter (defaultCount : ℕ) (x : Option ℕ) : (s : Step) → Except Exc s.Result → Option ℕ
  | .insmod path, .ok () => if path = mainModule.modPath then some defaultCount else x
  | .rmmod name, .ok () => if name = mainModule.modName then none else x
  | .writeCount n, .ok () => x.map fun eventCount ↦ countStore eventCount (Nat.toDigits 10 n)
  | _, _ => x

/-- The module behind the steps of a log, when it was `x` before the first one. -/
def moduleOf (defaultCount : ℕ) (x : Option ℕ) : List Entry → Option ℕ
  | [] => x
  | e :: log => moduleAfter defaultCount (moduleOf defaultCount x log) e.step e.reply

/-- The files of the module are there while it is loaded, and a read of `time` that is not cut short
gives the time of a measurement on the CPUs that are online. -/
structure Env.HasModule (env : Env) (defaultCount : ℕ) (x : Option ℕ) : Prop where
  writes : ∀ w n, env.reply w (.writeCount n) = .ok () → moduleOf defaultCount x w.log ≠ none
  times : ∀ w text, env.reply w .readTime = .ok text → ∃ b : Setup, b.cpus.Nodup ∧
    b.cpus.toFinset = w.online ∧ moduleOf defaultCount x w.log = some b.eventCount ∧ b.Shows text

/-- The step has read `time`, and what it is the time of: every CPU that is online has fired its
events, the first `n` as far as `n` fits `event_count`. -/
structure Entry.Counts (e : Entry) (c : List Frame) (active : Bool) (cpus : Finset ℕ) (n time : ℕ) :
    Prop where
  logged : e = ⟨.readTime, .ok (showTime time), c, active, cpus⟩
  counts : ∃ b : Setup, b.cpus.toFinset = cpus ∧ b.eventCount = n % 2 ^ 32 ∧
    b.Counts (showTime time)

/-- A kernel pass with the session `active` in front of it: the steps it was measured with, and the
value of their times.  A session is active during the second one. -/
def KernelMeasured (n : ℕ) (c : List Frame) (active : Bool) (cpus : Finset ℕ) (steps : List Entry)
    (v : Value) : Prop :=
  ∃ (e₁ e₂ : Entry) (baseTime tracedTime : ℕ), steps = [e₂, e₁] ∧
    e₁.Counts (.baseRun :: .kernelPass :: c) active cpus n baseTime ∧
    e₂.Counts (.kernelPass :: c) true cpus n tracedTime ∧
    kernelResult n cpus.card (baseTime / 10 ^ 6) (tracedTime / 10 ^ 6) = .ok v

section Pass

variable {env : Env} {defaultCount : ℕ} {x : Option ℕ} {c : List Frame} {cpus : Finset ℕ}
  {steps : List Entry} {active : Bool}

/-- What is left where a measurement raises. -/
def Left (cpus : Finset ℕ) (steps : List Entry) (w : World) : Prop :=
  w.online = cpus ∧ Accounts steps w

theorem Standing.left {w : World} (h : Standing c cpus steps w) : Left cpus steps w :=
  ⟨h.online, h.accounts⟩

/-- A reading that has become useless. -/
theorem Standing.left_of_cons {w : World} {e : Entry} (h : Standing c cpus (e :: steps) w)
    (he : e.step.part ≠ .runner) : Left cpus steps w :=
  ⟨h.online, h.accounts.of_cons he⟩

theorem Entry.Counts.part_ne {e : Entry} {n time : ℕ} (h : e.Counts c active cpus n time) :
    e.step.part ≠ .runner := by
  rw [h.logged]
  nofun

/-- The two invariants of a measurement. -/
theorem stable_counting :
    Stable (fun w ↦ Standing c cpus steps w ∧ w.active = active) [.module] [] :=
  stable_and (stable_standing (by decide) (by decide))
    (stable_active active [] (by decide) (by decide))

/-- A write that returns has found the file, and the module takes the text of the number for the
number. -/
theorem counted_writeCount (hmodule : env.HasModule defaultCount x) (n : ℕ) :
    Triple (fun w ↦ Standing c cpus steps w ∧ w.active = active) (env.call (.writeCount n))
      (fun _ w ↦ (Standing c cpus steps w ∧ w.active = active) ∧
        moduleOf defaultCount x w.log = some (n % 2 ^ 32))
      fun _ ↦ Left cpus steps := by
  apply triple_call
  · intro w _ hw hr
    refine ⟨stable_counting.step (s := .writeCount n) _ List.mem_cons_self hw, ?_⟩
    obtain ⟨eventCount, hcount⟩ := Option.ne_none_iff_exists'.mp (hmodule.writes w n hr)
    show (moduleOf defaultCount x w.log).map _ = _
    rw [hcount, Option.map_some, countStore, ← List.append_nil (Nat.toDigits 10 n),
      sscanfUnsigned_toDigits n (by simp)]
    rfl
  · exact fun w _ hw _ ↦
      (stable_counting.step (s := .writeCount n) _ List.mem_cons_self hw).1.left

/-- What is read is a time, and the measurement of it counts. -/
theorem counted_readTime (hmodule : env.HasModule defaultCount x) (n : ℕ) :
    Triple (fun w ↦ (Standing c cpus steps w ∧ w.active = active) ∧
        moduleOf defaultCount x w.log = some (n % 2 ^ 32)) (env.call .readTime)
      (fun text w ↦ ∃ e time, ((Standing c cpus (e :: steps) w ∧ w.active = active) ∧
        e.Counts c active cpus n time) ∧ text = showTime time)
      fun _ ↦ Left cpus steps := by
  apply triple_call
  · intro w text hw hr
    obtain ⟨b, hnd, hcpus, hcount, hshows⟩ := hmodule.times w text hr
    obtain ⟨time, rfl⟩ : ∃ time, text = showTime time := by
      obtain ⟨_, _, _, time, -, -, -, htext⟩ := hshows
      exact ⟨time, htext⟩
    rw [hw.1.1.online] at hcpus
    rw [hw.2] at hcount
    have hcons := @Standing.cons w .readTime (.ok (showTime time)) _ _ _ hw.1.1 (by nofun)
    rw [hw.1.2] at hcons
    have hactive : (w.after .readTime (.ok (showTime time))).active = active :=
      (World.after_active (by nofun) (by nofun)).trans hw.1.2
    exact ⟨_, time, ⟨⟨hcons, hactive⟩, rfl, b, hcpus, (Option.some.inj hcount).symm,
      hshows.counts hnd⟩, rfl⟩
  · exact fun w _ hw _ ↦ (stable_counting.step (s := .readTime) _ List.mem_cons_self hw.1).1.left

/-- A measurement gives the time of a run in which every CPU fires the events it was asked for:
whatever the count was, and whether or not the module had to be loaded. -/
theorem counted_kernelBenchmark (hmodule : env.HasModule defaultCount x) (n : ℕ) :
    Triple (fun w ↦ Standing c cpus steps w ∧ w.active = active) (kernelBenchmark env n)
      (fun q w ↦ ∃ e time, ((Standing c cpus (e :: steps) w ∧ w.active = active) ∧
        e.Counts c active cpus n time) ∧ q = time / 10 ^ 6)
      fun _ ↦ Left cpus steps := by
  have hexits : Exits env (fun w ↦ Standing c cpus steps w ∧ w.active = active)
      (Left cpus steps) [.module] [] := stable_counting.leaving fun hw ↦ hw.1.left
  unfold kernelBenchmark
  apply triple_bind (hexits.load (by decide) _)
  intro _
  apply triple_bind (hexits.load (by decide) _)
  intro _
  apply triple_bind (counted_writeCount hmodule n)
  intro _
  apply triple_bind_found (counted_readTime hmodule n)
  intro e time he
  rw [float_showTime]
  apply triple_bind (Q := fun (q : ℚ) w ↦
    (Standing c cpus (e :: steps) w ∧ w.active = active) ∧ q = time)
  · exact triple_pure (time : ℚ) fun _ hw ↦ ⟨hw, rfl⟩
  intro q
  apply triple_pure
  rintro w ⟨hw, rfl⟩
  exact ⟨e, time, ⟨hw, he⟩, rfl⟩

theorem counted_baseRun (hmodule : env.HasModule defaultCount x) (n : ℕ) :
    Triple (fun w ↦ Standing c cpus steps w ∧ w.active = active)
      (inFrame .baseRun (kernelBenchmark env n))
      (fun q w ↦ ∃ e time, ((Standing c cpus (e :: steps) w ∧ w.active = active) ∧
        e.Counts (.baseRun :: c) active cpus n time) ∧ q = time / 10 ^ 6)
      fun _ ↦ Left cpus steps := by
  apply triple_inFrame
  intro w hw
  apply Triple.conseq (counted_kernelBenchmark hmodule n)
  · rintro _ rfl
    exact ⟨hw.1.push .baseRun, hw.2⟩
  · rintro q w' ⟨e, time, ⟨⟨hstanding, hactive⟩, he⟩, hq⟩
    exact ⟨e, time, ⟨⟨hstanding.back hw.1.within, hactive⟩, he⟩, hq⟩
  · exact fun _ _ hw' ↦ ⟨hw'.1, hw'.2.logged, hw'.2.launches⟩

theorem measured_doKernelBenchmark (hmodule : env.HasModule defaultCount x) (n : ℕ) :
    Triple (fun w ↦ Standing c cpus steps w ∧ w.active = active) (doKernelBenchmark env n)
      (fun v w ↦ ∃ new, (Standing c cpus (new ++ steps) w ∧ w.active = false) ∧
        KernelMeasured n c active cpus new v)
      fun _ ↦ Standing c cpus steps := by
  apply triple_inFrame
  intro w₀ hw₀
  apply Triple.conseq (E := fun _ ↦ Left cpus steps)
    (P := fun w ↦ Standing (.kernelPass :: c) cpus steps w ∧ w.active = active) ?_
    (by rintro _ rfl; exact ⟨hw₀.1.push .kernelPass, hw₀.2⟩) (fun _ _ hq ↦ hq)
    fun _ _ hw ↦ ⟨hw₀.1.within, hw.1, hw.2.logged, hw.2.launches⟩
  apply triple_bind_found (counted_baseRun hmodule n)
  intro e₁ baseTime h₁
  -- from here on the first time counts, and behind the second measurement both do
  have hbase : Stable (Standing (.kernelPass :: c) cpus (e₁ :: steps))
      [.lttng, .activation, .module] [] := stable_standing (by decide) (by decide)
  have hexits : Exits env _ (Left cpus steps) _ [] :=
    hbase.leaving fun hw ↦ hw.left_of_cons h₁.part_ne
  apply triple_bind ((hexits.events (by decide)).conseq (fun _ hw ↦ hw.1) (fun _ _ hw ↦ hw)
    fun _ _ hw ↦ hw)
  intro names
  apply triple_bind (((hexits.lttngStart (by decide) (by decide) names .kernel).both
    (active_lttngStart names .kernel)).conseq (fun _ hw ↦ ⟨hw, trivial⟩) (fun _ _ hw ↦ hw)
    fun _ _ hw ↦ hw.1)
  intro _
  have htraced := @counted_kernelBenchmark env _ _ (.kernelPass :: c) cpus (e₁ :: steps) true
    hmodule n
  apply triple_bind_found (htraced.conseq (fun _ hw ↦ hw) (fun _ _ hw ↦ hw)
    fun _ _ hw ↦ ⟨hw.1, hw.2.of_cons h₁.part_ne⟩)
  intro e₂ tracedTime h₂
  have hleft : ∀ {w}, Standing (.kernelPass :: c) cpus (e₂ :: e₁ :: steps) w → Left cpus steps w :=
    fun hw ↦ ⟨hw.online, (hw.accounts.of_cons h₂.part_ne).of_cons h₁.part_ne⟩
  have hboth : Stable (Standing (.kernelPass :: c) cpus (e₂ :: e₁ :: steps)) [.lttng] [] :=
    stable_standing (by decide) (by decide)
  apply triple_bind (((hboth.leaving hleft).lttngStop (by decide)).both inactive_lttngStop
    |>.conseq (fun _ hw ↦ ⟨hw.1, trivial⟩) (fun _ _ hw ↦ hw) fun _ _ hw ↦ hw.1)
  intro _
  have hend : Stable (fun w ↦ Standing (.kernelPass :: c) cpus (e₂ :: e₁ :: steps) w ∧
      w.active = false) [.cpuRead, .script] [] :=
    stable_and (stable_standing (by decide) (by decide))
      (stable_active false [] (by decide) (by decide))
  apply triple_bind (triple_onlineCount (m := cpus.card)
    (fun _ r hw ↦ hend.step (s := .readCpuFile .online) r (by decide) hw)
    (fun _ hw ↦ by rw [hw.1.online])
    fun _ e hw _ ↦ hleft (hend.step (s := .readCpuFile .online) (.error e) (by decide) hw).1)
  intro cpuCount
  apply triple_assume
  rintro rfl
  apply triple_bind ((hend.leaving fun hw ↦ hleft hw.1).call (p := .script) (by decide) (by rfl))
  intro _
  apply triple_ofExcept_eq
  · intro v hv w hw
    exact ⟨[e₂, e₁], ⟨hw.1.back hw₀.1.within, hw.2⟩, e₁, e₂, baseTime, tracedTime, rfl, h₁, h₂, hv⟩
  · exact fun _ _ hw ↦ hleft hw.1

end Pass

/-- When `do_kernel_benchmark` returns, its two times are those of measurements since its start in
which every CPU fired exactly the events it asked the module for, the second one with the session
active, and the value is that of the two times. -/
theorem doKernelBenchmark_measures {env : Env} {defaultCount : ℕ} {x : Option ℕ}
    (hmodule : env.HasModule defaultCount x) {n : ℕ} {w w' : World} {v : Value}
    (h : run (doKernelBenchmark env n) w = (.ok v, w')) :
    ∃ steps, KernelMeasured n w.within w.active w.online steps v ∧ Accounts (steps ++ w.log) w' ∧
      w'.active = false := by
  obtain ⟨steps, ⟨hstanding, hactive⟩, hmeasured⟩ := (measured_doKernelBenchmark hmodule n).of_ok
    ⟨⟨rfl, rfl, accounts_log w⟩, rfl⟩ h
  exact ⟨steps, hmeasured, hstanding.accounts, hactive⟩

/-- One CPU that takes five microseconds for its events. -/
def fiveMicros (eventCount : ℕ) : Setup := ⟨[0], eventCount, fun _ ↦ ⟨0, 0⟩, fun _ ↦ ⟨0, 5⟩⟩

theorem shows_fiveMicros (eventCount : ℕ) : (fiveMicros eventCount).Shows (showTime 5) := by
  have hlt : ∀ cpu ∈ (fiveMicros eventCount).cpus, cpu < (fiveMicros eventCount).cpus.length :=
    fun cpu hcpu ↦ List.mem_singleton.mp hcpu ▸ Nat.zero_lt_one
  have hnd : (fiveMicros eventCount).cpus.Nodup := List.nodup_singleton 0
  have hlive := live_initial (fiveMicros eventCount) fun _ ↦ ⟨false, 0, 0⟩
  obtain ⟨as, s, time, -, hu, hr, hret⟩ := hlive.completes hlt hnd
  have hok := (hlive.left_execute hlt hnd hu hr).1.inv.reader
  unfold ReaderOk at hok
  rw [hret] at hok
  have htime : time = 5 := hok.trans (show (elapsed ⟨0, 0⟩ ⟨0, 5⟩ + 0) % 2 ^ 64 = 5 by decide)
  exact ⟨_, as, s, 5, hu, hr, htime ▸ hret, rfl⟩

/-- The module is loaded, and is measured with so many events on one CPU. -/
def Env.counting (eventCount : ℕ) : Env := .of fun w s ↦
  match s with
  | .writeCount _ => if moduleOf 1000 (some 1000) w.log = none then .error .osError else .ok ()
  | .readTime =>
    if moduleOf 1000 (some 1000) w.log = some eventCount ∧ w.online = {0} then .ok (showTime 5)
    else .error .osError
  | .checkOutput args => .ok (sampleOutput (2 < args.length))
  | s => goodReply s

theorem hasModule_counting (eventCount : ℕ) :
    (Env.counting eventCount).HasModule 1000 (some 1000) where
  writes w n hr hnone := by
    have herror : (Env.counting eventCount).reply w (.writeCount n) = .error .osError :=
      if_pos hnone
    rw [herror] at hr
    cases hr
  times w text hr := by
    by_cases hw : moduleOf 1000 (some 1000) w.log = some eventCount ∧ w.online = {0}
    · have hok : (Env.counting eventCount).reply w .readTime = .ok (showTime 5) := if_pos hw
      rw [hok] at hr
      cases hr
      exact ⟨fiveMicros eventCount, List.nodup_singleton 0, hw.2.symm, hw.1,
        shows_fiveMicros eventCount⟩
    · have herror : (Env.counting eventCount).reply w .readTime = .error .osError := if_neg hw
      rw [herror] at hr
      cases hr

/-- A machine with one CPU, at the start of a kernel pass. -/
def oneCpuWorld : World := ⟨{0}, {0}, subset_rfl, false, [], []⟩

theorem doKernelBenchmark_measures_three :
    ∃ v w', run (doKernelBenchmark (.counting 3) 3) oneCpuWorld = (.ok v, w') ∧
      ∃ steps, KernelMeasured 3 [] false {0} steps v ∧ Accounts steps w' ∧ w'.active = false := by
  have hok : (run (doKernelBenchmark (.counting 3) 3) oneCpuWorld).1.toOption.isSome = true := by
    decide +kernel
  rcases hr : run (doKernelBenchmark (.counting 3) 3) oneCpuWorld with ⟨e | v, w'⟩
  · rw [hr] at hok
    exact absurd hok Bool.false_ne_true
  · obtain ⟨steps, hmeasured, haccounts, hactive⟩ :=
      doKernelBenchmark_measures (hasModule_counting 3) hr
    rw [show oneCpuWorld.log = [] by rfl, List.append_nil] at haccounts
    exact ⟨v, w', rfl, steps, hmeasured, haccounts, hactive⟩

end UstBench.Driver
