import UstBench.Driver.Passes

/-!
# Untraced measurements

The measurements that `do_ust_benchmark` and `do_kernel_benchmark` compare tracing with must be
taken without an active session.  A failure inside a traced UST pass ends `main`; a failure inside a
traced kernel pass is swallowed with the session active, and the next level measures under it.
-/

namespace UstBench.Driver

open Reasoning Reasoning.Prog

/-- A launch of the runner with `with_ust = False`, or a step of a `base_run`. -/
def Frame.Untraced (f : Frame) : Prop := f = .runner false ∨ f = .baseRun

def Entry.Untraced (e : Entry) : Prop := ∃ f ∈ e.within, f.Untraced

/-- The replies that make the caller raise. -/
def Step.Fails : (s : Step) → Except Exc s.Result → Prop
  | _, .error _ => True
  | .stop, .ok ret => ret < 0
  | .readTime, .ok text => Python.float (Python.rstrip text) = none
  | _, _ => False

/-- No step of a kernel pass fails while its session is active, except at the last level. -/
def Entry.KernelOk (e : Entry) : Prop :=
  .kernelPass ∈ e.within → .level 1 ∉ e.within → e.active = true → ¬e.step.Fails e.reply

namespace World

def KernelOk (w : World) : Prop := ∀ e ∈ w.log, e.KernelOk

/-- No untraced measurement so far had the session active, if the kernel passes went well. -/
def Clean (w : World) : Prop := w.KernelOk → ∀ e ∈ w.log, e.Untraced → e.active = false

/-- The session is not active, if the kernel passes went well. -/
def Quiet (w : World) : Prop := w.KernelOk → w.active = false

/-- The last step failed, and left the session as it was. -/
def JustFailed (w : World) : Prop :=
  ∃ e l, w.log = e :: l ∧ e.step.Fails e.reply ∧ e.active = w.active ∧ e.within = w.within

variable {w : World} {s : Step} {r : Except Exc s.Result}

theorem KernelOk.of_after (h : (w.after s r).KernelOk) : w.KernelOk :=
  fun e he ↦ h e (List.mem_cons_of_mem _ he)

theorem Quiet.after (h : w.Quiet) (hs : s.part ≠ .activation) : (w.after s r).Quiet :=
  fun hk ↦ after_inactive hs (h hk.of_after)

/-- A step is clean when the session is not active or no untraced measurement is going on. -/
theorem Clean.after (h : w.Clean) (hw : w.Quiet ∨ ∀ f ∈ w.within, ¬f.Untraced) :
    (w.after s r).Clean := by
  intro hk e he hu
  rw [after_log, List.mem_cons] at he
  rcases he with rfl | he
  · rcases hw with hq | hn
    · exact hq hk.of_after
    · rcases hu with ⟨f, hf, huf⟩
      exact absurd huf (hn f hf)
  · exact h hk.of_after e he hu

/-- A failure in a kernel pass above the last level is excluded unless the session is off. -/
theorem JustFailed.inactive (h : w.JustFailed) (hp : .kernelPass ∈ w.within)
    (hl : .level 1 ∉ w.within) (hk : w.KernelOk) : w.active = false := by
  rcases h with ⟨e, l, hlog, hf, ha, hin⟩
  have he := hk e (by rw [hlog]; exact List.mem_cons_self)
  unfold Entry.KernelOk at he
  rw [hin, ha] at he
  cases hact : w.active with
  | false => rfl
  | true => exact absurd hf (he hp hl hact)

theorem justFailed_after (hf : s.Fails r) (ha : (w.after s r).active = w.active) :
    (w.after s r).JustFailed :=
  ⟨_, _, after_log, hf, ha.symm, after_within.symm⟩

end World

/-! ## The states between the steps -/

variable {env : Env} {c : List Frame} {n : ℕ}

/-- No session is active; `c` is the stack of calls. -/
structure Calm (c : List Frame) (w : World) : Prop where
  within : w.within = c
  clean : w.Clean
  quiet : w.Quiet

/-- A session may be active. -/
structure Open (c : List Frame) (w : World) : Prop where
  within : w.within = c
  clean : w.Clean

/-- Behind a kernel pass that may have been swallowed. -/
structure Swallowed (c : List Frame) (w : World) : Prop where
  within : w.within = c
  clean : w.Clean
  quiet : .level 1 ∉ c → w.Quiet

theorem Calm.open {w : World} (h : Calm c w) : Open c w := ⟨h.within, h.clean⟩

theorem Swallowed.open {w : World} (h : Swallowed c w) : Open c w := ⟨h.within, h.clean⟩

theorem Calm.swallowed {w : World} (h : Calm c w) : Swallowed c w :=
  ⟨h.within, h.clean, fun _ ↦ h.quiet⟩

theorem Calm.after {w : World} {s : Step} (h : Calm c w) (r : Except Exc s.Result)
    (hs : s.part ≠ .activation) : Calm c (w.after s r) :=
  ⟨by rw [World.after_within, h.within], h.clean.after (.inl h.quiet), h.quiet.after hs⟩

theorem Open.after {w : World} {s : Step} (h : Open c w) (hc : ∀ f ∈ c, ¬f.Untraced)
    (r : Except Exc s.Result) : Open c (w.after s r) :=
  ⟨by rw [World.after_within, h.within], h.clean.after (.inr (h.within ▸ hc))⟩

theorem Swallowed.after {w : World} {s : Step} (h : Swallowed c w) (hc : ∀ f ∈ c, ¬f.Untraced)
    (r : Except Exc s.Result) (hs : s.part ≠ .activation) : Swallowed c (w.after s r) :=
  ⟨by rw [World.after_within, h.within], h.clean.after (.inr (h.within ▸ hc)),
    fun hl ↦ (h.quiet hl).after hs⟩

/-- All parts but the call that activates the session. -/
def Part.passive : List Part := [.lttng, .runner, .module, .cpuRead, .cpuWrite, .script]

theorem stable_calm : Stable (Calm c) Part.passive [] where
  step r hs h := h.after r fun he ↦ by
    rw [he] at hs
    revert hs
    decide
  push _ hf := by cases hf
  back hne := absurd rfl hne

theorem stable_open (hc : ∀ f ∈ c, ¬f.Untraced) : Stable (Open c) (.activation :: Part.passive) []
    where
  step r _ h := h.after hc r
  push _ hf := by cases hf
  back hne := absurd rfl hne

-- a call whose body starts from `Calm` with its own frame on the stack
theorem triple_inFrame_calm {α : Type} {f : Frame} {m : Prog World Exc α} {Q : α → World → Prop}
    {E : Exc → World → Prop}
    (h : Triple (Calm (f :: c)) m (fun a w ↦ Q a { w with within := c })
      fun e w ↦ E e { w with within := c }) :
    Triple (Calm c) (inFrame f m) Q E := by
  apply triple_inFrame
  intro w hw
  apply h.conseq
  · rintro _ rfl
    exact ⟨by rw [World.push_within, hw.within], hw.clean, hw.quiet⟩
  · intro a w' hq
    rw [World.back, hw.within]
    exact hq
  · intro e w' hq
    rw [World.back, hw.within]
    exact hq

/-! ## LTTng -/

theorem triple_lttngStart (hc : ∀ f ∈ c, ¬f.Untraced) (names : List String) (d : Domain) :
    Triple (Calm c) (lttngStart env names d) (fun _ ↦ Open c) fun _ ↦ Calm c := by
  unfold lttngStart
  apply triple_bind (stable_calm.exits.lttngPrepare (by decide) names d)
  intro _
  apply triple_bind (Q := fun ret w ↦ Open c w ∧ (ret < 0 → w.Quiet))
  · apply triple_call
    · intro w ret hw _
      refine ⟨hw.open.after hc _, fun hret hk ↦ ?_⟩
      change (w.active || decide (0 ≤ ret)) = false
      rw [hw.quiet hk.of_after, Bool.false_or]
      exact decide_eq_false (not_le.mpr hret)
    · exact fun w e hw _ ↦ ⟨by rw [World.after_within, hw.within],
        hw.clean.after (.inl hw.quiet), fun hk ↦ hw.quiet hk.of_after⟩
  · intro ret
    apply triple_when
    · exact fun hret ↦ triple_throw _ fun w hw ↦ ⟨hw.1.within, hw.1.clean, hw.2 hret⟩
    · exact fun _ w hw ↦ hw.1

/-- When `lttng_stop` raises, the session is off or the last step was the failed `lttng.stop`. -/
theorem triple_lttngStop (hc : ∀ f ∈ c, ¬f.Untraced) :
    Triple (Open c) (lttngStop env) (fun _ ↦ Calm c)
      fun _ w ↦ Open c w ∧ (w.Quiet ∨ w.JustFailed) := by
  have hcalm : ∀ {w}, Calm c w → Open c w ∧ (w.Quiet ∨ w.JustFailed) :=
    fun hw ↦ ⟨hw.open, .inl hw.quiet⟩
  unfold lttngStop
  apply triple_bind (Q := fun ret w ↦
    Open c w ∧ (ret < 0 → w.JustFailed) ∧ (¬ret < 0 → w.Quiet))
  · apply triple_call
    · intro w ret hw _
      refine ⟨hw.after hc _, fun hret ↦ World.justFailed_after hret ?_, fun hret _ ↦ ?_⟩
      · change (w.active && decide (ret < 0)) = w.active
        rw [decide_eq_true hret, Bool.and_true]
      · change (w.active && decide (ret < 0)) = false
        rw [decide_eq_false hret, Bool.and_false]
    · exact fun w e hw _ ↦ ⟨hw.after hc _, .inr (World.justFailed_after trivial rfl)⟩
  intro ret
  apply triple_bind (Q := fun _ ↦ Calm c)
  · -- a negative return raises at once, with the session as it was
    apply triple_when
    · exact fun hret ↦ triple_throw _ fun w hw ↦ ⟨hw.1, .inr (hw.2.1 hret)⟩
    · exact fun hret w hw ↦ ⟨hw.1.within, hw.1.clean, hw.2.2 hret⟩
  intro _
  -- once stopped, the session is not started again by what destroys it
  have hdestroy : Keeps (Calm c) (do
      let ret ← env.call .destroy
      raiseIfNegative env ret) :=
    keeps_bind (stable_calm.call (p := .lttng) (by decide) (by rfl)) fun _ ↦
      triple_whenever (keeps_throw _)
  exact hdestroy.conseq (fun _ hw ↦ hw) (fun _ _ hw ↦ hw) fun _ _ hw ↦ hcalm hw

/-! ## The kernel benchmark under a session -/

section Traced

variable (hc : ∀ f ∈ c, ¬f.Untraced)

include hc

theorem triple_module {s : Step} (hs : s.part = .module) :
    Triple (Open c) (env.call s) (fun _ ↦ Open c) fun _ w ↦ Open c w ∧ w.JustFailed := by
  apply triple_call
  · exact fun w r hw _ ↦ hw.after hc _
  · intro w e hw _
    refine ⟨hw.after hc _, World.justFailed_after ?_ (World.after_active ?_ ?_)⟩
    · cases s <;> trivial
    · rw [hs]
      decide
    · rw [hs]
      decide

theorem triple_load (m : LinuxModule) :
    Triple (Open c) (m.load env) (fun _ ↦ Open c) fun _ w ↦ Open c w ∧ w.JustFailed :=
  triple_bind (triple_module hc rfl) fun _ ↦
    triple_when (fun _ ↦ triple_module hc rfl) fun _ _ hw ↦ hw

theorem triple_kernelBenchmark (count : ℕ) :
    Triple (Open c) (kernelBenchmark env count) (fun _ ↦ Open c)
      fun _ w ↦ Open c w ∧ w.JustFailed := by
  unfold kernelBenchmark
  apply triple_bind (triple_load hc _)
  intro _
  apply triple_bind (triple_load hc _)
  intro _
  apply triple_bind (triple_module hc rfl)
  intro _
  apply triple_bind (Q := fun text w ↦
    Open c w ∧ (Python.float (Python.rstrip text) = none → w.JustFailed))
  · apply triple_call
    · exact fun w text hw _ ↦ ⟨hw.after hc _, fun hf ↦ World.justFailed_after hf rfl⟩
    · exact fun w e hw _ ↦ ⟨hw.after hc _, World.justFailed_after trivial rfl⟩
  intro text
  cases hf : Python.float (Python.rstrip text) with
  | none =>
    apply triple_bind (Q := fun _ ↦ Open c)
    · exact triple_throw _ fun w hw ↦ ⟨hw.1, hw.2 rfl⟩
    · exact fun _ ↦ triple_pure _ fun _ hw ↦ hw
  | some q =>
    apply triple_bind (Q := fun _ ↦ Open c)
    · exact triple_pure _ fun w hw ↦ hw.1
    · exact fun _ ↦ triple_pure _ fun _ hw ↦ hw

end Traced

/-! ## The benchmarks -/

theorem keeps_runBenchmarkTool_false (args : List String) :
    Keeps (Calm c) (runBenchmarkTool env args false) := by
  apply triple_inFrame_calm
  have hbody : Keeps (Calm (.runner false :: c)) (do
      when (false = true) (lttngStart env ["*"] .ust)
      let output ← env.call (.checkOutput (runnerBin :: args))
      when (false = true) (lttngStop env)
      ofExcept ((jsonLoads output).elim (.error .valueError) .ok)) := by
    have hskip : ∀ m : Prog World Exc Unit,
        Keeps (Calm (.runner false :: c)) (when (false = true) m) :=
      fun m ↦ triple_when nofun fun _ _ hw ↦ hw
    apply keeps_bind (hskip _)
    intro _
    apply keeps_bind (stable_calm.call (p := .runner) (by decide) (by rfl))
    intro output
    exact keeps_bind (hskip _) fun _ ↦ keeps_ofExcept _
  exact hbody.conseq (fun _ hw ↦ hw) (fun _ _ hw ↦ ⟨rfl, hw.clean, hw.quiet⟩)
    fun _ _ hw ↦ ⟨rfl, hw.clean, hw.quiet⟩

section Passes

variable (hc : ∀ f ∈ c, ¬f.Untraced)

include hc

theorem triple_runBenchmarkTool_true (args : List String) :
    Triple (Calm c) (runBenchmarkTool env args true) (fun _ ↦ Calm c) fun _ ↦ Open c := by
  have hc' : ∀ f ∈ Frame.runner true :: c, ¬f.Untraced := by
    intro f hf
    rcases List.mem_cons.mp hf with rfl | hf
    · simp [Frame.Untraced]
    · exact hc f hf
  have hback : ∀ {w : World}, Open (.runner true :: c) w → Open c { w with within := c } :=
    fun hw ↦ ⟨rfl, hw.clean⟩
  apply triple_inFrame_calm
  apply triple_bind (Q := fun _ ↦ Open (.runner true :: c))
  · apply triple_when
    · exact fun _ ↦ (triple_lttngStart hc' _ _).conseq (fun _ hw ↦ hw) (fun _ _ hw ↦ hw)
        fun _ _ hw ↦ hback hw.open
    · exact fun h ↦ absurd rfl h
  intro _
  apply triple_bind (Q := fun _ ↦ Open (.runner true :: c))
  · exact ((stable_open hc').call (p := .runner) (by decide) (by rfl)).conseq (fun _ hw ↦ hw)
      (fun _ _ hw ↦ hw) fun _ _ hw ↦ hback hw
  intro output
  apply triple_bind (Q := fun _ ↦ Calm (.runner true :: c))
  · apply triple_when
    · exact fun _ ↦ (triple_lttngStop hc').conseq (fun _ hw ↦ hw) (fun _ _ hw ↦ hw)
        fun _ _ hw ↦ hback hw.1
    · exact fun h ↦ absurd rfl h
  intro _
  exact triple_ofExcept (fun _ w hw ↦ ⟨rfl, hw.clean, hw.quiet⟩) fun _ w hw ↦ hback hw.open

theorem triple_doUstBenchmark (b : Benchmark) :
    Triple (Calm c) (doUstBenchmark env b) (fun _ ↦ Calm c) fun _ ↦ Open c := by
  have hopen : ∀ {α : Type} {m : Prog World Exc α}, Keeps (Calm c) m →
      Triple (Calm c) m (fun _ ↦ Calm c) fun _ ↦ Open c :=
    fun h ↦ h.conseq (fun _ hw ↦ hw) (fun _ _ hw ↦ hw) fun _ _ hw ↦ hw.open
  unfold doUstBenchmark
  apply triple_bind (hopen (keeps_runBenchmarkTool_false _))
  intro baseAll
  apply triple_bind (hopen (keeps_runBenchmarkTool_false _))
  intro ustAll
  apply triple_bind (triple_runBenchmarkTool_true hc _)
  intro ustEnAll
  apply triple_bind (hopen (stable_calm.call (p := .script) (by decide) (by rfl)))
  exact fun _ ↦ hopen (keeps_ofExcept _)

omit hc in
/-- Behind the frame of a kernel pass, a calm exit of it is swallowed. -/
theorem Calm.leave_kernelPass {w : World} (h : Calm (.kernelPass :: c) w) :
    Swallowed c { w with within := c } :=
  ⟨rfl, h.clean, fun _ ↦ h.quiet⟩

omit hc in
-- what follows a failed step of the kernel benchmark is the bare `except`
theorem Open.leave_kernelPass {w : World} (h : Open (.kernelPass :: c) w) (hf : w.JustFailed) :
    Swallowed c { w with within := c } := by
  refine ⟨rfl, h.clean, fun hl hk ↦ hf.inactive ?_ ?_ hk⟩
  · rw [h.within]
    exact List.mem_cons_self
  · rw [h.within, List.mem_cons, not_or]
    exact ⟨nofun, hl⟩

theorem triple_doKernelBenchmark (nrLoops : ℕ) :
    Triple (Calm c) (doKernelBenchmark env nrLoops) (fun _ ↦ Calm c) fun _ ↦ Swallowed c := by
  have hc' : ∀ f ∈ Frame.kernelPass :: c, ¬f.Untraced := by
    intro f hf
    rcases List.mem_cons.mp hf with rfl | hf
    · simp [Frame.Untraced]
    · exact hc f hf
  have hkeep : ∀ {α : Type} {m : Prog World Exc α}, Keeps (Calm (.kernelPass :: c)) m →
      Triple (Calm (.kernelPass :: c)) m (fun _ ↦ Calm (.kernelPass :: c))
        fun _ w ↦ Swallowed c { w with within := c } :=
    fun h ↦ h.conseq (fun _ hw ↦ hw) (fun _ _ hw ↦ hw) fun _ _ hw ↦ hw.leave_kernelPass
  apply triple_inFrame_calm
  apply triple_bind (Q := fun _ ↦ Calm (.kernelPass :: c))
  · apply hkeep
    apply triple_inFrame_calm
    exact (stable_calm.exits.kernelBenchmark (by decide) nrLoops).conseq (fun _ hw ↦ hw)
      (fun _ _ hw ↦ ⟨rfl, hw.clean, hw.quiet⟩) fun _ _ hw ↦ ⟨rfl, hw.clean, hw.quiet⟩
  intro baseRun
  apply triple_bind (hkeep (stable_calm.exits.events (by decide)))
  intro names
  apply triple_bind ((triple_lttngStart hc' names .kernel).conseq (fun _ hw ↦ hw)
    (fun _ _ hw ↦ hw) fun _ _ hw ↦ hw.leave_kernelPass)
  intro _
  apply triple_bind ((triple_kernelBenchmark hc' nrLoops).conseq (fun _ hw ↦ hw)
    (fun _ _ hw ↦ hw) fun _ _ hw ↦ hw.1.leave_kernelPass hw.2)
  intro tracingEnRun
  apply triple_bind ((triple_lttngStop hc').conseq (fun _ hw ↦ hw) (fun _ _ hw ↦ hw) ?_)
  · intro _
    apply triple_bind (hkeep (stable_calm.exits.onlineCount (by decide)))
    intro cpuCount
    apply triple_bind (hkeep (stable_calm.call (p := .script) (by decide) (by rfl)))
    intro _
    exact triple_ofExcept (fun _ w hw ↦ ⟨rfl, hw.clean, hw.quiet⟩) fun _ w hw ↦ hw.leave_kernelPass
  · rintro e w ⟨hw, hq | hf⟩
    · exact Calm.leave_kernelPass ⟨hw.within, hw.clean, hq⟩
    · exact hw.leave_kernelPass hf

theorem triple_kernelPasses (k : ℕ) (data : List Value) :
    Triple (Calm c) (kernelPasses env k data) (fun _ ↦ Swallowed c) fun _ ↦ Swallowed c := by
  induction k generalizing data with
  | zero => exact triple_pure _ fun _ hw ↦ hw.swallowed
  | succ k ih =>
    unfold kernelPasses
    apply triple_bind (Q := fun result w ↦ Swallowed c w ∧ (result.isSome → Calm c w))
    · apply triple_tryCatch (E := fun _ ↦ Swallowed c)
      · apply triple_bind (triple_doKernelBenchmark hc _)
        exact fun _ ↦ triple_pure _ fun _ hw ↦ ⟨hw.swallowed, fun _ ↦ hw⟩
      · intro e
        apply triple_bind (Q := fun _ ↦ Swallowed c)
        · exact keeps_call fun w r hw ↦ hw.after hc r nofun
        · exact fun _ ↦ triple_pure _ fun _ hw ↦ ⟨hw, nofun⟩
    · intro result
      cases result with
      | none => exact triple_pure _ fun _ hw ↦ hw.1
      | some result => exact (ih _).conseq (fun _ hw ↦ hw.2 rfl) (fun _ _ hw ↦ hw) fun _ _ hw ↦ hw

theorem triple_doBenchmarks (full fast : ℕ) :
    Triple (Calm c) (doBenchmarks env full fast) (fun _ ↦ Swallowed c) fun _ ↦ Open c :=
  triple_passes (P := fun _ ↦ Calm c) (fun p _ _ ↦ triple_doUstBenchmark hc p.2.1) fun data ↦
    (triple_kernelPasses hc full data).conseq (fun _ hw ↦ hw) (fun _ _ hw ↦ hw) fun _ _ hw ↦ hw.open

end Passes

/-! ## The script's main function -/

theorem calm_levels (n : ℕ) (allData allAvg : Dict) :
    Triple (Calm []) (levels env (countdown n) allData allAvg) (fun _ ↦ Open [])
      fun _ ↦ Open [] := by
  have hopen := stable_open (c := []) (by simp)
  induction n generalizing allData allAvg with
  | zero => exact triple_pure _ fun _ hw ↦ hw.open
  | succ n ih =>
    rw [countdown_succ, levels]
    apply triple_bind (Q := fun _ ↦ Calm [])
    · apply Triple.conseq (keeps_tryCatch (I := Calm []) ?_ ?_) (fun _ hw ↦ hw) (fun _ _ hw ↦ hw)
        fun _ _ hw ↦ hw.open
      · exact keeps_bind (stable_calm.exits.setOnlineCount (by decide) (by decide) _) fun _ ↦
          keeps_pure _
      · exact fun _ ↦ keeps_bind (stable_calm.call (p := .script) (by decide) (by rfl)) fun _ ↦
          keeps_pure _
    intro isSet
    split
    · -- a failed kernel pass leaves the session active only at the level 1, which is the last
      apply triple_bind (Q := fun _ w ↦ Open [] w ∧ (n ≠ 0 → Calm [] w))
      · apply triple_inFrame_calm
        have hc : ∀ f ∈ [Frame.level (n + 1)], ¬f.Untraced := by simp [Frame.Untraced]
        apply (triple_doBenchmarks hc 5 100).conseq (fun _ hw ↦ hw) ?_ ?_
        · refine fun _ w hw ↦ ⟨⟨rfl, hw.clean⟩, fun hn ↦ ⟨rfl, hw.clean, hw.quiet ?_⟩⟩
          simp only [List.mem_singleton, Frame.level.injEq]
          omega
        · exact fun _ w hw ↦ ⟨rfl, hw.clean⟩
      intro data
      cases n with
      | zero =>
        -- the last level may end with the session on
        apply triple_bind ((hopen.exits.averageData (by decide) data).conseq (fun _ hw ↦ hw.1)
          (fun _ _ hw ↦ hw) fun _ _ hw ↦ hw)
        exact fun _ ↦ triple_pure _ fun _ hw ↦ hw
      | succ n =>
        apply triple_bind ((stable_calm.exits.averageData (by decide) data).conseq
          (fun _ hw ↦ hw.2 (Nat.succ_ne_zero n)) (fun _ _ hw ↦ hw) fun _ _ hw ↦ hw.open)
        exact fun _ ↦ ih _ _
    · exact triple_pure _ fun _ hw ↦ hw.open

theorem calm_main : Triple (Calm []) (main env) (fun _ ↦ Open []) fun _ ↦ Open [] := by
  have hopen := stable_open (c := []) (by simp)
  have hs : Part.script ∈ Part.activation :: Part.passive := by decide
  unfold main
  apply triple_bind ((stable_calm.exits.onlineCount (by decide)).conseq (fun _ hw ↦ hw)
    (fun _ _ hw ↦ hw) fun _ _ hw ↦ hw.open)
  intro n
  apply triple_bind (calm_levels n [] [])
  rintro ⟨allData, allAvg⟩
  apply keeps_bind (hopen.call hs (by rfl))
  intro uname
  exact keeps_bind (hopen.exits.writePlotProperties hs _ _) fun _ ↦ hopen.call hs (by rfl)

/-- In every run of `main` in which no step of a kernel pass fails under its own session, except at
the last level, every untraced measurement is taken without an active session. -/
theorem main_untraced {w w' : World} {r : Except Exc Unit} (hlog : w.log = [])
    (hwithin : w.within = []) (hactive : w.active = false) (hrun : run (main env) w = (r, w'))
    (hk : ∀ e ∈ w'.log, e.KernelOk) : ∀ e ∈ w'.log, e.Untraced → e.active = false := by
  have hcalm : Calm [] w := ⟨hwithin, fun _ e he ↦ by simp [hlog] at he, fun _ ↦ hactive⟩
  have hend := (@calm_main env).at_end hcalm
  rw [hrun] at hend
  exact hend.clean hk

theorem not_fails_goodReply (s : Step) : ¬s.Fails (goodReply s) := by
  have htime : Python.float (Python.rstrip ['1', '5']) ≠ none := by decide
  cases s
  case readTime => exact htime
  case stop => exact lt_irrefl (0 : ℤ)
  all_goals exact id

-- all goes well on two levels
theorem main_untraced_good :
    ∃ r w', run (main Env.good) twoCpus = (r, w') ∧ w'.online = {0} ∧
      ∀ e ∈ w'.log, e.Untraced → e.active = false := by
  have hgood : AllGood (run (main Env.good) twoCpus).2 :=
    ((exits_allGood _ _).main fun _ _ hw ↦ hw).at_end (List.forall_mem_nil _)
  refine ⟨_, _, (Prod.eta _).symm, goodMain_online twoCpus ⟨rfl, rfl⟩, ?_⟩
  apply main_untraced rfl rfl rfl (Prod.eta (run (main Env.good) twoCpus)).symm
  intro e he _ _ _ hf
  rw [hgood e he] at hf
  exact not_fails_goodReply e.step hf

/-! ## A swallowed failure -/

/-- Reading the kernel's time fails while it is traced. -/
def kernelFault : World → Step → Bool := fun w s ↦ s = .readTime && w.active

theorem part_kernelFault (w : World) (s : Step) (h : kernelFault w s = true) :
    s.part = .module := by
  rw [kernelFault, Bool.and_eq_true, decide_eq_true_eq] at h
  rw [h.1]
  rfl

def Tainted (w : World) : Prop := ∃ e ∈ w.log, e.Untraced ∧ e.active = true

theorem stable_tainted (ps : List Part) (fs : List Frame) : Stable Tainted ps fs where
  step _ _ h := by
    rcases h with ⟨e, he, hu⟩
    exact ⟨e, List.mem_cons_of_mem _ he, hu⟩
  push _ _ h := h
  back _ _ h := h

section KernelFault

variable {b : Bool} {x : Finset ℕ} {E : Exc → World → Prop}

-- the steps of the kernel benchmark other than the last one
theorem call_kernelFault {s : Step} (hs : s.part = .module) (hne : s ≠ .readTime) :
    Triple (fun w ↦ w.active = b) ((Env.withFault kernelFault).call s)
      (fun r w ↦ w.active = b ∧ goodReply s = .ok r) E := by
  have hreply : ∀ w, (Env.withFault kernelFault).reply w s = goodReply s := by
    intro w
    simp [Env.withFault, Env.of, kernelFault, hne]
  apply triple_call
  · intro w r hw hr
    rw [hreply] at hr
    rw [World.after_active (by rw [hs]; decide) (by rw [hs]; decide)]
    exact ⟨hw, hr⟩
  · intro w e _ he
    rw [hreply] at he
    cases s <;> cases he

theorem load_kernelFault (m : LinuxModule) :
    Triple (fun w ↦ w.active = b) (m.load (Env.withFault kernelFault)) (fun _ w ↦ w.active = b)
      E := by
  apply triple_bind (call_kernelFault rfl (by nofun))
  intro loaded
  apply triple_when
  · exact fun _ ↦ (call_kernelFault rfl (by nofun)).conseq (fun _ hw ↦ hw.1) (fun _ _ hw ↦ hw.1)
      fun _ _ he ↦ he
  · exact fun _ _ hw ↦ hw.1

/-- Without a session the kernel benchmark returns, with one it raises and leaves it active. -/
theorem kernelBenchmark_kernelFault (count : ℕ) :
    Triple (fun w ↦ w.active = b) (kernelBenchmark (Env.withFault kernelFault) count)
      (fun _ w ↦ w.active = false ∧ b = false) fun _ w ↦ w.active = true ∧ b = true := by
  unfold kernelBenchmark
  apply triple_bind (load_kernelFault _)
  intro _
  apply triple_bind (load_kernelFault _)
  intro _
  apply triple_bind (call_kernelFault rfl (by nofun))
  intro _
  apply triple_bind (Q := fun text w ↦ (w.active = false ∧ b = false) ∧ text = ['1', '5'])
  · apply triple_call
    · -- a reply to the read means that there is no session
      intro w text hw hr
      have hactive : w.active = false := by
        cases ha : w.active with
        | false => rfl
        | true => simp [Env.withFault, Env.of, kernelFault, ha] at hr
      have htext : ['1', '5'] = text := by
        simpa [Env.withFault, Env.of, kernelFault, hactive, goodReply] using hr
      exact ⟨⟨hactive, hw.1.symm.trans hactive⟩, htext.symm⟩
    · intro w e hw he
      have hactive : w.active = true := by
        cases ha : w.active with
        | false => simp [Env.withFault, Env.of, kernelFault, ha, goodReply] at he
        | true => rfl
      exact ⟨hactive, hw.1.symm.trans hactive⟩
  intro text
  apply triple_assume
  rintro rfl
  exact triple_bind (Q := fun _ w ↦ w.active = false ∧ b = false)
    (triple_pure _ fun _ hw ↦ hw) fun _ ↦ triple_pure _ fun _ hw ↦ hw

theorem doKernelBenchmark_kernelFault (nrLoops : ℕ) :
    Triple (fun w ↦ w.active = false) (doKernelBenchmark (Env.withFault kernelFault) nrLoops)
      (fun _ _ ↦ False) fun _ w ↦ w.active = true := by
  apply triple_inFrame
  intro w hw
  apply triple_bind (Q := fun _ w' ↦ w'.active = false)
  · apply triple_inFrame
    rintro w' rfl
    apply (kernelBenchmark_kernelFault (b := false) nrLoops).conseq
    · rintro _ rfl
      exact hw
    · exact fun _ _ hw' ↦ hw'.1
    · exact fun _ _ he ↦ nomatch he.2
  intro baseRun
  apply triple_bind (Q := fun _ w' ↦ w'.active = false)
  · exact triple_bind (call_kernelFault rfl (by nofun)) fun _ ↦ triple_pure _ fun _ hw' ↦ hw'.1
  intro names
  apply triple_bind (Q := fun _ w' ↦ w'.active = true)
  · exact (returns_lttngStart (obliging_withFault part_kernelFault) names .kernel).conseq
      (fun _ _ ↦ trivial) (fun _ _ hw' ↦ hw') fun _ _ he ↦ he
  intro _
  apply triple_bind (Q := fun _ _ ↦ False)
  · apply (kernelBenchmark_kernelFault (b := true) nrLoops).conseq
    · exact fun _ hw' ↦ hw'
    · exact fun _ _ hw' ↦ nomatch hw'.2
    · exact fun _ _ he ↦ he.1
  · exact fun _ ↦ triple_false

theorem kernelPasses_kernelFault {n : ℕ} (hn : 0 < n) (data : List Value) :
    Triple (fun w ↦ w.active = false) (kernelPasses (Env.withFault kernelFault) n data)
      (fun _ w ↦ w.active = true) E := by
  cases n with
  | zero => exact absurd hn (lt_irrefl 0)
  | succ n =>
    unfold kernelPasses
    apply triple_bind (Q := fun result w ↦ w.active = true ∧ result = none)
    · apply triple_tryCatch (E := fun _ w ↦ w.active = true)
      · exact triple_bind (doKernelBenchmark_kernelFault _) fun _ ↦ triple_false
      · intro e
        apply triple_bind (Q := fun _ w ↦ w.active = true)
        · apply (obliging_withFault part_kernelFault).call (.inr (.inr (.inr rfl)))
          exact fun w _ hw _ ↦ by rw [World.after_active (by nofun) (by nofun), hw]
        · exact fun _ ↦ triple_pure _ fun _ hw ↦ ⟨hw, rfl⟩
    · intro result
      apply triple_assume
      rintro rfl
      exact triple_pure _ fun _ hw ↦ hw

end KernelFault

section Tainted

variable {env : Env}

/-- An untraced run of the tool with the session active is an untraced measurement that is not. -/
theorem tainted_untracedRun (args : List String) :
    Triple (fun w ↦ w.active = true) (runBenchmarkTool env args false) (fun _ ↦ Tainted)
      fun _ ↦ Tainted := by
  apply triple_inFrame
  intro w hw
  apply triple_bind (Q := fun _ w' ↦ w' = w.push (.runner false))
    (triple_when nofun fun _ _ hw' ↦ hw')
  intro _
  have hnew : ∀ r, Tainted ((w.push (.runner false)).after (.checkOutput (runnerBin :: args)) r) :=
    fun r ↦ ⟨_, List.mem_cons_self, ⟨_, List.mem_cons_self, .inl rfl⟩, hw⟩
  apply triple_bind (Q := fun _ ↦ Tainted)
  · apply triple_call
    · rintro _ r rfl _
      exact hnew _
    · rintro _ e rfl _
      exact hnew _
  · intro output
    exact triple_bind (Q := fun _ ↦ Tainted) (triple_when nofun fun _ _ hw' ↦ hw')
      fun _ ↦ keeps_ofExcept _

-- the baseline comes first, and what follows cannot undo it
theorem tainted_doUstBenchmark (b : Benchmark) :
    Triple (fun w ↦ w.active = true) (doUstBenchmark env b) (fun _ ↦ Tainted)
      fun _ ↦ Tainted := by
  have hstable := stable_tainted Part.ofBenchmarks Frame.ofBenchmarks
  have htool : ∀ args withUst, Keeps Tainted (runBenchmarkTool env args withUst) :=
    hstable.exits.runBenchmarkTool (by decide) (by decide)
  unfold doUstBenchmark
  apply triple_bind (tainted_untracedRun _)
  intro baseAll
  apply keeps_bind (htool _ _)
  intro ustAll
  apply keeps_bind (htool _ _)
  intro ustEnAll
  exact keeps_bind (hstable.call (p := .script) (by decide) (by rfl)) fun _ ↦ keeps_ofExcept _

/-- With the session active, the first thing `do_benchmarks` does is an untraced measurement. -/
theorem tainted_doBenchmarks (full fast : ℕ) :
    Triple (fun w ↦ w.active = true) (doBenchmarks env (full + 1) fast) (fun _ ↦ Tainted)
      fun _ ↦ Tainted := by
  have hstable := stable_tainted Part.ofBenchmarks Frame.ofBenchmarks
  have hpasses : ∀ name b k data, Keeps Tainted (ustPasses env name b k data) :=
    hstable.exits.ustPasses (by decide) (by decide)
  rw [doBenchmarks_eq]
  apply triple_bind (Q := fun _ ↦ Tainted)
  · exact triple_bind (tainted_doUstBenchmark _) fun _ ↦ hpasses _ _ _ _
  · exact triple_eachBenchmark (fun data ↦ hstable.exits.kernelPasses _ data)
      fun p _ data ↦ hpasses p.1 p.2.1 p.2.2 data

end Tainted

theorem tainted_level {env : Env} {x : Finset ℕ} :
    Triple (fun w ↦ w.online = x ∧ w.active = true) (inFrame (.level 1) (doBenchmarks env 5 100))
      (fun _ ↦ Tainted) fun _ ↦ Tainted := by
  apply triple_inFrame
  intro w hw
  apply (tainted_doBenchmarks 4 100).conseq
  · rintro _ rfl
    exact hw.2
  · exact fun _ _ h ↦ h
  · exact fun _ _ h ↦ h

-- at the level 1 the baseline is measured with the session of the failed kernel pass active
theorem main_baseline_traced :
    ∃ r w', run (main (Env.withFault kernelFault)) twoCpus = (r, w') ∧
      ∃ e ∈ w'.log, e.Untraced ∧ e.active = true := by
  have hmain := @triple_twoLevels_main _ _ (obliging_withFault part_kernelFault)
    (acceptsWrites_withFault part_kernelFault) (reads_withFault part_kernelFault) ustResult_sample
    (fun w ↦ w.active = true) Tainted {0, 1}
    (fun data ↦ kernelPasses_kernelFault (by decide) data)
    (stable_active true [] (by decide) (by decide)) (fun _ _ h ↦ h) (stable_tainted _ _)
    tainted_level rfl
  exact ⟨_, _, (Prod.eta _).symm, hmain.at_end ⟨rfl, rfl⟩⟩

end UstBench.Driver
