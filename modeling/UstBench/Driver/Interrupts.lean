import UstBench.Driver.Restore

/-!
# Interrupts

The top-level block handles `KeyboardInterrupt`.  Two bare `except` clauses catch it before: the one
around the kernel passes, and the one around the change of the number of CPUs.  The script goes on
from both.
-/

namespace UstBench.Driver

open Reasoning Reasoning.Prog

/-- The runner is launched, the kernel benchmark is at work, or a file of results is written. -/
def Step.Productive : Step → Prop
  | .checkOutput _ | .insmod _ | .writeCount _ | .readTime | .writeFile _ _ => True
  | _ => False

/-- A step of the `finally` clause that measures and writes nothing. -/
def Entry.Restores (e : Entry) : Prop := .restore ∈ e.within ∧ ¬e.step.Productive

def Entry.Interrupted (e : Entry) : Prop := e.reply = .error .keyboardInterrupt

/-- Raised under a bare `except`.  Outside of `do_benchmarks`, `main` accesses the CPU files for its
first count, which is the second step of the script, and for the changes of the number of CPUs. -/
def Entry.Swallowed (e : Entry) (earlier : List Entry) : Prop :=
  .kernelPass ∈ e.within ∨
    e.within = [] ∧ (e.step.part = .cpuRead ∨ e.step.part = .cpuWrite) ∧ 1 < earlier.length

/-! ## Logs -/

/-- Of a log before the `finally` clause: every interrupt was swallowed. -/
def Absorbed : List Entry → Prop
  | [] => True
  | e :: earlier => .restore ∉ e.within ∧ (e.Interrupted → e.Swallowed earlier) ∧ Absorbed earlier

/-- The last step was not interrupted either. -/
def Unbroken (log : List Entry) : Prop := Absorbed log ∧ ∀ e ∈ log.head?, ¬e.Interrupted

/-- The last step was interrupted, outside of the bare `except` clauses. -/
def Broken (log : List Entry) : Prop :=
  ∃ e earlier, log = e :: earlier ∧ .restore ∉ e.within ∧ e.Interrupted ∧ ¬e.Swallowed earlier ∧
    Absorbed earlier

theorem swallowed_of_absorbed {later earlier : List Entry} {e : Entry}
    (h : Absorbed (later ++ e :: earlier)) (hi : e.Interrupted) : e.Swallowed earlier := by
  induction later with
  | nil => exact h.2.1 hi
  | cons x later ih => exact ih h.2.2

/-- An entry without the mark of the `finally` clause belongs to `main`. -/
theorem split_of_unmarked {log rest later earlier : List Entry} {e : Entry}
    (hrest : ∀ e' ∈ rest, e'.Restores) (hsplit : rest ++ log = later ++ e :: earlier)
    (hr : .restore ∉ e.within) : ∃ mid, later = rest ++ mid ∧ log = mid ++ e :: earlier := by
  rcases List.append_eq_append_iff.mp hsplit with ⟨mid, hlater, hlog⟩ | ⟨mid, hrest', htail⟩
  · exact ⟨mid, hlater, hlog⟩
  · cases mid with
    | nil =>
      rw [List.append_nil] at hrest'
      exact ⟨[], by rw [hrest', List.append_nil], htail.symm⟩
    | cons x mid =>
      rw [List.cons_append, List.cons.injEq] at htail
      have hx : x ∈ rest := by simp [hrest']
      rw [← htail.1] at hx
      exact absurd (hrest e hx).1 hr

/-- What `main` did before its last step, broken off or not. -/
theorem absorbed_of_cons {x : Entry} {log : List Entry}
    (h : Unbroken (x :: log) ∨ Broken (x :: log)) : .restore ∉ x.within ∧ Absorbed log := by
  cases h with
  | inl hu => exact ⟨hu.1.1, hu.1.2.2⟩
  | inr hb =>
    rcases hb with ⟨e', earlier', heq, hr, -, -, habsorbed⟩
    rw [List.cons.injEq] at heq
    rw [heq.1, heq.2]
    exact ⟨hr, habsorbed⟩

/-- The log at the end of the script is that of `main` with the steps of the `finally` clause on
top.  Only a swallowed interrupt has anything else behind it. -/
theorem restores_iff {log rest later earlier : List Entry} {e : Entry}
    (hlog : Unbroken log ∨ Broken log) (hrest : ∀ e' ∈ rest, e'.Restores)
    (hsplit : rest ++ log = later ++ e :: earlier) (hi : e.Interrupted)
    (hr : .restore ∉ e.within) : (∀ e' ∈ later, e'.Restores) ↔ ¬e.Swallowed earlier := by
  have hmain := split_of_unmarked hrest hsplit hr
  rcases hmain with ⟨mid, hlater, hmid⟩
  cases mid with
  | nil =>
    rw [List.append_nil] at hlater
    rw [List.nil_append] at hmid
    rw [hlater]
    cases hlog with
    | inl hu =>
      rw [hmid] at hu
      exact absurd hi (hu.2 e rfl)
    | inr hb =>
      rcases hb with ⟨e', earlier', heq, -, -, hswallowed, -⟩
      rw [hmid, List.cons.injEq] at heq
      rw [heq.1, heq.2]
      exact ⟨fun _ ↦ hswallowed, fun _ ↦ hrest⟩
  | cons x mid =>
    -- the script went on with `x`
    rw [hmid] at hlog
    have hx := absorbed_of_cons hlog
    constructor
    · intro h
      have hmem : x ∈ later := by simp [hlater]
      exact absurd (h x hmem).1 hx.1
    · intro h
      exact absurd (swallowed_of_absorbed hx.2 hi) h

/-! ## Steps -/

section Steps

variable {w : World} {s : Step} {r : Except Exc s.Result}

theorem unbroken_after (hw : .restore ∉ w.within) (h : Absorbed w.log)
    (hr : r ≠ .error .keyboardInterrupt) : Unbroken (w.after s r).log := by
  rw [World.after_log]
  refine ⟨⟨hw, fun hi ↦ absurd hi hr, h⟩, ?_⟩
  intro e he
  rw [List.head?_cons, Option.mem_some_iff] at he
  rw [← he]
  exact hr

theorem length_after : (w.after s r).log.length = w.log.length + 1 := by
  rw [World.after_log, List.length_cons]

end Steps

/-- `main` at work within calls that `P` allows, with every interrupt so far swallowed. -/
structure Running (P : List Frame → Prop) (w : World) : Prop where
  within : P w.within
  log : Unbroken w.log
  started : 1 < w.log.length

/-- On the way to a bare `except`. -/
structure Caught (P : List Frame → Prop) (w : World) : Prop where
  within : P w.within
  log : Absorbed w.log
  started : 1 < w.log.length

/-- On the way out of `main`, or at its end. -/
def Halted (w : World) : Prop := Unbroken w.log ∨ Broken w.log

/-- The calls outside of the kernel passes, and those inside. -/
def OutsideKernel (c : List Frame) : Prop := .restore ∉ c ∧ .kernelPass ∉ c

def InsideKernel (c : List Frame) : Prop := .restore ∉ c ∧ .kernelPass ∈ c

section Exits

variable {env : Env} {P : List Frame → Prop} {ps : List Part} {fs : List Frame}

theorem Running.after {w : World} {s : Step} {r : Except Exc s.Result} (h : Running P w)
    (hw : .restore ∉ w.within) (hr : r ≠ .error .keyboardInterrupt) : Running P (w.after s r) where
  within := by
    rw [World.after_within]
    exact h.within
  log := unbroken_after hw h.log.1 hr
  started := by
    rw [length_after]
    exact Nat.lt_succ_of_lt h.started

/-- Under a bare `except` every interrupt is swallowed. -/
theorem exits_caught (hP : ∀ c, P c → .restore ∉ c) (hpush : ∀ c, ∀ f ∈ fs, P c → P (f :: c))
    (hs : ∀ c, ∀ p ∈ ps, P c → .kernelPass ∈ c ∨ c = [] ∧ (p = .cpuRead ∨ p = .cpuWrite)) :
    Exits env (Running P) (Caught P) ps fs where
  call := by
    intro p s hp hpart
    apply triple_call
    · exact fun w r hw _ ↦ hw.after (hP _ hw.within) nofun
    · intro w e hw _
      refine ⟨?_, ⟨hP _ hw.within, fun _ ↦ ?_, hw.log.1⟩, ?_⟩
      · rw [World.after_within]
        exact hw.within
      · cases hs _ p hp hw.within with
        | inl hk => exact .inl hk
        | inr hc =>
          refine .inr ⟨hc.1, ?_, hw.started⟩
          show s.part = .cpuRead ∨ s.part = .cpuWrite
          rw [hpart]
          exact hc.2
      · rw [length_after]
        exact Nat.lt_succ_of_lt hw.started
  raise hw := ⟨hw.within, hw.log.1, hw.started⟩
  push f hf hw := ⟨hpush _ f hf hw.within, hw.log, hw.started⟩
  back _ hw hw' := ⟨hw.within, hw'.log, hw'.started⟩
  backRaised _ hw hw' := ⟨hw.within, hw'.log, hw'.started⟩

-- the interrupt of a step outside of the bare `except` clauses is the last thing in the log
theorem halted_after {w : World} {s : Step} (hw : OutsideKernel w.within) (h : Absorbed w.log)
    (hs : w.within = [] → s.part = .cpuRead ∨ s.part = .cpuWrite → w.log.length ≤ 1) (e : Exc) :
    Halted (w.after s (.error e)) := by
  by_cases he : e = .keyboardInterrupt
  · right
    refine ⟨_, _, World.after_log, hw.1, by rw [he]; rfl, ?_, h⟩
    intro hswallowed
    cases hswallowed with
    | inl hk => exact hw.2 hk
    | inr hc =>
      have hlen := hs hc.1 hc.2.1
      have hlt : 1 < w.log.length := hc.2.2
      omega
  · left
    apply unbroken_after hw.1 h
    rw [Ne, Except.error.injEq]
    exact he

theorem exits_running (hP : ∀ c, P c → OutsideKernel c) (hpush : ∀ c, ∀ f ∈ fs, P c → P (f :: c))
    (hps : .cpuRead ∉ ps ∧ .cpuWrite ∉ ps) : Exits env (Running P) Halted ps fs where
  call := by
    intro p s hp hpart
    apply triple_call
    · exact fun w r hw _ ↦ hw.after (hP _ hw.within).1 nofun
    · intro w e hw _
      apply halted_after (hP _ hw.within) hw.log.1
      intro _ hcpu
      rw [hpart] at hcpu
      cases hcpu with
      | inl hread => exact absurd (hread ▸ hp) hps.1
      | inr hwrite => exact absurd (hwrite ▸ hp) hps.2
  raise hw := .inl hw.log
  push f hf hw := ⟨hpush _ f hf hw.within, hw.log, hw.started⟩
  back _ hw hw' := ⟨hw.within, hw'.log, hw'.started⟩
  backRaised _ _ hw' := hw'

/-- The message of a bare `except` clause is the first step behind what it caught. -/
theorem triple_message (hP : ∀ c, P c → OutsideKernel c) (text : String) :
    Triple (Caught P) (env.call (.print text)) (fun _ ↦ Running P) fun _ ↦ Halted := by
  apply triple_call
  · intro w r hw _
    refine ⟨?_, unbroken_after (hP _ hw.within).1 hw.log nofun, ?_⟩
    · rw [World.after_within]
      exact hw.within
    · rw [length_after]
      exact Nat.lt_succ_of_lt hw.started
  · intro w e hw _
    apply halted_after (hP _ hw.within) hw.log
    intro _ hcpu
    cases hcpu <;> contradiction

end Exits

/-! ## The script -/

section Script

variable {env : Env}

theorem halts_kernelPasses (n : ℕ) (data : List Value) :
    Triple (Running OutsideKernel) (kernelPasses env n data) (fun _ ↦ Running OutsideKernel)
      fun _ ↦ Halted := by
  have hinside :
      Exits env (Running InsideKernel) (Caught InsideKernel) Part.ofKernel [.baseRun] := by
    apply exits_caught (fun _ h ↦ h.1) ?_ fun _ _ _ h ↦ .inl h.2
    intro c f hf h
    rw [List.mem_singleton.mp hf]
    exact ⟨by simp [h.1], List.mem_cons_of_mem _ h.2⟩
  -- what leaves a pass has been raised under the bare `except` around it
  have hpass : Triple (Running OutsideKernel) (doKernelBenchmark env 1000000)
      (fun _ ↦ Running OutsideKernel) fun _ ↦ Caught OutsideKernel := by
    apply hinside.doKernelBenchmark (by decide) (by decide)
    · exact fun hw ↦ ⟨⟨by simp [hw.within.1], List.mem_cons_self⟩, hw.log, hw.started⟩
    · exact fun hw hw' ↦ ⟨hw.within, hw'.log, hw'.started⟩
    · exact fun hw hw' ↦ ⟨hw.within, hw'.log, hw'.started⟩
  induction n generalizing data with
  | zero => exact triple_keep _
  | succ n ih =>
    apply triple_bind (Q := fun _ ↦ Running OutsideKernel)
    · apply triple_tryCatch (E := fun _ ↦ Caught OutsideKernel)
      · exact triple_bind hpass fun _ ↦ triple_keep _
      · exact fun _ ↦ triple_bind (triple_message (fun _ h ↦ h) _) fun _ ↦ triple_keep _
    intro result
    cases result with
    | none => exact triple_keep _
    | some result => exact ih _

theorem halts_level (cpuCount : ℕ) :
    Triple (Running (· = [])) (inFrame (.level cpuCount) (doBenchmarks env 5 100))
      (fun _ ↦ Running (· = [])) fun _ ↦ Halted := by
  have hust : Exits env (Running OutsideKernel) Halted Part.ofUst Frame.ofUst := by
    apply exits_running (fun _ h ↦ h) ?_ (by decide)
    intro c f hf h
    simp only [Frame.ofUst, List.mem_cons, List.not_mem_nil, or_false] at hf
    rcases hf with rfl | rfl
    · exact ⟨by simp [h.1], by simp [h.2]⟩
    · exact ⟨by simp [h.1], by simp [h.2]⟩
  apply triple_inFrame
  intro w hw
  apply (hust.doBenchmarks (by decide) (by decide) 5 100 (halts_kernelPasses 5)).conseq
  · rintro _ rfl
    refine ⟨?_, hw.log, hw.started⟩
    rw [World.push_within, hw.within]
    exact ⟨by simp, by simp⟩
  · exact fun _ w' hw' ↦ ⟨hw.within, hw'.log, hw'.started⟩
  · exact fun _ w' hw' ↦ hw'

theorem outsideKernel_nil : ∀ c : List Frame, c = [] → OutsideKernel c := by
  rintro _ rfl
  exact ⟨List.not_mem_nil, List.not_mem_nil⟩

-- what `main` does outside of `do_benchmarks` and the changes of the number of CPUs
theorem exits_main : Exits env (Running (· = [])) Halted [.script] [] :=
  exits_running outsideKernel_nil nofun (by decide)

theorem halts_levels (counts : List ℕ) (allData allAvg : Dict) :
    Triple (Running (· = [])) (levels env counts allData allAvg) (fun _ ↦ Running (· = []))
      fun _ ↦ Halted := by
  have hset : Exits env (Running (· = [])) (Caught (· = [])) [.cpuRead, .cpuWrite] [] :=
    exits_caught (fun c hc ↦ (outsideKernel_nil c hc).1) nofun fun c p hp hc ↦
      .inr ⟨hc, by simpa using hp⟩
  induction counts generalizing allData allAvg with
  | nil => exact triple_keep _
  | cons cpuCount rest ih =>
    apply triple_bind (Q := fun _ ↦ Running (· = []))
    · apply triple_tryCatch (E := fun _ ↦ Caught (· = []))
      · exact triple_bind (hset.setOnlineCount (by decide) (by decide) _) fun _ ↦ triple_keep _
      · exact fun _ ↦ triple_bind (triple_message outsideKernel_nil _) fun _ ↦ triple_keep _
    intro isSet
    split
    · apply triple_bind (halts_level cpuCount)
      intro data
      exact triple_bind (exits_main.averageData (by decide) data) fun _ ↦ ih _ _
    · exact triple_keep _

/-- `main` ends with the first interrupt that no bare `except` catches. -/
theorem halts_main :
    Triple (fun w ↦ w.within = [] ∧ Unbroken w.log ∧ w.log.length = 1) (main env)
      (fun _ ↦ Halted) fun _ ↦ Halted := by
  have hend : ∀ w, Running (· = []) w → Halted w := fun w hw ↦ .inl hw.log
  unfold main
  apply triple_bind (Q := fun _ ↦ Running (· = []))
  · apply triple_bind (Q := fun _ ↦ Running (· = [])) ?_ fun _ ↦ triple_keep _
    apply triple_readCpuFile
    · rintro w ⟨hwithin, hlog, hlen⟩ _
      refine ⟨?_, unbroken_after (outsideKernel_nil _ hwithin).1 hlog.1 nofun, ?_⟩
      · rw [World.after_within, hwithin]
      · rw [length_after, hlen]
        exact Nat.lt_succ_self 1
    · rintro w e ⟨hwithin, hlog, hlen⟩ _
      exact halted_after (outsideKernel_nil _ hwithin) hlog.1 (fun _ _ ↦ hlen.le) e
  intro n
  apply triple_bind (halts_levels _ _ _)
  rintro ⟨allData, allAvg⟩
  have hs : Part.script ∈ [Part.script] := List.mem_cons_self
  apply triple_bind (exits_main.call hs (by rfl))
  intro uname
  apply triple_bind (exits_main.writePlotProperties hs _ _)
  intro _
  exact (exits_main.call hs (by rfl)).conseq (fun _ hw ↦ hw) (fun _ w hw ↦ hend w hw)
    fun _ _ hw ↦ hw

/-- In the `finally` clause, above the log it started with. -/
structure Trailing (log : List Entry) (w : World) : Prop where
  within : .restore ∈ w.within
  log : ∃ rest, w.log = rest ++ log ∧ ∀ e ∈ rest, e.Restores

theorem Trailing.after {log : List Entry} {w : World} {s : Step} (h : Trailing log w)
    (hs : ¬s.Productive) (r : Except Exc s.Result) : Trailing log (w.after s r) := by
  rcases h.log with ⟨rest, hlog, hrest⟩
  refine ⟨by rw [World.after_within]; exact h.within,
    ⟨s, r, w.within, w.active, w.online⟩ :: rest, ?_, ?_⟩
  · rw [World.after_log, hlog, List.cons_append]
  · intro e he
    cases List.mem_cons.mp he with
    | inl heq =>
      rw [heq]
      exact ⟨h.within, hs⟩
    | inr hmem => exact hrest e hmem

theorem keeps_cleanup (log : List Entry) : Keeps (Trailing log) (cleanup env) := by
  have hcall : ∀ s : Step, ¬s.Productive → Keeps (Trailing log) (env.call s) :=
    fun s hs ↦ keeps_call fun _ r hw ↦ hw.after hs r
  have hunload : ∀ m : LinuxModule, Keeps (Trailing log) (m.unload env) :=
    fun m ↦ keeps_bind (hcall _ id) fun _ ↦ keeps_when (hcall _ id)
  have hkill : Keeps (Trailing log) (killSessiond env) :=
    keeps_bind (hcall _ id) fun _ ↦ keeps_bind (keeps_ofExcept _) fun _ ↦ hcall _ id
  apply keeps_bind (hcall _ id)
  intro _
  apply keeps_bind (hcall _ id)
  intro _
  apply keeps_bind (keeps_bind (hunload _) fun _ ↦ hunload _)
  intro _
  apply keeps_bind (keeps_tryCatch hkill fun e ↦ keeps_when (keeps_throw e))
  exact fun _ ↦ hcall _ id

/-- The `finally` clause is `cleanup` and the restoring of the CPUs. -/
theorem trailing_restore (savedOnlineCpus : Finset ℕ) (w : World) :
    ∃ rest, (run (restore env savedOnlineCpus) w).2.log = rest ++ w.log ∧
      ∀ e ∈ rest, e.Restores := by
  have hcpu : Stable (Trailing w.log) [.cpuRead, .cpuWrite] [] := by
    refine ⟨?_, nofun, fun hne ↦ absurd rfl hne⟩
    intro v s r hs hv
    apply hv.after
    cases s <;> simp [Step.part, Step.Productive] at hs ⊢
  have hrestore : Triple (· = w) (restore env savedOnlineCpus)
      (fun _ v ↦ ∃ rest, v.log = rest ++ w.log ∧ ∀ e ∈ rest, e.Restores)
      fun _ v ↦ ∃ rest, v.log = rest ++ w.log ∧ ∀ e ∈ rest, e.Restores := by
    apply triple_inFrame
    rintro w rfl
    apply (keeps_bind (keeps_cleanup w.log) fun _ ↦
      hcpu.exits.setOnlineCpus (by decide) (by decide) savedOnlineCpus).conseq
    · rintro _ rfl
      exact ⟨List.mem_cons_self, [], rfl, fun _ h ↦ absurd h List.not_mem_nil⟩
    · exact fun _ v hv ↦ hv.log
    · exact fun _ v hv ↦ hv.log
  exact hrestore.at_end rfl

/-- In every run of the script, an interrupt in `main` is followed by the `finally` clause alone if
and only if it is raised outside of the kernel passes and of the changes of the number of CPUs. -/
theorem script_interrupt_iff {w w' : World} {r : Except Exc Unit} {later earlier : List Entry}
    {e : Entry} (hlog : w.log = []) (hwithin : w.within = [])
    (hrun : run (script env) w = (r, w')) (hsplit : w'.log = later ++ e :: earlier)
    (hinterrupt : e.reply = .error .keyboardInterrupt)
    (hmain : earlier ≠ [] ∧ .restore ∉ e.within) :
    (∀ e' ∈ later, .restore ∈ e'.within ∧ ¬e'.step.Productive) ↔ ¬e.Swallowed earlier := by
  cases hsaved : env.reply w (.readCpuFile .online) with
  | error x =>
    -- the script ends with its first step, and `main` has none
    have hread : run (script env) w = (.error x, w.after (.readCpuFile .online) (.error x)) := by
      apply run_bind_error
      apply run_bind_error
      rw [run_call, hsaved]
    rw [hrun, Prod.mk.injEq] at hread
    have hlen : w'.log.length = 1 := by rw [hread.2, length_after, hlog, List.length_nil]
    have hpos := List.length_pos_iff.mpr hmain.1
    rw [hsplit, List.length_append, List.length_cons] at hlen
    omega
  | ok u =>
    have hfirst : Unbroken (w.after (.readCpuFile .online) (.ok ())).log := by
      apply unbroken_after
      · rw [hwithin]
        exact List.not_mem_nil
      · rw [hlog]
        trivial
      · nofun
    have hhalted : Halted (mainEnd env w) := by
      apply (@halts_main env).at_end
      refine ⟨?_, hfirst, ?_⟩
      · rw [World.after_within, hwithin]
      · rw [length_after, hlog, List.length_nil]
    rcases @trailing_restore env w.online (mainEnd env w) with ⟨rest, hrest, hall⟩
    rw [← script_end hsaved hrun, hsplit] at hrest
    exact restores_iff hhalted hall hrest.symm hinterrupt hmain.2

end Script

/-- All goes well, but for an interrupt behind `n` steps. -/
def Env.interruptedAt (n : ℕ) : Env :=
  .of fun w s ↦ if w.log.length = n then .error .keyboardInterrupt else goodReply s

-- the interrupt of the first change of the number of CPUs: the results are written all the same
theorem script_interrupt_writes :
    ∃ r w' later e earlier, run (script (.interruptedAt 2)) twoCpus = (r, w') ∧
      w'.log = later ++ e :: earlier ∧ e.reply = .error .keyboardInterrupt ∧
      earlier ≠ [] ∧ .restore ∉ e.within ∧
      ∃ e' ∈ later, e'.step = .writeFile jsOut "data\n" ∧ .restore ∉ e'.within := by
  refine ⟨_, _, (run (script (.interruptedAt 2)) twoCpus).2.log.take 15, _, _,
    (Prod.eta _).symm, rfl, rfl, nofun, ?_, ?_⟩
  · decide
  · decide

theorem script_interrupt_iff_first_count :
    ∃ r w' later e earlier, run (script (.interruptedAt 1)) twoCpus = (r, w') ∧
      w'.log = later ++ e :: earlier ∧
      ((∀ e' ∈ later, .restore ∈ e'.within ∧ ¬e'.step.Productive) ↔ ¬e.Swallowed earlier) := by
  refine ⟨_, _, (run (script (.interruptedAt 1)) twoCpus).2.log.take 11, _, _,
    (Prod.eta _).symm, rfl, ?_⟩
  exact @script_interrupt_iff (.interruptedAt 1) twoCpus _ _ _ _ _ rfl rfl (Prod.eta _).symm rfl rfl
    ⟨nofun, by decide⟩

end UstBench.Driver
