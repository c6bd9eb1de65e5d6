import UstBench.Driver.CpuTarget

/-!
# The setters of `online_cpus` and `offline_cpus`

Setting `offline_cpus` is setting `online_cpus` to the other CPUs there are: the same writes in the
same two batches, whichever of them the kernel refuses.
-/

namespace UstBench.Driver

open Reasoning Reasoning.Prog

/-- The kernel takes a write to a CPU file or ignores it, and no step on these files raises. -/
structure Env.Silent (env : Env) : Prop where
  reads : ∀ w file, env.reply w (.readCpuFile file) = .ok ()
  writes : ∀ w cpu on, ∃ took, env.reply w (.writeCpu cpu on) = .ok took

/-- The steps so far, the earliest first. -/
def World.steps (w : World) : List Step := (w.log.map Entry.step).reverse

/-- The writes of one batch. -/
def writes (cpus : List ℕ) (on : Bool) : List Step := cpus.map fun cpu ↦ .writeCpu cpu on

/-- From `w` the setter returns with `x` online.  It writes `0` for each of `off` and, with the
offline CPUs read in between, `1` for each of `on`. -/
structure Switches (m : Prog World Exc Unit) (w : World) (off on : List ℕ) (x : Finset ℕ) :
    Prop where
  returns : (run m w).1 = .ok ()
  steps : (run m w).2.steps = w.steps ++ .readCpuFile .online :: writes off false ++
    .readCpuFile .offline :: writes on true
  online : (run m w).2.online = x

/-! ## The steps of a setter -/

theorem steps_after (w : World) (s : Step) (r : Except Exc s.Result) :
    (w.after s r).steps = w.steps ++ [s] := by
  show (s :: w.log.map Entry.step).reverse = _
  rw [List.reverse_cons]
  rfl

section Batches

variable {env : Env} {w : World} {on : Bool} (h : env.Silent)

include h

/-- Taken or refused, all writes are made. -/
theorem run_setCpus {l : List ℕ} (hl : ∀ cpu ∈ l, cpu ∈ w.present) :
    ∃ w', run (forEach (setCpuOnline env on) l) w = (.ok (), w') ∧
      w'.steps = w.steps ++ writes l on := by
  induction l generalizing w with
  | nil => exact ⟨w, rfl, (List.append_nil _).symm⟩
  | cons cpu l ih =>
    rcases h.writes w cpu on with ⟨took, htook⟩
    have hcpu := run_setCpuOnline (hl cpu List.mem_cons_self) htook
    have hrest : ∀ c ∈ l, c ∈ (w.after (.writeCpu cpu on) (.ok took)).present := by
      intro c hc
      rw [World.after_present]
      exact hl c (List.mem_cons_of_mem _ hc)
    rcases ih hrest with ⟨w', hrun, hsteps⟩
    refine ⟨w', ?_, ?_⟩
    · rw [forEach_cons, run_bind_ok hcpu, hrun]
    · rw [hsteps, steps_after, List.append_assoc]
      rfl

theorem run_setCpusOnline {cpus : Finset ℕ} (hcpus : cpus ⊆ w.present) :
    ∃ l w', run (setCpusOnline env cpus on) w = (.ok (), w') ∧
      w'.steps = w.steps ++ writes l on := by
  have hl : ∀ cpu ∈ env.cpuOrder w cpus, cpu ∈ w.present := by
    intro cpu hcpu
    rw [← List.mem_toFinset, env.cpuOrder_toFinset] at hcpu
    exact hcpus hcpu
  exact ⟨env.cpuOrder w cpus, run_setCpus h hl⟩

/-- Whatever is refused, the setter returns behind its two batches. -/
theorem setOnlineCpus_switches (w : World) (cpus : Finset ℕ) :
    ∃ off on, Switches (setOnlineCpus env cpus) w off on
      (run (setOnlineCpus env cpus) w).2.online := by
  have hoff : w.online \ cpus ⊆ (w.after (.readCpuFile .online) (.ok ())).present := by
    rw [World.after_present]
    exact Finset.sdiff_subset.trans w.online_subset
  rcases @run_setCpusOnline env _ false h _ hoff with ⟨off, w₁, hrun₁, hsteps₁⟩
  have hon : w₁.offline ∩ cpus ⊆ (w₁.after (.readCpuFile .offline) (.ok ())).present := by
    rw [World.after_present]
    exact Finset.inter_subset_left.trans Finset.sdiff_subset
  rcases @run_setCpusOnline env _ true h _ hon with ⟨on, w₂, hrun₂, hsteps₂⟩
  have honline := run_onlineCpus (h.reads w .online)
  have hoffline := run_offlineCpus (h.reads w₁ .offline)
  have hrun : run (setOnlineCpus env cpus) w = (.ok (), w₂) := by
    unfold setOnlineCpus
    rw [run_bind_ok honline, run_bind_ok hrun₁, run_bind_ok hoffline, hrun₂]
  refine ⟨off, on, ?_, ?_, rfl⟩
  · rw [hrun]
  · rw [hrun, hsteps₂, steps_after, hsteps₁, steps_after]
    simp

end Batches

/-! ## One setter as the other -/

section Dual

variable {env : Env} {w : World} {p cpus : Finset ℕ}

/-- The CPUs a list gives are present. -/
theorem triple_readPresent (file : CpuFile) :
    Triple (fun v ↦ v.present = p) (readCpuFile env file)
      (fun cpus v ↦ v.present = p ∧ cpus ⊆ p) fun _ v ↦ v.present = p := by
  apply triple_readCpuFile
  · intro v hv _
    rw [World.after_present, ← hv]
    refine ⟨rfl, ?_⟩
    cases file with
    | online => exact v.online_subset
    | offline => exact Finset.sdiff_subset
  · intro v e hv _
    rw [World.after_present, hv]

theorem keeps_present (on : Bool) : Keeps (fun v ↦ v.present = p) (setCpusOnline env cpus on) := by
  apply triple_setEachCpu
  intro cpu _
  apply keeps_setCpuOnline
  intro v r hv _
  rw [World.after_present, hv]

/-- To switch `cpus` off is to leave the others: the batches of the two setters are equal. -/
theorem run_setOfflineCpus (w : World) (cpus : Finset ℕ) :
    run (setOfflineCpus env cpus) w = run (setOnlineCpus env (w.present \ cpus)) w := by
  unfold setOfflineCpus setOnlineCpus
  apply run_bind_congr rfl
  intro online w₁ hread₁
  have h₁ := (triple_readPresent (p := w.present) .online).of_ok rfl hread₁
  -- what is read is present, so it is in `cpus` unless it is in the rest
  have hoff : online \ (w.present \ cpus) = online ∩ cpus := by
    rw [sdiff_sdiff_right', Finset.sdiff_eq_empty_iff_subset.mpr h₁.2]
    exact Finset.empty_union _
  rw [hoff]
  apply run_bind_congr rfl
  -- the second list is read where the first batch has ended, with the same CPUs present
  intro _ w₂ hrun
  have h₂ := (keeps_present (p := w.present) false).of_ok h₁.1 hrun
  apply run_bind_congr rfl
  intro offline w₃ hread₂
  have h₃ := (triple_readPresent (p := w.present) .offline).of_ok h₂ hread₂
  have hon : offline ∩ (w.present \ cpus) = offline \ cpus := by
    rw [← Finset.inter_sdiff_assoc, Finset.inter_eq_left.mpr h₃.2]
  rw [hon]

/-! ## The same kernel and the same orders -/

variable {env' : Env} (hkernel : env'.reply = env.reply)

include hkernel

theorem readCpuFile_congr (file : CpuFile) : readCpuFile env' file = readCpuFile env file := by
  unfold readCpuFile Env.call
  rw [hkernel]

theorem setCpuOnline_congr (on : Bool) : setCpuOnline env' on = setCpuOnline env on := by
  unfold setCpuOnline Env.call
  rw [hkernel]

theorem setCpusOnline_congr (horder : ∀ v s, env'.cpuOrder v s = env.cpuOrder v s) :
    setCpusOnline env' = setCpusOnline env := by
  funext cpus on
  unfold setCpusOnline Env.list
  rw [setCpuOnline_congr hkernel]
  simp only [horder]

theorem setOfflineCpus_congr (horder : ∀ v s, env'.cpuOrder v s = env.cpuOrder v s) :
    setOfflineCpus env' cpus = setOfflineCpus env cpus := by
  unfold setOfflineCpus onlineCpus offlineCpus
  rw [readCpuFile_congr hkernel, readCpuFile_congr hkernel, setCpusOnline_congr hkernel horder]

end Dual

section Setters

variable {env : Env} {w : World} {cpus : Finset ℕ}

theorem Switches.of_run_eq {m m' : Prog World Exc Unit} {off on : List ℕ} {x : Finset ℕ}
    (hs : Switches m w off on x) (hrun : run m' w = run m w) : Switches m' w off on x := by
  constructor
  · rw [hrun]
    exact hs.returns
  · rw [hrun]
    exact hs.steps
  · rw [hrun]
    exact hs.online

/-- With all writes accepted, any set of present CPUs is reached, in any order. -/
theorem setOnlineCpus_accepted (h : env.Silent) (ha : env.AcceptsWrites)
    (hcpus : cpus ⊆ w.present) : ∃ off on, Switches (setOnlineCpus env cpus) w off on cpus := by
  have hset := triple_setOnlineCpus (J := fun _ ↦ True) (x := w.online) hcpus
    (fun _ _ _ ↦ trivial) (ha.accepts fun _ _ _ _ ↦ trivial) (ha.accepts fun _ _ _ _ ↦ trivial)
  rcases setOnlineCpus_switches h w cpus with ⟨off, on, hs⟩
  have honline := (hset.of_ok ⟨trivial, rfl, rfl⟩ (Prod.ext hs.returns rfl)).2
  exact ⟨off, on, hs.returns, hs.steps, honline⟩

end Setters

/-- `offline_cpus = cpus` is `online_cpus = present - cpus`: with the same orders they make the same
writes and end alike, and with all writes accepted they reach that set in any order. -/
theorem cpuSetters_dual {env env' : Env} (hkernel : env'.reply = env.reply) (h : env.Silent)
    (w : World) (cpus : Finset ℕ) :
    ((∀ v s, env'.cpuOrder v s = env.cpuOrder v s) →
      ∃ off on x, Switches (setOfflineCpus env' cpus) w off on x ∧
        Switches (setOnlineCpus env (w.present \ cpus)) w off on x) ∧
    (env.AcceptsWrites →
      (∃ off on, Switches (setOfflineCpus env' cpus) w off on (w.present \ cpus)) ∧
        ∃ off on, Switches (setOnlineCpus env (w.present \ cpus)) w off on (w.present \ cpus)) := by
  constructor
  · intro horder
    rcases setOnlineCpus_switches h w (w.present \ cpus) with ⟨off, on, hs⟩
    refine ⟨off, on, _, hs.of_run_eq ?_, hs⟩
    rw [setOfflineCpus_congr hkernel horder, run_setOfflineCpus]
  · intro ha
    have hsub : w.present \ cpus ⊆ w.present := Finset.sdiff_subset
    have h' : env'.Silent := ⟨hkernel ▸ h.reads, hkernel ▸ h.writes⟩
    have ha' : env'.AcceptsWrites := by
      intro v cpu on
      rw [hkernel]
      exact ha v cpu on
    rcases setOnlineCpus_accepted h' ha' hsub with ⟨off, on, hs⟩
    exact ⟨⟨off, on, hs.of_run_eq (run_setOfflineCpus w cpus)⟩, setOnlineCpus_accepted h ha hsub⟩

/-- The same kernel, with every set in the opposite order. -/
def Env.backwards (env : Env) : Env :=
  { env with
    cpuOrder := fun w s ↦ (env.cpuOrder w s).reverse
    cpuOrder_nodup := fun w s ↦ List.nodup_reverse.mpr (env.cpuOrder_nodup w s)
    cpuOrder_toFinset := fun w s ↦ List.toFinset_reverse.trans (env.cpuOrder_toFinset w s) }

theorem silent_kernelReply : (Env.of kernelReply).Silent where
  reads _ _ := rfl
  writes w cpu on := by
    cases on with
    | false => exact ⟨_, rfl⟩
    | true => exact ⟨_, rfl⟩

theorem silent_goodReply : (Env.of fun _ ↦ goodReply).Silent where
  reads _ _ := rfl
  writes _ _ _ := ⟨true, rfl⟩

-- a kernel that keeps the last CPU online, and one that takes both off
theorem cpuSetters_dual_refused :
    (∃ off on x, Switches (setOfflineCpus (Env.of kernelReply) {0, 7}) firstCpu off on x ∧
      Switches (setOnlineCpus (Env.of kernelReply) (firstCpu.present \ {0, 7})) firstCpu off on x) ∧
    (∃ off on, Switches (setOfflineCpus (Env.of fun _ ↦ goodReply).backwards {0, 1, 7}) twoCpus
      off on (twoCpus.present \ {0, 1, 7})) ∧
    ∃ off on, Switches (setOnlineCpus (Env.of fun _ ↦ goodReply) (twoCpus.present \ {0, 1, 7}))
      twoCpus off on (twoCpus.present \ {0, 1, 7}) :=
  have hreply : (Env.of fun _ ↦ goodReply).backwards.reply = (Env.of fun _ ↦ goodReply).reply := rfl
  ⟨(@cpuSetters_dual (Env.of kernelReply) _ rfl silent_kernelReply firstCpu {0, 7}).1 fun _ _ ↦ rfl,
    (cpuSetters_dual hreply silent_goodReply twoCpus {0, 1, 7}).2 fun _ _ _ ↦ rfl⟩

end UstBench.Driver
