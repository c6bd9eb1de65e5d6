import UstBench.Driver.Passes

/-!
# Whether `online_cpus` reaches its target

The setter switches off before it switches on, and the kernel keeps the last CPU online.  So it gets
from one set to another exactly if they have a CPU in common.
-/

namespace UstBench.Driver

open Reasoning Reasoning.Prog

/-- The kernel's rule: a `0` for the only CPU online does not take effect, whether or not the write
raises, and every other write does. -/
structure Env.KernelRule (env : Env) : Prop where
  reads : ∀ w file, env.reply w (.readCpuFile file) = .ok ()
  refused : ∀ (w : World) cpu, w.online = {cpu} → env.reply w (.writeCpu cpu false) ≠ .ok true
  accepted : ∀ (w : World) cpu, w.online ≠ {cpu} → env.reply w (.writeCpu cpu false) = .ok true
  acceptedOn : ∀ w cpu, env.reply w (.writeCpu cpu true) = .ok true

section Rule

variable {env : Env} {w : World} {l : List ℕ} {cpu : ℕ} {on : Bool}

theorem run_setCpuOnline {took : Bool} (hcpu : cpu ∈ w.present)
    (h : env.reply w (.writeCpu cpu on) = .ok took) :
    run (setCpuOnline env on cpu) w = (.ok (), w.after (.writeCpu cpu on) (.ok took)) := by
  unfold setCpuOnline
  rw [run_bind, run_get]
  show run (if cpu ∈ w.present then _ else _) w = _
  rw [if_pos hcpu, run_bind, run_call, h]
  rfl

theorem run_setCpuOnline_refused (hcpu : cpu ∈ w.present)
    (h : env.reply w (.writeCpu cpu on) ≠ .ok true) :
    (run (setCpuOnline env on cpu) w).2.online = w.online := by
  unfold setCpuOnline
  rw [run_bind, run_get]
  show (run (if cpu ∈ w.present then _ else _) w).2.online = _
  rw [if_pos hcpu, run_bind, run_call]
  cases hreply : env.reply w (.writeCpu cpu on) with
  | error e => rfl
  | ok took =>
    cases took with
    | false => rfl
    | true => exact absurd hreply h

variable (hr : env.KernelRule)

include hr

/-- Whatever the order, one of the online CPUs is still online when all have been written. -/
theorem switchOff_all (hl : l.Nodup) (hall : l.toFinset = w.online) (hne : l ≠ []) :
    ∃ c ∈ w.online, c ∈ (run (forEach (setCpuOnline env false) l) w).2.online := by
  induction l generalizing w with
  | nil => exact absurd rfl hne
  | cons cpu l ih =>
    have hmem : cpu ∈ w.online := by
      rw [← hall, List.mem_toFinset]
      exact List.mem_cons_self
    have hpresent := w.online_subset hmem
    rw [forEach_cons]
    cases l with
    | nil =>
      -- the last one is refused
      have hsingle : w.online = {cpu} := by rw [← hall]; rfl
      have hkept := run_setCpuOnline_refused hpresent (hr.refused w cpu hsingle)
      refine ⟨cpu, hmem, ?_⟩
      rw [run_bind]
      rcases hrun : run (setCpuOnline env false cpu) w with ⟨e | u, w'⟩
      · rw [hrun] at hkept
        exact hkept.symm ▸ hmem
      · rw [hrun] at hkept
        exact hkept.symm ▸ hmem
    | cons next l =>
      have hcpu : cpu ∉ next :: l := (List.nodup_cons.mp hl).1
      have hmany : w.online ≠ {cpu} := by
        intro h
        have hnext : next ∈ w.online := by
          rw [← hall, List.mem_toFinset]
          exact List.mem_cons_of_mem _ List.mem_cons_self
        rw [h, Finset.mem_singleton] at hnext
        exact hcpu (hnext ▸ List.mem_cons_self)
      rw [run_bind_ok (run_setCpuOnline hpresent (hr.accepted w cpu hmany))]
      have honline := World.after_accepted (w := w) false hpresent
      rw [if_neg (by decide)] at honline
      have hrest : (next :: l).toFinset = w.online.erase cpu := by
        have hcons : (cpu :: next :: l).toFinset = insert cpu (next :: l).toFinset :=
          List.toFinset_cons
        rw [← hall, hcons, Finset.erase_insert]
        rwa [List.mem_toFinset]
      obtain ⟨c, hc, hend⟩ := @ih (w.after (.writeCpu cpu false) (.ok true))
        (List.nodup_cons.mp hl).2 (hrest.trans honline.symm) (List.cons_ne_nil _ _)
      rw [honline] at hc
      exact ⟨c, Finset.mem_of_mem_erase hc, hend⟩

/-! ## The setter -/

/-- While `c` is online, every other CPU can be switched off. -/
theorem accepts_off {c : ℕ} {cpus : Finset ℕ} (hc : c ∉ cpus) :
    env.Accepts (fun w ↦ c ∈ w.online) false cpus := by
  intro w cpu hcpu hw hpresent
  have hne : c ≠ cpu := fun he ↦ hc (he ▸ hcpu)
  constructor
  · apply hr.accepted
    intro hsingle
    rw [hsingle, Finset.mem_singleton] at hw
    exact hne hw
  · show c ∈ (w.after (.writeCpu cpu false) (.ok true)).online
    rw [World.after_accepted false hpresent, if_neg (by decide)]
    exact Finset.mem_erase.mpr ⟨hne, hw⟩

theorem accepts_on {c : ℕ} {cpus : Finset ℕ} : env.Accepts (fun w ↦ c ∈ w.online) true cpus := by
  intro w cpu _ hw hpresent
  refine ⟨hr.acceptedOn w cpu, ?_⟩
  show c ∈ (w.after (.writeCpu cpu true) (.ok true)).online
  rw [World.after_accepted true hpresent, if_pos rfl]
  exact Finset.mem_insert_of_mem hw

/-- A common CPU stays online throughout, so no write is refused. -/
theorem setOnlineCpus_reaches {target : Finset ℕ} (ht : target ⊆ w.present)
    (hboth : (w.online ∩ target).Nonempty) :
    ∃ w', run (setOnlineCpus env target) w = (.ok (), w') ∧ w'.online = target := by
  obtain ⟨c, hc⟩ := hboth
  rw [Finset.mem_inter] at hc
  have hkept : c ∉ w.online \ target := fun h ↦ (Finset.mem_sdiff.mp h).2 hc.2
  have hset := triple_setOnlineCpus ht
    (fun v file hv ↦ by rwa [World.after_online (by nofun)])
    (accepts_off hr hkept) (accepts_on hr (c := c))
  have hend := hset.holds w ⟨hc.1, rfl, rfl⟩
  rcases hrun : run (setOnlineCpus env target) w with ⟨e | u, w'⟩
  · rw [hrun] at hend
    rcases hend with ⟨w₀, file, e', -, hreply, -⟩
    rw [hr.reads] at hreply
    cases hreply
  · rw [hrun] at hend
    exact ⟨w', rfl, hend.2⟩

omit hr in
/-- Switching on keeps every CPU online. -/
theorem keeps_setCpusOn (c : ℕ) (cpus : Finset ℕ) :
    Keeps (fun w ↦ c ∈ w.online) (setCpusOnline env cpus true) := by
  apply triple_setEachCpu
  intro cpu _
  apply keeps_setCpuOnline
  intro w r hc hcpu
  rcases r with e | took
  · exact hc
  · cases took with
    | false => exact hc
    | true =>
      rw [World.after_accepted true hcpu, if_pos rfl]
      exact Finset.mem_insert_of_mem hc

/-- With none in common, a CPU that should go stays. -/
theorem setOnlineCpus_misses {target : Finset ℕ} (hx : w.online.Nonempty)
    (hnone : w.online ∩ target = ∅) : (run (setOnlineCpus env target) w).2.online ≠ target := by
  -- every online CPU is to go, and the kernel keeps one of them
  have hdiff : w.online \ target = w.online := by
    rw [Finset.sdiff_eq_self_iff_disjoint, Finset.disjoint_iff_inter_eq_empty]
    exact hnone
  have hl := env.cpuOrder_toFinset (w.after (.readCpuFile .online) (.ok ())) w.online
  have hne : env.cpuOrder (w.after (.readCpuFile .online) (.ok ())) w.online ≠ [] := by
    intro h
    rw [h] at hl
    exact hx.ne_empty hl.symm
  obtain ⟨c, hc, hoff⟩ := @switchOff_all env (w.after (.readCpuFile .online) (.ok ())) _ hr
    (env.cpuOrder_nodup _ _) hl hne
  have hstays : c ∈ (run (setOnlineCpus env target) w).2.online := by
    unfold setOnlineCpus
    rw [run_bind_ok (run_onlineCpus (hr.reads w _)), hdiff, run_bind]
    change c ∈ (run (setCpusOnline env w.online false) _).2.online at hoff
    rcases hrun : run (setCpusOnline env w.online false)
      (w.after (.readCpuFile .online) (.ok ())) with ⟨e | u, w₁⟩
    · rw [hrun] at hoff
      exact hoff
    · rw [hrun] at hoff
      have hkeep := @keeps_setCpusOn env c (w₁.offline ∩ target)
      show c ∈ (run (offlineCpus env >>= fun off ↦
        setCpusOnline env (off ∩ target) true) w₁).2.online
      rw [run_bind_ok (run_offlineCpus (hr.reads w₁ _))]
      exact hkeep.at_end hoff
  intro h
  rw [h] at hstays
  have hboth := Finset.mem_inter.mpr ⟨hc, hstays⟩
  have hempty : c ∈ w.online ∩ target := hboth
  rw [hnone] at hempty
  cases hempty

end Rule

/-- Under the kernel's rule, `online_cpus = target` ends with `target` online exactly if one of its
CPUs was online before, and then it does not raise. -/
theorem setOnlineCpus_reaches_iff {env : Env} {w : World} {target : Finset ℕ} (hr : env.KernelRule)
    (hx : w.online.Nonempty) (ht : target ⊆ w.present) :
    ((run (setOnlineCpus env target) w).2.online = target ↔ (w.online ∩ target).Nonempty) ∧
      ((w.online ∩ target).Nonempty → (run (setOnlineCpus env target) w).1 = .ok ()) := by
  refine ⟨⟨?_, ?_⟩, ?_⟩
  · intro h
    by_contra hnone
    exact setOnlineCpus_misses hr hx (Finset.not_nonempty_iff_eq_empty.mp hnone) h
  · intro hboth
    obtain ⟨w', hrun, ho⟩ := setOnlineCpus_reaches hr ht hboth
    rw [hrun]
    exact ho
  · intro hboth
    obtain ⟨w', hrun, -⟩ := setOnlineCpus_reaches hr ht hboth
    rw [hrun]

/-- The replies of a kernel that keeps to its rule and ignores what it refuses. -/
def kernelReply (w : World) : (s : Step) → Except Exc s.Result
  | .writeCpu cpu false => .ok (w.online ≠ {cpu})
  | s => goodReply s

theorem kernelRule_kernelReply : (Env.of kernelReply).KernelRule where
  reads _ _ := rfl
  refused w cpu h := by
    show Except.ok (decide (w.online ≠ {cpu})) ≠ Except.ok true
    simp [h]
  accepted w cpu h := by
    show Except.ok (decide (w.online ≠ {cpu})) = Except.ok true
    simp [h]
  acceptedOn _ _ := rfl

/-- Two CPUs, of which the second is off. -/
def firstCpu : World := ⟨{0, 1}, {0}, by simp, false, [], []⟩

-- the first CPU cannot go before the second is on
theorem setOnlineCpus_keeps_first :
    (run (setOnlineCpus (Env.of kernelReply) {1}) firstCpu).1 = .ok () ∧
      (run (setOnlineCpus (Env.of kernelReply) {1}) firstCpu).2.online = {0, 1} ∧
      (run (setOnlineCpus (Env.of kernelReply) {1}) firstCpu).2.online ≠ {1} := by
  have honline : (run (setOnlineCpus (Env.of kernelReply) {1}) firstCpu).2.online = {0, 1} := rfl
  refine ⟨rfl, honline, ?_⟩
  rw [honline]
  decide

theorem setOnlineCpus_reaches_iff_both :
    ((run (setOnlineCpus (Env.of kernelReply) {0, 1}) firstCpu).2.online = {0, 1} ↔
        (firstCpu.online ∩ {0, 1}).Nonempty) ∧
      ((firstCpu.online ∩ {0, 1}).Nonempty →
        (run (setOnlineCpus (Env.of kernelReply) {0, 1}) firstCpu).1 = .ok ()) :=
  setOnlineCpus_reaches_iff kernelRule_kernelReply ⟨0, by simp [firstCpu]⟩ (by simp [firstCpu])

end UstBench.Driver
