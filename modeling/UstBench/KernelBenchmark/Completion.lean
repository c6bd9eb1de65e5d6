import Mathlib.Algebra.BigOperators.Group.List.Basic
import Mathlib.Algebra.Order.Ring.Nat
import UstBench.KernelBenchmark.Lifetime

/-!
# `time_show` comes back

The steps that the reader and the threads have left are a number, and every step but a signal takes
one off it.  As long as no wait is cut short there is always a next step while it is positive, so
`time_show` returns, however the threads are scheduled, and all runs of it have one length.
-/

namespace UstBench.KernelBenchmark

open Reasoning

/-! ## The steps that are left -/

/-- The steps of a thread from `pc` on. -/
def WorkerPc.left (eventCount : ℕ) : Option WorkerPc → ℕ
  | none => eventCount + 5
  | some .created => eventCount + 5
  | some .waiting => eventCount + 4
  | some (.measuring i) => eventCount - i + 3
  | some .measured => 2
  | some .stored => 1
  | some .finished => 0

/-- The steps of `time_show` on `n` CPUs from `pc` on. -/
def ReaderPc.left (n : ℕ) : ReaderPc → ℕ
  | .init rest => rest.length + 1 + (3 * n + 5)
  | .start rest => rest.length + 1 + (2 * n + 4)
  | .release => 2 * n + 4
  | .wait rest => rest.length + 1 + (n + 2)
  | .sum rest _ => rest.length + 1 + 1
  | .free _ => 1
  | .returned _ => 0

def workersLeft (b : Setup) (workers : ℕ → Option WorkerPc) : ℕ :=
  (b.cpus.map fun cpu ↦ WorkerPc.left b.eventCount (workers cpu)).sum

def State.left (b : Setup) (s : State) : ℕ :=
  s.reader.left b.cpus.length + workersLeft b s.workers

/-- One entry of a sum changes. -/
theorem sum_map_update {f : ℕ → ℕ} {l : List ℕ} {x v : ℕ} (hnd : l.Nodup) (hx : x ∈ l) :
    (l.map (Function.update f x v)).sum + f x = (l.map f).sum + v := by
  induction l with
  | nil => cases hx
  | cons y l ih =>
    obtain ⟨hy, hnd⟩ := List.nodup_cons.mp hnd
    rw [List.map_cons, List.map_cons, List.sum_cons, List.sum_cons]
    by_cases hxy : x = y
    · have hrest : l.map (Function.update f x v) = l.map f := by
        apply List.map_congr_left
        intro z hz
        have hzx : z ≠ x := fun he ↦ hy (hxy ▸ he ▸ hz)
        exact Function.update_of_ne hzx _ _
      rw [hrest, ← hxy, Function.update_self]
      omega
    · have hmem : x ∈ l := by
        rcases List.mem_cons.mp hx with he | hmem
        · exact absurd he hxy
        · exact hmem
      rw [Function.update_of_ne (Ne.symm hxy)]
      have hl := ih hnd hmem
      omega

theorem workersLeft_update {b : Setup} {cpu : ℕ} (workers : ℕ → Option WorkerPc)
    (pc : Option WorkerPc) (hnd : b.cpus.Nodup) (hcpu : cpu ∈ b.cpus) :
    workersLeft b (Function.update workers cpu pc) + WorkerPc.left b.eventCount (workers cpu) =
      workersLeft b workers + WorkerPc.left b.eventCount pc := by
  have hcomp : (fun c ↦ WorkerPc.left b.eventCount (Function.update workers cpu pc c)) =
      Function.update (fun c ↦ WorkerPc.left b.eventCount (workers c)) cpu
        (WorkerPc.left b.eventCount pc) :=
    Function.comp_update (WorkerPc.left b.eventCount) workers cpu pc
  unfold workersLeft
  rw [hcomp]
  exact sum_map_update hnd hcpu

/-! ## Every step takes one off -/

section Step

variable {b : Setup} {s s' : State} {cpu : ℕ}

theorem left_readerStep (hlt : ∀ cpu ∈ b.cpus, cpu < b.cpus.length) (hnd : b.cpus.Nodup)
    (h : Inv b s) (hu : Uninterrupted s .reader) (hs : readerStep b s = some s') :
    s'.left b + 1 = s.left b := by
  unfold State.left
  cases readerStep_move hs with
  | init hr =>
    rcases h.init hnd hr with ⟨-, hfreed, hmem⟩
    rw [access_of_live hfreed (hlt _ hmem), hr]
    simp only [State.setThread, ReaderPc.left, List.length_cons]
    omega
  | @start cpu rest hr =>
    rcases h.start hnd hr with ⟨-, hfreed, hmem⟩
    -- the thread is not there yet
    have hnone : s.workers cpu = none := by
      have hth := h.threads cpu hmem
      unfold ThreadOk at hth
      rw [hr] at hth
      cases hw : s.workers cpu with
      | none => rfl
      | some pc =>
        rw [hw] at hth
        cases pc <;> exact absurd List.mem_cons_self hth.1
    have hworkers := workersLeft_update s.workers (some .created) hnd hmem
    rw [hnone] at hworkers
    rw [access_of_live hfreed (hlt _ hmem), hr]
    simp only [State.setThread, State.setWorker, ReaderPc.left, WorkerPc.left,
      List.length_cons] at hworkers ⊢
    omega
  | wait hr hdone =>
    rcases h.wait hnd hr hdone with ⟨-, hfreed, hmem⟩
    rw [access_of_live hfreed (hlt _ hmem), hr]
    simp only [State.setThread, ReaderPc.left, List.length_cons]
    omega
  | interrupted hr hdone hsig =>
    rw [hu rfl _ _ hr hdone] at hsig
    cases hsig
  | sum hr =>
    rcases h.sum hr with ⟨-, hfreed, hmem⟩
    rw [access_of_live hfreed (hlt _ hmem), hr]
    simp only [ReaderPc.left, List.length_cons]
    omega
  | initialised hr | started hr | released hr | waited hr | summed hr | freed hr =>
    rw [hr]
    simp only [ReaderPc.left, List.length_nil]
    omega

theorem left_setWorker (hnd : b.cpus.Nodup) (h : Inv b s) {pc : WorkerPc}
    (hw : s.workers cpu = some pc) {t : ℕ → BenchmarkThread} {pc' : WorkerPc}
    (hpc : WorkerPc.left b.eventCount (some pc') + 1 = WorkerPc.left b.eventCount (some pc)) :
    (({ s with threads := t } : State).setWorker cpu pc').left b + 1 = s.left b := by
  have hworkers := workersLeft_update s.workers (some pc') hnd (h.mem hw)
  rw [hw] at hworkers
  unfold State.left
  simp only [State.setWorker]
  omega

theorem left_workerStep (hlt : ∀ cpu ∈ b.cpus, cpu < b.cpus.length) (hnd : b.cpus.Nodup)
    (h : Inv b s) (hs : workerStep b s cpu = some s') : s'.left b + 1 = s.left b := by
  cases workerStep_move hs with
  | created hw =>
    rcases h.running hw (by simp) with ⟨-, -, -, hlive⟩
    rw [access_of_live hlive (hlt cpu (h.mem hw))]
    exact left_setWorker hnd h hw rfl
  | deadStack hw hr =>
    rcases h.running hw (by simp) with ⟨-, hcons, -, -⟩
    rw [hr] at hcons
    exact absurd trivial hcons
  | waited hw _ => exact left_setWorker hnd h hw rfl
  | turn hw hi =>
    apply left_setWorker hnd h hw
    simp only [WorkerPc.left]
    omega
  | left hw hi =>
    apply left_setWorker hnd h hw
    simp only [WorkerPc.left]
    omega
  | measured hw =>
    rcases h.running hw (by simp) with ⟨-, -, -, hlive⟩
    rw [access_of_live hlive (hlt cpu (h.mem hw))]
    exact left_setWorker hnd h hw rfl
  | stored hw =>
    rcases h.running hw (by simp) with ⟨-, -, -, hlive⟩
    rw [access_of_live hlive (hlt cpu (h.mem hw))]
    exact left_setWorker hnd h hw rfl

end Step

/-! ## There is a next step -/

/-- The threads have been released. -/
def ReaderPc.Released : ReaderPc → Prop
  | .init _ => False
  | .start _ => False
  | .release => False
  | _ => True

/-- What a run in which no wait is cut short keeps. -/
structure Live (b : Setup) (s : State) : Prop where
  inv : Inv b s
  released : s.reader.Released → s.mainStart = true

section Progress

variable {b : Setup} {s s' : State} {a : Action}

/-- A step whose access fails leaves the reader where it is. -/
theorem released_access {cpu : ℕ} (h : s.reader.Released → s.mainStart = true)
    (h' : s'.reader.Released → s'.mainStart = true) :
    (s.access b cpu s').reader.Released → (s.access b cpu s').mainStart = true := by
  rcases access_cases b s cpu s' with heq | ⟨fault, heq⟩
  · rw [heq]
    exact h'
  · rw [heq]
    exact h

theorem released_step (h : s.reader.Released → s.mainStart = true) (hs : step b s a = some s') :
    s'.reader.Released → s'.mainStart = true := by
  unfold step at hs
  split at hs
  · cases hs
  · cases a with
    | signal =>
      cases hs
      exact h
    | reader =>
      cases readerStep_move hs with
      | init | start => exact released_access h nofun
      | wait hr | interrupted hr | sum hr =>
        rw [hr] at h
        exact released_access (hr ▸ h) h
      | initialised | started => exact nofun
      | released => exact fun _ ↦ rfl
      | waited hr | summed hr | freed hr =>
        rw [hr] at h
        exact h
    | worker cpu =>
      cases workerStep_move hs with
      | created | measured | stored => exact released_access h h
      | deadStack | waited | turn | left => exact h

theorem Live.step (hlt : ∀ cpu ∈ b.cpus, cpu < b.cpus.length) (hnd : b.cpus.Nodup) (h : Live b s)
    (hu : Uninterrupted s a) (hs : step b s a = some s') : Live b s' :=
  ⟨h.inv.step hlt hnd hu hs, released_step h.released hs⟩

theorem live_initial (b : Setup) (memory : ℕ → BenchmarkThread) : Live b (.initial b memory) :=
  ⟨inv_initial b memory, nofun⟩

/-- A thread that has been released and has not finished can go on. -/
theorem Live.worker_step (h : Live b s) {cpu : ℕ} {pc : WorkerPc} (hw : s.workers cpu = some pc)
    (hpc : pc ≠ .finished) (hrel : s.reader.Released) :
    ∃ s', KernelBenchmark.step b s (.worker cpu) = some s' := by
  have hmain := h.released hrel
  unfold KernelBenchmark.step
  rw [h.inv.fault]
  show ∃ s', workerStep b s cpu = some s'
  unfold workerStep
  rw [hw]
  cases pc with
  | created => exact ⟨_, rfl⟩
  | waiting =>
    dsimp only
    split
    · exact ⟨_, rfl⟩
    · rw [if_pos hmain]
      exact ⟨_, rfl⟩
  | measuring i =>
    dsimp only
    split
    · exact ⟨_, rfl⟩
    · exact ⟨_, rfl⟩
  | measured => exact ⟨_, rfl⟩
  | stored => exact ⟨_, rfl⟩
  | finished => exact absurd rfl hpc

/-- The threads are there for the CPUs that the reader waits for. -/
theorem Live.waited (h : Live b s) {cpu : ℕ} {rest : List ℕ} (hr : s.reader = .wait (cpu :: rest))
    (hdone : (s.threads cpu).endDone = 0) :
    ∃ pc, s.workers cpu = some pc ∧ pc ≠ .finished := by
  have hok := h.inv.reader
  unfold ReaderOk at hok
  rw [hr] at hok
  have hmem : cpu ∈ b.cpus := hok.1.subset List.mem_cons_self
  have hth := h.inv.threads cpu hmem
  unfold ThreadOk at hth
  rw [hr] at hth
  cases hw : s.workers cpu with
  | none =>
    rw [hw] at hth
    exact absurd trivial hth.1
  | some pc =>
    refine ⟨pc, rfl, ?_⟩
    rintro rfl
    -- it would have completed its `end`
    rw [hw] at hth
    rcases hth with ⟨-, -, ⟨hc, -⟩ | ⟨-, hone⟩⟩
    · exact absurd List.mem_cons_self hc
    · rw [hone] at hdone
      cases hdone

/-- A step that may be taken: no signal, and no wait that one cuts short. -/
def Enabled (b : Setup) (s : State) (a : Action) : Prop :=
  a ≠ .signal ∧ Uninterrupted s a ∧ ∃ s', KernelBenchmark.step b s a = some s'

theorem Live.reader_enabled (h : Live b s) (hwait : ∀ cpu rest, s.reader ≠ .wait (cpu :: rest))
    (hreturned : ∀ time, s.reader ≠ .returned time) : Enabled b s .reader := by
  refine ⟨nofun, fun _ cpu rest hr ↦ absurd hr (hwait cpu rest), ?_⟩
  unfold KernelBenchmark.step
  rw [h.inv.fault]
  show ∃ s', readerStep b s = some s'
  unfold readerStep
  cases hr : s.reader with
  | init rest => cases rest <;> exact ⟨_, rfl⟩
  | start rest => cases rest <;> exact ⟨_, rfl⟩
  | release => exact ⟨_, rfl⟩
  | wait rest =>
    cases rest with
    | nil => exact ⟨_, rfl⟩
    | cons cpu rest => exact absurd hr (hwait cpu rest)
  | sum rest time => cases rest <;> exact ⟨_, rfl⟩
  | free time => exact ⟨_, rfl⟩
  | returned time => exact absurd hr (hreturned time)

/-- There is a next step until `time_show` has returned. -/
theorem Live.next (h : Live b s) (hreturned : ∀ time, s.reader ≠ .returned time) :
    ∃ a, Enabled b s a := by
  by_cases hwait : ∀ cpu rest, s.reader ≠ .wait (cpu :: rest)
  · exact ⟨.reader, h.reader_enabled hwait hreturned⟩
  · obtain ⟨cpu, rest, hr⟩ : ∃ cpu rest, s.reader = .wait (cpu :: rest) := by
      simpa using hwait
    by_cases hdone : (s.threads cpu).endDone = 0
    · -- the reader waits, so its thread goes on
      obtain ⟨pc, hw, hpc⟩ := h.waited hr hdone
      exact ⟨.worker cpu, nofun, nofun, h.worker_step hw hpc (hr ▸ trivial)⟩
    · refine ⟨.reader, nofun, ?_, ?_⟩
      · intro _ cpu' rest' hr' hzero
        rw [hr] at hr'
        cases hr'
        exact absurd hzero hdone
      · unfold KernelBenchmark.step
        rw [h.inv.fault]
        show ∃ s', readerStep b s = some s'
        unfold readerStep
        rw [hr]
        dsimp only
        rw [if_pos (Nat.pos_of_ne_zero hdone)]
        exact ⟨_, rfl⟩

/-- Once `time_show` has returned, nothing is left to do. -/
theorem Live.left_of_returned (h : Live b s) {time : ℕ} (hr : s.reader = .returned time) :
    s.left b = 0 ∧ ∀ cpu ∈ b.cpus, s.workers cpu = some .finished := by
  have hfinished : ∀ cpu ∈ b.cpus, s.workers cpu = some .finished := by
    intro cpu hcpu
    apply h.inv.finished hcpu
    rw [hr]
    trivial
  refine ⟨?_, hfinished⟩
  unfold State.left workersLeft
  have hzero : (b.cpus.map fun cpu ↦ WorkerPc.left b.eventCount (s.workers cpu)).sum = 0 := by
    apply List.sum_eq_zero
    intro x hx
    obtain ⟨cpu, hcpu, rfl⟩ := List.mem_map.mp hx
    rw [hfinished cpu hcpu]
    rfl
  rw [hr, hzero]
  rfl

end Progress

/-! ## Runs -/

/-- The steps of a run that are no signals. -/
def steps (as : List Action) : ℕ := as.countP fun a ↦ a ≠ .signal

/-- The steps of `time_show` and its threads, in all. -/
def Setup.steps (b : Setup) : ℕ := 4 * b.cpus.length + 6 + b.cpus.length * (b.eventCount + 5)

theorem left_initial (b : Setup) (memory : ℕ → BenchmarkThread) :
    (State.initial b memory).left b = b.steps := by
  have hsum : workersLeft b (fun _ ↦ none) = b.cpus.length * (b.eventCount + 5) := by
    unfold workersLeft
    rw [List.map_const', List.sum_replicate_nat]
    rfl
  unfold State.left Setup.steps
  show b.cpus.length + 1 + (3 * b.cpus.length + 5) + workersLeft b (fun _ ↦ none) = _
  rw [hsum]
  omega

section Runs

variable {b : Setup} {s s' : State}

theorem Live.left_step (hlt : ∀ cpu ∈ b.cpus, cpu < b.cpus.length) (hnd : b.cpus.Nodup)
    (h : Live b s) {a : Action} (hu : Uninterrupted s a) (hs : KernelBenchmark.step b s a = some s') :
    steps [a] + s'.left b = s.left b := by
  unfold KernelBenchmark.step at hs
  rw [h.inv.fault] at hs
  cases a with
  | signal =>
    cases hs
    exact Nat.zero_add _
  | reader =>
    rw [← left_readerStep hlt hnd h.inv hu hs]
    exact Nat.add_comm _ _
  | worker cpu =>
    rw [← left_workerStep hlt hnd h.inv hs]
    exact Nat.add_comm _ _

theorem Live.left_execute (hlt : ∀ cpu ∈ b.cpus, cpu < b.cpus.length) (hnd : b.cpus.Nodup)
    (h : Live b s) {as : List Action} (hu : Throughout (KernelBenchmark.step b) Uninterrupted as s)
    (hr : execute (KernelBenchmark.step b) as s = some s') :
    Live b s' ∧ steps as + s'.left b = s.left b := by
  induction as generalizing s with
  | nil =>
    cases hr
    exact ⟨h, Nat.zero_add _⟩
  | cons a as ih =>
    rw [execute, Option.bind_eq_some_iff] at hr
    rcases hr with ⟨t, ht, hrest⟩
    have hfirst := h.left_step hlt hnd hu.1 ht
    obtain ⟨hlive, hlast⟩ := ih (h.step hlt hnd hu.1 ht) (hu.2 t ht) hrest
    refine ⟨hlive, ?_⟩
    have hsplit : steps (a :: as) = steps [a] + steps as := by
      unfold steps
      rw [← List.singleton_append, List.countP_append]
    omega

/-- From every state of a run in which no wait is cut short, `time_show` gets to its end. -/
theorem Live.completes (hlt : ∀ cpu ∈ b.cpus, cpu < b.cpus.length) (hnd : b.cpus.Nodup)
    (h : Live b s) : ∃ as t time, .signal ∉ as ∧
      Throughout (KernelBenchmark.step b) Uninterrupted as s ∧
      execute (KernelBenchmark.step b) as s = some t ∧ t.reader = .returned time := by
  induction hn : s.left b using Nat.strong_induction_on generalizing s with
  | _ n ih =>
    by_cases hreturned : ∃ time, s.reader = .returned time
    · obtain ⟨time, hr⟩ := hreturned
      exact ⟨[], s, time, nofun, trivial, rfl, hr⟩
    · rw [not_exists] at hreturned
      obtain ⟨a, hsignal, hu, s', hs⟩ := h.next hreturned
      have hstep := h.left_step hlt hnd hu hs
      have hone : steps [a] = 1 := by
        unfold steps
        rw [List.countP_singleton, if_pos (by simpa using hsignal)]
      obtain ⟨as, t, time, hmem, hthroughout, hrun, hr⟩ :=
        ih (s'.left b) (by omega) (h.step hlt hnd hu hs) rfl
      refine ⟨a :: as, t, time, ?_, ⟨hu, fun s'' hs'' ↦ ?_⟩, ?_, hr⟩
      · rw [List.mem_cons, not_or]
        exact ⟨hsignal.symm, hmem⟩
      · rw [hs] at hs''
        cases hs''
        exact hthroughout
      · rw [execute, hs]
        exact hrun

end Runs

/-- However the threads are scheduled, a run in which no wait is cut short has a bounded number of
steps, always the same when it is over; it is over only when every thread has finished and
`time_show` has returned their total, and every run can be continued to there. -/
theorem timeShow_returns {n : ℕ} {b : Setup} {memory : ℕ → BenchmarkThread} {as : List Action}
    {s : State} (hcpus : b.cpus = List.range n)
    (hu : Throughout (step b) Uninterrupted as (.initial b memory))
    (hr : execute (step b) as (.initial b memory) = some s) :
    steps as ≤ b.steps ∧
      ((∀ a, ¬Enabled b s a) → steps as = b.steps ∧
        s.reader = .returned (((List.range n).map b.time).sum % 2 ^ 64) ∧
        ∀ cpu < n, s.workers cpu = some .finished) ∧
      ∃ as' t time, .signal ∉ as' ∧ Throughout (step b) Uninterrupted as' s ∧
        execute (step b) as' s = some t ∧ t.reader = .returned time := by
  have hlt : ∀ cpu ∈ b.cpus, cpu < b.cpus.length := by
    intro cpu hcpu
    rw [hcpus, List.length_range]
    rw [hcpus] at hcpu
    exact List.mem_range.mp hcpu
  have hnd : b.cpus.Nodup := by
    rw [hcpus]
    exact List.nodup_range
  obtain ⟨hlive, hsteps⟩ := (live_initial b memory).left_execute hlt hnd hu hr
  rw [left_initial] at hsteps
  refine ⟨by omega, ?_, hlive.completes hlt hnd⟩
  intro hstuck
  obtain ⟨time, hret⟩ : ∃ time, s.reader = .returned time := by
    by_contra hn
    rw [not_exists] at hn
    obtain ⟨a, ha⟩ := hlive.next hn
    exact hstuck a ha
  obtain ⟨hleft, hfinished⟩ := hlive.left_of_returned hret
  have hok := hlive.inv.reader
  unfold ReaderOk at hok
  rw [hret] at hok
  refine ⟨by omega, ?_, ?_⟩
  · rw [hret, hok, hcpus]
    rfl
  · intro cpu hcpu
    apply hfinished
    rw [hcpus]
    exact List.mem_range.mpr hcpu

theorem timeShow_returns_one :
    ∃ s, execute (step oneCpu) [.reader, .reader, .reader, .reader, .reader]
        (.initial oneCpu fun _ ↦ ⟨false, 0, 0⟩) = some s ∧
      steps [.reader, .reader, .reader, .reader, .reader] ≤ oneCpu.steps ∧
      ((∀ a, ¬Enabled oneCpu s a) →
        steps [.reader, .reader, .reader, .reader, .reader] = oneCpu.steps ∧
        s.reader = .returned (((List.range 1).map oneCpu.time).sum % 2 ^ 64) ∧
        ∀ cpu < 1, s.workers cpu = some .finished) ∧
      ∃ as' t time, .signal ∉ as' ∧ Throughout (step oneCpu) Uninterrupted as' s ∧
        execute (step oneCpu) as' s = some t ∧ t.reader = .returned time := by
  have hrun : ∃ s, execute (step oneCpu) [.reader, .reader, .reader, .reader, .reader]
      (.initial oneCpu fun _ ↦ ⟨false, 0, 0⟩) = some s := ⟨_, rfl⟩
  rcases hrun with ⟨s, hs⟩
  exact ⟨s, hs, timeShow_returns rfl (uninterrupted_of_no_signal (by decide) rfl) hs⟩

end UstBench.KernelBenchmark
