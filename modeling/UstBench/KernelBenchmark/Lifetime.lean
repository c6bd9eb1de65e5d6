import UstBench.KernelBenchmark.TimeShow
import UstBench.Reasoning.Transition

/-!
# The lifetime of the thread array

`time_show` frees the array behind its waits, whether or not they were waited out.  As long as no
wait is interrupted, the array outlives the last access of every thread, and the total is right.
-/

namespace UstBench.KernelBenchmark

open Reasoning

/-- The sum of the times of some threads, as `time_show` adds them up. -/
def Setup.total (b : Setup) (cpus : List ℕ) : ℕ := (cpus.map b.time).sum % 2 ^ 64

/-- No step is a wait of `time_show` that a signal cuts short. -/
def Uninterrupted (s : State) (a : Action) : Prop :=
  a = .reader → ∀ cpu rest, s.reader = .wait (cpu :: rest) → (s.threads cpu).endDone = 0 →
    s.signal = false

/-- The entry of a CPU is initialised, its thread is started, its `end` has been waited for. -/
def ReaderPc.Initialised : ReaderPc → ℕ → Prop
  | .init rest, cpu => cpu ∉ rest
  | _, _ => True

def ReaderPc.Started : ReaderPc → ℕ → Prop
  | .init _, _ => False
  | .start rest, cpu => cpu ∉ rest
  | _, _ => True

def ReaderPc.Consumed : ReaderPc → ℕ → Prop
  | .wait rest, cpu => cpu ∉ rest
  | .sum _ _, _ => True
  | .free _, _ => True
  | .returned _, _ => True
  | _, _ => False

/-- What holds of the entry of one CPU. -/
def ThreadOk (b : Setup) (s : State) (cpu : ℕ) : Prop :=
  match s.workers cpu with
  | none => ¬s.reader.Started cpu ∧ ¬s.reader.Consumed cpu ∧
      (s.reader.Initialised cpu → (s.threads cpu).endDone = 0)
  | some .finished => s.reader.Started cpu ∧ (s.threads cpu).time = b.time cpu ∧
      (s.reader.Consumed cpu ∧ (s.threads cpu).endDone = 0 ∨
        ¬s.reader.Consumed cpu ∧ (s.threads cpu).endDone = 1)
  | some .stored => s.reader.Started cpu ∧ (s.threads cpu).time = b.time cpu ∧
      ¬s.reader.Consumed cpu ∧ (s.threads cpu).endDone = 0
  | some _ => s.reader.Started cpu ∧ ¬s.reader.Consumed cpu ∧ (s.threads cpu).endDone = 0

/-- The reader's loops run over the CPUs, and what it has added up is right. -/
def ReaderOk (b : Setup) (s : State) : Prop :=
  match s.reader with
  | .init rest => rest <:+ b.cpus ∧ s.freed = false
  | .start rest => rest <:+ b.cpus ∧ s.freed = false
  | .release => s.freed = false
  | .wait rest => rest <:+ b.cpus ∧ s.freed = false
  | .sum rest time => s.freed = false ∧ ∃ before, b.cpus = before ++ rest ∧ time = b.total before
  | .free time => s.freed = false ∧ time = b.total b.cpus
  | .returned time => time = b.total b.cpus

structure Inv (b : Setup) (s : State) : Prop where
  fault : s.fault = none
  reader : ReaderOk b s
  threads : ∀ cpu ∈ b.cpus, ThreadOk b s cpu
  others : ∀ cpu, cpu ∉ b.cpus → s.workers cpu = none

section Access

variable {b : Setup} {s s' : State} {cpu : ℕ}

theorem access_of_live (hf : s.freed = false) (hlt : cpu < b.cpus.length) :
    s.access b cpu s' = s' := by
  unfold State.access
  rw [hf, if_neg Bool.false_ne_true, if_pos hlt]

theorem ThreadOk.of_eq {cpu' : ℕ} (h : ThreadOk b s cpu') (ht : s'.threads cpu' = s.threads cpu')
    (hw : s'.workers cpu' = s.workers cpu')
    (hi : s'.reader.Initialised cpu' ↔ s.reader.Initialised cpu')
    (hs : s'.reader.Started cpu' ↔ s.reader.Started cpu')
    (hc : s'.reader.Consumed cpu' ↔ s.reader.Consumed cpu') : ThreadOk b s' cpu' := by
  unfold ThreadOk at h ⊢
  rw [ht, hw, hi, hs, hc]
  exact h

/-- Before its `end` is waited for, the array is there for a thread. -/
theorem ReaderOk.live (h : ReaderOk b s) (hc : ¬s.reader.Consumed cpu) : s.freed = false := by
  unfold ReaderOk at h
  cases hr : s.reader with
  | init rest => rw [hr] at h; exact h.2
  | start rest => rw [hr] at h; exact h.2
  | release => rw [hr] at h; exact h
  | wait rest => rw [hr] at h; exact h.2
  | sum rest time => rw [hr] at hc; exact absurd trivial hc
  | free time => rw [hr] at hc; exact absurd trivial hc
  | returned time => rw [hr] at hc; exact absurd trivial hc

end Access

/-! ## The steps of the reader -/

section Reader

variable {b : Setup} {s s' : State} {cpu : ℕ} {rest : List ℕ}

/-- What a loop over the CPUs knows of the one it visits. -/
theorem visit (hnd : b.cpus.Nodup) (h : cpu :: rest <:+ b.cpus) :
    cpu ∈ b.cpus ∧ rest <:+ b.cpus ∧ cpu ∉ rest := by
  have hsub := h.sublist.nodup hnd
  exact ⟨h.subset List.mem_cons_self, (List.suffix_cons cpu rest).trans h,
    (List.nodup_cons.mp hsub).1⟩

theorem notMem_tail_iff {cpu' : ℕ} (hne : cpu' ≠ cpu) : cpu' ∉ rest ↔ cpu' ∉ cpu :: rest := by
  rw [List.mem_cons, not_or]
  exact ⟨fun h ↦ ⟨hne, h⟩, fun h ↦ h.2⟩

theorem Inv.init (hnd : b.cpus.Nodup) (h : Inv b s) (hr : s.reader = .init (cpu :: rest)) :
    Inv b (({ s with reader := .init rest } : State).setThread cpu
      { s.threads cpu with endDone := 0, time := 0 }) ∧
      s.freed = false ∧ cpu ∈ b.cpus := by
  have hok := h.reader
  unfold ReaderOk at hok
  rw [hr] at hok
  rcases visit hnd hok.1 with ⟨hmem, hsuf, hnot⟩
  refine ⟨⟨h.fault, ⟨hsuf, hok.2⟩, ?_, h.others⟩, hok.2, hmem⟩
  intro cpu' hcpu'
  have hth := h.threads cpu' hcpu'
  by_cases hne : cpu' = cpu
  · -- no thread is started before the second loop
    subst hne
    unfold ThreadOk at hth ⊢
    rw [hr] at hth
    cases hw : s.workers cpu' with
    | none =>
      rw [hw] at hth
      simp only [State.setThread, hw, Function.update_self]
      exact ⟨fun h0 ↦ h0, fun h0 ↦ h0, fun _ ↦ trivial⟩
    | some pc =>
      -- every thread there is has been started
      rw [hw] at hth
      cases pc <;> exact absurd hth.1 fun h0 ↦ h0
  · apply hth.of_eq
    · exact Function.update_of_ne hne _ _
    · rfl
    · rw [hr]
      exact notMem_tail_iff hne
    · rw [hr]
      exact Iff.rfl
    · rw [hr]
      exact Iff.rfl

theorem Inv.start (hnd : b.cpus.Nodup) (h : Inv b s) (hr : s.reader = .start (cpu :: rest)) :
    Inv b ((({ s with reader := .start rest } : State).setThread cpu
      { s.threads cpu with prev := true }).setWorker cpu .created) ∧
      s.freed = false ∧ cpu ∈ b.cpus := by
  have hok := h.reader
  unfold ReaderOk at hok
  rw [hr] at hok
  rcases visit hnd hok.1 with ⟨hmem, hsuf, hnot⟩
  refine ⟨⟨h.fault, ⟨hsuf, hok.2⟩, ?_, ?_⟩, hok.2, hmem⟩
  · intro cpu' hcpu'
    have hth := h.threads cpu' hcpu'
    by_cases hne : cpu' = cpu
    · subst hne
      unfold ThreadOk at hth ⊢
      rw [hr] at hth
      simp only [State.setThread, State.setWorker, Function.update_self]
      cases hw : s.workers cpu' with
      | none =>
        -- the first loop has left nothing completed
        rw [hw] at hth
        exact ⟨hnot, fun h0 ↦ h0, hth.2.2 trivial⟩
      | some pc =>
        -- a thread that runs is behind the loop already
        rw [hw] at hth
        cases pc <;> exact absurd List.mem_cons_self hth.1
    · apply hth.of_eq
      · exact Function.update_of_ne hne _ _
      · exact Function.update_of_ne hne _ _
      · rw [hr]
        exact Iff.rfl
      · rw [hr]
        exact notMem_tail_iff hne
      · rw [hr]
        exact Iff.rfl
  · intro cpu' hcpu'
    have hne : cpu' ≠ cpu := fun he ↦ hcpu' (he ▸ hmem)
    simp only [State.setThread, State.setWorker, Function.update_of_ne hne]
    exact h.others cpu' hcpu'

-- a completed `end` belongs to a thread that has finished
theorem Inv.wait (hnd : b.cpus.Nodup) (h : Inv b s) (hr : s.reader = .wait (cpu :: rest))
    (hdone : 0 < (s.threads cpu).endDone) :
    Inv b (({ s with reader := .wait rest } : State).setThread cpu
      { s.threads cpu with endDone := (s.threads cpu).endDone - 1 }) ∧
      s.freed = false ∧ cpu ∈ b.cpus := by
  have hok := h.reader
  unfold ReaderOk at hok
  rw [hr] at hok
  rcases visit hnd hok.1 with ⟨hmem, hsuf, hnot⟩
  refine ⟨⟨h.fault, ⟨hsuf, hok.2⟩, ?_, h.others⟩, hok.2, hmem⟩
  intro cpu' hcpu'
  have hth := h.threads cpu' hcpu'
  by_cases hne : cpu' = cpu
  · subst hne
    unfold ThreadOk at hth ⊢
    rw [hr] at hth
    simp only [State.setThread, Function.update_self]
    cases hw : s.workers cpu' with
    | none =>
      rw [hw] at hth
      exact absurd trivial hth.1
    | some pc =>
      rw [hw] at hth
      cases pc with
      | finished =>
        -- the loop comes to each thread once, so the one completion is still there to be taken
        rcases hth with ⟨-, htime, ⟨hc, -⟩ | ⟨-, hone⟩⟩
        · exact absurd List.mem_cons_self hc
        · exact ⟨trivial, htime, .inl ⟨hnot, by simp only [hone]⟩⟩
      | stored =>
        have hzero := hth.2.2.2
        omega
      | _ =>
        have hzero := hth.2.2
        omega
  · apply hth.of_eq
    · exact Function.update_of_ne hne _ _
    · rfl
    · rw [hr]
      exact Iff.rfl
    · rw [hr]
      exact Iff.rfl
    · rw [hr]
      exact notMem_tail_iff hne

theorem total_cons (b : Setup) (before : List ℕ) (cpu : ℕ) :
    toU64 (b.total before + b.time cpu) = b.total (before ++ [cpu]) := by
  unfold Setup.total toU64
  rw [List.map_append, List.sum_append]
  simp only [List.map_cons, List.map_nil, List.sum_cons, List.sum_nil]
  omega

theorem Inv.sum (h : Inv b s) {time : ℕ}
    (hr : s.reader = .sum (cpu :: rest) time) :
    Inv b { s with reader := .sum rest (toU64 (time + (s.threads cpu).time)) } ∧
      s.freed = false ∧ cpu ∈ b.cpus := by
  have hok := h.reader
  unfold ReaderOk at hok
  rw [hr] at hok
  rcases hok with ⟨hfreed, before, hsplit, htime⟩
  have hmem : cpu ∈ b.cpus := by simp [hsplit]
  -- its `end` has been waited for, so the thread has stored its time
  have hth := h.threads cpu hmem
  have hstored : (s.threads cpu).time = b.time cpu := by
    unfold ThreadOk at hth
    rw [hr] at hth
    cases hw : s.workers cpu with
    | none =>
      rw [hw] at hth
      exact absurd trivial hth.1
    | some pc =>
      rw [hw] at hth
      cases pc with
      | finished => exact hth.2.1
      | stored => exact hth.2.1
      | _ => exact absurd trivial hth.2.1
  refine ⟨⟨h.fault, ⟨hfreed, before ++ [cpu], by simp [hsplit], ?_⟩, ?_, h.others⟩, hfreed, hmem⟩
  · rw [hstored, htime, total_cons]
  · intro cpu' hcpu'
    have hth' := h.threads cpu' hcpu'
    refine hth'.of_eq (by rfl) (by rfl) ?_ ?_ ?_ <;> rw [hr] <;> exact Iff.rfl

/-- The steps between two loops leave the entries as they are. -/
theorem Inv.turn (h : Inv b s) (pc : ReaderPc) (m f : Bool)
    (hok : ReaderOk b { s with reader := pc, mainStart := m, freed := f })
    (hpc : ∀ cpu ∈ b.cpus, (pc.Initialised cpu ↔ s.reader.Initialised cpu) ∧
      (pc.Started cpu ↔ s.reader.Started cpu) ∧ (pc.Consumed cpu ↔ s.reader.Consumed cpu)) :
    Inv b { s with reader := pc, mainStart := m, freed := f } := by
  refine ⟨h.fault, hok, ?_, h.others⟩
  intro cpu hcpu
  have hth := h.threads cpu hcpu
  have hiff := hpc cpu hcpu
  exact hth.of_eq rfl rfl hiff.1 hiff.2.1 hiff.2.2

/-- A step of `time_show` that does not cut a wait short keeps the invariant. -/
theorem Inv.readerStep (hlt : ∀ cpu ∈ b.cpus, cpu < b.cpus.length) (hnd : b.cpus.Nodup)
    (h : Inv b s) (hu : Uninterrupted s .reader) (hs : readerStep b s = some s') : Inv b s' := by
  have hok := h.reader
  unfold ReaderOk at hok
  cases readerStep_move hs with
  | init hr =>
    rcases h.init hnd hr with ⟨hinv, hfreed, hmem⟩
    rw [access_of_live hfreed (hlt _ hmem)]
    exact hinv
  | start hr =>
    rcases h.start hnd hr with ⟨hinv, hfreed, hmem⟩
    rw [access_of_live hfreed (hlt _ hmem)]
    exact hinv
  | wait hr hdone =>
    rcases h.wait hnd hr hdone with ⟨hinv, hfreed, hmem⟩
    rw [access_of_live hfreed (hlt _ hmem)]
    exact hinv
  | interrupted hr hdone hsig =>
    -- without the completion only a signal would end the wait
    rw [hu rfl _ _ hr hdone] at hsig
    cases hsig
  | sum hr =>
    rcases h.sum hr with ⟨hinv, hfreed, hmem⟩
    rw [access_of_live hfreed (hlt _ hmem)]
    exact hinv
  | initialised hr =>
    rw [hr] at hok
    apply h.turn (.start b.cpus) s.mainStart s.freed ⟨List.suffix_rfl, hok.2⟩
    intro cpu hcpu
    rw [hr]
    simp [ReaderPc.Initialised, ReaderPc.Started, ReaderPc.Consumed, hcpu]
  | started hr =>
    rw [hr] at hok
    apply h.turn .release s.mainStart s.freed hok.2
    intro cpu hcpu
    rw [hr]
    simp [ReaderPc.Initialised, ReaderPc.Started, ReaderPc.Consumed]
  | released hr =>
    rw [hr] at hok
    apply h.turn (.wait b.cpus) true s.freed ⟨List.suffix_rfl, hok⟩
    intro cpu hcpu
    rw [hr]
    simp [ReaderPc.Initialised, ReaderPc.Started, ReaderPc.Consumed, hcpu]
  | waited hr =>
    rw [hr] at hok
    apply h.turn (.sum b.cpus 0) s.mainStart s.freed ⟨hok.2, [], rfl, rfl⟩
    intro cpu hcpu
    rw [hr]
    simp [ReaderPc.Initialised, ReaderPc.Started, ReaderPc.Consumed]
  | summed hr =>
    -- what is summed up are all CPUs
    rw [hr] at hok
    rcases hok with ⟨hfreed, before, hsplit, htime⟩
    rw [List.append_nil] at hsplit
    apply h.turn (.free _) s.mainStart s.freed ⟨hfreed, by rw [htime, hsplit]⟩
    intro cpu hcpu
    rw [hr]
    simp [ReaderPc.Initialised, ReaderPc.Started, ReaderPc.Consumed]
  | freed hr =>
    rw [hr] at hok
    apply h.turn (.returned _) s.mainStart true hok.2
    intro cpu hcpu
    rw [hr]
    simp [ReaderPc.Initialised, ReaderPc.Started, ReaderPc.Consumed]

end Reader

/-! ## The steps of a thread -/

section Worker

variable {b : Setup} {s s' : State} {cpu : ℕ}

theorem Inv.mem (h : Inv b s) {pc : WorkerPc} (hw : s.workers cpu = some pc) : cpu ∈ b.cpus := by
  by_contra hn
  rw [h.others cpu hn] at hw
  cases hw

/-- A thread on its way has been started, and nobody has waited for it yet. -/
theorem Inv.running (h : Inv b s) {pc : WorkerPc} (hw : s.workers cpu = some pc)
    (hpc : pc ≠ .finished) :
    s.reader.Started cpu ∧ ¬s.reader.Consumed cpu ∧ (s.threads cpu).endDone = 0 ∧
      s.freed = false := by
  have hth := h.threads cpu (h.mem hw)
  unfold ThreadOk at hth
  rw [hw] at hth
  cases pc with
  | finished => exact absurd rfl hpc
  | stored => exact ⟨hth.1, hth.2.2.1, hth.2.2.2, h.reader.live hth.2.2.1⟩
  | _ => exact ⟨hth.1, hth.2.1, hth.2.2, h.reader.live hth.2.1⟩

/-- A thread whose `end` has been waited for has finished. -/
theorem Inv.finished (h : Inv b s) (hmem : cpu ∈ b.cpus) (hc : s.reader.Consumed cpu) :
    s.workers cpu = some .finished := by
  have hth := h.threads cpu hmem
  unfold ThreadOk at hth
  cases hw : s.workers cpu with
  | none =>
    rw [hw] at hth
    exact absurd hc hth.2.1
  | some pc =>
    by_cases hpc : pc = .finished
    · rw [hpc]
    · exact absurd hc (h.running hw hpc).2.1

/-- A thread changes its own entry and its own position, and nothing else. -/
theorem Inv.worker (h : Inv b s) (hmem : cpu ∈ b.cpus) {t : BenchmarkThread} {pc : WorkerPc}
    (hok : ThreadOk b ((s.setThread cpu t).setWorker cpu pc) cpu) :
    Inv b ((s.setThread cpu t).setWorker cpu pc) := by
  refine ⟨h.fault, h.reader, ?_, ?_⟩
  · intro cpu' hcpu'
    by_cases hne : cpu' = cpu
    · rw [hne]
      exact hok
    · have hth := h.threads cpu' hcpu'
      apply hth.of_eq
      · exact Function.update_of_ne hne _ _
      · exact Function.update_of_ne hne _ _
      · exact Iff.rfl
      · exact Iff.rfl
      · exact Iff.rfl
  · intro cpu' hcpu'
    have hne : cpu' ≠ cpu := fun he ↦ hcpu' (he ▸ hmem)
    simp only [State.setThread, State.setWorker, Function.update_of_ne hne]
    exact h.others cpu' hcpu'

-- up to the end of its loop a thread only moves on
theorem Inv.move (h : Inv b s) {pc pc' : WorkerPc} (hw : s.workers cpu = some pc)
    (hpc : pc ≠ .finished) (hpc' : pc' ≠ .stored ∧ pc' ≠ .finished) :
    Inv b (s.setWorker cpu pc') := by
  rcases h.running hw hpc with ⟨hstart, hcons, hdone, -⟩
  have hsame : s.setWorker cpu pc' = (s.setThread cpu (s.threads cpu)).setWorker cpu pc' := by
    simp only [State.setThread, Function.update_eq_self]
  rw [hsame]
  apply h.worker (h.mem hw)
  unfold ThreadOk
  simp only [State.setThread, State.setWorker, Function.update_self]
  cases pc' with
  | stored => exact absurd rfl hpc'.1
  | finished => exact absurd rfl hpc'.2
  | _ => exact ⟨hstart, hcons, hdone⟩

/-- A step of a thread keeps the invariant. -/
theorem Inv.workerStep (hlt : ∀ cpu ∈ b.cpus, cpu < b.cpus.length) (h : Inv b s)
    (hs : workerStep b s cpu = some s') : Inv b s' := by
  cases workerStep_move hs with
  | created hw =>
    rcases h.running hw (by simp) with ⟨-, -, -, hlive⟩
    rw [access_of_live hlive (hlt cpu (h.mem hw))]
    exact h.move hw (by simp) (by simp)
  | deadStack hw hr =>
    -- `time_show` cannot have returned: it would have waited for this thread
    rcases h.running hw (by simp) with ⟨-, hcons, -, -⟩
    rw [hr] at hcons
    exact absurd trivial hcons
  | waited hw _ => exact h.move hw (by simp) (by simp)
  | turn hw _ => exact h.move hw (by simp) (by simp)
  | left hw _ => exact h.move hw (by simp) (by simp)
  | measured hw =>
    rcases h.running hw (by simp) with ⟨hstart, hcons, hdone, hlive⟩
    rw [access_of_live hlive (hlt cpu (h.mem hw))]
    apply h.worker (h.mem hw)
    unfold ThreadOk
    simp only [State.setThread, State.setWorker, Function.update_self]
    exact ⟨hstart, trivial, hcons, hdone⟩
  | stored hw =>
    rcases h.running hw (by simp) with ⟨hstart, hcons, hdone, hlive⟩
    have htime : (s.threads cpu).time = b.time cpu := by
      have hth := h.threads cpu (h.mem hw)
      unfold ThreadOk at hth
      rw [hw] at hth
      exact hth.2.1
    rw [access_of_live hlive (hlt cpu (h.mem hw))]
    apply h.worker (h.mem hw)
    unfold ThreadOk
    simp only [State.setThread, State.setWorker, Function.update_self]
    exact ⟨hstart, htime, .inr ⟨hcons, by rw [hdone]⟩⟩

end Worker

/-! ## Runs -/

theorem Inv.step {b : Setup} {s s' : State} {a : Action}
    (hlt : ∀ cpu ∈ b.cpus, cpu < b.cpus.length) (hnd : b.cpus.Nodup) (h : Inv b s)
    (hu : Uninterrupted s a) (hs : step b s a = some s') : Inv b s' := by
  unfold KernelBenchmark.step at hs
  rw [h.fault] at hs
  cases a with
  | signal =>
    cases hs
    exact ⟨rfl, h.reader, h.threads, h.others⟩
  | reader => exact h.readerStep hlt hnd hu hs
  | worker cpu => exact h.workerStep hlt hs

theorem inv_initial (b : Setup) (memory : ℕ → BenchmarkThread) : Inv b (.initial b memory) where
  fault := rfl
  reader := ⟨List.suffix_rfl, rfl⟩
  threads _ hcpu := ⟨fun h ↦ h, fun h ↦ h, fun h ↦ absurd hcpu h⟩
  others _ _ := rfl

/-- The invariant holds after every run on the CPUs `0 .. n - 1` in which no wait is cut short. -/
theorem inv_execute {n : ℕ} {b : Setup} {memory : ℕ → BenchmarkThread} {as : List Action}
    {s : State} (hcpus : b.cpus = List.range n)
    (hu : Throughout (step b) Uninterrupted as (.initial b memory))
    (hr : execute (step b) as (.initial b memory) = some s) : Inv b s := by
  have hlt : ∀ cpu ∈ b.cpus, cpu < b.cpus.length := by
    intro cpu hcpu
    rw [hcpus, List.length_range]
    rw [hcpus] at hcpu
    exact List.mem_range.mp hcpu
  have hnd : b.cpus.Nodup := by
    rw [hcpus]
    exact List.nodup_range
  exact invariant_execute (fun hi hc hst ↦ hi.step hlt hnd hc hst) (inv_initial b memory) hu hr

/-- In a run of `time_show` on the CPUs `0 .. n - 1` in which no wait is cut short, nothing is
touched that is not there, the array is freed only after every thread has completed its `end`, and
the total returned is the sum of the times of all threads. -/
theorem timeShow_waits {n : ℕ} {b : Setup} {memory : ℕ → BenchmarkThread} {as : List Action}
    {s : State} (hcpus : b.cpus = List.range n)
    (hu : Throughout (step b) Uninterrupted as (.initial b memory))
    (hr : execute (step b) as (.initial b memory) = some s) :
    s.fault = none ∧
      (s.freed = true → ∀ cpu < n, s.workers cpu = some .finished) ∧
      ∀ time, s.reader = .returned time → time = ((List.range n).map b.time).sum % 2 ^ 64 := by
  have hinv : Inv b s := inv_execute hcpus hu hr
  refine ⟨hinv.fault, ?_, ?_⟩
  · intro hfreed cpu hcpu
    have hmem : cpu ∈ b.cpus := by
      rw [hcpus]
      exact List.mem_range.mpr hcpu
    -- the array is freed behind the last wait
    have hcons : s.reader.Consumed cpu := by
      by_contra hn
      rw [hinv.reader.live hn] at hfreed
      cases hfreed
    exact hinv.finished hmem hcons
  · intro time hret
    have hok := hinv.reader
    unfold ReaderOk at hok
    rw [hret] at hok
    rw [← hcpus]
    exact hok

theorem access_signal {b : Setup} {s s' : State} {cpu : ℕ} (h : s'.signal = s.signal) :
    (s.access b cpu s').signal = s.signal := by
  unfold State.access
  split
  · rfl
  · split
    · exact h
    · rfl

theorem step_signal {b : Setup} {s s' : State} {a : Action} (ha : a ≠ .signal)
    (hs : step b s a = some s') : s'.signal = s.signal := by
  unfold KernelBenchmark.step at hs
  split at hs
  · cases hs
  · cases a with
    | signal => exact absurd rfl ha
    | reader =>
      cases readerStep_move hs with
      | init | start | wait | interrupted | sum => exact access_signal rfl
      | initialised | started | released | waited | summed | freed => rfl
    | worker cpu =>
      cases workerStep_move hs with
      | created | measured | stored => exact access_signal rfl
      | deadStack | waited | turn | left => rfl

/-- Without a signal no wait is cut short. -/
theorem uninterrupted_of_no_signal {b : Setup} {as : List Action} {s : State}
    (has : .signal ∉ as) (hs : s.signal = false) : Throughout (step b) Uninterrupted as s := by
  induction as generalizing s with
  | nil => trivial
  | cons a as ih =>
    rw [List.mem_cons, not_or] at has
    refine ⟨fun _ _ _ _ _ ↦ hs, fun s' hst ↦ ih has.2 ?_⟩
    rw [step_signal (fun he ↦ has.1 he.symm) hst]
    exact hs

/-- One CPU, one event, and a clock that shows five microseconds for the loop. -/
def oneCpu : Setup := ⟨[0], 1, fun _ ↦ ⟨0, 0⟩, fun _ ↦ ⟨0, 5⟩⟩

-- a signal during the wait for `end`: the array is freed under the thread, and the total is 0
theorem timeShow_interrupted :
    ∃ s s', execute (step oneCpu)
        [.reader, .reader, .reader, .reader, .reader, .worker 0, .worker 0, .signal, .reader,
          .reader, .reader, .reader, .reader] (.initial oneCpu fun _ ↦ ⟨false, 0, 0⟩) = some s ∧
      s.freed = true ∧ s.workers 0 = some (.measuring 0) ∧ s.reader = .returned 0 ∧
      oneCpu.time 0 = 5 ∧
      execute (step oneCpu) [.worker 0, .worker 0, .worker 0] s = some s' ∧
      s'.fault = some .useAfterFree := by
  refine ⟨_, _, rfl, rfl, rfl, rfl, by decide, rfl, rfl⟩

theorem timeShow_waits_one :
    ∃ s, execute (step oneCpu)
        [.reader, .reader, .reader, .reader, .reader, .worker 0, .worker 0, .worker 0, .worker 0,
          .worker 0, .worker 0, .reader, .reader, .reader, .reader, .reader]
        (.initial oneCpu fun _ ↦ ⟨false, 0, 0⟩) = some s ∧
      s.fault = none ∧ (s.freed = true → ∀ cpu < 1, s.workers cpu = some .finished) ∧
      ∀ time, s.reader = .returned time →
        time = ((List.range 1).map oneCpu.time).sum % 2 ^ 64 := by
  have hrun : ∃ s, execute (step oneCpu)
      [.reader, .reader, .reader, .reader, .reader, .worker 0, .worker 0, .worker 0, .worker 0,
        .worker 0, .worker 0, .reader, .reader, .reader, .reader, .reader]
      (.initial oneCpu fun _ ↦ ⟨false, 0, 0⟩) = some s := ⟨_, rfl⟩
  rcases hrun with ⟨s, hs⟩
  exact ⟨s, hs, timeShow_waits rfl (uninterrupted_of_no_signal (by decide) rfl) hs⟩

end UstBench.KernelBenchmark
