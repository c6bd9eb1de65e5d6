import Mathlib.Data.Finset.Sort
import UstBench.KernelBenchmark.Lifetime

/-!
# The bounds of the thread array

`time_show` allocates one entry per online CPU and takes the id of a CPU for the index of its entry.
The two agree if and only if the online CPUs are numbered without gaps.
-/

namespace UstBench.KernelBenchmark

open Reasoning

/-- The CPUs that the loop under way still has to visit. -/
def ReaderPc.todo : ReaderPc → List ℕ
  | .init rest => rest
  | .start rest => rest
  | .wait rest => rest
  | .sum rest _ => rest
  | _ => []

/-- In no run is an entry touched that was not allocated, and when the threads are about to be
started every online CPU has an initialised entry of its own. -/
def IndexesInside (b : Setup) : Prop :=
  ∀ (memory : ℕ → BenchmarkThread) (as : List Action) (s : State),
    execute (step b) as (.initial b memory) = some s →
      s.fault ≠ some .outOfBounds ∧
        (s.reader = .start b.cpus → ∀ cpu ∈ b.cpus,
          cpu < b.cpus.length ∧ (s.threads cpu).endDone = 0 ∧ (s.threads cpu).time = 0)

/-- The loops visit online CPUs only, and a thread exists only where the second loop has been. -/
structure Indexed (b : Setup) (s : State) : Prop where
  fault : s.fault ≠ some .outOfBounds
  todo : s.reader.todo <:+ b.cpus
  workers : ∀ cpu, s.workers cpu ≠ none → cpu ∈ b.cpus ∧ s.reader.Started cpu
  fresh : ∀ cpu ∈ b.cpus, s.reader.Initialised cpu → ¬s.reader.Started cpu →
    (s.threads cpu).endDone = 0 ∧ (s.threads cpu).time = 0

section Indexed

variable {b : Setup} {s s' : State} {cpu : ℕ} {rest : List ℕ}

/-- An access within bounds is made, or finds the array freed. -/
theorem Indexed.access (h : Indexed b s) (hlt : cpu < b.cpus.length) (h' : Indexed b s') :
    Indexed b (s.access b cpu s') := by
  unfold State.access
  by_cases hf : s.freed = true
  · rw [if_pos hf]
    exact ⟨by simp, h.todo, h.workers, h.fresh⟩
  · rw [if_neg hf, if_pos hlt]
    exact h'

theorem Indexed.mem_todo (h : Indexed b s) (hr : s.reader.todo = cpu :: rest) : cpu ∈ b.cpus := by
  have hsuf := h.todo
  rw [hr] at hsuf
  exact hsuf.subset List.mem_cons_self

theorem Indexed.init (hnd : b.cpus.Nodup) (h : Indexed b s) (hr : s.reader = .init (cpu :: rest)) :
    Indexed b (({ s with reader := .init rest } : State).setThread cpu
      { s.threads cpu with endDone := 0, time := 0 }) := by
  have hsuf := h.todo
  rw [hr] at hsuf
  have hvisit := visit hnd hsuf
  have hnone : ∀ cpu', s.workers cpu' ≠ none → False := by
    intro cpu' hw
    have hstarted := (h.workers cpu' hw).2
    rw [hr] at hstarted
    exact hstarted
  refine ⟨h.fault, hvisit.2.1, fun cpu' hw ↦ (hnone cpu' hw).elim, ?_⟩
  intro cpu' hcpu' hinit _
  by_cases hne : cpu' = cpu
  · rw [hne]
    simp only [State.setThread, Function.update_self]
    exact ⟨trivial, trivial⟩
  · simp only [State.setThread, Function.update_of_ne hne]
    apply h.fresh cpu' hcpu'
    · rw [hr]
      exact (notMem_tail_iff hne).mp hinit
    · rw [hr]
      exact fun hs ↦ hs

theorem Indexed.start (hnd : b.cpus.Nodup) (h : Indexed b s)
    (hr : s.reader = .start (cpu :: rest)) :
    Indexed b ((({ s with reader := .start rest } : State).setThread cpu
      { s.threads cpu with prev := true }).setWorker cpu .created) := by
  have hsuf := h.todo
  rw [hr] at hsuf
  have hvisit := visit hnd hsuf
  refine ⟨h.fault, hvisit.2.1, ?_, ?_⟩
  · intro cpu' hw
    by_cases hne : cpu' = cpu
    · rw [hne]
      exact ⟨hvisit.1, hvisit.2.2⟩
    · simp only [State.setThread, State.setWorker, Function.update_of_ne hne] at hw
      have hold := h.workers cpu' hw
      rw [hr] at hold
      exact ⟨hold.1, (notMem_tail_iff hne).mpr hold.2⟩
  · intro cpu' hcpu' _ hns
    -- the loop has still to visit it, so it is another CPU
    have hrest : cpu' ∈ rest := not_not.mp hns
    have hne : cpu' ≠ cpu := fun he ↦ hvisit.2.2 (he ▸ hrest)
    simp only [State.setThread, State.setWorker, Function.update_of_ne hne]
    apply h.fresh cpu' hcpu'
    · rw [hr]
      exact trivial
    · rw [hr]
      exact fun hs ↦ hs (List.mem_cons_of_mem cpu hrest)

/-- Once every thread is started, the rest of `time_show` keeps the threads. -/
theorem Indexed.late (h : Indexed b s) (hfault : s'.fault ≠ some .outOfBounds)
    (hworkers : s'.workers = s.workers) (htodo : s'.reader.todo <:+ b.cpus)
    (hstarted : ∀ cpu, s'.reader.Started cpu) : Indexed b s' := by
  refine ⟨hfault, htodo, ?_, fun cpu _ _ hns ↦ absurd (hstarted cpu) hns⟩
  intro cpu hw
  rw [hworkers] at hw
  exact ⟨(h.workers cpu hw).1, hstarted cpu⟩

/-- A started thread changes its own entry and its own position. -/
theorem Indexed.worker (h : Indexed b s) (hw : s.workers cpu ≠ none) (t : BenchmarkThread)
    (pc : WorkerPc) : Indexed b ((s.setThread cpu t).setWorker cpu pc) := by
  have hown := h.workers cpu hw
  refine ⟨h.fault, h.todo, ?_, ?_⟩
  · intro cpu' hw'
    by_cases hne : cpu' = cpu
    · rw [hne]
      exact hown
    · simp only [State.setThread, State.setWorker, Function.update_of_ne hne] at hw'
      exact h.workers cpu' hw'
  · intro cpu' hcpu' hinit hns
    have hne : cpu' ≠ cpu := fun he ↦ hns (he ▸ hown.2)
    simp only [State.setThread, State.setWorker, Function.update_of_ne hne]
    exact h.fresh cpu' hcpu' hinit hns

theorem Indexed.move (h : Indexed b s) (hw : s.workers cpu ≠ none) (pc : WorkerPc) :
    Indexed b (s.setWorker cpu pc) := by
  have hsame : s.setWorker cpu pc = (s.setThread cpu (s.threads cpu)).setWorker cpu pc := by
    simp only [State.setThread, Function.update_eq_self]
  rw [hsame]
  exact h.worker hw (s.threads cpu) pc

/-- A step of `time_show` keeps the loops inside the array when every online CPU has an entry. -/
theorem Indexed.readerStep (hlt : ∀ cpu ∈ b.cpus, cpu < b.cpus.length) (hnd : b.cpus.Nodup)
    (h : Indexed b s) (hs : readerStep b s = some s') : Indexed b s' := by
  -- a turn of a loop is at an online CPU, and leaves the others
  have hturn : ∀ {cpu rest}, s.reader.todo = cpu :: rest →
      cpu < b.cpus.length ∧ rest <:+ b.cpus := by
    intro cpu rest htodo
    have hsuf := h.todo
    rw [htodo] at hsuf
    exact ⟨hlt cpu (h.mem_todo htodo), (visit hnd hsuf).2.1⟩
  cases readerStep_move hs with
  | init hr => exact h.access (hturn (by rw [hr]; rfl)).1 (h.init hnd hr)
  | start hr => exact h.access (hturn (by rw [hr]; rfl)).1 (h.start hnd hr)
  | wait hr hdone =>
    rcases hturn (by rw [hr]; rfl) with ⟨hcpu, hrest⟩
    exact h.access hcpu (h.late h.fault rfl hrest fun _ ↦ trivial)
  | interrupted hr hdone hsig =>
    rcases hturn (by rw [hr]; rfl) with ⟨hcpu, hrest⟩
    exact h.access hcpu (h.late h.fault rfl hrest fun _ ↦ trivial)
  | sum hr =>
    rcases hturn (by rw [hr]; rfl) with ⟨hcpu, hrest⟩
    exact h.access hcpu (h.late h.fault rfl hrest fun _ ↦ trivial)
  | initialised hr =>
    refine ⟨h.fault, List.suffix_rfl, ?_, ?_⟩
    · intro cpu hw
      have hstarted := (h.workers cpu hw).2
      rw [hr] at hstarted
      exact hstarted.elim
    · intro cpu hcpu _ _
      apply h.fresh cpu hcpu
      · rw [hr]
        exact List.not_mem_nil
      · rw [hr]
        exact fun hs ↦ hs
  | started hr => exact h.late h.fault rfl List.nil_suffix fun _ ↦ trivial
  | released hr => exact h.late h.fault rfl List.suffix_rfl fun _ ↦ trivial
  | waited hr => exact h.late h.fault rfl List.suffix_rfl fun _ ↦ trivial
  | summed hr => exact h.late h.fault rfl List.nil_suffix fun _ ↦ trivial
  | freed hr => exact h.late h.fault rfl List.nil_suffix fun _ ↦ trivial

theorem Indexed.workerStep (hlt : ∀ cpu ∈ b.cpus, cpu < b.cpus.length) (h : Indexed b s)
    (hs : workerStep b s cpu = some s') : Indexed b s' := by
  have hthere : ∀ {pc}, s.workers cpu = some pc → s.workers cpu ≠ none ∧ cpu < b.cpus.length := by
    intro pc hw
    have hne : s.workers cpu ≠ none := by
      rw [hw]
      exact Option.some_ne_none pc
    exact ⟨hne, hlt cpu (h.workers cpu hne).1⟩
  cases workerStep_move hs with
  | created hw => exact h.access (hthere hw).2 (h.move (hthere hw).1 .waiting)
  | deadStack hw hr =>
    -- the stack of `time_show` is gone, which is no access to the array
    exact ⟨by simp, h.todo, h.workers, h.fresh⟩
  | waited hw _ => exact h.move (hthere hw).1 _
  | turn hw _ => exact h.move (hthere hw).1 _
  | left hw _ => exact h.move (hthere hw).1 _
  | measured hw => exact h.access (hthere hw).2 (h.worker (hthere hw).1 _ _)
  | stored hw => exact h.access (hthere hw).2 (h.worker (hthere hw).1 _ _)

theorem Indexed.step (hlt : ∀ cpu ∈ b.cpus, cpu < b.cpus.length) (hnd : b.cpus.Nodup)
    {a : Action} (h : Indexed b s) (hs : step b s a = some s') : Indexed b s' := by
  unfold KernelBenchmark.step at hs
  split at hs
  · cases hs
  · cases a with
    | signal =>
      cases hs
      exact ⟨h.fault, h.todo, h.workers, h.fresh⟩
    | reader => exact h.readerStep hlt hnd hs
    | worker cpu => exact h.workerStep hlt hs

end Indexed

theorem indexed_initial (b : Setup) (memory : ℕ → BenchmarkThread) :
    Indexed b (.initial b memory) where
  fault := by simp [State.initial]
  todo := List.suffix_rfl
  workers _ hw := absurd rfl hw
  fresh _ hcpu hinit _ := absurd hcpu hinit

theorem indexesInside_of_lt {b : Setup} (hlt : ∀ cpu ∈ b.cpus, cpu < b.cpus.length)
    (hnd : b.cpus.Nodup) : IndexesInside b := by
  intro memory as s hr
  have hinv : Indexed b s :=
    invariant_execute (fun hi _ hst ↦ hi.step hlt hnd hst) (indexed_initial b memory)
      (throughout_of_forall (C := fun _ _ ↦ True) (fun _ _ ↦ trivial) as _) hr
  refine ⟨hinv.fault, ?_⟩
  intro hstart cpu hcpu
  have hfresh := hinv.fresh cpu hcpu
  rw [hstart] at hfresh
  exact ⟨hlt cpu hcpu, hfresh trivial fun hs ↦ hs hcpu⟩

/-! ## The first loop alone -/

-- a CPU without an entry is reached by the loop, unless one before it has none either
theorem init_reaches {b : Setup} {cpu : ℕ} {todo : List ℕ} {s : State} (hr : s.reader = .init todo)
    (hfault : s.fault = none) (hfreed : s.freed = false) (hcpu : cpu ∈ todo)
    (hout : b.cpus.length ≤ cpu) :
    ∃ as s', execute (step b) as s = some s' ∧ s'.fault = some .outOfBounds := by
  induction todo generalizing s with
  | nil => exact absurd hcpu List.not_mem_nil
  | cons c rest ih =>
    have hstep : ∃ t : State, step b s .reader = some (s.access b c t) ∧
        t.reader = .init rest ∧ t.fault = none ∧ t.freed = false := by
      refine ⟨({ s with reader := .init rest } : State).setThread c
        { s.threads c with endDone := 0, time := 0 }, ?_, rfl, hfault, hfreed⟩
      simp only [step, hfault, readerStep, hr]
    rcases hstep with ⟨t, hstep, hreader, htf, htl⟩
    by_cases hc : c < b.cpus.length
    · have hrest : cpu ∈ rest := by
        have hne : cpu ≠ c := by omega
        exact List.mem_of_ne_of_mem hne hcpu
      rw [access_of_live hfreed hc] at hstep
      rcases ih hreader htf htl hrest with ⟨as, s', hrun, hoob⟩
      refine ⟨.reader :: as, s', ?_, hoob⟩
      rw [execute, hstep]
      exact hrun
    · refine ⟨[.reader], { s with fault := some .outOfBounds }, ?_, rfl⟩
      rw [execute, hstep]
      unfold State.access
      rw [hfreed, if_neg Bool.false_ne_true, if_neg hc]
      rfl

theorem lt_of_indexesInside {b : Setup} (h : IndexesInside b) :
    ∀ cpu ∈ b.cpus, cpu < b.cpus.length := by
  intro cpu hcpu
  by_contra hlt
  have hreach := init_reaches (b := b) (s := .initial b fun _ ↦ ⟨false, 0, 0⟩) rfl rfl rfl hcpu
    (not_lt.mp hlt)
  rcases hreach with ⟨as, s, hrun, hoob⟩
  exact (h _ as s hrun).1 hoob

/-- `time_show` stays inside its array, and gives every online CPU an initialised entry, if and only
if the online CPUs are numbered from 0 without gaps. -/
theorem timeShow_inside_iff (online : Finset ℕ) (eventCount : ℕ) (startTv endTv : ℕ → Timeval) :
    IndexesInside ⟨online.sort (· ≤ ·), eventCount, startTv, endTv⟩ ↔
      online = Finset.range online.card := by
  have hlt_iff : (∀ cpu ∈ online.sort (· ≤ ·), cpu < (online.sort (· ≤ ·)).length) ↔
      online = Finset.range online.card := by
    rw [Finset.length_sort]
    constructor
    · intro hlt
      apply Finset.eq_of_subset_of_card_le
      · intro cpu hcpu
        exact Finset.mem_range.mpr (hlt cpu ((Finset.mem_sort _).mpr hcpu))
      · rw [Finset.card_range]
    · intro heq cpu hcpu
      have hmem := (Finset.mem_sort _).mp hcpu
      rw [heq] at hmem
      exact Finset.mem_range.mp hmem
  constructor
  · intro h
    exact hlt_iff.mp (lt_of_indexesInside h)
  · intro heq
    exact indexesInside_of_lt (hlt_iff.mpr heq) (Finset.sort_nodup _ _)

/-- CPU 1 of three was taken offline. -/
def unplugged : Setup := ⟨[0, 2], 1, fun _ ↦ ⟨0, 0⟩, fun _ ↦ ⟨0, 5⟩⟩

-- the second turn of the first loop writes behind the two entries
theorem timeShow_unplugged :
    unplugged.cpus = ({0, 2} : Finset ℕ).sort (· ≤ ·) ∧
      (∃ s, execute (step unplugged) [.reader, .reader]
          (.initial unplugged fun _ ↦ ⟨false, 0, 0⟩) = some s ∧
        s.reader = .init [2] ∧ s.fault = some .outOfBounds) ∧
      ¬IndexesInside unplugged := by
  have hrun : ∃ s, execute (step unplugged) [.reader, .reader]
      (.initial unplugged fun _ ↦ ⟨false, 0, 0⟩) = some s ∧
        s.reader = .init [2] ∧ s.fault = some .outOfBounds := ⟨_, rfl, rfl, rfl⟩
  refine ⟨?_, hrun, ?_⟩
  · rw [Finset.sort_insert _ (by simp) (by simp), Finset.sort_singleton]
    rfl
  · intro h
    have hlt := lt_of_indexesInside h 2 (by simp [unplugged])
    exact absurd hlt (by simp [unplugged])

end UstBench.KernelBenchmark
