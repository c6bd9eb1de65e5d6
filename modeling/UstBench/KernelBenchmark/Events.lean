import UstBench.KernelBenchmark.Lifetime

/-!
# The events of the threads

A turn of the measurement loop fires one event.  However the threads and the reader are interleaved,
and also where a wait is cut short or an access goes wrong, each thread fires the events 0, 1, 2 and so
on in this order, all of them by the time it is out of its loop.
-/

namespace UstBench.KernelBenchmark

open Reasoning

/-- The counter of the loop, an `int` that wraps around. -/
def toInt (i : ℕ) : ℤ := (i + 2 ^ 31) % 2 ^ 32 - 2 ^ 31

/-- `trace_lttng_benchmark_trivial(i)` on `cpu`, if the action is such a turn. -/
def firedBy (b : Setup) (s : State) : Action → List (ℕ × ℤ)
  | .worker cpu =>
    match s.fault, s.workers cpu with
    | none, some (.measuring i) => if i < b.eventCount then [(cpu, toInt i)] else []
    | _, _ => []
  | _ => []

/-- The events of a run, with the CPU of each. -/
def fired (b : Setup) : List Action → State → List (ℕ × ℤ)
  | [], _ => []
  | a :: as, s => firedBy b s a ++ ((step b s a).map (fired b as)).getD []

/-- The events of one CPU. -/
def eventsOf (cpu : ℕ) (events : List (ℕ × ℤ)) : List ℤ :=
  (events.filter fun e ↦ e.1 = cpu).map Prod.snd

/-- How many events a thread has fired. -/
def WorkerPc.progress (eventCount : ℕ) : Option WorkerPc → ℕ
  | some (.measuring i) => i
  | some .measured => eventCount
  | some .stored => eventCount
  | some .finished => eventCount
  | _ => 0

/-- The threads that `time_show` has yet to start. -/
def ReaderPc.unstarted (cpus : List ℕ) : ReaderPc → List ℕ
  | .init _ => cpus
  | .start rest => rest
  | _ => []

/-- No thread is started twice, and none counts too far. -/
structure Firing (b : Setup) (s : State) : Prop where
  suffix : s.reader.unstarted b.cpus <:+ b.cpus
  unstarted : ∀ cpu ∈ s.reader.unstarted b.cpus, s.workers cpu = none
  inside : ∀ cpu i, s.workers cpu = some (.measuring i) → i ≤ b.eventCount

section Step

variable {b : Setup} {s s' : State} {a : Action} {cpu : ℕ}

theorem eventsOf_append (events events' : List (ℕ × ℤ)) :
    eventsOf cpu (events ++ events') = eventsOf cpu events ++ eventsOf cpu events' := by
  unfold eventsOf
  rw [List.filter_append, List.map_append]

theorem firing_initial (b : Setup) (memory : ℕ → BenchmarkThread) : Firing b (.initial b memory) :=
  ⟨List.suffix_rfl, fun _ _ ↦ rfl, nofun⟩

theorem Firing.congr (h : Firing b s) (hr : s'.reader = s.reader) (hw : s'.workers = s.workers) :
    Firing b s' := by
  refine ⟨?_, ?_, ?_⟩
  · rw [hr]
    exact h.suffix
  · rw [hr, hw]
    exact h.unstarted
  · rw [hw]
    exact h.inside

theorem Firing.access (h : Firing b s) (h' : Firing b s') : Firing b (s.access b cpu s') := by
  rcases access_cases b s cpu s' with heq | ⟨fault, heq⟩
  · rw [heq]
    exact h'
  · rw [heq]
    exact h.congr rfl rfl

/-- The reader goes on, and starts nobody. -/
theorem Firing.turn (h : Firing b s) (hw : s'.workers = s.workers)
    (hsuffix : s'.reader.unstarted b.cpus <:+ s.reader.unstarted b.cpus) : Firing b s' := by
  refine ⟨hsuffix.trans h.suffix, ?_, ?_⟩
  · intro cpu hcpu
    rw [hw]
    exact h.unstarted cpu (hsuffix.subset hcpu)
  · rw [hw]
    exact h.inside

/-- What the next position of one thread has to be like. -/
theorem Firing.move (h : Firing b s) {pc : WorkerPc} (hcpu : cpu ∉ s.reader.unstarted b.cpus)
    (hr : s'.reader = s.reader) (hw : s'.workers = Function.update s.workers cpu (some pc))
    (hpc : ∀ i, pc = .measuring i → i ≤ b.eventCount) : Firing b s' := by
  refine ⟨?_, ?_, ?_⟩
  · rw [hr]
    exact h.suffix
  · intro cpu' hcpu'
    rw [hr] at hcpu'
    have hne : cpu' ≠ cpu := fun he ↦ hcpu (he ▸ hcpu')
    rw [hw, Function.update_of_ne hne]
    exact h.unstarted cpu' hcpu'
  · intro cpu' i hi
    rw [hw] at hi
    by_cases hne : cpu' = cpu
    · rw [hne, Function.update_self] at hi
      exact hpc i (Option.some.inj hi)
    · rw [Function.update_of_ne hne] at hi
      exact h.inside cpu' i hi

theorem Firing.notMem (h : Firing b s) {pc : WorkerPc} (hw : s.workers cpu = some pc) :
    cpu ∉ s.reader.unstarted b.cpus := by
  intro hcpu
  rw [h.unstarted cpu hcpu] at hw
  cases hw

theorem Firing.readerStep (hnd : b.cpus.Nodup) (h : Firing b s)
    (hs : KernelBenchmark.readerStep b s = some s') : Firing b s' := by
  cases readerStep_move hs with
  | init hr =>
    apply h.access
    refine h.turn ?_ ?_
    · rfl
    · rw [hr]
      exact List.suffix_rfl
  | @start cpu rest hr =>
    have hsuffix := h.suffix
    have hun := h.unstarted
    rw [hr] at hsuffix hun
    obtain ⟨-, hrest, hnot⟩ := visit hnd hsuffix
    apply h.access
    refine ⟨hrest, ?_, ?_⟩
    · intro cpu' hcpu'
      have hne : cpu' ≠ cpu := fun he ↦ hnot (he ▸ hcpu')
      show Function.update s.workers cpu _ cpu' = none
      rw [Function.update_of_ne hne]
      exact hun cpu' (List.mem_cons_of_mem _ hcpu')
    · intro cpu' i hi
      change Function.update s.workers cpu _ cpu' = _ at hi
      by_cases hne : cpu' = cpu
      · rw [hne, Function.update_self] at hi
        cases hi
      · rw [Function.update_of_ne hne] at hi
        exact h.inside cpu' i hi
  | wait | interrupted | sum =>
    apply h.access
    exact h.turn rfl (List.nil_suffix)
  | initialised hr =>
    refine h.turn ?_ ?_
    · rfl
    · rw [hr]
      exact List.suffix_rfl
  | started | released | waited | summed | freed => exact h.turn rfl List.nil_suffix

theorem Firing.workerStep (h : Firing b s) (hs : KernelBenchmark.workerStep b s cpu = some s') :
    Firing b s' := by
  cases workerStep_move hs with
  | created hw => exact h.access (h.move (h.notMem hw) rfl rfl nofun)
  | deadStack => exact h.congr rfl rfl
  | waited hw =>
    refine h.move (h.notMem hw) rfl rfl ?_
    rintro _ ⟨⟩
    exact Nat.zero_le _
  | turn hw hi =>
    refine h.move (h.notMem hw) rfl rfl ?_
    rintro _ ⟨⟩
    exact hi
  | left hw => exact h.move (h.notMem hw) rfl rfl nofun
  | measured hw => exact h.access (h.move (h.notMem hw) rfl rfl nofun)
  | stored hw => exact h.access (h.move (h.notMem hw) rfl rfl nofun)

theorem Firing.step (hnd : b.cpus.Nodup) (h : Firing b s)
    (hs : KernelBenchmark.step b s a = some s') : Firing b s' := by
  unfold KernelBenchmark.step at hs
  split at hs
  · cases hs
  · cases a with
    | signal =>
      cases hs
      exact h.congr rfl rfl
    | reader => exact h.readerStep hnd hs
    | worker cpu => exact h.workerStep hs

end Step

/-! ## What a step fires -/

section Fired

variable {b : Setup} {s s' : State} {a : Action} {cpu : ℕ}

/-- The numbers of the events that a thread has fired. -/
def Seen (b : Setup) (s : State) (cpu : ℕ) : List ℤ :=
  (List.range (WorkerPc.progress b.eventCount (s.workers cpu))).map toInt

/-- An access is silent, if what it is on the way to is. -/
theorem seen_access {cpu' : ℕ} {t : State} (ht : Seen b t cpu = Seen b s cpu) :
    Seen b (s.access b cpu' t) cpu = Seen b s cpu := by
  rcases access_cases b s cpu' t with heq | ⟨fault, heq⟩
  · rw [heq]
    exact ht
  · rw [heq]
    rfl

/-- The reader starts threads, which have fired nothing. -/
theorem seen_readerStep (h : Firing b s) (hs : readerStep b s = some s') :
    Seen b s' cpu = Seen b s cpu := by
  cases readerStep_move hs with
  | init | wait | interrupted | sum => exact seen_access rfl
  | initialised | started | released | waited | summed | freed => rfl
  | @start cpu' rest hr =>
    have hnone : s.workers cpu' = none := by
      apply h.unstarted
      rw [hr]
      exact List.mem_cons_self
    apply seen_access
    unfold Seen
    congr 2
    show WorkerPc.progress _ (Function.update s.workers cpu' _ cpu) = _
    by_cases hne : cpu = cpu'
    · rw [hne, Function.update_self, hnone]
      rfl
    · rw [Function.update_of_ne hne]

/-- A thread at `pc` goes on to `pc'`, without an event. -/
theorem seen_move {cpu' : ℕ} {pc pc' : WorkerPc} (hw : s.workers cpu' = some pc)
    (hw' : s'.workers = Function.update s.workers cpu' (some pc'))
    (hpc : WorkerPc.progress b.eventCount (some pc') = WorkerPc.progress b.eventCount (some pc)) :
    Seen b s' cpu = Seen b s cpu := by
  unfold Seen
  congr 2
  rw [hw']
  by_cases hne : cpu = cpu'
  · rw [hne, Function.update_self, hw, hpc]
  · rw [Function.update_of_ne hne]

theorem seen_turn {cpu' i : ℕ} (hw : s.workers cpu' = some (.measuring i)) :
    Seen b (s.setWorker cpu' (.measuring (i + 1))) cpu =
      Seen b s cpu ++ eventsOf cpu [(cpu', toInt i)] := by
  unfold Seen eventsOf
  show (List.range (WorkerPc.progress b.eventCount
    (Function.update s.workers cpu' (some (.measuring (i + 1))) cpu))).map toInt = _
  by_cases hne : cpu = cpu'
  · have hself : [(cpu', toInt i)].filter (fun e ↦ e.1 = cpu) = [(cpu', toInt i)] :=
      List.filter_eq_self.mpr (by simp [hne])
    rw [hself, hne, Function.update_self, hw]
    show (List.range (i + 1)).map toInt = (List.range i).map toInt ++ [toInt i]
    rw [List.range_succ, List.map_append]
    rfl
  · have hother : [(cpu', toInt i)].filter (fun e ↦ e.1 = cpu) = [] :=
      List.filter_eq_nil_iff.mpr (by simp [Ne.symm hne])
    rw [hother, Function.update_of_ne hne]
    exact (List.append_nil _).symm

theorem seen_workerStep (h : Firing b s) (hf : s.fault = none) {cpu' : ℕ}
    (hs : workerStep b s cpu' = some s') :
    Seen b s' cpu = Seen b s cpu ++ eventsOf cpu (firedBy b s (.worker cpu')) := by
  have hsilent : ∀ {t : State}, Seen b t cpu = Seen b s cpu →
      Seen b t cpu = Seen b s cpu ++ eventsOf cpu [] :=
    fun ht ↦ ht.trans (List.append_nil _).symm
  unfold firedBy
  dsimp only
  rw [hf]
  cases workerStep_move hs with
  | created hw | measured hw | stored hw =>
    rw [hw]
    exact hsilent (seen_access (seen_move hw rfl rfl))
  | deadStack hw =>
    rw [hw]
    exact hsilent rfl
  | waited hw =>
    rw [hw]
    exact hsilent (seen_move hw rfl rfl)
  | turn hw hi =>
    rw [hw]
    dsimp only
    rw [if_pos hi]
    exact seen_turn hw
  | @left i hw hi =>
    have hcount : i = b.eventCount := Nat.le_antisymm (h.inside cpu' i hw) hi
    rw [hw]
    dsimp only
    rw [if_neg (Nat.not_lt.mpr hi)]
    exact hsilent (seen_move hw rfl hcount.symm)

theorem seen_step (h : Firing b s) (hs : KernelBenchmark.step b s a = some s') :
    Seen b s' cpu = Seen b s cpu ++ eventsOf cpu (firedBy b s a) := by
  unfold KernelBenchmark.step at hs
  split at hs
  · cases hs
  · rename_i hf
    cases a with
    | signal =>
      cases hs
      exact (List.append_nil _).symm
    | reader =>
      rw [seen_readerStep h hs]
      exact (List.append_nil _).symm
    | worker cpu' => exact seen_workerStep h hf hs

end Fired

/-! ## Outside the array -/

/-- Every CPU has an entry in the array, or the first loop has not come to it. -/
def Visited (b : Setup) (s : State) : Prop :=
  ∀ cpu ∈ b.cpus, cpu < b.cpus.length ∨ ∃ rest, s.reader = .init rest ∧ cpu ∈ rest

section Visited

variable {b : Setup} {s s' : State}

theorem Visited.congr (h : Visited b s) (hr : s'.reader = s.reader) : Visited b s' := by
  unfold Visited
  rw [hr]
  exact h

/-- Behind the first loop there is nothing left to come to. -/
theorem Visited.leave (h : Visited b s) (hr : ∀ cpu rest, s.reader ≠ .init (cpu :: rest)) :
    Visited b s' := by
  intro cpu hcpu
  rcases h cpu hcpu with hlt | ⟨rest, hrest, hmem⟩
  · exact .inl hlt
  · cases rest with
    | nil => exact absurd hmem List.not_mem_nil
    | cons c rest => exact absurd hrest (hr c rest)

theorem Visited.access (h : Visited b s) {cpu : ℕ} (h' : cpu < b.cpus.length → Visited b s') :
    Visited b (s.access b cpu s') := by
  unfold State.access
  split
  · exact h
  · split
    next hlt => exact h' hlt
    next => exact h

theorem Visited.step (h : Visited b s) {a : Action} (hs : step b s a = some s') :
    Visited b s' := by
  unfold KernelBenchmark.step at hs
  split at hs
  · cases hs
  · cases a with
    | signal =>
      cases hs
      exact h
    | reader =>
      cases readerStep_move hs with
      | @init cpu rest hr =>
        apply h.access
        intro hlt cpu' hcpu'
        rcases h cpu' hcpu' with hlt' | ⟨rest', hr', hmem⟩
        · exact .inl hlt'
        · rw [hr] at hr'
          cases hr'
          -- either it is the one the loop is at, or it is still to come
          cases List.mem_cons.mp hmem with
          | inl heq => exact .inl (heq ▸ hlt)
          | inr hrest => exact .inr ⟨rest, rfl, hrest⟩
      | start hr | wait hr | interrupted hr | sum hr =>
        exact h.access fun _ ↦ h.leave (by rw [hr]; nofun)
      | initialised hr | started hr | released hr | waited hr | summed hr | freed hr =>
        exact h.leave (by rw [hr]; nofun)
    | worker cpu =>
      cases workerStep_move hs with
      | created | measured | stored => exact h.access fun _ ↦ h.congr rfl
      | deadStack | waited | turn | left => exact h.congr rfl

end Visited

theorem visited_initial (b : Setup) (memory : ℕ → BenchmarkThread) :
    Visited b (.initial b memory) :=
  fun _ hcpu ↦ .inr ⟨b.cpus, rfl, hcpu⟩

/-- A run that goes beyond the array does not return. -/
theorem lt_length_of_returned {b : Setup} {memory : ℕ → BenchmarkThread} {as : List Action}
    {s : State} {time : ℕ} (hr : execute (step b) as (.initial b memory) = some s)
    (hret : s.reader = .returned time) : ∀ cpu ∈ b.cpus, cpu < b.cpus.length := by
  intro cpu hcpu
  have hvisited : Visited b s :=
    invariant_execute (fun h _ hs ↦ h.step hs) (visited_initial b memory)
      (throughout_of_forall (C := fun _ _ ↦ True) (fun _ _ ↦ trivial) as _) hr
  rcases hvisited cpu hcpu with hlt | ⟨rest, hrest, -⟩
  · exact hlt
  -- in the first loop it has not returned
  · rw [hret] at hrest
    cases hrest

/-! ## Runs -/

section Runs

variable {b : Setup} {s s' : State}

theorem seen_execute (cpu : ℕ) (hnd : b.cpus.Nodup) (h : Firing b s) {as : List Action}
    (hr : execute (KernelBenchmark.step b) as s = some s') :
    Firing b s' ∧ Seen b s' cpu = Seen b s cpu ++ eventsOf cpu (fired b as s) := by
  induction as generalizing s with
  | nil =>
    cases hr
    exact ⟨h, (List.append_nil _).symm⟩
  | cons a as ih =>
    rw [execute, Option.bind_eq_some_iff] at hr
    rcases hr with ⟨t, ht, hrest⟩
    obtain ⟨hfiring, hseen⟩ := ih (h.step hnd ht) hrest
    refine ⟨hfiring, ?_⟩
    rw [hseen, seen_step h ht, List.append_assoc, ← eventsOf_append]
    rw [fired, ht]
    rfl

/-- The events of a CPU are those its thread has come past. -/
theorem eventsOf_fired {memory : ℕ → BenchmarkThread} {as : List Action} (hnd : b.cpus.Nodup)
    (hr : execute (KernelBenchmark.step b) as (.initial b memory) = some s) (cpu : ℕ) :
    eventsOf cpu (fired b as (.initial b memory)) = Seen b s cpu := by
  rw [(seen_execute cpu hnd (firing_initial b memory) hr).2]
  rfl

/-- A thread that has finished has fired all of its events. -/
theorem eventsOf_fired_returned {memory : ℕ → BenchmarkThread} {as : List Action} {time : ℕ}
    (hnd : b.cpus.Nodup)
    (hu : Throughout (KernelBenchmark.step b) Uninterrupted as (.initial b memory))
    (hr : execute (KernelBenchmark.step b) as (.initial b memory) = some s)
    (hret : s.reader = .returned time) {cpu : ℕ} (hcpu : cpu ∈ b.cpus) :
    eventsOf cpu (fired b as (.initial b memory)) = (List.range b.eventCount).map toInt := by
  have hlt := lt_length_of_returned hr hret
  have hinv : Inv b s :=
    invariant_execute (fun h hc hs ↦ h.step hlt hnd hc hs) (inv_initial b memory) hu hr
  have hfinished : s.workers cpu = some .finished := by
    apply hinv.finished hcpu
    rw [hret]
    trivial
  rw [eventsOf_fired hnd hr]
  unfold Seen
  rw [hfinished]
  rfl

theorem Firing.progress_le (h : Firing b s) (cpu : ℕ) :
    WorkerPc.progress b.eventCount (s.workers cpu) ≤ b.eventCount := by
  unfold WorkerPc.progress
  split
  · rename_i hw
    exact h.inside cpu _ hw
  · exact Nat.le_refl _
  · exact Nat.le_refl _
  · exact Nat.le_refl _
  · exact Nat.zero_le _

end Runs

/-- In every run, also one with signals and faults, the events of a CPU so far are the first ones in
their order, as many as its thread has come to; and when no wait was cut short and `time_show` has
returned, no event is missing on any CPU. -/
theorem events_in_order {b : Setup} {memory : ℕ → BenchmarkThread} {as : List Action} {s : State}
    (hnd : b.cpus.Nodup) (hr : execute (step b) as (.initial b memory) = some s) :
    (∀ cpu, eventsOf cpu (fired b as (.initial b memory)) =
        (List.range (WorkerPc.progress b.eventCount (s.workers cpu))).map toInt ∧
      WorkerPc.progress b.eventCount (s.workers cpu) ≤ b.eventCount) ∧
    (Throughout (step b) Uninterrupted as (.initial b memory) →
      ∀ time, s.reader = .returned time → ∀ cpu ∈ b.cpus,
        eventsOf cpu (fired b as (.initial b memory)) = (List.range b.eventCount).map toInt) := by
  refine ⟨fun cpu ↦ ⟨eventsOf_fired hnd hr cpu, ?_⟩, ?_⟩
  · exact (seen_execute cpu hnd (firing_initial b memory) hr).1.progress_le cpu
  · exact fun hu time hret cpu hcpu ↦ eventsOf_fired_returned hnd hu hr hret hcpu

/-- A run on one CPU up to the end. -/
def oneRun : List Action :=
  List.replicate 5 .reader ++ List.replicate 6 (.worker 0) ++ List.replicate 5 .reader

theorem events_in_order_one :
    ∃ s, execute (step oneCpu) oneRun (.initial oneCpu fun _ ↦ ⟨false, 0, 0⟩) = some s ∧
      (∀ cpu, eventsOf cpu (fired oneCpu oneRun (.initial oneCpu fun _ ↦ ⟨false, 0, 0⟩)) =
          (List.range (WorkerPc.progress 1 (s.workers cpu))).map toInt ∧
        WorkerPc.progress 1 (s.workers cpu) ≤ 1) ∧
      eventsOf 0 (fired oneCpu oneRun (.initial oneCpu fun _ ↦ ⟨false, 0, 0⟩)) =
        (List.range 1).map toInt := by
  have hrun : ∃ s, execute (step oneCpu) oneRun (.initial oneCpu fun _ ↦ ⟨false, 0, 0⟩) = some s ∧
      s.reader = .returned 5 := ⟨_, rfl, rfl⟩
  rcases hrun with ⟨s, hs, hret⟩
  obtain ⟨hsofar, hall⟩ := events_in_order (by decide) hs
  refine ⟨s, hs, hsofar, ?_⟩
  exact hall (uninterrupted_of_no_signal (by decide) rfl) 5 hret 0 (by decide)

end UstBench.KernelBenchmark
