import UstBench.Driver.Results
import UstBench.Runner.Children
import UstBench.Runner.Output
import UstBench.SharedEvents.Actions
import Mathlib.Data.List.Flatten
import Mathlib.Data.List.Forall2

/-!
# The time stamps of one process

A process adds events, before and after it becomes another program.  Each call that adds one is kept
with the record of what it did; the stamps in the log are then a part, in order, of the readings the
process made of the clock.
-/

namespace UstBench

open Reasoning Reasoning.Prog

theorem main_noNul : (0 : UInt8) ∉ [109, 97, 105, 110] := by decide

def CString.main : CString := ⟨[109, 97, 105, 110], main_noNul⟩

def CString.end_ : CString := ⟨[101, 110, 100], by decide⟩

def Timespec.seconds (ts : Timespec) : ℚ := ts.tvSec + ts.tvNsec / 10 ^ 9

/-- What the runner's report says of a process, as `json.loads` reads it. -/
def Kernel.reportJson (k : Kernel) (pid : ℤ) : Json :=
  .obj ((k.events pid).map fun e ↦ (e.nameBytes.map Char.ofUInt8, .num e.ts.seconds))

def Act.reading : Act → Option Timespec
  | .clock (.ok ts) => some ts
  | _ => none

/-- One step of a process that records events. -/
inductive RecordStep where
  | add (name : CString) (sys : Sys)
  | exec

/-- A call of `shared_events_add`, with what it did and how it ended. -/
structure AddCall where
  name : CString
  acts : List Act
  ret : Except Fault ℤ

def AddCall.readings (call : AddCall) : List Timespec := call.acts.filterMap Act.reading

/-- The calls a process makes until its steps are done or it dies, and the state it leaves. -/
def recordSteps : List RecordStep → World → List AddCall × World
  | [], w => ([], w)
  | .exec :: steps, w => recordSteps steps { w with proc := .start w.proc.pid }
  | .add name sys :: steps, w =>
    let acts := Traced.acts (TracedCall.sharedEventsAdd sys name) w
    match run (sharedEventsAdd sys name) w with
    | (.ok ret, w') =>
      (⟨name, acts, .ok ret⟩ :: (recordSteps steps w').1, (recordSteps steps w').2)
    | (.error f, w') => ([⟨name, acts, .error f⟩], w')

theorem recordSteps_ok {name : CString} {sys : Sys} {ret : ℤ} {w w' : World}
    (h : run (sharedEventsAdd sys name) w = (.ok ret, w')) (steps : List RecordStep) :
    recordSteps (.add name sys :: steps) w =
      (⟨name, Traced.acts (TracedCall.sharedEventsAdd sys name) w, .ok ret⟩ ::
        (recordSteps steps w').1, (recordSteps steps w').2) := by
  rw [recordSteps, h]

theorem recordSteps_error {name : CString} {sys : Sys} {f : Fault} {w w' : World}
    (h : run (sharedEventsAdd sys name) w = (.error f, w')) (steps : List RecordStep) :
    recordSteps (.add name sys :: steps) w =
      ([⟨name, Traced.acts (TracedCall.sharedEventsAdd sys name) w, .error f⟩], w') := by
  rw [recordSteps, h]

def AddCall.Added (call : AddCall) : Bool :=
  match call.ret with
  | .ok ret => ret = 0
  | .error _ => false

/-- The calls that returned 0. -/
def addedBy (calls : List AddCall) : List AddCall := calls.filter AddCall.Added

/-- `clock_gettime` never fails. -/
structure Sys.ClockWorks (sys : Sys) : Prop where
  clock : ∃ t, sys.clock = .ok t
  clockLate : ∃ t, sys.clockLate = .ok t

/-- The event is the call's own: it has the name, and its stamp is the last reading of a `"start"`
call, right before the store of that stamp, and the first act of every other call. -/
structure AddCall.Stores (call : AddCall) (e : SharedEvent) : Prop where
  name : e.name = strncpy call.name
  start : call.name = .start →
    ∃ a k, call.acts = a ++ [.clock (.ok e.ts), .setTs k e.ts]
  other : call.name ≠ .start → ∃ b, call.acts = .clock (.ok e.ts) :: b

/-- Of what the two calls do, nothing but the store of the first stamp lies between the readings of
the two stamps. -/
def NothingBetween (x y : AddCall × SharedEvent) : Prop :=
  ∃ a k b, x.1.acts = a ++ [.clock (.ok x.2.ts), .setTs k x.2.ts] ∧
    y.1.acts = .clock (.ok y.2.ts) :: b

/-- The log of a process beside the calls that made it. -/
structure OrderedLog (calls : List AddCall) (log : List SharedEvent) : Prop where
  sorted : log.Pairwise fun e e' ↦ e.ts.seconds ≤ e'.ts.seconds
  own : List.Forall₂ (fun call e ↦ call.Stores e ∧ e.ts ∈ call.readings) (addedBy calls) log
  between : ((addedBy calls).zip log).Pairwise fun x y ↦
    x.1.name = .start → y.1.name ≠ .start → NothingBetween x y

/-! ## One call -/

/-- Closed, half open, or bound to its own pid, whose log is `L`. -/
structure Recording (pid : ℤ) (L : List SharedEvent) (w : World) : Prop where
  own : w.proc.pid = pid
  ctx : w.proc.ctx = none ∨ w.Binds pid ∨ ∃ c, w.proc.ctx = some c ∧ c.events = .unset
  log : w.kernel.HasLog (shmName maxShmNameLen pid) L

theorem Idle.recording {pid : ℤ} {L : List SharedEvent} {w : World} (h : Idle pid L w) :
    Recording pid L w where
  own := h.own
  ctx := h.bound.imp_right .inl
  log := h.log

/-- The call has added its event, or it has added none. -/
inductive AddOutcome (pid : ℤ) (L : List SharedEvent) (name : CString) (acts : List Act) :
    Except Fault ℤ × World → Prop
  | added {w e} (stores : AddCall.Stores ⟨name, acts, .ok 0⟩ e)
      (next : Recording pid (L ++ [e]) w) : AddOutcome pid L name acts (.ok 0, w)
  | refused {w} (next : Recording pid L w) : AddOutcome pid L name acts (.ok (-1), w)
  | died {w f} (log : w.kernel.HasLog (shmName maxShmNameLen pid) L) :
      AddOutcome pid L name acts (.error f, w)

section Add

variable {sys : Sys} {name : CString} {w : World} {pid : ℤ} {L : List SharedEvent}

theorem stores_of_acts {acts pre : List Act} {t ts : Timespec} {k : Fin maxEventCount} {n : ℕ}
    (ht : sys.clock = .ok t) (hts : sys.stamp name = .ok ts)
    (h : acts = .clock (.ok t) :: (pre ++ .setName k :: .setCount n ::
      if name = .start then [.clock (.ok ts), .setTs k ts] else [.setTs k ts])) :
    AddCall.Stores ⟨name, acts, .ok 0⟩ ⟨ts, strncpy name⟩ where
  name := rfl
  start hs := by
    refine ⟨.clock (.ok t) :: (pre ++ [.setName k, .setCount n]), k, ?_⟩
    show acts = _
    rw [h, if_pos (show name = .start from hs)]
    simp
  other hs := by
    have htt : ts = t := by
      rw [Sys.stamp_of_ne hs, ht] at hts
      exact (Except.ok.inj hts).symm
    subst htt
    exact ⟨_, h⟩

-- the open, if there was one, has left a mapped segment
theorem add_outcome_of_mapped {w₁ : World} {ino : Ino} {c : Ctx} (hclock : sys.ClockWorks)
    (hopen : run (openFailed sys) w = (.ok false, w₁)) (h : w₁.Mapped ino c)
    (hshm : w₁.kernel.shm (shmName maxShmNameLen pid) = some ino) (hrec : Recording pid L w₁) :
    AddOutcome pid L name (Traced.acts (TracedCall.sharedEventsAdd sys name) w)
      (run (sharedEventsAdd sys name) w) := by
  obtain ⟨t, ht⟩ := hclock.clock
  obtain ⟨ts, hts⟩ : ∃ ts, sys.stamp name = .ok ts := by
    unfold Sys.stamp
    split
    · exact hclock.clockLate
    · exact hclock.clock
  have hlog := (Kernel.hasLog_of_shm hshm).mp hrec.log
  rw [run_add_of_openFailed ht hopen h]
  by_cases hlt : (w₁.kernel.seg ino).count < maxEventCount
  · rw [run_add_of_mapped h ht hts hlt]
    refine .added (stores_of_acts ht hts (TracedCall.acts_sharedEventsAdd ht hts hopen h hlt)) ?_
    refine ⟨hrec.own, .inr (.inl ⟨ino, c, ⟨h.ctx, h.events, h.live⟩, hshm⟩), ?_⟩
    rw [World.setSeg_kernel]
    exact hrec.log.push hshm hlt _
  · have hfull : (w₁.kernel.seg ino).count = maxEventCount := by omega
    rw [run_add_full h ht hfull]
    exact .refused hrec

theorem add_outcome (hclock : sys.ClockWorks) (h : Recording pid L w) :
    AddOutcome pid L name (Traced.acts (TracedCall.sharedEventsAdd sys name) w)
      (run (sharedEventsAdd sys name) w) := by
  obtain ⟨t, ht⟩ := hclock.clock
  rcases h.ctx with hc | ⟨ino, c, hm, hshm⟩ | ⟨c, hc, he⟩
  · -- a closed module is opened first, and the call returns -1 where that fails
    have ho := open_outcome sys pid hc
    have hof := openFailed_of_closed sys hc
    rw [h.own, run_bind] at hof
    generalize hr : run (sharedEventsOpen sys pid) w = r at ho hof
    cases ho with
    | @opened w₁ ino c hopened =>
      have hidle := hopened.idle h.own h.log
      exact add_outcome_of_mapped hclock hof hopened.mapped hopened.shm hidle.recording
    | @failed w₁ kernel ctx fds maps hpid =>
      rw [run_add_open_failed ht hof]
      exact .refused ⟨hpid.trans h.own, .inl ctx, kernel ▸ h.log⟩
    | @half w₁ c kernel ctx events hpid =>
      rw [run_add_open_failed ht hof]
      exact .refused ⟨hpid.trans h.own, .inr (.inr ⟨c, ctx, events⟩), kernel ▸ h.log⟩
    | @died w₁ f kernel =>
      have hadd : run (sharedEventsAdd sys name) w = (.error f, w₁) := by
        simp only [sharedEventsAdd, ht, run_bind, hof]
      rw [hadd]
      refine .died ?_
      rcases kernel with hk | hk
      · rw [hk]
        exact h.log
      · rw [hk]
        exact Kernel.hasLog_ensure.mpr h.log
  · exact add_outcome_of_mapped hclock (openFailed_of_open hm.ctx) hm hshm h
  · -- an open that failed has left a context without a segment
    have hadd : run (sharedEventsAdd sys name) w = (.error .unsetEvents, w) := by
      simp [sharedEventsAdd, run_bind, ht, openFailed_of_open hc, derefEvents, hc, he]
    rw [hadd]
    exact .died h.log

end Add

/-! ## A run -/

/-- A process that becomes another program is closed, with its log in place. -/
theorem Recording.exec {pid : ℤ} {L : List SharedEvent} {w : World} (h : Recording pid L w) :
    Recording pid L { w with proc := .start w.proc.pid } :=
  ⟨h.own, .inl rfl, h.log⟩

theorem log_of_recordSteps {steps : List RecordStep} {w : World} {pid : ℤ}
    {L : List SharedEvent} (h : Recording pid L w)
    (hclock : ∀ name sys, .add name sys ∈ steps → sys.ClockWorks) :
    ∃ M, (recordSteps steps w).2.kernel.HasLog (shmName maxShmNameLen pid) (L ++ M) ∧
      List.Forall₂ AddCall.Stores (addedBy (recordSteps steps w).1) M := by
  induction steps generalizing w L with
  | nil => exact ⟨[], by rw [List.append_nil]; exact h.log, .nil⟩
  | cons step steps ih =>
    have hrest : ∀ name sys, .add name sys ∈ steps → sys.ClockWorks :=
      fun name sys hm ↦ hclock name sys (List.mem_cons_of_mem _ hm)
    cases step with
    | exec => exact ih h.exec hrest
    | add name sys =>
      have ho := @add_outcome sys name w pid L (hclock name sys List.mem_cons_self) h
      generalize hr : run (sharedEventsAdd sys name) w = r at ho
      cases ho with
      | @added w' e stores next =>
        rw [recordSteps_ok hr]
        obtain ⟨M, hM, hall⟩ := ih next hrest
        refine ⟨e :: M, ?_, .cons stores hall⟩
        rw [List.append_cons]
        exact hM
      | refused next =>
        -- a call that is refused stores nothing
        rw [recordSteps_ok hr]
        exact ih next hrest
      | died log =>
        rw [recordSteps_error hr]
        exact ⟨[], by rw [List.append_nil]; exact log, .nil⟩

/-! ## The order of the stamps -/

theorem AddCall.Stores.mem_readings {call : AddCall} {e : SharedEvent} (h : call.Stores e) :
    e.ts ∈ call.readings := by
  have hmem : Act.clock (.ok e.ts) ∈ call.acts := by
    by_cases hs : call.name = .start
    · obtain ⟨a, k, ha⟩ := h.start hs
      simp [ha]
    · obtain ⟨b, hb⟩ := h.other hs
      simp [hb]
  exact List.mem_filterMap.mpr ⟨_, hmem, rfl⟩

-- each call gives its own reading, so the stamps are a part of all readings
theorem stamps_sublist {calls : List AddCall} {log : List SharedEvent}
    (h : List.Forall₂ AddCall.Stores calls log) :
    (log.map SharedEvent.ts).Sublist (calls.flatMap AddCall.readings) := by
  induction h with
  | nil => exact .slnil
  | cons hs _ ih => exact (List.singleton_sublist.mpr hs.mem_readings).append ih

theorem readings_addedBy (calls : List AddCall) :
    ((addedBy calls).flatMap AddCall.readings).Sublist (calls.flatMap AddCall.readings) :=
  List.filter_sublist.flatMap _

theorem orderedLog_of_stores {calls : List AddCall} {log : List SharedEvent}
    (h : List.Forall₂ AddCall.Stores (addedBy calls) log)
    (hmono : (calls.flatMap AddCall.readings).Pairwise fun t t' ↦ t.seconds ≤ t'.seconds) :
    OrderedLog calls log where
  sorted := by
    have hs := (stamps_sublist h).trans (readings_addedBy calls)
    have hp := hmono.sublist hs
    rwa [List.pairwise_map] at hp
  own := h.imp fun _ _ hs ↦ ⟨hs, hs.mem_readings⟩
  between := by
    obtain ⟨-, hzip⟩ := List.forall₂_iff_zip.mp h
    apply List.pairwise_of_forall_mem_list
    intro x hx y hy hstart hother
    obtain ⟨a, k, ha⟩ := (hzip hx).start hstart
    obtain ⟨b, hb⟩ := (hzip hy).other hother
    exact ⟨a, k, b, ha, hb⟩

theorem Kernel.HasLog.events {k : Kernel} {pid : ℤ} {L : List SharedEvent}
    (h : k.HasLog (shmName maxShmNameLen pid) L) : k.events pid = L := by
  have hlog := h.2
  unfold Kernel.events
  cases hs : k.segment (shmName maxShmNameLen pid) with
  | none =>
    rw [hs] at hlog
    exact hlog
  | some s =>
    rw [hs] at hlog
    exact hlog

/-! ## The differences -/

def RecordStep.name : RecordStep → Option CString
  | .add name _ => some name
  | .exec => none

/-- A run in which every call returned 0 has made all its calls. -/
theorem names_of_added {steps : List RecordStep} {w : World}
    (h : ∀ call ∈ (recordSteps steps w).1, call.Added) :
    (recordSteps steps w).1.map AddCall.name = steps.filterMap RecordStep.name := by
  induction steps generalizing w with
  | nil => rfl
  | cons step steps ih =>
    cases step with
    | exec => exact ih h
    | add name sys =>
      rcases hr : run (sharedEventsAdd sys name) w with ⟨f | ret, w'⟩
      · rw [recordSteps_error hr] at h
        have hdied := h _ List.mem_cons_self
        cases hdied
      · rw [recordSteps_ok hr] at h ⊢
        have htail := ih fun call hc ↦ h call (List.mem_cons_of_mem _ hc)
        show name :: _ = name :: _
        rw [htail]

/-- `later - earlier` on the report of a process is a difference of two stamps, and not negative. -/
def DifferenceNonneg (k : Kernel) (pid : ℤ) (later earlier : String) : Prop :=
  ∃ q, Driver.difference (k.reportJson pid) later earlier = .ok q ∧ 0 ≤ q

theorem nameBytes_of_name {e : SharedEvent} {src : CString} (h : e.name = strncpy src)
    (hl : src.bytes.length < maxEventNameLength) : e.nameBytes = src.bytes := by
  have hb := nameBytes_strncpy hl e.ts
  rwa [← h] at hb

theorem differences_of_events {k : Kernel} {pid : ℤ} {e₁ e₂ e₃ e₄ : SharedEvent}
    (hk : k.events pid = [e₁, e₂, e₃, e₄]) (h₁ : e₁.name = strncpy .exec)
    (h₂ : e₂.name = strncpy .main) (h₃ : e₃.name = strncpy .start) (h₄ : e₄.name = strncpy .end_)
    (hmain : e₁.ts.seconds ≤ e₂.ts.seconds) (hend : e₃.ts.seconds ≤ e₄.ts.seconds) :
    DifferenceNonneg k pid "main" "exec" ∧ DifferenceNonneg k pid "end" "start" := by
  have hjson : k.reportJson pid = .obj
      [("exec".toList, .num e₁.ts.seconds), ("main".toList, .num e₂.ts.seconds),
        ("start".toList, .num e₃.ts.seconds), ("end".toList, .num e₄.ts.seconds)] := by
    unfold Kernel.reportJson
    rw [hk]
    simp only [List.map_cons, List.map_nil, nameBytes_of_name h₁ (by decide),
      nameBytes_of_name h₂ (by decide), nameBytes_of_name h₃ (by decide),
      nameBytes_of_name h₄ (by decide)]
    rfl
  unfold DifferenceNonneg
  rw [hjson]
  exact ⟨⟨e₂.ts.seconds - e₁.ts.seconds, rfl, sub_nonneg.mpr hmain⟩,
    ⟨e₄.ts.seconds - e₃.ts.seconds, rfl, sub_nonneg.mpr hend⟩⟩

/-- The steps of a process that runs a benchmark, up to the end of its loop. -/
def benchmarkSteps (s₁ s₂ s₃ s₄ : Sys) : List RecordStep :=
  [.add .exec s₁, .exec, .add .main s₂, .add .start s₃, .add .end_ s₄]

theorem differences_of_benchmark {s₁ s₂ s₃ s₄ : Sys} {w : World} {k : Kernel} {pid : ℤ}
    (h : OrderedLog (recordSteps (benchmarkSteps s₁ s₂ s₃ s₄) w).1 (k.events pid))
    (hadded : ∀ call ∈ (recordSteps (benchmarkSteps s₁ s₂ s₃ s₄) w).1, call.Added) :
    DifferenceNonneg k pid "main" "exec" ∧ DifferenceNonneg k pid "end" "start" := by
  have hall : addedBy _ = _ := List.filter_eq_self.mpr hadded
  have hown := h.own
  rw [hall] at hown
  have hnames : List.Forall₂ (fun name (e : SharedEvent) ↦ e.name = strncpy name)
      [.exec, .main, .start, .end_] (k.events pid) := by
    have hmap : List.Forall₂ (fun name (e : SharedEvent) ↦ e.name = strncpy name)
        ((recordSteps (benchmarkSteps s₁ s₂ s₃ s₄) w).1.map AddCall.name) (k.events pid) :=
      List.forall₂_map_left_iff.mpr (hown.imp fun _ _ hs ↦ hs.1.name)
    rwa [names_of_added hadded] at hmap
  have hsorted := h.sorted
  generalize hk : k.events pid = log at hnames hsorted
  cases hnames with
  | cons h₁ hnames =>
    cases hnames with
    | cons h₂ hnames =>
      cases hnames with
      | cons h₃ hnames =>
        cases hnames with
        | cons h₄ hnames =>
          cases hnames
          simp only [List.pairwise_cons, List.mem_cons, List.not_mem_nil, or_false,
            forall_eq_or_imp, forall_eq] at hsorted
          exact differences_of_events hk h₁ h₂ h₃ h₄ hsorted.1.1 hsorted.2.2.1

/-- The stamps of a process are ordered as its events are, each is a reading of its own call, and
between the two that time a benchmark's loop the two calls do nothing else. -/
theorem recorded_in_order {pid : ℤ} {steps : List RecordStep} {w : World} (h : Idle pid [] w)
    (hclock : ∀ name sys, .add name sys ∈ steps → sys.ClockWorks)
    (hmono : ((recordSteps steps w).1.flatMap AddCall.readings).Pairwise
      fun t t' ↦ t.seconds ≤ t'.seconds) :
    OrderedLog (recordSteps steps w).1 ((recordSteps steps w).2.kernel.events pid) ∧
      ∀ s₁ s₂ s₃ s₄, steps = benchmarkSteps s₁ s₂ s₃ s₄ →
        (∀ call ∈ (recordSteps steps w).1, call.Added) →
        DifferenceNonneg (recordSteps steps w).2.kernel pid "main" "exec" ∧
          DifferenceNonneg (recordSteps steps w).2.kernel pid "end" "start" := by
  obtain ⟨M, hlog, hall⟩ := log_of_recordSteps h.recording hclock
  have hordered := orderedLog_of_stores hall hmono
  rw [List.nil_append] at hlog
  rw [← hlog.events] at hordered
  refine ⟨hordered, ?_⟩
  intro s₁ s₂ s₃ s₄ hs hadded
  subst hs
  exact differences_of_benchmark hordered hadded

/-- A run of the four events at the seconds 1 to 4. -/
def benchmarkRun : List AddCall × World :=
  recordSteps (benchmarkSteps (.succeeding ⟨1, 0⟩) (.succeeding ⟨2, 0⟩) (.succeeding ⟨3, 0⟩)
    (.succeeding ⟨4, 0⟩)) ⟨.empty, .start 1⟩

theorem recorded_in_order_benchmark :
    OrderedLog benchmarkRun.1 (benchmarkRun.2.kernel.events 1) ∧
      DifferenceNonneg benchmarkRun.2.kernel 1 "main" "exec" := by
  have h := @recorded_in_order 1 _ _ ⟨rfl, .inl rfl, Nat.zero_le _, rfl⟩
    (show ∀ name sys, _ ∈ benchmarkSteps (.succeeding ⟨1, 0⟩) (.succeeding ⟨2, 0⟩)
      (.succeeding ⟨3, 0⟩) (.succeeding ⟨4, 0⟩) → _ by
      intro name sys hmem
      simp only [benchmarkSteps, List.mem_cons, RecordStep.add.injEq, reduceCtorEq, false_or,
        List.not_mem_nil, or_false] at hmem
      rcases hmem with ⟨-, rfl⟩ | ⟨-, rfl⟩ | ⟨-, rfl⟩ | ⟨-, rfl⟩ <;>
        exact ⟨⟨_, rfl⟩, ⟨_, rfl⟩⟩)
    (show List.Pairwise _ (benchmarkRun.1.flatMap AddCall.readings) by
      have hreadings : benchmarkRun.1.flatMap AddCall.readings =
          [⟨1, 0⟩, ⟨2, 0⟩, ⟨3, 0⟩, ⟨3, 0⟩, ⟨4, 0⟩] := rfl
      rw [hreadings]
      simp only [List.pairwise_cons, List.mem_cons, List.not_mem_nil, or_false, forall_eq_or_imp,
        forall_eq, Timespec.seconds]
      norm_num)
  refine ⟨h.1, (h.2 _ _ _ _ rfl ?_).1⟩
  have hcalls : benchmarkRun.1.map AddCall.ret = [.ok 0, .ok 0, .ok 0, .ok 0] := rfl
  intro call hc
  have hret := List.mem_map_of_mem (f := AddCall.ret) hc
  rw [show (recordSteps _ _).1.map AddCall.ret = _ from hcalls] at hret
  have hok : call.ret = .ok 0 := by simpa using hret
  rw [AddCall.Added, hok]
  rfl

end UstBench
