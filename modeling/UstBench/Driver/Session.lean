import UstBench.Driver.Passes

/-!
# Traced measurements

`lttng_start` destroys what is left of the tracing session, makes it anew, and enables the events
in it one by one.  What LTTng knows of the session follows from the calls that succeeded.  A
measurement under tracing that ran in a session with an event missing, or in one that had served
another measurement, would count something else than what it is published as.
-/

namespace UstBench.Driver

open Reasoning Reasoning.Prog

/-- The session as the replies tell of it: the domain of its handle, whether it has the channel, its
events in the order they were enabled, whether it runs, and the measurements made in it. -/
structure Session where
  domain : Option Domain
  channel : Bool
  events : List String
  started : Bool
  measured : List Step
  deriving DecidableEq

namespace Session

def fresh : Session := ⟨none, false, [], false, []⟩

/-- Set up for the events of one domain, and running. -/
def ready (d : Domain) (events : List String) (measured : List Step) : Session :=
  ⟨some d, true, events, true, measured⟩

/-- The session behind a step, or `none` while there is none. -/
def after (x : Option Session) : (s : Step) → Except Exc s.Result → Option Session
  | .createSnapshot, .ok ret => if 0 ≤ ret then some fresh else x
  | .destroy, .ok ret => if 0 ≤ ret then none else x
  | .handle d, .ok true => x.map fun t ↦ { t with domain := some d }
  | .enableChannel, .ok ret => if 0 ≤ ret then x.map fun t ↦ { t with channel := true } else x
  | .enableEvent name, .ok ret =>
    if 0 ≤ ret then x.map fun t ↦ { t with events := t.events ++ [name] } else x
  | .start, .ok ret => if 0 ≤ ret then x.map fun t ↦ { t with started := true } else x
  | .stop, .ok ret => if 0 ≤ ret then x.map fun t ↦ { t with started := false } else x
  | .checkOutput args, _ => x.map fun t ↦ { t with measured := t.measured ++ [.checkOutput args] }
  | .writeCount n, _ => x.map fun t ↦ { t with measured := t.measured ++ [.writeCount n] }
  | .readTime, _ => x.map fun t ↦ { t with measured := t.measured ++ [.readTime] }
  | _, _ => x

end Session

/-- The session behind the steps of a log. -/
def sessionOf : List Entry → Option Session
  | [] => none
  | e :: log => Session.after (sessionOf log) e.step e.reply

/-- The lines of the kernel module's list of events, as `events` returns them. -/
def Step.listed : (s : Step) → Except Exc s.Result → Option (List String)
  | .readEvents, .ok lines => some (lines.map fun line ↦ String.ofList (Python.rstrip line))
  | _, _ => none

/-- The names that were read last. -/
def namesRead : List Entry → List String
  | [] => []
  | e :: log => (e.step.listed e.reply).getD (namesRead log)

/-- The domain whose tracing a step measures, if the innermost call it is made in measures under
tracing. -/
def Step.tracedIn : Step → Option Frame → Option Domain
  | .checkOutput _, some (.runner true) => some .ust
  | .writeCount _, some .kernelPass => some .kernel
  | .readTime, some .kernelPass => some .kernel
  | _, _ => none

def Entry.traced (e : Entry) : Option Domain := e.step.tracedIn e.within.head?

/-- The events a session of the domain is for, when the kernel module has listed `names`. -/
def eventsFor : Domain → List String → List String
  | .ust, _ => ["*"]
  | .kernel, names => names

/-- What a measurement finds measured before it: the time is read behind the one write of the count
that made the module take it. -/
def measuredBefore : Step → List Step
  | .readTime => [.writeCount 1000000]
  | _ => []

/-- A traced measurement finds a session that runs, has its events and has served no other one. -/
def Entry.Ready (e : Entry) (earlier : List Entry) : Prop :=
  ∀ d, e.traced = some d → e.active = true ∧
    sessionOf earlier = some (.ready d (eventsFor d (namesRead earlier)) (measuredBefore e.step))

def AllReady : List Entry → Prop
  | [] => True
  | e :: earlier => e.Ready earlier ∧ AllReady earlier

theorem AllReady.ready {later earlier : List Entry} {e : Entry}
    (h : AllReady (later ++ e :: earlier)) : e.Ready earlier := by
  induction later with
  | nil => exact h.1
  | cons e' later ih => exact ih h.2

/-! ## What a step does to the session -/

/-- A session that runs, in a world whose session is active. -/
def Follows (x : Option Session) (active : Bool) : Prop := ∀ t ∈ x, t.started = true → active = true

/-- What holds of every world of a run. -/
structure Sessioned (w : World) : Prop where
  ready : AllReady w.log
  active : Follows (sessionOf w.log) w.active

/-- Within the call `f` of the script. -/
structure Headed (f : Frame) (w : World) : Prop extends Sessioned w where
  within : w.within.head? = some f

/-- Within a call of the script, with the session and the names that were read. -/
structure At (f : Frame) (x : Option Session) (names : List String) (w : World) : Prop
    extends Headed f w where
  session : sessionOf w.log = x
  names : namesRead w.log = names

section Steps

variable {f : Frame} {x : Option Session} {names : List String} {w : World} {s : Step}
  {r : Except Exc s.Result}

theorem Follows.map {active : Bool} {g : Session → Session} (h : Follows x active)
    (hg : ∀ t, (g t).started = t.started) : Follows (x.map g) active := by
  intro t ht hstarted
  obtain ⟨u, hu, rfl⟩ := Option.map_eq_some_iff.mp ht
  rw [hg] at hstarted
  exact h u hu hstarted

/-- What the log says of the session is what the world keeps of it, as far as it says it runs. -/
theorem Follows.after (h : Follows x w.active) :
    Follows (Session.after x s r) (w.after s r).active := by
  cases s <;> cases r <;> try first | exact h | exact h.map fun _ ↦ rfl
  case createSnapshot.ok ret =>
    show Follows (if 0 ≤ ret then some .fresh else x) w.active
    split
    · rintro _ ⟨⟩ hstarted
      exact absurd hstarted Bool.false_ne_true
    · exact h
  case destroy.ok ret =>
    show Follows (if 0 ≤ ret then none else x) (w.active && decide (ret < 0))
    split
    next => nofun
    next hret =>
      rw [decide_eq_true (not_le.mp hret), Bool.and_true]
      exact h
  case start.ok ret =>
    show Follows (if 0 ≤ ret then x.map _ else x) (w.active || decide (0 ≤ ret))
    split
    next hret =>
      intro _ _ _
      rw [decide_eq_true hret, Bool.or_true]
    next hret =>
      rw [decide_eq_false hret, Bool.or_false]
      exact h
  case stop.ok ret =>
    show Follows (if 0 ≤ ret then x.map _ else x) (w.active && decide (ret < 0))
    split
    next =>
      intro t ht hstarted
      obtain ⟨_, _, rfl⟩ := Option.map_eq_some_iff.mp ht
      exact absurd hstarted Bool.false_ne_true
    next hret =>
      rw [decide_eq_true (not_le.mp hret), Bool.and_true]
      exact h
  case enableChannel.ok ret | enableEvent.ok name ret =>
    show Follows (if 0 ≤ ret then x.map _ else x) w.active
    split
    · exact h.map fun _ ↦ rfl
    · exact h
  case handle.ok d made =>
    cases made with
    | false => exact h
    | true => exact h.map fun _ ↦ rfl
  case writeCpu.ok cpu online took =>
    cases took with
    | false => exact h
    | true => exact h

theorem Sessioned.after (h : Sessioned w)
    (hready : Entry.Ready ⟨s, r, w.within, w.active, w.online⟩ w.log) :
    Sessioned (w.after s r) where
  ready := ⟨hready, h.ready⟩
  active := h.active.after

/-- A step that measures nothing under tracing is ready for anything. -/
theorem ready_of_untraced {e : Entry} {earlier : List Entry} (h : e.traced = none) :
    e.Ready earlier := by
  intro d hd
  rw [h] at hd
  exact absurd hd nofun

theorem At.after (h : At f x names w)
    (hready : Entry.Ready ⟨s, r, w.within, w.active, w.online⟩ w.log) :
    At f (Session.after x s r) ((s.listed r).getD names) (w.after s r) where
  toSessioned := h.toSessioned.after hready
  within := by rw [World.after_within, h.within]
  session := by
    show Session.after (sessionOf w.log) s r = _
    rw [h.session]
  names := by
    show (s.listed r).getD (namesRead w.log) = _
    rw [h.names]

/-- A traced measurement of the domain the session is ready for. -/
theorem At.measures {d : Domain}
    (h : At f (some (.ready d (eventsFor d names) (measuredBefore s))) names w)
    (hs : s.tracedIn (some f) = some d) :
    Entry.Ready ⟨s, r, w.within, w.active, w.online⟩ w.log := by
  intro d' hd
  have hd' : s.tracedIn w.within.head? = some d' := hd
  rw [h.within, hs] at hd'
  cases hd'
  rw [h.names]
  exact ⟨h.active _ h.session rfl, h.session⟩

end Steps

section Calls

variable {env : Env} {f : Frame} {x : Option Session} {names : List String} {s : Step}

theorem at_call (h : ∀ w r, At f x names w →
      Entry.Ready ⟨s, r, w.within, w.active, w.online⟩ w.log) :
    Triple (At f x names) (env.call s)
      (fun r ↦ At f (Session.after x s (.ok r)) ((s.listed (.ok r)).getD names))
      fun _ ↦ Sessioned :=
  triple_call (fun w _ hw _ ↦ hw.after (h w _ hw)) fun w _ hw _ ↦ (hw.after (h w _ hw)).toSessioned

/-- A step that is no measurement. -/
theorem at_quiet (hs : ∀ c, s.tracedIn c = none) :
    Triple (At f x names) (env.call s)
      (fun r ↦ At f (Session.after x s (.ok r)) ((s.listed (.ok r)).getD names))
      fun _ ↦ Sessioned :=
  at_call fun _ _ _ ↦ ready_of_untraced (hs _)

theorem at_measurement {d : Domain} (hs : s.tracedIn (some f) = some d) :
    Triple (At f (some (.ready d (eventsFor d names) (measuredBefore s))) names) (env.call s)
      (fun r ↦ At f
        (Session.after (some (.ready d (eventsFor d names) (measuredBefore s))) s (.ok r))
        ((s.listed (.ok r)).getD names))
      fun _ ↦ Sessioned :=
  at_call fun _ _ hw ↦ hw.measures hs

/-- The parts of the script that never measure. -/
def Part.unmeasured : List Part := [.lttng, .activation, .cpuRead, .cpuWrite, .script]

theorem stable_sessioned (fs : List Frame) : Stable Sessioned Part.unmeasured fs where
  step {w s} r hs hw := by
    apply hw.after
    apply ready_of_untraced
    show s.tracedIn w.within.head? = none
    cases s <;> first | rfl | simp [Step.part, Part.unmeasured] at hs
  push _ _ hw := ⟨hw.ready, hw.active⟩
  back _ _ hw' := ⟨hw'.ready, hw'.active⟩

/-- In a call that does not measure under tracing, every step keeps it. -/
theorem stable_headed (hf : f ≠ .runner true ∧ f ≠ .kernelPass) (ps : List Part) :
    Stable (Headed f) ps [] where
  step {w s} r _ hw := by
    refine ⟨hw.toSessioned.after (ready_of_untraced ?_), by rw [World.after_within, hw.within]⟩
    show s.tracedIn w.within.head? = none
    rw [hw.within]
    cases s <;> first | rfl | (cases f <;> simp_all [Step.tracedIn])
  push _ hf := absurd hf List.not_mem_nil
  back hne := absurd rfl hne

/-- A call under its frame, by what holds of it inside. -/
theorem sessioned_inFrame {α : Type} {m : Prog World Exc α}
    (hm : ∀ x names, Triple (At f x names) m (fun _ ↦ Sessioned) fun _ ↦ Sessioned) :
    Keeps Sessioned (inFrame f m) := by
  apply triple_inFrame
  intro w hw
  apply (hm (sessionOf w.log) (namesRead w.log)).conseq
  · rintro _ rfl
    exact ⟨⟨⟨hw.ready, hw.active⟩, rfl⟩, rfl, rfl⟩
  · exact fun _ _ hw' ↦ ⟨hw'.ready, hw'.active⟩
  · exact fun _ _ hw' ↦ ⟨hw'.ready, hw'.active⟩

end Calls

/-! ## Setting the session up -/

section Session

variable {env : Env} {f : Frame} {x y : Option Session} {names : List String}

/-- `if ret < 0: raise ..`, when the session is `y` behind a call that succeeded. -/
theorem at_raiseIfNegative {ret : ℤ} :
    Triple (At f (if 0 ≤ ret then y else x) names) (raiseIfNegative env ret)
      (fun _ ↦ At f y names) fun _ ↦ Sessioned := by
  apply triple_when
  · exact fun _ ↦ triple_throw _ fun _ hw ↦ hw.toSessioned
  · intro hret w hw
    rwa [if_pos (not_lt.mp hret)] at hw

theorem at_enableEvent {t : Session} (name : String) :
    Triple (At f (some t) names) (enableEvent env name)
      (fun _ ↦ At f (some { t with events := t.events ++ [name] }) names) fun _ ↦ Sessioned :=
  triple_bind (at_quiet fun _ ↦ rfl) fun _ ↦ at_raiseIfNegative

/-- Whatever the session was, `lttng_start` that returns leaves one that is ready. -/
theorem at_lttngStart (events : List String) (d : Domain) :
    Triple (At f x names) (lttngStart env events d)
      (fun _ ↦ At f (some (.ready d events [])) names) fun _ ↦ Sessioned := by
  unfold lttngStart
  apply triple_bind (Q := fun _ ↦ At f (some ⟨some d, true, events, false, []⟩) names)
  · unfold lttngPrepare
    apply triple_bind (at_quiet fun _ ↦ rfl)
    intro alive
    apply triple_bind (triple_whenever (at_quiet fun _ ↦ rfl))
    intro _
    apply triple_bind (at_quiet fun _ ↦ rfl)
    intro _
    apply triple_bind (at_quiet fun _ ↦ rfl)
    intro ret
    apply triple_bind at_raiseIfNegative
    intro _
    apply triple_bind (at_quiet fun _ ↦ rfl)
    intro _
    apply triple_bind (at_quiet fun _ ↦ rfl)
    intro han
    apply triple_bind (Q := fun _ ↦ At f (some ⟨some d, false, [], false, []⟩) names)
    · cases han with
      | false =>
        apply triple_when _ fun h ↦ absurd rfl h
        exact fun _ ↦ triple_throw _ fun _ hw ↦ hw.toSessioned
      | true => exact triple_when nofun fun _ _ hw ↦ hw
    intro _
    apply triple_bind (at_quiet fun _ ↦ rfl)
    intro ret
    apply triple_bind at_raiseIfNegative
    intro _
    -- the events are enabled one by one, in their order
    exact triple_forEach_done
      (I := fun done ↦ At f (some ⟨some d, true, done, false, []⟩) names)
      (fun _ name ↦ at_enableEvent name) [] events
  intro _
  apply triple_bind (at_quiet fun _ ↦ rfl)
  exact fun ret ↦ at_raiseIfNegative

end Session

/-! ## The benchmarks -/

section Benchmarks

variable {env : Env}

theorem sessioned_runBenchmarkTool (args : List String) (withUst : Bool) :
    Keeps Sessioned (runBenchmarkTool env args withUst) := by
  have hstable := stable_sessioned []
  apply sessioned_inFrame
  intro x names
  -- the output of the tool, whichever way it was run
  apply triple_bind (Q := fun _ w ↦ Sessioned w ∧
    ∀ r, Entry.Ready ⟨.checkOutput (runnerBin :: args), r, w.within, w.active, w.online⟩ w.log)
  · cases withUst with
    | false =>
      apply triple_when nofun
      intro _ w hw
      refine ⟨hw.toSessioned, fun r ↦ ready_of_untraced ?_⟩
      show Step.tracedIn _ w.within.head? = none
      rw [hw.within]
      rfl
    | true =>
      apply triple_when (fun _ ↦ ?_) fun h ↦ absurd rfl h
      exact (at_lttngStart _ _).conseq (fun _ hw ↦ hw)
        (fun _ w hw ↦ ⟨hw.toSessioned, fun r ↦ hw.measures (d := .ust) rfl⟩) fun _ _ hw ↦ hw
  intro _
  apply triple_bind (Q := fun _ ↦ Sessioned)
  · exact triple_call (fun w r hw _ ↦ hw.1.after (hw.2 _)) fun w e hw _ ↦ hw.1.after (hw.2 _)
  intro output
  apply keeps_bind (keeps_when (hstable.exits.lttngStop (by decide)))
  exact fun _ ↦ keeps_ofExcept _

theorem sessioned_doUstBenchmark (b : Benchmark) : Keeps Sessioned (doUstBenchmark env b) :=
  keeps_bind (sessioned_runBenchmarkTool _ _) fun _ ↦
    keeps_bind (sessioned_runBenchmarkTool _ _) fun _ ↦
      keeps_bind (sessioned_runBenchmarkTool _ _) fun _ ↦
        keeps_bind ((stable_sessioned []).call (p := .script) (by decide) (by rfl)) fun _ ↦
          keeps_ofExcept _

/-- The measurement without tracing, and what the pass reads before it starts the session. -/
theorem sessioned_baseRun (count : ℕ) :
    Triple (Headed .kernelPass) (inFrame .baseRun (kernelBenchmark env count))
      (fun _ ↦ Headed .kernelPass) fun _ ↦ Sessioned := by
  have hheaded := stable_headed (f := .baseRun) (by decide) [.module]
  apply triple_inFrame
  intro w hw
  apply (hheaded.exits.kernelBenchmark (by decide) count).conseq
  · rintro _ rfl
    exact ⟨⟨hw.ready, hw.active⟩, rfl⟩
  · exact fun _ _ hw' ↦ ⟨⟨hw'.ready, hw'.active⟩, hw.within⟩
  · exact fun _ _ hw' ↦ ⟨hw'.ready, hw'.active⟩

theorem at_events {f : Frame} :
    Triple (Headed f) (events env) (fun names w ↦ ∃ x, At f x names w) fun _ ↦ Sessioned := by
  apply triple_bind (Q := fun lines w ↦
    ∃ x, At f x (lines.map fun line ↦ String.ofList (Python.rstrip line)) w)
  · apply triple_call
    · intro w lines hw _
      have hat : At f (sessionOf w.log) (namesRead w.log) w := ⟨hw, rfl, rfl⟩
      exact ⟨_, hat.after (r := .ok lines) (ready_of_untraced (by rfl))⟩
    · exact fun w e hw _ ↦ hw.toSessioned.after (ready_of_untraced rfl)
  · exact fun lines ↦ triple_pure _ fun _ hw ↦ hw

theorem at_load {f : Frame} {x : Option Session} {names : List String} (m : LinuxModule) :
    Triple (At f x names) (m.load env) (fun _ ↦ At f x names) fun _ ↦ Sessioned :=
  triple_bind (at_quiet fun _ ↦ rfl) fun _ ↦ triple_whenever (at_quiet fun _ ↦ rfl)

/-- The measurement under tracing makes both of its steps in the session it was given. -/
theorem at_kernelBenchmark {names : List String} :
    Triple (At .kernelPass (some (.ready .kernel names [])) names) (kernelBenchmark env 1000000)
      (fun _ ↦ Sessioned) fun _ ↦ Sessioned := by
  unfold kernelBenchmark
  apply triple_bind (at_load _)
  intro _
  apply triple_bind (at_load _)
  intro _
  apply triple_bind (at_measurement (s := .writeCount 1000000) (d := .kernel) rfl)
  intro _
  apply triple_bind (at_measurement (s := .readTime) (d := .kernel) rfl)
  intro text
  apply triple_bind (triple_ofExcept (fun _ _ hw ↦ hw.toSessioned) fun _ _ hw ↦ hw.toSessioned)
  exact fun _ ↦ keeps_pure _

theorem sessioned_doKernelBenchmark : Keeps Sessioned (doKernelBenchmark env 1000000) := by
  have hexits : Exits env Sessioned Sessioned Part.unmeasured [] := (stable_sessioned []).exits
  apply sessioned_inFrame
  intro x names
  apply triple_bind ((sessioned_baseRun _).conseq (fun _ hw ↦ hw.toHeaded) (fun _ _ hw ↦ hw)
    fun _ _ hw ↦ hw)
  intro baseRun
  apply triple_bind at_events
  intro names
  apply triple_exists
  intro x
  apply triple_bind (at_lttngStart names .kernel)
  intro _
  apply triple_bind at_kernelBenchmark
  intro tracingEnRun
  apply triple_bind (hexits.lttngStop (by decide))
  intro _
  apply triple_bind (hexits.onlineCount (by decide))
  intro cpuCount
  apply triple_bind (hexits.call (p := .script) (by decide) (by rfl))
  exact fun _ ↦ hexits.ofExcept _

end Benchmarks

/-! ## The script -/

section Main

variable {env : Env} {J : World → Prop} (hust : ∀ b, Keeps J (doUstBenchmark env b))
  (hkernel : Keeps J (doKernelBenchmark env 1000000))
  (h : ∀ fs, Stable J [.cpuRead, .cpuWrite, .script] fs)

include hkernel h in
theorem keeps_kernelPasses (n : ℕ) (data : List Value) : Keeps J (kernelPasses env n data) := by
  induction n generalizing data with
  | zero => exact keeps_pure _
  | succ n ih =>
    apply keeps_bind
    · apply keeps_tryCatch
      · exact keeps_bind hkernel fun _ ↦ keeps_pure _
      · exact fun _ ↦ keeps_bind ((h []).call (p := .script) (by decide) (by rfl)) fun _ ↦
          keeps_pure _
    intro result
    cases result with
    | none => exact keeps_pure _
    | some result => exact ih _

include hust hkernel h

theorem keeps_doBenchmarks (full fast : ℕ) : Keeps J (doBenchmarks env full fast) :=
  triple_passes (fun p _ _ ↦ hust p.2.1) fun data ↦ keeps_kernelPasses hkernel h full data

theorem keeps_levels (counts : List ℕ) (allData allAvg : Dict) :
    Keeps J (levels env counts allData allAvg) := by
  have hexits : Exits env J J [.cpuRead, .cpuWrite, .script] [] := (h []).exits
  induction counts generalizing allData allAvg with
  | nil => exact keeps_pure _
  | cons c counts ih =>
    apply keeps_bind
    · apply keeps_tryCatch
      · exact keeps_bind (hexits.setOnlineCount (by decide) (by decide) _) fun _ ↦ keeps_pure _
      · exact fun _ ↦ keeps_bind ((h []).call (p := .script) (by decide) (by rfl)) fun _ ↦
          keeps_pure _
    intro isSet
    split
    · have hlevel : Exits env J J [.cpuRead, .cpuWrite, .script] [.level c] := (h [.level c]).exits
      apply keeps_bind (hlevel.frame List.mem_cons_self (keeps_doBenchmarks hust hkernel h 5 100))
      intro data
      exact keeps_bind (hexits.averageData (by decide) data) fun _ ↦ ih _ _
    · exact keeps_pure _

/-- What the two kinds of benchmark keep, and the rest of the script does, `main` keeps. -/
theorem keeps_main : Keeps J (main env) := by
  have hexits : Exits env J J [.cpuRead, .cpuWrite, .script] [] := (h []).exits
  apply keeps_bind (hexits.onlineCount (by decide))
  intro n
  apply keeps_bind (keeps_levels hust hkernel h _ _ _)
  rintro ⟨allData, allAvg⟩
  apply keeps_bind (hexits.call (p := .script) (by decide) (by rfl))
  intro uname
  apply keeps_bind (hexits.writePlotProperties (by decide) _ _)
  exact fun _ ↦ hexits.call (p := .script) (by decide) (by rfl)

end Main

section Script

variable {env : Env}

theorem keeps_unload {J : World → Prop} {fs : List Frame} (h : Stable J [.module] fs)
    (m : LinuxModule) : Keeps J (m.unload env) :=
  keeps_bind (h.call (p := .module) (by decide) (by rfl)) fun _ ↦
    keeps_when (h.call (p := .module) (by decide) (by rfl))

/-- The `finally` clause measures nothing. -/
theorem sessioned_restore (savedOnlineCpus : Finset ℕ) :
    Keeps Sessioned (restore env savedOnlineCpus) := by
  have hquiet := stable_headed (f := .restore) (by decide) [.lttng, .module, .script]
  have hmodules := stable_headed (f := .restore) (by decide) [.module]
  have hcpus := stable_headed (f := .restore) (by decide) [.cpuRead, .cpuWrite]
  have hcall : ∀ {s : Step} {p : Part}, p ∈ [Part.lttng, .module, .script] → s.part = p →
      Keeps (Headed .restore) (env.call s) := fun hp hs ↦ hquiet.call hp hs
  apply sessioned_inFrame
  intro x names
  apply Triple.conseq (P := Headed .restore) (Q := fun _ ↦ Headed .restore)
    (E := fun _ ↦ Headed .restore) ?_ (fun _ hw ↦ hw.toHeaded) (fun _ _ hw ↦ hw.toSessioned)
    fun _ _ hw ↦ hw.toSessioned
  apply keeps_bind (m := cleanup env)
  · unfold cleanup
    apply keeps_bind (hcall (p := .lttng) (by decide) (by rfl))
    intro _
    apply keeps_bind (hcall (p := .lttng) (by decide) (by rfl))
    intro _
    apply keeps_bind (keeps_bind (keeps_unload hmodules _) fun _ ↦ keeps_unload hmodules _)
    intro _
    apply keeps_bind (keeps_tryCatch ?_ fun e ↦ keeps_when (keeps_throw e))
    · exact fun _ ↦ hcall (p := .script) (by decide) (by rfl)
    · apply keeps_bind (hcall (p := .script) (by decide) (by rfl))
      intro line
      apply keeps_bind (keeps_ofExcept _)
      exact fun pid ↦ hcall (p := .script) (by decide) (by rfl)
  · exact fun _ ↦ hcpus.exits.setOnlineCpus (by decide) (by decide) savedOnlineCpus

theorem sessioned_script : Keeps Sessioned (script env) := by
  have hstable : ∀ fs, Stable Sessioned [.cpuRead, .cpuWrite, .script] fs := fun fs ↦
    ⟨fun r hs ↦ (stable_sessioned fs).step r (by revert hs; cases Step.part _ <;> decide),
      (stable_sessioned fs).push, (stable_sessioned fs).back⟩
  have hmain : Keeps Sessioned (main env) :=
    keeps_main sessioned_doUstBenchmark sessioned_doKernelBenchmark hstable
  apply keeps_bind ((hstable []).exits.readCpuFile (by decide) _)
  intro savedOnlineCpus
  apply triple_tryFinally
  · exact keeps_tryCatch hmain fun e ↦ keeps_when (keeps_throw e)
  · exact sessioned_restore savedOnlineCpus

/-- In every run of the script, whatever fails in it and whenever, a measurement under tracing is
made in a session that runs, that has been made anew for it, and that has exactly the events it is
for: all of them in user space, those the module listed in the kernel. -/
theorem script_sessions {w w' : World} {r : Except Exc Unit} (hlog : w.log = [])
    (hrun : run (script env) w = (r, w')) {later earlier : List Entry} {e : Entry}
    (hsplit : w'.log = later ++ e :: earlier) {d : Domain} (htraced : e.traced = some d) :
    e.active = true ∧ sessionOf earlier =
      some (.ready d (eventsFor d (namesRead earlier)) (measuredBefore e.step)) := by
  have hstart : Sessioned w := by
    constructor
    · rw [hlog]
      exact trivial
    · rw [hlog]
      exact nofun
  have hend : Sessioned w' := by
    have hend := (@sessioned_script env).at_end hstart
    rwa [hrun] at hend
  have hready := hend.ready
  rw [hsplit] at hready
  exact hready.ready d htraced

end Script

/-- The runner fails under tracing, and prints an empty array otherwise. -/
def tracedFault : Env := .of fun w s ↦
  match s with
  | .checkOutput _ => if w.active then .error .calledProcessError else .ok [91, 93]
  | s => goodReply s

theorem script_sessions_runner_fails :
    ∃ (later earlier : List Entry) (e : Entry),
      (run (script tracedFault) twoCpus).2.log = later ++ e :: earlier ∧ e.traced = some .ust ∧
      e.active = true ∧ sessionOf earlier = some (.ready .ust ["*"] []) := by
  obtain ⟨hlen, htraced, hfirst⟩ : ∃ h : 11 < (run (script tracedFault) twoCpus).2.log.length,
      (run (script tracedFault) twoCpus).2.log[11].traced = some .ust ∧
        measuredBefore (run (script tracedFault) twoCpus).2.log[11].step = [] := by decide +kernel
  have hsplit := (List.take_append_drop 11 _).symm.trans
    (congrArg _ (List.drop_eq_getElem_cons hlen))
  obtain ⟨hactive, hsession⟩ := script_sessions rfl (Prod.eta _).symm hsplit htraced
  rw [hfirst] at hsession
  exact ⟨_, _, _, hsplit, htraced, hactive, hsession⟩

end UstBench.Driver
