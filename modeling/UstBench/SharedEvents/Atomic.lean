import UstBench.SharedEvents.Actions

/-!
# All or nothing

`shared_events_add` on an open segment, with every outcome of its readings of the clock.  The new
count is stored before the late reading of a `"start"` event, so that one exit is taken with an event
in the log that nobody stamped.
-/

namespace UstBench

open Reasoning Reasoning.Prog

/-- The call has added one event, stamped with a reading of its own, or it failed and changed
nothing a reader of the segment `ino` sees. -/
def AddsAllOrNothing (w : World) (ino : Ino) (name : CString) (acts : List Act) :
    Except Fault ℤ × World → Prop
  | (.error _, _) => False
  | (.ok ret, w') =>
    (ret = 0 ∧ (w'.kernel.seg ino).count = (w.kernel.seg ino).count + 1 ∧
        ∃ e, (w'.kernel.seg ino).log = (w.kernel.seg ino).log ++ [e] ∧
          e.nameBytes = name.bytes ∧ Act.clock (.ok e.ts) ∈ acts) ∨
      (ret = -1 ∧ (w'.kernel.seg ino).count = (w.kernel.seg ino).count ∧
        (w'.kernel.seg ino).log = (w.kernel.seg ino).log)

/-- A `"start"` event gets a slot, and the reading of the clock that should stamp it fails. -/
def StartUnstamped (sys : Sys) (w : World) (ino : Ino) (name : CString) : Prop :=
  name = .start ∧ (w.kernel.seg ino).count < maxEventCount ∧ (∃ t, sys.clock = .ok t) ∧
    ∃ e, sys.clockLate = .error e

section Outcomes

variable {sys : Sys} {w : World} {ino : Ino} {c : Ctx} {name : CString}

theorem addsAllOrNothing_of_clock_failed {e : ℕ} (acts : List Act) (w : World) (ino : Ino)
    (ht : sys.clock = .error e) :
    AddsAllOrNothing w ino name acts (run (sharedEventsAdd sys name) w) := by
  rw [run_add_clock_failed name ht]
  exact .inr ⟨rfl, rfl, rfl⟩

theorem addsAllOrNothing_of_full {t : Timespec} (acts : List Act) (h : w.Mapped ino c)
    (ht : sys.clock = .ok t) (hfull : (w.kernel.seg ino).count = maxEventCount) :
    AddsAllOrNothing w ino name acts (run (sharedEventsAdd sys name) w) := by
  rw [run_add_full h ht hfull]
  exact .inr ⟨rfl, rfl, rfl⟩

-- the reading that is stored comes last for `"start"`, and first for every other name
theorem addsAllOrNothing_of_stamp {t ts : Timespec} (h : w.Mapped ino c) (ht : sys.clock = .ok t)
    (hts : sys.stamp name = .ok ts) (hlt : (w.kernel.seg ino).count < maxEventCount)
    (hn : name.bytes.length < maxEventNameLength) :
    AddsAllOrNothing w ino name (Traced.acts (TracedCall.sharedEventsAdd sys name) w)
      (run (sharedEventsAdd sys name) w) := by
  have hacts := TracedCall.acts_sharedEventsAdd ht hts (openFailed_of_open h.ctx) h hlt
  rw [run_add_of_mapped h ht hts hlt, hacts]
  refine .inl ⟨rfl, ?_, ⟨ts, strncpy name⟩, ?_, nameBytes_strncpy hn ts, ?_⟩
  · rw [World.setSeg_seg]
  · rw [World.setSeg_seg, SharedEvents.log_push hlt]
  · by_cases hs : name = .start
    · simp [hs]
    · have htt : ts = t := by
        rw [Sys.stamp_of_ne hs, ht] at hts
        exact (Except.ok.inj hts).symm
      simp [htt]

theorem not_addsAllOrNothing_of_unstamped (acts : List Act) (h : w.Mapped ino c)
    (hu : StartUnstamped sys w ino name) :
    ¬AddsAllOrNothing w ino name acts (run (sharedEventsAdd sys name) w) := by
  rcases hu with ⟨rfl, hlt, ⟨t, ht⟩, e, he⟩
  rw [run_add_unstamped h ht he hlt]
  intro ha
  rcases ha with ⟨h0, -⟩ | ⟨-, hsame, -⟩
  · exact absurd h0 (by decide)
  · -- the count is not taken back
    rw [World.setErrno_kernel, World.setSeg_seg] at hsame
    exact absurd hsame (Nat.succ_ne_self _)

end Outcomes

/-- `shared_events_add` is atomic except for a `"start"` event whose own reading of the clock
fails. -/
theorem add_allOrNothing_iff {w : World} {ino : Ino} {c : Ctx} (sys : Sys) (name : CString)
    (h : w.Mapped ino c) (hmax : (w.kernel.seg ino).count ≤ maxEventCount)
    (hn : name.bytes.length < maxEventNameLength) :
    AddsAllOrNothing w ino name (Traced.acts (TracedCall.sharedEventsAdd sys name) w)
        (run (sharedEventsAdd sys name) w) ↔ ¬StartUnstamped sys w ino name := by
  constructor
  · intro ha hu
    exact not_addsAllOrNothing_of_unstamped _ h hu ha
  · intro hu
    cases ht : sys.clock with
    | error e => exact addsAllOrNothing_of_clock_failed _ w ino ht
    | ok t =>
      by_cases hfull : (w.kernel.seg ino).count = maxEventCount
      · exact addsAllOrNothing_of_full _ h ht hfull
      · have hlt : (w.kernel.seg ino).count < maxEventCount := by omega
        cases hts : sys.stamp name with
        | ok ts => exact addsAllOrNothing_of_stamp h ht hts hlt hn
        | error e =>
          have hlate := Sys.stamp_eq_error ht hts
          exact absurd ⟨hlate.1, hlt, ⟨t, ht⟩, e, hlate.2⟩ hu

/-- A process with the empty segment of its own pid open. -/
def openedWorld : World where
  kernel := Kernel.empty.create (shmName maxShmNameLen 1)
  proc := { Proc.start 1 with
    fds := [(3, 0)]
    maps := [0]
    ctx := some ⟨shmName maxShmNameLen 1, 3, .mapped 0, 0⟩ }

theorem openedWorld_mapped :
    openedWorld.Mapped 0 ⟨shmName maxShmNameLen 1, 3, .mapped 0, 0⟩ :=
  ⟨rfl, rfl, by simp [openedWorld]⟩

-- the second reading of the clock fails, and the reader finds one event
theorem add_start_not_allOrNothing :
    ∃ w', run (sharedEventsAdd { Sys.succeeding ⟨1, 0⟩ with clockLate := .error 22 } .start)
        openedWorld = (.ok (-1), w') ∧
      (openedWorld.kernel.seg 0).count = 0 ∧ (w'.kernel.seg 0).count = 1 ∧
      ¬AddsAllOrNothing openedWorld 0 .start
        (Traced.acts (TracedCall.sharedEventsAdd
          { Sys.succeeding ⟨1, 0⟩ with clockLate := .error 22 } .start) openedWorld)
        (.ok (-1), w') := by
  refine ⟨_, rfl, rfl, rfl, ?_⟩
  intro ha
  rcases ha with ⟨h0, -⟩ | ⟨-, hsame, -⟩
  · exact absurd h0 (by decide)
  · exact absurd hsame (by decide)

theorem add_allOrNothing_iff_exec :
    AddsAllOrNothing openedWorld 0 .exec
        (Traced.acts (TracedCall.sharedEventsAdd (.succeeding ⟨1, 0⟩) .exec) openedWorld)
        (run (sharedEventsAdd (.succeeding ⟨1, 0⟩) .exec) openedWorld) ↔
      ¬StartUnstamped (.succeeding ⟨1, 0⟩) openedWorld 0 .exec :=
  add_allOrNothing_iff _ .exec openedWorld_mapped (by decide) (by decide)

end UstBench
