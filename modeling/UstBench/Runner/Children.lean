import UstBench.Reasoning.Interleave
import UstBench.Runner.Program
import UstBench.SharedEvents.Binding
import UstBench.SharedEvents.OpenFailure

/-!
# The children, side by side

Every child works on the segment of its own pid, before and after it becomes another program.
`Progress` says how far a child has come and what its segment holds there; a turn of a child keeps
it, and a turn of another child does not touch what it speaks of.  A turn is one call of the module.
-/

namespace UstBench

open Reasoning Reasoning.Prog

/-! ## What a call leaves alone -/

namespace Kernel

/-- Every name but `n` leads to what it led to before. -/
def SameBut (k k' : Kernel) (n : ShmName) : Prop :=
  ∀ m, m ≠ n → k'.shm m = k.shm m ∧ k'.segment m = k.segment m

theorem SameBut.refl (k : Kernel) (n : ShmName) : k.SameBut k n := fun _ _ ↦ ⟨rfl, rfl⟩

theorem SameBut.trans {k k' k'' : Kernel} {n : ShmName} (h : k.SameBut k' n)
    (h' : k'.SameBut k'' n) : k.SameBut k'' n := by
  intro m hm
  exact ⟨(h' m hm).1.trans (h m hm).1, (h' m hm).2.trans (h m hm).2⟩

theorem sameBut_ensure (k : Kernel) (n : ShmName) : k.SameBut (k.ensure n) n := by
  intro m hm
  refine ⟨?_, k.segment_ensure_of_ne hm⟩
  cases hn : k.shm n with
  | some ino => rw [ensure_of_some hn]
  | none =>
    rw [ensure_of_none hn]
    exact Function.update_of_ne hm _ _

theorem sameBut_setSeg {k : Kernel} {n : ShmName} {ino : Ino} (h : k.shm n = some ino)
    (s : SharedEvents) : k.SameBut (k.setSeg ino s) n :=
  fun _ hm ↦ ⟨rfl, segment_setSeg_of_ne h hm s⟩

/-- The events under a name.  Without a segment there are none. -/
def HasLog (k : Kernel) (n : ShmName) (L : List SharedEvent) : Prop :=
  ((k.segment n).getD .zeroed).count ≤ maxEventCount ∧ ((k.segment n).getD .zeroed).log = L

theorem hasLog_ensure {k : Kernel} {n : ShmName} {L : List SharedEvent} :
    (k.ensure n).HasLog n L ↔ k.HasLog n L := by
  unfold HasLog
  rw [k.segment_ensure_self n]
  rfl

theorem hasLog_of_shm {k : Kernel} {n : ShmName} {ino : Ino} {L : List SharedEvent}
    (h : k.shm n = some ino) :
    k.HasLog n L ↔ (k.seg ino).count ≤ maxEventCount ∧ (k.seg ino).log = L := by
  unfold HasLog
  rw [segment_of_shm h]
  rfl

theorem hasLog_setSeg {k : Kernel} {n : ShmName} {ino : Ino} {L : List SharedEvent}
    (h : k.shm n = some ino) (s : SharedEvents) :
    (k.setSeg ino s).HasLog n L ↔ s.count ≤ maxEventCount ∧ s.log = L := by
  unfold HasLog
  rw [segment_setSeg_self h]
  rfl

/-- An event stored behind the last one. -/
theorem HasLog.push {k : Kernel} {n : ShmName} {ino : Ino} {L : List SharedEvent}
    (h : k.HasLog n L) (hs : k.shm n = some ino) (hlt : (k.seg ino).count < maxEventCount)
    (e : SharedEvent) :
    (k.setSeg ino ⟨(k.seg ino).count + 1, Function.update (k.seg ino).events ⟨_, hlt⟩ e⟩).HasLog n
      (L ++ [e]) := by
  rw [hasLog_setSeg hs, SharedEvents.log_push hlt, ((hasLog_of_shm hs).mp h).2]
  exact ⟨hlt, rfl⟩

theorem HasLog.congr {k k' : Kernel} {n : ShmName} {L : List SharedEvent} (h : k.HasLog n L)
    (hs : k'.segment n = k.segment n) : k'.HasLog n L := by
  unfold HasLog at h ⊢
  rw [hs]
  exact h

end Kernel

theorem sameBut_of_binds {w : World} {pid : ℤ} (sys : Sys) (h : w.Binds pid) (op : LogOp) :
    w.kernel.SameBut (run (op.run sys) w).2.kernel (shmName maxShmNameLen pid) := by
  rcases h with ⟨ino, c, hm, hshm⟩
  rcases (run_mapped_step sys hm op).1.kernel with ⟨s, hs⟩
  rw [hs]
  exact Kernel.sameBut_setSeg hshm s

theorem sameBut_of_closed {w : World} {pid : ℤ} (sys : Sys) (hc : w.proc.ctx = none)
    (hpid : w.proc.pid = pid) (op : LogOp) :
    w.kernel.SameBut (run (op.run sys) w).2.kernel (shmName maxShmNameLen pid) := by
  cases hp : (Op.log op).opensFor sys w with
  | none =>
    rcases run_of_opensFor_none op hp with ⟨e, hr⟩
    rw [hr]
    exact .refl _ _
  | some q =>
    have hq : q = pid := by
      rw [← hpid]
      cases op with
      | add name =>
        cases ht : sys.clock <;> simp [Op.opensFor, ht] at hp
        exact hp.symm
      | clear => simpa [Op.opensFor] using hp.symm
      | read => simpa [Op.opensFor] using hp.symm
      | rewind => simpa [Op.opensFor] using hp.symm
    subst hq
    -- the open touches the name of its own pid only, and so does what goes on behind it
    have ho := open_outcome sys q hc
    rw [run_of_closed op hc hp]
    generalize run (sharedEventsOpen sys q) w = r at ho
    cases ho with
    | @opened w' ino c h =>
      simp only [show ¬(0 : ℤ) = -1 by decide, if_false]
      have hsame := sameBut_of_binds sys h.binds op
      rw [h.kernel] at hsame
      exact (w.kernel.sameBut_ensure _).trans hsame
    | failed kernel =>
      simp only [if_true, kernel]
      exact .refl _ _
    | half kernel =>
      simp only [if_true, kernel]
      exact .refl _ _
    | died kernel =>
      rcases kernel with h | h
      · rw [h]
        exact .refl _ _
      · rw [h]
        exact w.kernel.sameBut_ensure _

/-! ## The log of one child -/

/-- A full log takes no more events. -/
def pushEvent (L : List SharedEvent) (e : SharedEvent) : List SharedEvent :=
  if L.length < maxEventCount then L ++ [e] else L

/-- The time an add stores when the clock can be read. -/
def Sys.stampTime (sys : Sys) (name : CString) : Timespec :=
  match sys.stamp name with
  | .ok ts => ts
  | .error _ => ⟨0, 0⟩

def addedEvent (x : CString × Sys) : SharedEvent := ⟨x.2.stampTime x.1, strncpy x.1⟩

/-- The log after the given adds. -/
def addAll (L : List SharedEvent) (adds : List (CString × Sys)) : List SharedEvent :=
  adds.foldl (fun L x ↦ pushEvent L (addedEvent x)) L

-- the array is filled from the left, and what comes later is dropped
theorem addAll_eq_take {adds : List (CString × Sys)} {L : List SharedEvent}
    (h : L.length ≤ maxEventCount) :
    addAll L adds = (L ++ adds.map addedEvent).take maxEventCount := by
  induction adds generalizing L with
  | nil =>
    rw [List.map_nil, List.append_nil, List.take_of_length_le h]
    rfl
  | cons x adds ih =>
    change addAll (pushEvent L (addedEvent x)) adds = _
    by_cases hlt : L.length < maxEventCount
    · have hlen : (L ++ [addedEvent x]).length ≤ maxEventCount := by
        rw [List.length_append, List.length_singleton]
        exact hlt
      rw [pushEvent, if_pos hlt, ih hlen, List.append_assoc]
      rfl
    · have hfull : maxEventCount ≤ L.length := Nat.le_of_not_lt hlt
      rw [pushEvent, if_neg hlt, ih h, List.take_append_of_le_length hfull,
        List.take_append_of_le_length hfull]

/-- Closed, or bound to its own pid, whose log is `L`. -/
structure Idle (pid : ℤ) (L : List SharedEvent) (w : World) : Prop where
  own : w.proc.pid = pid
  bound : w.proc.ctx = none ∨ w.Binds pid
  log : w.kernel.HasLog (shmName maxShmNameLen pid) L

section Calls

variable {sys : Sys} {w : World} {pid : ℤ} {L : List SharedEvent}

theorem Opened.idle {w' : World} {ino : Ino} {c : Ctx} (hpid : w.proc.pid = pid)
    (hl : w.kernel.HasLog (shmName maxShmNameLen pid) L)
    (h : Opened w w' (shmName maxShmNameLen pid) ino c) : Idle pid L w' where
  own := h.pid.trans hpid
  bound := .inr h.binds
  log := by
    rw [h.kernel]
    exact Kernel.hasLog_ensure.mpr hl

theorem Idle.sameBut (h : Idle pid L w) (sys : Sys) (op : LogOp) :
    w.kernel.SameBut (run (op.run sys) w).2.kernel (shmName maxShmNameLen pid) := by
  rcases h.bound with hc | hb
  · exact sameBut_of_closed sys hc h.own op
  · exact sameBut_of_binds sys hb op

theorem add_of_binds {name : CString} {t ts : Timespec} (h : Idle pid L w) (hb : w.Binds pid)
    (ht : sys.clock = .ok t) (hts : sys.stamp name = .ok ts) :
    ∃ res w', run ((LogOp.add name).run sys) w = (.ok res, w') ∧
      Idle pid (pushEvent L ⟨ts, strncpy name⟩) w' := by
  rcases hb with ⟨ino, c, hm, hshm⟩
  have hlog := (Kernel.hasLog_of_shm hshm).mp h.log
  have hlen : L.length = (w.kernel.seg ino).count := by
    rw [← hlog.2, SharedEvents.length_log hlog.1]
  by_cases hlt : (w.kernel.seg ino).count < maxEventCount
  · refine ⟨.status 0, _, by rw [LogOp.run, run_bind, run_add_of_mapped hm ht hts hlt]; rfl, ?_⟩
    refine ⟨h.own, .inr ⟨ino, c, ⟨hm.ctx, hm.events, hm.live⟩, hshm⟩, ?_⟩
    rw [World.setSeg_kernel, pushEvent, if_pos (hlen ▸ hlt)]
    exact h.log.push hshm hlt _
  · have hfull : (w.kernel.seg ino).count = maxEventCount := by omega
    refine ⟨.status (-1), w, by rw [LogOp.run, run_bind, run_add_full hm ht hfull]; rfl, ?_⟩
    rw [pushEvent, if_neg (hlen ▸ hlt)]
    exact h

/-- An add whose clock can be read, and whose open does not report a failure, records its event or
kills the process. -/
theorem Idle.add {name : CString} {t ts : Timespec} (h : Idle pid L w)
    (ht : sys.clock = .ok t) (hts : sys.stamp name = .ok ts)
    (hopen : w.proc.ctx = none → ¬OpenFails sys w pid) :
    (∃ res w', run ((LogOp.add name).run sys) w = (.ok res, w') ∧
        Idle pid (pushEvent L ⟨ts, strncpy name⟩) w') ∨
      ∃ f w', run ((LogOp.add name).run sys) w = (.error f, w') ∧ ¬sys.Succeeds := by
  rcases h.bound with hc | hb
  · have hp : (Op.log (.add name)).opensFor sys w = some pid := by simp [Op.opensFor, ht, h.own]
    have hfails := hopen hc
    have ho := open_outcome sys pid hc
    rw [run_of_closed _ hc hp]
    generalize hr : run (sharedEventsOpen sys pid) w = r at ho
    cases ho with
    | opened hopened =>
      rcases add_of_binds (hopened.idle h.own h.log) hopened.binds ht hts with ⟨res, w', hadd, hi⟩
      simp only [show ¬(0 : ℤ) = -1 by decide, if_false]
      exact .inl ⟨res, w', hadd, hi⟩
    | failed => exact absurd (openFails_of_run hc hr).1 hfails
    | half => exact absurd (openFails_of_run hc hr).1 hfails
    | @died w' f =>
      refine .inr ⟨f, w', rfl, fun hs ↦ ?_⟩
      rcases open_succeeds hs pid hc with ⟨w₁, ino, c, h₁, -⟩
      rw [hr] at h₁
      cases h₁
  · exact .inl (add_of_binds h hb ht hts)

/-- With every call succeeding, no open fails. -/
theorem not_openFails (hs : sys.Succeeds) : ¬OpenFails sys w pid := by
  rintro ((h | ⟨-, h | h, -⟩) | ⟨-, h⟩)
  · rcases hs.malloc with ⟨block, hm⟩
    rw [hm] at h
    cases h
  · exact h hs.ftruncate
  · exact h hs.mmap
  · exact h ⟨hs.shmOpen, fun _ ↦ hs.shmOpenCreat⟩

theorem Sys.Succeeds.stamp_eq (hs : sys.Succeeds) (name : CString) :
    sys.stamp name = .ok (sys.stampTime name) := by
  rcases LogOp.stamp_ok hs (.add name) with ⟨ts, hts⟩
  unfold Sys.stampTime
  change sys.stamp name = _ at hts
  rw [hts]

theorem Idle.add_succeeds (h : Idle pid L w) (hs : sys.Succeeds) (name : CString) :
    ∃ res w', run ((LogOp.add name).run sys) w = (.ok res, w') ∧
      Idle pid (pushEvent L (addedEvent (name, sys))) w' := by
  rcases hs.clock with ⟨t, ht⟩
  rcases h.add ht (hs.stamp_eq name) fun _ ↦ not_openFails hs with hok | ⟨f, w', -, hn⟩
  · exact hok
  · exact absurd hs hn

/-- A closed module is opened first; from then on there is a segment with the log in it. -/
theorem Idle.openFailed (h : Idle pid L w) (hs : sys.Succeeds) :
    ∃ w₁ ino c, run (openFailed sys) w = (.ok false, w₁) ∧ w₁.Mapped ino c ∧
      w₁.kernel.shm (shmName maxShmNameLen pid) = some ino ∧ Idle pid L w₁ := by
  rcases h.bound with hc | ⟨ino, c, hm, hshm⟩
  · rcases open_succeeds hs pid hc with ⟨w₁, ino, c, hr, hopened⟩
    refine ⟨w₁, ino, c, ?_, hopened.mapped, hopened.shm, hopened.idle h.own h.log⟩
    rw [openFailed_of_closed sys hc, h.own, run_bind_ok hr]
    rfl
  · exact ⟨w, ino, c, openFailed_of_open hm.ctx, hm, hshm, h⟩

/-- With room in the log such an add reports success. -/
theorem Idle.add_room (h : Idle pid L w) (hs : sys.Succeeds) (hlt : L.length < maxEventCount)
    (name : CString) : ∃ w', run (sharedEventsAdd sys name) w = (.ok 0, w') ∧
      Idle pid (L ++ [addedEvent (name, sys)]) w' := by
  rcases hs.clock with ⟨t, ht⟩
  rcases h.openFailed hs with ⟨w₁, ino, c, hof, hm, hshm, hidle⟩
  have hlog := (Kernel.hasLog_of_shm hshm).mp hidle.log
  have hroom : (w₁.kernel.seg ino).count < maxEventCount := by
    rw [← SharedEvents.length_log hlog.1, hlog.2]
    exact hlt
  rw [run_add_of_openFailed ht hof hm, run_add_of_mapped hm ht (hs.stamp_eq name) hroom]
  exact ⟨_, rfl, hidle.own, .inr ⟨ino, c, ⟨hm.ctx, hm.events, hm.live⟩, hshm⟩,
    hidle.log.push hshm hroom _⟩

/-- A clear in the closed state leaves an empty log, or a context without a segment, or kills the
process, unless its open reports a failure with the module closed. -/
theorem clear_of_closed (hc : w.proc.ctx = none) (hpid : w.proc.pid = pid)
    (hopen : OpenRefused sys w pid → w.kernel.HasLog (shmName maxShmNameLen pid) []) :
    (∃ res w', run (LogOp.clear.run sys) w = (.ok res, w') ∧ Idle pid [] w') ∨
      (∃ res w' c, run (LogOp.clear.run sys) w = (.ok res, w') ∧ w'.proc.pid = pid ∧
        w'.proc.ctx = some c ∧ c.events = .unset ∧ ¬sys.Succeeds) ∨
      ∃ f w', run (LogOp.clear.run sys) w = (.error f, w') ∧ ¬sys.Succeeds := by
  have ho := open_outcome sys pid hc
  have hp : (Op.log .clear).opensFor sys w = some pid := by rw [← hpid]; rfl
  have hsucc : ∀ {r w'}, run (sharedEventsOpen sys pid) w = (r, w') → r ≠ .ok 0 →
      ¬sys.Succeeds := by
    intro r w' hr hne hs
    rcases open_succeeds hs pid hc with ⟨w₁, ino, c, h₁, -⟩
    rw [hr] at h₁
    cases h₁
    exact hne rfl
  rw [run_of_closed _ hc hp]
  generalize hr : run (sharedEventsOpen sys pid) w = r at ho
  cases ho with
  | @opened w' ino c h =>
    have hm := h.mapped
    simp only [show ¬(0 : ℤ) = -1 by decide, if_false, LogOp.run, sharedEventsClear, run_bind,
      openFailed_of_open hm.ctx, derefEvents_of_mapped hm, Bool.false_eq_true, run_modify, run_pure]
    refine .inl ⟨_, _, rfl, h.pid.trans hpid,
      .inr ⟨ino, c, ⟨hm.ctx, hm.events, hm.live⟩, h.shm⟩, ?_⟩
    rw [World.setSeg_kernel, Kernel.hasLog_setSeg h.shm]
    exact ⟨Nat.zero_le _, SharedEvents.log_setCount_zero _⟩
  | @failed w' kernel ctx fds maps hpid' =>
    refine .inl ⟨_, w', rfl, hpid'.trans hpid, .inl ctx, ?_⟩
    rw [kernel]
    exact hopen ((openFails_of_run hc hr).2 ctx)
  | @half w' c kernel ctx events hpid' =>
    exact .inr (.inl ⟨_, w', c, rfl, hpid'.trans hpid, ctx, events, hsucc hr (by simp)⟩)
  | @died w' f => exact .inr (.inr ⟨f, w', rfl, hsucc hr (by simp)⟩)

-- the context is there, so nothing is opened, and the address in it is read
theorem add_of_half {name : CString} {c : Ctx} {t : Timespec} (hc : w.proc.ctx = some c)
    (he : c.events = .unset) (ht : sys.clock = .ok t) :
    run ((LogOp.add name).run sys) w = (.error .unsetEvents, w) := by
  simp [LogOp.run, sharedEventsAdd, run_bind, ht, openFailed_of_open hc, derefEvents, hc, he]

theorem add_of_half_kernel {name : CString} {c : Ctx} (sys : Sys) (hc : w.proc.ctx = some c)
    (he : c.events = .unset) : (run ((LogOp.add name).run sys) w).2.kernel = w.kernel := by
  cases ht : sys.clock with
  | ok t => rw [add_of_half hc he ht]
  | error e =>
    rw [LogOp.run, run_bind, run_add_clock_failed name ht]
    rfl

theorem close_kernel (sys : Sys) (w : World) :
    (run (Op.close.run sys) w).2.kernel = w.kernel := by
  cases hc : w.proc.ctx with
  | none => simp [Op.run, run_bind, close_of_closed sys hc]
  | some c =>
    have hafter := fun v : World ↦ (v.close_fields sys.close c.fd).kernel
    cases he : c.events <;> cases hm : sys.munmap <;>
      simp [Op.run, sharedEventsClose, munmap, run_bind, hc, he, hm, hafter]

end Calls

end UstBench
