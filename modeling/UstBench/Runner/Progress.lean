import UstBench.Runner.Children

/-!
# How far a child has come

The invariant of one child along every schedule.  It is kept by the turns of the child as long as
the calls before `execv` meet `StepMeets`, and whatever the other children do.
-/

namespace UstBench

open Reasoning Reasoning.Prog

/-- Every call `run_child` makes for the child succeeds. -/
structure ChildRun.Succeeds (r : ChildRun) : Prop where
  closing : r.closing.Succeeds
  clearing : r.clearing.Succeeds
  adding : r.adding.Succeeds

/-- The calls of the program the child becomes succeed. -/
def ChildRun.ImageSucceeds (r : ChildRun) : Prop :=
  ∀ image, r.image = some image → ∀ x ∈ image.adds, x.2.Succeeds

/-- What the child is to leave in its segment. -/
def ChildRun.recorded (r : ChildRun) (image : Image) : List SharedEvent :=
  addAll [addedEvent (.exec, r.adding)] image.adds

/-- Before `execv`: a clear whose open reports a failure with the module closed finds no events, and
an add can read the clock and has no open that reports a failure. -/
def StepMeets (pid : ℤ) (k : Kernel) (ch : Child) : Prop :=
  match ch.todo with
  | .call (.log .clear) sys :: _ => ch.proc.ctx = none → OpenRefused sys ⟨k, ch.proc⟩ pid →
      k.HasLog (shmName maxShmNameLen pid) []
  | .call (.log (.add _)) sys :: rest => .execv ∈ rest → (∃ t, sys.clock = .ok t) ∧
      (ch.proc.ctx = none → ¬OpenFails sys ⟨k, ch.proc⟩ pid)
  | _ => True

/-- How far the child has come, and what its segment holds. -/
inductive Progress (r : ChildRun) (pid : ℤ) (k : Kernel) : Child → Prop
  | started {p} (own : p.pid = pid) (ctx : p.ctx = none) : Progress r pid k ⟨p, runChild r, none⟩
  | closed {p} (own : p.pid = pid) (ctx : p.ctx = none) :
      Progress r pid k ⟨p, (runChild r).tail, none⟩
  | cleared {p} (idle : Idle pid [] ⟨k, p⟩) : Progress r pid k ⟨p, (runChild r).tail.tail, none⟩
  | half {p c} (own : p.pid = pid) (ctx : p.ctx = some c) (events : c.events = .unset)
      (fails : ¬r.Succeeds) : Progress r pid k ⟨p, (runChild r).tail.tail, none⟩
  | added {p image} (himage : r.image = some image)
      (idle : Idle pid [addedEvent (.exec, r.adding)] ⟨k, p⟩) :
      Progress r pid k ⟨p, r.execSteps, none⟩
  | running {p image} (before rest : List (CString × Sys)) (himage : r.image = some image)
      (split : image.adds = before ++ rest)
      (idle : Idle pid (addAll [addedEvent (.exec, r.adding)] before) ⟨k, p⟩) :
      Progress r pid k ⟨p, (Image.mk rest image.ending).steps, none⟩
  | finished {p image} (himage : r.image = some image)
      (log : k.HasLog (shmName maxShmNameLen pid) (r.recorded image)) :
      Progress r pid k ⟨p, [], some image.ending⟩
  | leaving {p} (himage : r.image = none) : Progress r pid k ⟨p, r.execSteps, none⟩
  | stopping {p} (himage : r.image = none) :
      Progress r pid k ⟨p, [.stop (.exited 1)], none⟩
  | failed {p} (himage : r.image = none) : Progress r pid k ⟨p, [], some (.exited 1)⟩
  | died {p} (fails : ¬r.Succeeds ∨ r.image = none) : Progress r pid k ⟨p, [], some .signaled⟩

theorem Idle.congr {pid : ℤ} {L : List SharedEvent} {k k' : Kernel} {p : Proc}
    (h : Idle pid L ⟨k, p⟩)
    (hshm : k'.shm (shmName maxShmNameLen pid) = k.shm (shmName maxShmNameLen pid))
    (hseg : k'.segment (shmName maxShmNameLen pid) = k.segment (shmName maxShmNameLen pid)) :
    Idle pid L ⟨k', p⟩ where
  own := h.own
  bound := by
    rcases h.bound with hc | ⟨ino, c, hm, hs⟩
    · exact .inl hc
    · exact .inr ⟨ino, c, ⟨hm.ctx, hm.events, hm.live⟩, hshm.trans hs⟩
  log := h.log.congr hseg

/-- The others do not disturb a child. -/
theorem Progress.congr {r : ChildRun} {pid : ℤ} {k k' : Kernel} {ch : Child}
    (h : Progress r pid k ch)
    (hshm : k'.shm (shmName maxShmNameLen pid) = k.shm (shmName maxShmNameLen pid))
    (hseg : k'.segment (shmName maxShmNameLen pid) = k.segment (shmName maxShmNameLen pid)) :
    Progress r pid k' ch := by
  cases h with
  | started own ctx => exact .started own ctx
  | closed own ctx => exact .closed own ctx
  | cleared idle => exact .cleared (idle.congr hshm hseg)
  | half own ctx events fails => exact .half own ctx events fails
  | added himage idle => exact .added himage (idle.congr hshm hseg)
  | running before rest himage split idle =>
    exact .running before rest himage split (idle.congr hshm hseg)
  | finished himage log => exact .finished himage (log.congr hseg)
  | leaving himage => exact .leaving himage
  | stopping himage => exact .stopping himage
  | failed himage => exact .failed himage
  | died fails => exact .died fails

section Step

variable {r : ChildRun} {pid : ℤ} {k : Kernel} {p : Proc}

theorem childStep_ok (op : Op) {sys : Sys} {rest : List ChildStep} {res : Result} {w : World}
    (h : run (op.run sys) ⟨k, p⟩ = (.ok res, w)) (s : Option Status) :
    childStep (k, ⟨p, .call op sys :: rest, s⟩) = (w.kernel, ⟨w.proc, rest, s⟩) := by
  simp only [childStep, h]

theorem childStep_error (op : Op) {sys : Sys} {rest : List ChildStep} {f : Fault} {w : World}
    (h : run (op.run sys) ⟨k, p⟩ = (.error f, w)) (s : Option Status) :
    childStep (k, ⟨p, .call op sys :: rest, s⟩) = (w.kernel, ⟨w.proc, [], some .signaled⟩) := by
  simp only [childStep, h]

theorem childStep_kernel {op : Op} {sys : Sys} {rest : List ChildStep} (s : Option Status) :
    (childStep (k, ⟨p, .call op sys :: rest, s⟩)).1 = (run (op.run sys) ⟨k, p⟩).2.kernel := by
  rcases h : run (op.run sys) ⟨k, p⟩ with ⟨f | res, w⟩
  · rw [childStep_error _ h]
  · rw [childStep_ok _ h]

-- the clear before `execv`
theorem progress_clear (hpid : p.pid = pid) (hc : p.ctx = none)
    (hm : StepMeets pid k ⟨p, (runChild r).tail, none⟩) :
    Progress r pid (childStep (k, ⟨p, (runChild r).tail, none⟩)).1
      (childStep (k, ⟨p, (runChild r).tail, none⟩)).2 := by
  rcases @clear_of_closed r.clearing ⟨k, p⟩ pid hc hpid (hm hc) with h | h | h
  · rcases h with ⟨res, w, hr, hidle⟩
    rw [runChild, List.tail_cons, childStep_ok (.log .clear) hr]
    exact .cleared hidle
  · rcases h with ⟨res, w, c, hr, hown, hctx, hev, hn⟩
    rw [runChild, List.tail_cons, childStep_ok (.log .clear) hr]
    exact .half hown hctx hev fun hs ↦ hn hs.clearing
  · rcases h with ⟨f, w, hr, hn⟩
    rw [runChild, List.tail_cons, childStep_error (.log .clear) hr]
    exact .died (.inl fun hs ↦ hn hs.clearing)

-- a child that will not become another program is only left to stop
theorem progress_leave (himage : r.image = none) {op : Op} {sys : Sys} :
    Progress r pid (childStep (k, ⟨p, .call op sys :: r.execSteps, none⟩)).1
      (childStep (k, ⟨p, .call op sys :: r.execSteps, none⟩)).2 := by
  rcases h : run (op.run sys) ⟨k, p⟩ with ⟨f | res, w⟩
  · rw [childStep_error _ h]
    exact .died (.inr himage)
  · rw [childStep_ok _ h]
    exact .leaving himage

theorem execSteps_some {image : Image} (himage : r.image = some image) :
    r.execSteps = .execv :: image.steps := by
  rw [ChildRun.execSteps, himage]

theorem execSteps_none (himage : r.image = none) :
    r.execSteps = [.call .close r.closingAgain, .stop (.exited 1)] := by
  rw [ChildRun.execSteps, himage]

theorem execv_mem_execSteps {image : Image} (himage : r.image = some image) :
    ChildStep.execv ∈ r.execSteps := by
  rw [execSteps_some himage]
  exact List.mem_cons_self

-- the add before `execv`, with the module in order
theorem progress_add (hidle : Idle pid [] ⟨k, p⟩)
    (hm : StepMeets pid k ⟨p, (runChild r).tail.tail, none⟩) :
    Progress r pid (childStep (k, ⟨p, (runChild r).tail.tail, none⟩)).1
      (childStep (k, ⟨p, (runChild r).tail.tail, none⟩)).2 := by
  cases himage : r.image with
  | none => exact progress_leave himage
  | some image =>
    rcases hm (execv_mem_execSteps himage) with ⟨⟨t, ht⟩, hopen⟩
    -- `"exec"` gets the first reading of the clock
    have hts : r.adding.stamp .exec = .ok t := ht
    have hev : addedEvent (.exec, r.adding) = ⟨t, strncpy .exec⟩ := by
      rw [addedEvent, Sys.stampTime, hts]
    rcases hidle.add ht hts hopen with ⟨res, w, hr, hi⟩ | ⟨f, w, hr, hn⟩
    · rw [runChild, List.tail_cons, List.tail_cons, childStep_ok (.log (.add .exec)) hr]
      rw [← hev] at hi
      exact .added himage hi
    · rw [runChild, List.tail_cons, List.tail_cons, childStep_error (.log (.add .exec)) hr]
      exact .died (.inl fun hs ↦ hn hs.adding)

-- the add before `execv`, with a context that has no segment
theorem progress_add_half {c : Ctx} (hctx : p.ctx = some c) (hev : c.events = .unset)
    (hfails : ¬r.Succeeds) (hm : StepMeets pid k ⟨p, (runChild r).tail.tail, none⟩) :
    Progress r pid (childStep (k, ⟨p, (runChild r).tail.tail, none⟩)).1
      (childStep (k, ⟨p, (runChild r).tail.tail, none⟩)).2 := by
  cases himage : r.image with
  | none => exact progress_leave himage
  | some image =>
    rcases hm (execv_mem_execSteps himage) with ⟨⟨t, ht⟩, -⟩
    have hr := @add_of_half r.adding ⟨k, p⟩ .exec c t hctx hev ht
    rw [runChild, List.tail_cons, List.tail_cons, childStep_error (.log (.add .exec)) hr]
    exact .died (.inl hfails)

/-- A turn of the child keeps the invariant. -/
theorem Progress.step {ch : Child} (hs : r.ImageSucceeds) (h : Progress r pid k ch)
    (hm : StepMeets pid k ch) : Progress r pid (childStep (k, ch)).1 (childStep (k, ch)).2 := by
  cases h with
  | @started p own ctx =>
    have hr : run (Op.close.run r.closing) ⟨k, p⟩ = (.ok (.status 0), ⟨k, p⟩) := by
      simp [Op.run, run_bind, close_of_closed r.closing (w := ⟨k, p⟩) ctx]
    rw [runChild, childStep_ok .close hr]
    exact .closed own ctx
  | closed own ctx => exact progress_clear own ctx hm
  | cleared idle => exact progress_add idle hm
  | half own ctx events fails => exact progress_add_half ctx events fails hm
  | @added p image himage idle =>
    -- the program starts with the module closed, and finds the log of `"exec"`
    rw [execSteps_some himage]
    exact .running [] image.adds himage rfl ⟨idle.own, .inl rfl, idle.log⟩
  | @running p image before rest himage split idle =>
    cases rest with
    | nil =>
      -- the program ends, with all its events in the log
      rw [List.append_nil] at split
      have hlog := idle.log
      rw [← split] at hlog
      exact @Progress.finished r pid k p image himage hlog
    | cons x rest =>
      have hx : x.2.Succeeds := hs image himage x (by simp [split])
      rcases idle.add_succeeds hx x.1 with ⟨res, w, hr, hi⟩
      rw [Image.steps, List.map_cons, List.cons_append, childStep_ok (.log (.add x.1)) hr]
      refine .running (before ++ [x]) rest himage (by simp [split]) ?_
      rw [addAll, List.foldl_append]
      exact hi
  | finished himage log => exact .finished himage log
  | @leaving p himage =>
    rw [execSteps_none himage]
    rcases h : run (Op.close.run r.closingAgain) ⟨k, p⟩ with ⟨f | res, w⟩
    · rw [childStep_error _ h]
      exact .died (.inr himage)
    · rw [childStep_ok _ h]
      exact .stopping himage
  | stopping himage => exact .failed himage
  | failed himage => exact .failed himage
  | died fails => exact .died fails

/-- A turn of the child changes nothing under another name. -/
theorem Progress.sameBut {ch : Child} (h : Progress r pid k ch) :
    k.SameBut (childStep (k, ch)).1 (shmName maxShmNameLen pid) := by
  cases h with
  | @started p own ctx =>
    rw [runChild, childStep_kernel, close_kernel]
    exact .refl _ _
  | @closed p own ctx =>
    rw [runChild, List.tail_cons, childStep_kernel]
    exact @sameBut_of_closed ⟨k, p⟩ pid r.clearing ctx own .clear
  | @cleared p idle =>
    rw [runChild, List.tail_cons, List.tail_cons, childStep_kernel]
    exact idle.sameBut r.adding (.add .exec)
  | @half p c own ctx events fails =>
    -- without a segment there is nothing to write to
    have hk := @add_of_half_kernel ⟨k, p⟩ .exec c r.adding ctx events
    rw [runChild, List.tail_cons, List.tail_cons, childStep_kernel, Op.run, hk]
    exact .refl _ _
  | @added p image himage idle =>
    rw [execSteps_some himage]
    exact .refl _ _
  | @running p image before rest himage split idle =>
    cases rest with
    | nil => exact .refl _ _
    | cons x rest =>
      rw [Image.steps, List.map_cons, List.cons_append, childStep_kernel]
      exact idle.sameBut x.2 (.add x.1)
  | finished himage log => exact .refl _ _
  | @leaving p himage =>
    rw [execSteps_none himage, childStep_kernel, close_kernel]
    exact .refl _ _
  | stopping himage => exact .refl _ _
  | failed himage => exact .refl _ _
  | died fails => exact .refl _ _

end Step

/-! ## A child that has stopped -/

section Stopped

variable {r : ChildRun} {pid : ℤ} {k : Kernel} {ch : Child}

/-- With no call failing, a child that has stopped has left its log. -/
theorem Progress.hasLog_of_stopped {image : Image} (h : Progress r pid k ch) (hr : r.Succeeds)
    (himage : r.image = some image) (hd : ch.status ≠ none) :
    k.HasLog (shmName maxShmNameLen pid) (r.recorded image) := by
  cases h with
  | finished hi log =>
    rw [himage] at hi
    cases hi
    exact log
  | failed hi =>
    rw [himage] at hi
    cases hi
  | died hf =>
    rcases hf with hf | hf
    · exact absurd hr hf
    · rw [himage] at hf
      cases hf
  | _ => exact absurd rfl hd

/-- Whatever has failed, a child with exit status 0 has become another program and left its log. -/
theorem Progress.hasLog_of_exited {code : ℕ} (h : Progress r pid k ch)
    (hd : ch.status = some (.exited code)) (hcode : code % 256 = 0) :
    ∃ image, r.image = some image ∧
      k.HasLog (shmName maxShmNameLen pid) (r.recorded image) := by
  cases h with
  | @finished p image hi log => exact ⟨image, hi, log⟩
  | failed =>
    -- the exit status of a child whose `execv` failed is not zero
    cases hd
    exact absurd hcode (by decide)
  | _ => cases hd

end Stopped

/-! ## Along a schedule -/

/-- The system at the moment all children are started. -/
def childrenOf {n : ℕ} (runs : Fin n → ChildRun) (procs : Fin n → Proc) : Fin n → Child :=
  fun i ↦ ⟨procs i, runChild (runs i), none⟩

theorem relyGuarantee_children {n : ℕ} {runs : Fin n → ChildRun} {pids : Fin n → ℤ}
    (hpids : ∀ i, IsPid (pids i)) (hinj : Function.Injective pids)
    (hs : ∀ i, (runs i).ImageSucceeds) :
    RelyGuarantee (fun _ ↦ childStep) (fun i ↦ StepMeets (pids i))
      (fun i ↦ Progress (runs i) (pids i))
      (fun i k k' ↦ k'.shm (shmName maxShmNameLen (pids i)) = k.shm (shmName maxShmNameLen (pids i)) ∧
        k'.segment (shmName maxShmNameLen (pids i)) =
          k.segment (shmName maxShmNameLen (pids i))) where
  keeps i _ _ hm h := h.step (hs i) hm
  guarantees i _ _ _ h j hji := by
    have hne : shmName maxShmNameLen (pids j) ≠ shmName maxShmNameLen (pids i) :=
      fun he ↦ hji (hinj (shmName_inj (hpids j) (hpids i) he))
    exact h.sameBut _ hne
  stable _ _ _ _ hrely h := h.congr hrely.1 hrely.2

/-- After any schedule whose turns meet the condition, every child is where `Progress` has it. -/
theorem progress_of_schedule {n : ℕ} {runs : Fin n → ChildRun} {pids : Fin n → ℤ}
    {procs : Fin n → Proc} {k : Kernel} {sched : List (Fin n)} (hpids : ∀ i, IsPid (pids i))
    (hinj : Function.Injective pids) (hs : ∀ i, (runs i).ImageSucceeds)
    (hprocs : ∀ i, (procs i).pid = pids i ∧ (procs i).ctx = none)
    (hm : Along (fun _ ↦ childStep) (fun i ↦ StepMeets (pids i)) sched (k, childrenOf runs procs))
    (i : Fin n) :
    Progress (runs i) (pids i) (runSchedule (fun _ ↦ childStep) sched (k, childrenOf runs procs)).1
      ((runSchedule (fun _ ↦ childStep) sched (k, childrenOf runs procs)).2 i) := by
  apply (relyGuarantee_children hpids hinj hs).run hm
  intro j
  exact .started (hprocs j).1 (hprocs j).2

end UstBench
