import UstBench.SharedEvents.Effects

/-!
# Failing opens

`shared_events_open` undoes its work with `shared_events_close` and `shared_events_delete`, which
expect a context that is fully set up.  `CleanPattern` lists the outcomes of its system calls for
which it fails without harm; on all others it dies in the clean-up, or returns with a context that
every other function takes for an open one.
-/

namespace UstBench

open Reasoning Reasoning.Prog

/-- The call came back, and if it failed it left nothing behind. -/
def FailsCleanly (w : World) : Except Fault ℤ × World → Prop
  | (.error _, _) => False
  | (.ok ret, w') => ret = -1 →
      w'.proc.ctx = none ∧ w'.proc.fds = w.proc.fds ∧ w'.proc.maps = w.proc.maps ∧
        ∀ n, (w'.kernel.shm n).isSome = (w.kernel.shm n).isSome

/-- `malloc` fails; or a descriptor is obtained, and `ftruncate` and `mmap` succeed unless the
segment was there and the first `shm_open` had not been repeated. -/
def CleanPattern (sys : Sys) (w : World) (pid : ℤ) : Prop :=
  sys.malloc = none ∨
    FdObtained sys w pid ∧ (ShmCreated sys w pid → sys.ftruncate = none ∧ sys.mmap = none)

theorem failsCleanly_iff (sys : Sys) (pid : ℤ) {w : World} (hc : w.proc.ctx = none) :
    FailsCleanly w (run (sharedEventsOpen sys pid) w) ↔ CleanPattern sys w pid := by
  have hpath := open_path sys pid hc
  generalize run (sharedEventsOpen sys pid) w = r at hpath
  cases hpath with
  | noMemory malloc => exact ⟨fun _ ↦ .inl malloc, fun _ _ ↦ ⟨hc, rfl, rfl, fun _ ↦ rfl⟩⟩
  | noFd malloc fd kernel ctx =>
    -- the call returns, but leaves its context behind
    constructor
    · intro h
      have h0 := (h rfl).1
      rw [ctx] at h0
      cases h0
    · exact fun hp ↦ absurd (hp.resolve_left malloc).1 fd
  | stray malloc fd fails created =>
    refine ⟨False.elim, fun hp ↦ ?_⟩
    have hclean := (hp.resolve_left malloc).2 created
    rcases fails with hft | hmm
    · exact absurd hclean.1 hft
    · exact absurd hclean.2 hmm
  | cleaned fd fails created kernel ctx fds maps =>
    exact ⟨fun _ ↦ .inr ⟨fd, fun hs ↦ absurd hs created⟩, fun _ _ ↦
      ⟨ctx, fds, maps, fun n ↦ by rw [kernel]⟩⟩
  | opened fd ftruncate mmap =>
    exact ⟨fun _ ↦ .inr ⟨fd, fun _ ↦ ⟨ftruncate, mmap⟩⟩, fun _ h0 ↦ absurd h0 (by decide)⟩

/-- The open returns -1 with the module closed. -/
def OpenRefused (sys : Sys) (w : World) (pid : ℤ) : Prop :=
  sys.malloc = none ∨
    FdObtained sys w pid ∧ (sys.ftruncate ≠ none ∨ sys.mmap ≠ none) ∧ ¬ShmCreated sys w pid

/-- The open returns -1. -/
def OpenFails (sys : Sys) (w : World) (pid : ℤ) : Prop :=
  OpenRefused sys w pid ∨ sys.malloc ≠ none ∧ ¬FdObtained sys w pid

theorem openFails_of_run {sys : Sys} {pid : ℤ} {w w' : World} (hc : w.proc.ctx = none)
    (hr : run (sharedEventsOpen sys pid) w = (.ok (-1), w')) :
    OpenFails sys w pid ∧ (w'.proc.ctx = none → OpenRefused sys w pid) := by
  have hpath := open_path sys pid hc
  generalize run (sharedEventsOpen sys pid) w = r at hpath hr
  cases hpath with
  | noMemory malloc => exact ⟨.inl (.inl malloc), fun _ ↦ .inl malloc⟩
  | noFd malloc fd kernel ctx =>
    cases hr
    refine ⟨.inr ⟨malloc, fd⟩, ?_⟩
    intro h0
    rw [ctx] at h0
    cases h0
  | stray => simp at hr
  | cleaned fd fails created =>
    have hrefused : OpenRefused sys w pid := .inr ⟨fd, fails, created⟩
    exact ⟨.inl hrefused, fun _ ↦ hrefused⟩
  | opened => simp at hr

/-! ## Runs -/

/-- A context that is there has its segment mapped. -/
def World.Consistent (w : World) : Prop := ∀ c, w.proc.ctx = some c → ∃ ino, w.Mapped ino c

/-- No call of the run takes the module for open without a mapped segment.  Running behind the end
of the array is another matter. -/
def NoStrayAccess : List (Op × Sys) → World → Prop
  | [], w => w.Consistent
  | (op, sys) :: ops, w => w.Consistent ∧
    match run (op.run sys) w with
    | (.ok _, w') => NoStrayAccess ops w'
    | (.error f, _) => f = .outOfBounds

/-- Every call of the run that opens a segment meets `CleanPattern`. -/
def OpensCleanly : List (Op × Sys) → World → Prop
  | [], _ => True
  | (op, sys) :: ops, w =>
    (w.proc.ctx = none → ∀ pid, op.opensFor sys w = some pid → CleanPattern sys w pid) ∧
      ∀ res w', run (op.run sys) w = (.ok res, w') → OpensCleanly ops w'

theorem NoStrayAccess.consistent {ops : List (Op × Sys)} {w : World} (h : NoStrayAccess ops w) :
    w.Consistent := by
  cases ops with
  | nil => exact h
  | cons x ops => exact h.1

theorem World.consistent_of_closed {w : World} (hc : w.proc.ctx = none) : w.Consistent := by
  intro c h
  rw [hc] at h
  cases h

theorem World.Mapped.consistent {w : World} {ino : Ino} {c : Ctx} (h : w.Mapped ino c) :
    w.Consistent := by
  intro c' hc'
  cases h.ctx.symm.trans hc'
  exact ⟨ino, h⟩

/-- The call came back without a context that has no segment, or it ran behind the end of the
array. -/
def Sound : Except Fault Result × World → Prop
  | (.ok _, w') => w'.Consistent
  | (.error f, _) => f = .outOfBounds

/-- With a mapped segment every operation is sound: it keeps the mapping, or runs behind the end. -/
theorem World.Mapped.sound {w : World} {ino : Ino} {c : Ctx} (h : w.Mapped ino c) (sys : Sys)
    (op : LogOp) : Sound (run (op.run sys) w) := by
  have hstep := run_mapped_step sys h op
  rcases hr : run (op.run sys) w with ⟨f | res, w'⟩
  · rw [hr] at hstep
    exact hstep.2 f rfl
  · rw [hr] at hstep
    exact hstep.1.mapped.choose_spec.consistent

/-- What is left of an operation behind its open. -/
def Op.rest (sys : Sys) : Op → ℤ → Call Result
  | .log op, ret => if ret = -1 then pure op.failed else op.run sys
  | _, ret => pure (.status ret)

theorem run_of_opensFor {sys : Sys} {w : World} (op : Op) {pid : ℤ} (hc : w.proc.ctx = none)
    (hp : op.opensFor sys w = some pid) :
    run (op.run sys) w = run (sharedEventsOpen sys pid >>= op.rest sys) w := by
  cases op with
  | openPid q =>
    cases hp
    rfl
  | close => cases hp
  | log op =>
    rw [Op.run, run_of_closed op hc hp, run_bind]
    rcases run (sharedEventsOpen sys pid) w with ⟨f | ret, w'⟩
    · rfl
    · dsimp only
      rw [Op.rest]
      split
      · rfl
      · rfl

/-- The operations on the log go on with what an open in the closed state leaves, so the open alone
decides. -/
theorem sound_of_closed {sys : Sys} {w : World} (op : Op) {pid : ℤ} (hc : w.proc.ctx = none)
    (hp : op.opensFor sys w = some pid) :
    Sound (run (op.run sys) w) ↔ CleanPattern sys w pid := by
  have hiff := failsCleanly_iff sys pid hc
  have ho := open_outcome sys pid hc
  rw [run_of_opensFor op hc hp, run_bind]
  generalize run (sharedEventsOpen sys pid) w = r at hiff ho
  cases ho with
  | @opened w' ino c h =>
    refine ⟨fun _ ↦ hiff.mp fun h0 ↦ absurd h0 (by decide), fun _ ↦ ?_⟩
    cases op with
    | log op => exact h.mapped.sound sys op
    | openPid q => exact h.mapped.consistent
    | close => exact h.mapped.consistent
  | failed kernel ctx fds maps pid stdout =>
    refine ⟨fun _ ↦ hiff.mp fun _ ↦ ⟨ctx, fds, maps, fun n ↦ by rw [kernel]⟩, fun _ ↦ ?_⟩
    cases op <;> exact World.consistent_of_closed ctx
  | @half w' c kernel ctx events pid stdout =>
    constructor
    · -- the context without a segment is what the operation finds, or leaves
      intro hs
      have hcon : w'.Consistent := by cases op <;> exact hs
      obtain ⟨ino, hm⟩ := hcon _ ctx
      have he := hm.events
      rw [events] at he
      cases he
    · intro hp
      have h0 := (hiff.mpr hp rfl).1
      rw [ctx] at h0
      cases h0
  | died kernel stray => exact ⟨fun h ↦ absurd h stray, fun hp ↦ (hiff.mpr hp).elim⟩

/-- Which calls of a consistent state are sound. -/
theorem sound_iff (sys : Sys) {w : World} (op : Op) (h : w.Consistent) :
    Sound (run (op.run sys) w) ↔
      (w.proc.ctx = none → ∀ pid, op.opensFor sys w = some pid → CleanPattern sys w pid) := by
  cases hctx : w.proc.ctx with
  | some c =>
    obtain ⟨ino, hm⟩ := h c hctx
    refine ⟨fun _ h0 ↦ absurd h0 (by simp), fun _ ↦ ?_⟩
    cases op with
    | openPid pid =>
      rw [Op.run, run_bind, open_of_open sys pid hctx]
      exact h
    | close =>
      obtain ⟨w', hr, -, hctx', -, -⟩ := close_of_mapped sys hm
      rw [Op.run, run_bind, hr]
      exact World.consistent_of_closed hctx'
    | log op => exact hm.sound sys op
  | none =>
    cases hp : op.opensFor sys w with
    | some pid =>
      rw [sound_of_closed op hctx hp]
      simp
    | none =>
      -- nothing is opened, and the module stays closed
      refine ⟨fun _ _ q hq ↦ absurd hq (by simp), fun _ ↦ ?_⟩
      cases op with
      | openPid pid => cases hp
      | close =>
        rw [Op.run, run_bind, close_of_closed sys hctx]
        exact h
      | log op =>
        obtain ⟨e, hr⟩ := run_of_opensFor_none op hp
        rw [Op.run, hr]
        exact World.consistent_of_closed hctx

/-- A run that starts in a consistent state makes no stray access exactly if all its opens are
clean. -/
theorem noStrayAccess_iff {ops : List (Op × Sys)} {w : World} (h : w.Consistent) :
    NoStrayAccess ops w ↔ OpensCleanly ops w := by
  induction ops generalizing w with
  | nil => exact ⟨fun _ ↦ trivial, fun _ ↦ h⟩
  | cons x ops ih =>
    obtain ⟨op, sys⟩ := x
    have hsound := sound_iff sys op h
    unfold NoStrayAccess OpensCleanly
    rcases hr : run (op.run sys) w with ⟨f | res, w'⟩
    · rw [hr] at hsound
      exact ⟨fun hn ↦ ⟨hsound.mp hn.2, fun _ _ h0 ↦ nomatch h0⟩,
        fun ho ↦ ⟨h, hsound.mpr ho.1⟩⟩
    · rw [hr] at hsound
      constructor
      · intro hn
        refine ⟨hsound.mp hn.2.consistent, fun res' w'' h0 ↦ ?_⟩
        cases h0
        exact (ih hn.2.consistent).mp hn.2
      · intro ho
        exact ⟨h, (ih (hsound.mpr ho.1)).mpr (ho.2 _ _ rfl)⟩

/-- A failing open leaves the module closed, and no later call takes it for open, exactly for the
clean patterns of that open and of the opens that follow. -/
theorem open_failsCleanly_iff (sys : Sys) (pid : ℤ) (later : List (Op × Sys)) {w : World}
    (hc : w.proc.ctx = none) :
    (FailsCleanly w (run (sharedEventsOpen sys pid) w) ∧
        ∀ w', run (sharedEventsOpen sys pid) w = (.ok (-1), w') → NoStrayAccess later w') ↔
      CleanPattern sys w pid ∧
        ∀ w', run (sharedEventsOpen sys pid) w = (.ok (-1), w') → OpensCleanly later w' := by
  rw [failsCleanly_iff sys pid hc]
  refine and_congr_right fun hp ↦ forall_congr' fun w' ↦ ?_
  by_cases hr : run (sharedEventsOpen sys pid) w = (.ok (-1), w')
  · have hclean := (failsCleanly_iff sys pid hc).mpr hp
    rw [hr] at hclean
    have hcon := World.consistent_of_closed (hclean rfl).1
    exact imp_congr_right fun _ ↦ noStrayAccess_iff hcon
  · exact ⟨fun _ h ↦ absurd h hr, fun _ h ↦ absurd h hr⟩

-- no descriptor is left (`EMFILE`): the context stays, and the next call reads an unset pointer
theorem open_shmOpen_failed_not_closed :
    ∃ w' w'', run (sharedEventsOpen { Sys.succeeding ⟨0, 0⟩ with shmOpen := some 24 } 1)
        ⟨.empty, .start 1⟩ = (.ok (-1), w') ∧ w'.proc.ctx ≠ none ∧
      run (sharedEventsClear (.succeeding ⟨0, 0⟩)) w' = (.error .unsetEvents, w'') ∧
      ¬FailsCleanly ⟨.empty, .start 1⟩ (.ok (-1), w') := by
  refine ⟨_, _, rfl, by simp [World.shmOpen], rfl, fun h ↦ ?_⟩
  exact absurd (h rfl).1 (by simp [World.shmOpen])

-- `mmap` fails on a segment that was there, and a later open succeeds
theorem open_failsCleanly_iff_mmap_failed :
    (FailsCleanly ⟨Kernel.empty.create (shmName maxShmNameLen 1), .start 1⟩
          (run (sharedEventsOpen { Sys.succeeding ⟨0, 0⟩ with mmap := some 12 } 1)
            ⟨Kernel.empty.create (shmName maxShmNameLen 1), .start 1⟩) ∧
        ∀ w', run (sharedEventsOpen { Sys.succeeding ⟨0, 0⟩ with mmap := some 12 } 1)
            ⟨Kernel.empty.create (shmName maxShmNameLen 1), .start 1⟩ = (.ok (-1), w') →
          NoStrayAccess [(.openPid 1, .succeeding ⟨0, 0⟩)] w') ↔
      CleanPattern { Sys.succeeding ⟨0, 0⟩ with mmap := some 12 }
          ⟨Kernel.empty.create (shmName maxShmNameLen 1), .start 1⟩ 1 ∧
        ∀ w', run (sharedEventsOpen { Sys.succeeding ⟨0, 0⟩ with mmap := some 12 } 1)
            ⟨Kernel.empty.create (shmName maxShmNameLen 1), .start 1⟩ = (.ok (-1), w') →
          OpensCleanly [(.openPid 1, .succeeding ⟨0, 0⟩)] w' :=
  open_failsCleanly_iff _ 1 _ rfl

end UstBench
