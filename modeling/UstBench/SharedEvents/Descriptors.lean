import UstBench.SharedEvents.Actions

/-!
# The descriptors of the module

Runs of `shared_events_open` and `shared_events_close` in which every other system call succeeds.  An
open reads `errno` without asking whether its `shm_open` has failed, so what it does to a segment that
is there depends on the opens before it.
-/

namespace UstBench

open Reasoning Reasoning.Prog

/-- A call that opens or closes the module. -/
inductive OpenClose where
  | opening (pid : ℤ)
  | closing

def OpenClose.call (sys : Sys) : OpenClose → TracedCall Unit
  | .opening pid => do
    let _ ← TracedCall.sharedEventsOpen sys pid
    return ()
  | .closing => Traced.quiet (sharedEventsClose sys)

/-- Over `base`, the module holds one descriptor when it is open, and none when it is closed. -/
def World.Balanced (w : World) (base : List (ℤ × Ino)) : Prop :=
  ∃ held, w.proc.fds = held ++ base ∧ held.length = if w.proc.ctx = none then 0 else 1

/-- `shm_open` is called with `O_CREAT` for a segment that is not there alone. -/
def CreatesOnlyMissing (acts : List Act) : Prop :=
  ∀ name existed, .shmOpen name true existed ∈ acts → existed = false

/-- Every call of the run returns, every state is balanced, and nothing that exists is created. -/
def Tidy (base : List (ℤ × Ino)) : List (OpenClose × Sys) → World → Prop
  | [], w => w.Balanced base
  | (op, sys) :: ops, w => w.Balanced base ∧ CreatesOnlyMissing (Traced.acts (op.call sys) w) ∧
      ∃ w', run (Traced.erase (op.call sys)) w = (.ok (), w') ∧ Tidy base ops w'

/-- An open does not find the module closed, the segment there and `ENOENT` in `errno`. -/
def OpenClose.Clean (w : World) : OpenClose → Prop
  | .opening pid => w.proc.ctx = none →
      (w.kernel.shm (shmName maxShmNameLen pid)).isSome → w.proc.errno ≠ .enoent
  | .closing => True

/-- Every open of the run is clean. -/
def ErrnoClean : List (OpenClose × Sys) → World → Prop
  | [], _ => True
  | (op, sys) :: ops, w => op.Clean w ∧
      ∀ w', run (Traced.erase (op.call sys)) w = (.ok (), w') → ErrnoClean ops w'

/-! ## One open -/

namespace World

-- a call that fails sets `errno`, and one that succeeds leaves it
theorem shmOpen_errno_iff (w : World) (name : ShmName) :
    (w.shmOpen none name false).2.proc.errno = .enoent ↔
      w.kernel.shm name = none ∨ w.proc.errno = .enoent := by
  cases hk : w.kernel.shm name with
  | none => simp [shmOpen_missing hk]
  | some ino => simp [shmOpen_existing ino hk]

theorem shmOpen_kernel (w : World) (name : ShmName) :
    (w.shmOpen none name false).2.kernel = w.kernel := by
  cases hk : w.kernel.shm name with
  | none => rw [shmOpen_missing hk, setErrno_kernel]
  | some ino => rw [shmOpen_existing ino hk, newFd_kernel]

end World

section Open

variable {sys : Sys} {w : World} {ino : Ino} {pid : ℤ}

/-- The module holds `c.fd` over what the process had open in `w`. -/
structure HoldsOne (w w' : World) (ino : Ino) (c : Ctx) : Prop where
  mapped : w'.Mapped ino c
  fds : w'.proc.fds = (c.fd, ino) :: w.proc.fds
  fresh : ∀ d ∈ w.proc.fds, d.1 ≠ c.fd

theorem openMap_holdsOne {w₁ : World} {name : ShmName} {rptr : ℤ} (hs : sys.Succeeds)
    (created : Bool) (hctx : w₁.proc.ctx = some ⟨name, w.freshFd, .unset, rptr⟩)
    (hfds : w₁.proc.fds = (w.freshFd, ino) :: w.proc.fds) :
    ∃ w' c, run (openMap sys pid created w.freshFd) w₁ = (.ok 0, w') ∧ HoldsOne w w' ino c := by
  have hlookup : w₁.proc.fds.lookup w.freshFd = some ino := by simp [hfds]
  refine ⟨_, ⟨name, w.freshFd, .mapped ino, rptr⟩,
    run_openMap pid created hs.ftruncate hs.mmap w.freshFd_ne_neg_one hlookup hctx, ?_⟩
  exact ⟨⟨rfl, rfl, List.mem_cons_self⟩, hfds, w.ne_freshFd⟩

theorem open_existing_holdsOne (hs : sys.Succeeds) (hc : w.proc.ctx = none)
    (hk : w.kernel.shm (shmName maxShmNameLen pid) = some ino) (he : w.proc.errno ≠ .enoent) :
    ∃ w' c, run (sharedEventsOpen sys pid) w = (.ok 0, w') ∧ HoldsOne w w' ino c := by
  obtain ⟨block, hm⟩ := hs.malloc
  have hrun : run (sharedEventsOpen sys pid) w = run (openMap sys pid false w.freshFd)
      ((w.newFd ino).2.setCtx
        (some ⟨shmName maxShmNameLen pid, w.freshFd, .unset, block.rptr⟩)) := by
    simp [sharedEventsOpen, modifyCtx, run_bind, hc, hm, hs.shmOpen, World.shmOpen_existing ino, hk,
      he]
    rfl
  rw [hrun]
  exact openMap_holdsOne hs false rfl rfl

theorem open_missing_holdsOne (hs : sys.Succeeds) (hc : w.proc.ctx = none)
    (hk : w.kernel.shm (shmName maxShmNameLen pid) = none) :
    ∃ w' c, run (sharedEventsOpen sys pid) w = (.ok 0, w') ∧
      HoldsOne w w' w.kernel.nextIno c := by
  obtain ⟨block, hm⟩ := hs.malloc
  let u : World := { w.setErrno .enoent with kernel := w.kernel.create (shmName maxShmNameLen pid) }
  have hrun : run (sharedEventsOpen sys pid) w = run (openMap sys pid true w.freshFd)
      ((u.newFd w.kernel.nextIno).2.setCtx
        (some ⟨shmName maxShmNameLen pid, w.freshFd, .unset, block.rptr⟩)) := by
    simp [sharedEventsOpen, modifyCtx, run_bind, hc, hm, hs.shmOpen, hs.shmOpenCreat,
      World.shmOpen_missing, World.shmOpen_creat, hk]
    rfl
  rw [hrun]
  exact openMap_holdsOne hs true rfl rfl

theorem acts_open_of_open {c : Ctx} (sys : Sys) (pid : ℤ) (hc : w.proc.ctx = some c) :
    Traced.acts (TracedCall.sharedEventsOpen sys pid) w = [.opening pid] := by
  unfold TracedCall.sharedEventsOpen
  rw [Traced.acts_bind_ok _ (show run _ w = (.ok w, w) from rfl), Traced.acts_action]
  simp only [hc]
  rfl

/-- The second `shm_open` is made for a segment that is not there, or with `ENOENT` left over. -/
theorem acts_open_of_closed (hs : sys.Succeeds) (hc : w.proc.ctx = none) :
    Traced.acts (TracedCall.sharedEventsOpen sys pid) w =
      .opening pid ::
        .shmOpen (shmName maxShmNameLen pid) false
          (w.kernel.shm (shmName maxShmNameLen pid)).isSome ::
        if w.kernel.shm (shmName maxShmNameLen pid) = none ∨ w.proc.errno = .enoent then
          [.shmOpen (shmName maxShmNameLen pid) true
            (w.kernel.shm (shmName maxShmNameLen pid)).isSome]
        else [] := by
  obtain ⟨block, hm⟩ := hs.malloc
  unfold TracedCall.sharedEventsOpen TracedCall.shmOpen
  rw [Traced.acts_bind_ok _ (show run _ w = (.ok w, w) from rfl), Traced.acts_action]
  simp only [hc, hm, hs.shmOpen, hs.shmOpenCreat]
  rw [Traced.acts_bind_ok _ rfl, Traced.acts_bind_ok _ rfl, Traced.acts_bind_ok _ rfl,
    Traced.acts_bind_ok _ rfl]
  simp only [Traced.acts_quiet, Traced.acts_action, List.nil_append, List.singleton_append,
    World.setCtx_kernel, World.setCtx_errno, World.shmOpen_errno_iff]
  congr 2
  split
  · rw [Traced.acts_bind_ok _ rfl, Traced.acts_bind_ok _ rfl]
    simp [World.shmOpen_kernel]
  · rfl

end Open

/-! ## Runs -/

/-- The module is closed and holds nothing, or it has one segment open, by a descriptor of its
own. -/
def World.Held (w : World) (base : List (ℤ × Ino)) : Prop :=
  w.proc.ctx = none ∧ w.proc.fds = base ∨
    ∃ ino c, w.Mapped ino c ∧ w.proc.fds = (c.fd, ino) :: base ∧ ∀ d ∈ base, d.1 ≠ c.fd

section Runs

variable {sys : Sys} {w : World} {base : List (ℤ × Ino)}

theorem World.Held.balanced (h : w.Held base) : w.Balanced base := by
  rcases h with ⟨hc, hf⟩ | ⟨ino, c, hm, hf, -⟩
  · exact ⟨[], hf, by rw [if_pos hc]; rfl⟩
  · exact ⟨[(c.fd, ino)], hf, by rw [if_neg (by simp [hm.ctx])]; rfl⟩

theorem HoldsOne.held {w' : World} {ino : Ino} {c : Ctx} (h : HoldsOne w w' ino c)
    (hf : w.proc.fds = base) : w'.Held base := by
  subst hf
  exact .inr ⟨ino, c, h.mapped, h.fds, h.fresh⟩

theorem close_fds {ino : Ino} {c : Ctx} (hs : sys.Succeeds) (h : w.Mapped ino c) :
    ∃ w', run (sharedEventsClose sys) w = (.ok (), w') ∧ w'.proc.ctx = none ∧
      w'.proc.fds = w.proc.fds.filter (·.1 ≠ c.fd) := by
  have hafter := fun v : World ↦ (v.close_fields none c.fd).fds
  simp [sharedEventsClose, munmap, run_bind, h.ctx, h.events, hs.munmap, hs.close, hafter]

theorem close_held (hs : sys.Succeeds) (h : w.Held base) :
    ∃ w', run (sharedEventsClose sys) w = (.ok (), w') ∧ w'.Held base := by
  rcases h with ⟨hc, hf⟩ | ⟨ino, c, hm, hf, hfresh⟩
  · exact ⟨w, close_of_closed sys hc, .inl ⟨hc, hf⟩⟩
  · obtain ⟨w', hr, hctx, hfds⟩ := close_fds hs hm
    refine ⟨w', hr, .inl ⟨hctx, ?_⟩⟩
    rw [hfds, hf, List.filter_cons_of_neg (by simp)]
    exact List.filter_eq_self.mpr fun d hd ↦ by simpa using hfresh d hd

theorem open_held (hs : sys.Succeeds) (pid : ℤ) (h : w.Held base)
    (hclean : (OpenClose.opening pid).Clean w) :
    ∃ ret w', run (sharedEventsOpen sys pid) w = (.ok ret, w') ∧ w'.Held base := by
  rcases h with ⟨hc, hf⟩ | ⟨ino, c, hm, hf, hfresh⟩
  · cases hk : w.kernel.shm (shmName maxShmNameLen pid) with
    | none =>
      obtain ⟨w', c, hr, hone⟩ := open_missing_holdsOne hs hc hk
      exact ⟨0, w', hr, hone.held hf⟩
    | some ino =>
      have he : w.proc.errno ≠ .enoent := hclean hc (by rw [hk]; rfl)
      obtain ⟨w', c, hr, hone⟩ := open_existing_holdsOne hs hc hk he
      exact ⟨0, w', hr, hone.held hf⟩
  · exact ⟨0, w, open_of_open sys pid hm.ctx, .inr ⟨ino, c, hm, hf, hfresh⟩⟩

theorem run_erase_opening {pid ret : ℤ} {w' : World}
    (h : run (sharedEventsOpen sys pid) w = (.ok ret, w')) :
    run (Traced.erase ((OpenClose.opening pid).call sys)) w = (.ok (), w') := by
  rw [OpenClose.call, Traced.erase_bind, TracedCall.erase_sharedEventsOpen, run_bind_ok h]
  rfl

/-- One call of a run keeps the balance, if it is clean. -/
theorem World.Held.step (hs : sys.Succeeds) (h : w.Held base) (op : OpenClose)
    (hclean : op.Clean w) :
    ∃ w', run (Traced.erase (op.call sys)) w = (.ok (), w') ∧ w'.Held base := by
  cases op with
  | closing => exact close_held hs h
  | opening pid =>
    obtain ⟨ret, w', hr, hheld⟩ := open_held hs pid h hclean
    exact ⟨w', run_erase_opening hr, hheld⟩

theorem acts_opening (sys : Sys) (pid : ℤ) (w : World) :
    Traced.acts ((OpenClose.opening pid).call sys) w =
      Traced.acts (TracedCall.sharedEventsOpen sys pid) w := by
  rw [OpenClose.call]
  rcases hr : run (Traced.erase (TracedCall.sharedEventsOpen sys pid)) w with ⟨f | ret, w'⟩
  · exact Traced.acts_bind_error _ hr
  · rw [Traced.acts_bind_ok _ hr, Traced.acts_pure, List.append_nil]

/-- An existing segment is opened with `O_CREAT` exactly by the opens that are not clean. -/
theorem createsOnlyMissing_iff (hs : sys.Succeeds) (w : World) (op : OpenClose) :
    CreatesOnlyMissing (Traced.acts (op.call sys) w) ↔ op.Clean w := by
  cases op with
  | closing =>
    refine ⟨fun _ ↦ trivial, fun _ name existed hm ↦ ?_⟩
    rw [OpenClose.call, Traced.acts_quiet] at hm
    cases hm
  | opening pid =>
    rw [acts_opening, OpenClose.Clean]
    cases hc : w.proc.ctx with
    | some c =>
      rw [acts_open_of_open sys pid hc]
      simp [CreatesOnlyMissing]
    | none =>
      rw [acts_open_of_closed hs hc]
      cases hk : w.kernel.shm (shmName maxShmNameLen pid) with
      | none => simp [CreatesOnlyMissing]
      | some ino => by_cases he : w.proc.errno = .enoent <;> simp [CreatesOnlyMissing, he]

/-- From a balanced state, a run is tidy exactly if all its opens are clean. -/
theorem tidy_iff_of_held {ops : List (OpenClose × Sys)} (hs : ∀ x ∈ ops, x.2.Succeeds)
    (h : w.Held base) : Tidy base ops w ↔ ErrnoClean ops w := by
  induction ops generalizing w with
  | nil => exact ⟨fun _ ↦ trivial, fun _ ↦ h.balanced⟩
  | cons x ops ih =>
    obtain ⟨op, sys⟩ := x
    have hsys : sys.Succeeds := hs _ List.mem_cons_self
    have hrest : ∀ x ∈ ops, x.2.Succeeds := fun x hx ↦ hs x (List.mem_cons_of_mem _ hx)
    unfold Tidy ErrnoClean
    rw [createsOnlyMissing_iff hsys w op]
    constructor
    · intro ht
      obtain ⟨-, hclean, w₁, hr₁, htail⟩ := ht
      obtain ⟨w', hr, hheld⟩ := h.step hsys op hclean
      rw [hr] at hr₁
      cases hr₁
      refine ⟨hclean, fun w'' hr' ↦ ?_⟩
      rw [hr] at hr'
      cases hr'
      exact (ih hrest hheld).mp htail
    · intro hc
      obtain ⟨w', hr, hheld⟩ := h.step hsys op hc.1
      exact ⟨h.balanced, hc.1, w', hr, (ih hrest hheld).mpr (hc.2 w' hr)⟩

end Runs

/-- From a closed module, a run of opens and closes keeps its descriptors balanced and creates
nothing that exists exactly if no open of it meets an existing segment with `ENOENT` left over. -/
theorem tidy_iff_errnoClean {ops : List (OpenClose × Sys)} {w : World}
    (hs : ∀ x ∈ ops, x.2.Succeeds) (hc : w.proc.ctx = none) :
    Tidy w.proc.fds ops w ↔ ErrnoClean ops w :=
  tidy_iff_of_held hs (.inl ⟨hc, rfl⟩)

/-- A first open makes the segment and leaves `ENOENT`, and a second one finds both. -/
def reopening : List (OpenClose × Sys) :=
  [(.opening 1, .succeeding ⟨0, 0⟩), (.closing, .succeeding ⟨0, 0⟩),
    (.opening 1, .succeeding ⟨0, 0⟩)]

-- the descriptor of the second `shm_open` replaces that of the first, which stays open
theorem reopening_not_tidy :
    ∃ w', run (do
        let _ ← sharedEventsOpen (.succeeding ⟨0, 0⟩) 1
        sharedEventsClose (.succeeding ⟨0, 0⟩)
        sharedEventsOpen (.succeeding ⟨0, 0⟩) 1) ⟨.empty, .start 1⟩ = (.ok 0, w') ∧
      w'.proc.fds = [(4, 0), (3, 0)] ∧ ¬Tidy [] reopening ⟨.empty, .start 1⟩ := by
  refine ⟨_, rfl, rfl, ?_⟩
  intro ht
  have hc := (@tidy_iff_of_held ⟨.empty, .start 1⟩ [] _ ?_ (.inl ⟨rfl, rfl⟩)).mp ht
  · exact ((hc.2 _ rfl).2 _ rfl).1 rfl rfl rfl
  · intro x hx
    simp only [reopening, List.mem_cons, List.not_mem_nil, or_false] at hx
    rcases hx with rfl | rfl | rfl <;> exact Sys.succeeds_succeeding _

theorem tidy_iff_errnoClean_once :
    Tidy [] [(.opening 1, .succeeding ⟨0, 0⟩), (.closing, .succeeding ⟨0, 0⟩)]
        ⟨.empty, .start 1⟩ ↔
      ErrnoClean [(.opening 1, .succeeding ⟨0, 0⟩), (.closing, .succeeding ⟨0, 0⟩)]
        ⟨.empty, .start 1⟩ := by
  refine @tidy_iff_errnoClean _ ⟨.empty, .start 1⟩ ?_ rfl
  intro x hx
  simp only [List.mem_cons, List.not_mem_nil, or_false] at hx
  rcases hx with rfl | rfl <;> exact Sys.succeeds_succeeding _

end UstBench
