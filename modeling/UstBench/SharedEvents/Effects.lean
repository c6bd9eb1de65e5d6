import UstBench.SharedEvents.Module
import Mathlib.Tactic.Linarith

/-!
# What the functions of the module do

One specification per function, from which everything about runs of the module is derived.
`shared_events_open` is taken apart at the two calls of `shm_open`: whether a descriptor results, and
whether the second call was made, decides all that follows.
-/

namespace UstBench

open Reasoning Reasoning.Prog

/-! ## The named segments -/

namespace Kernel

/-- The segment behind a name. -/
def segment (k : Kernel) (n : ShmName) : Option SharedEvents := (k.shm n).map k.seg

/-- The object under `n`, made if there was none. -/
def ensure (k : Kernel) (n : ShmName) : Kernel :=
  match k.shm n with
  | some _ => k
  | none => k.create n

theorem ensure_of_some {k : Kernel} {n : ShmName} {ino : Ino} (h : k.shm n = some ino) :
    k.ensure n = k := by
  rw [ensure, h]

theorem ensure_of_none {k : Kernel} {n : ShmName} (h : k.shm n = none) :
    k.ensure n = k.create n := by
  rw [ensure, h]

theorem shm_create_self (k : Kernel) (n : ShmName) : (k.create n).shm n = some k.nextIno :=
  Function.update_self ..

theorem segment_create_of_ne (k : Kernel) {n m : ShmName} (h : m ≠ n) :
    (k.create n).segment m = k.segment m := by
  unfold segment create
  dsimp only
  rw [Function.update_of_ne h]
  cases hm : k.shm m with
  | none => rfl
  | some ino =>
    have hlt := k.shm_lt hm
    simp only [Option.map_some]
    rw [Function.update_of_ne (Nat.ne_of_lt hlt)]

theorem segment_create_self (k : Kernel) (n : ShmName) :
    (k.create n).segment n = some .zeroed := by
  simp [segment, create]

theorem segment_ensure_self (k : Kernel) (n : ShmName) :
    (k.ensure n).segment n = some ((k.segment n).getD .zeroed) := by
  cases h : k.shm n with
  | some ino => rw [ensure_of_some h, segment, h]; rfl
  | none => rw [ensure_of_none h, segment_create_self, segment, h]; rfl

theorem segment_ensure_of_ne (k : Kernel) {n m : ShmName} (h : m ≠ n) :
    (k.ensure n).segment m = k.segment m := by
  cases hn : k.shm n with
  | some ino => rw [ensure_of_some hn]
  | none => rw [ensure_of_none hn, segment_create_of_ne k h]

theorem segment_setSeg_self {k : Kernel} {n : ShmName} {ino : Ino} (h : k.shm n = some ino)
    (s : SharedEvents) : (k.setSeg ino s).segment n = some s := by
  simp [segment, setSeg, h]

/-- Writing the object under one name leaves the segment under every other name as it was. -/
theorem segment_setSeg_of_ne {k : Kernel} {n m : ShmName} {ino : Ino} (h : k.shm n = some ino)
    (hne : m ≠ n) (s : SharedEvents) : (k.setSeg ino s).segment m = k.segment m := by
  unfold segment setSeg
  dsimp only
  cases hm : k.shm m with
  | none => rfl
  | some i =>
    simp only [Option.map_some]
    rw [Function.update_of_ne]
    intro he
    exact hne (k.shm_inj (he ▸ hm) h)

theorem segment_of_shm {k : Kernel} {n : ShmName} {ino : Ino} (h : k.shm n = some ino) :
    k.segment n = some (k.seg ino) := by
  rw [segment, h]
  rfl

end Kernel

/-! ## Descriptors -/

namespace World

theorem le_foldr_max {x b : ℕ} {l : List ℕ} (h : x ∈ l) : x ≤ l.foldr max b := by
  induction l with
  | nil => simp at h
  | cons y ys ih =>
    rw [List.foldr_cons]
    rcases List.mem_cons.mp h with rfl | hm
    · exact Nat.le_max_left _ _
    · exact (ih hm).trans (Nat.le_max_right _ _)

theorem ne_freshFd (w : World) : ∀ d ∈ w.proc.fds, d.1 ≠ w.freshFd := by
  intro d hd he
  have hm : d.1.natAbs ∈ w.proc.fds.map fun d ↦ d.1.natAbs := List.mem_map_of_mem hd
  have hle := le_foldr_max (b := 2) hm
  unfold freshFd at he
  omega

theorem freshFd_ne_neg_one (w : World) : w.freshFd ≠ -1 := by
  unfold freshFd
  omega

theorem filter_freshFd (w : World) (ino : Ino) :
    ((w.freshFd, ino) :: w.proc.fds).filter (·.1 ≠ w.freshFd) = w.proc.fds := by
  rw [List.filter_cons_of_neg (by simp)]
  exact List.filter_eq_self.mpr fun d hd ↦ by simpa using w.ne_freshFd d hd

end World

/-! ## `shared_events_open` -/

/-- The second `shm_open`, the one with `O_CREAT`, is made. -/
def ShmCreated (sys : Sys) (w : World) (pid : ℤ) : Prop :=
  sys.shmOpen = none ∧
    (w.kernel.shm (shmName maxShmNameLen pid) = none ∨ w.proc.errno = .enoent)

instance (sys : Sys) (w : World) (pid : ℤ) : Decidable (ShmCreated sys w pid) :=
  inferInstanceAs (Decidable (_ ∧ _))

/-- The last `shm_open` made returns a descriptor. -/
def FdObtained (sys : Sys) (w : World) (pid : ℤ) : Prop :=
  sys.shmOpen = none ∧ (ShmCreated sys w pid → sys.shmOpenCreat = none)

instance (sys : Sys) (w : World) (pid : ℤ) : Decidable (FdObtained sys w pid) :=
  inferInstanceAs (Decidable (_ ∧ _))

/-- The state between `shm_open` and `ftruncate`, entered from `w` with the context closed. -/
structure FdReady (w w₁ : World) (name : ShmName) (created : Bool) (fd : ℤ) (ino : Ino)
    (rptr : ℤ) : Prop where
  ctx : w₁.proc.ctx = some ⟨name, fd, .unset, rptr⟩
  kernel : w₁.kernel = w.kernel.ensure name
  shm : w₁.kernel.shm name = some ino
  fd_ne : fd ≠ -1
  lookup : w₁.proc.fds.lookup fd = some ino
  maps : w₁.proc.maps = w.proc.maps
  fds : created = false → w₁.proc.fds.filter (·.1 ≠ fd) = w.proc.fds
  pid : w₁.proc.pid = w.proc.pid
  stdout : w₁.proc.stdout = w.proc.stdout

theorem fdReady_newFd {w u : World} {name : ShmName} {created : Bool} {ino : Ino} (rptr : ℤ)
    (hk : u.kernel = w.kernel.ensure name) (hs : u.kernel.shm name = some ino)
    (hm : u.proc.maps = w.proc.maps) (hf : created = false → u.proc.fds = w.proc.fds)
    (hp : u.proc.pid = w.proc.pid) (ho : u.proc.stdout = w.proc.stdout) :
    FdReady w ((u.newFd ino).2.setCtx (some ⟨name, u.freshFd, .unset, rptr⟩)) name created
      u.freshFd ino rptr where
  ctx := rfl
  kernel := hk
  shm := hs
  fd_ne := u.freshFd_ne_neg_one
  lookup := by simp
  maps := hm
  fds h := by
    rw [World.setCtx_fds, World.newFd_fds, u.filter_freshFd ino]
    exact hf h
  pid := hp
  stdout := ho

theorem open_malloc_failed {sys : Sys} {w : World} (pid : ℤ) (hc : w.proc.ctx = none)
    (hm : sys.malloc = none) :
    run (sharedEventsOpen sys pid) w = (.ok (-1), w.setErrno (.other 12)) := by
  simp [sharedEventsOpen, run_bind, hc, hm]

theorem open_no_fd {sys : Sys} {w : World} {block : HeapBlock} (pid : ℤ)
    (hc : w.proc.ctx = none) (hm : sys.malloc = some block) (hf : ¬FdObtained sys w pid) :
    ∃ w' c, run (sharedEventsOpen sys pid) w = (.ok (-1), w') ∧ w'.kernel = w.kernel ∧
      w'.proc.ctx = some c ∧ c.events = .unset ∧ w'.proc.pid = w.proc.pid ∧
      w'.proc.stdout = w.proc.stdout := by
  cases ho : sys.shmOpen with
  | some e =>
    simp [sharedEventsOpen, openMap, modifyCtx, run_bind, hc, hm, ho, World.shmOpen_failed]
  | none =>
    have hcr : ShmCreated sys w pid := by
      by_contra hn
      exact hf ⟨ho, fun h ↦ absurd h hn⟩
    cases he : sys.shmOpenCreat with
    | none => exact absurd ⟨ho, fun _ ↦ he⟩ hf
    | some e =>
      -- the first call has failed, or it has succeeded with `ENOENT` left over
      cases hk : w.kernel.shm (shmName maxShmNameLen pid) with
      | none =>
        simp [sharedEventsOpen, openMap, modifyCtx, run_bind, hc, hm, ho, he,
          World.shmOpen_failed, World.shmOpen_missing, hk]
      | some ino =>
        have herr : w.proc.errno = .enoent := hcr.2.resolve_left (by simp [hk])
        simp [sharedEventsOpen, openMap, modifyCtx, run_bind, hc, hm, ho, he,
          World.shmOpen_failed, World.shmOpen_existing ino, hk, herr]

theorem open_fd {sys : Sys} {w : World} {block : HeapBlock} (pid : ℤ)
    (hc : w.proc.ctx = none) (hm : sys.malloc = some block) (hf : FdObtained sys w pid) :
    ∃ w₁ fd ino, run (sharedEventsOpen sys pid) w =
        run (openMap sys pid (decide (ShmCreated sys w pid)) fd) w₁ ∧
      FdReady w w₁ (shmName maxShmNameLen pid) (decide (ShmCreated sys w pid)) fd ino
        block.rptr := by
  obtain ⟨ho, hcr⟩ := hf
  cases hk : w.kernel.shm (shmName maxShmNameLen pid) with
  | none =>
    have hs : ShmCreated sys w pid := ⟨ho, .inl hk⟩
    simp [sharedEventsOpen, modifyCtx, run_bind, hc, hm, ho, hcr hs, hs, World.shmOpen_missing,
      World.shmOpen_creat, hk]
    exact ⟨_, _, rfl, _, fdReady_newFd _ (w.kernel.ensure_of_none hk).symm
      (w.kernel.shm_create_self _) rfl (by simp) rfl rfl⟩
  | some ino =>
    by_cases herr : w.proc.errno = .enoent
    · -- the second call finds the segment too, and its descriptor comes on top of the first one
      have hs : ShmCreated sys w pid := ⟨ho, .inr herr⟩
      simp [sharedEventsOpen, modifyCtx, run_bind, hc, hm, ho, hcr hs, hs, herr,
        World.shmOpen_existing ino, hk]
      exact ⟨_, _, rfl, _, fdReady_newFd _ (w.kernel.ensure_of_some hk).symm hk rfl (by simp)
        rfl rfl⟩
    · have hs : ¬ShmCreated sys w pid := by
        rintro ⟨-, h | h⟩
        · rw [hk] at h
          cases h
        · exact herr h
      simp [sharedEventsOpen, modifyCtx, run_bind, hc, hm, ho, hs, herr,
        World.shmOpen_existing ino, hk]
      exact ⟨_, _, rfl, _, fdReady_newFd _ (w.kernel.ensure_of_some hk).symm hk rfl (fun _ ↦ rfl)
        rfl rfl⟩

/-- The context points at a live mapping of `ino`. -/
structure World.Mapped (w : World) (ino : Ino) (c : Ctx) : Prop where
  ctx : w.proc.ctx = some c
  events : c.events = .mapped ino
  live : ino ∈ w.proc.maps

/-- The state after an open of `name` from the closed state `w`. -/
structure Opened (w w' : World) (name : ShmName) (ino : Ino) (c : Ctx) : Prop where
  mapped : w'.Mapped ino c
  kernel : w'.kernel = w.kernel.ensure name
  shm : w'.kernel.shm name = some ino
  maps : w'.proc.maps = ino :: w.proc.maps
  pid : w'.proc.pid = w.proc.pid
  stdout : w'.proc.stdout = w.proc.stdout

section OpenMap

variable {sys : Sys} {w w₁ : World} {name : ShmName} {created : Bool} {fd : ℤ} {ino : Ino}
  {rptr : ℤ}

/-- Where one of the two calls fails, nothing has changed but `errno` and the address in the context,
and `shared_events_close` is given that address. -/
theorem openMap_failed (pid : ℤ) (h : FdReady w w₁ name created fd ino rptr)
    (hm : sys.ftruncate ≠ none ∨ sys.mmap ≠ none) :
    ∃ (e : ℕ) (p : EventsPtr), (∀ i, p ≠ .mapped i) ∧
      run (openMap sys pid created fd) w₁ = run (openCleanup sys pid created)
        ((w₁.setErrno (.other e)).setCtx (some ⟨name, fd, p, rptr⟩)) := by
  cases hf : sys.ftruncate with
  | some e =>
    refine ⟨e, .unset, nofun, ?_⟩
    have hself : (w₁.setErrno (.other e)).setCtx (some ⟨name, fd, .unset, rptr⟩) =
        w₁.setErrno (.other e) := by
      rw [← h.ctx]
      rfl
    rw [hself]
    simp [openMap, run_bind, h.fd_ne, World.ftruncate, hf]
  | none =>
    cases hmm : sys.mmap with
    | none => exact absurd hm (by simp [hf, hmm])
    | some e =>
      refine ⟨e, .failed, nofun, ?_⟩
      simp [openMap, modifyCtx, run_bind, h.fd_ne, h.ctx, World.ftruncate, World.mmap, hf, hmm]

theorem run_munmap_unmapped {p : EventsPtr} (hp : ∀ i, p ≠ .mapped i) (w : World) :
    ∃ e, run (munmap sys p) w = (.ok (), w.setErrno e) := by
  cases p with
  | mapped i => exact absurd rfl (hp i)
  | failed => exact ⟨_, rfl⟩
  | unset =>
    unfold munmap
    cases sys.munmap with
    | some e => exact ⟨_, rfl⟩
    | none => exact ⟨w.proc.errno, rfl⟩

/-- Whatever the address is, `munmap` returns, and the context and its descriptor are given up. -/
theorem close_of_unmapped {c : Ctx} (hc : w.proc.ctx = some c) (hp : ∀ i, c.events ≠ .mapped i) :
    ∃ w', run (sharedEventsClose sys) w = (.ok (), w') ∧ w'.kernel = w.kernel ∧
      w'.proc.ctx = none ∧ w'.proc.fds = w.proc.fds.filter (·.1 ≠ c.fd) ∧
      w'.proc.maps = w.proc.maps ∧ w'.proc.pid = w.proc.pid ∧ w'.proc.stdout = w.proc.stdout := by
  obtain ⟨e, hunmap⟩ := @run_munmap_unmapped sys c.events hp w
  refine ⟨((w.setErrno e).close sys.close c.fd).setCtx none, ?_, ?_⟩
  · unfold sharedEventsClose
    rw [run_bind, run_get]
    dsimp only
    rw [hc]
    dsimp only
    rw [run_bind_ok hunmap]
    rfl
  · have hafter := (w.setErrno e).close_fields sys.close c.fd
    exact ⟨hafter.kernel, rfl, hafter.fds, hafter.maps, hafter.pid, hafter.stdout⟩

-- the context is gone when `shared_events_delete` writes the name into it
theorem openCleanup_created {c : Ctx} (pid : ℤ) (hc : w.proc.ctx = some c)
    (hp : ∀ i, c.events ≠ .mapped i) :
    ∃ w', run (openCleanup sys pid true) w = (.error .nullCtx, w') ∧ w'.kernel = w.kernel := by
  obtain ⟨w', hr, hk, hctx, -⟩ := @close_of_unmapped sys w c hc hp
  refine ⟨w', ?_, hk⟩
  rw [openCleanup, run_bind_ok hr]
  simp [sharedEventsDelete, run_bind, hctx]

theorem openCleanup_existing {c : Ctx} (pid : ℤ) (hc : w.proc.ctx = some c)
    (hp : ∀ i, c.events ≠ .mapped i) :
    ∃ w', run (openCleanup sys pid false) w = (.ok (-1), w') ∧ w'.kernel = w.kernel ∧
      w'.proc.ctx = none ∧ w'.proc.fds = w.proc.fds.filter (·.1 ≠ c.fd) ∧
      w'.proc.maps = w.proc.maps ∧ w'.proc.pid = w.proc.pid ∧ w'.proc.stdout = w.proc.stdout := by
  obtain ⟨w', hr, hafter⟩ := @close_of_unmapped sys w c hc hp
  refine ⟨w', ?_, hafter⟩
  rw [openCleanup, run_bind_ok hr]
  rfl

/-- Where the rest of an open succeeds, the segment of the descriptor is mapped. -/
theorem run_openMap {c : Ctx} (pid : ℤ) (created : Bool) (hf : sys.ftruncate = none)
    (hm : sys.mmap = none) (hfd : fd ≠ -1) (hl : w.proc.fds.lookup fd = some ino)
    (hctx : w.proc.ctx = some c) :
    run (openMap sys pid created fd) w = (.ok 0, { w with proc := { w.proc with
      maps := ino :: w.proc.maps, ctx := some { c with events := .mapped ino } } }) := by
  simp [openMap, modifyCtx, run_bind, hfd, World.ftruncate, World.mmap, hf, hm, hl, hctx]
  rfl

theorem openMap_ok (pid : ℤ) (h : FdReady w w₁ name created fd ino rptr)
    (hf : sys.ftruncate = none) (hm : sys.mmap = none) :
    ∃ w' c, run (openMap sys pid created fd) w₁ = (.ok 0, w') ∧ Opened w w' name ino c ∧
      c.rptr = rptr := by
  refine ⟨_, ⟨name, fd, .mapped ino, rptr⟩, run_openMap pid created hf hm h.fd_ne h.lookup h.ctx,
    ⟨?_, h.kernel, h.shm, ?_, h.pid, h.stdout⟩, rfl⟩
  · exact ⟨rfl, rfl, List.mem_cons_self⟩
  · simp [h.maps]

end OpenMap

/-- How a call of `shared_events_open` in the closed state ends. -/
inductive OpenOutcome (w : World) (name : ShmName) : Except Fault ℤ × World → Prop
  | opened {w' ino c} (h : Opened w w' name ino c) : OpenOutcome w name (.ok 0, w')
  | failed {w'} (kernel : w'.kernel = w.kernel) (ctx : w'.proc.ctx = none)
      (fds : w'.proc.fds = w.proc.fds) (maps : w'.proc.maps = w.proc.maps)
      (pid : w'.proc.pid = w.proc.pid) (stdout : w'.proc.stdout = w.proc.stdout) :
      OpenOutcome w name (.ok (-1), w')
  | half {w' c} (kernel : w'.kernel = w.kernel) (ctx : w'.proc.ctx = some c)
      (events : c.events = .unset) (pid : w'.proc.pid = w.proc.pid)
      (stdout : w'.proc.stdout = w.proc.stdout) : OpenOutcome w name (.ok (-1), w')
  | died {w' fault} (kernel : w'.kernel = w.kernel ∨ w'.kernel = w.kernel.ensure name)
      (stray : fault ≠ .outOfBounds) : OpenOutcome w name (.error fault, w')

/-- The ways through `shared_events_open` in the closed state, each with the calls that fail on
it. -/
inductive OpenPath (sys : Sys) (w : World) (pid : ℤ) : Except Fault ℤ × World → Prop
  | noMemory (malloc : sys.malloc = none) : OpenPath sys w pid (.ok (-1), w.setErrno (.other 12))
  | noFd {w' c} (malloc : sys.malloc ≠ none) (fd : ¬FdObtained sys w pid)
      (kernel : w'.kernel = w.kernel) (ctx : w'.proc.ctx = some c) (events : c.events = .unset)
      (own : w'.proc.pid = w.proc.pid) (stdout : w'.proc.stdout = w.proc.stdout) :
      OpenPath sys w pid (.ok (-1), w')
  | stray {w' fault} (malloc : sys.malloc ≠ none) (fd : FdObtained sys w pid)
      (fails : sys.ftruncate ≠ none ∨ sys.mmap ≠ none) (created : ShmCreated sys w pid)
      (kernel : w'.kernel = w.kernel.ensure (shmName maxShmNameLen pid))
      (inside : fault ≠ .outOfBounds) : OpenPath sys w pid (.error fault, w')
  | cleaned {w'} (fd : FdObtained sys w pid) (fails : sys.ftruncate ≠ none ∨ sys.mmap ≠ none)
      (created : ¬ShmCreated sys w pid) (kernel : w'.kernel = w.kernel)
      (ctx : w'.proc.ctx = none) (fds : w'.proc.fds = w.proc.fds)
      (maps : w'.proc.maps = w.proc.maps) (own : w'.proc.pid = w.proc.pid)
      (stdout : w'.proc.stdout = w.proc.stdout) : OpenPath sys w pid (.ok (-1), w')
  | opened {w' ino c} (fd : FdObtained sys w pid) (ftruncate : sys.ftruncate = none)
      (mmap : sys.mmap = none) (h : Opened w w' (shmName maxShmNameLen pid) ino c) :
      OpenPath sys w pid (.ok 0, w')

theorem open_path (sys : Sys) (pid : ℤ) {w : World} (hc : w.proc.ctx = none) :
    OpenPath sys w pid (run (sharedEventsOpen sys pid) w) := by
  cases hm : sys.malloc with
  | none =>
    rw [open_malloc_failed pid hc hm]
    exact .noMemory hm
  | some block =>
    have hne : sys.malloc ≠ none := by simp [hm]
    by_cases hf : FdObtained sys w pid
    · obtain ⟨w₁, fd, ino, hr, h⟩ := open_fd pid hc hm hf
      rw [hr]
      by_cases hfails : sys.ftruncate ≠ none ∨ sys.mmap ≠ none
      · obtain ⟨e, p, hp, hr'⟩ := openMap_failed pid h hfails
        have hctx₂ : ((w₁.setErrno (.other e)).setCtx (some ⟨_, fd, p, block.rptr⟩)).proc.ctx =
          some ⟨shmName maxShmNameLen pid, fd, p, block.rptr⟩ := rfl
        rw [hr']
        by_cases hs : ShmCreated sys w pid
        · rw [decide_eq_true hs]
          obtain ⟨w', hr'', hk⟩ := openCleanup_created pid hctx₂ hp
          rw [hr'']
          exact .stray hne hf hfails hs (hk.trans h.kernel) (by simp)
        · rw [decide_eq_false hs] at h ⊢
          obtain ⟨w', hr'', hk, hctx, hfds, hmaps, hpid, hout⟩ :=
            openCleanup_existing pid hctx₂ hp
          -- the second `shm_open` was not made, so the segment was there before
          have he : ∃ i, w.kernel.shm (shmName maxShmNameLen pid) = some i :=
            Option.ne_none_iff_exists'.mp fun hn ↦ hs ⟨hf.1, .inl hn⟩
          obtain ⟨i, hi⟩ := he
          rw [hr'']
          exact .cleaned hf hfails hs (hk.trans (h.kernel.trans (w.kernel.ensure_of_some hi)))
            hctx (hfds.trans (h.fds rfl)) (hmaps.trans h.maps) (hpid.trans h.pid)
            (hout.trans h.stdout)
      · rw [not_or, not_not, not_not] at hfails
        obtain ⟨w', c, hr', ho, -⟩ := openMap_ok pid h hfails.1 hfails.2
        rw [hr']
        exact .opened hf hfails.1 hfails.2 ho
    · obtain ⟨w', c, hr, hk, hctx, hev, hpid, hout⟩ := open_no_fd pid hc hm hf
      rw [hr]
      exact .noFd hne hf hk hctx hev hpid hout

theorem open_outcome (sys : Sys) (pid : ℤ) {w : World} (hc : w.proc.ctx = none) :
    OpenOutcome w (shmName maxShmNameLen pid) (run (sharedEventsOpen sys pid) w) := by
  have hpath := open_path sys pid hc
  generalize run (sharedEventsOpen sys pid) w = r at hpath
  cases hpath with
  | noMemory => exact .failed rfl hc rfl rfl rfl rfl
  | noFd malloc fd kernel ctx events own stdout => exact .half kernel ctx events own stdout
  | stray malloc fd fails created kernel inside => exact .died (.inr kernel) inside
  | cleaned fd fails created kernel ctx fds maps own stdout =>
    exact .failed kernel ctx fds maps own stdout
  | opened fd ftruncate mmap h => exact .opened h

theorem open_succeeds {sys : Sys} (hs : sys.Succeeds) (pid : ℤ) {w : World}
    (hc : w.proc.ctx = none) :
    ∃ w' ino c, run (sharedEventsOpen sys pid) w = (.ok 0, w') ∧
      Opened w w' (shmName maxShmNameLen pid) ino c := by
  obtain ⟨block, hm⟩ := hs.malloc
  obtain ⟨w₁, fd, ino, hr, h⟩ := open_fd pid hc hm ⟨hs.shmOpen, fun _ ↦ hs.shmOpenCreat⟩
  obtain ⟨w', c, hr', ho, -⟩ := openMap_ok pid h hs.ftruncate hs.mmap
  exact ⟨w', ino, c, hr.trans hr', ho⟩

theorem open_of_open (sys : Sys) (pid : ℤ) {w : World} {c : Ctx} (hc : w.proc.ctx = some c) :
    run (sharedEventsOpen sys pid) w = (.ok 0, w) := by
  simp [sharedEventsOpen, run_bind, hc]

/-! ## `shared_events_close` -/

theorem close_of_closed (sys : Sys) {w : World} (hc : w.proc.ctx = none) :
    run (sharedEventsClose sys) w = (.ok (), w) := by
  simp [sharedEventsClose, run_bind, hc]

/-- Whatever `munmap` and `close` report, the module is closed afterwards. -/
theorem close_of_mapped {w : World} {ino : Ino} {c : Ctx} (sys : Sys) (h : w.Mapped ino c) :
    ∃ w', run (sharedEventsClose sys) w = (.ok (), w') ∧ w'.kernel = w.kernel ∧
      w'.proc.ctx = none ∧ w'.proc.pid = w.proc.pid ∧ w'.proc.stdout = w.proc.stdout := by
  have hafter := fun v : World ↦ v.close_fields sys.close c.fd
  cases hm : sys.munmap <;>
    simp [sharedEventsClose, munmap, run_bind, h.ctx, h.events, hm, (hafter _).kernel,
      (hafter _).pid, (hafter _).stdout]

/-! ## The operations on the log -/

inductive LogOp where
  | clear
  | add (name : CString)
  | read
  | rewind
deriving DecidableEq

/-- What a call of the module gives back to the program. -/
inductive Result where
  | status (ret : ℤ)
  | event (ptr : EventPtr)
deriving DecidableEq

def LogOp.run (sys : Sys) : LogOp → Call Result
  | .clear => do return .status (← sharedEventsClear sys)
  | .add name => do return .status (← sharedEventsAdd sys name)
  | .read => do return .event (← sharedEventsRead sys)
  | .rewind => do return .status (← sharedEventsRewind sys)

/-- The time stamp `shared_events_add` stores for `name`. -/
def Sys.stamp (sys : Sys) (name : CString) : Except ℕ Timespec :=
  if name = .start then sys.clockLate else sys.clock

theorem Sys.stamp_of_ne {sys : Sys} {name : CString} (hn : name ≠ .start) :
    sys.stamp name = sys.clock := if_neg hn

/-- Where the first reading of the clock works, only a `"start"` event is left without a time. -/
theorem Sys.stamp_eq_error {sys : Sys} {name : CString} {t : Timespec} {e : ℕ}
    (ht : sys.clock = .ok t) (hts : sys.stamp name = .error e) :
    name = .start ∧ sys.clockLate = .error e := by
  by_cases hn : name = .start
  · rw [Sys.stamp, if_pos hn] at hts
    exact ⟨hn, hts⟩
  · rw [Sys.stamp_of_ne hn, ht] at hts
    cases hts

/-- The operation as one on a segment and a read position alone. -/
def LogOp.onSegment (ino : Ino) (ts : Timespec) :
    LogOp → SharedEvents → ℤ → Except Fault (Result × SharedEvents × ℤ)
  | .clear, s, r => .ok (.status 0, s.setCount 0, r)
  | .add name, s, r =>
    if s.count = maxEventCount then
      .ok (.status (-1), s, r)
    else if h : s.count < maxEventCount then
      .ok (.status 0,
        ⟨s.count + 1, Function.update s.events ⟨s.count, h⟩ ⟨ts, strncpy name⟩⟩, r)
    else
      .error .outOfBounds
  | .read, s, r =>
    if toSizeT r = s.count then
      .ok (.event .null, s, r)
    else if h : 0 ≤ r ∧ r.toNat < maxEventCount then
      .ok (.event (.event ino ⟨r.toNat, h.2⟩), s, r + 1)
    else
      .error .outOfBounds
  | .rewind, s, _ => .ok (.status 0, s, 0)

/-- The time an operation stores, for the operations that store one. -/
def LogOp.stamp (sys : Sys) : LogOp → Except ℕ Timespec
  | .add name => sys.stamp name
  | _ => sys.clock

theorem LogOp.stamp_ok {sys : Sys} (hs : sys.Succeeds) (op : LogOp) :
    ∃ ts, op.stamp sys = .ok ts := by
  cases op with
  | add name =>
    change ∃ ts, (if name = .start then sys.clockLate else sys.clock) = .ok ts
    split
    · exact hs.clockLate
    · exact hs.clock
  | clear => exact hs.clock
  | read => exact hs.clock
  | rewind => exact hs.clock

/-- The world with another segment under the mapping and another read position. -/
def World.withLog (w : World) (ino : Ino) (c : Ctx) (s : SharedEvents) (r : ℤ) : World :=
  (w.setSeg ino s).setCtx (some { c with rptr := r })

section Mapped

variable {sys : Sys} {w : World} {ino : Ino} {c : Ctx}

@[simp] theorem World.withLog_seg (s : SharedEvents) (r : ℤ) :
    (w.withLog ino c s r).kernel.seg ino = s := by
  simp [withLog, Kernel.setSeg]

theorem World.setCtx_self {d : Option Ctx} (hc : w.proc.ctx = d) : w.setCtx d = w := by
  subst hc
  rfl

theorem World.setSeg_self (w : World) (ino : Ino) : w.setSeg ino (w.kernel.seg ino) = w := by
  simp [setSeg, Kernel.setSeg]

theorem World.setSeg_setSeg (w : World) (ino : Ino) (s t : SharedEvents) :
    (w.setSeg ino s).setSeg ino t = w.setSeg ino t := by
  simp [setSeg, Kernel.setSeg]

@[simp] theorem World.setSeg_seg (w : World) (ino : Ino) (s : SharedEvents) :
    (w.setSeg ino s).kernel.seg ino = s := by
  simp [Kernel.setSeg]

-- only the segment, or only the read position, changes
theorem World.withLog_rptr (hc : w.proc.ctx = some c) (s : SharedEvents) :
    w.withLog ino c s c.rptr = w.setSeg ino s :=
  World.setCtx_self (w := w.setSeg ino s) hc

theorem World.withLog_seg_self (w : World) (c : Ctx) (r : ℤ) :
    w.withLog ino c (w.kernel.seg ino) r = w.setCtx (some { c with rptr := r }) := by
  rw [withLog, setSeg_self]

theorem World.withLog_self (hc : w.proc.ctx = some c) :
    w.withLog ino c (w.kernel.seg ino) c.rptr = w := by
  rw [withLog_rptr hc, setSeg_self]

theorem World.Mapped.withLog (h : w.Mapped ino c) (s : SharedEvents) (r : ℤ) :
    (w.withLog ino c s r).Mapped ino { c with rptr := r } :=
  ⟨rfl, h.events, h.live⟩

theorem openFailed_of_open (hc : w.proc.ctx = some c) :
    run (openFailed sys) w = (.ok false, w) := by
  unfold openFailed
  rw [run_bind, run_get]
  simp only [hc]
  rfl

theorem openFailed_of_closed (sys : Sys) (hc : w.proc.ctx = none) :
    run (openFailed sys) w =
      run (do
        let ret ← sharedEventsOpen sys w.proc.pid
        return decide (ret = -1)) w := by
  unfold openFailed
  rw [run_bind, run_get]
  simp only [hc]

theorem derefEvents_of_mapped (h : w.Mapped ino c) : run derefEvents w = (.ok ino, w) := by
  simp [derefEvents, run_bind, h.ctx, h.events, h.live]

theorem run_stampEvent {name : CString} {tmpts ts : Timespec} (k : Fin maxEventCount)
    (ht : sys.clock = .ok tmpts) (hts : sys.stamp name = .ok ts) (u : World) :
    run (stampEvent sys name tmpts ino k) u =
      (.ok 0, u.setSeg ino ((u.kernel.seg ino).setTs k ts)) := by
  by_cases hn : name = .start
  · rw [Sys.stamp, if_pos hn] at hts
    simp [stampEvent, run_bind, hn, hts]
  · rw [Sys.stamp_of_ne hn, ht] at hts
    cases hts
    simp [stampEvent, run_bind, hn]

theorem run_add_of_mapped {name : CString} {tmpts ts : Timespec} (h : w.Mapped ino c)
    (ht : sys.clock = .ok tmpts) (hts : sys.stamp name = .ok ts)
    (hlt : (w.kernel.seg ino).count < maxEventCount) :
    run (sharedEventsAdd sys name) w =
      (.ok 0, w.setSeg ino ⟨(w.kernel.seg ino).count + 1,
        Function.update (w.kernel.seg ino).events ⟨_, hlt⟩ ⟨ts, strncpy name⟩⟩) := by
  have hne : ¬(w.kernel.seg ino).count = maxEventCount := Nat.ne_of_lt hlt
  simp only [sharedEventsAdd, ht, run_bind, openFailed_of_open h.ctx, derefEvents_of_mapped h,
    Bool.false_eq_true, if_false, run_get, if_neg hne, dif_pos hlt, run_modify,
    run_stampEvent _ ht hts, World.setSeg_seg, World.setSeg_setSeg,
    SharedEvents.setTs_setCount_setName]

theorem run_add_full {name : CString} {tmpts : Timespec} (h : w.Mapped ino c)
    (ht : sys.clock = .ok tmpts) (hfull : (w.kernel.seg ino).count = maxEventCount) :
    run (sharedEventsAdd sys name) w = (.ok (-1), w) := by
  simp [sharedEventsAdd, ht, run_bind, openFailed_of_open h.ctx, derefEvents_of_mapped h, hfull]

theorem run_add_clock_failed {e : ℕ} (name : CString) (ht : sys.clock = .error e) (w : World) :
    run (sharedEventsAdd sys name) w = (.ok (-1), w.setErrno (.other e)) := by
  simp only [sharedEventsAdd, ht, run_bind, run_modify, run_pure]

-- the name is stored and the count is not taken back; the slot keeps the time it had
theorem run_add_unstamped {t : Timespec} {e : ℕ} (h : w.Mapped ino c) (ht : sys.clock = .ok t)
    (he : sys.clockLate = .error e) (hlt : (w.kernel.seg ino).count < maxEventCount) :
    run (sharedEventsAdd sys .start) w =
      (.ok (-1), (w.setSeg ino ⟨(w.kernel.seg ino).count + 1,
        Function.update (w.kernel.seg ino).events ⟨_, hlt⟩
          ⟨((w.kernel.seg ino).events ⟨_, hlt⟩).ts, strncpy .start⟩⟩).setErrno (.other e)) := by
  have hne : ¬(w.kernel.seg ino).count = maxEventCount := Nat.ne_of_lt hlt
  simp only [sharedEventsAdd, ht, run_bind, openFailed_of_open h.ctx, derefEvents_of_mapped h,
    Bool.false_eq_true, if_false, run_get, if_neg hne, dif_pos hlt, run_modify, stampEvent, if_true,
    he, run_pure, World.setSeg_seg, World.setSeg_setSeg]
  rfl

/-- An add that comes through its open goes on in the world the open has left. -/
theorem run_add_of_openFailed {name : CString} {t : Timespec} {w₁ : World}
    (ht : sys.clock = .ok t) (hof : run (openFailed sys) w = (.ok false, w₁))
    (h : w₁.Mapped ino c) :
    run (sharedEventsAdd sys name) w = run (sharedEventsAdd sys name) w₁ := by
  simp only [sharedEventsAdd, ht, run_bind, hof, openFailed_of_open h.ctx]

theorem run_add_open_failed {name : CString} {t : Timespec} {w₁ : World}
    (ht : sys.clock = .ok t) (hof : run (openFailed sys) w = (.ok true, w₁)) :
    run (sharedEventsAdd sys name) w = (.ok (-1), w₁) := by
  simp only [sharedEventsAdd, ht, run_bind, hof, if_true, run_pure]

/-- On a mapped segment an operation is its action on that segment and the read position. -/
theorem run_of_mapped {ts : Timespec} (hs : sys.Succeeds) (h : w.Mapped ino c) (op : LogOp)
    (hts : op.stamp sys = .ok ts) :
    run (op.run sys) w =
      match op.onSegment ino ts (w.kernel.seg ino) c.rptr with
      | .ok (res, s, r) => (.ok res, w.withLog ino c s r)
      | .error f => (.error f, w) := by
  obtain ⟨t, ht⟩ := hs.clock
  cases op with
  | clear =>
    simp [LogOp.run, sharedEventsClear, run_bind, openFailed_of_open h.ctx,
      derefEvents_of_mapped h, LogOp.onSegment, World.withLog_rptr h.ctx]
  | add name =>
    rw [LogOp.run, run_bind]
    rcases Nat.lt_trichotomy (w.kernel.seg ino).count maxEventCount with hlt | heq | hgt
    · rw [run_add_of_mapped h ht hts hlt]
      simp only [LogOp.onSegment, if_neg (Nat.ne_of_lt hlt), dif_pos hlt,
        World.withLog_rptr h.ctx, run_pure]
    · rw [run_add_full h ht heq]
      simp only [LogOp.onSegment, if_pos heq, World.withLog_self h.ctx, run_pure]
    · -- the code asks for equality only, and runs behind the array
      simp [LogOp.onSegment, sharedEventsAdd, ht, run_bind, openFailed_of_open h.ctx,
        derefEvents_of_mapped h, if_neg (Nat.ne_of_gt hgt), dif_neg (Nat.not_lt.mpr hgt.le)]
  | read =>
    by_cases heq : toSizeT c.rptr = (w.kernel.seg ino).count
    · simp [LogOp.run, sharedEventsRead, run_bind, openFailed_of_open h.ctx,
        derefEvents_of_mapped h, LogOp.onSegment, h.ctx, heq, World.withLog_self h.ctx]
    · by_cases hr : 0 ≤ c.rptr ∧ c.rptr < 256 <;>
        simp [LogOp.run, sharedEventsRead, run_bind, openFailed_of_open h.ctx,
          derefEvents_of_mapped h, LogOp.onSegment, h.ctx, heq, hr, modifyCtx,
          World.withLog_seg_self]
  | rewind =>
    simp [LogOp.run, sharedEventsRewind, run_bind, openFailed_of_open h.ctx, LogOp.onSegment,
      h.ctx, modifyCtx, World.withLog_seg_self]

/-- What an operation on a mapped segment leaves in place: the mapping, the other objects and the
process. -/
structure World.Kept (w w' : World) (ino : Ino) : Prop where
  mapped : ∃ c', w'.Mapped ino c'
  kernel : ∃ s, w'.kernel = w.kernel.setSeg ino s
  pid : w'.proc.pid = w.proc.pid

theorem World.Kept.of_seg (h : w.Mapped ino c) (s : SharedEvents) :
    w.Kept (w.setSeg ino s) ino :=
  ⟨⟨c, h.ctx, h.events, h.live⟩, ⟨s, rfl⟩, rfl⟩

theorem World.Kept.refl (h : w.Mapped ino c) : w.Kept w ino := by
  have hk := World.Kept.of_seg h (w.kernel.seg ino)
  rwa [w.setSeg_self] at hk

theorem World.Kept.of_rptr (h : w.Mapped ino c) (r : ℤ) :
    w.Kept (w.setCtx (some { c with rptr := r })) ino :=
  ⟨⟨_, rfl, h.events, h.live⟩, (World.Kept.refl h).kernel, rfl⟩

theorem World.Kept.of_errno (h : w.Mapped ino c) (e : Errno) : w.Kept (w.setErrno e) ino :=
  ⟨⟨c, h.ctx, h.events, h.live⟩, (World.Kept.refl h).kernel, rfl⟩

theorem World.Kept.trans {w' w'' : World} (h : w.Kept w' ino) (h' : w'.Kept w'' ino) :
    w.Kept w'' ino := by
  obtain ⟨s, hs⟩ := h.kernel
  obtain ⟨t, ht⟩ := h'.kernel
  refine ⟨h'.mapped, ⟨t, ?_⟩, h'.pid.trans h.pid⟩
  rw [ht, hs]
  simp [Kernel.setSeg]

theorem stampEvent_kept (sys : Sys) (name : CString) (tmpts : Timespec) (k : Fin maxEventCount)
    (h : w.Mapped ino c) :
    ∃ ret w', run (stampEvent sys name tmpts ino k) w = (.ok ret, w') ∧ w.Kept w' ino := by
  unfold stampEvent
  by_cases hn : name = .start
  · cases hl : sys.clockLate with
    | error e => exact ⟨-1, _, by rw [if_pos hn]; rfl, World.Kept.of_errno h _⟩
    | ok ts => exact ⟨0, _, by rw [if_pos hn]; rfl, World.Kept.of_seg h _⟩
  · exact ⟨0, _, by rw [if_neg hn]; rfl, World.Kept.of_seg h _⟩

/-- With a mapped segment, an operation keeps it mapped whatever the system answers. -/
theorem run_mapped_step (sys : Sys) {w : World} {ino : Ino} {c : Ctx} (h : w.Mapped ino c)
    (op : LogOp) :
    w.Kept (run (op.run sys) w).2 ino ∧
      ∀ f, (run (op.run sys) w).1 = .error f → f = .outOfBounds := by
  cases op with
  | clear =>
    simp only [LogOp.run, sharedEventsClear, run_bind, openFailed_of_open h.ctx,
      Bool.false_eq_true, if_false, derefEvents_of_mapped h, run_modify, run_pure]
    exact ⟨World.Kept.of_seg h _, by simp⟩
  | add name =>
    cases ht : sys.clock with
    | error e =>
      simp only [LogOp.run, run_bind, run_add_clock_failed name ht, run_pure]
      exact ⟨World.Kept.of_errno h _, by simp⟩
    | ok t =>
      simp only [LogOp.run, sharedEventsAdd, run_bind, ht, openFailed_of_open h.ctx,
        Bool.false_eq_true, if_false, derefEvents_of_mapped h, run_get]
      by_cases hfull : (w.kernel.seg ino).count = maxEventCount
      · simp only [if_pos hfull, run_pure]
        exact ⟨World.Kept.refl h, by simp⟩
      · by_cases hlt : (w.kernel.seg ino).count < maxEventCount
        · simp only [if_neg hfull, dif_pos hlt, run_bind, run_modify]
          -- the name, the count and the time stamp are stored one after the other
          have h₁ := World.Kept.of_seg h
            ((w.kernel.seg ino).setName ⟨_, hlt⟩ (strncpy name))
          obtain ⟨c₁, hm₁⟩ := h₁.mapped
          have h₂ := h₁.trans (World.Kept.of_seg hm₁ (((w.setSeg ino ((w.kernel.seg ino).setName
            ⟨_, hlt⟩ (strncpy name))).kernel.seg ino).setCount ((w.kernel.seg ino).count + 1)))
          obtain ⟨c₂, hm₂⟩ := h₂.mapped
          obtain ⟨ret, w', hr, h₃⟩ := stampEvent_kept sys name t ⟨_, hlt⟩ hm₂
          rw [hr]
          exact ⟨h₂.trans h₃, by simp⟩
        · simp only [if_neg hfull, dif_neg hlt, run_throw]
          exact ⟨World.Kept.refl h, by simp⟩
  | read =>
    simp only [LogOp.run, sharedEventsRead, run_bind, openFailed_of_open h.ctx,
      Bool.false_eq_true, if_false, derefEvents_of_mapped h, run_get, h.ctx]
    by_cases he : toSizeT c.rptr = (w.kernel.seg ino).count
    · simp only [if_pos he, run_pure]
      exact ⟨World.Kept.refl h, by simp⟩
    · by_cases hr : 0 ≤ c.rptr ∧ c.rptr.toNat < maxEventCount
      · simp only [if_neg he, dif_pos hr, run_bind, modifyCtx, run_modify, run_pure, h.ctx,
          Option.map_some]
        exact ⟨World.Kept.of_rptr h _, by simp⟩
      · simp only [if_neg he, dif_neg hr, run_throw]
        exact ⟨World.Kept.refl h, by simp⟩
  | rewind =>
    simp only [LogOp.run, sharedEventsRewind, run_bind, openFailed_of_open h.ctx,
      Bool.false_eq_true, if_false, modifyCtx, run_modify, run_pure, h.ctx, Option.map_some]
    exact ⟨World.Kept.of_rptr h _, by simp⟩

end Mapped

/-! ## Calls of the module -/

inductive Op where
  | openPid (pid : ℤ)
  | close
  | log (op : LogOp)
deriving DecidableEq

def Op.run (sys : Sys) : Op → Call Result
  | .openPid pid => do return .status (← sharedEventsOpen sys pid)
  | .close => do
    sharedEventsClose sys
    return .status 0
  | .log op => op.run sys

/-- The pid a call opens a segment for, when it finds the module closed. -/
def Op.opensFor (sys : Sys) (w : World) : Op → Option ℤ
  | .openPid pid => some pid
  | .close => none
  | .log (.add _) =>
    match sys.clock with
    | .ok _ => some w.proc.pid
    | .error _ => none
  | .log _ => some w.proc.pid

/-- What an operation returns when its lazy open has failed. -/
def LogOp.failed : LogOp → Result
  | .read => .event .minusOne
  | _ => .status (-1)

/-- In the closed state an operation opens the segment of its own pid, and goes on if that worked. -/
theorem run_of_closed {sys : Sys} {w : World} {pid : ℤ} (op : LogOp) (hc : w.proc.ctx = none)
    (hp : (Op.log op).opensFor sys w = some pid) :
    run (op.run sys) w =
      match run (sharedEventsOpen sys pid) w with
      | (.ok ret, w') => if ret = -1 then (.ok op.failed, w') else run (op.run sys) w'
      | (.error f, w') => (.error f, w') := by
  have ho := open_outcome sys pid hc
  generalize hr : run (sharedEventsOpen sys pid) w = r at ho
  have hctx : ∀ {w' : World} {ino : Ino} {c : Ctx},
      Opened w w' (shmName maxShmNameLen pid) ino c → w'.proc.ctx = some c :=
    fun h ↦ h.mapped.ctx
  cases op with
  | add name =>
    cases ht : sys.clock with
    | error e => simp [Op.opensFor, ht] at hp
    | ok t =>
      simp only [Op.opensFor, ht, Option.some.injEq] at hp
      subst hp
      cases ho with
      | opened h =>
        simp [LogOp.run, sharedEventsAdd, run_bind, openFailed, ht, hc, hr, hctx h]
      | _ => simp [LogOp.run, LogOp.failed, sharedEventsAdd, run_bind, openFailed, ht, hc, hr]
  | clear =>
    cases hp
    cases ho with
    | opened h => simp [LogOp.run, sharedEventsClear, run_bind, openFailed, hc, hr, hctx h]
    | _ => simp [LogOp.run, LogOp.failed, sharedEventsClear, run_bind, openFailed, hc, hr]
  | read =>
    cases hp
    cases ho with
    | opened h => simp [LogOp.run, sharedEventsRead, run_bind, openFailed, hc, hr, hctx h]
    | _ => simp [LogOp.run, LogOp.failed, sharedEventsRead, run_bind, openFailed, hc, hr]
  | rewind =>
    cases hp
    cases ho with
    | opened h => simp [LogOp.run, sharedEventsRewind, run_bind, openFailed, hc, hr, hctx h]
    | _ => simp [LogOp.run, LogOp.failed, sharedEventsRewind, run_bind, openFailed, hc, hr]

/-- Without a first reading of the clock nothing is opened, and nothing else happens. -/
theorem run_of_opensFor_none {sys : Sys} {w : World} (op : LogOp)
    (hp : (Op.log op).opensFor sys w = none) :
    ∃ e, run (op.run sys) w = (.ok op.failed, w.setErrno e) := by
  cases op with
  | add name =>
    cases ht : sys.clock with
    | ok t => simp [Op.opensFor, ht] at hp
    | error e =>
      refine ⟨.other e, ?_⟩
      rw [LogOp.run, run_bind, run_add_clock_failed name ht]
      rfl
  | clear => cases hp
  | read => cases hp
  | rewind => cases hp

end UstBench
