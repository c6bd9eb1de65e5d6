import UstBench.SharedEvents.Effects
import Mathlib.Data.List.Forall2

/-!
# What the heap holds

`malloc` gives the context a block with arbitrary bytes.  `shared_events_open` writes every member of
it but `rptr`, so the position of a reader that has not started over is whatever the block held.
Two runs that differ in their blocks are told apart exactly by such a read.
-/

namespace UstBench

open Reasoning Reasoning.Prog

/-- The same answers of the system, with the block `malloc` gives replaced. -/
def Sys.withBlock (sys : Sys) (block : HeapBlock) : Sys := { sys with malloc := some block }

/-- The same calls, with other blocks. -/
def Reblocked : List (Op × Sys) → List (Op × Sys) → Prop :=
  List.Forall₂ fun x y ↦ y.1 = x.1 ∧ ∃ block, y.2 = x.2.withBlock block

/-- The event a result points at. -/
def Result.eventIn (k : Kernel) : Result → Option SharedEvent
  | .event (.event ino slot) => some ((k.seg ino).events slot)
  | _ => none

/-- What a program sees of a call. -/
abbrev Seen := Except Fault (Result × Option SharedEvent)

/-- What a program sees of its calls, and the segments it leaves. -/
def seenRun : List (Op × Sys) → World → List Seen × Kernel
  | [], w => ([], w.kernel)
  | (op, sys) :: ops, w =>
    match run (op.run sys) w with
    | (.ok res, w') =>
      (.ok (res, res.eventIn w'.kernel) :: (seenRun ops w').1, (seenRun ops w').2)
    | (.error f, w') => ([.error f], w'.kernel)

/-- Whatever the blocks hold, the program sees the same and leaves the same. -/
def HeapIndependent (ops : List (Op × Sys)) (w : World) : Prop :=
  ∀ ops₁ ops₂, Reblocked ops ops₁ → Reblocked ops ops₂ → seenRun ops₁ w = seenRun ops₂ w

/-- What is known of `ctx->rptr`. -/
inductive Rptr where
  /-- there is no context -/
  | closed
  /-- what the block held, moved on by the reads since -/
  | raw
  /-- what the last rewind stored, moved on by the reads since -/
  | rewound
deriving DecidableEq

def Op.rptr : Op → Rptr → Rptr
  | .close, _ => .closed
  | .log .rewind, _ => .rewound
  | _, .closed => .raw
  | _, .raw => .raw
  | _, .rewound => .rewound

/-- Every read the run reaches comes after a rewind since the context was last opened. -/
def ReadsRewound : List (Op × Sys) → World → Rptr → Prop
  | [], _, _ => True
  | (op, sys) :: ops, w, r => (op = .log .read → r = .rewound) ∧
      ∀ res w', run (op.run sys) w = (.ok res, w') → ReadsRewound ops w' (op.rptr r)

/-! ## Opening -/

section Open

variable {sys : Sys} {w : World} {ino : Ino} {c : Ctx}

theorem Sys.Succeeds.withBlock (hs : sys.Succeeds) (b : HeapBlock) : (sys.withBlock b).Succeeds :=
  ⟨⟨b, rfl⟩, hs.shmOpen, hs.shmOpenCreat, hs.ftruncate, hs.mmap, hs.munmap, hs.close,
    hs.shmUnlink, hs.clock, hs.clockLate⟩

/-- The world with another read position. -/
def World.withRptr (w : World) (c : Ctx) (r : ℤ) : World := w.setCtx (some { c with rptr := r })

theorem World.Mapped.withRptr (h : w.Mapped ino c) (r : ℤ) :
    (w.withRptr c r).Mapped ino { c with rptr := r } :=
  ⟨rfl, h.events, h.live⟩

/-- The block decides nothing of an open before the mapping but the read position. -/
theorem open_newFd (hs : sys.Succeeds) (pid : ℤ) (hc : w.proc.ctx = none) :
    ∃ (created : Bool) (v : World) (ino : Ino), ∀ b,
      run (sharedEventsOpen (sys.withBlock b) pid) w =
        run (openMap (sys.withBlock b) pid created v.freshFd) ((v.newFd ino).2.setCtx
          (some ⟨shmName maxShmNameLen pid, v.freshFd, .unset, b.rptr⟩)) := by
  cases hk : w.kernel.shm (shmName maxShmNameLen pid) with
  | none =>
    refine ⟨true, { w.setErrno .enoent with
      kernel := w.kernel.create (shmName maxShmNameLen pid) }, w.kernel.nextIno, fun b ↦ ?_⟩
    simp [sharedEventsOpen, Sys.withBlock, modifyCtx, run_bind, hc, hs.shmOpen, hs.shmOpenCreat,
      World.shmOpen_missing, World.shmOpen_creat, hk]
    rfl
  | some ino =>
    by_cases he : w.proc.errno = .enoent
    · refine ⟨true, (w.newFd ino).2, ino, fun b ↦ ?_⟩
      simp [sharedEventsOpen, Sys.withBlock, modifyCtx, run_bind, hc, hs.shmOpen,
        hs.shmOpenCreat, World.shmOpen_existing ino, hk, he]
      rfl
    · refine ⟨false, w, ino, fun b ↦ ?_⟩
      simp [sharedEventsOpen, Sys.withBlock, modifyCtx, run_bind, hc, hs.shmOpen,
        World.shmOpen_existing ino, hk, he]
      rfl

theorem open_withBlock (hs : sys.Succeeds) (pid : ℤ) (hc : w.proc.ctx = none) :
    ∃ u ino c, World.Mapped u ino c ∧
      ∀ b, run (sharedEventsOpen (sys.withBlock b) pid) w = (.ok 0, u.withRptr c b.rptr) := by
  obtain ⟨created, v, ino, hrun⟩ := open_newFd hs pid hc
  let c : Ctx := ⟨shmName maxShmNameLen pid, v.freshFd, .mapped ino, 0⟩
  let v' := (v.newFd ino).2
  refine ⟨{ v' with proc := { v'.proc with maps := ino :: v'.proc.maps, ctx := some c } }, ino, c,
    ⟨rfl, rfl, List.mem_cons_self⟩, fun b ↦ ?_⟩
  have hl : ∀ d, ((v.newFd ino).2.setCtx d).proc.fds.lookup v.freshFd = some ino := by simp
  have hb := hs.withBlock b
  rw [hrun, run_openMap pid created hb.ftruncate hb.mmap v.freshFd_ne_neg_one (hl _) rfl]
  rfl

end Open

/-! ## One call -/

section Call

variable {sys : Sys} {u : World} {ino : Ino} {c : Ctx}

theorem LogOp.stamp_withBlock (sys : Sys) (b : HeapBlock) (op : LogOp) :
    op.stamp (sys.withBlock b) = op.stamp sys := by
  cases op with
  | clear => rfl
  | add name => rfl
  | read => rfl
  | rewind => rfl

theorem run_log_withRptr {ts : Timespec} (hs : sys.Succeeds) (h : u.Mapped ino c) (op : LogOp)
    (hts : op.stamp sys = .ok ts) (r : ℤ) (b : HeapBlock) :
    run (op.run (sys.withBlock b)) (u.withRptr c r) =
      match op.onSegment ino ts (u.kernel.seg ino) r with
      | .ok (res, s, r') => (.ok res, (u.setSeg ino s).withRptr c r')
      | .error f => (.error f, u.withRptr c r) :=
  run_of_mapped (hs.withBlock b) (h.withRptr r) op ((op.stamp_withBlock sys b).trans hts)

theorem close_withRptr (hs : sys.Succeeds) (h : u.Mapped ino c) :
    ∃ w' : World, w'.proc.ctx = none ∧
      ∀ r b, run (Op.close.run (sys.withBlock b)) (u.withRptr c r) = (.ok (.status 0), w') := by
  let v : World := { u with proc := { u.proc with maps := u.proc.maps.erase ino } }
  refine ⟨(v.close none c.fd).setCtx none, rfl, fun r b ↦ ?_⟩
  have hmunmap : (sys.withBlock b).munmap = none := hs.munmap
  have hclose : (sys.withBlock b).close = none := hs.close
  simp only [Op.run, sharedEventsClose, munmap, run_bind, run_get, (h.withRptr r).ctx, h.events,
    hmunmap, hclose, run_modify, run_pure]
  rw [← h.events]
  show (_, ((v.setCtx (some { c with rptr := r })).close none c.fd).setCtx none) = _
  rw [v.close_setCtx, World.setCtx_setCtx]

theorem open_withRptr (sys : Sys) (u : World) (c : Ctx) (pid r : ℤ) :
    run ((Op.openPid pid).run sys) (u.withRptr c r) = (.ok (.status 0), u.withRptr c r) := by
  rw [Op.run, run_bind, open_of_open (c := { c with rptr := r }) sys pid rfl]
  rfl

end Call

/-! ## All runs at once

With other blocks a run goes through other states, which differ in the read position as long as that
is what a block held. -/

/-- The states the same calls lead to. -/
inductive Family : Rptr → (World → Prop) → Prop
  | closed {w : World} (ctx : w.proc.ctx = none) : Family .closed (· = w)
  | raw {u : World} {ino c} (mapped : u.Mapped ino c) : Family .raw fun w ↦ ∃ r, w = u.withRptr c r
  | rewound {u : World} {ino c} (mapped : u.Mapped ino c) (r : ℤ) :
      Family .rewound (· = u.withRptr c r)

/-- The call returns `res` from all states of `F`, and leads from them to those of `F'`. -/
structure Leads (op : Op) (sys : Sys) (F F' : World → Prop) (res : Result) : Prop where
  into : ∀ w, F w → ∀ b, ∃ w', F' w' ∧ run (op.run (sys.withBlock b)) w = (.ok res, w')
  onto : ∀ w', F' w' → ∃ w b, F w ∧ run (op.run (sys.withBlock b)) w = (.ok res, w')

theorem leads_single {op : Op} {sys : Sys} {w w' : World} {res : Result}
    (hrun : ∀ b, run (op.run (sys.withBlock b)) w = (.ok res, w')) :
    Leads op sys (· = w) (· = w') res where
  into v hv b := ⟨w', rfl, by rw [hv]; exact hrun b⟩
  onto v hv := ⟨w, ⟨0, 0⟩, rfl, by rw [hv]; exact hrun _⟩

/-- The process dies of `f` in all states of `F`. -/
def Dies (op : Op) (sys : Sys) (F : World → Prop) (f : Fault) (k : Kernel) : Prop :=
  ∀ w, F w → ∀ b, ∃ w', w'.kernel = k ∧ run (op.run (sys.withBlock b)) w = (.error f, w')

theorem Family.kernel {g : Rptr} {F : World → Prop} (h : Family g F) :
    ∃ k, ∀ w, F w → w.kernel = k := by
  cases h with
  | closed ctx => exact ⟨_, fun w hw ↦ congrArg World.kernel hw⟩
  | @raw u ino c mapped =>
    refine ⟨u.kernel, fun w hw ↦ ?_⟩
    obtain ⟨r, hr⟩ := hw
    rw [hr]
    rfl
  | rewound mapped r => exact ⟨_, fun w hw ↦ congrArg World.kernel hw⟩

section Step

variable {sys : Sys} {u : World} {ino : Ino} {c : Ctx}

/-- From every read position the operation returns `res` and leads to `F'`, and it reaches all of
`F'`, whatever `malloc` would give. -/
structure LeadsFrom (u : World) (c : Ctx) (op : LogOp) (sys : Sys) (F' : World → Prop)
    (res : Result) : Prop where
  into : ∀ r b, ∃ w', F' w' ∧ run (op.run (sys.withBlock b)) (u.withRptr c r) = (.ok res, w')
  onto : ∀ w', F' w' → ∃ r, ∀ b,
    run (op.run (sys.withBlock b)) (u.withRptr c r) = (.ok res, w')

-- the read position is carried along
theorem leadsFrom_of_kept {op : LogOp} {u' : World} {res : Result}
    (hrun : ∀ r b, run (op.run (sys.withBlock b)) (u.withRptr c r) = (.ok res, u'.withRptr c r)) :
    LeadsFrom u c op sys (fun w ↦ ∃ r, w = u'.withRptr c r) res where
  into r b := ⟨_, ⟨r, rfl⟩, hrun r b⟩
  onto w' hw' := by
    obtain ⟨r, hr⟩ := hw'
    rw [hr]
    exact ⟨r, hrun r⟩

/-- An operation other than a read does the same from all read positions. -/
theorem log_raw (hs : sys.Succeeds) (h : u.Mapped ino c) (op : LogOp) (hop : op ≠ .read) :
    (∃ res F', Family ((Op.log op).rptr .raw) F' ∧ LeadsFrom u c op sys F' res) ∨
      ∃ f, ∀ r b, run (op.run (sys.withBlock b)) (u.withRptr c r) =
        (.error f, u.withRptr c r) := by
  obtain ⟨ts, hts⟩ := op.stamp_ok hs
  have hrun := run_log_withRptr hs h op hts
  cases op with
  | read => exact absurd rfl hop
  | rewind =>
    -- all positions become the one it stores
    have hzero : ∀ r b, run (LogOp.rewind.run (sys.withBlock b)) (u.withRptr c r) =
        (.ok (.status 0), u.withRptr c 0) := by
      intro r b
      rw [hrun, LogOp.onSegment]
      simp only [World.setSeg_self]
    exact .inl ⟨_, _, .rewound h 0,
      ⟨fun r b ↦ ⟨_, rfl, hzero r b⟩, fun w' hw' ↦ ⟨0, hw' ▸ hzero 0⟩⟩⟩
  | clear =>
    have hm : (u.setSeg ino ((u.kernel.seg ino).setCount 0)).Mapped ino c :=
      ⟨h.ctx, h.events, h.live⟩
    exact .inl ⟨_, _, .raw hm, leadsFrom_of_kept hrun⟩
  | add name =>
    by_cases hfull : (u.kernel.seg ino).count = maxEventCount
    · simp only [LogOp.onSegment, if_pos hfull, World.setSeg_self] at hrun
      exact .inl ⟨_, _, .raw h, leadsFrom_of_kept hrun⟩
    · by_cases hlt : (u.kernel.seg ino).count < maxEventCount
      · -- the event is the same whatever the position is
        simp only [LogOp.onSegment, if_neg hfull, dif_pos hlt] at hrun
        have hm : ∀ s, (u.setSeg ino s).Mapped ino c := fun s ↦ ⟨h.ctx, h.events, h.live⟩
        exact .inl ⟨_, _, .raw (hm _), leadsFrom_of_kept hrun⟩
      · simp only [LogOp.onSegment, if_neg hfull, dif_neg hlt] at hrun
        exact .inr ⟨_, hrun⟩

/-- With the position stored, an operation does one thing. -/
theorem log_rewound (hs : sys.Succeeds) (h : u.Mapped ino c) (op : LogOp) (r : ℤ) :
    (∃ res F', Family .rewound F' ∧ Leads (.log op) sys (· = u.withRptr c r) F' res) ∨
      ∃ f, Dies (.log op) sys (· = u.withRptr c r) f u.kernel := by
  obtain ⟨ts, hts⟩ := op.stamp_ok hs
  have hrun := run_log_withRptr hs h op hts r
  rcases hon : op.onSegment ino ts (u.kernel.seg ino) r with f | ⟨res, s, r'⟩
  · rw [hon] at hrun
    exact .inr ⟨f, fun w hw b ↦ ⟨u.withRptr c r, rfl, hw ▸ hrun b⟩⟩
  · rw [hon] at hrun
    have hm : (u.setSeg ino s).Mapped ino c := ⟨h.ctx, h.events, h.live⟩
    exact .inl ⟨res, _, .rewound hm r', leads_single hrun⟩

/-- In the closed state the block decides where the operation starts from. -/
theorem log_closed {w : World} (hs : sys.Succeeds) (hc : w.proc.ctx = none) (op : LogOp) :
    ∃ u ino c, World.Mapped u ino c ∧
      ∀ b, run (op.run (sys.withBlock b)) w =
        run (op.run (sys.withBlock b)) (u.withRptr c b.rptr) := by
  obtain ⟨u, ino, c, hm, hopen⟩ := open_withBlock hs w.proc.pid hc
  refine ⟨u, ino, c, hm, fun b ↦ ?_⟩
  have hp : (Op.log op).opensFor (sys.withBlock b) w = some w.proc.pid := by
    obtain ⟨t, ht⟩ := (hs.withBlock b).clock
    cases op with
    | add name => simp [Op.opensFor, ht]
    | clear => rfl
    | read => rfl
    | rewind => rfl
  rw [run_of_closed op hc hp, hopen]
  rfl

theorem step_closed {w : World} (hs : sys.Succeeds) (hc : w.proc.ctx = none) (op : Op)
    (hread : op ≠ .log .read) :
    (∃ res F', Family (op.rptr .closed) F' ∧ Leads op sys (· = w) F' res) ∨
      ∃ f k, Dies op sys (· = w) f k := by
  cases op with
  | openPid pid =>
    obtain ⟨u, ino, c, hm, hopen⟩ := open_withBlock hs pid hc
    have hrun : ∀ b, run ((Op.openPid pid).run (sys.withBlock b)) w =
        (.ok (.status 0), u.withRptr c b.rptr) := by
      intro b
      rw [Op.run, run_bind, hopen]
      rfl
    refine .inl ⟨_, _, .raw hm, ⟨fun v hv b ↦ ⟨_, ⟨b.rptr, rfl⟩, hv ▸ hrun b⟩, fun w' hw' ↦ ?_⟩⟩
    -- a block with `r` in it leads to the state with the position `r`
    obtain ⟨r, hr⟩ := hw'
    exact ⟨w, ⟨0, r⟩, rfl, hr ▸ hrun ⟨0, r⟩⟩
  | close =>
    have hrun : ∀ b, run (Op.close.run (sys.withBlock b)) w = (.ok (.status 0), w) := by
      intro b
      rw [Op.run, run_bind, close_of_closed _ hc]
      rfl
    exact .inl ⟨_, _, .closed hc, leads_single hrun⟩
  | log op =>
    obtain ⟨u, ino, c, hm, hopen⟩ := log_closed hs hc op
    -- the lazy open leaves what the block held, as an open does
    have hr : (Op.log op).rptr .closed = (Op.log op).rptr .raw := by
      cases op with
      | clear => rfl
      | add name => rfl
      | read => rfl
      | rewind => rfl
    rcases log_raw hs hm op fun h0 ↦ hread (by rw [h0]) with ⟨res, F', hF', hl⟩ | ⟨f, hf⟩
    · refine .inl ⟨res, F', hr ▸ hF', ⟨fun v hv b ↦ ?_, fun w' hw' ↦ ?_⟩⟩
      · obtain ⟨w', hw', hrun⟩ := hl.into b.rptr b
        exact ⟨w', hw', hv ▸ (hopen b).trans hrun⟩
      · obtain ⟨r, hrun⟩ := hl.onto w' hw'
        exact ⟨w, ⟨0, r⟩, rfl, (hopen ⟨0, r⟩).trans (hrun _)⟩
    · refine .inr ⟨f, u.kernel, fun v hv b ↦ ⟨u.withRptr c b.rptr, rfl, ?_⟩⟩
      rw [hv]
      exact (hopen b).trans (hf _ _)

theorem step_raw (hs : sys.Succeeds) (h : u.Mapped ino c) (op : Op) (hread : op ≠ .log .read) :
    (∃ res F', Family (op.rptr .raw) F' ∧
        Leads op sys (fun w ↦ ∃ r, w = u.withRptr c r) F' res) ∨
      ∃ f k, Dies op sys (fun w ↦ ∃ r, w = u.withRptr c r) f k := by
  cases op with
  | openPid pid =>
    have hrun := fun r b ↦ open_withRptr (sys.withBlock b) u c pid r
    refine .inl ⟨.status 0, _, .raw h, ⟨fun v hv b ↦ ⟨v, hv, ?_⟩, fun v hv ↦ ⟨v, ⟨0, 0⟩, hv, ?_⟩⟩⟩
    · obtain ⟨r, rfl⟩ := hv
      exact hrun r b
    · obtain ⟨r, rfl⟩ := hv
      exact hrun r _
  | close =>
    obtain ⟨w', hc, hrun⟩ := close_withRptr hs h
    refine .inl ⟨.status 0, _, .closed hc, ⟨fun v hv b ↦ ⟨w', rfl, ?_⟩, fun v hv ↦ ?_⟩⟩
    · obtain ⟨r, rfl⟩ := hv
      exact hrun r b
    · exact ⟨_, ⟨0, 0⟩, ⟨0, rfl⟩, hv ▸ hrun 0 _⟩
  | log op =>
    rcases log_raw hs h op fun h0 ↦ hread (by rw [h0]) with ⟨res, F', hF', hl⟩ | ⟨f, hf⟩
    · refine .inl ⟨res, F', hF', ⟨fun v hv b ↦ ?_, fun w' hw' ↦ ?_⟩⟩
      · obtain ⟨r, rfl⟩ := hv
        exact hl.into r b
      · obtain ⟨r, hrun⟩ := hl.onto w' hw'
        exact ⟨_, ⟨0, 0⟩, ⟨r, rfl⟩, hrun _⟩
    · refine .inr ⟨f, u.kernel, fun v hv b ↦ ?_⟩
      obtain ⟨r, rfl⟩ := hv
      exact ⟨u.withRptr c r, rfl, hf r b⟩

theorem step_rewound (hs : sys.Succeeds) (h : u.Mapped ino c) (op : Op) (r : ℤ) :
    (∃ res F', Family (op.rptr .rewound) F' ∧ Leads op sys (· = u.withRptr c r) F' res) ∨
      ∃ f k, Dies op sys (· = u.withRptr c r) f k := by
  cases op with
  | openPid pid =>
    exact .inl ⟨_, _, .rewound h r,
      leads_single fun b ↦ open_withRptr (sys.withBlock b) u c pid r⟩
  | close =>
    obtain ⟨w', hc, hrun⟩ := close_withRptr hs h
    exact .inl ⟨_, _, .closed hc, leads_single (hrun r)⟩
  | log op =>
    have hr : (Op.log op).rptr .rewound = .rewound := by
      cases op with
      | clear => rfl
      | add name => rfl
      | read => rfl
      | rewind => rfl
    rw [hr]
    rcases log_rewound hs h op r with hl | ⟨f, hf⟩
    · exact .inl hl
    · exact .inr ⟨f, _, hf⟩

/-- Unless it is a read from a position no rewind has stored, a call leads from the states of one
family to those of another, or from all of them to death. -/
theorem Family.step {g : Rptr} {F : World → Prop} (hs : sys.Succeeds) (h : Family g F) (op : Op)
    (hread : op = .log .read → g = .rewound) :
    (∃ res F', Family (op.rptr g) F' ∧ Leads op sys F F' res) ∨ ∃ f k, Dies op sys F f k := by
  cases h with
  | closed ctx => exact step_closed hs ctx op fun h0 ↦ absurd (hread h0) (by decide)
  | raw mapped => exact step_raw hs mapped op fun h0 ↦ absurd (hread h0) (by decide)
  | rewound mapped r => exact step_rewound hs mapped op r

/-- From the start the read ends, or gives an event, and from some other position it does not do the
same. -/
theorem read_tells_apart (hs : sys.Succeeds) (h : u.Mapped ino c) :
    ∃ r r', ∀ b b', (run (LogOp.read.run (sys.withBlock b)) (u.withRptr c r)).1 ≠
      (run (LogOp.read.run (sys.withBlock b')) (u.withRptr c r')).1 := by
  obtain ⟨ts, hts⟩ := LogOp.read.stamp_ok hs
  have hrun := run_log_withRptr hs h .read hts
  have h0 : toSizeT 0 = 0 := rfl
  have h1 : toSizeT 1 = 1 := rfl
  have h256 : toSizeT 256 = 256 := rfl
  -- an empty log tells position 0 from 1, and any other one tells it from 256
  by_cases hn : (u.kernel.seg ino).count = 0
  · refine ⟨0, 1, fun b b' ↦ ?_⟩
    rw [hrun, hrun]
    simp [LogOp.onSegment, h0, h1, hn]
  · refine ⟨0, 256, fun b b' ↦ ?_⟩
    rw [hrun, hrun]
    by_cases hfull : (u.kernel.seg ino).count = 256
    · simp [LogOp.onSegment, h0, h256, hfull]
    · simp [LogOp.onSegment, h0, h256, Ne.symm hn, Ne.symm hfull]

end Step

/-! ## Runs -/

section Runs

variable {ops : List (Op × Sys)} {op : Op} {sys : Sys} {F F' : World → Prop}

/-- The program sees the same in all runs from states of `F`. -/
def SeesSame (ops : List (Op × Sys)) (F : World → Prop) : Prop :=
  ∀ w₁ w₂, F w₁ → F w₂ → ∀ ops₁ ops₂, Reblocked ops ops₁ → Reblocked ops ops₂ →
    seenRun ops₁ w₁ = seenRun ops₂ w₂

theorem seenRun_ok {w w' : World} {res : Result} (h : run (op.run sys) w = (.ok res, w')) :
    seenRun ((op, sys) :: ops) w =
      (.ok (res, res.eventIn w'.kernel) :: (seenRun ops w').1, (seenRun ops w').2) := by
  rw [seenRun, h]

theorem seenRun_error {w w' : World} {f : Fault} (h : run (op.run sys) w = (.error f, w')) :
    seenRun ((op, sys) :: ops) w = ([.error f], w'.kernel) := by
  rw [seenRun, h]

-- the answer of the first call is seen
theorem answer_eq_of_seenRun {ops' : List (Op × Sys)} {sys' : Sys} {w w' : World}
    (h : seenRun ((op, sys) :: ops) w = seenRun ((op, sys') :: ops') w') :
    (run (op.run sys) w).1 = (run (op.run sys') w').1 := by
  rcases hr : run (op.run sys) w with ⟨f | res, u⟩
  · rcases hr' : run (op.run sys') w' with ⟨f' | res', u'⟩
    · rw [seenRun_error hr, seenRun_error hr'] at h
      simpa using congrArg Prod.fst h
    · rw [seenRun_error hr, seenRun_ok hr'] at h
      simpa using congrArg Prod.fst h
  · rcases hr' : run (op.run sys') w' with ⟨f' | res', u'⟩
    · rw [seenRun_ok hr, seenRun_error hr'] at h
      simpa using congrArg Prod.fst h
    · rw [seenRun_ok hr, seenRun_ok hr'] at h
      have hl := congrArg (fun x ↦ x.1.head?) h
      simp only [List.head?_cons, Option.some.injEq, Except.ok.injEq, Prod.mk.injEq] at hl
      rw [hl.1]

theorem reblocked_cons {ops₁ : List (Op × Sys)} (b : HeapBlock) (h : Reblocked ops ops₁) :
    Reblocked ((op, sys) :: ops) ((op, sys.withBlock b) :: ops₁) :=
  .cons ⟨rfl, b, rfl⟩ h

theorem Reblocked.of_cons {l : List (Op × Sys)} (h : Reblocked ((op, sys) :: ops) l) :
    ∃ b l', l = (op, sys.withBlock b) :: l' ∧ Reblocked ops l' := by
  cases h with
  | @cons _ y _ l' hy htail =>
    obtain ⟨op', sys'⟩ := y
    obtain ⟨hop, b, hsys⟩ := hy
    simp only at hop hsys
    exact ⟨b, l', by rw [hop, hsys], htail⟩

theorem reblocked_self (hs : ∀ x ∈ ops, x.2.Succeeds) : Reblocked ops ops := by
  induction ops with
  | nil => exact .nil
  | cons x ops ih =>
    obtain ⟨b, hb⟩ := (hs x List.mem_cons_self).malloc
    refine .cons ⟨rfl, b, ?_⟩ (ih fun y hy ↦ hs y (List.mem_cons_of_mem _ hy))
    rw [Sys.withBlock, ← hb]

/-- A call that leads from `F` to `F'` is seen as one answer, so the rest of the run decides. -/
theorem seesSame_cons (hF : ∃ k, ∀ w, F' w → w.kernel = k) {res : Result}
    (h : Leads op sys F F' res) : SeesSame ((op, sys) :: ops) F ↔ SeesSame ops F' := by
  obtain ⟨k, hk⟩ := hF
  constructor
  · intro hsame w₁ w₂ h₁ h₂ ops₁ ops₂ hops₁ hops₂
    obtain ⟨v₁, b₁, hv₁, hr₁⟩ := h.onto w₁ h₁
    obtain ⟨v₂, b₂, hv₂, hr₂⟩ := h.onto w₂ h₂
    have heq := hsame v₁ v₂ hv₁ hv₂ _ _ (reblocked_cons b₁ hops₁) (reblocked_cons b₂ hops₂)
    rw [seenRun_ok hr₁, seenRun_ok hr₂] at heq
    simp only [Prod.mk.injEq, List.cons.injEq] at heq
    exact Prod.ext heq.1.2 heq.2
  · intro hsame v₁ v₂ hv₁ hv₂ ops₁ ops₂ hops₁ hops₂
    obtain ⟨b₁, l₁, rfl, hl₁⟩ := hops₁.of_cons
    obtain ⟨b₂, l₂, rfl, hl₂⟩ := hops₂.of_cons
    obtain ⟨w₁, h₁, hr₁⟩ := h.into v₁ hv₁ b₁
    obtain ⟨w₂, h₂, hr₂⟩ := h.into v₂ hv₂ b₂
    rw [seenRun_ok hr₁, seenRun_ok hr₂, hk w₁ h₁, hk w₂ h₂, hsame w₁ w₂ h₁ h₂ l₁ l₂ hl₁ hl₂]

theorem seesSame_of_dies {f : Fault} {k : Kernel} (h : Dies op sys F f k) :
    SeesSame ((op, sys) :: ops) F := by
  intro v₁ v₂ hv₁ hv₂ ops₁ ops₂ hops₁ hops₂
  obtain ⟨b₁, l₁, rfl, -⟩ := hops₁.of_cons
  obtain ⟨b₂, l₂, rfl, -⟩ := hops₂.of_cons
  obtain ⟨w₁, h₁, hr₁⟩ := h v₁ hv₁ b₁
  obtain ⟨w₂, h₂, hr₂⟩ := h v₂ hv₂ b₂
  rw [seenRun_error hr₁, seenRun_error hr₂, h₁, h₂]

/-- A read from a position the block decided is seen. -/
theorem not_seesSame_of_read {g : Rptr} (hs : ∀ x ∈ (Op.log .read, sys) :: ops, x.2.Succeeds)
    (hF : Family g F) (hg : g ≠ .rewound) : ¬SeesSame ((.log .read, sys) :: ops) F := by
  have hsys : sys.Succeeds := hs _ List.mem_cons_self
  have hself := reblocked_self fun x hx ↦ hs x (List.mem_cons_of_mem _ hx)
  intro hsame
  cases hF with
  | rewound => exact hg rfl
  | @raw u ino c mapped =>
    obtain ⟨r, r', hne⟩ := read_tells_apart hsys mapped
    have heq := hsame _ _ ⟨r, rfl⟩ ⟨r', rfl⟩ _ _ (reblocked_cons ⟨0, 0⟩ hself)
      (reblocked_cons ⟨0, 0⟩ hself)
    exact hne _ _ (answer_eq_of_seenRun heq)
  | @closed w ctx =>
    -- the two positions come from two blocks, given to the lazy open
    obtain ⟨u, ino, c, hm, hopen⟩ := log_closed hsys ctx .read
    obtain ⟨r, r', hne⟩ := read_tells_apart hsys hm
    have heq := hsame w w rfl rfl _ _ (reblocked_cons ⟨0, r⟩ hself) (reblocked_cons ⟨0, r'⟩ hself)
    have hans := answer_eq_of_seenRun heq
    rw [Op.run, Op.run, hopen, hopen] at hans
    exact hne _ _ hans

theorem seesSame_iff {g : Rptr} {w : World} (hs : ∀ x ∈ ops, x.2.Succeeds) (hF : Family g F)
    (hw : F w) : SeesSame ops F ↔ ReadsRewound ops w g := by
  induction ops generalizing g F w with
  | nil =>
    refine ⟨fun _ ↦ trivial, fun _ w₁ w₂ h₁ h₂ ops₁ ops₂ hops₁ hops₂ ↦ ?_⟩
    obtain ⟨k, hk⟩ := hF.kernel
    cases hops₁
    cases hops₂
    rw [seenRun, seenRun, hk w₁ h₁, hk w₂ h₂]
  | cons x ops ih =>
    obtain ⟨op, sys⟩ := x
    have hsys : sys.Succeeds := hs _ List.mem_cons_self
    obtain ⟨b, hb⟩ := hsys.malloc
    have hself : sys.withBlock b = sys := by rw [Sys.withBlock, ← hb]
    by_cases hread : op = .log .read → g = .rewound
    · -- the call has one outcome for all blocks, and the rest of the run decides
      rcases hF.step hsys op hread with ⟨res, F', hF', hl⟩ | ⟨f, k, hd⟩
      · obtain ⟨w', hw', hr⟩ := hl.into w hw b
        rw [hself] at hr
        rw [seesSame_cons hF'.kernel hl, ih (fun y hy ↦ hs y (List.mem_cons_of_mem _ hy)) hF' hw',
          ReadsRewound, hr]
        constructor
        · intro htail
          refine ⟨hread, fun res' u h ↦ ?_⟩
          cases h
          exact htail
        · intro h
          exact h.2 res w' rfl
      · obtain ⟨w', -, hr⟩ := hd w hw b
        rw [hself] at hr
        refine ⟨fun _ ↦ ⟨hread, fun res' u h ↦ ?_⟩, fun _ ↦ seesSame_of_dies hd⟩
        rw [hr] at h
        cases h
    · -- here the program sees what the block held
      obtain ⟨hop, hg⟩ := Classical.not_imp.mp hread
      subst hop
      exact ⟨fun hsame ↦ absurd hsame (not_seesSame_of_read hs hF hg), fun h ↦ absurd h.1 hread⟩

end Runs

/-- From the closed state, what a program sees and leaves does not depend on the heap exactly if
every read it reaches comes after a rewind since the module was last opened. -/
theorem heapIndependent_iff {ops : List (Op × Sys)} {w : World} (hs : ∀ x ∈ ops, x.2.Succeeds)
    (hc : w.proc.ctx = none) : HeapIndependent ops w ↔ ReadsRewound ops w .closed := by
  rw [← seesSame_iff hs (.closed hc) rfl]
  constructor
  · intro h w₁ w₂ h₁ h₂
    rw [h₁, h₂]
    exact h
  · intro h
    exact h w w rfl rfl

/-- One event added and read back. -/
def addThenRead (block : HeapBlock) : List (Op × Sys) :=
  [(.openPid 1, (Sys.succeeding ⟨0, 0⟩).withBlock block), (.log (.add .exec), .succeeding ⟨1, 0⟩),
    (.log .read, .succeeding ⟨2, 0⟩)]

-- with a zero in the block the event is read, with a one nothing is
theorem addThenRead_not_heapIndependent :
    (seenRun (addThenRead ⟨0, 0⟩) ⟨.empty, .start 1⟩).1.map (·.map (·.1)) =
        [.ok (.status 0), .ok (.status 0), .ok (.event (.event 0 0))] ∧
      (seenRun (addThenRead ⟨0, 1⟩) ⟨.empty, .start 1⟩).1.map (·.map (·.1)) =
        [.ok (.status 0), .ok (.status 0), .ok (.event .null)] ∧
      ¬HeapIndependent (addThenRead ⟨0, 0⟩) ⟨.empty, .start 1⟩ := by
  refine ⟨rfl, rfl, ?_⟩
  intro h
  have h₁ : Reblocked (addThenRead ⟨0, 0⟩) (addThenRead ⟨0, 1⟩) :=
    .cons ⟨rfl, ⟨0, 1⟩, rfl⟩ (.cons ⟨rfl, ⟨0, 0⟩, rfl⟩ (.cons ⟨rfl, ⟨0, 0⟩, rfl⟩ .nil))
  have h₀ : Reblocked (addThenRead ⟨0, 0⟩) (addThenRead ⟨0, 0⟩) :=
    .cons ⟨rfl, ⟨0, 0⟩, rfl⟩ (.cons ⟨rfl, ⟨0, 0⟩, rfl⟩ (.cons ⟨rfl, ⟨0, 0⟩, rfl⟩ .nil))
  have heq := congrArg (fun x ↦ x.1.map (·.map (·.1))) (h _ _ h₀ h₁)
  have hseen : [.ok (.status 0), .ok (.status 0), .ok (.event (.event 0 0))] =
      ([.ok (.status 0), .ok (.status 0), .ok (.event .null)] : List (Except Fault Result)) := heq
  simp at hseen

theorem heapIndependent_iff_rewound :
    HeapIndependent [(.log .rewind, .succeeding ⟨0, 0⟩), (.log .read, .succeeding ⟨1, 0⟩)]
        ⟨.empty, .start 1⟩ ↔
      ReadsRewound [(.log .rewind, .succeeding ⟨0, 0⟩), (.log .read, .succeeding ⟨1, 0⟩)]
        ⟨.empty, .start 1⟩ .closed := by
  refine @heapIndependent_iff _ ⟨.empty, .start 1⟩ ?_ rfl
  intro x hx
  simp only [List.mem_cons, List.not_mem_nil, or_false] at hx
  rcases hx with rfl | rfl <;> exact Sys.succeeds_succeeding _

end UstBench
