import UstBench.Reasoning.Traced
import UstBench.SharedEvents.Effects

/-!
# What the module does on the way

`shared_events_open` and `shared_events_add` once more, with a record of the readings of the clock,
the opens, the calls of `shm_open` and the stores into the segment.  Without the record they are the
functions of `SharedEvents.Module`.
-/

namespace UstBench

open Reasoning Reasoning.Prog

inductive Act where
  /-- `clock_gettime`, and what it gave -/
  | clock (reading : Except ℕ Timespec)
  /-- a call of `shared_events_open` -/
  | opening (pid : ℤ)
  /-- `shm_open`, with or without `O_CREAT`, and whether the segment was there before it -/
  | shmOpen (name : ShmName) (creat existed : Bool)
  | setName (k : Fin maxEventCount)
  | setCount (n : ℕ)
  | setTs (k : Fin maxEventCount) (ts : Timespec)
deriving DecidableEq

abbrev TracedCall (α : Type) := Traced World Act Fault α

namespace TracedCall

open Traced

def shmOpen (fail : Option ℕ) (name : ShmName) (creat : Bool) : TracedCall ℤ :=
  action (fun w ↦ .shmOpen name creat (w.kernel.shm name).isSome)
    (Prog.state fun w ↦ w.shmOpen fail name creat)

def sharedEventsOpen (sys : Sys) (pid : ℤ) : TracedCall ℤ := do
  match (← action (fun _ ↦ .opening pid) Prog.get).proc.ctx with
  | some _ => return 0
  | none =>
    match sys.malloc with
    | none =>
      quiet (Prog.modify fun w ↦ w.setErrno (.other 12))
      return -1
    | some block =>
      let name := shmName maxShmNameLen pid
      quiet (Prog.modify fun w ↦ w.setCtx (some ⟨name, block.fd, .unset, block.rptr⟩))
      let fd ← shmOpen sys.shmOpen name false
      quiet (modifyCtx fun c ↦ { c with fd := fd })
      if (← quiet Prog.get).proc.errno = .enoent then
        let fd ← shmOpen sys.shmOpenCreat name true
        quiet (modifyCtx fun c ↦ { c with fd := fd })
        quiet (openMap sys pid true fd)
      else
        quiet (openMap sys pid false fd)

def openFailed (sys : Sys) : TracedCall Bool := do
  let w ← quiet Prog.get
  match w.proc.ctx with
  | some _ => return false
  | none =>
    let ret ← sharedEventsOpen sys w.proc.pid
    return ret = -1

/-- A store into the segment `ino`. -/
def store (act : Act) (ino : Ino) (f : SharedEvents → SharedEvents) : TracedCall Unit :=
  action (fun _ ↦ act) (Prog.modify fun w ↦ w.setSeg ino (f (w.kernel.seg ino)))

/-- A reading of the clock, with what follows when it works. -/
def clock (reading : Except ℕ Timespec) (next : Timespec → TracedCall ℤ) : TracedCall ℤ :=
  match reading with
  | .error e => do
    action (fun _ ↦ .clock (.error e)) (Prog.modify fun w ↦ w.setErrno (.other e))
    return -1
  | .ok ts => do
    let ts ← action (fun _ ↦ .clock (.ok ts)) (pure ts)
    next ts

def stampEvent (sys : Sys) (name : CString) (tmpts : Timespec) (ino : Ino)
    (k : Fin maxEventCount) : TracedCall ℤ :=
  if name = .start then
    clock sys.clockLate fun ts ↦ do
      store (.setTs k ts) ino fun s ↦ s.setTs k ts
      return 0
  else do
    store (.setTs k tmpts) ino fun s ↦ s.setTs k tmpts
    return 0

def sharedEventsAdd (sys : Sys) (name : CString) : TracedCall ℤ :=
  clock sys.clock fun tmpts ↦ do
    if ← openFailed sys then
      return -1
    else
      let ino ← quiet derefEvents
      let seg := (← quiet Prog.get).kernel.seg ino
      if seg.count = maxEventCount then
        return -1
      else if h : seg.count < maxEventCount then
        store (.setName ⟨seg.count, h⟩) ino fun s ↦ s.setName ⟨seg.count, h⟩ (strncpy name)
        store (.setCount (seg.count + 1)) ino fun s ↦ s.setCount (seg.count + 1)
        stampEvent sys name tmpts ino ⟨seg.count, h⟩
      else
        quiet (Prog.throw .outOfBounds)

/-! ## Without the record -/

theorem erase_sharedEventsOpen (sys : Sys) (pid : ℤ) :
    erase (sharedEventsOpen sys pid) = UstBench.sharedEventsOpen sys pid := by
  unfold sharedEventsOpen UstBench.sharedEventsOpen
  rw [erase_bind]
  congr 1
  funext w
  cases w.proc.ctx with
  | some c => rfl
  | none =>
    cases sys.malloc with
    | none => rw [erase_bind]; rfl
    | some block => simp only [shmOpen, erase_bind, erase_quiet, erase_action, erase_ite]

theorem erase_openFailed (sys : Sys) : erase (openFailed sys) = UstBench.openFailed sys := by
  unfold openFailed UstBench.openFailed
  rw [erase_bind]
  congr 1
  funext w
  cases w.proc.ctx with
  | some c => rfl
  | none => rw [erase_bind, erase_sharedEventsOpen]; rfl

theorem erase_stampEvent (sys : Sys) (name : CString) (tmpts : Timespec) (ino : Ino)
    (k : Fin maxEventCount) :
    erase (stampEvent sys name tmpts ino k) = UstBench.stampEvent sys name tmpts ino k := by
  unfold stampEvent UstBench.stampEvent clock store
  by_cases hn : name = .start
  · rw [if_pos hn, if_pos hn]
    cases sys.clockLate with
    | error e => rw [erase_bind]; rfl
    | ok ts => simp only [erase_bind, erase_action, erase_pure]; rfl
  · rw [if_neg hn, if_neg hn, erase_bind]
    rfl

theorem erase_sharedEventsAdd (sys : Sys) (name : CString) :
    erase (sharedEventsAdd sys name) = UstBench.sharedEventsAdd sys name := by
  unfold sharedEventsAdd UstBench.sharedEventsAdd clock
  cases sys.clock with
  | error e => rw [erase_bind]; rfl
  | ok t =>
    have hfirst : ∀ f : Timespec → Call ℤ, (pure t : Call Timespec) >>= f = f t := fun _ ↦ rfl
    simp only [erase_bind, erase_action, hfirst, erase_openFailed, erase_ite, erase_dite,
      erase_pure, erase_quiet, store, erase_stampEvent]

/-! ## The record of `shared_events_add` -/

section Record

variable {sys : Sys} {name : CString} {tmpts ts : Timespec} {w w₁ : World} {ino : Ino} {c : Ctx}

theorem acts_clock_ok (next : Timespec → TracedCall ℤ) (u : World) :
    acts (clock (.ok ts) next) u = .clock (.ok ts) :: acts (next ts) u :=
  acts_bind_ok _ rfl

theorem acts_store (act : Act) (f : SharedEvents → SharedEvents) (next : TracedCall ℤ)
    (u : World) :
    acts (store act ino f >>= fun _ ↦ next) u =
      act :: acts next (u.setSeg ino (f (u.kernel.seg ino))) :=
  acts_bind_ok _ rfl

/-- The stored reading is the last one before its store for `"start"`, and the first of the call for
every other name. -/
theorem acts_stampEvent (k : Fin maxEventCount) (ht : sys.clock = .ok tmpts)
    (hts : sys.stamp name = .ok ts) (u : World) :
    acts (stampEvent sys name tmpts ino k) u =
      if name = .start then [.clock (.ok ts), .setTs k ts] else [.setTs k ts] := by
  unfold Sys.stamp at hts
  unfold stampEvent
  by_cases hn : name = .start
  · rw [if_pos hn] at hts
    rw [if_pos hn, if_pos hn, hts, acts_clock_ok, acts_store, acts_pure]
  · rw [if_neg hn, ht] at hts
    cases hts
    rw [if_neg hn, if_neg hn, acts_store, acts_pure]

/-- A call that finds a slot reads the clock, opens the segment if that is still to do, and fills
the slot. -/
theorem acts_sharedEventsAdd (ht : sys.clock = .ok tmpts) (hts : sys.stamp name = .ok ts)
    (hopen : run (UstBench.openFailed sys) w = (.ok false, w₁)) (h : w₁.Mapped ino c)
    (hlt : (w₁.kernel.seg ino).count < maxEventCount) :
    acts (sharedEventsAdd sys name) w =
      .clock (.ok tmpts) :: (acts (openFailed sys) w ++
        .setName ⟨_, hlt⟩ :: .setCount ((w₁.kernel.seg ino).count + 1) ::
          if name = .start then [.clock (.ok ts), .setTs ⟨_, hlt⟩ ts]
          else [.setTs ⟨_, hlt⟩ ts]) := by
  have hop : run (erase (openFailed sys)) w = (.ok false, w₁) := by
    rw [erase_openFailed, hopen]
  have hderef : run (erase (quiet derefEvents : TracedCall Ino)) w₁ = (.ok ino, w₁) :=
    derefEvents_of_mapped h
  have hget : run (erase (quiet Prog.get : TracedCall World)) w₁ = (.ok w₁, w₁) := rfl
  unfold sharedEventsAdd
  rw [ht, acts_clock_ok, acts_bind_ok _ hop]
  rw [if_neg Bool.false_ne_true, acts_bind_ok _ hderef, acts_quiet, acts_bind_ok _ hget, acts_quiet]
  rw [if_neg (Nat.ne_of_lt hlt), dif_pos hlt, acts_store, acts_store, acts_stampEvent _ ht hts]
  rfl

end Record

end TracedCall

end UstBench
