import UstBench.SharedEvents.System

/-!
# The functions of `shared_events.c`

Each function as the source has it, compiled with `NDEBUG`, so that the assertions are not there.
The context is one global pointer; `fd`, `events` and `rptr` keep what the heap block held until
they are assigned.
-/

namespace UstBench

open Reasoning

/-- A C string literal of the program. -/
def CString.exec : CString := ⟨[101, 120, 101, 99], by decide⟩

def CString.start : CString := ⟨[115, 116, 97, 114, 116], by decide⟩

def modifyCtx (f : Ctx → Ctx) : Call Unit :=
  Prog.modify fun w ↦ w.setCtx (w.proc.ctx.map f)

def sharedEventsClose (sys : Sys) : Call Unit := do
  match (← Prog.get).proc.ctx with
  | none => return
  | some c =>
    -- a failure of either call is only printed
    munmap sys c.events
    Prog.modify fun w ↦ w.close sys.close c.fd
    Prog.modify fun w ↦ w.setCtx none

/-- The name is written into `ctx->name`; the buffer handed to `shm_unlink` is another one. -/
def sharedEventsDelete (sys : Sys) (pid : ℤ) : Call Unit := do
  match (← Prog.get).proc.ctx with
  | none => Prog.throw .nullCtx
  | some _ =>
    modifyCtx fun c ↦ { c with name := shmName maxShmNameLen pid }
    Prog.modify fun w ↦ w.shmUnlink sys.shmUnlink sys.stackName

/-- The clean-up of `shared_events_open` after a failed `ftruncate` or `mmap`. -/
def openCleanup (sys : Sys) (pid : ℤ) (shmCreated : Bool) : Call ℤ := do
  sharedEventsClose sys
  if shmCreated then
    sharedEventsDelete sys pid
    return -1
  else
    return -1

/-- The part of `shared_events_open` behind the two calls of `shm_open`. -/
def openMap (sys : Sys) (pid : ℤ) (shmCreated : Bool) (fd : ℤ) : Call ℤ := do
  if fd = -1 then
    return -1
  else
    let ret ← Prog.state fun w ↦ w.ftruncate sys.ftruncate
    if ret = -1 then
      openCleanup sys pid shmCreated
    else
      let events ← Prog.state fun w ↦ w.mmap sys.mmap fd
      modifyCtx fun c ↦ { c with events := events }
      if events = .failed then
        openCleanup sys pid shmCreated
      else
        return 0

def sharedEventsOpen (sys : Sys) (pid : ℤ) : Call ℤ := do
  match (← Prog.get).proc.ctx with
  | some _ => return 0
  | none =>
    match sys.malloc with
    | none =>
      Prog.modify fun w ↦ w.setErrno (.other 12)
      return -1
    | some block =>
      let name := shmName maxShmNameLen pid
      Prog.modify fun w ↦ w.setCtx (some ⟨name, block.fd, .unset, block.rptr⟩)
      let fd ← Prog.state fun w ↦ w.shmOpen sys.shmOpen name false
      modifyCtx fun c ↦ { c with fd := fd }
      -- `errno` is read whether or not the call above failed
      if (← Prog.get).proc.errno = .enoent then
        let fd ← Prog.state fun w ↦ w.shmOpen sys.shmOpenCreat name true
        modifyCtx fun c ↦ { c with fd := fd }
        openMap sys pid true fd
      else
        openMap sys pid false fd

/-- `!ctx && shared_events_open(getpid()) == -1` -/
def openFailed (sys : Sys) : Call Bool := do
  let w ← Prog.get
  match w.proc.ctx with
  | some _ => return false
  | none =>
    let ret ← sharedEventsOpen sys w.proc.pid
    return ret = -1

def sharedEventsClear (sys : Sys) : Call ℤ := do
  if ← openFailed sys then
    return -1
  else
    let ino ← derefEvents
    Prog.modify fun w ↦ w.setSeg ino ((w.kernel.seg ino).setCount 0)
    return 0

/-- The time stamp of the event in slot `k`: for `"start"` a second reading of the clock, for all
others the first one. -/
def stampEvent (sys : Sys) (name : CString) (tmpts : Timespec) (ino : Ino)
    (k : Fin maxEventCount) : Call ℤ := do
  if name = .start then
    match sys.clockLate with
    | .error e =>
      Prog.modify fun w ↦ w.setErrno (.other e)
      return -1
    | .ok ts =>
      Prog.modify fun w ↦ w.setSeg ino ((w.kernel.seg ino).setTs k ts)
      return 0
  else
    Prog.modify fun w ↦ w.setSeg ino ((w.kernel.seg ino).setTs k tmpts)
    return 0

def sharedEventsAdd (sys : Sys) (name : CString) : Call ℤ := do
  match sys.clock with
  | .error e =>
    Prog.modify fun w ↦ w.setErrno (.other e)
    return -1
  | .ok tmpts =>
    if ← openFailed sys then
      return -1
    else
      let ino ← derefEvents
      let seg := (← Prog.get).kernel.seg ino
      if seg.count = maxEventCount then
        return -1
      else if h : seg.count < maxEventCount then
        -- the event is counted before it has its time stamp
        Prog.modify fun w ↦ w.setSeg ino ((w.kernel.seg ino).setName ⟨seg.count, h⟩ (strncpy name))
        Prog.modify fun w ↦ w.setSeg ino ((w.kernel.seg ino).setCount (seg.count + 1))
        stampEvent sys name tmpts ino ⟨seg.count, h⟩
      else
        -- the count is tested for equality only
        Prog.throw .outOfBounds

/-- The pointer `shared_events_read` returns. -/
inductive EventPtr where
  | null
  | minusOne
  | event (ino : Ino) (k : Fin maxEventCount)
deriving DecidableEq

/-- The conversion of an `int` to `size_t`. -/
def toSizeT (x : ℤ) : ℕ := (x % 2 ^ 64).toNat

/-- A read at `rptr` with nothing there yet or any more is caught only when `rptr` is exactly the
count.  An element behind the end of the array does not exist. -/
def sharedEventsRead (sys : Sys) : Call EventPtr := do
  if ← openFailed sys then
    return .minusOne
  else
    let ino ← derefEvents
    let w ← Prog.get
    match w.proc.ctx with
    | none => Prog.throw .nullCtx
    | some c =>
      if toSizeT c.rptr = (w.kernel.seg ino).count then
        return .null
      else if h : 0 ≤ c.rptr ∧ c.rptr.toNat < maxEventCount then
        modifyCtx fun c ↦ { c with rptr := c.rptr + 1 }
        return .event ino ⟨c.rptr.toNat, h.2⟩
      else
        Prog.throw .outOfBounds

def sharedEventsRewind (sys : Sys) : Call ℤ := do
  if ← openFailed sys then
    return -1
  else
    modifyCtx fun c ↦ { c with rptr := 0 }
    return 0

end UstBench
