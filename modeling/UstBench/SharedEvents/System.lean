import UstBench.Reasoning.Prog
import UstBench.SharedEvents.Layout
import Mathlib.Data.Finset.Lattice.Fold

/-!
# Processes and the shared-memory file system

The part of the system the event module runs on: the directory of POSIX shared-memory objects, the
descriptors and mappings of one process, `errno`, the heap block that becomes the module's context,
and the calls that change them.  Whether a call succeeds is the system's choice (`Sys`), except where
the state decides it.
-/

namespace UstBench

open Reasoning

/-- The identity of a shared-memory object.  Names may come and go while it is mapped. -/
abbrev Ino := ℕ

/-- The shared-memory objects.  Two names never lead to one object. -/
structure Kernel where
  shm : ShmName → Option Ino
  seg : Ino → SharedEvents
  nextIno : Ino
  shm_lt : ∀ {n i}, shm n = some i → i < nextIno
  shm_inj : ∀ {n m i}, shm n = some i → shm m = some i → n = m

namespace Kernel

/-- A new, empty object under a name that had none. -/
def create (k : Kernel) (n : ShmName) : Kernel where
  shm := Function.update k.shm n (some k.nextIno)
  seg := Function.update k.seg k.nextIno .zeroed
  nextIno := k.nextIno + 1
  shm_lt := by
    intro m i h
    rw [Function.update_apply] at h
    split at h
    · cases h
      exact Nat.lt_succ_self _
    · exact Nat.lt_succ_of_lt (k.shm_lt h)
  shm_inj := by
    intro m m' i h h'
    rw [Function.update_apply] at h h'
    split at h <;> split at h'
    · rename_i hm hm'
      rw [hm, hm']
    · cases h
      exact absurd (k.shm_lt h') (Nat.lt_irrefl _)
    · cases h'
      exact absurd (k.shm_lt h) (Nat.lt_irrefl _)
    · exact k.shm_inj h h'

def unlink (k : Kernel) (n : ShmName) : Kernel where
  shm := Function.update k.shm n none
  seg := k.seg
  nextIno := k.nextIno
  shm_lt := by
    intro m i h
    rw [Function.update_apply] at h
    split at h
    · cases h
    · exact k.shm_lt h
  shm_inj := by
    intro m m' i h h'
    rw [Function.update_apply] at h h'
    split at h <;> split at h'
    · cases h
    · cases h
    · cases h'
    · exact k.shm_inj h h'

def setSeg (k : Kernel) (ino : Ino) (s : SharedEvents) : Kernel :=
  { k with seg := Function.update k.seg ino s }

end Kernel

/-- A system without any shared-memory object. -/
def Kernel.empty : Kernel :=
  ⟨fun _ ↦ none, fun _ ↦ .zeroed, 0, by simp, by simp⟩

inductive Errno where
  | zero
  | enoent
  | other (code : ℕ)
deriving DecidableEq, Repr

/-- The pointer `ctx->events`: never written, `MAP_FAILED`, or the address of a mapping. -/
inductive EventsPtr where
  | unset
  | failed
  | mapped (ino : Ino)
deriving DecidableEq, Repr

/-- `struct shared_events_ctx`. -/
structure Ctx where
  name : ShmName
  fd : ℤ
  events : EventsPtr
  rptr : ℤ
deriving DecidableEq

/-- One `printf` call of the program: a constant text, or the line of one event. -/
inductive Printf where
  | text (s : List Char)
  | entry (sep : Char) (name : List UInt8) (ts : Timespec)
deriving DecidableEq

structure Proc where
  pid : ℤ
  errno : Errno
  fds : List (ℤ × Ino)
  maps : List Ino
  ctx : Option Ctx
  stdout : List Printf

/-- A process image just started: the module is closed. -/
def Proc.start (pid : ℤ) : Proc := ⟨pid, .zero, [], [], none, []⟩

structure World where
  kernel : Kernel
  proc : Proc

/-- What the process dies of. -/
inductive Fault where
  | nullCtx
  | unsetEvents
  | unmappedEvents
  | outOfBounds
  | outOfFuel
deriving DecidableEq, Repr

/-- The bytes of a heap block as the members of the context read them before they are written. -/
structure HeapBlock where
  fd : ℤ
  rptr : ℤ

/-- The answers of the system during one call of the module.  A call that fails has an error number;
`clockLate` is a second reading of the clock, and `stackName` what an unwritten local buffer holds. -/
structure Sys where
  malloc : Option HeapBlock
  shmOpen : Option ℕ
  shmOpenCreat : Option ℕ
  ftruncate : Option ℕ
  mmap : Option ℕ
  munmap : Option ℕ
  close : Option ℕ
  shmUnlink : Option ℕ
  clock : Except ℕ Timespec
  clockLate : Except ℕ Timespec
  stackName : ShmName

/-- Every system call succeeds. -/
structure Sys.Succeeds (sys : Sys) : Prop where
  malloc : ∃ block, sys.malloc = some block
  shmOpen : sys.shmOpen = none
  shmOpenCreat : sys.shmOpenCreat = none
  ftruncate : sys.ftruncate = none
  mmap : sys.mmap = none
  munmap : sys.munmap = none
  close : sys.close = none
  shmUnlink : sys.shmUnlink = none
  clock : ∃ ts, sys.clock = .ok ts
  clockLate : ∃ ts, sys.clockLate = .ok ts

/-- A system in which every call succeeds and the clock stands at `ts`. -/
def Sys.succeeding (ts : Timespec) : Sys where
  malloc := some ⟨0, 0⟩
  shmOpen := none
  shmOpenCreat := none
  ftruncate := none
  mmap := none
  munmap := none
  close := none
  shmUnlink := none
  clock := .ok ts
  clockLate := .ok ts
  stackName := []

theorem Sys.succeeds_succeeding (ts : Timespec) : (Sys.succeeding ts).Succeeds :=
  ⟨⟨_, rfl⟩, rfl, rfl, rfl, rfl, rfl, rfl, rfl, ⟨_, rfl⟩, ⟨_, rfl⟩⟩

abbrev Call (α : Type) := Prog World Fault α

namespace World

def setErrno (w : World) (e : Errno) : World := { w with proc := { w.proc with errno := e } }

def setCtx (w : World) (c : Option Ctx) : World := { w with proc := { w.proc with ctx := c } }

def setSeg (w : World) (ino : Ino) (s : SharedEvents) : World :=
  { w with kernel := w.kernel.setSeg ino s }

/-- A number no open descriptor has. -/
def freshFd (w : World) : ℤ := (w.proc.fds.map fun d ↦ d.1.natAbs).foldr max 2 + 1

def newFd (w : World) (ino : Ino) : ℤ × World :=
  (w.freshFd, { w with proc := { w.proc with fds := (w.freshFd, ino) :: w.proc.fds } })

/-- `shm_open(name, O_RDWR)`, with `O_CREAT` when `creat`. -/
def shmOpen (w : World) (fail : Option ℕ) (name : ShmName) (creat : Bool) : ℤ × World :=
  match fail with
  | some e => (-1, w.setErrno (.other e))
  | none =>
    match w.kernel.shm name with
    | some ino => w.newFd ino
    | none =>
      if creat then
        newFd { w with kernel := w.kernel.create name } w.kernel.nextIno
      else
        (-1, w.setErrno .enoent)

/-- Objects have size zero or the size of a segment, so growing one keeps what it holds. -/
def ftruncate (w : World) (fail : Option ℕ) : ℤ × World :=
  match fail with
  | some e => (-1, w.setErrno (.other e))
  | none => (0, w)

def mmap (w : World) (fail : Option ℕ) (fd : ℤ) : EventsPtr × World :=
  match fail with
  | some e => (.failed, w.setErrno (.other e))
  | none =>
    match w.proc.fds.lookup fd with
    | some ino => (.mapped ino, { w with proc := { w.proc with maps := ino :: w.proc.maps } })
    | none => (.failed, w.setErrno (.other 9))

/-- The descriptor is gone whether or not `close` reports an error.  A number that is no descriptor is
refused. -/
def close (w : World) (fail : Option ℕ) (fd : ℤ) : World :=
  let w' := { w with proc := { w.proc with fds := w.proc.fds.filter (·.1 ≠ fd) } }
  match fail with
  | some e => w'.setErrno (.other e)
  | none => if (w.proc.fds.lookup fd).isSome then w' else w'.setErrno (.other 9)

def shmUnlink (w : World) (fail : Option ℕ) (name : ShmName) : World :=
  match fail with
  | some e => w.setErrno (.other e)
  | none =>
    match w.kernel.shm name with
    | some _ => { w with kernel := w.kernel.unlink name }
    | none => w.setErrno .enoent

end World

/-! ## What the calls change -/

namespace World

/-- What `close` leaves, but for `errno`. -/
structure Closed (w w' : World) (fd : ℤ) : Prop where
  kernel : w'.kernel = w.kernel
  ctx : w'.proc.ctx = w.proc.ctx
  fds : w'.proc.fds = w.proc.fds.filter (·.1 ≠ fd)
  maps : w'.proc.maps = w.proc.maps
  pid : w'.proc.pid = w.proc.pid
  stdout : w'.proc.stdout = w.proc.stdout

theorem close_fields (w : World) (fail : Option ℕ) (fd : ℤ) : w.Closed (w.close fail fd) fd := by
  unfold close
  cases fail with
  | some e => exact ⟨rfl, rfl, rfl, rfl, rfl, rfl⟩
  | none =>
    dsimp only
    split
    · exact ⟨rfl, rfl, rfl, rfl, rfl, rfl⟩
    · exact ⟨rfl, rfl, rfl, rfl, rfl, rfl⟩

section Fields

variable (w : World) (e : Errno) (c : Option Ctx) (ino : Ino) (s : SharedEvents)

@[simp] theorem setErrno_kernel : (w.setErrno e).kernel = w.kernel := rfl
@[simp] theorem setErrno_ctx : (w.setErrno e).proc.ctx = w.proc.ctx := rfl
@[simp] theorem setErrno_errno : (w.setErrno e).proc.errno = e := rfl
@[simp] theorem setErrno_fds : (w.setErrno e).proc.fds = w.proc.fds := rfl
@[simp] theorem setErrno_maps : (w.setErrno e).proc.maps = w.proc.maps := rfl
@[simp] theorem setErrno_pid : (w.setErrno e).proc.pid = w.proc.pid := rfl
@[simp] theorem setErrno_stdout : (w.setErrno e).proc.stdout = w.proc.stdout := rfl

@[simp] theorem setCtx_kernel : (w.setCtx c).kernel = w.kernel := rfl
@[simp] theorem setCtx_ctx : (w.setCtx c).proc.ctx = c := rfl
@[simp] theorem setCtx_errno : (w.setCtx c).proc.errno = w.proc.errno := rfl
@[simp] theorem setCtx_fds : (w.setCtx c).proc.fds = w.proc.fds := rfl
@[simp] theorem setCtx_maps : (w.setCtx c).proc.maps = w.proc.maps := rfl
@[simp] theorem setCtx_pid : (w.setCtx c).proc.pid = w.proc.pid := rfl
@[simp] theorem setCtx_stdout : (w.setCtx c).proc.stdout = w.proc.stdout := rfl
@[simp] theorem setCtx_setCtx (d : Option Ctx) : (w.setCtx c).setCtx d = w.setCtx d := rfl

@[simp] theorem setSeg_kernel : (w.setSeg ino s).kernel = w.kernel.setSeg ino s := rfl
@[simp] theorem setSeg_proc : (w.setSeg ino s).proc = w.proc := rfl

@[simp] theorem newFd_fst : (w.newFd ino).1 = w.freshFd := rfl
@[simp] theorem newFd_kernel : (w.newFd ino).2.kernel = w.kernel := rfl
@[simp] theorem newFd_ctx : (w.newFd ino).2.proc.ctx = w.proc.ctx := rfl
@[simp] theorem newFd_errno : (w.newFd ino).2.proc.errno = w.proc.errno := rfl
@[simp] theorem newFd_fds : (w.newFd ino).2.proc.fds = (w.freshFd, ino) :: w.proc.fds := rfl
@[simp] theorem newFd_maps : (w.newFd ino).2.proc.maps = w.proc.maps := rfl
@[simp] theorem newFd_pid : (w.newFd ino).2.proc.pid = w.proc.pid := rfl
@[simp] theorem newFd_stdout : (w.newFd ino).2.proc.stdout = w.proc.stdout := rfl

end Fields

/-- The context plays no part in it. -/
theorem close_setCtx (w : World) (c : Option Ctx) (fail : Option ℕ) (fd : ℤ) :
    (w.setCtx c).close fail fd = (w.close fail fd).setCtx c := by
  unfold close
  cases fail with
  | some e => rfl
  | none =>
    show (if (w.proc.fds.lookup fd).isSome then _ else _) =
      setCtx (if (w.proc.fds.lookup fd).isSome then _ else _) c
    split
    · rfl
    · rfl

theorem shmOpen_failed (w : World) (e : ℕ) (name : ShmName) (creat : Bool) :
    w.shmOpen (some e) name creat = (-1, w.setErrno (.other e)) := rfl

theorem shmOpen_existing (ino : Ino) {w : World} {name : ShmName}
    (h : w.kernel.shm name = some ino) (creat : Bool) :
    w.shmOpen none name creat = w.newFd ino := by
  rw [shmOpen]
  simp only [h]

theorem shmOpen_missing {w : World} {name : ShmName} (h : w.kernel.shm name = none) :
    w.shmOpen none name false = (-1, w.setErrno .enoent) := by
  rw [shmOpen]
  simp only [h]
  rfl

theorem shmOpen_creat {w : World} {name : ShmName} (h : w.kernel.shm name = none) :
    w.shmOpen none name true =
      newFd { w with kernel := w.kernel.create name } w.kernel.nextIno := by
  rw [shmOpen]
  simp only [h]
  rfl

end World

/-- `munmap`.  An address that was never written is none of a mapping: it is refused, or there is
nothing to unmap.  `MAP_FAILED` is refused. -/
def munmap (sys : Sys) (p : EventsPtr) : Call Unit := do
  match p with
  | .unset =>
    match sys.munmap with
    | some e => Prog.modify fun w ↦ w.setErrno (.other e)
    | none => return
  | .failed => Prog.modify fun w ↦ w.setErrno (.other 22)
  | .mapped ino =>
    match sys.munmap with
    | some e => Prog.modify fun w ↦ w.setErrno (.other e)
    | none => Prog.modify fun w ↦ { w with proc := { w.proc with maps := w.proc.maps.erase ino } }

/-- The object behind `ctx->events`, for an access through that pointer. -/
def derefEvents : Call Ino := do
  let w ← Prog.get
  match w.proc.ctx with
  | none => Prog.throw .nullCtx
  | some c =>
    match c.events with
    | .unset => Prog.throw .unsetEvents
    | .failed => Prog.throw .unmappedEvents
    | .mapped ino => if ino ∈ w.proc.maps then return ino else Prog.throw .unmappedEvents

end UstBench
