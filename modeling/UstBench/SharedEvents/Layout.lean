import UstBench.Reasoning.Decimal
import Mathlib.Data.Fintype.Basic
import Mathlib.Data.List.OfFn
import Mathlib.Data.List.TakeWhile

/-!
# The shared segment

The data of `shared_events.h` and the segment it is stored in: an event count and an array of
`MAX_EVENT_COUNT` events.  A segment outlives the processes that write it, so `count` and the slots
are whatever was last stored there.
-/

namespace UstBench

abbrev maxEventNameLength : ℕ := 256
abbrev maxEventCount : ℕ := 256
abbrev maxShmNameLen : ℕ := 32

/-- A C string: the bytes before its terminating NUL. -/
structure CString where
  bytes : List UInt8
  noNul : 0 ∉ bytes
deriving DecidableEq

structure Timespec where
  tvSec : ℤ
  tvNsec : ℤ
deriving DecidableEq, Repr

structure SharedEvent where
  ts : Timespec
  name : Fin maxEventNameLength → UInt8
deriving DecidableEq

structure SharedEvents where
  count : ℕ
  events : Fin maxEventCount → SharedEvent

/-- The file name of a segment, `/shared_events_<pid>`. -/
abbrev ShmName := List Char

def shmBaseName : List Char := "/shared_events".toList

/-- `snprintf` keeps `maxLen - 1` characters and a NUL. -/
def shmName (maxLen : ℕ) (pid : ℤ) : ShmName :=
  (shmBaseName ++ '_' :: Reasoning.Decimal.printInt pid).take (maxLen - 1)

/-- `strncpy` into an event's name: the field is filled up with NULs, or left without any. -/
def strncpy (src : CString) : Fin maxEventNameLength → UInt8 := fun i ↦ src.bytes.getD i 0

/-- Every pid has its own segment name, uncut by the 32-byte buffer. -/
theorem shmName_eq {pid : ℤ} (h : pid.natAbs < 10 ^ 10) :
    shmName maxShmNameLen pid = shmBaseName ++ '_' :: Reasoning.Decimal.printInt pid := by
  have hl := Reasoning.Decimal.length_printInt_le (by decide) h
  apply List.take_of_length_le
  rw [List.length_append, List.length_cons, show shmBaseName.length = 14 by decide]
  change _ ≤ 31
  omega

/-- The values of `pid_t`. -/
def IsPid (pid : ℤ) : Prop := -2 ^ 31 ≤ pid ∧ pid < 2 ^ 31

theorem IsPid.natAbs_lt {pid : ℤ} (h : IsPid pid) : pid.natAbs < 10 ^ 10 := by
  unfold IsPid at h
  omega

theorem shmName_inj {p q : ℤ} (hp : IsPid p) (hq : IsPid q)
    (h : shmName maxShmNameLen p = shmName maxShmNameLen q) : p = q := by
  rw [shmName_eq hp.natAbs_lt, shmName_eq hq.natAbs_lt] at h
  have ht := List.append_cancel_left h
  exact Reasoning.Decimal.printInt_injective (List.cons.inj ht).2

namespace SharedEvents

/-- What `ftruncate` leaves in an object it has just extended. -/
def zeroed : SharedEvents :=
  { count := 0, events := fun _ ↦ { ts := ⟨0, 0⟩, name := fun _ ↦ 0 } }

def setCount (s : SharedEvents) (count : ℕ) : SharedEvents := { s with count := count }

def setName (s : SharedEvents) (k : Fin maxEventCount)
    (name : Fin maxEventNameLength → UInt8) : SharedEvents :=
  { s with events := Function.update s.events k { s.events k with name := name } }

def setTs (s : SharedEvents) (k : Fin maxEventCount) (ts : Timespec) : SharedEvents :=
  { s with events := Function.update s.events k { s.events k with ts := ts } }

/-- The events a reader is meant to see, oldest first. -/
def log (s : SharedEvents) : List SharedEvent := (List.ofFn s.events).take s.count

@[simp] theorem setCount_count (s : SharedEvents) (n : ℕ) : (s.setCount n).count = n := rfl
@[simp] theorem setCount_events (s : SharedEvents) (n : ℕ) :
    (s.setCount n).events = s.events := rfl
@[simp] theorem setName_count (s : SharedEvents) (k : Fin maxEventCount)
    (name : Fin maxEventNameLength → UInt8) : (s.setName k name).count = s.count := rfl
@[simp] theorem setTs_count (s : SharedEvents) (k : Fin maxEventCount) (ts : Timespec) :
    (s.setTs k ts).count = s.count := rfl

@[simp] theorem log_zeroed : zeroed.log = [] := rfl
@[simp] theorem log_setCount_zero (s : SharedEvents) : (s.setCount 0).log = [] := rfl

theorem length_log {s : SharedEvents} (h : s.count ≤ maxEventCount) : s.log.length = s.count := by
  rw [log, List.length_take, List.length_ofFn]
  omega

theorem log_getElem? {s : SharedEvents} {k : ℕ} (hk : k < s.count) (hs : k < maxEventCount) :
    s.log[k]? = some (s.events ⟨k, hs⟩) := by
  rw [log, List.getElem?_take_of_lt hk, List.getElem?_ofFn, dif_pos hs]

theorem setTs_setCount_setName (s : SharedEvents) (k : Fin maxEventCount) (n : ℕ)
    (name : Fin maxEventNameLength → UInt8) (ts : Timespec) :
    ((s.setName k name).setCount n).setTs k ts =
      { count := n, events := Function.update s.events k ⟨ts, name⟩ } := by
  simp [setName, setCount, setTs, Function.update_idem, Function.update_self]

/-- Filling slot `count` and then counting it appends one event to the log. -/
theorem log_push {s : SharedEvents} (h : s.count < maxEventCount) (e : SharedEvent) :
    log { count := s.count + 1, events := Function.update s.events ⟨s.count, h⟩ e } =
      s.log ++ [e] := by
  apply List.ext_getElem?
  intro i
  rcases Nat.lt_trichotomy i s.count with hi | rfl | hi
  · rw [List.getElem?_append_left (by rw [length_log (by omega)]; exact hi),
      log_getElem? hi (by omega), log_getElem? (by change i < s.count + 1; omega) (by omega)]
    dsimp only
    rw [Function.update_of_ne]
    intro he
    have hv : i = s.count := congrArg Fin.val he
    omega
  · rw [log_getElem? (by change s.count < s.count + 1; omega) h,
      List.getElem?_append_right (by rw [length_log (by omega)]), length_log (by omega),
      Nat.sub_self]
    dsimp only
    rw [Function.update_self]
    rfl
  · rw [List.getElem?_eq_none, List.getElem?_eq_none]
    · rw [List.length_append, length_log (by omega), List.length_singleton]
      omega
    · rw [length_log (by change s.count + 1 ≤ maxEventCount; omega)]
      change s.count + 1 ≤ i
      omega

end SharedEvents

/-! ## Reading a name back

`%s` reads from the start of the name field to the next NUL byte, which need not lie in that
field: behind it come the later events, byte after byte. -/

/-- The eight bytes of a `long`, lowest first. -/
def longBytes (x : ℤ) : List UInt8 :=
  (List.range 8).map fun i ↦ UInt8.ofNat ((x % 2 ^ 64).toNat / 256 ^ i)

def SharedEvent.bytes (e : SharedEvent) : List UInt8 :=
  longBytes e.ts.tvSec ++ longBytes e.ts.tvNsec ++ List.ofFn e.name

/-- The bytes of the name field of an event, up to its first NUL. -/
def SharedEvent.nameBytes (e : SharedEvent) : List UInt8 :=
  (List.ofFn e.name).takeWhile (· != 0)

/-- The bytes `%s` prints for event `k`.  The mapping ends in zero bytes. -/
def SharedEvents.printedName (s : SharedEvents) (k : Fin maxEventCount) : List UInt8 :=
  (List.ofFn (s.events k).name ++
    ((List.ofFn s.events).drop (k + 1)).flatMap SharedEvent.bytes).takeWhile (· != 0)

def SharedEvent.Terminated (e : SharedEvent) : Prop := ∃ i, e.name i = 0

/-- A name with a NUL in its field is printed from that field alone. -/
theorem SharedEvents.printedName_of_terminated {s : SharedEvents} {k : Fin maxEventCount}
    (h : (s.events k).Terminated) : s.printedName k = (s.events k).nameBytes := by
  obtain ⟨i, hi⟩ := h
  rw [printedName, List.takeWhile_append, if_neg]
  · rfl
  · intro hl
    have he := (List.takeWhile_prefix (· != 0)).eq_of_length hl
    have hm : (s.events k).name i ∈ List.ofFn (s.events k).name := List.mem_ofFn.mpr ⟨i, rfl⟩
    rw [← he] at hm
    have hn := List.mem_takeWhile_imp hm
    rw [hi] at hn
    simp at hn

theorem ofFn_strncpy {src : CString} (h : src.bytes.length < maxEventNameLength) :
    List.ofFn (strncpy src) =
      src.bytes ++ List.replicate (maxEventNameLength - src.bytes.length) 0 := by
  apply List.ext_getElem
  · rw [List.length_ofFn, List.length_append, List.length_replicate]
    omega
  · intro i h₁ h₂
    rw [List.getElem_ofFn, List.getElem_append]
    split
    · rename_i hi
      simp [strncpy, hi]
    · rename_i hi
      simp [strncpy, hi]

theorem terminated_strncpy {src : CString} (h : src.bytes.length < maxEventNameLength)
    (ts : Timespec) : SharedEvent.Terminated ⟨ts, strncpy src⟩ :=
  ⟨⟨src.bytes.length, h⟩, by simp [strncpy]⟩

theorem nameBytes_strncpy {src : CString} (h : src.bytes.length < maxEventNameLength)
    (ts : Timespec) : SharedEvent.nameBytes ⟨ts, strncpy src⟩ = src.bytes := by
  have hall : ∀ b ∈ src.bytes, (b != 0) = true := by
    intro b hb
    have hne : b ≠ 0 := fun h0 ↦ src.noNul (h0 ▸ hb)
    simpa using hne
  change (List.ofFn (strncpy src)).takeWhile _ = _
  rw [ofFn_strncpy h, List.takeWhile_append_of_pos hall, List.takeWhile_replicate]
  simp

end UstBench
