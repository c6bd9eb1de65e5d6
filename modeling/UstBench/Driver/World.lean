import UstBench.Reasoning.Prog
import UstBench.Driver.CpuList
import UstBench.Driver.Results

/-!
# The world of the driver

`benchmarks.py` acts on the machine through LTTng, subprocesses and sysfs.  Every such action is a
`Step`; the environment chooses its reply, knowing everything that happened before, and may let it
raise.  The world keeps the CPUs, whether the tracing session is active, and a log of all steps with
the state each was made in.
-/

namespace UstBench.Driver

open Reasoning Reasoning.Prog

inductive Domain where
  | ust
  | kernel
  deriving DecidableEq

/-- A kernel module: its path, and the name that is the path's last part without the extension. -/
structure LinuxModule where
  modPath : String
  modName : String
  deriving DecidableEq

inductive CpuFile where
  | online
  | offline
  deriving DecidableEq

/-- The actions of the script outside its own memory. -/
inductive Step where
  | sessionDaemonAlive
  | launchSessiond
  | destroy
  | createSnapshot
  | channelSetDefaultAttr (domain : Domain)
  | handle (domain : Domain)
  | enableChannel
  | enableEvent (name : String)
  | start
  | stop
  | checkOutput (args : List String)
  | isLoaded (name : String)
  | insmod (path : String)
  | rmmod (name : String)
  | writeCount (count : ℕ)
  | readTime
  | readEvents
  | readCpuFile (file : CpuFile)
  | writeCpu (cpu : ℕ) (online : Bool)
  /-- Python code between two of the other steps, where an interrupt may arrive. -/
  | compute
  | print (text : String)
  | uname
  | makedirs (dir : String)
  | writeFile (name content : String)
  | readPidFile
  | kill (pid : ℤ)
  | rmtree
  deriving DecidableEq

/-- What a step returns when it does not raise: the codes of LTTng, the output of the runner, the
texts of files, whether a handle was made, a module is loaded, a write took effect. -/
@[reducible] def Step.Result : Step → Type
  | .sessionDaemonAlive | .destroy | .createSnapshot | .enableChannel | .enableEvent _ => ℤ
  | .start | .stop => ℤ
  | .handle _ | .isLoaded _ | .writeCpu _ _ => Bool
  | .checkOutput _ => List UInt8
  | .readTime | .readPidFile => List Char
  | .readEvents => List (List Char)
  | .uname => List String
  | _ => Unit

/-- The part of the machine a step is about, with the call that activates the session apart. -/
inductive Part where
  | lttng
  | activation
  | runner
  | module
  | cpuRead
  | cpuWrite
  | script
  deriving DecidableEq

def Step.part : Step → Part
  | .sessionDaemonAlive | .launchSessiond | .destroy | .createSnapshot => .lttng
  | .channelSetDefaultAttr _ | .handle _ | .enableChannel | .enableEvent _ | .stop => .lttng
  | .start => .activation
  | .checkOutput _ => .runner
  | .isLoaded _ | .insmod _ | .rmmod _ | .writeCount _ | .readTime | .readEvents => .module
  | .readCpuFile _ => .cpuRead
  | .writeCpu _ _ => .cpuWrite
  | .compute | .print _ | .uname | .makedirs _ | .writeFile _ _ => .script
  | .readPidFile | .kill _ | .rmtree => .script

/-- The calls of the script that the log tells apart. -/
inductive Frame where
  /-- `do_benchmarks` at a level of `main` -/
  | level (cpuCount : ℕ)
  /-- `run_benchmark_tool` -/
  | runner (withUst : Bool)
  /-- `do_kernel_benchmark` -/
  | kernelPass
  /-- the measurement of `base_run` in `do_kernel_benchmark` -/
  | baseRun
  /-- the `finally` clause of the top-level block -/
  | restore
  deriving DecidableEq

structure Entry where
  step : Step
  reply : Except Exc step.Result
  within : List Frame
  active : Bool
  online : Finset ℕ

structure World where
  present : Finset ℕ
  online : Finset ℕ
  online_subset : online ⊆ present
  active : Bool
  /-- the calls in progress, the innermost first -/
  within : List Frame
  /-- the steps so far, the latest first -/
  log : List Entry

namespace World

def offline (w : World) : Finset ℕ := w.present \ w.online

def cpus (w : World) : CpuFile → Finset ℕ
  | .online => w.online
  | .offline => w.offline

def setCpu (w : World) (cpu : ℕ) (online : Bool) : World where
  present := w.present
  online := if online then w.online ∪ (w.present ∩ {cpu}) else w.online.erase cpu
  online_subset := by
    split
    · exact Finset.union_subset w.online_subset Finset.inter_subset_left
    · exact (Finset.erase_subset _ _).trans w.online_subset
  active := w.active
  within := w.within
  log := w.log

def push (w : World) (f : Frame) : World := { w with within := f :: w.within }

/-- The world `w'` a call has ended in, seen from its caller, which was in `w`. -/
def back (w' w : World) : World := { w' with within := w.within }

/-- `lttng.start` that succeeds activates the session; `stop` and `destroy` that succeed end that. -/
def effect (w : World) : (s : Step) → Except Exc s.Result → World
  | .start, .ok ret => { w with active := w.active || decide (0 ≤ ret) }
  | .stop, .ok ret => { w with active := w.active && decide (ret < 0) }
  | .destroy, .ok ret => { w with active := w.active && decide (ret < 0) }
  | .writeCpu cpu online, .ok true => w.setCpu cpu online
  | _, _ => w

def after (w : World) (s : Step) (r : Except Exc s.Result) : World :=
  { w.effect s r with log := ⟨s, r, w.within, w.active, w.online⟩ :: w.log }

end World

/-- What the script cannot know: the replies to its steps, the orders in which Python goes through
its sets, and the texts of error codes, floats and data. -/
structure Env where
  reply : World → (s : Step) → Except Exc s.Result
  cpuOrder : World → Finset ℕ → List ℕ
  cpuOrder_nodup : ∀ w s, (cpuOrder w s).Nodup
  cpuOrder_toFinset : ∀ w s, (cpuOrder w s).toFinset = s
  keyOrder : World → List String → List String
  keyOrder_perm : ∀ w ks, (keyOrder w ks).Perm ks
  strerror : ℤ → String
  str : Value → String
  pformat : Value → String

namespace Env

variable (env : Env)

def call (s : Step) : Prog World Exc s.Result := fun w ↦ (env.reply w s, w.after s (env.reply w s))

/-- `for cpu in cpus`: the members in the order Python takes them. -/
def list (cpus : Finset ℕ) : Prog World Exc (List ℕ) := fun w ↦ (.ok (env.cpuOrder w cpus), w)

def keys (ks : List String) : Prog World Exc (List String) := fun w ↦ (.ok (env.keyOrder w ks), w)

end Env

/-- Runs a call of the script under its frame. -/
def inFrame {α : Type} (f : Frame) (m : Prog World Exc α) : Prog World Exc α :=
  zoom (·.push f) World.back m

/-! ## What a step changes -/

namespace World

variable {w w' : World} {s : Step} {r : Except Exc s.Result}

@[simp] theorem push_online (f : Frame) : (w.push f).online = w.online := rfl
@[simp] theorem push_present (f : Frame) : (w.push f).present = w.present := rfl
@[simp] theorem push_active (f : Frame) : (w.push f).active = w.active := rfl
@[simp] theorem push_within (f : Frame) : (w.push f).within = f :: w.within := rfl
@[simp] theorem push_log (f : Frame) : (w.push f).log = w.log := rfl

@[simp] theorem back_online : (w'.back w).online = w'.online := rfl
@[simp] theorem back_present : (w'.back w).present = w'.present := rfl
@[simp] theorem back_active : (w'.back w).active = w'.active := rfl
@[simp] theorem back_within : (w'.back w).within = w.within := rfl
@[simp] theorem back_log : (w'.back w).log = w'.log := rfl

@[simp] theorem after_log : (w.after s r).log = ⟨s, r, w.within, w.active, w.online⟩ :: w.log := rfl

@[simp] theorem after_present : (w.after s r).present = w.present := by
  cases s <;> cases r <;> try rfl
  case writeCpu.ok took => cases took <;> rfl

@[simp] theorem after_within : (w.after s r).within = w.within := by
  cases s <;> cases r <;> try rfl
  case writeCpu.ok took => cases took <;> rfl

/-- Only a write to a CPU file changes which CPUs are online. -/
theorem after_online (h : s.part ≠ .cpuWrite) : (w.after s r).online = w.online := by
  cases s <;> cases r <;> first | rfl | exact absurd rfl h

/-- Only LTTng's calls change whether the session is active. -/
theorem after_active (h : s.part ≠ .lttng) (h' : s.part ≠ .activation) :
    (w.after s r).active = w.active := by
  cases s <;> cases r <;> try first | rfl | exact absurd rfl h | exact absurd rfl h'
  case writeCpu.ok took => cases took <;> rfl

/-- Nothing but `lttng.start` activates the session. -/
theorem after_inactive (h : s.part ≠ .activation) (hw : w.active = false) :
    (w.after s r).active = false := by
  cases s <;> cases r <;> try first | exact hw | exact absurd rfl h
  case stop.ok ret => exact (congrArg (· && decide (ret < 0)) hw).trans (Bool.false_and _)
  case destroy.ok ret => exact (congrArg (· && decide (ret < 0)) hw).trans (Bool.false_and _)
  case writeCpu.ok took => cases took <;> exact hw

theorem after_accepted {cpu : ℕ} (on : Bool) (hcpu : cpu ∈ w.present) :
    (w.after (.writeCpu cpu on) (.ok true)).online =
      if on then insert cpu w.online else w.online.erase cpu := by
  change (if on then w.online ∪ (w.present ∩ {cpu}) else w.online.erase cpu) = _
  rw [Finset.inter_singleton_of_mem hcpu, Finset.insert_eq, Finset.union_comm]

/-- A write that switches a CPU off, taken or not. -/
theorem after_off (cpu : ℕ) (r : Except Exc Bool) :
    (w.after (.writeCpu cpu false) r).online = w.online ∨
      (w.after (.writeCpu cpu false) r).online = w.online.erase cpu := by
  cases r with
  | error e => exact .inl rfl
  | ok took =>
    cases took with
    | false => exact .inl rfl
    | true => exact .inr rfl

end World

/-! ## Rules for steps and frames -/

section Rules

variable {env : Env} {α : Type} {P J : World → Prop} {s : Step}

theorem run_call (w : World) :
    run (env.call s) w = (env.reply w s, w.after s (env.reply w s)) := rfl

theorem triple_call {Q : s.Result → World → Prop} {E : Exc → World → Prop}
    (hok : ∀ w r, P w → env.reply w s = .ok r → Q r (w.after s (.ok r)))
    (herr : ∀ w e, P w → env.reply w s = .error e → E e (w.after s (.error e))) :
    Triple P (env.call s) Q E := by
  constructor
  intro w hw
  rw [run_call]
  cases h : env.reply w s with
  | error e => exact herr w e hw h
  | ok r => exact hok w r hw h

theorem keeps_call (h : ∀ w r, J w → J (w.after s r)) : Keeps J (env.call s) :=
  triple_call (fun w _ hw _ ↦ h w _ hw) fun w _ hw _ ↦ h w _ hw

theorem triple_order (cpus : Finset ℕ) {E : Exc → World → Prop} :
    Triple P (env.list cpus) (fun _ ↦ P) E := ⟨fun _ hw ↦ hw⟩

theorem triple_keys (ks : List String) {E : Exc → World → Prop} :
    Triple P (env.keys ks) (fun _ ↦ P) E := ⟨fun _ hw ↦ hw⟩

theorem triple_inFrame {f : Frame} {m : Prog World Exc α} {Q : α → World → Prop}
    {E : Exc → World → Prop}
    (h : ∀ w, P w → Triple (· = w.push f) m (fun a w' ↦ Q a (w'.back w))
      fun e w' ↦ E e (w'.back w)) :
    Triple P (inFrame f m) Q E :=
  triple_zoom h

theorem keeps_inFrame {f : Frame} {m : Prog World Exc α} (hm : Keeps J m)
    (hpush : ∀ w, J w → J (w.push f)) (hback : ∀ w w', J w → J w' → J (w'.back w)) :
    Keeps J (inFrame f m) := by
  apply triple_inFrame
  intro w hw
  apply hm.conseq
  · rintro w' rfl
    exact hpush w hw
  · exact fun _ w' hw' ↦ hback w w' hw hw'
  · exact fun _ w' hw' ↦ hback w w' hw hw'

end Rules

end UstBench.Driver
