import UstBench.Driver.LinuxCpu
import UstBench.Runner.Output

/-!
# `benchmarks.py` and `lttng_kernel_benchmark.py`

The functions of the script, from the LTTng calls up to its top-level block.
-/

namespace UstBench.Driver

open Reasoning Reasoning.Prog

def runnerBin : String := "./lttng-ust-benchmarks"

def propsDir : String := "./jenkins_plot_data"

def jsOut : String := "./benchmarks.json"

section Model

variable (env : Env)

/-! ## LTTng -/

/-- `if ret < 0: raise RuntimeError("LTTng: " + lttng.strerror(ret))` -/
def raiseIfNegative (ret : ℤ) : Prog World Exc Unit :=
  when (ret < 0) (throw (.runtimeError ("LTTng: " ++ env.strerror ret)))

def enableEvent (name : String) : Prog World Exc Unit := do
  let ret ← env.call (.enableEvent name)
  raiseIfNegative env ret

/-- `lttng_start` up to its call of `lttng.start`. -/
def lttngPrepare (events : List String) (domainType : Domain) : Prog World Exc Unit := do
  let alive ← env.call .sessionDaemonAlive
  when (alive = 0) (env.call .launchSessiond)
  let _ ← env.call .destroy
  let ret ← env.call .createSnapshot
  raiseIfNegative env ret
  env.call (.channelSetDefaultAttr domainType)
  let han ← env.call (.handle domainType)
  when (!han) (throw (.runtimeError "LTTng: failed to create handle"))
  let ret ← env.call .enableChannel
  raiseIfNegative env ret
  forEach (enableEvent env) events

def lttngStart (events : List String) (domainType : Domain) : Prog World Exc Unit := do
  lttngPrepare env events domainType
  let ret ← env.call .start
  raiseIfNegative env ret

def lttngStop : Prog World Exc Unit := do
  let ret ← env.call .stop
  raiseIfNegative env ret
  let ret ← env.call .destroy
  raiseIfNegative env ret

/-! ## The benchmarks -/

def runBenchmarkTool (args : List String) (withUst : Bool) : Prog World Exc Json :=
  inFrame (.runner withUst) do
    when withUst (lttngStart env ["*"] .ust)
    let output ← env.call (.checkOutput (runnerBin :: args))
    when withUst (lttngStop env)
    ofExcept ((jsonLoads output).elim (.error .valueError) .ok)

def doUstBenchmark (benchmark : Benchmark) : Prog World Exc Value := do
  let baseAll ← runBenchmarkTool env (benchmark.baseline ++ benchmark.args) false
  let ustAll ← runBenchmarkTool env (benchmark.ust ++ benchmark.args) false
  let ustEnAll ← runBenchmarkTool env (benchmark.ust ++ benchmark.args) true
  env.call .compute
  ofExcept (ustResult benchmark baseAll ustAll ustEnAll)

def LinuxModule.load (m : LinuxModule) : Prog World Exc Unit := do
  let loaded ← env.call (.isLoaded m.modName)
  when (!loaded) (env.call (.insmod m.modPath))

def LinuxModule.unload (m : LinuxModule) : Prog World Exc Unit := do
  let loaded ← env.call (.isLoaded m.modName)
  when loaded (env.call (.rmmod m.modName))

def mainModule : LinuxModule := ⟨"kernel-benchmark/lttng_benchmark.ko", "lttng_benchmark"⟩

def probeModule : LinuxModule :=
  ⟨"kernel-benchmark/lttng_benchmark_probe.ko", "lttng_benchmark_probe"⟩

/-- `lttng_kernel_benchmark.benchmark` -/
def kernelBenchmark (count : ℕ) : Prog World Exc ℚ := do
  mainModule.load env
  probeModule.load env
  env.call (.writeCount count)
  let text ← env.call .readTime
  let time ← ofExcept ((Python.float (Python.rstrip text)).elim (.error .valueError) .ok)
  pure (time / 10 ^ 6)

def unloadModules : Prog World Exc Unit := do
  mainModule.unload env
  probeModule.unload env

def events : Prog World Exc (List String) := do
  let lines ← env.call .readEvents
  pure (lines.map fun line ↦ String.ofList (Python.rstrip line))

def doKernelBenchmark (nrLoops : ℕ) : Prog World Exc Value :=
  inFrame .kernelPass do
    let baseRun ← inFrame .baseRun (kernelBenchmark env nrLoops)
    let names ← events env
    lttngStart env names .kernel
    let tracingEnRun ← kernelBenchmark env nrLoops
    lttngStop env
    let cpuCount ← onlineCount env
    env.call .compute
    ofExcept (kernelResult nrLoops cpuCount baseRun tracingEnRun)

/-- One of the loops of `do_benchmarks` over passes of one benchmark. -/
def ustPasses (name : String) (benchmark : Benchmark) :
    ℕ → List Value → Prog World Exc (List Value)
  | 0, data => pure data
  | n + 1, data => do
    let result ← doUstBenchmark env benchmark
    ustPasses name benchmark n (data ++ [.dict [(name, result)]])

/-- The kernel passes.  The handler ends their loop, and what was appended before stays. -/
def kernelPasses : ℕ → List Value → Prog World Exc (List Value)
  | 0, data => pure data
  | n + 1, data => do
    let result ← tryCatch
      (do
        let result ← doKernelBenchmark env 1000000
        pure (some result))
      fun _ ↦ do
        env.call (.print "Failed to run kernel benchmark, skipping")
        pure none
    match result with
    | some result => kernelPasses n (data ++ [.dict [("kernel", result)]])
    | none => pure data

def doBenchmarks (fullPasses fastPasses : ℕ) : Prog World Exc (List Value) := do
  let data ← ustPasses env "basic"
    { baseline := ["basic-benchmark"], ust := ["basic-benchmark-ust"], nrLoops := some 10000000 }
    fullPasses []
  let data ← ustPasses env "sha2"
    { baseline := ["sha2-benchmark"], ust := ["sha2-benchmark-ust"], nrLoops := some 1000000 }
    fullPasses data
  let data ← ustPasses env "gen-tp"
    { baseline := ["basic-benchmark"], ust := ["basic-benchmark-gen-tp"], nrLoops := some 1000000,
      tpPerLoop := 16 }
    fullPasses data
  let data ← ustPasses env "basic"
    { baseline := ["basic-benchmark"], ust := ["basic-benchmark-ust"] } fastPasses data
  let data ← ustPasses env "sha2"
    { baseline := ["sha2-benchmark"], ust := ["sha2-benchmark-ust"] } fastPasses data
  let data ← ustPasses env "gen-tp"
    { baseline := ["basic-benchmark"], ust := ["basic-benchmark-gen-tp"] } fastPasses data
  kernelPasses env fullPasses data

/-! ## The script -/

/-- The aggregation of one level of `main`. -/
def averageData (data : List Value) : Prog World Exc Dict := do
  env.call .compute
  let flatData := data.map flattenDict
  let keys ← env.keys (allKeys flatData)
  pure (average flatData keys)

/-- The loop of `main`, with `all_data` and `all_avg`.  The handler ends it. -/
def levels : List ℕ → Dict → Dict → Prog World Exc (Dict × Dict)
  | [], allData, allAvg => pure (allData, allAvg)
  | cpuCount :: rest, allData, allAvg => do
    let isSet ← tryCatch
      (do
        setOnlineCount env cpuCount
        pure true)
      fun _ ↦ do
        env.call (.print "Failed to set CPU count, skipping")
        pure false
    if isSet then do
      let data ← inFrame (.level cpuCount) (doBenchmarks env 5 100)
      let avgData ← averageData env data
      let key := toString cpuCount ++ "_cpus"
      levels rest (allData.set key (.list data)) (allAvg.set key (.dict avgData))
    else
      pure (allData, allAvg)

def writePlotProperties (flatData : Dict) (dstDir : String) : Prog World Exc Unit := do
  env.call (.makedirs dstDir)
  forEach
    (fun p : String × Value ↦ env.call
      (.writeFile (dstDir ++ "/" ++ p.1 ++ ".properties") ("YVALUE=" ++ env.str p.2 ++ "\n")))
    flatData

def writeJs (data : Value) (filename : String) : Prog World Exc Unit :=
  env.call (.writeFile filename (env.pformat data ++ "\n"))

/-- `reversed(range(1, n + 1))` -/
def countdown (n : ℕ) : List ℕ := (List.range' 1 n).reverse

def main : Prog World Exc Unit := do
  let n ← onlineCount env
  let (allData, allAvg) ← levels env (countdown n) [] []
  let uname ← env.call .uname
  let platform := ["system", "node", "release", "version", "machine", "processor"].zip uname
  let results : Value := .dict
    [("data", .dict allData), ("average", .dict allAvg),
     ("platform", .dict (platform.map fun p ↦ (p.1, .str p.2)))]
  writePlotProperties env (flattenDict (.dict allAvg)) propsDir
  writeJs env results jsOut

def killSessiond : Prog World Exc Unit := do
  let line ← env.call .readPidFile
  let pid ← ofExcept ((Python.int line).elim (.error .valueError) .ok)
  env.call (.kill pid)

def cleanup : Prog World Exc Unit := do
  let _ ← env.call .stop
  let _ ← env.call .destroy
  unloadModules env
  tryCatch (killSessiond env) fun e ↦ when (e ≠ .osError) (throw e)
  env.call .rmtree

/-- The `finally` clause of the top-level block. -/
def restore (savedOnlineCpus : Finset ℕ) : Prog World Exc Unit :=
  inFrame .restore do
    cleanup env
    setOnlineCpus env savedOnlineCpus

/-- The top-level block. -/
def script : Prog World Exc Unit := do
  let savedOnlineCpus ← onlineCpus env
  tryFinally
    (tryCatch (main env) fun e ↦ when (e ≠ .keyboardInterrupt) (throw e))
    (restore env savedOnlineCpus)

end Model

/-! ## The loops of `do_benchmarks` -/

/-- The benchmarks of `do_benchmarks`, with their names and how many passes there are of each. -/
def ustBenchmarks (fullPasses fastPasses : ℕ) : List (String × Benchmark × ℕ) :=
  [("basic", ⟨["basic-benchmark"], ["basic-benchmark-ust"], some 10000000, 1⟩, fullPasses),
   ("sha2", ⟨["sha2-benchmark"], ["sha2-benchmark-ust"], some 1000000, 1⟩, fullPasses),
   ("gen-tp", ⟨["basic-benchmark"], ["basic-benchmark-gen-tp"], some 1000000, 16⟩, fullPasses),
   ("basic", ⟨["basic-benchmark"], ["basic-benchmark-ust"], none, 1⟩, fastPasses),
   ("sha2", ⟨["sha2-benchmark"], ["sha2-benchmark-ust"], none, 1⟩, fastPasses),
   ("gen-tp", ⟨["basic-benchmark"], ["basic-benchmark-gen-tp"], none, 1⟩, fastPasses)]

/-- The loops of `do_benchmarks`, one behind the other, and what is behind them. -/
def eachBenchmark (env : Env) (last : List Value → Prog World Exc (List Value)) :
    List (String × Benchmark × ℕ) → List Value → Prog World Exc (List Value)
  | [], data => last data
  | (name, benchmark, passes) :: rest, data => do
    let data ← ustPasses env name benchmark passes data
    eachBenchmark env last rest data

theorem doBenchmarks_eq (env : Env) (fullPasses fastPasses : ℕ) :
    doBenchmarks env fullPasses fastPasses =
      eachBenchmark env (kernelPasses env fullPasses) (ustBenchmarks fullPasses fastPasses) [] :=
  rfl

section Loops

variable {env : Env} {P Q : List Value → World → Prop} {E : Exc → World → Prop}

/-- What one pass makes of the data, all passes of the benchmark do. -/
theorem triple_eachPass {name : String} {b : Benchmark}
    (hpass : ∀ data, Triple (P data) (doUstBenchmark env b)
      (fun v ↦ P (data ++ [.dict [(name, v)]])) E) (n : ℕ) (data : List Value) :
    Triple (P data) (ustPasses env name b n data) P E := by
  induction n generalizing data with
  | zero => exact triple_pure data fun _ hw ↦ hw
  | succ n ih => exact triple_bind (hpass data) fun _ ↦ ih _

theorem triple_eachBenchmark {last : List Value → Prog World Exc (List Value)}
    (hlast : ∀ data, Triple (P data) (last data) Q E) {benchmarks : List (String × Benchmark × ℕ)}
    (hpasses : ∀ p ∈ benchmarks, ∀ data,
      Triple (P data) (ustPasses env p.1 p.2.1 p.2.2 data) P E) (data : List Value) :
    Triple (P data) (eachBenchmark env last benchmarks data) Q E := by
  induction benchmarks generalizing data with
  | nil => exact hlast data
  | cons p rest ih =>
    rw [List.forall_mem_cons] at hpasses
    exact triple_bind (hpasses.1 data) fun data ↦ ih hpasses.2 data

/-- The passes of all benchmarks, and then the kernel passes. -/
theorem triple_passes {fullPasses fastPasses : ℕ}
    (hpass : ∀ p ∈ ustBenchmarks fullPasses fastPasses, ∀ data,
      Triple (P data) (doUstBenchmark env p.2.1) (fun v ↦ P (data ++ [.dict [(p.1, v)]])) E)
    (hkernel : ∀ data, Triple (P data) (kernelPasses env fullPasses data) Q E) :
    Triple (P []) (doBenchmarks env fullPasses fastPasses) Q E := by
  rw [doBenchmarks_eq]
  exact triple_eachBenchmark hkernel (fun p hp ↦ triple_eachPass (hpass p hp) p.2.2) []

end Loops

/-! ## What the functions keep -/

theorem countdown_succ (n : ℕ) : countdown (n + 1) = (n + 1) :: countdown n := by
  rw [countdown, List.range'_1_concat, List.reverse_append, countdown, Nat.add_comm 1 n]
  rfl

/-- What holds between the steps of the parts `ps`, within the frames `fs`, and where one of them or
the code between them raises. -/
structure Exits (env : Env) (J E : World → Prop) (ps : List Part) (fs : List Frame) : Prop where
  call : ∀ {p : Part} {s : Step}, p ∈ ps → s.part = p →
    Triple J (env.call s) (fun _ ↦ J) fun _ ↦ E
  raise : ∀ {w : World}, J w → E w
  push : ∀ {w : World}, ∀ f ∈ fs, J w → J (w.push f)
  back : ∀ {w w' : World}, fs ≠ [] → J w → J w' → J (w'.back w)
  backRaised : ∀ {w w' : World}, fs ≠ [] → J w → E w' → E (w'.back w)

namespace Exits

variable {env : Env} {J E : World → Prop} {ps : List Part} {fs : List Frame}

theorem frame (h : Exits env J E ps fs) {α : Type} {f : Frame} {m : Prog World Exc α} (hf : f ∈ fs)
    (hm : Triple J m (fun _ ↦ J) fun _ ↦ E) :
    Triple J (inFrame f m) (fun _ ↦ J) fun _ ↦ E := by
  have hfs := List.ne_nil_of_mem hf
  apply triple_inFrame
  intro w hw
  apply hm.conseq
  · rintro _ rfl
    exact h.push f hf hw
  · exact fun _ w' hw' ↦ h.back hfs hw hw'
  · exact fun _ w' hw' ↦ h.backRaised hfs hw hw'

section Raise

variable {α : Type} (h : Exits env J E ps fs)

include h

theorem ofExcept (r : Except Exc α) : Triple J (ofExcept r) (fun _ ↦ J) fun _ ↦ E :=
  triple_ofExcept (fun _ _ hw ↦ hw) fun _ _ hw ↦ h.raise hw

theorem throw (e : Exc) : Triple J (throw e : Prog World Exc α) (fun _ ↦ J) fun _ ↦ E :=
  triple_throw e fun _ hw ↦ h.raise hw

end Raise

section Lttng

variable (h : Exits env J E ps fs) (hp : .lttng ∈ ps)

include h hp

theorem lttngPrepare (events : List String) (d : Domain) :
    Triple J (lttngPrepare env events d) (fun _ ↦ J) fun _ ↦ E := by
  unfold Driver.lttngPrepare
  apply triple_bind (h.call hp (by rfl))
  intro alive
  apply triple_bind (triple_whenever (h.call hp (by rfl)))
  intro _
  apply triple_bind (h.call hp (by rfl))
  intro _
  apply triple_bind (h.call hp (by rfl))
  intro ret
  apply triple_bind (triple_whenever (h.throw _))
  intro _
  apply triple_bind (h.call hp (by rfl))
  intro _
  apply triple_bind (h.call hp (by rfl))
  intro han
  apply triple_bind (triple_whenever (h.throw _))
  intro _
  apply triple_bind (h.call hp (by rfl))
  intro ret
  apply triple_bind (triple_whenever (h.throw _))
  intro _
  apply triple_forEach
  intro name _
  exact triple_bind (h.call hp (by rfl)) fun ret ↦ triple_whenever (h.throw _)

theorem lttngStart (ha : .activation ∈ ps) (events : List String) (d : Domain) :
    Triple J (lttngStart env events d) (fun _ ↦ J) fun _ ↦ E :=
  triple_bind (h.lttngPrepare hp events d) fun _ ↦
    triple_bind (h.call ha (by rfl)) fun ret ↦ triple_whenever (h.throw _)

theorem lttngStop : Triple J (lttngStop env) (fun _ ↦ J) fun _ ↦ E :=
  triple_bind (h.call hp (by rfl)) fun ret ↦ triple_bind (triple_whenever (h.throw _)) fun _ ↦
    triple_bind (h.call hp (by rfl)) fun ret ↦ triple_whenever (h.throw _)

end Lttng

section Module

variable (h : Exits env J E ps fs) (hm : .module ∈ ps)

include h hm

theorem load (m : LinuxModule) : Triple J (m.load env) (fun _ ↦ J) fun _ ↦ E :=
  triple_bind (h.call hm (by rfl)) fun _ ↦ triple_whenever (h.call hm (by rfl))

theorem kernelBenchmark (count : ℕ) :
    Triple J (kernelBenchmark env count) (fun _ ↦ J) fun _ ↦ E :=
  triple_bind (h.load hm _) fun _ ↦ triple_bind (h.load hm _) fun _ ↦
    triple_bind (h.call hm (by rfl)) fun _ ↦ triple_bind (h.call hm (by rfl)) fun _ ↦
      triple_bind (h.ofExcept _) fun _ ↦ triple_keep _

theorem events : Triple J (events env) (fun _ ↦ J) fun _ ↦ E :=
  triple_bind (h.call hm (by rfl)) fun _ ↦ triple_keep _

end Module

section Cpu

variable (h : Exits env J E ps fs) (hc : .cpuRead ∈ ps)

include h hc

theorem readCpuFile (file : CpuFile) :
    Triple J (readCpuFile env file) (fun _ ↦ J) fun _ ↦ E :=
  triple_bind (h.call hc (by rfl)) fun _ ↦
    triple_bind (triple_get (Q := fun _ ↦ J) fun _ hw ↦ hw) fun _ ↦ h.ofExcept _

theorem onlineCount : Triple J (onlineCount env) (fun _ ↦ J) fun _ ↦ E :=
  triple_bind (h.readCpuFile hc _) fun _ ↦ triple_keep _

omit hc in
theorem setCpuOnline (hw : .cpuWrite ∈ ps) (online : Bool) (cpu : ℕ) :
    Triple J (setCpuOnline env online cpu) (fun _ ↦ J) fun _ ↦ E := by
  unfold Driver.setCpuOnline
  apply triple_bind (triple_get (Q := fun _ ↦ J) fun _ hw ↦ hw)
  intro w
  split
  · exact triple_bind (h.call hw (by rfl)) fun _ ↦ triple_keep _
  · exact h.throw _

theorem setOnlineCount (hw : .cpuWrite ∈ ps) (count : ℤ) :
    Triple J (setOnlineCount env count) (fun _ ↦ J) fun _ ↦ E := by
  apply triple_bind (h.readCpuFile hc _)
  intro online
  apply triple_bind (h.readCpuFile hc _)
  intro offline
  apply triple_bind (Q := fun _ ↦ J)
  · unfold changeOnlineCount
    dsimp only
    split
    · exact h.throw _
    split
    · exact h.throw _
    split
    · exact triple_bind (triple_order _) fun _ ↦ triple_forEach fun _ _ ↦ h.setCpuOnline hw _ _
    · exact triple_bind (triple_order _) fun _ ↦ triple_forEach fun _ _ ↦ h.setCpuOnline hw _ _
  intro _
  exact triple_bind (h.onlineCount hc) fun _ ↦ triple_whenever (h.throw _)

theorem setOnlineCpus (hw : .cpuWrite ∈ ps) (cpus : Finset ℕ) :
    Triple J (setOnlineCpus env cpus) (fun _ ↦ J) fun _ ↦ E := by
  have hset : ∀ s online, Triple J (setCpusOnline env s online) (fun _ ↦ J) fun _ ↦ E :=
    fun s online ↦ triple_setEachCpu fun _ _ ↦ h.setCpuOnline hw _ _
  exact triple_bind (h.readCpuFile hc _) fun _ ↦ triple_bind (hset _ _) fun _ ↦
    triple_bind (h.readCpuFile hc _) fun _ ↦ hset _ _

end Cpu

section Script

variable (h : Exits env J E ps fs) (hs : .script ∈ ps)

include h hs

theorem averageData (data : List Value) :
    Triple J (averageData env data) (fun _ ↦ J) fun _ ↦ E :=
  triple_bind (h.call hs (by rfl)) fun _ ↦ triple_bind (triple_keys _) fun _ ↦ triple_keep _

theorem writePlotProperties (flatData : Dict) (dstDir : String) :
    Triple J (writePlotProperties env flatData dstDir) (fun _ ↦ J) fun _ ↦ E :=
  triple_bind (h.call hs (by rfl)) fun _ ↦ triple_forEach fun _ _ ↦ h.call hs (by rfl)

end Script

end Exits

/-- An invariant that no step of the parts `ps` breaks, nor the frames `fs`. -/
structure Stable (J : World → Prop) (ps : List Part) (fs : List Frame) : Prop where
  step : ∀ {w : World} {s : Step} (r : Except Exc s.Result), s.part ∈ ps → J w → J (w.after s r)
  push : ∀ {w : World}, ∀ f ∈ fs, J w → J (w.push f)
  back : ∀ {w w' : World}, fs ≠ [] → J w → J w' → J (w'.back w)

namespace Stable

variable {env : Env} {J : World → Prop} {ps : List Part} {fs : List Frame}

theorem call (h : Stable J ps fs) {p : Part} (hp : p ∈ ps) {s : Step}
    (hs : s.part = p) : Keeps J (env.call s) :=
  keeps_call fun _ r hw ↦ h.step r (hs ▸ hp) hw

theorem exits (h : Stable J ps fs) : Exits env J J ps fs where
  call hp hs := h.call hp hs
  raise hw := hw
  push := h.push
  back := h.back
  backRaised := h.back

end Stable

/-- The parts `do_benchmarks` acts on: all but the states of the CPUs. -/
def Part.ofBenchmarks : List Part := [.lttng, .activation, .runner, .module, .cpuRead, .script]

/-- The frames below `do_benchmarks`. -/
def Frame.ofBenchmarks : List Frame := [.runner false, .runner true, .kernelPass, .baseRun]

/-- The parts and frames of the UST passes. -/
def Part.ofUst : List Part := [.lttng, .activation, .runner, .script]

def Frame.ofUst : List Frame := [.runner false, .runner true]

/-- The parts of a kernel pass. -/
def Part.ofKernel : List Part := [.lttng, .activation, .module, .cpuRead, .script]

namespace Exits

variable {env : Env} {J E : World → Prop} {ps : List Part} {fs : List Frame}
  (h : Exits env J E ps fs)

include h

theorem runBenchmarkTool (hps : Part.ofUst ⊆ ps) (hfs : Frame.ofUst ⊆ fs) (args : List String)
    (withUst : Bool) : Triple J (runBenchmarkTool env args withUst) (fun _ ↦ J) fun _ ↦ E := by
  have hl : Part.lttng ∈ ps := hps (by decide)
  apply h.frame (hfs (by cases withUst <;> decide))
  apply triple_bind (triple_whenever (h.lttngStart hl (hps (by decide)) _ _))
  intro _
  apply triple_bind (h.call (p := .runner) (hps (by decide)) (by rfl))
  intro output
  apply triple_bind (triple_whenever (h.lttngStop hl))
  intro _
  exact h.ofExcept _

theorem doUstBenchmark (hps : Part.ofUst ⊆ ps) (hfs : Frame.ofUst ⊆ fs) (b : Benchmark) :
    Triple J (doUstBenchmark env b) (fun _ ↦ J) fun _ ↦ E :=
  triple_bind (h.runBenchmarkTool hps hfs _ _) fun _ ↦
    triple_bind (h.runBenchmarkTool hps hfs _ _) fun _ ↦
      triple_bind (h.runBenchmarkTool hps hfs _ _) fun _ ↦
        triple_bind (h.call (p := .script) (hps (by decide)) (by rfl)) fun _ ↦ h.ofExcept _

theorem ustPasses (hps : Part.ofUst ⊆ ps) (hfs : Frame.ofUst ⊆ fs) (name : String) (b : Benchmark)
    (n : ℕ) (data : List Value) :
    Triple J (ustPasses env name b n data) (fun _ ↦ J) fun _ ↦ E :=
  triple_eachPass (fun _ ↦ h.doUstBenchmark hps hfs b) n data

/-- The UST passes hand over to the kernel passes. -/
theorem doBenchmarks (hps : Part.ofUst ⊆ ps) (hfs : Frame.ofUst ⊆ fs) (fullPasses fastPasses : ℕ)
    (hkernel : ∀ data, Triple J (kernelPasses env fullPasses data) (fun _ ↦ J) fun _ ↦ E) :
    Triple J (doBenchmarks env fullPasses fastPasses) (fun _ ↦ J) fun _ ↦ E :=
  triple_passes (fun _ _ _ ↦ h.doUstBenchmark hps hfs _) hkernel

/-- A kernel pass, by what holds outside of its frame and inside. -/
theorem doKernelBenchmark {P Q R : World → Prop} (hps : Part.ofKernel ⊆ ps) (hb : .baseRun ∈ fs)
    (hin : ∀ {w}, P w → J (w.push .kernelPass)) (hout : ∀ {w w'}, P w → J w' → Q (w'.back w))
    (hraised : ∀ {w w'}, P w → E w' → R (w'.back w)) (nrLoops : ℕ) :
    Triple P (doKernelBenchmark env nrLoops) (fun _ ↦ Q) fun _ ↦ R := by
  have hl : Part.lttng ∈ ps := hps (by decide)
  have hm : Part.module ∈ ps := hps (by decide)
  apply triple_inFrame
  intro w hw
  -- `P`, `Q` and `R` speak of the world outside of the frame, `J` and `E` of the one inside
  apply Triple.conseq (P := J) (Q := fun _ ↦ J) (E := fun _ ↦ E) ?_
  · rintro _ rfl
    exact hin hw
  · exact fun _ _ hw' ↦ hout hw hw'
  · exact fun _ _ hw' ↦ hraised hw hw'
  apply triple_bind (h.frame hb (h.kernelBenchmark hm nrLoops))
  intro baseRun
  apply triple_bind (h.events hm)
  intro names
  apply triple_bind (h.lttngStart hl (hps (by decide)) names .kernel)
  intro _
  apply triple_bind (h.kernelBenchmark hm nrLoops)
  intro tracingEnRun
  apply triple_bind (h.lttngStop hl)
  intro _
  apply triple_bind (h.onlineCount (hps (by decide)))
  intro cpuCount
  apply triple_bind (h.call (p := .script) (hps (by decide)) (by rfl))
  intro _
  exact h.ofExcept _

end Exits

/-! ## What a whole run keeps -/

namespace Exits

variable {env : Env} {J : World → Prop}

section Benchmarks

variable (h : Exits env J J Part.ofBenchmarks Frame.ofBenchmarks)

include h

theorem kernelPasses (n : ℕ) (data : List Value) : Keeps J (kernelPasses env n data) := by
  have hne : Frame.ofBenchmarks ≠ [] := by decide
  have hpass : Keeps J (Driver.doKernelBenchmark env 1000000) :=
    h.doKernelBenchmark (by decide) (by decide) (h.push _ (by decide)) (h.back hne)
      (h.back hne) 1000000
  induction n generalizing data with
  | zero => exact keeps_pure _
  | succ n ih =>
    apply keeps_bind
    · apply keeps_tryCatch
      · exact keeps_bind hpass fun _ ↦ keeps_pure _
      · exact fun _ ↦ keeps_bind (h.call (p := .script) (by decide) (by rfl)) fun _ ↦
          keeps_pure _
    intro result
    cases result with
    | none => exact keeps_pure _
    | some result => exact ih _

theorem keepsBenchmarks (fullPasses fastPasses : ℕ) :
    Keeps J (Driver.doBenchmarks env fullPasses fastPasses) :=
  h.doBenchmarks (by decide) (by decide) _ _ fun data ↦ h.kernelPasses _ data

end Benchmarks

/-- What no step and no frame of `main` breaks. -/
theorem main (h : Exits env J J (.cpuWrite :: Part.ofBenchmarks) Frame.ofBenchmarks)
    (hlevel : ∀ w c, J w → J (w.push (.level c))) : Keeps J (Driver.main env) := by
  have hs : Part.script ∈ .cpuWrite :: Part.ofBenchmarks := by decide
  have hpasses : Exits env J J Part.ofBenchmarks Frame.ofBenchmarks :=
    ⟨fun hp ↦ h.call (List.mem_cons_of_mem _ hp), h.raise, h.push, h.back, h.backRaised⟩
  have hlevels : ∀ l allData allAvg, Keeps J (levels env l allData allAvg) := by
    intro l
    induction l with
    | nil => exact fun _ _ ↦ keeps_pure _
    | cons c l ih =>
      intro allData allAvg
      apply keeps_bind
      · apply keeps_tryCatch
        · exact keeps_bind (h.setOnlineCount (by decide) (by decide) _) fun _ ↦ keeps_pure _
        · exact fun _ ↦ keeps_bind (h.call hs (by rfl)) fun _ ↦ keeps_pure _
      intro isSet
      split
      · apply keeps_bind
        · exact keeps_inFrame (hpasses.keepsBenchmarks 5 100) (fun w ↦ hlevel w c)
            fun _ _ hw hw' ↦ h.back (by decide) hw hw'
        intro data
        exact keeps_bind (h.averageData hs data) fun _ ↦ ih _ _
      · exact keeps_pure _
  apply keeps_bind (h.onlineCount (by decide))
  intro n
  apply keeps_bind (hlevels _ _ _)
  rintro ⟨allData, allAvg⟩
  apply keeps_bind (h.call hs (by rfl))
  intro uname
  exact keeps_bind (h.writePlotProperties hs _ _) fun _ ↦ h.call hs (by rfl)

theorem cleanup {ps : List Part} {fs : List Frame} (h : Exits env J J ps fs) (hl : .lttng ∈ ps)
    (hm : .module ∈ ps) (hs : .script ∈ ps) : Keeps J (Driver.cleanup env) := by
  have hunload : ∀ m : LinuxModule, Keeps J (m.unload env) := fun m ↦
    keeps_bind (h.call hm (by rfl)) fun _ ↦ keeps_when (h.call hm (by rfl))
  have hkill : Keeps J (killSessiond env) := by
    apply keeps_bind (h.call hs (by rfl))
    intro line
    exact keeps_bind (keeps_ofExcept _) fun pid ↦ h.call hs (by rfl)
  apply keeps_bind (h.call hl (by rfl))
  intro _
  apply keeps_bind (h.call hl (by rfl))
  intro _
  apply keeps_bind (keeps_bind (hunload _) fun _ ↦ hunload _)
  intro _
  apply keeps_bind (keeps_tryCatch hkill fun _ ↦ keeps_when (keeps_throw _))
  exact fun _ ↦ h.call hs (by rfl)

/-- What no step and no frame of the script breaks. -/
theorem script (h : Exits env J J (.cpuWrite :: Part.ofBenchmarks) (.restore :: Frame.ofBenchmarks))
    (hlevel : ∀ w c, J w → J (w.push (.level c))) : Keeps J (Driver.script env) := by
  have hmain : Exits env J J (.cpuWrite :: Part.ofBenchmarks) Frame.ofBenchmarks :=
    ⟨h.call, h.raise, fun f hf ↦ h.push f (List.mem_cons_of_mem _ hf),
      fun _ ↦ h.back (List.cons_ne_nil _ _), fun _ ↦ h.backRaised (List.cons_ne_nil _ _)⟩
  apply keeps_bind (h.readCpuFile (by decide) _)
  intro saved
  apply triple_tryFinally (keeps_tryCatch (hmain.main hlevel) fun _ ↦ keeps_when (keeps_throw _))
  apply h.frame List.mem_cons_self
  exact keeps_bind (h.cleanup (by decide) (by decide) (by decide)) fun _ ↦
    h.setOnlineCpus (by decide) (by decide) saved

end Exits

end UstBench.Driver
