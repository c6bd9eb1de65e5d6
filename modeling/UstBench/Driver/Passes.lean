import UstBench.Driver.Benchmarks
import Mathlib.Tactic.NormNum

/-!
# Passes that go through

When no step of the UST passes fails, `do_benchmarks` returns, whatever becomes of its kernel passes,
and the session is off behind every UST pass.
-/

namespace UstBench.Driver

open Reasoning Reasoning.Prog

/-- The replies that let a UST pass go on, when the runner reports `reports`. -/
def Step.Good (reports : Json) : (s : Step) → s.Result → Prop
  | .destroy, ret | .createSnapshot, ret | .enableChannel, ret | .enableEvent _, ret => 0 ≤ ret
  | .start, ret | .stop, ret => 0 ≤ ret
  | .handle _, made => made = true
  | .checkOutput _, output => jsonLoads output = some reports
  | _, _ => True

/-- No step of a UST pass, nor of the script's own, fails. -/
structure Env.Obliging (env : Env) (reports : Json) : Prop where
  reply : ∀ w s, s.part = .lttng ∨ s.part = .activation ∨ s.part = .runner ∨ s.part = .script →
    ∃ r, env.reply w s = .ok r ∧ s.Good reports r

section Obliging

variable {env : Env} {reports : Json} (ho : env.Obliging reports) {J : World → Prop}
  {E : Exc → World → Prop}

include ho

theorem Env.Obliging.call {s : Step} {Q : s.Result → World → Prop}
    (hs : s.part = .lttng ∨ s.part = .activation ∨ s.part = .runner ∨ s.part = .script)
    (h : ∀ w r, J w → s.Good reports r → Q r (w.after s (.ok r))) :
    Triple J (env.call s) Q E := by
  apply triple_call
  · intro w r hw hr
    rcases ho.reply w s hs with ⟨r', hr', hgood⟩
    rw [hr'] at hr
    cases hr
    exact h w _ hw hgood
  · intro w e _ he
    rcases ho.reply w s hs with ⟨r', hr', _⟩
    rw [hr'] at he
    cases he

omit ho in
theorem triple_raiseIfNegative {ret : ℤ} :
    Triple (fun w ↦ J w ∧ 0 ≤ ret) (raiseIfNegative env ret) (fun _ ↦ J) E := by
  apply triple_assume
  intro hret
  exact triple_when (fun hn ↦ absurd hret (not_le.mpr hn)) fun _ _ hw ↦ hw

/-- A step of LTTng that changes nothing the caller looks at. -/
theorem Env.Obliging.lttng {s : Step} (hs : s.part = .lttng) :
    Triple (fun _ ↦ True) (env.call s) (fun r _ ↦ True ∧ s.Good reports r) E :=
  ho.call (.inl hs) fun _ _ _ hgood ↦ ⟨trivial, hgood⟩

theorem returns_lttngPrepare (names : List String) (d : Domain) :
    Triple (fun _ ↦ True) (lttngPrepare env names d) (fun _ _ ↦ True) E := by
  have hdrop : ∀ {s : Step}, s.part = .lttng →
      Triple (fun _ ↦ True) (env.call s) (fun _ _ ↦ True) E :=
    fun hs ↦ (ho.lttng hs).conseq (fun _ hw ↦ hw) (fun _ _ _ ↦ trivial) fun _ _ he ↦ he
  unfold lttngPrepare
  apply triple_bind (hdrop rfl)
  intro alive
  apply triple_bind (triple_when (fun _ ↦ hdrop rfl) fun _ _ _ ↦ trivial)
  intro _
  apply triple_bind (hdrop rfl)
  intro _
  apply triple_bind (ho.lttng rfl)
  intro ret
  apply triple_bind triple_raiseIfNegative
  intro _
  apply triple_bind (hdrop rfl)
  intro _
  apply triple_bind (ho.lttng rfl)
  intro han
  apply triple_assume
  -- the handle is there, so the branch of `None` is not taken
  intro hhan
  cases hhan
  apply triple_bind (Q := fun _ _ ↦ True) (triple_when nofun fun _ _ _ ↦ trivial)
  intro _
  apply triple_bind (ho.lttng rfl)
  intro ret
  apply triple_bind triple_raiseIfNegative
  intro _
  apply triple_forEach
  intro name _
  exact triple_bind (ho.lttng rfl) fun ret ↦ triple_raiseIfNegative

theorem returns_lttngStart (names : List String) (d : Domain) :
    Triple (fun _ ↦ True) (lttngStart env names d) (fun _ w ↦ w.active = true) E := by
  unfold lttngStart
  apply triple_bind (returns_lttngPrepare ho names d)
  intro _
  apply triple_bind (Q := fun ret w ↦ w.active = true ∧ 0 ≤ ret)
  · apply ho.call (.inr (.inl rfl))
    intro w ret _ hgood
    have hret : 0 ≤ ret := hgood
    refine ⟨?_, hret⟩
    change (w.active || decide (0 ≤ ret)) = true
    rw [decide_eq_true hret, Bool.or_true]
  · exact fun ret ↦ triple_raiseIfNegative

theorem returns_lttngStop :
    Triple (fun _ ↦ True) (lttngStop env) (fun _ w ↦ w.active = false) E := by
  have hoff : ∀ {w : World} {ret : ℤ}, 0 ≤ ret → (w.active && decide (ret < 0)) = false := by
    intro w ret hret
    rw [decide_eq_false (not_lt.mpr hret), Bool.and_false]
  unfold lttngStop
  apply triple_bind (Q := fun ret w ↦ w.active = false ∧ 0 ≤ ret)
  · exact ho.call (.inl rfl) fun w ret _ hgood ↦ ⟨hoff (w := w) hgood, hgood⟩
  intro ret
  apply triple_bind triple_raiseIfNegative
  intro _
  apply triple_bind (Q := fun ret w ↦ w.active = false ∧ 0 ≤ ret)
  · exact ho.call (.inl rfl) fun w ret _ hgood ↦ ⟨hoff (w := w) hgood, hgood⟩
  · exact fun ret ↦ triple_raiseIfNegative

theorem returns_runBenchmarkTool (args : List String) (withUst : Bool) :
    Triple (fun w ↦ w.active = false) (runBenchmarkTool env args withUst)
      (fun v w ↦ w.active = false ∧ v = reports) E := by
  apply triple_inFrame
  intro w hw
  -- the session is on during the run of the tool exactly if it is asked for
  apply triple_bind (Q := fun _ w' ↦ w'.active = withUst)
  · cases withUst with
    | false =>
      apply triple_when nofun
      rintro _ _ rfl
      exact hw
    | true =>
      apply triple_when (fun _ ↦ ?_) fun h ↦ absurd rfl h
      exact (returns_lttngStart ho _ _).conseq (fun _ _ ↦ trivial) (fun _ _ hq ↦ hq) fun _ _ he ↦ he
  intro _
  apply triple_bind (Q := fun output w' ↦ w'.active = withUst ∧ jsonLoads output = some reports)
  · apply ho.call (.inr (.inr (.inl rfl)))
    exact fun w' output hw' hgood ↦ ⟨by rw [World.after_active (by nofun) (by nofun), hw'], hgood⟩
  intro output
  apply triple_assume
  intro houtput
  rw [houtput]
  apply triple_bind (Q := fun _ w' ↦ w'.active = false)
  · cases withUst with
    | false => exact triple_when nofun fun _ _ hw' ↦ hw'
    | true =>
      apply triple_when (fun _ ↦ ?_) fun h ↦ absurd rfl h
      exact (returns_lttngStop ho).conseq (fun _ _ ↦ trivial) (fun _ _ hq ↦ hq) fun _ _ he ↦ he
  · exact fun _ ↦ triple_pure _ fun w' hw' ↦ ⟨hw', rfl⟩

theorem returns_doUstBenchmark {b : Benchmark}
    (hb : ∃ v, ustResult b reports reports reports = .ok v) :
    Triple (fun w ↦ w.active = false) (doUstBenchmark env b) (fun _ w ↦ w.active = false) E := by
  rcases hb with ⟨v, hv⟩
  have htool := fun args withUst ↦ returns_runBenchmarkTool (E := E) ho args withUst
  unfold doUstBenchmark
  apply triple_bind (htool _ _)
  intro baseAll
  apply triple_assume
  rintro rfl
  apply triple_bind (htool _ _)
  intro ustAll
  apply triple_assume
  rintro rfl
  apply triple_bind (htool _ _)
  intro ustEnAll
  apply triple_assume
  rintro rfl
  apply triple_bind (Q := fun _ w ↦ w.active = false)
  · apply ho.call (.inr (.inr (.inr rfl)))
    exact fun w _ hw _ ↦ by rw [World.after_active (by nofun) (by nofun), hw]
  · rw [hv]
    exact fun _ ↦ triple_pure _ fun _ hw ↦ hw

/-- The kernel passes return, whatever happens in them. -/
theorem returns_kernelPasses (n : ℕ) (data : List Value) :
    Triple (fun _ ↦ True) (kernelPasses env n data) (fun _ _ ↦ True) E := by
  induction n generalizing data with
  | zero => exact triple_pure _ fun _ hw ↦ hw
  | succ n ih =>
    apply triple_bind (Q := fun _ _ ↦ True)
    · apply triple_tryCatch (E := fun _ _ ↦ True)
      · exact keeps_true _
      · intro e
        apply triple_bind (Q := fun _ _ ↦ True)
        · exact ho.call (.inr (.inr (.inr rfl))) fun _ _ _ _ ↦ trivial
        · exact fun _ ↦ triple_pure _ fun _ _ ↦ trivial
    · intro result
      cases result with
      | none => exact triple_pure _ fun _ _ ↦ trivial
      | some result => exact ih _

/-- With reports that every benchmark can be computed from, `do_benchmarks` returns. -/
theorem returns_doBenchmarks {p : World → Prop} (full fast : ℕ)
    (hb : ∀ b : Benchmark, b.nrLoops ≠ some 0 → b.tpPerLoop ≠ 0 →
      ∃ v, ustResult b reports reports reports = .ok v)
    (hkernel : ∀ data, Triple (fun w ↦ w.active = false) (kernelPasses env full data)
      (fun _ ↦ p) E) :
    Triple (fun w ↦ w.active = false) (doBenchmarks env full fast) (fun _ ↦ p) E := by
  have hcounts : ∀ q ∈ ustBenchmarks full fast, q.2.1.nrLoops ≠ some 0 ∧ q.2.1.tpPerLoop ≠ 0 := by
    simp [ustBenchmarks]
  exact triple_passes (P := fun _ w ↦ w.active = false)
    (fun q hq _ ↦ returns_doUstBenchmark ho (hb _ (hcounts q hq).1 (hcounts q hq).2)) hkernel

end Obliging

/-! ## Levels that go through -/

theorem stable_active (b : Bool) {ps : List Part} (fs : List Frame) (hp : .lttng ∉ ps)
    (ha : .activation ∉ ps) : Stable (fun w ↦ w.active = b) ps fs where
  step _ hs hw :=
    (World.after_active (fun he ↦ hp (he ▸ hs)) fun he ↦ ha (he ▸ hs)).trans hw
  push _ _ hw := hw
  back _ _ hw := hw

theorem stable_online (x : Finset ℕ) {ps : List Part} (fs : List Frame) (hp : .cpuWrite ∉ ps) :
    Stable (fun w ↦ w.online = x) ps fs where
  step _ hs hw := (World.after_online fun he ↦ hp (he ▸ hs)).trans hw
  push _ _ hw := hw
  back _ _ hw := hw

section Levels

variable {env : Env} {reports : Json} (ho : env.Obliging reports) (ha : env.AcceptsWrites)
  (hr : ∀ w file, env.reply w (.readCpuFile file) = .ok ())
  (hb : ∀ b : Benchmark, b.nrLoops ≠ some 0 → b.tpPerLoop ≠ 0 →
    ∃ v, ustResult b reports reports reports = .ok v)
  {p I : World → Prop} {x : Finset ℕ} {k : ℕ} {E : Exc → World → Prop}

include ha hr in
/-- The start of a level, with the hotplug files working. -/
theorem returns_setLevel (hp : Stable p [.cpuRead, .cpuWrite, .script] []) (hk : 1 ≤ k)
    (hx : k ≤ x.card) (handler : Exc → Prog World Exc Bool) :
    Triple (fun w ↦ w.online = x ∧ p w)
      (tryCatch (do setOnlineCount env k; pure true) handler)
      (fun isSet w ↦ (w.online = lowest k x ∧ p w) ∧ isSet = true) E := by
  have hset := (triple_setOnlineCount (E := fun _ _ ↦ False) ha hr hk hx).both
    (hp.exits.setOnlineCount (by decide) (by decide) k)
  apply triple_tryCatch (E := fun _ _ ↦ False)
  · apply triple_bind (hset.conseq (fun _ hw ↦ hw) (fun _ _ hw ↦ hw) fun _ _ he ↦ he.1)
    exact fun _ ↦ triple_pure _ fun _ hw ↦ ⟨hw, rfl⟩
  · exact fun _ ↦ triple_false

variable (hkernel : ∀ data, Triple (fun w ↦ w.active = false) (kernelPasses env 5 data)
    (fun _ ↦ p) fun _ _ ↦ False)
  (hp : Stable p [.cpuRead, .cpuWrite, .script] []) (hback : ∀ w w', p w' → p (w'.back w))

include ho hb hkernel hback in
/-- The passes of a level, with the UST passes going well. -/
theorem returns_level : Triple (fun w ↦ w.online = x ∧ w.active = false)
    (inFrame (.level k) (doBenchmarks env 5 100)) (fun _ w ↦ w.online = x ∧ p w) E := by
  apply triple_inFrame
  intro w hw
  apply (((stable_online x _ (by decide)).exits.keepsBenchmarks 5 100).both
    (returns_doBenchmarks ho 5 100 hb hkernel)).conseq
  · rintro _ rfl
    exact hw
  · exact fun _ w' hw' ↦ ⟨hw'.1, hback w w' hw'.2⟩
  · exact fun _ _ he ↦ he.2.elim

variable (hI : Stable I [.script] []) (hlast : Triple (fun w ↦ w.online = lowest 1 x ∧ p w)
  (inFrame (.level 1) (doBenchmarks env 5 100)) (fun _ ↦ I) fun _ ↦ I)

include ho ha hr hb hkernel hp hback hI hlast

/-- On two CPUs the first level goes through, and what the second one ends with is kept. -/
theorem triple_twoLevels (hx : x.card = 2) (allData allAvg : Dict) :
    Triple (fun w ↦ w.online = x ∧ w.active = false) (levels env (countdown 2) allData allAvg)
      (fun _ ↦ I) fun _ ↦ I := by
  have hall : lowest 2 x = x := lowest_eq_self hx.le
  rw [countdown_succ, levels]
  apply triple_bind (returns_setLevel ha hr (stable_active false [] (by decide) (by decide))
    (by omega) hx.ge _)
  intro isSet
  apply triple_assume
  rintro rfl
  rw [hall, if_pos rfl]
  apply triple_bind (returns_level ho hb hkernel hback)
  intro data
  apply triple_bind (Q := fun _ w ↦ w.online = x ∧ p w)
  · apply triple_bind (Q := fun _ w ↦ w.online = x ∧ p w)
    · apply ho.call (.inr (.inr (.inr rfl)))
      exact fun w r hw _ ↦ ⟨by rw [World.after_online (by nofun), hw.1],
        hp.step _ (by decide) hw.2⟩
    · exact fun _ ↦ triple_bind (triple_keys _) fun _ ↦ triple_pure _ fun _ hw ↦ hw
  intro avgData
  -- the second level, on the lowest CPU alone
  rw [countdown_succ, levels]
  apply triple_bind (returns_setLevel ha hr hp (by omega) (by omega) _)
  intro isSet
  apply triple_assume
  rintro rfl
  rw [if_pos rfl]
  apply triple_bind hlast
  intro data
  exact keeps_bind (hI.exits.averageData (by decide) data) fun _ ↦ triple_pure _ fun _ h ↦ h

theorem triple_twoLevels_main (hx : x.card = 2) :
    Triple (fun w ↦ w.online = x ∧ w.active = false) (main env) (fun _ ↦ I) fun _ ↦ I := by
  unfold main
  apply triple_bind (triple_onlineCount (m := x.card)
    (fun w _ hw ↦ ⟨by rw [World.after_online (by nofun), hw.1],
      by rw [World.after_active (by nofun) (by nofun), hw.2]⟩)
    (fun w hw ↦ by rw [hw.1]) fun w e _ he ↦ by rw [hr] at he; cases he)
  intro n
  apply triple_assume
  rintro rfl
  rw [hx]
  apply triple_bind (triple_twoLevels ho ha hr hb hkernel hp hback hI hlast hx [] [])
  rintro ⟨allData, allAvg⟩
  apply keeps_bind (hI.call (p := .script) (by decide) (by rfl))
  intro uname
  exact keeps_bind (hI.exits.writePlotProperties (by decide) _ _) fun _ ↦
    hI.call (p := .script) (by decide) (by rfl)

end Levels

/-- With the hotplug files working and the UST passes going well, the loop of `main` leaves only the
lowest of two CPUs online. -/
theorem lowered_main {env : Env} {reports : Json} {x : Finset ℕ} (ho : env.Obliging reports)
    (ha : env.AcceptsWrites)
    (hr : ∀ w file, env.reply w (.readCpuFile file) = .ok ())
    (hb : ∀ b : Benchmark, b.nrLoops ≠ some 0 → b.tpPerLoop ≠ 0 →
      ∃ v, ustResult b reports reports reports = .ok v) (hx : x.card = 2) :
    Triple (fun w ↦ w.online = x ∧ w.active = false) (main env) (fun _ w ↦ w.online = lowest 1 x)
      fun _ w ↦ w.online = lowest 1 x := by
  apply triple_twoLevels_main (p := fun _ ↦ True) ho ha hr hb _ _ _ _ _ hx
  · exact fun data ↦ (returns_kernelPasses ho 5 data).conseq (fun _ _ ↦ trivial) (fun _ _ h ↦ h)
      fun _ _ h ↦ h
  · exact ⟨fun _ _ _ ↦ trivial, fun _ _ _ ↦ trivial, fun _ _ _ ↦ trivial⟩
  · exact fun _ _ _ ↦ trivial
  · exact stable_online _ [] (by decide)
  · exact (keeps_inFrame ((stable_online _ _ (by decide)).exits.keepsBenchmarks 5 100) (fun _ h ↦ h)
      fun _ _ _ h ↦ h).conseq (fun _ h ↦ h.1) (fun _ _ h ↦ h) fun _ _ h ↦ h

/-! ## An environment in which all goes well -/

/-- What one process reports: its four events, a second apart. -/
def sampleRun : Report :=
  [([101, 120, 101, 99], ⟨1, 0⟩), ([109, 97, 105, 110], ⟨2, 0⟩),
    ([115, 116, 97, 114, 116], ⟨3, 0⟩), ([101, 110, 100], ⟨4, 0⟩)]

def sampleReports : Json := .arr [jsonReport sampleRun]

theorem jsonLoads_sample : jsonLoads (stdoutBytes (document [sampleRun])) = some sampleReports := by
  apply jsonLoads_document
  intro r hr
  rw [List.mem_singleton] at hr
  subst hr
  intro e he
  simp only [sampleRun, List.mem_cons, List.not_mem_nil, or_false] at he
  rcases he with rfl | rfl | rfl | rfl
  all_goals exact ⟨by simp [Printable], by decide, by decide, by decide, by decide⟩

theorem difference_sample :
    difference (jsonReport sampleRun) "main" "exec" = .ok 1 ∧
      difference (jsonReport sampleRun) "end" "start" = .ok 1 := by
  have hexec : member (jsonReport sampleRun) "exec" = .ok (.num ((1 : ℤ) + (0 : ℤ) / 10 ^ 9)) := rfl
  have hmain : member (jsonReport sampleRun) "main" = .ok (.num ((2 : ℤ) + (0 : ℤ) / 10 ^ 9)) := rfl
  have hstart : member (jsonReport sampleRun) "start" = .ok (.num ((3 : ℤ) + (0 : ℤ) / 10 ^ 9)) :=
    rfl
  have hend : member (jsonReport sampleRun) "end" = .ok (.num ((4 : ℤ) + (0 : ℤ) / 10 ^ 9)) := rfl
  have hsub : ∀ x y : ℚ, (do return (← number (.num x)) - (← number (.num y)) : Except Exc ℚ) =
      .ok (x - y) := fun _ _ ↦ rfl
  constructor
  · rw [difference, hmain, hexec]
    apply (hsub _ _).trans
    norm_num
  · rw [difference, hend, hstart]
    apply (hsub _ _).trans
    norm_num

theorem ustResult_sample (b : Benchmark) (hl : b.nrLoops ≠ some 0) (ht : b.tpPerLoop ≠ 0) :
    ∃ v, ustResult b sampleReports sampleReports sampleReports = .ok v := by
  rcases b with ⟨baseline, ust, nrLoops, tpPerLoop⟩
  have hadd : ∀ o, Sums.add o sampleReports sampleReports sampleReports {} 0 =
      .ok (if o.isSome then ⟨1, 1, 0, 1, 0, 1, 1, 1⟩ else ⟨1, 1, 0, 1, 0, 0, 0, 0⟩) := by
    intro o
    have hitem : item sampleReports 0 = .ok (jsonReport sampleRun) := rfl
    cases o <;>
      simp [Sums.add, hitem, difference_sample, bind, Except.bind, pure, Except.pure]
  have hlen : len sampleReports = .ok 1 := rfl
  cases nrLoops with
  | none => simp [ustResult, hlen, hadd, runTimes, div, bind, Except.bind, pure, Except.pure]
  | some n =>
    simp only [ne_eq, Option.some.injEq] at hl ht
    simp [ustResult, hlen, hadd, runTimes, div, hl, ht, bind, Except.bind, pure, Except.pure]

/-- Takes sets in ascending order, and replies to every step. -/
def Env.of (reply : World → (s : Step) → Except Exc s.Result) : Env where
  reply := reply
  cpuOrder _ s := ascending s
  cpuOrder_nodup _ _ := List.nodup_range.filter _
  cpuOrder_toFinset _ s := by
    ext x
    rw [List.mem_toFinset, mem_ascending]
  keyOrder _ ks := ks
  keyOrder_perm _ ks := .refl ks
  strerror _ := "error"
  str _ := "1.0"
  pformat _ := "data"

def goodReply : (s : Step) → Except Exc s.Result
  | .sessionDaemonAlive => .ok 1
  | .destroy | .createSnapshot | .enableChannel | .enableEvent _ | .start | .stop => .ok 0
  | .handle _ | .isLoaded _ | .writeCpu _ _ => .ok true
  | .checkOutput _ => .ok (stdoutBytes (document [sampleRun]))
  | .readTime => .ok ['1', '5']
  | .readPidFile => .ok ['7']
  | .readEvents => .ok []
  | .uname => .ok []
  | .launchSessiond | .channelSetDefaultAttr _ | .insmod _ | .rmmod _ | .writeCount _ => .ok ()
  | .readCpuFile _ | .compute | .print _ | .makedirs _ | .writeFile _ _ | .kill _ | .rmtree => .ok ()

/-- All goes well but the steps that `faulty` holds of. -/
def Env.withFault (faulty : World → Step → Bool) : Env :=
  .of fun w s ↦ if faulty w s then .error .calledProcessError else goodReply s

section Faulty

variable {faulty : World → Step → Bool} (h : ∀ w s, faulty w s = true → s.part = .module)

include h

theorem reply_withFault {s : Step} (w : World) (hs : s.part ≠ .module) :
    (Env.withFault faulty).reply w s = goodReply s := by
  have hok : faulty w s = false := by
    cases hf : faulty w s with
    | false => rfl
    | true => exact absurd (h w s hf) hs
  simp [Env.withFault, Env.of, hok]

theorem obliging_withFault : (Env.withFault faulty).Obliging sampleReports where
  reply w s hs := by
    rw [reply_withFault h w (by rcases hs with hs | hs | hs | hs <;> rw [hs] <;> decide)]
    cases s
    case checkOutput args => exact ⟨_, rfl, jsonLoads_sample⟩
    case handle d => exact ⟨true, rfl, rfl⟩
    case destroy | createSnapshot | enableChannel | enableEvent | start | stop =>
      exact ⟨0, rfl, le_refl (0 : ℤ)⟩
    all_goals exact ⟨_, rfl, trivial⟩

theorem acceptsWrites_withFault : (Env.withFault faulty).AcceptsWrites :=
  fun w _ _ ↦ reply_withFault h w (by nofun)

theorem reads_withFault (w : World) (file : CpuFile) :
    (Env.withFault faulty).reply w (.readCpuFile file) = .ok () :=
  reply_withFault h w (by nofun)

end Faulty

/-- Nothing fails. -/
def Env.good : Env := .withFault fun _ _ ↦ false

/-- Every step so far had the reply it has when all goes well. -/
def AllGood (w : World) : Prop := ∀ e ∈ w.log, e.reply = goodReply e.step

theorem keeps_allGood (s : Step) : Keeps AllGood (Env.good.call s) := by
  have hlog : ∀ {w : World}, AllGood w → AllGood (w.after s (goodReply s)) :=
    fun hw ↦ List.forall_mem_cons.mpr ⟨rfl, hw⟩
  apply triple_call
  · intro w r hw hr
    have hreply : goodReply s = .ok r := hr
    rw [← hreply]
    exact hlog hw
  · intro w e hw he
    have hreply : goodReply s = .error e := he
    rw [← hreply]
    exact hlog hw

theorem exits_allGood (ps : List Part) (fs : List Frame) :
    Exits Env.good AllGood AllGood ps fs where
  call _ _ := keeps_allGood _
  raise hw := hw
  push _ _ hw := hw
  back _ _ hw := hw
  backRaised _ _ hw := hw

/-- A machine with two CPUs, at the start of the script. -/
def twoCpus : World := ⟨{0, 1}, {0, 1}, subset_rfl, false, [], []⟩

/-- Both levels are gone through, and the lowest CPU alone is left online. -/
theorem goodMain_online (w : World) (h : w.online = {0, 1} ∧ w.active = false) :
    (run (main Env.good) w).2.online = {0} := by
  have hmain := @lowered_main Env.good _ {0, 1} (obliging_withFault nofun)
    (acceptsWrites_withFault nofun) (reads_withFault nofun) ustResult_sample rfl
  have hlowest : lowest 1 {0, 1} = {0} := by decide
  rw [← hlowest]
  exact hmain.at_end h

end UstBench.Driver
