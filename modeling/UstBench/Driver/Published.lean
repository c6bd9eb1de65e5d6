import UstBench.Driver.Averages

/-!
# What `main` publishes

The results of the benchmarks are passes, so what the loop of `main` has averaged when it ends is
what its measurements say.
-/

namespace UstBench.Driver

open Reasoning Reasoning.Prog

/-! ## The results of the benchmarks -/

instance : DecidablePred IsPart := fun _ ↦ inferInstanceAs (Decidable (_ ∧ _ ∧ _))

theorem wellFormed_dict {items : List (String × Value)} (keys : List String)
    (hitems : items.map Prod.fst = keys) (hkeys : keys.Nodup ∧ ∀ key ∈ keys, IsPart key)
    (h : ∀ p ∈ items, p.2.WellFormed) : (Value.dict items).WellFormed := by
  subst hitems
  rw [Value.WellFormed, wellFormedItems_iff]
  exact ⟨hkeys.1, fun p hp ↦ ⟨hkeys.2 p.1 (List.mem_map_of_mem hp), h p hp⟩⟩

theorem wellFormed_num (q : ℚ) : (Value.num q).WellFormed := by simp [Value.WellFormed]

theorem wellFormed_argsValue (args : List String) : (argsValue args).WellFormed := by
  rw [argsValue, Value.WellFormed, wellFormedElements_iff]
  intro v hv
  rcases List.mem_map.mp hv with ⟨s, -, rfl⟩
  simp [Value.WellFormed]

/-- The times of the loop are numbers, or absent all together. -/
theorem wellFormed_runTimes {b : Benchmark} {n : ℚ} {s : Sums}
    {t : Value × Value × Value × Value × Value} (h : runTimes b n s = .ok t) :
    t.1.WellFormed ∧ t.2.1.WellFormed ∧ t.2.2.1.WellFormed ∧ t.2.2.2.1.WellFormed ∧
      t.2.2.2.2.WellFormed := by
  unfold runTimes at h
  cases hl : b.nrLoops with
  | none =>
    rw [hl] at h
    cases h
    have hnone : Value.none.WellFormed := by simp [Value.WellFormed]
    exact ⟨hnone, hnone, hnone, hnone, hnone⟩
  | some nrLoops =>
    rw [hl] at h
    rcases except_bind_eq_ok h with ⟨_, -, h⟩
    rcases except_bind_eq_ok h with ⟨_, -, h⟩
    rcases except_bind_eq_ok h with ⟨_, -, h⟩
    rcases except_bind_eq_ok h with ⟨_, -, h⟩
    rcases except_bind_eq_ok h with ⟨_, -, h⟩
    cases h
    exact ⟨wellFormed_num _, wellFormed_num _, wellFormed_num _, wellFormed_num _,
      wellFormed_num _⟩

theorem wellFormed_ustResult {b : Benchmark} {base ust ustEn : Json} {v : Value}
    (h : ustResult b base ust ustEn = .ok v) : v.WellFormed := by
  unfold ustResult at h
  rcases except_bind_eq_ok h with ⟨_, -, h⟩
  rcases except_bind_eq_ok h with ⟨_, -, h⟩
  rcases except_bind_eq_ok h with ⟨_, -, h⟩
  rcases except_bind_eq_ok h with ⟨_, -, h⟩
  rcases except_bind_eq_ok h with ⟨_, -, h⟩
  rcases except_bind_eq_ok h with ⟨_, -, h⟩
  rcases except_bind_eq_ok h with ⟨_, -, h⟩
  rcases except_bind_eq_ok h with ⟨⟨baseRun, ustRun, ustEnRun, ustNs, ustEnNs⟩, ht, h⟩
  rcases except_bind_eq_ok h with ⟨_, -, h⟩
  rcases except_bind_eq_ok h with ⟨_, -, h⟩
  cases h
  rcases wellFormed_runTimes ht with ⟨hbase, hust, hustEn, hustNs, hustEnNs⟩
  -- one dictionary for each mode, whose entries are the arguments and numbers
  apply wellFormed_dict ["baseline", "tracing_disabled", "tracing_enabled"] rfl (by decide)
  simp only [List.forall_mem_cons, List.not_mem_nil, false_imp_iff, implies_true, and_true]
  refine ⟨?_, ?_, ?_⟩
  · apply wellFormed_dict ["args", "start_time", "run_time"] rfl (by decide)
    simp only [List.forall_mem_cons, List.not_mem_nil, false_imp_iff, implies_true, and_true]
    exact ⟨wellFormed_argsValue _, wellFormed_num _, hbase⟩
  · apply wellFormed_dict ["args", "start_time", "run_time", "ns_per_event", "start_overhead_s",
      "start_overhead_pct"] rfl (by decide)
    simp only [List.forall_mem_cons, List.not_mem_nil, false_imp_iff, implies_true, and_true]
    exact ⟨wellFormed_argsValue _, wellFormed_num _, hust, hustNs, wellFormed_num _,
      wellFormed_num _⟩
  · apply wellFormed_dict ["args", "start_time", "run_time", "ns_per_event", "start_overhead_s",
      "start_overhead_pct"] rfl (by decide)
    simp only [List.forall_mem_cons, List.not_mem_nil, false_imp_iff, implies_true, and_true]
    exact ⟨wellFormed_argsValue _, wellFormed_num _, hustEn, hustEnNs, wellFormed_num _,
      wellFormed_num _⟩

theorem wellFormed_kernelResult {nrLoops cpuCount : ℕ} {baseRun tracingEnRun : ℚ} {v : Value}
    (h : kernelResult nrLoops cpuCount baseRun tracingEnRun = .ok v) : v.WellFormed := by
  unfold kernelResult at h
  rcases except_bind_eq_ok h with ⟨_, -, h⟩
  rcases except_bind_eq_ok h with ⟨_, -, h⟩
  rcases except_bind_eq_ok h with ⟨_, -, h⟩
  cases h
  apply wellFormed_dict ["baseline", "tracing_enabled"] rfl (by decide)
  simp only [List.forall_mem_cons, List.not_mem_nil, false_imp_iff, implies_true, and_true]
  constructor
  · apply wellFormed_dict ["run_time"] rfl (by decide)
    simp only [List.forall_mem_cons, List.not_mem_nil, false_imp_iff, implies_true, and_true]
    exact wellFormed_num _
  · apply wellFormed_dict ["run_time", "ns_per_event"] rfl (by decide)
    simp only [List.forall_mem_cons, List.not_mem_nil, false_imp_iff, implies_true, and_true]
    exact ⟨wellFormed_num _, wellFormed_num _⟩

/-- A result under the name of its benchmark. -/
theorem isPass_singleton {name : String} {v : Value} (hname : IsPart name) (h : v.WellFormed) :
    (Value.dict [(name, v)]).IsPass := by
  refine ⟨wellFormed_dict [name] rfl ⟨List.nodup_singleton name, ?_⟩ ?_, _, rfl⟩
  · exact List.forall_mem_singleton.mpr hname
  · exact List.forall_mem_singleton.mpr h

/-! ## The data of a level -/

section Data

variable {env : Env}

theorem returns_inFrame {α : Type} {f : Frame} {m : Prog World Exc α} {Q : α → Prop}
    (h : Returns m Q) : Returns (inFrame f m) Q := by
  apply triple_inFrame
  intro w _
  exact h.conseq (fun _ _ ↦ trivial) (fun _ _ hq ↦ hq) fun _ _ he ↦ he

theorem doUstBenchmark_wellFormed (b : Benchmark) :
    Returns (doUstBenchmark env b) Value.WellFormed := by
  apply returns_bind (returns_any _)
  intro baseAll _
  apply returns_bind (returns_any _)
  intro ustAll _
  apply returns_bind (returns_any _)
  intro ustEnAll _
  apply returns_bind (returns_any _)
  intro _ _
  exact returns_ofExcept fun _ ↦ wellFormed_ustResult

theorem doKernelBenchmark_wellFormed (nrLoops : ℕ) :
    Returns (doKernelBenchmark env nrLoops) Value.WellFormed := by
  apply returns_inFrame
  apply returns_bind (returns_any _)
  intro baseRun _
  apply returns_bind (returns_any _)
  intro names _
  apply returns_bind (returns_any _)
  intro _ _
  apply returns_bind (returns_any _)
  intro tracingEnRun _
  apply returns_bind (returns_any _)
  intro _ _
  apply returns_bind (returns_any _)
  intro cpuCount _
  apply returns_bind (returns_any _)
  intro _ _
  exact returns_ofExcept fun _ ↦ wellFormed_kernelResult

/-- A list of passes, as `do_benchmarks` collects them. -/
def ArePasses (data : List Value) : Prop := ∀ v ∈ data, v.IsPass

theorem arePasses_nil : ArePasses [] := fun _ hv ↦ absurd hv List.not_mem_nil

theorem ArePasses.append {data : List Value} (h : ArePasses data) {name : String} {v : Value}
    (hname : IsPart name) (hv : v.WellFormed) : ArePasses (data ++ [.dict [(name, v)]]) := by
  intro u hu
  cases List.mem_append.mp hu with
  | inl hdata => exact h u hdata
  | inr hnew =>
    rw [List.mem_singleton.mp hnew]
    exact isPass_singleton hname hv

theorem kernelPasses_arePasses (n : ℕ) {data : List Value} (h : ArePasses data) :
    Returns (kernelPasses env n data) ArePasses := by
  induction n generalizing data with
  | zero => exact returns_pure h
  | succ n ih =>
    apply @returns_bind _ _ _ _ (fun result ↦ ∀ v, result = some v → v.WellFormed)
    · apply returns_tryCatch
      · apply returns_bind (doKernelBenchmark_wellFormed 1000000)
        intro v hv
        apply returns_pure
        intro u hu
        rwa [← Option.some.inj hu]
      · intro e
        apply returns_bind (returns_any _)
        intro _ _
        exact returns_pure nofun
    · intro result hresult
      cases result with
      | none => exact returns_pure h
      | some v => exact ih (h.append (by decide) (hresult v rfl))

theorem doBenchmarks_arePasses (fullPasses fastPasses : ℕ) :
    Returns (doBenchmarks env fullPasses fastPasses) ArePasses := by
  have hparts : ∀ p ∈ ustBenchmarks fullPasses fastPasses, IsPart p.1 := by
    simp only [ustBenchmarks, List.forall_mem_cons, List.not_mem_nil, false_imp_iff, implies_true,
      and_true]
    decide
  have hpass : ∀ p ∈ ustBenchmarks fullPasses fastPasses, ∀ data,
      Triple (fun _ ↦ True ∧ ArePasses data) (doUstBenchmark env p.2.1)
        (fun v _ ↦ True ∧ ArePasses (data ++ [.dict [(p.1, v)]])) fun _ _ ↦ True := by
    intro p hp data
    apply triple_assume
    intro hdata
    exact (doUstBenchmark_wellFormed p.2.1).conseq (fun _ hw ↦ hw)
      (fun _ _ hv ↦ ⟨trivial, hdata.append (hparts p hp) hv⟩) fun _ _ he ↦ he
  apply (triple_passes (Q := fun data _ ↦ ArePasses data) hpass fun data ↦ ?_).conseq
  · exact fun _ _ ↦ ⟨trivial, arePasses_nil⟩
  · exact fun _ _ hq ↦ hq
  · exact fun _ _ he ↦ he
  · exact triple_assume fun hdata ↦ kernelPasses_arePasses fullPasses hdata

end Data

/-! ## The loop of `main` -/

/-- Only the orders of the levels at hand matter. -/
theorem aggregate_congr {order order' : KeyOrder} {l : List (ℕ × List Value)}
    (h : ∀ x ∈ l, order.order x.1 = order'.order x.1) (d : Dict) :
    aggregate order l d = aggregate order' l d := by
  induction l generalizing d with
  | nil => rfl
  | cons x rest ih =>
    rw [List.forall_mem_cons] at h
    rw [aggregate, aggregate, h.1]
    exact ih h.2 _

/-- The order of one level, in front of those of other levels. -/
def KeyOrder.update (order : KeyOrder) (cpuCount : ℕ) (env : Env) (w : World) : KeyOrder where
  order c := if c = cpuCount then env.keyOrder w else order.order c
  perm c keys := by
    split
    · exact env.keyOrder_perm w keys
    · exact order.perm c keys

theorem run_averageData {env : Env} {data : List Value} {w w' : World} {avgData : Dict}
    (h : run (averageData env data) w = (.ok avgData, w')) :
    ∃ v, avgData = average (data.map flattenDict)
      (env.keyOrder v (allKeys (data.map flattenDict))) := by
  rcases run_bind_eq_ok h with ⟨u, v, -, hrest⟩
  exact ⟨v, (Except.ok.inj (Prod.mk.inj hrest).1).symm⟩

/-- Whatever the loop of `main` has measured at the levels it got to, `all_avg` is what `aggregate`
makes of it. -/
theorem run_levels_aggregate {env : Env} {counts : List ℕ} {allData allAvg : Dict} {w w' : World}
    {result : Dict × Dict} (hnd : counts.Nodup)
    (hrun : run (levels env counts allData allAvg) w = (.ok result, w')) :
    ∃ order l, l.map Prod.fst <+: counts ∧ (∀ x ∈ l, ArePasses x.2) ∧
      result.2 = aggregate order l allAvg ∧
      result.1 = l.foldl (fun d x ↦ d.set (levelKey x.1) (.list x.2)) allData := by
  induction counts generalizing allData allAvg w with
  | nil =>
    have hresult := Except.ok.inj (Prod.mk.inj hrun).1
    rw [← hresult]
    exact ⟨⟨fun _ ks ↦ ks, fun _ ks ↦ .refl ks⟩, [], List.nil_prefix, nofun, rfl, rfl⟩
  | cons c counts ih =>
    rw [List.nodup_cons] at hnd
    rcases run_bind_eq_ok hrun with ⟨isSet, w₁, -, hset⟩
    cases isSet with
    | false =>
      have hresult := Except.ok.inj (Prod.mk.inj hset).1
      rw [← hresult]
      exact ⟨⟨fun _ ks ↦ ks, fun _ ks ↦ .refl ks⟩, [], List.nil_prefix, nofun, rfl, rfl⟩
    | true =>
      rcases run_bind_eq_ok hset with ⟨data, w₂, hmeasured, hdata⟩
      have hpasses : ArePasses data :=
        (returns_inFrame (doBenchmarks_arePasses 5 100)).of_ok trivial hmeasured
      rcases run_bind_eq_ok hdata with ⟨avgData, w₃, havg, hrest⟩
      rcases run_averageData havg with ⟨v, hv⟩
      rcases ih hnd.2 hrest with ⟨order, l, hl, hpass, hresult, hall⟩
      -- the levels behind this one have other numbers of CPUs, so their orders stay
      have hother : ∀ x ∈ l, order.order x.1 = (order.update c env v).order x.1 := by
        intro x hx
        have hne : x.1 ≠ c := by
          intro he
          exact hnd.1 (hl.subset (he ▸ List.mem_map_of_mem hx))
        exact (if_neg hne).symm
      have hown : (order.update c env v).order c = env.keyOrder v := if_pos rfl
      refine ⟨order.update c env v, (c, data) :: l, List.cons_prefix_cons.mpr ⟨rfl, hl⟩,
        List.forall_mem_cons.mpr ⟨hpasses, hpass⟩, ?_, hall⟩
      rw [hresult, aggregate_congr hother, aggregate, hown, ← hv]
      rfl

/-- Levels with their passes. -/
def Measurements.ofData (l : List (ℕ × List Value)) (hnd : (l.map Prod.fst).Nodup)
    (h : ∀ x ∈ l, ArePasses x.2) : Measurements where
  levels := l.attach.map fun x ↦ (x.1.1, x.1.2.attachWith Value.IsPass (h x.1 x.2))
  nodup := by
    rw [List.map_map]
    show (l.attach.map (Prod.fst ∘ Subtype.val)).Nodup
    rwa [← List.map_map, List.attach_map_subtype_val]

theorem Measurements.data_ofData (l : List (ℕ × List Value)) (hnd : (l.map Prod.fst).Nodup)
    (h : ∀ x ∈ l, ArePasses x.2) : (ofData l hnd h).data = l := by
  rw [data, ofData, List.map_map]
  conv_rhs => rw [← List.attach_map_subtype_val l]
  apply List.map_congr_left
  intro x _
  exact Prod.ext rfl (List.attachWith_map_subtype_val (h x.1 x.2))

/-- Where the loop of `main` ends, its data are the passes of some measurements at the levels it got
to, and its averages are those published for them. -/
theorem run_levels_published {env : Env} {counts : List ℕ} {w w' : World} {result : Dict × Dict}
    (hnd : counts.Nodup) (hrun : run (levels env counts [] []) w = (.ok result, w')) :
    ∃ (m : Measurements) (order : KeyOrder), m.levels.map Prod.fst <+: counts ∧
      result.1 = m.data.foldl (fun (d : Dict) x ↦ d.set (levelKey x.1) (.list x.2)) [] ∧
      flattenDict (.dict result.2) = m.published order := by
  rcases run_levels_aggregate hnd hrun with ⟨order, l, hl, hpasses, hresult, hall⟩
  have hkeys : (l.map Prod.fst).Nodup := hnd.sublist hl.sublist
  have hdata := Measurements.data_ofData l hkeys hpasses
  refine ⟨.ofData l hkeys hpasses, order, ?_, ?_, ?_⟩
  · have hsame : (Measurements.ofData l hkeys hpasses).levels.map Prod.fst = l.map Prod.fst := by
      conv_rhs => rw [← hdata, Measurements.data, List.map_map]
      rfl
    rw [hsame]
    exact hl
  · rw [hdata, hall]
  · rw [Measurements.published, hdata, hresult]

theorem nodup_countdown (n : ℕ) : (countdown n).Nodup :=
  List.nodup_reverse.mpr (List.nodup_range' 1)

/-- A run of `main` that returns has measured `m` in its loop: the levels are the first of those it
counts down, and the passes are those of `all_data`, which it writes last.  What it hands to
`write_plot_properties` before is published for them. -/
theorem main_publishes {env : Env} {w w' : World} (hrun : run (main env) w = (.ok (), w')) :
    ∃ (m : Measurements) (order : KeyOrder) (n : ℕ) (allData allAvg : Dict) (platform : Value)
      (w₁ w₂ w₃ w₄ : World),
      run (onlineCount env) w = (.ok n, w₁) ∧
      run (levels env (countdown n) [] []) w₁ = (.ok (allData, allAvg), w₂) ∧
      m.levels.map Prod.fst <+: countdown n ∧
      allData = m.data.foldl (fun (d : Dict) x ↦ d.set (levelKey x.1) (.list x.2)) [] ∧
      run (writePlotProperties env (m.published order) propsDir) w₃ = (.ok (), w₄) ∧
      run (writeJs env (.dict [("data", .dict allData), ("average", .dict allAvg),
        ("platform", platform)]) jsOut) w₄ = (.ok (), w') := by
  rcases run_bind_eq_ok hrun with ⟨n, w₁, hcount, hrun⟩
  rcases run_bind_eq_ok hrun with ⟨⟨allData, allAvg⟩, w₂, hlevels, hrun⟩
  rcases run_bind_eq_ok hrun with ⟨uname, w₃, -, hrun⟩
  rcases run_bind_eq_ok hrun with ⟨_, w₄, hwrite, hjs⟩
  rcases run_levels_published (nodup_countdown n) hlevels with ⟨m, order, hprefix, hdata, hm⟩
  exact ⟨m, order, n, allData, allAvg, _, w₁, w₂, w₃, w₄, hcount, hlevels, hprefix, hdata,
    hm ▸ hwrite, hjs⟩

end UstBench.Driver
