import UstBench.Driver.Passes

/-!
# The CPU levels

`main` counts the online CPUs down to one.  At each level the lowest of the CPUs that were online at
the start are online, whatever writes are refused on the way, and the set can be put back by writes
of `1` alone.
-/

namespace UstBench.Driver

open Reasoning Reasoning.Prog

/-- What every step of `main` satisfies when `s` was online at the start. -/
structure Entry.LevelOk (s : Finset ℕ) (e : Entry) : Prop where
  online : e.online ⊆ s
  level : ∀ c, .level c ∈ e.within →
    1 ≤ c ∧ c ≤ s.card ∧ e.online = lowest c s ∧ e.step.part ≠ .cpuWrite
  write : ∀ cpu on, e.step = .writeCpu cpu on → on = false ∧ cpu ∈ s ∧ ∃ y ∈ s, y < cpu

/-- Between the levels: the online CPUs lie between two sets. -/
structure Between (s lo hi : Finset ℕ) (w : World) : Prop where
  lower : lo ⊆ w.online
  upper : w.online ⊆ hi
  within : ∀ c, .level c ∉ w.within
  log : ∀ e ∈ w.log, e.LevelOk s

/-- During `do_benchmarks` at the level `c`. -/
structure AtLevel (s : Finset ℕ) (c : ℕ) (w : World) : Prop where
  online : w.online = lowest c s
  within : ∀ c', .level c' ∈ w.within → c' = c
  log : ∀ e ∈ w.log, e.LevelOk s

variable {env : Env} {s lo hi : Finset ℕ} {c n : ℕ}

theorem Between.mono {lo' hi' : Finset ℕ} {w : World} (h : Between s lo hi w) (hlo : lo' ⊆ lo)
    (hhi : hi ⊆ hi') : Between s lo' hi' w :=
  ⟨hlo.trans h.lower, h.upper.trans hhi, h.within, h.log⟩

theorem between_log {w : World} (h : Between s lo hi w) (hhi : hi ⊆ s) (st : Step)
    (r : Except Exc st.Result)
    (hw : ∀ cpu on, st = .writeCpu cpu on → on = false ∧ cpu ∈ s ∧ ∃ y ∈ s, y < cpu) :
    ∀ e ∈ (w.after st r).log, e.LevelOk s := by
  intro e he
  rw [World.after_log, List.mem_cons] at he
  rcases he with rfl | he
  · exact ⟨h.upper.trans hhi, fun c hc ↦ absurd hc (h.within c), hw⟩
  · exact h.log e he

/-- A step that writes to no CPU file. -/
theorem Between.after {w : World} (h : Between s lo hi w) (hhi : hi ⊆ s) (st : Step)
    (r : Except Exc st.Result) (hst : st.part ≠ .cpuWrite) : Between s lo hi (w.after st r) where
  lower := by
    rw [World.after_online hst]
    exact h.lower
  upper := by
    rw [World.after_online hst]
    exact h.upper
  within := by
    rw [World.after_within]
    exact h.within
  log := between_log h hhi st r fun cpu on he ↦ by
    subst he
    exact absurd rfl hst

/-- Switching off a CPU above the lower set, with another one of `s` below it. -/
theorem Between.after_off {w : World} (h : Between s lo hi w) (hhi : hi ⊆ s) {cpu : ℕ}
    (r : Except Exc Bool) (hlo : cpu ∉ lo) (hcpu : cpu ∈ s) (hy : ∃ y ∈ s, y < cpu) :
    Between s lo hi (w.after (.writeCpu cpu false) r) := by
  have hlog := between_log h hhi (.writeCpu cpu false) r fun _ _ he ↦ by
    cases he
    exact ⟨rfl, hcpu, hy⟩
  have hwithin : ∀ c, Frame.level c ∉ (w.after (.writeCpu cpu false) r).within := by
    rw [World.after_within]
    exact h.within
  rcases World.after_off (w := w) cpu r with ho | ho
  · exact ⟨ho ▸ h.lower, ho ▸ h.upper, hwithin, hlog⟩
  · refine ⟨?_, ?_, hwithin, hlog⟩
    · rw [ho]
      intro x hx
      exact Finset.mem_erase.mpr ⟨fun he ↦ hlo (he ▸ hx), h.lower hx⟩
    · rw [ho]
      exact (Finset.erase_subset _ _).trans h.upper

theorem level_notMem_ofBenchmarks (c : ℕ) : .level c ∉ Frame.ofBenchmarks := by
  simp [Frame.ofBenchmarks]

theorem stable_between (lo : Finset ℕ) (hhi : hi ⊆ s) : Stable (Between s lo hi) Part.ofBenchmarks
    Frame.ofBenchmarks where
  step r hst h := h.after hhi _ r fun he ↦ by
    rw [he] at hst
    revert hst
    decide
  push f hf h := ⟨h.lower, h.upper, fun c hc ↦ by
    rcases List.mem_cons.mp hc with he | hc
    · exact level_notMem_ofBenchmarks c (he ▸ hf)
    · exact h.within c hc, h.log⟩
  back _ h h' := ⟨h'.lower, h'.upper, h.within, h'.log⟩

theorem stable_atLevel (hc : 1 ≤ c) (hcs : c ≤ s.card) :
    Stable (AtLevel s c) Part.ofBenchmarks Frame.ofBenchmarks where
  step {w st} r hst h := by
    have hpart : st.part ≠ .cpuWrite := by
      intro he
      rw [he] at hst
      revert hst
      decide
    refine ⟨by rw [World.after_online hpart, h.online], by rw [World.after_within]; exact h.within,
      fun e he ↦ ?_⟩
    rw [World.after_log, List.mem_cons] at he
    rcases he with rfl | he
    · refine ⟨by rw [h.online]; exact lowest_subset, fun c' hc' ↦ ?_, fun _ _ he ↦ ?_⟩
      · rw [h.within c' hc']
        exact ⟨hc, hcs, h.online, hpart⟩
      · subst he
        exact absurd rfl hpart
    · exact h.log e he
  push f hf h := ⟨h.online, fun c' hc' ↦ by
    rcases List.mem_cons.mp hc' with he | hc'
    · exact absurd (he ▸ hf) (level_notMem_ofBenchmarks c')
    · exact h.within c' hc', h.log⟩
  back _ h h' := ⟨h'.online, h.within, h'.log⟩

/-! ## The setter at one level -/

-- what is above the `c` lowest has one of them below it
theorem exists_lt_of_notMem_lowest {x : ℕ} (hc : 1 ≤ c) (hx : x ∈ s) (h : x ∉ lowest c s) :
    ∃ y ∈ s, y < x := by
  rw [lowest, Finset.mem_filter, not_and, not_lt] at h
  have hpos : 0 < (s.filter (· < x)).card := by
    have hle := h hx
    omega
  rcases Finset.card_pos.mp hpos with ⟨y, hy⟩
  exact ⟨y, Finset.mem_filter.mp hy⟩

theorem between_setOnlineCount (hc : 1 ≤ c) (hcs : c ≤ s.card) :
    Triple (Between s (lowest (c + 1) s) (lowest (c + 1) s)) (setOnlineCount env c)
      (fun _ ↦ Between s (lowest c s) (lowest c s))
      fun _ ↦ Between s (lowest c s) (lowest (c + 1) s) := by
  have hmono : lowest c s ⊆ lowest (c + 1) s := lowest_mono (Nat.le_succ c)
  have hread : ∀ {w : World} {file : CpuFile} (r : Except Exc Unit),
      Between s (lowest c s) (lowest (c + 1) s) w →
      Between s (lowest c s) (lowest (c + 1) s) (w.after (.readCpuFile file) r) :=
    fun {_ file} r hw ↦ hw.after lowest_subset (.readCpuFile file) r (by nofun)
  unfold setOnlineCount
  apply triple_bind (Q := fun online w ↦
    Between s (lowest c s) (lowest (c + 1) s) w ∧ online = lowest (c + 1) s)
  · apply triple_readCpuFile
    · exact fun w hw _ ↦ ⟨hread _ (hw.mono hmono subset_rfl),
        Finset.Subset.antisymm hw.upper hw.lower⟩
    · exact fun w e hw _ ↦ hread _ (hw.mono hmono subset_rfl)
  intro online
  apply triple_assume
  rintro rfl
  apply triple_bind (keeps_readCpuFile fun w r hw ↦ hread r hw)
  intro offline
  apply triple_bind (keeps_changeOnlineCount (by rw [card_lowest]; omega) ?_)
  · intro _
    apply triple_bind (Q := fun k w ↦
      Between s (lowest c s) (lowest (c + 1) s) w ∧ k = w.online.card)
    · apply triple_bind (Q := fun cpus w ↦
        Between s (lowest c s) (lowest (c + 1) s) w ∧ cpus = w.online)
      · apply triple_readCpuFile
        · exact fun w hw _ ↦ ⟨hread _ hw, rfl⟩
        · exact fun w e hw _ ↦ hread _ hw
      · exact fun cpus ↦ triple_pure _ fun w hw ↦ ⟨hw.1, by rw [hw.2]⟩
    · intro k
      apply triple_when
      · exact fun _ ↦ triple_throw _ fun w hw ↦ hw.1
      · rintro hk w ⟨hw, rfl⟩
        -- as many as the lowest `c`, and these among them
        have hcard : w.online.card = c := by omega
        have heq : lowest c s = w.online := by
          apply Finset.eq_of_subset_of_card_le hw.lower
          rw [card_lowest]
          omega
        exact ⟨hw.lower, heq ▸ subset_rfl, hw.within, hw.log⟩
  · -- the CPU that goes is none of the lowest `c`, and one of these is below it
    intro w r cpu hcpu hw _
    rw [lowest_lowest (Nat.le_succ c), Finset.mem_sdiff] at hcpu
    exact hw.after_off lowest_subset r hcpu.2 (lowest_subset hcpu.1)
      (exists_lt_of_notMem_lowest hc (lowest_subset hcpu.1) hcpu.2)

/-! ## The loop -/

theorem between_level (hc : 1 ≤ c) (hcs : c ≤ s.card) (full fast : ℕ) :
    Triple (Between s (lowest c s) (lowest c s)) (inFrame (.level c) (doBenchmarks env full fast))
      (fun _ ↦ Between s (lowest c s) (lowest c s))
      fun _ ↦ Between s (lowest c s) (lowest c s) := by
  apply triple_inFrame
  intro w hw
  apply ((stable_atLevel hc hcs).exits.keepsBenchmarks full fast).conseq
  · rintro _ rfl
    refine ⟨Finset.Subset.antisymm hw.upper hw.lower, fun c' hc' ↦ ?_, hw.log⟩
    rcases List.mem_cons.mp hc' with he | hc'
    · cases he
      rfl
    · exact absurd hc' (hw.within c')
  · exact fun _ w' h ↦ ⟨h.online ▸ subset_rfl, h.online ▸ subset_rfl, hw.within, h.log⟩
  · exact fun _ w' h ↦ ⟨h.online ▸ subset_rfl, h.online ▸ subset_rfl, hw.within, h.log⟩

theorem between_levels (hn : n ≤ s.card) (allData allAvg : Dict) :
    Triple (Between s (lowest (n + 1) s) (lowest (n + 1) s))
      (levels env (countdown n) allData allAvg)
      (fun _ ↦ Between s ∅ s) fun _ ↦ Between s ∅ s := by
  induction n generalizing allData allAvg with
  | zero => exact triple_pure _ fun w hw ↦ hw.mono (Finset.empty_subset _) lowest_subset
  | succ n ih =>
    have hany : ∀ {lo hi : Finset ℕ} {w : World}, hi ⊆ s → Between s lo hi w → Between s ∅ s w :=
      fun hhi hw ↦ hw.mono (Finset.empty_subset _) hhi
    have hstable := stable_between ∅ (subset_refl s)
    rw [countdown_succ, levels]
    apply triple_bind (Q := fun isSet w ↦ Between s ∅ s w ∧
      (isSet = true → Between s (lowest (n + 1) s) (lowest (n + 1) s) w))
    · apply triple_tryCatch (E := fun _ ↦ Between s ∅ s)
      · apply triple_bind ((between_setOnlineCount (by omega) hn).conseq (fun _ hw ↦ hw)
          (fun _ _ hw ↦ hw) fun _ _ hw ↦ hany lowest_subset hw)
        exact fun _ ↦ triple_pure _ fun w hw ↦ ⟨hany lowest_subset hw, fun _ ↦ hw⟩
      · -- a count that could not be set ends the loop, with any CPUs online
        intro e
        apply triple_bind (hstable.call (p := .script) (by decide) (by rfl))
        exact fun _ ↦ triple_pure _ fun w hw ↦ ⟨hw, fun h ↦ absurd h Bool.false_ne_true⟩
    · intro isSet
      cases isSet with
      | false => exact triple_pure _ fun w hw ↦ hw.1
      | true =>
        have hlevel := stable_between (lowest (n + 1) s) (lowest_subset (k := n + 1) (s := s))
        simp only [if_true]
        apply triple_bind (Q := fun _ ↦ Between s (lowest (n + 1) s) (lowest (n + 1) s))
        · exact (between_level (by omega) hn 5 100).conseq (fun _ hw ↦ hw.2 trivial)
            (fun _ _ hw ↦ hw) fun _ _ hw ↦ hany lowest_subset hw
        · intro data
          apply triple_bind (Q := fun _ ↦ Between s (lowest (n + 1) s) (lowest (n + 1) s))
          · exact (hlevel.exits.averageData (by decide) data).conseq (fun _ hw ↦ hw)
              (fun _ _ hw ↦ hw) fun _ _ hw ↦ hany lowest_subset hw
          · exact fun avgData ↦ ih (by omega) _ _

/-! ## The whole run -/

theorem between_main : Triple (Between s s s) (main env) (fun _ ↦ Between s ∅ s)
    fun _ ↦ Between s ∅ s := by
  have hstable := stable_between ∅ (subset_refl s)
  have hany : ∀ {w}, Between s s s w → Between s ∅ s w :=
    fun hw ↦ hw.mono (Finset.empty_subset _) subset_rfl
  have hs : Part.script ∈ Part.ofBenchmarks := by decide
  unfold main
  apply triple_bind (triple_onlineCount (P := Between s s s) (m := s.card)
    (fun w r hw ↦ hw.after subset_rfl _ r nofun)
    (fun w hw ↦ by rw [Finset.Subset.antisymm hw.upper hw.lower])
    fun w e hw _ ↦ (hany hw).after subset_rfl _ _ nofun)
  intro n
  apply triple_assume
  rintro rfl
  have hall : lowest (s.card + 1) s = s := lowest_eq_self (Nat.le_succ _)
  apply triple_bind ((between_levels le_rfl [] []).conseq (fun w hw ↦ by rw [hall]; exact hw)
    (fun _ _ hw ↦ hw) fun _ _ hw ↦ hw)
  rintro ⟨allData, allAvg⟩
  apply keeps_bind (hstable.call hs (by rfl))
  intro uname
  exact keeps_bind (hstable.exits.writePlotProperties hs _ _) fun _ ↦ hstable.call hs (by rfl)

theorem between_start {w : World} (hlog : w.log = []) (hwithin : w.within = []) :
    Between w.online w.online w.online w :=
  ⟨subset_rfl, subset_rfl, by simp [hwithin], by simp [hlog]⟩

/-- The sets that were online at the steps of a run and are online at its end. -/
def World.points (w : World) : List (Finset ℕ) := w.online :: w.log.map Entry.online

theorem Between.points {w : World} (h : Between s lo s w) : ∀ x ∈ w.points, x ⊆ s := by
  intro x hx
  rcases List.mem_cons.mp hx with rfl | hx
  · exact h.upper
  · rcases List.mem_map.mp hx with ⟨e, he, rfl⟩
    exact (h.log e he).online

/-- The steps since a log: none of them switches a CPU off. -/
def OnlyOn (l : List Entry) (w : World) : Prop :=
  ∃ new, w.log = new ++ l ∧ ∀ e ∈ new, ∀ cpu on, e.step = .writeCpu cpu on → on = true

theorem OnlyOn.after {l : List Entry} {w : World} (h : OnlyOn l w) (st : Step)
    (r : Except Exc st.Result) (hst : ∀ cpu on, st = .writeCpu cpu on → on = true) :
    OnlyOn l (w.after st r) := by
  rcases h with ⟨new, hlog, hnew⟩
  refine ⟨⟨st, r, w.within, w.active, w.online⟩ :: new, by rw [World.after_log, hlog]; rfl, ?_⟩
  intro e he
  rcases List.mem_cons.mp he with rfl | he
  · exact hst
  · exact hnew e he

theorem OnlyOn.read {l : List Entry} {w : World} (h : OnlyOn l w) (file : CpuFile)
    (r : Except Exc Unit) : OnlyOn l (w.after (.readCpuFile file) r) :=
  h.after (.readCpuFile file) r fun _ _ he ↦ by cases he

/-- From a subset of `s`, `online_cpus = s` only switches CPUs on, and ends with `s` if no step
raises. -/
theorem setOnlineCpus_of_subset {v v' : World} {r : Except Exc Unit} (ha : env.AcceptsWrites)
    (hv : v.online ⊆ s) (hs : s ⊆ v.present) (hrun : run (setOnlineCpus env s) v = (r, v')) :
    ∃ new, v'.log = new ++ v.log ∧ (∀ e ∈ new, ∀ cpu on, e.step = .writeCpu cpu on → on = true) ∧
      ((∀ e ∈ new, ∀ x, e.reply ≠ .error x) → r = .ok () ∧ v'.online = s) := by
  have hoff : v.online \ s = ∅ := Finset.sdiff_eq_empty_iff_subset.mpr hv
  have hstart : OnlyOn v.log v := ⟨[], rfl, fun _ he ↦ absurd he List.not_mem_nil⟩
  have hnone : env.Accepts (OnlyOn v.log) false (v.online \ s) := by
    intro w cpu hcpu
    rw [hoff] at hcpu
    exact absurd hcpu (Finset.notMem_empty cpu)
  have hon : env.Accepts (OnlyOn v.log) true (s \ v.online) := by
    apply ha.accepts
    intro w cpu _ hw
    exact hw.after (.writeCpu cpu true) (.ok true) fun _ _ he ↦ by cases he; rfl
  have hset := triple_setOnlineCpus hs (fun w file hw ↦ hw.read file (.ok ())) hnone hon
  cases r with
  | ok u =>
    rcases hset.of_ok ⟨hstart, rfl, rfl⟩ hrun with ⟨⟨new, hlog, hnew⟩, ho⟩
    exact ⟨new, hlog, hnew, fun _ ↦ ⟨rfl, ho⟩⟩
  | error e =>
    -- the run stopped at a list that could not be read
    rcases hset.of_error ⟨hstart, rfl, rfl⟩ hrun with ⟨w₀, file, x, rfl, -, ⟨new, hlog, hnew⟩, _⟩
    refine ⟨⟨.readCpuFile file, .error x, w₀.within, w₀.active, w₀.online⟩ :: new, ?_, ?_, ?_⟩
    · rw [World.after_log, hlog, List.cons_append]
    · intro e he cpu on hstep
      rcases List.mem_cons.mp he with rfl | he
      · cases hstep
      · exact hnew e he cpu on hstep
    · exact fun h ↦ absurd rfl (h _ List.mem_cons_self x)

/-- The levels of `main`: each runs on the lowest CPUs of those online at the start, the lowest one
is never written, no other set is ever online, and the start can be restored by writes of `1`. -/
theorem main_levels {w w' : World} {r : Except Exc Unit} (hlog : w.log = [])
    (hwithin : w.within = []) (hne : w.online.Nonempty) (hrun : run (main env) w = (r, w')) :
    (∀ e ∈ w'.log, ∀ c, .level c ∈ e.within →
      1 ≤ c ∧ c ≤ w.online.card ∧ e.online = lowest c w.online ∧
        ∀ cpu on, e.step ≠ .writeCpu cpu on) ∧
    (∀ e ∈ w'.log, ∀ on, e.step ≠ .writeCpu (w.online.min' hne) on) ∧
    (∀ x ∈ w'.points, x ⊆ w.online) ∧
    ∀ x ∈ w'.points, ∀ (env₂ : Env) (v v' : World) (r₂ : Except Exc Unit), env₂.AcceptsWrites →
      v.present = w.present → v.online = x → run (setOnlineCpus env₂ w.online) v = (r₂, v') →
      ∃ new, v'.log = new ++ v.log ∧ (∀ e ∈ new, ∀ cpu on, e.step = .writeCpu cpu on → on = true) ∧
        ((∀ e ∈ new, ∀ x, e.reply ≠ .error x) → r₂ = .ok () ∧ v'.online = w.online) := by
  have hend := (@between_main env _).at_end (between_start hlog hwithin)
  rw [hrun] at hend
  refine ⟨fun e he c hc ↦ ?_, fun e he on hw ↦ ?_, hend.points, ?_⟩
  · have h := (hend.log e he).level c hc
    refine ⟨h.1, h.2.1, h.2.2.1, fun cpu on hw ↦ h.2.2.2 ?_⟩
    rw [hw]
    rfl
  · rcases (hend.log e he).write _ on hw with ⟨_, _, y, hy, hlt⟩
    exact absurd (Finset.min'_le _ y hy) (not_le.mpr hlt)
  · intro x hx env₂ v v' r₂ ha hp hv hr
    exact setOnlineCpus_of_subset ha (hv ▸ hend.points x hx) (hp ▸ w.online_subset) hr

-- the second CPU is switched off for the second level
theorem main_levels_good :
    ∃ r w', run (main Env.good) twoCpus = (r, w') ∧ w'.online = {0} ∧
      (∀ e ∈ w'.log, ∀ c, .level c ∈ e.within →
        1 ≤ c ∧ c ≤ 2 ∧ e.online = lowest c {0, 1} ∧ ∀ cpu on, e.step ≠ .writeCpu cpu on) ∧
      (∀ e ∈ w'.log, ∀ on, e.step ≠ .writeCpu 0 on) ∧
      (∀ x ∈ w'.points, x ⊆ {0, 1}) ∧
      ∀ x ∈ w'.points, ∀ (env₂ : Env) (v v' : World) (r₂ : Except Exc Unit), env₂.AcceptsWrites →
        v.present = {0, 1} → v.online = x → run (setOnlineCpus env₂ {0, 1}) v = (r₂, v') →
        ∃ new, v'.log = new ++ v.log ∧ (∀ e ∈ new, ∀ cpu on, e.step = .writeCpu cpu on → on = true) ∧
          ((∀ e ∈ new, ∀ x, e.reply ≠ .error x) → r₂ = .ok () ∧ v'.online = {0, 1}) :=
  ⟨_, _, (Prod.eta _).symm, goodMain_online twoCpus ⟨rfl, rfl⟩,
    main_levels rfl rfl ⟨0, by decide⟩ (Prod.eta (run (main Env.good) twoCpus)).symm⟩

end UstBench.Driver
