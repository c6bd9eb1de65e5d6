import UstBench.Driver.Levels

/-!
# Restoring the CPUs

The top-level block puts the CPUs back as the last thing of its `finally` clause, behind `cleanup`.
What makes `cleanup` raise leaves them as `main` did.
-/

namespace UstBench.Driver

open Reasoning Reasoning.Prog

/-- The replies that the `finally` clause goes on after.  An `OSError` of the handling of the pid
file is caught, a line that is no number is not. -/
def Step.Harmless : (s : Step) → Except Exc s.Result → Prop
  | .readPidFile, .ok line => Python.int line ≠ none
  | .readPidFile, .error e => e = .osError
  | .kill _, .error e => e = .osError
  | _, .ok _ => True
  | _, .error _ => False

/-- Every step of the `finally` clause so far was harmless. -/
def RestoreOk (log : List Entry) : Prop := ∀ e ∈ log, .restore ∈ e.within → e.step.Harmless e.reply

theorem restoreOk_cons {e : Entry} {log : List Entry} :
    RestoreOk (e :: log) ↔ (.restore ∈ e.within → e.step.Harmless e.reply) ∧ RestoreOk log :=
  List.forall_mem_cons

/-- Inside the `finally` clause, with `x` online. -/
structure Restoring (p x : Finset ℕ) (w : World) : Prop where
  present : w.present = p
  online : w.online = x
  within : .restore ∈ w.within
  ok : RestoreOk w.log

/-- Behind a step that made the clause raise. -/
structure Aborted (x : Finset ℕ) (w : World) : Prop where
  online : w.online = x
  failed : ¬RestoreOk w.log

variable {env : Env} {p x s : Finset ℕ}

theorem Restoring.after {w : World} (h : Restoring p x w) {st : Step} {r : Except Exc st.Result}
    (hst : st.part ≠ .cpuWrite) (hr : st.Harmless r) : Restoring p x (w.after st r) :=
  ⟨by rw [World.after_present, h.present], by rw [World.after_online hst, h.online],
    by rw [World.after_within]; exact h.within, restoreOk_cons.mpr ⟨fun _ ↦ hr, h.ok⟩⟩

theorem Restoring.abort {w : World} (h : Restoring p x w) {st : Step} {r : Except Exc st.Result}
    (hst : st.part ≠ .cpuWrite) (hr : ¬st.Harmless r) : Aborted x (w.after st r) :=
  ⟨by rw [World.after_online hst, h.online],
    fun hok ↦ hr ((restoreOk_cons.mp hok).1 h.within)⟩

-- for the steps outside the handling of the pid file
theorem triple_harmless {st : Step} (hst : st.part ≠ .cpuWrite) (hok : ∀ r, st.Harmless (.ok r))
    (herr : ∀ e, ¬st.Harmless (.error e)) :
    Triple (Restoring p x) (env.call st) (fun _ ↦ Restoring p x) fun _ ↦ Aborted x :=
  triple_call (fun _ r hw _ ↦ hw.after hst (hok r)) fun _ e hw _ ↦ hw.abort hst (herr e)

theorem triple_unload (m : LinuxModule) :
    Triple (Restoring p x) (m.unload env) (fun _ ↦ Restoring p x) fun _ ↦ Aborted x :=
  triple_bind (triple_harmless (by nofun) (fun _ ↦ trivial) fun _ h ↦ h) fun _ ↦
    triple_when (fun _ ↦ triple_harmless (by nofun) (fun _ ↦ trivial) fun _ h ↦ h)
      fun _ _ hw ↦ hw

/-- The handling of the pid file goes on after an `OSError` and stops with anything else. -/
theorem triple_killSessiond :
    Triple (Restoring p x)
      (tryCatch (killSessiond env) fun e ↦ when (e ≠ .osError) (throw e))
      (fun _ ↦ Restoring p x) fun _ ↦ Aborted x := by
  apply triple_tryCatch (E := fun e w ↦
    (e = .osError → Restoring p x w) ∧ (e ≠ .osError → Aborted x w))
  · unfold killSessiond
    apply triple_bind (Q := fun line w ↦
      (Python.int line ≠ none → Restoring p x w) ∧ (Python.int line = none → Aborted x w))
    · apply triple_call
      · exact fun w line hw _ ↦ ⟨fun h ↦ hw.after (by nofun) h,
          fun h ↦ hw.abort (by nofun) fun hn ↦ hn h⟩
      · exact fun w e hw _ ↦ ⟨fun h ↦ hw.after (by nofun) h, fun h ↦ hw.abort (by nofun) h⟩
    intro line
    cases hline : Python.int line with
    | none =>
      -- the `ValueError` of `int` is no `OSError`
      apply triple_bind (Q := fun _ _ ↦ False)
      · exact triple_throw _ fun w hw ↦ ⟨nofun, fun _ ↦ hw.2 rfl⟩
      · exact fun _ ↦ triple_false
    | some pid =>
      apply triple_bind (Q := fun _ ↦ Restoring p x)
      · exact triple_pure _ fun w hw ↦ hw.1 nofun
      intro n
      apply triple_call
      · exact fun w r hw _ ↦ hw.after (by nofun) trivial
      · exact fun w e hw _ ↦ ⟨fun h ↦ hw.after (by nofun) h, fun h ↦ hw.abort (by nofun) h⟩
  · intro e
    apply triple_when
    · exact fun he ↦ triple_throw e fun w hw ↦ hw.2 he
    · exact fun he w hw ↦ hw.1 (not_not.mp he)

theorem triple_cleanup :
    Triple (Restoring p x) (cleanup env) (fun _ ↦ Restoring p x) fun _ ↦ Aborted x := by
  unfold cleanup
  apply triple_bind (triple_harmless (by nofun) (by exact fun _ ↦ trivial) (by exact fun _ h ↦ h))
  intro _
  apply triple_bind (triple_harmless (by nofun) (by exact fun _ ↦ trivial) (by exact fun _ h ↦ h))
  intro _
  apply triple_bind (triple_bind (triple_unload mainModule) fun _ ↦ triple_unload probeModule)
  intro _
  apply triple_bind triple_killSessiond
  intro _
  exact triple_harmless (by nofun) (fun _ ↦ trivial) fun _ h ↦ h

/-- The `finally` clause ends with `s` online if all its steps are harmless, and changes nothing
otherwise. -/
theorem triple_restore (ha : env.AcceptsWrites) (hs : s ⊆ p) (hx : x ⊆ s) :
    Triple (fun w ↦ w.present = p ∧ w.online = x ∧ RestoreOk w.log) (restore env s)
      (fun _ w ↦ w.online = s ∧ RestoreOk w.log) fun _ ↦ Aborted x := by
  apply triple_inFrame
  rintro w ⟨hp, ho, hok⟩
  apply triple_bind (Q := fun _ ↦ Restoring p x)
  · apply triple_cleanup.conseq
    · rintro _ rfl
      exact ⟨hp, ho, List.mem_cons_self, hok⟩
    · exact fun _ _ hw ↦ hw
    · exact fun _ w' hw ↦ ⟨hw.online, hw.failed⟩
  intro _
  -- an accepted write is harmless, so only a read can still raise
  have hwrite : ∀ on cpus, env.Accepts (fun w ↦ .restore ∈ w.within ∧ RestoreOk w.log) on cpus := by
    intro on cpus
    apply ha.accepts
    intro w cpu _ hw
    refine ⟨?_, restoreOk_cons.mpr ⟨fun _ ↦ trivial, hw.2⟩⟩
    rw [World.after_within]
    exact hw.1
  have hset := triple_setOnlineCpus hs
    (fun w file hw ↦ ⟨by rw [World.after_within]; exact hw.1,
      restoreOk_cons.mpr ⟨fun _ ↦ trivial, hw.2⟩⟩) (hwrite false (x \ s)) (hwrite true _)
  apply hset.conseq
  · exact fun w' hw ↦ ⟨⟨hw.within, hw.ok⟩, hw.present, hw.online⟩
  · exact fun _ w' hw ↦ ⟨hw.2, hw.1.2⟩
  · rintro e _ ⟨w₀, file, e', rfl, -, hw, hx₀⟩
    rw [Finset.inter_eq_left.mpr hx, or_self] at hx₀
    refine ⟨?_, fun h ↦ (restoreOk_cons.mp h).1 hw.1⟩
    rw [World.back_online, World.after_online (by nofun), hx₀]

/-! ## The script -/

/-- The world that `main` ends in when the script starts from `w`. -/
def mainEnd (env : Env) (w : World) : World :=
  (run (main env) (w.after (.readCpuFile .online) (.ok ()))).2

theorem mainEnd_online {env : Env} {w : World} {x y : Finset ℕ}
    (h : Triple (fun w ↦ w.online = x ∧ w.active = false) (main env)
      (fun _ w ↦ w.online = y) fun _ w ↦ w.online = y)
    (ho : w.online = x) (ha : w.active = false) : (mainEnd env w).online = y :=
  h.at_end ⟨by rw [World.after_online (by nofun), ho],
    by rw [World.after_active (by nofun) (by nofun), ha]⟩

/-- The handler and the `finally` clause start from what `main` left. -/
theorem script_end {w w' : World} {r : Except Exc Unit}
    (hsaved : env.reply w (.readCpuFile .online) = .ok ()) (hrun : run (script env) w = (r, w')) :
    w' = (run (restore env w.online) (mainEnd env w)).2 := by
  have hscript : run (script env) w = run (tryFinally
      (tryCatch (main env) fun e ↦ when (e ≠ .keyboardInterrupt) (throw e))
      (restore env w.online)) (w.after (.readCpuFile .online) (.ok ())) :=
    run_bind_ok (run_onlineCpus hsaved)
  rw [← show (run (script env) w).2 = w' by rw [hrun], hscript, run_tryFinally_state,
    run_tryCatch_state]
  · rfl
  · intro e v
    unfold when
    split
    · rfl
    · rfl

/-- No step of the `finally` clause so far. -/
structure Before (p : Finset ℕ) (w : World) : Prop where
  present : w.present = p
  within : .restore ∉ w.within
  log : ∀ e ∈ w.log, .restore ∉ e.within

theorem stable_before (ps : List Part) : Stable (Before p) ps Frame.ofBenchmarks where
  step r _ h := ⟨by rw [World.after_present, h.present], by rw [World.after_within]; exact h.within,
    fun e he ↦ by
      rw [World.after_log, List.mem_cons] at he
      rcases he with rfl | he
      · exact h.within
      · exact h.log e he⟩
  push f hf h := ⟨h.present, fun hm ↦ by
    rcases List.mem_cons.mp hm with he | hm
    · rw [← he] at hf
      revert hf
      decide
    · exact h.within hm, h.log⟩
  back _ h h' := ⟨h'.present, h.within, h'.log⟩

theorem harmless_goodReply (s : Step) : s.Harmless (goodReply s) := by
  have hpid : Python.int ['7'] ≠ none := by decide
  cases s
  case readPidFile => exact hpid
  all_goals trivial

/-- With every write accepted, the saved CPUs are online at the end exactly when no step of the
`finally` clause makes it raise, or `main` left them online itself. -/
theorem script_restores_iff {w w' : World} {r : Except Exc Unit} (hlog : w.log = [])
    (hwithin : w.within = []) (ha : env.AcceptsWrites)
    (hsaved : env.reply w (.readCpuFile .online) = .ok ()) (hrun : run (script env) w = (r, w')) :
    w'.online = w.online ↔
      (∀ e ∈ w'.log, .restore ∈ e.within → e.step.Harmless e.reply) ∨
        (mainEnd env w).online = w.online := by
  have hstart : Between w.online w.online w.online (w.after (.readCpuFile .online) (.ok ())) :=
    (between_start hlog hwithin).after subset_rfl _ _ nofun
  have hsub : (mainEnd env w).online ⊆ w.online := ((@between_main env _).at_end hstart).upper
  have hfirst : Before w.present (w.after (.readCpuFile .online) (.ok ())) :=
    (stable_before [.cpuRead]).step _ List.mem_cons_self
      ⟨rfl, by simp [hwithin], by simp [hlog]⟩
  have hbefore : Before w.present (mainEnd env w) :=
    ((stable_before _).exits.main fun _ c h ↦
      ⟨h.present, by simpa using h.within, h.log⟩).at_end hfirst
  have hend : w' = (run (restore env w.online) (mainEnd env w)).2 := script_end hsaved hrun
  have hrestore := (triple_restore ha w.online_subset hsub).holds (mainEnd env w)
    ⟨hbefore.present, rfl, fun e he hm ↦ absurd hm (hbefore.log e he)⟩
  rcases hr : run (restore env w.online) (mainEnd env w) with ⟨e | u, v⟩
  · -- the clause has raised, and the CPUs are those that `main` left
    rw [hr] at hrestore hend
    subst hend
    rw [hrestore.online]
    constructor
    · exact .inr
    · rintro (hok | hx)
      · exact absurd hok hrestore.failed
      · exact hx
  · rw [hr] at hrestore hend
    subst hend
    exact ⟨fun _ ↦ .inl hrestore.2, fun _ ↦ hrestore.1⟩

-- `main` leaves the second CPU off, and nothing keeps the clause from switching it on
theorem script_restores_iff_good :
    ∃ r w', run (script Env.good) twoCpus = (r, w') ∧ (mainEnd Env.good twoCpus).online = {0} ∧
      (w'.online = twoCpus.online ↔
        (∀ e ∈ w'.log, .restore ∈ e.within → e.step.Harmless e.reply) ∨
          (mainEnd Env.good twoCpus).online = twoCpus.online) ∧
      w'.online = twoCpus.online := by
  have hlowered := @lowered_main Env.good _ {0, 1} (obliging_withFault nofun)
    (acceptsWrites_withFault nofun) (reads_withFault nofun) ustResult_sample rfl
  have hmain : (mainEnd Env.good twoCpus).online = lowest 1 {0, 1} := mainEnd_online hlowered rfl rfl
  have hlowest : lowest 1 {0, 1} = {0} := by decide
  have hgood : AllGood (run (script Env.good) twoCpus).2 :=
    ((exits_allGood _ _).script fun _ _ hw ↦ hw).at_end (List.forall_mem_nil _)
  -- the run is kept as it is from here on, for nothing of what follows is about its steps
  obtain ⟨r, w', hrun⟩ : ∃ r w', run (script Env.good) twoCpus = (r, w') :=
    ⟨_, _, (Prod.eta _).symm⟩
  rw [hrun] at hgood
  have hsaved : Env.good.reply twoCpus (.readCpuFile .online) = .ok () := rfl
  have hwrites : Env.good.AcceptsWrites := acceptsWrites_withFault nofun
  have hiff := script_restores_iff rfl rfl hwrites hsaved hrun
  refine ⟨r, w', hrun, hmain.trans hlowest, hiff, hiff.mpr (.inl fun e he _ ↦ ?_)⟩
  rw [hgood e he]
  exact harmless_goodReply e.step

/-! ## A module that cannot be removed -/

def rmmodFault : World → Step → Bool := fun _ s ↦
  match s with
  | .rmmod _ => true
  | _ => false

theorem part_rmmodFault (w : World) (s : Step) (h : rmmodFault w s = true) : s.part = .module := by
  cases s <;> first | rfl | cases h

theorem unload_rmmodFault (m : LinuxModule) :
    Triple (fun w ↦ w.online = x) (m.unload (Env.withFault rmmodFault)) (fun _ _ ↦ False)
      fun _ w ↦ w.online = x := by
  apply triple_bind (Q := fun loaded w ↦ w.online = x ∧ loaded = true)
  · apply triple_call
    · intro w loaded hw hr
      have hloaded : Except.ok true = Except.ok loaded := hr
      cases hloaded
      exact ⟨by rw [World.after_online (by nofun), hw], rfl⟩
    · exact fun _ _ _ he ↦ nomatch he
  · intro loaded
    apply triple_assume
    rintro rfl
    apply triple_when (fun _ ↦ ?_) fun h ↦ absurd rfl h
    apply triple_call
    · exact fun _ _ _ hr ↦ nomatch hr
    · exact fun w e hw _ ↦ by rw [World.after_online (by nofun), hw]

theorem restore_rmmodFault :
    Triple (fun w ↦ w.online = x) (restore (Env.withFault rmmodFault) s) (fun _ w ↦ w.online = x)
      fun _ w ↦ w.online = x := by
  have hstable : Stable (fun w ↦ w.online = x) [.lttng] [] := stable_online x [] (by decide)
  have hcleanup : Triple (fun w ↦ w.online = x) (cleanup (Env.withFault rmmodFault))
      (fun _ _ ↦ False) fun _ w ↦ w.online = x := by
    apply triple_bind (hstable.call List.mem_cons_self (by rfl))
    intro _
    apply triple_bind (hstable.call List.mem_cons_self (by rfl))
    intro _
    apply triple_bind (Q := fun _ _ ↦ False)
    · exact triple_bind (unload_rmmodFault mainModule) fun _ ↦ triple_false
    · exact fun _ ↦ triple_false
  apply triple_inFrame
  intro w hw
  apply (triple_bind hcleanup fun _ ↦ triple_false).conseq
  · rintro _ rfl
    exact hw
  · exact fun _ _ h ↦ h
  · exact fun _ _ h ↦ h

/-- The script ends with that CPU alone when the `finally` clause puts nothing back. -/
theorem lowered_script (hr : ∀ w file, env.reply w (.readCpuFile file) = .ok ())
    (hmain : Triple (fun w ↦ w.online = x ∧ w.active = false) (main env)
      (fun _ w ↦ w.online = lowest 1 x) fun _ w ↦ w.online = lowest 1 x)
    (hrestore : ∀ s, Triple (fun w ↦ w.online = lowest 1 x) (restore env s)
      (fun _ w ↦ w.online = lowest 1 x) fun _ w ↦ w.online = lowest 1 x) :
    Triple (fun w ↦ w.online = x ∧ w.active = false) (script env)
      (fun _ w ↦ w.online = lowest 1 x) fun _ w ↦ w.online = lowest 1 x := by
  unfold script
  apply triple_bind (Q := fun _ w ↦ w.online = x ∧ w.active = false)
  · apply triple_readCpuFile
    · exact fun w hw _ ↦ ⟨by rw [World.after_online (by nofun), hw.1],
        by rw [World.after_active (by nofun) (by nofun), hw.2]⟩
    · intro w e _ he
      rw [hr] at he
      cases he
  intro saved
  apply triple_tryFinally (I := fun w ↦ w.online = lowest 1 x)
  · apply triple_tryCatch hmain
    exact fun e ↦ keeps_when (keeps_throw e)
  · exact hrestore saved

-- the failed `rmmod` leaves the second CPU off
theorem script_leaves_cpu_offline :
    ∃ r w', run (script (Env.withFault rmmodFault)) twoCpus = (r, w') ∧
      w'.online ≠ twoCpus.online := by
  have hmain := @lowered_main _ _ {0, 1} (obliging_withFault part_rmmodFault)
    (acceptsWrites_withFault part_rmmodFault) (reads_withFault part_rmmodFault) ustResult_sample rfl
  have hend := (@lowered_script _ {0, 1} (reads_withFault part_rmmodFault) hmain
    fun _ ↦ restore_rmmodFault).at_end (s := twoCpus) ⟨rfl, rfl⟩
  have hlowest : lowest 1 {0, 1} ≠ twoCpus.online := by decide
  exact ⟨_, _, (Prod.eta _).symm, hend.trans_ne hlowest⟩

end UstBench.Driver
