import UstBench.Driver.CpuTarget

/-!
# What the setter of `online_count` does

A count out of range is refused before anything is written.  Any other one is reached, by the lowest
CPUs that will do, and by no write that is not needed.
-/

namespace UstBench.Driver

open Reasoning Reasoning.Prog

/-- From `w` to `w'` every write to a CPU was an allowed one. -/
def World.WritesOnly (w : World) (allowed : ℕ → Bool → Prop) (w' : World) : Prop :=
  ∃ entries, w'.log = entries ++ w.log ∧
    ∀ entry ∈ entries, ∀ cpu on, entry.step = .writeCpu cpu on → allowed cpu on

/-- `count` CPUs are online: the lowest of those that were, or these and the lowest of the others,
and no CPU was written but to get there. -/
structure CountSet (count : ℤ) (w w' : World) : Prop where
  card : (w'.online.card : ℤ) = count
  lowered : count ≤ w.online.card → w'.online = lowest count.toNat w.online
  raised : w.online.card < count →
    w'.online = w.online ∪ lowest (count - w.online.card).toNat w.offline
  writes : w.WritesOnly (Toward w.online w'.online) w'

section WritesOnly

variable {allowed : ℕ → Bool → Prop} {w w' : World}

theorem World.WritesOnly.refl (w : World) (allowed : ℕ → Bool → Prop) :
    w.WritesOnly allowed w :=
  ⟨[], rfl, fun _ h ↦ absurd h List.not_mem_nil⟩

theorem World.WritesOnly.after (h : w.WritesOnly allowed w') {s : Step}
    (hs : ∀ cpu on, s = .writeCpu cpu on → allowed cpu on) (r : Except Exc s.Result) :
    w.WritesOnly allowed (w'.after s r) := by
  rcases h with ⟨entries, hlog, hall⟩
  refine ⟨⟨s, r, w'.within, w'.active, w'.online⟩ :: entries, ?_, ?_⟩
  · rw [World.after_log, hlog]
    rfl
  · intro entry hentry
    cases List.mem_cons.mp hentry with
    | inl heq =>
      rw [heq]
      exact hs
    | inr hmem => exact hall entry hmem

end WritesOnly

section Setter

variable {env : Env} {w : World} {count : ℤ}

/-- The state behind the two reads. -/
def World.readBoth (w : World) : World :=
  (w.after (.readCpuFile .online) (.ok ())).after (.readCpuFile .offline) (.ok ())

/-- Out of range, the setter raises with the two lists read. -/
theorem run_setOnlineCount_refused (h : env.AcceptsHotplug)
    (hcount : count < 1 ∨ w.online.card + w.offline.card < count) :
    ∃ e, run (setOnlineCount env count) w = (.error e, w.readBoth) := by
  have honline := run_onlineCpus (h.reads w .online)
  have hoffline : run (offlineCpus env) (w.after (.readCpuFile .online) (.ok ())) =
      (.ok w.offline, w.readBoth) := run_offlineCpus (h.reads _ .offline)
  have hthrow : ∃ e, run (changeOnlineCount env count w.online w.offline) w.readBoth =
      (.error e, w.readBoth) := by
    unfold changeOnlineCount
    dsimp only
    by_cases hmany : (w.offline.card : ℤ) < count - w.online.card
    · rw [if_pos hmany]
      exact ⟨_, rfl⟩
    · rw [if_neg hmany, if_pos (by omega)]
      exact ⟨_, rfl⟩
  rcases hthrow with ⟨e, he⟩
  refine ⟨e, ?_⟩
  unfold setOnlineCount
  rw [run_bind_ok honline, run_bind_ok hoffline, run_bind_error he]

theorem run_setOnlineCount (h : env.AcceptsHotplug) (h1 : 1 ≤ count)
    (h2 : count ≤ w.online.card + w.offline.card) :
    ∃ w', run (setOnlineCount env count) w = (.ok (), w') ∧ CountSet count w w' := by
  have hread : ∀ v file, w.WritesOnly (Toward w.online (countTarget count w.online w.offline)) v →
      w.WritesOnly (Toward w.online (countTarget count w.online w.offline))
        (v.after (.readCpuFile file) (.ok ())) :=
    fun v file hv ↦ hv.after (by nofun) _
  have hwrite : ∀ (v : World) cpu on,
      Toward w.online (countTarget count w.online w.offline) cpu on →
      w.WritesOnly (Toward w.online (countTarget count w.online w.offline)) v →
      w.WritesOnly (Toward w.online (countTarget count w.online w.offline))
        (v.after (.writeCpu cpu on) (.ok true)) := by
    intro v cpu on hcpu hv
    apply hv.after
    intro cpu' on' heq
    cases heq
    exact hcpu
  have hset := (triple_setOnlineCount_exact (E := fun _ _ ↦ False) h h1 h2 hwrite hread).holds w
    ⟨.refl w _, rfl, rfl⟩
  rcases hrun : run (setOnlineCount env count) w with ⟨e | u, w'⟩
  · rw [hrun] at hset
    exact hset.elim
  · rw [hrun] at hset
    have honline : w'.online = countTarget count w.online w.offline := hset.2
    refine ⟨w', rfl, ?_, ?_, ?_, ?_⟩
    · rw [honline]
      exact card_countTarget Finset.disjoint_sdiff h1 h2
    · intro hle
      rw [honline, countTarget, if_pos hle]
    · intro hlt
      rw [honline, countTarget, if_neg (by omega)]
    · rw [honline]
      exact hset.1

end Setter

/-- `online_count = count` raises exactly for a count that is not in range, without a write, and
otherwise sets the count with the writes it takes. -/
theorem setOnlineCount_exact {env : Env} (h : env.AcceptsHotplug) (w : World) (count : ℤ) :
    ((∃ e, (run (setOnlineCount env count) w).1 = .error e) ↔
        count < 1 ∨ w.online.card + w.offline.card < count) ∧
      ((∃ e, (run (setOnlineCount env count) w).1 = .error e) →
        w.WritesOnly (fun _ _ ↦ False) (run (setOnlineCount env count) w).2) ∧
      ((run (setOnlineCount env count) w).1 = .ok () →
        CountSet count w (run (setOnlineCount env count) w).2) := by
  by_cases hcount : count < 1 ∨ w.online.card + w.offline.card < count
  · rcases run_setOnlineCount_refused h hcount with ⟨e, he⟩
    rw [he]
    refine ⟨⟨fun _ ↦ hcount, fun _ ↦ ⟨e, rfl⟩⟩, fun _ ↦ ?_, nofun⟩
    exact ((World.WritesOnly.refl w _).after (by nofun) _).after (by nofun) _
  · rcases @run_setOnlineCount env w count h (by omega) (by omega) with ⟨w', hrun, hset⟩
    rw [hrun]
    refine ⟨⟨?_, fun hc ↦ absurd hc hcount⟩, ?_, fun _ ↦ hset⟩
    · intro he
      rcases he with ⟨e, he⟩
      cases he
    · intro he
      rcases he with ⟨e, he⟩
      cases he

theorem Env.KernelRule.acceptsHotplug {env : Env} (h : env.KernelRule) : env.AcceptsHotplug :=
  ⟨h.reads, h.accepted, h.acceptedOn⟩

-- of the CPUs 0 and 1 the second is off, and is to be switched on
theorem setOnlineCount_exact_both :
    ((∃ e, (run (setOnlineCount (Env.of kernelReply) 2) firstCpu).1 = .error e) ↔
        2 < (1 : ℤ) ∨ (firstCpu.online.card + firstCpu.offline.card : ℤ) < 2) ∧
      ((∃ e, (run (setOnlineCount (Env.of kernelReply) 2) firstCpu).1 = .error e) →
        firstCpu.WritesOnly (fun _ _ ↦ False)
          (run (setOnlineCount (Env.of kernelReply) 2) firstCpu).2) ∧
      ((run (setOnlineCount (Env.of kernelReply) 2) firstCpu).1 = .ok () →
        CountSet 2 firstCpu (run (setOnlineCount (Env.of kernelReply) 2) firstCpu).2) :=
  setOnlineCount_exact kernelRule_kernelReply.acceptsHotplug firstCpu 2

end UstBench.Driver
