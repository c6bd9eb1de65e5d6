import UstBench.Reasoning.Transition
import UstBench.SharedEvents.Effects

/-!
# Deleting a segment

`shared_events_delete` writes the name of the segment into the context, and hands another buffer to
`shm_unlink`, one that nothing has been written into.  So the call goes through the context whether
or not there is one, renames it, and unlinks whatever name the stack holds.
-/

namespace UstBench

open Reasoning Reasoning.Prog

/-- A call of the module, `shared_events_delete` among them. -/
inductive ModuleOp where
  | call (op : Op)
  | delete (pid : ℤ)
deriving DecidableEq

def ModuleOp.run (sys : Sys) : ModuleOp → Call Result
  | .call op => op.run sys
  | .delete pid => do
    sharedEventsDelete sys pid
    return .status 0

/-- A call that comes back leaves the state for the next one. -/
def moduleStep (w : World) (x : ModuleOp × Sys) : Option World :=
  match run (x.1.run x.2) w with
  | (.ok _, w') => some w'
  | (.error _, _) => none

/-! ## What a delete is for -/

/-- A later open of `pid`, by a process whose module is closed, finds no event. -/
def OpensEmpty (k : Kernel) (pid : ℤ) : Prop :=
  ∀ (w : World) (sys : Sys), w.kernel = k → w.proc.ctx = none → sys.Succeeds →
    ∃ w' s, run (sharedEventsOpen sys pid) w = (.ok 0, w') ∧
      w'.kernel.segment (shmName maxShmNameLen pid) = some s ∧ s.log = []

/-- The segment of `pid` is gone, and nothing else has changed. -/
structure Deleted (pid : ℤ) (w w' : World) : Prop where
  gone : w'.kernel.segment (shmName maxShmNameLen pid) = none
  others : ∀ n, n ≠ shmName maxShmNameLen pid → w'.kernel.segment n = w.kernel.segment n
  ctx : w'.proc.ctx = w.proc.ctx
  empty : OpensEmpty w'.kernel pid

/-- `shared_events_delete` comes back and has removed the segment of `pid`, and only that. -/
def DeletesExactly (sys : Sys) (pid : ℤ) (w : World) : Prop :=
  ∃ w', run (sharedEventsDelete sys pid) w = (.ok (), w') ∧ Deleted pid w w'

/-- The context is there and has the name of the segment in it already, and `shm_unlink` is handed
that name too; or there is no such segment, and nothing is removed. -/
def Deletable (sys : Sys) (pid : ℤ) (w : World) : Prop :=
  (∃ c, w.proc.ctx = some c ∧ c.name = shmName maxShmNameLen pid) ∧
    (sys.shmUnlink = none ∧ sys.stackName = shmName maxShmNameLen pid ∨
      w.kernel.segment (shmName maxShmNameLen pid) = none ∧
        (sys.shmUnlink = none → w.kernel.segment sys.stackName = none))

/-! ## What a delete does -/

theorem Kernel.segment_unlink (k : Kernel) (n m : ShmName) :
    (k.unlink n).segment m = if m = n then none else k.segment m := by
  unfold segment unlink
  dsimp only
  rw [Function.update_apply]
  split
  · rfl
  · rfl

theorem Kernel.segment_eq_none {k : Kernel} {n : ShmName} :
    k.segment n = none ↔ k.shm n = none :=
  Option.map_eq_none_iff

section Unlink

variable (w : World) (fail : Option ℕ) (n : ShmName)

theorem World.shmUnlink_ctx : (w.shmUnlink fail n).proc.ctx = w.proc.ctx := by
  unfold shmUnlink
  split
  · rfl
  · split
    · rfl
    · rfl

theorem World.segment_shmUnlink (m : ShmName) :
    (w.shmUnlink fail n).kernel.segment m =
      if fail = none ∧ m = n then none else w.kernel.segment m := by
  cases fail with
  | some e =>
    rw [if_neg fun h ↦ Option.some_ne_none e h.1]
    rfl
  | none =>
    unfold shmUnlink
    cases hn : w.kernel.shm n with
    | some ino =>
      show (w.kernel.unlink n).segment m = _
      rw [Kernel.segment_unlink]
      simp
    | none =>
      -- there is nothing under the name, so it does not matter that it stays
      show w.kernel.segment m = _
      split
      · rename_i h
        rw [h.2]
        exact Kernel.segment_eq_none.mpr hn
      · rfl

end Unlink

section Delete

variable {sys : Sys} {pid : ℤ} {w : World}

theorem run_delete_of_closed (h : w.proc.ctx = none) :
    run (sharedEventsDelete sys pid) w = (.error .nullCtx, w) := by
  simp [sharedEventsDelete, run_bind, h]

theorem run_delete {c : Ctx} (h : w.proc.ctx = some c) :
    run (sharedEventsDelete sys pid) w =
      (.ok (), (w.setCtx (some { c with name := shmName maxShmNameLen pid })).shmUnlink
        sys.shmUnlink sys.stackName) := by
  simp [sharedEventsDelete, modifyCtx, run_bind, h]

theorem opensEmpty_of_gone {k : Kernel} (h : k.segment (shmName maxShmNameLen pid) = none) :
    OpensEmpty k pid := by
  intro v sys' hk hc hs
  rcases open_succeeds hs pid hc with ⟨w', ino, c, hr, ho⟩
  refine ⟨w', .zeroed, hr, ?_, SharedEvents.log_zeroed⟩
  rw [ho.kernel, hk, Kernel.segment_ensure_self, h]
  rfl

/-- The world behind a delete with the context `c`. -/
theorem segment_delete (sys : Sys) (pid : ℤ) (w : World) (c : Ctx) (m : ShmName) :
    ((w.setCtx (some { c with name := shmName maxShmNameLen pid })).shmUnlink sys.shmUnlink
      sys.stackName).kernel.segment m =
        if sys.shmUnlink = none ∧ m = sys.stackName then none else w.kernel.segment m :=
  World.segment_shmUnlink _ _ _ _

theorem Deletable.deletesExactly (h : Deletable sys pid w) : DeletesExactly sys pid w := by
  rcases h with ⟨⟨c, hctx, hname⟩, hcase⟩
  have hgone : ((w.setCtx (some { c with name := shmName maxShmNameLen pid })).shmUnlink
      sys.shmUnlink sys.stackName).kernel.segment (shmName maxShmNameLen pid) = none := by
    rw [segment_delete]
    split
    · rfl
    · rename_i hn
      cases hcase with
      | inl hown => exact absurd ⟨hown.1, hown.2.symm⟩ hn
      | inr habsent => exact habsent.1
  refine ⟨_, run_delete hctx, hgone, ?_, ?_, opensEmpty_of_gone hgone⟩
  · -- what is unlinked has the name of the segment, or was not there
    intro n hn
    rw [segment_delete]
    split
    · rename_i hs
      cases hcase with
      | inl hown => exact absurd (hs.2.trans hown.2) hn
      | inr habsent => rw [hs.2, habsent.2 hs.1]
    · rfl
  · rw [World.shmUnlink_ctx, World.setCtx_ctx, hctx, ← hname]

theorem DeletesExactly.deletable (h : DeletesExactly sys pid w) : Deletable sys pid w := by
  rcases h with ⟨w', hr, hgone, hothers, hsame, -⟩
  cases hctx : w.proc.ctx with
  | none =>
    rw [run_delete_of_closed hctx] at hr
    cases hr
  | some c =>
    rw [run_delete hctx] at hr
    cases hr
    -- the name is written into the context, which keeps it only if it had it before
    rw [World.shmUnlink_ctx, World.setCtx_ctx, hctx] at hsame
    have hname : shmName maxShmNameLen pid = c.name := congrArg Ctx.name (Option.some.inj hsame)
    refine ⟨⟨c, hctx, hname.symm⟩, ?_⟩
    by_cases hown : sys.shmUnlink = none ∧ sys.stackName = shmName maxShmNameLen pid
    · exact .inl hown
    · rw [segment_delete, if_neg fun h ↦ hown ⟨h.1, h.2.symm⟩] at hgone
      refine .inr ⟨hgone, ?_⟩
      -- another name is unlinked, and nothing may be lost with it
      intro hu
      have hother := hothers sys.stackName fun hn ↦ hown ⟨hu, hn⟩
      rw [segment_delete, if_pos ⟨hu, rfl⟩] at hother
      exact hother.symm

theorem deletesExactly_iff : DeletesExactly sys pid w ↔ Deletable sys pid w :=
  ⟨DeletesExactly.deletable, Deletable.deletesExactly⟩

end Delete

/-! ## Runs -/

/-- Every delete of a run removes its segment and nothing else, exactly if each finds the context
and the stack as `Deletable` has it. -/
theorem delete_exact_iff (ops : List (ModuleOp × Sys)) (w : World) :
    Throughout moduleStep (fun v x ↦ ∀ pid, x.1 = .delete pid → DeletesExactly x.2 pid v) ops w ↔
      Throughout moduleStep (fun v x ↦ ∀ pid, x.1 = .delete pid → Deletable x.2 pid v) ops w :=
  throughout_congr fun _ _ ↦ forall_congr' fun _ ↦ imp_congr_right fun _ ↦ deletesExactly_iff

/-- An open, an event and the delete, with an empty string in the buffer. -/
def deleteRun : List (ModuleOp × Sys) :=
  [(.call (.openPid 1), .succeeding ⟨0, 0⟩), (.call (.log (.add .exec)), .succeeding ⟨0, 0⟩),
    (.delete 1, .succeeding ⟨0, 0⟩)]

-- the segment and its event are still there behind the delete; a closed module dies in the call
theorem delete_keeps_segment :
    ¬Throughout moduleStep (fun v x ↦ ∀ pid, x.1 = .delete pid → DeletesExactly x.2 pid v)
        deleteRun ⟨.empty, .start 1⟩ ∧
      (∃ w, execute moduleStep deleteRun ⟨.empty, .start 1⟩ = some w ∧
        (w.kernel.segment (shmName maxShmNameLen 1)).map SharedEvents.count = some 1) ∧
      run (sharedEventsDelete (.succeeding ⟨0, 0⟩) 1) ⟨.empty, .start 1⟩ =
        (.error .nullCtx, ⟨.empty, .start 1⟩) := by
  refine ⟨?_, ⟨_, rfl, ?_⟩, rfl⟩
  · intro h
    have hdelete := (h.2 _ rfl).2 _ rfl
    rcases hdelete.1 1 rfl with ⟨w', hr, hgone, -⟩
    cases hr
    cases hgone
  · rfl

end UstBench
