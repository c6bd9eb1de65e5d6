import UstBench.SharedEvents.Effects

/-!
# Which segment the module works on

The module has one context for any number of pids.  An open in the closed state, asked for or made by
an operation that finds the module closed, binds it to one name, and the binding lasts to the next
close: a further open with another pid succeeds and changes nothing.
-/

namespace UstBench

open Reasoning Reasoning.Prog

/-- The run of the given calls from `w` ends in `w'`. -/
def Reaches : List (Op × Sys) → World → World → Prop
  | [], w, w' => w' = w
  | (op, sys) :: ops, w, w' =>
    ∃ res u, run (op.run sys) w = (.ok res, u) ∧ Reaches ops u w'

/-- The pid the module is bound to after a call of the process `self`. -/
def Op.binds (self : ℤ) : Op → Option ℤ → Option ℤ
  | .close, _ => none
  | .openPid _, some p => some p
  | .openPid q, none => some q
  | .log _, some p => some p
  | .log _, none => some self

/-- The pid the module is bound to after a sequence of calls of the process `self`. -/
def bindingAfter (self : ℤ) (ops : List (Op × Sys)) : Option ℤ → Option ℤ :=
  fun b ↦ ops.foldl (fun b x ↦ x.1.binds self b) b

/-- The call works on the segment of `q`: it changes and reports what its definition on a segment
says, every other segment and the directory stay, and an open only succeeds. -/
def ActsOn (q : ℤ) (sys : Sys) (w : World) : Op → Prop
  | .close => True
  | .openPid p => run (sharedEventsOpen sys p) w = (.ok 0, w)
  | .log op => ∃ ino s c ts, w.kernel.shm (shmName maxShmNameLen q) = some ino ∧
      w.kernel.segment (shmName maxShmNameLen q) = some s ∧ w.proc.ctx = some c ∧
      op.stamp sys = .ok ts ∧
      match op.onSegment ino ts s c.rptr with
      | .ok (res, s', r) => ∃ w', run (op.run sys) w = (.ok res, w') ∧
          w'.kernel.shm = w.kernel.shm ∧ w'.proc.ctx = some { c with rptr := r } ∧
          w'.kernel.segment (shmName maxShmNameLen q) = some s' ∧
          ∀ m, m ≠ shmName maxShmNameLen q → w'.kernel.segment m = w.kernel.segment m
      | .error f => run (op.run sys) w = (.error f, w)

/-- Until the next close, every call of the run works on the segment of `q`. -/
def BoundTo (q : ℤ) : List (Op × Sys) → World → Prop
  | [], _ => True
  | (op, sys) :: ops, w => op = .close ∨
      ActsOn q sys w op ∧ ∀ res w', run (op.run sys) w = (.ok res, w') → BoundTo q ops w'

/-- The mapping is of the object named for `q`. -/
def World.Binds (w : World) (q : ℤ) : Prop :=
  ∃ ino c, w.Mapped ino c ∧ w.kernel.shm (shmName maxShmNameLen q) = some ino

/-- The state of the module agrees with the pid its history binds it to. -/
def World.Agrees (w : World) : Option ℤ → Prop
  | none => w.proc.ctx = none
  | some q => w.Binds q

theorem World.Agrees.ctx_eq_none_iff {w : World} {b : Option ℤ} (h : w.Agrees b) :
    w.proc.ctx = none ↔ b = none := by
  cases b with
  | none => exact ⟨fun _ ↦ rfl, fun _ ↦ h⟩
  | some q =>
    rcases h with ⟨ino, c, hm, -⟩
    rw [hm.ctx]
    simp

section Step

variable {sys : Sys} {w : World} {q : ℤ}

-- the frame of one operation: the object mapped is the one under the name, and no other is written
theorem World.Binds.acts (hs : sys.Succeeds) (h : w.Binds q) (op : Op) : ActsOn q sys w op := by
  rcases h with ⟨ino, c, hm, hshm⟩
  cases op with
  | close => trivial
  | openPid p => exact open_of_open sys p hm.ctx
  | log op =>
    rcases op.stamp_ok hs with ⟨ts, hts⟩
    have hrun := run_of_mapped hs hm op hts
    refine ⟨ino, w.kernel.seg ino, c, ts, hshm, Kernel.segment_of_shm hshm, hm.ctx, hts, ?_⟩
    rcases hon : op.onSegment ino ts (w.kernel.seg ino) c.rptr with f | ⟨res, s, r⟩
    · rw [hon] at hrun
      exact hrun
    · rw [hon] at hrun
      refine ⟨_, hrun, rfl, rfl, ?_, ?_⟩
      · exact Kernel.segment_setSeg_self hshm s
      · intro m hne
        exact Kernel.segment_setSeg_of_ne hshm hne s

theorem World.Binds.step (hs : sys.Succeeds) (h : w.Binds q) {op : Op} (hop : op ≠ .close)
    {res : Result} {w' : World} (hr : run (op.run sys) w = (.ok res, w')) :
    w'.Binds q ∧ w'.proc.pid = w.proc.pid := by
  rcases h with ⟨ino, c, hm, hshm⟩
  cases op with
  | close => exact absurd rfl hop
  | openPid p =>
    rw [Op.run, run_bind, open_of_open sys p hm.ctx] at hr
    cases hr
    exact ⟨⟨ino, c, hm, hshm⟩, rfl⟩
  | log op =>
    rcases op.stamp_ok hs with ⟨ts, hts⟩
    have hrun := run_of_mapped hs hm op hts
    rw [Op.run] at hr
    rw [hr] at hrun
    rcases hon : op.onSegment ino ts (w.kernel.seg ino) c.rptr with f | ⟨res', s, r⟩
    · rw [hon] at hrun
      cases hrun
    · rw [hon] at hrun
      cases hrun
      exact ⟨⟨ino, _, hm.withLog s r, hshm⟩, rfl⟩

theorem Opened.binds {w' : World} {ino : Ino} {c : Ctx}
    (h : Opened w w' (shmName maxShmNameLen q) ino c) : w'.Binds q :=
  ⟨ino, c, h.mapped, h.shm⟩

/-- The binding of the state follows the history of calls. -/
theorem World.Agrees.step (hs : sys.Succeeds) {b : Option ℤ} (h : w.Agrees b) (op : Op)
    {res : Result} {w' : World} (hr : run (op.run sys) w = (.ok res, w')) :
    w'.Agrees (op.binds w.proc.pid b) ∧ w'.proc.pid = w.proc.pid := by
  cases b with
  | some p =>
    cases op with
    | close =>
      rcases h with ⟨ino, c, hm, -⟩
      rcases close_of_mapped sys hm with ⟨u, hu, -, hctx, hpid, -⟩
      rw [Op.run, run_bind, hu] at hr
      cases hr
      exact ⟨hctx, hpid⟩
    | openPid q => exact World.Binds.step hs h (by simp) hr
    | log op => exact World.Binds.step hs h (by simp) hr
  | none =>
    cases op with
    | close =>
      rw [Op.run, run_bind, close_of_closed sys h] at hr
      cases hr
      exact ⟨h, rfl⟩
    | openPid q =>
      rcases open_succeeds hs q h with ⟨u, ino, c, hu, ho⟩
      rw [Op.run, run_bind, hu] at hr
      cases hr
      exact ⟨ho.binds, ho.pid⟩
    | log op =>
      -- the operation opens the segment of its own process and then works on it
      rcases open_succeeds hs w.proc.pid h with ⟨u, ino, c, hu, ho⟩
      have hopens : (Op.log op).opensFor sys w = some w.proc.pid := by
        rcases hs.clock with ⟨t, ht⟩
        cases op <;> simp [Op.opensFor, ht]
      rw [Op.run, run_of_closed op h hopens, hu] at hr
      have hlog : run ((Op.log op).run sys) u = (.ok res, w') := hr
      have hstep := ho.binds.step hs (by simp) hlog
      exact ⟨hstep.1, hstep.2.trans ho.pid⟩

end Step

theorem agrees_of_reaches {ops : List (Op × Sys)} {w w' : World} {b : Option ℤ}
    (hs : ∀ x ∈ ops, x.2.Succeeds) (h : w.Agrees b) (hr : Reaches ops w w') :
    w'.Agrees (bindingAfter w.proc.pid ops b) ∧ w'.proc.pid = w.proc.pid := by
  induction ops generalizing w b with
  | nil =>
    cases hr
    exact ⟨h, rfl⟩
  | cons x ops ih =>
    rcases hr with ⟨res, u, hu, hrest⟩
    have hstep := h.step (hs x List.mem_cons_self) x.1 hu
    have hrun := ih (fun y hy ↦ hs y (List.mem_cons_of_mem x hy)) hstep.1 hrest
    rw [hstep.2] at hrun
    exact hrun

theorem boundTo_of_binds {ops : List (Op × Sys)} {w : World} {q : ℤ}
    (hs : ∀ x ∈ ops, x.2.Succeeds) (h : w.Binds q) : BoundTo q ops w := by
  induction ops generalizing w with
  | nil => trivial
  | cons x ops ih =>
    have hx := hs x List.mem_cons_self
    by_cases hop : x.1 = .close
    · exact .inl hop
    · apply Or.inr
      constructor
      · exact h.acts hx x.1
      · intro res w' hr
        have hstep := h.step hx hop hr
        exact ih (fun y hy ↦ hs y (List.mem_cons_of_mem x hy)) hstep.1

/-- An open in the closed state binds the module to its pid until the next close.  An open in any
other state succeeds too, and the module stays bound as its history has it. -/
theorem open_binds {before later : List (Op × Sys)} {sys : Sys} {w w₁ : World} (q : ℤ)
    (hc : w.proc.ctx = none) (hb : ∀ x ∈ before, x.2.Succeeds) (hl : ∀ x ∈ later, x.2.Succeeds)
    (hs : sys.Succeeds) (hr : Reaches before w w₁) :
    (w₁.proc.ctx = none →
      ∃ w₂, run (sharedEventsOpen sys q) w₁ = (.ok 0, w₂) ∧ BoundTo q later w₂) ∧
    (w₁.proc.ctx ≠ none → run (sharedEventsOpen sys q) w₁ = (.ok 0, w₁) ∧
      ∃ p, bindingAfter w.proc.pid before none = some p ∧ BoundTo p later w₁) := by
  have hclosed : w.Agrees none := hc
  have hag := (agrees_of_reaches hb hclosed hr).1
  constructor
  · intro hclosed
    rcases open_succeeds hs q hclosed with ⟨w₂, ino, c, hopen, ho⟩
    exact ⟨w₂, hopen, boundTo_of_binds hl ho.binds⟩
  · intro hopen
    cases hbind : bindingAfter w.proc.pid before none with
    | none => exact absurd (hag.ctx_eq_none_iff.mpr hbind) hopen
    | some p =>
      rw [hbind] at hag
      rcases hag with ⟨ino, c, hm, hshm⟩
      exact ⟨open_of_open sys q hm.ctx, p, rfl, boundTo_of_binds hl ⟨ino, c, hm, hshm⟩⟩

-- a second open, for pid 2, returns 0; the event that follows goes to the segment of pid 1
theorem open_twice_not_bound :
    ∃ w₁ w₂ w₃, run (sharedEventsOpen (.succeeding ⟨0, 0⟩) 1) ⟨.empty, .start 1⟩ = (.ok 0, w₁) ∧
      run (sharedEventsOpen (.succeeding ⟨0, 0⟩) 2) w₁ = (.ok 0, w₂) ∧
      run (sharedEventsAdd (.succeeding ⟨0, 0⟩) .exec) w₂ = (.ok 0, w₃) ∧
      (w₃.kernel.segment (shmName maxShmNameLen 1)).map SharedEvents.count = some 1 ∧
      w₃.kernel.segment (shmName maxShmNameLen 2) = none ∧
      ¬BoundTo 2 [(.log (.add .exec), .succeeding ⟨0, 0⟩)] w₂ := by
  refine ⟨_, _, _, rfl, rfl, rfl, rfl, rfl, fun h ↦ ?_⟩
  rcases h with h | ⟨⟨ino, s, c, ts, hshm, -⟩, -⟩
  · cases h
  · cases (show none = some ino from hshm)

-- the first open of pid 2 binds the module; one of pid 3 behind it leaves the module bound to 2
theorem open_binds_second :
    (∃ w₂, run (sharedEventsOpen (.succeeding ⟨0, 0⟩) 2) ⟨.empty, .start 1⟩ = (.ok 0, w₂) ∧
      BoundTo 2 [(.log .clear, .succeeding ⟨0, 0⟩)] w₂) ∧
    ∃ w₁, Reaches [(.openPid 2, .succeeding ⟨0, 0⟩), (.log (.add .exec), .succeeding ⟨1, 0⟩)]
        ⟨.empty, .start 1⟩ w₁ ∧
      run (sharedEventsOpen (.succeeding ⟨0, 0⟩) 3) w₁ = (.ok 0, w₁) ∧
      ∃ p, bindingAfter 1 [(.openPid 2, .succeeding ⟨0, 0⟩), (.log (.add .exec), .succeeding ⟨1, 0⟩)]
          none = some p ∧ p = 2 ∧ BoundTo p [(.log .clear, .succeeding ⟨2, 0⟩)] w₁ := by
  have hlater : ∀ t, ∀ x ∈ ([(.log .clear, .succeeding t)] : List (Op × Sys)), x.2.Succeeds := by
    intro t x hx
    rw [List.mem_singleton.mp hx]
    exact Sys.succeeds_succeeding _
  have hbefore : ∀ x ∈ ([(.openPid 2, .succeeding ⟨0, 0⟩), (.log (.add .exec), .succeeding ⟨1, 0⟩)] :
      List (Op × Sys)), x.2.Succeeds := by
    intro x hx
    simp only [List.mem_cons, List.not_mem_nil, or_false] at hx
    rcases hx with rfl | rfl <;> exact Sys.succeeds_succeeding _
  constructor
  · exact (@open_binds [] [(.log .clear, .succeeding ⟨0, 0⟩)] _ _ _ 2 rfl (by simp) (hlater _)
      (Sys.succeeds_succeeding _) rfl).1 rfl
  · have hr : ∃ w₁, Reaches [(.openPid 2, .succeeding ⟨0, 0⟩),
        (.log (.add .exec), .succeeding ⟨1, 0⟩)] ⟨.empty, .start 1⟩ w₁ ∧ w₁.proc.ctx ≠ none :=
      ⟨_, ⟨_, _, rfl, _, _, rfl, rfl⟩, nofun⟩
    obtain ⟨w₁, hr, hopen⟩ := hr
    obtain ⟨hsecond, p, hp, hbound⟩ := (@open_binds _ [(.log .clear, .succeeding ⟨2, 0⟩)] _ _ _ 3
      rfl hbefore (hlater _) (Sys.succeeds_succeeding ⟨0, 0⟩) hr).2 hopen
    exact ⟨w₁, hr, hsecond, p, hp, (Option.some.inj hp).symm, hbound⟩

end UstBench
