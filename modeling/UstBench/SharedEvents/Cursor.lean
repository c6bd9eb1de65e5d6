import UstBench.Reasoning.CursorLog
import UstBench.SharedEvents.Effects

/-!
# Reading the log

An opened segment together with `ctx->rptr` is meant to be a log with a reader
(`Reasoning.CursorLog`): a read gives the oldest event that was added since the log was cleared and
was not given since the reader last started over.  `shared_events_clear` sets the count alone, so
the module is that log exactly as long as it is cleared only with the reader at the start.
-/

namespace UstBench

open Reasoning Reasoning.Prog

/-- `while ((event = shared_events_read()))`, for at most `turns` events: whether it ended. -/
def readLoop (sys : Sys) : ℕ → Call Bool
  | 0 => do return (← sharedEventsRead sys) = .null
  | turns + 1 => do
    if (← sharedEventsRead sys) = .null then
      return true
    else
      readLoop sys turns

/-- The indices are in range, and the reading loop ends after at most `count` events. -/
def World.CursorInRange (w : World) : Prop :=
  ∃ ino c, w.Mapped ino c ∧ 0 ≤ c.rptr ∧ c.rptr ≤ (w.kernel.seg ino).count ∧
    (w.kernel.seg ino).count ≤ maxEventCount ∧
    ∀ sys, (run (readLoop sys (w.kernel.seg ino).count) w).1 = .ok true

/-- What an operation does to the log; a full log takes no more events. -/
def LogOp.onLog (ts : Timespec) : LogOp → CursorLog SharedEvent → CursorLog SharedEvent
  | .clear, L => L.clear
  | .add name, L =>
    if L.entries.length < maxEventCount then L.push ⟨ts, strncpy name⟩ else L
  | .read, L => L.advance
  | .rewind, L => L.rewind

/-- The answer the log gives to an operation.  An event is given as a pointer to a counted slot of
the segment that holds it. -/
def LogOp.Answers (w : World) (L : CursorLog SharedEvent) : LogOp → Result → Prop
  | .clear, res => res = .status 0
  | .add _, res => res = .status (if L.entries.length < maxEventCount then 0 else -1)
  | .read, res =>
    match L.unread.head? with
    | none => res = .event .null
    | some e => ∃ ino k, res = .event (.event ino k) ∧ (w.kernel.seg ino).events k = e ∧
        k < (w.kernel.seg ino).count
  | .rewind, res => res = .status 0

/-- In every state of the run the indices are in range, and every operation answers as the log. -/
def FollowsLog : List (LogOp × Sys) → World → CursorLog SharedEvent → Prop
  | [], w, _ => w.CursorInRange
  | (op, sys) :: ops, w, L =>
    w.CursorInRange ∧ ∃ ts res w', op.stamp sys = .ok ts ∧ run (op.run sys) w = (.ok res, w') ∧
      op.Answers w L res ∧ FollowsLog ops w' (op.onLog ts L)

/-- Every `shared_events_clear` of the run is called with `rptr` at the start. -/
def ClearsRewound : List (LogOp × Sys) → World → Prop
  | [], _ => True
  | (op, sys) :: ops, w =>
    (op = .clear → ∀ c, w.proc.ctx = some c → c.rptr = 0) ∧
      ∀ res w', run (op.run sys) w = (.ok res, w') → ClearsRewound ops w'

/-- The opened segment and the read position are the log `L`. -/
def World.Holds (w : World) (L : CursorLog SharedEvent) : Prop :=
  ∃ ino c, w.Mapped ino c ∧ (w.kernel.seg ino).count ≤ maxEventCount ∧
    (w.kernel.seg ino).log = L.entries ∧ c.rptr = L.position

theorem toSizeT_natCast {n : ℕ} (h : n ≤ maxEventCount) : toSizeT n = n := by
  change n ≤ 256 at h
  unfold toSizeT
  omega

section Step

variable {sys : Sys} {w : World} {L : CursorLog SharedEvent} {ino : Ino} {c : Ctx}

theorem run_read_of_mapped (sys : Sys) (h : w.Mapped ino c) {n : ℕ} (hn : c.rptr = n)
    (hlt : n < maxEventCount) (hne : n ≠ (w.kernel.seg ino).count) :
    run (sharedEventsRead sys) w =
      (.ok (.event ino ⟨n, hlt⟩), w.setCtx (some { c with rptr := n + 1 })) := by
  have hz : toSizeT c.rptr ≠ (w.kernel.seg ino).count := by
    rw [hn, toSizeT_natCast hlt.le]
    exact hne
  have hr : 0 ≤ c.rptr ∧ c.rptr.toNat < maxEventCount := by omega
  simp only [sharedEventsRead, run_bind, openFailed_of_open h.ctx, Bool.false_eq_true, if_false,
    derefEvents_of_mapped h, run_get, h.ctx, if_neg hz, dif_pos hr, modifyCtx, run_modify, run_pure,
    Option.map_some]
  simp only [hn, Int.toNat_natCast]

theorem run_read_at_end (sys : Sys) (h : w.Mapped ino c) (hn : c.rptr = (w.kernel.seg ino).count)
    (hlt : (w.kernel.seg ino).count ≤ maxEventCount) :
    run (sharedEventsRead sys) w = (.ok .null, w) := by
  have hz : toSizeT c.rptr = (w.kernel.seg ino).count := by
    rw [hn, toSizeT_natCast hlt]
  simp only [sharedEventsRead, run_bind, openFailed_of_open h.ctx, Bool.false_eq_true, if_false,
    derefEvents_of_mapped h, run_get, h.ctx, if_pos hz, run_pure]

/-- From a position in range the loop needs one turn for each event that is left. -/
theorem readLoop_ends {turns n : ℕ} (h : w.Mapped ino c) (hn : c.rptr = n)
    (hle : n ≤ (w.kernel.seg ino).count) (hmax : (w.kernel.seg ino).count ≤ maxEventCount)
    (ht : (w.kernel.seg ino).count ≤ n + turns) : (run (readLoop sys turns) w).1 = .ok true := by
  induction turns generalizing w c n with
  | zero =>
    have he : c.rptr = (w.kernel.seg ino).count := by omega
    simp [readLoop, run_bind, run_read_at_end sys h he hmax]
  | succ turns ih =>
    by_cases he : n = (w.kernel.seg ino).count
    · simp [readLoop, run_bind, run_read_at_end sys h (he ▸ hn) hmax]
    · rw [readLoop, run_bind, run_read_of_mapped sys h hn (by omega) he]
      simp only [reduceCtorEq, if_false]
      exact ih (w := w.setCtx (some { c with rptr := n + 1 })) (n := n + 1)
        ⟨rfl, h.events, h.live⟩ rfl (by change n + 1 ≤ (w.kernel.seg ino).count; omega) hmax
        (by change (w.kernel.seg ino).count ≤ n + 1 + turns; omega)

theorem length_entries (hmax : (w.kernel.seg ino).count ≤ maxEventCount)
    (hlog : (w.kernel.seg ino).log = L.entries) :
    L.entries.length = (w.kernel.seg ino).count := by
  rw [← hlog, SharedEvents.length_log hmax]

theorem World.Holds.cursorInRange (h : w.Holds L) : w.CursorInRange := by
  obtain ⟨ino, c, hm, hmax, hlog, hr⟩ := h
  have hlen := length_entries hmax hlog
  have hpos := L.position_le
  exact ⟨ino, c, hm, by omega, by omega, hmax, fun sys ↦
    readLoop_ends hm hr (by omega) hmax (by omega)⟩

/-- An add is a push, or is refused on both sides. -/
theorem World.Holds.add (hs : sys.Succeeds) (h : w.Holds L) (name : CString) {ts : Timespec}
    (hts : (LogOp.add name).stamp sys = .ok ts) :
    ∃ res w', run ((LogOp.add name).run sys) w = (.ok res, w') ∧
      (LogOp.add name).Answers w L res ∧ w'.Holds ((LogOp.add name).onLog ts L) := by
  obtain ⟨ino, c, hm, hmax, hlog, hr⟩ := h
  have hlen := length_entries hmax hlog
  have hrun := run_of_mapped hs hm (.add name) hts
  by_cases hlt : (w.kernel.seg ino).count < maxEventCount
  · simp only [LogOp.onSegment, if_neg (Nat.ne_of_lt hlt), dif_pos hlt] at hrun
    have hL : L.entries.length < maxEventCount := hlen ▸ hlt
    refine ⟨_, _, hrun, ?_, ino, _, hm.withLog _ _, ?_, ?_, ?_⟩
    · simp only [LogOp.Answers, if_pos hL]
    · rw [World.withLog_seg]
      exact hlt
    · rw [World.withLog_seg, SharedEvents.log_push hlt, hlog]
      simp only [LogOp.onLog, if_pos hL, CursorLog.entries_push]
    · simp only [LogOp.onLog, if_pos hL, CursorLog.position_push, hr]
  · have hfull : (w.kernel.seg ino).count = maxEventCount := by omega
    simp only [LogOp.onSegment, if_pos hfull] at hrun
    have hL : ¬L.entries.length < maxEventCount := hlen ▸ hlt
    refine ⟨_, _, hrun, ?_, ino, _, hm.withLog _ _, ?_, ?_, ?_⟩
    · simp only [LogOp.Answers, if_neg hL]
    · rw [World.withLog_seg]
      exact hmax
    · simp only [World.withLog_seg, hlog, LogOp.onLog, if_neg hL]
    · simp only [LogOp.onLog, if_neg hL, hr]

/-- A read is the head of what is unread, and advances behind it. -/
theorem World.Holds.read (sys : Sys) (h : w.Holds L) (ts : Timespec) :
    ∃ res w', run (LogOp.read.run sys) w = (.ok res, w') ∧ LogOp.read.Answers w L res ∧
      w'.Holds (LogOp.read.onLog ts L) := by
  obtain ⟨ino, c, hm, hmax, hlog, hr⟩ := h
  have hlen := length_entries hmax hlog
  have hpos := L.position_le
  by_cases hend : L.unread = []
  · -- the position stays, and so does the log
    have hp : L.position = (w.kernel.seg ino).count := hlen ▸ L.unread_eq_nil_iff.mp hend
    have hread := run_read_at_end sys hm (by rw [hr, hp]) hmax
    refine ⟨.event .null, w, ?_, ?_, ino, c, hm, hmax, hlog, ?_⟩
    · rw [LogOp.run, run_bind, hread]
      rfl
    · simp only [LogOp.Answers, hend, List.head?_nil]
    · rw [hr]
      simp only [LogOp.onLog, CursorLog.position, CursorLog.advance, hend, List.tail_nil]
  · have hne : L.position ≠ L.entries.length := fun he ↦ hend (L.unread_eq_nil_iff.mpr he)
    have hread := run_read_of_mapped sys hm hr (by omega) (by omega)
    refine ⟨.event (.event ino ⟨L.position, by omega⟩),
      w.setCtx (some { c with rptr := L.position + 1 }), ?_, ?_, ino, _,
      ⟨rfl, hm.events, hm.live⟩, hmax, hlog, ?_⟩
    · rw [LogOp.run, run_bind, hread]
      rfl
    · have hget : L.unread.head? = some ((w.kernel.seg ino).events ⟨L.position, by omega⟩) := by
        rw [L.head?_unread, ← hlog, SharedEvents.log_getElem? (by omega)]
      simp only [LogOp.Answers, hget]
      exact ⟨ino, _, rfl, rfl, by change L.position < _; omega⟩
    · simp only [LogOp.onLog, CursorLog.position_advance hend]
      push_cast
      rfl

/-- One operation of the module is one operation on the log, if a clear finds the reader at the
start. -/
theorem World.Holds.step (hs : sys.Succeeds) (h : w.Holds L) (op : LogOp)
    (hclear : op = .clear → L.position = 0) :
    ∃ ts res w', op.stamp sys = .ok ts ∧ run (op.run sys) w = (.ok res, w') ∧
      op.Answers w L res ∧ w'.Holds (op.onLog ts L) := by
  obtain ⟨ts, hts⟩ := op.stamp_ok hs
  cases op with
  | clear =>
    -- the position is left where it is, which is the start
    obtain ⟨ino, c, hm, hmax, hlog, hr⟩ := h
    refine ⟨ts, _, _, hts, run_of_mapped hs hm .clear hts, rfl, ino, _, hm.withLog _ _, ?_, ?_, ?_⟩
    · simp
    · simp [LogOp.onLog]
    · simp [LogOp.onLog, hr, hclear rfl]
  | add name =>
    obtain ⟨res, w', hadd⟩ := h.add hs name hts
    exact ⟨ts, res, w', hts, hadd⟩
  | read =>
    obtain ⟨res, w', hread⟩ := h.read sys ts
    exact ⟨ts, res, w', hts, hread⟩
  | rewind =>
    obtain ⟨ino, c, hm, hmax, hlog, hr⟩ := h
    refine ⟨ts, _, _, hts, run_of_mapped hs hm .rewind hts, rfl, ino, _, hm.withLog _ _, ?_, ?_, ?_⟩
    · rw [World.withLog_seg]
      exact hmax
    · simp [LogOp.onLog, hlog]
    · simp [LogOp.onLog]

end Step

/-- A run whose clears all find the reader at the start is a run of the log. -/
theorem followsLog_of_clearsRewound {ops : List (LogOp × Sys)} {w : World}
    {L : CursorLog SharedEvent} (hs : ∀ x ∈ ops, x.2.Succeeds) (h : w.Holds L)
    (hc : ClearsRewound ops w) : FollowsLog ops w L := by
  induction ops generalizing w L with
  | nil => exact h.cursorInRange
  | cons x ops ih =>
    obtain ⟨op, sys⟩ := x
    have hclear : op = .clear → L.position = 0 := by
      intro he
      obtain ⟨ino, c, hm, -, -, hr⟩ := h
      have h0 := hc.1 he c hm.ctx
      omega
    obtain ⟨ts, res, w', hts, hrun, hans, h'⟩ := h.step (hs _ List.mem_cons_self) op hclear
    exact ⟨h.cursorInRange, ts, res, w', hts, hrun, hans,
      ih (fun y hy ↦ hs y (List.mem_cons_of_mem _ hy)) h' (hc.2 res w' hrun)⟩

/-- A clear that finds the reader further on leaves it behind the end of the log. -/
theorem clearsRewound_of_followsLog {ops : List (LogOp × Sys)} {w : World}
    {L : CursorLog SharedEvent} (hs : ∀ x ∈ ops, x.2.Succeeds) (h : FollowsLog ops w L) :
    ClearsRewound ops w := by
  induction ops generalizing w L with
  | nil => trivial
  | cons x ops ih =>
    obtain ⟨op, sys⟩ := x
    obtain ⟨⟨ino, c, hm, -⟩, ts, res, w', hts, hrun, -, hf⟩ := h
    refine ⟨?_, ?_⟩
    · -- the clear leaves the position as it found it
      rintro rfl c' hc'
      rw [hm.ctx] at hc'
      cases hc'
      have he := run_of_mapped (hs _ List.mem_cons_self) hm .clear hts
      rw [hrun] at he
      cases he
      -- the read position is in range behind the clear, where the count is 0
      have hr : (w.withLog ino c ((w.kernel.seg ino).setCount 0) c.rptr).CursorInRange := by
        cases ops with
        | nil => exact hf
        | cons y ops => exact hf.1
      obtain ⟨ino', c', hm', h0, hle, -⟩ := hr
      have hm₀ := hm.withLog ((w.kernel.seg ino).setCount 0) c.rptr
      have hcc := hm₀.ctx.symm.trans hm'.ctx
      cases hcc
      have hev := hm₀.events.symm.trans hm'.events
      cases hev
      simp only [World.withLog_seg, SharedEvents.setCount_count] at hle h0
      omega
    · intro res' w'' hrun'
      rw [hrun] at hrun'
      cases hrun'
      exact ih (fun y hy ↦ hs y (List.mem_cons_of_mem _ hy)) hf

theorem rewind_of_mapped {sys : Sys} {w : World} {ino : Ino} {c : Ctx} (h : w.Mapped ino c) :
    run (sharedEventsRewind sys) w = (.ok 0, w.setCtx (some { c with rptr := 0 })) := by
  simp [sharedEventsRewind, run_bind, openFailed_of_open h.ctx, h.ctx, modifyCtx]

/-- After an open and a rewind, a run of the module is a run of the log it found exactly if that log
was no longer than the array and every clear of the run finds the reader at the start. -/
theorem openRewind_followsLog_iff {sys : Sys} (sys' : Sys) {w : World} {ops : List (LogOp × Sys)}
    (pid : ℤ) (hsys : sys.Succeeds) (hc : w.proc.ctx = none) (hs : ∀ x ∈ ops, x.2.Succeeds) :
    ∃ w₁ w₂ s, run (sharedEventsOpen sys pid) w = (.ok 0, w₁) ∧
      run (sharedEventsRewind sys') w₁ = (.ok 0, w₂) ∧
      w₂.kernel.segment (shmName maxShmNameLen pid) = some s ∧
      (FollowsLog ops w₂ (.ofEntries s.log) ↔
        s.count ≤ maxEventCount ∧ ClearsRewound ops w₂) := by
  obtain ⟨w₁, ino, c, hopen, ho⟩ := open_succeeds hsys pid hc
  have hm := ho.mapped
  refine ⟨w₁, _, w₁.kernel.seg ino, hopen, rewind_of_mapped hm, Kernel.segment_of_shm ho.shm,
    ?_, ?_⟩
  · intro hf
    refine ⟨?_, clearsRewound_of_followsLog hs hf⟩
    have hr : (w₁.setCtx (some { c with rptr := 0 })).CursorInRange := by
      cases ops with
      | nil => exact hf
      | cons x ops => exact hf.1
    obtain ⟨ino', c', hm', -, -, hmax, -⟩ := hr
    cases hm'.ctx
    cases hm.events.symm.trans hm'.events
    exact hmax
  · rintro ⟨hmax, hcl⟩
    refine followsLog_of_clearsRewound hs ⟨ino, _, ⟨rfl, hm.events, hm.live⟩, hmax, rfl, ?_⟩ hcl
    simp

-- one event added and read, then the log is cleared: the reader stands behind the end
theorem clear_after_read_not_followsLog :
    ∃ w₁ w₂ s, run (sharedEventsOpen (.succeeding ⟨0, 0⟩) 1) ⟨.empty, .start 1⟩ = (.ok 0, w₁) ∧
      run (sharedEventsRewind (.succeeding ⟨0, 0⟩)) w₁ = (.ok 0, w₂) ∧
      w₂.kernel.segment (shmName maxShmNameLen 1) = some s ∧ s.count = 0 ∧
      ¬FollowsLog [(.add .exec, .succeeding ⟨1, 0⟩), (.read, .succeeding ⟨2, 0⟩),
        (.clear, .succeeding ⟨3, 0⟩)] w₂ (.ofEntries s.log) := by
  refine ⟨_, _, _, rfl, rfl, rfl, rfl, fun hf ↦ ?_⟩
  have hc := clearsRewound_of_followsLog (by
    intro x hx
    simp only [List.mem_cons, List.not_mem_nil, or_false] at hx
    rcases hx with rfl | rfl | rfl <;> exact Sys.succeeds_succeeding _) hf
  have h := ((hc.2 _ _ rfl).2 _ _ rfl).1 rfl _ rfl
  exact absurd h (by decide)

theorem ClearsRewound.cons {op : LogOp} {sys : Sys} {ops : List (LogOp × Sys)} {w w' : World}
    {res : Result} (hclear : op = .clear → ∀ c, w.proc.ctx = some c → c.rptr = 0)
    (hrun : run (op.run sys) w = (.ok res, w')) (h : ClearsRewound ops w') :
    ClearsRewound ((op, sys) :: ops) w := by
  refine ⟨hclear, fun res' w'' hrun' ↦ ?_⟩
  rw [hrun] at hrun'
  cases hrun'
  exact h

/-- Two events are added, one of them is read, and the log is cleared once the reader is back. -/
def rewoundRun : List (LogOp × Sys) :=
  [(.add .exec, .succeeding ⟨1, 0⟩), (.add .exec, .succeeding ⟨2, 0⟩),
   (.read, .succeeding ⟨3, 0⟩), (.rewind, .succeeding ⟨4, 0⟩), (.clear, .succeeding ⟨5, 0⟩),
   (.add .exec, .succeeding ⟨6, 0⟩), (.read, .succeeding ⟨7, 0⟩)]

theorem openRewind_followsLog_iff_rewound :
    ∃ w₁ w₂ s, run (sharedEventsOpen (.succeeding ⟨0, 0⟩) 1) ⟨.empty, .start 1⟩ = (.ok 0, w₁) ∧
      run (sharedEventsRewind (.succeeding ⟨0, 0⟩)) w₁ = (.ok 0, w₂) ∧
      w₂.kernel.segment (shmName maxShmNameLen 1) = some s ∧
      (FollowsLog rewoundRun w₂ (.ofEntries s.log) ↔
        s.count ≤ maxEventCount ∧ ClearsRewound rewoundRun w₂) ∧
      FollowsLog rewoundRun w₂ (.ofEntries s.log) := by
  have hs : ∀ x ∈ rewoundRun, x.2.Succeeds := by
    intro x hx
    simp only [rewoundRun, List.mem_cons, List.not_mem_nil, or_false] at hx
    rcases hx with rfl | rfl | rfl | rfl | rfl | rfl | rfl <;> exact Sys.succeeds_succeeding _
  obtain ⟨w₁, w₂, s, hopen, hrewind, hseg, hiff⟩ := openRewind_followsLog_iff (.succeeding ⟨0, 0⟩)
    (w := ⟨.empty, .start 1⟩) 1 (Sys.succeeds_succeeding ⟨0, 0⟩) rfl hs
  refine ⟨w₁, w₂, s, hopen, hrewind, hseg, hiff, hiff.mpr ?_⟩
  cases hopen
  cases hrewind
  cases hseg
  refine ⟨Nat.zero_le _, .cons nofun rfl (.cons nofun rfl (.cons nofun rfl (.cons nofun rfl
    (.cons ?_ rfl (.cons nofun rfl (.cons nofun rfl trivial))))))⟩
  rintro - c ⟨⟩
  rfl

end UstBench
