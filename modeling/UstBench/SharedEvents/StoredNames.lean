import UstBench.SharedEvents.Effects

/-!
# Stored names

`shared_events_add` copies a name with `strncpy` into a field of 256 bytes that keeps what earlier
runs left in it.  A name that fills the field leaves no NUL there, and printing it goes on into the
event behind.
-/

namespace UstBench

open Reasoning Reasoning.Prog

/-- The calls of `shared_events_add`, one after the other.  Their results are not looked at. -/
def addEach (calls : List (CString × Sys)) : Call Unit :=
  forEach (fun x ↦ do
    let _ ← sharedEventsAdd x.2 x.1
    return) calls

/-- The names that reach the log: without a first reading of the clock a call stores nothing. -/
def storedNames (calls : List (CString × Sys)) : List CString :=
  (calls.filter fun x ↦ x.2.clock.isOk).map Prod.fst

/-- Every stored event has a NUL in its name field, and `%s` prints what fits in front of it. -/
structure NamesTerminated (s : SharedEvents) (names : List CString) : Prop where
  count : s.count = names.length
  terminated : ∀ k : Fin maxEventCount, k < s.count → (s.events k).Terminated
  printed : ∀ (k : Fin maxEventCount) (name : CString), names[(k : ℕ)]? = some name →
    s.printedName k = name.bytes.take (min name.bytes.length (maxEventNameLength - 1))

/-- Behind the calls, the segment the module works on has the names that were stored, each of them
terminated. -/
def StoresTerminated (calls : List (CString × Sys)) (w : World) : Prop :=
  ∃ w' ino c, run (addEach calls) w = (.ok (), w') ∧ w'.Mapped ino c ∧
    NamesTerminated (w'.kernel.seg ino) (storedNames calls)

/-! ## A cleared log -/

theorem mapped_of_derefEvents {w w' : World} {ino : Ino}
    (h : run derefEvents w = (.ok ino, w')) : w' = w ∧ ∃ c, w.Mapped ino c := by
  rw [derefEvents, run_bind, run_get] at h
  dsimp only at h
  cases hc : w.proc.ctx with
  | none =>
    simp only [hc] at h
    cases h
  | some c =>
    simp only [hc] at h
    cases he : c.events with
    | unset =>
      simp only [he] at h
      cases h
    | failed =>
      simp only [he] at h
      cases h
    | mapped i =>
      simp only [he] at h
      by_cases hl : i ∈ w.proc.maps
      · rw [if_pos hl] at h
        cases h
        exact ⟨rfl, c, hc, he, hl⟩
      · rw [if_neg hl] at h
        cases h

/-- A clear that succeeds has the segment mapped, with no event counted. -/
theorem mapped_of_clear {sys : Sys} {w w' : World}
    (h : run (sharedEventsClear sys) w = (.ok 0, w')) :
    ∃ ino c, w'.Mapped ino c ∧ (w'.kernel.seg ino).count = 0 := by
  rcases run_bind_eq_ok h with ⟨failed, w₁, -, hrest⟩
  cases failed with
  | true => cases hrest
  | false =>
    rcases run_bind_eq_ok hrest with ⟨ino, w₂, hderef, hstore⟩
    rcases mapped_of_derefEvents hderef with ⟨rfl, c, hm⟩
    cases hstore
    exact ⟨ino, c, ⟨hm.ctx, hm.events, hm.live⟩, by simp [Kernel.setSeg]⟩

/-! ## The names in the log -/

/-- The log of a mapped segment, by its names. -/
structure HoldsNames (ino : Ino) (names : List CString) (w : World) : Prop where
  mapped : ∃ c, w.Mapped ino c
  count : (w.kernel.seg ino).count = names.length
  names : (w.kernel.seg ino).log.map SharedEvent.name = names.map strncpy

section Add

variable {sys : Sys} {w : World} {ino : Ino} {c : Ctx} {name : CString} {names : List CString}

/-- Whatever becomes of the time stamp, the name is stored and counted. -/
theorem run_add_stores {t : Timespec} (h : w.Mapped ino c) (ht : sys.clock = .ok t)
    (hlt : (w.kernel.seg ino).count < maxEventCount) :
    ∃ ret w' ts, run (sharedEventsAdd sys name) w = (.ok ret, w') ∧ w'.Mapped ino c ∧
      w'.kernel.seg ino = ⟨(w.kernel.seg ino).count + 1,
        Function.update (w.kernel.seg ino).events ⟨_, hlt⟩ ⟨ts, strncpy name⟩⟩ := by
  cases hts : sys.stamp name with
  | ok ts =>
    refine ⟨0, _, ts, run_add_of_mapped h ht hts hlt, ⟨h.ctx, h.events, h.live⟩, ?_⟩
    rw [World.setSeg_seg]
  | error e =>
    -- the late reading of a `"start"` event has failed, and its slot keeps the old time stamp
    rcases Sys.stamp_eq_error ht hts with ⟨rfl, hlate⟩
    refine ⟨-1, _, ((w.kernel.seg ino).events ⟨_, hlt⟩).ts, run_add_unstamped h ht hlate hlt,
      ⟨h.ctx, h.events, h.live⟩, ?_⟩
    rw [World.setErrno_kernel, World.setSeg_seg]

theorem HoldsNames.add (h : HoldsNames ino names w) (hlt : names.length < maxEventCount)
    (sys : Sys) (name : CString) :
    ∃ ret w', run (sharedEventsAdd sys name) w = (.ok ret, w') ∧
      HoldsNames ino (names ++ storedNames [(name, sys)]) w' := by
  rcases h.mapped with ⟨c, hm⟩
  cases ht : sys.clock with
  | error e =>
    have hnone : storedNames [(name, sys)] = [] := by
      simp [storedNames, ht, Except.isOk, Except.toBool]
    refine ⟨-1, w.setErrno (.other e), run_add_clock_failed name ht w, ?_⟩
    rw [hnone, List.append_nil]
    exact ⟨⟨c, hm.ctx, hm.events, hm.live⟩, h.count, h.names⟩
  | ok t =>
    have hone : storedNames [(name, sys)] = [name] := by
      simp [storedNames, ht, Except.isOk, Except.toBool]
    have hslot : (w.kernel.seg ino).count < maxEventCount := h.count ▸ hlt
    have hadd : ∃ ret w' ts, run (sharedEventsAdd sys name) w = (.ok ret, w') ∧ _ ∧ _ :=
      run_add_stores hm ht hslot
    rcases hadd with ⟨ret, w', ts, hr, hm', hseg⟩
    refine ⟨ret, w', hr, ⟨c, hm'⟩, ?_, ?_⟩
    · rw [hone, hseg, List.length_append, ← h.count]
      rfl
    · rw [hone, hseg, SharedEvents.log_push hslot, List.map_append, List.map_append, h.names]
      rfl

theorem storedNames_cons (x : CString × Sys) (calls : List (CString × Sys)) :
    storedNames (x :: calls) = storedNames [x] ++ storedNames calls := by
  unfold storedNames
  rw [← List.map_append, ← List.filter_append]
  rfl

theorem length_storedNames_le (calls : List (CString × Sys)) :
    (storedNames calls).length ≤ calls.length := by
  rw [storedNames, List.length_map]
  exact List.length_filter_le _ _

/-- The names of a run of adds that fits the array. -/
theorem HoldsNames.addEach {calls : List (CString × Sys)} (h : HoldsNames ino names w)
    (hlen : names.length + calls.length ≤ maxEventCount) :
    ∃ w', run (addEach calls) w = (.ok (), w') ∧ HoldsNames ino (names ++ storedNames calls) w' := by
  induction calls generalizing w names with
  | nil =>
    refine ⟨w, rfl, ?_⟩
    rw [show storedNames [] = [] from rfl, List.append_nil]
    exact h
  | cons x calls ih =>
    rw [List.length_cons] at hlen
    rcases h.add (by omega) x.2 x.1 with ⟨ret, w₁, hr, hnext⟩
    have hone : (storedNames [(x.1, x.2)]).length ≤ 1 := length_storedNames_le [x]
    have hroom : (names ++ storedNames [(x.1, x.2)]).length + calls.length ≤ maxEventCount := by
      rw [List.length_append]
      omega
    rcases ih hnext hroom with ⟨w', hrest, hend⟩
    have hturn : run (do let _ ← sharedEventsAdd x.2 x.1; pure ()) w = (.ok (), w₁) := by
      rw [run_bind_ok hr]
      rfl
    refine ⟨w', ?_, ?_⟩
    · show run (do (do let _ ← sharedEventsAdd x.2 x.1; pure ()); UstBench.addEach calls) w = _
      rw [run_bind_ok hturn]
      exact hrest
    · rw [storedNames_cons, ← List.append_assoc]
      exact hend

end Add

/-! ## Terminated names -/

/-- A copied name is terminated exactly if it is shorter than the field. -/
theorem terminated_strncpy_iff {src : CString} {ts : Timespec} :
    SharedEvent.Terminated ⟨ts, strncpy src⟩ ↔ src.bytes.length < maxEventNameLength := by
  constructor
  · intro h
    rcases h with ⟨i, hi⟩
    by_contra hlen
    have hlt : (i : ℕ) < src.bytes.length := by omega
    have hbyte : src.bytes[(i : ℕ)] = 0 := by
      rw [← hi]
      simp [strncpy, hlt]
    exact src.noNul (hbyte ▸ List.getElem_mem hlt)
  · intro h
    exact terminated_strncpy h ts

theorem HoldsNames.getElem {ino : Ino} {names : List CString} {w : World}
    (h : HoldsNames ino names w) {k : Fin maxEventCount} {name : CString}
    (hk : names[(k : ℕ)]? = some name) :
    ((w.kernel.seg ino).events k).name = strncpy name := by
  have hlt : (k : ℕ) < (w.kernel.seg ino).count := by
    rw [h.count]
    exact (List.getElem?_eq_some_iff.mp hk).1
  have hget : ((w.kernel.seg ino).log.map SharedEvent.name)[(k : ℕ)]? =
      (names.map strncpy)[(k : ℕ)]? := by rw [h.names]
  rw [List.getElem?_map, List.getElem?_map, hk, SharedEvents.log_getElem? hlt k.2] at hget
  exact Option.some.inj hget

theorem HoldsNames.terminated_iff {ino : Ino} {names : List CString} {w : World}
    (h : HoldsNames ino names w) (hlen : names.length ≤ maxEventCount) :
    NamesTerminated (w.kernel.seg ino) names ↔
      ∀ name ∈ names, name.bytes.length < maxEventNameLength := by
  have hterm : ∀ {k : Fin maxEventCount} {name : CString}, names[(k : ℕ)]? = some name →
      (((w.kernel.seg ino).events k).Terminated ↔ name.bytes.length < maxEventNameLength) := by
    intro k name hk
    have hiff := @terminated_strncpy_iff name ((w.kernel.seg ino).events k).ts
    rw [← hiff, ← h.getElem hk]
  constructor
  · -- every name has a slot, and its field ends within it
    intro ht name hname
    rcases List.mem_iff_getElem?.mp hname with ⟨k, hk⟩
    have hlt : k < names.length := (List.getElem?_eq_some_iff.mp hk).1
    rw [← @hterm ⟨k, by omega⟩ name hk]
    exact ht.terminated _ (h.count ▸ hlt)
  · intro hshort
    refine ⟨h.count, ?_, ?_⟩
    · intro k hk
      rw [h.count] at hk
      have hget : names[(k : ℕ)]? = some names[(k : ℕ)] := List.getElem?_eq_getElem hk
      exact (hterm hget).mpr (hshort _ (List.getElem_mem hk))
    · intro k name hk
      have hname := hshort name (List.mem_of_getElem? hk)
      have hbytes : ((w.kernel.seg ino).events k).nameBytes = name.bytes := by
        rw [← nameBytes_strncpy hname ((w.kernel.seg ino).events k).ts, ← h.getElem hk]
      rw [SharedEvents.printedName_of_terminated ((hterm hk).mpr hname), hbytes,
        List.take_of_length_le]
      omega

/-! ## The adds behind a clear -/

theorem holdsNames_of_clear {sys : Sys} {w w' : World}
    (h : run (sharedEventsClear sys) w = (.ok 0, w')) : ∃ ino, HoldsNames ino [] w' := by
  rcases mapped_of_clear h with ⟨ino, c, hm, hcount⟩
  refine ⟨ino, ⟨c, hm⟩, hcount, ?_⟩
  rw [SharedEvents.log, hcount]
  rfl

theorem HoldsNames.storesTerminated_iff {ino : Ino} {w : World} {calls : List (CString × Sys)}
    (h : HoldsNames ino [] w) (hlen : calls.length ≤ maxEventCount) :
    StoresTerminated calls w ↔
      ∀ name ∈ storedNames calls, name.bytes.length < maxEventNameLength := by
  have hroom : ([] : List CString).length + calls.length ≤ maxEventCount := by simpa using hlen
  rcases h.addEach hroom with ⟨w', hr, hend⟩
  rw [List.nil_append] at hend
  rw [← hend.terminated_iff ((length_storedNames_le calls).trans hlen)]
  rcases hend.mapped with ⟨d, hd⟩
  constructor
  · intro hs
    rcases hs with ⟨w'', ino', c, hr', hm, ht⟩
    rw [hr] at hr'
    cases hr'
    -- the context still points at the segment that was cleared
    have hctx : d = c := Option.some.inj (hd.ctx.symm.trans hm.ctx)
    have hino : EventsPtr.mapped ino' = .mapped ino := by
      rw [← hm.events, ← hctx, hd.events]
    cases hino
    exact ht
  · intro ht
    exact ⟨w', ino, d, hr, hd, ht⟩

/-- Behind at most 256 adds to a cleared log, every stored name is terminated exactly if each was
shorter than the name field. -/
theorem names_terminated_iff {sys : Sys} {w₀ w : World} {calls : List (CString × Sys)}
    (hclear : run (sharedEventsClear sys) w₀ = (.ok 0, w)) (hlen : calls.length ≤ maxEventCount) :
    StoresTerminated calls w ↔
      ∀ name ∈ storedNames calls, name.bytes.length < maxEventNameLength := by
  rcases holdsNames_of_clear hclear with ⟨ino, h⟩
  exact h.storesTerminated_iff hlen

theorem clear_of_empty :
    ∃ w, run (sharedEventsClear (.succeeding ⟨0, 0⟩)) ⟨.empty, .start 1⟩ = (.ok 0, w) :=
  ⟨_, rfl⟩

theorem names_terminated_iff_exec :
    ∃ w, run (sharedEventsClear (.succeeding ⟨0, 0⟩)) ⟨.empty, .start 1⟩ = (.ok 0, w) ∧
      (StoresTerminated [(.exec, .succeeding ⟨0, 0⟩)] w ↔
        ∀ name ∈ storedNames [(.exec, .succeeding ⟨0, 0⟩)],
          name.bytes.length < maxEventNameLength) := by
  rcases clear_of_empty with ⟨w, hr⟩
  exact ⟨w, hr, names_terminated_iff hr (by decide)⟩

/-- A name of 256 bytes. -/
def longName : CString :=
  ⟨List.replicate 256 97, fun h ↦ absurd (List.eq_of_mem_replicate h) (by decide)⟩

-- `strncpy` has no room for the NUL
theorem long_name_not_terminated :
    ∃ w, run (sharedEventsClear (.succeeding ⟨0, 0⟩)) ⟨.empty, .start 1⟩ = (.ok 0, w) ∧
      ¬StoresTerminated [(longName, .succeeding ⟨0, 0⟩)] w := by
  rcases clear_of_empty with ⟨w, hr⟩
  refine ⟨w, hr, fun h ↦ ?_⟩
  rcases holdsNames_of_clear hr with ⟨ino, hstart⟩
  have hshort := (hstart.storesTerminated_iff (by decide)).mp h longName List.mem_cons_self
  rw [show longName.bytes.length = 256 from List.length_replicate] at hshort
  exact absurd hshort (by decide)

end UstBench
