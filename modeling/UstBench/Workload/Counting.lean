import UstBench.Workload.Program

/-!
# How often the loops turn

The bound of a loop is a `long`, its counter is not.  The counter follows the turns up to the largest
value it has; a bound beyond that is never reached.
-/

namespace UstBench.Workload

open Reasoning Reasoning.Prog

/-- The largest value of the counter: an `int` in one program, an `unsigned int` in the other. -/
def Program.counterMax : Program → ℕ
  | .basic _ => 2 ^ 31 - 1
  | .sha2 _ => 2 ^ 32 - 1

/-- The events a program records. -/
def mainEvents (sys : MainSys) : List SharedEvent :=
  [addedEvent (.main, sys.main), addedEvent (.start, sys.start), addedEvent (.end_, sys.end_)]

/-- With `count` for its argument the loop of a program is left behind exactly that many turns, its
counter has not overflowed, and the program records `end` behind it: given the turns, successful
calls and room for three events. -/
def Program.RunsExactly (p : Program) (count : List Char) : Prop :=
  ∃ t, Leaves (below p.counter (strtol count)) p.turn (strtol count).toNat p.start t ∧
    .counter ∉ p.overflows t ∧
    ∀ fuel name sys w pid L, (strtol count).toNat ≤ fuel → sys.main.Succeeds →
      sys.start.Succeeds → sys.end_.Succeeds → Idle pid L w → L.length + 3 ≤ maxEventCount →
        ∃ w', run (p.main fuel [name, count] sys) w = (.ok ⟨0, some t⟩, w') ∧
          Idle pid (L ++ mainEvents sys) w'

/-! ## The counters -/

section Counter

variable {k : ℕ}

theorem basic_counter (build : Build) (h : k ≤ 2 ^ 31 - 1) :
    ((basicTurn build)^[k] basicStart).i = k := by
  induction k with
  | zero => rfl
  | succ k ih =>
    have hk : ((basicTurn build)^[k] basicStart).i = k := ih (by omega)
    -- the last turn comes behind the first `k`, not in front of them
    rw [Function.iterate_succ_apply']
    show toInt (((basicTurn build)^[k] basicStart).i + 1) = _
    rw [hk, toInt_of_fits (by omega) (by unfold intMax; omega)]
    omega

theorem basic_counter_le (build : Build) (k : ℕ) :
    ((basicTurn build)^[k] basicStart).i ≤ intMax := by
  cases k with
  | zero => exact show (0 : ℤ) ≤ intMax by decide
  | succ k =>
    rw [Function.iterate_succ_apply']
    exact toInt_le _

/-- While it has turns to make the counter of `basic-benchmark` does not overflow. -/
theorem basic_counter_fits (build : Build) (h : k ≤ 2 ^ 31 - 1) :
    .counter ∉ ((basicTurn build)^[k] basicStart).overflows := by
  induction k with
  | zero => exact List.not_mem_nil
  | succ k ih =>
    have hbefore : .counter ∉ ((basicTurn build)^[k] basicStart).overflows := ih (by omega)
    have hk : ((basicTurn build)^[k] basicStart).i = k := basic_counter build (by omega)
    have hfits : toInt ((k : ℤ) + 1) = k + 1 := toInt_of_fits (by omega) (by unfold intMax; omega)
    rw [Function.iterate_succ_apply', mem_overflows_basicTurn, hk]
    simp [hbefore, hfits]

theorem sha2_counter (lib : Sha2) (k : ℕ) :
    ((sha2Turn lib)^[k] (sha2Start lib)).i = k % 2 ^ 32 := by
  induction k with
  | zero => rfl
  | succ k ih =>
    rw [Function.iterate_succ_apply']
    show (((sha2Turn lib)^[k] (sha2Start lib)).i + 1) % 2 ^ 32 = _
    rw [ih]
    omega

end Counter

namespace Program

variable {p : Program} {k : ℕ}

theorem counter_eq (p : Program) (h : k ≤ p.counterMax) : p.counter (p.turn^[k] p.start) = k := by
  cases p with
  | basic build => exact basic_counter build h
  | sha2 lib =>
    have hlt : k < 2 ^ 32 := by
      have hmax : k ≤ 2 ^ 32 - 1 := h
      omega
    show (((sha2Turn lib)^[k] (sha2Start lib)).i : ℤ) = k
    rw [sha2_counter, Nat.mod_eq_of_lt hlt]

theorem counter_le (p : Program) (k : ℕ) : p.counter (p.turn^[k] p.start) ≤ p.counterMax := by
  cases p with
  | basic build => exact basic_counter_le build k
  | sha2 lib =>
    show (((sha2Turn lib)^[k] (sha2Start lib)).i : ℤ) ≤ (2 ^ 32 - 1 : ℕ)
    rw [sha2_counter]
    omega

theorem counter_fits (p : Program) (h : k ≤ p.counterMax) :
    .counter ∉ p.overflows (p.turn^[k] p.start) := by
  cases p with
  | basic build => exact basic_counter_fits build h
  | sha2 lib => exact List.not_mem_nil

/-- A loop has as many turns as its bound says, exactly if the counter gets there. -/
theorem leaves_iff (p : Program) (n : ℕ) :
    (∃ t, Leaves (below p.counter n) p.turn n p.start t) ↔ n ≤ p.counterMax :=
  leaves_iff_of_counter (fun _ hk ↦ p.counter_eq hk) p.counter_le

/-- A loop that is left has turned as often as its bound says, and its counter got there. -/
theorem loop_leaves {n fuel : ℕ} {t : p.Locals} (h : p.loop n fuel = some t) :
    n ≤ p.counterMax ∧ n ≤ fuel ∧ Leaves (below p.counter n) p.turn n p.start t := by
  obtain ⟨m, hfuel, hleaves⟩ := whileLoop_eq_some_iff.mp h
  have hmax : n ≤ p.counterMax := by
    by_contra hlt
    have hnone : p.loop n fuel = none :=
      whileLoop_eq_none (below_of_counter_le p.counter_le (by omega))
    rw [hnone] at h
    cases h
  obtain ⟨t', hleaves'⟩ := (p.leaves_iff n).mpr hmax
  have hm : m = n := (hleaves.unique hleaves').1
  rw [hm] at hleaves hfuel
  exact ⟨hmax, hfuel, hleaves⟩

/-! ## Around the loop -/

/-- A program whose loop is left records its three events. -/
theorem main_records {p : Program} {count name : List Char} {fuel : ℕ} {sys : MainSys} {w : World}
    {pid : ℤ} {L : List SharedEvent} {t : p.Locals} (hcount : 1 ≤ strtol count)
    (hloop : p.loop (strtol count) fuel = some t) (hmain : sys.main.Succeeds)
    (hstart : sys.start.Succeeds) (hend : sys.end_.Succeeds) (hw : Idle pid L w)
    (hroom : L.length + 3 ≤ maxEventCount) :
    ∃ w', run (p.main fuel [name, count] sys) w = (.ok ⟨0, some t⟩, w') ∧
      Idle pid (L ++ mainEvents sys) w' := by
  -- each add finds room behind the one before
  rcases hw.add_room hmain (by omega) .main with ⟨w₁, hr₁, hw₁⟩
  have hlen₁ : (L ++ [addedEvent (.main, sys.main)]).length < maxEventCount := by
    rw [List.length_append, List.length_singleton]
    omega
  rcases hw₁.add_room hstart hlen₁ .start with ⟨w₂, hr₂, hw₂⟩
  have hlen₂ : (L ++ [addedEvent (.main, sys.main)] ++ [addedEvent (.start, sys.start)]).length <
      maxEventCount := by
    rw [List.length_append, List.length_append, List.length_singleton, List.length_singleton]
    omega
  rcases hw₂.add_room hend hlen₂ .end_ with ⟨w₃, hr₃, hw₃⟩
  refine ⟨w₃, ?_, ?_⟩
  · unfold main
    rw [run_bind_ok hr₁]
    show run (if strtol count ≤ 0 then _ else _) w₁ = _
    rw [if_neg (by omega), run_bind_ok hr₂]
    simp only [hloop, ne_eq, not_true_eq_false, if_false]
    rw [run_bind_ok hr₃]
    rfl
  · rw [List.append_assoc, List.append_assoc] at hw₃
    exact hw₃

end Program

/-- A loop that is left turns no more often than its counter can count. -/
theorem Program.RunsExactly.le {p : Program} {count : List Char} (h : p.RunsExactly count) :
    strtol count ≤ p.counterMax := by
  by_contra hlt
  rcases h with ⟨t, hleaves, -⟩
  have hcast : ((strtol count).toNat : ℤ) = strtol count := Int.toNat_of_nonneg (by omega)
  rw [← hcast, Int.toNat_natCast] at hleaves
  have hle := (p.leaves_iff (strtol count).toNat).mp ⟨t, hleaves⟩
  omega

/-- For every number of iterations that a program accepts, its loop turns that often, without an
overflow of its counter and with `end` recorded behind it, exactly if the counter has that value. -/
theorem runsExactly_iff (p : Program) {count : List Char} (h : 1 ≤ strtol count) :
    p.RunsExactly count ↔ strtol count ≤ p.counterMax := by
  constructor
  · exact Program.RunsExactly.le
  · intro hle
    have hcast : ((strtol count).toNat : ℤ) = strtol count := Int.toNat_of_nonneg (by omega)
    have hmax : (strtol count).toNat ≤ p.counterMax := by omega
    rcases (p.leaves_iff (strtol count).toNat).mpr hmax with ⟨t, hleaves⟩
    rw [hcast] at hleaves
    refine ⟨t, hleaves, ?_, ?_⟩
    · rw [← hleaves.state]
      exact p.counter_fits hmax
    · intro fuel name sys w pid L hfuel hmain hstart hend hw hroom
      exact p.main_records h (hleaves.whileLoop_eq hfuel) hmain hstart hend hw hroom

theorem runsExactly_iff_million : (Program.basic .plain).RunsExactly "1000000".toList ↔
    strtol "1000000".toList ≤ (Program.basic .plain).counterMax :=
  runsExactly_iff (.basic .plain) (by decide)

/-- The turn behind the largest `int` is the one that overflows. -/
theorem basic_counter_overflows (build : Build) :
    .counter ∈ ((basicTurn build)^[2 ^ 31 - 1 + 1] basicStart).overflows := by
  rw [Function.iterate_succ_apply', mem_overflows_basicTurn, basic_counter build (le_refl _)]
  exact .inr (.inr (.inr ⟨rfl, by decide⟩))

-- the one counter overflows, the other one starts again at 0 and its loop is not left
theorem counters_too_small :
    (strtol "2147483648".toList = 2 ^ 31 ∧
      ¬(Program.basic .plain).RunsExactly "2147483648".toList ∧
      .counter ∈ ((basicTurn .plain)^[2 ^ 31 - 1 + 1] basicStart).overflows) ∧
    strtol "4294967296".toList = 2 ^ 32 ∧
      ∀ lib, ¬(Program.sha2 lib).RunsExactly "4294967296".toList ∧
        (∀ fuel, (Program.sha2 lib).loop (2 ^ 32) fuel = none) ∧
        ((sha2Turn lib)^[2 ^ 32] (sha2Start lib)).i = 0 := by
  have hbasic : strtol "2147483648".toList = 2 ^ 31 := by decide
  have hsha2 : strtol "4294967296".toList = 2 ^ 32 := by decide
  refine ⟨⟨hbasic, ?_, basic_counter_overflows .plain⟩, hsha2, fun lib ↦ ⟨?_, ?_, ?_⟩⟩
  · intro h
    have hle := h.le
    rw [hbasic] at hle
    exact absurd hle (by decide)
  · intro h
    have hle := h.le
    rw [hsha2] at hle
    exact absurd hle (show ¬(2 ^ 32 : ℤ) ≤ (2 ^ 32 - 1 : ℕ) by decide)
  · intro fuel
    exact whileLoop_eq_none (below_of_counter_le (Program.sha2 lib).counter_le
      (show ((2 ^ 32 - 1 : ℕ) : ℤ) < 2 ^ 32 by decide))
  · rw [sha2_counter, Nat.mod_self]

end UstBench.Workload
