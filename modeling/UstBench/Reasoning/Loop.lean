import Mathlib.Algebra.Order.Ring.Int
import Mathlib.Logic.Function.Iterate
import Mathlib.Tactic.Common

/-!
# While loops

`while guard do body` on a state.  `Leaves n s t` says that the loop, entered in `s`, is left in `t`
after exactly `n` turns; the loop with a bound on its turns gives the same states.  A counter that
follows the turns up to some value decides how many there are.
-/

namespace Reasoning

section Loop

variable {S : Type} (guard : S → Bool) (body : S → S)

/-- The loop, with at most `fuel` turns. -/
def whileLoop : ℕ → S → Option S
  | 0, s => if guard s then none else some s
  | fuel + 1, s => if guard s then whileLoop fuel (body s) else some s

/-- The first `n` turns are made. -/
def Turns (n : ℕ) (s : S) : Prop := ∀ k < n, guard (body^[k] s) = true

/-- The loop is left in `t`, behind `n` turns. -/
structure Leaves (n : ℕ) (s t : S) : Prop where
  turns : Turns guard body n s
  outside : guard t = false
  state : body^[n] s = t

end Loop

variable {S : Type} {guard : S → Bool} {body : S → S} {n m fuel : ℕ} {s t t' : S}

theorem turns_zero (s : S) : Turns guard body 0 s := nofun

theorem turns_succ : Turns guard body (n + 1) s ↔ guard s = true ∧ Turns guard body n (body s) :=
  Nat.forall_lt_succ_left

theorem leaves_succ : Leaves guard body (n + 1) s t ↔
    guard s = true ∧ Leaves guard body n (body s) t := by
  constructor
  · intro h
    have hturns := turns_succ.mp h.turns
    exact ⟨hturns.1, hturns.2, h.outside, h.state⟩
  · intro h
    exact ⟨turns_succ.mpr ⟨h.1, h.2.turns⟩, h.2.outside, h.2.state⟩

theorem leaves_zero : Leaves guard body 0 s t ↔ guard s = false ∧ s = t := by
  constructor
  · intro h
    have hst : s = t := h.state
    rw [hst]
    exact ⟨h.outside, rfl⟩
  · intro h
    exact ⟨turns_zero s, h.2 ▸ h.1, h.2⟩

/-- A loop is left once at most. -/
theorem Leaves.unique (h : Leaves guard body n s t) (h' : Leaves guard body m s t') :
    n = m ∧ t = t' := by
  have hle : ∀ {i j u v}, Leaves guard body i s u → Leaves guard body j s v → ¬i < j := by
    intro i j u v hi hj hlt
    have hinside := hj.turns i hlt
    rw [hi.state, hi.outside] at hinside
    cases hinside
  have hnm : n = m := Nat.le_antisymm (not_lt.mp (hle h' h)) (not_lt.mp (hle h h'))
  refine ⟨hnm, ?_⟩
  rw [← h.state, ← h'.state, hnm]

/-- With a bound on its turns the loop gives the state it is left in, if the bound is not reached. -/
theorem whileLoop_eq_some_iff :
    whileLoop guard body fuel s = some t ↔ ∃ n ≤ fuel, Leaves guard body n s t := by
  induction fuel generalizing s with
  | zero =>
    have hzero : (∃ n ≤ 0, Leaves guard body n s t) ↔ Leaves guard body 0 s t := by simp
    rw [whileLoop, hzero, leaves_zero]
    by_cases hg : guard s = true
    · simp [hg]
    · simp [hg]
  | succ fuel ih =>
    rw [whileLoop]
    by_cases hg : guard s = true
    · rw [if_pos hg, ih]
      constructor
      · intro h
        rcases h with ⟨n, hn, hleaves⟩
        exact ⟨n + 1, by omega, leaves_succ.mpr ⟨hg, hleaves⟩⟩
      · intro h
        rcases h with ⟨n, hn, hleaves⟩
        cases n with
        | zero => simp [(leaves_zero.mp hleaves).1] at hg
        | succ n => exact ⟨n, by omega, (leaves_succ.mp hleaves).2⟩
    · have hout : guard s = false := by simpa using hg
      rw [if_neg hg]
      constructor
      · intro h
        exact ⟨0, by omega, leaves_zero.mpr ⟨hout, Option.some.inj h⟩⟩
      · intro h
        rcases h with ⟨n, hn, hleaves⟩
        have hzero : Leaves guard body 0 s s := leaves_zero.mpr ⟨hout, rfl⟩
        rw [(hzero.unique hleaves).2]

theorem Leaves.whileLoop_eq (h : Leaves guard body n s t) (hn : n ≤ fuel) :
    whileLoop guard body fuel s = some t :=
  whileLoop_eq_some_iff.mpr ⟨n, hn, h⟩

/-- A loop whose guard always holds is not left, whatever the bound. -/
theorem whileLoop_eq_none (h : ∀ k, guard (body^[k] s) = true) :
    whileLoop guard body fuel s = none := by
  by_contra hne
  rcases Option.ne_none_iff_exists'.mp hne with ⟨t, ht⟩
  rcases whileLoop_eq_some_iff.mp ht with ⟨n, -, hleaves⟩
  have hinside := h n
  rw [hleaves.state, hleaves.outside] at hinside
  cases hinside

/-! ## Counters -/

section Counter

variable {counter : S → ℤ} {limit : ℤ} {max : ℕ}

/-- The guard of a counted loop. -/
def below (counter : S → ℤ) (limit : ℤ) (s : S) : Bool := counter s < limit

theorem turns_of_counter (hcount : ∀ k < m, counter (body^[k] s) = k) (hlimit : m ≤ limit) :
    Turns (below counter limit) body m s := by
  intro k hk
  rw [below, hcount k hk, decide_eq_true_eq]
  omega

/-- A counter that follows the turns up to the limit allows as many turns as the limit says. -/
theorem turns_iff_of_counter (hcount : ∀ k ≤ n, counter (body^[k] s) = k) :
    Turns (below counter n) body m s ↔ m ≤ n := by
  constructor
  · intro h
    by_contra hlt
    have hinside := h n (not_le.mp hlt)
    rw [below, hcount n (le_refl n)] at hinside
    simp at hinside
  · intro h
    exact turns_of_counter (fun k hk ↦ hcount k (hk.le.trans h)) (Int.ofNat_le.mpr h)

theorem leaves_of_counter (hcount : ∀ k ≤ n, counter (body^[k] s) = k) :
    Leaves (below counter n) body n s (body^[n] s) where
  turns := (turns_iff_of_counter hcount).mpr (le_refl n)
  outside := by
    rw [below, hcount n (le_refl n)]
    simp
  state := rfl

/-- A counter that stays below the limit keeps the loop going. -/
theorem below_of_counter_le (hmax : ∀ k, counter (body^[k] s) ≤ max) (hlimit : max < limit) (k : ℕ) :
    below counter limit (body^[k] s) = true :=
  decide_eq_true ((hmax k).trans_lt hlimit)

/-- A counter that follows the turns up to `max`, and never gets beyond, makes the turns of a limit
exactly if the limit is not beyond `max` either. -/
theorem leaves_iff_of_counter (hcount : ∀ k ≤ max, counter (body^[k] s) = k)
    (hmax : ∀ k, counter (body^[k] s) ≤ max) :
    (∃ t, Leaves (below counter n) body n s t) ↔ n ≤ max := by
  constructor
  · intro h
    rcases h with ⟨t, ht⟩
    by_contra hlt
    have hinside := below_of_counter_le hmax (Int.ofNat_lt.mpr (not_le.mp hlt)) n
    rw [ht.state, ht.outside] at hinside
    cases hinside
  · intro h
    exact ⟨_, leaves_of_counter fun k hk ↦ hcount k (hk.trans h)⟩

end Counter

/-! ## Output -/

section Output

variable {O : Type} {emit : S → List O} {out : List O}

/-- What the first `n` turns put out. -/
def outputs (body : S → S) (emit : S → List O) (n : ℕ) (s : S) : List O :=
  (List.range n).flatMap fun k ↦ emit (body^[k] s)

/-- A turn that puts out `emit` of the state it starts in. -/
def emitting (body : S → S) (emit : S → List O) (s : S × List O) : S × List O :=
  (body s.1, s.2 ++ emit s.1)

theorem outputs_succ (body : S → S) (emit : S → List O) (n : ℕ) (s : S) :
    outputs body emit (n + 1) s = outputs body emit n s ++ emit (body^[n] s) := by
  unfold outputs
  rw [List.range_succ, List.flatMap_append, List.flatMap_singleton]

theorem iterate_emitting (n : ℕ) (s : S) :
    (emitting body emit)^[n] (s, out) = (body^[n] s, out ++ outputs body emit n s) := by
  induction n with
  | zero =>
    rw [Function.iterate_zero_apply, Function.iterate_zero_apply]
    show (s, out) = (s, out ++ [])
    rw [List.append_nil]
  | succ n ih =>
    rw [Function.iterate_succ_apply', ih, Function.iterate_succ_apply', outputs_succ,
      ← List.append_assoc]
    rfl

/-- The output does not decide when a loop is left. -/
theorem Leaves.emitting (h : Leaves guard body n s t) :
    Leaves (fun x ↦ guard x.1) (emitting body emit) n (s, out)
      (t, out ++ outputs body emit n s) where
  turns k hk := by
    rw [iterate_emitting]
    exact h.turns k hk
  outside := h.outside
  state := by rw [iterate_emitting, h.state]

/-- Every turn has an output of the same shape. -/
theorem map_outputs {P : Type} {f : O → P} {shape : List P} (h : ∀ s, (emit s).map f = shape)
    (n : ℕ) (s : S) : (outputs body emit n s).map f = (List.replicate n shape).flatten := by
  induction n with
  | zero => rfl
  | succ n ih =>
    rw [outputs_succ, List.map_append, ih, h, List.replicate_succ', List.flatten_append,
      List.flatten_singleton]

end Output

end Reasoning
