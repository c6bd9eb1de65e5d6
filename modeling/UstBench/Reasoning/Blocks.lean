import Mathlib.Algebra.Order.Ring.Nat
import Mathlib.Data.List.Basic
import Mathlib.Tactic.Common

/-!
# Lists in blocks

A consumer that works on blocks of `B` elements takes the complete blocks of what it is given and
holds the rest back.  `Absorbed` says that it has done so with a list; there are two ways to go on
from there, as the held elements and the next ones make up a block or not.
-/

namespace Reasoning

variable {α : Type} {B : ℕ} {xs ys : List α}

/-- The complete blocks of `xs`. -/
def blocks (B : ℕ) (xs : List α) : List (List α) :=
  (List.range (xs.length / B)).map fun i ↦ (xs.drop (B * i)).take B

/-- What is left of `xs` behind its complete blocks. -/
def leftover (B : ℕ) (xs : List α) : List α := xs.drop (B * (xs.length / B))

/-! ## The blocks of a list -/

@[simp] theorem length_blocks : (blocks B xs).length = xs.length / B := by
  unfold blocks
  simp

theorem length_leftover : (leftover B xs).length = xs.length % B := by
  unfold leftover
  rw [List.length_drop]
  have hsplit := Nat.mod_add_div xs.length B
  omega

theorem blocks_of_lt (h : xs.length < B) : blocks B xs = [] := by
  unfold blocks
  rw [Nat.div_eq_of_lt h]
  rfl

theorem leftover_of_lt (h : xs.length < B) : leftover B xs = xs := by
  unfold leftover
  rw [Nat.div_eq_of_lt h]
  rfl

theorem div_of_le {n : ℕ} (hB : 0 < B) (h : B ≤ n) : n / B = (n - B) / B + 1 := by
  rw [Nat.div_eq_sub_div hB h]

theorem blocks_of_le (hB : 0 < B) (h : B ≤ xs.length) :
    blocks B xs = xs.take B :: blocks B (xs.drop B) := by
  unfold blocks
  rw [div_of_le hB h, List.length_drop, List.range_succ_eq_map, List.map_cons, List.map_map]
  congr 1
  apply List.map_congr_left
  intro i _
  show (xs.drop (B * (i + 1))).take B = ((xs.drop B).drop (B * i)).take B
  rw [List.drop_drop, Nat.mul_succ, Nat.add_comm]

theorem leftover_of_le (hB : 0 < B) (h : B ≤ xs.length) :
    leftover B xs = leftover B (xs.drop B) := by
  unfold leftover
  rw [div_of_le hB h, List.length_drop, List.drop_drop, Nat.mul_succ, Nat.add_comm]

/-- Induction on a list, a block at a time. -/
theorem block_induction {motive : List α → Prop} (hB : 0 < B)
    (short : ∀ xs, xs.length < B → motive xs)
    (block : ∀ xs, B ≤ xs.length → motive (xs.drop B) → motive xs) (xs : List α) :
    motive xs := by
  induction hn : xs.length using Nat.strong_induction_on generalizing xs with
  | _ n ih =>
    by_cases h : xs.length < B
    · exact short xs h
    · apply block xs (not_lt.mp h)
      apply ih (xs.drop B).length _ (xs.drop B) rfl
      rw [List.length_drop]
      omega

theorem flatten_blocks (hB : 0 < B) (xs : List α) :
    (blocks B xs).flatten ++ leftover B xs = xs := by
  induction xs using block_induction hB with
  | short xs h => rw [blocks_of_lt h, leftover_of_lt h]; rfl
  | block xs h ih =>
    rw [blocks_of_le hB h, leftover_of_le hB h, List.flatten_cons, List.append_assoc, ih,
      List.take_append_drop]

theorem length_of_mem_blocks (hB : 0 < B) {b : List α} (h : b ∈ blocks B xs) : b.length = B := by
  induction xs using block_induction hB with
  | short xs hlt =>
    rw [blocks_of_lt hlt] at h
    cases h
  | block xs hle ih =>
    rw [blocks_of_le hB hle] at h
    rcases List.mem_cons.mp h with rfl | h
    · rw [List.length_take, min_eq_left hle]
    · exact ih h

theorem blocks_append (hB : 0 < B) (xs ys : List α) :
    blocks B (xs ++ ys) = blocks B xs ++ blocks B (leftover B xs ++ ys) := by
  induction xs using block_induction hB with
  | short xs h => rw [blocks_of_lt h, leftover_of_lt h]; rfl
  | block xs h ih =>
    have hle : B ≤ (xs ++ ys).length := by
      rw [List.length_append]
      omega
    rw [blocks_of_le hB hle, blocks_of_le hB h, leftover_of_le hB h,
      List.take_append_of_le_length h, List.drop_append_of_le_length h, ih, List.cons_append]

theorem leftover_append (hB : 0 < B) (xs ys : List α) :
    leftover B (xs ++ ys) = leftover B (leftover B xs ++ ys) := by
  induction xs using block_induction hB with
  | short xs h => rw [leftover_of_lt h]
  | block xs h ih =>
    have hle : B ≤ (xs ++ ys).length := by
      rw [List.length_append]
      omega
    rw [leftover_of_le hB hle, leftover_of_le hB h, List.drop_append_of_le_length h, ih]

theorem leftover_of_dvd (h : B ∣ xs.length) : leftover B xs = [] := by
  apply List.eq_nil_of_length_eq_zero
  rw [length_leftover]
  exact Nat.mod_eq_zero_of_dvd h

/-- A list of complete blocks is its blocks. -/
theorem blocks_inj (hB : 0 < B) (hx : B ∣ xs.length) (hy : B ∣ ys.length) :
    blocks B xs = blocks B ys ↔ xs = ys := by
  constructor
  · intro h
    rw [← flatten_blocks hB xs, ← flatten_blocks hB ys, h, leftover_of_dvd hx, leftover_of_dvd hy]
  · exact congrArg (blocks B)

/-- The last block is the end of the list. -/
theorem exists_last_block (hB : 0 < B) (hdvd : B ∣ xs.length) (hne : xs ≠ []) :
    ∃ l b, blocks B xs = l ++ [b] ∧ ∀ k ≤ B, xs.drop (xs.length - k) = b.drop (B - k) := by
  have hflat := flatten_blocks hB xs
  rw [leftover_of_dvd hdvd, List.append_nil] at hflat
  rcases List.eq_nil_or_concat (blocks B xs) with hnil | ⟨l, b, hconcat⟩
  · rw [hnil] at hflat
    exact absurd hflat.symm hne
  · rw [List.concat_eq_append] at hconcat
    have hmem : b ∈ blocks B xs := by
      rw [hconcat]
      exact List.mem_append_right l List.mem_cons_self
    have hlen := length_of_mem_blocks hB hmem
    rw [hconcat, List.flatten_append, List.flatten_singleton] at hflat
    refine ⟨l, b, hconcat, fun k hk ↦ ?_⟩
    have hsplit : xs.length - k = l.flatten.length + (B - k) := by
      rw [← hflat, List.length_append]
      omega
    rw [hsplit, ← hflat, List.drop_length_add_append]

/-! ## A consumer of blocks -/

/-- From `s₀`, the consumer has taken the complete blocks of `xs`; it is in `s` and holds the rest
back. -/
structure Absorbed {S : Type} (B : ℕ) (f : S → List α → S) (s₀ : S) (xs : List α) (s : S)
    (held : List α) : Prop where
  state : s = (blocks B xs).foldl f s₀
  held : held = leftover B xs

namespace Absorbed

variable {S : Type} {f : S → List α → S} {s₀ s : S} {held : List α}

theorem start (hB : 0 < B) (s₀ : S) : Absorbed B f s₀ [] s₀ [] :=
  ⟨by rw [blocks_of_lt hB]; rfl, (leftover_of_lt hB).symm⟩

theorem length_held (h : Absorbed B f s₀ xs s held) : held.length = xs.length % B := by
  rw [h.held, length_leftover]

/-- The next elements complete a block. -/
theorem fill (hB : 0 < B) (h : Absorbed B f s₀ xs s held) (hys : held.length + ys.length = B) :
    Absorbed B f s₀ (xs ++ ys) (f s (held ++ ys)) [] := by
  have hlen : (leftover B xs ++ ys).length = B := by rw [← h.held, List.length_append, hys]
  have hblock : blocks B (leftover B xs ++ ys) = [held ++ ys] := by
    rw [blocks_of_le hB hlen.ge, List.take_of_length_le hlen.le, List.drop_of_length_le hlen.le,
      blocks_of_lt hB, h.held]
  constructor
  · rw [blocks_append hB, List.foldl_append, ← h.state, hblock]
    rfl
  · have hdvd : B ∣ (leftover B xs ++ ys).length := by rw [hlen]
    rw [leftover_append hB, leftover_of_dvd hdvd]

/-- The next elements do not. -/
theorem hold (hB : 0 < B) (h : Absorbed B f s₀ xs s held) (hys : held.length + ys.length < B) :
    Absorbed B f s₀ (xs ++ ys) s (held ++ ys) := by
  have hlen : (leftover B xs ++ ys).length < B := by rwa [← h.held, List.length_append]
  constructor
  · rw [blocks_append hB, List.foldl_append, ← h.state, blocks_of_lt hlen]
    rfl
  · rw [leftover_append hB, leftover_of_lt hlen, h.held]

end Absorbed

/-! ## Where two runs meet -/

section Collision

variable {S : Type} {f : S → α → S} {s t : S} {l m : List α}

/-- Two runs, along `l` from `s` and along `m` from `t`, take different steps to one state: behind
`i` and `j` elements the states they have come to differ, or their next elements. -/
def Meet (f : S → α → S) (s t : S) (l m : List α) : Prop :=
  ∃ i j a b, l[i]? = some a ∧ m[j]? = some b ∧
    ¬((l.take i).foldl f s = (m.take j).foldl f t ∧ a = b) ∧
    f ((l.take i).foldl f s) a = f ((m.take j).foldl f t) b

/-- Two runs of one length that end alike meet in a step, unless they are one run. -/
theorem meet_of_foldl_eq (hlen : l.length = m.length) (h : l.foldl f s = m.foldl f t)
    (hne : ¬(s = t ∧ l = m)) : Meet f s t l m := by
  induction l generalizing s t m with
  | nil =>
    have hnil : m = [] := List.eq_nil_of_length_eq_zero hlen.symm
    subst hnil
    exact absurd ⟨h, rfl⟩ hne
  | cons a l ih =>
    cases m with
    | nil => cases hlen
    | cons b m =>
      by_cases hrest : f s a = f t b ∧ l = m
      · refine ⟨0, 0, a, b, rfl, rfl, ?_, hrest.1⟩
        rintro ⟨hst, rfl⟩
        exact hne ⟨hst, congrArg _ hrest.2⟩
      · obtain ⟨i, j, a', b', ha', hb', hdiff, hmeet⟩ := ih (Nat.succ.inj hlen) h hrest
        exact ⟨i + 1, j + 1, a', b', ha', hb', hdiff, hmeet⟩

/-- So do two runs with different last steps. -/
theorem meet_of_last_ne {a b : α} (h : (l ++ [a]).foldl f s = (m ++ [b]).foldl f t) (hne : a ≠ b) :
    Meet f s t (l ++ [a]) (m ++ [b]) := by
  refine ⟨l.length, m.length, a, b, List.getElem?_concat_length, List.getElem?_concat_length,
    fun heq ↦ hne heq.2, ?_⟩
  rw [List.foldl_append, List.foldl_append] at h
  rw [List.take_left, List.take_left]
  exact h

end Collision

end Reasoning
