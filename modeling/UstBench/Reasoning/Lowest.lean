import Mathlib.Data.Finset.Card
import Mathlib.Data.Finset.Sort
import Mathlib.Data.List.Sort

/-!
# The lowest members of a finite set

`lowest k s` has the `k` least members of `s`, or all of them when there are fewer.  It is what a
slice `[:k]` of the sorted members selects, and a negative slice leaves.
-/

namespace Reasoning

variable {α : Type} [LinearOrder α] {s : Finset α} {k : ℕ} {x y : α}

/-- The members with fewer than `k` others below them. -/
def lowest (k : ℕ) (s : Finset α) : Finset α := s.filter fun x ↦ (s.filter (· < x)).card < k

theorem lowest_subset : lowest k s ⊆ s := Finset.filter_subset _ _

theorem lowest_mono {m n : ℕ} (h : m ≤ n) : lowest m s ⊆ lowest n s := by
  intro x hx
  rw [lowest, Finset.mem_filter] at hx ⊢
  exact ⟨hx.1, by omega⟩

@[simp] theorem lowest_zero : lowest 0 s = ∅ := by simp [lowest]

/-- Nothing outside the lowest members lies below one of them. -/
theorem mem_lowest_of_le (hx : x ∈ lowest k s) (hy : y ∈ s) (h : y ≤ x) : y ∈ lowest k s := by
  rw [lowest, Finset.mem_filter] at hx ⊢
  have hsub : s.filter (· < y) ⊆ s.filter (· < x) := by
    intro z hz
    rw [Finset.mem_filter] at hz ⊢
    exact ⟨hz.1, lt_of_lt_of_le hz.2 h⟩
  have hcard := Finset.card_le_card hsub
  exact ⟨hy, by omega⟩

theorem filter_lt_toFinset_cons {a : α} {l : List α} (h : ∀ b ∈ l, a < b) (hx : x ∈ l) :
    ((a :: l).toFinset.filter (· < x)).card = (l.toFinset.filter (· < x)).card + 1 := by
  have ha : a ∉ l.toFinset.filter (· < x) := by
    intro hm
    rw [Finset.mem_filter, List.mem_toFinset] at hm
    exact lt_irrefl a (h a hm.1)
  rw [List.toFinset_cons, Finset.filter_insert, if_pos (h x hx), Finset.card_insert_of_notMem ha]

/-- The first `k` of an ascending list. -/
theorem toFinset_take {l : List α} (h : l.Pairwise (· < ·)) (k : ℕ) :
    (l.take k).toFinset = lowest k l.toFinset := by
  induction l generalizing k with
  | nil => simp [lowest]
  | cons a l ih =>
    rw [List.pairwise_cons] at h
    cases k with
    | zero => simp [lowest]
    | succ k =>
      -- nothing is below the first, and the first is below all others
      have hbelow : (a :: l).toFinset.filter (· < a) = ∅ := by
        rw [Finset.filter_eq_empty_iff]
        intro y hy
        rw [List.mem_toFinset, List.mem_cons] at hy
        rcases hy with rfl | hy
        · exact lt_irrefl _
        · exact not_lt.mpr (h.1 y hy).le
      ext x
      rw [List.take_succ_cons, List.toFinset_cons, ih h.2, Finset.mem_insert, lowest,
        Finset.mem_filter, lowest, Finset.mem_filter, List.mem_toFinset, List.mem_toFinset,
        List.mem_cons]
      constructor
      · rintro (rfl | ⟨hx, hk⟩)
        · rw [hbelow]
          exact ⟨.inl rfl, by simp⟩
        · rw [filter_lt_toFinset_cons h.1 hx]
          exact ⟨.inr hx, by omega⟩
      · rintro ⟨rfl | hx, hk⟩
        · exact .inl rfl
        · rw [filter_lt_toFinset_cons h.1 hx] at hk
          exact .inr ⟨hx, by omega⟩

/-- What an ascending list has behind its first `k`. -/
theorem toFinset_drop {l : List α} (h : l.Pairwise (· < ·)) (k : ℕ) :
    (l.drop k).toFinset = l.toFinset \ lowest k l.toFinset := by
  have hsplit : (l.take k).toFinset ∪ (l.drop k).toFinset = l.toFinset := by
    rw [← List.toFinset_append, List.take_append_drop]
  have hdisj : Disjoint (l.take k).toFinset (l.drop k).toFinset := by
    rw [Finset.disjoint_left]
    intro x hx hx'
    rw [List.mem_toFinset] at hx hx'
    rw [← List.take_append_drop k l] at h
    exact lt_irrefl x ((List.pairwise_append.mp h).2.2 x hx x hx')
  rw [← toFinset_take h k, ← hsplit, Finset.union_sdiff_cancel_left hdisj]

theorem card_lowest : (lowest k s).card = min k s.card := by
  have hs := s.sortedLT_sort.pairwise
  have hl : (s.sort (· ≤ ·)).toFinset = s := Finset.sort_toFinset s (· ≤ ·)
  rw [← hl, ← toFinset_take hs k, hl, List.toFinset_card_of_nodup ((Finset.sort_nodup s _).take),
    List.length_take, Finset.length_sort]

theorem lowest_eq_self (h : s.card ≤ k) : lowest k s = s := by
  apply Finset.eq_of_subset_of_card_le lowest_subset
  rw [card_lowest]
  omega

/-- The lowest `m` of the lowest `n`. -/
theorem lowest_lowest {m n : ℕ} (h : m ≤ n) : lowest m (lowest n s) = lowest m s := by
  ext x
  rw [lowest, Finset.mem_filter]
  constructor
  · rintro ⟨hx, hm⟩
    rw [lowest, Finset.mem_filter]
    refine ⟨lowest_subset hx, ?_⟩
    have hsub : s.filter (· < x) ⊆ (lowest n s).filter (· < x) := by
      intro y hy
      rw [Finset.mem_filter] at hy ⊢
      exact ⟨mem_lowest_of_le hx hy.1 hy.2.le, hy.2⟩
    have hcard := Finset.card_le_card hsub
    omega
  · intro hx
    have hcard := Finset.card_le_card
      (Finset.filter_subset_filter (· < x) (lowest_subset (k := n) (s := s)))
    have hm := (Finset.mem_filter.mp hx).2
    exact ⟨lowest_mono h hx, by omega⟩

end Reasoning
