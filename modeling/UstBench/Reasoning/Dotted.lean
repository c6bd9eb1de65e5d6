import Mathlib.Data.List.Basic
import Mathlib.Tactic.Common

/-!
# Paths as texts

The parts of a path, joined by a separator that no part contains, can be read back.
-/

namespace Reasoning.Dotted

variable {c : Char}

def join (c : Char) (path : List String) : String := (String.singleton c).intercalate path

def split (c : Char) (s : String) : List String := (s.toList.splitOn c).map String.ofList

theorem toList_join (path : List String) :
    (join c path).toList = [c].intercalate (path.map String.toList) := by
  rw [join, String.toList_intercalate, String.toList_singleton]

theorem split_join {path : List String} (hne : path ≠ []) (h : ∀ s ∈ path, c ∉ s.toList) :
    split c (join c path) = path := by
  rw [split, toList_join, List.splitOn_intercalate, List.map_map]
  · simp [Function.comp_def]
  · intro l hl
    rcases List.mem_map.mp hl with ⟨s, hs, rfl⟩
    exact h s hs
  · simpa using hne

theorem join_split (s : String) : join c (split c s) = s := by
  apply String.toList_injective
  rw [toList_join, split, List.map_map]
  simp [Function.comp_def, List.intercalate_splitOn]

theorem join_injective {path path' : List String} (hne : path ≠ []) (hne' : path' ≠ [])
    (h : ∀ s ∈ path, c ∉ s.toList) (h' : ∀ s ∈ path', c ∉ s.toList)
    (heq : join c path = join c path') : path = path' := by
  rw [← split_join hne h, heq, split_join hne' h']

@[simp] theorem join_singleton (s : String) : join c [s] = s := String.intercalate_singleton

/-- The first two parts may be joined first. -/
theorem join_cons_cons (s t : String) (path : List String) :
    join c ((s ++ String.singleton c ++ t) :: path) = join c (s :: t :: path) :=
  rfl

theorem join_cons (s : String) {path : List String} (h : path ≠ []) :
    join c (s :: path) = s ++ String.singleton c ++ join c path := by
  cases path with
  | nil => exact absurd rfl h
  | cons t path =>
    apply String.toList_injective
    rw [String.toList_append, String.toList_append, String.toList_singleton, toList_join,
      toList_join, List.map_cons, List.map_cons, List.intercalate_cons_cons, List.append_assoc]

/-- A path whose first part is not empty. -/
theorem join_ne_empty {s : String} (hs : s ≠ "") (path : List String) :
    join c (s :: path) ≠ "" := by
  cases path with
  | nil =>
    rw [join_singleton]
    exact hs
  | cons t path =>
    rw [join_cons s (List.cons_ne_nil t path)]
    intro h
    exact hs (String.append_eq_empty_iff.mp (String.append_eq_empty_iff.mp h).1).1

theorem notMem_intercalate {α : Type} {c d : α} {l : List (List α)} (hcd : d ≠ c)
    (h : ∀ s ∈ l, d ∉ s) : d ∉ [c].intercalate l := by
  induction l with
  | nil => exact List.not_mem_nil
  | cons s l ih =>
    have hs := h s List.mem_cons_self
    have hl := ih fun t ht ↦ h t (List.mem_cons_of_mem s ht)
    cases l with
    | nil =>
      rw [List.intercalate_singleton]
      exact hs
    | cons t l =>
      rw [List.intercalate_cons_cons, List.mem_append, List.mem_append, List.mem_singleton]
      tauto

/-- A separator in front of which nothing else separates. -/
theorem append_cons_inj {α : Type} {c : α} {a b x y : List α} (ha : c ∉ a) (hb : c ∉ b)
    (h : a ++ c :: x = b ++ c :: y) : a = b ∧ x = y := by
  induction a generalizing b with
  | nil =>
    cases b with
    | nil => exact ⟨rfl, (List.cons.inj h).2⟩
    | cons d b =>
      have hd : c = d := (List.cons.inj h).1
      exact absurd (hd ▸ List.mem_cons_self) hb
  | cons d a ih =>
    cases b with
    | nil =>
      have hd : d = c := (List.cons.inj h).1
      exact absurd (hd ▸ List.mem_cons_self) ha
    | cons e b =>
      have heq := List.cons.inj h
      have hrest := ih (fun hm ↦ ha (List.mem_cons_of_mem d hm))
        (fun hm ↦ hb (List.mem_cons_of_mem e hm)) heq.2
      exact ⟨by rw [heq.1, hrest.1], hrest.2⟩

end Reasoning.Dotted
