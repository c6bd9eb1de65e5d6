import Mathlib.Data.List.Infix
import Mathlib.Tactic.Common

/-!
# A log with a reader

Entries are appended at one end and read from the other.  The reader has its own position: it can
start over, and erasing the log erases what is left to read.
-/

namespace Reasoning

/-- `unread` is what the reader has not been given since it last started over. -/
structure CursorLog (α : Type) where
  entries : List α
  unread : List α
  suffix : unread <:+ entries

namespace CursorLog

variable {α : Type}

/-- A log whose reader is at the start. -/
def ofEntries (l : List α) : CursorLog α := ⟨l, l, List.suffix_rfl⟩

def push (L : CursorLog α) (x : α) : CursorLog α where
  entries := L.entries ++ [x]
  unread := L.unread ++ [x]
  suffix := by
    obtain ⟨t, ht⟩ := L.suffix
    exact ⟨t, by rw [← ht, List.append_assoc]⟩

def advance (L : CursorLog α) : CursorLog α :=
  ⟨L.entries, L.unread.tail, (List.tail_suffix _).trans L.suffix⟩

def rewind (L : CursorLog α) : CursorLog α := ofEntries L.entries

def clear (_ : CursorLog α) : CursorLog α := ofEntries []

/-- The number of entries in front of the reader. -/
def position (L : CursorLog α) : ℕ := L.entries.length - L.unread.length

theorem length_unread_le (L : CursorLog α) : L.unread.length ≤ L.entries.length :=
  L.suffix.length_le

theorem position_le (L : CursorLog α) : L.position ≤ L.entries.length := Nat.sub_le _ _

theorem position_add_length (L : CursorLog α) :
    L.position + L.unread.length = L.entries.length :=
  Nat.sub_add_cancel L.length_unread_le

theorem drop_position (L : CursorLog α) : L.entries.drop L.position = L.unread :=
  (List.suffix_iff_eq_drop.mp L.suffix).symm

/-- What is read next is the entry at the reader's position. -/
theorem head?_unread (L : CursorLog α) : L.unread.head? = L.entries[L.position]? := by
  rw [← L.drop_position, List.head?_drop]

theorem unread_eq_nil_iff (L : CursorLog α) :
    L.unread = [] ↔ L.position = L.entries.length := by
  have h := L.position_add_length
  rw [← List.length_eq_zero_iff]
  omega

@[simp] theorem position_ofEntries (l : List α) : (ofEntries l).position = 0 := by
  simp [position, ofEntries]

@[simp] theorem position_push (L : CursorLog α) (x : α) : (L.push x).position = L.position := by
  simp [position, push]

theorem position_advance {L : CursorLog α} (h : L.unread ≠ []) :
    L.advance.position = L.position + 1 := by
  have hl := L.position_add_length
  have hp := List.length_pos_iff.mpr h
  unfold position advance at *
  simp only [List.length_tail]
  omega

@[simp] theorem entries_advance (L : CursorLog α) : L.advance.entries = L.entries := rfl
@[simp] theorem entries_push (L : CursorLog α) (x : α) :
    (L.push x).entries = L.entries ++ [x] := rfl
@[simp] theorem entries_rewind (L : CursorLog α) : L.rewind.entries = L.entries := rfl
@[simp] theorem entries_clear (L : CursorLog α) : L.clear.entries = [] := rfl
@[simp] theorem position_rewind (L : CursorLog α) : L.rewind.position = 0 := by simp [rewind]
@[simp] theorem position_clear (L : CursorLog α) : L.clear.position = 0 := by simp [clear]

end CursorLog

end Reasoning
