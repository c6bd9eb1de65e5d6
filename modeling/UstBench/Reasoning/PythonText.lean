import UstBench.Reasoning.Decimal
import Mathlib.Algebra.Field.Rat
import Mathlib.Data.List.DropRight
import Mathlib.Tactic.Common

/-!
# Numbers in Python texts

`str.rstrip`, `int` and `float` on lists of characters.  Digits are the ASCII ones.  `float` gives
the rational its numeral stands for, and refuses infinities and NaNs, which no rational stands for.
-/

namespace Reasoning.Python

/-- The characters that `str.isspace` holds of. -/
def isSpace (c : Char) : Bool :=
  let n := c.toNat
  (9 ≤ n ∧ n ≤ 13) ∨ (28 ≤ n ∧ n ≤ 32) ∨ n = 0x85 ∨ n = 0xa0 ∨ n = 0x1680 ∨
    (0x2000 ≤ n ∧ n ≤ 0x200a) ∨ n = 0x2028 ∨ n = 0x2029 ∨ n = 0x202f ∨ n = 0x205f ∨ n = 0x3000

def rstrip (s : List Char) : List Char := s.rdropWhile isSpace

def strip (s : List Char) : List Char := rstrip (s.dropWhile isSpace)

/-- Digits, with single underscores allowed between them. -/
def digits (s : List Char) : Option ℕ :=
  let groups := s.splitOn '_'
  if groups.all fun g ↦ g ≠ [] && g.all Char.isDigit then
    some (Nat.ofDigitChars 10 groups.flatten 0)
  else
    none

def signedDigits : List Char → Option ℤ
  | '-' :: s => (digits s).map fun n ↦ -(n : ℤ)
  | '+' :: s => (digits s).map fun n ↦ (n : ℤ)
  | s => (digits s).map fun n ↦ (n : ℤ)

def int (s : List Char) : Option ℤ := signedDigits (strip s)

/-- The digits before and behind the point.  One side may be empty. -/
def mantissa (s : List Char) : Option ℚ :=
  match s.splitOn '.' with
  | [a] => (digits a).map fun n ↦ (n : ℚ)
  | [a, []] => (digits a).map fun n ↦ (n : ℚ)
  | [a, b] => do
    let n ← if a = [] then some 0 else digits a
    let m ← digits b
    return n + m / 10 ^ (b.filter Char.isDigit).length
  | _ => none

def unsignedFloat (s : List Char) : Option ℚ :=
  match s.dropWhile fun c ↦ c ≠ 'e' && c ≠ 'E' with
  | [] => mantissa s
  | _ :: e => do
    let m ← mantissa (s.takeWhile fun c ↦ c ≠ 'e' && c ≠ 'E')
    let k ← signedDigits e
    return m * (10 : ℚ) ^ k

def float (s : List Char) : Option ℚ :=
  match strip s with
  | '-' :: t => (unsignedFloat t).map fun q ↦ -q
  | '+' :: t => unsignedFloat t
  | t => unsignedFloat t

/-! ## Reading what was printed -/

theorem isSpace_eq_false_of_isDigit {c : Char} (h : c.isDigit) : isSpace c = false := by
  have hc : 48 ≤ c.toNat ∧ c.toNat ≤ 57 := by
    simpa [Char.isDigit, UInt32.le_iff_toNat_le] using h
  simp only [isSpace, decide_eq_false_iff_not]
  omega

theorem rstrip_eq_self {s : List Char} (h : ∀ c ∈ s, isSpace c = false) : rstrip s = s := by
  rw [rstrip, List.rdropWhile_eq_self_iff]
  intro hl
  simp [h _ (List.getLast_mem hl)]

/-- A text without spaces, in front of nothing but spaces. -/
theorem rstrip_append {s t : List Char} (hs : ∀ c ∈ s, isSpace c = false)
    (ht : ∀ c ∈ t, isSpace c = true) : rstrip (s ++ t) = s := by
  induction t using List.reverseRecOn with
  | nil =>
    rw [List.append_nil]
    exact rstrip_eq_self hs
  | append_singleton t c ih =>
    have hc : isSpace c = true := ht c (by simp)
    rw [rstrip, ← List.append_assoc, List.rdropWhile_concat_pos _ _ _ hc]
    exact ih fun d hd ↦ ht d (List.mem_append_left [c] hd)

theorem rstrip_newline {s : List Char} (h : ∀ c ∈ s, isSpace c = false) :
    rstrip (s ++ ['\n']) = s :=
  rstrip_append h fun c hc ↦ by
    rw [List.mem_singleton.mp hc]
    rfl

theorem strip_eq_self {s : List Char} (h : ∀ c ∈ s, isSpace c = false) : strip s = s := by
  have hd : s.dropWhile isSpace = s := by
    cases s with
    | nil => rfl
    | cons c s => simp [h c]
  rw [strip, hd, rstrip_eq_self h]

theorem digits_of_isDigit {s : List Char} (hne : s ≠ []) (h : ∀ c ∈ s, c.isDigit) :
    digits s = some (Nat.ofDigitChars 10 s 0) := by
  have hu : '_' ∉ s := by
    intro hm
    have hd := h _ hm
    simp at hd
  have hall : s.all Char.isDigit := by simpa using h
  simp [digits, List.splitOn_eq_singleton hu, hne, hall]

theorem int_of_isDigit {s : List Char} (hne : s ≠ []) (h : ∀ c ∈ s, c.isDigit) :
    int s = some (Nat.ofDigitChars 10 s 0 : ℤ) := by
  have hs : strip s = s := strip_eq_self fun c hc ↦ isSpace_eq_false_of_isDigit (h c hc)
  have hsign : signedDigits s = (digits s).map fun n ↦ (n : ℤ) := by
    unfold signedDigits
    split
    · have hd := h '-' List.mem_cons_self
      simp at hd
    · have hd := h '+' List.mem_cons_self
      simp at hd
    · rfl
  rw [int, hs, hsign, digits_of_isDigit hne h]
  rfl

theorem float_of_isDigit {s : List Char} (hne : s ≠ []) (h : ∀ c ∈ s, c.isDigit) :
    float s = some (Nat.ofDigitChars 10 s 0 : ℚ) := by
  have hs : strip s = s := strip_eq_self fun c hc ↦ isSpace_eq_false_of_isDigit (h c hc)
  have hmark : ∀ {c}, c.isDigit = false → c ∉ s := by
    intro c hc hm
    rw [h c hm] at hc
    cases hc
  have hexp : s.dropWhile (fun c ↦ c ≠ 'e' && c ≠ 'E') = [] := by
    rw [List.dropWhile_eq_nil_iff]
    intro c hc
    have he : c ≠ 'e' := fun heq ↦ hmark (by decide) (heq ▸ hc)
    have hE : c ≠ 'E' := fun heq ↦ hmark (by decide) (heq ▸ hc)
    simp [he, hE]
  have hunsigned : unsignedFloat s = some (Nat.ofDigitChars 10 s 0 : ℚ) := by
    rw [unsignedFloat, hexp]
    show mantissa s = _
    rw [mantissa, List.splitOn_eq_singleton (hmark (by decide))]
    simp [digits_of_isDigit hne h]
  rw [float, hs]
  split
  · exact absurd List.mem_cons_self (hmark (by decide))
  · exact absurd List.mem_cons_self (hmark (by decide))
  · exact hunsigned

theorem float_toDigits (n : ℕ) : float (Nat.toDigits 10 n) = some (n : ℚ) := by
  rw [float_of_isDigit Nat.toDigits_ne_nil fun c hc ↦ Decimal.isDigit_of_mem hc,
    Nat.ofDigitChars_ten_toDigits]

end Reasoning.Python
