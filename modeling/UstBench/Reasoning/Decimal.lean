import Mathlib.Data.Nat.Digits.Defs
import Mathlib.Tactic.Common

/-!
# Decimal numerals

The numerals `%d`, `%lu` and `%0wd` print, as lists of characters, and how to read them back.  The
digits themselves and their value are core's `Nat.toDigits` and `Nat.ofDigitChars`.
-/

namespace Reasoning.Decimal

def printInt : ℤ → List Char
  | .ofNat n => Nat.toDigits 10 n
  | .negSucc n => '-' :: Nat.toDigits 10 (n + 1)

def zeroPadded (width n : ℕ) : List Char :=
  List.replicate (width - (Nat.toDigits 10 n).length) '0' ++ Nat.toDigits 10 n

/-- `%0wd`: the sign counts towards the width. -/
def zeroPaddedInt (width : ℕ) : ℤ → List Char
  | .ofNat n => zeroPadded width n
  | .negSucc n => '-' :: zeroPadded (width - 1) (n + 1)

theorem toDigits_injective : Function.Injective (Nat.toDigits 10) := by
  intro m n h
  rw [← Nat.ofDigitChars_ten_toDigits (n := m), h, Nat.ofDigitChars_ten_toDigits]

theorem isDigit_of_mem {n : ℕ} {c : Char} (h : c ∈ Nat.toDigits 10 n) : c.isDigit :=
  Nat.isDigit_of_mem_toDigits (by decide) (by decide) h

theorem notMem_toDigits {c : Char} (hc : c.isDigit = false) (n : ℕ) : c ∉ Nat.toDigits 10 n := by
  intro h
  rw [isDigit_of_mem h] at hc
  exact absurd hc (by decide)

theorem minus_notMem_toDigits (n : ℕ) : '-' ∉ Nat.toDigits 10 n := notMem_toDigits (by decide) n

/-! ## `toString` -/

theorem toList_toString (n : ℕ) : (toString n).toList = Nat.toDigits 10 n := Nat.toList_repr

theorem toString_injective : Function.Injective (toString : ℕ → String) := by
  intro m n h
  apply toDigits_injective
  rw [← toList_toString, ← toList_toString, h]

theorem isDigit_of_mem_toString {n : ℕ} {c : Char} (h : c ∈ (toString n).toList) : c.isDigit := by
  rw [toList_toString] at h
  exact isDigit_of_mem h

theorem notMem_toString {c : Char} (hc : c.isDigit = false) (n : ℕ) : c ∉ (toString n).toList := by
  rw [toList_toString]
  exact notMem_toDigits hc n

theorem toString_ne_empty (n : ℕ) : toString n ≠ "" := by
  intro h
  have hnil : Nat.toDigits 10 n = [] := by
    rw [← toList_toString, h]
    rfl
  exact absurd hnil Nat.toDigits_ne_nil

/-! ## Printed integers -/

theorem printInt_injective : Function.Injective printInt := by
  intro x y h
  cases x with
  | ofNat m =>
    cases y with
    | ofNat n => rw [toDigits_injective h]
    | negSucc n =>
      refine absurd ?_ (minus_notMem_toDigits m)
      rw [show Nat.toDigits 10 m = '-' :: Nat.toDigits 10 (n + 1) from h]
      simp
  | negSucc m =>
    cases y with
    | ofNat n =>
      refine absurd ?_ (minus_notMem_toDigits n)
      rw [show Nat.toDigits 10 n = '-' :: Nat.toDigits 10 (m + 1) from h.symm]
      simp
    | negSucc n =>
      have ht := toDigits_injective (List.cons.inj h).2
      rw [Nat.add_right_cancel ht]

/-- A sign and `k` digits are enough for every integer of magnitude below `10 ^ k`. -/
theorem length_printInt_le {z : ℤ} {k : ℕ} (hk : 0 < k) (hz : z.natAbs < 10 ^ k) :
    (printInt z).length ≤ k + 1 := by
  cases z with
  | ofNat n =>
    have h := (Nat.length_toDigits_le_iff (n := n) (by decide) hk).mpr hz
    change (Nat.toDigits 10 n).length ≤ k + 1
    omega
  | negSucc n =>
    have h := (Nat.length_toDigits_le_iff (n := n + 1) (by decide) hk).mpr hz
    change (Nat.toDigits 10 (n + 1)).length + 1 ≤ k + 1
    omega

theorem isDigit_of_mem_zeroPadded {width n : ℕ} {c : Char} (h : c ∈ zeroPadded width n) :
    c.isDigit := by
  rcases List.mem_append.mp h with hz | hd
  · rw [List.eq_of_mem_replicate hz]
    rfl
  · exact isDigit_of_mem hd

theorem zeroPadded_ne_nil (width n : ℕ) : zeroPadded width n ≠ [] := by
  simp [zeroPadded, Nat.toDigits_ne_nil]

theorem length_zeroPadded {width n : ℕ} (hw : 0 < width) (hn : n < 10 ^ width) :
    (zeroPadded width n).length = width := by
  have h := (Nat.length_toDigits_le_iff (by decide) hw).mpr hn
  rw [zeroPadded, List.length_append, List.length_replicate]
  omega

theorem ofDigitChars_zeroPadded (width n : ℕ) :
    Nat.ofDigitChars 10 (zeroPadded width n) 0 = n := by
  rw [zeroPadded, Nat.ofDigitChars_append, Nat.ofDigitChars_replicate_zero, Nat.mul_zero,
    Nat.ofDigitChars_ten_toDigits]

/-- Canonical numerals have no leading zero. -/
theorem toDigits_head_ne_zero {n : ℕ} (hn : 0 < n) : (Nat.toDigits 10 n).head? ≠ some '0' := by
  induction n using Nat.strong_induction_on with
  | h n ih =>
    by_cases hlt : n < 10
    · rw [Nat.toDigits_of_lt_base hlt]
      simp
      omega
    · rw [Nat.toDigits_of_base_le (by decide) (by omega),
        List.head?_append, Option.or_of_isSome (by simp [Nat.toDigits_ne_nil])]
      exact ih (n / 10) (by omega) (by omega)

end Reasoning.Decimal
