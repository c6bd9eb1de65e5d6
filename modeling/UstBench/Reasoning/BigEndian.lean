import Mathlib.Algebra.Order.Ring.Nat
import Mathlib.Data.List.Induction
import Mathlib.Tactic.Common
import Mathlib.Tactic.Ring

/-!
# Numbers as bytes, the highest first
-/

namespace Reasoning

/-- The last `k` bytes of `n`. -/
def bigEndian : ℕ → ℕ → List UInt8
  | 0, _ => []
  | k + 1, n => bigEndian k (n / 256) ++ [UInt8.ofNat n]

def ofBigEndian (bs : List UInt8) : ℕ := bs.foldl (fun n b ↦ 256 * n + b.toNat) 0

variable {j k n m : ℕ}

@[simp] theorem length_bigEndian (k n : ℕ) : (bigEndian k n).length = k := by
  induction k generalizing n with
  | zero => rfl
  | succ k ih =>
    unfold bigEndian
    rw [List.length_append, ih]
    rfl

theorem ofBigEndian_concat (bs : List UInt8) (b : UInt8) :
    ofBigEndian (bs ++ [b]) = 256 * ofBigEndian bs + b.toNat := by
  unfold ofBigEndian
  rw [List.foldl_append]
  rfl

/-- What is above the last `k` bytes does not matter. -/
theorem ofBigEndian_bigEndian (k n : ℕ) : ofBigEndian (bigEndian k n) = n % 256 ^ k := by
  induction k generalizing n with
  | zero => exact (Nat.mod_one n).symm
  | succ k ih =>
    have hbyte : (UInt8.ofNat n).toNat = n % 256 := UInt8.toNat_ofNat'
    unfold bigEndian
    rw [ofBigEndian_concat, ih, hbyte, pow_succ, Nat.mul_comm (256 ^ k), Nat.mod_mul]
    ring

theorem bigEndian_ofBigEndian (bs : List UInt8) : bigEndian bs.length (ofBigEndian bs) = bs := by
  induction bs using List.reverseRecOn with
  | nil => rfl
  | append_singleton bs b ih =>
    have hb := b.toNat_lt
    have hhigh : (256 * ofBigEndian bs + b.toNat) / 256 = ofBigEndian bs := by omega
    have hlow : UInt8.ofNat (256 * ofBigEndian bs + b.toNat) = b := by
      apply UInt8.toNat_inj.mp
      rw [UInt8.toNat_ofNat']
      omega
    rw [ofBigEndian_concat, List.length_append, List.length_singleton]
    unfold bigEndian
    rw [hhigh, hlow, ih]

theorem bigEndian_eq_iff : bigEndian k n = bigEndian k m ↔ n % 256 ^ k = m % 256 ^ k := by
  constructor
  · intro h
    rw [← ofBigEndian_bigEndian, h, ofBigEndian_bigEndian]
  · intro h
    have hn := bigEndian_ofBigEndian (bigEndian k n)
    have hm := bigEndian_ofBigEndian (bigEndian k m)
    rw [length_bigEndian, ofBigEndian_bigEndian] at hn hm
    rw [← hn, ← hm, h]

/-- A number of `j + k` bytes is its high part, then its low part. -/
theorem bigEndian_add (j k n : ℕ) :
    bigEndian (j + k) n = bigEndian j (n / 256 ^ k) ++ bigEndian k n := by
  induction k generalizing n with
  | zero => simp [bigEndian]
  | succ k ih =>
    show bigEndian (j + k) (n / 256) ++ [UInt8.ofNat n] = _
    rw [ih, Nat.div_div_eq_div_mul, ← pow_succ', List.append_assoc]
    rfl

end Reasoning
