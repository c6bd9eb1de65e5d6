import Mathlib.Data.Nat.Prime.Nth
import UstBench.Sha2.Context
import UstBench.Sha2.Standard

/-!
# The constants

The literals of `sha2_starts` and `sha2_process` are the digits that the standard takes from roots
of primes.  A number is a digit string of a root if its power is next below.
-/

namespace UstBench.Sha2

open Standard

/-- The first 64 primes. -/
def primes : List ℕ :=
  [2, 3, 5, 7, 11, 13, 17, 19, 23, 29, 31, 37, 41, 43, 47, 53, 59, 61, 67, 71, 73, 79, 83, 89, 97,
    101, 103, 107, 109, 113, 127, 131, 137, 139, 149, 151, 157, 163, 167, 173, 179, 181, 191, 193,
    197, 199, 211, 223, 227, 229, 233, 239, 241, 251, 257, 263, 269, 271, 277, 281, 283, 293, 307,
    311]

/-- No divisor that has to be tried for a number below `18 ^ 2`. -/
def Undivided (n : ℕ) : Prop := ∀ m < 18, 2 ≤ m → m < n → ¬m ∣ n

instance (n : ℕ) : Decidable (Undivided n) :=
  inferInstanceAs (Decidable (∀ m < 18, 2 ≤ m → m < n → ¬m ∣ n))

theorem prime_iff_undivided {n : ℕ} (h2 : 2 ≤ n) (hn : n < 18 ^ 2) : n.Prime ↔ Undivided n := by
  constructor
  · intro hprime m _ hm hlt hdvd
    rcases hprime.eq_one_or_self_of_dvd m hdvd with rfl | rfl
    · omega
    · omega
  · intro h
    rw [Nat.prime_def_le_sqrt]
    refine ⟨h2, fun m hm hle ↦ ?_⟩
    have hsq : m * m ≤ n := Nat.le_sqrt.mp hle
    have hdouble : 2 * m ≤ m * m := Nat.mul_le_mul_right m hm
    apply h m _ hm (by omega)
    by_contra hlt
    have hlarge : 18 * 18 ≤ m * m := Nat.mul_le_mul (not_lt.mp hlt) (not_lt.mp hlt)
    omega

/-- The next prime is the first one behind a gap. -/
theorem nth_prime_succ {i p q : ℕ} (hp : Nat.nth Nat.Prime i = p) (hq : q.Prime) (hlt : p < q)
    (hgap : ∀ n < q, p < n → ¬n.Prime) : Nat.nth Nat.Prime (i + 1) = q := by
  have hinf := Nat.infinite_setOfPred_prime
  apply le_antisymm
  · have hcount : i < Nat.count Nat.Prime q := by
      rw [← Nat.count_nth_of_infinite hinf i, hp]
      exact Nat.count_strict_mono (hp ▸ Nat.nth_mem_of_infinite hinf i) hlt
    calc Nat.nth Nat.Prime (i + 1) ≤ Nat.nth Nat.Prime (Nat.count Nat.Prime q) :=
          Nat.nth_monotone hinf hcount
      _ = q := Nat.nth_count hq
  · by_contra hbelow
    apply hgap _ (not_le.mp hbelow) _ (Nat.nth_mem_of_infinite hinf (i + 1))
    rw [← hp]
    exact Nat.nth_strictMono hinf (Nat.lt_succ_self i)

theorem prime_eq {i : ℕ} (hi : i < 64) : prime i = (primes.getD i 0 : ℕ) := by
  have hnext : ∀ i < 63, let p := primes.getD i 0; let q := primes.getD (i + 1) 0
      2 ≤ p ∧ p < q ∧ q < 18 ^ 2 ∧ Undivided q ∧ ∀ n < q, p < n → ¬Undivided n := by
    decide +kernel
  have hnth : Nat.nth Nat.Prime i = primes.getD i 0 := by
    induction i with
    | zero => exact Nat.nth_prime_zero_eq_two
    | succ i ih =>
      obtain ⟨h2, hlt, hsmall, hq, hgap⟩ := hnext i (by omega)
      refine nth_prime_succ (ih (by omega)) ((prime_iff_undivided (by omega) hsmall).mpr hq) hlt ?_
      intro n hn hpn hprime
      exact hgap n hn hpn ((prime_iff_undivided (by omega) (by omega)).mp hprime)
  unfold prime
  rw [hnth]

theorem prime_nonneg (i : ℕ) : 0 ≤ prime i := Nat.cast_nonneg _

theorem floor_root {x : ℝ} {r n p m : ℕ} (hr : r ≠ 0) (hx : 0 ≤ x) (hpow : x ^ r = p)
    (hle : m ^ r ≤ p * 2 ^ (n * r)) (hlt : p * 2 ^ (n * r) < (m + 1) ^ r) :
    ⌊x * 2 ^ n⌋₊ = m := by
  have hscaled : (x * 2 ^ n) ^ r = (p * 2 ^ (n * r) : ℕ) := by
    rw [mul_pow, hpow, ← pow_mul]
    push_cast
    rfl
  have hnonneg : 0 ≤ x * 2 ^ n := by positivity
  rw [Nat.floor_eq_iff hnonneg]
  constructor
  · rw [← pow_le_pow_iff_left₀ (Nat.cast_nonneg m) hnonneg hr, hscaled]
    exact_mod_cast hle
  · have hsucc : (0 : ℝ) ≤ m + 1 := by positivity
    rw [← pow_lt_pow_iff_left₀ hnonneg hsucc hr, hscaled]
    exact_mod_cast hlt

/-- With `q` for what is in front of the bits. -/
theorem fractionBits_root {x : ℝ} {r n p : ℕ} {w : BitVec 32} (q : ℕ) (hr : r ≠ 0) (hx : 0 ≤ x)
    (hpow : x ^ r = p) (hle : (q * 2 ^ 32 + w.toNat) ^ r ≤ p * 2 ^ (n * r))
    (hlt : p * 2 ^ (n * r) < (q * 2 ^ 32 + w.toNat + 1) ^ r) :
    fractionBits n x = w := by
  unfold fractionBits
  rw [floor_root hr hx hpow hle hlt, Nat.add_comm, Nat.mul_comm]
  apply BitVec.eq_of_toNat_eq
  rw [BitVec.toNat_ofNat, Nat.add_mul_mod_self_left, Nat.mod_eq_of_lt w.isLt]

/-! ## The rounds -/

/-- The literal in line `t` of `sha2_process`. -/
def lineConstant (t : ℕ) : Word := (processLines.map Line.K).getD t 0

theorem lineConstant_eq {t : ℕ} (ht : t < 64) : k t = lineConstant t := by
  have hroots : ∀ t < 64, ∃ q < 7,
      (q * 2 ^ 32 + (lineConstant t).toNat) ^ 3 ≤ primes.getD t 0 * 2 ^ (32 * 3) ∧
        primes.getD t 0 * 2 ^ (32 * 3) < (q * 2 ^ 32 + (lineConstant t).toNat + 1) ^ 3 := by
    decide +kernel
  obtain ⟨q, _, hle, hlt⟩ := hroots t ht
  have hpow : (prime t ^ (1 / 3 : ℝ)) ^ 3 = (primes.getD t 0 : ℕ) := by
    rw [← prime_eq ht, ← Real.rpow_natCast, ← Real.rpow_mul (prime_nonneg t)]
    norm_num
  exact fractionBits_root q (by decide) (Real.rpow_nonneg (prime_nonneg t) _) hpow hle hlt

/-! ## The initial values -/

/-- The literal for `state[i]`. -/
def startConstant (is224 : ℤ) (i : ℕ) : Word :=
  let s := startState is224
  [s.A, s.B, s.C, s.D, s.E, s.F, s.G, s.H].getD i 0

theorem fractionBits_sqrt {i n : ℕ} {w : BitVec 32} (q : ℕ) (hi : i < 64)
    (hle : (q * 2 ^ 32 + w.toNat) ^ 2 ≤ primes.getD i 0 * 2 ^ (n * 2))
    (hlt : primes.getD i 0 * 2 ^ (n * 2) < (q * 2 ^ 32 + w.toNat + 1) ^ 2) :
    fractionBits n (Real.sqrt (prime i)) = w := by
  have hpow : Real.sqrt (prime i) ^ 2 = (primes.getD i 0 : ℕ) := by
    rw [Real.sq_sqrt (prime_nonneg i), prime_eq hi]
  exact fractionBits_root q (by decide) (Real.sqrt_nonneg _) hpow hle hlt

theorem startConstant_sha256 {i : ℕ} (hi : i < 8) :
    fractionBits 32 (Real.sqrt (prime i)) = startConstant 0 i := by
  have hroots : ∀ i < 8, ∃ q < 5,
      (q * 2 ^ 32 + (startConstant 0 i).toNat) ^ 2 ≤ primes.getD i 0 * 2 ^ (32 * 2) ∧
        primes.getD i 0 * 2 ^ (32 * 2) < (q * 2 ^ 32 + (startConstant 0 i).toNat + 1) ^ 2 := by
    decide +kernel
  obtain ⟨q, _, hle, hlt⟩ := hroots i hi
  exact fractionBits_sqrt q (by omega) hle hlt

/-- In front of these bits are those that SHA-256 would take. -/
theorem startConstant_sha224 {i : ℕ} (hi : i < 8) :
    fractionBits 64 (Real.sqrt (prime (i + 8))) = startConstant 1 i := by
  have hroots : ∀ i < 8, let q := Nat.sqrt (primes.getD (i + 8) 0 * 2 ^ 64)
      (q * 2 ^ 32 + (startConstant 1 i).toNat) ^ 2 ≤ primes.getD (i + 8) 0 * 2 ^ (64 * 2) ∧
        primes.getD (i + 8) 0 * 2 ^ (64 * 2) <
          (q * 2 ^ 32 + (startConstant 1 i).toNat + 1) ^ 2 := by
    decide +kernel
  obtain ⟨hle, hlt⟩ := hroots i hi
  exact fractionBits_sqrt _ (by omega) hle hlt

/-- The words of a state are the registers of the standard. -/
def Words.registers (s : Words) : Registers := ⟨s.A, s.B, s.C, s.D, s.E, s.F, s.G, s.H⟩

/-- `is224` as the functions read it. -/
def variant (is224 : ℤ) : Variant := if is224 = 0 then .sha256 else .sha224

theorem startState_registers (is224 : ℤ) : (startState is224).registers = iv (variant is224) := by
  by_cases h : is224 = 0
  · rw [variant, if_pos h, h]
    exact (Registers.ofFn_congr fun i hi ↦ startConstant_sha256 hi).symm
  · have hstate : startState is224 = startState 1 := by
      rw [startState, if_neg h, startState, if_neg one_ne_zero]
    rw [variant, if_neg h, hstate]
    exact (Registers.ofFn_congr fun i hi ↦ startConstant_sha224 hi).symm

end UstBench.Sha2
