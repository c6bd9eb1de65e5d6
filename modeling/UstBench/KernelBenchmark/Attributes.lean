import UstBench.KernelBenchmark.Elapsed
import UstBench.KernelBenchmark.Events
import UstBench.Reasoning.Decimal

/-!
# The attributes of the kernel module

The files under `/sys/kernel/lttng_benchmark`.  A write to `count` sets how many events every thread
fires; a read of `time` makes a measurement and gives its total.
-/

namespace UstBench.KernelBenchmark

open Reasoning

/-! ## `count` and `events` -/

/-- The white space of the kernel. -/
def isspace (c : Char) : Bool :=
  let n := c.toNat
  n = 32 ∨ (9 ≤ n ∧ n ≤ 13) ∨ n = 0xa0

/-- `sscanf(buf, "%u", ..)`: the digits behind white space, as far as they fit the variable. -/
def sscanfUnsigned (buf : List Char) : Option ℕ :=
  match (buf.dropWhile isspace).takeWhile Char.isDigit with
  | [] => none
  | digits => some (Nat.ofDigitChars 10 digits 0 % 2 ^ 32)

/-- The `event_count` behind a write of `buf`. -/
def countStore (eventCount : ℕ) (buf : List Char) : ℕ := (sscanfUnsigned buf).getD eventCount

def countShow (eventCount : ℕ) : List Char := Nat.toDigits 10 eventCount ++ ['\n']

theorem isspace_eq_false_of_isDigit {c : Char} (h : c.isDigit) : isspace c = false := by
  have hc : 48 ≤ c.toNat ∧ c.toNat ≤ 57 := by
    simpa [Char.isDigit, UInt32.le_iff_toNat_le] using h
  simp only [isspace, decide_eq_false_iff_not]
  omega

/-- What stands behind a numeral does not matter to the reader, unless it goes on with digits. -/
theorem sscanfUnsigned_toDigits (n : ℕ) {rest : List Char}
    (hrest : ∀ c ∈ rest.head?, c.isDigit = false) :
    sscanfUnsigned (Nat.toDigits 10 n ++ rest) = some (n % 2 ^ 32) := by
  have hdigits : ∀ c ∈ Nat.toDigits 10 n, c.isDigit := fun c hc ↦ Decimal.isDigit_of_mem hc
  have hdrop : (Nat.toDigits 10 n ++ rest).dropWhile isspace = Nat.toDigits 10 n ++ rest := by
    cases hn : Nat.toDigits 10 n with
    | nil => exact absurd hn Nat.toDigits_ne_nil
    | cons c cs =>
      rw [hn] at hdigits
      rw [List.cons_append, List.dropWhile_cons_of_neg]
      rw [isspace_eq_false_of_isDigit (hdigits c List.mem_cons_self)]
      exact Bool.false_ne_true
  have htail : rest.takeWhile Char.isDigit = [] := by
    cases rest with
    | nil => rfl
    | cons c cs =>
      rw [List.takeWhile_cons_of_neg]
      rw [hrest c rfl]
      exact Bool.false_ne_true
  unfold sscanfUnsigned
  rw [hdrop, List.takeWhile_append_of_pos hdigits, htail, List.append_nil]
  split
  next hnil => exact absurd hnil Nat.toDigits_ne_nil
  next => rw [Nat.ofDigitChars_ten_toDigits]

/-- A count that is read back is the one that was shown. -/
theorem countStore_countShow (eventCount : ℕ) {n : ℕ} (hn : n < 2 ^ 32) :
    countStore eventCount (countShow n) = n := by
  unfold countStore countShow
  rw [sscanfUnsigned_toDigits n (by rintro _ ⟨⟩; rfl), Nat.mod_eq_of_lt hn]
  rfl

example : countStore 7 [' ', '4', '2', 'x'] = 42 := by decide

-- a text without digits leaves the count as it was
example : countStore 7 ['-', '1'] = 7 := by decide

/-! ## `time` -/

/-- What a read of `time` gives, with every CPU having fired its events in their order. -/
def Setup.Counts (b : Setup) (text : List Char) : Prop :=
  ∃ memory as s time, Throughout (step b) Uninterrupted as (.initial b memory) ∧
    execute (step b) as (.initial b memory) = some s ∧ s.reader = .returned time ∧
      text = showTime time ∧ ∀ cpu ∈ b.cpus,
        eventsOf cpu (fired b as (.initial b memory)) = (List.range b.eventCount).map toInt

theorem Setup.Shows.counts {b : Setup} {text : List Char} (hnd : b.cpus.Nodup)
    (h : b.Shows text) : b.Counts text := by
  rcases h with ⟨memory, as, s, time, hu, hr, hret, htext⟩
  exact ⟨memory, as, s, time, hu, hr, hret, htext,
    fun cpu hcpu ↦ eventsOf_fired_returned hnd hu hr hret hcpu⟩

end UstBench.KernelBenchmark
