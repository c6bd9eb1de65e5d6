import UstBench.Reasoning.PythonText
import Mathlib.Data.Finset.Lattice.Fold
import Mathlib.Order.Interval.Finset.Nat
import Mathlib.Order.Lattice.Nat

/-!
# CPU lists

The text the kernel has in `/sys/devices/system/cpu/online` and `offline`, and how
`_LinuxCpu._read_cpu_file` reads it.
-/

namespace UstBench.Driver

open Reasoning

/-! ## The kernel's side -/

/-- The maximal runs of an ascending list. -/
def runs : List ℕ → List (ℕ × ℕ)
  | [] => []
  | a :: l =>
    match runs l with
    | (b, c) :: rs => if b = a + 1 then (a, c) :: rs else (a, a) :: (b, c) :: rs
    | [] => [(a, a)]

def printRun (r : ℕ × ℕ) : List Char :=
  if r.1 = r.2 then Nat.toDigits 10 r.1
  else Nat.toDigits 10 r.1 ++ '-' :: Nat.toDigits 10 r.2

def ascending (s : Finset ℕ) : List ℕ := (List.range (s.sup id + 1)).filter (· ∈ s)

def printCpuList (s : Finset ℕ) : List Char :=
  [','].intercalate ((runs (ascending s)).map printRun) ++ ['\n']

/-! ## `_read_cpu_file` -/

/-- The members one item of the list adds, or `ValueError`. -/
def readItem (cpuRange : List Char) : Option (Finset ℕ) :=
  if '-' ∈ cpuRange then
    match cpuRange.splitOn '-' with
    | [l, r] => do
      let l ← Python.int l
      let r ← Python.int r
      -- neither text has a minus sign left
      return Finset.Ico l.toNat (r.toNat + 1)
    | _ => none
  else do
    let n ← Python.int cpuRange
    return {n.toNat}

def readItems : List (List Char) → Option (Finset ℕ)
  | [] => some ∅
  | cpuRange :: rest => do
    let cpus ← readItem cpuRange
    let more ← readItems rest
    return cpus ∪ more

def parseCpuList (text : List Char) : Option (Finset ℕ) :=
  readItems (((Python.rstrip text).splitOn ',').filter (· ≠ []))

/-! ## Reading what the kernel printed -/

theorem le_of_mem_runs {l : List ℕ} {r : ℕ × ℕ} (h : r ∈ runs l) : r.1 ≤ r.2 := by
  induction l generalizing r with
  | nil => cases h
  | cons a l ih =>
    rw [runs] at h
    cases hr : runs l with
    | nil =>
      rw [hr, List.mem_singleton] at h
      rw [h]
    | cons bc rs =>
      rw [hr] at h ih
      have hbc := ih List.mem_cons_self
      by_cases hb : bc.1 = a + 1
      · simp only [hb, if_true, List.mem_cons] at h
        rcases h with rfl | h
        · omega
        · exact ih (List.mem_cons_of_mem _ h)
      · simp only [hb, if_false, List.mem_cons] at h
        rcases h with rfl | h | h
        · exact le_refl a
        · exact ih (h ▸ List.mem_cons_self)
        · exact ih (List.mem_cons_of_mem _ h)

/-- The runs cover the list and nothing else. -/
theorem mem_iff_mem_runs {l : List ℕ} {x : ℕ} : x ∈ l ↔ ∃ r ∈ runs l, r.1 ≤ x ∧ x ≤ r.2 := by
  induction l with
  | nil => simp [runs]
  | cons a l ih =>
    rw [List.mem_cons, ih, runs]
    cases hr : runs l with
    | nil =>
      simp
      omega
    | cons bc rs =>
      have hbc : bc.1 ≤ bc.2 := le_of_mem_runs (hr ▸ List.mem_cons_self)
      by_cases hb : bc.1 = a + 1
      · simp only [hb, if_true, List.mem_cons, exists_eq_or_imp]
        have hrun : (a ≤ x ∧ x ≤ bc.2) ↔ x = a ∨ (a + 1 ≤ x ∧ x ≤ bc.2) := by omega
        rw [hrun, or_assoc]
      · simp only [hb, if_false, List.mem_cons, exists_eq_or_imp]
        have ha : x = a ↔ a ≤ x ∧ x ≤ a := by omega
        rw [ha]

theorem mem_ascending {s : Finset ℕ} {x : ℕ} : x ∈ ascending s ↔ x ∈ s := by
  simp only [ascending, List.mem_filter, List.mem_range, decide_eq_true_eq, and_iff_right_iff_imp]
  intro hx
  have hle : x ≤ s.sup id := Finset.le_sup (f := id) hx
  omega

theorem mem_intercalate {sep c : Char} {ls : List (List Char)}
    (h : c ∈ [sep].intercalate ls) : c = sep ∨ ∃ l ∈ ls, c ∈ l := by
  induction ls with
  | nil => simp at h
  | cons l ls ih =>
    cases ls with
    | nil => exact .inr ⟨l, List.mem_cons_self, by simpa using h⟩
    | cons l' ls =>
      rw [List.intercalate_cons_cons, List.mem_append, List.mem_append, List.mem_singleton] at h
      rcases h with (h | h) | h
      · exact .inr ⟨l, List.mem_cons_self, h⟩
      · exact .inl h
      · rcases ih h with h | ⟨k, hk, hc⟩
        · exact .inl h
        · exact .inr ⟨k, List.mem_cons_of_mem _ hk, hc⟩

/-! ## Items -/

/-- A number in decimal, perhaps with zeros in front. -/
structure Numeral where
  text : List Char
  ne_nil : text ≠ []
  isDigit : ∀ c ∈ text, c.isDigit

def Numeral.value (n : Numeral) : ℕ := Nat.ofDigitChars 10 n.text 0

/-- The numeral a number is printed as. -/
def Numeral.ofNat (n : ℕ) : Numeral :=
  ⟨Nat.toDigits 10 n, Nat.toDigits_ne_nil, fun _ hc ↦ Decimal.isDigit_of_mem hc⟩

@[simp] theorem Numeral.value_ofNat (n : ℕ) : (Numeral.ofNat n).value = n :=
  Nat.ofDigitChars_ten_toDigits

theorem Numeral.notMem {c : Char} (n : Numeral) (hc : c.isDigit = false) : c ∉ n.text := by
  intro hm
  have hd := n.isDigit c hm
  rw [hc] at hd
  cases hd

/-- What may stand between two commas: nothing, one id, or a range. -/
inductive CpuItem where
  | empty
  | one (a : Numeral)
  | range (l r : Numeral)

def CpuItem.text : CpuItem → List Char
  | .empty => []
  | .one a => a.text
  | .range l r => l.text ++ '-' :: r.text

/-- The ids an item stands for.  A reversed range has none. -/
def CpuItem.ids : CpuItem → Finset ℕ
  | .empty => ∅
  | .one a => {a.value}
  | .range l r => Finset.Icc l.value r.value

def printItems (items : List CpuItem) : List Char := [','].intercalate (items.map CpuItem.text)

def idsOf (items : List CpuItem) : Finset ℕ := items.foldr (fun item s ↦ item.ids ∪ s) ∅

theorem mem_idsOf {items : List CpuItem} {x : ℕ} :
    x ∈ idsOf items ↔ ∃ item ∈ items, x ∈ item.ids := by
  induction items with
  | nil => simp [idsOf]
  | cons item items ih =>
    rw [show idsOf (item :: items) = item.ids ∪ idsOf items from rfl, Finset.mem_union, ih,
      List.exists_mem_cons_iff]

theorem int_numeral (n : Numeral) : Python.int n.text = some (n.value : ℤ) :=
  Python.int_of_isDigit n.ne_nil n.isDigit

/-- An item that is not empty is read as the ids it stands for. -/
theorem readItem_text {item : CpuItem} (h : item.text ≠ []) :
    readItem item.text = some item.ids := by
  cases item with
  | empty => exact absurd rfl h
  | one a =>
    rw [CpuItem.text, readItem, if_neg (a.notMem rfl), int_numeral]
    rfl
  | range l r =>
    have hj : l.text ++ '-' :: r.text = ['-'].intercalate [l.text, r.text] := by simp
    have hsplit : (l.text ++ '-' :: r.text).splitOn '-' = [l.text, r.text] := by
      rw [hj, List.splitOn_intercalate]
      · simp [l.notMem (c := '-') rfl, r.notMem (c := '-') rfl]
      · simp
    rw [CpuItem.text, readItem, if_pos (by simp), hsplit]
    simp only [int_numeral]
    rfl

theorem plain_text {item : CpuItem} {c : Char} (h : c ∈ item.text) : c.isDigit ∨ c = '-' := by
  cases item with
  | empty => cases h
  | one a => exact .inl (a.isDigit c h)
  | range l r =>
    rcases List.mem_append.mp h with h | h
    · exact .inl (l.isDigit c h)
    · rcases List.mem_cons.mp h with h | h
      · exact .inr h
      · exact .inl (r.isDigit c h)

theorem readItems_texts (items : List CpuItem) :
    readItems ((items.map CpuItem.text).filter (· ≠ [])) = some (idsOf items) := by
  induction items with
  | nil => rfl
  | cons item items ih =>
    rw [List.map_cons]
    by_cases h : item.text = []
    · -- only the empty item has an empty text
      have hitem : item = .empty := by
        cases item with
        | empty => rfl
        | one a => exact absurd h a.ne_nil
        | range l r => simp [CpuItem.text] at h
      rw [List.filter_cons_of_neg (by simp [h]), ih, hitem]
      show some (idsOf items) = some (∅ ∪ idsOf items)
      rw [Finset.empty_union]
    · rw [List.filter_cons_of_pos (by simp [h]), readItems, readItem_text h, ih]
      rfl

/-- Splitting undoes joining, but for the empty items, which the filter drops on both sides. -/
theorem splitOn_items {ls : List (List Char)} (hcomma : ∀ l ∈ ls, ',' ∉ l) :
    (([','].intercalate ls).splitOn ',').filter (· ≠ []) = ls.filter (· ≠ []) := by
  by_cases hls : ls = []
  · rw [hls]
    rfl
  · rw [List.splitOn_intercalate ',' hcomma hls]

/-- `_read_cpu_file` adds up the ids of the items, whatever space is behind them. -/
theorem parseCpuList_printItems (items : List CpuItem) {trailing : List Char}
    (h : ∀ c ∈ trailing, Python.isSpace c = true) :
    parseCpuList (printItems items ++ trailing) = some (idsOf items) := by
  have hplain : ∀ l ∈ items.map CpuItem.text, ∀ c ∈ l, c.isDigit ∨ c = '-' := by
    intro l hl c hc
    rcases List.mem_map.mp hl with ⟨item, _, rfl⟩
    exact plain_text hc
  have hspace : ∀ c ∈ printItems items, Python.isSpace c = false := by
    intro c hc
    rcases mem_intercalate hc with rfl | ⟨l, hl, hc⟩
    · rfl
    · rcases hplain l hl c hc with hd | rfl
      · exact Python.isSpace_eq_false_of_isDigit hd
      · rfl
  have hcomma : ∀ l ∈ items.map CpuItem.text, ',' ∉ l := by
    intro l hl hc
    rcases hplain l hl _ hc with hd | hd
    · simp at hd
    · simp at hd
  rw [parseCpuList, Python.rstrip_append hspace h, printItems, splitOn_items hcomma,
    readItems_texts]

/-! ## The kernel's list -/

def runItem (r : ℕ × ℕ) : CpuItem :=
  if r.1 = r.2 then .one (.ofNat r.1) else .range (.ofNat r.1) (.ofNat r.2)

theorem text_runItem (r : ℕ × ℕ) : (runItem r).text = printRun r := by
  unfold runItem printRun
  split
  · rfl
  · rfl

theorem ids_runItem (r : ℕ × ℕ) : (runItem r).ids = Finset.Icc r.1 r.2 := by
  unfold runItem
  split
  · rename_i h
    rw [← h, Finset.Icc_self, CpuItem.ids, Numeral.value_ofNat]
  · rw [CpuItem.ids, Numeral.value_ofNat, Numeral.value_ofNat]

theorem idsOf_runs (s : Finset ℕ) : idsOf ((runs (ascending s)).map runItem) = s := by
  ext x
  rw [mem_idsOf, ← mem_ascending, mem_iff_mem_runs]
  simp only [List.mem_map, exists_exists_and_eq_and, ids_runItem, Finset.mem_Icc]

/-- `_read_cpu_file` gives back the set the kernel printed. -/
theorem parseCpuList_printCpuList (s : Finset ℕ) : parseCpuList (printCpuList s) = some s := by
  have hprint : printCpuList s = printItems ((runs (ascending s)).map runItem) ++ ['\n'] := by
    rw [printCpuList, printItems, List.map_map]
    congr 3
    funext r
    exact (text_runItem r).symm
  have hnewline : ∀ c ∈ ['\n'], Python.isSpace c = true := by simp [Python.isSpace]
  rw [hprint, parseCpuList_printItems _ hnewline, idsOf_runs]

/-- What the kernel prints for a set is read as that set, and what any items are printed as is read
as the ids of all of them, with or without a newline. -/
theorem parseCpuList_inverts (s : Finset ℕ) (items : List CpuItem) :
    parseCpuList (printCpuList s) = some s ∧
      parseCpuList (printItems items) = some (idsOf items) ∧
      parseCpuList (printItems items ++ ['\n']) = some (idsOf items) := by
  have hnone := @parseCpuList_printItems items [] (by simp)
  rw [List.append_nil] at hnone
  exact ⟨parseCpuList_printCpuList s, hnone,
    parseCpuList_printItems items (by simp [Python.isSpace])⟩

end UstBench.Driver
