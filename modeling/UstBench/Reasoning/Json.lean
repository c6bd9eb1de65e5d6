import UstBench.Reasoning.Decimal
import Mathlib.Algebra.Field.Rat
import Mathlib.Tactic.Common

/-!
# JSON texts

A reader for JSON (RFC 8259) over lists of characters.  Numbers are read exactly, as rationals, and
the members of an object are kept in order, repeated names included.  A surrogate that is no half of
a pair is refused, since no character stands for it.
-/

namespace Reasoning

inductive Json where
  | null
  | bool (b : Bool)
  | num (q : ℚ)
  | str (s : List Char)
  | arr (elements : List Json)
  | obj (members : List (List Char × Json))

namespace Json

def isWs (c : Char) : Bool := c = ' ' || c = '\t' || c = '\n' || c = '\r'

def skipWs (s : List Char) : List Char := s.dropWhile isWs

/-! ## Strings -/

def hexDigit (c : Char) : Option ℕ :=
  if '0' ≤ c ∧ c ≤ '9' then some (c.toNat - 48)
  else if 'a' ≤ c ∧ c ≤ 'f' then some (c.toNat - 87)
  else if 'A' ≤ c ∧ c ≤ 'F' then some (c.toNat - 55)
  else none

def hex4 : List Char → Option (ℕ × List Char)
  | a :: b :: c :: d :: s => do
    let a ← hexDigit a
    let b ← hexDigit b
    let c ← hexDigit c
    let d ← hexDigit d
    return (((a * 16 + b) * 16 + c) * 16 + d, s)
  | _ => none

/-- The character written by the escape that stands behind a backslash. -/
def escape : List Char → Option (Char × List Char)
  | '"' :: s => some ('"', s)
  | '\\' :: s => some ('\\', s)
  | '/' :: s => some ('/', s)
  | 'b' :: s => some ('\x08', s)
  | 'f' :: s => some ('\x0c', s)
  | 'n' :: s => some ('\n', s)
  | 'r' :: s => some ('\r', s)
  | 't' :: s => some ('\t', s)
  | 'u' :: s => do
    let (hi, s) ← hex4 s
    if 0xD800 ≤ hi ∧ hi < 0xDC00 then
      match s with
      | '\\' :: 'u' :: s => do
        let (lo, s) ← hex4 s
        if 0xDC00 ≤ lo ∧ lo < 0xE000 then
          return (Char.ofNat (0x10000 + (hi - 0xD800) * 0x400 + (lo - 0xDC00)), s)
        else
          none
      | _ => none
    else if 0xDC00 ≤ hi ∧ hi < 0xE000 then
      none
    else
      return (Char.ofNat hi, s)
  | _ => none

/-- The rest of a string behind its opening quote. -/
def parseChars : ℕ → List Char → Option (List Char × List Char)
  | 0, _ => none
  | _ + 1, [] => none
  | fuel + 1, c :: s =>
    if c = '"' then
      some ([], s)
    else if c = '\\' then do
      let (e, s) ← escape s
      let (cs, s) ← parseChars fuel s
      return (e :: cs, s)
    else if c.toNat < 0x20 then
      none
    else do
      let (cs, s) ← parseChars fuel s
      return (c :: cs, s)

/-! ## Numbers -/

/-- Digits without a superfluous zero in front. -/
def intPart (s : List Char) : Option (ℕ × List Char) :=
  let ds := s.takeWhile Char.isDigit
  if ds = [] ∨ (1 < ds.length ∧ ds.head? = some '0') then
    none
  else
    some (Nat.ofDigitChars 10 ds 0, s.dropWhile Char.isDigit)

def fracPart (s : List Char) : Option (ℚ × List Char) :=
  match s with
  | '.' :: s =>
    let ds := s.takeWhile Char.isDigit
    if ds = [] then
      none
    else
      some (Nat.ofDigitChars 10 ds 0 / 10 ^ ds.length, s.dropWhile Char.isDigit)
  | s => some (0, s)

def expPart (s : List Char) : Option (ℤ × List Char) :=
  match s with
  | c :: s' =>
    if c = 'e' ∨ c = 'E' then
      let (sign, t) : ℤ × List Char := match s' with
        | '+' :: t => (1, t)
        | '-' :: t => (-1, t)
        | t => (1, t)
      let ds := t.takeWhile Char.isDigit
      if ds = [] then
        none
      else
        some (sign * Nat.ofDigitChars 10 ds 0, t.dropWhile Char.isDigit)
    else
      some (0, s)
  | [] => some (0, [])

def parseNumber (s : List Char) : Option (ℚ × List Char) := do
  let (sign, s) : ℚ × List Char := match s with
    | '-' :: t => (-1, t)
    | t => (1, t)
  let (n, s) ← intPart s
  let (f, s) ← fracPart s
  let (e, s) ← expPart s
  return (sign * (n + f) * (10 : ℚ) ^ e, s)

/-! ## Values -/

mutual

def parseValue : ℕ → List Char → Option (Json × List Char)
  | 0, _ => none
  | fuel + 1, s =>
    match s with
    | '{' :: s =>
      match skipWs s with
      | '}' :: s => some (.obj [], s)
      | s => do
        let (ms, s) ← parseMembers fuel s
        return (.obj ms, s)
    | '[' :: s =>
      match skipWs s with
      | ']' :: s => some (.arr [], s)
      | s => do
        let (vs, s) ← parseElements fuel s
        return (.arr vs, s)
    | '"' :: s => do
      let (cs, s) ← parseChars fuel s
      return (.str cs, s)
    | 't' :: 'r' :: 'u' :: 'e' :: s => some (.bool true, s)
    | 'f' :: 'a' :: 'l' :: 's' :: 'e' :: s => some (.bool false, s)
    | 'n' :: 'u' :: 'l' :: 'l' :: s => some (.null, s)
    | s => do
      let (q, s) ← parseNumber s
      return (.num q, s)

/-- One member or more, and the closing brace. -/
def parseMembers : ℕ → List Char → Option (List (List Char × Json) × List Char)
  | 0, _ => none
  | fuel + 1, s =>
    match s with
    | '"' :: s => do
      let (key, s) ← parseChars fuel s
      match skipWs s with
      | ':' :: s => do
        let (v, s) ← parseValue fuel (skipWs s)
        match skipWs s with
        | '}' :: s => return ([(key, v)], s)
        | ',' :: s => do
          let (ms, s) ← parseMembers fuel (skipWs s)
          return ((key, v) :: ms, s)
        | _ => none
      | _ => none
    | _ => none

/-- One element or more, and the closing bracket. -/
def parseElements : ℕ → List Char → Option (List Json × List Char)
  | 0, _ => none
  | fuel + 1, s => do
    let (v, s) ← parseValue fuel s
    match skipWs s with
    | ']' :: s => return ([v], s)
    | ',' :: s => do
      let (vs, s) ← parseElements fuel (skipWs s)
      return (v :: vs, s)
    | _ => none

end

/-- The value of a whole text.  No two turns pass without consuming a character, so the fuel is never
the limit. -/
def parse (s : List Char) : Option Json :=
  match parseValue (2 * s.length + 2) (skipWs s) with
  | some (v, s) => if skipWs s = [] then some v else none
  | none => none

/-! ## Reading what was written -/

theorem skipWs_cons_of_ws {c : Char} (h : isWs c) (s : List Char) :
    skipWs (c :: s) = skipWs s := by
  unfold skipWs
  rw [List.dropWhile_cons_of_pos h]

theorem skipWs_cons_of_not_ws {c : Char} (h : ¬isWs c) (s : List Char) :
    skipWs (c :: s) = c :: s := by
  unfold skipWs
  rw [List.dropWhile_cons_of_neg h]

/-- A character that stands for itself in a string. -/
def Plain (c : Char) : Prop := c ≠ '"' ∧ c ≠ '\\' ∧ 0x20 ≤ c.toNat

theorem parseChars_plain {cs : List Char} {fuel : ℕ} (rest : List Char) (h : ∀ c ∈ cs, Plain c)
    (hf : cs.length < fuel) : parseChars fuel (cs ++ '"' :: rest) = some (cs, rest) := by
  induction cs generalizing fuel with
  | nil =>
    cases fuel with
    | zero => simp at hf
    | succ fuel => simp [parseChars]
  | cons c cs ih =>
    cases fuel with
    | zero => simp at hf
    | succ fuel =>
      have hc := h c List.mem_cons_self
      have hlt : ¬c.toNat < 0x20 := Nat.not_lt.mpr hc.2.2
      have hrec := ih (fun d hd ↦ h d (List.mem_cons_of_mem _ hd)) (Nat.lt_of_succ_lt_succ hf)
      rw [List.cons_append, parseChars, if_neg hc.1, if_neg hc.2.1, if_neg hlt, hrec]
      rfl

section Digits

variable {ds rest : List Char}

-- a run of digits ends where something else begins
theorem takeWhile_digits (hd : ∀ c ∈ ds, c.isDigit) (hr : ∀ c ∈ rest.head?, ¬c.isDigit) :
    (ds ++ rest).takeWhile Char.isDigit = ds := by
  rw [List.takeWhile_append_of_pos hd]
  cases rest with
  | nil => simp
  | cons c rest => rw [List.takeWhile_cons_of_neg (hr c rfl), List.append_nil]

theorem dropWhile_digits (hd : ∀ c ∈ ds, c.isDigit) (hr : ∀ c ∈ rest.head?, ¬c.isDigit) :
    (ds ++ rest).dropWhile Char.isDigit = rest := by
  rw [List.dropWhile_append_of_pos hd]
  cases rest with
  | nil => rfl
  | cons c rest => rw [List.dropWhile_cons_of_neg (hr c rfl)]

theorem intPart_digits (hne : ds ≠ []) (hd : ∀ c ∈ ds, c.isDigit)
    (hlead : ds.length = 1 ∨ ds.head? ≠ some '0') (hr : ∀ c ∈ rest.head?, ¬c.isDigit) :
    intPart (ds ++ rest) = some (Nat.ofDigitChars 10 ds 0, rest) := by
  unfold intPart
  rw [takeWhile_digits hd hr, dropWhile_digits hd hr]
  apply if_neg
  rintro (h | ⟨h₁, h₂⟩)
  · exact hne h
  · rcases hlead with h | h
    · omega
    · exact h h₂

theorem fracPart_digits (hne : ds ≠ []) (hd : ∀ c ∈ ds, c.isDigit)
    (hr : ∀ c ∈ rest.head?, ¬c.isDigit) :
    fracPart ('.' :: (ds ++ rest)) =
      some ((Nat.ofDigitChars 10 ds 0 : ℚ) / 10 ^ ds.length, rest) := by
  unfold fracPart
  simp only [takeWhile_digits hd hr, dropWhile_digits hd hr, if_neg hne]

theorem expPart_none (hr : ∀ c ∈ rest.head?, c ≠ 'e' ∧ c ≠ 'E') :
    expPart rest = some (0, rest) := by
  cases rest with
  | nil => rfl
  | cons c rest =>
    have hc := hr c rfl
    unfold expPart
    dsimp only
    rw [if_neg (by simp [hc.1, hc.2])]

/-- The value of a decimal fraction. -/
theorem parseNumber_decimal {fs : List Char} (hne : ds ≠ []) (hd : ∀ c ∈ ds, c.isDigit)
    (hlead : ds.length = 1 ∨ ds.head? ≠ some '0') (hfne : fs ≠ []) (hfd : ∀ c ∈ fs, c.isDigit)
    (hr : ∀ c ∈ rest.head?, ¬c.isDigit ∧ c ≠ 'e' ∧ c ≠ 'E') :
    parseNumber (ds ++ '.' :: (fs ++ rest)) =
      some ((Nat.ofDigitChars 10 ds 0 : ℚ) + Nat.ofDigitChars 10 fs 0 / 10 ^ fs.length, rest) := by
  have hint := @intPart_digits ds ('.' :: (fs ++ rest)) hne hd hlead
    (by intro c hc; cases hc; decide)
  have hfrac := fracPart_digits hfne hfd fun c hc ↦ (hr c hc).1
  have hexp := expPart_none fun c hc ↦ (hr c hc).2
  have hminus : ∀ t, ds ++ '.' :: (fs ++ rest) ≠ '-' :: t := by
    intro t ht
    cases ds with
    | nil => exact hne rfl
    | cons d ds =>
      have hdd := hd d List.mem_cons_self
      rw [List.cons_append, List.cons.injEq] at ht
      rw [ht.1] at hdd
      exact absurd hdd (by decide)
  unfold parseNumber
  split
  rename_i sign t heq
  split at heq
  · rename_i t' h
    exact absurd h (hminus t')
  · cases heq
    simp [hint, hfrac, hexp]

end Digits

section Rules

variable {fuel : ℕ} {s s₁ s₂ s₃ s₄ s₅ rest : List Char} {key : List Char} {v : Json}

attribute [local simp] parseValue parseMembers parseElements

theorem parseValue_digit {d : Char} {q : ℚ} (hd : d.isDigit)
    (h : parseNumber (d :: s) = some (q, rest)) :
    parseValue (fuel + 1) (d :: s) = some (.num q, rest) := by
  rw [parseValue]
  · rw [h]
    rfl
  all_goals
    intro t ht
    cases ht
    exact absurd hd (by decide)

theorem parseValue_emptyObj (h : skipWs s = '}' :: rest) :
    parseValue (fuel + 1) ('{' :: s) = some (.obj [], rest) := by
  simp [h]

theorem parseValue_obj {ms : List (List Char × Json)} (h : skipWs s = '"' :: s₁)
    (hm : parseMembers fuel ('"' :: s₁) = some (ms, rest)) :
    parseValue (fuel + 1) ('{' :: s) = some (.obj ms, rest) := by
  simp [h, hm]

theorem parseMembers_last (hk : parseChars fuel s = some (key, s₁))
    (hcolon : skipWs s₁ = ':' :: s₂) (hv : parseValue fuel (skipWs s₂) = some (v, s₃))
    (hend : skipWs s₃ = '}' :: rest) :
    parseMembers (fuel + 1) ('"' :: s) = some ([(key, v)], rest) := by
  simp [hk, hcolon, hv, hend]

theorem parseMembers_cons {ms : List (List Char × Json)} (hk : parseChars fuel s = some (key, s₁))
    (hcolon : skipWs s₁ = ':' :: s₂) (hv : parseValue fuel (skipWs s₂) = some (v, s₃))
    (hcomma : skipWs s₃ = ',' :: s₄) (hnext : skipWs s₄ = s₅)
    (hm : parseMembers fuel s₅ = some (ms, rest)) :
    parseMembers (fuel + 1) ('"' :: s) = some ((key, v) :: ms, rest) := by
  simp [hk, hcolon, hv, hcomma, hnext, hm]

theorem parseValue_arr {vs : List Json} (h : skipWs s = '{' :: s₁)
    (hv : parseElements fuel ('{' :: s₁) = some (vs, rest)) :
    parseValue (fuel + 1) ('[' :: s) = some (.arr vs, rest) := by
  simp [h, hv]

theorem parseElements_last (hv : parseValue fuel s = some (v, s₁)) (hend : skipWs s₁ = ']' :: rest) :
    parseElements (fuel + 1) s = some ([v], rest) := by
  simp [hv, hend]

theorem parseElements_cons {vs : List Json} (hv : parseValue fuel s = some (v, s₁))
    (hcomma : skipWs s₁ = ',' :: s₂) (hnext : skipWs s₂ = s₃)
    (hvs : parseElements fuel s₃ = some (vs, rest)) :
    parseElements (fuel + 1) s = some (v :: vs, rest) := by
  simp [hv, hcomma, hnext, hvs]

end Rules

end Json

end Reasoning
