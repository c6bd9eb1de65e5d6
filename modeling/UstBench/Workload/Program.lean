import UstBench.Reasoning.Loop
import UstBench.Runner.Timestamps

/-!
# `basic-benchmark.c` and `sha2-benchmark.c`

Both programs add `main`, read a number of iterations from the command line, and add `start` and
`end` around a loop of as many turns.  An `int` has 32 bits and a `long` has 64.  A signed addition
that overflows is recorded, and goes on with the wrapped value.
-/

namespace UstBench.Workload

open Reasoning Reasoning.Prog

/-! ## Numbers -/

def intMax : ℤ := 2 ^ 31 - 1

/-- What is left of an integer in an `int`. -/
def toInt (x : ℤ) : ℤ := (x + 2 ^ 31) % 2 ^ 32 - 2 ^ 31

/-- `isspace` -/
def isSpace (c : Char) : Bool := c = ' ' ∨ 9 ≤ c.toNat ∧ c.toNat ≤ 13

/-- A value out of the range of `long` becomes the nearest one in it. -/
def toLong (x : ℤ) : ℤ := max (-2 ^ 63) (min (2 ^ 63 - 1) x)

def leadingDigits (s : List Char) : ℕ := Nat.ofDigitChars 10 (s.takeWhile Char.isDigit) 0

/-- `strtol(s, NULL, 10)` -/
def strtol (s : List Char) : ℤ :=
  match s.dropWhile isSpace with
  | '-' :: s => toLong (-leadingDigits s)
  | '+' :: s => toLong (leadingDigits s)
  | s => toLong (leadingDigits s)

/-! ## The loop of `basic-benchmark` -/

/-- The additions of two values of type `int`. -/
inductive Site where
  | counter
  | sum
  | tracepoint
deriving DecidableEq

/-- The sum, and the overflows so far with this one added if it is one. -/
def addInt (site : Site) (a b : ℤ) (overflows : List Site) : ℤ × List Site :=
  (toInt (a + b), if toInt (a + b) = a + b then overflows else overflows ++ [site])

/-- What the loop is compiled with: no tracepoint, the generated ones, or that of `sum.tp`, whose
field is computed if tracing is enabled. -/
inductive Build where
  | plain
  | generated
  | sum (enabled : Bool)
deriving DecidableEq

structure BasicLocals where
  x : ℤ
  y : ℤ
  i : ℤ
  sideEffect : ℤ × ℤ
  overflows : List Site

def basicStart : BasicLocals := ⟨0, 1, 0, (0, 0), []⟩

/-- The generated tracepoints have constants for their arguments. -/
def tracepoint (build : Build) (x y : ℤ) (overflows : List Site) : List Site :=
  match build with
  | .sum true => (addInt .tracepoint x y overflows).2
  | _ => overflows

/-- The body of the loop, and `i++`. -/
def basicTurn (build : Build) (s : BasicLocals) : BasicLocals :=
  -- the tracepoint comes behind the assignments, so it adds the two new values
  let z := addInt .sum s.x s.y s.overflows
  let x := s.y
  let y := z.1
  let overflows := tracepoint build x y z.2
  let i := addInt .counter s.i 1 overflows
  ⟨x, y, i.1, (x, y), i.2⟩

/-! ## The loop of `sha2-benchmark` -/

/-- The functions of `sha2.c` before and in the loop. -/
structure Sha2 where
  Context : Type
  starts : Context
  update : Context → List UInt8 → Context

def bufferSize : ℕ := 1024

structure Sha2Locals (lib : Sha2) where
  ctx : lib.Context
  inputBuffer : List UInt8
  i : ℕ

def sha2Start (lib : Sha2) : Sha2Locals lib := ⟨lib.starts, List.replicate bufferSize 0, 0⟩

/-- Every byte of `input_buffer` is written. -/
def updateBuffer (len v : ℕ) : List UInt8 := (List.range len).map fun i ↦ UInt8.ofNat (v ^^^ i)

/-- The body of the loop, and `i++` of an `unsigned int`.  The message of the tracepoint is a
constant. -/
def sha2Turn (lib : Sha2) (s : Sha2Locals lib) : Sha2Locals lib :=
  let inputBuffer := updateBuffer bufferSize s.i
  ⟨lib.update s.ctx inputBuffer, inputBuffer, (s.i + 1) % 2 ^ 32⟩

/-! ## The programs -/

inductive Program where
  | basic (build : Build)
  | sha2 (lib : Sha2)

namespace Program

def Locals : Program → Type
  | basic _ => BasicLocals
  | sha2 lib => Sha2Locals lib

def start : (p : Program) → p.Locals
  | basic _ => basicStart
  | sha2 lib => sha2Start lib

def turn : (p : Program) → p.Locals → p.Locals
  | basic build => basicTurn build
  | sha2 lib => sha2Turn lib

def counter : (p : Program) → p.Locals → ℤ
  | basic _ => fun s : BasicLocals ↦ s.i
  | sha2 lib => fun s : Sha2Locals lib ↦ s.i

/-- An `unsigned int` wraps without an overflow. -/
def overflows : (p : Program) → p.Locals → List Site
  | basic _ => fun s : BasicLocals ↦ s.overflows
  | sha2 _ => fun _ ↦ []

/-- The loop: `i < iterations` compares in `long`. -/
def loop (p : Program) (iterations : ℤ) (fuel : ℕ) : Option p.Locals :=
  whileLoop (below p.counter iterations) p.turn fuel p.start

end Program

/-- The answers of the system to the three calls of the module. -/
structure MainSys where
  main : Sys
  start : Sys
  end_ : Sys

/-- How a program exits: its code, and the locals behind the loop if it was there. -/
structure Exit (L : Type) where
  code : ℕ
  left : Option L

/-- What is printed to `stderr`, and the hash in the end, are left out: nothing reads them. -/
def Program.main (p : Program) (fuel : ℕ) (argv : List (List Char)) (sys : MainSys) :
    Call (Exit p.Locals) := do
  if (← sharedEventsAdd sys.main .main) ≠ 0 then
    return ⟨1, none⟩
  else
    match argv with
    | [] => Prog.throw .outOfBounds
    -- without an argument only the start of the process is measured
    | [_] => return ⟨0, none⟩
    | [_, count] =>
      let iterations := strtol count
      if iterations ≤ 0 then
        return ⟨1, none⟩
      else if (← sharedEventsAdd sys.start .start) ≠ 0 then
        return ⟨1, none⟩
      else
        match p.loop iterations fuel with
        | none => Prog.throw .outOfFuel
        | some s =>
          if (← sharedEventsAdd sys.end_ .end_) ≠ 0 then
            return ⟨1, some s⟩
          else
            return ⟨0, some s⟩
    | _ => return ⟨1, none⟩

/-! ## Small facts -/

theorem toInt_le (x : ℤ) : toInt x ≤ intMax := by
  unfold toInt intMax
  omega

theorem toInt_of_fits {x : ℤ} (h0 : -2 ^ 31 ≤ x) (h1 : x ≤ intMax) : toInt x = x := by
  unfold intMax at h1
  unfold toInt
  omega

theorem toInt_ne_of_lt {x : ℤ} (h : intMax < x) : toInt x ≠ x :=
  ne_of_lt ((toInt_le x).trans_lt h)

theorem mem_addInt {site site' : Site} {a b : ℤ} {overflows : List Site} :
    site' ∈ (addInt site a b overflows).2 ↔
      site' ∈ overflows ∨ site' = site ∧ toInt (a + b) ≠ a + b := by
  show site' ∈ (if toInt (a + b) = a + b then overflows else overflows ++ [site]) ↔ _
  by_cases h : toInt (a + b) = a + b
  · simp [h]
  · simp [h]

theorem mem_tracepoint {build : Build} {site : Site} {x y : ℤ} {overflows : List Site} :
    site ∈ tracepoint build x y overflows ↔ site ∈ overflows ∨
      build = .sum true ∧ site = .tracepoint ∧ toInt (x + y) ≠ x + y := by
  unfold tracepoint
  split
  · rw [mem_addInt]
    simp
  · rename_i hne
    have hbuild : build ≠ .sum true := fun h ↦ hne h
    simp [hbuild]

/-- What one turn adds to the overflows. -/
theorem mem_overflows_basicTurn {build : Build} {s : BasicLocals} {site : Site} :
    site ∈ (basicTurn build s).overflows ↔ site ∈ s.overflows ∨
      site = .sum ∧ toInt (s.x + s.y) ≠ s.x + s.y ∨
      build = .sum true ∧ site = .tracepoint ∧
        toInt (s.y + toInt (s.x + s.y)) ≠ s.y + toInt (s.x + s.y) ∨
      site = .counter ∧ toInt (s.i + 1) ≠ s.i + 1 := by
  show site ∈ (addInt .counter s.i 1 (tracepoint build s.y (addInt .sum s.x s.y s.overflows).1
    (addInt .sum s.x s.y s.overflows).2)).2 ↔ _
  rw [mem_addInt, mem_tracepoint, mem_addInt]
  show ((site ∈ s.overflows ∨ _) ∨ build = .sum true ∧ site = .tracepoint ∧
    toInt (s.y + toInt (s.x + s.y)) ≠ s.y + toInt (s.x + s.y)) ∨ _ ↔ _
  rw [or_assoc, or_assoc]

end UstBench.Workload
