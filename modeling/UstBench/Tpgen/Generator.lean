import Mathlib.Data.Finset.Sort
import Mathlib.Data.String.Basic
import UstBench.Reasoning.Prog
import UstBench.Reasoning.PythonText

/-!
# `tpgen.py`

The script draws random tracepoints.  Its globals are the state of a program; the outcomes of the
module `random` come from a sequence of numbers, and every outcome comes from some sequence.
-/

namespace UstBench.Tpgen

open Reasoning Reasoning.Prog

/-- The numbers that outcomes are drawn by, and how Python prints the floats of `random.random`. -/
structure Random where
  draw : ℕ → ℕ
  float : ℕ → String
  float_comma : ∀ n, ',' ∉ (float n).toList

/-- The second element of an entry of `c_vars`. -/
inductive CValue where
  | int (z : ℤ)
  | float (text : String)
  | str (s : String)
  deriving DecidableEq

/-- `str(value)` -/
def CValue.text : CValue → String
  | .int z => toString z
  | .float text => text
  | .str s => s

/-- `c_vars`: type and value by name. -/
abbrev CVars := List (String × String × CValue)

/-- The globals, how many draws there were, and the files written. -/
structure Globals where
  drawn : ℕ
  vars : Finset String
  fields : List String
  cVars : CVars
  cTp : List String
  files : List (String × String)

def Globals.start : Globals := ⟨0, ∅, [], [], [], []⟩

inductive Exc where
  | keyError
  | valueError
  | systemExit (code : ℕ)
  deriving DecidableEq

section Model

variable (rnd : Random)

/-! ## `random` -/

def draw : Prog Globals Exc ℕ :=
  state fun g ↦ (rnd.draw g.drawn, { g with drawn := g.drawn + 1 })

/-- `random.randint(a, b)` -/
def randintBetween (a b : ℤ) : Prog Globals Exc ℤ := do
  let n ← draw rnd
  pure (a + n % (b - a + 1))

/-- `random.choice(l)` -/
def choice {α : Type} (l : List α) (h : 0 < l.length) : Prog Globals Exc α := do
  let n ← draw rnd
  pure (l.get ⟨n % l.length, Nat.mod_lt n h⟩)

/-- The text of `random.random()`. -/
def randomFloat : Prog Globals Exc String := do
  let n ← draw rnd
  pure (rnd.float n)

/-! ## The fields -/

def addField (type : String) (args : List String) : Prog Globals Exc Unit :=
  modify fun g ↦ { g with fields := g.fields ++ [type ++ "(" ++ ", ".intercalate args ++ ")"] }

/-- `vars.update(names)`, or `vars.add` of each. -/
def addVars (names : List String) : Prog Globals Exc Unit :=
  modify fun g ↦ { g with vars := g.vars ∪ names.toFinset }

/-- `c_vars[name]` -/
def cVar (name : String) : Prog Globals Exc (String × CValue) := do
  let g ← get
  ofExcept ((g.cVars.lookup name).elim (.error .keyError) .ok)

def consonants : List Char := "bcdfghjklmnpqrstvwxyz".toList

def vowels : List Char := "aeiouy".toList

/-- The loop of `clever_name`. -/
def syllables : ℕ → String → Prog Globals Exc String
  | 0, name => pure name
  | n + 1, name => do
    let consonant ← choice rnd consonants (by decide)
    let vowel ← choice rnd vowels (by decide)
    syllables n ((name.push consonant).push vowel)

def cleverName : Prog Globals Exc String := do
  let n ← randintBetween rnd 2 5
  syllables rnd n.toNat ""

def numericVars (cType : String) (n : ℕ) : List String :=
  (List.range n).map fun i ↦ "tp_" ++ cType ++ "_" ++ toString (i + 1)

def addCtfNumeric (ctfType cType : String) : Prog Globals Exc Unit := do
  let n ← randintBetween rnd 1 2
  let v := numericVars cType n.toNat
  addVars v
  let name ← cleverName rnd
  addField ctfType [cType, name, " + ".intercalate v]

def addCtfIntegerInt : Prog Globals Exc Unit := addCtfNumeric rnd "ctf_integer" "int"

def addCtfIntegerLong : Prog Globals Exc Unit := addCtfNumeric rnd "ctf_integer" "long"

def addCtfFloatFloat : Prog Globals Exc Unit := addCtfNumeric rnd "ctf_float" "float"

def addCtfFloatDouble : Prog Globals Exc Unit := addCtfNumeric rnd "ctf_float" "double"

def addCtfString : Prog Globals Exc Unit := do
  addVars ["tp_charptr_1"]
  let name ← cleverName rnd
  addField "ctf_string" [name, "tp_charptr_1"]

/-- The two functions for sequences. -/
def addCtfSequence (ctfType : String) : Prog Globals Exc Unit := do
  addVars ["tp_charptr_1", "tp_charptr_1_size"]
  let name ← cleverName rnd
  addField ctfType ["char", name, "tp_charptr_1", "size_t", "tp_charptr_1_size"]

def addCtfSequenceChar : Prog Globals Exc Unit := addCtfSequence rnd "ctf_sequence"

def addCtfSequenceTextChar : Prog Globals Exc Unit := addCtfSequence rnd "ctf_sequence_text"

/-- The two functions for arrays. -/
def addCtfArray (ctfType : String) : Prog Globals Exc Unit := do
  addVars ["tp_charptr_1"]
  let name ← cleverName rnd
  -- the length goes in as a number, so the variable of that name is not among the arguments
  let size ← cVar "tp_charptr_1_size"
  addField ctfType ["char", name, "tp_charptr_1", size.2.text]

def addCtfArrayChar : Prog Globals Exc Unit := addCtfArray rnd "ctf_array"

def addCtfArrayTextChar : Prog Globals Exc Unit := addCtfArray rnd "ctf_array_text"

/-- `fun` -/
def generators : List (Prog Globals Exc Unit) :=
  [addCtfIntegerInt rnd, addCtfIntegerLong rnd, addCtfFloatFloat rnd, addCtfFloatDouble rnd,
   addCtfString rnd, addCtfSequenceChar rnd, addCtfSequenceTextChar rnd, addCtfArrayChar rnd,
   addCtfArrayTextChar rnd]

/-! ## The tracepoints -/

def genTp (provider name : String) (args fields : List String) : String :=
  "TRACEPOINT_EVENT(\n\t" ++ provider ++ ",\n\t" ++ name ++ ",\n\tTP_ARGS(" ++
    ", ".intercalate args ++ "),\n\tTP_FIELDS(\n\t\t" ++ "\n\t\t".intercalate fields ++ "\n\t)\n)"

/-- The script's own `randint`. -/
def randint : Prog Globals Exc ℤ := randintBetween rnd (-2 ^ 31 + 1) (2 ^ 31 - 1)

def asciiLetters : List Char :=
  "abcdefghijklmnopqrstuvwxyzABCDEFGHIJKLMNOPQRSTUVWXYZ".toList

def letters : ℕ → Prog Globals Exc (List Char)
  | 0 => pure []
  | n + 1 => do
    let c ← choice rnd asciiLetters (by decide)
    let rest ← letters n
    pure (c :: rest)

def randomString : Prog Globals Exc String := do
  let n ← randintBetween rnd 2 128
  let cs ← letters rnd n.toNat
  pure (String.ofList cs)

/-- The table of a tracepoint. -/
def makeCVars : Prog Globals Exc Unit := do
  let randomString ← randomString rnd
  let int1 ← randint rnd
  let int2 ← randint rnd
  let long1 ← randint rnd
  let long2 ← randint rnd
  let float1 ← randomFloat rnd
  let float2 ← randomFloat rnd
  let double1 ← randomFloat rnd
  let double2 ← randomFloat rnd
  modify fun g ↦ { g with cVars :=
    [("tp_int_1", "int", .int int1),
     ("tp_int_2", "int", .int int2),
     ("tp_long_1", "long", .int long1),
     ("tp_long_2", "long", .int long2),
     ("tp_float_1", "float", .float float1),
     ("tp_float_2", "float", .float float2),
     ("tp_double_1", "double", .float double1),
     ("tp_double_2", "double", .float double2),
     ("tp_charptr_1", "char *", .str ("\"" ++ randomString ++ "\"")),
     ("tp_charptr_1_size", "size_t", .int randomString.length)] }

/-- The loop that calls the generators. -/
def addFields : ℕ → Prog Globals Exc Unit
  | 0 => pure ()
  | n + 1 => do
    let generator ← choice rnd (generators rnd) (Nat.zero_lt_succ 8)
    generator
    addFields n

/-- A comprehension over the sorted variables. -/
def forVars (text : String → String × CValue → String) :
    List String → Prog Globals Exc (List String)
  | [] => pure []
  | name :: names => do
    let entry ← cVar name
    let rest ← forVars text names
    pure (text name entry :: rest)

def writeFile (name content : String) : Prog Globals Exc Unit :=
  modify fun g ↦ { g with files := g.files ++ [(name, content)] }

def providerName (i : ℕ) : String := "benchmark_tracepoint_" ++ toString i

def tpName (i : ℕ) : String := "random_tp_" ++ toString i

/-- `sorted_vars` -/
def sortedVars (vars : Finset String) : List String := vars.sort (· ≤ ·)

/-- One turn of the main loop. -/
def makeTp (i : ℕ) : Prog Globals Exc Unit := do
  modify fun g ↦ { g with vars := ∅, fields := [] }
  makeCVars rnd
  let n ← randintBetween rnd 1 10
  addFields rnd n.toNat
  -- the values of the call and the parameters of the tracepoint come from one sorted list
  let g ← get
  let cArgs ← forVars (fun _ entry ↦ entry.2.text) (sortedVars g.vars)
  modify fun g ↦ { g with cTp := g.cTp ++ ["tracepoint(" ++ providerName i ++ ", " ++ tpName i ++
    ", " ++ ", ".intercalate cArgs ++ ");"] }
  let tpArgs ← forVars (fun name entry ↦ entry.1 ++ ", " ++ name) (sortedVars g.vars)
  let g ← get
  writeFile (tpName i ++ ".tp") (genTp (providerName i) (tpName i) tpArgs g.fields)

/-- The content of `generated_tp.h`. -/
def header (numTp : ℕ) (cTp : List String) : String :=
  "\n".intercalate ((List.range' 1 numTp).map fun i ↦
    "#include \"random_tp_" ++ toString i ++ ".tp.h\"") ++ "\n\n" ++
  "#define GENERATED_TP\\\n\t" ++ "\\\n\t".intercalate cTp ++ "\n"

/-- The script behind its arguments. -/
def generate (numTp : ℕ) : Prog Globals Exc Unit := do
  forEach (makeTp rnd) (List.range' 1 numTp)
  let g ← get
  writeFile "generated_tp.h" (header numTp g.cTp)

/-- A negative number makes an empty range. -/
def script (argv : List String) : Prog Globals Exc Unit :=
  match argv[1]? with
  | none => throw (.systemExit 1)
  | some arg => do
    let numTp ← ofExcept ((Python.int arg.toList).elim (.error .valueError) .ok)
    generate rnd numTp.toNat

end Model

end UstBench.Tpgen
