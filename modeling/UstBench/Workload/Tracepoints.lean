import UstBench.Tpgen.Expansion
import UstBench.Workload.Process

/-!
# The tracepoints of the benchmarks

The Makefile builds five programs of the two sources.  Those built with UST call tracepoints in each
turn of their loop: the one of `sum.tp`, the one of `message.tp`, or what `GENERATED_TP` expands to.
-/

namespace UstBench.Workload

open Reasoning Reasoning.Prog Reasoning.CText

/-! ## Calls -/

/-- An argument: a value of type `int`, or the text of a constant. -/
inductive Arg where
  | int (z : ℤ)
  | text (s : List Char)

/-- A call of `tracepoint`. -/
structure Fired where
  provider : List Char
  name : List Char
  args : List Arg

def Fired.id (call : Fired) : List Char × List Char := (call.provider, call.name)

/-- A call that is read as one of a tracepoint. -/
def tracepointCall : List Char × List (List Char) → Option Fired
  | (function, provider :: name :: args) =>
    if function = "tracepoint".toList then some ⟨provider, name, args.map .text⟩ else none
  | _ => none

/-- What stands in the loop for `GENERATED_TP`, if it expands to calls of tracepoints. -/
def generatedTp (header : List Char) : Option (List Fired) :=
  ((definitions header).lookup "GENERATED_TP".toList).bind fun replacement ↦
    (statements replacement).mapM fun s ↦ (readCall s).bind tracepointCall

/-! ## The programs -/

/-- The programs that are run by the runner. -/
inductive Binary where
  | basicBenchmark
  | basicBenchmarkUst
  | basicBenchmarkGenTp
  | sha2Benchmark
  | sha2BenchmarkUst

namespace Binary

def target : Binary → String
  | basicBenchmark => "basic-benchmark"
  | basicBenchmarkUst => "basic-benchmark-ust"
  | basicBenchmarkGenTp => "basic-benchmark-gen-tp"
  | sha2Benchmark => "sha2-benchmark"
  | sha2BenchmarkUst => "sha2-benchmark-ust"

section Build

variable (generated : List Fired) (lib : Sha2) (enabled : Bool)

def program : Binary → Program
  | basicBenchmark => .basic .plain
  | basicBenchmarkUst => .basic (.sum enabled)
  | basicBenchmarkGenTp => .basic .generated
  | sha2Benchmark => .sha2 lib
  | sha2BenchmarkUst => .sha2 lib

/-- The calls of the turn that starts with the given locals. -/
def fires : (b : Binary) → (b.program lib enabled).Locals → List Fired
  | basicBenchmark => fun _ ↦ []
  | basicBenchmarkUst => fun s : BasicLocals ↦
    -- the two variables have their new values
    let s := basicTurn (.sum enabled) s
    [⟨"benchmark_tracepoint".toList, "sum".toList, [.int s.x, .int s.y]⟩]
  | basicBenchmarkGenTp => fun _ ↦ generated
  | sha2Benchmark => fun _ ↦ []
  | sha2BenchmarkUst => fun _ ↦
    [⟨"benchmark_tracepoint".toList, "message".toList, [.text "\"Hello\"".toList]⟩]

/-- The loop, with the calls it makes. -/
def loop (b : Binary) (iterations : ℤ) (fuel : ℕ) :
    Option ((b.program lib enabled).Locals × List Fired) :=
  let p := b.program lib enabled
  whileLoop (fun s ↦ below p.counter iterations s.1)
    (emitting p.turn (b.fires generated lib enabled)) fuel (p.start, [])

end Build

/-- The tracepoints that every turn calls, in their order. -/
def tracepoints (generated : List Fired) : Binary → List (List Char × List Char)
  | basicBenchmark => []
  | basicBenchmarkUst => [("benchmark_tracepoint".toList, "sum".toList)]
  | basicBenchmarkGenTp => generated.map Fired.id
  | sha2Benchmark => []
  | sha2BenchmarkUst => [("benchmark_tracepoint".toList, "message".toList)]

end Binary

/-! ## The end of a process -/

section Main

variable {p : Program} {fuel : ℕ} {argv : List (List Char)} {sys : MainSys} {w w' : World}

/-- A process that has exited with 0 was given no number and has not come to its loop, or was given
one and has left it. -/
theorem Program.main_ended {left : Option p.Locals}
    (h : run (p.main fuel argv sys) w = (.ok ⟨0, left⟩, w')) :
    (∃ name, argv = [name]) ∧ left = none ∨
      ∃ name count t, argv = [name, count] ∧ p.loop (strtol count) fuel = some t ∧
        left = some t := by
  unfold main at h
  obtain ⟨added, w₁, -, h⟩ := run_bind_eq_ok h
  split at h
  · cases h
  · match argv, h with
    | [], h => cases h
    | [name], h =>
      cases h
      exact .inl ⟨⟨name, rfl⟩, rfl⟩
    | _ :: _ :: _ :: _, h => cases h
    | [name, count], h =>
      by_cases hcount : strtol count ≤ 0
      · simp only [if_pos hcount] at h
        cases h
      · simp only [if_neg hcount] at h
        obtain ⟨started, w₂, -, h⟩ := run_bind_eq_ok h
        split at h
        · cases h
        · split at h
          · cases h
          · rename_i s hloop
            obtain ⟨ended, w₃, -, h⟩ := run_bind_eq_ok h
            split at h
            · cases h
            · cases h
              exact .inr ⟨name, count, s, rfl, hloop, rfl⟩

/-- Without a number the process ends behind its first event. -/
theorem Program.main_unlooped {pid : ℤ} {L : List SharedEvent} (hs : sys.Succeeds)
    (hw : Idle pid L w) (hroom : L.length + 3 ≤ maxEventCount) (name : List Char) :
    ∃ w', run (p.main fuel [name] sys) w = (.ok ⟨0, none⟩, w') := by
  obtain ⟨w₁, hr₁, -⟩ := hw.add_room hs.main (by omega) .main
  refine ⟨w₁, ?_⟩
  unfold main
  rw [run_bind_ok hr₁]
  rfl

end Main

/-! ## The number that the driver hands over -/

theorem isSpace_eq_false_of_isDigit {c : Char} (h : c.isDigit) : isSpace c = false := by
  have hc : 48 ≤ c.toNat ∧ c.toNat ≤ 57 := by
    simpa [Char.isDigit, UInt32.le_iff_toNat_le] using h
  have hne : c ≠ ' ' := by
    rintro rfl
    exact absurd h (by decide)
  simp only [isSpace, decide_eq_false_iff_not, hne, false_or]
  omega

theorem strtol_toString {n : ℕ} (hn : n < 2 ^ 63) : strtol (toString n).toList = n := by
  have hdigits : ∀ c ∈ Nat.toDigits 10 n, c.isDigit := fun c hc ↦ Decimal.isDigit_of_mem hc
  have hvalue : leadingDigits (Nat.toDigits 10 n) = n := by
    unfold leadingDigits
    rw [List.takeWhile_eq_self_iff.mpr hdigits, Nat.ofDigitChars_ten_toDigits]
  have hrange : toLong n = n := by
    unfold toLong
    omega
  rw [Decimal.toList_toString]
  cases hc : Nat.toDigits 10 n with
  | nil => exact absurd hc Nat.toDigits_ne_nil
  | cons c cs =>
    have hdigit : c.isDigit := hdigits c (hc ▸ List.mem_cons_self)
    rw [hc] at hvalue
    unfold strtol
    rw [List.dropWhile_cons_of_neg (by rw [isSpace_eq_false_of_isDigit hdigit]; decide)]
    -- the first digit is no sign
    split
    · next heq =>
      cases heq
      exact absurd hdigit (by decide)
    · next heq =>
      cases heq
      exact absurd hdigit (by decide)
    · rw [hvalue, hrange]

/-! ## The calls of a loop -/

namespace Binary

section Loop

variable {generated : List Fired} {lib : Sha2} {enabled : Bool} {b : Binary} {n fuel : ℕ}

/-- Every turn makes one call for each tracepoint of the program. -/
theorem map_id_fires (s : (b.program lib enabled).Locals) :
    (b.fires generated lib enabled s).map Fired.id = b.tracepoints generated := by
  cases b <;> rfl

/-- The calls of the first `n` turns. -/
def callsOf (generated : List Fired) (lib : Sha2) (enabled : Bool) (b : Binary) (n : ℕ) :
    List Fired :=
  let p := b.program lib enabled
  outputs p.turn (b.fires generated lib enabled) n p.start

theorem map_id_callsOf (n : ℕ) : (b.callsOf generated lib enabled n).map Fired.id =
    (List.replicate n (b.tracepoints generated)).flatten :=
  map_outputs map_id_fires n _

/-- A loop that is left has made the calls of as many turns as it was told. -/
theorem loop_eq {t : (b.program lib enabled).Locals}
    (h : (b.program lib enabled).loop n fuel = some t) :
    b.loop generated lib enabled n fuel = some (t, b.callsOf generated lib enabled n) := by
  obtain ⟨-, hfuel, hleaves⟩ := Program.loop_leaves h
  exact hleaves.emitting.whileLoop_eq hfuel

end Loop

/-- The arguments that `do_ust_benchmark` has the program started with. -/
def argv (b : Binary) (nrLoops : Option ℕ) : List (List Char) :=
  b.target.toList :: nrLoops.toList.map fun n ↦ (toString n).toList

section Process

variable (generated : List Fired) (lib : Sha2) (enabled : Bool)

/-- Without a number a process does not come to the loop, and with one it leaves it with its calls
made. -/
def Ended (b : Binary) (nrLoops : Option ℕ) (fuel : ℕ)
    (left : Option (b.program lib enabled).Locals) (calls : List Fired) : Prop :=
  match nrLoops with
  | none => left = none ∧ calls = []
  | some n => ∃ t, left = some t ∧ b.loop generated lib enabled n fuel = some (t, calls)

/-- A process exits with 0 if no call fails, and whenever it does, its loop has made `calls`. -/
structure Makes (b : Binary) (nrLoops : Option ℕ) (calls : List Fired) : Prop where
  ends : ∀ sys w pid L fuel, sys.Succeeds → Idle pid L w → L.length + 3 ≤ maxEventCount →
    nrLoops.getD 0 ≤ fuel →
      ∃ left w', run ((b.program lib enabled).main fuel (b.argv nrLoops) sys) w =
        (.ok ⟨0, left⟩, w')
  calls : ∀ sys w w' fuel left,
    run ((b.program lib enabled).main fuel (b.argv nrLoops) sys) w = (.ok ⟨0, left⟩, w') →
      b.Ended generated lib enabled nrLoops fuel left calls

end Process

/-- The largest count that both counters reach. -/
theorem le_counterMax (p : Program) {n : ℕ} (hn : n < 2 ^ 31) : n ≤ p.counterMax := by
  cases p with
  | basic build => exact show n ≤ 2 ^ 31 - 1 by omega
  | sha2 lib => exact show n ≤ 2 ^ 32 - 1 by omega

theorem makes (b : Binary) (generated : List Fired) (lib : Sha2) (enabled : Bool)
    {nrLoops : Option ℕ} (h : ∀ n ∈ nrLoops, 1 ≤ n ∧ n < 2 ^ 31) :
    b.Makes generated lib enabled nrLoops
      (nrLoops.elim [] (b.callsOf generated lib enabled)) := by
  cases nrLoops with
  | none =>
    constructor
    · intro sys w pid L fuel hs hw hroom _
      exact ⟨none, Program.main_unlooped hs hw hroom _⟩
    · intro sys w w' fuel left hrun
      rcases Program.main_ended hrun with ⟨-, hleft⟩ | ⟨name, count, t, hargv, -⟩
      · exact ⟨hleft, rfl⟩
      · cases hargv
  | some n =>
    obtain ⟨hpos, hlt⟩ := h n rfl
    have hcount : strtol (toString n).toList = n := strtol_toString (by omega)
    constructor
    · intro sys w pid L fuel hs hw hroom hfuel
      obtain ⟨t, ht⟩ := ((b.program lib enabled).leaves_iff n).mpr (le_counterMax _ hlt)
      have hloop : (b.program lib enabled).loop (strtol (toString n).toList) fuel = some t := by
        rw [hcount]
        exact ht.whileLoop_eq hfuel
      obtain ⟨w', hrun, -⟩ := Program.main_records (by omega) hloop hs.main hs.start hs.end_ hw
        hroom
      exact ⟨some t, w', hrun⟩
    · intro sys w w' fuel left hrun
      rcases Program.main_ended hrun with ⟨⟨name, hargv⟩, -⟩ | ⟨name, count, t, hargv, hloop, hleft⟩
      · cases hargv
      · cases hargv
        rw [hcount] at hloop
        exact ⟨t, hleft, loop_eq hloop⟩

end Binary

/-! ## The generated calls -/

/-- The call that a generated tracepoint stands for in the loop. -/
def generatedCall (t : Tpgen.Tracepoint) : Fired :=
  ⟨(Tpgen.providerName t.index).toList, (Tpgen.tpName t.index).toList,
    t.values.map fun v ↦ .text v.toList⟩

/-- In the loop there is one call for every tracepoint. -/
theorem generatedTp_header {rnd : Tpgen.Random} (hfloat : ∀ n, Tpgen.Plain (rnd.float n))
    {tps : List Tpgen.Tracepoint} {numTp : ℕ} {g : Tpgen.Globals}
    (h : Tpgen.Generated rnd numTp tps g) :
    generatedTp (Tpgen.header numTp (tps.map Tpgen.Tracepoint.call)).toList =
      some (tps.map generatedCall) := by
  obtain ⟨replacement, -, hdefinitions, hcalls⟩ := h.header_reads hfloat
  have hmap : (statements replacement).mapM (fun s ↦ (readCall s).bind tracepointCall) =
      ((statements replacement).map readCall).mapM fun c ↦ c.bind tracepointCall := by
    rw [List.mapM_map]
    rfl
  have hcall : ((fun c : Option (List Char × List (List Char)) ↦ c.bind tracepointCall) ∘
      fun t : Tpgen.Tracepoint ↦ some ("tracepoint".toList,
        (Tpgen.providerName t.index :: Tpgen.tpName t.index :: t.values).map String.toList)) =
      fun t ↦ some (generatedCall t) := by
    funext t
    show some (Fired.mk _ _ ((t.values.map String.toList).map .text)) = _
    rw [List.map_map]
    rfl
  unfold generatedTp
  rw [hdefinitions, List.lookup_cons_self, Option.bind_some, hmap, hcalls, List.mapM_map, hcall]
  exact List.mapM_pure

end UstBench.Workload
