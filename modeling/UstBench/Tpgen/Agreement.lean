import UstBench.Tpgen.Expansion

/-!
# The generated events and their calls

The compiler sees the texts alone: an event in each `.tp` file, and a call for each in
`GENERATED_TP`.  Of these texts, read on their own, every event agrees with its call, and both with
the table the script had in that turn.
-/

namespace UstBench.Tpgen

open Reasoning Reasoning.Prog Reasoning.CText

/-! ## Agreement -/

/-- What a call with the values passes for a parameter. -/
def Event.passed (e : Event) (values : List String) (name : String) : Option String :=
  ((e.params.map Prod.snd).zip values).lookup name

/-- What stands for an expression in the call: the value passed, or a literal itself. -/
def Event.evaluate (e : Event) (values : List String) (expression : String) : String :=
  (e.passed values expression).getD expression

/-- A call with the values agrees with the event it is a call of: parameters and values are entries
of the table `c`, the parameters are what the fields use, and arrays and sequences are as long as
the string they show. -/
structure Agrees (c : CVars) (e : Event) (values : List String) : Prop where
  count : 1 ≤ values.length ∧ values.length ≤ 10
  table : List.Forall₂ (fun param value ↦
    ∃ entry : String × CValue, c.lookup param.2 = some entry ∧ param.1 = entry.1 ∧
      value = entry.2.text) e.params values
  once : (e.params.map Prod.snd).Nodup
  declared : ∀ f ∈ e.fields, ∀ v ∈ f.variables, v ∈ e.params.map Prod.snd
  used : ∀ param ∈ e.params, ∃ f ∈ e.fields, param.2 ∈ f.variables
  lengths : ∀ f ∈ e.fields, ∀ length, f.length = some length →
    ∃ s : String, (∀ ch ∈ s.toList, ch ∈ asciiLetters) ∧ f.args[2]? = some "tp_charptr_1" ∧
      e.passed values "tp_charptr_1" = some ("\"" ++ s ++ "\"") ∧
      e.evaluate values length = toString s.length

namespace Tracepoint

variable {t : Tracepoint} {c : CVars}

theorem names_params (t : Tracepoint) : t.event.params.map Prod.snd = t.params.map Prod.fst := by
  unfold event
  rw [List.map_map]
  rfl

theorem passed_event (t : Tracepoint) (name : String) :
    t.event.passed t.values name = (t.params.lookup name).map fun entry ↦ entry.2.text := by
  have hzip : (t.params.map Prod.fst).zip t.values =
      t.params.map fun p ↦ (p.1, p.2.2.text) := by
    rw [values, List.zip_map']
  rw [Event.passed, names_params, hzip]
  exact Assoc.lookup_map_snd fun entry : String × CValue ↦ entry.2.text

theorem evaluate_event (t : Tracepoint) (expression : String) :
    t.event.evaluate t.values expression = t.evaluate expression := by
  rw [Event.evaluate, passed_event]
  rfl

/-- The third argument of an array or a sequence is what it shows. -/
theorem shown_mem_variables {f : Field} {length : String} (hlength : f.length = some length)
    (hshown : f.args[2]? = some "tp_charptr_1") : "tp_charptr_1" ∈ f.variables := by
  have hmem : "tp_charptr_1" ∈ f.expressions := by
    unfold Field.length at hlength
    unfold Field.expressions
    split at hlength
    · rename_i hargs
      rw [hargs] at hshown ⊢
      cases hshown
      exact List.mem_cons_self
    · rename_i hargs
      rw [hargs] at hshown ⊢
      cases hshown
      exact List.mem_cons_self
    · cases hlength
  exact List.mem_flatMap.mpr ⟨_, hmem, by decide⟩

theorem WellScoped.agrees (h : t.WellScoped c) : Agrees c t.event t.values := by
  constructor
  case count =>
    rw [values, List.length_map]
    exact h.count
  case table =>
    rw [values, event, List.forall₂_map_left_iff, List.forall₂_map_right_iff]
    exact List.forall₂_same.mpr fun p hp ↦ ⟨p.2, h.table p hp, rfl, rfl⟩
  case once =>
    rw [names_params]
    exact h.once
  case declared =>
    rw [names_params]
    exact h.declared
  case used => exact List.forall_mem_map.mpr h.used
  case lengths =>
    intro f hf length hlength
    obtain ⟨s, hletters, hliteral, hall⟩ := h.lengths
    obtain ⟨hshown, heval⟩ := hall f hf length hlength
    refine ⟨s, hletters, hshown, ?_, by rw [evaluate_event, heval]⟩
    -- the string is a variable of the field, so it is declared and its entry is that of the table
    obtain ⟨p, hp, hname⟩ := List.mem_map.mp
      (h.declared f hf _ (shown_mem_variables hlength hshown))
    have hentry := h.table p hp
    rw [hname, hliteral] at hentry
    have hlookup : t.params.lookup "tp_charptr_1" = some p.2 := by
      rw [Assoc.lookup_eq_some_iff h.once, ← hname]
      exact hp
    rw [passed_event, hlookup, ← Option.some.inj hentry]
    rfl

end Tracepoint

/-! ## A run -/

/-- Whatever the random outcomes are: the script writes a file for each tracepoint and last the
header, the files are read as events, `GENERATED_TP` expands to as many calls in the same order, and
every event agrees with its call and with `c_vars` as its turn left them. -/
theorem script_wellScoped (rnd : Random) (hfloat : ∀ n, Plain (rnd.float n)) {argv : List String}
    {arg : String} {numTp : ℤ} (harg : argv[1]? = some arg)
    (hnum : Python.int arg.toList = some numTp) :
    ∃ (g : Globals) (text : String) (replacement : List Char),
      run (script rnd argv) Globals.start = (.ok (), g) ∧
      g.files.map Prod.fst =
        (List.range' 1 numTp.toNat).map (fun i ↦ tpName i ++ ".tp") ++ ["generated_tp.h"] ∧
      g.files.getLast? = some ("generated_tp.h", text) ∧
      definitions text.toList = [("GENERATED_TP".toList, replacement)] ∧
      (statements replacement).length = numTp.toNat ∧
      ∀ i < numTp.toNat, ∃ (content : String) (event : Event) (values : List String),
        g.files[i]? = some (tpName (i + 1) ++ ".tp", content) ∧ readEvent content = some event ∧
        ((statements replacement).map readCall)[i]? = some (some ("tracepoint".toList,
          (event.provider :: event.name :: values).map String.toList)) ∧
        Agrees (turnCVars rnd (i + 1)) event values := by
  obtain ⟨g, tps, hr, hg⟩ := script_generated rnd harg hnum
  obtain ⟨replacement, -, hdefinitions, hcalls⟩ := hg.header_reads hfloat
  have hlen : tps.length = numTp.toNat := by
    rw [← List.length_map Tracepoint.index, hg.index, List.length_range']
  refine ⟨g, _, replacement, hr, ?_, by rw [hg.files, List.getLast?_concat], hdefinitions, ?_, ?_⟩
  · rw [hg.files, List.map_append, ← hg.index, List.map_map, List.map_map]
    rfl
  · rw [← List.length_map readCall, hcalls, List.length_map, hlen]
  · intro i hi
    obtain ⟨t, ht⟩ : ∃ t, tps[i]? = some t :=
      ⟨_, List.getElem?_eq_getElem (by rw [hlen]; exact hi)⟩
    have hmem : t ∈ tps := List.mem_of_getElem? ht
    -- the tracepoints are numbered from 1
    have hindex : t.index = i + 1 := by
      have hrange := congrArg (fun l : List ℕ ↦ l[i]?) hg.index
      simp only [List.getElem?_map, ht, Option.map_some, List.getElem?_range' hi] at hrange
      rw [Option.some.inj hrange]
      omega
    refine ⟨t.file.2, t.event, t.values, ?_, hg.events t hmem, ?_, ?_⟩
    · have hfile : (tps.map Tracepoint.file)[i]? = some t.file := by
        rw [List.getElem?_map, ht]
        rfl
      rw [hg.files, List.getElem?_append_left (by rw [List.length_map, hlen]; exact hi), hfile,
        ← hindex]
      rfl
    · rw [hcalls, List.getElem?_map, ht]
      rfl
    · rw [← hindex]
      exact (hg.wellScoped t hmem).agrees

theorem script_wellScoped_three :
    ∃ (g : Globals) (text : String) (replacement : List Char),
      run (script ⟨id, fun _ ↦ "0.5", fun _ ↦ by decide⟩ ["tpgen.py", "3"]) Globals.start =
        (.ok (), g) ∧
      g.files.map Prod.fst =
        ["random_tp_1.tp", "random_tp_2.tp", "random_tp_3.tp", "generated_tp.h"] ∧
      g.files.getLast? = some ("generated_tp.h", text) ∧
      definitions text.toList = [("GENERATED_TP".toList, replacement)] ∧
      (statements replacement).length = 3 ∧
      ∀ i < 3, ∃ (content : String) (event : Event) (values : List String),
        g.files[i]? = some (tpName (i + 1) ++ ".tp", content) ∧ readEvent content = some event ∧
        ((statements replacement).map readCall)[i]? = some (some ("tracepoint".toList,
          (event.provider :: event.name :: values).map String.toList)) ∧
        Agrees (turnCVars ⟨id, fun _ ↦ "0.5", fun _ ↦ by decide⟩ (i + 1)) event values := by
  obtain ⟨g, text, replacement, hr, hfiles, hrest⟩ :=
    @script_wellScoped ⟨id, fun _ ↦ "0.5", fun _ ↦ by decide⟩ (fun _ ↦ show Plain "0.5" by decide)
      ["tpgen.py", "3"] "3" 3 rfl (by decide)
  exact ⟨g, text, replacement, hr, hfiles.trans (by decide), hrest⟩

end UstBench.Tpgen
