import Mathlib.Tactic.FinCases
import UstBench.Reasoning.Assoc
import UstBench.Tpgen.Draws
import UstBench.Tpgen.Event

/-!
# The scope of the generated tracepoints

A generator registers a variable in `vars` and uses it in the field it adds.  The parameters and the
values of a tracepoint are both made from the sorted variables, so the event and its call agree with
each other, and with the table of the turn they are written in.
-/

namespace UstBench.Tpgen

open Reasoning Reasoning.Prog Reasoning.CText

/-! ## Tracepoints -/

/-- A tracepoint: the parameters of its event with their entries in `c_vars`, and its fields. -/
structure Tracepoint where
  index : ℕ
  params : CVars
  fields : List Field

namespace Tracepoint

variable (t : Tracepoint)

def event : Event :=
  ⟨providerName t.index, tpName t.index, t.params.map fun p ↦ (p.2.1, p.1), t.fields⟩

def names : List String := t.event.fields.map Field.name

def values : List String := t.params.map fun p ↦ p.2.2.text

def file : String × String :=
  (tpName t.index ++ ".tp",
    genTp t.event.provider t.event.name (t.event.params.map fun p ↦ p.1 ++ ", " ++ p.2)
      (t.event.fields.map Field.text))

def call : String :=
  "tracepoint(" ++ providerName t.index ++ ", " ++ tpName t.index ++ ", " ++
    ", ".intercalate t.values ++ ");"

/-- What stands for an expression in the call: the value of a parameter, or a literal itself. -/
def evaluate (expression : String) : String :=
  ((t.params.lookup expression).map fun entry ↦ entry.2.text).getD expression

/-- The declared parameters are what the fields use, with the types and the values that `c` has for
them, and arrays and sequences are as long as the string they show.  Its file can be read, and no
value in its call has a comma in it. -/
structure WellScoped (c : CVars) : Prop where
  count : 1 ≤ t.params.length ∧ t.params.length ≤ 10
  once : (t.params.map Prod.fst).Nodup
  table : ∀ p ∈ t.params, c.lookup p.1 = some p.2
  declared : ∀ f ∈ t.fields, ∀ v ∈ f.variables, v ∈ t.params.map Prod.fst
  used : ∀ p ∈ t.params, ∃ f ∈ t.fields, p.1 ∈ f.variables
  lengths : ∃ s : String, (∀ ch ∈ s.toList, ch ∈ asciiLetters) ∧
    c.lookup "tp_charptr_1" = some ("char *", .str ("\"" ++ s ++ "\"")) ∧
    ∀ f ∈ t.fields, ∀ e, f.length = some e →
      f.args[2]? = some "tp_charptr_1" ∧ t.evaluate e = toString s.length
  readable : t.event.Readable
  commas : ∀ p ∈ t.params, ',' ∉ p.2.2.text.toList

/-- The file of a tracepoint is read as its event. -/
theorem WellScoped.readEvent_file {t : Tracepoint} {c : CVars} (h : t.WellScoped c) :
    readEvent t.file.2 = some t.event :=
  readEvent_genTp h.readable

end Tracepoint

/-! ## Fields -/

def varNames : List String :=
  ["tp_int_1", "tp_int_2", "tp_long_1", "tp_long_2", "tp_float_1", "tp_float_2", "tp_double_1",
   "tp_double_2", "tp_charptr_1", "tp_charptr_1_size"]

/-- What holds of every field that is added, when the random string has the length `size`. -/
structure FieldOk (size : String) (f : Field) : Prop where
  known : ∀ v ∈ f.variables, v ∈ varNames
  nonempty : f.variables ≠ []
  length : ∀ e, f.length = some e → f.args[2]? = some "tp_charptr_1" ∧
    (e = "tp_charptr_1_size" ∧ e ∈ f.variables ∨ e = size)
  readable : f.Readable

/-- The globals while the generators are called, with the variables and the fields so far. -/
structure Drawing (c : CVars) (g₀ : Globals) (vars : Finset String) (fs : List Field)
    (g : Globals) : Prop where
  cVars : g.cVars = c
  cTp : g.cTp = g₀.cTp
  files : g.files = g₀.files
  vars : g.vars = vars
  fields : g.fields = fs.map Field.text

section Fields

variable {rnd : Random} {E : Exc → Globals → Prop} {c : CVars} {g₀ : Globals} {size p : ℕ}
  {vars : Finset String} {fs : List Field}

theorem undrawn_drawing : Undrawn (Drawing c g₀ vars fs) :=
  fun _ _ h ↦ ⟨h.cVars, h.cTp, h.files, h.vars, h.fields⟩

/-- A name is two letters or more. -/
theorem atom_nameAt (p : ℕ) : Atom (nameAt rnd p).toList := by
  have hall : ∀ c, c ∈ consonants ∨ c ∈ vowels → isIdentifier c = true := by
    have hletters : ∀ c ∈ consonants ++ vowels, isIdentifier c = true := by decide
    exact fun c hc ↦ hletters c (List.mem_append.mpr hc)
  rw [toList_nameAt]
  apply atom_of_all fun c hc ↦ hall c (mem_spell hc)
  obtain ⟨s, l, hl⟩ : ∃ s l, drawnName rnd p = s :: l := by
    apply List.exists_cons_of_ne_nil
    rw [← List.length_pos_iff, length_drawnName, syllableCount]
    omega
  rw [hl]
  exact List.cons_ne_nil _ _

theorem atom_toString (n : ℕ) : Atom (toString n).toList := by
  apply atom_of_all
  · intro c hc
    simp [isIdentifier, Char.isAlphanum, Decimal.isDigit_of_mem_toString hc]
  · rw [Decimal.toList_toString]
    exact Nat.toDigits_ne_nil

/-- A numeral is no variable. -/
theorem identifiers_toString (n : ℕ) : identifiers (toString n) = [] := by
  have hword : ∀ c ∈ (toString n).toList, (!(c.isAlphanum || c = '_')) = false := by
    intro c hc
    simp [Char.isAlphanum, Decimal.isDigit_of_mem_toString hc]
  rw [identifiers, List.splitOnP_eq_singleton hword]
  cases hl : (toString n).toList with
  | nil => rfl
  | cons c cs =>
    have hd : c.isDigit := Decimal.isDigit_of_mem_toString (by rw [hl]; exact List.mem_cons_self)
    simp [hd]

theorem toString_notMem_varNames (n : ℕ) : toString n ∉ varNames := by
  intro h
  have hall : ∀ v ∈ varNames, 't' ∈ v.toList := by decide
  exact Decimal.notMem_toString (by decide) n (hall _ h)

theorem FieldOk.of_variables {f : Field} {names : List String} (hvars : f.variables = names)
    (hknown : ∀ v ∈ names, v ∈ varNames) (hne : names ≠ [])
    (hlength : ∀ e, f.length = some e → f.args[2]? = some "tp_charptr_1" ∧
      (e = "tp_charptr_1_size" ∧ e ∈ names ∨ e = toString size))
    (hmember : (f.type, f.args.length) ∈ ctfMacros) (hatoms : ∀ a ∈ f.args, Atom a.toList) :
    FieldOk (toString size) f ∧ f.variables = names := by
  subst hvars
  exact ⟨⟨hknown, hne, hlength, hmember, hatoms⟩, rfl⟩

/-- A numeric field adds up the one or two variables of its type. -/
theorem fieldOk_numeric {ctfType cType name : String} {n : ℕ}
    (hm : (ctfType, 3) ∈ ctfMacros) (hc : cType ∈ ["int", "long", "float", "double"])
    (hn : n = 1 ∨ n = 2) (hname : Atom name.toList) :
    FieldOk (toString size) ⟨ctfType, [cType, name, " + ".intercalate (numericVars cType n)]⟩ ∧
      Field.variables ⟨ctfType, [cType, name, " + ".intercalate (numericVars cType n)]⟩ =
        numericVars cType n := by
  -- four types by one or two variables: eight texts without an unknown in them
  have hall : ∀ cType ∈ ["int", "long", "float", "double"], ∀ n ∈ [1, 2],
      identifiers (" + ".intercalate (numericVars cType n)) = numericVars cType n ∧
      (∀ v ∈ numericVars cType n, v ∈ varNames) ∧ numericVars cType n ≠ [] ∧
      Atom cType.toList ∧ Atom (" + ".intercalate (numericVars cType n)).toList := by
    decide
  have hfacts := hall cType hc n (by simpa using hn)
  apply FieldOk.of_variables ?_ hfacts.2.1 hfacts.2.2.1 ?_ hm
  · simp only [List.forall_mem_cons, List.not_mem_nil, false_imp_iff, implies_true, and_true]
    exact ⟨hfacts.2.2.2.1, hname, hfacts.2.2.2.2⟩
  · show identifiers (" + ".intercalate (numericVars cType n)) ++ [] = _
    rw [List.append_nil]
    exact hfacts.1
  · exact nofun

theorem fieldOk_string {name : String} (hname : Atom name.toList) :
    FieldOk (toString size) ⟨"ctf_string", [name, "tp_charptr_1"]⟩ ∧
      Field.variables ⟨"ctf_string", [name, "tp_charptr_1"]⟩ = ["tp_charptr_1"] := by
  have hm : ("ctf_string", 2) ∈ ctfMacros := by decide
  apply FieldOk.of_variables ?_ (by decide) (by decide) ?_ hm
  · simp only [List.forall_mem_cons, List.not_mem_nil, false_imp_iff, implies_true, and_true]
    exact ⟨hname, by decide⟩
  · show identifiers "tp_charptr_1" ++ [] = _
    decide
  · exact nofun

theorem fieldOk_sequence {ctfType name : String} (hm : (ctfType, 5) ∈ ctfMacros)
    (hname : Atom name.toList) :
    FieldOk (toString size)
        ⟨ctfType, ["char", name, "tp_charptr_1", "size_t", "tp_charptr_1_size"]⟩ ∧
      Field.variables ⟨ctfType, ["char", name, "tp_charptr_1", "size_t", "tp_charptr_1_size"]⟩ =
        ["tp_charptr_1", "tp_charptr_1_size"] := by
  apply FieldOk.of_variables ?_ (by decide) (by decide) ?_ hm
  · simp only [List.forall_mem_cons, List.not_mem_nil, false_imp_iff, implies_true, and_true]
    exact ⟨by decide, hname, by decide⟩
  · show identifiers "tp_charptr_1" ++ (identifiers "tp_charptr_1_size" ++ []) = _
    decide
  · intro e he
    cases he
    exact ⟨rfl, .inl (by decide)⟩

theorem fieldOk_array {ctfType name : String} (hm : (ctfType, 4) ∈ ctfMacros)
    (hname : Atom name.toList) :
    FieldOk (toString size) ⟨ctfType, ["char", name, "tp_charptr_1", toString size]⟩ ∧
      Field.variables ⟨ctfType, ["char", name, "tp_charptr_1", toString size]⟩ =
        ["tp_charptr_1"] := by
  apply FieldOk.of_variables ?_ (by decide) (by decide) ?_ hm
  · simp only [List.forall_mem_cons, List.not_mem_nil, false_imp_iff, implies_true, and_true]
    exact ⟨by decide, hname, by decide, atom_toString size⟩
  · show identifiers "tp_charptr_1" ++ (identifiers (toString size) ++ []) = _
    -- the length is a number here, in which there is nothing to declare
    rw [identifiers_toString]
    decide
  · intro e he
    cases he
    exact ⟨rfl, .inr rfl⟩

/-- Behind a generator there is one more field, with its variables registered and `name` for its
name. -/
def Added (c : CVars) (g₀ : Globals) (size : ℕ) (vars : Finset String) (fs : List Field)
    (name : String) (p : ℕ) (g : Globals) : Prop :=
  ∃ f, FieldOk (toString size) f ∧ f.name = name ∧
    At (Drawing c g₀ (vars ∪ f.variables.toFinset) (fs ++ [f])) p g

theorem triple_addField {type name : String} {args names : List String}
    (hf : FieldOk (toString size) ⟨type, args⟩ ∧ Field.variables ⟨type, args⟩ = names)
    (hname : Field.name ⟨type, args⟩ = name) :
    Triple (At (Drawing c g₀ (vars ∪ names.toFinset) fs) p) (addField type args)
      (fun _ ↦ Added c g₀ size vars fs name p) E := by
  apply triple_modify
  intro g hg
  refine ⟨⟨type, args⟩, hf.1, hname, ⟨hg.1.cVars, hg.1.cTp, hg.1.files, ?_, ?_⟩, hg.2⟩
  · rw [hf.2]
    exact hg.1.vars
  · show g.fields ++ [Field.text ⟨type, args⟩] = (fs ++ [(⟨type, args⟩ : Field)]).map Field.text
    rw [hg.1.fields, List.map_append]
    rfl

theorem triple_addVars (names : List String) :
    Triple (At (Drawing c g₀ vars fs) p) (addVars names)
      (fun _ ↦ At (Drawing c g₀ (vars ∪ names.toFinset) fs) p) E := by
  apply triple_modify
  intro g hg
  refine ⟨⟨hg.1.cVars, hg.1.cTp, hg.1.files, ?_, hg.1.fields⟩, hg.2⟩
  show g.vars ∪ names.toFinset = _
  rw [hg.1.vars]

theorem run_cVar {name : String} {entry : String × CValue} {g : Globals}
    (h : g.cVars.lookup name = some entry) : run (cVar name) g = (.ok entry, g) := by
  show (((g.cVars.lookup name).elim (.error .keyError) .ok : Except Exc (String × CValue)), g) = _
  rw [h]
  rfl

/-- A comprehension over the keys of some entries of the table gives their texts. -/
theorem run_forVars {text : String → String × CValue → String} {params : CVars} {g : Globals}
    (h : ∀ p ∈ params, g.cVars.lookup p.1 = some p.2) :
    run (forVars text (params.map Prod.fst)) g = (.ok (params.map fun p ↦ text p.1 p.2), g) := by
  induction params with
  | nil => rfl
  | cons p params ih =>
    rw [List.forall_mem_cons] at h
    rw [List.map_cons, forVars, run_bind_ok (run_cVar h.1), run_bind_ok (ih h.2)]
    rfl

theorem triple_cVar {name : String} {entry : String × CValue} (h : c.lookup name = some entry) :
    Triple (At (Drawing c g₀ vars fs) p) (cVar name)
      (fun r g ↦ At (Drawing c g₀ vars fs) p g ∧ r = entry) E := by
  constructor
  intro g hg
  rw [run_cVar (by rw [hg.1.cVars, h])]
  exact ⟨hg, rfl⟩

/-- Every generator starts with its variables and a name for its field, but for the number drawn by
the numeric ones. -/
theorem triple_named {names : List String} {body : String → Prog Globals Exc Unit}
    {Q : Unit → Globals → Prop}
    (h : Atom (nameAt rnd p).toList →
      Triple (At (Drawing c g₀ (vars ∪ names.toFinset) fs) (nameEnd rnd p)) (body (nameAt rnd p))
        Q E) :
    Triple (At (Drawing c g₀ vars fs) p)
      (do addVars names; let name ← cleverName rnd; body name) Q E := by
  apply triple_bind (triple_addVars names)
  intro _
  apply triple_bind (triple_cleverName undrawn_drawing)
  intro name
  apply triple_assume
  intro hname
  rw [hname]
  exact h (atom_nameAt p)

section Generators

variable {ctfType cType : String}

-- the number of variables is drawn in front of the name
theorem triple_addCtfNumeric (hm : (ctfType, 3) ∈ ctfMacros)
    (hc : cType ∈ ["int", "long", "float", "double"]) :
    Triple (At (Drawing c g₀ vars fs) (p + 1)) (addCtfNumeric rnd ctfType cType)
      (fun _ ↦ Added c g₀ size vars fs (nameAt rnd (p + 2)) (nameEnd rnd (p + 2))) E := by
  apply triple_bind (triple_randintBetween undrawn_drawing 1 2)
  intro n
  apply triple_assume
  intro hn
  have htwo : n.toNat = 1 ∨ n.toNat = 2 := by omega
  exact triple_named fun hname ↦ triple_addField (fieldOk_numeric hm hc htwo hname) rfl

theorem triple_addCtfString : Triple (At (Drawing c g₀ vars fs) (p + 1)) (addCtfString rnd)
    (fun _ ↦ Added c g₀ size vars fs (nameAt rnd (p + 1)) (nameEnd rnd (p + 1))) E :=
  triple_named fun hname ↦ triple_addField (fieldOk_string hname) rfl

theorem triple_addCtfSequence (hm : (ctfType, 5) ∈ ctfMacros) :
    Triple (At (Drawing c g₀ vars fs) (p + 1)) (addCtfSequence rnd ctfType)
      (fun _ ↦ Added c g₀ size vars fs (nameAt rnd (p + 1)) (nameEnd rnd (p + 1))) E :=
  triple_named fun hname ↦ triple_addField (fieldOk_sequence hm hname) rfl

-- the length is read from the table, and stands in the field as a number
theorem triple_addCtfArray (hm : (ctfType, 4) ∈ ctfMacros)
    (h : c.lookup "tp_charptr_1_size" = some ("size_t", .int size)) :
    Triple (At (Drawing c g₀ vars fs) (p + 1)) (addCtfArray rnd ctfType)
      (fun _ ↦ Added c g₀ size vars fs (nameAt rnd (p + 1)) (nameEnd rnd (p + 1))) E := by
  apply triple_named
  intro hname
  apply triple_bind (triple_cVar h)
  intro entry
  apply triple_assume
  intro hentry
  rw [hentry]
  exact triple_addField (fieldOk_array hm hname) rfl

end Generators

/-- Every generator registers the variables of the field it adds, and draws a name for the field. -/
theorem triple_generators (h : c.lookup "tp_charptr_1_size" = some ("size_t", .int size))
    (k : Fin 9) :
    Triple (At (Drawing c g₀ vars fs) (p + 1)) ((generators rnd).get k)
      (fun _ ↦ Added c g₀ size vars fs (nameAt rnd (if k.1 < 4 then p + 2 else p + 1))
        (nameEnd rnd (if k.1 < 4 then p + 2 else p + 1))) E := by
  fin_cases k
  · exact triple_addCtfNumeric (by decide) (by decide)
  · exact triple_addCtfNumeric (by decide) (by decide)
  · exact triple_addCtfNumeric (by decide) (by decide)
  · exact triple_addCtfNumeric (by decide) (by decide)
  · exact triple_addCtfString
  · exact triple_addCtfSequence (by decide)
  · exact triple_addCtfSequence (by decide)
  · exact triple_addCtfArray (by decide) h
  · exact triple_addCtfArray (by decide) h

/-- The variables registered are the ones the fields use. -/
structure Registered (size : ℕ) (vars : Finset String) (fs : List Field) : Prop where
  vars : ∀ v, v ∈ vars ↔ ∃ f ∈ fs, v ∈ f.variables
  fields : ∀ f ∈ fs, FieldOk (toString size) f

theorem Registered.none : Registered size ∅ [] where
  vars v := by simp
  fields f hf := absurd hf List.not_mem_nil

theorem Registered.add (h : Registered size vars fs) {f : Field}
    (hf : FieldOk (toString size) f) :
    Registered size (vars ∪ f.variables.toFinset) (fs ++ [f]) where
  vars v := by
    rw [Finset.mem_union, List.mem_toFinset, h.vars]
    simp [or_and_right, exists_or]
  fields f' hf' := by
    rcases List.mem_append.mp hf' with hf' | hf'
    · exact h.fields f' hf'
    · rw [List.mem_singleton.mp hf']
      exact hf

theorem triple_addFields (h : c.lookup "tp_charptr_1_size" = some ("size_t", .int size)) (n : ℕ)
    (hreg : Registered size vars fs) :
    Triple (At (Drawing c g₀ vars fs) p) (addFields rnd n)
      (fun _ g ↦ ∃ vars' new, new.length = n ∧ Registered size vars' (fs ++ new) ∧
        new.map Field.name = (nameStarts rnd n p).map (nameAt rnd) ∧
        At (Drawing c g₀ vars' (fs ++ new)) (fieldsEnd rnd n p) g) E := by
  induction n generalizing vars fs p with
  | zero =>
    apply triple_pure
    intro g hg
    refine ⟨vars, [], rfl, ?_, rfl, ?_⟩
    · rw [List.append_nil]
      exact hreg
    · rw [List.append_nil]
      exact hg
  | succ n ih =>
    apply triple_bind (triple_choice undrawn_drawing _)
    intro generator
    apply triple_assume
    intro hgen
    rw [hgen]
    apply triple_bind (triple_generators h _)
    intro _
    apply triple_each
    rintro g ⟨f, hf, hname, hg⟩
    apply (ih (hreg.add hf)).conseq
    · rintro _ rfl
      exact hg
    · rintro _ g' ⟨vars', new, hlen, hreg', hnames, hg'⟩
      rw [List.append_assoc, List.singleton_append] at hreg' hg'
      refine ⟨vars', f :: new, by rw [List.length_cons, hlen], hreg', ?_, hg'⟩
      rw [List.map_cons, hname, hnames]
      rfl
    · exact fun _ _ he ↦ he

end Fields

/-! ## The table -/

/-- The text of a value is that of a float, or has nothing in it that separates values or ends a
statement or a line. -/
def ValueText (rnd : Random) (text : String) : Prop :=
  (∃ n, text = rnd.float n) ∨ ∀ c ∈ [',', ';', '\\', '\n'], c ∉ text.toList

/-- A table of `c_vars` around the string `s`. -/
structure Table (rnd : Random) (c : CVars) (s : String) : Prop where
  keys : c.map Prod.fst = varNames
  literal : c.lookup "tp_charptr_1" = some ("char *", .str ("\"" ++ s ++ "\""))
  size : c.lookup "tp_charptr_1_size" = some ("size_t", .int s.length)
  letters : ∀ ch ∈ s.toList, ch ∈ asciiLetters
  atoms : ∀ p ∈ c, Atom p.1.toList ∧ Atom p.2.1.toList
  values : ∀ p ∈ c, ValueText rnd p.2.2.text

section Table

variable {rnd : Random} {E : Exc → Globals → Prop} {g₀ : Globals} {p : ℕ}

theorem ValueText.comma {text : String} (h : ValueText rnd text) : ',' ∉ text.toList := by
  rcases h with ⟨n, rfl⟩ | h
  · exact rnd.float_comma n
  · exact h ',' List.mem_cons_self

theorem valueText_float (n : ℕ) : ValueText rnd (rnd.float n) := .inl ⟨n, rfl⟩

theorem valueText_int (z : ℤ) : ValueText rnd (CValue.int z).text := by
  have hmarks : ∀ c ∈ [',', ';', '\\', '\n'], c.isDigit = false ∧ c ∉ "-".toList := by decide
  refine .inr fun c hc ↦ ?_
  have hnat : ∀ n : ℕ, c ∉ (toString n).toList := Decimal.notMem_toString (hmarks c hc).1
  cases z with
  | ofNat n => exact hnat n
  | negSucc n =>
    show c ∉ ("-" ++ toString (n + 1)).toList
    rw [String.toList_append, List.mem_append, not_or]
    exact ⟨(hmarks c hc).2, hnat (n + 1)⟩

theorem valueText_literal {s : String} (h : ∀ ch ∈ s.toList, ch ∈ asciiLetters) :
    ValueText rnd (CValue.str ("\"" ++ s ++ "\"")).text := by
  have hmarks : ∀ c ∈ [',', ';', '\\', '\n'], c ∉ "\"".toList ∧ c ∉ asciiLetters := by decide
  refine .inr fun c hc ↦ ?_
  have hquote := (hmarks c hc).1
  show c ∉ ("\"" ++ s ++ "\"").toList
  rw [String.toList_append, String.toList_append, List.mem_append, List.mem_append, not_or, not_or]
  exact ⟨⟨hquote, fun hmem ↦ (hmarks c hc).2 (h c hmem)⟩, hquote⟩

/-- The start of a turn of the main loop. -/
structure Reset (g₀ g : Globals) : Prop where
  cTp : g.cTp = g₀.cTp
  files : g.files = g₀.files
  vars : g.vars = ∅
  fields : g.fields = []

theorem triple_makeCVars : Triple (At (Reset g₀) p) (makeCVars rnd)
    (fun _ g ↦ ∃ c s, Table rnd c s ∧ At (Drawing c g₀ ∅ []) (tableEnd rnd p) g) E := by
  have hJ : Undrawn (Reset g₀) := fun _ _ h ↦ ⟨h.cTp, h.files, h.vars, h.fields⟩
  unfold makeCVars
  apply triple_bind (triple_randomString hJ)
  intro s
  apply triple_assume
  intro hs
  apply triple_bind (triple_randint hJ)
  intro int1
  apply triple_bind (triple_randint hJ)
  intro int2
  apply triple_bind (triple_randint hJ)
  intro long1
  apply triple_bind (triple_randint hJ)
  intro long2
  apply triple_bind (triple_randomFloat hJ)
  intro float1
  apply triple_assume
  intro hfloat1
  apply triple_bind (triple_randomFloat hJ)
  intro float2
  apply triple_assume
  intro hfloat2
  apply triple_bind (triple_randomFloat hJ)
  intro double1
  apply triple_assume
  intro hdouble1
  apply triple_bind (triple_randomFloat hJ)
  intro double2
  apply triple_assume
  intro hdouble2
  rw [hfloat1, hfloat2, hdouble1, hdouble2]
  apply triple_modify
  intro g hg
  refine ⟨_, s, ⟨rfl, rfl, rfl, hs, ?_, ?_⟩,
    ⟨rfl, hg.1.cTp, hg.1.files, hg.1.vars, hg.1.fields⟩, hg.2⟩
  · simp only [List.forall_mem_cons, List.not_mem_nil, false_imp_iff, implies_true, and_true]
    decide
  · simp only [List.forall_mem_cons, List.not_mem_nil, false_imp_iff, implies_true, and_true]
    exact ⟨valueText_int _, valueText_int _, valueText_int _, valueText_int _, valueText_float _,
      valueText_float _, valueText_float _, valueText_float _, valueText_literal hs,
      valueText_int _⟩

end Table

/-! ## The tracepoints -/

/-- The tracepoint of the variables registered and the fields added. -/
def Tracepoint.ofVars (i : ℕ) (c : CVars) (vars : Finset String) (fs : List Field) : Tracepoint :=
  ⟨i, Assoc.select c (sortedVars vars), fs⟩

/-- `c_vars` as the turn of a tracepoint leaves it. -/
def turnCVars (rnd : Random) (i : ℕ) : CVars :=
  (run (forEach (makeTp rnd) (List.range' 1 i)) Globals.start).2.cVars

section Turn

variable {rnd : Random} {c : CVars} {s : String} {vars : Finset String} {fs : List Field}

theorem mem_sortedVars {v : String} : v ∈ sortedVars vars ↔ v ∈ vars := Finset.mem_sort _

theorem nodup_sortedVars (vars : Finset String) : (sortedVars vars).Nodup :=
  Finset.sort_nodup vars (· ≤ ·)

theorem Table.known (hc : Table rnd c s) (hreg : Registered s.length vars fs) {v : String}
    (h : v ∈ vars) : v ∈ c.map Prod.fst := by
  rcases (hreg.vars v).mp h with ⟨f, hf, hv⟩
  rw [hc.keys]
  exact (hreg.fields f hf).known v hv

theorem Table.keys_params (hc : Table rnd c s) (hreg : Registered s.length vars fs) (i : ℕ) :
    (Tracepoint.ofVars i c vars fs).params.map Prod.fst = sortedVars vars :=
  Assoc.keys_select fun _ hv ↦ hc.known hreg (mem_sortedVars.mp hv)

/-- Both comprehensions of a turn are over the entries of the same variables. -/
theorem Table.run_forVars (hc : Table rnd c s) (hreg : Registered s.length vars fs) (i : ℕ)
    {text : String → String × CValue → String} {g : Globals} (hg : g.cVars = c) :
    run (forVars text (sortedVars vars)) g =
      (.ok ((Tracepoint.ofVars i c vars fs).params.map fun p ↦ text p.1 p.2), g) := by
  rw [← hc.keys_params hreg i]
  apply Tpgen.run_forVars
  intro p hp
  rw [hg]
  exact Assoc.lookup_of_mem_select hp

/-- Of one field or more, all their variables in the table, there are between one and ten. -/
theorem Table.card_vars (hc : Table rnd c s) (hreg : Registered s.length vars fs) (hfs : fs ≠ []) :
    1 ≤ vars.card ∧ vars.card ≤ 10 := by
  constructor
  · rcases List.exists_mem_of_ne_nil fs hfs with ⟨f, hf⟩
    rcases List.exists_mem_of_ne_nil _ (hreg.fields f hf).nonempty with ⟨v, hv⟩
    exact Finset.card_pos.mpr ⟨v, (hreg.vars v).mpr ⟨f, hf, hv⟩⟩
  · have hsub : vars ⊆ varNames.toFinset := by
      intro v hv
      rw [List.mem_toFinset, ← hc.keys]
      exact hc.known hreg hv
    calc vars.card ≤ varNames.toFinset.card := Finset.card_le_card hsub
      _ ≤ varNames.length := List.toFinset_card_le varNames

/-- What an array or a sequence has for its length is the length of the string. -/
theorem Table.evaluate_length (hc : Table rnd c s) (hreg : Registered s.length vars fs) {i : ℕ}
    {f : Field} (hf : f ∈ fs) {e : String}
    (he : e = "tp_charptr_1_size" ∧ e ∈ f.variables ∨ e = toString s.length) :
    (Tracepoint.ofVars i c vars fs).evaluate e = toString s.length := by
  have hkeys := hc.keys_params hreg i
  have hnodup : ((Tracepoint.ofVars i c vars fs).params.map Prod.fst).Nodup := by
    rw [hkeys]
    exact nodup_sortedVars vars
  cases he with
  | inl hvar =>
    -- the variable is a parameter, and its entry in the table has the length
    have hmem : e ∈ (Tracepoint.ofVars i c vars fs).params.map Prod.fst := by
      rw [hkeys, mem_sortedVars, hreg.vars]
      exact ⟨f, hf, hvar.2⟩
    rcases List.mem_map.mp hmem with ⟨p, hp, hpe⟩
    have hentry : c.lookup p.1 = some p.2 := Assoc.lookup_of_mem_select hp
    rw [hpe, hvar.1, hc.size] at hentry
    have hlookup : (Tracepoint.ofVars i c vars fs).params.lookup e = some p.2 := by
      rw [Assoc.lookup_eq_some_iff hnodup, ← hpe]
      exact hp
    rw [Tracepoint.evaluate, hlookup, ← Option.some.inj hentry]
    rfl
  | inr hliteral =>
    -- a numeral is not the name of a parameter, and stands for itself
    have hnone : (Tracepoint.ofVars i c vars fs).params.lookup e = none := by
      rw [List.lookup_eq_none_iff]
      intro p hp
      have hvar : p.1 ∈ vars := by
        rw [← mem_sortedVars, ← hkeys]
        exact List.mem_map.mpr ⟨p, hp, rfl⟩
      have hknown := hc.known hreg hvar
      rw [hc.keys] at hknown
      rw [bne_iff_ne, hliteral]
      intro heq
      rw [← heq] at hknown
      exact toString_notMem_varNames _ hknown
    rw [Tracepoint.evaluate, hnone, hliteral]
    rfl

theorem atom_word {word : String} (h : word.toList.all isIdentifier = true) (n : ℕ) :
    Atom (word ++ toString n).toList := by
  rw [String.toList_append]
  apply atom_of_all
  · rw [List.forall_mem_append]
    refine ⟨List.all_eq_true.mp h, fun c hc ↦ ?_⟩
    simp [isIdentifier, Char.isAlphanum, Decimal.isDigit_of_mem_toString hc]
  · apply List.append_ne_nil_of_right_ne_nil
    rw [Decimal.toList_toString]
    exact Nat.toDigits_ne_nil

/-- The parameters are entries of the table. -/
theorem Table.mem_of_mem_params {i : ℕ} {p : String × String × CValue}
    (h : p ∈ (Tracepoint.ofVars i c vars fs).params) : p ∈ c :=
  Assoc.mem_of_lookup (Assoc.lookup_of_mem_select h)

theorem Table.readable (hc : Table rnd c s) (hreg : Registered s.length vars fs) (hfs : fs ≠ [])
    (i : ℕ) (hparams : (Tracepoint.ofVars i c vars fs).params ≠ []) :
    (Tracepoint.ofVars i c vars fs).event.Readable where
  provider := atom_word rfl i
  name := atom_word rfl i
  params := by
    show ∀ p ∈ (Tracepoint.ofVars i c vars fs).params.map fun p ↦ (p.2.1, p.1),
      Atom p.1.toList ∧ Atom p.2.toList
    rw [List.forall_mem_map]
    intro p hp
    exact (hc.atoms p (Table.mem_of_mem_params hp)).symm
  declared := by simpa [Tracepoint.event] using hparams
  fields f hf := (hreg.fields f hf).readable
  nonempty := hfs

theorem Table.wellScoped (hc : Table rnd c s) (hreg : Registered s.length vars fs) (hfs : fs ≠ [])
    (i : ℕ) : (Tracepoint.ofVars i c vars fs).WellScoped c := by
  have hkeys := hc.keys_params hreg i
  have hcard := hc.card_vars hreg hfs
  have hlength : (Tracepoint.ofVars i c vars fs).params.length = vars.card := by
    rw [← List.length_map (f := Prod.fst), hkeys, sortedVars, Finset.length_sort]
  constructor
  case count =>
    rw [hlength]
    exact hcard
  case once =>
    rw [hkeys]
    exact nodup_sortedVars vars
  case table => exact fun p hp ↦ Assoc.lookup_of_mem_select hp
  case declared =>
    intro f hf v hv
    rw [hkeys, mem_sortedVars, hreg.vars]
    exact ⟨f, hf, hv⟩
  case used =>
    intro p hp
    show ∃ f ∈ fs, p.1 ∈ f.variables
    rw [← hreg.vars, ← mem_sortedVars, ← hkeys]
    exact List.mem_map.mpr ⟨p, hp, rfl⟩
  case lengths =>
    refine ⟨s, hc.letters, hc.literal, ?_⟩
    intro f hf e he
    have hlen := (hreg.fields f hf).length e he
    exact ⟨hlen.1, hc.evaluate_length hreg hf hlen.2⟩
  case readable =>
    apply hc.readable hreg hfs
    rw [← List.length_pos_iff, hlength]
    exact hcard.1
  case commas => exact fun p hp ↦ (hc.values p (Table.mem_of_mem_params hp)).comma

/-- The globals between two turns, with the tracepoints so far. -/
structure Written (tps : List Tracepoint) (g : Globals) : Prop where
  cTp : g.cTp = tps.map Tracepoint.call
  files : g.files = tps.map Tracepoint.file

/-- A tracepoint of the table `c`, its turn having started to draw at `p`. -/
structure Made (rnd : Random) (i p : ℕ) (c : CVars) (t : Tracepoint) : Prop where
  index : t.index = i
  names : t.names = (tpNameStarts rnd p).map (nameAt rnd)
  wellScoped : t.WellScoped c
  values : ∀ p ∈ t.params, ValueText rnd p.2.2.text

/-- A turn of the main loop does not stop, and writes one more tracepoint. -/
theorem triple_makeTp (i p : ℕ) {tps : List Tracepoint} :
    Triple (At (Written tps) p) (makeTp rnd i)
      (fun _ g ↦ ∃ t, Made rnd i p g.cVars t ∧ At (Written (tps ++ [t])) (tpEnd rnd p) g)
      fun _ _ ↦ False := by
  apply triple_each
  rintro g₀ ⟨hg₀, hp⟩
  have hreset : Triple (· = g₀) (modify fun g ↦ { g with vars := ∅, fields := [] })
      (fun _ ↦ At (Reset g₀) p) fun (_ : Exc) _ ↦ False := by
    apply triple_modify
    rintro g rfl
    exact ⟨⟨rfl, rfl, rfl, rfl⟩, hp⟩
  apply triple_bind hreset
  intro _
  apply triple_bind triple_makeCVars
  intro _
  apply triple_each
  rintro g₁ ⟨c, s, hc, hg₁⟩
  apply triple_bind ((triple_randintBetween undrawn_drawing 1 10).conseq
    (fun _ hg ↦ by rw [hg]; exact hg₁) (fun _ _ hg ↦ hg) fun _ _ he ↦ he)
  intro n
  apply triple_assume
  intro hn
  have hcount : n.toNat = fieldCount rnd p := by
    unfold fieldCount
    omega
  rw [hcount]
  apply triple_bind (triple_addFields hc.size (fieldCount rnd p) Registered.none)
  intro _
  apply triple_each
  rintro g₂ ⟨vars, fs, hlen, hreg, hnames, hg₂, hend⟩
  rw [List.nil_append] at hreg hg₂
  have hfs : fs ≠ [] := by
    rintro rfl
    rw [List.length_nil, fieldCount] at hlen
    omega
  -- from here on the turn only reads: both lists of texts are made from the same variables
  have hvars := hg₂.vars
  have hcVars := hg₂.cVars
  subst hvars hcVars
  have ht := hc.wellScoped hreg hfs i
  have hvalues : ∀ p ∈ (Tracepoint.ofVars i g₂.cVars g₂.vars fs).params,
      ValueText rnd p.2.2.text :=
    fun p hp ↦ hc.values p (Table.mem_of_mem_params hp)
  constructor
  intro g hg
  subst hg
  rw [run_bind_ok (run_get g), run_bind_ok (hc.run_forVars hreg i rfl),
    run_bind_ok (run_modify _ _), run_bind_ok (hc.run_forVars hreg i ?_), run_bind_ok (run_get _)]
  swap
  · rfl
  refine ⟨Tracepoint.ofVars i g.cVars g.vars fs, ⟨rfl, hnames, ht, hvalues⟩, ⟨?_, ?_⟩, hend⟩
  · show g.cTp ++ [(Tracepoint.ofVars i g.cVars g.vars fs).call] = _
    rw [hg₂.cTp, hg₀.cTp, List.map_append]
    rfl
  · show g.files ++ [(tpName i ++ ".tp", genTp (providerName i) (tpName i)
      ((Tracepoint.ofVars i g.cVars g.vars fs).params.map fun p ↦ p.2.1 ++ ", " ++ p.1) g.fields)] = _
    rw [hg₂.files, hg₀.files, hg₂.fields, List.map_append, List.map_singleton, Tracepoint.file,
      Tracepoint.event, List.map_map]
    rfl

/-- What the turns have written behind the first `k`. -/
structure Generation (rnd : Random) (k p : ℕ) (new : List Tracepoint) (n : ℕ) : Prop where
  index : new.map Tracepoint.index = List.range' (k + 1) n
  names : new.map Tracepoint.names = (allNameStarts rnd n p).map (List.map (nameAt rnd))
  wellScoped : ∀ t ∈ new, t.WellScoped (turnCVars rnd t.index)
  values : ∀ t ∈ new, ∀ p ∈ t.params, ValueText rnd p.2.2.text

-- the draws of a turn start where those of the turn before end
theorem triple_makeTps (k n p : ℕ) {tps : List Tracepoint} :
    Triple (fun g ↦ At (Written tps) p g ∧
        run (forEach (makeTp rnd) (List.range' 1 k)) Globals.start = (.ok (), g))
      (forEach (makeTp rnd) (List.range' (k + 1) n))
      (fun _ g ↦ ∃ new, Generation rnd k p new n ∧ Written (tps ++ new) g) fun _ _ ↦ False := by
  induction n generalizing k tps p with
  | zero =>
    apply triple_pure
    intro g hg
    refine ⟨[], ⟨rfl, rfl, List.forall_mem_nil _, List.forall_mem_nil _⟩, ?_⟩
    rw [List.append_nil]
    exact hg.1.1
  | succ n ih =>
    rw [List.range'_succ, forEach_cons]
    apply triple_bind ((triple_makeTp (k + 1) p).forEach_concat _ _)
    intro _
    apply triple_each
    rintro g ⟨⟨t, ht, hg⟩, hrun⟩
    have hturn : run (forEach (makeTp rnd) (List.range' 1 (k + 1))) Globals.start = (.ok (), g) := by
      rw [List.range'_concat, one_mul, Nat.add_comm 1 k]
      exact hrun
    have hcVars : turnCVars rnd t.index = g.cVars := by
      rw [ht.index, turnCVars, hturn]
    apply (ih (k + 1) (tpEnd rnd p)).conseq
    · rintro _ rfl
      exact ⟨hg, hturn⟩
    · rintro _ g' ⟨new, hnew, hg'⟩
      rw [List.append_assoc, List.singleton_append] at hg'
      refine ⟨t :: new, ⟨?_, ?_, ?_, ?_⟩, hg'⟩
      · rw [List.map_cons, ht.index, hnew.index, List.range'_succ]
      · rw [List.map_cons, ht.names, hnew.names]
        rfl
      · rw [List.forall_mem_cons, hcVars]
        exact ⟨ht.wellScoped, hnew.wellScoped⟩
      · rw [List.forall_mem_cons]
        exact ⟨ht.values, hnew.values⟩
    · exact fun _ _ he ↦ he

end Turn

/-- What a run of the script has written: the files, the tables they are made from, and the draws
the names of the fields are from. -/
structure Generated (rnd : Random) (numTp : ℕ) (tps : List Tracepoint) (g : Globals) : Prop where
  index : tps.map Tracepoint.index = List.range' 1 numTp
  names : tps.map Tracepoint.names = (allNameStarts rnd numTp 0).map (List.map (nameAt rnd))
  files : g.files = tps.map Tracepoint.file ++
    [("generated_tp.h", header numTp (tps.map Tracepoint.call))]
  wellScoped : ∀ t ∈ tps, t.WellScoped (turnCVars rnd t.index)
  events : ∀ t ∈ tps, readEvent t.file.2 = some t.event
  values : ∀ t ∈ tps, ∀ p ∈ t.params, ValueText rnd p.2.2.text

/-- With a number for its argument the script goes on to the tracepoints. -/
theorem run_script (rnd : Random) {argv : List String} {arg : String} {numTp : ℤ}
    (harg : argv[1]? = some arg) (hnum : Python.int arg.toList = some numTp) (g : Globals) :
    run (script rnd argv) g = run (generate rnd numTp.toNat) g := by
  rw [script, harg]
  show run (do
    let numTp ← ofExcept ((Python.int arg.toList).elim (.error .valueError) .ok)
    generate rnd numTp.toNat) g = _
  rw [hnum]
  rfl

/-- The script writes one file for each tracepoint, and last the header with their calls in the same
order. -/
theorem script_generated (rnd : Random) {argv : List String} {arg : String} {numTp : ℤ}
    (harg : argv[1]? = some arg) (hnum : Python.int arg.toList = some numTp) :
    ∃ (g : Globals) (tps : List Tracepoint), run (script rnd argv) Globals.start = (.ok (), g) ∧
      Generated rnd numTp.toNat tps g := by
  have hstart : At (Written []) 0 Globals.start := ⟨⟨rfl, rfl⟩, rfl⟩
  have hloop := (@triple_makeTps rnd 0 numTp.toNat 0 []).holds Globals.start ⟨hstart, rfl⟩
  rcases hrun : run (forEach (makeTp rnd) (List.range' 1 numTp.toNat)) Globals.start with ⟨e | u, g⟩
  · rw [hrun] at hloop
    exact hloop.elim
  · rw [hrun] at hloop
    rcases hloop with ⟨tps, hnew, hg⟩
    have hheader : run (generate rnd numTp.toNat) Globals.start = (.ok (),
        { g with files := g.files ++ [("generated_tp.h", header numTp.toNat g.cTp)] }) := by
      rw [generate, run_bind_ok hrun]
      rfl
    refine ⟨_, tps, (run_script rnd harg hnum _).trans hheader, hnew.index, hnew.names, ?_,
      hnew.wellScoped, fun t ht ↦ (hnew.wellScoped t ht).readEvent_file, hnew.values⟩
    show g.files ++ [("generated_tp.h", header numTp.toNat g.cTp)] = _
    rw [hg.files, hg.cTp]
    rfl

end UstBench.Tpgen
