import UstBench.Reasoning.Decimal
import UstBench.Reasoning.Invocation
import UstBench.Tpgen.Generator

/-!
# The tracepoints in the generated files

A `.tp` file is an invocation of `TRACEPOINT_EVENT`, in which the parameters and the fields are
invocations again.  What `gen_tp` writes is read back as the event it was made of.
-/

namespace UstBench.Tpgen

open Reasoning Reasoning.CText

/-! ## Events -/

/-- The words of an expression of C that do not start with a digit. -/
def identifiers (expression : String) : List String :=
  ((expression.toList.splitOnP fun c ↦ !(c.isAlphanum || c = '_')).filter fun w ↦
    !(w.isEmpty || w.head?.any Char.isDigit)).map String.ofList

/-- A field of a tracepoint: one of the macros of LTTng with its arguments. -/
structure Field where
  type : String
  args : List String

def Field.text (f : Field) : String := f.type ++ "(" ++ ", ".intercalate f.args ++ ")"

/-- The arguments that are expressions, by the number of arguments of the macro: `ctf_string` has
two, `ctf_integer` and `ctf_float` three, those for arrays four and those for sequences five. -/
def Field.expressions (f : Field) : List String :=
  match f.args with
  | [_, e] => [e]
  | [_, _, e] => [e]
  | [_, _, e, length] => [e, length]
  | [_, _, e, _, length] => [e, length]
  | _ => []

/-- `ctf_string` has the name of its field in front, the other macros a type before it. -/
def Field.name (f : Field) : String :=
  match f.args with
  | [name, _] => name
  | _ :: name :: _ => name
  | _ => ""

def Field.variables (f : Field) : List String := f.expressions.flatMap identifiers

/-- The length of an array or a sequence. -/
def Field.length (f : Field) : Option String :=
  match f.args with
  | [_, _, _, length] => some length
  | [_, _, _, _, length] => some length
  | _ => none

/-- The macros of the fields, with the numbers of their arguments. -/
def ctfMacros : List (String × ℕ) :=
  [("ctf_string", 2), ("ctf_integer", 3), ("ctf_float", 3), ("ctf_array", 4),
   ("ctf_array_text", 4), ("ctf_sequence", 5), ("ctf_sequence_text", 5)]

/-- An event, the types and the names of its parameters, and its fields. -/
structure Event where
  provider : String
  name : String
  params : List (String × String)
  fields : List Field

/-! ## Reading -/

/-- The types and the names that alternate in `TP_ARGS`. -/
def pairs : List String → Option (List (String × String))
  | [] => some []
  | [_] => none
  | type :: name :: rest => (pairs rest).map fun ps ↦ (type, name) :: ps

def readField (call : List Char × List (List Char)) : Option Field :=
  let f : Field := ⟨String.ofList call.1, call.2.map String.ofList⟩
  if (f.type, f.args.length) ∈ ctfMacros then some f else none

/-- The event of a `.tp` file. -/
def readEvent (text : String) : Option Event :=
  match argumentsOf "TRACEPOINT_EVENT".toList text.toList with
  | some [provider, name, args, fields] =>
    match argumentsOf "TP_ARGS".toList args, argumentsOf "TP_FIELDS".toList fields with
    | some params, some [body] => do
      let params ← pairs (params.map String.ofList)
      let calls ← invocations body
      let fields ← calls.mapM readField
      pure ⟨String.ofList provider, String.ofList name, params, fields⟩
    | _, _ => none
  | _ => none

/-! ## What `gen_tp` writes -/

/-- A field that can be read. -/
structure Field.Readable (f : Field) : Prop where
  known : (f.type, f.args.length) ∈ ctfMacros
  atoms : ∀ a ∈ f.args, Atom a.toList

/-- The macro and its arguments as they are read. -/
def Field.invocation (f : Field) : List Char × List (List Char) :=
  (f.type.toList, f.args.map String.toList)

theorem Field.toList_text (f : Field) : f.text.toList = written f.invocation := by
  unfold Field.text written Field.invocation
  simp [String.toList_intercalate]

theorem Field.Readable.invocation {f : Field} (h : f.Readable) : CText.Readable f.invocation := by
  -- the macros are a short list
  have hall : ∀ m ∈ ctfMacros, m.1.toList.all isIdentifier = true ∧ m.1.toList ≠ [] ∧ m.2 ≠ 0 := by
    decide
  have hmember := hall _ h.known
  constructor
  case name => exact hmember.1
  case named => exact hmember.2.1
  case atoms => exact List.forall_mem_map.mpr h.atoms
  case nonempty =>
    show f.args.map String.toList ≠ []
    rw [ne_eq, List.map_eq_nil_iff, ← List.length_eq_zero_iff]
    exact hmember.2.2

theorem readField_invocation {f : Field} (h : f.Readable) : readField f.invocation = some f := by
  have hfield : (⟨String.ofList f.invocation.1, f.invocation.2.map String.ofList⟩ : Field) = f := by
    show (⟨String.ofList f.type.toList, (f.args.map String.toList).map String.ofList⟩ : Field) = f
    simp
  unfold readField
  rw [hfield]
  exact if_pos h.known

theorem pairs_flatMap (ps : List (String × String)) :
    pairs (ps.flatMap fun p ↦ [p.1, p.2]) = some ps := by
  induction ps with
  | nil => rfl
  | cons p ps ih =>
    show (pairs (ps.flatMap fun p ↦ [p.1, p.2])).map _ = _
    rw [ih]
    rfl

/-- Joined pairs are joined parts. -/
theorem intercalate_pairs (sep : List Char) (ps : List (List Char × List Char)) :
    sep.intercalate (ps.map fun p ↦ p.1 ++ sep ++ p.2) =
      sep.intercalate (ps.flatMap fun p ↦ [p.1, p.2]) := by
  induction ps with
  | nil => rfl
  | cons p ps ih =>
    cases ps with
    | nil => simp [List.intercalate_cons_cons]
    | cons p' ps =>
      rw [List.map_cons] at ih
      rw [List.map_cons, List.map_cons, List.intercalate_cons_cons, ih]
      simp [List.intercalate_cons_cons]

/-- The parameters as they stand in `TP_ARGS`. -/
def tpArgs (params : List (String × String)) : List Char × List (List Char) :=
  ("TP_ARGS".toList, params.flatMap fun p ↦ [p.1.toList, p.2.toList])

section Written

variable {provider name : String} {params : List (String × String)} {fields : List Field}

theorem readable_tpArgs (h : ∀ p ∈ params, Atom p.1.toList ∧ Atom p.2.toList) (hne : params ≠ []) :
    CText.Readable (tpArgs params) := by
  constructor
  case name => rfl
  case named => exact List.cons_ne_nil _ _
  case atoms =>
    intro a ha
    obtain ⟨p, hp, ha⟩ := List.mem_flatMap.mp ha
    rcases List.mem_pair.mp ha with rfl | rfl
    · exact (h p hp).1
    · exact (h p hp).2
  case nonempty =>
    obtain ⟨p, ps, rfl⟩ := List.exists_cons_of_ne_nil hne
    exact List.cons_ne_nil _ _

theorem readable_invocations (h : ∀ f ∈ fields, f.Readable) :
    ∀ call ∈ fields.map Field.invocation, CText.Readable call :=
  List.forall_mem_map.mpr fun f hf ↦ (h f hf).invocation

theorem mapM_readField (h : ∀ f ∈ fields, f.Readable) :
    (fields.map Field.invocation).mapM readField = some fields := by
  rw [List.mapM_map]
  have hread := @mapM_eq_some_map _ _ (readField ∘ Field.invocation) id fields
    fun f hf ↦ readField_invocation (h f hf)
  rw [hread, List.map_id]

/-- The fields with line ends and tabs between them. -/
def fieldLines (fields : List Field) : List Char :=
  ['\n', '\t', '\t'].intercalate ((fields.map Field.invocation).map written)

/-- The same on lines of their own. -/
def fieldBlock (fields : List Field) : List Char :=
  "\n\t\t".toList ++ (fieldLines fields ++ "\n\t".toList)

def tpFields (fields : List Field) : List Char :=
  "TP_FIELDS".toList ++ '(' :: (fieldBlock fields ++ [')'])

theorem walk_fieldBlock (h : ∀ f ∈ fields, f.Readable) (depth : ℕ) :
    walk comma depth (fieldBlock fields) = some depth := by
  unfold fieldBlock fieldLines
  rw [walk_append (walk_white (by decide) depth),
    walk_append (walk_sequence (readable_invocations h) (by decide) depth),
    walk_white (by decide) depth]

theorem argumentsOf_tpFields (h : ∀ f ∈ fields, f.Readable) (hne : fields ≠ []) :
    argumentsOf "TP_FIELDS".toList (tpFields fields) = some [fieldLines fields] := by
  have hcall := @argumentsOf_call "TP_FIELDS".toList [fieldBlock fields] rfl
    (List.forall_mem_singleton.mpr (walk_fieldBlock h 0)) (List.cons_ne_nil _ _)
  have hlines : Trimmed (fieldLines fields) ∧ fieldLines fields ≠ [] :=
    trimmed_sequence (readable_invocations h) (by simpa using hne)
  rw [List.intercalate_singleton, List.map_singleton] at hcall
  unfold tpFields
  rw [hcall, fieldBlock, trim_padded (by decide) (by decide) hlines.1 hlines.2]

theorem trimmed_tpFields : Trimmed (tpFields fields) ∧ tpFields fields ≠ [] := by
  unfold tpFields
  refine ⟨⟨?_, ?_⟩, List.append_ne_nil_of_left_ne_nil (List.cons_ne_nil _ _) _⟩
  · rintro _ ⟨⟩
    rfl
  · rw [← List.cons_append, ← List.append_assoc, List.getLast?_concat]
    rintro _ ⟨⟩
    rfl

/-- The arguments of `TRACEPOINT_EVENT`, on lines of their own. -/
def eventLines (provider name : String) (params : List (String × String)) (fields : List Field) :
    List (List Char) :=
  ["\n\t".toList ++ provider.toList, "\n\t".toList ++ name.toList,
   "\n\t".toList ++ written (tpArgs params), "\n\t".toList ++ (tpFields fields ++ "\n".toList)]

theorem toList_genTp : (genTp provider name (params.map fun p ↦ p.1 ++ ", " ++ p.2)
    (fields.map Field.text)).toList = "TRACEPOINT_EVENT".toList ++
      '(' :: ([','].intercalate (eventLines provider name params fields) ++ [')']) := by
  have hparams : [',', ' '].intercalate ((params.map fun p ↦ p.1 ++ ", " ++ p.2).map String.toList) =
      [',', ' '].intercalate (tpArgs params).2 := by
    have hmap : (params.map fun p ↦ p.1 ++ ", " ++ p.2).map String.toList =
        (params.map fun p ↦ (p.1.toList, p.2.toList)).map fun p ↦ p.1 ++ [',', ' '] ++ p.2 := by
      rw [List.map_map, List.map_map]
      exact List.map_congr_left fun p _ ↦ by simp
    rw [hmap, intercalate_pairs, List.flatMap_map]
    rfl
  have hfields : ['\n', '\t', '\t'].intercalate ((fields.map Field.text).map String.toList) =
      fieldLines fields := by
    unfold fieldLines
    rw [List.map_map, List.map_map]
    congr 1
    exact List.map_congr_left fun f _ ↦ f.toList_text
  unfold genTp eventLines written tpFields fieldBlock
  -- unfolding `tpArgs` as a whole would spell out the string
  have hname : (tpArgs params).1 = "TP_ARGS".toList := rfl
  rw [← hparams, ← hfields, hname]
  simp [String.toList_intercalate, List.intercalate_cons_cons]

/-- What an event needs for its text to be readable. -/
structure Event.Readable (e : Event) : Prop where
  provider : Atom e.provider.toList
  name : Atom e.name.toList
  params : ∀ p ∈ e.params, Atom p.1.toList ∧ Atom p.2.toList
  declared : e.params ≠ []
  fields : ∀ f ∈ e.fields, f.Readable
  nonempty : e.fields ≠ []

variable {e : Event}

theorem walk_eventLines (h : e.Readable) :
    ∀ a ∈ eventLines e.provider e.name e.params e.fields, walk comma 0 a = some 0 := by
  have hfront : ∀ c ∈ "\n\t".toList, isWhite c = true := by decide
  simp only [eventLines, List.forall_mem_cons, List.not_mem_nil, false_imp_iff, implies_true,
    and_true]
  refine ⟨h.provider.walk hfront, h.name.walk hfront, ?_, ?_⟩
  · rw [walk_append (walk_white hfront 0)]
    exact (readable_tpArgs h.params h.declared).walk_written 0
  · -- the commas of the fields are all in the parentheses of `TP_FIELDS`
    have hfields : walk comma 0 (tpFields e.fields) = some 0 :=
      walk_invocation rfl rfl (walk_fieldBlock h.fields 1) rfl
    rw [walk_append (walk_white hfront 0), walk_append hfields]
    exact walk_white (by decide) 0

theorem map_trim_eventLines (h : e.Readable) :
    (eventLines e.provider e.name e.params e.fields).map trim =
      [e.provider.toList, e.name.toList, written (tpArgs e.params), tpFields e.fields] := by
  have hfront : ∀ c ∈ "\n\t".toList, isWhite c = true := by decide
  have hargs := @trimmed_sequence [tpArgs e.params] []
    (List.forall_mem_singleton.mpr (readable_tpArgs h.params h.declared)) (List.cons_ne_nil _ _)
  rw [List.map_singleton, List.intercalate_singleton] at hargs
  have htrim := trim_padded hfront (List.forall_mem_nil _) hargs.1 hargs.2
  rw [List.append_nil] at htrim
  rw [eventLines, List.map_cons, List.map_cons, List.map_cons, List.map_singleton,
    h.provider.trim_front hfront, h.name.trim_front hfront, htrim,
    trim_padded hfront (by decide) trimmed_tpFields.1 trimmed_tpFields.2]

/-- The text of an event is read as the event. -/
theorem readEvent_genTp (h : e.Readable) :
    readEvent (genTp e.provider e.name (e.params.map fun p ↦ p.1 ++ ", " ++ p.2)
      (e.fields.map Field.text)) = some e := by
  -- from outside to inside: the event, its parameters and its fields
  have houter := @argumentsOf_call "TRACEPOINT_EVENT".toList _ rfl (walk_eventLines h)
    (List.cons_ne_nil _ _)
  rw [map_trim_eventLines h] at houter
  have hargs := (readable_tpArgs h.params h.declared).argumentsOf_written
  have hpairs : pairs ((tpArgs e.params).2.map String.ofList) = some e.params := by
    unfold tpArgs
    simpa [List.map_flatMap] using pairs_flatMap e.params
  have hcalls : invocations (fieldLines e.fields) = some (e.fields.map Field.invocation) :=
    invocations_sequence (readable_invocations h.fields) (by decide) (by simpa using h.nonempty)
  unfold readEvent
  rw [toList_genTp, houter]
  show (match argumentsOf (tpArgs e.params).1 (written (tpArgs e.params)),
    argumentsOf "TP_FIELDS".toList (tpFields e.fields) with
    | some params, some [body] => _
    | _, _ => none) = some e
  rw [hargs, argumentsOf_tpFields h.fields h.nonempty]
  show ((pairs _).bind fun params ↦ (invocations _).bind fun calls ↦ (calls.mapM readField).bind
    fun fields ↦ some (Event.mk _ _ params fields)) = _
  rw [hpairs, hcalls, Option.bind_some, Option.bind_some, mapM_readField h.fields,
    String.ofList_toList, String.ofList_toList]
  rfl

end Written

end UstBench.Tpgen
