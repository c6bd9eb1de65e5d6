import UstBench.Reasoning.CText
import UstBench.Tpgen.Scoping

/-!
# What `GENERATED_TP` expands to

The benchmark includes `generated_tp.h` and has `GENERATED_TP` for the body of its loop.  The header
is written line by line, and is read by a preprocessor that joins lines and looks for directives.
-/

namespace UstBench.Tpgen

open Reasoning Reasoning.Prog Reasoning.CText

/-- Nothing that ends a statement or a line, or joins two lines. -/
def Plain (s : String) : Prop := ∀ c ∈ [';', '\\', '\n'], c ∉ s.toList

instance (s : String) : Decidable (Plain s) := List.decidableBAll _ _

/-- Each of the three by itself. -/
theorem forall_marks {P : Char → Prop} (h : P ';' ∧ P '\\' ∧ P '\n') :
    ∀ c ∈ [';', '\\', '\n'], P c := by
  rw [List.forall_mem_cons, List.forall_mem_cons, List.forall_mem_singleton]
  exact h

theorem Plain.append {s t : String} (hs : Plain s) (ht : Plain t) : Plain (s ++ t) := by
  intro c hc
  rw [String.toList_append, List.mem_append, not_or]
  exact ⟨hs c hc, ht c hc⟩

theorem Plain.intercalate {sep : String} {ss : List String} (hsep : Plain sep)
    (hs : ∀ s ∈ ss, Plain s) : Plain (sep.intercalate ss) := by
  intro c hc
  rw [String.toList_intercalate]
  exact notMem_intercalate (hsep c hc) (List.forall_mem_map.mpr fun s hm ↦ hs s hm c hc)

theorem plain_toString (n : ℕ) : Plain (toString n) := by
  have hdigit : ∀ c ∈ [';', '\\', '\n'], c.isDigit = false := forall_marks (by decide)
  exact fun c hc ↦ Decimal.notMem_toString (hdigit c hc) n

/-- Values are plain if floats are. -/
theorem ValueText.plain {rnd : Random} (hfloat : ∀ n, Plain (rnd.float n)) {text : String}
    (h : ValueText rnd text) : Plain text := by
  rcases h with ⟨n, rfl⟩ | h
  · exact hfloat n
  · exact fun c hc ↦ h c (List.mem_cons_of_mem ',' hc)

/-! ## The header -/

section Header

variable {numTp : ℕ} {ss : List String}

/-- The line that includes the header of a tracepoint. -/
theorem toList_include (i : ℕ) : ("#include \"random_tp_" ++ toString i ++ ".tp.h\"").toList =
    "#include \"".toList ++ ((tpName i ++ ".tp.h").toList ++ ['"']) := by
  simp [tpName]

theorem includeFile_tp (i : ℕ) :
    includeFile ("#include \"random_tp_" ++ toString i ++ ".tp.h\"").toList =
      some (tpName i ++ ".tp.h").toList := by
  have hnum : '"' ∉ (toString i).toList := Decimal.notMem_toString (by decide) i
  rw [toList_include, includeFile_line]
  simpa [tpName] using hnum

theorem plain_include (i : ℕ) {c : Char} (hc : c = '\\' ∨ c = '\n') :
    c ∉ ("#include \"random_tp_" ++ toString i ++ ".tp.h\"").toList := by
  have hdigit : c.isDigit = false := by rcases hc with rfl | rfl <;> rfl
  have hnum : c ∉ (toString i).toList := Decimal.notMem_toString hdigit i
  rcases hc with rfl | rfl <;> simpa using hnum

/-- A definition that goes on over the lines `calls`. -/
theorem lines_define {calls : List (List Char)} (hs : ∀ l ∈ calls, '\\' ∉ l)
    (hn : ∀ l ∈ calls, '\n' ∉ l) :
    lines ("#define GENERATED_TP".toList ++
        '\\' :: '\n' :: '\t' :: (['\\', '\n', '\t'].intercalate calls ++ ['\n'])) =
      ["#define GENERATED_TP".toList ++ '\t' :: ['\t'].intercalate calls, []] := by
  have hsplice : splice ("#define GENERATED_TP".toList ++
      '\\' :: '\n' :: '\t' :: (['\\', '\n', '\t'].intercalate calls ++ ['\n'])) =
      ("#define GENERATED_TP".toList ++ '\t' :: ['\t'].intercalate calls) ++ '\n' :: [] := by
    rw [splice_append (by decide)]
    show _ ++ splice ('\t' :: (['\\', '\n', '\t'].intercalate calls ++ ['\n'])) = _
    rw [splice_cons (by decide), splice_intercalate hs, List.append_assoc]
    rfl
  unfold lines
  rw [hsplice, List.splitOn_append_cons_self_of_not_mem]
  · rfl
  · rw [List.mem_append, List.mem_cons, not_or, not_or]
    exact ⟨by decide, by decide, notMem_intercalate (by decide) hn⟩

/-- The include lines of the header. -/
def includeLines (numTp : ℕ) : List (List Char) :=
  (List.range' 1 numTp).map fun i ↦ ("#include \"random_tp_" ++ toString i ++ ".tp.h\"").toList

theorem toList_header (calls : List String) : (header numTp calls).toList =
    ['\n'].intercalate (includeLines numTp) ++ '\n' :: ([] ++ '\n' ::
      ("#define GENERATED_TP".toList ++ '\\' :: '\n' :: '\t' ::
        (['\\', '\n', '\t'].intercalate (calls.map String.toList) ++ ['\n']))) := by
  simp [header, includeLines, String.toList_intercalate, List.map_map, Function.comp_def]

theorem toList_calls :
    (ss.map (· ++ ";")).map String.toList = (ss.map String.toList).map (· ++ [';']) := by
  rw [List.map_map, List.map_map]
  exact List.map_congr_left fun s _ ↦ String.toList_append

theorem Plain.notMem {c : Char} (h : ∀ s ∈ ss, Plain s) (hc : c = '\\' ∨ c = '\n') :
    ∀ l ∈ (ss.map String.toList).map (· ++ [';']), c ∉ l := by
  rw [List.forall_mem_map, List.forall_mem_map]
  intro s hs hmem
  rcases List.mem_append.mp hmem with hmem | hmem
  · rcases hc with rfl | rfl
    · exact h s hs '\\' (by decide) hmem
    · exact h s hs '\n' (by decide) hmem
  · rcases hc with rfl | rfl <;> exact absurd hmem (by decide)

/-- The header as logical lines: its includes, empty ones, and one definition. -/
theorem lines_header (hplain : ∀ s ∈ ss, Plain s) :
    ∃ k, lines (header numTp (ss.map (· ++ ";"))).toList =
      includeLines numTp ++ List.replicate k [] ++
        ["#define GENERATED_TP".toList ++ '\t' ::
          ['\t'].intercalate ((ss.map String.toList).map (· ++ [';'])), []] := by
  have hdefine := lines_define (Plain.notMem hplain (.inl rfl)) (Plain.notMem hplain (.inr rfl))
  rw [toList_header, toList_calls]
  by_cases hnone : includeLines numTp = []
  · refine ⟨2, ?_⟩
    rw [hnone, List.intercalate_nil, lines_append List.not_mem_nil List.not_mem_nil,
      lines_append List.not_mem_nil List.not_mem_nil, hdefine]
    rfl
  · refine ⟨1, ?_⟩
    rw [lines_intercalate ?_ ?_ hnone, lines_append List.not_mem_nil List.not_mem_nil, hdefine,
      List.append_assoc]
    · rfl
    · exact List.forall_mem_map.mpr fun i _ ↦ plain_include i (.inl rfl)
    · exact List.forall_mem_map.mpr fun i _ ↦ plain_include i (.inr rfl)

theorem includes_header (hplain : ∀ s ∈ ss, Plain s) :
    includes (header numTp (ss.map (· ++ ";"))).toList =
      (List.range' 1 numTp).map fun i ↦ (tpName i ++ ".tp.h").toList := by
  obtain ⟨k, hlines⟩ := @lines_header numTp ss hplain
  have hblank : (List.replicate k []).filterMap includeFile = [] := by
    rw [List.filterMap_eq_nil_iff]
    intro l hl
    rw [List.eq_of_mem_replicate hl]
    rfl
  unfold includes
  rw [hlines, List.filterMap_append, List.filterMap_append, hblank, includeLines,
    List.filterMap_map, List.append_nil]
  show _ ++ [] = _
  rw [List.append_nil, ← List.filterMap_eq_map]
  exact List.filterMap_congr fun i _ ↦ includeFile_tp i

/-- The header defines one macro, whose replacement is the calls with tabs between them. -/
theorem definitions_header (hplain : ∀ s ∈ ss, Plain s)
    (hblank : ∀ s ∈ ss, ∀ c ∈ s.toList.head?, isBlank c = false) :
    definitions (header numTp (ss.map (· ++ ";"))).toList = [("GENERATED_TP".toList,
      ['\t'].intercalate ((ss.map String.toList).map (· ++ [';'])))] := by
  obtain ⟨k, hlines⟩ := @lines_header numTp ss hplain
  have hothers : (includeLines numTp ++ List.replicate k []).filterMap definition = [] := by
    rw [List.filterMap_eq_nil_iff, List.forall_mem_append, includeLines, List.forall_mem_map]
    constructor
    · intro i _
      rw [toList_include]
      rfl
    · intro l hl
      rw [List.eq_of_mem_replicate hl]
      rfl
  have hdefine := @definition_line "GENERATED_TP".toList
    (['\t'].intercalate ((ss.map String.toList).map (· ++ [';']))) '\t' rfl rfl rfl
    (head_statements (List.forall_mem_map.mpr hblank))
  unfold definitions
  rw [hlines, List.filterMap_append, hothers, List.nil_append]
  show (match definition ("#define ".toList ++ ("GENERATED_TP".toList ++ '\t' :: _)) with
    | none => []
    | some d => [d]) = _
  rw [hdefine]

end Header

/-! ## The calls -/

/-- The call of a tracepoint without its semicolon. -/
def Tracepoint.statement (t : Tracepoint) : String :=
  "tracepoint(" ++ providerName t.index ++ ", " ++ tpName t.index ++ ", " ++
    ", ".intercalate t.values ++ ")"

theorem Tracepoint.call_eq (t : Tracepoint) : t.call = t.statement ++ ";" := by
  unfold call statement
  simp only [String.append_assoc]
  rfl

theorem comma_notMem_providerName (i : ℕ) : ',' ∉ (providerName i).toList := by
  have hnum : ',' ∉ (toString i).toList := Decimal.notMem_toString (by decide) i
  unfold providerName
  simpa using hnum

theorem comma_notMem_tpName (i : ℕ) : ',' ∉ (tpName i).toList := by
  have hnum : ',' ∉ (toString i).toList := Decimal.notMem_toString (by decide) i
  unfold tpName
  simpa using hnum

theorem Tracepoint.head_statement (t : Tracepoint) : t.statement.toList.head? = some 't' := by
  unfold statement
  simp only [String.append_assoc]
  rw [String.toList_append]
  rfl

theorem Tracepoint.plain_statement {t : Tracepoint}
    (h : ∀ p ∈ t.params, Plain p.2.2.text) : Plain t.statement := by
  have hopen : Plain "tracepoint(" := by decide
  have hcomma : Plain ", " := by decide
  have hclose : Plain ")" := by decide
  have hprovider : Plain (providerName t.index) := Plain.append (by decide) (plain_toString t.index)
  have htp : Plain (tpName t.index) := Plain.append (by decide) (plain_toString t.index)
  have hvalues : ∀ v ∈ t.values, Plain v := List.forall_mem_map.mpr h
  exact (((((hopen.append hprovider).append hcomma).append htp).append hcomma).append
    (hcomma.intercalate hvalues)).append hclose

/-- The call of a tracepoint is read as its provider, its name and its values. -/
theorem Tracepoint.readCall_statement {t : Tracepoint} {c : CVars} (h : t.WellScoped c) :
    readCall t.statement.toList = some ("tracepoint".toList,
      (providerName t.index :: tpName t.index :: t.values).map String.toList) := by
  have hne : t.values ≠ [] := by
    rw [← List.length_pos_iff, values, List.length_map]
    exact h.count.1
  obtain ⟨v, vs, hvalues⟩ := List.exists_cons_of_ne_nil hne
  have htext : t.statement.toList = "tracepoint".toList ++ '(' :: ([',', ' '].intercalate
      ((providerName t.index :: tpName t.index :: t.values).map String.toList) ++ [')']) := by
    rw [hvalues, List.map_cons, List.map_cons, List.map_cons, List.intercalate_cons_cons,
      List.intercalate_cons_cons]
    unfold statement
    rw [hvalues]
    simp [String.toList_intercalate]
  have hcommas : ∀ x ∈ t.values, ',' ∉ x.toList :=
    List.forall_mem_map.mpr h.commas
  rw [htext, List.map_cons, readCall_call rfl]
  · have hhead : (providerName t.index).toList.head? = some 'b' := by
      unfold providerName
      rw [String.toList_append]
      rfl
    rw [hhead]
    decide
  · rw [List.forall_mem_cons, List.forall_mem_map, List.forall_mem_cons]
    exact ⟨comma_notMem_providerName t.index, comma_notMem_tpName t.index, hcommas⟩

/-! ## A run -/

/-- What a preprocessor reads of the header with the calls of the tracepoints. -/
theorem Generated.header_reads {rnd : Random} (hfloat : ∀ n, Plain (rnd.float n)) {numTp : ℕ}
    {tps : List Tracepoint} {g : Globals} (h : Generated rnd numTp tps g) :
    ∃ replacement, includes (header numTp (tps.map Tracepoint.call)).toList =
        tps.map (fun t ↦ (t.file.1 ++ ".h").toList) ∧
      definitions (header numTp (tps.map Tracepoint.call)).toList =
        [("GENERATED_TP".toList, replacement)] ∧
      (statements replacement).map readCall = tps.map fun t ↦ some ("tracepoint".toList,
        (providerName t.index :: tpName t.index :: t.values).map String.toList) := by
  have hcalls : tps.map Tracepoint.call = (tps.map Tracepoint.statement).map (· ++ ";") := by
    rw [List.map_map]
    exact List.map_congr_left fun t _ ↦ t.call_eq
  have hplains : ∀ s ∈ tps.map Tracepoint.statement, Plain s := by
    rw [List.forall_mem_map]
    intro t ht
    exact t.plain_statement fun p hp ↦ (h.values t ht p hp).plain hfloat
  have hblank : ∀ s ∈ tps.map Tracepoint.statement, ∀ c ∈ s.toList.head?, isBlank c = false := by
    rw [List.forall_mem_map]
    intro t _ c hc
    rw [t.head_statement] at hc
    cases hc
    rfl
  have hread : (tps.map Tracepoint.statement).map (fun s ↦ readCall s.toList) =
      tps.map fun t ↦ some ("tracepoint".toList,
        (providerName t.index :: tpName t.index :: t.values).map String.toList) := by
    rw [List.map_map]
    apply List.map_congr_left
    intro t ht
    rw [Function.comp_apply, Tracepoint.readCall_statement (h.wellScoped t ht)]
  rw [hcalls]
  refine ⟨_, ?_, definitions_header hplains hblank, ?_⟩
  · rw [includes_header hplains, ← h.index, List.map_map]
    apply List.map_congr_left
    intro t _
    show (tpName t.index ++ ".tp.h").toList = (tpName t.index ++ ".tp" ++ ".h").toList
    rw [String.append_assoc]
    rfl
  · rw [statements_intercalate, List.map_map]
    · exact hread
    · exact List.forall_mem_map.mpr fun s hs ↦ hplains s hs ';' (by decide)
    · exact List.forall_mem_map.mpr hblank

/-- Whatever the random outcomes are: the header the script writes includes the headers made of the
tracepoints' files, in their order, and `GENERATED_TP` expands to one call for every tracepoint, in
the same order, with its provider, its name and its values.  The files are read as the events of the
tracepoints, whose types and values are those of the table of their turn. -/
theorem header_expands (rnd : Random) (hfloat : ∀ n, Plain (rnd.float n)) {argv : List String}
    {arg : String} {numTp : ℤ} (harg : argv[1]? = some arg)
    (hnum : Python.int arg.toList = some numTp) :
    ∃ (g : Globals) (tps : List Tracepoint) (text : String) (replacement : List Char),
      run (script rnd argv) Globals.start = (.ok (), g) ∧
      g.files = tps.map Tracepoint.file ++ [("generated_tp.h", text)] ∧
      tps.map Tracepoint.index = List.range' 1 numTp.toNat ∧
      (∀ t ∈ tps, t.WellScoped (turnCVars rnd t.index) ∧ readEvent t.file.2 = some t.event) ∧
      includes text.toList = tps.map (fun t ↦ (t.file.1 ++ ".h").toList) ∧
      definitions text.toList = [("GENERATED_TP".toList, replacement)] ∧
      (statements replacement).map readCall = tps.map fun t ↦ some ("tracepoint".toList,
        (providerName t.index :: tpName t.index :: t.values).map String.toList) := by
  obtain ⟨g, tps, hr, hg⟩ := script_generated rnd harg hnum
  obtain ⟨replacement, hincludes, hdefinitions, hcalls⟩ := hg.header_reads hfloat
  exact ⟨g, tps, _, replacement, hr, hg.files, hg.index,
    fun t ht ↦ ⟨hg.wellScoped t ht, hg.events t ht⟩, hincludes, hdefinitions, hcalls⟩

theorem header_expands_three :
    ∃ (g : Globals) (tps : List Tracepoint) (text : String) (replacement : List Char),
      run (script ⟨id, fun _ ↦ "0.5", fun _ ↦ by decide⟩ ["tpgen.py", "3"]) Globals.start =
        (.ok (), g) ∧
      g.files = tps.map Tracepoint.file ++ [("generated_tp.h", text)] ∧
      tps.map Tracepoint.index = [1, 2, 3] ∧
      (∀ t ∈ tps, t.WellScoped (turnCVars ⟨id, fun _ ↦ "0.5", fun _ ↦ by decide⟩ t.index) ∧
        readEvent t.file.2 = some t.event) ∧
      includes text.toList = tps.map (fun t ↦ (t.file.1 ++ ".h").toList) ∧
      definitions text.toList = [("GENERATED_TP".toList, replacement)] ∧
      (statements replacement).map readCall = tps.map fun t ↦ some ("tracepoint".toList,
        (providerName t.index :: tpName t.index :: t.values).map String.toList) :=
  @header_expands ⟨id, fun _ ↦ "0.5", fun _ ↦ by decide⟩ (fun _ ↦ show Plain "0.5" by decide) _ "3"
    3 rfl (by decide)

end UstBench.Tpgen
