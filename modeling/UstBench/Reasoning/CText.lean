import Mathlib.Data.List.Infix
import Mathlib.Tactic.Common

/-!
# What the preprocessor reads

A C text as logical lines, the files its directives include, the replacements of its macros without
parameters, and a replacement as a sequence of calls.
-/

namespace Reasoning.CText

/-- What holds of the characters of a text is decided by going through the text, not through all
characters. -/
instance (priority := 2000) decidableForallMem {p : Char → Prop} [DecidablePred p] (s : List Char) :
    Decidable (∀ c ∈ s, p c) :=
  List.decidableBAll p s

/-! ## Lines -/

/-- A line that ends in a backslash goes on in the next one. -/
def splice : List Char → List Char
  | '\\' :: '\n' :: cs => splice cs
  | c :: cs => c :: splice cs
  | [] => []

def lines (text : List Char) : List (List Char) := (splice text).splitOn '\n'

theorem splice_cons {c : Char} (hc : c ≠ '\\') (cs : List Char) :
    splice (c :: cs) = c :: splice cs := by
  rw [splice.eq_2]
  rintro _ rfl
  exact absurd rfl hc

theorem splice_append {s : List Char} (hs : '\\' ∉ s) (t : List Char) :
    splice (s ++ t) = s ++ splice t := by
  induction s with
  | nil => rfl
  | cons c s ih =>
    rw [List.mem_cons, not_or] at hs
    rw [List.cons_append, splice_cons (Ne.symm hs.1), ih hs.2, List.cons_append]

theorem lines_append {s : List Char} (hs : '\\' ∉ s) (hn : '\n' ∉ s) (t : List Char) :
    lines (s ++ '\n' :: t) = s :: lines t := by
  unfold lines
  rw [splice_append hs, splice_cons (by decide), List.splitOn_append_cons_self_of_not_mem hn]

theorem notMem_intercalate {c : Char} {sep : List Char} {ls : List (List Char)} (hsep : c ∉ sep)
    (h : ∀ l ∈ ls, c ∉ l) : c ∉ sep.intercalate ls := by
  induction ls with
  | nil => exact List.not_mem_nil
  | cons l ls ih =>
    rw [List.forall_mem_cons] at h
    cases ls with
    | nil =>
      rw [List.intercalate_singleton]
      exact h.1
    | cons l' ls =>
      rw [List.intercalate_cons_cons, List.mem_append, List.mem_append, not_or, not_or]
      exact ⟨⟨h.1, hsep⟩, ih h.2⟩

/-- Lines of their own, with a text behind the last one. -/
theorem lines_intercalate {ls : List (List Char)} (hs : ∀ l ∈ ls, '\\' ∉ l)
    (hn : ∀ l ∈ ls, '\n' ∉ l) (hne : ls ≠ []) (t : List Char) :
    lines (['\n'].intercalate ls ++ '\n' :: t) = ls ++ lines t := by
  induction ls with
  | nil => exact absurd rfl hne
  | cons l ls ih =>
    rw [List.forall_mem_cons] at hs hn
    cases ls with
    | nil =>
      rw [List.intercalate_singleton, lines_append hs.1 hn.1]
      rfl
    | cons l' ls =>
      rw [List.intercalate_cons_cons, List.append_assoc, List.append_assoc]
      show lines (l ++ '\n' :: (['\n'].intercalate (l' :: ls) ++ '\n' :: t)) = _
      rw [lines_append hs.1 hn.1, ih hs.2 hn.2 (List.cons_ne_nil _ _)]
      rfl

/-- Lines that all go on in the next one are a single line. -/
theorem splice_intercalate {ls : List (List Char)} (hs : ∀ l ∈ ls, '\\' ∉ l) (t : List Char) :
    splice (['\\', '\n', '\t'].intercalate ls ++ t) = ['\t'].intercalate ls ++ splice t := by
  induction ls with
  | nil => rfl
  | cons l ls ih =>
    rw [List.forall_mem_cons] at hs
    cases ls with
    | nil => rw [List.intercalate_singleton, List.intercalate_singleton, splice_append hs.1]
    | cons l' ls =>
      rw [List.intercalate_cons_cons, List.intercalate_cons_cons, List.append_assoc,
        List.append_assoc, splice_append hs.1, List.append_assoc, List.append_assoc, ← ih hs.2]
      rfl

/-! ## Directives -/

def isBlank (c : Char) : Bool := c = ' ' ∨ c = '\t'

def isIdentifier (c : Char) : Bool := c.isAlphanum ∨ c = '_'

/-- What is behind a word in a line that starts with it. -/
def behind (word line : List Char) : Option (List Char) :=
  if word <+: line then some (line.drop word.length) else none

/-- The file of an `#include` in quotes. -/
def includeFile (line : List Char) : Option (List Char) :=
  (behind "#include \"".toList line).map fun rest ↦ rest.takeWhile fun c ↦ c ≠ '"'

/-- The name and the replacement of a `#define`. -/
def definition (line : List Char) : Option (List Char × List Char) :=
  (behind "#define ".toList line).map fun rest ↦
    (rest.takeWhile isIdentifier, (rest.dropWhile isIdentifier).dropWhile isBlank)

def includes (text : List Char) : List (List Char) := (lines text).filterMap includeFile

def definitions (text : List Char) : List (List Char × List Char) :=
  (lines text).filterMap definition

theorem behind_append (word rest : List Char) : behind word (word ++ rest) = some rest := by
  unfold behind
  rw [if_pos (List.prefix_append _ _), List.drop_left]

/-- A text in front of what is neither of its characters. -/
theorem takeWhile_dropWhile_append {p : Char → Bool} {s t : List Char} (hs : ∀ c ∈ s, p c = true)
    (ht : ∀ c ∈ t.head?, p c = false) :
    (s ++ t).takeWhile p = s ∧ (s ++ t).dropWhile p = t := by
  rw [List.takeWhile_append_of_pos hs, List.dropWhile_append_of_pos hs]
  cases t with
  | nil => exact ⟨List.append_nil s, rfl⟩
  | cons c t =>
    have hc : ¬p c = true := by simp [ht c rfl]
    rw [List.takeWhile_cons_of_neg hc, List.dropWhile_cons_of_neg hc]
    exact ⟨List.append_nil s, rfl⟩

theorem includeFile_line {file : List Char} (h : '"' ∉ file) :
    includeFile ("#include \"".toList ++ (file ++ ['"'])) = some file := by
  unfold includeFile
  rw [behind_append, Option.map_some, (takeWhile_dropWhile_append _ _).1]
  · intro c hc
    have hne : c ≠ '"' := by
      rintro rfl
      exact h hc
    simpa using hne
  · rintro _ ⟨⟩
    rfl

/-- A macro with its replacement behind a blank. -/
theorem definition_line {name replacement : List Char} {blank : Char}
    (hname : name.all isIdentifier = true) (hblank : isBlank blank = true)
    (hnot : isIdentifier blank = false) (hr : ∀ c ∈ replacement.head?, isBlank c = false) :
    definition ("#define ".toList ++ (name ++ blank :: replacement)) =
      some (name, replacement) := by
  have hsplit := @takeWhile_dropWhile_append isIdentifier name (blank :: replacement)
    (List.all_eq_true.mp hname) (by rintro _ ⟨⟩; exact hnot)
  unfold definition
  rw [behind_append, Option.map_some, hsplit.1, hsplit.2]
  have hblanks := (@takeWhile_dropWhile_append isBlank [blank] replacement (by simpa using hblank)
    hr).2
  rw [List.singleton_append] at hblanks
  rw [hblanks]

/-! ## Calls -/

/-- The statements of a replacement, without their semicolons. -/
def statements (replacement : List Char) : List (List Char) :=
  (replacement.splitOn ';').dropLast.map fun s ↦ s.dropWhile isBlank

/-- An argument behind the comma and the blank in front of it. -/
def argument : List Char → List Char
  | ' ' :: cs => cs
  | cs => cs

/-- The function and the arguments of a call. -/
def readCall (statement : List Char) : Option (List Char × List (List Char)) :=
  match statement.dropWhile isIdentifier with
  | '(' :: inside =>
    if inside.getLast? = some ')' then
      some (statement.takeWhile isIdentifier, (inside.dropLast.splitOn ',').map argument)
    else
      none
  | _ => none

theorem dropWhile_eq_self {p : Char → Bool} {s : List Char} (h : ∀ c ∈ s.head?, p c = false) :
    s.dropWhile p = s := by
  cases s with
  | nil => rfl
  | cons c s => rw [List.dropWhile_cons_of_neg (by simp [h c rfl])]

theorem statements_append {s : List Char} (hs : ';' ∉ s) (rest : List Char) :
    statements (s ++ ';' :: rest) = s.dropWhile isBlank :: statements rest := by
  unfold statements
  rw [List.splitOn_append_cons_self_of_not_mem hs,
    List.dropLast_cons_of_ne_nil (List.splitOn_ne_nil _ _), List.map_cons]

/-- A blank in front does not matter. -/
theorem statements_blank {c : Char} (hc : isBlank c = true) (rest : List Char) :
    statements (c :: rest) = statements rest := by
  have hne : (c == ';') = false := by
    rw [beq_eq_false_iff_ne]
    rintro rfl
    exact absurd hc (by decide)
  unfold statements
  rw [List.splitOn_cons_eq_if_modifyHead, hne, if_neg Bool.false_ne_true]
  cases rest.splitOn ';' with
  | nil => rfl
  | cons p ps =>
    cases ps with
    | nil => rfl
    | cons p' ps =>
      rw [List.modifyHead_cons, List.dropLast_cons_of_ne_nil (List.cons_ne_nil _ _),
        List.dropLast_cons_of_ne_nil (List.cons_ne_nil _ _), List.map_cons, List.map_cons,
        List.dropWhile_cons_of_pos hc]

theorem statements_intercalate {ss : List (List Char)} (hs : ∀ s ∈ ss, ';' ∉ s)
    (hb : ∀ s ∈ ss, ∀ c ∈ s.head?, isBlank c = false) :
    statements (['\t'].intercalate (ss.map (· ++ [';']))) = ss := by
  induction ss with
  | nil => rfl
  | cons s ss ih =>
    rw [List.forall_mem_cons] at hs hb
    cases ss with
    | nil =>
      rw [List.map_singleton, List.intercalate_singleton, statements_append hs.1,
        dropWhile_eq_self hb.1]
      rfl
    | cons s' ss =>
      rw [List.map_cons, List.map_cons, List.intercalate_cons_cons, List.append_assoc,
        List.append_assoc]
      show statements (s ++ ';' :: '\t' :: ['\t'].intercalate ((s' :: ss).map (· ++ [';']))) = _
      rw [statements_append hs.1, dropWhile_eq_self hb.1, statements_blank (by decide),
        ih hs.2 hb.2]

/-- A replacement made of statements starts with no blank, if none of them does. -/
theorem head_statements {ss : List (List Char)} (hb : ∀ s ∈ ss, ∀ c ∈ s.head?, isBlank c = false) :
    ∀ c ∈ (['\t'].intercalate (ss.map (· ++ [';']))).head?, isBlank c = false := by
  cases ss with
  | nil => exact nofun
  | cons s ss =>
    obtain ⟨rest, hrest⟩ : ∃ rest, ['\t'].intercalate ((s :: ss).map (· ++ [';'])) =
        s ++ ';' :: rest := by
      cases ss with
      | nil => exact ⟨[], List.intercalate_singleton⟩
      | cons s' ss =>
        refine ⟨'\t' :: ['\t'].intercalate ((s' :: ss).map (· ++ [';'])), ?_⟩
        rw [List.map_cons, List.map_cons, List.intercalate_cons_cons, List.append_assoc,
          List.append_assoc]
        rfl
    rw [hrest]
    cases s with
    | nil => rintro _ ⟨⟩; rfl
    | cons c s =>
      rintro _ ⟨⟩
      exact hb (c :: s) List.mem_cons_self c rfl

/-- Of arguments that are joined by commas and blanks, all but the first have a blank in front. -/
theorem intercalate_blank (a : List Char) (as : List (List Char)) :
    [',', ' '].intercalate (a :: as) = [','].intercalate (a :: as.map (' ' :: ·)) := by
  induction as generalizing a with
  | nil => rw [List.map_nil, List.intercalate_singleton, List.intercalate_singleton]
  | cons a' as ih =>
    have hjoin : ' ' :: [',', ' '].intercalate (a' :: as) =
        [',', ' '].intercalate ((' ' :: a') :: as) := by
      cases as with
      | nil => rfl
      | cons a'' as => rw [List.intercalate_cons_cons, List.intercalate_cons_cons]; rfl
    rw [List.map_cons, List.intercalate_cons_cons, List.intercalate_cons_cons, List.append_assoc,
      List.append_assoc, ← ih, ← hjoin]
    rfl

theorem splitOn_arguments {a : List Char} {as : List (List Char)} (ha : ∀ x ∈ a :: as, ',' ∉ x) :
    ([',', ' '].intercalate (a :: as)).splitOn ',' = a :: as.map (' ' :: ·) := by
  rw [intercalate_blank, List.splitOn_intercalate]
  · rw [List.forall_mem_cons, List.forall_mem_map]
    rw [List.forall_mem_cons] at ha
    exact ⟨ha.1, fun x hx ↦ by simpa using ha.2 x hx⟩
  · exact List.cons_ne_nil _ _

theorem map_argument_splitOn {a : List Char} {as : List (List Char)} (hfirst : a.head? ≠ some ' ')
    (ha : ∀ x ∈ a :: as, ',' ∉ x) :
    (([',', ' '].intercalate (a :: as)).splitOn ',').map argument = a :: as := by
  have hargument : argument a = a := by
    unfold argument
    split
    · exact absurd rfl hfirst
    · rfl
  rw [splitOn_arguments ha, List.map_cons, hargument, List.map_map]
  congr 1
  exact List.map_id as

/-- A call that is read back. -/
theorem readCall_call {name a : List Char} {as : List (List Char)}
    (hname : name.all isIdentifier = true) (hfirst : a.head? ≠ some ' ')
    (ha : ∀ x ∈ a :: as, ',' ∉ x) :
    readCall (name ++ '(' :: ([',', ' '].intercalate (a :: as) ++ [')'])) =
      some (name, a :: as) := by
  have hsplit := takeWhile_dropWhile_append (List.all_eq_true.mp hname)
    (t := '(' :: ([',', ' '].intercalate (a :: as) ++ [')'])) (by rintro _ ⟨⟩; rfl)
  unfold readCall
  rw [hsplit.1, hsplit.2]
  show (if ([',', ' '].intercalate (a :: as) ++ [')']).getLast? = some ')' then _ else _) = _
  rw [if_pos List.getLast?_concat, List.dropLast_concat, map_argument_splitOn hfirst ha]

end Reasoning.CText
