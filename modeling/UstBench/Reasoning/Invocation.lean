import Mathlib.Data.List.DropRight
import UstBench.Reasoning.CText

/-!
# Invocations inside others

The arguments of a macro are separated by the commas that are in none of the parentheses inside it,
and the blanks and line ends around an argument do not matter.  Parentheses that do not match make a
text unreadable.
-/

namespace Reasoning.CText

/-! ## Parentheses -/

/-- How many parentheses are open behind a character. -/
def nest : ℕ → Char → Option ℕ
  | depth, '(' => some (depth + 1)
  | 0, ')' => none
  | depth + 1, ')' => some depth
  | depth, _ => some depth

/-- The parts of a text between the characters where it is cut. -/
def parts (cut : ℕ → Char → Bool) : ℕ → List Char → Option (List (List Char))
  | depth, [] => if depth = 0 then some [[]] else none
  | depth, c :: cs =>
    (nest depth c).bind fun behind ↦ (parts cut behind cs).map fun rest ↦
      if cut depth c then [] :: rest else rest.modifyHead (c :: ·)

/-- The parentheses open behind a text, if it is cut nowhere. -/
def walk (cut : ℕ → Char → Bool) : ℕ → List Char → Option ℕ
  | depth, [] => some depth
  | depth, c :: cs =>
    if cut depth c then none else (nest depth c).bind fun behind ↦ walk cut behind cs

section Parts

variable {cut : ℕ → Char → Bool} {depth depth' : ℕ} {s t : List Char}

theorem walk_append (h : walk cut depth s = some depth') :
    walk cut depth (s ++ t) = walk cut depth' t := by
  -- the depth changes with every character
  induction s generalizing depth with
  | nil =>
    cases h
    rfl
  | cons c s ih =>
    rw [List.cons_append, walk]
    rw [walk] at h
    split at h
    · cases h
    · rename_i hcut
      obtain ⟨behind, hnest, hrest⟩ := Option.bind_eq_some_iff.mp h
      rw [if_neg hcut, hnest]
      exact ih hrest

/-- A text without parentheses stays where it is. -/
theorem walk_flat (hs : '(' ∉ s ∧ ')' ∉ s) (hcut : ∀ c ∈ s, cut depth c = false) :
    walk cut depth s = some depth := by
  induction s with
  | nil => rfl
  | cons c s ih =>
    rw [List.mem_cons, List.mem_cons, not_or, not_or] at hs
    rw [List.forall_mem_cons] at hcut
    have hnest : nest depth c = some depth := by
      unfold nest
      split
      · exact absurd rfl hs.1.1
      · exact absurd rfl hs.2.1
      · exact absurd rfl hs.2.1
      · rfl
    rw [walk, hcut.1, if_neg Bool.false_ne_true, hnest]
    exact ih ⟨hs.1.2, hs.2.2⟩ hcut.2

theorem parts_append (h : walk cut depth s = some depth') :
    parts cut depth (s ++ t) = (parts cut depth' t).map fun ps ↦ ps.modifyHead (s ++ ·) := by
  induction s generalizing depth with
  | nil =>
    cases h
    rw [List.nil_append]
    cases parts cut depth' t with
    | none => rfl
    | some ps => cases ps <;> rfl
  | cons c s ih =>
    rw [walk] at h
    split at h
    · cases h
    · rename_i hcut
      obtain ⟨behind, hnest, hrest⟩ := Option.bind_eq_some_iff.mp h
      rw [List.cons_append, parts, hnest, Option.bind_some, ih hrest, Option.map_map]
      congr 1
      funext ps
      rw [Function.comp_apply, if_neg hcut, List.modifyHead_modifyHead]
      rfl

/-- A part that ends where the text is cut. -/
theorem parts_cut {c : Char} (h : walk cut depth s = some depth') (hc : cut depth' c = true) :
    parts cut depth (s ++ c :: t) =
      (nest depth' c).bind fun behind ↦ (parts cut behind t).map (s :: ·) := by
  rw [parts_append h, parts]
  cases nest depth' c with
  | none => rfl
  | some behind =>
    -- the cut starts an empty part, which takes in what stands in front of it
    rw [Option.bind_some, Option.bind_some, Option.map_map]
    congr 1
    funext ps
    rw [Function.comp_apply, if_pos hc, List.modifyHead_cons, List.append_nil]

theorem parts_last (h : walk cut depth s = some 0) : parts cut depth s = some [s] := by
  have happend := @parts_append cut depth 0 s [] h
  rw [List.append_nil] at happend
  rw [happend]
  show some [s ++ []] = _
  rw [List.append_nil]

end Parts

/-! ## Arguments -/

/-- The commas that are in no parentheses. -/
def comma (depth : ℕ) (c : Char) : Bool := depth = 0 ∧ c = ','

theorem comma_succ (depth : ℕ) (c : Char) : comma (depth + 1) c = false := by
  simp [comma]

theorem comma_of_ne {c : Char} (hc : c ≠ ',') (depth : ℕ) : comma depth c = false := by
  simp [comma, hc]

/-- Inside of parentheses a comma does not separate. -/
theorem walk_inside {depth : ℕ} {s : List Char} (hs : '(' ∉ s ∧ ')' ∉ s) :
    walk comma (depth + 1) s = some (depth + 1) :=
  walk_flat hs fun c _ ↦ comma_succ depth c

theorem walk_invocation {cut : ℕ → Char → Bool} {depth : ℕ} {name inside : List Char}
    (hname : walk cut depth name = some depth) (hopen : cut depth '(' = false)
    (hinside : walk cut (depth + 1) inside = some (depth + 1))
    (hclose : cut (depth + 1) ')' = false) :
    walk cut depth (name ++ '(' :: (inside ++ [')'])) = some depth := by
  rw [walk_append hname, walk, hopen, if_neg Bool.false_ne_true]
  show walk cut (depth + 1) (inside ++ [')']) = _
  rw [walk_append hinside, walk, hclose, if_neg Bool.false_ne_true]
  rfl

theorem parts_intercalate {ss : List (List Char)} (hs : ∀ s ∈ ss, walk comma 0 s = some 0)
    (hne : ss ≠ []) : parts comma 0 ([','].intercalate ss) = some ss := by
  induction ss with
  | nil => exact absurd rfl hne
  | cons s ss ih =>
    rw [List.forall_mem_cons] at hs
    cases ss with
    | nil =>
      rw [List.intercalate_singleton]
      exact parts_last hs.1
    | cons s' ss =>
      rw [List.intercalate_cons_cons, List.append_assoc]
      show parts comma 0 (s ++ ',' :: [','].intercalate (s' :: ss)) = _
      rw [parts_cut hs.1 rfl]
      show (parts comma 0 _).map _ = _
      rw [ih hs.2 (List.cons_ne_nil _ _)]
      rfl

/-! ## What stands around an argument -/

def isWhite (c : Char) : Bool := c = ' ' ∨ c = '\t' ∨ c = '\n'

def trim (s : List Char) : List Char := (s.dropWhile isWhite).rdropWhile isWhite

/-- A text that starts and ends with something else. -/
def Trimmed (s : List Char) : Prop :=
  (∀ c ∈ s.head?, isWhite c = false) ∧ ∀ c ∈ s.getLast?, isWhite c = false

instance (s : List Char) : Decidable (Trimmed s) :=
  @instDecidableAnd _ _ (Option.decidableForallMem _) (Option.decidableForallMem _)

theorem trimmed_of_forall {s : List Char} (h : ∀ c ∈ s, isWhite c = false) : Trimmed s :=
  ⟨fun c hc ↦ h c (List.mem_of_mem_head? hc), fun c hc ↦ h c (List.mem_of_mem_getLast? hc)⟩

theorem trim_padded {front s back : List Char} (hfront : ∀ c ∈ front, isWhite c = true)
    (hback : ∀ c ∈ back, isWhite c = true) (hs : Trimmed s) (hne : s ≠ []) :
    trim (front ++ (s ++ back)) = s := by
  have hhead : ∀ c ∈ (s ++ back).head?, isWhite c = false := by
    rw [List.head?_append_of_ne_nil s hne]
    exact hs.1
  unfold trim
  rw [List.dropWhile_append_of_pos hfront, dropWhile_eq_self hhead, List.rdropWhile,
    List.reverse_append, List.dropWhile_append_of_pos, dropWhile_eq_self, List.reverse_reverse]
  · rw [List.head?_reverse]
    exact hs.2
  · intro c hc
    exact hback c (List.mem_reverse.mp hc)

/-! ## Invocations -/

/-- The macro and the arguments of an invocation. -/
def invocation (text : List Char) : Option (List Char × List (List Char)) :=
  match text.dropWhile isIdentifier with
  | '(' :: inside =>
    if inside.getLast? = some ')' then
      (parts comma 0 inside.dropLast).map fun args ↦
        (text.takeWhile isIdentifier, args.map trim)
    else
      none
  | _ => none

/-- The arguments of an invocation of a certain macro. -/
def argumentsOf (name text : List Char) : Option (List (List Char)) :=
  (invocation text).bind fun call ↦ if call.1 = name then some call.2 else none

/-- The end of an invocation that is in no parentheses. -/
def closing (depth : ℕ) (c : Char) : Bool := depth = 1 ∧ c = ')'

/-- The invocations of a sequence, with blanks and line ends between them. -/
def invocations (text : List Char) : Option (List (List Char × List (List Char))) :=
  (parts closing 0 text).bind fun ps ↦
    if ps.getLast?.all (List.all · isWhite) then
      ps.dropLast.mapM fun p ↦ invocation (p.dropWhile isWhite ++ [')'])
    else
      none

theorem invocation_call {name : List Char} {args : List (List Char)}
    (hname : name.all isIdentifier = true) (hargs : ∀ a ∈ args, walk comma 0 a = some 0)
    (hne : args ≠ []) :
    invocation (name ++ '(' :: ([','].intercalate args ++ [')'])) = some (name, args.map trim) := by
  have hsplit := takeWhile_dropWhile_append (List.all_eq_true.mp hname)
    (t := '(' :: ([','].intercalate args ++ [')'])) (by rintro _ ⟨⟩; rfl)
  unfold invocation
  rw [hsplit.1, hsplit.2]
  show (if ([','].intercalate args ++ [')']).getLast? = some ')' then _ else _) = _
  rw [if_pos List.getLast?_concat, List.dropLast_concat, parts_intercalate hargs hne]
  rfl

theorem argumentsOf_call {name : List Char} {args : List (List Char)}
    (hname : name.all isIdentifier = true) (hargs : ∀ a ∈ args, walk comma 0 a = some 0)
    (hne : args ≠ []) :
    argumentsOf name (name ++ '(' :: ([','].intercalate args ++ [')'])) =
      some (args.map trim) := by
  unfold argumentsOf
  rw [invocation_call hname hargs hne]
  exact if_pos rfl

/-! ## Plain arguments -/

theorem notMem_of_forall {p : Char → Bool} {s : List Char} (h : ∀ c ∈ s, p c = true) {c : Char}
    (hc : p c = false) : c ∉ s := by
  intro hmem
  rw [h c hmem] at hc
  cases hc

theorem isWhite_of_isIdentifier {c : Char} (h : isIdentifier c = true) : isWhite c = false := by
  cases hwhite : isWhite c with
  | false => rfl
  | true =>
    have hcases : c = ' ' ∨ c = '\t' ∨ c = '\n' := of_decide_eq_true hwhite
    rcases hcases with rfl | rfl | rfl
    · exact absurd h (by decide)
    · exact absurd h (by decide)
    · exact absurd h (by decide)

/-- An argument without anything to read in it. -/
structure Atom (s : List Char) : Prop where
  flat : '(' ∉ s ∧ ')' ∉ s
  commas : ',' ∉ s
  trimmed : Trimmed s
  nonempty : s ≠ []

instance (s : List Char) : Decidable (Atom s) :=
  decidable_of_iff (('(' ∉ s ∧ ')' ∉ s) ∧ ',' ∉ s ∧ Trimmed s ∧ s ≠ [])
    ⟨fun h ↦ ⟨h.1, h.2.1, h.2.2.1, h.2.2.2⟩, fun h ↦ ⟨h.flat, h.commas, h.trimmed, h.nonempty⟩⟩

/-- A macro and its arguments as they are usually written. -/
def written (call : List Char × List (List Char)) : List Char :=
  call.1 ++ '(' :: ([',', ' '].intercalate call.2 ++ [')'])

/-- A macro with one argument or more, all of them plain. -/
structure Readable (call : List Char × List (List Char)) : Prop where
  name : call.1.all isIdentifier = true
  named : call.1 ≠ []
  atoms : ∀ a ∈ call.2, Atom a
  nonempty : call.2 ≠ []

/-- A word is plain. -/
theorem atom_of_all {s : List Char} (h : ∀ c ∈ s, isIdentifier c = true) (hne : s ≠ []) :
    Atom s where
  flat := ⟨notMem_of_forall h rfl, notMem_of_forall h rfl⟩
  commas := notMem_of_forall h rfl
  trimmed := trimmed_of_forall fun c hc ↦ isWhite_of_isIdentifier (h c hc)
  nonempty := hne

section Plain

theorem walk_white {front : List Char} (h : ∀ c ∈ front, isWhite c = true) (depth : ℕ) :
    walk comma depth front = some depth := by
  apply walk_flat ⟨notMem_of_forall h rfl, notMem_of_forall h rfl⟩
  intro c hc
  apply comma_of_ne
  rintro rfl
  exact notMem_of_forall h rfl hc

theorem Atom.walk {s : List Char} (h : Atom s) {front : List Char}
    (hfront : ∀ c ∈ front, isWhite c = true) : walk comma 0 (front ++ s) = some 0 := by
  rw [walk_append (walk_white hfront 0)]
  apply walk_flat h.flat
  intro c hc
  apply comma_of_ne
  rintro rfl
  exact h.commas hc

/-- An argument with blanks or line ends in front of it. -/
theorem Atom.trim_front {s : List Char} (h : Atom s) {front : List Char}
    (hfront : ∀ c ∈ front, isWhite c = true) : trim (front ++ s) = s := by
  have htrim := trim_padded hfront (List.forall_mem_nil _) h.trimmed h.nonempty
  rwa [List.append_nil] at htrim

variable {call : List Char × List (List Char)}

theorem Readable.invocation_written (h : Readable call) : invocation (written call) = some call := by
  obtain ⟨name, args⟩ := call
  obtain ⟨a, as, hargs⟩ := List.exists_cons_of_ne_nil h.nonempty
  have hatoms := h.atoms
  change args = a :: as at hargs
  change ∀ a ∈ args, Atom a at hatoms
  rw [hargs, List.forall_mem_cons] at hatoms
  have hblank : ∀ c ∈ [' '], isWhite c = true := by decide
  -- all arguments but the first one have a blank in front
  have htrim : (a :: as.map (' ' :: ·)).map trim = a :: as := by
    have ha : trim a = a := hatoms.1.trim_front (List.forall_mem_nil _)
    rw [List.map_cons, List.map_map, ha]
    congr 1
    conv_rhs => rw [← List.map_id as]
    exact List.map_congr_left fun x hx ↦ (hatoms.2 x hx).trim_front hblank
  unfold written
  rw [hargs, intercalate_blank, invocation_call h.name _ (List.cons_ne_nil _ _), htrim]
  rw [List.forall_mem_cons, List.forall_mem_map]
  exact ⟨hatoms.1.walk (List.forall_mem_nil _), fun x hx ↦ (hatoms.2 x hx).walk hblank⟩

theorem Readable.flat (h : Readable call) :
    '(' ∉ [',', ' '].intercalate call.2 ∧ ')' ∉ [',', ' '].intercalate call.2 :=
  ⟨notMem_intercalate (by decide) fun a ha ↦ (h.atoms a ha).flat.1,
    notMem_intercalate (by decide) fun a ha ↦ (h.atoms a ha).flat.2⟩

theorem Readable.notMem_name (h : Readable call) {c : Char} (hc : isIdentifier c = false) :
    c ∉ call.1 :=
  notMem_of_forall (List.all_eq_true.mp h.name) hc

/-- No comma of an invocation separates. -/
theorem Readable.walk_written (h : Readable call) (depth : ℕ) :
    walk comma depth (written call) = some depth := by
  apply walk_invocation
  · apply walk_flat ⟨h.notMem_name rfl, h.notMem_name rfl⟩
    intro c hc
    apply comma_of_ne
    rintro rfl
    exact h.notMem_name rfl hc
  · exact comma_of_ne (by decide) depth
  · exact walk_inside h.flat
  · exact comma_succ depth ')'

/-! A sequence of invocations with `sep` between them. -/

variable {calls : List (List Char × List (List Char))} {sep s : List Char}

theorem walk_sequence (h : ∀ call ∈ calls, Readable call)
    (hsep : ∀ c ∈ sep, isWhite c = true) (depth : ℕ) :
    walk comma depth (sep.intercalate (calls.map written)) = some depth := by
  induction calls with
  | nil => rfl
  | cons call calls ih =>
    rw [List.forall_mem_cons] at h
    cases calls with
    | nil =>
      rw [List.map_singleton, List.intercalate_singleton]
      exact h.1.walk_written depth
    | cons call' calls =>
      rw [List.map_cons, List.map_cons, List.intercalate_cons_cons, List.append_assoc,
        walk_append (h.1.walk_written depth), walk_append (walk_white hsep depth)]
      exact ih h.2

/-- An invocation without the parenthesis at its end. -/
def unclosed (call : List Char × List (List Char)) : List Char :=
  call.1 ++ '(' :: [',', ' '].intercalate call.2

theorem unclosed_append (call : List Char × List (List Char)) :
    unclosed call ++ [')'] = written call := by
  unfold unclosed written
  rw [List.append_assoc, List.cons_append]

theorem Readable.walk_unclosed (h : Readable call) {front : List Char}
    (hfront : ∀ c ∈ front, isWhite c = true) :
    walk closing 0 (front ++ unclosed call) = some 1 := by
  have hclosing : ∀ depth, ∀ s : List Char, ')' ∉ s → ∀ c ∈ s, closing depth c = false := by
    intro depth s hs c hc
    have hne : c ≠ ')' := by
      rintro rfl
      exact hs hc
    simp [closing, hne]
  have hwhite : ∀ c, isWhite c = false → c ∉ front := fun _ ↦ notMem_of_forall hfront
  -- one parenthesis is open behind the name, and nothing in the arguments closes it
  unfold unclosed
  rw [walk_append (walk_flat ⟨hwhite _ rfl, hwhite _ rfl⟩ (hclosing 0 _ (hwhite _ rfl))),
    walk_append (walk_flat ⟨h.notMem_name rfl, h.notMem_name rfl⟩
      (hclosing 0 _ (h.notMem_name rfl)))]
  show walk closing 1 ([',', ' '].intercalate call.2) = _
  exact walk_flat h.flat (hclosing 1 _ h.flat.2)

/-- A macro has a letter or an underscore in front. -/
theorem Readable.head_name (h : Readable call) :
    ∀ c ∈ (call.1 ++ '(' :: s).head?, isWhite c = false := by
  rw [List.head?_append_of_ne_nil _ h.named]
  intro c hc
  exact isWhite_of_isIdentifier (List.all_eq_true.mp h.name c (List.mem_of_mem_head? hc))

theorem Readable.dropWhile_unclosed (h : Readable call) {front : List Char}
    (hfront : ∀ c ∈ front, isWhite c = true) :
    (front ++ unclosed call).dropWhile isWhite = unclosed call := by
  rw [List.dropWhile_append_of_pos hfront]
  exact dropWhile_eq_self h.head_name

/-- Neither a blank nor a line end is at the ends of a sequence. -/
theorem trimmed_sequence (h : ∀ call ∈ calls, Readable call) (hne : calls ≠ []) :
    Trimmed (sep.intercalate (calls.map written)) ∧ sep.intercalate (calls.map written) ≠ [] := by
  induction calls with
  | nil => exact absurd rfl hne
  | cons call calls ih =>
    rw [List.forall_mem_cons] at h
    have hwritten : written call ≠ [] := by
      unfold written
      exact List.append_ne_nil_of_right_ne_nil _ (List.cons_ne_nil _ _)
    cases calls with
    | nil =>
      rw [List.map_singleton, List.intercalate_singleton]
      refine ⟨⟨h.1.head_name, ?_⟩, hwritten⟩
      rw [← unclosed_append, List.getLast?_concat]
      rintro _ ⟨⟩
      rfl
    | cons call' calls =>
      obtain ⟨htrimmed, hrest⟩ := ih h.2 (List.cons_ne_nil _ _)
      rw [List.map_cons, List.map_cons, List.intercalate_cons_cons, List.append_assoc]
      rw [List.map_cons] at htrimmed hrest
      refine ⟨⟨?_, ?_⟩, List.append_ne_nil_of_left_ne_nil hwritten _⟩
      · rw [List.head?_append_of_ne_nil _ hwritten]
        exact h.1.head_name
      · rw [List.getLast?_append_of_ne_nil _ (List.append_ne_nil_of_right_ne_nil _ hrest),
          List.getLast?_append_of_ne_nil _ hrest]
        exact htrimmed.2

theorem parts_sequence (h : ∀ call ∈ calls, Readable call) {front : List Char}
    (hfront : ∀ c ∈ front, isWhite c = true) (hsep : ∀ c ∈ sep, isWhite c = true)
    (hne : calls ≠ []) :
    ∃ ps, parts closing 0 (front ++ sep.intercalate (calls.map written)) = some (ps ++ [[]]) ∧
      ps.map (List.dropWhile isWhite) = calls.map unclosed := by
  induction calls generalizing front with
  | nil => exact absurd rfl hne
  | cons call calls ih =>
    rw [List.forall_mem_cons] at h
    have hdrop := h.1.dropWhile_unclosed hfront
    cases calls with
    | nil =>
      refine ⟨[front ++ unclosed call], ?_, by rw [List.map_singleton, hdrop]; rfl⟩
      rw [List.map_singleton, List.intercalate_singleton, ← unclosed_append, ← List.append_assoc,
        parts_cut (h.1.walk_unclosed hfront) rfl]
      rfl
    | cons call' calls =>
      -- the separator goes to the front of the next invocation
      obtain ⟨ps, hps, hmap⟩ := ih h.2 hsep (List.cons_ne_nil _ _)
      refine ⟨(front ++ unclosed call) :: ps, ?_, by rw [List.map_cons, hdrop, hmap]; rfl⟩
      rw [List.map_cons, List.map_cons, List.intercalate_cons_cons, ← unclosed_append]
      have happend : front ++ (unclosed call ++ [')'] ++ sep ++
          sep.intercalate (written call' :: calls.map written)) = (front ++ unclosed call) ++
          ')' :: (sep ++ sep.intercalate (written call' :: calls.map written)) := by
        simp only [List.append_assoc, List.cons_append, List.nil_append]
      rw [happend, parts_cut (h.1.walk_unclosed hfront) rfl]
      show (parts closing 0 _).map _ = _
      rw [List.map_cons] at hps
      rw [hps]
      rfl

theorem mapM_eq_some_map {α β : Type} {f : α → Option β} {g : α → β} {l : List α}
    (h : ∀ a ∈ l, f a = some (g a)) : l.mapM f = some (l.map g) := by
  induction l with
  | nil => rfl
  | cons a l ih =>
    rw [List.forall_mem_cons] at h
    rw [List.mapM_cons, h.1, ih h.2]
    rfl

theorem Readable.argumentsOf_written (h : Readable call) :
    argumentsOf call.1 (written call) = some call.2 := by
  unfold argumentsOf
  rw [h.invocation_written]
  exact if_pos rfl

/-- A sequence of invocations is read back. -/
theorem invocations_sequence (h : ∀ call ∈ calls, Readable call)
    (hsep : ∀ c ∈ sep, isWhite c = true) (hne : calls ≠ []) :
    invocations (sep.intercalate (calls.map written)) = some calls := by
  obtain ⟨ps, hps, hmap⟩ := parts_sequence h (List.forall_mem_nil _) hsep hne
  rw [List.nil_append] at hps
  -- the parts are the invocations without their last parenthesis
  have hread : (ps.map (List.dropWhile isWhite)).mapM (fun p ↦ invocation (p ++ [')'])) =
      some calls := by
    rw [hmap, List.mapM_map]
    have hcalls := @mapM_eq_some_map _ _ ((fun p ↦ invocation (p ++ [')'])) ∘ unclosed) id calls
      fun call hcall ↦ by
        rw [Function.comp_apply, unclosed_append]
        exact (h call hcall).invocation_written
    rw [hcalls, List.map_id]
  unfold invocations
  rw [hps, Option.bind_some, List.getLast?_concat, List.dropLast_concat]
  rw [List.mapM_map] at hread
  exact hread

end Plain

end Reasoning.CText
