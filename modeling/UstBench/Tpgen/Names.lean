import UstBench.Tpgen.Scoping

/-!
# The names of the generated fields

Names are drawn one by one, each without a look at the others or at the language they end up in.  They
are distinct and no keywords exactly if they were drawn apart, and none of them by the numbers that
spell one of the three keywords of this shape.
-/

namespace UstBench.Tpgen

open Reasoning Reasoning.Prog

/-- The keywords of C. -/
def reservedWords : List String :=
  ["auto", "break", "case", "char", "const", "continue", "default", "do", "double", "else", "enum",
   "extern", "float", "for", "goto", "if", "inline", "int", "long", "register", "restrict", "return",
   "short", "signed", "sizeof", "static", "struct", "switch", "typedef", "union", "unsigned", "void",
   "volatile", "while", "_Alignas", "_Alignof", "_Atomic", "_Bool", "_Complex", "_Generic",
   "_Imaginary", "_Noreturn", "_Static_assert", "_Thread_local"]

/-- The names of the fields are distinct identifiers of C. -/
def Tracepoint.NamesUsable (t : Tracepoint) : Prop :=
  t.names.Nodup ∧ ∀ name ∈ t.names, name ∉ reservedWords

/-! ## Conditions on the numbers drawn -/

section Conditions

variable (rnd : Random)

/-- Two calls of `clever_name`, drawing from `p` and from `q` on, are given the same outcomes: of
four lengths, and for each syllable of 21 consonants and of six vowels. -/
def SameDraws (p q : ℕ) : Prop :=
  rnd.draw p % 4 = rnd.draw q % 4 ∧
    ∀ k < syllableCount rnd p, rnd.draw (p + 1 + 2 * k) % 21 = rnd.draw (q + 1 + 2 * k) % 21 ∧
      rnd.draw (p + 2 + 2 * k) % 6 = rnd.draw (q + 2 + 2 * k) % 6

/-- The places in the alphabets of the letters of `case`, `goto` and `volatile`. -/
def reservedSpellings : List (List Syllable) :=
  [[(1, 0), (14, 1)], [(4, 3), (15, 3)], [(16, 3), (8, 0), (15, 2), (8, 1)]]

/-- The names of a tracepoint are drawn by different numbers, and none by those of a keyword. -/
def DrawnApart (starts : List ℕ) : Prop :=
  starts.Pairwise (fun p q ↦ ¬SameDraws rnd p q) ∧
    ∀ p ∈ starts, drawnName rnd p ∉ reservedSpellings

end Conditions

/-! ## Spelling -/

theorem spell_cons (s : Syllable) (l : List Syllable) :
    spell (s :: l) = consonants.get s.1 :: vowels.get s.2 :: spell l := rfl

/-- Different syllables have different letters. -/
theorem spell_injective : Function.Injective spell := by
  have hc : Function.Injective consonants.get := List.nodup_iff_injective_get.mp (by decide)
  have hv : Function.Injective vowels.get := List.nodup_iff_injective_get.mp (by decide)
  intro l
  induction l with
  | nil =>
    intro m h
    cases m with
    | nil => rfl
    | cons t m => cases h
  | cons s l ih =>
    intro m h
    cases m with
    | nil => cases h
    | cons t m =>
      rw [spell_cons, spell_cons, List.cons.injEq, List.cons.injEq] at h
      rw [Prod.ext (hc h.1) (hv h.2.1), ih h.2.2]

theorem length_spell (l : List Syllable) : (spell l).length = 2 * l.length := by
  induction l with
  | nil => rfl
  | cons s l ih =>
    rw [spell_cons, List.length_cons, List.length_cons, List.length_cons, ih]
    omega

/-- A consonant and a vowel, over and over. -/
def alternates : List Char → Bool
  | [] => true
  | [_] => false
  | c :: v :: rest => c ∈ consonants && v ∈ vowels && alternates rest

theorem alternates_spell (l : List Syllable) : alternates (spell l) = true := by
  induction l with
  | nil => rfl
  | cons s l ih =>
    have hc : consonants.get s.1 ∈ consonants := List.get_mem _ _
    have hv : vowels.get s.2 ∈ vowels := List.get_mem _ _
    rw [spell_cons, alternates, ih, decide_eq_true hc, decide_eq_true hv]
    rfl

/-- Of the keywords only three alternate for two syllables or more. -/
theorem reservedWords_alternating : ∀ w ∈ reservedWords, alternates w.toList = true →
    4 ≤ w.toList.length → w ∈ reservedSpellings.map fun l ↦ String.ofList (spell l) := by
  decide

section Names

variable {rnd : Random}

-- the `k`-th syllable takes two draws, the `2 * k`-th and the one behind it
theorem drawnSyllables_eq_iff {n p q : ℕ} : drawnSyllables rnd n p = drawnSyllables rnd n q ↔
    ∀ k < n, rnd.draw (p + 2 * k) % 21 = rnd.draw (q + 2 * k) % 21 ∧
      rnd.draw (p + 1 + 2 * k) % 6 = rnd.draw (q + 1 + 2 * k) % 6 := by
  induction n generalizing p q with
  | zero => simp [drawnSyllables]
  | succ n ih =>
    rw [drawnSyllables, drawnSyllables, List.cons.injEq, ih, Prod.mk.injEq]
    have hfirst : (place rnd 21 (by decide) p = place rnd 21 (by decide) q ∧
      place rnd 6 (by decide) (p + 1) = place rnd 6 (by decide) (q + 1)) ↔
        rnd.draw p % 21 = rnd.draw q % 21 ∧ rnd.draw (p + 1) % 6 = rnd.draw (q + 1) % 6 :=
      and_congr Fin.ext_iff Fin.ext_iff
    rw [hfirst, Nat.forall_lt_succ_left]
    apply and_congr Iff.rfl
    apply forall_congr'
    intro k
    have hnext : ∀ i, i + 2 + 2 * k = i + 2 * (k + 1) := by omega
    have hnext' : ∀ i, i + 2 + 1 + 2 * k = i + 1 + 2 * (k + 1) := by omega
    rw [hnext, hnext, hnext', hnext']

/-- Two names are the same exactly if they were drawn by the same outcomes. -/
theorem nameAt_eq_iff {p q : ℕ} : nameAt rnd p = nameAt rnd q ↔ SameDraws rnd p q := by
  have hspell : nameAt rnd p = nameAt rnd q ↔ drawnName rnd p = drawnName rnd q := by
    rw [nameAt, nameAt, String.ofList_inj, spell_injective.eq_iff]
  rw [hspell, SameDraws]
  constructor
  · intro h
    have hcount := congrArg List.length h
    rw [length_drawnName, length_drawnName] at hcount
    rw [drawnName, drawnName, ← hcount] at h
    unfold syllableCount at hcount
    exact ⟨by omega, drawnSyllables_eq_iff.mp h⟩
  · intro h
    have hcount : syllableCount rnd q = syllableCount rnd p := by
      unfold syllableCount
      rw [h.1]
    rw [drawnName, drawnName, hcount]
    exact drawnSyllables_eq_iff.mpr h.2

theorem nameAt_mem_reservedWords_iff {p : ℕ} :
    nameAt rnd p ∈ reservedWords ↔ drawnName rnd p ∈ reservedSpellings := by
  constructor
  · intro h
    have hlen : 4 ≤ (nameAt rnd p).toList.length := by
      rw [toList_nameAt, length_spell, length_drawnName, syllableCount]
      omega
    have halt : alternates (nameAt rnd p).toList = true := by
      rw [toList_nameAt]
      exact alternates_spell _
    rcases List.mem_map.mp (reservedWords_alternating _ h halt hlen) with ⟨l, hl, heq⟩
    rw [nameAt, String.ofList_inj] at heq
    rw [← spell_injective heq]
    exact hl
  · intro h
    have hall : ∀ l ∈ reservedSpellings, String.ofList (spell l) ∈ reservedWords := by decide
    exact hall _ h

theorem usable_map_nameAt_iff {starts : List ℕ} :
    ((starts.map (nameAt rnd)).Nodup ∧ ∀ name ∈ starts.map (nameAt rnd), name ∉ reservedWords) ↔
      DrawnApart rnd starts := by
  apply and_congr
  · rw [List.Nodup, List.pairwise_map]
    apply List.Pairwise.iff
    intro p q
    exact not_congr nameAt_eq_iff
  · rw [List.forall_mem_map]
    apply forall₂_congr
    intro p _
    exact not_congr nameAt_mem_reservedWords_iff

/-- The names of all tracepoints can be used exactly if they were drawn apart. -/
theorem Generated.namesUsable_iff {numTp : ℕ} {tps : List Tracepoint} {g : Globals}
    (h : Generated rnd numTp tps g) :
    (∀ t ∈ tps, t.NamesUsable) ↔ ∀ starts ∈ allNameStarts rnd numTp 0, DrawnApart rnd starts := by
  have hmap : (∀ t ∈ tps, t.NamesUsable) ↔ ∀ names ∈ tps.map Tracepoint.names,
      names.Nodup ∧ ∀ name ∈ names, name ∉ reservedWords := by
    rw [List.forall_mem_map]
    exact Iff.rfl
  rw [hmap, h.names, List.forall_mem_map]
  apply forall₂_congr
  intro starts _
  exact usable_map_nameAt_iff

end Names

/-- Whatever the random outcomes are, the script writes its tracepoints; the names of their fields
are distinct and no keywords exactly if they were drawn apart. -/
theorem script_names_iff (rnd : Random) {argv : List String} {arg : String} {numTp : ℤ}
    (harg : argv[1]? = some arg) (hnum : Python.int arg.toList = some numTp) :
    ∃ (g : Globals) (tps : List Tracepoint), run (script rnd argv) Globals.start = (.ok (), g) ∧
      Generated rnd numTp.toNat tps g ∧
      ((∀ t ∈ tps, t.NamesUsable) ↔
        ∀ starts ∈ allNameStarts rnd numTp.toNat 0, DrawnApart rnd starts) := by
  rcases script_generated rnd harg hnum with ⟨g, tps, hr, hg⟩
  exact ⟨g, tps, hr, hg, hg.namesUsable_iff⟩

theorem script_names_iff_one :
    ∃ (g : Globals) (tps : List Tracepoint),
      run (script ⟨id, fun _ ↦ "0.5", fun _ ↦ by decide⟩ ["tpgen.py", "1"]) Globals.start =
        (.ok (), g) ∧
      Generated ⟨id, fun _ ↦ "0.5", fun _ ↦ by decide⟩ 1 tps g ∧
      ((∀ t ∈ tps, t.NamesUsable) ↔
        ∀ starts ∈ allNameStarts ⟨id, fun _ ↦ "0.5", fun _ ↦ by decide⟩ 1 0,
          DrawnApart ⟨id, fun _ ↦ "0.5", fun _ ↦ by decide⟩ starts) :=
  @script_names_iff ⟨id, fun _ ↦ "0.5", fun _ ↦ by decide⟩ _ "1" 1 rfl (by decide)

/-- Numbers that are 0 but where `draws` says otherwise. -/
def Random.sparse (draws : List (ℕ × ℕ)) : Random :=
  ⟨fun p ↦ (draws.lookup p).getD 0, fun _ ↦ "0.5", fun _ ↦ by decide⟩

/-- Two fields, and 0 for all else. -/
def twoFields : Random := .sparse [(11, 1)]

/-- One field, and the letters of its name. -/
def gotoField : Random := .sparse [(15, 4), (16, 3), (17, 15), (18, 3)]

-- one tracepoint with two fields of one name, and one with a keyword for a name
theorem script_names_clash :
    (∃ (g : Globals) (tps : List Tracepoint),
      run (script twoFields ["tpgen.py", "1"]) Globals.start = (.ok (), g) ∧
      Generated twoFields 1 tps g ∧ tps.map Tracepoint.names = [["baba", "baba"]] ∧
      ¬∀ t ∈ tps, t.NamesUsable) ∧
    ∃ (g : Globals) (tps : List Tracepoint),
      run (script gotoField ["tpgen.py", "1"]) Globals.start = (.ok (), g) ∧
      Generated gotoField 1 tps g ∧ tps.map Tracepoint.names = [["goto"]] ∧
      ¬∀ t ∈ tps, t.NamesUsable := by
  constructor
  · rcases @script_generated twoFields ["tpgen.py", "1"] "1" 1 rfl (by decide) with ⟨g, tps, hr, hg⟩
    refine ⟨g, tps, hr, hg, hg.names.trans (by decide), ?_⟩
    rw [hg.namesUsable_iff]
    intro h
    have hapart : DrawnApart twoFields [14, 21] := h _ (by decide)
    have hdiff := List.pairwise_pair.mp hapart.1
    exact hdiff ⟨by decide, by decide⟩
  · rcases @script_generated gotoField ["tpgen.py", "1"] "1" 1 rfl (by decide) with ⟨g, tps, hr, hg⟩
    refine ⟨g, tps, hr, hg, hg.names.trans (by decide), ?_⟩
    rw [hg.namesUsable_iff]
    intro h
    have hapart : DrawnApart gotoField [14] := h _ (by decide)
    exact hapart.2 14 List.mem_cons_self (by decide)

end UstBench.Tpgen
