import UstBench.Tpgen.Generator

/-!
# The draws of `tpgen.py`

Which of the numbers drawn each outcome comes from.  Every call of `random` takes one number, so what
was drawn before says where the next name starts, and the name is spelled by the numbers from there.
-/

namespace UstBench.Tpgen

open Reasoning Reasoning.Prog

/-! ## Names -/

/-- One of 21 consonants and one of six vowels, by their places in the two alphabets. -/
abbrev Syllable := Fin 21 × Fin 6

def spell (syllables : List Syllable) : List Char :=
  syllables.flatMap fun s ↦ [consonants.get s.1, vowels.get s.2]

/-- The name of a field consists of lower-case letters. -/
theorem mem_spell {syllables : List Syllable} {c : Char} (h : c ∈ spell syllables) :
    c ∈ consonants ∨ c ∈ vowels := by
  rcases List.mem_flatMap.mp h with ⟨s, -, hc⟩
  rcases List.mem_pair.mp hc with rfl | rfl
  · exact .inl (List.get_mem _ _)
  · exact .inr (List.get_mem _ _)

section Places

variable (rnd : Random)

/-- The place that the number drawn at `p` has `random.choice` take, of `n`. -/
def place (n : ℕ) (h : 0 < n) (p : ℕ) : Fin n := ⟨rnd.draw p % n, Nat.mod_lt _ h⟩

def drawnSyllables : ℕ → ℕ → List Syllable
  | 0, _ => []
  | n + 1, p =>
    (place rnd 21 (by decide) p, place rnd 6 (by decide) (p + 1)) :: drawnSyllables n (p + 2)

/-- How many syllables a name has whose call starts to draw at `p`. -/
def syllableCount (p : ℕ) : ℕ := 2 + rnd.draw p % 4

def drawnName (p : ℕ) : List Syllable := drawnSyllables rnd (syllableCount rnd p) (p + 1)

def nameAt (p : ℕ) : String := String.ofList (spell (drawnName rnd p))

@[simp] theorem toList_nameAt (p : ℕ) : (nameAt rnd p).toList = spell (drawnName rnd p) :=
  String.toList_ofList

@[simp] theorem length_drawnSyllables (n p : ℕ) : (drawnSyllables rnd n p).length = n := by
  induction n generalizing p with
  | zero => rfl
  | succ n ih => rw [drawnSyllables, List.length_cons, ih]

@[simp] theorem length_drawnName (p : ℕ) : (drawnName rnd p).length = syllableCount rnd p :=
  length_drawnSyllables rnd _ _

def nameEnd (p : ℕ) : ℕ := p + 1 + 2 * syllableCount rnd p

/-! ## Fields and tracepoints -/

/-- Where the name of a field is drawn whose generator is drawn at `p`.  The first four generators
draw a number of variables in front of it. -/
def nameStart (p : ℕ) : ℕ := if rnd.draw p % 9 < 4 then p + 2 else p + 1

/-- Where the names of `n` fields are drawn, the first generator at `p`. -/
def nameStarts : ℕ → ℕ → List ℕ
  | 0, _ => []
  | n + 1, p => nameStart rnd p :: nameStarts n (nameEnd rnd (nameStart rnd p))

def fieldsEnd : ℕ → ℕ → ℕ
  | 0, p => p
  | n + 1, p => fieldsEnd n (nameEnd rnd (nameStart rnd p))

/-- Behind the random string and the eight numbers of `c_vars`. -/
def tableEnd (p : ℕ) : ℕ := p + 1 + (2 + rnd.draw p % 127) + 8

def fieldCount (p : ℕ) : ℕ := 1 + rnd.draw (tableEnd rnd p) % 10

/-- Where the names of a tracepoint are drawn, its turn starting at `p`. -/
def tpNameStarts (p : ℕ) : List ℕ := nameStarts rnd (fieldCount rnd p) (tableEnd rnd p + 1)

def tpEnd (p : ℕ) : ℕ := fieldsEnd rnd (fieldCount rnd p) (tableEnd rnd p + 1)

/-- The same for `n` tracepoints, one list for each. -/
def allNameStarts : ℕ → ℕ → List (List ℕ)
  | 0, _ => []
  | n + 1, p => tpNameStarts rnd p :: allNameStarts n (tpEnd rnd p)

end Places

/-! ## Random outcomes -/

/-- `J` does not depend on how many draws there were. -/
def Undrawn (J : Globals → Prop) : Prop := ∀ g n, J g → J { g with drawn := n }

/-- `J`, and the next number is drawn at `p`. -/
def At (J : Globals → Prop) (p : ℕ) (g : Globals) : Prop := J g ∧ g.drawn = p

section Random

variable {rnd : Random} {J : Globals → Prop} {E : Exc → Globals → Prop} {p : ℕ} (hJ : Undrawn J)

include hJ

theorem triple_draw :
    Triple (At J p) (draw rnd) (fun n g ↦ At J (p + 1) g ∧ n = rnd.draw p) E := by
  constructor
  intro g hg
  show At J (p + 1) { g with drawn := g.drawn + 1 } ∧ rnd.draw g.drawn = rnd.draw p
  rw [hg.2]
  exact ⟨⟨hJ g _ hg.1, rfl⟩, rfl⟩

theorem triple_randintBetween (a b : ℤ) : Triple (At J p) (randintBetween rnd a b)
    (fun z g ↦ At J (p + 1) g ∧ z = a + rnd.draw p % (b - a + 1)) E := by
  apply triple_bind (triple_draw hJ)
  intro n
  apply triple_assume
  intro hn
  rw [hn]
  exact triple_pure _ fun g hg ↦ ⟨hg, rfl⟩

theorem triple_choice {α : Type} {l : List α} (h : 0 < l.length) : Triple (At J p) (choice rnd l h)
    (fun x g ↦ At J (p + 1) g ∧ x = l.get (place rnd l.length h p)) E := by
  apply triple_bind (triple_draw hJ)
  intro n
  apply triple_assume
  intro hn
  subst hn
  exact triple_pure _ fun g hg ↦ ⟨hg, rfl⟩

theorem triple_syllables (n : ℕ) (name : String) : Triple (At J p) (syllables rnd n name)
    (fun r g ↦ At J (p + 2 * n) g ∧ r = name ++ String.ofList (spell (drawnSyllables rnd n p)))
    E := by
  induction n generalizing name p with
  | zero =>
    apply triple_pure
    intro g hg
    exact ⟨hg, by simp [drawnSyllables, spell]⟩
  | succ n ih =>
    apply triple_bind (triple_choice hJ _)
    intro consonant
    apply triple_assume
    intro hc
    apply triple_bind (triple_choice hJ _)
    intro vowel
    apply triple_assume
    intro hv
    apply (ih ((name.push consonant).push vowel)).conseq
    · exact fun _ hg ↦ hg
    · intro r g hg
      have hend : p + 1 + 1 + 2 * n = p + 2 * (n + 1) := by omega
      rw [hend] at hg
      refine ⟨hg.1, ?_⟩
      rw [hg.2, hc, hv]
      apply String.toList_injective
      rw [String.toList_append, String.toList_push, String.toList_push, String.toList_ofList,
        String.toList_append, String.toList_ofList, List.append_assoc, List.append_assoc]
      rfl
    · exact fun _ _ he ↦ he

/-- The name of a field is spelled by the numbers behind the number of its syllables. -/
theorem triple_cleverName : Triple (At J p) (cleverName rnd)
    (fun name g ↦ At J (nameEnd rnd p) g ∧ name = nameAt rnd p) E := by
  apply triple_bind (triple_randintBetween hJ 2 5)
  intro n
  apply triple_assume
  intro hn
  have hcount : n.toNat = syllableCount rnd p := by
    unfold syllableCount
    omega
  rw [hcount]
  apply (triple_syllables hJ (syllableCount rnd p) "").conseq
  · exact fun _ hg ↦ hg
  · intro name g hg
    rw [String.empty_append] at hg
    exact hg
  · exact fun _ _ he ↦ he

theorem triple_letters (n : ℕ) : Triple (At J p) (letters rnd n)
    (fun cs g ↦ At J (p + n) g ∧ ∀ c ∈ cs, c ∈ asciiLetters) E := by
  induction n generalizing p with
  | zero => exact triple_pure _ fun g hg ↦ ⟨hg, List.forall_mem_nil _⟩
  | succ n ih =>
    apply triple_bind (triple_choice hJ _)
    intro c
    apply triple_assume
    intro hc
    have hmem : c ∈ asciiLetters := by
      rw [hc]
      exact List.get_mem _ _
    apply triple_bind ih
    intro rest
    apply triple_pure
    intro g hg
    have hend : p + 1 + n = p + (n + 1) := by omega
    rw [hend] at hg
    exact ⟨hg.1, List.forall_mem_cons.mpr ⟨hmem, hg.2⟩⟩

theorem triple_randomString : Triple (At J p) (randomString rnd)
    (fun s g ↦ At J (p + 1 + (2 + rnd.draw p % 127)) g ∧ ∀ c ∈ s.toList, c ∈ asciiLetters) E := by
  apply triple_bind (triple_randintBetween hJ 2 128)
  intro n
  apply triple_assume
  intro hn
  have hcount : n.toNat = 2 + rnd.draw p % 127 := by omega
  rw [hcount]
  apply triple_bind (triple_letters hJ _)
  intro cs
  apply triple_pure
  intro g hg
  rw [String.toList_ofList]
  exact hg

theorem triple_randomFloat : Triple (At J p) (randomFloat rnd)
    (fun text g ↦ At J (p + 1) g ∧ text = rnd.float (rnd.draw p)) E := by
  apply triple_bind (triple_draw hJ)
  intro n
  apply triple_assume
  intro hn
  rw [hn]
  exact triple_pure _ fun g hg ↦ ⟨hg, rfl⟩

theorem triple_randint : Triple (At J p) (randint rnd) (fun _ ↦ At J (p + 1)) E :=
  (triple_randintBetween hJ _ _).conseq (fun _ hg ↦ hg) (fun _ _ hg ↦ hg.1) fun _ _ he ↦ he

end Random

end UstBench.Tpgen
