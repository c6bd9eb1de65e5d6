import UstBench.Driver.Results
import UstBench.Reasoning.Assoc
import UstBench.Reasoning.Decimal
import UstBench.Reasoning.Dotted

/-!
# Flattening

What `flatten_dict` makes of a nested value: an entry for every leaf, under the path to it.
-/

namespace UstBench.Driver

open Reasoning

/-! ## Values as trees -/

mutual

/-- The leaves of a value with their paths: keys of dictionaries, and indices of lists. -/
def Value.leaves : Value → List (List String × Value)
  | .none => []
  | .num q => [([], .num q)]
  | .str s => [([], .str s)]
  | .list elements => leavesOfElements 0 elements
  | .dict items => leavesOfItems items

def leavesOfItems : List (String × Value) → List (List String × Value)
  | [] => []
  | (key, v) :: rest => v.leaves.map (fun l ↦ (key :: l.1, l.2)) ++ leavesOfItems rest

def leavesOfElements : ℕ → List Value → List (List String × Value)
  | _, [] => []
  | i, v :: rest => v.leaves.map (fun l ↦ (toString i :: l.1, l.2)) ++ leavesOfElements (i + 1) rest

end

/-- A list as a dictionary of its indices, from `i` on. -/
def numbered : ℕ → List Value → List (String × Value)
  | _, [] => []
  | i, v :: rest => (toString i, v) :: numbered (i + 1) rest

def Value.children : Value → List (String × Value)
  | .dict items => items
  | .list elements => numbered 0 elements
  | _ => []

/-- The part of a value at a path. -/
def Value.at : List String → Value → Option Value
  | [], v => some v
  | key :: path, v => (v.children.lookup key).bind (Value.at path)

/-- What `flatten_dict` keeps: numbers and strings. -/
def Value.IsLeaf : Value → Prop
  | .num _ | .str _ => True
  | _ => False

/-- A part of a path that the text of the path shows. -/
def IsPart (key : String) : Prop := key ≠ "" ∧ '.' ∉ key.toList ∧ '/' ∉ key.toList

mutual

/-- Dictionaries have each key once, and their keys are parts of paths. -/
def Value.WellFormed : Value → Prop
  | .list elements => WellFormedElements elements
  | .dict items => (items.map Prod.fst).Nodup ∧ WellFormedItems items
  | _ => True

def WellFormedItems : List (String × Value) → Prop
  | [] => True
  | (key, v) :: rest => IsPart key ∧ v.WellFormed ∧ WellFormedItems rest

def WellFormedElements : List Value → Prop
  | [] => True
  | v :: rest => v.WellFormed ∧ WellFormedElements rest

end

/-- The result of a pass: a dictionary. -/
def Value.IsPass (v : Value) : Prop := v.WellFormed ∧ ∃ items, v = .dict items

/-- Every dictionary in the value has each key once, and all of its keys have the property. -/
inductive Value.Keyed (P : String → Prop) : Value → Prop
  | none : Value.Keyed P .none
  | num (q : ℚ) : Value.Keyed P (.num q)
  | str (s : String) : Value.Keyed P (.str s)
  | list {elements : List Value} (elements_keyed : ∀ v ∈ elements, Value.Keyed P v) :
      Value.Keyed P (.list elements)
  | dict {items : List (String × Value)} (nodup : (items.map Prod.fst).Nodup)
      (keys : ∀ p ∈ items, P p.1) (values : ∀ p ∈ items, Value.Keyed P p.2) :
      Value.Keyed P (.dict items)

/-- A key that is there, and without a dot. -/
def IsDotless (key : String) : Prop := key ≠ "" ∧ '.' ∉ key.toList

/-! ## The entries of `flatten_dict` -/

/-- The entry of a leaf of a value that is reached under the prefix `pre`. -/
def entryUnder (pre : String) (l : List String × Value) : String × Value :=
  (Dotted.join '.' (pre :: l.1), l.2)

def setAll (l : List (String × Value)) (dst : Dict) : Dict :=
  l.foldl (fun dst p ↦ dst.set p.1 p.2) dst

theorem setAll_append (l l' : List (String × Value)) (dst : Dict) :
    setAll (l ++ l') dst = setAll l' (setAll l dst) :=
  List.foldl_append

theorem entryUnder_cons (pre key : String) :
    (entryUnder pre ∘ fun l ↦ (key :: l.1, l.2)) = entryUnder (pre ++ "." ++ key) := by
  funext l
  exact Prod.ext (Dotted.join_cons_cons pre key l.1).symm rfl

theorem append_ne_empty (pre key : String) : pre ++ "." ++ key ≠ "" := by
  intro h
  have hlen := congrArg String.length h
  rw [String.length_append, String.length_append] at hlen
  have hdot : (".").length = 1 := rfl
  have hempty : ("").length = 0 := rfl
  omega

mutual

theorem flattenDictInternal_eq {pre : String} (hpre : pre ≠ "") :
    ∀ (v : Value) (dst : Dict),
      flattenDictInternal pre v dst = setAll (v.leaves.map (entryUnder pre)) dst
  | .none, dst => by
    rw [flattenDictInternal, Value.leaves]
    rfl
  | .num q, dst => by
    rw [flattenDictInternal, Value.leaves]
    simp [setAll, entryUnder]
  | .str s, dst => by
    rw [flattenDictInternal, Value.leaves]
    simp [setAll, entryUnder]
  | .list elements, dst => by
    rw [flattenDictInternal, Value.leaves]
    exact flattenElements_eq hpre 0 elements dst
  | .dict items, dst => by
    rw [flattenDictInternal, Value.leaves]
    exact flattenItems_eq hpre items dst

theorem flattenItems_eq {pre : String} (hpre : pre ≠ "") :
    ∀ (items : List (String × Value)) (dst : Dict),
      flattenItems pre items dst = setAll ((leavesOfItems items).map (entryUnder pre)) dst
  | [], dst => by
    rw [flattenItems, leavesOfItems]
    rfl
  | (key, v) :: rest, dst => by
    have hpos : 0 < pre.length := by
      rw [Nat.pos_iff_ne_zero, Ne, String.length_eq_zero_iff]
      exact hpre
    rw [flattenItems, leavesOfItems, if_pos hpos, List.map_append, setAll_append,
      flattenItems_eq hpre rest, flattenDictInternal_eq (append_ne_empty pre key) v, List.map_map,
      entryUnder_cons]

theorem flattenElements_eq {pre : String} (hpre : pre ≠ "") :
    ∀ (i : ℕ) (elements : List Value) (dst : Dict),
      flattenElements pre i elements dst =
        setAll ((leavesOfElements i elements).map (entryUnder pre)) dst
  | i, [], dst => by
    rw [flattenElements, leavesOfElements]
    rfl
  | i, v :: rest, dst => by
    rw [flattenElements, leavesOfElements, List.map_append, setAll_append,
      flattenElements_eq hpre (i + 1) rest,
      flattenDictInternal_eq (append_ne_empty pre (toString i)) v, List.map_map, entryUnder_cons]

end

def entry (l : List String × Value) : String × Value := (Dotted.join '.' l.1, l.2)

/-- The keys of the outermost dictionary start the paths. -/
theorem flattenDict_eq {items : List (String × Value)} (h : ∀ p ∈ items, p.1 ≠ "") :
    flattenDict (.dict items) = setAll ((leavesOfItems items).map entry) [] := by
  have hitems : ∀ dst,
      flattenItems "" items dst = setAll ((leavesOfItems items).map entry) dst := by
    induction items with
    | nil =>
      intro dst
      rw [flattenItems, leavesOfItems]
      rfl
    | cons p rest ih =>
      intro dst
      have hrest := ih fun q hq ↦ h q (List.mem_cons_of_mem p hq)
      -- there is no dot in front of an outermost key
      have hentry : (entry ∘ fun l : List String × Value ↦ (p.1 :: l.1, l.2)) =
          entryUnder p.1 := rfl
      rw [flattenItems, leavesOfItems, if_neg (by decide), List.map_append, setAll_append, hrest,
        flattenDictInternal_eq (h p List.mem_cons_self), List.map_map, hentry]
  rw [flattenDict, flattenDictInternal]
  exact hitems []

/-! ## Leaves and paths -/

section Paths

variable {v x : Value} {path : List String} {items : List (String × Value)}

theorem mem_numbered {p : String × Value} {i : ℕ} {elements : List Value}
    (h : p ∈ numbered i elements) : p.2 ∈ elements ∧ ∃ j, i ≤ j ∧ p.1 = toString j := by
  induction elements generalizing i with
  | nil => cases h
  | cons v rest ih =>
    rw [numbered] at h
    cases List.mem_cons.mp h with
    | inl heq =>
      rw [heq]
      exact ⟨List.mem_cons_self, i, le_rfl, rfl⟩
    | inr hmem =>
      rcases ih hmem with ⟨hv, j, hj, hkey⟩
      exact ⟨List.mem_cons_of_mem v hv, j, by omega, hkey⟩

theorem nodup_numbered (i : ℕ) (elements : List Value) :
    ((numbered i elements).map Prod.fst).Nodup := by
  induction elements generalizing i with
  | nil => exact List.nodup_nil
  | cons v rest ih =>
    rw [numbered, List.map_cons, List.nodup_cons]
    refine ⟨?_, ih (i + 1)⟩
    intro hmem
    rcases List.mem_map.mp hmem with ⟨p, hp, hkey⟩
    rcases (mem_numbered hp).2 with ⟨j, hj, hj'⟩
    have heq : i = j := Decimal.toString_injective (hkey.symm.trans hj')
    omega

theorem leavesOfElements_eq (i : ℕ) (elements : List Value) :
    leavesOfElements i elements = leavesOfItems (numbered i elements) := by
  induction elements generalizing i with
  | nil => rw [leavesOfElements, numbered, leavesOfItems]
  | cons v rest ih => rw [leavesOfElements, numbered, leavesOfItems, ih]

theorem leaves_of_leaf (h : v.IsLeaf) : v.leaves = [([], v)] ∧ v.children = [] := by
  cases v with
  | num q => exact ⟨by rw [Value.leaves], rfl⟩
  | str s => exact ⟨by rw [Value.leaves], rfl⟩
  | _ => exact h.elim

theorem leaves_of_not_leaf (h : ¬v.IsLeaf) : v.leaves = leavesOfItems v.children := by
  cases v with
  | none =>
    rw [Value.leaves]
    show [] = leavesOfItems []
    rw [leavesOfItems]
  | list elements => rw [Value.leaves, Value.children, leavesOfElements_eq]
  | dict items => rw [Value.leaves, Value.children]
  | _ => exact absurd trivial h

theorem sizeOf_child {p : String × Value} (h : p ∈ v.children) : sizeOf p.2 < sizeOf v := by
  cases v with
  | list elements =>
    have hlt := List.sizeOf_lt_of_mem (mem_numbered h).1
    rw [Value.list.sizeOf_spec]
    omega
  | dict items =>
    have hlt : sizeOf p < sizeOf items := List.sizeOf_lt_of_mem h
    have hpair : sizeOf p = 1 + sizeOf p.1 + sizeOf p.2 := Prod.mk.sizeOf_spec p.1 p.2
    rw [Value.dict.sizeOf_spec]
    omega
  | _ => cases h

/-- What follows for a value from its children holds of every value. -/
theorem Value.childInduction {P : Value → Prop} (h : ∀ v, (∀ p ∈ v.children, P p.2) → P v)
    (v : Value) : P v :=
  h v fun p hp ↦
    have : sizeOf p.2 < sizeOf v := sizeOf_child hp
    Value.childInduction h p.2
  termination_by sizeOf v

theorem wellFormedItems_iff :
    WellFormedItems items ↔ ∀ p ∈ items, IsPart p.1 ∧ p.2.WellFormed := by
  induction items with
  | nil => simp [WellFormedItems]
  | cons p rest ih =>
    rw [WellFormedItems, ih, List.forall_mem_cons, and_assoc]

theorem wellFormedElements_iff {elements : List Value} :
    WellFormedElements elements ↔ ∀ v ∈ elements, v.WellFormed := by
  induction elements with
  | nil => simp [WellFormedElements]
  | cons v rest ih => rw [WellFormedElements, ih, List.forall_mem_cons]

theorem isPart_toString (i : ℕ) : IsPart (toString i) :=
  ⟨Decimal.toString_ne_empty i, Decimal.notMem_toString (by decide) i,
    Decimal.notMem_toString (by decide) i⟩

theorem Value.WellFormed.children (h : v.WellFormed) :
    (v.children.map Prod.fst).Nodup ∧ ∀ p ∈ v.children, IsPart p.1 ∧ p.2.WellFormed := by
  cases v with
  | list elements =>
    rw [Value.WellFormed, wellFormedElements_iff] at h
    refine ⟨nodup_numbered 0 elements, ?_⟩
    intro p hp
    rcases mem_numbered hp with ⟨hv, j, -, hkey⟩
    rw [hkey]
    exact ⟨isPart_toString j, h p.2 hv⟩
  | dict items =>
    rw [Value.WellFormed, wellFormedItems_iff] at h
    exact h
  | _ => exact ⟨List.nodup_nil, nofun⟩

theorem exists_mem_numbered (i : ℕ) {elements : List Value} (h : v ∈ elements) :
    ∃ key, (key, v) ∈ numbered i elements := by
  induction elements generalizing i with
  | nil => cases h
  | cons u rest ih =>
    rw [numbered]
    cases List.mem_cons.mp h with
    | inl heq =>
      rw [heq]
      exact ⟨toString i, List.mem_cons_self⟩
    | inr hmem =>
      rcases ih (i + 1) hmem with ⟨key, hkey⟩
      exact ⟨key, List.mem_cons_of_mem _ hkey⟩

theorem Value.WellFormed.keyed (h : v.WellFormed) : v.Keyed IsPart := by
  induction v using Value.childInduction with
  | h v ih =>
    have hchildren := h.children
    cases v with
    | none => exact .none
    | num q => exact .num q
    | str s => exact .str s
    | list elements =>
      apply Value.Keyed.list
      intro u hu
      rcases exists_mem_numbered 0 hu with ⟨key, hkey⟩
      exact ih (key, u) hkey (hchildren.2 _ hkey).2
    | dict items =>
      apply Value.Keyed.dict hchildren.1
      · intro p hp
        exact (hchildren.2 p hp).1
      · intro p hp
        exact ih p hp (hchildren.2 p hp).2

section Keyed

variable {P Q : String → Prop}

theorem Value.Keyed.mono (h : v.Keyed P) (hPQ : ∀ key, P key → Q key) : v.Keyed Q := by
  induction h with
  | none => exact .none
  | num q => exact .num q
  | str s => exact .str s
  | list _ ih => exact .list ih
  | dict nodup keys _ ih => exact .dict nodup (fun p hp ↦ hPQ _ (keys p hp)) ih

theorem Value.Keyed.children (h : v.Keyed P) :
    (v.children.map Prod.fst).Nodup ∧ ∀ p ∈ v.children, p.2.Keyed P := by
  cases h with
  | @list elements hkeyed =>
    exact ⟨nodup_numbered 0 elements, fun p hp ↦ hkeyed p.2 (mem_numbered hp).1⟩
  | dict nodup _ values => exact ⟨nodup, values⟩
  | _ => exact ⟨List.nodup_nil, nofun⟩

/-- The indices of lists are keys as well. -/
theorem Value.Keyed.key (hP : ∀ i : ℕ, P (toString i)) (h : v.Keyed P) :
    ∀ p ∈ v.children, P p.1 := by
  cases h with
  | list hkeyed =>
    intro p hp
    rcases (mem_numbered hp).2 with ⟨j, -, hkey⟩
    rw [hkey]
    exact hP j
  | dict _ keys _ => exact keys
  | _ => exact nofun

end Keyed

theorem mem_leavesOfItems {l : List String × Value} :
    l ∈ leavesOfItems items ↔
      ∃ p ∈ items, ∃ rest, l.1 = p.1 :: rest ∧ (rest, l.2) ∈ p.2.leaves := by
  induction items with
  | nil => simp [leavesOfItems]
  | cons p items ih =>
    rw [leavesOfItems, List.mem_append, ih, List.exists_mem_cons_iff, List.mem_map]
    apply or_congr_left
    constructor
    · rintro ⟨l', hl', rfl⟩
      exact ⟨l'.1, rfl, hl'⟩
    · rintro ⟨rest, hrest, hmem⟩
      exact ⟨(rest, l.2), hmem, Prod.ext hrest.symm rfl⟩

section Keyed

variable {P : String → Prop}

/-- The leaves of a value are what its paths lead to. -/
theorem Value.Keyed.mem_leaves (h : v.Keyed P) :
    (path, x) ∈ v.leaves ↔ v.at path = some x ∧ x.IsLeaf := by
  induction v using Value.childInduction generalizing path with
  | h v ih =>
    have hchildren := h.children
    -- a leaf has the empty path alone, and any other value has the paths of its children
    by_cases hleaf : v.IsLeaf
    · have hv := leaves_of_leaf hleaf
      rw [hv.1, List.mem_singleton, Prod.mk.injEq]
      cases path with
      | nil =>
        rw [Value.at, Option.some.injEq]
        constructor
        · rintro ⟨-, rfl⟩
          exact ⟨rfl, hleaf⟩
        · rintro ⟨rfl, -⟩
          exact ⟨rfl, rfl⟩
      | cons key path =>
        rw [Value.at, hv.2]
        simp
    · rw [leaves_of_not_leaf hleaf, mem_leavesOfItems]
      cases path with
      | nil =>
        rw [Value.at, Option.some.injEq]
        constructor
        · rintro ⟨p, -, rest, hrest, -⟩
          cases hrest
        · rintro ⟨rfl, hx⟩
          exact absurd hx hleaf
      | cons key path =>
        rw [Value.at, Option.bind_eq_some_iff]
        constructor
        · rintro ⟨p, hp, rest, hrest, hmem⟩
          cases hrest
          have hat := (ih p hp (hchildren.2 p hp)).mp hmem
          exact ⟨⟨p.2, (Assoc.lookup_eq_some_iff hchildren.1).mpr hp, hat.1⟩, hat.2⟩
        · rintro ⟨⟨u, hu, hat⟩, hx⟩
          have hp := (Assoc.lookup_eq_some_iff hchildren.1).mp hu
          exact ⟨(key, u), hp, path, rfl, (ih (key, u) hp (hchildren.2 _ hp)).mpr ⟨hat, hx⟩⟩

theorem Value.Keyed.of_leaf (hP : ∀ i : ℕ, P (toString i)) (h : v.Keyed P)
    (hx : (path, x) ∈ v.leaves) : ∀ key ∈ path, P key := by
  induction v using Value.childInduction generalizing path with
  | h v ih =>
    by_cases hleaf : v.IsLeaf
    · rw [(leaves_of_leaf hleaf).1, List.mem_singleton, Prod.mk.injEq] at hx
      rw [hx.1]
      exact nofun
    · rw [leaves_of_not_leaf hleaf, mem_leavesOfItems] at hx
      rcases hx with ⟨p, hp, rest, hpath, hmem⟩
      rw [show path = p.1 :: rest from hpath, List.forall_mem_cons]
      exact ⟨h.key hP p hp, ih p hp (h.children.2 p hp) hmem⟩

end Keyed

theorem nodup_leavesOfItems (hnd : (items.map Prod.fst).Nodup)
    (h : ∀ p ∈ items, (p.2.leaves.map Prod.fst).Nodup) :
    ((leavesOfItems items).map Prod.fst).Nodup := by
  induction items with
  | nil =>
    rw [leavesOfItems]
    exact List.nodup_nil
  | cons p rest ih =>
    rw [List.map_cons, List.nodup_cons] at hnd
    rw [leavesOfItems, List.map_append, List.nodup_append', List.map_map]
    refine ⟨?_, ih hnd.2 fun q hq ↦ h q (List.mem_cons_of_mem p hq), ?_⟩
    · have hcons := (h p List.mem_cons_self).map (List.cons_injective (a := p.1))
      rw [List.map_map] at hcons
      exact hcons
    · intro path hpath hrest
      rcases List.mem_map.mp hpath with ⟨l, -, rfl⟩
      rcases List.mem_map.mp hrest with ⟨l', hl', heq⟩
      rcases mem_leavesOfItems.mp hl' with ⟨q, hq, rest', hpath', -⟩
      rw [hpath'] at heq
      exact hnd.1 (List.mem_map.mpr ⟨q, hq, (List.cons.inj heq).1⟩)

theorem Value.Keyed.nodup_leaves {P : String → Prop} (h : v.Keyed P) :
    (v.leaves.map Prod.fst).Nodup := by
  induction v using Value.childInduction with
  | h v ih =>
    by_cases hleaf : v.IsLeaf
    · rw [(leaves_of_leaf hleaf).1]
      exact List.nodup_singleton _
    · rw [leaves_of_not_leaf hleaf]
      exact nodup_leavesOfItems h.children.1 fun p hp ↦ ih p hp (h.children.2 p hp)

/-! ### Dotless keys -/

theorem isDotless_toString (i : ℕ) : IsDotless (toString i) :=
  ⟨(isPart_toString i).1, (isPart_toString i).2.1⟩

/-- A leaf of a dictionary is reached by a path with at least one key. -/
theorem path_ne_nil {l : List String × Value} (h : l ∈ (Value.dict items).leaves) : l.1 ≠ [] := by
  rw [Value.leaves] at h
  rcases mem_leavesOfItems.mp h with ⟨p, -, rest, hpath, -⟩
  rw [hpath]
  exact List.cons_ne_nil p.1 rest

/-- Different leaves of a dictionary have different dotted paths. -/
theorem Value.Keyed.nodup_entries (h : (Value.dict items).Keyed IsDotless) :
    (((Value.dict items).leaves.map entry).map Prod.fst).Nodup := by
  have hdot : ∀ l ∈ (Value.dict items).leaves, ∀ key ∈ l.1, '.' ∉ key.toList :=
    fun l hl key hkey ↦ (h.of_leaf isDotless_toString hl key hkey).2
  rw [List.map_map]
  show ((Value.dict items).leaves.map (Dotted.join '.' ∘ Prod.fst)).Nodup
  rw [← List.map_map]
  apply h.nodup_leaves.map_on
  intro path hpath path' hpath' heq
  rcases List.mem_map.mp hpath with ⟨l, hl, rfl⟩
  rcases List.mem_map.mp hpath' with ⟨l', hl', rfl⟩
  exact Dotted.join_injective (path_ne_nil hl) (path_ne_nil hl') (hdot l hl) (hdot l' hl') heq

/-- Flattened, a dictionary with dotless keys is the dictionary of its leaves. -/
theorem flattenDict_of_keyed (h : (Value.dict items).Keyed IsDotless) :
    flattenDict (.dict items) = (Value.dict items).leaves.map entry := by
  have hkeys : ∀ p ∈ items, p.1 ≠ "" := by
    cases h with
    | dict _ keys _ => exact fun p hp ↦ (keys p hp).1
  have hset : setAll ((Value.dict items).leaves.map entry) [] =
      (Value.dict items).leaves.map entry := Assoc.foldl_set h.nodup_entries
  rw [flattenDict_eq hkeys, ← hset, Value.leaves]

end Paths

/-! ## The flattened pass -/

def Value.asNumber : Value → Option ℚ
  | .num q => some q
  | _ => Option.none

/-- The number at a dotted path, if there is one. -/
def Value.numberAt (v : Value) (p : String) : Option ℚ :=
  (v.at (Dotted.split '.' p)).bind Value.asNumber

theorem asNumber_eq_some_iff {v : Value} {q : ℚ} : v.asNumber = some q ↔ v = .num q := by
  cases v <;> simp [Value.asNumber]

theorem setAll_of_nodup {l : List (String × Value)} (h : (l.map Prod.fst).Nodup) :
    setAll l [] = l :=
  Assoc.foldl_set h

section Pass

variable {v : Value}

theorem Value.IsPass.dotless (h : v.IsPass) : v.Keyed IsDotless :=
  h.1.keyed.mono fun _ hkey ↦ ⟨hkey.1, hkey.2.1⟩

/-- A leaf of a pass is reached by a path with at least the key of a benchmark. -/
theorem Value.IsPass.path (h : v.IsPass) {l : List String × Value} (hl : l ∈ v.leaves) :
    l.1 ≠ [] ∧ ∀ key ∈ l.1, '.' ∉ key.toList := by
  refine ⟨?_, fun key hkey ↦ (h.dotless.of_leaf isDotless_toString hl key hkey).2⟩
  rcases h with ⟨-, items, rfl⟩
  exact path_ne_nil hl

theorem Value.IsPass.nodup_entries (h : v.IsPass) :
    ((v.leaves.map entry).map Prod.fst).Nodup := by
  have hkeyed := h.dotless
  rcases h with ⟨-, items, rfl⟩
  exact hkeyed.nodup_entries

/-- A flattened pass is the dictionary of its leaves. -/
theorem flattenDict_pass (h : v.IsPass) : flattenDict v = v.leaves.map entry := by
  have hkeyed := h.dotless
  rcases h with ⟨-, items, rfl⟩
  exact flattenDict_of_keyed hkeyed

/-- The number under a key of the flattened pass is the number at that path. -/
theorem asNumber_lookup (h : v.IsPass) (p : String) :
    ((flattenDict v).lookup p).bind Value.asNumber = v.numberAt p := by
  -- the parts of `p` are the one path that is joined to `p`
  have hmem : ∀ x, (flattenDict v).lookup p = some x ↔
      v.at (Dotted.split '.' p) = some x ∧ x.IsLeaf := by
    intro x
    rw [flattenDict_pass h, Assoc.lookup_eq_some_iff h.nodup_entries, List.mem_map]
    constructor
    · rintro ⟨l, hl, heq⟩
      have hpath := h.path hl
      have hkey : Dotted.join '.' l.1 = p := congrArg Prod.fst heq
      have hx : l.2 = x := congrArg Prod.snd heq
      rw [← hkey, Dotted.split_join hpath.1 hpath.2, ← hx]
      exact h.dotless.mem_leaves.mp hl
    · intro hx
      exact ⟨(Dotted.split '.' p, x), h.dotless.mem_leaves.mpr hx,
        Prod.ext (Dotted.join_split p) rfl⟩
  ext q
  rw [Value.numberAt, Option.bind_eq_some_iff, Option.bind_eq_some_iff]
  constructor
  · rintro ⟨x, hx, hq⟩
    exact ⟨x, ((hmem x).mp hx).1, hq⟩
  · rintro ⟨x, hx, hq⟩
    refine ⟨x, (hmem x).mpr ⟨hx, ?_⟩, hq⟩
    rw [asNumber_eq_some_iff.mp hq]
    exact trivial

/-- The dotted paths of a pass are names of files. -/
theorem slash_notMem_key (h : v.IsPass) {p : String} (hp : p ∈ (flattenDict v).map Prod.fst) :
    '/' ∉ p.toList := by
  rw [flattenDict_pass h, List.map_map] at hp
  rcases List.mem_map.mp hp with ⟨l, hl, rfl⟩
  show '/' ∉ (Dotted.join '.' l.1).toList
  have hparts : ∀ s ∈ l.1.map String.toList, '/' ∉ s := by
    intro s hs
    rcases List.mem_map.mp hs with ⟨key, hkey, rfl⟩
    exact (h.1.keyed.of_leaf isPart_toString hl key hkey).2.2
  rw [Dotted.toList_join]
  exact Dotted.notMem_intercalate (by decide) hparts

end Pass

end UstBench.Driver
