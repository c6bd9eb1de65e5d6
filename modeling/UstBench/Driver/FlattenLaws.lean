import Mathlib.Data.Set.Card
import UstBench.Driver.Flatten

/-!
# Laws of flattening

With dotless keys nothing is lost: every leaf has its own entry, under the path to it.  With any
keys, flattening in two steps is flattening in one, the later of two colliding leaves winning in
both.
-/

namespace UstBench.Driver

open Reasoning

/-! ## Nothing lost, nothing invented -/

/-- The leaf at a path of a value. -/
def Value.LeafAt (t : Value) (path : List String) (x : Value) : Prop :=
  t.at path = some x ∧ x.IsLeaf

/-- `flat` has an entry for every leaf of `t`, under the dotted path to it, and no others. -/
structure FlattensExactly (t : Value) (flat : Dict) : Prop where
  kept : ∀ path x, t.LeafAt path x → flat.lookup (Dotted.join '.' path) = some x
  nothingElse : ∀ key ∈ flat.map Prod.fst, ∃ path x, t.LeafAt path x ∧ key = Dotted.join '.' path
  apart : ∀ path path' x x', t.LeafAt path x → t.LeafAt path' x' →
    Dotted.join '.' path = Dotted.join '.' path' → path = path'
  distinct : (flat.map Prod.fst).Nodup
  length : flat.length = Set.ncard {path | ∃ x, t.LeafAt path x}

section Exact

variable {items : List (String × Value)} {path path' : List String} {x x' : Value}

theorem Value.LeafAt.mem_leaves (h : (Value.dict items).Keyed IsDotless)
    (hl : (Value.dict items).LeafAt path x) : (path, x) ∈ (Value.dict items).leaves :=
  h.mem_leaves.mpr hl

/-- Without dots in the keys, the dotted paths of two leaves differ. -/
theorem Value.LeafAt.path_eq (h : (Value.dict items).Keyed IsDotless)
    (hl : (Value.dict items).LeafAt path x) (hl' : (Value.dict items).LeafAt path' x')
    (heq : Dotted.join '.' path = Dotted.join '.' path') : path = path' := by
  have hdot : ∀ {path : List String} {x : Value}, (Value.dict items).LeafAt path x →
      ∀ key ∈ path, '.' ∉ key.toList :=
    fun hl key hkey ↦ (h.of_leaf isDotless_toString (hl.mem_leaves h) key hkey).2
  exact Dotted.join_injective (path_ne_nil (hl.mem_leaves h)) (path_ne_nil (hl'.mem_leaves h))
    (hdot hl) (hdot hl') heq

/-- The paths of the leaves are those the tree is walked along. -/
theorem setOf_leafAt (h : (Value.dict items).Keyed IsDotless) :
    {path | ∃ x, (Value.dict items).LeafAt path x} =
      (((Value.dict items).leaves.map Prod.fst).toFinset : Set (List String)) := by
  ext path
  rw [Set.mem_ofPred_eq, List.coe_toFinset, Set.mem_ofPred_eq, List.mem_map]
  constructor
  · intro hx
    rcases hx with ⟨x, hx⟩
    exact ⟨(path, x), hx.mem_leaves h, rfl⟩
  · intro hl
    rcases hl with ⟨l, hl, rfl⟩
    exact ⟨l.2, h.mem_leaves.mp hl⟩

end Exact

/-- `flatten_dict` maps the leaves of a dictionary with dotless keys one to one to its entries. -/
theorem flattenDict_exact {items : List (String × Value)}
    (h : (Value.dict items).Keyed IsDotless) :
    FlattensExactly (.dict items) (flattenDict (.dict items)) := by
  have hflat := flattenDict_of_keyed h
  have hnodup : ((flattenDict (.dict items)).map Prod.fst).Nodup := by
    rw [hflat]
    exact h.nodup_entries
  refine ⟨?_, ?_, fun _ _ _ _ hl hl' heq ↦ hl.path_eq h hl' heq, hnodup, ?_⟩
  · intro path x hl
    rw [Assoc.lookup_eq_some_iff hnodup, hflat]
    exact List.mem_map.mpr ⟨(path, x), hl.mem_leaves h, rfl⟩
  · intro key hkey
    rw [hflat, List.map_map] at hkey
    rcases List.mem_map.mp hkey with ⟨l, hl, hjoin⟩
    exact ⟨l.1, l.2, h.mem_leaves.mp hl, hjoin.symm⟩
  · -- one entry for every leaf, and no path twice
    rw [setOf_leafAt h, Set.ncard_coe_finset, List.toFinset_card_of_nodup h.nodup_leaves, hflat,
      List.length_map, List.length_map]

/-- Two levels with a list in the second, and `None` among its elements. -/
def sampleTree : List (String × Value) :=
  [("basic", .dict [("args", .list [.str "run", .none, .num 3])]), ("count", .num 2)]

theorem flattenDict_exact_sample :
    FlattensExactly (.dict sampleTree) (flattenDict (.dict sampleTree)) := by
  apply flattenDict_exact
  apply Value.Keyed.dict (by decide)
  · intro p hp
    simp only [sampleTree, List.mem_cons, List.not_mem_nil, or_false] at hp
    rcases hp with rfl | rfl
    · exact ⟨by decide, by decide⟩
    · exact ⟨by decide, by decide⟩
  · intro p hp
    simp only [sampleTree, List.mem_cons, List.not_mem_nil, or_false] at hp
    rcases hp with rfl | rfl
    · apply Value.Keyed.dict (by decide)
      · intro p hp
        rw [List.mem_singleton.mp hp]
        exact ⟨by decide, by decide⟩
      · intro p hp
        rw [List.mem_singleton.mp hp]
        apply Value.Keyed.list
        intro v hv
        simp only [List.mem_cons, List.not_mem_nil, or_false] at hv
        rcases hv with rfl | rfl | rfl
        · exact .str _
        · exact .none
        · exact .num _
    · exact .num _

/-! ## Flattening in two steps -/

theorem isLeaf_of_mem_leaves {v : Value} {l : List String × Value} (h : l ∈ v.leaves) :
    l.2.IsLeaf := by
  induction v using Value.childInduction generalizing l with
  | h v ih =>
    by_cases hleaf : v.IsLeaf
    · rw [(leaves_of_leaf hleaf).1, List.mem_singleton] at h
      rw [h]
      exact hleaf
    · rw [leaves_of_not_leaf hleaf] at h
      rcases mem_leavesOfItems.mp h with ⟨p, hp, rest, -, hmem⟩
      exact ih p hp (l := (rest, l.2)) hmem

section Twice

variable {items : List (String × Value)} {flat : Dict} {k : String}

/-- The prefix that an outer key puts in front of a dotted path. -/
def under (k key : String) : String := k ++ "." ++ key

theorem under_injective (k : String) : Function.Injective (under k) := by
  intro a b h
  have hl := congrArg String.toList h
  unfold under at hl
  rw [String.toList_append, String.toList_append, String.toList_append, String.toList_append] at hl
  exact String.toList_injective (List.append_cancel_left hl)

-- a dictionary of leaves has one leaf for every entry, with its key for a path
theorem leavesOfItems_of_leaves (h : ∀ p ∈ flat, p.2.IsLeaf) :
    leavesOfItems flat = flat.map fun p ↦ ([p.1], p.2) := by
  induction flat with
  | nil => rw [leavesOfItems, List.map_nil]
  | cons p flat ih =>
    rw [leavesOfItems, (leaves_of_leaf (h p List.mem_cons_self)).1,
      ih fun q hq ↦ h q (List.mem_cons_of_mem p hq)]
    rfl

theorem leavesOfItems_singleton (v : Value) :
    leavesOfItems [(k, v)] = v.leaves.map fun l ↦ (k :: l.1, l.2) := by
  rw [leavesOfItems, leavesOfItems, List.append_nil]

/-- An outer key puts its prefix in front of all entries. -/
theorem entries_under (items : List (String × Value)) :
    (leavesOfItems [(k, .dict items)]).map entry =
      Assoc.mapKeys (under k) ((leavesOfItems items).map entry) := by
  rw [leavesOfItems_singleton, Assoc.mapKeys, List.map_map, List.map_map, Value.leaves]
  apply List.map_congr_left
  intro l hl
  rw [← Value.leaves] at hl
  have hjoin : Dotted.join '.' (k :: l.1) = under k (Dotted.join '.' l.1) :=
    Dotted.join_cons k (path_ne_nil hl)
  exact Prod.ext hjoin rfl

theorem entries_of_leaves (h : ∀ p ∈ flat, p.2.IsLeaf) :
    (leavesOfItems flat).map entry = flat := by
  rw [leavesOfItems_of_leaves h, List.map_map]
  conv_rhs => rw [← List.map_id flat]
  apply List.map_congr_left
  intro p _
  exact Prod.ext (Dotted.join_singleton (c := '.') p.1) rfl

/-- A flattened dictionary: each key once, no key empty, and leaves only. -/
structure IsFlat (flat : Dict) : Prop where
  distinct : (flat.map Prod.fst).Nodup
  keys : ∀ p ∈ flat, p.1 ≠ ""
  leaves : ∀ p ∈ flat, p.2.IsLeaf

theorem isFlat_flattenDict (h : ∀ p ∈ items, p.1 ≠ "") : IsFlat (flattenDict (.dict items)) := by
  have hmem : ∀ p ∈ flattenDict (.dict items), p ∈ (leavesOfItems items).map entry := by
    intro p hp
    rw [flattenDict_eq h] at hp
    exact (Assoc.mem_of_mem_foldl_set hp).resolve_left (by simp)
  refine ⟨?_, ?_, ?_⟩
  · rw [flattenDict_eq h]
    exact Assoc.nodup_foldl_set List.nodup_nil
  · intro p hp
    rcases List.mem_map.mp (hmem p hp) with ⟨l, hl, rfl⟩
    rcases mem_leavesOfItems.mp hl with ⟨q, hq, rest, hpath, -⟩
    show Dotted.join '.' l.1 ≠ ""
    rw [hpath]
    exact Dotted.join_ne_empty (h q hq) rest
  · intro p hp
    rcases List.mem_map.mp (hmem p hp) with ⟨l, hl, rfl⟩
    rw [← Value.leaves] at hl
    exact isLeaf_of_mem_leaves hl

/-- A flattened dictionary is flattened to itself. -/
theorem IsFlat.flattenDict (h : IsFlat flat) : flattenDict (.dict flat) = flat := by
  rw [flattenDict_eq h.keys, entries_of_leaves h.leaves]
  exact Assoc.foldl_set h.distinct

/-- Below one key, a dictionary is flattened as it is by itself, with the prefix in front. -/
theorem flattenDict_under (hk : k ≠ "") (h : ∀ p ∈ items, p.1 ≠ "") :
    flattenDict (.dict [(k, .dict items)]) =
      Assoc.mapKeys (under k) (flattenDict (.dict items)) := by
  have hkey : ∀ p ∈ [(k, Value.dict items)], p.1 ≠ "" := by
    intro p hp
    rw [List.mem_singleton.mp hp]
    exact hk
  rw [flattenDict_eq hkey, entries_under, flattenDict_eq h]
  exact (Assoc.mapKeys_foldl_set (under_injective k) _ []).symm

end Twice

/-- Flattening the values of a dictionary first changes nothing. -/
theorem flattenDict_compositional {k : String} {items : List (String × Value)} (hk : k ≠ "")
    (h : ∀ p ∈ items, p.1 ≠ "") :
    flattenDict (.dict [(k, .dict (flattenDict (.dict items)))]) =
        flattenDict (.dict [(k, .dict items)]) ∧
      flattenDict (.dict (flattenDict (.dict items))) = flattenDict (.dict items) := by
  have hflat := isFlat_flattenDict h
  constructor
  · rw [flattenDict_under hk hflat.keys, hflat.flattenDict, flattenDict_under hk h]
  · exact hflat.flattenDict

/-- A key with a dot, and a path that collides with it. -/
def collidingTree : List (String × Value) :=
  [("a", .dict [("b", .num 1)]), ("a.b", .num 2)]

theorem flattenDict_compositional_colliding :
    flattenDict (.dict [("k", .dict (flattenDict (.dict collidingTree)))]) =
        flattenDict (.dict [("k", .dict collidingTree)]) ∧
      flattenDict (.dict (flattenDict (.dict collidingTree))) =
        flattenDict (.dict collidingTree) := by
  apply flattenDict_compositional (by decide)
  intro p hp
  simp only [collidingTree, List.mem_cons, List.not_mem_nil, or_false] at hp
  rcases hp with rfl | rfl
  · decide
  · decide

end UstBench.Driver
