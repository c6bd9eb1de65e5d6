import Mathlib.Data.List.Basic
import Mathlib.Data.List.Nodup
import Mathlib.Tactic.Common

/-!
# Association lists

A dictionary as the list of its entries in the order of their insertion.  Setting a key that is
there replaces its value in place.
-/

namespace Reasoning.Assoc

section Keys

variable {K K' V : Type} {f : K → K'}

/-- The same values under other keys. -/
def mapKeys (f : K → K') (d : List (K × V)) : List (K' × V) := d.map fun p ↦ (f p.1, p.2)

theorem map_fst_mapKeys (d : List (K × V)) :
    (mapKeys f d).map Prod.fst = (d.map Prod.fst).map f := by
  rw [mapKeys, List.map_map, List.map_map]
  rfl

end Keys

section Set

variable {K V : Type} [DecidableEq K]

def set (d : List (K × V)) (k : K) (v : V) : List (K × V) :=
  if d.any fun p ↦ p.1 = k then
    d.map fun p ↦ if p.1 = k then (k, v) else p
  else
    d ++ [(k, v)]

theorem any_key_iff {d : List (K × V)} {k : K} :
    (d.any fun p ↦ p.1 = k) = true ↔ k ∈ d.map Prod.fst := by
  simp only [List.any_eq_true, decide_eq_true_eq, List.mem_map]

theorem set_of_mem {d : List (K × V)} {k : K} (h : k ∈ d.map Prod.fst) (v : V) :
    set d k v = d.map fun p ↦ if p.1 = k then (k, v) else p :=
  if_pos (any_key_iff.mpr h)

theorem set_of_notMem {d : List (K × V)} {k : K} (h : k ∉ d.map Prod.fst) (v : V) :
    set d k v = d ++ [(k, v)] :=
  if_neg fun ha ↦ h (any_key_iff.mp ha)

theorem map_fst_set_of_mem {d : List (K × V)} {k : K} (h : k ∈ d.map Prod.fst) (v : V) :
    (set d k v).map Prod.fst = d.map Prod.fst := by
  rw [set_of_mem h, List.map_map]
  apply List.map_congr_left
  intro p _
  show (if p.1 = k then (k, v) else p).1 = p.1
  split
  · rename_i hk
    exact hk.symm
  · rfl

theorem mem_map_fst_set (d : List (K × V)) (k : K) (v : V) : k ∈ (set d k v).map Prod.fst := by
  by_cases h : k ∈ d.map Prod.fst
  · rw [map_fst_set_of_mem h]
    exact h
  · rw [set_of_notMem h, List.map_append]
    exact List.mem_append_right _ List.mem_cons_self

/-- Of two values set in a row the second stays. -/
theorem set_set (d : List (K × V)) (k : K) (v v' : V) : set (set d k v) k v' = set d k v' := by
  rw [set_of_mem (mem_map_fst_set d k v)]
  by_cases h : k ∈ d.map Prod.fst
  · rw [set_of_mem h, set_of_mem h, List.map_map]
    apply List.map_congr_left
    intro p _
    show (if (if p.1 = k then (k, v) else p).1 = k then (k, v')
      else if p.1 = k then (k, v) else p) = if p.1 = k then (k, v') else p
    by_cases hp : p.1 = k
    · rw [if_pos hp, if_pos rfl, if_pos hp]
    · rw [if_neg hp, if_neg hp]
  · -- the first value was appended, and no entry in front of it has the key
    have hd : d.map (fun p ↦ if p.1 = k then (k, v') else p) = d := by
      conv_rhs => rw [← List.map_id d]
      apply List.map_congr_left
      intro p hp
      exact if_neg fun hk ↦ h (List.mem_map.mpr ⟨p, hp, hk⟩)
    rw [set_of_notMem h, set_of_notMem h, List.map_append, hd, List.map_singleton, if_pos rfl]

theorem nodup_set {d : List (K × V)} (h : (d.map Prod.fst).Nodup) (k : K) (v : V) :
    ((set d k v).map Prod.fst).Nodup := by
  by_cases hk : k ∈ d.map Prod.fst
  · rw [map_fst_set_of_mem hk]
    exact h
  · rw [set_of_notMem hk, List.map_append, List.nodup_append']
    refine ⟨h, List.nodup_singleton k, ?_⟩
    exact List.disjoint_singleton.mpr hk

theorem nodup_foldl_set {l d : List (K × V)} (h : (d.map Prod.fst).Nodup) :
    ((l.foldl (fun d p ↦ set d p.1 p.2) d).map Prod.fst).Nodup := by
  induction l generalizing d with
  | nil => exact h
  | cons p l ih => exact ih (nodup_set h p.1 p.2)

theorem mem_of_mem_set {d : List (K × V)} {k : K} {v : V} {p : K × V} (h : p ∈ set d k v) :
    p ∈ d ∨ p = (k, v) := by
  unfold set at h
  split at h
  · rcases List.mem_map.mp h with ⟨q, hq, rfl⟩
    split
    · exact .inr rfl
    · exact .inl hq
  · rw [List.mem_append, List.mem_singleton] at h
    exact h

theorem mem_of_mem_foldl_set {l d : List (K × V)} {p : K × V}
    (h : p ∈ l.foldl (fun d p ↦ set d p.1 p.2) d) : p ∈ d ∨ p ∈ l := by
  induction l generalizing d with
  | nil => exact .inl h
  | cons q l ih =>
    cases ih h with
    | inl hset =>
      cases mem_of_mem_set hset with
      | inl hd => exact .inl hd
      | inr heq => exact .inr (heq ▸ List.mem_cons_self)
    | inr hl => exact .inr (List.mem_cons_of_mem q hl)

/-- Entries with new and distinct keys are appended. -/
theorem foldl_set {l d : List (K × V)} (h : ((d ++ l).map Prod.fst).Nodup) :
    l.foldl (fun d p ↦ set d p.1 p.2) d = d ++ l := by
  induction l generalizing d with
  | nil => rw [List.append_nil, List.foldl_nil]
  | cons p l ih =>
    have hnew : p.1 ∉ d.map Prod.fst := by
      intro hm
      rw [List.map_append, List.map_cons] at h
      exact (List.disjoint_of_nodup_append h) hm List.mem_cons_self
    rw [List.foldl_cons, set_of_notMem hnew, ih, List.append_assoc, List.singleton_append]
    rw [List.append_assoc, List.singleton_append]
    exact h

variable {K' : Type} [DecidableEq K'] {f : K → K'}

/-- Keys that stay apart under `f` are found and replaced under their new names. -/
theorem mapKeys_set (hf : Function.Injective f) (d : List (K × V)) (k : K) (v : V) :
    mapKeys f (set d k v) = set (mapKeys f d) (f k) v := by
  by_cases hk : k ∈ d.map Prod.fst
  · have hk' : f k ∈ (mapKeys f d).map Prod.fst := by
      rw [map_fst_mapKeys]
      exact List.mem_map_of_mem hk
    rw [set_of_mem hk, set_of_mem hk', mapKeys, mapKeys, List.map_map, List.map_map]
    apply List.map_congr_left
    intro p _
    show (f (if p.1 = k then (k, v) else p).1, (if p.1 = k then (k, v) else p).2) =
      if f p.1 = f k then (f k, v) else (f p.1, p.2)
    by_cases hp : p.1 = k
    · rw [if_pos hp, if_pos (congrArg f hp)]
    · rw [if_neg hp, if_neg (hf.ne hp)]
  · have hk' : f k ∉ (mapKeys f d).map Prod.fst := by
      rw [map_fst_mapKeys, List.mem_map_of_injective hf]
      exact hk
    rw [set_of_notMem hk, set_of_notMem hk', mapKeys, List.map_append]
    rfl

theorem mapKeys_foldl_set (hf : Function.Injective f) (l d : List (K × V)) :
    mapKeys f (l.foldl (fun d p ↦ set d p.1 p.2) d) =
      (mapKeys f l).foldl (fun d p ↦ set d p.1 p.2) (mapKeys f d) := by
  induction l generalizing d with
  | nil => rfl
  | cons p l ih =>
    rw [List.foldl_cons, ih, mapKeys_set hf]
    rfl

end Set

section Lookup

variable {K V : Type} [BEq K] [LawfulBEq K] {l : List (K × V)} {k : K} {v : V}

/-- In a dictionary a key has one value. -/
theorem lookup_eq_some_iff (h : (l.map Prod.fst).Nodup) : l.lookup k = some v ↔ (k, v) ∈ l := by
  induction l with
  | nil => simp
  | cons p l ih =>
    rw [List.map_cons, List.nodup_cons] at h
    rw [List.lookup_cons, List.mem_cons]
    by_cases hk : k = p.1
    · have hb : (k == p.1) = true := beq_iff_eq.mpr hk
      simp only [hb, Option.some.injEq]
      constructor
      · intro hv
        exact .inl (Prod.ext hk hv.symm)
      · intro hm
        cases hm with
        | inl heq => rw [← heq]
        | inr hmem => exact absurd (List.mem_map.mpr ⟨(k, v), hmem, hk⟩) h.1
    · have hb : (k == p.1) = false := beq_eq_false_iff_ne.mpr hk
      simp only [hb]
      rw [ih h.2]
      exact ⟨.inr, fun ho ↦ ho.resolve_left fun heq ↦ hk (congrArg Prod.fst heq)⟩

theorem mem_of_lookup (h : l.lookup k = some v) : (k, v) ∈ l := by
  rcases List.lookup_eq_some_iff.mp h with ⟨before, after, heq, -⟩
  rw [heq]
  simp

end Lookup

section Select

variable {K V : Type} [BEq K] {l : List (K × V)}

theorem lookup_map_snd {W : Type} {k : K} (f : V → W) :
    (l.map fun p ↦ (p.1, f p.2)).lookup k = (l.lookup k).map f := by
  induction l with
  | nil => rfl
  | cons p l ih =>
    rw [List.map_cons, List.lookup_cons, List.lookup_cons, ih]
    cases k == p.1 with
    | true => rfl
    | false => rfl

/-- The entries of some keys, in the order of these. -/
def select (l : List (K × V)) (ks : List K) : List (K × V) :=
  ks.filterMap fun k ↦ (l.lookup k).map (Prod.mk k)

theorem lookup_of_mem_select {ks : List K} {p : K × V} (h : p ∈ select l ks) :
    l.lookup p.1 = some p.2 := by
  rcases List.mem_filterMap.mp h with ⟨k, -, hk⟩
  rcases Option.map_eq_some_iff.mp hk with ⟨v, hv, rfl⟩
  exact hv

theorem keys_select [LawfulBEq K] {ks : List K} (h : ∀ k ∈ ks, k ∈ l.map Prod.fst) :
    (select l ks).map Prod.fst = ks := by
  induction ks with
  | nil => rfl
  | cons k ks ih =>
    rw [List.forall_mem_cons] at h
    have hsome : (l.lookup k).isSome := by
      rw [List.lookup_isSome_iff]
      rcases List.mem_map.mp h.1 with ⟨p, hp, hk⟩
      exact ⟨p, hp, beq_iff_eq.mpr hk.symm⟩
    rcases Option.isSome_iff_exists.mp hsome with ⟨v, hv⟩
    have hcons : select l (k :: ks) = (k, v) :: select l ks :=
      List.filterMap_cons_some (by rw [hv]; rfl)
    rw [hcons, List.map_cons, ih h.2]

end Select

end Reasoning.Assoc
