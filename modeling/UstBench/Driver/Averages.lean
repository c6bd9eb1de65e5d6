import UstBench.Driver.Benchmarks
import UstBench.Driver.Flatten
import Mathlib.Algebra.BigOperators.Group.List.Basic

/-!
# The published averages

`main` averages the flattened passes of every level key by key, flattens the averages of all levels
once more, and writes one file for each key.
-/

namespace UstBench.Driver

open Reasoning Reasoning.Prog

/-! ## One key -/

def averageOf (numbers : List ℚ) : Option Value :=
  if numbers = [] then none else some (.num (numbers.sum / numbers.length))

theorem averageOf_perm {l l' : List ℚ} (h : l.Perm l') : averageOf l = averageOf l' := by
  unfold averageOf
  rw [h.sum_eq, h.length_eq]
  congr 1
  rw [← List.length_eq_zero_iff, ← List.length_eq_zero_iff, h.length_eq]

/-- The numbers that some flattened passes have under a key. -/
def numbersUnder (flatData : List Dict) (key : String) : List ℚ :=
  flatData.filterMap fun d ↦ (d.lookup key).bind Value.asNumber

/-- What the averaging loop has stored behind some passes. -/
def stored (d : Dict) (key : String) (total : ℚ) (count : ℕ) : Dict :=
  if 0 < count then d.set key (.num (total / count)) else d

theorem set_stored (d : Dict) (key : String) (total : ℚ) (count : ℕ) (v : Value) :
    (stored d key total count).set key v = d.set key v := by
  unfold stored
  split
  · exact Assoc.set_set d key _ v
  · rfl

section Key

variable {d : Dict} {key : String} {total : ℚ} {count : ℕ}

/-- A pass without a number under the key stores the same average once more. -/
theorem averagePass_stored (flatPassData : Dict) :
    averagePass key (total, count, stored d key total count) flatPassData =
      match (flatPassData.lookup key).bind Value.asNumber with
      | some q => (total + q, count + 1, stored d key (total + q) (count + 1))
      | none => (total, count, stored d key total count) := by
  have hagain : (if 0 < count then (stored d key total count).set key (.num (total / count))
      else stored d key total count) = stored d key total count := by
    by_cases hc : 0 < count
    · rw [if_pos hc, set_stored, stored, if_pos hc]
    · rw [if_neg hc]
  -- the average so far is overwritten
  have hnext : ∀ q : ℚ, (stored d key total count).set key (.num ((total + q) / (count + 1 : ℕ))) =
      stored d key (total + q) (count + 1) := by
    intro q
    rw [set_stored, stored, if_pos (Nat.succ_pos count)]
  cases hl : flatPassData.lookup key with
  | none => simp only [averagePass, hl, Option.bind_none, hagain]
  | some v =>
    cases v with
    | num q =>
      simp only [averagePass, hl, Option.bind_some, Value.asNumber, Nat.succ_pos, if_true, hnext]
    | _ => simp only [averagePass, hl, Option.bind_some, Value.asNumber, hagain]

theorem foldl_averagePass (flatData : List Dict) :
    flatData.foldl (averagePass key) (total, count, stored d key total count) =
      (total + (numbersUnder flatData key).sum, count + (numbersUnder flatData key).length,
        stored d key (total + (numbersUnder flatData key).sum)
          (count + (numbersUnder flatData key).length)) := by
  induction flatData generalizing total count with
  | nil => simp [numbersUnder]
  | cons p rest ih =>
    rw [List.foldl_cons, averagePass_stored]
    cases hp : (p.lookup key).bind Value.asNumber with
    | none =>
      have hnumbers : numbersUnder (p :: rest) key = numbersUnder rest key :=
        List.filterMap_cons_none hp
      rw [ih, hnumbers]
    | some q =>
      have hnumbers : numbersUnder (p :: rest) key = q :: numbersUnder rest key :=
        List.filterMap_cons_some hp
      rw [ih, hnumbers, List.sum_cons, List.length_cons, add_assoc, Nat.add_assoc,
        Nat.add_comm 1]

/-- The averaging loop of a key stores the average of its numbers, if there are any. -/
theorem averageKey_eq (flatData : List Dict) :
    averageKey flatData d key =
      match averageOf (numbersUnder flatData key) with
      | some v => d.set key v
      | none => d := by
  have hstart : (d : Dict) = stored d key 0 0 := rfl
  rw [averageKey]
  conv_lhs => rw [hstart, foldl_averagePass, zero_add, Nat.zero_add]
  unfold averageOf stored
  by_cases hnil : numbersUnder flatData key = []
  · rw [if_pos hnil, hnil]
    rfl
  · rw [if_neg hnil, if_pos (List.length_pos_iff.mpr hnil)]

end Key

/-! ## One level -/

/-- The entries of some keys that have an average. -/
def entriesOf (flatData : List Dict) (keys : List String) : Dict :=
  keys.filterMap fun key ↦ (averageOf (numbersUnder flatData key)).map (Prod.mk key)

theorem mem_entriesOf {flatData : List Dict} {keys : List String} {p : String × Value} :
    p ∈ entriesOf flatData keys ↔
      p.1 ∈ keys ∧ averageOf (numbersUnder flatData p.1) = some p.2 := by
  rw [entriesOf, List.mem_filterMap]
  constructor
  · rintro ⟨key, hkey, hp⟩
    rcases Option.map_eq_some_iff.mp hp with ⟨v, hv, rfl⟩
    exact ⟨hkey, hv⟩
  · rintro ⟨hkey, hv⟩
    exact ⟨p.1, hkey, by rw [hv]; rfl⟩

theorem keys_entriesOf_sublist (flatData : List Dict) (keys : List String) :
    ((entriesOf flatData keys).map Prod.fst).Sublist keys := by
  induction keys with
  | nil => exact List.Sublist.slnil
  | cons key keys ih =>
    unfold entriesOf at ih ⊢
    cases ha : averageOf (numbersUnder flatData key) with
    | none =>
      rw [List.filterMap_cons_none (by rw [ha]; rfl)]
      exact ih.cons key
    | some v =>
      rw [List.filterMap_cons_some (by rw [ha]; rfl), List.map_cons]
      exact ih.cons_cons key

/-- The loop over the keys sets the entries of those that have an average. -/
theorem foldl_averageKey (flatData : List Dict) (keys : List String) (d : Dict) :
    keys.foldl (averageKey flatData) d = setAll (entriesOf flatData keys) d := by
  induction keys generalizing d with
  | nil => rfl
  | cons key keys ih =>
    unfold entriesOf at ih ⊢
    rw [List.foldl_cons, averageKey_eq]
    cases ha : averageOf (numbersUnder flatData key) with
    | none =>
      rw [List.filterMap_cons_none (by rw [ha]; rfl)]
      exact ih d
    | some v =>
      rw [List.filterMap_cons_some (by rw [ha]; rfl)]
      exact ih (d.set key v)

theorem average_eq {flatData : List Dict} {keys : List String} (h : keys.Nodup) :
    average flatData keys = entriesOf flatData keys := by
  show keys.foldl (averageKey flatData) [] = _
  rw [foldl_averageKey]
  exact setAll_of_nodup (h.sublist (keys_entriesOf_sublist flatData keys))

/-! ## All levels -/

/-- An order that Python may take the keys of each level in. -/
structure KeyOrder where
  order : ℕ → List String → List String
  perm : ∀ cpuCount keys, (order cpuCount keys).Perm keys

def levelKey (cpuCount : ℕ) : String := toString cpuCount ++ "_cpus"

/-- `all_avg`, built by the loop of `main` from the passes of its levels. -/
def aggregate (order : KeyOrder) : List (ℕ × List Value) → Dict → Dict
  | [], allAvg => allAvg
  | (cpuCount, data) :: rest, allAvg =>
    let flatData := data.map flattenDict
    let avgData := average flatData (order.order cpuCount (allKeys flatData))
    aggregate order rest (allAvg.set (levelKey cpuCount) (.dict avgData))

/-- The averages of one level. -/
def levelAverages (order : KeyOrder) (l : ℕ × List Value) : Dict :=
  entriesOf (l.2.map flattenDict) (order.order l.1 (allKeys (l.2.map flattenDict)))

def publishedKey (cpuCount : ℕ) (p : String) : String := levelKey cpuCount ++ "." ++ p

/-- The number of CPUs is what stands in front of the first underscore. -/
theorem publishedKey_injective {c c' : ℕ} {p p' : String}
    (h : publishedKey c p = publishedKey c' p') : c = c' ∧ p = p' := by
  have hlist : ∀ (c : ℕ) (p : String), (publishedKey c p).toList =
      Nat.toDigits 10 c ++ '_' :: ['c', 'p', 'u', 's', '.'] ++ p.toList := by
    intro c p
    rw [publishedKey, levelKey, String.toList_append, String.toList_append, String.toList_append,
      Decimal.toList_toString]
    simp
  have hdigits : ∀ c : ℕ, '_' ∉ Nat.toDigits 10 c := Decimal.notMem_toDigits (by decide)
  have heq := congrArg String.toList h
  rw [hlist, hlist, List.append_assoc, List.append_assoc, List.cons_append, List.cons_append] at heq
  have hboth := Dotted.append_cons_inj (hdigits c) (hdigits c') heq
  have hrest : ['c', 'p', 'u', 's', '.'] ++ p.toList = ['c', 'p', 'u', 's', '.'] ++ p'.toList :=
    hboth.2
  exact ⟨Decimal.toDigits_injective hboth.1,
    String.toList_injective (List.append_cancel_left hrest)⟩

theorem levelKey_injective : Function.Injective levelKey := by
  intro c c' h
  have hkey : publishedKey c "" = publishedKey c' "" := by rw [publishedKey, publishedKey, h]
  exact (publishedKey_injective hkey).1

theorem levelKey_ne_empty (c : ℕ) : levelKey c ≠ "" := by
  intro h
  have hlen := congrArg String.length h
  rw [levelKey, String.length_append] at hlen
  have hcpus : ("_cpus").length = 5 := rfl
  have hempty : ("").length = 0 := rfl
  omega

section Aggregate

variable {order : KeyOrder} {l : List (ℕ × List Value)}

theorem nodup_keys (order : KeyOrder) (flatData : List Dict) (c : ℕ) :
    (order.order c (allKeys flatData)).Nodup :=
  (order.perm c _).nodup_iff.mpr (List.nodup_dedup _)

theorem aggregate_eq_setAll (d : Dict) : aggregate order l d =
    setAll (l.map fun x ↦ (levelKey x.1, .dict (levelAverages order x))) d := by
  induction l generalizing d with
  | nil => rfl
  | cons x rest ih =>
    rw [aggregate, average_eq (nodup_keys order _ _), ih]
    rfl

theorem aggregate_eq (h : (l.map Prod.fst).Nodup) :
    aggregate order l [] = l.map fun x ↦ (levelKey x.1, .dict (levelAverages order x)) := by
  rw [aggregate_eq_setAll]
  apply setAll_of_nodup
  have hkeys := h.map levelKey_injective
  rw [List.map_map] at hkeys ⊢
  exact hkeys

/-- The averages of a level are the leaves below its key. -/
theorem leaves_entriesOf (flatData : List Dict) (keys : List String) :
    leavesOfItems (entriesOf flatData keys) =
      (entriesOf flatData keys).map fun p ↦ ([p.1], p.2) := by
  have hleaf : ∀ p ∈ entriesOf flatData keys, p.2.leaves = [([], p.2)] := by
    intro p hp
    have hp' := (mem_entriesOf.mp hp).2
    unfold averageOf at hp'
    split at hp'
    · cases hp'
    · apply (leaves_of_leaf ?_).1
      rw [← Option.some.inj hp']
      exact trivial
  generalize entriesOf flatData keys = d at hleaf ⊢
  induction d with
  | nil => rw [leavesOfItems, List.map_nil]
  | cons p d ih =>
    rw [List.forall_mem_cons] at hleaf
    rw [leavesOfItems, hleaf.1, ih hleaf.2]
    rfl

/-- The entries of the flattened averages, in the order of the levels. -/
def publishedEntries (order : KeyOrder) (l : List (ℕ × List Value)) : Dict :=
  l.flatMap fun x ↦ (levelAverages order x).map fun p ↦ (publishedKey x.1 p.1, p.2)

theorem mem_publishedEntries {p : String × Value} :
    p ∈ publishedEntries order l ↔ ∃ x ∈ l, ∃ q ∈ levelAverages order x,
      p = (publishedKey x.1 q.1, q.2) := by
  rw [publishedEntries, List.mem_flatMap]
  apply exists_congr
  intro x
  rw [List.mem_map]
  apply and_congr_right
  intro _
  apply exists_congr
  intro q
  rw [eq_comm]

theorem nodup_publishedEntries (h : (l.map Prod.fst).Nodup) :
    ((publishedEntries order l).map Prod.fst).Nodup := by
  induction l with
  | nil => exact List.nodup_nil
  | cons x rest ih =>
    rw [List.map_cons, List.nodup_cons] at h
    rw [publishedEntries, List.flatMap_cons, List.map_append, List.nodup_append']
    refine ⟨?_, ih h.2, ?_⟩
    · have hkeys : (levelAverages order x).map Prod.fst |>.Nodup :=
        (nodup_keys order _ _).sublist (keys_entriesOf_sublist _ _)
      have hinj : Function.Injective (publishedKey x.1) :=
        fun _ _ he ↦ (publishedKey_injective he).2
      have hmap := hkeys.map hinj
      rw [List.map_map] at hmap ⊢
      exact hmap
    · intro key hkey hrest
      rcases List.mem_map.mp hkey with ⟨p, hp, rfl⟩
      rcases List.mem_map.mp hp with ⟨q, -, rfl⟩
      rcases List.mem_map.mp hrest with ⟨p', hp', heq⟩
      rcases mem_publishedEntries.mp hp' with ⟨x', hx', q', -, rfl⟩
      have hlevel := (publishedKey_injective heq).1
      exact h.1 (List.mem_map.mpr ⟨x', hx', hlevel⟩)

/-- `flatten_dict(all_avg)` -/
theorem flattenDict_aggregate (h : (l.map Prod.fst).Nodup) :
    flattenDict (.dict (aggregate order l [])) = publishedEntries order l := by
  have hleaves : (leavesOfItems (aggregate order l [])).map entry = publishedEntries order l := by
    rw [aggregate_eq h]
    clear h
    induction l with
    | nil =>
      rw [List.map_nil, leavesOfItems]
      rfl
    | cons x rest ih =>
      have hcons : publishedEntries order (x :: rest) =
          (levelAverages order x).map (fun p ↦ (publishedKey x.1 p.1, p.2)) ++
            publishedEntries order rest := List.flatMap_cons
      rw [List.map_cons, leavesOfItems, List.map_append, ih, hcons, Value.leaves, levelAverages,
        leaves_entriesOf, List.map_map, List.map_map]
      rfl
  have hkeys : ∀ p ∈ aggregate order l [], p.1 ≠ "" := by
    rw [aggregate_eq h]
    intro p hp
    rcases List.mem_map.mp hp with ⟨x, -, rfl⟩
    exact levelKey_ne_empty x.1
  rw [flattenDict_eq hkeys, hleaves, setAll_of_nodup (nodup_publishedEntries h)]

/-- The value under the key of a level and a path. -/
theorem lookup_published (h : (l.map Prod.fst).Nodup) {x : ℕ × List Value} (hx : x ∈ l)
    (p : String) : (flattenDict (.dict (aggregate order l []))).lookup (publishedKey x.1 p) =
      averageOf (numbersUnder (x.2.map flattenDict) p) := by
  -- a pass with a number under the path puts the path among the keys of its level
  have hall : ∀ v, averageOf (numbersUnder (x.2.map flattenDict) p) = some v →
      p ∈ order.order x.1 (allKeys (x.2.map flattenDict)) := by
    intro v hv
    have hne : numbersUnder (x.2.map flattenDict) p ≠ [] := by
      intro hnil
      rw [averageOf, if_pos hnil] at hv
      cases hv
    rcases List.exists_mem_of_ne_nil _ hne with ⟨q, hq⟩
    rcases List.mem_filterMap.mp hq with ⟨d, hd, hq'⟩
    rcases Option.bind_eq_some_iff.mp hq' with ⟨u, hu, -⟩
    rcases List.lookup_eq_some_iff.mp hu with ⟨before, after, heq, -⟩
    rw [(order.perm x.1 _).mem_iff, allKeys, List.mem_dedup, List.mem_flatMap]
    refine ⟨d, hd, ?_⟩
    rw [heq]
    simp
  rw [flattenDict_aggregate h]
  ext v
  rw [Assoc.lookup_eq_some_iff (nodup_publishedEntries h), mem_publishedEntries]
  constructor
  · rintro ⟨x', hx', q, hq, heq⟩
    rcases Prod.mk.inj heq with ⟨hkey, rfl⟩
    rcases publishedKey_injective hkey with ⟨hlevel, rfl⟩
    have hsame : x = x' := List.inj_on_of_nodup_map h hx hx' hlevel
    rw [hsame]
    exact (mem_entriesOf.mp hq).2
  · intro hv
    exact ⟨x, hx, (p, v), mem_entriesOf.mpr ⟨hall v hv, hv⟩, rfl⟩

/-- A key of the flattened averages is that of a level and of a path in one of its passes. -/
theorem key_of_mem (h : (l.map Prod.fst).Nodup) {key : String}
    (hkey : key ∈ (flattenDict (.dict (aggregate order l []))).map Prod.fst) :
    ∃ x ∈ l, ∃ p, key = publishedKey x.1 p ∧ ∃ v ∈ x.2, p ∈ (flattenDict v).map Prod.fst := by
  rw [flattenDict_aggregate h] at hkey
  rcases List.mem_map.mp hkey with ⟨p, hp, rfl⟩
  rcases mem_publishedEntries.mp hp with ⟨x, hx, q, hq, rfl⟩
  refine ⟨x, hx, q.1, rfl, ?_⟩
  have hmem := (mem_entriesOf.mp hq).1
  rw [(order.perm x.1 _).mem_iff, allKeys, List.mem_dedup, List.mem_flatMap] at hmem
  rcases hmem with ⟨d, hd, hqd⟩
  rcases List.mem_map.mp hd with ⟨v, hv, rfl⟩
  exact ⟨v, hv, hqd⟩

end Aggregate

/-! ## The files -/

/-- The file that a step has written. -/
def Step.file : (s : Step) → Except Exc s.Result → Option (String × String)
  | .writeFile name content, .ok _ => some (name, content)
  | _, _ => none

/-- The files written so far, the latest first. -/
def World.files (w : World) : List (String × String) := w.log.filterMap fun e ↦ e.step.file e.reply

def propertiesFile (env : Env) (dstDir : String) (p : String × Value) : String × String :=
  (dstDir ++ "/" ++ p.1 ++ ".properties", "YVALUE=" ++ env.str p.2 ++ "\n")

theorem propertiesFile_injective {env : Env} {dstDir : String} {p q : String × Value}
    (h : (propertiesFile env dstDir p).1 = (propertiesFile env dstDir q).1) : p.1 = q.1 := by
  have hlist := congrArg String.toList h
  simp only [propertiesFile, String.toList_append, List.append_assoc] at hlist
  have htail := List.append_cancel_left (List.append_cancel_left hlist)
  exact String.toList_injective (List.append_cancel_right htail)

theorem files_writePlotProperties {env : Env} {flatData : Dict} {dstDir : String} {w w' : World}
    (h : run (writePlotProperties env flatData dstDir) w = (.ok (), w')) :
    w'.files = (flatData.map (propertiesFile env dstDir)).reverse ++ w.files := by
  -- a call writes the file of its step, if it is one that writes
  have hcall : ∀ (s : Step) (fs : List (String × String)),
      Triple (fun w ↦ w.files = fs) (env.call s)
        (fun r w ↦ w.files = (s.file (.ok r)).toList ++ fs) fun _ _ ↦ True := by
    intro s fs
    apply triple_call
    · intro v r hv _
      rw [← hv, World.files, World.files, World.after_log, List.filterMap_cons]
      cases s.file (.ok r) with
      | none => rfl
      | some f => rfl
    · exact fun _ _ _ _ ↦ trivial
  have hfiles : ∀ fs, Triple (fun w ↦ w.files = fs)
      (forEach (fun p : String × Value ↦ env.call (.writeFile
        (dstDir ++ "/" ++ p.1 ++ ".properties") ("YVALUE=" ++ env.str p.2 ++ "\n"))) flatData)
      (fun _ w ↦ w.files = (flatData.map (propertiesFile env dstDir)).reverse ++ fs)
      fun _ _ ↦ True := by
    clear h
    induction flatData with
    | nil => exact fun fs ↦ triple_keep _
    | cons p flatData ih =>
      intro fs
      rw [forEach_cons]
      apply triple_bind (hcall _ fs)
      intro _
      apply (ih (propertiesFile env dstDir p :: fs)).conseq (fun _ hv ↦ hv) ?_ fun _ _ he ↦ he
      intro _ v hv
      rw [hv, List.map_cons, List.reverse_cons, List.append_assoc, List.singleton_append]
  have hall : Triple (fun v ↦ v.files = w.files) (writePlotProperties env flatData dstDir)
      (fun _ v ↦ v.files = (flatData.map (propertiesFile env dstDir)).reverse ++ w.files)
      fun _ _ ↦ True :=
    triple_bind (hcall (.makedirs dstDir) w.files) fun _ ↦ hfiles w.files
  exact hall.of_ok rfl h

/-! ## What is published -/

abbrev Pass := {v : Value // v.IsPass}

/-- The passes of some levels, each level once. -/
structure Measurements where
  levels : List (ℕ × List Pass)
  nodup : (levels.map Prod.fst).Nodup

def Measurements.data (m : Measurements) : List (ℕ × List Value) :=
  m.levels.map fun l ↦ (l.1, l.2.map Subtype.val)

/-- The same passes of the same levels, those of each level in any order. -/
def Measurements.Reordered (m m' : Measurements) : Prop :=
  List.Forall₂ (fun l l' ↦ l.1 = l'.1 ∧ l.2.Perm l'.2) m.levels m'.levels

/-- The flattened averages, as `main` hands them to `write_plot_properties`. -/
def Measurements.published (m : Measurements) (order : KeyOrder) : Dict :=
  flattenDict (.dict (aggregate order m.data []))

/-- The numbers that some passes have at a dotted path. -/
def numbersAt (passes : List Pass) (p : String) : List ℚ := passes.filterMap fun v ↦ v.1.numberAt p

theorem exists_of_forall₂ {α β : Type} {R : α → β → Prop} {l : List α} {l' : List β}
    (h : List.Forall₂ R l l') {a : α} (ha : a ∈ l) : ∃ b ∈ l', R a b := by
  induction h with
  | nil => cases ha
  | cons hr _ ih =>
    cases List.mem_cons.mp ha with
    | inl heq => exact ⟨_, List.mem_cons_self, heq ▸ hr⟩
    | inr hmem =>
      rcases ih hmem with ⟨b, hb, hab⟩
      exact ⟨b, List.mem_cons_of_mem _ hb, hab⟩

namespace Measurements

variable (m : Measurements) (order : KeyOrder)

theorem nodup_data : (m.data.map Prod.fst).Nodup := by
  rw [data, List.map_map]
  exact m.nodup

theorem lookup_eq_averageOf {l : ℕ × List Pass} (hl : l ∈ m.levels) (p : String) :
    (m.published order).lookup (publishedKey l.1 p) = averageOf (numbersAt l.2 p) := by
  have hnumbers : numbersUnder ((l.2.map Subtype.val).map flattenDict) p = numbersAt l.2 p := by
    rw [numbersUnder, numbersAt, List.map_map, List.filterMap_map]
    exact List.filterMap_congr fun v _ ↦ asNumber_lookup v.2 p
  have hx : (l.1, l.2.map Subtype.val) ∈ m.data :=
    List.mem_map_of_mem (f := fun l : ℕ × List Pass ↦ (l.1, l.2.map Subtype.val)) hl
  rw [← hnumbers]
  exact lookup_published m.nodup_data hx p

theorem level_of_key {key : String} (hkey : key ∈ (m.published order).map Prod.fst) :
    ∃ l ∈ m.levels, ∃ p, key = publishedKey l.1 p ∧ '/' ∉ key.toList := by
  rcases key_of_mem m.nodup_data hkey with ⟨x, hx, p, rfl, v, hv, hp⟩
  rcases List.mem_map.mp hx with ⟨l, hl, rfl⟩
  rcases List.mem_map.mp hv with ⟨pass, -, rfl⟩
  refine ⟨l, hl, p, rfl, ?_⟩
  have hslash := slash_notMem_key pass.2 hp
  have hdigits : '/' ∉ Nat.toDigits 10 l.1 := Decimal.notMem_toDigits (by decide) l.1
  simp [publishedKey, levelKey, hdigits, hslash]

theorem lookup_eq_none {key : String} (h : ∀ l ∈ m.levels, ∀ p, key ≠ publishedKey l.1 p) :
    (m.published order).lookup key = none := by
  rw [List.lookup_eq_none_iff]
  intro p hp
  rw [bne_iff_ne]
  rintro rfl
  rcases m.level_of_key order (List.mem_map_of_mem hp) with ⟨l, hl, q, hq, -⟩
  exact h l hl q hq

/-- Neither the order of the passes nor that of the keys shows. -/
theorem lookup_reordered {m' : Measurements} {order' : KeyOrder} (h : m.Reordered m')
    (key : String) :
    (m'.published order').lookup key = (m.published order).lookup key := by
  by_cases hkey : ∃ l ∈ m.levels, ∃ p, key = publishedKey l.1 p
  · rcases hkey with ⟨l, hl, p, rfl⟩
    rcases exists_of_forall₂ h hl with ⟨l', hl', hlevel, hperm⟩
    rw [m.lookup_eq_averageOf order hl, hlevel, m'.lookup_eq_averageOf order' hl']
    exact (averageOf_perm (hperm.filterMap _)).symm
  · have hnone : ∀ l ∈ m.levels, ∀ p, key ≠ publishedKey l.1 p :=
      fun l hl p he ↦ hkey ⟨l, hl, p, he⟩
    have hnone' : ∀ l' ∈ m'.levels, ∀ p, key ≠ publishedKey l'.1 p := by
      intro l' hl' p he
      rcases exists_of_forall₂ h.flip hl' with ⟨l, hl, hlevel, -⟩
      exact hnone l hl p (hlevel ▸ he)
    rw [m.lookup_eq_none order hnone, m'.lookup_eq_none order' hnone']

theorem nodup_published : ((m.published order).map Prod.fst).Nodup := by
  rw [published, flattenDict_aggregate m.nodup_data]
  exact nodup_publishedEntries m.nodup_data

end Measurements

/-- Under the key of a level and a path stands the mean over those passes of the level that have a
number there, and nothing if none has.  There are no other keys, different paths or levels have
different keys, the order of the passes does not matter, and every key gets one file of its own. -/
theorem averages_published (m : Measurements) (order : KeyOrder) :
    (∀ l ∈ m.levels, ∀ p, (m.published order).lookup (publishedKey l.1 p) =
      averageOf (numbersAt l.2 p)) ∧
    (∀ key ∈ (m.published order).map Prod.fst, ∃ l ∈ m.levels, ∃ p, key = publishedKey l.1 p) ∧
    (∀ c c' p p', publishedKey c p = publishedKey c' p' → c = c' ∧ p = p') ∧
    (∀ (m' : Measurements) (order' : KeyOrder), m.Reordered m' →
      ∀ key, (m'.published order').lookup key = (m.published order).lookup key) ∧
    ∀ env dstDir w w', run (writePlotProperties env (m.published order) dstDir) w = (.ok (), w') →
      ∃ written, w'.files = written ++ w.files ∧ (written.map Prod.fst).Nodup ∧
        (∀ f, f ∈ written ↔ ∃ key v, (m.published order).lookup key = some v ∧
          f = (dstDir ++ "/" ++ key ++ ".properties", "YVALUE=" ++ env.str v ++ "\n")) ∧
        ∀ key ∈ (m.published order).map Prod.fst, '/' ∉ key.toList := by
  have hnd := m.nodup_published order
  refine ⟨fun l hl p ↦ m.lookup_eq_averageOf order hl p, ?_,
    fun _ _ _ _ h ↦ publishedKey_injective h, fun m' order' h ↦ m.lookup_reordered order h, ?_⟩
  · intro key hkey
    rcases m.level_of_key order hkey with ⟨l, hl, p, hp, -⟩
    exact ⟨l, hl, p, hp⟩
  · intro env dstDir w w' hrun
    refine ⟨_, files_writePlotProperties hrun, ?_, ?_, ?_⟩
    · -- the name of a file says which key it is for
      rw [List.map_reverse, List.nodup_reverse, List.map_map]
      apply (List.Nodup.of_map Prod.fst hnd).map_on
      intro p hp q hq heq
      exact List.inj_on_of_nodup_map hnd hp hq (propertiesFile_injective heq)
    · intro f
      rw [List.mem_reverse, List.mem_map]
      constructor
      · rintro ⟨p, hp, rfl⟩
        exact ⟨p.1, p.2, (Assoc.lookup_eq_some_iff hnd).mpr hp, rfl⟩
      · rintro ⟨key, v, hv, rfl⟩
        exact ⟨(key, v), (Assoc.lookup_eq_some_iff hnd).mp hv, rfl⟩
    · intro key hkey
      rcases m.level_of_key order hkey with ⟨l, -, p, -, hslash⟩
      exact hslash

end UstBench.Driver
