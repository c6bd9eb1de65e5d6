import UstBench.Driver.World
import UstBench.Reasoning.Lowest

/-!
# `linux_cpu.py`

The properties of `_LinuxCpu` and their setters.
-/

namespace UstBench.Driver

open Reasoning Reasoning.Prog

/-- `sorted(l)` -/
def sorted (l : List ℕ) : List ℕ := l.insertionSort (· ≤ ·)

/-- Where an index of a slice points to: a negative one counts from the end. -/
def sliceIndex (len : ℕ) (i : ℤ) : ℕ := if i < 0 then (len + i).toNat else i.toNat

/-- `l[i:]` -/
def sliceFrom (l : List ℕ) (i : ℤ) : List ℕ := l.drop (sliceIndex l.length i)

/-- `l[:i]` -/
def sliceTo (l : List ℕ) (i : ℤ) : List ℕ := l.take (sliceIndex l.length i)

section Model

variable (env : Env)

def readCpuFile (file : CpuFile) : Prog World Exc (Finset ℕ) := do
  env.call (.readCpuFile file)
  let w ← get
  ofExcept ((parseCpuList (printCpuList (w.cpus file))).elim (.error .valueError) .ok)

def setCpuOnline (online : Bool) (cpu : ℕ) : Prog World Exc Unit := do
  let w ← get
  -- the file of a CPU that is not there cannot be opened
  if cpu ∈ w.present then do
    let _ ← env.call (.writeCpu cpu online)
    pure ()
  else
    throw .osError

def setCpusOnline (cpus : Finset ℕ) (online : Bool) : Prog World Exc Unit := do
  let cpus ← env.list cpus
  forEach (setCpuOnline env online) cpus

def onlineCpus : Prog World Exc (Finset ℕ) := readCpuFile env .online

def offlineCpus : Prog World Exc (Finset ℕ) := readCpuFile env .offline

def setOnlineCpus (cpus : Finset ℕ) : Prog World Exc Unit := do
  let online ← onlineCpus env
  setCpusOnline env (online \ cpus) false
  let offline ← offlineCpus env
  setCpusOnline env (offline ∩ cpus) true

def setOfflineCpus (cpus : Finset ℕ) : Prog World Exc Unit := do
  let online ← onlineCpus env
  setCpusOnline env (online ∩ cpus) false
  let offline ← offlineCpus env
  setCpusOnline env (offline \ cpus) true

def onlineCount : Prog World Exc ℕ := do
  let online ← onlineCpus env
  pure online.card

/-- The change of the online CPUs in the setter of `online_count`, behind its two reads. -/
def changeOnlineCount (count : ℤ) (online offline : Finset ℕ) : Prog World Exc Unit :=
  let cpusToEnable := count - online.card
  if offline.card < cpusToEnable then
    throw (.exception ("cannot not get " ++ toString count ++ " CPUs online: only " ++
      toString offline.card ++ " more are available"))
  else if count < 1 then
    throw (.exception "cannot get less than one CPU online")
  else if cpusToEnable < 0 then do
    let cpus ← env.list online
    forEach (setCpuOnline env false) (sliceFrom (sorted cpus) cpusToEnable)
  else do
    let cpus ← env.list offline
    forEach (setCpuOnline env true) (sliceTo (sorted cpus) cpusToEnable)

def setOnlineCount (count : ℤ) : Prog World Exc Unit := do
  let online ← onlineCpus env
  let offline ← offlineCpus env
  changeOnlineCount env count online offline
  let newCount ← onlineCount env
  when ((newCount : ℤ) ≠ count)
    (throw (.exception ("got " ++ toString newCount ++ " CPUs online instead of " ++
      toString count)))

end Model

/-! ## Rules -/

variable {env : Env} {P J : World → Prop}

theorem cpus_after_readCpuFile (w : World) (file : CpuFile) (r : Except Exc Unit) :
    (w.after (.readCpuFile file) r).cpus file = w.cpus file := by
  cases file <;> cases r <;> rfl

/-- A read gives the set the kernel has. -/
theorem triple_readCpuFile {file : CpuFile} {Q : Finset ℕ → World → Prop} {E : Exc → World → Prop}
    (hok : ∀ w, P w → env.reply w (.readCpuFile file) = .ok () →
      Q (w.cpus file) (w.after (.readCpuFile file) (.ok ())))
    (herr : ∀ w e, P w → env.reply w (.readCpuFile file) = .error e →
      E e (w.after (.readCpuFile file) (.error e))) :
    Triple P (readCpuFile env file) Q E := by
  unfold readCpuFile
  apply triple_bind (Q := fun _ w' ↦ Q (w'.cpus file) w') (triple_call ?_ herr)
  · intro _
    apply triple_bind (Q := fun w w' ↦ w = w' ∧ Q (w'.cpus file) w')
      (triple_get fun w hw ↦ ⟨rfl, hw⟩)
    intro w
    rw [parseCpuList_printCpuList]
    apply triple_pure
    rintro _ ⟨rfl, hw⟩
    exact hw
  · intro w r hw hr
    rw [cpus_after_readCpuFile]
    exact hok w hw hr

theorem run_readCpuFile {w : World} {file : CpuFile}
    (h : env.reply w (.readCpuFile file) = .ok ()) :
    run (readCpuFile env file) w = (.ok (w.cpus file), w.after (.readCpuFile file) (.ok ())) := by
  have hread : Triple (· = w) (readCpuFile env file)
      (fun cpus w' ↦ cpus = w.cpus file ∧ w' = w.after (.readCpuFile file) (.ok ()))
      fun _ _ ↦ False := by
    apply triple_readCpuFile
    · rintro _ rfl _
      exact ⟨rfl, rfl⟩
    · rintro _ e rfl he
      rw [h] at he
      cases he
  rcases hr : run (readCpuFile env file) w with ⟨e | cpus, w'⟩
  · exact (hread.of_error rfl hr).elim
  · rcases hread.of_ok rfl hr with ⟨rfl, rfl⟩
    rfl

theorem run_onlineCpus {w : World} (h : env.reply w (.readCpuFile .online) = .ok ()) :
    run (onlineCpus env) w = (.ok w.online, w.after (.readCpuFile .online) (.ok ())) :=
  run_readCpuFile h

theorem run_offlineCpus {w : World} (h : env.reply w (.readCpuFile .offline) = .ok ()) :
    run (offlineCpus env) w = (.ok w.offline, w.after (.readCpuFile .offline) (.ok ())) :=
  run_readCpuFile h

theorem keeps_readCpuFile {file : CpuFile} (h : ∀ w r, J w → J (w.after (.readCpuFile file) r)) :
    Keeps J (readCpuFile env file) :=
  triple_readCpuFile (fun w hw _ ↦ h w _ hw) fun w _ hw _ ↦ h w _ hw

theorem triple_onlineCount {E : Exc → World → Prop} {m : ℕ}
    (hp : ∀ w r, P w → P (w.after (.readCpuFile .online) r)) (hm : ∀ w, P w → w.online.card = m)
    (he : ∀ w e, P w → env.reply w (.readCpuFile .online) = .error e →
      E e (w.after (.readCpuFile .online) (.error e))) :
    Triple P (onlineCount env) (fun k w ↦ P w ∧ k = m) E := by
  apply triple_bind (Q := fun cpus w ↦ P w ∧ cpus.card = m)
  · apply triple_readCpuFile
    · exact fun w hw _ ↦ ⟨hp w _ hw, hm w hw⟩
    · exact he
  · exact fun cpus ↦ triple_pure _ fun w hw ↦ hw

theorem triple_setCpuOnline {online : Bool} {cpu : ℕ} {Q : Unit → World → Prop}
    {E : Exc → World → Prop}
    (hok : ∀ w took, P w → cpu ∈ w.present → env.reply w (.writeCpu cpu online) = .ok took →
      Q () (w.after (.writeCpu cpu online) (.ok took)))
    (herr : ∀ w e, P w → cpu ∈ w.present → env.reply w (.writeCpu cpu online) = .error e →
      E e (w.after (.writeCpu cpu online) (.error e)))
    (habsent : ∀ w, P w → cpu ∉ w.present → E .osError w) :
    Triple P (setCpuOnline env online cpu) Q E := by
  unfold setCpuOnline
  apply triple_bind (Q := fun w w' ↦ w = w' ∧ P w') (triple_get fun w hw ↦ ⟨rfl, hw⟩)
  intro w
  by_cases hcpu : cpu ∈ w.present
  · rw [if_pos hcpu]
    apply triple_bind (Q := fun _ ↦ Q ()) (triple_call ?_ ?_) fun _ ↦ triple_pure _ fun _ hw ↦ hw
    · rintro _ took ⟨rfl, hw⟩
      exact hok w took hw hcpu
    · rintro _ e ⟨rfl, hw⟩
      exact herr w e hw hcpu
  · rw [if_neg hcpu]
    apply triple_throw
    rintro _ ⟨rfl, hw⟩
    exact habsent w hw hcpu

theorem keeps_setCpuOnline {online : Bool} {cpu : ℕ}
    (h : ∀ w r, J w → cpu ∈ w.present → J (w.after (.writeCpu cpu online) r)) :
    Keeps J (setCpuOnline env online cpu) :=
  triple_setCpuOnline (fun w _ hw hcpu _ ↦ h w _ hw hcpu) (fun w _ hw hcpu _ ↦ h w _ hw hcpu)
    fun _ hw _ ↦ hw

/-- The order Python takes a set in has its members, each once. -/
theorem triple_list (cpus : Finset ℕ) {E : Exc → World → Prop} :
    Triple P (env.list cpus) (fun l w ↦ P w ∧ l.Nodup ∧ l.toFinset = cpus) E :=
  ⟨fun w hw ↦ ⟨hw, env.cpuOrder_nodup w cpus, env.cpuOrder_toFinset w cpus⟩⟩

/-- What every write of the loop keeps, the loop keeps. -/
theorem triple_setEachCpu {cpus : Finset ℕ} {on : Bool} {E : Exc → World → Prop}
    (h : ∀ cpu ∈ cpus, Triple P (setCpuOnline env on cpu) (fun _ ↦ P) E) :
    Triple P (setCpusOnline env cpus on) (fun _ ↦ P) E := by
  unfold setCpusOnline
  apply triple_bind (triple_list cpus)
  intro l
  apply triple_assume
  rintro ⟨_, rfl⟩
  exact triple_forEach fun cpu hcpu ↦ h cpu (List.mem_toFinset.mpr hcpu)

/-! ## What the slices select -/

section Slices

variable {l : List ℕ} {s : Finset ℕ} {k : ℕ}

theorem pairwise_sorted (hl : l.Nodup) : (sorted l).Pairwise (· < ·) := by
  have hle : (sorted l).Pairwise (· ≤ ·) := List.pairwise_insertionSort (· ≤ ·) l
  have hnd : (sorted l).Nodup := (List.perm_insertionSort (· ≤ ·) l).nodup_iff.mpr hl
  exact hle.imp₂ (fun _ _ h hne ↦ lt_of_le_of_ne h hne) hnd

theorem toFinset_sorted (hs : l.toFinset = s) : (sorted l).toFinset = s := by
  rw [← hs]
  exact List.toFinset_eq_of_perm _ _ (List.perm_insertionSort (· ≤ ·) l)

theorem length_sorted (hl : l.Nodup) (hs : l.toFinset = s) : (sorted l).length = s.card := by
  rw [← hs, List.toFinset_card_of_nodup hl]
  exact (List.perm_insertionSort (· ≤ ·) l).length_eq

theorem toFinset_sliceTo (hl : l.Nodup) (hs : l.toFinset = s) :
    (sliceTo (sorted l) k).toFinset = lowest k s := by
  have hk : sliceIndex (sorted l).length (k : ℤ) = k := by
    rw [sliceIndex, if_neg (by omega), Int.toNat_natCast]
  rw [sliceTo, hk, toFinset_take (pairwise_sorted hl), toFinset_sorted hs]

/-- A negative slice leaves the lowest. -/
theorem toFinset_sliceFrom (hl : l.Nodup) (hs : l.toFinset = s) (hk : k < s.card) :
    (sliceFrom (sorted l) ((k : ℤ) - s.card)).toFinset = s \ lowest k s := by
  have hi : sliceIndex (sorted l).length ((k : ℤ) - s.card) = k := by
    rw [length_sorted hl hs, sliceIndex, if_pos (by omega)]
    omega
  rw [sliceFrom, hi, toFinset_drop (pairwise_sorted hl), toFinset_sorted hs]

end Slices

/-! ## The setters -/

/-- Lowering the count writes only `0`, to the highest of the online CPUs. -/
theorem keeps_changeOnlineCount {k : ℕ} {online offline : Finset ℕ} (hk : k ≤ online.card)
    (h : ∀ w (r : Except Exc Bool), ∀ cpu ∈ online \ lowest k online, J w → cpu ∈ w.present →
      J (w.after (.writeCpu cpu false) r)) :
    Keeps J (changeOnlineCount env k online offline) := by
  unfold changeOnlineCount
  dsimp only
  split
  · exact keeps_throw _
  split
  · exact keeps_throw _
  split
  · apply triple_bind (triple_list online)
    intro l
    apply triple_assume
    rintro ⟨hl, hs⟩
    apply keeps_forEach
    intro cpu hcpu
    rw [← List.mem_toFinset, toFinset_sliceFrom hl hs (by omega)] at hcpu
    exact keeps_setCpuOnline fun w r hw hp ↦ h w r cpu hcpu hw hp
  · -- the count is what it was, and the slice of the CPUs to switch on is empty
    have hzero : (k : ℤ) - online.card = (0 : ℕ) := by omega
    apply triple_bind (triple_list offline)
    intro l
    apply triple_assume
    rintro ⟨hl, hs⟩
    apply keeps_forEach
    intro cpu hcpu
    rw [hzero, ← List.mem_toFinset, toFinset_sliceTo hl hs] at hcpu
    simp [lowest] at hcpu

/-! ## Accepted writes -/

def Env.AcceptsWrites (env : Env) : Prop :=
  ∀ w cpu online, env.reply w (.writeCpu cpu online) = .ok true

/-- In the states of `J`, the writes of `on` for these CPUs take effect, and they keep to `J`. -/
def Env.Accepts (env : Env) (J : World → Prop) (on : Bool) (cpus : Finset ℕ) : Prop :=
  ∀ w, ∀ cpu ∈ cpus, J w → cpu ∈ w.present →
    env.reply w (.writeCpu cpu on) = .ok true ∧ J (w.after (.writeCpu cpu on) (.ok true))

section Accepted

variable {E : Exc → World → Prop} {p x cpus : Finset ℕ} {on : Bool}

theorem Env.AcceptsWrites.accepts (ha : env.AcceptsWrites)
    (hJ : ∀ w, ∀ cpu ∈ cpus, J w → J (w.after (.writeCpu cpu on) (.ok true))) :
    env.Accepts J on cpus :=
  fun w cpu hcpu hw _ ↦ ⟨ha w cpu on, hJ w cpu hcpu hw⟩

theorem Env.Accepts.mono {cpus' : Finset ℕ} (h : env.Accepts J on cpus) (hsub : cpus' ⊆ cpus) :
    env.Accepts J on cpus' :=
  fun w cpu hcpu ↦ h w cpu (hsub hcpu)

theorem triple_setCpus {l : List ℕ} (hl : l.toFinset ⊆ p) (ha : env.Accepts J on l.toFinset) :
    Triple (fun w ↦ J w ∧ w.present = p ∧ w.online = x) (forEach (setCpuOnline env on) l)
      (fun _ w ↦ J w ∧ w.present = p ∧
        w.online = if on then x ∪ l.toFinset else x \ l.toFinset) E := by
  induction l generalizing x with
  | nil =>
    apply triple_pure
    intro w hw
    simpa using hw
  | cons cpu l ih =>
    have hcpu : cpu ∈ (cpu :: l).toFinset := List.mem_toFinset.mpr List.mem_cons_self
    have hrest : l.toFinset ⊆ (cpu :: l).toFinset := by
      rw [List.toFinset_cons]
      exact Finset.subset_insert cpu _
    rw [forEach_cons]
    apply triple_bind (Q := fun _ w ↦ J w ∧ w.present = p ∧
      w.online = if on then insert cpu x else x.erase cpu)
    · -- the file of the CPU is there and the write is accepted, so one case of three is left
      apply triple_setCpuOnline
      · rintro w took ⟨hw, hp, hx⟩ hpresent hr
        have hok := ha w cpu hcpu hw hpresent
        rw [hok.1] at hr
        cases hr
        exact ⟨hok.2, by rw [World.after_present, hp],
          by rw [World.after_accepted on hpresent, hx]⟩
      · rintro w e ⟨hw, _, _⟩ hpresent hr
        rw [(ha w cpu hcpu hw hpresent).1] at hr
        cases hr
      · rintro w ⟨_, hp, _⟩ habsent
        rw [hp] at habsent
        exact absurd (hl hcpu) habsent
    · intro _
      apply (ih (hrest.trans hl) (ha.mono hrest)).conseq (fun _ hw ↦ hw) ?_ fun _ _ hw ↦ hw
      rintro _ w ⟨hw, hp, hx⟩
      refine ⟨hw, hp, ?_⟩
      rw [hx, List.toFinset_cons]
      cases on
      · simp only [Bool.false_eq_true, if_false]
        rw [Finset.sdiff_insert, Finset.erase_sdiff_comm]
      · simp only [if_true]
        rw [Finset.union_insert, Finset.insert_union]

theorem triple_setCpusOnline (hcpus : cpus ⊆ p) (ha : env.Accepts J on cpus) :
    Triple (fun w ↦ J w ∧ w.present = p ∧ w.online = x) (setCpusOnline env cpus on)
      (fun _ w ↦ J w ∧ w.present = p ∧ w.online = if on then x ∪ cpus else x \ cpus) E := by
  unfold setCpusOnline
  apply triple_bind (triple_list cpus)
  intro l
  apply triple_assume
  rintro ⟨_, hl⟩
  subst hl
  exact triple_setCpus hcpus ha

/-- A read of a CPU list where `p` are present and `x` online. -/
theorem triple_readCpus {file : CpuFile}
    (hread : ∀ w, J w → J (w.after (.readCpuFile file) (.ok ())))
    (herr : ∀ w e, J w → w.online = x → env.reply w (.readCpuFile file) = .error e →
      E e (w.after (.readCpuFile file) (.error e))) :
    Triple (fun w ↦ J w ∧ w.present = p ∧ w.online = x) (readCpuFile env file)
      (fun cpus w ↦ (J w ∧ w.present = p ∧ w.online = x) ∧
        (file = .online → cpus = x) ∧ (file = .offline → cpus = p \ x)) E := by
  apply triple_readCpuFile
  · rintro w ⟨hw, hp, hx⟩ _
    refine ⟨⟨hread w hw, ?_, ?_⟩, ?_, ?_⟩
    · rw [World.after_present, hp]
    · rw [World.after_online (by nofun), hx]
    · intro hfile
      rw [hfile]
      exact hx
    · intro hfile
      rw [hfile]
      show w.present \ w.online = p \ x
      rw [hp, hx]
  · exact fun w e hw he ↦ herr w e hw.1 hw.2.2 he

/-- Where the writes it makes are accepted, `online_cpus = s` ends with `s` online, unless a CPU
list cannot be read. -/
theorem triple_setOnlineCpus {s : Finset ℕ} (hs : s ⊆ p)
    (hread : ∀ w file, J w → J (w.after (.readCpuFile file) (.ok ())))
    (hoff : env.Accepts J false (x \ s)) (hon : env.Accepts J true (s \ x)) :
    Triple (fun w ↦ J w ∧ w.present = p ∧ w.online = x) (setOnlineCpus env s)
      (fun _ w ↦ J w ∧ w.online = s)
      fun _ w ↦ ∃ w₀ file e, w = w₀.after (.readCpuFile file) (.error e) ∧
        env.reply w₀ (.readCpuFile file) = .error e ∧ J w₀ ∧
        (w₀.online = x ∨ w₀.online = x ∩ s) := by
  unfold setOnlineCpus
  apply triple_bind (triple_readCpus (fun w ↦ hread w .online)
    fun w e hw hx he ↦ ⟨w, .online, e, rfl, he, hw, .inl hx⟩)
  intro cpus
  apply triple_assume
  rintro ⟨honline, _⟩
  obtain rfl := honline rfl
  by_cases hp : cpus ⊆ p
  · -- the first loop leaves the common CPUs, and the second one adds the others of `s`
    apply triple_bind (triple_setCpusOnline (Finset.sdiff_subset.trans hp) hoff)
    intro _
    have hleft : (if false = true then cpus ∪ cpus \ s else cpus \ (cpus \ s)) = cpus ∩ s := by
      ext y
      simp
    rw [hleft]
    apply triple_bind (triple_readCpus (fun w ↦ hread w .offline)
      fun w e hw hx he ↦ ⟨w, .offline, e, rfl, he, hw, .inr hx⟩)
    intro off
    apply triple_assume
    rintro ⟨_, hoffline⟩
    obtain rfl := hoffline rfl
    apply (triple_setCpusOnline (x := cpus ∩ s) ?_ (hon.mono ?_)).conseq (fun _ hw ↦ hw) ?_
      fun _ _ hw ↦ hw
    · exact Finset.inter_subset_left.trans Finset.sdiff_subset
    · intro cpu hcpu
      simp only [Finset.mem_inter, Finset.mem_sdiff] at hcpu ⊢
      tauto
    · rintro _ w ⟨hw, _, hx⟩
      refine ⟨hw, ?_⟩
      rw [hx, if_pos rfl]
      ext y
      simp only [Finset.mem_union, Finset.mem_inter, Finset.mem_sdiff]
      constructor
      · tauto
      · intro hy
        have hyp := hs hy
        tauto
  · -- the online CPUs are always among those that are present
    apply triple_each
    rintro w ⟨_, hw, hx⟩
    exact absurd (hw ▸ hx ▸ w.online_subset) hp

/-! ### The count -/

/-- The CPU lists can be read, and every write takes effect but one to the only CPU online. -/
structure Env.AcceptsHotplug (env : Env) : Prop where
  reads : ∀ w file, env.reply w (.readCpuFile file) = .ok ()
  off : ∀ (w : World) cpu, w.online ≠ {cpu} → env.reply w (.writeCpu cpu false) = .ok true
  on : ∀ w cpu, env.reply w (.writeCpu cpu true) = .ok true

/-- The CPUs that `online_count = count` is to leave online. -/
def countTarget (count : ℤ) (online offline : Finset ℕ) : Finset ℕ :=
  if count ≤ online.card then lowest count.toNat online
  else online ∪ lowest (count - online.card).toNat offline

/-- The writes on the way from one set of online CPUs to another. -/
def Toward (from_ to_ : Finset ℕ) (cpu : ℕ) (on : Bool) : Prop :=
  if on then cpu ∈ to_ \ from_ else cpu ∈ from_ \ to_

theorem card_countTarget {count : ℤ} {online offline : Finset ℕ} (hdisj : Disjoint online offline)
    (h1 : 1 ≤ count) (h2 : count ≤ online.card + offline.card) :
    ((countTarget count online offline).card : ℤ) = count := by
  unfold countTarget
  split
  · rw [card_lowest]
    omega
  · rw [Finset.card_union_of_disjoint (hdisj.mono_right lowest_subset), card_lowest]
    omega

-- the count may be what it was, and then there is nothing to add
theorem countTarget_of_le {count : ℤ} {online offline : Finset ℕ} (h : online.card ≤ count) :
    countTarget count online offline = online ∪ lowest (count - online.card).toNat offline := by
  unfold countTarget
  split
  · have hzero : (count - online.card).toNat = 0 := by omega
    rw [lowest_eq_self (by omega), hzero, lowest_zero, Finset.union_empty]
  · rfl

section Slice

variable {I : World → Prop} {k : ℕ} (h : env.AcceptsHotplug)

include h

/-- The highest of the online CPUs go, and one of the lowest stays online throughout. -/
theorem triple_switchOff (h1 : 1 ≤ k) (h2 : k < x.card)
    (hwrite : ∀ w, ∀ cpu ∈ x \ lowest k x, I w → I (w.after (.writeCpu cpu false) (.ok true))) :
    Triple (fun w ↦ I w ∧ w.present = p ∧ w.online = x)
      (do
        let cpus ← env.list x
        forEach (setCpuOnline env false) (sliceFrom (sorted cpus) ((k : ℤ) - x.card)))
      (fun _ w ↦ I w ∧ w.present = p ∧ w.online = lowest k x) E := by
  have hne : (lowest k x).Nonempty := by
    rw [← Finset.card_pos, card_lowest]
    omega
  rcases hne with ⟨c, hc⟩
  apply triple_bind (triple_list x)
  intro l
  apply triple_assume
  intro hlist
  have hslice : (sliceFrom (sorted l) ((k : ℤ) - x.card)).toFinset = x \ lowest k x :=
    toFinset_sliceFrom hlist.1 hlist.2 h2
  have haccepts : env.Accepts (fun w ↦ I w ∧ c ∈ w.online) false
      (sliceFrom (sorted l) ((k : ℤ) - x.card)).toFinset := by
    intro w cpu hcpu hw hpresent
    rw [hslice] at hcpu
    -- `c` is not among those that go, so the one that goes is not the only one
    have hother : c ≠ cpu := fun he ↦ (Finset.mem_sdiff.mp hcpu).2 (he ▸ hc)
    have hmany : w.online ≠ {cpu} := by
      intro hsingle
      rw [hsingle, Finset.mem_singleton] at hw
      exact hother hw.2
    refine ⟨h.off w cpu hmany, hwrite w cpu hcpu hw.1, ?_⟩
    rw [World.after_accepted false hpresent, if_neg (by decide)]
    exact Finset.mem_erase.mpr ⟨hother, hw.2⟩
  apply triple_each
  intro w hw
  have hsub : (sliceFrom (sorted l) ((k : ℤ) - x.card)).toFinset ⊆ p := by
    rw [hslice, ← hw.2.1, ← hw.2.2]
    exact Finset.sdiff_subset.trans w.online_subset
  have hstart : ∀ v, v = w → (I v ∧ c ∈ v.online) ∧ v.present = p ∧ v.online = x := by
    intro v hv
    rw [hv]
    exact ⟨⟨hw.1, hw.2.2 ▸ lowest_subset hc⟩, hw.2⟩
  apply (triple_setCpus hsub haccepts).conseq hstart ?_ fun _ _ he ↦ he
  intro _ v hv
  refine ⟨hv.1.1, hv.2.1, ?_⟩
  rw [hv.2.2, hslice, if_neg (by decide), Finset.sdiff_sdiff_eq_self lowest_subset]

/-- The lowest of the offline CPUs are added. -/
theorem triple_switchOn
    (hwrite : ∀ w, ∀ cpu ∈ lowest k (p \ x), I w → I (w.after (.writeCpu cpu true) (.ok true))) :
    Triple (fun w ↦ I w ∧ w.present = p ∧ w.online = x)
      (do
        let cpus ← env.list (p \ x)
        forEach (setCpuOnline env true) (sliceTo (sorted cpus) k))
      (fun _ w ↦ I w ∧ w.present = p ∧ w.online = x ∪ lowest k (p \ x)) E := by
  apply triple_bind (triple_list (p \ x))
  intro l
  apply triple_assume
  intro hlist
  have hslice : (sliceTo (sorted l) (k : ℤ)).toFinset = lowest k (p \ x) :=
    toFinset_sliceTo hlist.1 hlist.2
  have haccepts : env.Accepts I true (sliceTo (sorted l) (k : ℤ)).toFinset := by
    intro w cpu hcpu hw _
    rw [hslice] at hcpu
    exact ⟨h.on w cpu, hwrite w cpu hcpu hw⟩
  have hsub : (sliceTo (sorted l) (k : ℤ)).toFinset ⊆ p := by
    rw [hslice]
    exact lowest_subset.trans Finset.sdiff_subset
  apply (triple_setCpus hsub haccepts).conseq (fun _ hw ↦ hw) ?_ fun _ _ he ↦ he
  intro _ w hw
  refine ⟨hw.1, hw.2.1, ?_⟩
  rw [hw.2.2, if_pos rfl, hslice]

end Slice

section Count

variable {count : ℤ} {I : World → Prop}

/-- A CPU list that is read is the one there is, and reading it changes nothing else. -/
theorem triple_readList {y : Finset ℕ} {file : CpuFile} (h : env.AcceptsHotplug)
    (hread : ∀ w file, I w → I (w.after (.readCpuFile file) (.ok ()))) :
    Triple (fun w ↦ I w ∧ w.present = p ∧ w.online = y) (readCpuFile env file)
      (fun cpus w ↦ (I w ∧ w.present = p ∧ w.online = y) ∧
        (file = .online → cpus = y) ∧ (file = .offline → cpus = p \ y)) E := by
  apply triple_readCpus fun w ↦ hread w file
  intro w e _ _ he
  rw [h.reads] at he
  cases he

variable (h : env.AcceptsHotplug) (h1 : 1 ≤ count) (h2 : count ≤ x.card + (p \ x).card)
  (hwrite : ∀ w cpu on, Toward x (countTarget count x (p \ x)) cpu on → I w →
    I (w.after (.writeCpu cpu on) (.ok true)))

include h h1 h2 hwrite

theorem triple_changeOnlineCount : Triple (fun w ↦ I w ∧ w.present = p ∧ w.online = x)
    (changeOnlineCount env count x (p \ x))
    (fun _ w ↦ I w ∧ w.present = p ∧ w.online = countTarget count x (p \ x)) E := by
  unfold changeOnlineCount
  dsimp only
  rw [if_neg (by omega), if_neg (by omega)]
  split
  · have htarget : countTarget count x (p \ x) = lowest count.toNat x := if_pos (by omega)
    rw [htarget] at hwrite ⊢
    have hoff := @triple_switchOff _ E p x I count.toNat h (by omega) (by omega)
      fun w cpu hcpu hw ↦ hwrite w cpu false hcpu hw
    rwa [Int.toNat_of_nonneg (by omega)] at hoff
  · have htarget := @countTarget_of_le count x (p \ x) (by omega)
    rw [htarget] at hwrite ⊢
    have hon := @triple_switchOn _ E p x I (count - x.card).toNat h ?_
    · rwa [Int.toNat_of_nonneg (by omega)] at hon
    · intro w cpu hcpu hw
      apply hwrite w cpu true ?_ hw
      rw [Toward, if_pos rfl, Finset.mem_sdiff, Finset.mem_union]
      exact ⟨.inr hcpu, (Finset.mem_sdiff.mp (lowest_subset hcpu)).2⟩

/-- A count in range is reached, and only the CPUs that have to change are written. -/
theorem triple_setOnlineCount_exact
    (hread : ∀ w file, I w → I (w.after (.readCpuFile file) (.ok ()))) :
    Triple (fun w ↦ I w ∧ w.present = p ∧ w.online = x) (setOnlineCount env count)
      (fun _ w ↦ I w ∧ w.online = countTarget count x (p \ x)) E := by
  unfold setOnlineCount
  apply triple_bind (triple_readList h hread)
  intro online
  apply triple_assume
  intro honline
  apply triple_bind (triple_readList h hread)
  intro offline
  apply triple_assume
  intro hoffline
  rw [honline.1 rfl, hoffline.2 rfl]
  apply triple_bind (triple_changeOnlineCount h h1 h2 hwrite)
  intro _
  -- the count is read back, and is the one that was asked for
  apply triple_bind (Q := fun (n : ℕ) w ↦ (I w ∧ w.online = countTarget count x (p \ x)) ∧
    (n : ℤ) = count)
  · apply triple_bind (triple_readList h hread)
    intro cpus
    apply triple_pure
    intro w hw
    rw [hw.2.1 rfl]
    exact ⟨⟨hw.1.1, hw.1.2.2⟩, card_countTarget Finset.disjoint_sdiff h1 h2⟩
  · intro n
    apply triple_assume
    intro hn
    exact triple_when (fun hne ↦ absurd hn hne) fun _ _ hw ↦ hw

end Count

/-- With every write accepted and every list readable, the count can be lowered to any `k ≥ 1`. -/
theorem triple_setOnlineCount {k : ℕ} (ha : env.AcceptsWrites)
    (hr : ∀ w file, env.reply w (.readCpuFile file) = .ok ()) (hk : 1 ≤ k) (hx : k ≤ x.card) :
    Triple (fun w ↦ w.online = x) (setOnlineCount env k) (fun _ w ↦ w.online = lowest k x) E := by
  have hplug : env.AcceptsHotplug := ⟨hr, fun w cpu _ ↦ ha w cpu false, fun w cpu ↦ ha w cpu true⟩
  apply triple_each
  intro w hw
  have hset := @triple_setOnlineCount_exact env E w.present x k (fun _ ↦ True) hplug
    (by omega) (by omega) (fun _ _ _ _ _ ↦ trivial) (fun _ _ _ ↦ trivial)
  have htarget : countTarget k x (w.present \ x) = lowest k x := by
    rw [countTarget, if_pos (by omega), Int.toNat_natCast]
  rw [htarget] at hset
  apply hset.conseq ?_ (fun _ _ hv ↦ hv.2) fun _ _ he ↦ he
  intro v hv
  rw [hv]
  exact ⟨trivial, rfl, hw⟩

end Accepted

end UstBench.Driver
