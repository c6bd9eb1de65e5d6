import UstBench.Sha2.Constants

/-!
# One block

`sha2_process` writes the 64 rounds out.  It does not move the eight variables from round to round
but renames them, and it computes a word of the schedule in the round that needs it.  What it leaves
is the compression of the standard.
-/

namespace UstBench.Sha2

open Reasoning Standard

/-! ## Functions on words -/

theorem shr_eq (x : Word) (n : ℕ) : shr x n = x >>> n := by
  unfold shr
  rw [show (0xFFFFFFFF : Word) = BitVec.allOnes 32 from rfl, BitVec.and_allOnes]

theorem rotr_eq {n : ℕ} (x : Word) (hn : n < 32) : rotr x n = x.rotateRight n := by
  unfold rotr
  rw [shr_eq, BitVec.rotateRight_def, Nat.mod_eq_of_lt hn]

theorem s0_eq (x : Word) : s0 x = sigma0 x := by
  unfold s0 sigma0
  rw [rotr_eq x (by decide), rotr_eq x (by decide), shr_eq]

theorem s1_eq (x : Word) : s1 x = sigma1 x := by
  unfold s1 sigma1
  rw [rotr_eq x (by decide), rotr_eq x (by decide), shr_eq]

theorem s2_eq (x : Word) : s2 x = bigSigma0 x := by
  unfold s2 bigSigma0
  rw [rotr_eq x (by decide), rotr_eq x (by decide), rotr_eq x (by decide)]

theorem s3_eq (x : Word) : s3 x = bigSigma1 x := by
  unfold s3 bigSigma1
  rw [rotr_eq x (by decide), rotr_eq x (by decide), rotr_eq x (by decide)]

theorem f0_eq (x y z : Word) : f0 x y z = maj x y z := by
  unfold f0 maj
  apply BitVec.eq_of_getElem_eq
  intro i hi
  simp only [BitVec.getElem_or, BitVec.getElem_and, BitVec.getElem_xor]
  cases x[i] <;> cases y[i] <;> cases z[i] <;> rfl

theorem f1_eq (x y z : Word) : f1 x y z = ch x y z := by
  unfold f1 ch
  apply BitVec.eq_of_getElem_eq
  intro i hi
  simp only [BitVec.getElem_and, BitVec.getElem_xor, BitVec.getElem_not]
  cases x[i] <;> cases y[i] <;> cases z[i] <;> rfl

/-! ## The words of a block -/

theorem take_four {l : List UInt8} {i : ℕ} (h : i + 4 ≤ l.length) :
    (l.drop i).take 4 = [l.getD i 0, l.getD (i + 1) 0, l.getD (i + 2) 0, l.getD (i + 3) 0] := by
  rw [List.drop_eq_getElem_cons (by omega), List.drop_eq_getElem_cons (by omega),
    List.drop_eq_getElem_cons (by omega), List.drop_eq_getElem_cons (by omega)]
  simp only [List.take_succ_cons, List.take_zero, List.getD_eq_getElem?_getD]
  rw [List.getElem?_eq_getElem (by omega), List.getElem?_eq_getElem (by omega),
    List.getElem?_eq_getElem (by omega), List.getElem?_eq_getElem (by omega)]
  rfl

/-- One more byte behind a number that has room for it. -/
theorem ofNat_shift_byte {n : ℕ} (b : UInt8) (hn : n < 2 ^ 24) :
    BitVec.ofNat 32 (256 * n + b.toNat) = BitVec.ofNat 32 n <<< 8 ||| b.toBitVec.setWidth 32 := by
  have hb := b.toNat_lt
  apply BitVec.eq_of_toNat_eq
  rw [BitVec.toNat_or, BitVec.toNat_shiftLeft, BitVec.toNat_ofNat, BitVec.toNat_ofNat,
    BitVec.toNat_setWidth, UInt8.toNat_toBitVec, Nat.mod_eq_of_lt (by omega : n < 2 ^ 32),
    Nat.mod_eq_of_lt (by omega : b.toNat < 2 ^ 32), Nat.mod_eq_of_lt (by omega)]
  have hshift : n <<< 8 = 256 * n := by rw [Nat.shiftLeft_eq, Nat.mul_comm]
  rw [Nat.mod_eq_of_lt (by omega), ← Nat.shiftLeft_add_eq_or_of_lt (by omega), hshift]

theorem getUint32BE_eq {block : List UInt8} {t : ℕ} (h : 4 * t + 4 ≤ block.length) :
    getUint32BE block (4 * t) = word block t := by
  have hlt := fun i ↦ (block.getD i 0).toNat_lt
  have h0 := hlt (4 * t)
  have h1 := hlt (4 * t + 1)
  have h2 := hlt (4 * t + 2)
  have hfirst : ∀ b : UInt8, BitVec.ofNat 32 (256 * 0 + b.toNat) = b.toBitVec.setWidth 32 := by
    intro b
    rw [ofNat_shift_byte b (by omega)]
    simp
  unfold word
  rw [take_four h]
  simp only [ofBigEndian, List.foldl_cons, List.foldl_nil]
  rw [ofNat_shift_byte _ (by omega), ofNat_shift_byte _ (by omega), ofNat_shift_byte _ (by omega),
    hfirst]
  simp only [BitVec.shiftLeft_or_distrib, ← BitVec.shiftLeft_add]
  rfl

/-! ## The lines -/

/-- The variables in turn, and again from `A`. -/
def regAt (i : ℕ) : Reg := [.A, .B, .C, .D, .E, .F, .G, .H].getD (i % 8) .A

/-- The variable that stands for working variable `j` in line `t`: one further back a line. -/
def renamed (t j : ℕ) : Reg := regAt (j + 7 * t)

/-- Line `t`, from its number. -/
def lineAt (t : ℕ) : Line :=
  .P (renamed t 0) (renamed t 1) (renamed t 2) (renamed t 3) (renamed t 4) (renamed t 5)
    (renamed t 6) (renamed t 7) (if t < 16 then .W t else .R t) (lineConstant t)

theorem processLines_eq : processLines = (List.range 64).map lineAt := by
  decide +kernel

theorem renamed_succ (t j : ℕ) : renamed (t + 1) (j + 1) = renamed t j := by
  unfold renamed regAt
  congr 1
  omega

theorem renamed_succ_zero (t : ℕ) : renamed (t + 1) 0 = renamed t 7 := by
  unfold renamed regAt
  congr 1
  omega

theorem renamed_inj {t i j : ℕ} (hi : i < 8) (hj : j < 8) : renamed t i = renamed t j ↔ i = j := by
  have hreg : ∀ x < 8, ∀ y < 8, regAt x = regAt y → x = y := by decide
  have hmod : ∀ x, regAt x = regAt (x % 8) := by
    intro x
    unfold regAt
    rw [Nat.mod_mod]
  constructor
  · intro h
    unfold renamed at h
    rw [hmod, hmod (j + _)] at h
    have hxy := hreg _ (Nat.mod_lt _ (by decide)) _ (Nat.mod_lt _ (by decide)) h
    omega
  · exact congrArg (renamed t)

theorem Words.get_set (v : Words) (r r' : Reg) (x : Word) :
    (v.set r x).get r' = if r' = r then x else v.get r' := by
  cases r <;> cases r' <;> rfl

/-- The working variables in front of line `t`. -/
def view (t : ℕ) (v : Words) : Registers := .ofFn fun j ↦ v.get (renamed t j)

theorem view_zero (v : Words) : view 0 v = v.registers := rfl

/-- All names are back where they were. -/
theorem view_all (v : Words) : view 64 v = v.registers := rfl

/-- The two assignments of line `t` to its variables `d` and `h`. -/
theorem view_assign (t : ℕ) (v : Words) (x y : Word) :
    view (t + 1) ((v.set (renamed t 3) x).set (renamed t 7) y) =
      let r := view t v
      ⟨y, r.a, r.b, r.c, x, r.e, r.f, r.g⟩ := by
  have hget : ∀ j < 8, ((v.set (renamed t 3) x).set (renamed t 7) y).get (renamed t j) =
      if j = 7 then y else if j = 3 then x else v.get (renamed t j) := by
    intro j hj
    rw [Words.get_set, Words.get_set]
    simp only [renamed_inj hj (by decide : 7 < 8), renamed_inj hj (by decide : 3 < 8)]
  unfold view Registers.ofFn
  simp only [renamed_succ_zero, renamed_succ t 0, renamed_succ t 1, renamed_succ t 2,
    renamed_succ t 3, renamed_succ t 4, renamed_succ t 5, renamed_succ t 6]
  rw [hget 7 (by decide), hget 0 (by decide), hget 1 (by decide), hget 2 (by decide),
    hget 3 (by decide), hget 4 (by decide), hget 5 (by decide), hget 6 (by decide)]
  rfl

/-! ## The schedule -/

variable {block : List UInt8} {s : Words}

/-- The local variables in front of line `t`: the words of the schedule that are there, and the
working variables behind `t` rounds. -/
structure Before (block : List UInt8) (s : Words) (t : ℕ) (l : Locals) : Prop where
  schedule : ∀ i < max 16 t, l.W i = schedule block i
  vars : view t l.vars = (List.range t).foldl (round block) s.registers

theorem before_zero (W : ℕ → Word) (h : 64 ≤ block.length) :
    Before block s 0 ⟨loadWords W block, s⟩ := by
  constructor
  · intro i hi
    have hlt : i < 16 := by omega
    unfold schedule
    show (if i < 16 then _ else _) = _
    rw [if_pos hlt, if_pos hlt]
    exact getUint32BE_eq (by omega)
  · exact view_zero s

/-- The operand of line `t` is word `t` of the schedule. -/
theorem eval_operand {t : ℕ} {l : Locals} (h : Before block s t l) :
    (((lineAt t).x.eval l).1 = schedule block t) ∧ ((lineAt t).x.eval l).2.vars = l.vars ∧
      ∀ i < max 16 (t + 1), ((lineAt t).x.eval l).2.W i = schedule block i := by
  by_cases ht : t < 16
  · have hx : (lineAt t).x = .W t := if_pos ht
    rw [hx]
    refine ⟨h.schedule t (by omega), rfl, fun i hi ↦ h.schedule i (by omega)⟩
  · have hx : (lineAt t).x = .R t := if_neg ht
    have hvalue : ((Operand.R t).eval l).1 = schedule block t := by
      rw [schedule, if_neg ht]
      show s1 (l.W (t - 2)) + l.W (t - 7) + s0 (l.W (t - 15)) + l.W (t - 16) = _
      rw [h.schedule _ (by omega), h.schedule _ (by omega), h.schedule _ (by omega),
        h.schedule _ (by omega), s1_eq, s0_eq]
    rw [hx]
    refine ⟨hvalue, rfl, fun i hi ↦ ?_⟩
    show Function.update l.W t ((Operand.R t).eval l).1 i = _
    by_cases hi' : i = t
    · rw [hi', Function.update_self, hvalue]
    · rw [Function.update_of_ne hi']
      exact h.schedule i (by omega)

theorem before_succ {t : ℕ} {l : Locals} (ht : t < 64) (h : Before block s t l) :
    Before block s (t + 1) ((lineAt t).run l) := by
  obtain ⟨hvalue, hvars, hW⟩ := eval_operand h
  constructor
  · exact hW
  · rw [List.range_succ, List.foldl_append, ← h.vars]
    show view (t + 1) ((l.vars.set (renamed t 3) _).set (renamed t 7) _) = round block (view t l.vars) t
    rw [view_assign, hvalue, s3_eq, f1_eq, s2_eq, f0_eq]
    show _ = Registers.mk _ _ _ _ _ _ _ _
    rw [lineConstant_eq ht]
    rfl

theorem before_all (W : ℕ → Word) (h : 64 ≤ block.length) :
    Before block s 64 (processLines.foldl Line.run ⟨loadWords W block, s⟩) := by
  have hlines : ∀ n ≤ 64, Before block s n
      (((List.range n).map lineAt).foldl Line.run ⟨loadWords W block, s⟩) := by
    intro n hn
    induction n with
    | zero => exact before_zero W h
    | succ n ih =>
      rw [List.range_succ, List.map_append, List.foldl_append]
      exact before_succ hn (ih (by omega))
  rw [processLines_eq]
  exact hlines 64 le_rfl

theorem registers_add (s v : Words) :
    (Words.mk (s.A + v.A) (s.B + v.B) (s.C + v.C) (s.D + v.D) (s.E + v.E) (s.F + v.F) (s.G + v.G)
      (s.H + v.H)).registers = v.registers + s.registers := by
  show Registers.mk _ _ _ _ _ _ _ _ = Registers.mk _ _ _ _ _ _ _ _
  congr 1 <;> exact BitVec.add_comm _ _

/-- The code compresses the block, whatever the array for the schedule held before. -/
theorem sha2ProcessFrom_state (W : ℕ → Word) (ctx : Sha2Context) (h : 64 ≤ block.length) :
    (sha2ProcessFrom W ctx block).state.registers = compress ctx.state.registers block := by
  have hvars := (before_all (s := ctx.state) W h).vars
  rw [view_all] at hvars
  unfold compress sha2ProcessFrom
  rw [← hvars]
  exact registers_add _ _

theorem sha2Process_state (ctx : Sha2Context) (h : 64 ≤ block.length) :
    (sha2Process ctx block).state.registers = compress ctx.state.registers block := by
  unfold sha2Process
  exact sha2ProcessFrom_state _ ctx h

/-- Nothing is assigned but the state. -/
def OnlyState (ctx ctx' : Sha2Context) : Prop := ctx' = { ctx with state := ctx'.state }

theorem onlyState_process (ctx : Sha2Context) (block : List UInt8) :
    OnlyState ctx (sha2Process ctx block) := by
  unfold sha2Process
  rfl

theorem OnlyState.trans {a b c : Sha2Context} (h : OnlyState a b) (h' : OnlyState b c) :
    OnlyState a c := by
  unfold OnlyState at *
  rw [h', h]

end UstBench.Sha2
