import UstBench.Sha2.Digest
import UstBench.Workload.Counting

/-!
# The hash of `sha2-benchmark`

`sha2_finish` is called behind `end`, with the context that the loop has left.
-/

namespace UstBench.Workload

open Reasoning Reasoning.Prog UstBench.Sha2

/-- The functions of `sha2.c`, on a context that holds `ctx` at first. -/
def sha2Lib (ctx : Sha2Context) : Sha2 := ⟨Sha2Context, sha2Starts ctx 0, sha2Update⟩

variable {ctx : Sha2Context} {iterations : ℤ} {fuel : ℕ}

/-- The end of `main`. -/
def hash (t : Sha2Locals (sha2Lib ctx)) (output : List UInt8) : List UInt8 :=
  (sha2Finish t.ctx output).2

/-- What is hashed in `n` turns. -/
def hashedBytes (n : ℕ) : List (List UInt8) := (List.range n).map (updateBuffer bufferSize)

theorem length_updateBuffer (len v : ℕ) : (updateBuffer len v).length = len := by
  unfold updateBuffer
  rw [List.length_map, List.length_range]

theorem sha2Turn_ctx (lib : Sha2) (s : Sha2Locals lib) :
    (sha2Turn lib s).ctx = lib.update s.ctx (updateBuffer bufferSize s.i) := rfl

theorem sha2_ctx {k : ℕ} (hk : k ≤ 2 ^ 32) :
    ((sha2Turn (sha2Lib ctx))^[k] (sha2Start (sha2Lib ctx))).ctx =
      updates (sha2Starts ctx 0) (hashedBytes k) := by
  induction k with
  | zero => rfl
  | succ k ih =>
    have hbefore := ih (by omega)
    have hcounter := sha2_counter (sha2Lib ctx) k
    rw [Nat.mod_eq_of_lt (by omega)] at hcounter
    have hpieces : hashedBytes (k + 1) = hashedBytes k ++ [updateBuffer bufferSize k] := by
      unfold hashedBytes
      rw [List.range_succ, List.map_append, List.map_singleton]
    rw [Function.iterate_succ_apply', sha2Turn_ctx, hbefore, hcounter, hpieces]
    rw [updates_concat]
    generalize updates (sha2Starts ctx 0) (hashedBytes k) = before
    generalize updateBuffer bufferSize k = input
    rfl

/-- A program that has left its loop was given a number that is not too large, and its loop has
turned that often. -/
theorem Program.main_left {p : Program} {argv : List (List Char)} {sys : MainSys} {w w' : World}
    {code : ℕ} {t : p.Locals} (h : run (p.main fuel argv sys) w = (.ok ⟨code, some t⟩, w')) :
    ∃ name count, argv = [name, count] ∧ 1 ≤ strtol count ∧
      p.loop (strtol count) fuel = some t := by
  unfold main at h
  obtain ⟨added, w₁, -, h⟩ := run_bind_eq_ok h
  split at h
  · cases h
  · match argv, h with
    | [], h => cases h
    | [_], h => cases h
    | _ :: _ :: _ :: _, h => cases h
    | [name, count], h =>
      by_cases hcount : strtol count ≤ 0
      · simp only [if_pos hcount] at h
        cases h
      · simp only [if_neg hcount] at h
        obtain ⟨started, w₂, -, h⟩ := run_bind_eq_ok h
        split at h
        · cases h
        · split at h
          · cases h
          · rename_i s hloop
            obtain ⟨ended, w₃, -, h⟩ := run_bind_eq_ok h
            have hs : s = t := by
              split at h
              · cases h
                rfl
              · cases h
                rfl
            exact ⟨name, count, rfl, by omega, hs ▸ hloop⟩

/-- Whatever the context on the stack held, the hash that a run of `sha2-benchmark` computes is the
SHA-256 of the contents of its buffer in turn, as many as the command line says. -/
theorem sha2_hash (hbuffer : ctx.buffer.length = 64) {argv : List (List Char)} {sys : MainSys}
    {w w' : World} {code : ℕ} {t : Sha2Locals (sha2Lib ctx)}
    (h : run ((Program.sha2 (sha2Lib ctx)).main fuel argv sys) w = (.ok ⟨code, some t⟩, w'))
    {output : List UInt8} (houtput : output.length = 32) :
    ∃ name count, argv = [name, count] ∧ 1 ≤ strtol count ∧ strtol count < 2 ^ 32 ∧
      hash t output =
        Standard.hash .sha256 (hashedBytes (strtol count).toNat).flatten := by
  obtain ⟨name, count, hargv, hpos, hloop⟩ := Program.main_left h
  have hcast : ((strtol count).toNat : ℤ) = strtol count := Int.toNat_of_nonneg (by omega)
  rw [← hcast] at hloop
  obtain ⟨hmax, -, hleaves⟩ := Program.loop_leaves hloop
  have hlt : (strtol count).toNat ≤ 2 ^ 32 - 1 := hmax
  have hctx : t.ctx = updates (sha2Starts ctx 0) (hashedBytes (strtol count).toNat) := by
    rw [← hleaves.state]
    exact sha2_ctx (by omega)
  have hshort : ∀ p ∈ hashedBytes (strtol count).toNat, p.length < 2 ^ 32 := by
    intro p hp
    obtain ⟨v, _, rfl⟩ := List.mem_map.mp hp
    rw [length_updateBuffer]
    decide
  refine ⟨name, count, hargv, hpos, by omega, ?_⟩
  have hdrop : output.drop (variant 0).size = [] := List.drop_of_length_le houtput.le
  unfold hash
  rw [hctx, finish_updates_short hbuffer 0 hshort, hdrop, List.append_nil]
  rfl

theorem sha2_hash_one :
    ∃ (t : Sha2Locals (sha2Lib .zeroed)) (w' : World),
      run ((Program.sha2 (sha2Lib .zeroed)).main 1 ["sha2-benchmark".toList, "1".toList]
        ⟨.succeeding ⟨1, 0⟩, .succeeding ⟨2, 0⟩, .succeeding ⟨3, 0⟩⟩) ⟨.empty, .start 1⟩ =
          (.ok ⟨0, some t⟩, w') ∧
      ∃ name count, ["sha2-benchmark".toList, "1".toList] = [name, count] ∧ 1 ≤ strtol count ∧
        strtol count < 2 ^ 32 ∧ hash t (List.replicate 32 0) =
          Standard.hash .sha256 (hashedBytes (strtol count).toNat).flatten := by
  have hsys : ∀ ts, (Sys.succeeding ts).Succeeds := fun ts ↦
    ⟨⟨_, rfl⟩, rfl, rfl, rfl, rfl, rfl, rfl, rfl, ⟨_, rfl⟩, ⟨_, rfl⟩⟩
  have hcount : strtol "1".toList = 1 := by decide
  obtain ⟨t, hleaves⟩ := ((Program.sha2 (sha2Lib .zeroed)).leaves_iff 1).mpr (by decide)
  have hloop : (Program.sha2 (sha2Lib .zeroed)).loop (strtol "1".toList) 1 = some t := by
    rw [hcount]
    exact hleaves.whileLoop_eq le_rfl
  have hidle : Idle 1 [] ⟨.empty, .start 1⟩ := ⟨rfl, .inl rfl, Nat.zero_le _, rfl⟩
  have hrecords := @Program.main_records _ _ "sha2-benchmark".toList _
    ⟨.succeeding ⟨1, 0⟩, .succeeding ⟨2, 0⟩, .succeeding ⟨3, 0⟩⟩ _ _ _ _ (by rw [hcount])
    hloop (hsys ⟨1, 0⟩) (hsys ⟨2, 0⟩) (hsys ⟨3, 0⟩) hidle (by decide)
  obtain ⟨w', hrun, -⟩ := hrecords
  exact ⟨t, w', hrun, sha2_hash zeroed_sized.buffer hrun List.length_replicate⟩

end UstBench.Workload
