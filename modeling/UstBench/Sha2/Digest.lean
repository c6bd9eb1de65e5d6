import UstBench.Sha2.Streaming

/-!
# Digests

What a context gives for a message that comes in pieces, or from a file, and how two messages can
come to have one digest.
-/

namespace UstBench.Sha2

open Reasoning Standard

variable {ctx : Sha2Context} {xs : List UInt8} {n : ℕ} {pieces : List (List UInt8)}

def Registers.words (r : Registers) : Words := ⟨r.a, r.b, r.c, r.d, r.e, r.f, r.g, r.h⟩

theorem registers_injective : Function.Injective Words.registers :=
  fun _ _ h ↦ congrArg Registers.words h

/-- The unrolled rounds, the renamed variables and the shortened functions on words are the
compression of the standard.  Nothing else of the context is assigned, and it does not matter what
the array for the schedule held. -/
theorem sha2ProcessFrom_compresses (W : ℕ → Word) (ctx : Sha2Context) {block : List UInt8}
    (h : block.length = 64) :
    sha2ProcessFrom W ctx block =
      { ctx with state := Registers.words (compress ctx.state.registers block) } := by
  have hstate : (sha2ProcessFrom W ctx block).state =
      Registers.words (compress ctx.state.registers block) :=
    registers_injective (sha2ProcessFrom_state W ctx h.ge)
  rw [← hstate]
  rfl

theorem sha2ProcessFrom_compresses_zeros :
    sha2ProcessFrom (fun _ ↦ 0) .zeroed (List.replicate 64 0) =
      { Sha2Context.zeroed with
        state := Registers.words
          (compress Sha2Context.zeroed.state.registers (List.replicate 64 0)) } :=
  sha2ProcessFrom_compresses _ _ List.length_replicate

/-! ## A message in pieces -/

/-- A call of `sha2_update` for each piece. -/
def updates (ctx : Sha2Context) (pieces : List (List UInt8)) : Sha2Context :=
  pieces.foldl sha2Update ctx

theorem updates_concat (ctx : Sha2Context) (pieces : List (List UInt8)) (p : List UInt8) :
    updates ctx (pieces ++ [p]) = sha2Update (updates ctx pieces) p := by
  unfold updates
  rw [List.foldl_append, List.foldl_cons, List.foldl_nil]

/-- The bytes that these calls count. -/
def counted (pieces : List (List UInt8)) : ℕ := (pieces.map fun p ↦ p.length % 2 ^ 32).sum

/-- What is not counted, in units of `2 ^ 32` bytes. -/
def uncounted (pieces : List (List UInt8)) : ℕ := (pieces.map fun p ↦ p.length / 2 ^ 32).sum

theorem Streams.updates (h : Streams ctx xs n) (pieces : List (List UInt8)) :
    Streams (updates ctx pieces) (xs ++ pieces.flatten) (n + counted pieces) ∧
      SameKey ctx (Sha2.updates ctx pieces) := by
  induction pieces generalizing ctx xs n with
  | nil =>
    refine ⟨?_, ⟨rfl, rfl, rfl⟩⟩
    rw [List.flatten_nil, List.append_nil]
    exact h
  | cons p pieces ih =>
    obtain ⟨hstreams, hkey⟩ := ih (h.update p)
    rw [List.append_assoc, Nat.add_assoc] at hstreams
    exact ⟨hstreams, (h.update_key p).trans hkey⟩

theorem counted_add_uncounted (pieces : List (List UInt8)) :
    counted pieces + 2 ^ 32 * uncounted pieces = pieces.flatten.length := by
  induction pieces with
  | nil => rfl
  | cons p pieces ih =>
    have hsplit := Nat.mod_add_div p.length (2 ^ 32)
    have hcounted : counted (p :: pieces) = p.length % 2 ^ 32 + counted pieces := rfl
    have huncounted : uncounted (p :: pieces) = p.length / 2 ^ 32 + uncounted pieces := rfl
    rw [List.flatten_cons, List.length_append, ← ih, hcounted, huncounted]
    omega

theorem padWith_eq_iff {bits bits' : ℕ} :
    padWith bits xs = padWith bits' xs ↔ bits % 2 ^ 64 = bits' % 2 ^ 64 := by
  unfold padWith
  rw [List.append_right_inj, List.append_right_inj]
  exact bigEndian_eq_iff

/-- The code pads as the standard does unless too much is left out of the count. -/
theorem padWith_counted_iff : padWith (8 * counted pieces) pieces.flatten = pad pieces.flatten ↔
    2 ^ 29 ∣ uncounted pieces := by
  have hsum := counted_add_uncounted pieces
  unfold pad
  rw [padWith_eq_iff]
  omega

theorem uncounted_eq_zero (h : ∀ p ∈ pieces, p.length < 2 ^ 32) : uncounted pieces = 0 := by
  apply List.sum_eq_zero
  intro x hx
  obtain ⟨p, hp, rfl⟩ := List.mem_map.mp hx
  exact Nat.div_eq_of_lt (h p hp)

/-- The digest of a message in any pieces. -/
theorem finish_updates (hbuffer : ctx.buffer.length = 64) (is224 : ℤ) (pieces : List (List UInt8))
    (output : List UInt8) :
    (sha2Finish (updates (sha2Starts ctx is224) pieces) output).2 =
      hashBlocks (variant is224) (padWith (8 * counted pieces) pieces.flatten) ++
        output.drop (variant is224).size := by
  obtain ⟨hstreams, hkey⟩ := (Streams.start hbuffer is224).updates pieces
  rw [List.nil_append, Nat.zero_add] at hstreams
  have hfinish := (hstreams.finish output).2.2
  rwa [hkey.is224] at hfinish

/-- The digest of a message in pieces of any length: its padding ends with the number of bytes that
were counted, and is that of the standard exactly if `2 ^ 29` divides the rest. -/
theorem digest_of_pieces (hbuffer : ctx.buffer.length = 64) (is224 : ℤ) (pieces : List (List UInt8))
    (output : List UInt8) :
    (sha2Finish (updates (sha2Starts ctx is224) pieces) output).2 =
        hashBlocks (variant is224) (padWith (8 * counted pieces) pieces.flatten) ++
          output.drop (variant is224).size ∧
      (padWith (8 * counted pieces) pieces.flatten = pad pieces.flatten ↔
        2 ^ 29 ∣ uncounted pieces) :=
  ⟨finish_updates hbuffer is224 pieces output, padWith_counted_iff⟩

theorem digest_of_pieces_two :
    (sha2Finish (updates (sha2Starts .zeroed 0) [[1], [2, 3]]) (List.replicate 32 0)).2 =
        hashBlocks (variant 0) (padWith (8 * counted [[1], [2, 3]]) [[1], [2, 3]].flatten) ++
          (List.replicate 32 0).drop (variant 0).size ∧
      (padWith (8 * counted [[1], [2, 3]]) [[1], [2, 3]].flatten = pad [[1], [2, 3]].flatten ↔
        2 ^ 29 ∣ uncounted [[1], [2, 3]]) :=
  digest_of_pieces zeroed_sized.buffer 0 _ _

/-- Pieces that one `uint32_t` can count. -/
theorem finish_updates_short (hbuffer : ctx.buffer.length = 64) (is224 : ℤ)
    (hshort : ∀ p ∈ pieces, p.length < 2 ^ 32) (output : List UInt8) :
    (sha2Finish (updates (sha2Starts ctx is224) pieces) output).2 =
      hash (variant is224) pieces.flatten ++ output.drop (variant is224).size := by
  have hpad : padWith (8 * counted pieces) pieces.flatten = pad pieces.flatten :=
    padWith_counted_iff.mpr (uncounted_eq_zero hshort ▸ Nat.dvd_zero _)
  rw [finish_updates hbuffer, hpad]
  rfl

theorem sha2_eq_hash (hbuffer : ctx.buffer.length = 64) (is224 : ℤ) {input : List UInt8}
    (hshort : input.length < 2 ^ 32) (output : List UInt8) :
    sha2 ctx input output is224 =
      hash (variant is224) input ++ output.drop (variant is224).size := by
  have hpieces : ∀ p ∈ [input], p.length < 2 ^ 32 := by
    intro p hp
    rwa [List.mem_singleton.mp hp]
  have hfinish := finish_updates_short hbuffer is224 hpieces output
  rwa [List.flatten_singleton] at hfinish

-- the digest of `abc`
example : sha2 .zeroed [0x61, 0x62, 0x63] (List.replicate 32 0) 0 =
    [0xBA, 0x78, 0x16, 0xBF, 0x8F, 0x01, 0xCF, 0xEA, 0x41, 0x41, 0x40, 0xDE, 0x5D, 0xAE, 0x22, 0x23,
      0xB0, 0x03, 0x61, 0xA3, 0x96, 0x17, 0x7A, 0x9C, 0xB4, 0x10, 0xFF, 0x61, 0xF2, 0x00, 0x15,
      0xAD] := by decide +kernel

/-! ## A file -/

/-- The bytes that the loop of `sha2_file` gets. -/
def File.contents (f : File) : List UInt8 := (f.reads.takeWhile fun buf ↦ 0 < buf.length).flatten

theorem sha2FileReads_eq (ctx : Sha2Context) (reads : List (List UInt8)) :
    sha2FileReads ctx reads = updates ctx (reads.takeWhile fun buf ↦ 0 < buf.length) := by
  induction reads generalizing ctx with
  | nil => rfl
  | cons buf reads ih =>
    unfold sha2FileReads
    by_cases h : 0 < buf.length
    · rw [if_pos h, ih, List.takeWhile_cons_of_pos (by simpa using h)]
      rfl
    · rw [if_neg h, List.takeWhile_cons_of_neg (by simpa using h)]
      rfl

/-- However the reads fall, the digest is that of the bytes they give.  It is written also where a
read error makes the call fail. -/
theorem sha2File_open (hbuffer : ctx.buffer.length = 64) (is224 : ℤ) (f : File)
    (hreads : ∀ buf ∈ f.reads, buf.length ≤ 1024) (output : List UInt8) :
    sha2File ctx (some f) output is224 =
      (if f.ferror then fileIoError else 0,
        hash (variant is224) f.contents ++ output.drop (variant is224).size) := by
  have hshort : ∀ p ∈ f.reads.takeWhile fun buf ↦ 0 < buf.length, p.length < 2 ^ 32 := by
    intro p hp
    have hle := hreads p ((List.takeWhile_prefix _).subset hp)
    omega
  have hfinish := finish_updates_short hbuffer is224 hshort output
  unfold sha2File
  dsimp only
  rw [sha2FileReads_eq, hfinish]
  cases f.ferror <;> rfl

theorem sha2File_open_failed :
    sha2File .zeroed (some ⟨[[1, 2], [], [3]], true⟩) (List.replicate 32 0) 0 =
      (if true then fileIoError else 0,
        hash (variant 0) (File.contents ⟨[[1, 2], [], [3]], true⟩) ++
          (List.replicate 32 0).drop (variant 0).size) :=
  sha2File_open zeroed_sized.buffer 0 _ (by decide) _

/-! ## Collisions -/

/-- What `sha2_process` makes of a state. -/
def processState (ctx : Sha2Context) (s : Words) (block : List UInt8) : Words :=
  (sha2Process { ctx with state := s } block).state

theorem processState_words (ctx : Sha2Context) (r : Registers) {block : List UInt8}
    (h : block.length = 64) :
    processState ctx (Registers.words r) block = Registers.words (compress r block) :=
  registers_injective (sha2Process_state { ctx with state := Registers.words r } h.ge)

theorem foldl_processState (ctx : Sha2Context) (r : Registers) {bs : List (List UInt8)}
    (h : ∀ b ∈ bs, b.length = 64) :
    bs.foldl (processState ctx) (Registers.words r) = Registers.words (bs.foldl compress r) := by
  induction bs generalizing r with
  | nil => rfl
  | cons b bs ih =>
    rw [List.forall_mem_cons] at h
    rw [List.foldl_cons, List.foldl_cons, processState_words ctx r h.1, ih _ h.2]

/-- Two messages are the same, or have different digests, or they lead `sha2_process` to one state
from two different pairs: the state behind some blocks of the one and its next block, and the state
behind some blocks of the other and its next block. -/
theorem finish_eq_or_meet {ctx' : Sha2Context} {pieces' : List (List UInt8)}
    (hbuffer : ctx.buffer.length = 64) (hbuffer' : ctx'.buffer.length = 64)
    (hshort : ∀ p ∈ pieces, p.length < 2 ^ 32) (hshort' : ∀ p ∈ pieces', p.length < 2 ^ 32)
    (hlen : pieces.flatten.length < 2 ^ 61) (hlen' : pieces'.flatten.length < 2 ^ 61)
    (output output' : List UInt8) :
    pieces.flatten = pieces'.flatten ∨
      (sha2Finish (updates (sha2Starts ctx 0) pieces) output).2 ≠
        (sha2Finish (updates (sha2Starts ctx' 0) pieces') output').2 ∨
      Meet (processState ctx) (startState 0) (startState 0) (blocks 64 (pad pieces.flatten))
        (blocks 64 (pad pieces'.flatten)) := by
  rw [or_iff_not_imp_left, or_iff_not_imp_left, not_not]
  intro hne h
  have hhash : hash .sha256 pieces.flatten = hash .sha256 pieces'.flatten := by
    rw [finish_updates_short hbuffer 0 hshort, finish_updates_short hbuffer' 0 hshort'] at h
    exact (List.append_inj h (by rw [length_hash, length_hash])).1
  have hstart : startState 0 = Registers.words (iv .sha256) :=
    registers_injective (startState_registers 0)
  -- the states behind some blocks are those of the standard
  have hreached : ∀ m i, ((blocks 64 (pad m)).take i).foldl (processState ctx) (startState 0) =
      Registers.words (((blocks 64 (pad m)).take i).foldl compress (iv .sha256)) := by
    intro m i
    rw [hstart]
    exact foldl_processState ctx _ fun b hb ↦
      length_of_mem_blocks (by decide) (List.mem_of_mem_take hb)
  obtain ⟨i, j, b, b', hb, hb', hdiff, heq⟩ := meet_of_hash_eq hlen hlen' hne hhash
  refine ⟨i, j, b, b', hb, hb', ?_, ?_⟩
  · rintro ⟨hwords, hblock⟩
    rw [hreached, hreached] at hwords
    exact hdiff ⟨congrArg Words.registers hwords, hblock⟩
  · rw [hreached, hreached,
      processState_words ctx _ (length_of_mem_blocks (by decide) (List.mem_of_getElem? hb)),
      processState_words ctx _ (length_of_mem_blocks (by decide) (List.mem_of_getElem? hb')), heq]

theorem finish_eq_or_meet_two :
    [[(1 : UInt8)]].flatten = [[1], [2]].flatten ∨
      (sha2Finish (updates (sha2Starts .zeroed 0) [[1]]) (List.replicate 32 0)).2 ≠
        (sha2Finish (updates (sha2Starts .zeroed 0) [[1], [2]]) (List.replicate 32 0)).2 ∨
      Meet (processState .zeroed) (startState 0) (startState 0) (blocks 64 (pad [[1]].flatten))
        (blocks 64 (pad [[1], [2]].flatten)) := by
  have hshort : ∀ p ∈ ([[1]] : List (List UInt8)), p.length < 2 ^ 32 := by decide
  have hshort' : ∀ p ∈ ([[1], [2]] : List (List UInt8)), p.length < 2 ^ 32 := by decide
  exact finish_eq_or_meet zeroed_sized.buffer zeroed_sized.buffer hshort hshort' (by decide)
    (by decide) _ _

end UstBench.Sha2
