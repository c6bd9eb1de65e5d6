import UstBench.Sha2.Rounds

/-!
# A stream of bytes

However its bytes come in, a context stands for the stream so far: its state is that behind the
complete blocks, and the buffer starts with the rest.  The number in `total` is not always the length
of the stream, as a call adds its length modulo `2 ^ 32`.
-/

namespace UstBench.Sha2

open Reasoning Standard

/-! ## Copies -/

theorem length_memcpy {dst src : List UInt8} {off : ℕ} (h : off + src.length ≤ dst.length) :
    (memcpy dst off src).length = dst.length := by
  unfold memcpy
  simp only [List.length_append, List.length_take, List.length_drop]
  omega

theorem take_memcpy {dst src : List UInt8} {off : ℕ} (h : off ≤ dst.length) :
    (memcpy dst off src).take (off + src.length) = dst.take off ++ src := by
  unfold memcpy
  apply List.take_left'
  rw [List.length_append, List.length_take_of_le h]

/-- A copy up to the end. -/
theorem memcpy_full {dst src : List UInt8} {off : ℕ} (h : off + src.length = dst.length) :
    memcpy dst off src = dst.take off ++ src := by
  unfold memcpy
  rw [h, List.drop_length, List.append_nil]

/-! ## The count -/

/-- The number in `total`. -/
def Sha2Context.count (ctx : Sha2Context) : ℕ := ctx.total.1.toNat + 2 ^ 32 * ctx.total.2.toNat

theorem addTotal_low (total : Word × Word) (ilen : ℕ) :
    (addTotal total ilen).1.toNat = (total.1.toNat + ilen) % 2 ^ 32 := by
  unfold addTotal
  rw [show (0xFFFFFFFF : Word) = BitVec.allOnes 32 from rfl, BitVec.and_allOnes, BitVec.toNat_add,
    BitVec.toNat_ofNat, Nat.add_mod_mod]

theorem addTotal_count (total : Word × Word) (ilen : ℕ) :
    (addTotal total ilen).1.toNat + 2 ^ 32 * (addTotal total ilen).2.toNat =
      (total.1.toNat + 2 ^ 32 * total.2.toNat + ilen % 2 ^ 32) % 2 ^ 64 := by
  have hlow := addTotal_low total ilen
  have h0 := total.1.isLt
  have h1 := total.2.isLt
  have hhigh : (addTotal total ilen).2.toNat =
      if (addTotal total ilen).1.toNat < ilen % 2 ^ 32 then (total.2.toNat + 1) % 2 ^ 32
      else total.2.toNat := by
    rw [← BitVec.toNat_ofNat]
    show (if (addTotal total ilen).1 < BitVec.ofNat 32 ilen then _ else _ : Word).toNat = _
    by_cases hcarry : (addTotal total ilen).1 < BitVec.ofNat 32 ilen
    · rw [if_pos hcarry, if_pos (BitVec.lt_def.mp hcarry), BitVec.toNat_add]
      rfl
    · rw [if_neg hcarry, if_neg (fun h ↦ hcarry (BitVec.lt_def.mpr h))]
  rw [hhigh, hlow]
  split <;> omega

/-- The low six bits. -/
theorem and_low (x : Word) : (x &&& 0x3F).toNat = x.toNat % 64 := by
  rw [BitVec.toNat_and]
  exact Nat.and_two_pow_sub_one_eq_mod x.toNat 6

/-! ## What the buffer holds -/

variable {ctx : Sha2Context} {xs ys : List UInt8} {initial : Registers}

/-- From `initial`, the context has compressed the complete blocks of `xs`; `held` is the rest. -/
def Holds (initial : Registers) (xs : List UInt8) (ctx : Sha2Context) (held : List UInt8) : Prop :=
  Absorbed 64 compress initial xs ctx.state.registers held

/-- A block that the held bytes and the next ones make up. -/
theorem Holds.process {held block : List UInt8} (h : Holds initial xs ctx held)
    (hblock : held ++ ys = block) (hlen : block.length = 64) :
    Holds initial (xs ++ ys) (sha2Process ctx block) [] := by
  unfold Holds
  rw [sha2Process_state ctx hlen.ge, ← hblock]
  apply Absorbed.fill (by decide) h
  rw [← List.length_append, hblock, hlen]

/-- Bytes that do not make up a block. -/
theorem Holds.hold {held : List UInt8} (h : Holds initial xs ctx held) (ys : List UInt8)
    (hlen : held.length + ys.length < 64) : Holds initial (xs ++ ys) ctx (held ++ ys) :=
  Absorbed.hold (by decide) h hlen

/-- The loop takes the complete blocks of the input. -/
theorem Holds.updateBlocks (h : Holds initial xs ctx []) (input : List UInt8) :
    OnlyState ctx (sha2UpdateBlocks ctx input).1 ∧ (sha2UpdateBlocks ctx input).2.length < 64 ∧
      ∃ taken, taken ++ (sha2UpdateBlocks ctx input).2 = input ∧
        Holds initial (xs ++ taken) (sha2UpdateBlocks ctx input).1 [] := by
  induction input using block_induction (B := 64) (by decide) generalizing ctx xs with
  | short input hlt =>
    rw [sha2UpdateBlocks, if_neg (by omega)]
    refine ⟨rfl, hlt, [], rfl, ?_⟩
    rwa [List.append_nil]
  | block input hle ih =>
    have hlen : (input.take 64).length = 64 := List.length_take_of_le hle
    have hfirst : Holds initial (xs ++ input.take 64) (sha2Process ctx (input.take 64)) [] :=
      h.process rfl hlen
    obtain ⟨honly, hlt, taken, htaken, hholds⟩ := ih hfirst
    rw [sha2UpdateBlocks, if_pos hle]
    refine ⟨(onlyState_process ctx _).trans honly, hlt, input.take 64 ++ taken, ?_, ?_⟩
    · rw [List.append_assoc, htaken, List.take_append_drop]
    · rwa [← List.append_assoc]

theorem updateBlocks_short {input : List UInt8} (h : input.length < 64) :
    sha2UpdateBlocks ctx input = (ctx, input) := by
  rw [sha2UpdateBlocks, if_neg (by omega)]

/-! ## One call -/

/-- What a call leaves alone, and what the buffer is for. -/
structure Moved (initial : Registers) (xs : List UInt8) (ctx ctx' : Sha2Context) : Prop where
  total : ctx'.total = ctx.total
  ipad : ctx'.ipad = ctx.ipad
  opad : ctx'.opad = ctx.opad
  is224 : ctx'.is224 = ctx.is224
  buffer : ctx'.buffer.length = 64
  holds : Holds initial xs ctx' (ctx'.buffer.take (xs.length % 64))

/-- The end of a call, with nothing in the buffer. -/
theorem Holds.updateRest (h : Holds initial xs ctx []) (hbuffer : ctx.buffer.length = 64)
    (input : List UInt8) : Moved initial (xs ++ input) ctx (sha2UpdateRest ctx input 0) := by
  obtain ⟨honly, hlt, taken, htaken, hholds⟩ := h.updateBlocks input
  have hrest : Holds initial (xs ++ input) (sha2UpdateBlocks ctx input).1
      (sha2UpdateBlocks ctx input).2 := by
    have hhold := hholds.hold (sha2UpdateBlocks ctx input).2 (by rwa [List.length_nil, Nat.zero_add])
    rwa [List.append_assoc, htaken] at hhold
  have hlength := hrest.length_held
  unfold sha2UpdateRest
  generalize sha2UpdateBlocks ctx input = r at *
  obtain ⟨ctx', rest⟩ := r
  dsimp only at *
  have hctx' : ctx' = { ctx with state := ctx'.state } := honly
  have hbuffer' : ctx'.buffer.length = 64 := by rw [hctx', hbuffer]
  split
  · have hcopy : 0 + rest.length ≤ ctx'.buffer.length := by
      rw [hbuffer', Nat.zero_add]
      exact hlt.le
    have htake : (memcpy ctx'.buffer 0 rest).take (0 + rest.length) = _ :=
      take_memcpy (Nat.zero_le ctx'.buffer.length)
    rw [Nat.zero_add, List.take_zero, List.nil_append, hlength] at htake
    refine ⟨by rw [hctx'], by rw [hctx'], by rw [hctx'], by rw [hctx'], ?_, ?_⟩
    · exact (length_memcpy hcopy).trans hbuffer'
    · show Holds initial _ _ ((memcpy ctx'.buffer 0 rest).take _)
      rw [htake]
      exact hrest
  · rename_i hempty
    have hnil : rest = [] := List.eq_nil_of_length_eq_zero (by omega)
    refine ⟨by rw [hctx'], by rw [hctx'], by rw [hctx'], by rw [hctx'], hbuffer', ?_⟩
    rw [← hlength]
    subst hnil
    exact hrest

/-- The end of a call whose input leaves room in the buffer. -/
theorem Holds.updateRest_short {left : ℕ} (hleft : xs.length % 64 = left)
    (h : Holds initial xs ctx (ctx.buffer.take left)) (hbuffer : ctx.buffer.length = 64)
    {input : List UInt8} (hinput : left + input.length < 64) :
    Moved initial (xs ++ input) ctx (sha2UpdateRest ctx input left) := by
  have hheld : (ctx.buffer.take left).length = left := List.length_take_of_le (by omega)
  have hhold := h.hold input (by rwa [hheld])
  have hlength : left + input.length = (xs ++ input).length % 64 := by
    rw [List.length_append]
    omega
  unfold sha2UpdateRest
  rw [updateBlocks_short (by omega)]
  dsimp only
  split
  · refine ⟨rfl, rfl, rfl, rfl, ?_, ?_⟩
    · exact (length_memcpy (by omega)).trans hbuffer
    · show Holds initial _ _ ((memcpy ctx.buffer left input).take _)
      rw [← hlength, take_memcpy (by omega)]
      exact hhold
  · rename_i hempty
    have hnil : input = [] := List.eq_nil_of_length_eq_zero (by omega)
    subst hnil
    refine ⟨rfl, rfl, rfl, rfl, hbuffer, ?_⟩
    rw [← hlength]
    simpa using hhold

/-- The end of a call whose input completes the block in the buffer. -/
theorem Holds.updateRest_fill {left : ℕ} (hleft : xs.length % 64 = left)
    (h : Holds initial xs ctx (ctx.buffer.take left)) (hbuffer : ctx.buffer.length = 64)
    {input buffer : List UInt8} (hinput : 64 - left ≤ input.length)
    (hcopy : buffer = memcpy ctx.buffer left (input.take (64 - left))) :
    Moved initial (xs ++ input) ctx
      (sha2UpdateRest (sha2Process { ctx with buffer := buffer } buffer)
        (input.drop (64 - left)) 0) := by
  have hlt : left < 64 := by omega
  have htaken : (input.take (64 - left)).length = 64 - left := List.length_take_of_le hinput
  have hfull : left + (input.take (64 - left)).length = ctx.buffer.length := by omega
  have hlen : buffer.length = 64 := by rw [hcopy, length_memcpy hfull.le, hbuffer]
  have hblock : buffer = ctx.buffer.take left ++ input.take (64 - left) := by
    rw [hcopy, memcpy_full hfull]
  have hfirst : Holds initial (xs ++ input.take (64 - left))
      (sha2Process { ctx with buffer := buffer } buffer) [] := Holds.process h hblock.symm hlen
  have hbuffer' : (sha2Process { ctx with buffer := buffer } buffer).buffer.length = 64 := by
    rw [onlyState_process { ctx with buffer := buffer } buffer, hlen]
  have hmoved := hfirst.updateRest hbuffer' (input.drop (64 - left))
  rw [List.append_assoc, List.take_append_drop] at hmoved
  have honly : sha2Process { ctx with buffer := buffer } buffer = _ := onlyState_process _ _
  constructor
  · rw [hmoved.total, honly]
  · rw [hmoved.ipad, honly]
  · rw [hmoved.opad, honly]
  · rw [hmoved.is224, honly]
  · exact hmoved.buffer
  · exact hmoved.holds

/-- One call. -/
theorem Holds.update (h : Holds initial xs ctx (ctx.buffer.take (xs.length % 64)))
    (hbuffer : ctx.buffer.length = 64) (hleft : ctx.total.1.toNat % 64 = xs.length % 64)
    (hys : ys ≠ []) :
    Moved initial (xs ++ ys) { ctx with total := addTotal ctx.total ys.length }
      (sha2Update ctx ys) := by
  have hbuffer' : { ctx with total := addTotal ctx.total ys.length }.buffer.length = 64 := hbuffer
  have h' : Holds initial xs { ctx with total := addTotal ctx.total ys.length }
      (ctx.buffer.take (xs.length % 64)) := h
  have hpos := List.length_pos_of_ne_nil hys
  unfold sha2Update
  rw [if_neg (by omega)]
  dsimp only
  rw [and_low, hleft]
  split
  · rename_i hfill
    exact h'.updateRest_fill rfl hbuffer' hfill.2 rfl
  · rename_i hfill
    by_cases hzero : xs.length % 64 = 0
    · rw [hzero] at h' ⊢
      exact h'.updateRest hbuffer' ys
    · exact h'.updateRest_short rfl hbuffer' (by omega)

theorem sha2Update_nil (ctx : Sha2Context) : sha2Update ctx [] = ctx := rfl

/-- In whatever state a context is, the bytes in its buffer are behind no block at all. -/
theorem holds_buffer (hbuffer : ctx.buffer.length = 64) :
    Holds ctx.state.registers (ctx.buffer.take (ctx.total.1.toNat % 64)) ctx
      (ctx.buffer.take (ctx.total.1.toNat % 64)) := by
  have hlen : (ctx.buffer.take (ctx.total.1.toNat % 64)).length < 64 := by
    rw [List.length_take]
    omega
  have hstart : Holds ctx.state.registers [] ctx [] := Absorbed.start (by decide) _
  exact hstart.hold _ (by rwa [List.length_nil, Nat.zero_add])

/-! ## What the calls leave alone -/

/-- The fields that `sha2_update` does not assign. -/
structure SameKey (ctx ctx' : Sha2Context) : Prop where
  ipad : ctx'.ipad = ctx.ipad
  opad : ctx'.opad = ctx.opad
  is224 : ctx'.is224 = ctx.is224

theorem SameKey.trans {a b c : Sha2Context} (h : SameKey a b) (h' : SameKey b c) : SameKey a c :=
  ⟨h'.ipad.trans h.ipad, h'.opad.trans h.opad, h'.is224.trans h.is224⟩

/-- The arrays of the context have kept their sizes: nothing was written behind their ends. -/
structure Sized (ctx : Sha2Context) : Prop where
  buffer : ctx.buffer.length = 64
  ipad : ctx.ipad.length = 64
  opad : ctx.opad.length = 64

/-- What `memset` leaves of a context in the end. -/
def Sha2Context.zeroed : Sha2Context :=
  ⟨(0, 0), ⟨0, 0, 0, 0, 0, 0, 0, 0⟩, List.replicate 64 0, List.replicate 64 0, List.replicate 64 0, 0⟩

theorem zeroed_sized : Sized .zeroed := ⟨rfl, rfl, rfl⟩

/-- One call, in whatever state the context is. -/
theorem sha2Update_frame (hbuffer : ctx.buffer.length = 64) (ys : List UInt8) :
    SameKey ctx (sha2Update ctx ys) ∧ (sha2Update ctx ys).buffer.length = 64 := by
  by_cases hys : ys = []
  · subst hys
    exact ⟨⟨rfl, rfl, rfl⟩, hbuffer⟩
  · have hlen : (ctx.buffer.take (ctx.total.1.toNat % 64)).length % 64 = ctx.total.1.toNat % 64 := by
      rw [List.length_take]
      omega
    have hholds : Holds ctx.state.registers (ctx.buffer.take (ctx.total.1.toNat % 64)) ctx
        (ctx.buffer.take ((ctx.buffer.take (ctx.total.1.toNat % 64)).length % 64)) := by
      rw [hlen]
      exact holds_buffer hbuffer
    have hmoved := hholds.update hbuffer hlen.symm hys
    exact ⟨⟨hmoved.ipad, hmoved.opad, hmoved.is224⟩, hmoved.buffer⟩

theorem Sized.update (h : Sized ctx) (ys : List UInt8) : Sized (sha2Update ctx ys) := by
  obtain ⟨hkey, hbuffer⟩ := sha2Update_frame h.buffer ys
  exact ⟨hbuffer, hkey.ipad ▸ h.ipad, hkey.opad ▸ h.opad⟩

/-! ## Streams -/

/-- A context, the stream that it stands for, and the number that it has counted. -/
structure Streams (ctx : Sha2Context) (xs : List UInt8) (counted : ℕ) : Prop where
  buffer : ctx.buffer.length = 64
  holds : Holds (iv (variant ctx.is224)) xs ctx (ctx.buffer.take (xs.length % 64))
  low : ctx.total.1.toNat = xs.length % 2 ^ 32
  count : ctx.count = counted % 2 ^ 64

theorem Streams.start (hbuffer : ctx.buffer.length = 64) (is224 : ℤ) :
    Streams (sha2Starts ctx is224) [] 0 := by
  refine ⟨hbuffer, ?_, rfl, rfl⟩
  unfold Holds
  show Absorbed _ _ _ _ (startState is224).registers _
  rw [startState_registers]
  exact Absorbed.start (by decide) _

theorem Streams.left {counted : ℕ} (h : Streams ctx xs counted) :
    ctx.total.1.toNat % 64 = xs.length % 64 := by
  have hlow := h.low
  omega

/-- One call with any input.  The count gets the length modulo `2 ^ 32`. -/
theorem Streams.update {counted : ℕ} (h : Streams ctx xs counted) (ys : List UInt8) :
    Streams (sha2Update ctx ys) (xs ++ ys) (counted + ys.length % 2 ^ 32) := by
  by_cases hys : ys = []
  · subst hys
    rw [sha2Update_nil, List.append_nil]
    exact h
  · have hmoved := h.holds.update h.buffer h.left hys
    have htotal : (sha2Update ctx ys).total = addTotal ctx.total ys.length := hmoved.total
    refine ⟨hmoved.buffer, ?_, ?_, ?_⟩
    · rw [hmoved.is224]
      exact hmoved.holds
    · rw [htotal, addTotal_low, h.low, List.length_append, Nat.mod_add_mod]
    · have hcount : ctx.total.1.toNat + 2 ^ 32 * ctx.total.2.toNat = counted % 2 ^ 64 := h.count
      unfold Sha2Context.count
      rw [htotal, addTotal_count, hcount, Nat.mod_add_mod]

theorem Streams.update_key {counted : ℕ} (h : Streams ctx xs counted) (ys : List UInt8) :
    SameKey ctx (sha2Update ctx ys) := (sha2Update_frame h.buffer ys).1

/-! ## The end of the stream -/

theorem putUint32BE_eq (n : Word) (b : List UInt8) (i : ℕ) :
    putUint32BE n b i = memcpy b i (bigEndian 4 n.toNat) := by
  have hbyte : ∀ k, toByte (n >>> k) = UInt8.ofNat (n.toNat / 2 ^ k) := by
    intro k
    apply UInt8.toNat_inj.mp
    unfold toByte
    rw [UInt8.toNat_ofBitVec, BitVec.toNat_setWidth, BitVec.toNat_ushiftRight,
      Nat.shiftRight_eq_div_pow, UInt8.toNat_ofNat']
  have hlast : toByte n = UInt8.ofNat n.toNat := by
    have hzero := hbyte 0
    rwa [BitVec.ushiftRight_zero, Nat.pow_zero, Nat.div_one] at hzero
  unfold putUint32BE
  rw [hbyte, hbyte, hbyte, hlast]
  simp only [bigEndian, Nat.div_div_eq_div_mul]
  rfl

/-- One more word behind those that are written. -/
theorem putUint32BE_append {a output : List UInt8} {i : ℕ} (n : Word) (ha : a.length = i) :
    putUint32BE n (a ++ output.drop i) i = a ++ bigEndian 4 n.toNat ++ output.drop (i + 4) := by
  rw [putUint32BE_eq]
  unfold memcpy
  rw [List.take_left' ha, length_bigEndian, ← ha, List.drop_length_add_append, List.drop_drop]

/-- The digest, and the end of the array that SHA-224 does not write. -/
theorem putState_eq (s : Words) (is224 : ℤ) (output : List UInt8) :
    putState s is224 output =
      digest (variant is224) s.registers ++ output.drop (variant is224).size := by
  have hfirst : putUint32BE s.A output 0 = bigEndian 4 s.A.toNat ++ output.drop 4 :=
    putUint32BE_append (a := []) s.A rfl
  unfold putState
  dsimp only
  rw [hfirst, putUint32BE_append s.B (by simp), putUint32BE_append s.C (by simp),
    putUint32BE_append s.D (by simp), putUint32BE_append s.E (by simp),
    putUint32BE_append s.F (by simp), putUint32BE_append s.G (by simp)]
  by_cases h : is224 = 0
  · rw [if_pos h, variant, if_pos h, putUint32BE_append s.H (by simp)]
    simp [digest, Words.registers, Variant.size]
  · rw [if_neg h, variant, if_neg h]
    simp [digest, Words.registers, Variant.size]

/-- The length field is the count in bits. -/
theorem msglen_eq {total : Word × Word} {n : ℕ}
    (h : total.1.toNat + 2 ^ 32 * total.2.toNat = n % 2 ^ 64) :
    putUint32BE (total.1 <<< 3)
      (putUint32BE (total.1 >>> 29 ||| total.2 <<< 3) (List.replicate 8 0) 0) 4 =
      bigEndian 8 (8 * n) := by
  have h0 := total.1.isLt
  have h1 := total.2.isLt
  have hlow : (total.1 <<< 3).toNat = 8 * n % 2 ^ 32 := by
    rw [BitVec.toNat_shiftLeft, Nat.shiftLeft_eq]
    omega
  have hhigh : (total.1 >>> 29 ||| total.2 <<< 3).toNat = 8 * n / 2 ^ 32 % 2 ^ 32 := by
    have hshift : total.2.toNat <<< 3 % 2 ^ 32 = (total.2.toNat % 2 ^ 29) <<< 3 := by
      rw [Nat.shiftLeft_eq, Nat.shiftLeft_eq]
      omega
    rw [BitVec.toNat_or, BitVec.toNat_shiftLeft, BitVec.toNat_ushiftRight,
      Nat.shiftRight_eq_div_pow, Nat.or_comm, hshift, ← Nat.shiftLeft_add_eq_or_of_lt (by omega),
      Nat.shiftLeft_eq]
    omega
  have hfirst : putUint32BE (total.1 >>> 29 ||| total.2 <<< 3) (List.replicate 8 0) 0 =
      bigEndian 4 (total.1 >>> 29 ||| total.2 <<< 3).toNat ++ (List.replicate 8 0).drop 4 :=
    putUint32BE_append (a := []) _ rfl
  rw [hfirst, putUint32BE_append _ (length_bigEndian 4 _), hhigh, hlow, bigEndian_add 4 4]
  show bigEndian 4 _ ++ bigEndian 4 _ ++ [] = _
  rw [List.append_nil]
  congr 1
  · exact bigEndian_eq_iff.mpr (Nat.mod_mod _ _)
  · exact bigEndian_eq_iff.mpr (Nat.mod_mod _ _)

/-- What `sha2_finish` takes of `sha2_padding`. -/
theorem padding_eq (n : ℕ) :
    sha2Padding.take (if n % 64 < 56 then 56 - n % 64 else 120 - n % 64) =
      0x80 :: List.replicate (zeros n) 0 := by
  have hpadn : (if n % 64 < 56 then 56 - n % 64 else 120 - n % 64) = zeros n + 1 := by
    unfold zeros
    split <;> omega
  have hle : zeros n ≤ 63 := by
    unfold zeros
    omega
  rw [hpadn]
  unfold sha2Padding
  rw [List.take_succ_cons, List.take_replicate, min_eq_left hle]

theorem Streams.hashed {counted : ℕ} (h : Streams ctx xs counted) :
    digest (variant ctx.is224) ctx.state.registers = hashBlocks (variant ctx.is224) xs := by
  unfold hashBlocks
  rw [h.holds.state]

/-- The end of a stream, in any state of the count.  The context goes on to stand for the padded
stream. -/
theorem Streams.finish {counted : ℕ} (h : Streams ctx xs counted) (output : List UInt8) :
    Streams (sha2Finish ctx output).1 (padWith (8 * counted) xs)
        (counted + (zeros xs.length + 9)) ∧
      SameKey ctx (sha2Finish ctx output).1 ∧
      (sha2Finish ctx output).2 = hashBlocks (variant ctx.is224) (padWith (8 * counted) xs) ++
        output.drop (variant ctx.is224).size := by
  have hfirst := h.update (0x80 :: List.replicate (zeros xs.length) 0)
  have hkey := h.update_key (0x80 :: List.replicate (zeros xs.length) 0)
  have hlast := hfirst.update (bigEndian 8 (8 * counted))
  have hkey' := hkey.trans (hfirst.update_key (bigEndian 8 (8 * counted)))
  have hcount : counted + (0x80 :: List.replicate (zeros xs.length) (0 : UInt8)).length % 2 ^ 32 +
      (bigEndian 8 (8 * counted)).length % 2 ^ 32 = counted + (zeros xs.length + 9) := by
    have hle : zeros xs.length ≤ 63 := by
      unfold zeros
      omega
    rw [List.length_cons, List.length_replicate, length_bigEndian]
    omega
  rw [List.append_assoc, hcount] at hlast
  unfold sha2Finish
  dsimp only
  rw [and_low, h.left, padding_eq, msglen_eq h.count]
  refine ⟨hlast, hkey', ?_⟩
  rw [putState_eq, hlast.hashed, hkey'.is224]
  rfl

end UstBench.Sha2
