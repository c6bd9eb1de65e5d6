import Mathlib.Analysis.SpecialFunctions.Pow.Real
import Mathlib.Data.Nat.Nth
import Mathlib.Data.Nat.Prime.Defs
import UstBench.Reasoning.BigEndian
import UstBench.Reasoning.Blocks

/-!
# The Secure Hash Standard

SHA-256, SHA-224 and HMAC as functions of whole messages.  The constants are digits of roots of the
first primes, and are not written down here.
-/

namespace UstBench.Sha2.Standard

open Reasoning

/-! ## One block -/

def ch (x y z : BitVec 32) : BitVec 32 := (x &&& y) ^^^ (~~~x &&& z)

def maj (x y z : BitVec 32) : BitVec 32 := (x &&& y) ^^^ (x &&& z) ^^^ (y &&& z)

/-- `Σ₀` -/
def bigSigma0 (x : BitVec 32) : BitVec 32 := x.rotateRight 2 ^^^ x.rotateRight 13 ^^^ x.rotateRight 22

/-- `Σ₁` -/
def bigSigma1 (x : BitVec 32) : BitVec 32 := x.rotateRight 6 ^^^ x.rotateRight 11 ^^^ x.rotateRight 25

/-- `σ₀` -/
def sigma0 (x : BitVec 32) : BitVec 32 := x.rotateRight 7 ^^^ x.rotateRight 18 ^^^ x >>> 3

/-- `σ₁` -/
def sigma1 (x : BitVec 32) : BitVec 32 := x.rotateRight 17 ^^^ x.rotateRight 19 ^^^ x >>> 10

/-- The 32 bits of the fraction of `x` that end `n` bits behind the point. -/
noncomputable def fractionBits (n : ℕ) (x : ℝ) : BitVec 32 := BitVec.ofNat 32 ⌊x * 2 ^ n⌋₊

noncomputable def prime (i : ℕ) : ℝ := Nat.nth Nat.Prime i

/-- The constant of round `t`, from a cube root. -/
noncomputable def k (t : ℕ) : BitVec 32 := fractionBits 32 (prime t ^ (1 / 3 : ℝ))

/-- The working variables, and the intermediate hash value. -/
structure Registers where
  a : BitVec 32
  b : BitVec 32
  c : BitVec 32
  d : BitVec 32
  e : BitVec 32
  f : BitVec 32
  g : BitVec 32
  h : BitVec 32

instance : Add Registers where
  add r s := ⟨r.a + s.a, r.b + s.b, r.c + s.c, r.d + s.d, r.e + s.e, r.f + s.f, r.g + s.g, r.h + s.h⟩

def Registers.ofFn (x : ℕ → BitVec 32) : Registers := ⟨x 0, x 1, x 2, x 3, x 4, x 5, x 6, x 7⟩

def word (block : List UInt8) (t : ℕ) : BitVec 32 :=
  BitVec.ofNat 32 (ofBigEndian ((block.drop (4 * t)).take 4))

/-- The message schedule. -/
def schedule (block : List UInt8) (t : ℕ) : BitVec 32 :=
  if t < 16 then
    word block t
  else
    sigma1 (schedule block (t - 2)) + schedule block (t - 7) + sigma0 (schedule block (t - 15)) +
      schedule block (t - 16)

noncomputable def round (block : List UInt8) (r : Registers) (t : ℕ) : Registers :=
  let t1 := r.h + bigSigma1 r.e + ch r.e r.f r.g + k t + schedule block t
  let t2 := bigSigma0 r.a + maj r.a r.b r.c
  ⟨t1 + t2, r.a, r.b, r.c, r.d + t1, r.e, r.f, r.g⟩

noncomputable def compress (H : Registers) (block : List UInt8) : Registers :=
  (List.range 64).foldl (round block) H + H

/-! ## Messages -/

inductive Variant where
  | sha256
  | sha224
deriving DecidableEq

/-- The initial hash value, from square roots: the first 32 bits of the fractions for the first
eight primes, or the next 32 bits for the next eight. -/
noncomputable def iv : Variant → Registers
  | .sha256 => .ofFn fun i ↦ fractionBits 32 (Real.sqrt (prime i))
  | .sha224 => .ofFn fun i ↦ fractionBits 64 (Real.sqrt (prime (i + 8)))

/-- How many zeros make a message of `n` bytes, the end mark and the length end with a block. -/
def zeros (n : ℕ) : ℕ := (119 - n % 64) % 64

/-- The message, the end mark, zeros, and a number. -/
def padWith (bits : ℕ) (m : List UInt8) : List UInt8 :=
  m ++ (0x80 :: List.replicate (zeros m.length) 0 ++ bigEndian 8 bits)

/-- The number is the length of the message in bits. -/
def pad (m : List UInt8) : List UInt8 := padWith (8 * m.length) m

def digest : Variant → Registers → List UInt8
  | .sha256, r => [r.a, r.b, r.c, r.d, r.e, r.f, r.g, r.h].flatMap fun w ↦ bigEndian 4 w.toNat
  | .sha224, r => [r.a, r.b, r.c, r.d, r.e, r.f, r.g].flatMap fun w ↦ bigEndian 4 w.toNat

/-- The hash of a padded message. -/
noncomputable def hashBlocks (v : Variant) (padded : List UInt8) : List UInt8 :=
  digest v ((blocks 64 padded).foldl compress (iv v))

noncomputable def hash (v : Variant) (m : List UInt8) : List UInt8 := hashBlocks v (pad m)

/-! ## HMAC -/

section Hmac

variable (hash : List UInt8 → List UInt8)

/-- A key that is longer than a block is hashed, a shorter one is filled up. -/
def keyBlock (key : List UInt8) : List UInt8 :=
  let key := if 64 < key.length then hash key else key
  key ++ List.replicate (64 - key.length) 0

def xorBytes (x : UInt8) (block : List UInt8) : List UInt8 := block.map (x ^^^ ·)

/-- What the hash of the message starts with. -/
def inner (block : List UInt8) : List UInt8 := xorBytes 0x36 block

def outer (block : List UInt8) : List UInt8 := xorBytes 0x5C block

def hmac (key m : List UInt8) : List UInt8 :=
  hash (outer (keyBlock hash key) ++ hash (inner (keyBlock hash key) ++ m))

end Hmac

theorem Registers.ofFn_congr {x y : ℕ → BitVec 32} (h : ∀ i < 8, x i = y i) : ofFn x = ofFn y := by
  unfold ofFn
  rw [h 0 (by decide), h 1 (by decide), h 2 (by decide), h 3 (by decide), h 4 (by decide),
    h 5 (by decide), h 6 (by decide), h 7 (by decide)]

/-! ## Lengths -/

theorem zeros_complete (n : ℕ) : (n + 1 + zeros n + 8) % 64 = 0 := by
  unfold zeros
  omega

variable {m m' : List UInt8} {bits bits' : ℕ}

theorem length_padWith : (padWith bits m).length = m.length + 1 + zeros m.length + 8 := by
  unfold padWith
  rw [List.length_append, List.length_append, List.length_cons, List.length_replicate,
    length_bigEndian]
  omega

theorem dvd_length_padWith : 64 ∣ (padWith bits m).length := by
  rw [length_padWith]
  exact Nat.dvd_of_mod_eq_zero (zeros_complete m.length)

def Variant.size : Variant → ℕ
  | .sha256 => 32
  | .sha224 => 28

theorem length_digest (v : Variant) (r : Registers) : (digest v r).length = v.size := by
  cases v <;> simp [digest, Variant.size]

theorem length_hash (v : Variant) (m : List UInt8) : (hash v m).length = v.size := length_digest v _

theorem Variant.size_le (v : Variant) : v.size ≤ 32 := by
  cases v
  · exact le_refl _
  · show 28 ≤ 32
    omega

theorem length_keyBlock {hash : List UInt8 → List UInt8} (h : ∀ m, (hash m).length ≤ 64)
    (key : List UInt8) : (keyBlock hash key).length = 64 := by
  have hle : (if 64 < key.length then hash key else key).length ≤ 64 := by
    split
    · exact h key
    · omega
  unfold keyBlock
  rw [List.length_append, List.length_replicate]
  omega

@[simp] theorem length_inner (block : List UInt8) : (inner block).length = block.length :=
  List.length_map _

@[simp] theorem length_outer (block : List UInt8) : (outer block).length = block.length :=
  List.length_map _

/-! ## Different messages are padded differently -/

theorem drop_padWith : (padWith bits m).drop ((padWith bits m).length - 8) = bigEndian 8 bits := by
  unfold padWith
  rw [← List.append_assoc, List.length_append, length_bigEndian, Nat.add_sub_cancel]
  exact List.drop_left

theorem length_eq_of_bits (hm : m.length < 2 ^ 61) (hm' : m'.length < 2 ^ 61)
    (h : bigEndian 8 (8 * m.length) = bigEndian 8 (8 * m'.length)) : m.length = m'.length := by
  have hmod := bigEndian_eq_iff.mp h
  omega

theorem pad_injective (hm : m.length < 2 ^ 61) (hm' : m'.length < 2 ^ 61) (h : pad m = pad m') :
    m = m' := by
  have hbits : bigEndian 8 (8 * m.length) = bigEndian 8 (8 * m'.length) := by
    rw [← drop_padWith, ← drop_padWith]
    exact congrArg (fun p ↦ p.drop (p.length - 8)) h
  exact (List.append_inj h (length_eq_of_bits hm hm' hbits)).1

/-- The padded messages have different last blocks if they have different lengths. -/
theorem last_block_ne (hm : m.length < 2 ^ 61) (hm' : m'.length < 2 ^ 61)
    (hlen : (pad m).length ≠ (pad m').length) :
    ∃ l b l' b', blocks 64 (pad m) = l ++ [b] ∧ blocks 64 (pad m') = l' ++ [b'] ∧ b ≠ b' := by
  have hne : ∀ m : List UInt8, pad m ≠ [] := by
    intro m h
    have hlength := congrArg List.length h
    rw [pad, length_padWith] at hlength
    cases hlength
  obtain ⟨l, b, hl, hb⟩ := exists_last_block (by decide) dvd_length_padWith (hne m)
  obtain ⟨l', b', hl', hb'⟩ := exists_last_block (by decide) dvd_length_padWith (hne m')
  refine ⟨l, b, l', b', hl, hl', ?_⟩
  rintro rfl
  have hbits : bigEndian 8 (8 * m.length) = bigEndian 8 (8 * m'.length) := by
    rw [← drop_padWith, ← drop_padWith]
    exact (hb 8 (by decide)).trans (hb' 8 (by decide)).symm
  apply hlen
  rw [pad, pad, length_padWith, length_padWith, length_eq_of_bits hm hm' hbits]

theorem digest_injective {r s : Registers} (h : digest .sha256 r = digest .sha256 s) : r = s := by
  have hword : ∀ {w w' : BitVec 32} {x y : List UInt8},
      bigEndian 4 w.toNat ++ x = bigEndian 4 w'.toNat ++ y ↔ w = w' ∧ x = y := by
    intro w w' x y
    constructor
    · intro h
      obtain ⟨hbytes, hrest⟩ := List.append_inj h (by simp)
      have hmod : w.toNat % 2 ^ 32 = w'.toNat % 2 ^ 32 := bigEndian_eq_iff.mp hbytes
      rw [Nat.mod_eq_of_lt w.isLt, Nat.mod_eq_of_lt w'.isLt] at hmod
      exact ⟨BitVec.eq_of_toNat_eq hmod, hrest⟩
    · rintro ⟨rfl, rfl⟩
      rfl
  simp only [digest, List.flatMap_cons, hword] at h
  obtain ⟨ha, hb, hc, hd, he, hf, hg, hh, _⟩ := h
  cases r
  cases s
  simp_all

/-- Two messages with one digest come to two blocks that are compressed to one value. -/
theorem meet_of_hash_eq (hm : m.length < 2 ^ 61) (hm' : m'.length < 2 ^ 61) (hne : m ≠ m')
    (h : hash .sha256 m = hash .sha256 m') :
    Meet compress (iv .sha256) (iv .sha256) (blocks 64 (pad m)) (blocks 64 (pad m')) := by
  have hfold := digest_injective h
  by_cases hlen : (pad m).length = (pad m').length
  · apply meet_of_foldl_eq (by rw [length_blocks, length_blocks, hlen]) hfold
    rintro ⟨_, hblocks⟩
    have hpad := (blocks_inj (by decide) dvd_length_padWith dvd_length_padWith).mp hblocks
    exact hne (pad_injective hm hm' hpad)
  · obtain ⟨l, b, l', b', hl, hl', hb⟩ := last_block_ne hm hm' hlen
    rw [hl, hl'] at hfold ⊢
    exact meet_of_last_ne hfold hb

end UstBench.Sha2.Standard
