import Mathlib.Data.Int.Notation
import Mathlib.Data.Nat.Notation
import Mathlib.Logic.Function.Basic
import Mathlib.Tactic.Common

/-!
# `sha2.c`

The hash that `sha2-benchmark` computes.  An array is the list of its bytes.  A write behind the end
of an array makes the list longer, and a read there gives 0.
-/

namespace UstBench.Sha2

/-- `uint32_t` -/
abbrev Word := BitVec 32

/-! ## Arrays -/

/-- `memcpy(dst + off, src, ilen)`, with the `ilen` bytes of `src`. -/
def memcpy (dst : List UInt8) (off : ℕ) (src : List UInt8) : List UInt8 :=
  dst.take off ++ src ++ dst.drop (off + src.length)

/-- `b[i]` as a `uint32_t` -/
def byteAt (b : List UInt8) (i : ℕ) : Word := (b.getD i 0).toBitVec.setWidth 32

/-- `(unsigned char) n` -/
def toByte (n : Word) : UInt8 := UInt8.ofBitVec (n.setWidth 8)

/-- `GET_UINT32_BE` -/
def getUint32BE (b : List UInt8) (i : ℕ) : Word :=
  byteAt b i <<< 24 ||| byteAt b (i + 1) <<< 16 ||| byteAt b (i + 2) <<< 8 ||| byteAt b (i + 3)

/-- `PUT_UINT32_BE`: four assignments next to each other. -/
def putUint32BE (n : Word) (b : List UInt8) (i : ℕ) : List UInt8 :=
  memcpy b i [toByte (n >>> 24), toByte (n >>> 16), toByte (n >>> 8), toByte n]

/-! ## The context -/

/-- The eight words `state[0]` to `state[7]`, under the names of the variables of `sha2_process`
that they are loaded into. -/
structure Words where
  A : Word
  B : Word
  C : Word
  D : Word
  E : Word
  F : Word
  G : Word
  H : Word
deriving DecidableEq

structure Sha2Context where
  total : Word × Word
  state : Words
  buffer : List UInt8
  ipad : List UInt8
  opad : List UInt8
  is224 : ℤ
deriving DecidableEq

/-- What `sha2_starts` assigns to `state`. -/
def startState (is224 : ℤ) : Words :=
  if is224 = 0 then
    ⟨0x6A09E667, 0xBB67AE85, 0x3C6EF372, 0xA54FF53A,
      0x510E527F, 0x9B05688C, 0x1F83D9AB, 0x5BE0CD19⟩
  else
    ⟨0xC1059ED8, 0x367CD507, 0x3070DD17, 0xF70E5939,
      0xFFC00B31, 0x68581511, 0x64F98FA7, 0xBEFA4FA4⟩

def sha2Starts (ctx : Sha2Context) (is224 : ℤ) : Sha2Context :=
  { ctx with total := (0, 0), state := startState is224, is224 := is224 }

/-! ## One block -/

/-- `SHR` -/
def shr (x : Word) (n : ℕ) : Word := (x &&& 0xFFFFFFFF) >>> n

/-- `ROTR` -/
def rotr (x : Word) (n : ℕ) : Word := shr x n ||| x <<< (32 - n)

def s0 (x : Word) : Word := rotr x 7 ^^^ rotr x 18 ^^^ shr x 3

def s1 (x : Word) : Word := rotr x 17 ^^^ rotr x 19 ^^^ shr x 10

def s2 (x : Word) : Word := rotr x 2 ^^^ rotr x 13 ^^^ rotr x 22

def s3 (x : Word) : Word := rotr x 6 ^^^ rotr x 11 ^^^ rotr x 25

def f0 (x y z : Word) : Word := (x &&& y) ||| (z &&& (x ||| y))

def f1 (x y z : Word) : Word := z ^^^ (x &&& (y ^^^ z))

/-- A variable that the macro `P` is given. -/
inductive Reg where
  | A | B | C | D | E | F | G | H
deriving DecidableEq

def Words.get (v : Words) : Reg → Word
  | .A => v.A
  | .B => v.B
  | .C => v.C
  | .D => v.D
  | .E => v.E
  | .F => v.F
  | .G => v.G
  | .H => v.H

def Words.set (v : Words) (r : Reg) (x : Word) : Words :=
  match r with
  | .A => { v with A := x }
  | .B => { v with B := x }
  | .C => { v with C := x }
  | .D => { v with D := x }
  | .E => { v with E := x }
  | .F => { v with F := x }
  | .G => { v with G := x }
  | .H => { v with H := x }

/-- What stands for `x` in a use of `P`: `W[t]` or `R(t)`. -/
inductive Operand where
  | W (t : ℕ)
  | R (t : ℕ)
deriving DecidableEq

/-- A use of `P`. -/
structure Line where
  P ::
  a : Reg
  b : Reg
  c : Reg
  d : Reg
  e : Reg
  f : Reg
  g : Reg
  h : Reg
  x : Operand
  K : Word
deriving DecidableEq

/-- The local variables of `sha2_process`. -/
structure Locals where
  W : ℕ → Word
  vars : Words

/-- `R(t)` assigns `W[t]`, and is the value of the assignment. -/
def Operand.eval (l : Locals) : Operand → Word × Locals
  | .W t => (l.W t, l)
  | .R t =>
    let v := s1 (l.W (t - 2)) + l.W (t - 7) + s0 (l.W (t - 15)) + l.W (t - 16)
    (v, { l with W := Function.update l.W t v })

/-- The macro `P`. -/
def Line.run (l : Locals) (line : Line) : Locals :=
  let x := line.x.eval l
  let v := l.vars
  let temp1 := v.get line.h + s3 (v.get line.e) + f1 (v.get line.e) (v.get line.f) (v.get line.g) +
    line.K + x.1
  let temp2 := s2 (v.get line.a) + f0 (v.get line.a) (v.get line.b) (v.get line.c)
  let v := v.set line.d (v.get line.d + temp1)
  { x.2 with vars := v.set line.h (temp1 + temp2) }

/-- The body of `sha2_process`. -/
def processLines : List Line :=
  [.P .A .B .C .D .E .F .G .H (.W 0) 0x428A2F98,
   .P .H .A .B .C .D .E .F .G (.W 1) 0x71374491,
   .P .G .H .A .B .C .D .E .F (.W 2) 0xB5C0FBCF,
   .P .F .G .H .A .B .C .D .E (.W 3) 0xE9B5DBA5,
   .P .E .F .G .H .A .B .C .D (.W 4) 0x3956C25B,
   .P .D .E .F .G .H .A .B .C (.W 5) 0x59F111F1,
   .P .C .D .E .F .G .H .A .B (.W 6) 0x923F82A4,
   .P .B .C .D .E .F .G .H .A (.W 7) 0xAB1C5ED5,
   .P .A .B .C .D .E .F .G .H (.W 8) 0xD807AA98,
   .P .H .A .B .C .D .E .F .G (.W 9) 0x12835B01,
   .P .G .H .A .B .C .D .E .F (.W 10) 0x243185BE,
   .P .F .G .H .A .B .C .D .E (.W 11) 0x550C7DC3,
   .P .E .F .G .H .A .B .C .D (.W 12) 0x72BE5D74,
   .P .D .E .F .G .H .A .B .C (.W 13) 0x80DEB1FE,
   .P .C .D .E .F .G .H .A .B (.W 14) 0x9BDC06A7,
   .P .B .C .D .E .F .G .H .A (.W 15) 0xC19BF174,
   .P .A .B .C .D .E .F .G .H (.R 16) 0xE49B69C1,
   .P .H .A .B .C .D .E .F .G (.R 17) 0xEFBE4786,
   .P .G .H .A .B .C .D .E .F (.R 18) 0x0FC19DC6,
   .P .F .G .H .A .B .C .D .E (.R 19) 0x240CA1CC,
   .P .E .F .G .H .A .B .C .D (.R 20) 0x2DE92C6F,
   .P .D .E .F .G .H .A .B .C (.R 21) 0x4A7484AA,
   .P .C .D .E .F .G .H .A .B (.R 22) 0x5CB0A9DC,
   .P .B .C .D .E .F .G .H .A (.R 23) 0x76F988DA,
   .P .A .B .C .D .E .F .G .H (.R 24) 0x983E5152,
   .P .H .A .B .C .D .E .F .G (.R 25) 0xA831C66D,
   .P .G .H .A .B .C .D .E .F (.R 26) 0xB00327C8,
   .P .F .G .H .A .B .C .D .E (.R 27) 0xBF597FC7,
   .P .E .F .G .H .A .B .C .D (.R 28) 0xC6E00BF3,
   .P .D .E .F .G .H .A .B .C (.R 29) 0xD5A79147,
   .P .C .D .E .F .G .H .A .B (.R 30) 0x06CA6351,
   .P .B .C .D .E .F .G .H .A (.R 31) 0x14292967,
   .P .A .B .C .D .E .F .G .H (.R 32) 0x27B70A85,
   .P .H .A .B .C .D .E .F .G (.R 33) 0x2E1B2138,
   .P .G .H .A .B .C .D .E .F (.R 34) 0x4D2C6DFC,
   .P .F .G .H .A .B .C .D .E (.R 35) 0x53380D13,
   .P .E .F .G .H .A .B .C .D (.R 36) 0x650A7354,
   .P .D .E .F .G .H .A .B .C (.R 37) 0x766A0ABB,
   .P .C .D .E .F .G .H .A .B (.R 38) 0x81C2C92E,
   .P .B .C .D .E .F .G .H .A (.R 39) 0x92722C85,
   .P .A .B .C .D .E .F .G .H (.R 40) 0xA2BFE8A1,
   .P .H .A .B .C .D .E .F .G (.R 41) 0xA81A664B,
   .P .G .H .A .B .C .D .E .F (.R 42) 0xC24B8B70,
   .P .F .G .H .A .B .C .D .E (.R 43) 0xC76C51A3,
   .P .E .F .G .H .A .B .C .D (.R 44) 0xD192E819,
   .P .D .E .F .G .H .A .B .C (.R 45) 0xD6990624,
   .P .C .D .E .F .G .H .A .B (.R 46) 0xF40E3585,
   .P .B .C .D .E .F .G .H .A (.R 47) 0x106AA070,
   .P .A .B .C .D .E .F .G .H (.R 48) 0x19A4C116,
   .P .H .A .B .C .D .E .F .G (.R 49) 0x1E376C08,
   .P .G .H .A .B .C .D .E .F (.R 50) 0x2748774C,
   .P .F .G .H .A .B .C .D .E (.R 51) 0x34B0BCB5,
   .P .E .F .G .H .A .B .C .D (.R 52) 0x391C0CB3,
   .P .D .E .F .G .H .A .B .C (.R 53) 0x4ED8AA4A,
   .P .C .D .E .F .G .H .A .B (.R 54) 0x5B9CCA4F,
   .P .B .C .D .E .F .G .H .A (.R 55) 0x682E6FF3,
   .P .A .B .C .D .E .F .G .H (.R 56) 0x748F82EE,
   .P .H .A .B .C .D .E .F .G (.R 57) 0x78A5636F,
   .P .G .H .A .B .C .D .E .F (.R 58) 0x84C87814,
   .P .F .G .H .A .B .C .D .E (.R 59) 0x8CC70208,
   .P .E .F .G .H .A .B .C .D (.R 60) 0x90BEFFFA,
   .P .D .E .F .G .H .A .B .C (.R 61) 0xA4506CEB,
   .P .C .D .E .F .G .H .A .B (.R 62) 0xBEF9A3F7,
   .P .B .C .D .E .F .G .H .A (.R 63) 0xC67178F2]

/-- The sixteen uses of `GET_UINT32_BE`. -/
def loadWords (W : ℕ → Word) (data : List UInt8) : ℕ → Word :=
  fun t ↦ if t < 16 then getUint32BE data (4 * t) else W t

/-- `sha2_process`, with what the array `W` holds before the first assignment. -/
def sha2ProcessFrom (W : ℕ → Word) (ctx : Sha2Context) (data : List UInt8) : Sha2Context :=
  let s := ctx.state
  let v := (processLines.foldl Line.run ⟨loadWords W data, s⟩).vars
  { ctx with
    state := ⟨s.A + v.A, s.B + v.B, s.C + v.C, s.D + v.D,
      s.E + v.E, s.F + v.F, s.G + v.G, s.H + v.H⟩ }

/-- The array is not initialised; zeros stand for what it holds. -/
@[irreducible] def sha2Process (ctx : Sha2Context) (data : List UInt8) : Sha2Context :=
  sha2ProcessFrom (fun _ ↦ 0) ctx data

/-! ## The stream of bytes -/

/-- The loop of `sha2_update`, with what is left of the input. -/
def sha2UpdateBlocks (ctx : Sha2Context) (input : List UInt8) : Sha2Context × List UInt8 :=
  if 64 ≤ input.length then
    sha2UpdateBlocks (sha2Process ctx (input.take 64)) (input.drop 64)
  else
    (ctx, input)
termination_by input.length
decreasing_by
  rw [List.length_drop]
  omega

/-- `sha2_update` from the loop on. -/
def sha2UpdateRest (ctx : Sha2Context) (input : List UInt8) (left : ℕ) : Sha2Context :=
  let rest := sha2UpdateBlocks ctx input
  if 0 < rest.2.length then
    { rest.1 with buffer := memcpy rest.1.buffer left rest.2 }
  else
    rest.1

/-- The carry from `total[0]` goes to `total[1]`.  Only the low 32 bits of the length are added. -/
def addTotal (total : Word × Word) (ilen : ℕ) : Word × Word :=
  let low := (total.1 + BitVec.ofNat 32 ilen) &&& 0xFFFFFFFF
  (low, if low < BitVec.ofNat 32 ilen then total.2 + 1 else total.2)

/-- `left` bytes are in the buffer when the input comes. -/
def sha2Update (ctx : Sha2Context) (input : List UInt8) : Sha2Context :=
  if input.length ≤ 0 then
    ctx
  else
    let left := (ctx.total.1 &&& 0x3F).toNat
    let fill := 64 - left
    let ctx := { ctx with total := addTotal ctx.total input.length }
    if left ≠ 0 ∧ fill ≤ input.length then
      let buffer := memcpy ctx.buffer left (input.take fill)
      sha2UpdateRest (sha2Process { ctx with buffer := buffer } buffer) (input.drop fill) 0
    else
      sha2UpdateRest ctx input left

def sha2Padding : List UInt8 := 0x80 :: List.replicate 63 0

/-- The eight uses of `PUT_UINT32_BE` on the output. -/
def putState (s : Words) (is224 : ℤ) (output : List UInt8) : List UInt8 :=
  let output := putUint32BE s.A output 0
  let output := putUint32BE s.B output 4
  let output := putUint32BE s.C output 8
  let output := putUint32BE s.D output 12
  let output := putUint32BE s.E output 16
  let output := putUint32BE s.F output 20
  let output := putUint32BE s.G output 24
  -- SHA-224 leaves the last four bytes of the array as they are
  if is224 = 0 then putUint32BE s.H output 28 else output

def sha2Finish (ctx : Sha2Context) (output : List UInt8) : Sha2Context × List UInt8 :=
  let high := ctx.total.1 >>> 29 ||| ctx.total.2 <<< 3
  let low := ctx.total.1 <<< 3
  let msglen := putUint32BE low (putUint32BE high (List.replicate 8 0) 0) 4
  let last := (ctx.total.1 &&& 0x3F).toNat
  let padn := if last < 56 then 56 - last else 120 - last
  let ctx := sha2Update ctx (sha2Padding.take padn)
  let ctx := sha2Update ctx msglen
  (ctx, putState ctx.state ctx.is224 output)

/-- `sha2`, with what the context on the stack holds. -/
def sha2 (ctx : Sha2Context) (input output : List UInt8) (is224 : ℤ) : List UInt8 :=
  (sha2Finish (sha2Update (sha2Starts ctx is224) input) output).2

/-! ## `sha2_file` -/

/-- An open file: what the calls to `fread` give, and `ferror` behind them. -/
structure File where
  reads : List (List UInt8)
  ferror : Bool

/-- The loop of `sha2_file`: a call that gives nothing ends it. -/
def sha2FileReads (ctx : Sha2Context) : List (List UInt8) → Sha2Context
  | [] => ctx
  | buf :: reads => if 0 < buf.length then sha2FileReads (sha2Update ctx buf) reads else ctx

/-- `POLARSSL_ERR_SHA2_FILE_IO_ERROR` -/
def fileIoError : ℤ := -0x0078

def sha2File (ctx : Sha2Context) (file : Option File) (output : List UInt8) (is224 : ℤ) :
    ℤ × List UInt8 :=
  match file with
  | none => (fileIoError, output)
  | some f =>
    let output := (sha2Finish (sha2FileReads (sha2Starts ctx is224) f.reads) output).2
    -- the output is written before the error is looked at
    if f.ferror then (fileIoError, output) else (0, output)

/-! ## HMAC -/

/-- The loop of `sha2_hmac_starts`. -/
def xorKey (key : List UInt8) (ctx : Sha2Context) (i : ℕ) : Sha2Context :=
  { ctx with
    ipad := memcpy ctx.ipad i [ctx.ipad.getD i 0 ^^^ key.getD i 0]
    opad := memcpy ctx.opad i [ctx.opad.getD i 0 ^^^ key.getD i 0] }

/-- `sha2_hmac_starts`, with what the array `sum` and the context of `sha2` hold. -/
def sha2HmacStarts (inner : Sha2Context) (sum : List UInt8) (ctx : Sha2Context) (key : List UInt8)
    (is224 : ℤ) : Sha2Context :=
  let used :=
    if 64 < key.length then
      (sha2 inner key sum is224, if is224 ≠ 0 then 28 else 32)
    else
      (key, key.length)
  let ctx := { ctx with ipad := List.replicate 64 0x36, opad := List.replicate 64 0x5C }
  let ctx := (List.range used.2).foldl (xorKey used.1) ctx
  let ctx := sha2Starts ctx is224
  sha2Update ctx ctx.ipad

def sha2HmacUpdate (ctx : Sha2Context) (input : List UInt8) : Sha2Context := sha2Update ctx input

/-- `sha2_hmac_finish`, with what the array `tmpbuf` holds. -/
def sha2HmacFinish (tmpbuf : List UInt8) (ctx : Sha2Context) (output : List UInt8) :
    Sha2Context × List UInt8 :=
  let is224 := ctx.is224
  let hlen := if is224 = 0 then 32 else 28
  let inner := sha2Finish ctx tmpbuf
  let ctx := sha2Starts inner.1 is224
  let ctx := sha2Update ctx ctx.opad
  let ctx := sha2Update ctx (inner.2.take hlen)
  sha2Finish ctx output

def sha2HmacReset (ctx : Sha2Context) : Sha2Context :=
  let ctx := sha2Starts ctx ctx.is224
  sha2Update ctx ctx.ipad

/-- `sha2_hmac`, with what its context and the arrays of the calls hold. -/
def sha2Hmac (ctx inner : Sha2Context) (sum tmpbuf key input output : List UInt8) (is224 : ℤ) :
    List UInt8 :=
  let ctx := sha2HmacStarts inner sum ctx key is224
  let ctx := sha2HmacUpdate ctx input
  (sha2HmacFinish tmpbuf ctx output).2

end UstBench.Sha2
