import UstBench.Sha2.Digest

/-!
# HMAC, and calls in any order

A context is used for one message after another, with or without a key.  What is asked of the
functions is a machine of its own, `Session`, which knows whole messages and refuses calls that have
no message or no key; as long as it refuses nothing, the context gives its digests.
-/

namespace UstBench.Sha2

open Reasoning Standard

variable {ctx : Sha2Context}

/-! ## The pads -/

/-- One more byte behind those that are written. -/
theorem memcpy_byte {a b : List UInt8} {i : ℕ} (x y : UInt8) (ha : a.length = i) :
    memcpy (a ++ y :: b) i [x] = a ++ [x] ++ b := by
  unfold memcpy
  rw [List.take_left' ha, ← ha, List.drop_length_add_append]
  rfl

theorem getD_append {a b : List UInt8} {i : ℕ} (y : UInt8) (ha : a.length = i) :
    (a ++ y :: b).getD i 0 = y := by
  rw [List.getD_eq_getElem?_getD, List.getElem?_append_right ha.le, ha, Nat.sub_self]
  rfl

/-- A pad behind `n` turns of the loop. -/
def padAfter (x : UInt8) (key : List UInt8) (n : ℕ) : List UInt8 :=
  (key.take n).map (x ^^^ ·) ++ List.replicate (64 - n) x

theorem padAfter_succ {x : UInt8} {key : List UInt8} {n : ℕ} (hn : n < key.length) (h64 : n < 64) :
    memcpy (padAfter x key n) n [(padAfter x key n).getD n 0 ^^^ key.getD n 0] =
      padAfter x key (n + 1) := by
  have hlen : ((key.take n).map (x ^^^ ·)).length = n := by
    rw [List.length_map, List.length_take_of_le hn.le]
  have hsplit : padAfter x key n =
      (key.take n).map (x ^^^ ·) ++ x :: List.replicate (64 - (n + 1)) x := by
    unfold padAfter
    rw [show 64 - n = 64 - (n + 1) + 1 by omega, List.replicate_succ]
  have hkey : key.getD n 0 = key[n] := by
    rw [List.getD_eq_getElem?_getD, List.getElem?_eq_getElem hn]
    rfl
  rw [hsplit, getD_append x hlen, memcpy_byte _ _ hlen, hkey]
  unfold padAfter
  rw [List.take_succ_eq_append_getElem hn, List.map_append]
  rfl

theorem xorKey_fold {key : List UInt8} {n : ℕ} (hn : n ≤ key.length) (h64 : n ≤ 64) :
    (List.range n).foldl (xorKey key)
        { ctx with ipad := List.replicate 64 0x36, opad := List.replicate 64 0x5C } =
      { ctx with ipad := padAfter 0x36 key n, opad := padAfter 0x5C key n } := by
  induction n with
  | zero => rfl
  | succ n ih =>
    rw [List.range_succ, List.foldl_append, ih (by omega) (by omega)]
    show Sha2Context.mk _ _ _ _ _ _ = Sha2Context.mk _ _ _ _ _ _
    rw [padAfter_succ (by omega) (by omega), padAfter_succ (by omega) (by omega)]

theorem padAfter_length {x : UInt8} {key : List UInt8} :
    padAfter x key key.length = xorBytes x (key ++ List.replicate (64 - key.length) 0) := by
  unfold padAfter xorBytes
  rw [List.take_length, List.map_append, List.map_replicate, UInt8.xor_zero]

theorem variant_size (is224 : ℤ) : (if is224 ≠ 0 then 28 else 32) = (variant is224).size := by
  unfold variant
  by_cases h : is224 = 0
  · rw [if_neg (not_not.mpr h), if_pos h]
    rfl
  · rw [if_pos h, if_neg h]
    rfl

/-- A key that is longer than a block is replaced by its digest. -/
theorem sha2HmacStarts_eq {stack : Sha2Context} (hstack : stack.buffer.length = 64)
    {key : List UInt8} (hkey : key.length < 2 ^ 32) (sum : List UInt8) (is224 : ℤ) :
    sha2HmacStarts stack sum ctx key is224 =
      sha2Update (sha2Starts { ctx with
        ipad := inner (keyBlock (hash (variant is224)) key)
        opad := outer (keyBlock (hash (variant is224)) key) } is224)
        (inner (keyBlock (hash (variant is224)) key)) := by
  have hpads : ∀ k : List UInt8, k.length ≤ 64 → ∀ rest : List UInt8,
      (List.range k.length).foldl (xorKey (k ++ rest))
        { ctx with ipad := List.replicate 64 0x36, opad := List.replicate 64 0x5C } =
      { ctx with
        ipad := inner (k ++ List.replicate (64 - k.length) 0)
        opad := outer (k ++ List.replicate (64 - k.length) 0) } := by
    intro k hk rest
    have htake : ∀ x, padAfter x (k ++ rest) k.length = padAfter x k k.length := by
      intro x
      unfold padAfter
      rw [List.take_left, List.take_length]
    rw [xorKey_fold (by rw [List.length_append]; omega) hk, htake, htake, padAfter_length,
      padAfter_length]
    rfl
  unfold sha2HmacStarts keyBlock
  by_cases hlong : 64 < key.length
  · have hsize := length_hash (variant is224) key
    have hle := (variant is224).size_le
    simp only [if_pos hlong]
    rw [variant_size, sha2_eq_hash hstack is224 hkey, ← hsize, hpads _ (by omega)]
    rfl
  · simp only [if_neg hlong]
    have hfold := hpads key (by omega) []
    rw [List.append_nil] at hfold
    rw [hfold]
    rfl

/-! ## Calls -/

/-- The functions of the header on one context, with what the arrays and the context on the stack
hold that they are not given. -/
inductive Call where
  | starts (is224 : ℤ)
  | update (input : List UInt8)
  | finish (output : List UInt8)
  | hmacStarts (stack : Sha2Context) (sum key : List UInt8) (is224 : ℤ)
  | hmacUpdate (input : List UInt8)
  | hmacFinish (tmpbuf output : List UInt8)
  | hmacReset

/-- The context behind a call, and the array that it wrote. -/
def Call.run (ctx : Sha2Context) : Call → Sha2Context × List (List UInt8)
  | starts is224 => (sha2Starts ctx is224, [])
  | update input => (sha2Update ctx input, [])
  | finish output => ((sha2Finish ctx output).1, [(sha2Finish ctx output).2])
  | hmacStarts stack sum key is224 => (sha2HmacStarts stack sum ctx key is224, [])
  | hmacUpdate input => (sha2HmacUpdate ctx input, [])
  | hmacFinish tmpbuf output =>
    ((sha2HmacFinish tmpbuf ctx output).1, [(sha2HmacFinish tmpbuf ctx output).2])
  | hmacReset => (sha2HmacReset ctx, [])

def runCalls (ctx : Sha2Context) : List Call → Sha2Context × List (List UInt8)
  | [] => (ctx, [])
  | call :: calls =>
    let rest := runCalls (call.run ctx).1 calls
    (rest.1, (call.run ctx).2 ++ rest.2)

/-! ## Sessions -/

/-- What is being hashed: the bytes so far, if there is a message, and the block of the key, if there
is one. -/
structure Session where
  variant : Variant
  key : Option (List UInt8)
  stream : Option (List UInt8)

/-- The digest as the array gets it. -/
noncomputable def written (v : Variant) (m output : List UInt8) : List UInt8 :=
  hash v m ++ output.drop v.size

/-- A call that has no message or no key to work on is refused. -/
noncomputable def Session.step (s : Session) : Call → Option (Session × List (List UInt8))
  | .starts is224 => some ({ s with variant := Sha2.variant is224, stream := some [] }, [])
  | .update input | .hmacUpdate input =>
    s.stream.map fun xs ↦ ({ s with stream := some (xs ++ input) }, [])
  | .finish output =>
    s.stream.map fun xs ↦ ({ s with stream := none }, [written s.variant xs output])
  | .hmacStarts _ _ key is224 =>
    let block := keyBlock (hash (Sha2.variant is224)) key
    some (⟨Sha2.variant is224, some block, some (inner block)⟩, [])
  | .hmacFinish _ output =>
    s.key.bind fun block ↦ s.stream.map fun xs ↦
      ({ s with stream := none }, [written s.variant (outer block ++ hash s.variant xs) output])
  | .hmacReset => s.key.map fun block ↦ ({ s with stream := some (inner block) }, [])

noncomputable def Session.run (s : Session) : List Call → Option (Session × List (List UInt8))
  | [] => some (s, [])
  | call :: calls =>
    (s.step call).bind fun t ↦ (t.1.run calls).map fun u ↦ (u.1, t.2 ++ u.2)

/-! ## The context does what the session says -/

variable {xs ys : List UInt8}

theorem Streams.append (h : Streams ctx xs xs.length) (hys : ys.length < 2 ^ 32) :
    Streams (sha2Update ctx ys) (xs ++ ys) (xs ++ ys).length := by
  have hupdate := h.update ys
  rwa [Nat.mod_eq_of_lt hys, ← List.length_append] at hupdate

/-- The end of a stream whose bytes are all counted. -/
theorem Streams.written (h : Streams ctx xs xs.length) (output : List UInt8) :
    SameKey ctx (sha2Finish ctx output).1 ∧ (sha2Finish ctx output).1.buffer.length = 64 ∧
      (sha2Finish ctx output).2 = Sha2.written (variant ctx.is224) xs output := by
  obtain ⟨hstreams, hkey, hdigest⟩ := h.finish output
  exact ⟨hkey, hstreams.buffer, hdigest⟩

theorem Sized.starts (h : Sized ctx) (is224 : ℤ) : Sized (sha2Starts ctx is224) :=
  ⟨h.buffer, h.ipad, h.opad⟩

theorem Sized.of_key {ctx' : Sha2Context} (h : Sized ctx) (hkey : SameKey ctx ctx')
    (hbuffer : ctx'.buffer.length = 64) : Sized ctx' :=
  ⟨hbuffer, hkey.ipad ▸ h.ipad, hkey.opad ▸ h.opad⟩

/-- A context stands for a session. -/
structure Represents (ctx : Sha2Context) (s : Session) : Prop where
  sized : Sized ctx
  variant : s.variant = variant ctx.is224
  key : ∀ block, s.key = some block → ctx.ipad = inner block ∧ ctx.opad = outer block
  stream : ∀ xs, s.stream = some xs → Streams ctx xs xs.length

/-- The lengths that one call can count, and an array of 64 bytes on the stack. -/
def Call.Fits : Call → Prop
  | update input | hmacUpdate input => input.length < 2 ^ 32
  | hmacStarts stack _ key _ => stack.buffer.length = 64 ∧ key.length < 2 ^ 32
  | _ => True

variable {s s' : Session} {outputs : List (List UInt8)}

theorem Represents.update (h : Represents ctx s) (hxs : s.stream = some xs)
    (hys : ys.length < 2 ^ 32) :
    Represents (sha2Update ctx ys) { s with stream := some (xs ++ ys) } := by
  have hstream := h.stream xs hxs
  have hkey := hstream.update_key ys
  refine ⟨h.sized.update ys, ?_, ?_, ?_⟩
  · rw [hkey.is224]
    exact h.variant
  · intro block hblock
    rw [hkey.ipad, hkey.opad]
    exact h.key block hblock
  · rintro _ ⟨⟩
    exact hstream.append hys

/-- A message has ended, and the arrays of the key are what they were. -/
theorem Represents.close {ctx' : Sha2Context} (h : Represents ctx s) (hkey : SameKey ctx ctx')
    (hbuffer : ctx'.buffer.length = 64) : Represents ctx' { s with stream := none } := by
  refine ⟨h.sized.of_key hkey hbuffer, ?_, ?_, ?_⟩
  · rw [hkey.is224]
    exact h.variant
  · intro block hblock
    rw [hkey.ipad, hkey.opad]
    exact h.key block hblock
  · rintro _ ⟨⟩

/-- A message that starts with the inner pad. -/
theorem Sized.keyed (h : Sized ctx) (is224 : ℤ) {block : List UInt8} (hipad : ctx.ipad = inner block)
    (hopad : ctx.opad = outer block) :
    Represents (sha2Update (sha2Starts ctx is224) (inner block))
      ⟨variant is224, some block, some (inner block)⟩ := by
  have hstart := Streams.start h.buffer is224
  have hkey := hstart.update_key (inner block)
  have hlen : (inner block).length < 2 ^ 32 := by
    rw [← hipad, h.ipad]
    decide
  refine ⟨(h.starts is224).update _, ?_, ?_, ?_⟩
  · rw [hkey.is224]
    rfl
  · rintro _ ⟨⟩
    rw [hkey.ipad, hkey.opad]
    exact ⟨hipad, hopad⟩
  · rintro _ ⟨⟩
    exact hstart.append hlen

/-- The outer hash of `sha2_hmac_finish`. -/
theorem Streams.hmacFinish {block : List UInt8} (h : Streams ctx xs xs.length)
    (hopad : ctx.opad = outer block) (hlen : ctx.opad.length = 64) (tmpbuf output : List UInt8) :
    SameKey ctx (sha2HmacFinish tmpbuf ctx output).1 ∧
      (sha2HmacFinish tmpbuf ctx output).1.buffer.length = 64 ∧
      (sha2HmacFinish tmpbuf ctx output).2 = Sha2.written (variant ctx.is224)
        (outer block ++ hash (variant ctx.is224) xs) output := by
  obtain ⟨hkey, hbuffer, hdigest⟩ := h.written tmpbuf
  have hsize : (if ctx.is224 = 0 then 32 else 28) = (variant ctx.is224).size := by
    rw [← variant_size, ite_not]
  have htake : (sha2Finish ctx tmpbuf).2.take (if ctx.is224 = 0 then 32 else 28) =
      hash (variant ctx.is224) xs := by
    rw [hsize, hdigest]
    exact List.take_left' (length_hash _ _)
  have hhash : (hash (variant ctx.is224) xs).length < 2 ^ 32 := by
    have hlength := length_hash (variant ctx.is224) xs
    have hle := (variant ctx.is224).size_le
    omega
  have houter : (outer block).length < 2 ^ 32 := by
    rw [← hopad, hlen]
    decide
  have hopad' : (sha2Starts (sha2Finish ctx tmpbuf).1 ctx.is224).opad = outer block :=
    hkey.opad.trans hopad
  have hstart := Streams.start hbuffer ctx.is224
  have hstart_key : SameKey ctx (sha2Starts (sha2Finish ctx tmpbuf).1 ctx.is224) :=
    ⟨hkey.ipad, hkey.opad, rfl⟩
  have hpad := hstart.append houter
  have hpad_key := hstart_key.trans (hstart.update_key (outer block))
  have hboth := hpad.append hhash
  have hboth_key := hpad_key.trans (hpad.update_key (hash (variant ctx.is224) xs))
  obtain ⟨hlast_key, hlast_buffer, hlast⟩ := hboth.written output
  unfold sha2HmacFinish
  dsimp only
  rw [hopad', htake]
  refine ⟨hboth_key.trans hlast_key, hlast_buffer, ?_⟩
  rw [hlast, hboth_key.is224]
  rfl

/-- One call that the session does not refuse. -/
theorem Represents.step (h : Represents ctx s) {call : Call} (hfits : call.Fits)
    (hstep : s.step call = some (s', outputs)) :
    Represents (call.run ctx).1 s' ∧ (call.run ctx).2 = outputs := by
  cases call with
  | starts is224 =>
    obtain ⟨rfl, rfl⟩ := Prod.mk.inj (Option.some.inj hstep)
    refine ⟨⟨h.sized.starts is224, rfl, h.key, ?_⟩, rfl⟩
    rintro _ ⟨⟩
    exact Streams.start h.sized.buffer is224
  | update input =>
    obtain ⟨xs, hxs, hs'⟩ := Option.map_eq_some_iff.mp hstep
    obtain ⟨rfl, rfl⟩ := Prod.mk.inj hs'
    exact ⟨h.update hxs hfits, rfl⟩
  | finish output =>
    obtain ⟨xs, hxs, hs'⟩ := Option.map_eq_some_iff.mp hstep
    obtain ⟨rfl, rfl⟩ := Prod.mk.inj hs'
    obtain ⟨hkey, hbuffer, hdigest⟩ := (h.stream xs hxs).written output
    refine ⟨h.close hkey hbuffer, ?_⟩
    rw [h.variant]
    exact congrArg ([·]) hdigest
  | hmacStarts stack sum key is224 =>
    obtain ⟨rfl, rfl⟩ := Prod.mk.inj (Option.some.inj hstep)
    refine ⟨?_, rfl⟩
    show Represents (sha2HmacStarts stack sum ctx key is224) _
    rw [sha2HmacStarts_eq hfits.1 hfits.2]
    have hlen : (keyBlock (hash (Sha2.variant is224)) key).length = 64 := by
      apply length_keyBlock
      intro m
      rw [length_hash]
      exact (Sha2.variant is224).size_le.trans (by decide)
    apply Sized.keyed _ is224 rfl rfl
    exact ⟨h.sized.buffer, (length_inner _).trans hlen, (length_outer _).trans hlen⟩
  | hmacUpdate input =>
    obtain ⟨xs, hxs, hs'⟩ := Option.map_eq_some_iff.mp hstep
    obtain ⟨rfl, rfl⟩ := Prod.mk.inj hs'
    exact ⟨h.update hxs hfits, rfl⟩
  | hmacFinish tmpbuf output =>
    obtain ⟨block, hblock, hmap⟩ := Option.bind_eq_some_iff.mp hstep
    obtain ⟨xs, hxs, hs'⟩ := Option.map_eq_some_iff.mp hmap
    obtain ⟨rfl, rfl⟩ := Prod.mk.inj hs'
    obtain ⟨hkey, hbuffer, hdigest⟩ :=
      (h.stream xs hxs).hmacFinish (h.key block hblock).2 h.sized.opad tmpbuf output
    refine ⟨h.close hkey hbuffer, ?_⟩
    rw [h.variant]
    exact congrArg ([·]) hdigest
  | hmacReset =>
    obtain ⟨block, hblock, hs'⟩ := Option.map_eq_some_iff.mp hstep
    obtain ⟨rfl, rfl⟩ := Prod.mk.inj hs'
    obtain ⟨hipad, hopad⟩ := h.key block hblock
    refine ⟨?_, rfl⟩
    show Represents (sha2Update (sha2Starts ctx ctx.is224) ctx.ipad) ⟨s.variant, s.key, _⟩
    rw [h.variant, hblock, hipad]
    exact h.sized.keyed ctx.is224 hipad hopad

theorem Represents.run (h : Represents ctx s) {calls : List Call} (hfits : ∀ call ∈ calls, call.Fits)
    (hrun : s.run calls = some (s', outputs)) :
    Represents (runCalls ctx calls).1 s' ∧ (runCalls ctx calls).2 = outputs := by
  induction calls generalizing ctx s s' outputs with
  | nil =>
    obtain ⟨rfl, rfl⟩ := Prod.mk.inj (Option.some.inj hrun)
    exact ⟨h, rfl⟩
  | cons call calls ih =>
    obtain ⟨⟨s₁, outputs₁⟩, hstep, hmap⟩ := Option.bind_eq_some_iff.mp hrun
    obtain ⟨⟨s₂, outputs₂⟩, hrest, heq⟩ := Option.map_eq_some_iff.mp hmap
    obtain ⟨rfl, rfl⟩ := Prod.mk.inj heq
    obtain ⟨hfirst, hfirst_outputs⟩ := h.step (hfits call List.mem_cons_self) hstep
    obtain ⟨hlast, hlast_outputs⟩ :=
      ih hfirst (fun call hcall ↦ hfits call (List.mem_cons_of_mem _ hcall)) hrest
    exact ⟨hlast, congrArg₂ (· ++ ·) hfirst_outputs hlast_outputs⟩

/-- Before the first call. -/
def Session.new (is224 : ℤ) : Session := ⟨Sha2.variant is224, none, none⟩

theorem Sized.represents (h : Sized ctx) : Represents ctx (.new ctx.is224) :=
  ⟨h, rfl, nofun, nofun⟩

/-- Every digest that calls in any order give is that of the bytes since the message began, as long
as no call comes without a message or a key.  It does not matter what the context held. -/
theorem runCalls_refines (h : Sized ctx) {calls : List Call} (hfits : ∀ call ∈ calls, call.Fits)
    (hrun : (Session.new ctx.is224).run calls = some (s', outputs)) :
    Represents (runCalls ctx calls).1 s' ∧ (runCalls ctx calls).2 = outputs :=
  h.represents.run hfits hrun

theorem runCalls_refines_two :
    Represents (runCalls .zeroed [.starts 1, .update [1], .update [2], .finish []]).1
        ⟨.sha224, none, none⟩ ∧
      (runCalls .zeroed [.starts 1, .update [1], .update [2], .finish []]).2 =
        [written .sha224 [1, 2] []] := by
  refine runCalls_refines zeroed_sized ?_ rfl
  intro call hcall
  simp only [List.mem_cons, List.not_mem_nil, or_false] at hcall
  rcases hcall with rfl | rfl | rfl | rfl
  · trivial
  · exact show 1 < 2 ^ 32 by decide
  · exact show 1 < 2 ^ 32 by decide
  · trivial

/-! ## One key, many messages -/

theorem Session.run_cons (s : Session) (call : Call) (calls : List Call) :
    s.run (call :: calls) =
      (s.step call).bind fun t ↦ (t.1.run calls).map fun u ↦ (u.1, t.2 ++ u.2) := rfl

theorem Session.run_append (s : Session) (calls calls' : List Call) :
    s.run (calls ++ calls') =
      (s.run calls).bind fun t ↦ (t.1.run calls').map fun u ↦ (u.1, t.2 ++ u.2) := by
  induction calls generalizing s with
  | nil =>
    show s.run calls' = (s.run calls').map fun u ↦ (u.1, [] ++ u.2)
    simp
  | cons call calls ih =>
    rw [List.cons_append, run_cons, run_cons]
    cases s.step call with
    | none => rfl
    | some t =>
      simp only [Option.bind_some, ih]
      cases t.1.run calls with
      | none => rfl
      | some u =>
        simp only [Option.bind_some, Option.map_some, Option.map_map, Function.comp_def,
          List.append_assoc]

theorem Session.run_updates (hxs : s.stream = some xs) (pieces : List (List UInt8)) :
    s.run (pieces.map .hmacUpdate) =
      some ({ s with stream := some (xs ++ pieces.flatten) }, []) := by
  induction pieces generalizing s xs with
  | nil =>
    rw [List.flatten_nil, List.append_nil, ← hxs]
    rfl
  | cons p pieces ih =>
    have hstep : s.step (.hmacUpdate p) = some ({ s with stream := some (xs ++ p) }, []) := by
      show s.stream.map _ = _
      rw [hxs]
      rfl
    show (s.step (.hmacUpdate p)).bind _ = _
    rw [hstep]
    show (Session.run _ (pieces.map .hmacUpdate)).map _ = _
    rw [ih rfl, List.append_assoc]
    rfl

/-- A message in pieces, and the arrays for its digest. -/
structure Message where
  pieces : List (List UInt8)
  tmpbuf : List UInt8
  output : List UInt8

/-- Behind each message the context is reset. -/
def Message.calls (m : Message) : List Call :=
  m.pieces.map .hmacUpdate ++ [.hmacFinish m.tmpbuf m.output, .hmacReset]

noncomputable def Message.digest (is224 : ℤ) (key : List UInt8) (m : Message) : List UInt8 :=
  hmac (hash (variant is224)) key m.pieces.flatten ++ m.output.drop (variant is224).size

/-- A session whose message is the inner pad alone. -/
noncomputable def Session.keyed (is224 : ℤ) (key : List UInt8) : Session :=
  let block := keyBlock (hash (Sha2.variant is224)) key
  ⟨Sha2.variant is224, some block, some (inner block)⟩

theorem Session.run_message (is224 : ℤ) (key : List UInt8) (m : Message) :
    (Session.keyed is224 key).run m.calls =
      some (Session.keyed is224 key, [m.digest is224 key]) := by
  unfold Message.calls
  rw [run_append, run_updates rfl]
  rfl

theorem Session.run_messages (is224 : ℤ) (key : List UInt8) (messages : List Message) :
    (Session.keyed is224 key).run (messages.flatMap Message.calls) =
      some (Session.keyed is224 key, messages.map (Message.digest is224 key)) := by
  induction messages with
  | nil => rfl
  | cons m messages ih =>
    rw [List.flatMap_cons, run_append, run_message]
    show (Session.run _ (messages.flatMap Message.calls)).map _ = _
    rw [ih]
    rfl

/-- One call of `sha2_hmac_starts` serves any number of messages. -/
theorem runCalls_messages (h : Sized ctx) {stack : Sha2Context} (hstack : stack.buffer.length = 64)
    {key : List UInt8} (hkey : key.length < 2 ^ 32) (sum : List UInt8) (is224 : ℤ)
    {messages : List Message} (hpieces : ∀ m ∈ messages, ∀ p ∈ m.pieces, p.length < 2 ^ 32) :
    (runCalls ctx (.hmacStarts stack sum key is224 :: messages.flatMap Message.calls)).2 =
      messages.map (Message.digest is224 key) := by
  have hfits : ∀ call ∈ Call.hmacStarts stack sum key is224 :: messages.flatMap Message.calls,
      call.Fits := by
    intro call hcall
    rcases List.mem_cons.mp hcall with rfl | hcall
    · exact ⟨hstack, hkey⟩
    · obtain ⟨m, hm, hcall⟩ := List.mem_flatMap.mp hcall
      rcases List.mem_append.mp hcall with hcall | hcall
      · obtain ⟨p, hp, rfl⟩ := List.mem_map.mp hcall
        exact hpieces m hm p hp
      · rcases List.mem_cons.mp hcall with rfl | hcall
        · trivial
        · rw [List.mem_singleton.mp hcall]
          trivial
  have hrun : (Session.new ctx.is224).run
      (.hmacStarts stack sum key is224 :: messages.flatMap Message.calls) =
      some (Session.keyed is224 key, messages.map (Message.digest is224 key)) := by
    show (Session.run (Session.keyed is224 key) _).map _ = _
    rw [Session.run_messages]
    rfl
  exact (h.represents.run hfits hrun).2

theorem runCalls_messages_two :
    (runCalls .zeroed (.hmacStarts .zeroed [] [7] 0 ::
      [(⟨[[1], [2]], [], []⟩ : Message), ⟨[[3]], [], []⟩].flatMap Message.calls)).2 =
      [(⟨[[1], [2]], [], []⟩ : Message), ⟨[[3]], [], []⟩].map (Message.digest 0 [7]) :=
  runCalls_messages zeroed_sized zeroed_sized.buffer (by decide) [] 0 (by decide)

/-- The one call for a message in one piece. -/
theorem sha2Hmac_eq (h : Sized ctx) {stack : Sha2Context} (hstack : stack.buffer.length = 64)
    {key input : List UInt8} (hkey : key.length < 2 ^ 32) (hinput : input.length < 2 ^ 32)
    (sum tmpbuf output : List UInt8) (is224 : ℤ) :
    sha2Hmac ctx stack sum tmpbuf key input output is224 =
      hmac (hash (variant is224)) key input ++ output.drop (variant is224).size := by
  have hfits : ∀ call ∈ [Call.hmacStarts stack sum key is224, .hmacUpdate input,
      .hmacFinish tmpbuf output], call.Fits := by
    simp only [List.forall_mem_cons, List.not_mem_nil, false_imp_iff, implies_true, and_true]
    exact ⟨⟨hstack, hkey⟩, hinput, trivial⟩
  have hrun : (Session.new ctx.is224).run [.hmacStarts stack sum key is224, .hmacUpdate input,
      .hmacFinish tmpbuf output] = some ({ Session.keyed is224 key with stream := none },
        [hmac (hash (variant is224)) key input ++ output.drop (variant is224).size]) := rfl
  have houtputs := (h.represents.run hfits hrun).2
  exact List.singleton_inj.mp houtputs

/-! ## Nothing is written behind an array -/

theorem length_putState (s : Words) (is224 : ℤ) {output : List UInt8}
    (houtput : output.length = 32) : (putState s is224 output).length = 32 := by
  have hle := (variant is224).size_le
  rw [putState_eq, List.length_append, length_digest, List.length_drop, houtput]
  omega

theorem Sized.finish (h : Sized ctx) (output : List UInt8) : Sized (sha2Finish ctx output).1 := by
  unfold sha2Finish
  dsimp only
  exact (h.update _).update _

theorem length_finish (ctx : Sha2Context) {output : List UInt8} (houtput : output.length = 32) :
    (sha2Finish ctx output).2.length = 32 := length_putState _ _ houtput

theorem length_padAfter {x : UInt8} {key : List UInt8} {n : ℕ} (hn : n ≤ key.length) (h64 : n ≤ 64) :
    (padAfter x key n).length = 64 := by
  unfold padAfter
  rw [List.length_append, List.length_map, List.length_take_of_le hn, List.length_replicate]
  omega

theorem Sized.hmacStarts (h : Sized ctx) (stack : Sha2Context) {sum : List UInt8}
    (hsum : sum.length = 32) (key : List UInt8) (is224 : ℤ) :
    Sized (sha2HmacStarts stack sum ctx key is224) := by
  have hpads : ∀ (k : List UInt8) (n : ℕ), n ≤ k.length → n ≤ 64 →
      Sized (sha2Update (sha2Starts { ctx with ipad := padAfter 0x36 k n, opad := padAfter 0x5C k n }
        is224) (padAfter 0x36 k n)) := by
    intro k n hn h64
    apply Sized.update
    exact ⟨h.buffer, length_padAfter hn h64, length_padAfter hn h64⟩
  have hlen : (sha2 stack key sum is224).length = 32 := length_finish _ hsum
  have hle := (variant is224).size_le
  unfold sha2HmacStarts
  by_cases hlong : 64 < key.length
  · simp only [if_pos hlong]
    rw [variant_size, xorKey_fold (by omega) (by omega)]
    exact hpads _ _ (by omega) (by omega)
  · simp only [if_neg hlong]
    rw [xorKey_fold le_rfl (by omega)]
    exact hpads _ _ le_rfl (by omega)

/-- The arrays that a call is given have 32 bytes. -/
def Call.Arrays : Call → Prop
  | finish output => output.length = 32
  | hmacStarts _ sum _ _ => sum.length = 32
  | hmacFinish tmpbuf output => tmpbuf.length = 32 ∧ output.length = 32
  | _ => True

theorem Sized.step (h : Sized ctx) {call : Call} (harrays : call.Arrays) :
    Sized (call.run ctx).1 ∧ ∀ output ∈ (call.run ctx).2, output.length = 32 := by
  cases call with
  | starts is224 => exact ⟨h.starts is224, nofun⟩
  | update input => exact ⟨h.update input, nofun⟩
  | finish output =>
    refine ⟨h.finish output, ?_⟩
    intro o ho
    rw [List.mem_singleton.mp ho]
    exact length_finish ctx harrays
  | hmacStarts stack sum key is224 => exact ⟨h.hmacStarts stack harrays key is224, nofun⟩
  | hmacUpdate input => exact ⟨h.update input, nofun⟩
  | hmacFinish tmpbuf output =>
    refine ⟨(((h.finish tmpbuf).starts ctx.is224).update _).update _ |>.finish output, ?_⟩
    intro o ho
    rw [List.mem_singleton.mp ho]
    exact length_finish _ harrays.2
  | hmacReset => exact ⟨(h.starts ctx.is224).update _, nofun⟩

/-- Calls in any order, on a context in any state, with inputs and keys of any length. -/
theorem runCalls_sized (h : Sized ctx) {calls : List Call} (harrays : ∀ call ∈ calls, call.Arrays) :
    Sized (runCalls ctx calls).1 ∧ ∀ output ∈ (runCalls ctx calls).2, output.length = 32 := by
  induction calls generalizing ctx with
  | nil => exact ⟨h, nofun⟩
  | cons call calls ih =>
    obtain ⟨hfirst, houtputs⟩ := h.step (harrays call List.mem_cons_self)
    obtain ⟨hlast, hrest⟩ := ih hfirst fun call hcall ↦ harrays call (List.mem_cons_of_mem _ hcall)
    refine ⟨hlast, ?_⟩
    intro output houtput
    rcases List.mem_append.mp houtput with hmem | hmem
    · exact houtputs output hmem
    · exact hrest output hmem

theorem runCalls_sized_update :
    Sized (runCalls .zeroed [.update [1], .finish (List.replicate 32 0)]).1 ∧
      ∀ output ∈ (runCalls .zeroed [.update [1], .finish (List.replicate 32 0)]).2,
        output.length = 32 := by
  refine runCalls_sized zeroed_sized ?_
  intro call hcall
  simp only [List.mem_cons, List.not_mem_nil, or_false] at hcall
  rcases hcall with rfl | rfl
  · trivial
  · exact show _ = _ from List.length_replicate

end UstBench.Sha2
