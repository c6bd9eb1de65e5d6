import UstBench.Reasoning.Json
import UstBench.Runner.Printing
import Mathlib.Tactic.NormNum

/-!
# The output as its consumer reads it

`run_benchmark_tool` decodes the output of the runner as UTF-8 and reads it as JSON.  The document
the runner prints is the array of its children's reports, one object each.
-/

namespace UstBench

open Reasoning Reasoning.Prog Reasoning.Json

def utf8 (s : List Char) : List UInt8 := s.flatMap String.utf8EncodeChar

/-- The numeral `%lu.%09ld`, with the seconds converted to `unsigned long`. -/
def Timespec.numeral (ts : Timespec) : List Char :=
  Nat.toDigits 10 (ts.tvSec % 2 ^ 64).toNat ++ '.' :: Decimal.zeroPaddedInt 9 ts.tvNsec

/-- The bytes one `printf` writes. -/
def Printf.bytes : Printf → List UInt8
  | .text s => utf8 s
  | .entry sep name ts =>
    utf8 (sep :: "\n\t\"".toList) ++ (name ++ utf8 ("\": ".toList ++ ts.numeral))

def stdoutBytes (ps : List Printf) : List UInt8 := ps.flatMap Printf.bytes

/-- `json.loads(output.decode())` -/
def jsonLoads (output : List UInt8) : Option Json :=
  output.toByteArray.utf8Decode?.bind fun cs ↦ Json.parse cs.toList

/-- Printable ASCII, without the quote and the backslash. -/
def Printable (name : List UInt8) : Prop :=
  ∀ b ∈ name, 32 ≤ b.toNat ∧ b.toNat < 127 ∧ b ≠ 34 ∧ b ≠ 92

structure Timespec.Valid (ts : Timespec) : Prop where
  sec_nonneg : 0 ≤ ts.tvSec
  sec_lt : ts.tvSec < 2 ^ 63
  nsec_nonneg : 0 ≤ ts.tvNsec
  nsec_lt : ts.tvNsec < 10 ^ 9

/-- The member a report has for an event. -/
def jsonMember (e : List UInt8 × Timespec) : List Char × Json :=
  (e.1.map Char.ofUInt8, .num (e.2.tvSec + e.2.tvNsec / 10 ^ 9))

def jsonReport (r : Report) : Json := .obj (r.map jsonMember)

/-! ## Characters -/

theorem utf8EncodeChar_ofUInt8 {b : UInt8} (h : b.toNat < 127) :
    String.utf8EncodeChar (Char.ofUInt8 b) = [b] := by
  have hval : (Char.ofUInt8 b).val = b.toUInt32 := rfl
  have hsize : (Char.ofUInt8 b).utf8Size = 1 := by
    rw [Char.utf8Size_eq_one_iff, hval, UInt32.le_iff_toNat_le]
    simp
    omega
  rw [String.utf8EncodeChar_eq_singleton hsize, hval]
  simp

theorem utf8_ofUInt8 {name : List UInt8} (h : Printable name) :
    utf8 (name.map Char.ofUInt8) = name := by
  unfold utf8
  induction name with
  | nil => rfl
  | cons b name ih =>
    have hb := (h b List.mem_cons_self).2.1
    rw [List.map_cons, List.flatMap_cons, utf8EncodeChar_ofUInt8 hb,
      ih fun c hc ↦ h c (List.mem_cons_of_mem _ hc)]
    rfl

theorem plain_ofUInt8 {b : UInt8} (h : 32 ≤ b.toNat ∧ b.toNat < 127 ∧ b ≠ 34 ∧ b ≠ 92) :
    Plain (Char.ofUInt8 b) := by
  have hnat : (Char.ofUInt8 b).toNat = b.toNat := by
    change b.toUInt32.toNat = b.toNat
    simp
  refine ⟨?_, ?_, ?_⟩
  · intro he
    have hq : b.toNat = 34 := by rw [← hnat, he]; rfl
    exact h.2.2.1 (UInt8.toNat_inj.mp hq)
  · intro he
    have hq : b.toNat = 92 := by rw [← hnat, he]; rfl
    exact h.2.2.2 (UInt8.toNat_inj.mp hq)
  · rw [hnat]
    exact h.1

theorem utf8_append (s t : List Char) : utf8 (s ++ t) = utf8 s ++ utf8 t :=
  List.flatMap_append

/-- Decoding undoes encoding. -/
theorem jsonLoads_utf8 (s : List Char) : jsonLoads (utf8 s) = Json.parse s := by
  have hdec := List.utf8Decode?_utf8Encode (l := s)
  unfold jsonLoads utf8
  rw [List.utf8Encode] at hdec
  rw [hdec]
  simp

/-- The characters one `printf` writes, for names that are printable. -/
def Printf.chars : Printf → List Char
  | .text s => s
  | .entry sep name ts =>
    sep :: '\n' :: '\t' :: '"' :: (name.map Char.ofUInt8 ++ '"' :: ':' :: ' ' :: ts.numeral)

def Printf.Printable : Printf → Prop
  | .text _ => True
  | .entry _ name _ => UstBench.Printable name

theorem Printf.bytes_eq {p : Printf} (h : p.Printable) : p.bytes = utf8 p.chars := by
  cases p with
  | text s => rfl
  | entry sep name ts =>
    have hn := utf8_ofUInt8 h
    have hsplit : Printf.chars (.entry sep name ts) =
        (sep :: "\n\t\"".toList) ++ (name.map Char.ofUInt8 ++ ("\": ".toList ++ ts.numeral)) := rfl
    rw [hsplit, utf8_append, utf8_append, hn]
    rfl

theorem stdoutBytes_eq {ps : List Printf} (h : ∀ p ∈ ps, p.Printable) :
    stdoutBytes ps = utf8 (ps.flatMap Printf.chars) := by
  induction ps with
  | nil => rfl
  | cons p ps ih =>
    have hp := Printf.bytes_eq (h p List.mem_cons_self)
    have hps := ih fun q hq ↦ h q (List.mem_cons_of_mem _ hq)
    unfold stdoutBytes at hps ⊢
    rw [List.flatMap_cons, List.flatMap_cons, utf8_append, hp, hps]

/-! ## Numbers -/

theorem zeroPaddedInt_of_nonneg {width : ℕ} {z : ℤ} (h : 0 ≤ z) :
    Decimal.zeroPaddedInt width z = Decimal.zeroPadded width z.toNat := by
  cases z with
  | ofNat n => rfl
  | negSucc n => omega

/-- A time stamp is read back as the number of its seconds. -/
theorem parseNumber_numeral {ts : Timespec} (h : ts.Valid) {rest : List Char}
    (hr : ∀ c ∈ rest.head?, ¬c.isDigit ∧ c ≠ 'e' ∧ c ≠ 'E') :
    parseNumber (ts.numeral ++ rest) = some ((ts.tvSec : ℚ) + ts.tvNsec / 10 ^ 9, rest) := by
  have hsec := h.sec_nonneg
  have hsec' := h.sec_lt
  have hnsec := h.nsec_nonneg
  have hnsec' := h.nsec_lt
  have hmod : (ts.tvSec % 2 ^ 64).toNat = ts.tvSec.toNat := by omega
  have hlt : ts.tvNsec.toNat < 10 ^ 9 := by omega
  have hlead : (Nat.toDigits 10 ts.tvSec.toNat).length = 1 ∨
      (Nat.toDigits 10 ts.tvSec.toNat).head? ≠ some '0' := by
    by_cases h0 : ts.tvSec.toNat = 0
    · rw [h0]
      exact .inl rfl
    · exact .inr (Decimal.toDigits_head_ne_zero (by omega))
  have hnum := @parseNumber_decimal (Nat.toDigits 10 ts.tvSec.toNat) rest
    (Decimal.zeroPadded 9 ts.tvNsec.toNat) Nat.toDigits_ne_nil
    (fun c hc ↦ Decimal.isDigit_of_mem hc) hlead (Decimal.zeroPadded_ne_nil _ _)
    (fun c hc ↦ Decimal.isDigit_of_mem_zeroPadded hc) hr
  rw [Timespec.numeral, hmod, zeroPaddedInt_of_nonneg hnsec, List.append_assoc, List.cons_append,
    hnum, Nat.ofDigitChars_ten_toDigits, Decimal.ofDigitChars_zeroPadded,
    Decimal.length_zeroPadded (by decide) hlt]
  have hs : ((ts.tvSec.toNat : ℕ) : ℚ) = ts.tvSec := by
    exact_mod_cast congrArg (Int.cast (R := ℚ)) (Int.toNat_of_nonneg hsec)
  have hn : ((ts.tvNsec.toNat : ℕ) : ℚ) = ts.tvNsec := by
    exact_mod_cast congrArg (Int.cast (R := ℚ)) (Int.toNat_of_nonneg hnsec)
  rw [hs, hn]

/-! ## The document -/

/-- Names and time stamps a report can be read back with. -/
def Readable (r : Report) : Prop := ∀ e ∈ r, Printable e.1 ∧ e.2.Valid

/-- The characters of one line behind its opening quote. -/
def lineChars (e : List UInt8 × Timespec) : List Char :=
  e.1.map Char.ofUInt8 ++ '"' :: ':' :: ' ' :: e.2.numeral

def entriesChars (i : ℕ) (r : Report) : List Char := (reportEntries i r).flatMap Printf.chars

theorem entriesChars_cons (i : ℕ) (e : List UInt8 × Timespec) (es : Report) :
    entriesChars i (e :: es) =
      (if i = 0 then ' ' else ',') :: '\n' :: '\t' :: '"' ::
        (lineChars e ++ entriesChars (i + 1) es) :=
  rfl

theorem numeral_ne_nil {ts : Timespec} : ∃ d t, ts.numeral = d :: t ∧ d.isDigit := by
  cases hd : Nat.toDigits 10 (ts.tvSec % 2 ^ 64).toNat with
  | nil => exact absurd hd Nat.toDigits_ne_nil
  | cons d t =>
    refine ⟨d, t ++ '.' :: Decimal.zeroPaddedInt 9 ts.tvNsec, ?_, ?_⟩
    · rw [Timespec.numeral, hd]
      rfl
    · apply Decimal.isDigit_of_mem (n := (ts.tvSec % 2 ^ 64).toNat)
      rw [hd]
      exact List.mem_cons_self

theorem parseValue_numeral {ts : Timespec} (h : ts.Valid) {rest : List Char} (fuel : ℕ)
    (hr : ∀ c ∈ rest.head?, ¬c.isDigit ∧ c ≠ 'e' ∧ c ≠ 'E') :
    parseValue (fuel + 1) (ts.numeral ++ rest) =
      some (.num (ts.tvSec + ts.tvNsec / 10 ^ 9), rest) := by
  have hnum := parseNumber_numeral h hr
  rcases @numeral_ne_nil ts with ⟨d, t, hts, hd⟩
  rw [hts] at hnum ⊢
  exact parseValue_digit hd hnum

theorem skipWs_numeral (ts : Timespec) (rest : List Char) :
    skipWs (' ' :: (ts.numeral ++ rest)) = ts.numeral ++ rest := by
  rcases @numeral_ne_nil ts with ⟨d, t, hts, hd⟩
  have hws : ¬isWs d := by
    intro h
    simp only [isWs, Bool.or_eq_true, decide_eq_true_eq] at h
    rcases h with ((h | h) | h) | h <;> rw [h] at hd <;> exact absurd hd (by decide)
  rw [skipWs_cons_of_ws rfl, hts, List.cons_append, skipWs_cons_of_not_ws hws]

theorem parseChars_line {e : List UInt8 × Timespec} {fuel : ℕ} (tail : List Char)
    (h : Printable e.1) (hf : (lineChars e).length ≤ fuel) :
    parseChars fuel (lineChars e ++ tail) =
      some (e.1.map Char.ofUInt8, ':' :: ' ' :: (e.2.numeral ++ tail)) := by
  have hplain : ∀ c ∈ e.1.map Char.ofUInt8, Plain c := by
    intro c hc
    rcases List.mem_map.mp hc with ⟨b, hb, rfl⟩
    exact plain_ofUInt8 (h b hb)
  rw [lineChars, List.length_append, List.length_cons] at hf
  have hkey := parseChars_plain (':' :: ' ' :: (e.2.numeral ++ tail)) hplain
    (show (e.1.map Char.ofUInt8).length < fuel by omega)
  rw [lineChars, List.append_assoc]
  exact hkey

/-- The lines of a report, from the first quote to the closing brace, are its members. -/
theorem parseMembers_entries {e : List UInt8 × Timespec} {es : Report} {i fuel : ℕ}
    (rest : List Char) (h : Readable (e :: es))
    (hf : (lineChars e ++ entriesChars (i + 1) es).length < fuel) :
    parseMembers fuel ('"' :: (lineChars e ++ (entriesChars (i + 1) es ++ '\n' :: '}' :: rest))) =
      some ((e :: es).map jsonMember, rest) := by
  induction es generalizing e i fuel with
  | nil =>
    have he := h e List.mem_cons_self
    cases fuel with
    | zero => omega
    | succ fuel =>
      rw [List.length_append] at hf
      have hkey := parseChars_line ('\n' :: '}' :: rest) he.1
        (show (lineChars e).length ≤ fuel by omega)
      -- the line has a character, so there is fuel for its number too
      have hpos : 0 < (lineChars e).length := by simp [lineChars]
      have hval := @parseValue_numeral _ he.2 ('\n' :: '}' :: rest) (fuel - 1)
        (by intro c hc; cases hc; decide)
      rw [Nat.sub_add_cancel (by omega)] at hval
      exact parseMembers_last hkey rfl (by rw [skipWs_numeral]; exact hval) rfl
  | cons e' es ih =>
    have he := h e List.mem_cons_self
    cases fuel with
    | zero => omega
    | succ fuel =>
      rw [entriesChars_cons, if_neg (Nat.succ_ne_zero i)] at hf ⊢
      simp only [List.length_append, List.length_cons] at hf
      have hkey := parseChars_line (',' :: '\n' :: '\t' :: '"' :: (lineChars e' ++
        (entriesChars (i + 1 + 1) es ++ '\n' :: '}' :: rest))) he.1
        (show (lineChars e).length ≤ fuel by omega)
      have hval := @parseValue_numeral _ he.2 (',' :: '\n' :: '\t' :: '"' :: (lineChars e' ++
          (entriesChars (i + 1 + 1) es ++ '\n' :: '}' :: rest))) (fuel - 1)
        (by intro c hc; cases hc; decide)
      rw [Nat.sub_add_cancel (by omega)] at hval
      have hrec := @ih e' (i + 1) fuel (fun x hx ↦ h x (List.mem_cons_of_mem _ hx))
        (by rw [List.length_append]; omega)
      -- behind the comma there is white space, and then the quote of the next line
      have hnext : ∀ t, skipWs ('\n' :: '\t' :: '"' :: t) = '"' :: t := fun _ ↦ rfl
      have hall := parseMembers_cons hkey rfl (by rw [skipWs_numeral]; exact hval) rfl
        (hnext _) hrec
      simp only [List.cons_append, List.append_assoc]
      exact hall

/-- One report is one object. -/
theorem parseValue_report {r : Report} {fuel : ℕ} (rest : List Char) (h : Readable r)
    (hf : ((reportItems r).flatMap Printf.chars).length < fuel) :
    parseValue fuel ((reportItems r).flatMap Printf.chars ++ rest) =
      some (jsonReport r, '\n' :: rest) := by
  have hchars : (reportItems r).flatMap Printf.chars =
      '{' :: (entriesChars 0 r ++ ['\n', '}', '\n']) := by
    simp only [reportItems, List.cons_append, List.flatMap_cons, List.flatMap_append,
      List.flatMap_nil, List.append_nil]
    rfl
  rw [hchars] at hf ⊢
  cases fuel with
  | zero => omega
  | succ fuel =>
    cases r with
    | nil => exact parseValue_emptyObj rfl
    | cons e es =>
      rw [entriesChars_cons] at hf ⊢
      simp only [List.length_append, List.length_cons] at hf
      have hmem := @parseMembers_entries e es 0 fuel ('\n' :: rest) h
        (by rw [List.length_append]; omega)
      have hobj := @parseValue_obj fuel (' ' :: '\n' :: '\t' :: '"' :: (lineChars e ++
        (entriesChars 1 es ++ '\n' :: '}' :: '\n' :: rest))) _ _ _ rfl hmem
      simp only [if_true, List.cons_append, List.append_assoc, List.nil_append]
      exact hobj

theorem flatMap_joinReports_cons (r : Report) (rs : List Report) :
    (joinReports (r :: rs)).flatMap Printf.chars = (reportItems r).flatMap Printf.chars ++
      ((if rs = [] then [] else [',']) ++ (joinReports rs).flatMap Printf.chars) := by
  rw [joinReports, List.flatMap_append, List.flatMap_append, List.append_assoc]
  split <;> rfl

theorem head_joinReports (r : Report) (rs : List Report) :
    ∃ t, (joinReports (r :: rs)).flatMap Printf.chars = '{' :: t :=
  ⟨_, flatMap_joinReports_cons r rs⟩

/-- The reports with their commas are the elements of an array. -/
theorem parseElements_reports {r : Report} {rs : List Report} {fuel : ℕ} (rest : List Char)
    (h : ∀ x ∈ r :: rs, Readable x)
    (hf : ((joinReports (r :: rs)).flatMap Printf.chars).length + 1 < fuel) :
    parseElements fuel ((joinReports (r :: rs)).flatMap Printf.chars ++ ']' :: rest) =
      some ((r :: rs).map jsonReport, rest) := by
  induction rs generalizing r fuel with
  | nil =>
    cases fuel with
    | zero => omega
    | succ fuel =>
      rw [flatMap_joinReports_cons] at hf ⊢
      simp only [List.length_append] at hf
      have hr := @parseValue_report r fuel (']' :: rest) (h r List.mem_cons_self) (by omega)
      have hlast := parseElements_last hr rfl
      simpa [joinReports] using hlast
  | cons r' rs ih =>
    cases fuel with
    | zero => omega
    | succ fuel =>
      rw [flatMap_joinReports_cons, if_neg (by simp)] at hf ⊢
      simp only [List.length_append, List.length_singleton] at hf
      have hr := @parseValue_report r fuel
        (',' :: ((joinReports (r' :: rs)).flatMap Printf.chars ++ ']' :: rest))
        (h r List.mem_cons_self) (by omega)
      have hrec := @ih r' fuel (fun x hx ↦ h x (List.mem_cons_of_mem _ hx)) (by omega)
      -- the next report begins right behind the comma
      rcases head_joinReports r' rs with ⟨t, ht⟩
      have hws : skipWs ((joinReports (r' :: rs)).flatMap Printf.chars ++ ']' :: rest) =
          (joinReports (r' :: rs)).flatMap Printf.chars ++ ']' :: rest := by
        rw [ht]
        rfl
      have hall := parseElements_cons hr rfl hws hrec
      simpa only [List.append_assoc, List.cons_append, List.nil_append, List.map_cons] using hall

theorem printable_reportEntries {r : Report} (h : Readable r) (i : ℕ) :
    ∀ p ∈ reportEntries i r, p.Printable := by
  induction r generalizing i with
  | nil => simp [reportEntries]
  | cons e es ih =>
    intro p hp
    rcases List.mem_cons.mp hp with rfl | hp
    · exact (h e List.mem_cons_self).1
    · exact ih (fun x hx ↦ h x (List.mem_cons_of_mem _ hx)) (i + 1) p hp

theorem printable_document {rs : List Report} (h : ∀ r ∈ rs, Readable r) :
    ∀ p ∈ document rs, p.Printable := by
  have hjoin : ∀ p ∈ joinReports rs, p.Printable := by
    induction rs with
    | nil => simp [joinReports]
    | cons r rs ih =>
      intro p hp
      simp only [joinReports, reportItems, List.mem_append, List.mem_cons, List.not_mem_nil,
        or_false] at hp
      rcases hp with (((rfl | hp) | rfl) | hp) | hp
      · trivial
      · exact printable_reportEntries (h r List.mem_cons_self) 0 p hp
      · trivial
      · split at hp
        · simp at hp
        · rw [List.mem_singleton.mp hp]
          trivial
      · exact ih (fun x hx ↦ h x (List.mem_cons_of_mem _ hx)) p hp
  intro p hp
  simp only [document, List.mem_append, List.mem_cons, List.not_mem_nil, or_false] at hp
  rcases hp with (rfl | hp) | rfl
  · trivial
  · exact hjoin p hp
  · trivial

/-- The document is the array of the reports. -/
theorem jsonLoads_document {rs : List Report} (h : ∀ r ∈ rs, Readable r) :
    jsonLoads (stdoutBytes (document rs)) = some (.arr (rs.map jsonReport)) := by
  have hchars : (document rs).flatMap Printf.chars =
      '[' :: '\n' :: ((joinReports rs).flatMap Printf.chars ++ [']', '\n']) := by
    rw [document, List.flatMap_append, List.flatMap_cons]
    rfl
  rw [stdoutBytes_eq (printable_document h), jsonLoads_utf8, hchars, Json.parse,
    skipWs_cons_of_not_ws (by decide)]
  cases rs with
  | nil => rfl
  | cons r rs =>
    have helems := @parseElements_reports r rs
      (2 * ('[' :: '\n' :: ((joinReports (r :: rs)).flatMap Printf.chars ++ [']', '\n'])).length + 1)
      ['\n'] h (by simp only [List.length_cons, List.length_append]; omega)
    rcases head_joinReports r rs with ⟨t, ht⟩
    rw [ht] at helems ⊢
    have hval : parseValue (2 * ('[' :: '\n' :: ('{' :: t ++ [']', '\n'])).length + 2)
        ('[' :: '\n' :: ('{' :: t ++ [']', '\n'])) = some (.arr ((r :: rs).map jsonReport), ['\n']) :=
      parseValue_arr rfl helems
    rw [hval]
    rfl

/-! ## A run that ends well -/

/-- The events a process has left. -/
def Kernel.events (k : Kernel) (pid : ℤ) : List SharedEvent :=
  ((k.segment (shmName maxShmNameLen pid)).map SharedEvents.log).getD []

/-- An event with a printable name and a time stamp in range. -/
structure SharedEvent.Readable (e : SharedEvent) : Prop where
  terminated : e.Terminated
  name : Printable e.nameBytes
  ts : e.ts.Valid

theorem Kernel.report_of_events {k : Kernel} {pid : ℤ} (hf : k.Fits pid)
    (h : ∀ e ∈ k.events pid, e.Readable) :
    k.report pid = (k.events pid).map fun e ↦ (e.nameBytes, e.ts) := by
  unfold Kernel.report Kernel.events at *
  cases hs : k.segment (shmName maxShmNameLen pid) with
  | none => rfl
  | some s =>
    rw [hs] at h
    exact SharedEvents.report_of_terminated (hf s hs) fun e he ↦ (h e he).terminated

/-- If `main` ends well, every child exited with status 0, and the output is read as the array of
the children's events, whatever else failed on the way. -/
theorem main_output_decodes {children : List (ℤ × WaitResult × PrintSys)} {w w' : World}
    (hc : w.proc.ctx = none) (hout : w.proc.stdout = [])
    (hevents : ∀ x ∈ children, ∀ e ∈ w.kernel.events x.1, e.Readable)
    (hmain : run (main children) w = (.ok 0, w')) :
    (∀ x ∈ children, ∃ code, x.2.1 = .status (.exited code) ∧ code % 256 = 0) ∧
      jsonLoads (stdoutBytes w'.proc.stdout) =
        some (.arr (children.map fun x ↦ .obj ((w.kernel.events x.1).map fun e ↦
          (e.nameBytes.map Char.ofUInt8, .num (e.ts.tvSec + e.ts.tvNsec / 10 ^ 9))))) := by
  obtain ⟨hexit, hfits, hstdout⟩ := main_ok hc hmain
  refine ⟨hexit, ?_⟩
  have hreport : ∀ x ∈ children, w.kernel.report x.1 =
      (w.kernel.events x.1).map fun e ↦ (e.nameBytes, e.ts) :=
    fun x hx ↦ Kernel.report_of_events (hfits x hx) (hevents x hx)
  have hread : ∀ r ∈ children.map fun x ↦ w.kernel.report x.1, Readable r := by
    intro r hr e he
    rcases List.mem_map.mp hr with ⟨x, hx, rfl⟩
    rw [hreport x hx] at he
    rcases List.mem_map.mp he with ⟨e', he', rfl⟩
    exact ⟨(hevents x hx e' he').name, (hevents x hx e' he').ts⟩
  rw [hstdout, hout, List.nil_append, jsonLoads_document hread, List.map_map]
  congr 2
  apply List.map_congr_left
  intro x hx
  rw [Function.comp_apply, hreport x hx, jsonReport, List.map_map]
  rfl

theorem main_output_decodes_two :
    ∃ w', run (main [(1, .status (.exited 0), succeedingPrint),
        (2, .status (.exited 0), succeedingPrint)]) ⟨staleKernel, .start 3⟩ = (.ok 0, w') ∧
      jsonLoads (stdoutBytes w'.proc.stdout) =
        some (.arr [.obj ((staleKernel.events 1).map fun e ↦
          (e.nameBytes.map Char.ofUInt8, .num (e.ts.tvSec + e.ts.tvNsec / 10 ^ 9))), .obj []]) := by
  have hrun : ∃ w', run (main [(1, .status (.exited 0), succeedingPrint),
      (2, .status (.exited 0), succeedingPrint)]) ⟨staleKernel, .start 3⟩ = (.ok 0, w') := ⟨_, rfl⟩
  rcases hrun with ⟨w', hw⟩
  refine ⟨w', hw, (main_output_decodes rfl rfl ?_ hw).2⟩
  intro x hx e he
  simp only [List.mem_cons, List.not_mem_nil, or_false] at hx
  rcases hx with rfl | rfl
  · have hone : staleKernel.events 1 = [⟨⟨7, 0⟩, strncpy ⟨[109, 97, 105, 110], by decide⟩⟩] := rfl
    rw [hone, List.mem_singleton] at he
    rw [he]
    refine ⟨terminated_strncpy (by decide) _, ?_, ⟨by decide, by decide, by decide, by decide⟩⟩
    rw [nameBytes_strncpy (by decide)]
    simp [Printable]
  · cases he

end UstBench
