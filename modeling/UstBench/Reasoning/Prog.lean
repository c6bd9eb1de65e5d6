import Mathlib.Logic.Basic
import Mathlib.Tactic.Common

/-!
# Commands with a state and an early stop

`Prog σ ε α` reads and writes a state `σ` and either returns an `α` or stops with an `ε`.  The state
reached is kept in both cases, which is what a language with exceptions, or a process that dies in
the middle of a call, needs.  `Triple P m Q E` is partial in nothing: every run of `m` from a `P`
state either returns into `Q` or stops into `E`.
-/

namespace Reasoning

/-- A command over the state `σ`.  The state is kept when the command stops. -/
def Prog (σ ε α : Type) : Type := σ → Except ε α × σ

namespace Prog

variable {σ τ ε α β : Type}

def run (m : Prog σ ε α) (s : σ) : Except ε α × σ := m s

instance : Monad (Prog σ ε) where
  pure a := fun s ↦ (.ok a, s)
  bind m f := fun s ↦
    match m s with
    | (.ok a, s') => f a s'
    | (.error e, s') => (.error e, s')

def get : Prog σ ε σ := fun s ↦ (.ok s, s)

def modify (f : σ → σ) : Prog σ ε Unit := fun s ↦ (.ok (), f s)

/-- A step that never stops: a value and a new state from the old one. -/
def state (f : σ → α × σ) : Prog σ ε α := fun s ↦ (.ok (f s).1, (f s).2)

def throw (e : ε) : Prog σ ε α := fun s ↦ (.error e, s)

def ofExcept (r : Except ε α) : Prog σ ε α := fun s ↦ (r, s)

/-- `m` under a condition, without a value. -/
def when (p : Prop) [Decidable p] (m : Prog σ ε Unit) : Prog σ ε Unit := if p then m else pure ()

def tryCatch (m : Prog σ ε α) (handler : ε → Prog σ ε α) : Prog σ ε α := fun s ↦
  match m s with
  | (.ok a, s') => (.ok a, s')
  | (.error e, s') => handler e s'

/-- `m`, then `fin` on either exit.  A stop of `fin` replaces the outcome of `m`. -/
def tryFinally (m : Prog σ ε α) (fin : Prog σ ε Unit) : Prog σ ε α := fun s ↦
  match m s with
  | (r, s') =>
    match fin s' with
    | (.ok (), s'') => (r, s'')
    | (.error e, s'') => (.error e, s'')

/-- Runs a command on one component of a larger state. -/
def zoom (read : τ → σ) (write : σ → τ → τ) (m : Prog σ ε α) : Prog τ ε α := fun t ↦
  match m (read t) with
  | (r, s) => (r, write s t)

def forEach (body : β → Prog σ ε Unit) : List β → Prog σ ε Unit
  | [] => pure ()
  | x :: xs => do
    body x
    forEach body xs

/-! ## Equations of `run` -/

@[simp] theorem run_pure (a : α) (s : σ) : run (pure a : Prog σ ε α) s = (.ok a, s) := rfl

theorem run_bind (m : Prog σ ε α) (f : α → Prog σ ε β) (s : σ) :
    run (m >>= f) s =
      match run m s with
      | (.ok a, s') => run (f a) s'
      | (.error e, s') => (.error e, s') := rfl

@[simp] theorem run_get (s : σ) : run (get : Prog σ ε σ) s = (.ok s, s) := rfl

@[simp] theorem run_modify (f : σ → σ) (s : σ) :
    run (modify f : Prog σ ε Unit) s = (.ok (), f s) := rfl

@[simp] theorem run_state (f : σ → α × σ) (s : σ) :
    run (state f : Prog σ ε α) s = (.ok (f s).1, (f s).2) := rfl

@[simp] theorem run_throw (e : ε) (s : σ) : run (throw e : Prog σ ε α) s = (.error e, s) := rfl

theorem run_tryCatch (m : Prog σ ε α) (handler : ε → Prog σ ε α) (s : σ) :
    run (tryCatch m handler) s =
      match run m s with
      | (.ok a, s') => (.ok a, s')
      | (.error e, s') => run (handler e) s' := rfl

/-- A handler that leaves the state alone does not show in it. -/
theorem run_tryCatch_state {m : Prog σ ε α} {handler : ε → Prog σ ε α}
    (h : ∀ e s, (run (handler e) s).2 = s) (s : σ) :
    (run (tryCatch m handler) s).2 = (run m s).2 := by
  rw [run_tryCatch]
  rcases run m s with ⟨e | a, s'⟩
  · exact h e s'
  · rfl

theorem run_tryFinally (m : Prog σ ε α) (fin : Prog σ ε Unit) (s : σ) :
    run (tryFinally m fin) s =
      match run m s with
      | (r, s') =>
        match run fin s' with
        | (.ok (), s'') => (r, s'')
        | (.error e, s'') => (.error e, s'') := rfl

/-- The state at the end is the one the `finally` clause leaves. -/
theorem run_tryFinally_state (m : Prog σ ε α) (fin : Prog σ ε Unit) (s : σ) :
    (run (tryFinally m fin) s).2 = (run fin (run m s).2).2 := by
  rw [run_tryFinally]
  rcases run m s with ⟨r, s'⟩
  dsimp only
  rcases run fin s' with ⟨e | u, s''⟩
  · rfl
  · rfl

theorem run_zoom (read : τ → σ) (write : σ → τ → τ) (m : Prog σ ε α) (t : τ) :
    run (zoom read write m) t = ((run m (read t)).1, write (run m (read t)).2 t) := rfl

@[simp] theorem forEach_nil (body : β → Prog σ ε Unit) : forEach body [] = pure () := rfl

@[simp] theorem forEach_cons (body : β → Prog σ ε Unit) (x : β) (xs : List β) :
    forEach body (x :: xs) = (do body x; forEach body xs) := rfl

theorem run_bind_ok {m : Prog σ ε α} {f : α → Prog σ ε β} {s s' : σ} {a : α}
    (h : run m s = (.ok a, s')) : run (m >>= f) s = run (f a) s' := by
  rw [run_bind, h]

theorem run_bind_error {m : Prog σ ε α} {f : α → Prog σ ε β} {s s' : σ} {e : ε}
    (h : run m s = (.error e, s')) : run (m >>= f) s = (.error e, s') := by
  rw [run_bind, h]

/-- Two sequences run alike if their first halves do, and the second ones from where these return. -/
theorem run_bind_congr {m m' : Prog σ ε α} {f f' : α → Prog σ ε β} {s : σ}
    (hm : run m s = run m' s)
    (hf : ∀ a s', run m s = (.ok a, s') → run (f a) s' = run (f' a) s') :
    run (m >>= f) s = run (m' >>= f') s := by
  rcases hr : run m s with ⟨e | a, s'⟩
  · rw [run_bind_error hr, run_bind_error (hm.symm.trans hr)]
  · rw [run_bind_ok hr, run_bind_ok (hm.symm.trans hr)]
    exact hf a s' hr

/-- A sequence that returned has returned from both of its halves. -/
theorem run_bind_eq_ok {m : Prog σ ε α} {f : α → Prog σ ε β} {s t : σ} {b : β}
    (h : run (m >>= f) s = (.ok b, t)) :
    ∃ a s', run m s = (.ok a, s') ∧ run (f a) s' = (.ok b, t) := by
  rw [run_bind] at h
  rcases hm : run m s with ⟨e | a, s'⟩
  · rw [hm] at h
    simp at h
  · rw [hm] at h
    exact ⟨a, s', rfl, h⟩

/-! ## Triples -/

/-- From `P`, the command returns into `Q` or stops into `E`. -/
structure Triple (P : σ → Prop) (m : Prog σ ε α) (Q : α → σ → Prop) (E : ε → σ → Prop) :
    Prop where
  holds : ∀ s, P s →
    match run m s with
    | (.ok a, s') => Q a s'
    | (.error e, s') => E e s'

variable {P P' I : σ → Prop} {Q Q' : α → σ → Prop} {E E' : ε → σ → Prop} {m : Prog σ ε α}

theorem Triple.of_ok (h : Triple P m Q E) {s s' : σ} {a : α} (hs : P s)
    (hr : run m s = (.ok a, s')) : Q a s' := by
  have hm := h.holds s hs
  rwa [hr] at hm

theorem Triple.of_error (h : Triple P m Q E) {s s' : σ} {e : ε} (hs : P s)
    (hr : run m s = (.error e, s')) : E e s' := by
  have hm := h.holds s hs
  rwa [hr] at hm

/-- What both exits have in common holds at the end of every run. -/
theorem Triple.at_end (h : Triple P m (fun _ ↦ I) fun _ ↦ I) {s : σ} (hs : P s) :
    I (run m s).2 := by
  have hm := h.holds s hs
  rcases hr : run m s with ⟨e | a, s'⟩
  · rw [hr] at hm
    exact hm
  · rw [hr] at hm
    exact hm

theorem triple_false : Triple (fun _ ↦ False) m Q E := ⟨fun _ hs ↦ hs.elim⟩

/-- A triple may be proved for one start at a time. -/
theorem triple_each (h : ∀ s, P s → Triple (· = s) m Q E) : Triple P m Q E :=
  ⟨fun s hs ↦ (h s hs).holds s rfl⟩

theorem triple_exists {ι : Type} {P : ι → σ → Prop} (h : ∀ i, Triple (P i) m Q E) :
    Triple (fun s ↦ ∃ i, P i s) m Q E :=
  ⟨fun s hs ↦ hs.elim fun i hi ↦ (h i).holds s hi⟩

theorem triple_pure (a : α) (h : ∀ s, P s → Q a s) : Triple P (pure a) Q E :=
  ⟨fun s hs ↦ h s hs⟩

theorem triple_keep (a : α) : Triple P (pure a) (fun _ ↦ P) E := triple_pure a fun _ hs ↦ hs

theorem triple_throw (e : ε) (h : ∀ s, P s → E e s) : Triple P (throw e) Q E :=
  ⟨fun s hs ↦ h s hs⟩

theorem triple_get {Q : σ → σ → Prop} (h : ∀ s, P s → Q s s) : Triple P get Q E :=
  ⟨fun s hs ↦ h s hs⟩

theorem triple_modify {f : σ → σ} {Q : Unit → σ → Prop} (h : ∀ s, P s → Q () (f s)) :
    Triple P (modify f) Q E :=
  ⟨fun s hs ↦ h s hs⟩

theorem triple_bind {R : β → σ → Prop} {f : α → Prog σ ε β} (hm : Triple P m Q E)
    (hf : ∀ a, Triple (Q a) (f a) R E) : Triple P (m >>= f) R E := by
  constructor
  intro s hs
  rcases hr : run m s with ⟨e | a, s'⟩
  · rw [run_bind_error hr]
    exact hm.of_error hs hr
  · rw [run_bind_ok hr]
    exact (hf a).holds s' (hm.of_ok hs hr)

theorem Triple.conseq (h : Triple P m Q E) (hp : ∀ s, P' s → P s)
    (hq : ∀ a s, Q a s → Q' a s) (he : ∀ e s, E e s → E' e s) : Triple P' m Q' E' := by
  constructor
  intro s hs
  have hm := h.holds s (hp s hs)
  rcases hr : run m s with ⟨e | a, s'⟩
  · rw [hr] at hm
    exact he e s' hm
  · rw [hr] at hm
    exact hq a s' hm

/-- Two triples about one command. -/
theorem Triple.both (h : Triple P m Q E) (h' : Triple P' m Q' E') :
    Triple (fun s ↦ P s ∧ P' s) m (fun a s ↦ Q a s ∧ Q' a s) fun e s ↦ E e s ∧ E' e s := by
  constructor
  intro s hs
  have hm := h.holds s hs.1
  have hm' := h'.holds s hs.2
  rcases hr : run m s with ⟨e | a, s'⟩
  · rw [hr] at hm hm'
    exact ⟨hm, hm'⟩
  · rw [hr] at hm hm'
    exact ⟨hm, hm'⟩

theorem triple_tryCatch {handler : ε → Prog σ ε α} (hm : Triple P m Q E)
    (hh : ∀ e, Triple (E e) (handler e) Q E') : Triple P (tryCatch m handler) Q E' := by
  constructor
  intro s hs
  rw [run_tryCatch]
  rcases hr : run m s with ⟨e | a, s'⟩
  · exact (hh e).holds s' (hm.of_error hs hr)
  · exact hm.of_ok hs hr

/-- A pure fact of the precondition may be assumed. -/
theorem triple_assume {p : Prop} (h : p → Triple P m Q E) : Triple (fun s ↦ P s ∧ p) m Q E :=
  ⟨fun s hs ↦ (h hs.2).holds s hs.1⟩

/-- Behind a command whose value is made of two things that it has come upon. -/
theorem triple_bind_found {ι κ : Type} {R : β → σ → Prop} {F : ι → κ → σ → Prop}
    {p : ι → κ → Prop} {g : ι → κ → α} {f : α → Prog σ ε β}
    (hm : Triple P m (fun a s ↦ ∃ i j, (F i j s ∧ p i j) ∧ a = g i j) E)
    (hf : ∀ i j, p i j → Triple (F i j) (f (g i j)) R E) : Triple P (m >>= f) R E := by
  apply triple_bind hm
  intro a
  apply triple_exists
  intro i
  apply triple_exists
  intro j
  apply triple_assume
  rintro rfl
  apply triple_assume
  exact hf i j

theorem triple_when {p : Prop} [Decidable p] {m : Prog σ ε Unit} {Q : Unit → σ → Prop}
    (h : p → Triple P m Q E) (hn : ¬p → ∀ s, P s → Q () s) : Triple P (when p m) Q E := by
  unfold when
  by_cases hp : p
  · rw [if_pos hp]
    exact h hp
  · rw [if_neg hp]
    exact triple_pure () (hn hp)

theorem triple_whenever {p : Prop} [Decidable p] {m : Prog σ ε Unit}
    (h : Triple P m (fun _ ↦ P) E) : Triple P (when p m) (fun _ ↦ P) E :=
  triple_when (fun _ ↦ h) fun _ _ hs ↦ hs

theorem triple_ofExcept {r : Except ε α} (hq : ∀ a s, P s → Q a s) (he : ∀ e s, P s → E e s) :
    Triple P (ofExcept r) Q E := by
  constructor
  intro s hs
  cases r with
  | error e => exact he e s hs
  | ok a => exact hq a s hs

/-- Where the value is returned, it is known what it comes from. -/
theorem triple_ofExcept_eq {r : Except ε α} (hq : ∀ a, r = .ok a → ∀ s, P s → Q a s)
    (he : ∀ e s, P s → E e s) : Triple P (ofExcept r) Q E := by
  constructor
  intro s hs
  cases r with
  | error e => exact he e s hs
  | ok a => exact hq a rfl s hs

theorem triple_zoom {read : τ → σ} {write : σ → τ → τ} {R : τ → Prop} {Q : α → τ → Prop}
    {E : ε → τ → Prop}
    (h : ∀ t, R t → Triple (fun s ↦ s = read t) m (fun a s ↦ Q a (write s t))
      fun e s ↦ E e (write s t)) : Triple R (zoom read write m) Q E := by
  constructor
  intro t ht
  have hm := (h t ht).holds (read t) rfl
  rw [run_zoom]
  rcases hr : run m (read t) with ⟨e | a, s⟩
  · rw [hr] at hm
    exact hm
  · rw [hr] at hm
    exact hm

/-- What the `finally` clause ends with on both exits holds behind the whole statement. -/
theorem triple_tryFinally {fin : Prog σ ε Unit} {R : σ → Prop}
    (hm : Triple P m (fun _ ↦ I) fun _ ↦ I) (hf : Triple I fin (fun _ ↦ R) fun _ ↦ R) :
    Triple P (tryFinally m fin) (fun _ ↦ R) fun _ ↦ R := by
  constructor
  intro s hs
  have hend : R (run (tryFinally m fin) s).2 := by
    rw [run_tryFinally_state]
    exact hf.at_end (hm.at_end hs)
  rcases hr : run (tryFinally m fin) s with ⟨e | a, s'⟩
  · rw [hr] at hend
    exact hend
  · rw [hr] at hend
    exact hend

/-- The loop rule: what every turn keeps, on both of its exits, the loop keeps. -/
theorem triple_forEach {body : β → Prog σ ε Unit} {xs : List β}
    (h : ∀ x ∈ xs, Triple I (body x) (fun _ ↦ I) E) :
    Triple I (forEach body xs) (fun _ ↦ I) E := by
  induction xs with
  | nil => exact triple_pure () fun _ hs ↦ hs
  | cons x xs ih =>
    rw [forEach_cons]
    exact triple_bind (h x (by simp)) fun _ ↦ ih fun y hy ↦ h y (by simp [hy])

/-- The loop rule for an assertion about the elements done so far. -/
theorem triple_forEach_done {I : List β → σ → Prop} {body : β → Prog σ ε Unit}
    (h : ∀ done x, Triple (I done) (body x) (fun _ ↦ I (done ++ [x])) E) (done xs : List β) :
    Triple (I done) (forEach body xs) (fun _ ↦ I (done ++ xs)) E := by
  induction xs generalizing done with
  | nil =>
    rw [List.append_nil]
    exact triple_pure () fun _ hs ↦ hs
  | cons x xs ih =>
    rw [forEach_cons, List.append_cons]
    exact triple_bind (h done x) fun _ ↦ ih (done ++ [x])

theorem run_forEach_concat {body : β → Prog σ ε Unit} {xs : List β} {x : β} {s t u : σ}
    (h : run (forEach body xs) s = (.ok (), t)) (hx : run (body x) t = (.ok (), u)) :
    run (forEach body (xs ++ [x])) s = (.ok (), u) := by
  induction xs generalizing s with
  | nil =>
    cases h
    rw [List.nil_append, forEach_cons, run_bind_ok hx]
    rfl
  | cons y ys ih =>
    obtain ⟨v, s', hy, hys⟩ := run_bind_eq_ok h
    rw [List.cons_append, forEach_cons, run_bind_ok hy]
    exact ih hys

/-- Behind a turn the state is the one the turns so far end in. -/
theorem Triple.forEach_concat {body : β → Prog σ ε Unit} {x : β} {Q : Unit → σ → Prop}
    (h : Triple P (body x) Q E) (xs : List β) (s₀ : σ) :
    Triple (fun s ↦ P s ∧ run (forEach body xs) s₀ = (.ok (), s)) (body x)
      (fun u s ↦ Q u s ∧ run (forEach body (xs ++ [x])) s₀ = (.ok (), s)) E := by
  constructor
  rintro s ⟨hs, hrun⟩
  have hbody := h.holds s hs
  rcases hx : run (body x) s with ⟨e | u, s'⟩
  · rw [hx] at hbody
    exact hbody
  · rw [hx] at hbody
    exact ⟨hbody, run_forEach_concat hrun hx⟩

/-! ## What a command keeps -/

/-- An invariant kept on both exits. -/
def Keeps (I : σ → Prop) (m : Prog σ ε α) : Prop := Triple I m (fun _ ↦ I) fun _ ↦ I

theorem keeps_true (m : Prog σ ε α) : Keeps (fun _ ↦ True) m := by
  constructor
  intro s _
  split
  · trivial
  · trivial

theorem keeps_pure (a : α) : Keeps I (pure a : Prog σ ε α) := triple_keep a

theorem keeps_throw (e : ε) : Keeps I (throw e : Prog σ ε α) := triple_throw e fun _ hs ↦ hs

theorem keeps_ofExcept (r : Except ε α) : Keeps I (ofExcept r : Prog σ ε α) :=
  triple_ofExcept (fun _ _ hs ↦ hs) fun _ _ hs ↦ hs

theorem keeps_when {p : Prop} [Decidable p] {m : Prog σ ε Unit} (h : Keeps I m) :
    Keeps I (when p m) :=
  triple_whenever h

theorem keeps_bind {f : α → Prog σ ε β} (hm : Keeps I m) (hf : ∀ a, Keeps I (f a)) :
    Keeps I (m >>= f) :=
  triple_bind hm hf

theorem keeps_tryCatch {handler : ε → Prog σ ε α} (hm : Keeps I m)
    (hh : ∀ e, Keeps I (handler e)) : Keeps I (tryCatch m handler) :=
  triple_tryCatch hm hh

theorem keeps_forEach {body : β → Prog σ ε Unit} {xs : List β} (h : ∀ x ∈ xs, Keeps I (body x)) :
    Keeps I (forEach body xs) :=
  triple_forEach h

/-! ## Values alone -/

/-- Whatever the state, what the command returns has the property. -/
def Returns (m : Prog σ ε α) (Q : α → Prop) : Prop :=
  Triple (fun _ ↦ True) m (fun a _ ↦ Q a) fun _ _ ↦ True

section Returns

variable {Q : α → Prop} {R : β → Prop} {m : Prog σ ε α}

theorem returns_any (m : Prog σ ε α) : Returns m fun _ ↦ True := keeps_true m

theorem returns_pure {a : α} (h : Q a) : Returns (pure a : Prog σ ε α) Q :=
  triple_pure a fun _ _ ↦ h

theorem returns_ofExcept {r : Except ε α} (h : ∀ a, r = .ok a → Q a) :
    Returns (ofExcept r : Prog σ ε α) Q := by
  constructor
  intro s _
  cases r with
  | error e => exact trivial
  | ok a => exact h a rfl

theorem returns_bind {f : α → Prog σ ε β} (hm : Returns m Q) (hf : ∀ a, Q a → Returns (f a) R) :
    Returns (m >>= f) R := by
  apply triple_bind hm
  intro a
  exact ⟨fun s ha ↦ (hf a ha).holds s trivial⟩

theorem returns_tryCatch {handler : ε → Prog σ ε α} (hm : Returns m Q)
    (hh : ∀ e, Returns (handler e) Q) : Returns (tryCatch m handler) Q :=
  triple_tryCatch hm hh

end Returns

end Prog

end Reasoning
