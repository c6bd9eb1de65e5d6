import UstBench.Reasoning.Prog

/-!
# Commands with a record of what they do

`Traced σ τ ε α` is a command of `Prog` that also says which actions it took, the first one first.
Forgetting the record (`erase`) is a map of monads, so a function with a record is the function
without it as soon as the two are written alike.
-/

namespace Reasoning

open Prog

/-- A command with the actions it takes. -/
def Traced (σ τ ε α : Type) : Type := σ → (Except ε α × σ) × List τ

namespace Traced

variable {σ τ ε α β : Type}

def erase (m : Traced σ τ ε α) : Prog σ ε α := fun s ↦ (m s).1

def acts (m : Traced σ τ ε α) (s : σ) : List τ := (m s).2

-- a command that stops takes no further action
def bind (m : Traced σ τ ε α) (f : α → Traced σ τ ε β) : Traced σ τ ε β := fun s ↦
  match m s with
  | ((.ok a, s'), as) => ((f a s').1, as ++ (f a s').2)
  | ((.error e, s'), as) => ((.error e, s'), as)

instance : Monad (Traced σ τ ε) where
  pure a := fun s ↦ ((.ok a, s), [])
  bind := bind

/-- A command none of whose actions counts. -/
def quiet (m : Prog σ ε α) : Traced σ τ ε α := fun s ↦ (run m s, [])

/-- A command that is one action, as the state before it shows it. -/
def action (f : σ → τ) (m : Prog σ ε α) : Traced σ τ ε α := fun s ↦ (run m s, [f s])

/-! ## Forgetting the record -/

@[simp] theorem erase_pure (a : α) : erase (pure a : Traced σ τ ε α) = pure a := rfl

@[simp] theorem erase_quiet (m : Prog σ ε α) : erase (quiet m : Traced σ τ ε α) = m := rfl

@[simp] theorem erase_action (f : σ → τ) (m : Prog σ ε α) : erase (action f m) = m := rfl

@[simp] theorem erase_bind (m : Traced σ τ ε α) (f : α → Traced σ τ ε β) :
    erase (m >>= f) = erase m >>= fun a ↦ erase (f a) := by
  funext s
  change (bind m f s).1 = run (erase m >>= fun a ↦ erase (f a)) s
  rw [run_bind, show run (erase m) s = (m s).1 from rfl, bind]
  rcases m s with ⟨⟨e | a, s'⟩, as⟩
  · rfl
  · rfl

@[simp] theorem erase_ite {p : Prop} [Decidable p] (m m' : Traced σ τ ε α) :
    erase (if p then m else m') = if p then erase m else erase m' := by
  split
  · rfl
  · rfl

@[simp] theorem erase_dite {p : Prop} [Decidable p] (m : p → Traced σ τ ε α)
    (m' : ¬p → Traced σ τ ε α) :
    erase (dite p m m') = dite p (fun h ↦ erase (m h)) fun h ↦ erase (m' h) := by
  split
  · rfl
  · rfl

/-! ## The record -/

@[simp] theorem acts_pure (a : α) (s : σ) : acts (pure a : Traced σ τ ε α) s = [] := rfl

@[simp] theorem acts_quiet (m : Prog σ ε α) (s : σ) : acts (quiet m : Traced σ τ ε α) s = [] := rfl

@[simp] theorem acts_action (f : σ → τ) (m : Prog σ ε α) (s : σ) : acts (action f m) s = [f s] := rfl

theorem acts_bind_ok {m : Traced σ τ ε α} (f : α → Traced σ τ ε β) {s s' : σ} {a : α}
    (h : run (erase m) s = (.ok a, s')) : acts (m >>= f) s = acts m s ++ acts (f a) s' := by
  have hm : m s = ((.ok a, s'), (m s).2) := Prod.ext h rfl
  change (bind m f s).2 = (m s).2 ++ _
  rw [bind, hm]
  rfl

theorem acts_bind_error {m : Traced σ τ ε α} (f : α → Traced σ τ ε β) {s s' : σ} {e : ε}
    (h : run (erase m) s = (.error e, s')) : acts (m >>= f) s = acts m s := by
  have hm : m s = ((.error e, s'), (m s).2) := Prod.ext h rfl
  change (bind m f s).2 = (m s).2
  rw [bind, hm]

end Traced

end Reasoning
