import Mathlib.Logic.Basic

/-!
# Calls that change a state and may raise

A call in `ExceptT ε (StateM σ)` keeps the changes it made when it raises. A block is run one
statement at a time, and a guard runs its handler in the state the guarded block left.
-/

namespace Stateful

variable {ε σ α β : Type}

/-- The result of a call and the state it leaves. -/
def run (m : ExceptT ε (StateM σ) α) (s : σ) : Except ε α × σ := m s

variable {m : ExceptT ε (StateM σ) α} {f : α → ExceptT ε (StateM σ) β}
variable {g : ε → ExceptT ε (StateM σ) α} {s t : σ}

@[simp] theorem run_pure (a : α) : run (pure a : ExceptT ε (StateM σ) α) s = (.ok a, s) := rfl

@[simp] theorem run_throw (e : ε) :
    run (throw e : ExceptT ε (StateM σ) α) s = (.error e, s) := rfl

/-- A call without effects. -/
@[simp] theorem run_mk (x : Except ε α) :
    run (ExceptT.mk (pure x) : ExceptT ε (StateM σ) α) s = (x, s) := rfl

theorem run_bind : run (m >>= f) s =
    match run m s with
    | (.ok a, t) => run (f a) t
    | (.error e, t) => (.error e, t) := by
  simp only [run, bind, ExceptT.bind, ExceptT.mk, StateT.bind, ExceptT.bindCont]
  cases m s with
  | mk result t => cases result <;> rfl

theorem run_tryCatch : run (tryCatch m g) s =
    match run m s with
    | (.ok a, t) => (.ok a, t)
    | (.error e, t) => run (g e) t := by
  simp only [run, tryCatch, tryCatchThe, MonadExceptOf.tryCatch, ExceptT.tryCatch, ExceptT.mk,
    bind, StateT.bind]
  cases m s with
  | mk result t => cases result <;> rfl

theorem run_bind_ok {a : α} (h : run m s = (.ok a, t)) : run (m >>= f) s = run (f a) t := by
  rw [run_bind, h]

theorem run_bind_error {e : ε} (h : run m s = (.error e, t)) :
    run (m >>= f) s = (.error e, t) := by
  rw [run_bind, h]

theorem run_tryCatch_ok {a : α} (h : run m s = (.ok a, t)) :
    run (tryCatch m g) s = (.ok a, t) := by
  rw [run_tryCatch, h]

theorem run_tryCatch_error {e : ε} (h : run m s = (.error e, t)) :
    run (tryCatch m g) s = run (g e) t := by
  rw [run_tryCatch, h]

end Stateful
