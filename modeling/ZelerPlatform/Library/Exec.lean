import ZelerPlatform.Library.Program

/-!
# Calls that may raise, on their own

A call that may raise is a program whose result is a value or an exception. `exec` runs it with
nobody else touching the state; a sequence goes on where its first part returned and ends where
that raised. A call may also be cut off: `Cut` relates a state to those in which it may be left.
-/

namespace Transition.Program

universe u v

variable {L : Type u} {S : Type v} {ε A B C : Type}

/-- A call on its own: its result and the state it leaves. -/
def exec (p : ExceptT ε (Program L S) A) (s : S) : Except ε A × S := run p.run s

theorem exec_bind (p : ExceptT ε (Program L S) A) (k : A → ExceptT ε (Program L S) B) (s : S) :
    exec (p >>= k) s =
      match exec p s with
      | (.ok a, t) => exec (k a) t
      | (.error e, t) => (.error e, t) := by
  show run (p.run >>= ExceptT.bindCont k) s = _
  rw [run_bind]
  show run (ExceptT.bindCont k (exec p s).1) (exec p s).2 = _
  rcases exec p s with ⟨e | a, t⟩
  · rfl
  · rfl

section

variable {p : ExceptT ε (Program L S) A} {k m : A → ExceptT ε (Program L S) B} {s t : S} {a : A}
  {e : ε}

theorem exec_bind_ok (h : exec p s = (.ok a, t)) : exec (p >>= k) s = exec (k a) t := by
  rw [exec_bind, h]

theorem exec_bind_error (h : exec p s = (.error e, t)) : exec (p >>= k) s = (.error e, t) := by
  rw [exec_bind, h]

/-- Calls that go on alike from where a first call returns. -/
theorem exec_congr (h : ∀ a t, exec p s = (.ok a, t) → exec (k a) t = exec (m a) t) :
    exec (p >>= k) s = exec (p >>= m) s := by
  rw [exec_bind, exec_bind]
  rcases hp : exec p s with ⟨e | a, t⟩
  · rfl
  · exact h a t hp

end

theorem seq_assoc (p : ExceptT ε (Program L S) A) (k : A → ExceptT ε (Program L S) B)
    (m : B → ExceptT ε (Program L S) C) : p >>= k >>= m = p >>= fun a => k a >>= m := by
  show (p.run >>= ExceptT.bindCont k) >>= ExceptT.bindCont m = p.run >>= ExceptT.bindCont _
  rw [bind_assoc]
  refine congrArg _ (funext fun result => ?_)
  cases result with
  | error e => rfl
  | ok a => rfl

theorem exec_assoc (p : ExceptT ε (Program L S) A) (k : A → ExceptT ε (Program L S) B)
    (m : B → ExceptT ε (Program L S) C) (s : S) :
    exec (p >>= k >>= m) s = exec (p >>= fun a => k a >>= m) s := by
  rw [seq_assoc]

@[simp] theorem exec_pure (a : A) (s : S) :
    exec (pure a : ExceptT ε (Program L S) A) s = (.ok a, s) := rfl

@[simp] theorem exec_act (label : L) (f : S → Except ε A × S) (s : S) :
    exec (ExceptT.mk (act label f)) s = f s := rfl

/-! ### Crashes -/

/-- A state in which a call may be left that began in another: any number of its operations has
taken place. -/
inductive Cut : Program L S A → S → S → Prop
  | here (p : Program L S A) (s : S) : Cut p s s
  | later {label : L} {write : S → S} {next : S → Program L S A} {s t : S}
      (rest : Cut (next s) (write s) t) : Cut (.atomic label write next) s t

/-- A call may be left when all of it has taken place. -/
theorem cut_run (p : Program L S A) (s : S) : Cut p s (p.run s).2 := by
  induction p generalizing s with
  | ret a => exact .here _ _
  | atomic label write next ih => exact .later (ih s (write s))

theorem Cut.of_ret {a : A} {s t : S} (h : Cut (.ret a : Program L S A) s t) : t = s := by
  cases h with
  | here => rfl

/-- A single operation has taken place or has not. -/
theorem Cut.of_act {label : L} {f : S → A × S} {s t : S} (h : Cut (act label f) s t) :
    t = s ∨ t = (f s).2 := by
  cases h with
  | here => exact .inl rfl
  | later rest => exact .inr rest.of_ret

theorem Cut.of_bind {p : Program L S A} {k : A → Program L S B} {s t : S}
    (h : Cut (p >>= k) s t) : Cut p s t ∨ Cut (k (p.run s).1) (p.run s).2 t := by
  induction p generalizing s with
  | ret a => exact .inr h
  | atomic label write next ih =>
      cases h with
      | here => exact .inl (.here _ _)
      | later rest => exact (ih s rest).imp_left .later

/-- A sequence is left in its first part, or in its second after the first has returned. -/
theorem Cut.of_seq {p : ExceptT ε (Program L S) A} {k : A → ExceptT ε (Program L S) B} {s t : S}
    (h : Cut (p >>= k).run s t) :
    Cut p.run s t ∨ ∃ a u, exec p s = (.ok a, u) ∧ Cut (k a).run u t := by
  have h : Cut (p.run >>= ExceptT.bindCont k) s t := h
  rcases h.of_bind with h | h
  · exact .inl h
  · rcases hp : exec p s with ⟨e | a, u⟩
    · have hp' : run p.run s = (.error e, u) := hp
      rw [hp'] at h
      left
      rw [show t = u from h.of_ret]
      have hend := cut_run p.run s
      rwa [hp'] at hend
    · have hp' : run p.run s = (.ok a, u) := hp
      rw [hp'] at h
      exact .inr ⟨a, u, rfl, h⟩

/-- A sequence that only returns after its first part is left in that part. -/
theorem Cut.of_map {p : ExceptT ε (Program L S) A} {f : A → B} {s t : S}
    (h : Cut (p >>= fun a => pure (f a)).run s t) : Cut p.run s t := by
  rcases h.of_seq with h | ⟨a, u, hexec, h⟩
  · exact h
  · have hend := cut_run p.run s
    rw [show run p.run s = (.ok a, u) from hexec] at hend
    rwa [show t = u from h.of_ret]

end Transition.Program
