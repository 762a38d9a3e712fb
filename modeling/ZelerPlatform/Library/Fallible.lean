import Mathlib.Data.List.Forall2

/-!
# Calls that may raise

`raiseIf` is a check that raises. What a block in `Except` returned tells what its
statements returned: a block is taken apart from the left, one statement at a time.
-/

namespace Fallible

variable {ε : Type*}

/-- Raise an error under a condition. -/
def raiseIf (c : Prop) [Decidable c] (error : ε) : Except ε PUnit :=
  if c then throw error else pure ⟨⟩

section

variable {α β : Type _} {r : β}

/-- A sequence of two calls returns what the second makes of the first one's result. -/
theorem bind_ok {x : Except ε α} {f : α → Except ε β} (h : (x >>= f) = .ok r) :
    ∃ a, x = .ok a ∧ f a = .ok r := by
  cases x with
  | error e => cases h
  | ok a => exact ⟨a, rfl, h⟩

theorem pure_ok {a b : α} (h : (pure a : Except ε α) = .ok b) : a = b := Except.ok.inj h

theorem throw_ok {e : ε} {a : α} (h : (throw e : Except ε α) = .ok a) : False := by cases h

theorem toOption_some {x : Except ε α} {a : α} (h : x.toOption = some a) : x = .ok a := by
  cases x with
  | error e => cases h
  | ok b => rw [Option.some.inj h]

/-- The results of a call on a list are those of the calls on its elements. -/
theorem mapM_forall₂ {f : α → Except ε β} {xs : List α} {ys : List β} (h : xs.mapM f = .ok ys) :
    List.Forall₂ (fun x y => f x = .ok y) xs ys := by
  induction xs generalizing ys with
  | nil =>
      rw [List.mapM_nil] at h
      rw [← pure_ok h]
      exact .nil
  | cons x xs ih =>
      rw [List.mapM_cons] at h
      obtain ⟨first, hfirst, h⟩ := bind_ok h
      obtain ⟨rest, hrest, h⟩ := bind_ok h
      rw [← pure_ok h]
      exact .cons hfirst (ih hrest)

theorem forall₂_left {R : α → β → Prop} {xs : List α} {ys : List β} (h : List.Forall₂ R xs ys)
    {x : α} (mem : x ∈ xs) : ∃ y ∈ ys, R x y := by
  induction h with
  | nil => cases mem
  | cons hr _ ih =>
      cases mem with
      | head => exact ⟨_, List.mem_cons_self, hr⟩
      | tail _ mem =>
          obtain ⟨y, hy, hr⟩ := ih mem
          exact ⟨y, List.mem_cons_of_mem _ hy, hr⟩

theorem forall₂_right {R : α → β → Prop} {xs : List α} {ys : List β} (h : List.Forall₂ R xs ys)
    {y : β} (mem : y ∈ ys) : ∃ x ∈ xs, R x y := forall₂_left h.flip mem

/-- Every result of a call on a list is the result of the call on an element. -/
theorem mapM_ok {f : α → Except ε β} {xs : List α} {ys : List β} (h : xs.mapM f = .ok ys) {y : β}
    (mem : y ∈ ys) : ∃ x ∈ xs, f x = .ok y := forall₂_right (mapM_forall₂ h) mem

/-- The call on every element of a list has returned one of the results. -/
theorem mapM_mem {f : α → Except ε β} {xs : List α} {ys : List β} (h : xs.mapM f = .ok ys)
    {x : α} (mem : x ∈ xs) : ∃ y, f x = .ok y ∧ y ∈ ys := by
  obtain ⟨y, hy, hx⟩ := forall₂_left (mapM_forall₂ h) mem
  exact ⟨y, hx, hy⟩

theorem mapM_eq_map {f : α → Except ε β} {g : α → β} {xs : List α} {ys : List β}
    (h : xs.mapM f = .ok ys) (value : ∀ x ∈ xs, ∀ y, f x = .ok y → y = g x) : ys = xs.map g := by
  have hall := mapM_forall₂ h
  clear h
  induction hall with
  | nil => rfl
  | @cons x y xs ys hxy _ ih =>
      rw [List.map_cons, value x List.mem_cons_self y hxy,
        ih fun x' mem => value x' (List.mem_cons_of_mem x mem)]

theorem mapM_eq_ok {f : α → Except ε β} {g : α → β} {xs : List α}
    (h : ∀ x ∈ xs, f x = .ok (g x)) : xs.mapM f = .ok (xs.map g) := by
  induction xs with
  | nil => rfl
  | cons x xs ih =>
      rw [List.mapM_cons, h x List.mem_cons_self,
        ih fun x' mem => h x' (List.mem_cons_of_mem x mem)]
      rfl

end

/-- A loop returns only if every call in it has. -/
theorem forM_ok {α : Type*} {f : α → Except ε PUnit} {xs : List α} (h : xs.forM f = .ok ⟨⟩) {x : α}
    (mem : x ∈ xs) : f x = .ok ⟨⟩ := by
  induction xs with
  | nil => cases mem
  | cons y ys ih =>
      have h : (f y >>= fun _ => ys.forM f) = .ok ⟨⟩ := h
      obtain ⟨_, hfirst, hrest⟩ := bind_ok h
      cases mem with
      | head => exact hfirst
      | tail _ mem => exact ih hrest mem

section

universe u

variable {β : Type u} {r : β} {c : Prop} [Decidable c] {e : ε}

/-- A block goes on after a check if the condition does not hold. -/
theorem raiseIf_ok {f : PUnit → Except ε β} (h : (raiseIf c e >>= f) = .ok r) :
    ¬ c ∧ f ⟨⟩ = .ok r := by
  obtain ⟨_, hcheck, hrest⟩ := bind_ok h
  unfold raiseIf at hcheck
  split at hcheck
  · exact (throw_ok hcheck).elim
  · exact ⟨‹_›, hrest⟩

@[simp] theorem raiseIf_of_not (h : ¬ c) : raiseIf c e = pure ⟨⟩ := if_neg h

@[simp] theorem raiseIf_of (h : c) : raiseIf c e = throw e := if_pos h

end

end Fallible
