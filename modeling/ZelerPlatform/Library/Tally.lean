import Mathlib.Data.List.Basic
import Mathlib.Algebra.BigOperators.Group.List.Basic
import Mathlib.Algebra.Order.Ring.Int

/-!
# Keyed tallies

A tally is the finite map from keys to integers that a document's counter field is:
`$inc` creates a missing entry at one and otherwise raises the existing one.
-/

/-- Counters by key; the first entry of a key counts. -/
abbrev Tally (κ : Type*) := List (κ × Int)

namespace Tally

variable {κ : Type*} [DecidableEq κ]

def get? : Tally κ → κ → Option Int
  | [], _ => none
  | (k, n) :: rest, key => if k = key then some n else get? rest key

/-- A missing counter reads as zero. -/
def val (tally : Tally κ) (key : κ) : Int := (tally.get? key).getD 0

/-- `$inc` by one. -/
def inc : Tally κ → κ → Tally κ
  | [], key => [(key, 1)]
  | (k, n) :: rest, key => if k = key then (k, n + 1) :: rest else (k, n) :: inc rest key

def total (tally : Tally κ) : Int := (tally.map Prod.snd).sum

@[simp] theorem val_nil (key : κ) : val ([] : Tally κ) key = 0 := rfl

theorem val_cons (k : κ) (n : Int) (rest : Tally κ) (key : κ) :
    val ((k, n) :: rest) key = if k = key then n else rest.val key := by
  simp only [val, get?]
  split <;> rfl

theorem val_of_get? {tally : Tally κ} {key : κ} {n : Int} (h : tally.get? key = some n) :
    tally.val key = n := by
  simp [val, h]

theorem val_inc (tally : Tally κ) (key other : κ) :
    (tally.inc key).val other = tally.val other + if key = other then 1 else 0 := by
  induction tally with
  | nil => simp [inc, val_cons]
  | cons entry rest ih =>
      obtain ⟨k, n⟩ := entry
      by_cases hk : k = key
      · subst hk
        by_cases ho : k = other <;> simp [inc, val_cons, ho]
      · by_cases ho : k = other
        · subst ho
          simp [inc, val_cons, hk, Ne.symm hk]
        · simp [inc, val_cons, hk, ho, ih]

@[simp] theorem val_inc_self (tally : Tally κ) (key : κ) :
    (tally.inc key).val key = tally.val key + 1 := by
  simp [val_inc]

@[simp] theorem total_inc (tally : Tally κ) (key : κ) :
    (tally.inc key).total = tally.total + 1 := by
  induction tally with
  | nil => simp [inc, total]
  | cons entry rest ih =>
      obtain ⟨k, n⟩ := entry
      unfold inc
      split
      · simp only [total, List.map_cons, List.sum_cons]
        omega
      · simp only [total, List.map_cons, List.sum_cons] at ih ⊢
        omega

theorem val_eq_zero {tally : Tally κ} (h : ∀ entry ∈ tally, entry.2 = 0) (key : κ) :
    tally.val key = 0 := by
  induction tally with
  | nil => rfl
  | cons entry rest ih =>
      rw [val_cons, ih (fun e he => h e (List.mem_cons_of_mem _ he))]
      have := h entry (List.mem_cons_self ..)
      split <;> simp_all

omit [DecidableEq κ] in
theorem total_eq_zero {tally : Tally κ} (h : ∀ entry ∈ tally, entry.2 = 0) :
    tally.total = 0 := by
  induction tally with
  | nil => rfl
  | cons entry rest ih =>
      have hrest := ih (fun e he => h e (List.mem_cons_of_mem _ he))
      have hhead := h entry (List.mem_cons_self ..)
      simp only [total, List.map_cons, List.sum_cons] at hrest ⊢
      omega

end Tally
