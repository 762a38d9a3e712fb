import Mathlib.Data.List.Rotate
import Mathlib.Data.List.Sort
import Mathlib.Tactic.Ring

/-!
# Turns and spaced times

Turns are taken in rotation from a cursor. One that is not passed over is reached before the
rotation has come round once. Times that keep a distance from one another are few in an
interval.
-/

namespace Turns

variable {α : Type} [DecidableEq α] {turns : List α} {a : α}

/-- How many turns there are before the next one of `a`. -/
def wait (turns : List α) (a : α) (cursor : Nat) : Nat := (turns.rotate cursor).idxOf a

theorem wait_lt (mem : a ∈ turns) (cursor : Nat) : wait turns a cursor < turns.length := by
  rw [wait, ← List.length_rotate (l := turns) (n := cursor)]
  exact List.idxOf_lt_length_iff.mpr (List.mem_rotate.mpr mem)

theorem wait_mod (turns : List α) (a : α) (cursor : Nat) :
    wait turns a (cursor % turns.length) = wait turns a cursor := by
  rw [wait, wait, List.rotate_mod]

theorem wait_self {cursor : Nat} (turn : turns[cursor]? = some a) : wait turns a cursor = 0 := by
  obtain ⟨hlt, rfl⟩ := List.getElem?_eq_some_iff.mp turn
  rw [wait, List.rotate_eq_drop_append_take hlt.le, List.drop_eq_getElem_cons hlt,
    List.cons_append, List.idxOf_cons_self]

/-- A turn of another one brings the next one of `a` nearer. -/
theorem wait_succ {b : α} {cursor : Nat} (mem : a ∈ turns) (turn : turns[cursor]? = some b)
    (other : b ≠ a) : wait turns a (cursor + 1) + 1 = wait turns a cursor := by
  obtain ⟨hlt, rfl⟩ := List.getElem?_eq_some_iff.mp turn
  obtain ⟨rest, hrest⟩ : ∃ rest, turns.rotate cursor = turns[cursor] :: rest := by
    refine ⟨turns.drop (cursor + 1) ++ turns.take cursor, ?_⟩
    rw [List.rotate_eq_drop_append_take hlt.le, List.drop_eq_getElem_cons hlt, List.cons_append]
  have hmem : a ∈ rest := by
    have hrotated : a ∈ turns.rotate cursor := List.mem_rotate.mpr mem
    rw [hrest, List.mem_cons] at hrotated
    exact hrotated.resolve_left fun h => other h.symm
  rw [wait, wait, ← List.rotate_rotate, hrest, List.rotate_cons_succ, List.rotate_zero,
    List.idxOf_append_of_mem hmem, List.idxOf_cons_ne rest other]

end Turns

/-! ### Spaced times -/

namespace Spaced

variable {times : List Int} {distance width : Int}

/-- The last of some times that keep a distance is as many distances away. -/
theorem exists_far {t : Int} (spaced : (t :: times).Pairwise fun a b => a + distance ≤ b) :
    ∃ last ∈ t :: times, t + times.length * distance ≤ last := by
  induction times generalizing t with
  | nil => exact ⟨t, List.mem_cons_self, by simp⟩
  | cons u rest ih =>
      rw [List.pairwise_cons] at spaced
      obtain ⟨last, mem, hfar⟩ := ih spaced.2
      have hstep := spaced.1 u List.mem_cons_self
      refine ⟨last, List.mem_cons_of_mem t mem, ?_⟩
      calc t + ((u :: rest).length : Int) * distance
          = t + distance + rest.length * distance := by
            rw [List.length_cons]
            push_cast
            ring
        _ ≤ u + rest.length * distance := by omega
        _ ≤ last := hfar

/-- No more times lie in an interval than there are distances in its width. -/
theorem length_filter_le (lo : Int) (spaced : times.Pairwise fun a b => a + distance ≤ b) {n : Nat}
    (wide : width ≤ n * distance) (positive : 0 ≤ distance) :
    (times.filter fun t => lo ≤ t ∧ t < lo + width).length ≤ n := by
  have hspaced := spaced.sublist
    (List.filter_sublist (p := fun t => decide (lo ≤ t ∧ t < lo + width)))
  cases h : times.filter fun t => lo ≤ t ∧ t < lo + width with
  | nil => exact Nat.zero_le n
  | cons t rest =>
      rw [h] at hspaced
      have hinside (u : Int) (mem : u ∈ t :: rest) : lo ≤ u ∧ u < lo + width := by
        rw [← h, List.mem_filter] at mem
        exact of_decide_eq_true mem.2
      obtain ⟨last, mem, hfar⟩ := exists_far hspaced
      have hlow := (hinside t List.mem_cons_self).1
      have hhigh := (hinside last mem).2
      by_contra hlt
      rw [List.length_cons, not_le] at hlt
      have hmany : (n : Int) * distance ≤ rest.length * distance :=
        Int.mul_le_mul_of_nonneg_right (by omega) positive
      omega

end Spaced
