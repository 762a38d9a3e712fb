import Mathlib.Data.List.Sort
import Mathlib.Order.Basic

/-!
# A cursor over a set that grows

What is due is visited in ascending batches, and a cursor keeps the last one that was visited of
the last completed batch. Whatever is found ahead of the cursor while no batch is in hand becomes
due. Nothing is visited twice, and nothing that is due is passed over.
-/

namespace Cursor

variable {α : Type*} [LinearOrder α] {after last : α} {batch due visited : List α}

/-- Between two batches. -/
structure Idle (after : α) (due visited : List α) : Prop where
  ascending : visited.Pairwise (· < ·)
  behind : ∀ x ∈ visited, x ≤ after
  ahead : ∀ x ∈ due, x ∈ visited ∨ after < x

/-- At a place of a batch. What was due and is not in the batch lies beyond it. -/
structure Busy (after : α) (batch : List α) (place : Nat) (due visited : List α) : Prop where
  nonempty : batch ≠ []
  sorted : batch.Pairwise (· < ·)
  beyond : ∀ x ∈ batch, after < x
  passed : ∃ passed, visited = passed ++ batch.take place ∧ passed.Pairwise (· < ·) ∧
    (∀ x ∈ passed, x ≤ after) ∧
    ∀ x ∈ due, x ∈ passed ∨ x ∈ batch ∨ ∀ y ∈ batch, y < x

theorem Idle.start (after : α) : Idle after [] [] := ⟨.nil, by simp, by simp⟩

theorem Idle.nodup (h : Idle after due visited) : visited.Nodup :=
  h.ascending.imp fun hlt => hlt.ne

theorem Idle.found {found : List α} (h : Idle after due visited) (ahead : ∀ x ∈ found, after < x) :
    Idle after (due ++ found) visited := by
  refine ⟨h.ascending, h.behind, fun x mem => ?_⟩
  obtain mem | mem := List.mem_append.mp mem
  · exact h.ahead x mem
  · exact .inr (ahead x mem)

/-- The first ones ahead of the cursor become a batch. -/
theorem Idle.freeze {ahead : List α} (h : Idle after due visited)
    (sorted : ahead.Pairwise (· < ·)) (beyond : ∀ x ∈ ahead, after < x)
    (all : ∀ x ∈ due, after < x → x ∈ ahead) (nonempty : ahead ≠ []) {n : Nat} (hn : 0 < n) :
    Busy after (ahead.take n) 0 (due ++ ahead) visited := by
  have hsplit : (ahead.take n ++ ahead.drop n).Pairwise (· < ·) := by
    rwa [List.take_append_drop]
  have hahead (x : α) (mem : x ∈ ahead) :
      x ∈ ahead.take n ∨ ∀ y ∈ ahead.take n, y < x := by
    rw [← List.take_append_drop n ahead, List.mem_append] at mem
    exact mem.imp_right fun mem y hy => (List.pairwise_append.mp hsplit).2.2 y hy x mem
  refine ⟨?_, sorted.sublist (List.take_sublist n ahead),
    fun x mem => beyond x (List.mem_of_mem_take mem), visited, by simp, h.ascending, h.behind,
    fun x mem => ?_⟩
  · rw [ne_eq, List.take_eq_nil_iff, not_or]
    exact ⟨hn.ne', nonempty⟩
  · obtain mem | mem := List.mem_append.mp mem
    · exact (h.ahead x mem).imp_right fun hlt => hahead x (all x mem hlt)
    · exact .inr (hahead x mem)

/-- The part of the batch between two places is visited. -/
theorem Busy.move {i j : Nat} {visits : List α} (h : Busy after batch i due visited)
    (part : visits ++ batch.drop j = batch.drop i) :
    Busy after batch j due (visited ++ visits) := by
  obtain ⟨passed, rfl, ascending, behind, ahead⟩ := h.passed
  have htake : batch.take i ++ visits = batch.take j := by
    have hwhole : batch.take i ++ visits ++ batch.drop j = batch.take j ++ batch.drop j := by
      rw [List.append_assoc, part, List.take_append_drop, List.take_append_drop]
    exact List.append_cancel_right hwhole
  exact ⟨h.nonempty, h.sorted, h.beyond, passed, by rw [List.append_assoc, htake], ascending,
    behind, ahead⟩

theorem Busy.ascending {place : Nat} (h : Busy after batch place due visited) :
    visited.Pairwise (· < ·) := by
  obtain ⟨passed, rfl, ascending, behind, -⟩ := h.passed
  refine List.pairwise_append.mpr ⟨ascending, h.sorted.sublist (List.take_sublist _ _),
    fun x hx y hy => ?_⟩
  exact (behind x hx).trans_lt (h.beyond y (List.mem_of_mem_take hy))

/-- The cursor passes a batch of which everything was visited. -/
theorem Busy.pass (h : Busy after batch batch.length due visited)
    (hlast : batch.getLast? = some last) : Idle last due visited := by
  have hsorted := h.ascending
  obtain ⟨passed, rfl, ascending, behind, ahead⟩ := h.passed
  rw [List.take_length] at *
  obtain ⟨front, rfl⟩ := List.getLast?_eq_some_iff.mp hlast
  have hafter : after < last := h.beyond last (by simp)
  refine ⟨hsorted, fun x mem => ?_, fun x mem => ?_⟩
  · obtain mem | mem := List.mem_append.mp mem
    · exact (behind x mem).trans hafter.le
    · obtain mem | mem := List.mem_append.mp mem
      · exact ((List.pairwise_append.mp h.sorted).2.2 x mem last (by simp)).le
      · exact (List.mem_singleton.mp mem).le
  · obtain mem | mem | hbeyond := ahead x mem
    · exact .inl (List.mem_append_left _ mem)
    · exact .inl (List.mem_append_right _ mem)
    · exact .inr (hbeyond last (by simp))

/-- When nothing is ahead of the cursor, all that was due was visited. -/
theorem Idle.done (h : Idle after due visited) (reached : ∀ x ∈ due, ¬ after < x) :
    ∀ x ∈ due, x ∈ visited :=
  fun x mem => (h.ahead x mem).resolve_right (reached x mem)

theorem Idle.passed (h : Idle after due visited) {x : α} (mem : x ∈ due) (hle : x ≤ after) :
    x ∈ visited :=
  (h.ahead x mem).resolve_right hle.not_gt

/-- What is due and behind the cursor was visited. -/
theorem Busy.behind {place : Nat} (h : Busy after batch place due visited) {x : α}
    (mem : x ∈ due) (hle : x ≤ after) : x ∈ visited := by
  obtain ⟨y, hy⟩ := List.exists_mem_of_ne_nil batch h.nonempty
  obtain ⟨passed, rfl, -, -, ahead⟩ := h.passed
  obtain mem | mem | hbeyond := ahead x mem
  · exact List.mem_append_left _ mem
  · exact absurd (h.beyond x mem) hle.not_gt
  · exact absurd ((h.beyond y hy).trans (hbeyond y hy)) hle.not_gt

end Cursor
