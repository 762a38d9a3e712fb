import Mathlib.Data.List.Count
import Mathlib.Data.List.Forall2

/-!
# Joined texts

Texts with a separator between them can be taken apart again if it is known how often the
separator occurs in each of them. Without that the same joined text may come from different
parts.
-/

namespace Joined

variable {α : Type*} [DecidableEq α] {sep : α}

/-- A text up to a separator is determined by the whole and by the separators in it. -/
theorem append_cons_inj {left left' right right' : List α}
    (h : left ++ sep :: right = left' ++ sep :: right') (same : left.count sep = left'.count sep) :
    left = left' ∧ right = right' := by
  induction left generalizing left' with
  | nil =>
      cases left' with
      | nil => exact ⟨rfl, List.tail_eq_of_cons_eq h⟩
      | cons c rest =>
          obtain rfl : sep = c := List.head_eq_of_cons_eq h
          simp at same
  | cons c rest ih =>
      cases left' with
      | nil =>
          obtain rfl : c = sep := List.head_eq_of_cons_eq h
          simp at same
      | cons c' rest' =>
          obtain rfl : c = c' := List.head_eq_of_cons_eq h
          have hcount : rest.count sep = rest'.count sep := by
            simpa [List.count_cons] using same
          obtain ⟨rfl, hright⟩ := ih (List.tail_eq_of_cons_eq h) hcount
          exact ⟨rfl, hright⟩

/-- Lists of as many parts with the separators in the same places. -/
def SameSeparators (sep : α) (parts parts' : List (List α)) : Prop :=
  List.Forall₂ (fun part part' => part.count sep = part'.count sep) parts parts'

theorem SameSeparators.refl (parts : List (List α)) : SameSeparators sep parts parts :=
  List.forall₂_same.mpr fun _ _ => rfl

theorem intercalate_inj {parts parts' : List (List α)}
    (h : [sep].intercalate parts = [sep].intercalate parts')
    (same : SameSeparators sep parts parts') : parts = parts' := by
  induction same with
  | nil => rfl
  | @cons part part' rest rest' hpart hrest ih =>
      cases hrest with
      | nil =>
          rw [List.intercalate_singleton, List.intercalate_singleton] at h
          rw [h]
      | @cons next next' rest rest' hnext hrest =>
          rw [List.intercalate_cons_cons, List.intercalate_cons_cons, List.append_assoc,
            List.append_assoc] at h
          obtain ⟨rfl, hrest⟩ := append_cons_inj h hpart
          rw [ih hrest]

/-- Parts without separators can be told apart without any more being known. -/
theorem intercalate_plain_inj {parts parts' : List (List α)}
    (h : [sep].intercalate parts = [sep].intercalate parts') (nonempty : parts ≠ [])
    (nonempty' : parts' ≠ []) (plain : ∀ part ∈ parts, sep ∉ part)
    (plain' : ∀ part ∈ parts', sep ∉ part) : parts = parts' := by
  rw [← List.splitOn_intercalate sep plain nonempty, h,
    List.splitOn_intercalate sep plain' nonempty']

end Joined
