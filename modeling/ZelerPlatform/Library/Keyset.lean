import Mathlib.Data.List.Induction
import ZelerPlatform.Library.Sorted

/-!
# Reading by a keyset

The page after a key has the next elements in the order of their keys. Pages taken one after the
other, each from the last key of the one before, are together the sorted list, however long they
are.
-/

namespace Keyset

open Sorted

variable {α κ : Type} [LinearOrder κ] {key : α → κ} {base : α → Bool} {xs done rest : List α}
variable {k : κ} {x : α}

/-- The elements after `last`, all of them where there is none. -/
def after (key : α → κ) (last : Option κ) (x : α) : Bool := last.all fun k => k < key x

theorem after_none : after key none x = true := rfl

theorem after_some : after key (some k) x = decide (k < key x) := rfl

theorem sortedBy_ascending (once : (xs.map key).Nodup) :
    (sortedBy key xs).Pairwise fun a b => key a < key b := by
  have distinct : (sortedBy key xs).Pairwise fun a b => key a ≠ key b := by
    rw [← List.pairwise_map]
    exact ((sortedBy_perm key xs).map key).nodup_iff.mpr once
  exact ((sortedBy_pairwise key xs).and distinct).imp fun h => lt_of_le_of_ne h.1 h.2

/-- A sort by any relation that orders the elements by their keys. -/
theorem insertionSort_eq_sortedBy {r : α → α → Prop} [DecidableRel r]
    (hr : ∀ a b, r a b ↔ key a ≤ key b) (once : (xs.map key).Nodup) :
    xs.insertionSort r = sortedBy key xs := by
  haveI : Std.Total r := ⟨fun a b => by
    rw [hr, hr]
    exact le_total _ _⟩
  haveI : IsTrans α r := ⟨fun a b c hab hbc => by
    rw [hr] at hab hbc ⊢
    exact hab.trans hbc⟩
  have hperm := List.perm_insertionSort r xs
  have distinct : (xs.insertionSort r).Pairwise fun a b => key a ≠ key b := by
    rw [← List.pairwise_map]
    exact (hperm.map key).nodup_iff.mpr once
  have ascending : (xs.insertionSort r).Pairwise fun a b => key a < key b :=
    ((List.pairwise_insertionSort r xs).and distinct).imp fun h =>
      lt_of_le_of_ne ((hr _ _).mp h.1) h.2
  exact (sortedBy_eq_of_pairwise ascending hperm.symm).symm

theorem sortedBy_filter (once : (xs.map key).Nodup) (p : α → Bool) :
    sortedBy key (xs.filter p) = (sortedBy key xs).filter p :=
  sortedBy_eq_of_pairwise ((sortedBy_ascending once).filter p) ((sortedBy_perm key xs).filter p).symm

/-- What comes after the last element of a beginning of the sorted list. -/
theorem filter_after (ascending : (done ++ rest).Pairwise fun a b => key a < key b) :
    (done ++ rest).filter (after key (done.getLast?.map key)) = rest := by
  induction done using List.reverseRecOn with
  | nil => exact List.filter_eq_self.mpr fun x mem => after_none
  | append_singleton earlier last _ =>
      rw [List.getLast?_concat, Option.map_some, List.filter_append]
      obtain ⟨hdone, -, hrest⟩ := List.pairwise_append.mp ascending
      have behind : (earlier ++ [last]).filter (after key (some (key last))) = [] := by
        refine List.filter_eq_nil_iff.mpr fun x mem => ?_
        rw [after_some, decide_eq_true_eq, not_lt]
        rcases List.mem_append.mp mem with hx | hx
        · exact ((List.pairwise_append.mp hdone).2.2 x hx last List.mem_cons_self).le
        · rw [List.mem_singleton.mp hx]
      have ahead : rest.filter (after key (some (key last))) = rest := by
        refine List.filter_eq_self.mpr fun x mem => ?_
        rw [after_some, decide_eq_true_eq]
        exact hrest last (List.mem_append_right _ List.mem_cons_self) x mem
      rw [behind, ahead, List.nil_append]

/-- The elements after the last one of a beginning are the rest of the sorted list. -/
theorem sortedBy_after (once : ((xs.filter base).map key).Nodup)
    (hall : sortedBy key (xs.filter base) = done ++ rest) :
    sortedBy key (xs.filter fun x => base x && after key (done.getLast?.map key) x) = rest := by
  have ascending := sortedBy_ascending once
  rw [hall] at ascending
  have hsplit : (xs.filter fun x => base x && after key (done.getLast?.map key) x) =
      (xs.filter base).filter (after key (done.getLast?.map key)) := by
    rw [List.filter_filter]
    exact List.filter_congr fun x _ => Bool.and_comm _ _
  rw [hsplit, sortedBy_filter once, hall, filter_after ascending]

end Keyset
