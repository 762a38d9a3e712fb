import Mathlib.Data.List.Dedup
import Mathlib.Data.List.Sort

/-!
# Aggregation stages

The stages `$sort`, `$group` and `$setWindowFields` with `$shift` on lists of rows. A group
keeps the order in which its rows come; `$shift` by one pairs each row of a sorted partition
with what the next row has.
-/

namespace Mongo.Pipeline

variable {α β κ : Type*} {rows : List α} {k : κ} {x y : α}

section

variable [DecidableEq κ] (key : α → κ)

/-- `$group`: the rows of each key. -/
def group (rows : List α) : List (κ × List α) :=
  (rows.map key).dedup.map fun k => (k, rows.filter fun row => key row = k)

theorem lookup_map_key {ks : List κ} {f : κ → β} :
    (ks.map fun k => (k, f k)).lookup k = if k ∈ ks then some (f k) else none := by
  induction ks with
  | nil => rfl
  | cons first rest ih =>
      rw [List.map_cons, List.lookup_cons, ih]
      by_cases h : k = first
      · simp [h]
      · simp [h, beq_false_of_ne h]

/-- The group of a key that occurs has all rows of the key. -/
theorem lookup_group : (group key rows).lookup k =
    if k ∈ rows.map key then some (rows.filter fun row => key row = k) else none := by
  rw [group, lookup_map_key]
  simp only [List.mem_dedup]

theorem map_fst_group : (group key rows).map Prod.fst = (rows.map key).dedup := by
  rw [group, List.map_map]
  exact List.map_id _

/-- Lists that have a key each, one after another: those of one key are its list. -/
theorem filter_flatMap_key {f : κ → List α} (own : ∀ k, ∀ row ∈ f k, key row = k) {ks : List κ}
    (once : ks.Nodup) :
    (ks.flatMap f).filter (fun row => key row = k) = if k ∈ ks then f k else [] := by
  induction ks with
  | nil => rfl
  | cons first rest ih =>
      rw [List.nodup_cons] at once
      rw [List.flatMap_cons, List.filter_append, ih once.2]
      by_cases h : k = first
      · subst h
        have hall : (f k).filter (fun row => key row = k) = f k :=
          List.filter_eq_self.mpr fun row mem => decide_eq_true (own k row mem)
        rw [hall, if_neg once.1, if_pos List.mem_cons_self, List.append_nil]
      · have hnone : (f first).filter (fun row => key row = k) = [] := by
          refine List.filter_eq_nil_iff.mpr fun row mem => ?_
          rw [own first row mem, decide_eq_true_eq]
          exact Ne.symm h
        simp [hnone, h]

end

section

variable (out : α → β) (default : β)

/-- `$shift` by one. -/
def shift : List α → List (α × β)
  | [] => []
  | [row] => [(row, default)]
  | row :: next :: rest => (row, out next) :: shift (next :: rest)

theorem map_fst_shift : (shift out default rows).map Prod.fst = rows := by
  induction rows with
  | nil => rfl
  | cons row rest ih =>
      cases rest with
      | nil => rfl
      | cons next rest => exact congrArg (row :: ·) ih

variable [DecidableEq κ] (partition : α → κ) (le : α → α → Prop) [DecidableRel le]

/-- `$setWindowFields` with one field that is shifted by one. -/
def windowShift (rows : List α) : List (α × β) :=
  (group partition rows).flatMap fun part => shift out default (part.2.insertionSort le)

/-- The sorted rows of a key. -/
def sorted (rows : List α) (k : κ) : List α :=
  (rows.filter fun row => partition row = k).insertionSort le

variable {partition le} in
theorem partition_of_mem_sorted (h : x ∈ sorted partition le rows k) : partition x = k := by
  have hmem := (List.perm_insertionSort le _).mem_iff.mp h
  exact of_decide_eq_true (List.mem_filter.mp hmem).2

/-- The rows of one partition are shifted among themselves. -/
theorem filter_windowShift :
    (windowShift out default partition le rows).filter (fun pair => partition pair.1 = k) =
      shift out default (sorted partition le rows k) := by
  have hown (k' : κ) : ∀ pair ∈ shift out default (sorted partition le rows k'),
      partition pair.1 = k' := fun pair mem => by
    have hmem : pair.1 ∈ (shift out default (sorted partition le rows k')).map Prod.fst :=
      List.mem_map_of_mem mem
    rw [map_fst_shift] at hmem
    exact partition_of_mem_sorted hmem
  have hstage : windowShift out default partition le rows =
      (rows.map partition).dedup.flatMap fun k' =>
        shift out default (sorted partition le rows k') := by
    rw [windowShift, group, List.flatMap_map]
    rfl
  rw [hstage, filter_flatMap_key (fun pair : α × β => partition pair.1) hown (List.nodup_dedup _)]
  split
  · rfl
  · next hk =>
      have hnone : (rows.filter fun row => partition row = k) = [] := by
        refine List.filter_eq_nil_iff.mpr fun row mem => ?_
        rw [decide_eq_true_eq]
        rintro rfl
        exact hk (List.mem_dedup.mpr (List.mem_map_of_mem mem))
      rw [sorted, hnone]
      rfl

end

end Mongo.Pipeline
