import Mathlib.Data.List.Sort
import Mathlib.Data.Prod.Lex
import Mathlib.Order.Interval.Finset.Nat
import Mathlib.Tactic.Positivity
import ZelerPlatform.Availability.Log

/-!
# What readers make of the availability log

A reader feeds the rows of a series into a `SeriesHistory`, which keeps the state at the
start of a window and the changes inside. When observations were recorded one after
another, the history tells for every instant of the window the availability last observed,
although the log holds changes only.
-/

namespace ZelerPlatform.Availability

open Timeline

/-! ### The reader -/

structure SeriesHistory where
  firstObservedAt : Option ℤ := none
  opening : Option (ℤ × Bool) := none
  changes : List (ℤ × Bool) := []
  sku : Option String := none
  skuAt : Option ℤ := none

namespace SeriesHistory

def observe (windowStart windowEnd : ℤ) (history : SeriesHistory) (row : Row) : SeriesHistory where
  firstObservedAt :=
    if history.firstObservedAt.all (row.observedAt < ·) then some row.observedAt
    else history.firstObservedAt
  opening :=
    if row.observedAt ≤ windowStart ∧ history.opening.all (·.1 < row.observedAt) then
      some (row.observedAt, row.available)
    else history.opening
  changes :=
    if windowStart < row.observedAt ∧ row.observedAt < windowEnd then
      history.changes ++ [(row.observedAt, row.available)]
    else history.changes
  sku := if history.skuAt.all (· ≤ row.observedAt) then row.sku else history.sku
  skuAt := if history.skuAt.all (· ≤ row.observedAt) then some row.observedAt else history.skuAt

/-- The history of a window, from the rows in the order in which they arrive. -/
def ofRows (windowStart windowEnd : ℤ) (rows : List Row) : SeriesHistory :=
  rows.foldl (observe windowStart windowEnd) {}

/-- The changes in order, the second of two at one instant being the available one. -/
def sortedChanges (history : SeriesHistory) : List (ℤ × Bool) :=
  ((history.changes.map toLex).insertionSort (· ≤ ·)).map ofLex

/-- Seconds available in `[start, stop)`, or none if history starts later. -/
def availableSeconds (history : SeriesHistory) (start stop : ℤ) : Option ℚ :=
  match history.firstObservedAt with
  | none => none
  | some first =>
      if start < first then none
      else
        let state := (history.opening.map Prod.snd).getD false
        some (sweep start stop state start 0 history.sortedChanges / 1000000)

def lastBefore (instant : ℤ) : Option Bool → List (ℤ × Bool) → Option Bool
  | state, [] => state
  | state, (t, a) :: rest => if instant ≤ t then state else lastBefore instant (some a) rest

/-- State in effect just before an instant, or none if nothing is known. -/
def stateBefore (history : SeriesHistory) (instant : ℤ) : Option Bool :=
  lastBefore instant ((history.opening.filter (·.1 < instant)).map Prod.snd) history.sortedChanges

end SeriesHistory

/-- The entry a row makes in the timeline of its series. -/
def Row.entry (row : Row) : ℤ × Bool := (row.observedAt, row.available)

namespace SeriesHistory

variable {windowStart windowEnd : ℤ} {rows : List Row}

theorem ofRows_concat (row : Row) :
    ofRows windowStart windowEnd (rows ++ [row])
      = (ofRows windowStart windowEnd rows).observe windowStart windowEnd row := by
  simp [ofRows]

theorem opening_ofRows :
    (ofRows windowStart windowEnd rows).opening = latestAt (rows.map Row.entry) windowStart := by
  induction rows using List.reverseRecOn with
  | nil => rfl
  | append_singleton rows row ih =>
      rw [ofRows_concat]
      simp only [observe, ih, latestAt, List.map_append, List.map_cons, List.map_nil,
        List.filter_append]
      by_cases hrow : row.observedAt ≤ windowStart
      · have hfilter : [Row.entry row].filter (fun p => decide (p.1 ≤ windowStart))
            = [Row.entry row] := by simp [Row.entry, hrow]
        rw [hfilter, List.argmax_concat]
        cases (List.filter (fun p => decide (p.1 ≤ windowStart)) (rows.map Row.entry)).argmax
            Prod.fst with
        | none => simp [hrow, Row.entry]
        | some p => by_cases hp : p.1 < row.observedAt <;> simp [hrow, Row.entry, hp]
      · have hfilter : [Row.entry row].filter (fun p => decide (p.1 ≤ windowStart)) = [] := by
          simp [Row.entry, hrow]
        rw [hfilter]
        simp [hrow]

theorem changes_ofRows :
    (ofRows windowStart windowEnd rows).changes
      = (rows.map Row.entry).filter fun p => windowStart < p.1 && p.1 < windowEnd := by
  induction rows using List.reverseRecOn with
  | nil => rfl
  | append_singleton rows row ih =>
      rw [ofRows_concat]
      simp only [observe, ih, List.map_append, List.map_cons, List.map_nil, List.filter_append]
      by_cases hrow : windowStart < row.observedAt ∧ row.observedAt < windowEnd
      · rw [if_pos hrow]
        simp [Row.entry, hrow]
      · rw [if_neg hrow]
        simp only [List.self_eq_append_right, List.filter_eq_nil_iff, List.mem_singleton,
          forall_eq, Row.entry, Bool.and_eq_true, decide_eq_true_eq]
        exact hrow

/-- No history reaches back to an instant before all rows, and some does to any other. -/
theorem firstObservedAt_ofRows (start : ℤ) :
    ((ofRows windowStart windowEnd rows).firstObservedAt.all (start < ·)) = true
      ↔ ∀ row ∈ rows, start < row.observedAt := by
  induction rows using List.reverseRecOn generalizing start with
  | nil => simp [ofRows]
  | append_singleton rows row ih =>
      rw [ofRows_concat]
      simp only [observe, List.mem_append, List.mem_singleton]
      split
      · next hfirst =>
          have hall := (ih row.observedAt).mp hfirst
          simp only [Option.all_some, decide_eq_true_eq]
          constructor
          · rintro hstart other (hmem | rfl)
            · exact hstart.trans (hall other hmem)
            · exact hstart
          · exact fun h => h row (.inr rfl)
      · next hfirst =>
          rw [ih start]
          constructor
          · rintro h other (hmem | rfl)
            · exact h other hmem
            · have hsome : ¬ ∀ row' ∈ rows, other.observedAt < row'.observedAt := fun hall =>
                hfirst ((ih other.observedAt).mpr hall)
              push Not at hsome
              obtain ⟨row', hmem, hle⟩ := hsome
              exact (h row' hmem).trans_le hle
          · exact fun h other hmem => h other (.inl hmem)

theorem sortedChanges_perm (history : SeriesHistory) :
    history.sortedChanges.Perm history.changes := by
  have hperm := (List.perm_insertionSort (· ≤ ·) (history.changes.map toLex)).map ofLex
  simpa [sortedChanges, List.map_map, Function.comp_def] using hperm

theorem sorted_sortedChanges {history : SeriesHistory} (h : Distinct history.changes) :
    Sorted history.sortedChanges := by
  have hle : history.sortedChanges.Pairwise fun p q => p.1 ≤ q.1 := by
    unfold sortedChanges
    rw [List.pairwise_map]
    have hsorted := List.pairwise_insertionSort (· ≤ ·) (history.changes.map toLex)
    refine hsorted.imp fun {p q} hpq => ?_
    rcases Prod.Lex.le_iff.mp hpq with hlt | ⟨heq, -⟩
    · exact hlt.le
    · exact heq.le
  have hdistinct : history.sortedChanges.Pairwise fun p q => p.1 ≠ q.1 := by
    have := h.perm (sortedChanges_perm history).symm
    unfold Distinct at this
    rwa [List.nodup_iff_pairwise_ne, List.pairwise_map] at this
  exact (hle.and hdistinct).imp fun ⟨hle, hne⟩ => lt_of_le_of_ne hle hne

theorem lastBefore_eq {instant : ℤ} {entries : List (ℤ × Bool)} {state : Option Bool}
    (h : Sorted entries) :
    lastBefore instant state entries = (stateAt entries (instant - 1)).or state := by
  induction entries generalizing state with
  | nil => rfl
  | cons entry rest ih =>
      obtain ⟨t, a⟩ := entry
      unfold lastBefore
      rw [stateAt_cons h]
      split
      · rw [if_neg (by omega)]
        rfl
      · rw [if_pos (by omega), ih (List.pairwise_cons.mp h).2]
        cases stateAt rest (instant - 1) <;> rfl

variable {start stop : ℤ}

/-- The history of a series tells its state at every instant of the window. -/
theorem availableSeconds_ofRows (hdistinct : Distinct (rows.map Row.entry))
    (hwindow : windowStart ≤ start) (horder : start ≤ stop) (hend : stop ≤ windowEnd) :
    (ofRows windowStart windowEnd rows).availableSeconds start stop =
      if ∀ row ∈ rows, start < row.observedAt then none
      else some ((ticks (fun u => stateAt (rows.map Row.entry) u == some true) start stop : ℚ)
        / 1000000) := by
  set history := ofRows windowStart windowEnd rows with hhistory
  have hfirst : history.firstObservedAt.all (start < ·) = true ↔
      ∀ row ∈ rows, start < row.observedAt := firstObservedAt_ofRows start
  unfold availableSeconds
  cases hf : history.firstObservedAt with
  | none =>
      rw [hf] at hfirst
      rw [if_pos (hfirst.mp rfl)]
  | some first =>
      rw [hf] at hfirst
      simp only [Option.all_some, decide_eq_true_eq] at hfirst
      by_cases hlater : start < first
      · simp only [if_pos hlater, if_pos (hfirst.mp hlater)]
      · have hsome : ¬ ∀ row ∈ rows, start < row.observedAt := fun h => hlater (hfirst.mpr h)
        simp only [if_neg hlater, if_neg hsome]
        have hchanges : Distinct history.changes := by
          rw [changes_ofRows]
          exact hdistinct.sublist (List.filter_sublist.map Prod.fst)
        rw [sweep_eq (sorted_sortedChanges hchanges) le_rfl horder (.inl rfl), zero_add]
        congr 2
        norm_cast
        refine ticks_congr fun u hu hstop => ?_
        rw [stateAt_perm (hchanges.perm (sortedChanges_perm history).symm)
          (sortedChanges_perm history), changes_ofRows, opening_ofRows,
          stateAt_window (u := u) hdistinct (hwindow.trans hu) (hstop.trans_le hend)]
        have hknown : stateAt (rows.map Row.entry) u ≠ none := by
          intro hnone
          refine hsome fun row hmem => ?_
          exact (hu.trans_lt (stateAt_none.mp hnone row.entry (List.mem_map_of_mem hmem)))
        rw [stateAt_window (u := u) hdistinct (hwindow.trans hu) (hstop.trans_le hend)] at hknown
        show Option.getD _ ((stateAt (rows.map Row.entry) windowStart).getD false) = _
        cases hin : stateAt (List.filter (fun p => decide (windowStart < p.1)
            && decide (p.1 < windowEnd)) (rows.map Row.entry)) u with
        | some a => cases a <;> rfl
        | none =>
            cases hopening : stateAt (rows.map Row.entry) windowStart with
            | some a => cases a <;> rfl
            | none => exact absurd (by rw [hin, hopening]; rfl) hknown

theorem stateBefore_ofRows (hdistinct : Distinct (rows.map Row.entry)) {instant : ℤ}
    (hstart : windowStart < instant) (hend : instant ≤ windowEnd) :
    (ofRows windowStart windowEnd rows).stateBefore instant
      = stateAt (rows.map Row.entry) (instant - 1) := by
  set history := ofRows windowStart windowEnd rows with hhistory
  have hchanges : Distinct history.changes := by
    rw [changes_ofRows]
    exact hdistinct.sublist (List.filter_sublist.map Prod.fst)
  unfold stateBefore
  rw [lastBefore_eq (sorted_sortedChanges hchanges),
    stateAt_perm (hchanges.perm (sortedChanges_perm history).symm) (sortedChanges_perm history),
    changes_ofRows, opening_ofRows,
    stateAt_window (u := instant - 1) hdistinct (by omega : windowStart ≤ instant - 1)
      (by omega : instant - 1 < windowEnd)]
  congr 1
  cases hlatest : latestAt (rows.map Row.entry) windowStart with
  | none => simp [stateAt, hlatest]
  | some p =>
      have hp := (latestAt_some hlatest).2.1
      have hbefore : p.1 < instant := by omega
      simp only [stateAt, hlatest, Option.filter_some, decide_eq_true hbefore, if_true]

end SeriesHistory

end ZelerPlatform.Availability
