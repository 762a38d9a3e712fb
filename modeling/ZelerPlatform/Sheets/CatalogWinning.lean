import Mathlib.Data.Prod.Lex
import Mathlib.Data.String.Basic
import ZelerPlatform.Library.Mongo.Pipeline
import ZelerPlatform.Library.Mongo.Python
import ZelerPlatform.Library.Timeline

/-!
# Catalog winning time

An observation of an item holds until the next one. The server adds up the stretches that
begin inside the range, and the client adds the stretch from the start of the range that the
last observation before it covers. Together they are the time within the range in which the
item is winning, and in which it has stock.

Instants and durations count microseconds; the server's differences of dates count
milliseconds.
-/

namespace ZelerPlatform.Sheets.Catalog

open Mongo Mongo.Value Mongo.Pipeline Timeline

/-! ### Observations -/

/-- A row of `sheets_catalog_competition_observations`. -/
structure Observation where
  sellerId : String
  itemId : String
  observedAt : Int
  status : String
  availableQuantity : Value
  deriving DecidableEq

structure CatalogWinningTime where
  winning : Int
  withStock : Int
  covered : Bool
  historyFrom : Int
  deriving DecidableEq, Repr

def winningStatuses : List String := ["winning", "sharing_first_place"]

def losingStatuses : List String := ["competing"]

inductive State
  | noStock | winning | losing | notCompeting
  deriving DecidableEq, Repr

/-- `_state`. -/
def stateOf (status : String) (availableQuantity : Value) : State :=
  match availableQuantity.integer? with
  | none => .noStock
  | some n =>
      if n ≤ 0 then .noStock
      else if status ∈ winningStatuses then .winning
      else if status ∈ losingStatuses then .losing
      else .notCompeting

/-- The sellers and items a query asks for. -/
structure Scope where
  sellerId : String
  itemIds : Option (List String)

def Scope.matches (scope : Scope) (row : Observation) : Bool :=
  row.sellerId == scope.sellerId && scope.itemIds.all fun ids => ids.contains row.itemId

/-! ### The pipelines -/

/-- The order of the sort stages. -/
def sortKey (row : Observation) : String ×ₗ String ×ₗ Int :=
  toLex (row.sellerId, toLex (row.itemId, row.observedAt))

/-- `_starting_state_pipeline`: the first row of each item. -/
def startingStates (rows : List Observation) (scope : Scope) (dateFrom : Int) :
    List (String × Observation) :=
  let matched := rows.filter fun row => scope.matches row && row.observedAt ≤ floorMs dateFrom
  let sorted := matched.insertionSort fun a b => sortKey b ≤ sortKey a
  (group (·.itemId) sorted).filterMap fun part => part.2.head?.map fun row => (part.1, row)

structure RangeRow where
  firstObservedAt : Int
  winningMs : Int
  withStockMs : Int
  deriving DecidableEq

/-- `{$gt: ["$available_quantity", 0]}`. -/
def inStock (row : Observation) : Bool :=
  exprCompare (some row.availableQuantity) (some (.int 0)) == .gt

/-- `{$in: ["$status", statuses]}`. -/
def statusIn (row : Observation) (statuses : List String) : Bool :=
  statuses.any fun text => exprCompare (some (.string row.status)) (some (.string text)) == .eq

def countsWinning (row : Observation) : Bool := inStock row && statusIn row winningStatuses

def countsStock (row : Observation) : Bool :=
  inStock row && statusIn row (winningStatuses ++ losingStatuses)

/-- `$sum` of what is held where a condition is met. -/
def heldMs (counts : Observation → Bool) (part : List (Observation × Int)) : Int :=
  (part.map fun row => if counts row.1 then (row.2 - row.1.observedAt) / 1000 else 0).sum

def rangeRow (part : List (Observation × Int)) : RangeRow where
  firstObservedAt := (part.map fun row => row.1.observedAt).min?.getD 0
  winningMs := heldMs countsWinning part
  withStockMs := heldMs countsStock part

/-- `_range_pipeline`. -/
def rangeRows (rows : List Observation) (scope : Scope) (dateFrom dateTo : Int) :
    List (String × RangeRow) :=
  let matched := rows.filter fun row => scope.matches row && floorMs dateFrom < row.observedAt &&
    row.observedAt < floorMs dateTo
  let sorted := matched.insertionSort fun a b => sortKey a ≤ sortKey b
  let held := windowShift (·.observedAt) (floorMs dateTo) (·.itemId)
    (fun a b => a.observedAt ≤ b.observedAt) sorted
  (group (·.1.itemId) held).map fun part => (part.1, rangeRow part.2)

/-! ### The client -/

def winningTime (dateFrom dateTo : Int) (startRow : Option Observation) (range : Option RangeRow) :
    CatalogWinningTime :=
  let winning := (range.map fun row => row.winningMs * 1000).getD 0
  let withStock := (range.map fun row => row.withStockMs * 1000).getD 0
  match startRow with
  | none => ⟨winning, withStock, false, (range.map (·.firstObservedAt)).getD 0⟩
  | some start =>
      let held := (range.map (·.firstObservedAt)).getD dateTo - dateFrom
      let state := stateOf start.status start.availableQuantity
      ⟨if state = .winning then winning + held else winning,
        if state = .winning ∨ state = .losing then withStock + held else withStock,
        true, start.observedAt⟩

/-- `find_catalog_winning_times`. -/
def findCatalogWinningTimes (rows : List Observation) (scope : Scope) (dateFrom dateTo : Int) :
    List (String × CatalogWinningTime) :=
  let dateTo := if dateTo < dateFrom then dateFrom else dateTo
  let starting := startingStates rows scope dateFrom
  let ranged := rangeRows rows scope dateFrom dateTo
  let itemIds := (starting.map Prod.fst ++ ranged.map Prod.fst).dedup.insertionSort (· ≤ ·)
  itemIds.map fun itemId =>
    (itemId, winningTime dateFrom dateTo (starting.lookup itemId) (ranged.lookup itemId))

/-! ### What the pipelines return -/

variable {rows : List Observation} {scope : Scope} {dateFrom dateTo : Int} {itemId : String}

/-- The observations of an item in scope, with their instants. -/
def timeline (rows : List Observation) (scope : Scope) (itemId : String) :
    List (ℤ × Observation) :=
  (rows.filter fun row => scope.matches row && row.itemId == itemId).map fun row =>
    (row.observedAt, row)

theorem mem_timeline {entry : ℤ × Observation} : entry ∈ timeline rows scope itemId ↔
    entry.2 ∈ rows ∧ scope.matches entry.2 = true ∧ entry.2.itemId = itemId ∧
      entry.1 = entry.2.observedAt := by
  rw [timeline, List.mem_map]
  constructor
  · rintro ⟨row, mem, rfl⟩
    simpa [and_assoc] using mem
  · rintro ⟨mem, hscope, hitem, htime⟩
    exact ⟨entry.2, by simp [mem, hscope, hitem], Prod.ext htime.symm rfl⟩

theorem lookup_filterMap_key {β κ : Type} [DecidableEq κ] {ks : List κ} {f : κ → Option β}
    {k : κ} :
    (ks.filterMap fun k => (f k).map fun v => (k, v)).lookup k = if k ∈ ks then f k else none := by
  induction ks with
  | nil => rfl
  | cons first rest ih =>
      by_cases h : k = first
      · subst h
        cases hf : f k with
        | none => simp [hf, ih]
        | some v => simp [hf]
      · cases hf : f first with
        | none => simp [hf, ih, h]
        | some v => simp [hf, ih, h, List.lookup_cons, beq_false_of_ne h]

theorem sortKey_le {a b : Observation} (hseller : a.sellerId = b.sellerId)
    (hitem : a.itemId = b.itemId) : sortKey a ≤ sortKey b ↔ a.observedAt ≤ b.observedAt := by
  rw [sortKey, sortKey, hseller, hitem, Prod.Lex.le_iff]
  simp only [ofLex_toLex, lt_irrefl, true_and, false_or]
  rw [Prod.Lex.le_iff]
  simp only [ofLex_toLex, lt_irrefl, true_and, false_or]

theorem seller_of_matches {a : Observation} (h : scope.matches a = true) :
    a.sellerId = scope.sellerId := by
  rw [Scope.matches, Bool.and_eq_true] at h
  exact eq_of_beq h.1

/-- The first row of an item is the latest one at or before the start. -/
theorem lookup_startingStates (distinct : Distinct (timeline rows scope itemId))
    (aligned : floorMs dateFrom = dateFrom) :
    (startingStates rows scope dateFrom).lookup itemId =
      stateAt (timeline rows scope itemId) dateFrom := by
  obtain ⟨sorted, hsorted⟩ : ∃ sorted, sorted =
    (rows.filter fun row => scope.matches row && row.observedAt ≤ floorMs dateFrom).insertionSort
      fun a b => sortKey b ≤ sortKey a := ⟨_, rfl⟩
  obtain ⟨part, hpart⟩ : ∃ part, part = sorted.filter fun row => row.itemId = itemId := ⟨_, rfl⟩
  have hmem {row : Observation} : row ∈ part ↔ row ∈ rows ∧ scope.matches row = true ∧
      row.observedAt ≤ dateFrom ∧ row.itemId = itemId := by
    rw [hpart, hsorted, List.mem_filter, (List.perm_insertionSort _ _).mem_iff, List.mem_filter]
    simp [aligned, and_assoc]
  have hlookup : (startingStates rows scope dateFrom).lookup itemId = part.head? := by
    rw [startingStates, group, List.filterMap_map, ← hsorted]
    refine lookup_filterMap_key.trans ?_
    show (if _ then (sorted.filter fun row : Observation => row.itemId = itemId).head? else none) = _
    rw [← hpart]
    split
    · rfl
    · next hnot =>
        cases hhead : part with
        | nil => rfl
        | cons row rest =>
            have hrow : row ∈ part := hhead ▸ List.mem_cons_self
            refine absurd (List.mem_dedup.mpr (List.mem_map.mpr ⟨row, ?_, (hmem.mp hrow).2.2.2⟩)) hnot
            rw [hpart] at hrow
            exact (List.mem_filter.mp hrow).1
  rw [hlookup]
  cases hhead : part with
  | nil =>
      refine (stateAt_none.mpr fun entry mem => ?_).symm
      obtain ⟨hrow, hscope, hitem, htime⟩ := mem_timeline.mp mem
      by_contra hle
      have hin := hmem.mpr ⟨hrow, hscope, htime ▸ not_lt.mp hle, hitem⟩
      rw [hhead] at hin
      cases hin
  | cons row rest =>
      have hrow := hmem.mp (hhead ▸ List.mem_cons_self)
      have hpairwise : part.Pairwise fun a b => sortKey b ≤ sortKey a := by
        rw [hpart, hsorted]
        have htotal : Std.Total fun a b : Observation => sortKey b ≤ sortKey a :=
          ⟨fun a b => le_total (sortKey b) (sortKey a)⟩
        have htrans : IsTrans Observation fun a b => sortKey b ≤ sortKey a :=
          ⟨fun _ _ _ hab hbc => hbc.trans hab⟩
        exact (List.pairwise_insertionSort _ _).filter _
      refine (stateAt_eq distinct (mem_timeline.mpr ⟨hrow.1, hrow.2.1, hrow.2.2.2, rfl⟩)
        hrow.2.2.1 fun entry mem hle => ?_).symm
      obtain ⟨hentry, hscope, hitem, htime⟩ := mem_timeline.mp mem
      have hin : entry.2 ∈ part := hmem.mpr ⟨hentry, hscope, htime ▸ hle, hitem⟩
      rw [hhead] at hin hpairwise
      rw [htime]
      obtain heq | hin := List.mem_cons.mp hin
      · exact (congrArg Observation.observedAt heq).le
      · refine (sortKey_le ?_ (hitem.trans hrow.2.2.2.symm)).mp
          ((List.pairwise_cons.mp hpairwise).1 entry.2 hin)
        exact (seller_of_matches hscope).trans (seller_of_matches hrow.2.1).symm

/-- The observations of an item inside the range, in order. -/
def inside (rows : List Observation) (scope : Scope) (dateFrom dateTo : Int) (itemId : String) :
    List Observation :=
  let matched := rows.filter fun row => scope.matches row && floorMs dateFrom < row.observedAt &&
    row.observedAt < floorMs dateTo
  sorted (·.itemId) (fun a b => a.observedAt ≤ b.observedAt)
    (matched.insertionSort fun a b => sortKey a ≤ sortKey b) itemId

theorem mem_inside (hfrom : floorMs dateFrom = dateFrom) (hto : floorMs dateTo = dateTo)
    {row : Observation} : row ∈ inside rows scope dateFrom dateTo itemId ↔
      row ∈ rows ∧ scope.matches row = true ∧ dateFrom < row.observedAt ∧
        row.observedAt < dateTo ∧ row.itemId = itemId := by
  rw [inside, sorted, (List.perm_insertionSort _ _).mem_iff, List.mem_filter,
    (List.perm_insertionSort _ _).mem_iff, List.mem_filter]
  simp [hfrom, hto, and_assoc]

theorem lookup_rangeRows : (rangeRows rows scope dateFrom dateTo).lookup itemId =
    if inside rows scope dateFrom dateTo itemId = [] then none
    else some (rangeRow (shift (·.observedAt) (floorMs dateTo)
      (inside rows scope dateFrom dateTo itemId))) := by
  obtain ⟨held, hheld⟩ : ∃ held, held =
    windowShift (·.observedAt) (floorMs dateTo) (·.itemId)
      (fun a b : Observation => a.observedAt ≤ b.observedAt)
      ((rows.filter fun row => scope.matches row && floorMs dateFrom < row.observedAt &&
        row.observedAt < floorMs dateTo).insertionSort fun a b => sortKey a ≤ sortKey b) := ⟨_, rfl⟩
  have hpart : (held.filter fun pair => pair.1.itemId = itemId) =
      shift (·.observedAt) (floorMs dateTo) (inside rows scope dateFrom dateTo itemId) := by
    rw [hheld]
    exact filter_windowShift _ _ _ _
  have hkey : itemId ∈ (held.map (·.1.itemId)).dedup ↔
      inside rows scope dateFrom dateTo itemId ≠ [] := by
    have hfst : (shift Observation.observedAt (floorMs dateTo)
        (inside rows scope dateFrom dateTo itemId)).map Prod.fst =
          inside rows scope dateFrom dateTo itemId := map_fst_shift _ _
    rw [← hfst, ← hpart, ne_eq, List.map_eq_nil_iff, List.filter_eq_nil_iff, List.mem_dedup,
      List.mem_map]
    simp
  have hlookup : (rangeRows rows scope dateFrom dateTo).lookup itemId =
      if itemId ∈ (held.map (·.1.itemId)).dedup then
        some (rangeRow (held.filter fun pair => pair.1.itemId = itemId)) else none := by
    rw [rangeRows, ← hheld, group, List.map_map]
    exact lookup_map_key
  rw [hlookup, hpart]
  by_cases h : inside rows scope dateFrom dateTo itemId = []
  · rw [if_pos h, if_neg fun hin => hkey.mp hin h]
  · rw [if_neg h, if_pos (hkey.mpr h)]

/-! ### Stretches -/

variable {counts : Observation → Bool} {first : Observation} {part : List Observation}

/-- What is held adds up to the stretches of the observations. -/
theorem heldMs_shift {stop : Int} (alignedStop : floorMs stop = stop)
    (aligned : ∀ row ∈ part, floorMs row.observedAt = row.observedAt) :
    heldMs counts (shift (·.observedAt) stop part) * 1000 =
      total counts stop (part.map fun row => (row.observedAt, row)) := by
  have hms {a b : Int} (ha : floorMs a = a) (hb : floorMs b = b) :
      (a - b) / 1000 * 1000 = a - b := by
    rw [floorMs] at ha hb
    omega
  induction part with
  | nil => rfl
  | cons row rest ih =>
      have hrow := aligned row List.mem_cons_self
      cases rest with
      | nil =>
          show ((if counts row then (stop - row.observedAt) / 1000 else 0) + 0) * 1000 =
            if counts row then stop - row.observedAt else 0
          split
          · rw [add_zero, hms alignedStop hrow]
          · rfl
      | cons next rest =>
          have hnext := aligned next (List.mem_cons_of_mem _ List.mem_cons_self)
          have hrest := ih fun r mem => aligned r (List.mem_cons_of_mem _ mem)
          show ((if counts row then (next.observedAt - row.observedAt) / 1000 else 0) +
              heldMs counts (shift (·.observedAt) stop (next :: rest))) * 1000 =
            (if counts row then next.observedAt - row.observedAt else 0) +
              total counts stop ((next :: rest).map fun row => (row.observedAt, row))
          rw [add_mul, hrest]
          congr 1
          split
          · exact hms hnext hrow
          · rfl

theorem inside_perm (hfrom : floorMs dateFrom = dateFrom) (hto : floorMs dateTo = dateTo) :
    ((inside rows scope dateFrom dateTo itemId).map fun row => (row.observedAt, row)).Perm
      ((timeline rows scope itemId).filter fun p => dateFrom < p.1 && p.1 < dateTo) := by
  have hfilter : (timeline rows scope itemId).filter (fun p => dateFrom < p.1 && p.1 < dateTo) =
      ((rows.filter fun row => scope.matches row && dateFrom < row.observedAt &&
        row.observedAt < dateTo).filter fun row => row.itemId = itemId).map fun row =>
          (row.observedAt, row) := by
    rw [timeline, List.filter_map, List.filter_filter, List.filter_filter]
    refine congrArg _ (List.filter_congr fun row _ => ?_)
    simp only [Function.comp, Bool.and_assoc]
    rw [Bool.eq_iff_iff]
    simp only [Bool.and_eq_true, decide_eq_true_eq, beq_iff_eq]
    tauto
  rw [hfilter, inside, sorted, hfrom, hto]
  refine List.Perm.map _ ((List.perm_insertionSort _ _).trans ?_)
  exact (List.perm_insertionSort _ _).filter _

theorem inside_sorted (distinct : Distinct (timeline rows scope itemId))
    (hfrom : floorMs dateFrom = dateFrom) (hto : floorMs dateTo = dateTo) :
    Sorted ((inside rows scope dateFrom dateTo itemId).map fun row => (row.observedAt, row)) := by
  have hordered : (inside rows scope dateFrom dateTo itemId).Pairwise
      fun a b => a.observedAt ≤ b.observedAt := by
    have htotal : Std.Total fun a b : Observation => a.observedAt ≤ b.observedAt :=
      ⟨fun a b => le_total a.observedAt b.observedAt⟩
    have htrans : IsTrans Observation fun a b => a.observedAt ≤ b.observedAt :=
      ⟨fun _ _ _ => le_trans⟩
    exact List.pairwise_insertionSort _ _
  have hdistinct : Distinct ((inside rows scope dateFrom dateTo itemId).map fun row =>
      (row.observedAt, row)) := by
    refine Distinct.perm ?_ (inside_perm hfrom hto).symm
    exact distinct.sublist (List.filter_sublist.map _)
  rw [Distinct, List.map_map, List.nodup_iff_pairwise_ne, List.pairwise_map] at hdistinct
  rw [Sorted, List.pairwise_map]
  exact (hordered.and hdistinct).imp fun h => lt_of_le_of_ne h.1 h.2

/-- The stretch the starting row covers and what is held inside the range add up to the time
the range has with the property. -/
theorem held_total (counts : Observation → Bool) (distinct : Distinct (timeline rows scope itemId))
    (aligned : ∀ row ∈ rows, floorMs row.observedAt = row.observedAt)
    (hfrom : floorMs dateFrom = dateFrom) (hto : floorMs dateTo = dateTo) (hle : dateFrom ≤ dateTo)
    {start : Observation} (hstart : stateAt (timeline rows scope itemId) dateFrom = some start) :
    (ticks (fun u => (stateAt (timeline rows scope itemId) u).any counts) dateFrom dateTo : ℤ) =
      (if counts start then
        ((inside rows scope dateFrom dateTo itemId).head?.map (·.observedAt)).getD dateTo - dateFrom
      else 0) + heldMs counts (shift (·.observedAt) dateTo
        (inside rows scope dateFrom dateTo itemId)) * 1000 := by
  obtain ⟨part, hpart⟩ : ∃ part, part = inside rows scope dateFrom dateTo itemId := ⟨_, rfl⟩
  have hmem {row : Observation} : row ∈ inside rows scope dateFrom dateTo itemId ↔
      row ∈ rows ∧ scope.matches row = true ∧ dateFrom < row.observedAt ∧
        row.observedAt < dateTo ∧ row.itemId = itemId := mem_inside hfrom hto
  have hsorted := inside_sorted distinct hfrom hto
  have hwindow (u : ℤ) (h₁ : dateFrom ≤ u) (h₂ : u < dateTo) :
      stateAt (timeline rows scope itemId) u =
        (stateAt (part.map fun row => (row.observedAt, row)) u).or (some start) := by
    rw [stateAt_window distinct h₁ h₂, hstart, hpart,
      stateAt_perm hsorted.distinct (inside_perm hfrom hto)]
  rw [← hpart] at hsorted hmem ⊢
  rw [heldMs_shift hto fun row mem => aligned row (hmem.mp mem).1]
  cases part with
  | nil =>
      have hconst : ticks (fun u => (stateAt (timeline rows scope itemId) u).any counts) dateFrom
          dateTo = ticks (fun _ => counts start) dateFrom dateTo :=
        ticks_congr fun u h₁ h₂ => by
          rw [hwindow u h₁ h₂]
          rfl
      rw [hconst, ticks_stretch hle]
      exact (add_zero _).symm
  | cons first rest =>
      have hfirst := hmem.mp (List.mem_cons_self (a := first) (l := rest))
      have hbefore : ticks (fun u => (stateAt (timeline rows scope itemId) u).any counts) dateFrom
          first.observedAt = ticks (fun _ => counts start) dateFrom first.observedAt :=
        ticks_congr fun u h₁ h₂ => by
          have hnone : stateAt ((first :: rest).map fun row => (row.observedAt, row)) u = none := by
            rw [List.map_cons, stateAt_cons hsorted, if_neg (not_le.mpr h₂)]
          rw [hwindow u h₁ (h₂.trans hfirst.2.2.2.1), hnone]
          rfl
      have hafter : ticks (fun u => (stateAt (timeline rows scope itemId) u).any counts)
          first.observedAt dateTo = ticks (fun u => (stateAt
            ((first :: rest).map fun row => (row.observedAt, row)) u).any counts)
              first.observedAt dateTo :=
        ticks_congr fun u h₁ h₂ => by
          rw [hwindow u (hfirst.2.2.1.le.trans h₁) h₂, List.map_cons, stateAt_cons hsorted,
            if_pos h₁]
          rfl
      rw [← ticks_add hfirst.2.2.1.le hfirst.2.2.2.1.le, hbefore, hafter, Nat.cast_add,
        ticks_stretch hfirst.2.2.1.le]
      congr 1
      have hstop : ∀ q ∈ (first :: rest).map fun row => (row.observedAt, row), q.1 ≤ dateTo := by
        intro q mem
        obtain ⟨row, hrow, rfl⟩ := List.mem_map.mp mem
        exact (hmem.mp hrow).2.2.2.1.le
      exact (total_eq_ticks hsorted hstop).symm

/-! ### The two classifications -/

/-- The stock of an observation is an integer or null. -/
def Counted (row : Observation) : Prop :=
  row.availableQuantity = .null ∨ ∃ n, row.availableQuantity.integer? = some n

theorem statusIn_iff {row : Observation} {statuses : List String} :
    statusIn row statuses = true ↔ row.status ∈ statuses := by
  have hcompare (text : String) :
      exprCompare (some (.string row.status)) (some (.string text)) == .eq ↔ row.status = text := by
    rw [beq_iff_eq]
    exact compare_eq_iff_eq
  rw [statusIn, List.any_eq_true]
  simp only [hcompare, exists_eq_right']

theorem inStock_eq {row : Observation} (counted : Counted row) :
    inStock row = row.availableQuantity.integer?.any (0 < ·) := by
  obtain hnull | ⟨n, hn⟩ := counted
  · rw [inStock, hnull]
    rfl
  · have hcompare : row.availableQuantity.compare (.int 0) = cmp n 0 := compare_integers hn rfl
    rw [inStock, exprCompare, hcompare, hn, Bool.eq_iff_iff, beq_iff_eq, cmp_eq_gt_iff]
    simp

/-- The client's classification of a row is that of the pipeline: winning. -/
theorem stateOf_winning {row : Observation} (counted : Counted row) :
    (stateOf row.status row.availableQuantity = .winning) ↔ countsWinning row = true := by
  rw [countsWinning, Bool.and_eq_true, inStock_eq counted, statusIn_iff, stateOf]
  cases row.availableQuantity.integer? with
  | none => simp
  | some n =>
      by_cases hn : n ≤ 0
      · simp [hn, not_lt.mpr hn]
      · by_cases hwinning : row.status ∈ winningStatuses
        · simp [hn, hwinning, not_le.mp hn]
        · by_cases hlosing : row.status ∈ losingStatuses <;> simp [hn, hwinning, hlosing]

/-- The client's classification of a row is that of the pipeline: with stock. -/
theorem stateOf_stock {row : Observation} (counted : Counted row) :
    (stateOf row.status row.availableQuantity = .winning ∨
      stateOf row.status row.availableQuantity = .losing) ↔ countsStock row = true := by
  rw [countsStock, Bool.and_eq_true, inStock_eq counted, statusIn_iff, List.mem_append, stateOf]
  cases row.availableQuantity.integer? with
  | none => simp
  | some n =>
      by_cases hn : n ≤ 0
      · simp [hn, not_lt.mpr hn]
      · by_cases hwinning : row.status ∈ winningStatuses
        · simp [hn, hwinning, not_le.mp hn]
        · by_cases hlosing : row.status ∈ losingStatuses
          · simp [hn, hwinning, hlosing, not_le.mp hn]
          · simp [hn, hwinning, hlosing]

/-! ### Winning time -/

/-- The time in a range at which the item is in a state with a property. -/
def timeIn (counts : Observation → Bool) (rows : List Observation) (scope : Scope) (itemId : String)
    (dateFrom dateTo : Int) : Int :=
  ticks (fun u => (stateAt (timeline rows scope itemId) u).any counts) dateFrom dateTo

theorem mem_keys_of_lookup {β : Type} {xs : List (String × β)} {k : String} {v : β}
    (h : xs.lookup k = some v) : k ∈ xs.map Prod.fst := by
  obtain ⟨before, after, rfl, -⟩ := List.lookup_eq_some_iff.mp h
  simp

/-- The earliest instant of the rows inside is that of the first of them. -/
theorem firstObservedAt_rangeRow {stop : Int} {rest : List Observation}
    (hsorted : Sorted ((first :: rest).map fun row => (row.observedAt, row))) :
    (rangeRow (shift (·.observedAt) stop (first :: rest))).firstObservedAt = first.observedAt := by
  have hmap : (shift (·.observedAt) stop (first :: rest)).map (fun row => row.1.observedAt) =
      (first :: rest).map (·.observedAt) := by
    have hrows : (shift Observation.observedAt stop (first :: rest)).map Prod.fst =
      first :: rest := map_fst_shift _ _
    have hfst := congrArg (List.map Observation.observedAt) hrows
    rw [List.map_map] at hfst
    exact hfst
  have hmin : ((first :: rest).map Observation.observedAt).min? = some first.observedAt := by
    refine List.min?_eq_some_iff.mpr ⟨List.mem_cons_self, fun t mem => ?_⟩
    obtain ⟨row, hrow, rfl⟩ := List.mem_map.mp mem
    obtain rfl | hrow := List.mem_cons.mp hrow
    · exact le_rfl
    · exact ((List.pairwise_cons.mp hsorted).1 (row.observedAt, row)
        (List.mem_map.mpr ⟨row, hrow, rfl⟩)).le
  show ((shift _ stop (first :: rest)).map (fun row => row.1.observedAt)).min?.getD 0 = _
  rw [hmap, hmin]
  rfl

theorem if_add_held {c : Bool} {held sum : Int} :
    (if c = true then sum + held else sum) = (if c = true then held else 0) + sum := by
  cases c with
  | false => exact (zero_add sum).symm
  | true => exact add_comm sum held

/-- With an observation at or before the start, the times of an item are those of its states. -/
theorem lookup_findCatalogWinningTimes (distinct : Distinct (timeline rows scope itemId))
    (counted : ∀ row ∈ rows, Counted row)
    (aligned : ∀ row ∈ rows, floorMs row.observedAt = row.observedAt)
    (hfrom : floorMs dateFrom = dateFrom) (hto : floorMs dateTo = dateTo) (hle : dateFrom ≤ dateTo)
    {start : Observation} (hstart : stateAt (timeline rows scope itemId) dateFrom = some start) :
    (findCatalogWinningTimes rows scope dateFrom dateTo).lookup itemId =
      some ⟨timeIn countsWinning rows scope itemId dateFrom dateTo,
        timeIn countsStock rows scope itemId dateFrom dateTo, true, start.observedAt⟩ := by
  have hstarting := lookup_startingStates distinct hfrom
  rw [hstart] at hstarting
  have hrow : Counted start := by
    obtain ⟨t, hmem, -⟩ := stateAt_some hstart
    exact counted start (mem_timeline.mp hmem).1
  have hlookup : (findCatalogWinningTimes rows scope dateFrom dateTo).lookup itemId =
      some (winningTime dateFrom dateTo (some start)
        ((rangeRows rows scope dateFrom dateTo).lookup itemId)) := by
    rw [findCatalogWinningTimes, if_neg (not_lt.mpr hle)]
    refine lookup_map_key.trans ?_
    rw [if_pos, hstarting]
    rw [(List.perm_insertionSort _ _).mem_iff, List.mem_dedup, List.mem_append]
    exact .inl (mem_keys_of_lookup hstarting)
  have htotal (counts : Observation → Bool) :=
    held_total counts distinct aligned hfrom hto hle hstart
  rw [hlookup, timeIn, timeIn, htotal, htotal, lookup_rangeRows, hto]
  have hsorted := inside_sorted distinct hfrom hto
  have hwinning := stateOf_winning hrow
  have hstock := stateOf_stock hrow
  cases hinside : inside rows scope dateFrom dateTo itemId with
  | nil =>
      rw [if_pos rfl]
      simp only [winningTime, hstock]
      simp only [hwinning]
      refine congrArg some ?_
      congr 1
      · exact if_add_held
      · exact if_add_held
  | cons first rest =>
      rw [hinside] at hsorted
      rw [if_neg (List.cons_ne_nil _ _)]
      simp only [winningTime, hstock, Option.map_some, Option.getD_some,
        firstObservedAt_rangeRow hsorted, List.head?_cons]
      simp only [hwinning]
      refine congrArg some ?_
      congr 1
      · exact if_add_held
      · exact if_add_held

theorem countsStock_of_countsWinning {row : Observation} (h : countsWinning row = true) :
    countsStock row = true := by
  rw [countsWinning, Bool.and_eq_true, statusIn_iff] at h
  rw [countsStock, Bool.and_eq_true, statusIn_iff]
  exact ⟨h.1, List.mem_append_left _ h.2⟩

theorem timeIn_bounds (rows : List Observation) (scope : Scope) (itemId : String)
    (hle : dateFrom ≤ dateTo) :
    0 ≤ timeIn countsWinning rows scope itemId dateFrom dateTo ∧
      timeIn countsWinning rows scope itemId dateFrom dateTo ≤
        timeIn countsStock rows scope itemId dateFrom dateTo ∧
      timeIn countsStock rows scope itemId dateFrom dateTo ≤ dateTo - dateFrom := by
  refine ⟨Int.natCast_nonneg _, Int.ofNat_le.mpr (ticks_mono fun u h => ?_), ?_⟩
  · rw [Option.any_eq_true] at h ⊢
    obtain ⟨row, hrow, hcounts⟩ := h
    exact ⟨row, hrow, countsStock_of_countsWinning hcounts⟩
  · calc (ticks _ dateFrom dateTo : ℤ) ≤ ((dateTo - dateFrom).toNat : ℤ) := Int.ofNat_le.mpr ticks_le
      _ = dateTo - dateFrom := Int.toNat_of_nonneg (sub_nonneg.mpr hle)

theorem timeIn_add {counts : Observation → Bool} {middle : Int} (hbefore : dateFrom ≤ middle)
    (hafter : middle ≤ dateTo) : timeIn counts rows scope itemId dateFrom middle +
      timeIn counts rows scope itemId middle dateTo =
        timeIn counts rows scope itemId dateFrom dateTo := by
  rw [timeIn, timeIn, timeIn, ← ticks_add hbefore hafter, Nat.cast_add]

theorem stateAt_of_observed {u : Int} (observed : ∃ row ∈ rows, scope.matches row = true ∧
    row.itemId = itemId ∧ row.observedAt ≤ u) :
    ∃ start, stateAt (timeline rows scope itemId) u = some start := by
  obtain ⟨row, hrow, hscope, hitem, hle⟩ := observed
  cases hstate : stateAt (timeline rows scope itemId) u with
  | some start => exact ⟨start, rfl⟩
  | none =>
      have hlt := stateAt_none.mp hstate (row.observedAt, row)
        (mem_timeline.mpr ⟨hrow, hscope, hitem, rfl⟩)
      exact absurd hle (not_le.mpr hlt)

/-- Winning time is the time in the range at which the latest observation is winning, and time
with stock that at which it is winning or losing, each with stock. Times of adjoining ranges add
up, and the client classifies a row as the pipeline does. -/
theorem catalogWinningTime_integral (distinct : Distinct (timeline rows scope itemId))
    (counted : ∀ row ∈ rows, Counted row)
    (aligned : ∀ row ∈ rows, floorMs row.observedAt = row.observedAt)
    (hfrom : floorMs dateFrom = dateFrom) (hto : floorMs dateTo = dateTo) (hle : dateFrom ≤ dateTo)
    (observed : ∃ row ∈ rows, scope.matches row = true ∧ row.itemId = itemId ∧
      row.observedAt ≤ dateFrom) :
    ∃ time, (findCatalogWinningTimes rows scope dateFrom dateTo).lookup itemId = some time ∧
      time.winning = timeIn countsWinning rows scope itemId dateFrom dateTo ∧
      time.withStock = timeIn countsStock rows scope itemId dateFrom dateTo ∧
      0 ≤ time.winning ∧ time.winning ≤ time.withStock ∧ time.withStock ≤ dateTo - dateFrom ∧
      (∀ middle, floorMs middle = middle → dateFrom ≤ middle → middle ≤ dateTo →
        ∃ before after,
          (findCatalogWinningTimes rows scope dateFrom middle).lookup itemId = some before ∧
          (findCatalogWinningTimes rows scope middle dateTo).lookup itemId = some after ∧
          before.winning + after.winning = time.winning ∧
          before.withStock + after.withStock = time.withStock) ∧
      ∀ row ∈ rows,
        (stateOf row.status row.availableQuantity = .winning ↔ countsWinning row = true) ∧
        (stateOf row.status row.availableQuantity = .winning ∨
          stateOf row.status row.availableQuantity = .losing ↔ countsStock row = true) := by
  obtain ⟨start, hstart⟩ := stateAt_of_observed observed
  obtain ⟨hnonneg, hstock, htotal⟩ := timeIn_bounds rows scope itemId hle
  refine ⟨_, lookup_findCatalogWinningTimes distinct counted aligned hfrom hto hle hstart, rfl, rfl,
    hnonneg, hstock, htotal, fun middle hmiddle hbefore hafter => ?_, fun row mem => ?_⟩
  · obtain ⟨start', hstart'⟩ : ∃ start', stateAt (timeline rows scope itemId) middle = some start' := by
      obtain ⟨row, hrow, hscope, hitem, hobserved⟩ := observed
      exact stateAt_of_observed ⟨row, hrow, hscope, hitem, hobserved.trans hbefore⟩
    exact ⟨_, _,
      lookup_findCatalogWinningTimes distinct counted aligned hfrom hmiddle hbefore hstart,
      lookup_findCatalogWinningTimes distinct counted aligned hmiddle hto hafter hstart',
      timeIn_add hbefore hafter, timeIn_add hbefore hafter⟩
  · exact ⟨stateOf_winning (counted row mem), stateOf_stock (counted row mem)⟩

/-- An item that competes from the start and wins a second after it. -/
def twoObservations : List Observation :=
  [⟨"1", "MLM1", 0, "competing", .int 3⟩, ⟨"1", "MLM1", 1000000, "winning", .int 2⟩]

theorem catalogWinningTime_twoObservations : ∃ time,
    (findCatalogWinningTimes twoObservations ⟨"1", none⟩ 0 3000000).lookup "MLM1" = some time ∧
      time.winning = timeIn countsWinning twoObservations ⟨"1", none⟩ "MLM1" 0 3000000 ∧
      time.withStock = timeIn countsStock twoObservations ⟨"1", none⟩ "MLM1" 0 3000000 := by
  have hdistinct : Distinct (timeline twoObservations ⟨"1", none⟩ "MLM1") := by
    rw [Distinct]
    decide
  have hcounted : ∀ row ∈ twoObservations, Counted row := by
    intro row mem
    obtain rfl | mem := List.mem_cons.mp mem
    · exact .inr ⟨3, rfl⟩
    · obtain rfl := List.mem_singleton.mp mem
      exact .inr ⟨2, rfl⟩
  have hfrom : floorMs 0 = 0 := by decide
  have hto : floorMs 3000000 = 3000000 := by decide
  have haligned : ∀ row ∈ twoObservations, floorMs row.observedAt = row.observedAt := by decide
  obtain ⟨time, hlookup, hwinning, hstock, -⟩ :=
    catalogWinningTime_integral hdistinct hcounted haligned hfrom hto (by decide)
      ⟨⟨"1", "MLM1", 0, "competing", .int 3⟩, List.mem_cons_self, by decide, rfl, le_rfl⟩
  exact ⟨time, hlookup, hwinning, hstock⟩

end ZelerPlatform.Sheets.Catalog
