import Mathlib.Algebra.BigOperators.Group.List.Basic
import Mathlib.Algebra.Order.Field.Rat
import Mathlib.Tactic.IntervalCases
import Mathlib.Tactic.Linarith
import Mathlib.Tactic.Ring
import ZelerPlatform.Imports.Segments
import ZelerPlatform.Library.Decimal
import ZelerPlatform.Recovery.Job

/-!
# Hours in stock

The metrics of a listing and a SKU over an interval: the hours its stock was active, each
segment rounded to four decimals by itself, and the hours of the whole interval, rounded once.
Decimals are exact here but for the roundings the source asks for.
-/

namespace ZelerPlatform.Imports

open Fallible Mongo
open Recovery (civil padded)

/-! ### Documents -/

/-- `STOCK_ACTIVE_STATES`. -/
def stockActiveStates : List String := ["active", "activa", "con stock", "in stock", "in_stock"]

/-- `_decimal_hours`. -/
def decimalHours (value : ℚ) : ℚ := Decimal.roundHalfEven (value * 10000) / 10000

/-- `_hours_between`. -/
def hoursBetween (start stop : Int) : ℚ :=
  decimalHours ((max (stop - start) 0 : Int) / 1000000 / 3600)

def ReadInterval.totalHours (interval : ReadInterval) : ℚ :=
  hoursBetween interval.start interval.stop

/-- `_percent`. -/
def percent (numerator denominator : ℚ) : ℚ :=
  if denominator ≤ 0 then 0
  else Decimal.roundHalfEven (numerator / denominator * 100 * 10000) / 10000

def microsPerDay : Int := 86400000000

/-- `_date_key`. -/
def dateKey (t : Int) : String :=
  let (year, month, day) := civil (t / microsPerDay)
  padded 4 year ++ "-" ++ padded 2 month ++ "-" ++ padded 2 day

/-- `_stock_metric_id`. -/
def stockMetricId (sellerId itemId sku : String) (interval : ReadInterval) : String :=
  sellerId ++ ":" ++ itemId ++ ":" ++ sku ++ ":" ++ dateKey interval.start ++ ":" ++
    dateKey interval.stop

structure WeekBucket where
  startDay : Int
  endDay : Int
  hasStock : Bool
  deriving DecidableEq

structure StockTimeMetric where
  id : String
  sellerId : String
  itemId : String
  sku : String
  normalizedSku : String
  title : Option String
  url : Option String
  dateFrom : Int
  dateTo : Int
  activeStockHours : ℚ
  totalHours : ℚ
  activeStockPercent : ℚ
  weeks : List WeekBucket
  source : String
  historyBasis : String
  coverageBasis : String
  schemaVersion : Int

/-- The bounds of the weeks from `start` on, at most as many as the first argument says. -/
def weekBounds (stop : Int) : Nat → Int → Except ImportError (List (Int × Int))
  | 0, _ => return []
  | n + 1, start =>
      if start < stop then do
        raiseIf (datetimeMax < start + 7 * microsPerDay) .overflow
        let bucketEnd := min (start + 7 * microsPerDay) stop
        let later ← weekBounds stop n bucketEnd
        return (start, bucketEnd) :: later
      else return []

/-- As many weeks as an interval can have. -/
def ReadInterval.weekCount (interval : ReadInterval) : Nat :=
  ((interval.stop - interval.start) / (7 * microsPerDay) + 1).toNat

/-- What the metrics of one listing and one SKU are made from. -/
structure MetricSource where
  projection : Doc
  itemId : String
  sku : String
  history : Value

section

variable (texts : Texts)

/-- `_state_key`. -/
def stateKey (state : String) : String :=
  .ofList ((texts.casefold (pyStrip state)).toList.map fun c => if c = '_' then ' ' else c)

/-- `_stock_active`. -/
def stockActive (state : String) : Bool := stockActiveStates.contains (stateKey texts state)

/-- `_item_id`. -/
def itemIdOf (document : Doc) : Option String :=
  strOf texts (orElse [document.getD "item_id", document.getD "id", document.getD "_id"])

/-- `_week_buckets`. -/
def weekBuckets (segments : List Segment) (interval : ReadInterval) :
    Except ImportError (List WeekBucket) := do
  let bounds ← weekBounds interval.stop interval.weekCount interval.start
  return bounds.map fun (bucketStart, bucketEnd) =>
    { startDay := (civil (bucketStart / microsPerDay)).2.2
      endDay := (civil ((bucketEnd - 1) / microsPerDay)).2.2
      hasStock := segments.any fun segment =>
        stockActive texts segment.state && segment.start < bucketEnd &&
          bucketStart < segment.stop }

/-- The hours of the active segments. -/
def activeHours (segments : List Segment) : ℚ :=
  ((segments.filter fun segment => stockActive texts segment.state).map fun segment =>
    hoursBetween segment.start segment.stop).sum

/-- The histories of a projection in the order of their SKUs, or one place without a source if
it has none. -/
def metricSources (projection : Doc) : List (Option MetricSource) :=
  match itemIdOf texts projection with
  | none => []
  | some itemId =>
      match projection.getD "variations_history" with
      | .document (first :: rest) =>
          ((first :: rest).insertionSort fun a b => a.1 ≤ b.1).map fun (sku, history) =>
            some ⟨projection, itemId, sku, history⟩
      | _ => [none]

/-- The document of a source, if its SKU is not blank and its history covers the interval. -/
def stockTimeMetric (sellerId : String) (interval : ReadInterval) (source : MetricSource) :
    Except ImportError (Option StockTimeMetric) := do
  let segments ← coveredSegments texts (historyEntries source.history) interval
  match strOf texts (.string source.sku), segments with
  | some sku, some segments =>
      let weeks ← weekBuckets texts segments interval
      let active := activeHours texts segments
      return some
        { id := stockMetricId sellerId source.itemId sku interval
          sellerId
          itemId := source.itemId
          sku
          normalizedSku := texts.upper sku
          title := strOf texts (source.projection.getD "title")
          url := strOf texts
            (orElse [source.projection.getD "permalink", source.projection.getD "url"])
          dateFrom := interval.start
          dateTo := interval.stop
          activeStockHours := decimalHours active
          totalHours := decimalHours interval.totalHours
          activeStockPercent := percent active interval.totalHours
          weeks
          source := "legacy_history_import"
          historyBasis := "legacy_imported"
          coverageBasis := "legacy_imported"
          schemaVersion := 1 }
  | _, _ => return none

/-- `_stock_time_metric_documents`. -/
def stockTimeMetricDocuments (sellerId : String) (projections : List Doc)
    (interval : ReadInterval) : Except ImportError (BuildResult StockTimeMetric) := do
  let built ← (projections.flatMap (metricSources texts)).mapM fun source =>
    match source with
    | none => return none
    | some source => stockTimeMetric texts sellerId interval source
  let documents := built.filterMap id
  return {
    documents
    sourceInventoryCount := built.length
    coverageComplete := 0 < built.length && (built.filter Option.isNone).isEmpty &&
      documents.length = built.length }

end

/-- The loop over the weeks ends before its count runs out. -/
theorem weekBounds_count {interval : ReadInterval} {n : Nat} (h : interval.weekCount ≤ n) :
    weekBounds interval.stop n interval.start =
      weekBounds interval.stop interval.weekCount interval.start := by
  have general (m : Nat) : ∀ (k : Nat) (start : Int),
      interval.stop ≤ start + m * (7 * microsPerDay) → m ≤ k →
        weekBounds interval.stop k start = weekBounds interval.stop m start := by
    induction m with
    | zero =>
        intro k start hstop _
        have hdone : ¬ start < interval.stop := by omega
        cases k with
        | zero => rfl
        | succ k => simp [weekBounds, hdone]
    | succ m ih =>
        intro k start hstop hk
        obtain ⟨k, rfl⟩ : ∃ k', k = k' + 1 := ⟨k - 1, by omega⟩
        rw [weekBounds, weekBounds]
        split
        · have hnext : interval.stop ≤
              min (start + 7 * microsPerDay) interval.stop + m * (7 * microsPerDay) := by
            simp only [microsPerDay] at hstop ⊢
            push_cast at hstop
            omega
          simp only [ih k _ hnext (by omega)]
        · rfl
  refine general _ n interval.start ?_ h
  have := interval.proper
  simp only [ReadInterval.weekCount, microsPerDay] at h ⊢
  omega

/-! ### Rounding -/

/-- What rounding to a ten-thousandth of an hour adds to a length, in ten-thousandths. -/
def roundingError (length : Int) : ℚ :=
  Decimal.roundHalfEven (length / 360000) - length / 360000

theorem hoursBetween_eq {start stop : Int} (h : start ≤ stop) :
    hoursBetween start stop = ((stop - start : Int) / 360000 + roundingError (stop - start)) / 10000 := by
  have hscale : ((stop - start : Int) : ℚ) / 1000000 / 3600 * 10000 = (stop - start : Int) / 360000 := by
    ring
  rw [hoursBetween, max_eq_left (sub_nonneg.mpr h), decimalHours, hscale, roundingError]
  ring

theorem hoursBetween_nonneg {start stop : Int} : 0 ≤ hoursBetween start stop := by
  have hround : (0 : ℤ) ≤
      Decimal.roundHalfEven (((max (stop - start) 0 : Int) : ℚ) / 1000000 / 3600 * 10000) := by
    refine Decimal.le_roundHalfEven ?_
    have : (0 : ℚ) ≤ (max (stop - start) 0 : Int) := by exact_mod_cast le_max_right _ _
    positivity
  unfold hoursBetween decimalHours
  exact div_nonneg (by exact_mod_cast hround) (by norm_num)

theorem hoursBetween_int (start stop : Int) : ∃ n : ℤ, hoursBetween start stop = n / 10000 :=
  ⟨_, rfl⟩

/-- A number that is already rounded stays as it is. -/
theorem decimalHours_of_int (n : ℤ) : decimalHours (n / 10000) = n / 10000 := by
  have : (n : ℚ) / 10000 * 10000 = n := by ring
  rw [decimalHours, this, Decimal.roundHalfEven_intCast]

/-! ### Whole seconds -/

/-- Rounding a whole number of seconds leaves nothing to a tie. -/
theorem round_seconds (n : Int) :
    Decimal.roundHalfEven ((n * 1000000 : Int) / 360000) = (50 * n + 9) / 18 := by
  have hbelow : 50 * n - 18 * ((50 * n + 9) / 18) < 9 := by omega
  have habove : 18 * ((50 * n + 9) / 18) - 50 * n < 9 := by omega
  generalize (50 * n + 9) / 18 = m at hbelow habove ⊢
  have hbelow' : (50 : ℚ) * n - 18 * m < 9 := by exact_mod_cast hbelow
  have habove' : (18 : ℚ) * m - 50 * n < 9 := by exact_mod_cast habove
  apply Decimal.roundHalfEven_eq
  · push_cast
    linarith
  · push_cast
    linarith

/-- The rounding errors of the parts add up to that of the whole. -/
def ErrorsAdd (left right : Int) : Prop :=
  roundingError left + roundingError right = roundingError (left + right)

theorem errorsAdd_iff {left right : Int} :
    ErrorsAdd left right ↔
      Decimal.roundHalfEven (left / 360000) + Decimal.roundHalfEven (right / 360000) =
        Decimal.roundHalfEven ((left + right : Int) / 360000) := by
  unfold ErrorsAdd roundingError
  rw [← Int.cast_inj (α := ℚ)]
  push_cast
  constructor <;> intro h <;> linarith

theorem errorsAdd_seconds {m n : Int} :
    ErrorsAdd (m * 1000000) (n * 1000000) ↔
      (50 * m + 9) / 18 + (50 * n + 9) / 18 = (50 * (m + n) + 9) / 18 := by
  rw [errorsAdd_iff, round_seconds, round_seconds, ← add_mul, round_seconds]

/-- A length can be cut at every second just if it is very short or fills periods of nine. -/
theorem errorsAdd_everywhere_iff {n : Int} (positive : 0 < n) :
    (∀ m, 0 < m → m < n → ErrorsAdd (m * 1000000) ((n - m) * 1000000)) ↔
      n = 1 ∨ n = 2 ∨ n = 5 ∨ n % 9 = 0 := by
  simp only [errorsAdd_seconds]
  constructor
  · intro h
    have h₁ := h 1
    have h₂ := h 2
    have h₃ := h 3
    have h₇ := h 7
    obtain ⟨q, r, hr₀, hr₉, rfl⟩ : ∃ q r, 0 ≤ r ∧ r < 9 ∧ n = 9 * q + r :=
      ⟨n / 9, n % 9, by omega, by omega, by omega⟩
    interval_cases r <;> omega
  · intro h m hm hn
    omega

/-! ### Cuts

An entry that repeats the state in force cuts the segment it falls into.
-/

/-- Segments with a cut at `t`. -/
def cutAt (t : Int) (segments : List Segment) : List Segment :=
  segments.flatMap fun segment =>
    if segment.start < t ∧ t < segment.stop then
      [⟨segment.state, segment.start, t⟩, ⟨segment.state, t, segment.stop⟩]
    else [segment]

@[simp] theorem cutAt_nil (t : Int) : cutAt t [] = [] := rfl

theorem cutAt_cons (t : Int) (segment : Segment) (rest : List Segment) :
    cutAt t (segment :: rest) =
      (if segment.start < t ∧ t < segment.stop then
        [⟨segment.state, segment.start, t⟩, ⟨segment.state, t, segment.stop⟩]
      else [segment]) ++ cutAt t rest := rfl

theorem cutAt_outside {t : Int} {segments : List Segment}
    (h : ∀ segment ∈ segments, t ≤ segment.start ∨ segment.stop ≤ t) :
    cutAt t segments = segments := by
  induction segments with
  | nil => rfl
  | cons segment rest ih =>
      have hfirst := h segment List.mem_cons_self
      rw [cutAt_cons, if_neg (by omega), ih fun s mem => h s (List.mem_cons_of_mem segment mem)]
      rfl

theorem map_cutAt_of_le {t : Int} {interval : ReadInterval} {current : Option String}
    {start : Int} {entries : List (Int × String)} {result : Option (List Segment)}
    (h : Reads interval current start entries result) (ht : t ≤ start) :
    result.map (cutAt t) = result := by
  cases result with
  | none => rfl
  | some segments =>
      have hcut : cutAt t segments = segments :=
        cutAt_outside fun segment mem => .inl (ht.trans ((h.2 segments rfl).1.bounds mem).1)
      rw [Option.map_some, hcut]

theorem map_cutAt_lastSegment {t : Int} {interval : ReadInterval} {current : Option String}
    {start : Int} (h : interval.stop ≤ t) :
    (lastSegment interval current start).map (cutAt t) = lastSegment interval current start := by
  cases current with
  | none => rfl
  | some state =>
      have hcut : cutAt t (if start < interval.stop then [⟨state, start, interval.stop⟩] else []) =
          if start < interval.stop then [⟨state, start, interval.stop⟩] else [] := by
        refine cutAt_outside fun segment mem => .inr ?_
        split at mem
        · obtain rfl := List.mem_singleton.mp mem
          exact h
        · cases mem
      simp only [lastSegment, Option.map_some, hcut]

theorem scan_beyond {interval : ReadInterval} {current : Option String} {start : Int}
    {entries : List (Int × String)} (beyond : ∀ entry ∈ entries, interval.stop ≤ entry.1) :
    scan interval current start entries = lastSegment interval current start := by
  cases entries with
  | nil => rfl
  | cons entry rest =>
      have hstop := beyond entry List.mem_cons_self
      obtain ⟨changedAt, next⟩ := entry
      have hproper := interval.proper
      rw [scan_cons, if_neg (by omega), if_pos hstop]

section

variable {interval : ReadInterval} {current : Option String} {start t : Int} {state : String}
variable {entries : List (Int × String)}

theorem scan_cut_before (sorted : entries.Pairwise fun a b => a.1 ≤ b.1)
    (later : ∀ entry ∈ entries, t ≤ entry.1) (hstop : start < interval.stop)
    (begun : start = interval.start) (before : t ≤ interval.start)
    (inForce : (∀ entry ∈ entries, t < entry.1) → current = some state) :
    scan interval current start ((t, state) :: entries) =
      (scan interval current start entries).map (cutAt t) := by
  have hreads : Reads interval current start entries (scan interval current start entries) :=
    reads_scan sorted begun.ge hstop fun _ _ => .inr begun
  rw [map_cutAt_of_le hreads (before.trans begun.ge), scan_cons, if_pos before]
  cases entries with
  | nil => rw [inForce (by simp)]
  | cons entry rest =>
      obtain ⟨changedAt, next⟩ := entry
      obtain ⟨hfirst, -⟩ := List.pairwise_cons.mp sorted
      by_cases h : changedAt ≤ interval.start
      · rw [scan_cons, scan_cons, if_pos h, if_pos h]
      · have hafter : ∀ e ∈ (changedAt, next) :: rest, t < e.1 := by
          intro e mem
          cases mem with
          | head => omega
          | tail _ mem =>
              have := hfirst e mem
              omega
        rw [inForce hafter]

/-- Inside the interval the state before the cut is the one that goes on after it. -/
theorem scan_cut_repeat (sorted : entries.Pairwise fun a b => a.1 ≤ b.1)
    (later : ∀ entry ∈ entries, t < entry.1) (begun : start ≤ t)
    (inside : interval.start < t) (within : t < interval.stop) :
    scan interval (some state) start ((t, state) :: entries) =
      (scan interval (some state) start entries).map (cutAt t) := by
  rw [scan_cons, if_neg (by omega), if_neg (by omega)]
  by_cases hbeyond : ∀ entry ∈ entries, interval.stop ≤ entry.1
  · have hstop : start < interval.stop := begun.trans_lt within
    rw [scan_beyond hbeyond, scan_beyond hbeyond]
    by_cases h : start < t
    · simp [lastSegment, within, hstop, h, cutAt]
    · obtain rfl : start = t := by omega
      simp [lastSegment, hstop, cutAt]
  · obtain ⟨⟨changedAt, next⟩, rest, rfl⟩ : ∃ entry rest, entries = entry :: rest := by
      cases entries with
      | nil => simp at hbeyond
      | cons entry rest => exact ⟨entry, rest, rfl⟩
    obtain ⟨hfirst, hrest⟩ := List.pairwise_cons.mp sorted
    have hafter : t < changedAt := later _ List.mem_cons_self
    have hbefore : changedAt < interval.stop := by
      by_contra h
      refine hbeyond fun entry mem => ?_
      cases mem with
      | head => exact not_lt.mp h
      | tail _ mem => exact (not_lt.mp h).trans (hfirst entry mem)
    have hreads : Reads interval (some next) changedAt rest
        (scan interval (some next) changedAt rest) :=
      reads_scan hrest (inside.trans hafter).le hbefore fun entry mem => .inl (hfirst entry mem)
    rw [scan_cons, if_neg (by omega), if_neg (by omega), scan_cons, if_neg (by omega), if_neg (by omega)]
    cases hscan : scan interval (some next) changedAt rest with
    | none => rfl
    | some segments =>
        rw [hscan] at hreads
        have hcut : cutAt t segments = segments :=
          Option.some.inj (map_cutAt_of_le hreads hafter.le)
        by_cases h : start < t
        · simp [hafter, h, h.trans hafter, cutAt_cons, hcut]
        · obtain rfl : start = t := by omega
          simp [hafter, cutAt_cons, hcut]

/-- Where the entries before it have been read, an entry repeating the state in force cuts. -/
theorem scan_cut (sorted : entries.Pairwise fun a b => a.1 ≤ b.1)
    (later : ∀ entry ∈ entries, t ≤ entry.1) (hstart : interval.start ≤ start)
    (hstop : start < interval.stop) (begun : start ≤ t ∨ start = interval.start)
    (inForce : (∀ entry ∈ entries, t < entry.1) → current = some state) :
    scan interval current start ((t, state) :: entries) =
      (scan interval current start entries).map (cutAt t) := by
  by_cases hbefore : t ≤ interval.start
  · exact scan_cut_before sorted later hstop (by omega) hbefore inForce
  rw [not_le] at hbefore
  by_cases hbeyond : interval.stop ≤ t
  · have hentries : ∀ entry ∈ entries, interval.stop ≤ entry.1 :=
      fun entry mem => hbeyond.trans (later entry mem)
    have hall : ∀ entry ∈ (t, state) :: entries, interval.stop ≤ entry.1 := by
      intro entry mem
      cases mem with
      | head => exact hbeyond
      | tail _ mem => exact hentries entry mem
    rw [scan_beyond hall, scan_beyond hentries, map_cutAt_lastSegment hbeyond]
  rw [not_le] at hbeyond
  have hbegun : start ≤ t := by omega
  by_cases hrepeat : ∀ entry ∈ entries, t < entry.1
  · rw [inForce hrepeat]
    exact scan_cut_repeat sorted hrepeat hbegun hbefore hbeyond
  · -- an entry of the same instant follows and takes the place of the new one
    obtain ⟨⟨changedAt, next⟩, rest, rfl⟩ : ∃ entry rest, entries = entry :: rest := by
      cases entries with
      | nil => simp at hrepeat
      | cons entry rest => exact ⟨entry, rest, rfl⟩
    obtain ⟨hfirst, hrest⟩ := List.pairwise_cons.mp sorted
    obtain rfl : changedAt = t := by
      refine le_antisymm (not_lt.mp fun h => hrepeat fun entry mem => ?_)
        (later _ List.mem_cons_self)
      cases mem with
      | head => exact h
      | tail _ mem => exact h.trans_le (hfirst entry mem)
    have hreads : Reads interval (some next) changedAt rest
        (scan interval (some next) changedAt rest) :=
      reads_scan hrest hbefore.le hbeyond fun entry mem => .inl (hfirst entry mem)
    rw [scan_cons, if_neg (by omega), if_neg (by omega)]
    cases current with
    | none =>
        simp only [scan_cons, if_neg hbefore.not_ge, if_neg hbeyond.not_ge]
        rfl
    | some prior =>
        simp only [scan_cons, if_neg hbefore.not_ge, if_neg hbeyond.not_ge]
        cases hscan : scan interval (some next) changedAt rest with
        | none => rfl
        | some segments =>
            rw [hscan] at hreads
            have hcut : cutAt changedAt segments = segments :=
              Option.some.inj (map_cutAt_of_le hreads le_rfl)
            by_cases h : start < changedAt
            · simp [h, cutAt_cons, hcut]
            · simp [h, hcut]

/-- An entry repeating the state in force, among the others in the order of the instants, cuts
the segments at its instant. -/
theorem scan_insert {before : List (Int × String)}
    (sorted : (before ++ (t, state) :: entries).Pairwise fun a b => a.1 ≤ b.1)
    (hstart : interval.start ≤ start) (hstop : start < interval.stop)
    (begun : start ≤ t ∨ start = interval.start)
    (unread : ∀ entry ∈ before, start ≤ entry.1 ∨ start = interval.start)
    (inForce : (stateAt (before ++ entries) t).or current = some state) :
    scan interval current start (before ++ (t, state) :: entries) =
      (scan interval current start (before ++ entries)).map (cutAt t) := by
  induction before generalizing current start with
  | nil =>
      obtain ⟨hlater, hentries⟩ := List.pairwise_cons.mp sorted
      refine scan_cut hentries hlater hstart hstop begun fun h => ?_
      have hnone : stateAt ([] ++ entries) t = none := stateAt_none.mpr h
      rwa [hnone, Option.none_or] at inForce
  | cons entry rest ih =>
      obtain ⟨changedAt, next⟩ := entry
      obtain ⟨hfirst, hrest⟩ := List.pairwise_cons.mp sorted
      have hle : changedAt ≤ t := hfirst (t, state) (by simp)
      have hforce : (stateAt (rest ++ entries) t).or (some next) = some state := by
        rw [List.cons_append, stateAt_cons, if_pos hle] at inForce
        cases hstate : stateAt (rest ++ entries) t <;> simpa [hstate] using inForce
      have hunread := unread (changedAt, next) List.mem_cons_self
      simp only [List.cons_append, scan_cons]
      by_cases hbefore : changedAt ≤ interval.start
      · rw [if_pos hbefore, if_pos hbefore]
        exact ih hrest hstart hstop begun (fun e mem => unread e (List.mem_cons_of_mem _ mem)) hforce
      rw [if_neg hbefore, if_neg hbefore]
      by_cases hbeyond : interval.stop ≤ changedAt
      · rw [if_pos hbeyond, if_pos hbeyond, map_cutAt_lastSegment (hbeyond.trans hle)]
      rw [if_neg hbeyond, if_neg hbeyond]
      cases current with
      | none => rfl
      | some prior =>
          have hnext : scan interval (some next) changedAt (rest ++ (t, state) :: entries) =
              (scan interval (some next) changedAt (rest ++ entries)).map (cutAt t) :=
            ih hrest (by omega) (by omega) (.inl hle)
              (fun e mem => .inl (hfirst e (by simp [mem]))) hforce
          simp only [hnext]
          cases scan interval (some next) changedAt (rest ++ entries) with
          | none => rfl
          | some segments =>
              by_cases h : start < changedAt
              · simp [h, cutAt_cons, hle.not_gt]
              · simp [h]

end

/-- Two entries placed one after the other do not disturb each other. -/
theorem orderedInsert_insert (x entry : Int × String) (left : List (Int × String))
    {right : List (Int × String)} (h : ∀ e ∈ right, entry.1 ≤ e.1) :
    ∃ left' right', (left ++ right).orderedInsert (fun a b => a.1 ≤ b.1) x = left' ++ right' ∧
      (left ++ entry :: right).orderedInsert (fun a b => a.1 ≤ b.1) x =
        left' ++ entry :: right' := by
  induction left with
  | nil =>
      by_cases hx : x.1 ≤ entry.1
      · refine ⟨[x], right, ?_, by simp [hx]⟩
        cases right with
        | nil => rfl
        | cons e rest => simp [hx.trans (h e List.mem_cons_self)]
      · exact ⟨[], right.orderedInsert (fun a b => a.1 ≤ b.1) x, rfl, by simp [hx]⟩
  | cons a rest ih =>
      by_cases hx : x.1 ≤ a.1
      · exact ⟨x :: a :: rest, right, by simp [hx], by simp [hx]⟩
      · obtain ⟨left', right', hwithout, hwith⟩ := ih
        exact ⟨a :: left', right', by simp [hx, hwithout], by simp [hx, hwith]⟩

/-- The sort is stable: one more entry leaves the others in their order. -/
theorem inOrder_insert (before after : List (Int × String)) (entry : Int × String) :
    ∃ left right, inOrder (before ++ after) = left ++ right ∧
      inOrder (before ++ entry :: after) = left ++ entry :: right := by
  induction before with
  | nil =>
      refine ⟨_, _, List.takeWhile_append_dropWhile.symm,
        List.insertionSort_cons_eq_take_drop _ entry after⟩
  | cons first rest ih =>
      obtain ⟨left, right, hwithout, hwith⟩ := ih
      have hsorted : (left ++ entry :: right).Pairwise fun a b => a.1 ≤ b.1 :=
        hwith ▸ inOrder_sorted _
      have hright : ∀ e ∈ right, entry.1 ≤ e.1 :=
        (List.pairwise_cons.mp (List.pairwise_append.mp hsorted).2.1).1
      obtain ⟨left', right', hwithout', hwith'⟩ := orderedInsert_insert first entry left hright
      refine ⟨left', right', ?_, ?_⟩
      · rw [← hwithout', ← hwithout]
        rfl
      · rw [← hwith', ← hwith]
        rfl

/-- Histories that differ by one entry, at the instant `t`, repeating the state in force then. -/
def InsertsRepeat (texts : Texts) (history history' : Value) (t : Int) : Prop :=
  ∃ before after entry state,
    history = .array (before ++ after) ∧ history' = .array (before ++ .document entry :: after) ∧
      Readable texts entry ∧ dating texts entry = some (t, state) ∧
      stateAt (timeline texts (historyEntries history)) t = some state

variable {texts : Texts} {interval : ReadInterval}

theorem readable_of_covered {history : List Doc} {result : Option (List Segment)}
    (h : coveredSegments texts history interval = .ok result) :
    ∀ entry ∈ history, Readable texts entry := by
  intro entry mem
  by_contra hentry
  exact coveredSegments_raises mem hentry h

theorem coveredSegments_insert {history history' : Value} {t : Int}
    {result : Option (List Segment)} (h : InsertsRepeat texts history history' t)
    (covered : coveredSegments texts (historyEntries history) interval = .ok result) :
    coveredSegments texts (historyEntries history') interval = .ok (result.map (cutAt t)) := by
  obtain ⟨before, after, entry, state, rfl, rfl, hreadable, hdating, hforce⟩ := h
  have hall := readable_of_covered covered
  have hentries : historyEntries (.array (before ++ .document entry :: after)) =
      before.filterMap Value.document? ++ entry :: after.filterMap Value.document? := by
    simp [historyEntries, Value.document?]
  have hentries₀ : historyEntries (.array (before ++ after)) =
      before.filterMap Value.document? ++ after.filterMap Value.document? := by
    simp [historyEntries]
  rw [coveredSegments_ok hall] at covered
  rw [hentries₀] at hall hforce covered
  rw [hentries, coveredSegments_ok]
  · obtain ⟨left, right, hwithout, hwith⟩ := inOrder_insert
      ((before.filterMap Value.document?).filterMap (dating texts))
      ((after.filterMap Value.document?).filterMap (dating texts)) (t, state)
    have htimeline : timeline texts (before.filterMap Value.document? ++
        after.filterMap Value.document?) = left ++ right := by
      rw [timeline, List.filterMap_append, hwithout]
    have htimeline' : timeline texts (before.filterMap Value.document? ++
        entry :: after.filterMap Value.document?) = left ++ (t, state) :: right := by
      rw [timeline, List.filterMap_append, List.filterMap_cons_some hdating, hwith]
    have hsorted : (left ++ (t, state) :: right).Pairwise fun a b => a.1 ≤ b.1 :=
      hwith ▸ inOrder_sorted _
    rw [htimeline] at covered hforce
    rw [htimeline', scan_insert hsorted le_rfl interval.proper (.inr rfl) (fun _ _ => .inr rfl)
      (by rw [hforce]; rfl), Except.ok.inj covered]
  · intro e mem
    rw [List.mem_append, List.mem_cons] at mem
    obtain mem | rfl | mem := mem
    · exact hall e (List.mem_append_left _ mem)
    · exact hreadable
    · exact hall e (List.mem_append_right _ mem)

/-! ### Active hours -/

/-- The lengths of the active segments, of the others, and the errors of the active ones. -/
def activeLength (texts : Texts) (segments : List Segment) : Int :=
  ((segments.filter fun segment => stockActive texts segment.state).map fun segment =>
    segment.stop - segment.start).sum

def inactiveLength (texts : Texts) (segments : List Segment) : Int :=
  ((segments.filter fun segment => !stockActive texts segment.state).map fun segment =>
    segment.stop - segment.start).sum

def activeErrors (texts : Texts) (segments : List Segment) : ℚ :=
  ((segments.filter fun segment => stockActive texts segment.state).map fun segment =>
    roundingError (segment.stop - segment.start)).sum

theorem activeLength_add_inactiveLength (segments : List Segment) :
    activeLength texts segments + inactiveLength texts segments =
      (segments.map fun segment => segment.stop - segment.start).sum := by
  induction segments with
  | nil => rfl
  | cons segment rest ih =>
      simp only [activeLength, inactiveLength] at ih ⊢
      rw [List.map_cons, List.sum_cons, ← ih]
      cases h : stockActive texts segment.state with
      | true =>
          simp only [List.filter_cons, h, Bool.not_true, if_true, List.map_cons, List.sum_cons]
          simp only [Bool.false_eq_true, if_false]
          ring
      | false =>
          simp only [List.filter_cons, h, Bool.not_false, if_true, List.map_cons, List.sum_cons]
          simp only [Bool.false_eq_true, if_false]
          ring

theorem activeHours_cons (segment : Segment) (rest : List Segment) :
    activeHours texts (segment :: rest) =
      (if stockActive texts segment.state then hoursBetween segment.start segment.stop else 0) +
        activeHours texts rest := by
  cases h : stockActive texts segment.state <;> simp [activeHours, h]

theorem activeHours_append (left right : List Segment) :
    activeHours texts (left ++ right) = activeHours texts left + activeHours texts right := by
  simp [activeHours]

theorem activeHours_nonneg (segments : List Segment) : 0 ≤ activeHours texts segments := by
  induction segments with
  | nil => exact le_rfl
  | cons segment rest ih =>
      rw [activeHours_cons]
      split
      · exact add_nonneg hoursBetween_nonneg ih
      · exact add_nonneg le_rfl ih

/-- Active hours are rounded already. -/
theorem decimalHours_activeHours (segments : List Segment) :
    decimalHours (activeHours texts segments) = activeHours texts segments := by
  have hint : ∃ n : ℤ, activeHours texts segments = n / 10000 := by
    induction segments with
    | nil => exact ⟨0, by simp [activeHours]⟩
    | cons segment rest ih =>
        obtain ⟨n, hn⟩ := ih
        rw [activeHours_cons, hn]
        split
        · obtain ⟨m, hm⟩ := hoursBetween_int segment.start segment.stop
          refine ⟨m + n, ?_⟩
          rw [hm]
          push_cast
          ring
        · exact ⟨n, zero_add _⟩
  obtain ⟨n, hn⟩ := hint
  rw [hn, decimalHours_of_int]

theorem activeHours_eq {segments : List Segment}
    (proper : ∀ segment ∈ segments, segment.start ≤ segment.stop) :
    activeHours texts segments =
      (activeLength texts segments / 360000 + activeErrors texts segments) / 10000 := by
  induction segments with
  | nil => simp [activeHours, activeLength, activeErrors]
  | cons segment rest ih =>
      have hrest := ih fun s mem => proper s (List.mem_cons_of_mem segment mem)
      rw [activeHours_cons, hrest, hoursBetween_eq (proper segment List.mem_cons_self)]
      cases h : stockActive texts segment.state with
      | true =>
          simp only [activeLength, activeErrors, List.filter_cons, h, if_true, List.map_cons,
            List.sum_cons]
          push_cast
          ring
      | false => simp [activeLength, activeErrors, h]

/-- The rounding errors of the active segments exceed that of the interval by no more than the
time in which the stock was not active. -/
def RoundsWithin (texts : Texts) (interval : ReadInterval) (segments : List Segment) : Prop :=
  activeErrors texts segments - roundingError (interval.stop - interval.start) ≤
    inactiveLength texts segments / 360000

theorem activeHours_le_iff {segments : List Segment}
    (tiled : Tiled interval.start interval.stop segments) :
    activeHours texts segments ≤ interval.totalHours ↔ RoundsWithin texts interval segments := by
  have hlengths : ((activeLength texts segments + inactiveLength texts segments : Int) : ℚ) =
      (interval.stop - interval.start : Int) := by
    rw [activeLength_add_inactiveLength, tiled.sum]
  rw [activeHours_eq fun segment mem => (tiled.bounds mem).2.1.le, ReadInterval.totalHours,
    hoursBetween_eq interval.proper.le, RoundsWithin, div_le_div_iff_of_pos_right (by norm_num),
    ← hlengths]
  push_cast
  constructor <;> intro h <;> linarith

/-! ### Cuts of active segments -/

/-- The segment can be cut at every second without a change in the sum of the rounded lengths.
Between whole seconds this depends on its length alone. -/
def CutsEvenly (segment : Segment) : Prop :=
  if segment.start % 1000000 = 0 ∧ segment.stop % 1000000 = 0 then
    segment.stop - segment.start = 1000000 ∨ segment.stop - segment.start = 2000000 ∨
      segment.stop - segment.start = 5000000 ∨ (segment.stop - segment.start) % 9000000 = 0
  else ∀ t, t % 1000000 = 0 → segment.start < t → t < segment.stop →
    ErrorsAdd (t - segment.start) (segment.stop - t)

theorem cutsEvenly_iff {segment : Segment} (proper : segment.start < segment.stop) :
    CutsEvenly segment ↔ ∀ t, t % 1000000 = 0 → segment.start < t → t < segment.stop →
      ErrorsAdd (t - segment.start) (segment.stop - t) := by
  unfold CutsEvenly
  split
  · next h =>
      obtain ⟨a, ha⟩ : ∃ a, segment.start = a * 1000000 := ⟨segment.start / 1000000, by omega⟩
      obtain ⟨b, hb⟩ : ∃ b, segment.stop = b * 1000000 := ⟨segment.stop / 1000000, by omega⟩
      have hiff := errorsAdd_everywhere_iff (n := b - a) (by omega)
      calc _ ↔ b - a = 1 ∨ b - a = 2 ∨ b - a = 5 ∨ (b - a) % 9 = 0 := by omega
        _ ↔ ∀ m, 0 < m → m < b - a → ErrorsAdd (m * 1000000) ((b - a - m) * 1000000) := hiff.symm
        _ ↔ _ := by
          constructor
          · intro hcut t ht hstart hstop
            have hm := hcut (t / 1000000 - a) (by omega) (by omega)
            have hleft : t - segment.start = (t / 1000000 - a) * 1000000 := by omega
            have hright : segment.stop - t = (b - a - (t / 1000000 - a)) * 1000000 := by omega
            rwa [hleft, hright]
          · intro hcut m hm hn
            have ht := hcut ((a + m) * 1000000) (by omega) (by omega) (by omega)
            have hleft : (a + m) * 1000000 - segment.start = m * 1000000 := by omega
            have hright : segment.stop - (a + m) * 1000000 = (b - a - m) * 1000000 := by omega
            rwa [hleft, hright] at ht
  · exact Iff.rfl

theorem hoursBetween_add {start t stop : Int} (hstart : start ≤ t) (hstop : t ≤ stop) :
    hoursBetween start t + hoursBetween t stop = hoursBetween start stop ↔
      ErrorsAdd (t - start) (stop - t) := by
  have hsum : t - start + (stop - t) = stop - start := by omega
  rw [hoursBetween_eq hstart, hoursBetween_eq hstop, hoursBetween_eq (hstart.trans hstop),
    ErrorsAdd, hsum]
  push_cast
  constructor <;> intro h <;> linarith

/-- A cut of one segment. -/
theorem activeHours_cut_single {segment : Segment} {t : Int} (hstart : segment.start < t)
    (hstop : t < segment.stop) (active : stockActive texts segment.state) :
    activeHours texts (cutAt t [segment]) = activeHours texts [segment] ↔
      ErrorsAdd (t - segment.start) (segment.stop - t) := by
  rw [← hoursBetween_add hstart.le hstop.le, cutAt_cons, if_pos ⟨hstart, hstop⟩]
  simp [activeHours_cons, active, activeHours]

theorem activeHours_cut_inactive {segment : Segment} {t : Int}
    (inactive : ¬ stockActive texts segment.state) :
    activeHours texts (cutAt t [segment]) = activeHours texts [segment] := by
  rw [cutAt_cons]
  split <;> simp [activeHours_cons, inactive, activeHours]

theorem cutAt_append (t : Int) (left right : List Segment) :
    cutAt t (left ++ right) = cutAt t left ++ cutAt t right :=
  List.flatMap_append

theorem activeHours_cut {segments : List Segment} {t : Int} (seconds : t % 1000000 = 0)
    (proper : ∀ segment ∈ segments, segment.start < segment.stop)
    (even : ∀ segment ∈ segments, stockActive texts segment.state → CutsEvenly segment) :
    activeHours texts (cutAt t segments) = activeHours texts segments := by
  induction segments with
  | nil => rfl
  | cons segment rest ih =>
      have hrest := ih (fun s mem => proper s (List.mem_cons_of_mem segment mem))
        fun s mem => even s (List.mem_cons_of_mem segment mem)
      have hfirst : activeHours texts (cutAt t [segment]) = activeHours texts [segment] := by
        by_cases hactive : stockActive texts segment.state
        · by_cases hin : segment.start < t ∧ t < segment.stop
          · rw [activeHours_cut_single hin.1 hin.2 hactive]
            exact (cutsEvenly_iff (proper segment List.mem_cons_self)).mp
              (even segment List.mem_cons_self hactive) t seconds hin.1 hin.2
          · rw [cutAt_cons, if_neg hin]
            rfl
        · exact activeHours_cut_inactive hactive
      have hsplit : segment :: rest = [segment] ++ rest := rfl
      rw [hsplit, cutAt_append, activeHours_append, activeHours_append, hfirst, hrest]

theorem Tiled.split {start stop : Int} {left right : List Segment}
    (h : Tiled start stop (left ++ right)) :
    ∃ middle, Tiled start middle left ∧ Tiled middle stop right := by
  induction left generalizing start with
  | nil => exact ⟨start, rfl, h⟩
  | cons segment rest ih =>
      obtain ⟨hstart, hproper, hrest⟩ := h
      obtain ⟨middle, hleft, hright⟩ := ih hrest
      exact ⟨middle, ⟨hstart, hproper, hleft⟩, hright⟩

/-- Segments that tile an interval and keep their active hours under cuts can be cut evenly. -/
theorem cutsEvenly_of_activeHours_cut {segments : List Segment} {segment : Segment}
    (tiled : Tiled interval.start interval.stop segments) (mem : segment ∈ segments)
    (active : stockActive texts segment.state)
    (same : ∀ t, t % 1000000 = 0 → segment.start < t → t < segment.stop →
      activeHours texts (cutAt t segments) = activeHours texts segments) :
    CutsEvenly segment := by
  rw [cutsEvenly_iff (tiled.bounds mem).2.1]
  intro t ht hstart hstop
  have hsame := same t ht hstart hstop
  obtain ⟨left, right, rfl⟩ := List.append_of_mem mem
  obtain ⟨middle, hleft, rfl, -, hright⟩ := tiled.split
  have hleftCut : cutAt t left = left :=
    cutAt_outside fun s mem => .inr ((hleft.bounds mem).2.2.trans hstart.le)
  have hrightCut : cutAt t right = right :=
    cutAt_outside fun s mem => .inl (hstop.le.trans (hright.bounds mem).1)
  have hsplit : left ++ segment :: right = left ++ ([segment] ++ right) := rfl
  rw [hsplit, cutAt_append, cutAt_append, hleftCut, hrightCut] at hsame
  simp only [activeHours_append] at hsame
  rw [← activeHours_cut_single hstart hstop active]
  linarith

/-! ### Metrics -/

variable {sellerId : String} {source : MetricSource} {document : StockTimeMetric}

/-- What a document is made from. -/
structure MadeFrom (texts : Texts) (interval : ReadInterval) (source : MetricSource)
    (document : StockTimeMetric) (segments : List Segment) : Prop where
  covered : coveredSegments texts (historyEntries source.history) interval = .ok (some segments)
  named : (strOf texts (.string source.sku)).isSome
  weeks : ∃ bounds, weekBounds interval.stop interval.weekCount interval.start = .ok bounds
  active : document.activeStockHours = activeHours texts segments
  total : document.totalHours = interval.totalHours
  percent : document.activeStockPercent = percent (activeHours texts segments) interval.totalHours

theorem decimalHours_totalHours (interval : ReadInterval) :
    decimalHours interval.totalHours = interval.totalHours := by
  obtain ⟨n, hn⟩ := hoursBetween_int interval.start interval.stop
  rw [ReadInterval.totalHours, hn, decimalHours_of_int]

theorem stockTimeMetric_some
    (h : stockTimeMetric texts sellerId interval source = .ok (some document)) :
    ∃ segments, MadeFrom texts interval source document segments := by
  obtain ⟨segments, hcovered, h⟩ := bind_ok h
  cases hsku : strOf texts (.string source.sku) with
  | none =>
      rw [hsku] at h
      cases h
  | some sku =>
      cases segments with
      | none =>
          rw [hsku] at h
          cases h
      | some segments =>
          rw [hsku] at h
          obtain ⟨weeks, hweeks, h⟩ := bind_ok h
          obtain ⟨bounds, hbounds, -⟩ := bind_ok hweeks
          obtain rfl := Option.some.inj (pure_ok h)
          exact ⟨segments, hcovered, by rw [hsku]; rfl, ⟨bounds, hbounds⟩,
            decimalHours_activeHours segments, decimalHours_totalHours interval, rfl⟩

theorem stockTimeMetric_outcome {segments : List Segment} {outcome : Option StockTimeMetric}
    (covered : coveredSegments texts (historyEntries source.history) interval = .ok (some segments))
    (named : (strOf texts (.string source.sku)).isSome)
    (h : stockTimeMetric texts sellerId interval source = .ok outcome) :
    ∃ document, outcome = some document := by
  obtain ⟨sku, hsku⟩ := Option.isSome_iff_exists.mp named
  obtain ⟨segments', hcovered, h⟩ := bind_ok h
  obtain rfl : segments' = some segments := Except.ok.inj (hcovered.symm.trans covered)
  rw [hsku] at h
  obtain ⟨weeks, -, h⟩ := bind_ok h
  exact ⟨_, (pure_ok h).symm⟩

theorem stockTimeMetric_of_covered {segments : List Segment}
    (covered : coveredSegments texts (historyEntries source.history) interval = .ok (some segments))
    (named : (strOf texts (.string source.sku)).isSome)
    (weeks : ∃ bounds, weekBounds interval.stop interval.weekCount interval.start = .ok bounds) :
    ∃ document, stockTimeMetric texts sellerId interval source = .ok (some document) ∧
      document.activeStockHours = activeHours texts segments := by
  obtain ⟨sku, hsku⟩ := Option.isSome_iff_exists.mp named
  obtain ⟨bounds, hbounds⟩ := weeks
  obtain ⟨document, hdocument⟩ :
      ∃ document, stockTimeMetric texts sellerId interval source = .ok (some document) := by
    simp only [stockTimeMetric, covered, hsku, weekBuckets, hbounds]
    exact ⟨_, rfl⟩
  obtain ⟨segments', hmade⟩ := stockTimeMetric_some hdocument
  obtain rfl : segments' = segments :=
    Option.some.inj (Except.ok.inj (hmade.covered.symm.trans covered))
  exact ⟨document, hdocument, hmade.active⟩

/-- The hours and the share of a document are within those of its interval. -/
def StockTimeMetric.Within (document : StockTimeMetric) : Prop :=
  0 ≤ document.activeStockHours ∧ document.activeStockHours ≤ document.totalHours ∧
    0 ≤ document.activeStockPercent ∧ document.activeStockPercent ≤ 100

theorem percent_within {numerator denominator : ℚ} (nonneg : 0 ≤ numerator)
    (le : numerator ≤ denominator) :
    0 ≤ percent numerator denominator ∧ percent numerator denominator ≤ 100 := by
  unfold percent
  split
  · exact ⟨le_rfl, by norm_num⟩
  · next h =>
      rw [not_le] at h
      have hratio : numerator / denominator ≤ 1 := (div_le_one h).mpr le
      have hlow : (0 : ℤ) ≤ Decimal.roundHalfEven (numerator / denominator * 100 * 10000) := by
        refine Decimal.le_roundHalfEven ?_
        push_cast
        positivity
      have hhigh : Decimal.roundHalfEven (numerator / denominator * 100 * 10000) ≤ 1000000 := by
        refine Decimal.roundHalfEven_le ?_
        push_cast
        linarith
      refine ⟨div_nonneg (by exact_mod_cast hlow) (by norm_num), ?_⟩
      have hcast : ((Decimal.roundHalfEven (numerator / denominator * 100 * 10000) : ℤ) : ℚ) ≤
          1000000 := by exact_mod_cast hhigh
      linarith

theorem reads_of_covered {history : List Doc} {result : Option (List Segment)}
    (covered : coveredSegments texts history interval = .ok result) :
    Reads interval none interval.start (timeline texts history) result := by
  have hscan := (coveredSegments_ok (readable_of_covered covered)).symm.trans covered
  rw [← Except.ok.inj hscan]
  exact reads_timeline

theorem MadeFrom.tiled {segments : List Segment}
    (made : MadeFrom texts interval source document segments) :
    Tiled interval.start interval.stop segments :=
  ((reads_of_covered made.covered).2 segments rfl).1

theorem MadeFrom.within_iff {segments : List Segment}
    (made : MadeFrom texts interval source document segments) :
    document.Within ↔ RoundsWithin texts interval segments := by
  rw [← activeHours_le_iff made.tiled, StockTimeMetric.Within, made.active, made.total,
    made.percent]
  constructor
  · exact fun h => h.2.1
  · intro h
    exact ⟨activeHours_nonneg segments, h, percent_within (activeHours_nonneg segments) h⟩

/-- The histories that the documents of a call are built from. -/
def Sources (texts : Texts) (projections : List Doc) : Set MetricSource :=
  {source | some source ∈ projections.flatMap (metricSources texts)}

/-- The hours of a document stay the same when its history gets an entry, at a whole second,
that repeats the state in force. -/
def IgnoresRepeats (texts : Texts) (sellerId : String) (interval : ReadInterval)
    (source : MetricSource) : Prop :=
  ∀ document, stockTimeMetric texts sellerId interval source = .ok (some document) →
    ∀ history t, t % 1000000 = 0 → InsertsRepeat texts source.history history t →
      ∃ document', stockTimeMetric texts sellerId interval { source with history } =
          .ok (some document') ∧
        document'.activeStockHours = document.activeStockHours

/-- What the roundings of the segments of a source must satisfy. -/
def RoundsEvenly (texts : Texts) (interval : ReadInterval) (source : MetricSource) : Prop :=
  (strOf texts (.string source.sku)).isSome → ∀ segments,
    coveredSegments texts (historyEntries source.history) interval = .ok (some segments) →
      RoundsWithin texts interval segments ∧
        ∀ segment ∈ segments, stockActive texts segment.state → CutsEvenly segment

variable {projections : List Doc} {result : BuildResult StockTimeMetric}

/-- Each source of a call that returned has an outcome, and its document is in the result. -/
theorem stockTimeMetricDocuments_source
    (built : stockTimeMetricDocuments texts sellerId projections interval = .ok result)
    (mem : source ∈ Sources texts projections) :
    ∃ outcome, stockTimeMetric texts sellerId interval source = .ok outcome ∧
      ∀ document, outcome = some document → document ∈ result.documents := by
  obtain ⟨outcomes, hmap, h⟩ := bind_ok built
  obtain ⟨outcome, houtcome, hmem⟩ := mapM_mem hmap mem
  refine ⟨outcome, houtcome, ?_⟩
  rintro document rfl
  rw [← pure_ok h]
  exact List.mem_filterMap.mpr ⟨some document, hmem, rfl⟩

theorem stockTimeMetricDocuments_document
    (built : stockTimeMetricDocuments texts sellerId projections interval = .ok result)
    (mem : document ∈ result.documents) :
    ∃ source ∈ Sources texts projections,
      stockTimeMetric texts sellerId interval source = .ok (some document) := by
  obtain ⟨outcomes, hmap, h⟩ := bind_ok built
  rw [← pure_ok h] at mem
  obtain ⟨outcome, houtcome, hid⟩ := List.mem_filterMap.mp mem
  obtain rfl : outcome = some document := hid
  obtain ⟨source, hsource, hmetric⟩ := mapM_ok hmap houtcome
  cases source with
  | none => cases hmetric
  | some source => exact ⟨source, hsource, hmetric⟩

/-- Dating an entry of the history anew gives an entry that repeats its state. -/
theorem insertsRepeat_of_state {entries : List Value} {t : Int} {state : String}
    (readable : ∀ entry ∈ historyEntries (.array entries), Readable texts entry)
    (inForce : stateAt (timeline texts (historyEntries (.array entries))) t = some state) :
    ∃ history, InsertsRepeat texts (.array entries) history t := by
  obtain ⟨⟨changedAt, state'⟩, hlast, rfl⟩ := Option.map_eq_some_iff.mp inForce
  have hdated := (List.mem_filter.mp (List.mem_of_getLast? hlast)).1
  obtain ⟨entry, hentry, hdating⟩ := List.mem_filterMap.mp (mem_timeline.mp hdated)
  obtain ⟨instant, hinstant, hstate⟩ := Option.bind_eq_some_iff.mp hdating
  obtain ⟨state, hstr, hpair⟩ := Option.map_eq_some_iff.mp hstate
  obtain ⟨rfl, rfl⟩ := Prod.mk.inj hpair
  refine ⟨.array (entries ++ .document (entry.set "changed_at" (.date t)) :: []), entries, [],
    entry.set "changed_at" (.date t), state, by rw [List.append_nil], rfl, ?_, ?_, inForce⟩
  · have hchanged : (entry.set "changed_at" (.date t)).getD "changed_at" = .date t := by
      simp [Doc.getD_set]
    refine ⟨?_, ?_⟩
    · rw [hchanged]
      intro text _ _ h
      cases h
    · rw [hchanged]
      intro h
      cases h
  · simp [dating, Doc.getD_set, instantOf, hstr]

theorem MadeFrom.ignoresRepeats {segments : List Segment}
    (made : MadeFrom texts interval source document segments)
    (even : ∀ segment ∈ segments, stockActive texts segment.state → CutsEvenly segment)
    {history : Value} {t : Int}
    (seconds : t % 1000000 = 0) (repeats : InsertsRepeat texts source.history history t) :
    ∃ document', stockTimeMetric texts sellerId interval { source with history } =
        .ok (some document') ∧
      document'.activeStockHours = document.activeStockHours := by
  have hcovered := coveredSegments_insert repeats made.covered
  obtain ⟨document', hdocument', hactive⟩ : ∃ document',
      stockTimeMetric texts sellerId interval { source with history } = .ok (some document') ∧
        document'.activeStockHours = activeHours texts (cutAt t segments) :=
    stockTimeMetric_of_covered hcovered made.named made.weeks
  refine ⟨document', hdocument', ?_⟩
  rw [hactive, made.active]
  exact activeHours_cut seconds (fun segment mem => (made.tiled.bounds mem).2.1) even

theorem MadeFrom.roundsEvenly {segments : List Segment}
    (made : MadeFrom texts interval source document segments) (within : document.Within)
    (metric : stockTimeMetric texts sellerId interval source = .ok (some document))
    (ignores : IgnoresRepeats texts sellerId interval source) :
    RoundsWithin texts interval segments ∧
      ∀ segment ∈ segments, stockActive texts segment.state → CutsEvenly segment := by
  refine ⟨made.within_iff.mp within, fun segment mem active => ?_⟩
  have hall := readable_of_covered made.covered
  obtain ⟨htiled, hcarries⟩ := (reads_of_covered made.covered).2 segments rfl
  refine cutsEvenly_of_activeHours_cut htiled mem active fun t ht hstart hstop => ?_
  have hforce : stateAt (timeline texts (historyEntries source.history)) t = some segment.state := by
    have hat := hcarries t ((htiled.bounds mem).1.trans hstart.le) segment mem hstart.le hstop
    simpa using hat
  obtain ⟨entries, hentries⟩ : ∃ entries, source.history = .array entries := by
    cases h : source.history with
    | array entries => exact ⟨entries, rfl⟩
    | _ =>
        rw [h] at hforce
        cases hforce
  rw [hentries] at hall hforce
  obtain ⟨history, hrepeats⟩ := insertsRepeat_of_state hall hforce
  rw [← hentries] at hrepeats
  obtain ⟨document', hmetric', hsame⟩ := ignores document metric history t ht hrepeats
  obtain ⟨segments', hmade'⟩ := stockTimeMetric_some hmetric'
  obtain rfl : segments' = cutAt t segments :=
    Option.some.inj (Except.ok.inj
      (hmade'.covered.symm.trans (coveredSegments_insert hrepeats made.covered)))
  rw [← hmade'.active, hsame, made.active]

/-- The hours of all documents stay within their interval, and do not depend on repeated
entries, exactly if the segments of every history round evenly. -/
theorem stockTimeMetrics_within_iff
    (built : stockTimeMetricDocuments texts sellerId projections interval = .ok result) :
    ((∀ document ∈ result.documents, document.Within) ∧
        ∀ source ∈ Sources texts projections, IgnoresRepeats texts sellerId interval source) ↔
      ∀ source ∈ Sources texts projections, RoundsEvenly texts interval source := by
  constructor
  · rintro ⟨hwithin, hignores⟩ source mem named segments covered
    obtain ⟨outcome, houtcome, hdocuments⟩ := stockTimeMetricDocuments_source built mem
    obtain ⟨document, rfl⟩ := stockTimeMetric_outcome covered named houtcome
    obtain ⟨segments', hmade⟩ := stockTimeMetric_some houtcome
    obtain rfl : segments' = segments :=
      Option.some.inj (Except.ok.inj (hmade.covered.symm.trans covered))
    exact hmade.roundsEvenly (hwithin document (hdocuments document rfl)) houtcome
      (hignores source mem)
  · intro hrounds
    refine ⟨fun document mem => ?_, fun source mem document h history t ht hrepeats => ?_⟩
    · obtain ⟨source, hsource, h⟩ := stockTimeMetricDocuments_document built mem
      obtain ⟨segments, hmade⟩ := stockTimeMetric_some h
      exact hmade.within_iff.mpr (hrounds source hsource hmade.named segments hmade.covered).1
    · obtain ⟨segments, hmade⟩ := stockTimeMetric_some h
      have heven := (hrounds source mem hmade.named segments hmade.covered).2
      exact hmade.ignoresRepeats heven ht hrepeats

/-- Three seconds, and an entry at each of them that says the stock is active. -/
def threeSeconds : ReadInterval := ⟨0, 3000000, by decide⟩

def everySecond : Doc :=
  [("item_id", .string "MLM1"),
    ("variations_history", .document [("A1", .array
      ([0, 1000000, 2000000].map fun t =>
        .document [("changed_at", .date t), ("status2", .string "active")]))])]

def everySecondSegments : List Segment :=
  [⟨"active", 0, 1000000⟩, ⟨"active", 1000000, 2000000⟩, ⟨"active", 2000000, 3000000⟩]

theorem built_everySecond : ∃ result,
    stockTimeMetricDocuments plainTexts "1" [everySecond] threeSeconds = .ok result := ⟨_, rfl⟩

def everySecondSource : MetricSource where
  projection := everySecond
  itemId := "MLM1"
  sku := "A1"
  history := .array ([0, 1000000, 2000000].map fun t =>
    .document [("changed_at", .date t), ("status2", .string "active")])

theorem everySecond_covered :
    coveredSegments plainTexts (historyEntries everySecondSource.history) threeSeconds =
      .ok (some everySecondSegments) := by decide

theorem hoursBetween_second (n : Int) (h : 0 ≤ n) (t : Int) :
    hoursBetween t (t + n * 1000000) = ((50 * n + 9) / 18 : Int) / 10000 := by
  have hlength : t + n * 1000000 - t = n * 1000000 := by omega
  rw [hoursBetween_eq (by omega), hlength, roundingError, round_seconds]
  ring

/-- Three times 0.0003 hours is more than the 0.0008 hours of the three seconds. -/
theorem stockTimeMetrics_exceed_interval : ∃ result,
    stockTimeMetricDocuments plainTexts "1" [everySecond] threeSeconds = .ok result ∧
      ∃ document ∈ result.documents, document.totalHours < document.activeStockHours := by
  obtain ⟨result, built⟩ := built_everySecond
  refine ⟨result, built, ?_⟩
  have hmem : everySecondSource ∈ Sources plainTexts [everySecond] := List.mem_cons_self
  obtain ⟨outcome, houtcome, hdocuments⟩ := stockTimeMetricDocuments_source built hmem
  obtain ⟨document, rfl⟩ := stockTimeMetric_outcome everySecond_covered (by decide) houtcome
  obtain ⟨segments, hmade⟩ := stockTimeMetric_some houtcome
  obtain rfl : segments = everySecondSegments :=
    Option.some.inj (Except.ok.inj (hmade.covered.symm.trans everySecond_covered))
  refine ⟨document, hdocuments document rfl, ?_⟩
  have hactive : activeHours plainTexts everySecondSegments = 9 / 10000 := by
    have hall : everySecondSegments.filter (fun s => stockActive plainTexts s.state) =
        everySecondSegments := by decide
    have h₀ := hoursBetween_second 1 (by decide) 0
    have h₁ := hoursBetween_second 1 (by decide) 1000000
    have h₂ := hoursBetween_second 1 (by decide) 2000000
    norm_num at h₀ h₁ h₂
    rw [activeHours, hall]
    simp only [everySecondSegments, List.map_cons, List.map_nil, List.sum_cons, List.sum_nil, h₀,
      h₁, h₂]
    norm_num
  have htotal : threeSeconds.totalHours = 8 / 10000 := by
    have h := hoursBetween_second 3 (by decide) 0
    norm_num at h
    show hoursBetween 0 3000000 = 8 / 10000
    rw [h]
    norm_num
  rw [hmade.active, hmade.total, hactive, htotal]
  norm_num

/-- The document of those three seconds is out of its interval, and its segments round so. -/
theorem stockTimeMetrics_everySecond_iff : ∃ result,
    stockTimeMetricDocuments plainTexts "1" [everySecond] threeSeconds = .ok result ∧
      (((∀ document ∈ result.documents, document.Within) ∧
          ∀ source ∈ Sources plainTexts [everySecond],
            IgnoresRepeats plainTexts "1" threeSeconds source) ↔
        ∀ source ∈ Sources plainTexts [everySecond],
          RoundsEvenly plainTexts threeSeconds source) := by
  obtain ⟨result, built⟩ := built_everySecond
  exact ⟨result, built, stockTimeMetrics_within_iff built⟩

end ZelerPlatform.Imports
