import ZelerPlatform.History.Plan

/-!
# The execution filter and its mirror

`history_execution_query` is a Mongo filter over the optional limits of a plan and
`history_execution_allowed` its mirror in Python. The filter looks into arrays and takes
64-bit integers, the mirror tests for a datetime, a string and a plain integer. So each limit
is met by both, by the filter alone or by neither, and the two disagree on a plan exactly if
all limits are met by the filter and one of them by the filter alone.
-/

namespace ZelerPlatform.History

open Mongo
open Value (floorMs)

/-- Who finds a limit met. -/
inductive Reading
  | both
  | queryOnly
  | neither
  deriving DecidableEq, Repr

def Reading.inQuery (reading : Reading) : Bool := reading != .neither

def Reading.inMirror (reading : Reading) : Bool := reading == .both

theorem inQuery_of_bool (b : Bool) :
    b = (if b then Reading.queryOnly else .neither).inQuery := by
  cases b <;> rfl

/-- The values a limit may hold; stored dates are whole milliseconds. -/
def Supported : Value → Prop
  | .date us => floorMs us = us
  | .document _ => False
  | .other .. => False
  | _ => True

/-- A date after the millisecond of `now`. -/
def laterDate (now : Int) : Value → Bool
  | .date t => floorMs now < t
  | _ => false

/-- Whether `execution_until` is still ahead. -/
def untilReading (now : Int) : Option Value → Reading
  | none => .both
  | some (.date t) => if now < t then .both else .neither
  | some (.array xs) => if xs.any (laterDate now) then .queryOnly else .neither
  | some _ => .neither

/-- Whether `execution_utc_day` is today. -/
def dayReading (now : Int) : Option Value → Reading
  | none => .both
  | some (.string day) => if day = isoDay now then .both else .neither
  | some (.array xs) =>
      if xs.any fun x => x.compare (.string (isoDay now)) == .eq then .queryOnly else .neither
  | some _ => .neither

/-- An array that passes for a nonnegative integer: it holds an integer and a number that
is not below zero. -/
def passesForCount (xs : List Value) : Bool :=
  (xs.any fun x => x.integer?.isSome) && xs.any fun x => x.rank == 10 && x.compare (.int 0) != .lt

/-- Whether `consumed` attempts of a numeric limit leave one, or have been charged. -/
def leaves (limit consumed : Int) (charged : Bool) : Bool :=
  0 ≤ limit && 0 ≤ consumed && (consumed < limit || (consumed == limit && charged))

/-- Whether a numeric limit of attempts is kept; `reading` is how its own type is taken. -/
def countReading (reading : Reading) (limit : Int) (charged : Bool) : Option Value → Reading
  | none => if leaves limit 0 charged then reading else .neither
  | some (.int consumed) => if leaves limit consumed charged then reading else .neither
  | some (.long consumed) => if leaves limit consumed charged then .queryOnly else .neither
  | some _ => .neither

/-- Whether an array passes for a limit: every number comes before it in BSON order. -/
def arrayReading (xs : List Value) (charged : Bool) : Option Value → Reading
  | none => .queryOnly
  | some (.int consumed) => if 0 ≤ consumed then .queryOnly else .neither
  | some (.long consumed) => if 0 ≤ consumed then .queryOnly else .neither
  | some (.array ys) =>
      if passesForCount ys && (if charged then Value.compareList ys xs != .gt
          else Value.compareList ys xs == .lt) then .queryOnly else .neither
  | some _ => .neither

/-- Whether `execution_attempt_limit` leaves an attempt beyond `execution_consumed`. -/
def attemptsReading (limits : ExecutionLimits) (charged : Bool) : Reading :=
  match limits.executionAttemptLimit with
  | none => .both
  | some (.int limit) => countReading .both limit charged limits.executionConsumed
  | some (.long limit) => countReading .queryOnly limit charged limits.executionConsumed
  | some (.array xs) =>
      if passesForCount xs then arrayReading xs charged limits.executionConsumed else .neither
  | some _ => .neither

/-- No limit is met by the filter alone while every limit is met by the filter. -/
def Unambiguous (limits : ExecutionLimits) (now : Int) (charged : Bool) : Prop :=
  untilReading now limits.executionUntil = .neither ∨
  dayReading now limits.executionUtcDay = .neither ∨
  attemptsReading limits charged = .neither ∨
  (untilReading now limits.executionUntil = .both ∧
    dayReading now limits.executionUtcDay = .both ∧ attemptsReading limits charged = .both)

instance (limits : ExecutionLimits) (now : Int) (charged : Bool) :
    Decidable (Unambiguous limits now charged) :=
  inferInstanceAs (Decidable (_ ∨ _))

/-! ### One limit -/

section

variable {now : Int} {charged : Bool} {limits : ExecutionLimits} {field : Option Value}

theorem until_query (supported : ∀ v ∈ field, Supported v) :
    (field.isNone || gtMatches field (.date (floorMs now))) = (untilReading now field).inQuery := by
  have helement (v : Value) : (v.rank == (Value.date (floorMs now)).rank &&
      v.compare (.date (floorMs now)) == .gt) = laterDate now v := by
    cases v with
    | date t =>
        simp only [Value.rank, beq_self_eq_true, Bool.true_and, Value.compare, laterDate]
        rw [Bool.eq_iff_iff, beq_iff_eq, compare_gt_iff_gt, decide_eq_true_eq]
    | other r p =>
        by_cases hr : r = 45
        · subst hr
          simp [Value.rank, Value.compare, Value.num?, laterDate]
        · simp [Value.rank, hr, laterDate]
    | _ => rfl
  cases field with
  | none => rfl
  | some v =>
      have hv := supported v rfl
      cases v with
      | date t =>
          have hlater : (floorMs now < t) ↔ now < t := by
            have : floorMs t = t := hv
            unfold floorMs at *
            omega
          simp only [Option.isNone_some, Bool.false_or, gtMatches, candidates, List.any_cons,
            List.any_nil, Bool.or_false, helement, laterDate, untilReading, hlater]
          by_cases h : now < t <;> simp [h, Reading.inQuery]
      | array xs =>
          have harray : laterDate now (.array xs) = false := rfl
          simp only [Option.isNone_some, Bool.false_or, gtMatches, candidates, List.any_cons,
            helement, harray, untilReading]
          exact inQuery_of_bool _
      | document => exact hv.elim
      | other => exact hv.elim
      | _ => rfl

theorem until_mirror :
    (match field with
      | none => true
      | some (.date til) => decide (now < til)
      | some _ => false) = (untilReading now field).inMirror := by
  cases field with
  | none => rfl
  | some v =>
      cases v with
      | date t => by_cases h : now < t <;> simp [untilReading, h, Reading.inMirror]
      | array xs =>
          simp only [untilReading]
          split <;> rfl
      | _ => rfl

/-- Among the values of a document only a string equals a string. -/
theorem compare_string {v : Value} {day : String} (supported : Supported v) :
    (v.compare (.string day) == .eq) = (match v with | .string s => decide (s = day) | _ => false) := by
  cases v with
  | string s =>
      simp only [Value.compare]
      rw [Bool.eq_iff_iff, beq_iff_eq, Std.LawfulEqOrd.compare_eq_iff_eq, decide_eq_true_eq]
  | document => exact supported.elim
  | other => exact supported.elim
  | _ => rfl

theorem day_query (supported : ∀ v ∈ field, Supported v) :
    (field.isNone || eqMatches field (.string (isoDay now))) = (dayReading now field).inQuery := by
  cases field with
  | none => rfl
  | some v =>
      have hv := supported v rfl
      have hcompare : (v.compare (.string (isoDay now)) == .eq) = _ := compare_string hv
      cases v with
      | string day =>
          simp only [Option.isNone_some, Bool.false_or, eqMatches, candidates, List.any_cons,
            List.any_nil, Bool.or_false, hcompare, dayReading, Bool.false_and]
          by_cases h : day = isoDay now <;> simp [h, Reading.inQuery]
      | array xs =>
          simp only [Option.isNone_some, Bool.false_or, eqMatches, candidates, List.any_cons,
            hcompare, dayReading, Bool.false_and, Bool.or_false]
          exact inQuery_of_bool _
      | document => exact hv.elim
      | other => exact hv.elim
      | _ => rfl

theorem day_mirror :
    (match field with
      | none => true
      | some day => day == .string (isoDay now)) = (dayReading now field).inMirror := by
  cases field with
  | none => rfl
  | some v =>
      cases v with
      | string day => by_cases h : day = isoDay now <;> simp [dayReading, h, Reading.inMirror]
      | array xs =>
          simp only [dayReading]
          split <;> rfl
      | _ => rfl

/-! ### The limit of attempts -/

/-- Whether the filter takes a value for a nonnegative integer. -/
def countMatches (field : Option Value) : Bool :=
  integerMatches field && gteMatches field (.int 0)

theorem countMatches_integer {v : Value} {n : Int} (h : v.integer? = some n) :
    countMatches (some v) = decide (0 ≤ n) := by
  have hcandidates : candidates (some v) = [v] := by
    cases v <;> simp only [Value.integer?, reduceCtorEq] at h <;> rfl
  have hinteger : integerMatches (some v) = true := by
    simp [integerMatches, hcandidates, h]
  unfold countMatches
  rw [hinteger, Bool.true_and, Bool.eq_iff_iff, gteMatches_integer h rfl, decide_eq_true_eq]

theorem countMatches_array (xs : List Value) :
    countMatches (some (.array xs)) = passesForCount xs := rfl

/-- The filter's comparison of the consumed attempts with the limit. -/
def withinLimit (consumed : Value) (limit : Value) (charged : Bool) : Bool :=
  (if charged then exprLe else exprLt) (some consumed) (some limit)

theorem withinLimit_integers {consumed limit : Value} {c l : Int} (hc : consumed.integer? = some c)
    (hl : limit.integer? = some l) :
    withinLimit consumed limit charged = (decide (c < l) || (c == l && charged)) := by
  unfold withinLimit
  cases charged with
  | true =>
      rw [Bool.eq_iff_iff, if_pos rfl, exprLe_integers hc hl]
      simp [le_iff_lt_or_eq]
  | false =>
      rw [Bool.eq_iff_iff, if_neg (by decide), exprLt_integers hc hl]
      simp

/-- In BSON order an array comes after every number. -/
theorem withinLimit_array_integer {ys : List Value} {limit : Value} {l : Int}
    (hl : limit.integer? = some l) : withinLimit (.array ys) limit charged = false := by
  cases limit <;> simp only [Value.integer?, reduceCtorEq] at hl <;> cases charged <;> rfl

theorem withinLimit_integer_array {xs : List Value} {consumed : Value} {c : Int}
    (hc : consumed.integer? = some c) : withinLimit consumed (.array xs) charged = true := by
  cases consumed <;> simp only [Value.integer?, reduceCtorEq] at hc <;> cases charged <;> rfl

/-- The clause of the filter on a limit and what has been consumed. -/
def attemptsClause (limit : Value) (consumed : Option Value) (charged : Bool) : Bool :=
  countMatches (some limit) && (consumed.isNone || countMatches consumed)
    && withinLimit (ifNull consumed (.int 0)) limit charged

theorem attemptsClause_integer {limit : Value} {l : Int} (hl : limit.integer? = some l)
    (reading : Reading) (taken : reading ≠ .neither)
    (supported : ∀ v ∈ limits.executionConsumed, Supported v) :
    attemptsClause limit limits.executionConsumed charged
      = (countReading reading l charged limits.executionConsumed).inQuery := by
  have hleaves (r : Reading) (hr : r ≠ .neither) (c : Int) :
      (decide (0 ≤ l) && decide (0 ≤ c) && (decide (c < l) || (c == l && charged)))
        = (if leaves l c charged then r else .neither).inQuery := by
    unfold leaves
    split
    · next h =>
        rw [h]
        cases r with
        | neither => exact absurd rfl hr
        | _ => rfl
    · next h =>
        rw [Bool.eq_false_iff.mpr h]
        rfl
  have hqueryOnly : Reading.queryOnly ≠ .neither := by decide
  unfold attemptsClause
  rw [countMatches_integer hl]
  cases hconsumed : limits.executionConsumed with
  | none =>
      show (decide (0 ≤ l) && true && withinLimit (.int 0) limit charged) = _
      rw [withinLimit_integers (c := 0) rfl hl]
      exact hleaves reading taken 0
  | some v =>
      have hv := supported v hconsumed
      have hnumber (r : Reading) (hr : r ≠ .neither) (c : Int) (hc : v.integer? = some c)
          (hnull : ifNull (some v) (.int 0) = v) :
          (decide (0 ≤ l) && ((some v).isNone || countMatches (some v))
            && withinLimit (ifNull (some v) (.int 0)) limit charged)
          = (if leaves l c charged then r else .neither).inQuery := by
        rw [hnull, withinLimit_integers hc hl, countMatches_integer hc]
        exact hleaves r hr c
      cases v with
      | int c => exact hnumber reading taken c rfl rfl
      | long c => exact hnumber .queryOnly hqueryOnly c rfl rfl
      | array ys =>
          show (decide (0 ≤ l) && _ && withinLimit (.array ys) limit charged) = false
          rw [withinLimit_array_integer hl, Bool.and_false]
      | document => exact hv.elim
      | other => exact hv.elim
      | _ => simp [countMatches, integerMatches, candidates, Value.integer?, countReading,
          Reading.inQuery]

theorem attemptsClause_array (xs : List Value)
    (supported : ∀ v ∈ limits.executionConsumed, Supported v) :
    attemptsClause (.array xs) limits.executionConsumed charged
      = (if passesForCount xs then arrayReading xs charged limits.executionConsumed
          else .neither).inQuery := by
  unfold attemptsClause
  rw [countMatches_array]
  by_cases hpasses : passesForCount xs = true
  · rw [hpasses, if_pos rfl, Bool.true_and]
    cases hconsumed : limits.executionConsumed with
    | none =>
        show (true && withinLimit (.int 0) (.array xs) charged) = true
        rw [withinLimit_integer_array (c := 0) rfl]
        rfl
    | some v =>
        have hv := supported v hconsumed
        have hnumber (c : Int) (hc : v.integer? = some c) (hnull : ifNull (some v) (.int 0) = v) :
            (((some v).isNone || countMatches (some v))
              && withinLimit (ifNull (some v) (.int 0)) (.array xs) charged)
            = (if 0 ≤ c then Reading.queryOnly else .neither).inQuery := by
          rw [hnull, withinLimit_integer_array hc, countMatches_integer hc]
          by_cases h : 0 ≤ c <;> simp [h, Reading.inQuery]
        cases v with
        | int c => exact hnumber c rfl rfl
        | long c => exact hnumber c rfl rfl
        | array ys =>
            show (passesForCount ys && withinLimit (.array ys) (.array xs) charged) = _
            have hwithin : withinLimit (.array ys) (.array xs) charged
                = if charged then Value.compareList ys xs != .gt
                    else Value.compareList ys xs == .lt := by
              cases charged <;> rfl
            rw [hwithin]
            exact inQuery_of_bool _
        | document => exact hv.elim
        | other => exact hv.elim
        | _ => simp [countMatches, integerMatches, candidates, Value.integer?, arrayReading,
            Reading.inQuery]
  · rw [if_neg hpasses, Bool.eq_false_iff.mpr hpasses]
    rfl

theorem attempts_query (supported : ∀ v ∈ limits.executionAttemptLimit, Supported v)
    (supported' : ∀ v ∈ limits.executionConsumed, Supported v) :
    (limits.executionAttemptLimit.isNone ||
      (integerMatches limits.executionAttemptLimit &&
        gteMatches limits.executionAttemptLimit (.int 0) &&
        (limits.executionConsumed.isNone ||
          (integerMatches limits.executionConsumed &&
            gteMatches limits.executionConsumed (.int 0))) &&
        (if charged then exprLe else exprLt)
          (some (ifNull limits.executionConsumed (.int 0))) limits.executionAttemptLimit))
      = (attemptsReading limits charged).inQuery := by
  unfold attemptsReading
  cases hlimit : limits.executionAttemptLimit with
  | none => rfl
  | some v =>
      have hv := supported v hlimit
      show attemptsClause v limits.executionConsumed charged = _
      cases v with
      | int l => exact attemptsClause_integer rfl .both (by decide) supported'
      | long l => exact attemptsClause_integer rfl .queryOnly (by decide) supported'
      | array xs => exact attemptsClause_array xs supported'
      | document => exact hv.elim
      | other => exact hv.elim
      | _ => rfl

theorem attempts_mirror (supported : ∀ v ∈ limits.executionConsumed, Supported v) :
    (match limits.executionAttemptLimit with
      | none => true
      | some (.int limit) =>
          match limits.executionConsumed.getD (.int 0) with
          | .int consumed =>
              0 ≤ limit && 0 ≤ consumed && (consumed < limit || (consumed == limit && charged))
          | _ => false
      | some _ => false) = (attemptsReading limits charged).inMirror := by
  have hreading (l c : Int) : leaves l c charged
      = (if leaves l c charged then Reading.both else .neither).inMirror := by
    split
    · next h => exact h
    · next h => exact Bool.eq_false_iff.mpr h
  have hqueryOnly (p : Prop) [Decidable p] :
      (if p then Reading.queryOnly else .neither).inMirror = false := by
    split <;> rfl
  unfold attemptsReading
  cases hlimit : limits.executionAttemptLimit with
  | none => rfl
  | some v =>
      cases hconsumed : limits.executionConsumed with
      | none =>
          cases v with
          | int l => exact hreading l 0
          | long l => exact (hqueryOnly _).symm
          | array xs => by_cases h : passesForCount xs = true <;> simp [h, arrayReading, Reading.inMirror]
          | _ => rfl
      | some w =>
          have hw := supported w hconsumed
          cases v with
          | int l =>
              cases w with
              | int c => exact hreading l c
              | long c => exact (hqueryOnly _).symm
              | _ => rfl
          | long l =>
              cases w with
              | int c => exact (hqueryOnly _).symm
              | long c => exact (hqueryOnly _).symm
              | _ => rfl
          | array xs =>
              by_cases h : passesForCount xs = true
              · simp only [h, if_true]
                cases w with
                | int c => exact (hqueryOnly _).symm
                | long c => exact (hqueryOnly _).symm
                | array ys => exact (hqueryOnly _).symm
                | _ => rfl
              · simp [h, Reading.inMirror]
          | _ => rfl

end

/-! ### The result -/

/-- The types the fields of a plan may hold. -/
structure ExecutionLimits.Supported (limits : ExecutionLimits) : Prop where
  executionUntil : ∀ v ∈ limits.executionUntil, History.Supported v
  executionUtcDay : ∀ v ∈ limits.executionUtcDay, History.Supported v
  executionAttemptLimit : ∀ v ∈ limits.executionAttemptLimit, History.Supported v
  executionConsumed : ∀ v ∈ limits.executionConsumed, History.Supported v

/-- The filter and its mirror agree on a plan exactly if no limit is met by the filter alone
while the others are met too: no array that holds a later date, today's text or a count, and
no 64-bit limit or count. -/
theorem query_eq_allowed_iff (limits : ExecutionLimits) (supported : limits.Supported) (now : Int)
    (charged : Bool) :
    historyExecutionQuery limits now charged = historyExecutionAllowed limits now charged ↔
      Unambiguous limits now charged := by
  have hquery : historyExecutionQuery limits now charged =
      ((untilReading now limits.executionUntil).inQuery &&
        (dayReading now limits.executionUtcDay).inQuery &&
        (attemptsReading limits charged).inQuery) := by
    unfold historyExecutionQuery
    rw [until_query supported.executionUntil, day_query supported.executionUtcDay,
      attempts_query supported.executionAttemptLimit supported.executionConsumed]
  have hallowed : historyExecutionAllowed limits now charged =
      ((untilReading now limits.executionUntil).inMirror &&
        (dayReading now limits.executionUtcDay).inMirror &&
        (attemptsReading limits charged).inMirror) := by
    rw [← until_mirror, ← day_mirror, ← attempts_mirror supported.executionConsumed]
    rfl
  rw [hquery, hallowed]
  unfold Unambiguous
  generalize untilReading now limits.executionUntil = first
  generalize dayReading now limits.executionUtcDay = second
  generalize attemptsReading limits charged = third
  cases first <;> cases second <;> cases third <;> decide

/-! ### A 64-bit limit -/

/-- A plan with a limit of 2^31 attempts, which is stored as a 64-bit integer. -/
def wideLimit : ExecutionLimits where
  executionUntil := none
  executionUtcDay := none
  executionAttemptLimit := some (.long 2147483648)
  executionConsumed := some (.int 1)

theorem wideLimit_disagrees :
    historyExecutionQuery wideLimit 1785456000000000 false = true ∧
    historyExecutionAllowed wideLimit 1785456000000000 false = false := by
  decide

def plainLimit : ExecutionLimits where
  executionUntil := some (.date 1785542400000000)
  executionUtcDay := some (.string "2026-07-31")
  executionAttemptLimit := some (.int 10)
  executionConsumed := some (.int 10)

theorem query_eq_allowed_plain :
    historyExecutionQuery plainLimit 1785456000000000 true
      = historyExecutionAllowed plainLimit 1785456000000000 true := by
  have supported : plainLimit.Supported := by
    constructor
    all_goals
      rintro v ⟨rfl⟩
      trivial
  exact (query_eq_allowed_iff plainLimit supported 1785456000000000 true).mpr (by decide)

end ZelerPlatform.History
