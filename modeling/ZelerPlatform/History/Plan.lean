import ZelerPlatform.Library.Mongo.Value
import ZelerPlatform.Library.Tally

/-!
# The history plan document and its execution limits

One document of `sheets_history_backfill_plans` authorises the acquisition of a
seller's history and accounts for it. Counters are integers, absent until they are first
incremented; the optional limits an operator sets on an execution are kept as the BSON
values they are, because the filter `history_execution_query` and its Python mirror
`history_execution_allowed` test the types of those values.

Instants count microseconds since the epoch.
-/

namespace ZelerPlatform.History

open Mongo

def policyVersion : String := "history-on-link-v1"

/-- `SOURCES`, in order. -/
inductive Source
  | orders
  | questions
  | shipments
  | messages
  | claimsReturns
  | fullWithdrawals
  deriving DecidableEq, Repr

inductive Phase
  | initial
  | maintenance
  deriving DecidableEq, Repr

/-- The path below `execution_charged` and its sibling ledgers. -/
structure CreditPath where
  execution : String
  source : Source
  phase : Phase
  deriving DecidableEq, Repr

structure SourceBudget where
  physicalAttempts : Int
  consumed : Int

structure IncrementalPolicy where
  maxDailyTotal : Int
  maxDailySource : Int

/-- A receipt below `execution_work`: the authority of one prepaid request. -/
structure WorkReceipt where
  eventId : String
  sellerId : String
  eventType : String
  resource : String
  source : Source
  phase : Phase
  path : String
  credit : Int
  sent : Int

/-! ### Days -/

/-- Year, month and day of the month of a day counted from the epoch. -/
def civil (day : Int) : Int × Nat × Nat :=
  let shifted := day + 719468
  let era := shifted / 146097
  let dayOfEra := (shifted - era * 146097).toNat
  let yearOfEra := (dayOfEra - dayOfEra / 1460 + dayOfEra / 36524 - dayOfEra / 146096) / 365
  let dayOfYear := dayOfEra - (365 * yearOfEra + yearOfEra / 4 - yearOfEra / 100)
  let march := (5 * dayOfYear + 2) / 153
  let month := if march < 10 then march + 3 else march - 9
  (yearOfEra + era * 400 + (if month ≤ 2 then 1 else 0), month,
    dayOfYear - (153 * march + 2) / 5 + 1)

def padded (width n : Nat) : String :=
  String.ofList (List.replicate (width - (toString n).length) '0') ++ toString n

/-- `now.astimezone(UTC).date().isoformat()`. -/
def isoDay (now : Int) : String :=
  let (year, month, day) := civil (now / 86400000000)
  padded 4 year.toNat ++ "-" ++ padded 2 month ++ "-" ++ padded 2 day

example : isoDay 1785456000000000 = "2026-07-31" := by decide

/-! ### Execution limits -/

/-- The fields `history_execution_query` tests. -/
structure ExecutionLimits where
  executionUntil : Option Value
  executionUtcDay : Option Value
  executionAttemptLimit : Option Value
  executionConsumed : Option Value

/-- The Mongo filter: each limit is optional, and a present one must be met. -/
def historyExecutionQuery (limits : ExecutionLimits) (now : Int) (charged : Bool) : Bool :=
  (limits.executionUntil.isNone ||
    gtMatches limits.executionUntil (.date (Value.floorMs now))) &&
  (limits.executionUtcDay.isNone ||
    eqMatches limits.executionUtcDay (.string (isoDay now))) &&
  (limits.executionAttemptLimit.isNone ||
    (integerMatches limits.executionAttemptLimit &&
      gteMatches limits.executionAttemptLimit (.int 0) &&
      (limits.executionConsumed.isNone ||
        (integerMatches limits.executionConsumed &&
          gteMatches limits.executionConsumed (.int 0))) &&
      (if charged then exprLe else exprLt)
        (some (ifNull limits.executionConsumed (.int 0))) limits.executionAttemptLimit))

/-- The Python mirror on the decoded fields: only a plain integer is an `int`. -/
def historyExecutionAllowed (limits : ExecutionLimits) (now : Int) (charged : Bool) : Bool :=
  (match limits.executionUntil with
    | none => true
    | some (.date til) => now < til
    | some _ => false) &&
  (match limits.executionUtcDay with
    | none => true
    | some day => day == .string (isoDay now)) &&
  (match limits.executionAttemptLimit with
    | none => true
    | some (.int limit) =>
        match limits.executionConsumed.getD (.int 0) with
        | .int consumed =>
            0 ≤ limit && 0 ≤ consumed && (consumed < limit || (consumed == limit && charged))
        | _ => false
    | some _ => false)

/-! ### The plan -/

structure Plan where
  sellerId : String
  policyVersion : String
  authorityKind : Option String
  state : String
  eligible : Bool
  sources : List Source
  leaseToken : Option String
  leaseUntil : Option Int
  executionId : Option String
  executionUntil : Option Value
  executionUtcDay : Option Value
  executionAttemptLimit : Option Value
  executionConsumed : Option Int
  executionSent : Option Int
  executionCharged : Tally CreditPath
  executionSentBySource : Tally CreditPath
  executionWorkSentBySource : Tally CreditPath
  executionWork : List (String × WorkReceipt)
  budget : Source → SourceBudget
  totalBudget : Int
  totalConsumed : Int
  incrementalDay : Option String
  incrementalConsumed : Option Int
  incrementalSourceConsumed : Source → Option Int
  incrementalPolicy : IncrementalPolicy

namespace Plan

def limits (plan : Plan) : ExecutionLimits where
  executionUntil := plan.executionUntil
  executionUtcDay := plan.executionUtcDay
  executionAttemptLimit := plan.executionAttemptLimit
  executionConsumed := plan.executionConsumed.map Value.ofInt

/-- The counters of an execution, absent ones read as zero. -/
def consumed (plan : Plan) : Int := plan.executionConsumed.getD 0

def sent (plan : Plan) : Int := plan.executionSent.getD 0

/-- The integer an attempt limit stands for; a value of another type never authorises. -/
def limit? (plan : Plan) : Option Int := plan.executionAttemptLimit.bind Value.integer?

end Plan

/-- `$inc` of a counter that may be absent. -/
def increment (counter : Option Int) : Option Int := some (counter.getD 0 + 1)

@[simp] theorem increment_getD (counter : Option Int) :
    (increment counter).getD 0 = counter.getD 0 + 1 := rfl

/-- `$lt` of a counter against a number: a missing counter is below every number. -/
def below (counter : Option Int) (bound : Int) : Bool :=
  match counter with
  | none => true
  | some n => n < bound

/-- `$exists: false` or an integer of at least zero. -/
def absentOrNonnegative (counter : Option Int) : Bool :=
  match counter with
  | none => true
  | some n => 0 ≤ n

/-- An integer counter of at least zero. -/
def nonnegative (counter : Option Int) : Bool :=
  match counter with
  | none => false
  | some n => 0 ≤ n

/-- `re.fullmatch(r"[a-f0-9]{32}", value)`. -/
def isHex32 (value : String) : Bool :=
  value.length == 32 && value.toList.all fun c => ('a' ≤ c && c ≤ 'f') || ('0' ≤ c && c ≤ '9')

/-- `history_request_trace` without its text: no trace without an execution, and an error
for an identity or a source that cannot carry one. -/
def historyRequestTrace (executionId : Option String) (source : Source) (incremental : Bool) :
    Except String (Option CreditPath) :=
  match executionId with
  | none => .ok none
  | some execution =>
      if isHex32 execution = true ∧ source ≠ .fullWithdrawals then
        .ok (some ⟨execution, source, if incremental then .maintenance else .initial⟩)
      else .error "invalid history execution trace identity or source"

/-! ### What the execution filter guarantees -/

theorem integer?_ifNull_ofInt (counter : Option Int) :
    (ifNull (counter.map Value.ofInt) (.int 0)).integer? = some (counter.getD 0) := by
  cases counter with
  | none => rfl
  | some n =>
      have hsome : ifNull ((some n).map Value.ofInt) (.int 0) = Value.ofInt n := by
        simp only [Option.map_some, Value.ofInt]
        split <;> rfl
      rw [hsome]
      exact Value.integer?_ofInt n

theorem Plan.attemptLimit_of_limit? {plan : Plan} {limit : Int} (h : plan.limit? = some limit) :
    ∃ v, plan.executionAttemptLimit = some v ∧ v.integer? = some limit :=
  Option.bind_eq_some_iff.mp h

/-- An uncharged attempt that passes the filter leaves room below the limit. -/
theorem Plan.consumed_lt_limit {plan : Plan} {now limit : Int}
    (hquery : historyExecutionQuery plan.limits now false = true)
    (hlimit : plan.limit? = some limit) : plan.consumed < limit := by
  obtain ⟨v, hv, hinteger⟩ := Plan.attemptLimit_of_limit? hlimit
  simp only [historyExecutionQuery, limits, hv, Bool.and_eq_true, Bool.or_eq_true] at hquery
  have hexpr := hquery.2.resolve_left (by simp)
  exact (exprLt_integers (integer?_ifNull_ofInt plan.executionConsumed) hinteger).mp
    (by simpa using hexpr.2)

end ZelerPlatform.History
