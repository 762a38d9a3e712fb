import ZelerPlatform.History.PilotPlan
import ZelerPlatform.Library.Mongo.Value

/-!
# From a question scan to its monthly subscriptions

A scan is asked for over twelve calendar months up to its end. The request, the plan of the months
and the boundaries of the plan each compute the start of the window. The request keeps the time of
day, the plan keeps it up to the second.
-/

namespace ZelerPlatform.History.Questions

open Mongo.Value (floorMs)
open Pilot

/-! ### The request -/

inductive ScanError
  | value (message : String)
  | historyLimit (message : String)
  deriving DecidableEq, Repr

def ofPlanError : PlanError → ScanError
  | .value message => .value message

/-- A datetime argument, an aware one as it is in UTC. -/
inductive Bound
  | naive
  | aware (utc : DateTime)

structure QuestionScanRecoveryRequest where
  sellerId : String
  planId : String
  dateFrom : DateTime
  dateTo : DateTime
  readModel : String

/-- `value.isascii() and value.isdecimal()`. -/
def isAsciiDecimal (value : String) : Bool := value ≠ "" && value.toList.all Char.isDigit

/-- `microsecond`. -/
def microsecond (t : DateTime) : Int := t.timeOfDay % 1000000

/-- `end.replace(year=end.year - 1, day=…)`. -/
def yearBefore (t : DateTime) : Except PlanError DateTime :=
  datetime (t.year - 1) t.month (min t.day (Onboarding.monthLength (t.year - 1) t.month))
    t.timeOfDay

/-- `QuestionScanRecoveryRequest.__post_init__`. -/
def questionScanRecoveryRequest (sellerId planId : String) (dateFrom dateTo : Bound)
    (readModel : String) : Except ScanError QuestionScanRecoveryRequest :=
  match dateFrom, dateTo with
  | .aware start, .aware stop =>
      if !isAsciiDecimal sellerId || Mongo.pyStrip planId = "" || readModel ≠ "questions" then
        .error (.value "question scan requires seller, plan and aware bounds")
      else if stop.year ≤ 1 then
        .error (.value "question scan plan requires twelve calendar months")
      else do
        let expected ← (yearBefore stop).mapError ofPlanError
        if start ≠ expected ∨ microsecond start % 1000 ≠ 0 ∨ microsecond stop % 1000 ≠ 0 then
          throw (.value "question scan plan requires exact twelve-month BSON bounds")
        return ⟨sellerId, planId, start, stop, readModel⟩
  | _, _ => .error (.value "question scan requires seller, plan and aware bounds")

/-! ### The head -/

inductive Phase
  | discover
  | hydrate
  | verify
  | publish
  | completed
  deriving DecidableEq, Repr

inductive NextCursor
  | offset (position : Nat)
  | scroll (cursor : String)
  deriving DecidableEq, Repr

/-- `SheetsHistoryAcquisition`; instants but for the bounds are microseconds. -/
structure SheetsHistoryAcquisition where
  id : String
  sellerId : String
  planId : String
  scopeId : String
  jobId : String
  readModel : String
  dateFrom : DateTime
  dateTo : DateTime
  generation : Nat
  passNumber : Nat
  checkpointRevision : Nat
  pageSequence : Nat
  phase : Phase
  nextCursor : Option NextCursor
  activeRangeId : Option String
  sourceTotal : Option Nat
  discoveredCount : Nat
  fetchedCount : Nat
  publishedCount : Nat
  driftRestarts : Nat
  publishAfter : Option String
  observedFrom : Option Int
  observedUntil : Option Int
  createdAt : Int
  updatedAt : Int

/-- `re.fullmatch(r"orders:[0-9]{8}:[0-9]{8}", scope_id)`. -/
def isMonthlyScope (scopeId : String) : Bool :=
  scopeId.length = 24 && scopeId.toList.take 7 = "orders:".toList &&
    ((scopeId.toList.drop 7).take 8).all Char.isDigit && (scopeId.toList.drop 15).head? = some ':' &&
    (scopeId.toList.drop 16).all Char.isDigit

/-- `NonEmptyText`. -/
def isText (value : String) : Bool := Mongo.pyStrip value ≠ ""

def NextCursor.valid : NextCursor → Bool
  | .offset _ => true
  | .scroll cursor => isText cursor

def NextCursor.isOffset : NextCursor → Bool
  | .offset _ => true
  | .scroll _ => false

/-- The constraints of the fields. -/
def SheetsHistoryAcquisition.fieldsValid (head : SheetsHistoryAcquisition) : Bool :=
  isText head.id && isAsciiDecimal head.sellerId && isText head.planId && isText head.scopeId &&
    isText head.jobId && (head.readModel = "orders" || head.readModel = "questions") &&
    1 ≤ head.generation && 1 ≤ head.passNumber && head.nextCursor.all NextCursor.valid &&
    head.activeRangeId.all isText && head.driftRestarts ≤ 3 && head.publishAfter.all isText

/-- `_validate_contract`. -/
def SheetsHistoryAcquisition.validateContract (head : SheetsHistoryAcquisition) :
    Except ScanError SheetsHistoryAcquisition :=
  if head.dateTo.instant ≤ head.dateFrom.instant then
    .error (.value "history bounds must be positive")
  else if head.readModel = "orders" ∧ isMonthlyScope head.scopeId = false then
    .error (.value "orders require a monthly chunk identity")
  else if head.readModel = "orders" ∧
      head.dateFrom.instant + 90 * Onboarding.usPerDay < head.dateTo.instant then
    .error (.value "order intervals cannot exceed 90 days")
  else if head.readModel = "orders" ∧ head.nextCursor.any (! ·.isOffset) then
    .error (.value "order cursor must be an offset")
  else if head.readModel ≠ "orders" ∧
      (head.scopeId ≠ "seller_scan" ∨ head.nextCursor.any NextCursor.isOffset) then
    .error (.value "questions require seller_scan scope and a scan cursor")
  else if head.updatedAt < head.createdAt then
    .error (.value "updated_at must not precede created_at")
  else if head.observedFrom.isNone ≠ head.observedUntil.isNone then
    .error (.value "observation bounds must be supplied together")
  else if head.observedFrom.any fun start => head.observedUntil.any fun stop => stop < start then
    .error (.value "observation bounds must be ordered")
  else if ¬ (head.publishedCount ≤ head.fetchedCount ∧ head.fetchedCount ≤ head.discoveredCount) then
    .error (.value "publication and fetch counts cannot exceed their prerequisites")
  else if (head.publishedCount = 0) ≠ (head.publishAfter = none) then
    .error (.value "publication checkpoint must correspond to publication progress")
  else if head.phase = .completed ∧ (head.observedFrom = none ∨ head.sourceTotal = none ∨
      head.nextCursor ≠ none ∨ head.publishedCount ≠ head.fetchedCount) then
    .error (.value "completed acquisition requires final local bookkeeping")
  else .ok head

/-- `model_validate`. -/
def SheetsHistoryAcquisition.validate (head : SheetsHistoryAcquisition) :
    Except ScanError SheetsHistoryAcquisition :=
  if head.fieldsValid then head.validateContract else .error (.value "validation error")

/-- A datetime as BSON holds it. -/
def storedBound (t : DateTime) : DateTime :=
  { t with
    timeOfDay := floorMs t.timeOfDay
    time_mem := by
      have := t.time_mem
      rw [floorMs]
      omega }

def SheetsHistoryAcquisition.stored (head : SheetsHistoryAcquisition) : SheetsHistoryAcquisition :=
  { head with
    dateFrom := storedBound head.dateFrom
    dateTo := storedBound head.dateTo
    observedFrom := head.observedFrom.map floorMs
    observedUntil := head.observedUntil.map floorMs
    createdAt := floorMs head.createdAt
    updatedAt := floorMs head.updatedAt }

/-- `_document`, where `encodedLength` is the length of the BSON of a head, if it has any. -/
def document (encodedLength : SheetsHistoryAcquisition → Option Nat) (limit : Nat)
    (head : SheetsHistoryAcquisition) : Except ScanError SheetsHistoryAcquisition :=
  match encodedLength head with
  | none => .error (.value "receipt is not BSON serializable")
  | some length =>
      if limit < length then .error (.historyLimit "whole document exceeds local byte budget")
      else .ok head.stored

/-- `_head`. -/
def headOf (encodedLength : SheetsHistoryAcquisition → Option Nat)
    (head : SheetsHistoryAcquisition) : Except ScanError SheetsHistoryAcquisition := do
  let validated ← head.validate
  let decoded ← document encodedLength (64 * 1024) validated
  decoded.validate

/-! ### Subscriptions -/

structure QuestionMonthSubscription where
  acquisitionId : String
  generation : Nat
  passNumber : Nat
  chunkId : String
  dateFrom : DateTime
  dateTo : DateTime

/-- The traversal of the verification is finished. -/
def SheetsHistoryAcquisition.Finished (head : SheetsHistoryAcquisition) : Prop :=
  head.readModel = "questions" ∧ head.phase = .verify ∧ 2 ≤ head.passNumber ∧
    head.nextCursor = none ∧ head.pageSequence ≠ 0 ∧
    head.sourceTotal = some head.discoveredCount ∧ head.observedUntil ≠ none

instance (head : SheetsHistoryAcquisition) : Decidable head.Finished :=
  inferInstanceAs (Decidable (head.readModel = "questions" ∧ head.phase = .verify ∧
    2 ≤ head.passNumber ∧ head.nextCursor = none ∧ head.pageSequence ≠ 0 ∧
    head.sourceTotal = some head.discoveredCount ∧ head.observedUntil ≠ none))

def subscription (head : SheetsHistoryAcquisition) (chunk : HistoryChunk) :
    QuestionMonthSubscription :=
  ⟨head.id, head.generation, head.passNumber, chunk.id, chunk.start, chunk.stop⟩

/-- `question_subscriptions`. -/
def questionSubscriptions (f : Formats)
    (encodedLength : SheetsHistoryAcquisition → Option Nat) (given : SheetsHistoryAcquisition) :
    Except ScanError (List QuestionMonthSubscription) := do
  let head ← headOf encodedLength given
  if ¬ head.Finished then
    throw (.value "subscriptions require the finished verification traversal")
  let plan ← ((⟨head.dateTo, 12, by decide⟩ : HistoryPlanner).planFor f "questions").mapError
    ofPlanError
  if plan.chunks.head?.map HistoryChunk.start ≠ some head.dateFrom then
    throw (.value "subscriptions do not match the fixed twelve-month plan")
  return plan.chunks.map (subscription head)

/-! ### Bounds that match -/

section

variable {f : Formats} {encodedLength : SheetsHistoryAcquisition → Option Nat}
variable {sellerId planId readModel : String} {dateFrom dateTo : Bound}
variable {request : QuestionScanRecoveryRequest} {head : SheetsHistoryAcquisition}

theorem datetime_eq_ok {year month day timeOfDay : Int} {t : DateTime}
    (h : datetime year month day timeOfDay = .ok t) :
    t.year = year ∧ t.month = month ∧ t.day = day ∧ t.timeOfDay = timeOfDay := by
  rw [datetime] at h
  split at h
  case isTrue =>
      split at h
      case isTrue =>
          cases h
          exact ⟨rfl, rfl, rfl, rfl⟩
      case isFalse => cases h
  case isFalse => cases h

theorem DateTime.ext_fields {s t : DateTime} (year : s.year = t.year) (month : s.month = t.month)
    (day : s.day = t.day) (timeOfDay : s.timeOfDay = t.timeOfDay) : s = t := by
  cases s
  cases t
  simp only [DateTime.mk.injEq]
  exact ⟨year, month, day, timeOfDay⟩

/-- What a request that is accepted has been checked for. -/
structure Accepted (request : QuestionScanRecoveryRequest) : Prop where
  later : 1 < request.dateTo.year
  before : yearBefore request.dateTo = .ok request.dateFrom
  millisecond : request.dateTo.timeOfDay % 1000 = 0

theorem accepted_of_ok
    (h : questionScanRecoveryRequest sellerId planId dateFrom dateTo readModel = .ok request) :
    Accepted request := by
  rw [questionScanRecoveryRequest.eq_def] at h
  split at h
  case h_1 start stop =>
      split at h
      case isTrue => cases h
      case isFalse =>
          split at h
          case isTrue => cases h
          case isFalse hyear =>
              cases hbefore : yearBefore stop with
              | error e =>
                  rw [hbefore] at h
                  cases h
              | ok expected =>
                  rw [hbefore] at h
                  change (if start ≠ expected ∨ microsecond start % 1000 ≠ 0 ∨
                    microsecond stop % 1000 ≠ 0 then _ else _) = _ at h
                  by_cases hbounds : start ≠ expected ∨ microsecond start % 1000 ≠ 0 ∨
                      microsecond stop % 1000 ≠ 0
                  · rw [if_pos hbounds] at h
                    cases h
                  · rw [if_neg hbounds] at h
                    replace h := Except.ok.inj h
                    obtain ⟨hstart, -, hstop⟩ : start = expected ∧ microsecond start % 1000 = 0 ∧
                        microsecond stop % 1000 = 0 := by
                      simpa [not_or] using hbounds
                    subst h
                    rw [microsecond] at hstop
                    exact ⟨not_le.mp hyear, hstart ▸ hbefore, by simp only; omega⟩
  case h_2 => cases h

/-- The year before is twelve months before, with the time of day kept. -/
theorem Accepted.inMonth (h : Accepted request) {start : DateTime}
    (hstart : request.dateTo.InMonth (request.dateTo.index - 12) start) :
    start = request.dateFrom ↔ microsecond request.dateTo = 0 := by
  obtain ⟨hyear, hmonth, hday, htime⟩ := datetime_eq_ok h.before
  have hindex := hstart.index
  have hmonths := start.month_mem
  have hmonths' := request.dateTo.month_mem
  simp only [DateTime.index] at hindex
  have hseconds := hstart.timeOfDay
  rw [DateTime.seconds] at hseconds
  rw [microsecond]
  constructor
  · rintro rfl
    omega
  · intro hwhole
    have hyears : start.year = request.dateTo.year - 1 := by omega
    have hmonths : start.month = request.dateTo.month := by omega
    refine DateTime.ext_fields (by omega) (by omega) ?_ (by omega)
    rw [hstart.day, hday, hyears, hmonths]

theorem storedBound_eq {t : DateTime} (h : t.timeOfDay % 1000 = 0) : storedBound t = t := by
  refine DateTime.ext_fields rfl rfl rfl ?_
  show floorMs t.timeOfDay = t.timeOfDay
  rw [floorMs]
  omega

/-- A check that was passed. -/
theorem of_ite_error {c : Prop} [Decidable c] {e : ScanError} {α : Type} {x : Except ScanError α}
    {a : α} (h : (if c then .error e else x) = .ok a) : x = .ok a := by
  split at h
  case isTrue => cases h
  case isFalse => exact h

theorem validate_eq_ok {stored : SheetsHistoryAcquisition} (h : head.validate = .ok stored) :
    stored = head := by
  rw [SheetsHistoryAcquisition.validate] at h
  split at h
  case isTrue =>
      rw [SheetsHistoryAcquisition.validateContract] at h
      iterate 11 replace h := of_ite_error h
      exact (Except.ok.inj h).symm
  case isFalse => cases h

theorem headOf_eq_ok {stored : SheetsHistoryAcquisition}
    (h : headOf encodedLength head = .ok stored) : stored = head.stored := by
  rw [headOf] at h
  cases hvalid : head.validate with
  | error e =>
      rw [hvalid] at h
      cases h
  | ok validated =>
      rw [hvalid] at h
      obtain rfl := validate_eq_ok hvalid
      change (document encodedLength (64 * 1024) validated >>= fun decoded => decoded.validate) =
        _ at h
      rw [document] at h
      split at h
      case h_1 => cases h
      case h_2 length _ =>
          split at h
          case isTrue => cases h
          case isFalse => exact validate_eq_ok h

/-- The subscriptions of a head tile its bounds. -/
def TileBounds (head : SheetsHistoryAcquisition) (subscriptions : List QuestionMonthSubscription) :
    Prop :=
  Adjoining (fun s : QuestionMonthSubscription => s.dateFrom.instant) (fun s => s.dateTo.instant)
    head.dateFrom.instant subscriptions head.dateTo.instant

theorem adjoining_subscriptions {chunks : List HistoryChunk} {lo hi : Int}
    (h : Adjoining (fun chunk : HistoryChunk => chunk.start.instant)
      (fun chunk => chunk.stop.instant) lo chunks hi) :
    Adjoining (fun s : QuestionMonthSubscription => s.dateFrom.instant)
      (fun s => s.dateTo.instant) lo (chunks.map (subscription head)) hi := by
  induction chunks generalizing lo with
  | nil => exact h
  | cons chunk rest ih => exact ⟨h.1, h.2.1, ih h.2.2⟩

/-- What comes of a finished scan: the plan up to its end, if the plan starts where the scan
does. -/
theorem questionSubscriptions_run (f : Formats) {stored : SheetsHistoryAcquisition}
    (haccepted : Accepted request) (held : headOf encodedLength head = .ok stored)
    (finished : stored.Finished) (hfrom : head.dateFrom = request.dateFrom)
    (hto : head.dateTo = request.dateTo) :
    ∃ subscriptions start, questionSubscriptions f encodedLength head =
        (if start ≠ request.dateFrom then
          .error (.value "subscriptions do not match the fixed twelve-month plan")
        else .ok subscriptions) ∧
      (start = request.dateFrom ↔ microsecond request.dateTo = 0) ∧
      Adjoining (fun s : QuestionMonthSubscription => s.dateFrom.instant)
        (fun s => s.dateTo.instant) start.instant subscriptions request.dateTo.instant := by
  have hmilli := haccepted.millisecond
  have hstoredFrom : stored.dateFrom = request.dateFrom := by
    rw [headOf_eq_ok held, ← hfrom]
    refine storedBound_eq ?_
    rw [hfrom, (datetime_eq_ok haccepted.before).2.2.2, hmilli]
  have hstoredTo : stored.dateTo = request.dateTo := by
    rw [headOf_eq_ok held, ← hto]
    exact storedBound_eq (hto ▸ hmilli)
  have hyear : 1 ≤ (12 * request.dateTo.year + (request.dateTo.month - 1) - (12 : Nat)) / 12 := by
    have := haccepted.later
    have := request.dateTo.month_mem
    omega
  have hrequired : Mongo.pyStrip "questions" ≠ "" := by decide +kernel
  obtain ⟨plan, start, hplan, hstart, hcovers, -⟩ :=
    planFor_covers f ⟨request.dateTo, 12, by decide⟩ hrequired hyear
  refine ⟨plan.chunks.map (subscription stored), start, ?_, haccepted.inMonth hstart,
    adjoining_subscriptions hcovers.adjoining⟩
  rw [questionSubscriptions, held]
  show (if ¬ stored.Finished then _ else _) = _
  rw [if_neg (not_not_intro finished), hstoredTo, hplan]
  show (if plan.chunks.head?.map HistoryChunk.start ≠ some stored.dateFrom then _ else _) = _
  rw [hcovers.first, hstoredFrom]
  by_cases h : start = request.dateFrom
  · rw [if_neg (not_not_intro (congrArg some h)), if_neg (not_not_intro h)]
    rfl
  · rw [if_pos (fun heq => h (Option.some.inj heq)), if_pos h]
    rfl

/-- A finished scan can be published exactly when its end has no fraction of a second. -/
theorem questionSubscriptions_iff {stored : SheetsHistoryAcquisition}
    (accepted :
      questionScanRecoveryRequest sellerId planId dateFrom dateTo readModel = .ok request)
    (held : headOf encodedLength head = .ok stored) (finished : stored.Finished)
    (from_eq : head.dateFrom = request.dateFrom) (to_eq : head.dateTo = request.dateTo) :
    (∃ subscriptions, questionSubscriptions f encodedLength head = .ok subscriptions ∧
      TileBounds head subscriptions) ↔ microsecond request.dateTo = 0 := by
  obtain ⟨subscriptions, start, hrun, hsame, hadjoining⟩ :=
    questionSubscriptions_run f (accepted_of_ok accepted) held finished from_eq to_eq
  rw [hrun, ← hsame]
  by_cases h : start = request.dateFrom
  · refine ⟨fun _ => h, fun _ => ⟨subscriptions, if_neg (not_not_intro h), ?_⟩⟩
    rw [TileBounds, from_eq, to_eq, ← h]
    exact hadjoining
  · rw [if_pos h]
    refine ⟨?_, fun heq => absurd heq h⟩
    rintro ⟨_, herror, -⟩
    cases herror

end

/-- A verification that has traversed its only page. -/
def verified (dateFrom dateTo : DateTime) : SheetsHistoryAcquisition where
  id := "a1"
  sellerId := "7"
  planId := "p1"
  scopeId := "seller_scan"
  jobId := "a1"
  readModel := "questions"
  dateFrom := dateFrom
  dateTo := dateTo
  generation := 1
  passNumber := 2
  checkpointRevision := 3
  pageSequence := 1
  phase := .verify
  nextCursor := none
  activeRangeId := none
  sourceTotal := some 1
  discoveredCount := 1
  fetchedCount := 1
  publishedCount := 0
  driftRestarts := 0
  publishAfter := none
  observedFrom := some 0
  observedUntil := some 0
  createdAt := 0
  updatedAt := 0

/-- The last day of February of a leap year, at midnight. -/
def leapDay : DateTime := ⟨2024, 2, 29, 0, by decide, by decide, by decide, by decide⟩

def leapDayBefore : DateTime := ⟨2023, 2, 28, 0, by decide, by decide, by decide, by decide⟩

theorem questionSubscriptions_leapDay :
    ∃ subscriptions, questionSubscriptions ⟨fun s => s, 4⟩ (fun _ => some 400)
        (verified leapDayBefore leapDay) = .ok subscriptions ∧
      TileBounds (verified leapDayBefore leapDay) subscriptions := by
  have accepted : questionScanRecoveryRequest "7" "p1" (.aware leapDayBefore) (.aware leapDay)
      "questions" = .ok ⟨"7", "p1", leapDayBefore, leapDay, "questions"⟩ := by rfl
  have held : headOf (fun _ => some 400) (verified leapDayBefore leapDay) =
      .ok (verified leapDayBefore leapDay) := by rfl
  exact (questionSubscriptions_iff accepted held (by decide) rfl rfl).mpr rfl

/-- Half a second after noon. -/
def afterNoon : DateTime :=
  ⟨2026, 1, 15, 43200500000, by decide, by decide, by decide, by decide⟩

def afterNoonBefore : DateTime :=
  ⟨2025, 1, 15, 43200500000, by decide, by decide, by decide, by decide⟩

/-- A scan of a whole year that ends half a second after noon is accepted and cannot be
published. -/
theorem afterNoon_unpublished : ∃ request stored,
    questionScanRecoveryRequest "7" "p1" (.aware afterNoonBefore) (.aware afterNoon) "questions" =
      .ok request ∧
    headOf (fun _ => some 400) (verified afterNoonBefore afterNoon) = .ok stored ∧
    stored.Finished ∧ stored.dateFrom = request.dateFrom ∧ stored.dateTo = request.dateTo ∧
    questionSubscriptions ⟨fun s => s, 4⟩ (fun _ => some 400)
        (verified afterNoonBefore afterNoon) =
      .error (.value "subscriptions do not match the fixed twelve-month plan") := by
  have haccepted : Accepted ⟨"7", "p1", afterNoonBefore, afterNoon, "questions"⟩ :=
    ⟨by decide, rfl, by decide⟩
  have held : headOf (fun _ => some 400) (verified afterNoonBefore afterNoon) =
      .ok (verified afterNoonBefore afterNoon) := by rfl
  refine ⟨_, _, by rfl, held, by decide, rfl, rfl, ?_⟩
  obtain ⟨_, start, hrun, hsame, -⟩ :=
    questionSubscriptions_run ⟨fun s => s, 4⟩ haccepted held (by decide) rfl rfl
  rw [hrun, if_pos]
  intro hstart
  exact absurd (hsame.mp hstart) (by decide)

end ZelerPlatform.History.Questions
