import ZelerPlatform.Devoluciones.CertificateWrites
import ZelerPlatform.History.Plan
import ZelerPlatform.Recovery.Job

/-!
# The planners of automatic runs

Three planners derive the next run of a seller from the certificates that are stored: the
ordinary tail continues the closed days, the intraday run covers the day that is still open,
and the year history walks back from the oldest certificate and reads pending windows again.
An admitted run is a document of its own; its publication is the transaction of
`finalizeQuotaRun`.

A planner decides and inserts its run in one step here. What a run's document holds beside
`RunDoc` and the counter of a window stand in tables of their own. Instants are microseconds.
-/

namespace ZelerPlatform.Devoluciones

open Mongo Mongo.Value

/-! ### Instants -/

def hourMicros : Int := 60 * 60 * 1000000

def dayMicros : Int := 24 * hourMicros

/-- The UTC midnight that opens the day of an instant. -/
def midnight (t : Int) : Int := t / dayMicros * dayMicros

/-- `ORDINARY_TAIL_SETTLE`. -/
def ordinaryTailSettle : Int := hourMicros

/-- `ORDINARY_TAIL_MAX`, `WINDOW_DAYS` in microseconds. -/
def ordinaryTailMax : Int := 10 * dayMicros

/-- `INTRADAY_SETTLE`. -/
def intradaySettle : Int := 30 * 60 * 1000000

/-- `INTRADAY_STEP`. -/
def intradayStep : Int := hourMicros

/-- `YEAR_HISTORY_RETRY_AFTER`. -/
def yearHistoryRetryAfter (runs : Nat) : Int :=
  if runs ≤ 1 then 15 * 60 * 1000000 else if runs = 2 then hourMicros else 6 * hourMicros

/-- `YEAR_HISTORY_PENDING_RECHECK_AFTER`. -/
def yearHistoryPendingRecheckAfter : Int := 6 * hourMicros

/-- `datetime.min`. -/
def datetimeMin : Int := -62135596800 * 1000000

def settledMidnight (now : Int) : Int := midnight (now - ordinaryTailSettle)

def ordinaryTailBounds (coverageEnd : Option Int) (now : Int) : Option (Int × Int) :=
  coverageEnd.bind fun start =>
    let stop := min (settledMidnight now) (start + ordinaryTailMax)
    if start < stop then some (start, stop) else none

def intradayBounds (now : Int) : Option (Int × Int) :=
  let settled := now - intradaySettle
  let start := midnight settled
  let cut := start + (settled - start) / intradayStep * intradayStep
  if start < cut then some (start, cut) else none

def yearHistoryTarget (now : Int) : Int := midnight (now - 366 * dayMicros)

def yearHistoryBounds (oldest : Option Int) (now : Int) : Option (Int × Int) :=
  oldest.bind fun stop =>
    let start := max (yearHistoryTarget now) (stop - ordinaryTailMax)
    if start < stop then some (start, stop) else none

/-! ### Runs -/

def ordinaryTailAuthorization : String := "refresh-tail:v1"

def yearHistoryAuthorization : String := "refresh-year-history:v1"

/-- The binding of an automatic run. -/
def automaticBinding (authorizationId cohortId sellerId : String) (bounds : Int × Int)
    (fingerprints : List (String × String)) : RunBinding where
  authorizationId := authorizationId
  cohortId := cohortId
  sellerId := sellerId
  scope := "devoluciones"
  start := bounds.1
  stop := bounds.2
  partitionVersion := "v1"
  releaseFingerprints := fingerprints

def ordinaryTailBinding (sellerId : String) (bounds : Int × Int) (now : Int) : RunBinding :=
  automaticBinding ordinaryTailAuthorization "zelerdata-refresh-tail-v1" sellerId bounds
    [("admitted_on", History.isoDay now)]

def intradayBinding (sellerId : String) (bounds : Int × Int) : RunBinding :=
  automaticBinding intradayAuthorization "zelerdata-refresh-intraday-v1" sellerId bounds
    [("cut", Recovery.isoformat (bounds.2 / 1000))]

def yearHistoryBinding (sellerId : String) (bounds : Int × Int) (now : Int) (attempt : Nat) :
    RunBinding :=
  automaticBinding yearHistoryAuthorization "zelerdata-refresh-year-history-v1" sellerId bounds
    (("admitted_on", History.isoDay now) ::
      if attempt > 1 then [("attempt", toString attempt)] else [])

/-- The times of a run's document, beside `updated_at`. -/
structure RunTimes where
  createdAt : Option Int
  expiresAt : Option Int
  notBefore : Option Int

/-- The documents of the planners, and the time. -/
structure Planner where
  coverage : Coverage
  times : String → RunTimes
  pendingOpenMediations : String → Nat → Int
  clock : Int

/-- `allowed_seconds`, in microseconds. -/
def allowedMicros (windowCount : Nat) : Int := (895 * windowCount + 175) * 1000000

/-- `MongoRunWindowRepository.create`; a run that is there already stays as it is. -/
def createRun (digests : Digests) (binding : RunBinding) (p : Planner) : Planner :=
  let id := digests.runId binding
  let windowCount := (partitionWindows binding.start binding.stop).length
  let run : RunDoc :=
    { id
      authorizationId := binding.authorizationId
      cohortId := binding.cohortId
      sellerId := binding.sellerId
      scope := binding.scope
      start := floorMs binding.start
      stop := floorMs binding.stop
      partitionVersion := binding.partitionVersion
      releaseFingerprints := binding.releaseFingerprints
      windowCount
      state := "authorized"
      updatedAt := none }
  match p.coverage.runs.insert run with
  | none => p
  | some runs =>
      { p with
        coverage := { p.coverage with runs }
        times := Function.update p.times id
          ⟨some (floorMs p.clock), some (floorMs (p.clock + allowedMicros windowCount)), none⟩ }

/-- `ADVANCEABLE_RUN_STATES`. -/
def advanceableRunStates : List String := ["authorized", "active"]

/-! ### Planners -/

/-- `_certificate_mode`, and the epoch of the control. -/
def certificateMode (control : Option OperationDoc) : Option Int :=
  control.bind fun operation =>
    if operation.coverageMode = some "active" ∧ operation.coverageAckFence = operation.fence then
      operation.coverageEpoch
    else none

section

variable (digests : Digests) (sellerId : String)

/-- The certificates of the seller in an epoch. -/
def ofEpoch (epoch : Int) (c : CertificateDoc) : Bool :=
  c.sellerId == sellerId && c.coverageEpoch == epoch

/-- The loop of `_full_day_coverage_end`: `skipped` are the intraday certificates it has met. -/
def fullDayCoverageEndFrom (db : Coverage) (epoch : Int) : Nat → List String → Option Int
  | 0, _ => none
  | fuel + 1, skipped =>
      match db.certificates.findFirst
          (fun c => ofEpoch sellerId epoch c && decide (c.id ∉ skipped)) (fun c => -c.dateTo) with
      | none => none
      | some latest =>
          if isIntradayCertificate sellerId db latest then
            fullDayCoverageEndFrom db epoch fuel (latest.id :: skipped)
          else some latest.dateTo

/-- `_full_day_coverage_end`; every round skips another certificate. -/
def fullDayCoverageEnd (db : Coverage) (epoch : Int) : Option Int :=
  fullDayCoverageEndFrom sellerId db epoch (db.certificates.docs.length + 1) []

/-- The `date_from` of the oldest certificate. -/
def oldestDateFrom (db : Coverage) (epoch : Int) : Option Int :=
  (db.certificates.findFirst (ofEpoch sellerId epoch) CertificateDoc.dateFrom).map (·.dateFrom)

/-- What `admit_ordinary_devoluciones_tail` admits. -/
def ordinaryTail (p : Planner) : Option RunBinding := do
  let epoch ← certificateMode p.coverage.operation
  let bounds ← ordinaryTailBounds (fullDayCoverageEnd sellerId p.coverage epoch) p.clock
  let binding := ordinaryTailBinding sellerId bounds p.clock
  if (p.coverage.runs.byKey (digests.runId binding)).isSome then none else some binding

/-- What `advance_intraday_devoluciones` admits. -/
def intradayRun (p : Planner) : Option RunBinding := do
  let epoch ← certificateMode p.coverage.operation
  let bounds ← intradayBounds p.clock
  let coverageEnd ← fullDayCoverageEnd sellerId p.coverage epoch
  if coverageEnd < bounds.1 - dayMicros then none
  else
    let binding := intradayBinding sellerId bounds
    if (p.coverage.runs.byKey (digests.runId binding)).isSome then none else some binding

/-- The order of `year_history_window_runs`: most recent first, then by id. -/
def moreRecent (times : String → RunTimes) (a b : RunDoc) : Prop :=
  let created := fun run : RunDoc => (times run.id).createdAt.getD datetimeMin
  created b < created a ∨ created a = created b ∧ a.id ≤ b.id

instance (times : String → RunTimes) : DecidableRel (moreRecent times) := fun a b => by
  unfold moreRecent
  infer_instance

/-- `year_history_window_runs`. -/
def yearHistoryWindowRuns (p : Planner) (stop : Int) : List RunDoc :=
  (p.coverage.runs.find fun run => run.sellerId == sellerId &&
    run.authorizationId == yearHistoryAuthorization &&
    run.stop == floorMs stop).insertionSort (moreRecent p.times)

/-- `_year_run_in_time`. -/
def yearRunInTime (p : Planner) (run : RunDoc) : Bool :=
  decide (run.state ∈ advanceableRunStates) && (p.times run.id).expiresAt.any (p.clock < ·)

/-- `_year_run_ended`. -/
def yearRunEnded (p : Planner) (run : RunDoc) : Int :=
  let times := p.times run.id
  let stamps := [times.createdAt, run.updatedAt] ++
    if run.state ∈ advanceableRunStates then [times.expiresAt] else []
  ((stamps.filterMap id).max?).getD datetimeMin

/-- `year_history_pending_windows`. -/
def yearHistoryPendingWindows (p : Planner) (epoch : Int) : List WindowDoc :=
  let runIds := (p.coverage.certificates.find fun c =>
    ofEpoch sellerId epoch c && c.kind == "quota_run").map (·.sourceIdentity)
  (p.coverage.windows.filter fun window => decide (window.runId ∈ runIds) &&
    decide (0 < p.pendingOpenMediations window.runId window.index)).insertionSort
      fun a b => a.start ≤ b.start

/-- Whether the latest of a window's runs is in time, or ended long enough ago. -/
def recheckDue (p : Planner) (runs : List RunDoc) : Bool :=
  match runs with
  | [] => true
  | latest :: _ => yearRunInTime p latest ||
      decide (yearRunEnded p latest + yearHistoryPendingRecheckAfter ≤ p.clock)

/-- `year_history_pending_recheck`. -/
def yearHistoryPendingRecheck (p : Planner) (epoch : Int) : Option (Int × Int) :=
  ((yearHistoryPendingWindows sellerId p epoch).find? fun window =>
    recheckDue p (yearHistoryWindowRuns sellerId p window.stop)).map fun window =>
      (window.start, window.stop)

/-- The new run of a window; `waits` says whether the retry schedule holds. -/
def yearHistoryAdmission (p : Planner) (bounds : Int × Int) (waits : Bool) : Option RunBinding :=
  let runs := yearHistoryWindowRuns sellerId p bounds.2
  let binding := yearHistoryBinding sellerId bounds p.clock (runs.length + 1)
  let admitted :=
    if (p.coverage.runs.byKey (digests.runId binding)).isSome then none else some binding
  match runs with
  | [] => admitted
  | latest :: _ =>
      if yearRunInTime p latest then none
      else if waits && decide (p.clock <
          yearRunEnded p latest + yearHistoryRetryAfter runs.length) then none
      else admitted

/-- What `advance_year_history_devoluciones` admits for an eligible seller. -/
def yearHistoryRun (p : Planner) : Option RunBinding := do
  let epoch ← certificateMode p.coverage.operation
  match yearHistoryPendingRecheck sellerId p epoch with
  | some bounds => yearHistoryAdmission digests sellerId p bounds false
  | none =>
      let bounds ← yearHistoryBounds (oldestDateFrom sellerId p.coverage epoch) p.clock
      yearHistoryAdmission digests sellerId p bounds true

/-- The binding is what one of the planners admits. -/
def Admits (p : Planner) (binding : RunBinding) : Prop :=
  binding ∈ ordinaryTail digests sellerId p ∨ binding ∈ intradayRun digests sellerId p ∨
    binding ∈ yearHistoryRun digests sellerId p

/-- The authorizations of the three planners. -/
def plannedAuthorizations : List String :=
  [ordinaryTailAuthorization, intradayAuthorization, yearHistoryAuthorization]

/-! ### Steps -/

/-- The fields of a certificate that say what it covers and where it comes from. -/
structure Placement where
  id : String
  sellerId : String
  kind : String
  sourceIdentity : String
  dateFrom : Int
  dateTo : Int
  coverageEpoch : Int
  deriving DecidableEq

def CertificateDoc.placement (c : CertificateDoc) : Placement :=
  ⟨c.id, c.sellerId, c.kind, c.sourceIdentity, c.dateFrom, c.dateTo, c.coverageEpoch⟩

/-- The window is one of those its run is divided into. -/
def Coverage.Partitioned (db : Coverage) (window : WindowDoc) : Prop :=
  ∃ run ∈ db.runs.docs, run.id = window.runId ∧
    (window.index, window.start, window.stop) ∈ partitionWindows run.start run.stop

/-- What happens besides admissions and publications: certificates are renewed or become stale,
runs advance, fail or expire, windows are prepared, completed and counted, leases change hands
and rows are written. Certificates and runs keep what they are about. -/
structure Advances (p q : Planner) : Prop where
  clock : p.clock ≤ q.clock
  epoch : q.coverage.epoch = p.coverage.epoch
  certificates : q.coverage.certificates.docs.map CertificateDoc.placement =
    p.coverage.certificates.docs.map CertificateDoc.placement
  runs : q.coverage.runs.docs.map (fun run => (run.id, run.binding)) =
    p.coverage.runs.docs.map fun run => (run.id, run.binding)
  windows : ∀ window ∈ q.coverage.windows, q.coverage.Partitioned window

inductive PlanEvent
  | advance
  | admission (binding : RunBinding)
  | publish (run : RunDoc)

/-- The steps of a seller with automatic coverage. A publication is of a run of the planners,
which was read before. -/
inductive PlanStep : Planner → PlanEvent → Planner → Prop
  | advance {p q} (h : Advances p q) : PlanStep p .advance q
  | admission {p} (binding : RunBinding) (h : Admits digests sellerId p binding)
      (wellFormed : binding.wellFormed = true) :
      PlanStep p (.admission binding) (createRun digests binding p)
  | publish {p db} (ctx : Context) (run : RunDoc) (windows : List WindowDoc)
      (now clock clock' : Int) (seller : ctx.sellerId = sellerId)
      (planned : run.authorizationId ∈ plannedAuthorizations)
      (stored : ∃ r ∈ p.coverage.runs.docs, r.id = run.id ∧ r.binding = run.binding)
      (h : finalizeQuotaRun digests ctx run windows now clock clock' p.coverage = .ok db) :
      PlanStep p (.publish run) { p with coverage := db }

end

end ZelerPlatform.Devoluciones
