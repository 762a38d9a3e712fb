import ZelerPlatform.Devoluciones.Lease
import ZelerPlatform.Library.Fallible
import ZelerPlatform.Markers.Marker
import ZelerPlatform.Recovery.Queue

/-!
# Publication of an acquired range

A recovery worker acquires a range from the source and then publishes rows, marker and
completion of its job in one transaction. The marker of the range takes over what has been
proven before, as one of three rules says: orders and questions retain the previous proofs
that the new marker does not cover, a portion of the year's history is added to the
retained ones, and any other range stands alone.

A job and its rows have dates in milliseconds; clocks are read in microseconds.
-/

namespace ZelerPlatform.Markers

open Fallible Recovery

inductive PublishError
  | value (message : String)
  | leaseLost (message : String)
  | writer (message : String)
  deriving DecidableEq

/-- What a publication reads of an order or a question. -/
structure Row where
  id : String
  dateCreated : Time
  hasBuyer : Bool
  hasItems : Bool
  hasShipment : Bool
  tags : List String
  unavailableFields : List String
  deriving DecidableEq, Repr

/-- The documents of one seller and read model. -/
structure Db where
  jobs : Jobs
  marker : Option StoredMarker
  rows : List Row
  operation : Option Devoluciones.OperationDoc

/-- The microseconds of a stored date. -/
def micros (t : Time) : Int := 1000 * t

/-! ### Acquisition -/

/-- What `_coverage` returns. -/
structure Acquired where
  before : Option StoredMarker
  start : Int
  stop : Int

/-- `_coverage`, for the range of the job. -/
def coverage (job : Job) (dateFrom dateTo : Time) (marker : Option StoredMarker) (now : Int) :
    Acquired :=
  let start := micros dateFrom
  let stop := micros dateTo
  match marker with
  | none => ⟨marker, start, stop⟩
  | some stored =>
      let prior := stored.marker
      if job.readModel ≠ .orders ∧ job.policyAuthority.all (·.isEmpty) ∧ ¬ job.yearHistory ∧
          markerCovers prior prior.dateFrom prior.reconciledUntil now true then
        ⟨marker, min start (prior.dateFrom.getD start), max stop (prior.reconciledUntil.getD stop)⟩
      else ⟨marker, start, stop⟩

/-! ### The new marker -/

/-- The previous proofs that the new marker does not cover; every question reads the clock. -/
def candidates (marker previous : Marker) (clock : Nat → Int) : List Proof :=
  (previous.proofs.zipIdx.filter fun (proof, k) =>
    !markerCovers marker proof.dateFrom proof.reconciledUntil (clock k) true).map Prod.fst

/-- A portion of the year's history. -/
def portion (start stop : Int) (valid : Marker) : Proof where
  state := .reconciled
  dateFrom := some start
  reconciledUntil := some stop
  validUntil := valid.validUntil

/-- `_year_history_marker`. -/
def yearHistoryMarker (before : Option Marker) (start stop : Int) (valid : Marker) :
    Except PublishError Marker := do
  match before.filter (·.state = .reconciled) with
  | none => throw (.value "year history extends a reconciled marker only")
  | some marker =>
      let retained := mergeIntervalProofs (marker.retained.getD [] ++ [portion start stop valid])
      raiseIf (¬ ∃ block ∈ retained, block.dateFrom ≤ start ∧ stop ≤ block.reconciledUntil)
        (.value "retained proof capacity reached")
      return { marker with retained := some (retained.map Block.proof) }

/-- The marker of an orders or a questions range. -/
def rangeMarker (job : Job) (before : Option Marker) (marker : Marker) (clock : Nat → Int) :
    Marker :=
  match before.filter (·.state = .reconciled) with
  | none => marker
  | some previous =>
      let retained := mergeIntervalProofs (candidates marker previous clock)
      if job.readModel = .orders ∨ retained ≠ [] then
        { marker with retained := some (retained.map Block.proof) }
      else marker

/-- The marker that `_publish` makes of the one before. -/
def newMarker (job : Job) (before : Option Marker) (start stop now : Int) (clock : Nat → Int) :
    Except PublishError Marker :=
  let marker := reconciledMarker start stop now
  if job.yearHistory then yearHistoryMarker before start stop marker
  else if job.readModel = .orders ∨ job.readModel = .questions then
    return rangeMarker job before marker clock
  else return marker

/-! ### Publication -/

/-- What the worker has acquired from the source; `persist` writes the rows. -/
structure Resources where
  ids : List String
  persist : List Row → Except PublishError (List Row)
  operation : Option Devoluciones.Context
  unavailableFields : String → List String
  removedQuestionIds : List String

/-- Required data of an order are neither there nor declared unavailable. -/
def Row.incomplete (shippingUnavailable : Bool) (row : Row) : Bool :=
  !row.hasBuyer && "buyer_id" ∉ row.unavailableFields || !row.hasItems ||
    shippingUnavailable && !row.hasShipment && "no_shipping" ∉ row.tags &&
      "shipment_id" ∉ row.unavailableFields

/-- A row created in the half-open range. -/
def Row.within (start stop : Int) (row : Row) : Bool :=
  decide (start ≤ micros row.dateCreated) && decide (micros row.dateCreated < stop)

/-- The deletion of answered questions. -/
def removeQuestions (ids : List String) (start stop : Int) (rows : List Row) :
    Except PublishError (List Row) := do
  if ids.isEmpty then return rows
  let removed := fun row : Row => decide (row.id ∈ ids) && row.within start stop
  raiseIf (rows.countP removed ≠ ids.length) (.value "question removal changed before publication")
  return rows.filter (!removed ·)

/-- The completion of the job by its owner. -/
def completeJob (job : Job) (now : Time) (jobs : Jobs) : Except PublishError Jobs := do
  let (matched, jobs') := updateOwned job now (fun stored =>
    { stored with
      state := .completed
      updatedAt := now
      availableAt := now + cooldown
      attemptToken := none
      leaseUntil := none
      failureReason := none }) (fun _ => rfl) jobs
  raiseIf (matched = false) (.value "recovery lease lost before publication")
  return jobs'

/-- The release of the operation under which orders are written. -/
def releaseOperation (operation : Option Devoluciones.Context) (now : Int)
    (document : Option Devoluciones.OperationDoc) :
    Except PublishError (Option Devoluciones.OperationDoc) := do
  match operation with
  | none => return document
  | some ctx =>
      raiseIf (document.all fun control => !Devoluciones.leaseGuard ctx now control)
        (.leaseLost "order publication lost its operation lease")
      return document.map fun control => { control with
        state := "succeeded"
        errorCode := none
        finishedAt := some now
        leaseUntil := some now }

/-- The rows of the range are those of the source, and complete. -/
def checkInventory (job : Job) (acquired : Acquired) (resources : Resources) (rows : List Row) :
    Except PublishError Unit := do
  let persisted := rows.filter (·.within acquired.start acquired.stop)
  raiseIf (¬ (persisted.map (·.id) ⊆ resources.ids ∧ resources.ids ⊆ persisted.map (·.id)))
    (.value "persisted inventory differs from authoritative source")
  raiseIf (job.readModel = .orders ∧ persisted.any fun row =>
      row.incomplete ("shipping" ∈ resources.unavailableFields row.id))
    (.value "persisted order required data unavailable")

/-- `_publish`; `made` is the clock when the marker is made, `clock` that of the questions for
its coverage and `now` that of the transaction. -/
def publish (job : Job) (acquired : Acquired) (resources : Resources) (made : Int)
    (clock : Nat → Int) (now : Int) (db : Db) : Except PublishError Db := do
  raiseIf (resources.removedQuestionIds ≠ [] ∧ job.readModel ≠ .questions)
    (.value "question removal requires question recovery")
  let marker ←
    newMarker job (acquired.before.map (·.marker)) acquired.start acquired.stop made clock
  raiseIf (db.marker.map (·.marker) ≠ acquired.before.map (·.marker))
    (.value "coverage changed during source acquisition")
  let jobs ← completeJob job (now / 1000) db.jobs
  let persisted ← resources.persist db.rows
  let rows ← removeQuestions resources.removedQuestionIds acquired.start acquired.stop persisted
  checkInventory job acquired resources rows
  let operation ← releaseOperation resources.operation now db.operation
  return { jobs, marker := some marker.store, rows, operation }

end ZelerPlatform.Markers
