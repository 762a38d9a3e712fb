import ZelerPlatform.Library.Mongo.Python

/-!
# The lease of a devoluciones operation

One document for each (seller, scope) names the operation that may write the seller's
devoluciones read model. It carries a fence, which every acquisition raises, and a lease
whose expiry the server checks in the filter of every guarded update. Acquisition,
guarded writes and readiness invalidation are transactions over the operation, the
readiness marker and the coverage certificates; heartbeat and finish update the operation
alone.

The definitions are the bodies of these calls on the documents of one (seller, scope).
`now` arguments are the values `$$NOW` takes in the successive commands, in microseconds.
-/

namespace ZelerPlatform.Devoluciones

open Mongo

/-! ### Documents -/

/-- A document of `sheets_devoluciones_operations`. -/
structure OperationDoc where
  id : String
  operationId : String
  attemptToken : String
  fence : Option Int
  coverageMode : Option String
  coverageEpoch : Option Int
  coverageAckFence : Option Int
  state : String
  leaseUntil : Option Int
  heartbeatAt : Option Int
  sourceFingerprint : Option String
  checkpoint : Option Doc
  startedAt : Option Int
  updatedAt : Option Int
  finishedAt : Option Int
  errorCode : Option String

/-- The marker of the read model in `sheets_read_model_freshness`. -/
structure MarkerDoc where
  sellerId : Option String
  readModel : Option String
  state : Option String
  dateFrom : Option Int
  reconciledUntil : Option Int
  freshUntil : Option Int
  validUntil : Option Int
  updatedAt : Option Int
  source : Option String

/-- The mutable part of a document of `sheets_devoluciones_certificates`, and its range. -/
structure Certificate where
  sellerId : String
  dateFrom : Int
  dateTo : Int
  coverageEpoch : Int
  state : String
  needsReacquisition : Bool
  invalidationReason : Option String
  revision : Int

/-- The documents of one (seller, scope), the seller's orders and claims, and everything
else in the database. -/
structure Db (δ : Type) where
  operation : Option OperationDoc
  marker : Option MarkerDoc
  certificates : List Certificate
  orders : List Doc
  claims : List Doc
  rest : δ

/-- The normalised seller and scope. -/
structure Key where
  sellerId : String
  scope : String

/-- `DevolucionesOperationContext`. -/
structure Context where
  sellerId : String
  scope : String
  operationId : String
  attemptToken : String
  fence : Int
  ownsLease : Bool
  sourceFingerprint : Option String
  requiredCoverageStart : Option Int
  requiredCoverageEnd : Option Int
  checkpoint : Doc
  leaseLost : Bool
  coverageMode : String
  coverageEpoch : Int

inductive LeaseError
  | value (message : String)
  | conflict (message : String)
  | lost (message : String)
  | writer (message : String)
  deriving DecidableEq

variable {δ : Type}

namespace Db

/-- The stored fence; without an operation there has been no acquisition. -/
def fence (db : Db δ) : Int := (db.operation.bind (·.fence)).getD 0

/-- The stored coverage epoch. -/
def epoch (db : Db δ) : Int := (db.operation.bind (·.coverageEpoch)).getD 0

end Db

def leaseDuration : Int := 120 * 1000000

/-- `_required_identity`. -/
def requiredIdentity (value field : String) : Except LeaseError String :=
  if (pyStrip value).isEmpty then .error (.value s!"{field} is required") else .ok (pyStrip value)

/-- `operation_lease_guard`, on the document of the context's (seller, scope). -/
def leaseGuard (ctx : Context) (now : Int) (operation : OperationDoc) : Bool :=
  operation.operationId == ctx.operationId && operation.attemptToken == ctx.attemptToken &&
    operation.fence == some ctx.fence && operation.state == "running" &&
    operation.leaseUntil.any (now < ·)

/-- An update under the guard: `none` when it matches nothing. -/
def updateGuarded (ctx : Context) (now : Int) (set : OperationDoc → OperationDoc) (db : Db δ) :
    Option (Db δ) :=
  match db.operation with
  | some operation =>
      if leaseGuard ctx now operation then some { db with operation := some (set operation) }
      else none
  | none => none

/-- `_ensure_live_owner`. -/
def ensureLiveOwner (ctx : Context) : Except LeaseError Unit :=
  if !ctx.ownsLease then .error (.lost "nested operation does not own the lease")
  else if ctx.leaseLost then .error (.lost "devoluciones operation lease was lost")
  else if ctx.fence < 1 then .error (.lost "devoluciones operation fence is invalid")
  else .ok ()

/-! ### Markers and certificates -/

/-- `_stale_readiness_update`, which keeps the marker's other fields. -/
def staleReadiness (key : Key) (source : String) (now : Int) (marker : Option MarkerDoc) :
    MarkerDoc where
  sellerId := some key.sellerId
  readModel := some "devoluciones"
  state := some "stale"
  dateFrom := marker.bind (·.dateFrom)
  reconciledUntil := marker.bind (·.reconciledUntil)
  freshUntil := some now
  validUntil := some now
  updatedAt := some now
  source := some source

def Certificate.invalidate (reason : String) (certificate : Certificate) : Certificate :=
  { certificate with
    state := "stale"
    needsReacquisition := true
    invalidationReason := some reason
    revision := certificate.revision + 1 }

/-- The `update_many` that makes matching certificates of a seller stale. -/
def invalidateCertificates (sellerId reason : String) (selected : Certificate → Bool)
    (certificates : List Certificate) : List Certificate :=
  certificates.map fun certificate =>
    if certificate.sellerId == sellerId && selected certificate then certificate.invalidate reason
    else certificate

/-- `_marker_coverage`. -/
def markerCoverage (marker : Option MarkerDoc) : Option Int × Option Int :=
  match marker.bind (·.dateFrom), marker.bind (·.reconciledUntil) with
  | some start, some stop => if start ≥ stop then (none, none) else (some start, some stop)
  | _, _ => (none, none)

/-- `takeover_checkpoint`. -/
def takeoverCheckpoint (existing : Option OperationDoc) (sourceFingerprint : Option String) :
    Option Doc :=
  match existing, sourceFingerprint with
  | some operation, some fingerprint =>
      if operation.sourceFingerprint == some fingerprint then operation.checkpoint else none
  | _, _ => none

/-! ### Acquisition -/

structure Acquisition where
  operationId : String
  attemptToken : String
  sourceFingerprint : Option String
  invalidateReadiness : Bool
  requireCoverageCompatible : Bool

/-- A holder has raised the fence without acknowledging it. -/
def OperationDoc.unacknowledged (operation : OperationDoc) : Bool :=
  operation.coverageAckFence != operation.fence

/-- The certificates have to be reacquired: coverage is active and the last holder has not
acknowledged its fence. -/
def Db.incompatible (db : Db δ) : Bool :=
  (db.operation.bind (·.coverageMode)).getD "legacy" == "active" &&
    db.operation.any (·.unacknowledged)

/-- `_acquire_devoluciones_operation_once`, the body of its transaction; the clock readings
are those of the marker read, the marker update and the update of the operation. -/
def acquireOnce (key : Key) (request : Acquisition) (now₁ now₂ now₃ : Int) (db : Db δ) :
    Except LeaseError (Context × Db δ) := do
  let operationId ← requiredIdentity request.operationId "operation_id"
  let attemptToken ← requiredIdentity request.attemptToken "attempt_token"
  let validMarker := db.marker.filter fun marker =>
    marker.sellerId == some key.sellerId && marker.readModel == some "devoluciones" &&
      marker.state == some "reconciled" && marker.validUntil.any (now₁ < ·)
  let (requiredCoverageStart, requiredCoverageEnd) := markerCoverage validMarker
  let marker := if request.invalidateReadiness then
      some (staleReadiness key "devoluciones_operation_acquire" now₂ db.marker)
    else db.marker
  let existing := db.operation
  let fence := db.fence + 1
  let coverageMode := (existing.bind (·.coverageMode)).getD "legacy"
  if request.requireCoverageCompatible &&
      (coverageMode != "active" || existing.all (·.unacknowledged)) then
    throw (.conflict "renewal requires an acknowledged compatible fence")
  let certificates := if db.incompatible then
      invalidateCertificates key.sellerId "incompatible_writer" (fun _ => true) db.certificates
    else db.certificates
  let coverageEpoch := if db.incompatible then db.epoch + 1 else db.epoch
  let checkpoint := takeoverCheckpoint existing request.sourceFingerprint
  -- the filter repeats the fence it has read, and an `_id` cannot be changed
  if existing.any fun operation =>
      operation.id != s!"{key.sellerId}:{key.scope}" ||
        (operation.state == "running" && operation.leaseUntil.any (now₃ < ·)) then
    throw (.conflict "operation lease is already owned")
  let operation : OperationDoc :=
    { id := s!"{key.sellerId}:{key.scope}"
      operationId := operationId
      attemptToken := attemptToken
      fence := some fence
      coverageMode := some coverageMode
      coverageEpoch := some coverageEpoch
      coverageAckFence := some fence
      state := "running"
      leaseUntil := some (now₃ + leaseDuration)
      heartbeatAt := some now₃
      sourceFingerprint := request.sourceFingerprint
      checkpoint := checkpoint
      startedAt := some now₃
      updatedAt := some now₃
      finishedAt := none
      errorCode := none }
  return (
    { sellerId := key.sellerId
      scope := key.scope
      operationId := operationId
      attemptToken := attemptToken
      fence := fence
      ownsLease := true
      sourceFingerprint := request.sourceFingerprint
      requiredCoverageStart := requiredCoverageStart
      requiredCoverageEnd := requiredCoverageEnd
      checkpoint := checkpoint.getD []
      leaseLost := false
      coverageMode := coverageMode
      coverageEpoch := coverageEpoch },
    { db with operation := some operation, marker := marker, certificates := certificates })

/-! ### Operations of a holder

Each returns what it raises, the context with its `lease_lost` flag, and the database. -/

/-- `heartbeat_devoluciones_operation`. -/
def heartbeat (ctx : Context) (now : Int) (db : Db δ) : Except LeaseError Unit × Context × Db δ :=
  match ensureLiveOwner ctx with
  | .error error => (.error error, ctx, db)
  | .ok () =>
      match updateGuarded ctx now (fun operation => { operation with
          heartbeatAt := some now
          leaseUntil := some (now + leaseDuration)
          updatedAt := some now }) db with
      | some db' => (.ok (), ctx, db')
      | none =>
          (.error (.lost "devoluciones operation heartbeat lost its lease"),
            { ctx with leaseLost := true }, db)

/-- `finish_devoluciones_operation`. -/
def finish (ctx : Context) (succeeded : Bool) (errorCode : Option String) (now : Int) (db : Db δ) :
    Except LeaseError Unit × Context × Db δ :=
  match ensureLiveOwner ctx with
  | .error error => (.error error, ctx, db)
  | .ok () =>
      match updateGuarded ctx now (fun operation => { operation with
          state := if succeeded then "succeeded" else "failed"
          leaseUntil := some now
          heartbeatAt := some now
          updatedAt := some now
          finishedAt := some now
          errorCode := if succeeded then none
            else some ((errorCode.filter (!·.isEmpty)).getD "operation_failed") }) db with
      | some db' => (.ok (), ctx, db')
      | none =>
          (.error (.lost "devoluciones operation release lost its lease"),
            { ctx with leaseLost := true }, db)

/-- No certificate of the seller carries an epoch later than the stored one. -/
def EpochBound (key : Key) (db : Db δ) : Prop :=
  ∀ certificate ∈ db.certificates, certificate.sellerId = key.sellerId →
    certificate.coverageEpoch ≤ db.epoch

/-- The writer of a guarded write. It leaves the fence to acquisition, and publishes
certificates under the stored epoch, as `publish_certificate` checks. -/
structure Writer (δ : Type) (key : Key) where
  run : Db δ → Except String (Db δ)
  fence : ∀ {db db'}, run db = .ok db' → db'.fence = db.fence
  epochs : ∀ {db db'}, run db = .ok db' → EpochBound key db → EpochBound key db'

/-- The identity of a checkpoint, `str(identity)` of a string or an integer. -/
def identityString : Value → Option String
  | .string s => some s
  | .int n | .long n => some (toString n)
  | _ => none

/-- `find_one` of one of the seller's orders or claims. -/
def findResource (key : Key) (identity : Option String) (docs : List Doc) : Option Doc :=
  docs.find? fun doc =>
    identity.any (fun id => eqMatches (doc.get? "_id") (.string id)) &&
      eqMatches (doc.get? "seller_id") (.string key.sellerId)

/-- What `invalidate_claim_impact` learns from one claim: nothing, an acquisition date, or
that the impact is unknown. -/
inductive Impact
  | none
  | dated (date : Int)
  | unknown
  deriving DecidableEq

def claimImpact (key : Key) (claim : Doc) : Impact :=
  if (claim.get? "seller_id").bind identityString != some key.sellerId ||
      (claim.get? "type").isNone then .unknown
  else if claim.get? "type" == some (.string "returns") then
    match claim.get? "date_created" with
    | some (.date date) => .dated date
    | _ => .unknown
  else .none

def Impact.date? : Impact → Option Int
  | .dated date => some date
  | _ => Option.none

/-- `invalidate_claim_impact`. -/
def invalidateClaimImpact (key : Key) (claims : List (Option Doc)) (reason : String) (db : Db δ) :
    Db δ :=
  let impacts := (claims.filterMap id).map (claimImpact key)
  let unknown := impacts.contains .unknown
  let dates := impacts.filterMap (·.date?)
  if !unknown && dates.isEmpty then db
  else
    { db with
      marker := db.marker.map fun marker =>
        if marker.sellerId == some key.sellerId && (unknown || dates.any fun date =>
            marker.dateFrom.any (· ≤ date) && marker.reconciledUntil.any (date < ·)) then
          { marker with state := some "stale" }
        else marker
      certificates := invalidateCertificates key.sellerId
        (if unknown then "unknown_impact" else reason)
        (fun certificate => unknown || dates.any fun date =>
          certificate.dateFrom ≤ date && date < certificate.dateTo) db.certificates }

/-- `prior != current`. -/
def changed (prior current : Option Doc) : Bool :=
  match prior, current with
  | none, none => false
  | some a, some b => !a.pyEq b
  | _, _ => true

def truthyField (doc : Doc) (field : String) : Option Value :=
  (doc.get? field).filter (·.truthy)

/-- What `guarded_devoluciones_write` does once the writer has run: where the order or claim
of the checkpoint has changed, it invalidates what depends on it. -/
def invalidateImpact (key : Key) (ctx : Context) (checkpoint : Doc) (impactHandled : Bool)
    (prior current : Db δ) : Db δ :=
  let watched := ctx.coverageMode == "active" && !impactHandled
  let order := (truthyField checkpoint "order_id").filter fun _ => watched
  let claim := (truthyField checkpoint "claim_id").filter fun _ => watched && order.isNone
  let orderId := order.bind identityString
  let claimId := claim.bind identityString
  let priorClaim := findResource key claimId prior.claims
  let currentClaim := findResource key claimId current.claims
  if order.isSome &&
      changed (findResource key orderId prior.orders) (findResource key orderId current.orders) then
    let dependencies := current.claims.filter fun doc =>
      eqMatches (doc.get? "seller_id") (.string key.sellerId) &&
        orderId.any fun id => eqMatches (doc.get? "order_id") (.string id)
    invalidateClaimImpact key (dependencies.map some) "order_mutation" current
  else if claim.isSome && changed priorClaim currentClaim then
    invalidateClaimImpact key [priorClaim, currentClaim] "claim_mutation" current
  else current

/-- The transaction of `guarded_devoluciones_write` after its checks. -/
def guardedWriteBody {key : Key} (ctx : Context) (checkpoint : Doc) (writer : Writer δ key)
    (impactHandled : Bool) (now₁ now₂ : Int) (db : Db δ) : Except LeaseError (Db δ) := do
  let some db₁ := updateGuarded ctx now₁ (fun operation => { operation with
      checkpoint := some checkpoint
      updatedAt := some now₁ }) db
    | throw (.lost "devoluciones operation lease guard failed")
  let db₂ ← (writer.run db₁).mapError .writer
  let db₃ := invalidateImpact key ctx checkpoint impactHandled db₁ db₂
  if ctx.coverageMode == "active" ||
      checkpoint.get? "phase" == some (.string "certificate_migration") then
    let some db₄ := updateGuarded ctx now₂ (fun operation => { operation with
        updatedAt := some now₂ }) db₃
      | throw (.lost "certificate transaction lost its lease before commit")
    return db₄
  return db₃

/-- `guarded_devoluciones_write` with a session of its own: what the body raises aborts its
transaction. -/
def guardedWrite {key : Key} (ctx : Context) (sellerId : String) (checkpoint : Doc)
    (writer : Writer δ key) (impactHandled : Bool) (now₁ now₂ : Int) (db : Db δ) :
    Except LeaseError Unit × Context × Db δ :=
  match ensureLiveOwner ctx, requiredIdentity sellerId "seller_id" with
  | .error error, _ => (.error error, ctx, db)
  | .ok (), .error error => (.error error, ctx, db)
  | .ok (), .ok seller =>
      if seller != ctx.sellerId then
        (.error (.lost "mutation seller does not match operation seller"), ctx, db)
      else
        match guardedWriteBody ctx checkpoint writer impactHandled now₁ now₂ db with
        | .ok db' => (.ok (), ctx, db')
        | .error (.lost message) => (.error (.lost message), { ctx with leaseLost := true }, db)
        | .error error => (.error error, ctx, db)

theorem invalidateCertificates_epoch {sellerId reason : String} {selected : Certificate → Bool}
    {certificates : List Certificate} {certificate : Certificate}
    (h : certificate ∈ invalidateCertificates sellerId reason selected certificates) :
    ∃ before ∈ certificates, certificate.sellerId = before.sellerId ∧
      certificate.coverageEpoch = before.coverageEpoch := by
  obtain ⟨before, hbefore, rfl⟩ := List.mem_map.mp h
  refine ⟨before, hbefore, ?_⟩
  split <;> exact ⟨rfl, rfl⟩

/-- Making certificates stale, with the operation left as it is, keeps the epoch bound. -/
theorem EpochBound.invalidate {key : Key} {db db' : Db δ} (h : EpochBound key db)
    {sellerId reason : String} {selected : Certificate → Bool} (hepoch : db'.epoch = db.epoch)
    (hcertificates : db'.certificates =
      invalidateCertificates sellerId reason selected db.certificates) : EpochBound key db' := by
  intro certificate hmem hseller
  rw [hcertificates] at hmem
  obtain ⟨before, hbefore, hsame, hepochs⟩ := invalidateCertificates_epoch hmem
  rw [hepochs, hepoch]
  exact h before hbefore (hsame ▸ hseller)

/-- The writer of `invalidate_devoluciones_readiness`. -/
def invalidationWriter (key : Key) (ctx : Context) (source : String) (now : Int) :
    Writer δ key where
  run db :=
    let certificates :=
      if ctx.coverageMode == "active" && source != "devoluciones_relevant_order_event" then
        invalidateCertificates ctx.sellerId "explicit_invalidation" (fun _ => true) db.certificates
      else db.certificates
    .ok { db with
      certificates := certificates
      marker := some (staleReadiness key source now db.marker) }
  fence := by
    rintro db db' ⟨⟩
    rfl
  epochs := by
    rintro db db' ⟨⟩ hbound
    split
    · exact hbound.invalidate rfl rfl
    · exact hbound

/-- `invalidate_devoluciones_readiness`; the marker is updated at `now`. -/
def invalidateReadiness (key : Key) (ctx : Context) (source : String) (now₁ now now₂ : Int)
    (db : Db δ) : Except LeaseError Unit × Context × Db δ :=
  guardedWrite ctx ctx.sellerId
    [("phase", .string "readiness_invalidation"), ("source", .string source)]
    (invalidationWriter key ctx source now) false now₁ now₂ db

end ZelerPlatform.Devoluciones
