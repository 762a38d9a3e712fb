import ZelerPlatform.Devoluciones.Certificates

/-!
# The transactions that write certificates

Publication, renewal and withdrawal of certificates, their invalidation by a change of
claims or orders, and the transition that proves them again in the same transaction. Each
is the body of a guarded write: `ctx` is the context of the operation that runs it.
-/

namespace ZelerPlatform.Devoluciones

open Mongo Mongo.Value Fallible

/-- `update_many` of the certificates a filter selects. -/
def Coverage.updateCertificates (db : Coverage) (selected : CertificateDoc → Bool)
    (change : CertificateDoc → CertificateDoc) (keeps : ∀ c, (change c).id = c.id) : Coverage :=
  { db with certificates := db.certificates.update selected change keeps }

/-! ### Invalidation -/

def CertificateDoc.invalidate (reason : String) (c : CertificateDoc) : CertificateDoc :=
  { c with
    state := "stale"
    needsReacquisition := true
    invalidationReason := some reason
    revision := c.revision + 1 }

theorem CertificateDoc.invalidate_id (reason : String) (c : CertificateDoc) :
    (c.invalidate reason).id = c.id := rfl

/-- `invalidate_all_certificates`. -/
def invalidateAllCertificates (sellerId reason : String) (db : Coverage) : Coverage :=
  db.updateCertificates (fun c => c.sellerId == sellerId) (CertificateDoc.invalidate reason)
    (CertificateDoc.invalidate_id reason)

/-- The dates of the claims, and whether the impact of one is unknown. -/
def claimImpacts (key : Key) (claims : List (Option Doc)) : List Int × Bool :=
  let impacts := (claims.filterMap id).map (claimImpact key)
  (impacts.filterMap (·.date?), impacts.contains .unknown)

/-- The filter on the certificates of the seller; a date is written into it as BSON. -/
def impacted (key : Key) (claims : List (Option Doc)) (c : CertificateDoc) : Bool :=
  let (dates, unknown) := claimImpacts key claims
  c.sellerId == key.sellerId && (unknown || dates.any fun date =>
    decide (c.dateFrom ≤ floorMs date) && decide (floorMs date < c.dateTo))

/-- The marker of the seller, stale where the claims fall into its coverage. -/
def Coverage.staleMarker (key : Key) (claims : List (Option Doc)) (db : Coverage) : Coverage :=
  let (dates, unknown) := claimImpacts key claims
  { db with
    marker := db.marker.map fun marker =>
      if marker.sellerId == some key.sellerId && (unknown || dates.any fun date =>
          marker.dateFrom.any (· ≤ floorMs date) &&
            marker.reconciledUntil.any (floorMs date < ·)) then
        { marker with state := some "stale" }
      else marker }

/-- `invalidate_claim_impact`. -/
def invalidateImpactOf (key : Key) (claims : List (Option Doc)) (reason : String)
    (db : Coverage) : Coverage :=
  let (dates, unknown) := claimImpacts key claims
  if !unknown && dates.isEmpty then db
  else
    (db.staleMarker key claims).updateCertificates (impacted key claims)
      (CertificateDoc.invalidate (if unknown then "unknown_impact" else reason))
      (CertificateDoc.invalidate_id _)

/-! ### Publication -/

/-- The fields of the source, which a certificate keeps for good. -/
def CertificateDoc.sameSource (existing document : CertificateDoc) : Bool :=
  existing.sellerId == document.sellerId && existing.kind == document.kind &&
    existing.dateFrom == document.dateFrom && existing.dateTo == document.dateTo &&
    existing.sourceIdentity == document.sourceIdentity &&
    existing.sourceFingerprint == document.sourceFingerprint &&
    existing.acquisitionFingerprint == document.acquisitionFingerprint &&
    existing.expectedCount == document.expectedCount

/-- `publish_certificate`: a certificate that is there already stays as it is. -/
def publishCertificate (digests : Digests) (ctx : Context) (document : CertificateDoc)
    (now clock : Int) (db : Coverage) : Except CoverageError Coverage := do
  raiseIf (ctx.sellerId ≠ document.sellerId) (.unavailable "certificate seller mismatch")
  raiseIf (db.operation.all fun control =>
      !leaseGuard ctx now control || control.coverageAckFence != some ctx.fence)
    (.lost "certificate publication lost compatible owner")
  validateCertificate digests document clock
  raiseIf (document.coverageEpoch ≠ db.epoch) (.unavailable "certificate epoch changed")
  validateProvenance digests db document
  match db.certificates.insert document.stored with
  | some certificates => return { db with certificates := certificates }
  | none =>
      raiseIf ((db.certificates.byKey document.id).any (!·.sameSource document))
        (.unavailable "conflicting certificate source identity")
      return db

def intradayAuthorization : String := "refresh-intraday:v1"

/-- `is_intraday_certificate`. -/
def isIntradayCertificate (sellerId : String) (db : Coverage) (c : CertificateDoc) : Bool :=
  c.kind == "quota_run" &&
    (db.runs.findOne fun run => run.id == c.sourceIdentity && run.sellerId == sellerId).any
      fun run => run.authorizationId == intradayAuthorization

/-- A certificate that the new one replaces. -/
def superseded (document : CertificateDoc) (db : Coverage) (c : CertificateDoc) : Bool :=
  c.sellerId == document.sellerId && c.kind == "quota_run" &&
    c.coverageEpoch == document.coverageEpoch && c.id != document.id &&
    decide (floorMs document.dateFrom ≤ c.dateFrom) &&
    decide (c.dateTo ≤ floorMs document.dateTo) &&
    (c.dateFrom == document.dateFrom && c.dateTo == document.dateTo ||
      isIntradayCertificate document.sellerId db c)

/-- `retire_superseded_intraday_certificates`. -/
def retireSupersededIntradayCertificates (document : CertificateDoc) (db : Coverage) : Coverage :=
  { db with
    certificates := ((db.certificates.find (superseded document db)).map (·.id)).foldl
      Collection.erase db.certificates }

/-- The facts of one window of a run are those it was acquired with. -/
def confirmWindow (digests : Digests) (sellerId : String) (db : Coverage) (window : WindowDoc) :
    Except CoverageError Unit := do
  let facts ← currentCertificateFacts digests sellerId window.start window.stop db.claims db.orders
  raiseIf (some facts.certifiedCount ≠ window.proof.map (·.expectedCount) ∨
      some facts.currentReadModelFingerprint ≠ window.proof.map (·.readModelFingerprint))
    (.unavailable "quota window joint facts differ from acquired evidence")

/-- `publish_quota_certificate`; the windows have been read before the transaction. -/
def publishQuotaCertificate (digests : Digests) (ctx : Context) (run : RunDoc)
    (windows : List WindowDoc) (now clock clock' : Int) (db : Coverage) :
    Except CoverageError Coverage := do
  let evidence ← quotaProvenance digests run windows
  windows.forM (confirmWindow digests ctx.sellerId db)
  let facts ← currentCertificateFacts digests ctx.sellerId run.start run.stop db.claims db.orders
  let document ← makeCertificate digests ctx.sellerId "quota_run" run.id evidence run.start run.stop
    clock facts.currentMembershipHash facts.currentReadModelFingerprint ctx.coverageEpoch clock
  let published ← publishCertificate digests ctx document now clock' db
  return retireSupersededIntradayCertificates document published

/-- `DEVOLUCIONES_MARKER_VALIDITY`. -/
def markerValidity : Int := 30 * 60 * 1000000

/-- The run is completed, and the marker covers it. -/
def Coverage.completeRun (ctx : Context) (run : RunDoc) (clock : Int) (db : Coverage) : Coverage :=
  { db with
    runs := db.runs.update (fun r => r.id == run.id)
      (fun r => { r with state := "completed", updatedAt := some (floorMs clock) }) fun _ => rfl
    marker := some {
      sellerId := some ctx.sellerId
      readModel := some "devoluciones"
      state := some "reconciled"
      dateFrom := some (floorMs run.start)
      reconciledUntil := some (floorMs run.stop)
      freshUntil := some (floorMs run.stop)
      validUntil := some (floorMs (clock + markerValidity))
      updatedAt := some (floorMs clock)
      source := some "zelerdata_devoluciones_quota_run" } }

/-- The transaction of `_finalize_devoluciones_quota_run` for the run `run` it has read. -/
def finalizeQuotaRun (digests : Digests) (ctx : Context) (run : RunDoc) (windows : List WindowDoc)
    (now clock clock' : Int) (db : Coverage) : Except CoverageError Coverage := do
  raiseIf ((db.runs.byKey run.id).all (·.state ≠ run.state))
    (.runtime "quota run finalization CAS failed")
  let marked := db.completeRun ctx run clock
  if ctx.coverageMode = "active" then
    publishQuotaCertificate digests ctx { run with state := "completed" } windows now clock clock'
      marked
  else return marked

/-- `publish_joint_certificate`. -/
def publishJointCertificate (digests : Digests) (ctx : Context) (start stop : Int)
    (expectedFingerprint : String) (expectedIds : List String) (now clock clock' : Int)
    (db : Coverage) : Except CoverageError Coverage := do
  verifyReadModel ctx.sellerId start stop expectedIds db.claims db.orders
  let facts ← currentCertificateFacts digests ctx.sellerId start stop db.claims db.orders
  raiseIf (facts.currentReadModelFingerprint ≠ expectedFingerprint)
    (.verification "persisted DEVOLUCIONES facts differ from hydrated source facts"
      "persisted_facts_differ_from_source")
  let document ← makeCertificate digests ctx.sellerId "joint_snapshot" ctx.attemptToken
    ⟨ctx.sourceFingerprint, expectedFingerprint, expectedIds.length⟩ start stop clock
    facts.currentMembershipHash expectedFingerprint ctx.coverageEpoch clock
  publishCertificate digests ctx document now clock' db

/-! ### Renewal -/

/-- The facts a certificate carries. -/
def CertificateDoc.facts (c : CertificateDoc) : Facts where
  currentMembershipHash := c.currentMembershipHash
  currentReadModelFingerprint := c.currentReadModelFingerprint
  certifiedCount := c.certifiedCount

def CertificateDoc.renewed (clock : Int) (c : CertificateDoc) : CertificateDoc :=
  { c with
    validatedAt := floorMs clock
    validUntil := floorMs (clock + validity)
    nextCheckAt := floorMs (clock + 12 * 60 * 1000000)
    state := "reconciled"
    needsReacquisition := false
    invalidationReason := none }

/-- `renew` of `_renew_due_certificates`. -/
def renew (digests : Digests) (ctx : Context) (candidate : CertificateDoc) (clock clock' : Int)
    (db : Coverage) : Except CoverageError Coverage := do
  match db.certificates.findOne fun c => c.id == candidate.id && c.sellerId == ctx.sellerId with
  | none => throw (.unavailable "certificate epoch is not current")
  | some current =>
      raiseIf (current.coverageEpoch ≠ ctx.coverageEpoch)
        (.unavailable "certificate epoch is not current")
      validateCertificate digests current clock
      validateProvenance digests db current
      let facts ← currentCertificateFacts digests ctx.sellerId current.dateFrom current.dateTo
        db.claims db.orders
      raiseIf (current.facts ≠ facts) (.unavailable "certificate joint proof drift")
      return db.updateCertificates
        (fun c => c.id == current.id && c.revision == current.revision)
        (CertificateDoc.renewed clock') fun _ => rfl

def CertificateDoc.withdrawn (clock : Int) (c : CertificateDoc) : CertificateDoc :=
  { c with
    state := "stale"
    needsReacquisition := true
    invalidationReason := some "proof_drift"
    nextCheckAt := floorMs (clock + 12 * 60 * 1000000)
    revision := c.revision + 1 }

/-- `withdraw` of `_renew_due_certificates`. -/
def withdraw (candidate : CertificateDoc) (clock : Int) (db : Coverage) : Coverage :=
  db.updateCertificates (fun c => c.id == candidate.id && c.revision == candidate.revision)
    (CertificateDoc.withdrawn clock) fun _ => rfl

/-! ### Transition -/

/-- The identities that `start` to `stop` holds once `replacement` is written. -/
def expectedAfter (replacement : Option Doc) (start stop : Int) (ids : List String) :
    List String :=
  match replacement with
  | none => ids
  | some claim =>
      let id := textOf (claim.get? "_id")
      let others := ids.filter (· ≠ id)
      if claim.get? "type" == some (.string "returns") &&
          ((claim.get? "date_created").bind (·.date?)).any fun date =>
            decide (start ≤ date) && decide (date < stop) then
        id :: others
      else others

/-- What `prepare_certificate_transition` proves of one candidate, before anything is
written: its facts hold, and what identities are to be there afterwards. -/
def prepareTransition (digests : Digests) (sellerId : String) (replacement : Option Doc)
    (db : Coverage) (c : CertificateDoc) :
    Except CoverageError (Option (CertificateDoc × List String)) := do
  validateProvenance digests db c
  let facts ← currentCertificateFacts digests sellerId c.dateFrom c.dateTo db.claims db.orders
  if c.facts ≠ facts then return none
  else
    let rows ← readClaims sellerId c.dateFrom c.dateTo db.claims
    return some (c, expectedAfter replacement c.dateFrom c.dateTo
      (rows.map fun row => textOf (row.get? "_id")))

/-- The creation of a returns claim. -/
def returnDate (claim : Doc) : Option Int :=
  if claim.get? "type" == some (.string "returns") then
    (claim.get? "date_created").bind (·.date?)
  else none

/-- `prepare_certificate_transition`, where a failure or the time limit prepares nothing. -/
def prepareCertificateTransition (digests : Digests) (ctx : Context)
    (claims : List (Option Doc)) (replacement : Option Doc) (inTime : Bool) (db : Coverage) :
    List (CertificateDoc × List String) :=
  let dates := (claims.filterMap id).filterMap returnDate
  if ctx.coverageMode != "active" || ctx.sourceFingerprint.all (·.isEmpty) || dates.isEmpty ||
      !inTime then []
  else
    let candidates := db.certificates.find fun c =>
      c.sellerId == ctx.sellerId && c.state == "reconciled" && !c.needsReacquisition &&
        c.coverageEpoch == ctx.coverageEpoch && dates.any fun date =>
          decide (c.dateFrom ≤ floorMs date) && decide (floorMs date < c.dateTo)
    match candidates.mapM (prepareTransition digests ctx.sellerId replacement db) with
    | .ok prepared => prepared.filterMap id
    | .error _ => []

def CertificateDoc.reproved (facts : Facts) (clock : Int) (c : CertificateDoc) : CertificateDoc :=
  { c with
    currentMembershipHash := facts.currentMembershipHash
    currentReadModelFingerprint := facts.currentReadModelFingerprint
    certifiedCount := facts.certifiedCount
    state := "reconciled"
    needsReacquisition := false
    invalidationReason := none
    validatedAt := floorMs clock
    validUntil := floorMs (clock + validity) }

/-- The facts with which a prepared certificate is proved again. -/
def reproof (digests : Digests) (sellerId : String) (db : Coverage)
    (prepared : CertificateDoc × List String) : Except CoverageError Facts := do
  verifyReadModel sellerId prepared.1.dateFrom prepared.1.dateTo prepared.2 db.claims db.orders
  currentCertificateFacts digests sellerId prepared.1.dateFrom prepared.1.dateTo db.claims db.orders

/-- `complete_certificate_transition` of one certificate. -/
def completeTransition (digests : Digests) (ctx : Context) (clock : Int) (db : Coverage)
    (prepared : CertificateDoc × List String) : Coverage :=
  match reproof digests ctx.sellerId db prepared with
  | .error _ => db
  | .ok facts =>
      db.updateCertificates
        (fun c => c.id == prepared.1.id && c.coverageEpoch == ctx.coverageEpoch &&
          c.revision == prepared.1.revision + 1)
        (CertificateDoc.reproved facts clock) fun _ => rfl

/-- `complete_certificate_transition`; the time limit may end it after any certificate. -/
def completeCertificateTransition (digests : Digests) (ctx : Context) (clock : Int)
    (prepared : List (CertificateDoc × List String)) (db : Coverage) : Coverage :=
  prepared.foldl (completeTransition digests ctx clock) db

/-- A write of claims or orders: what it writes, the images `invalidate_claim_impact` gets and
the claim that replaces another one. -/
structure Mutation where
  images : List (Option Doc)
  reason : String
  replacement : Option Doc
  claims : List Doc
  orders : List Doc

/-- Every claim that the write takes away or adds is among its images. -/
def Mutation.Touches (mutation : Mutation) (claims : List Doc) : Prop :=
  ∀ claim, (claim ∈ claims ↔ claim ∈ mutation.claims) ∨
    ∃ image, some image ∈ mutation.images ∧ storedFields image = claim

/-- The transaction that writes claims or orders: prepare, write, invalidate, complete. -/
def mutateClaims (digests : Digests) (key : Key) (ctx : Context) (mutation : Mutation)
    (inTime : Bool) (completed : Nat) (clock : Int) (db : Coverage) : Coverage :=
  let prepared := prepareCertificateTransition digests ctx mutation.images
    mutation.replacement inTime db
  let written := { db with claims := mutation.claims, orders := mutation.orders }
  completeCertificateTransition digests ctx clock (prepared.take completed)
    (invalidateImpactOf key mutation.images mutation.reason written)

/-! ### Migration -/

def CertificateDoc.reactivated (epoch clock : Int) (c : CertificateDoc) : CertificateDoc :=
  { c with
    coverageEpoch := epoch
    state := "reconciled"
    needsReacquisition := false
    invalidationReason := none
    validatedAt := floorMs clock
    validUntil := floorMs (clock + validity)
    revision := c.revision + 1 }

/-- Whether the provenance and the facts of a certificate still hold. -/
def certificateHolds (digests : Digests) (sellerId : String) (db : Coverage) (c : CertificateDoc) :
    Except CoverageError Unit := do
  validateProvenance digests db c
  let facts ← currentCertificateFacts digests sellerId c.dateFrom c.dateTo db.claims db.orders
  raiseIf (c.facts ≠ facts) (.unavailable "reactivation needs fresh joint certification")

/-- The activation of one certificate; the number of reactivated ones is counted. -/
def reactivate (digests : Digests) (ctx : Context) (clock : Int) (state : Coverage × Nat)
    (c : CertificateDoc) : Except CoverageError (Coverage × Nat) := do
  validateCertificate digests c clock
  match certificateHolds digests ctx.sellerId state.1 c with
  | .error _ =>
      raiseIf (c.state = "reconciled" ∨ c.needsReacquisition = false)
        (.unavailable "reactivation joint certification failed")
      return state
  | .ok () =>
      return (state.1.updateCertificates (fun d => d.id == c.id)
        (CertificateDoc.reactivated ctx.coverageEpoch clock) fun _ => rfl, state.2 + 1)

/-- The stored operation, while its fence is that of the context. -/
def Coverage.setOperation (db : Coverage) (ctx : Context) (set : OperationDoc → OperationDoc) :
    Coverage :=
  { db with
    operation := db.operation.map fun control =>
      if control.fence == some ctx.fence then set control else control }

/-- The certificates cover what a valid marker of the seller covers. -/
def markerCovered (digests : Digests) (ctx : Context) (clock : Int) (db : Coverage) :
    Except CoverageError Unit :=
  match db.marker.filter fun marker =>
      marker.state == some "reconciled" && marker.validUntil.any (clock < ·) with
  | none => .ok ()
  | some marker =>
      (selectCoverage digests (db.certificates.find fun c => c.sellerId == ctx.sellerId)
        ctx.sellerId (marker.dateFrom.getD 0) (marker.reconciledUntil.getD 0) clock).map fun _ => ()

/-- The activation in `migrate_certificates`. -/
def activateCoverage (digests : Digests) (ctx : Context) (clock : Int) (db : Coverage) :
    Except CoverageError Coverage := do
  let certificates := db.certificates.find fun c => c.sellerId == ctx.sellerId
  raiseIf (certificates = []) (.unavailable "no migration proof supports activation")
  let (active, reactivated) ← certificates.foldlM (reactivate digests ctx clock) (db, 0)
  raiseIf (reactivated = 0) (.unavailable "no current proof supports activation")
  markerCovered digests ctx clock active
  return active.setOperation ctx fun control => { control with coverageMode := some "active" }

/-- The rollback in `migrate_certificates`. -/
def rollbackCoverage (ctx : Context) (db : Coverage) : Coverage :=
  invalidateAllCertificates ctx.sellerId "incompatible_writer"
    (db.setOperation ctx fun control =>
      { control with
        coverageMode := some "legacy"
        coverageEpoch := some (control.coverageEpoch.getD 0 + 1) })

end ZelerPlatform.Devoluciones
