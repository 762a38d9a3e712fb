import Mathlib.Data.List.MinMax
import Mathlib.Data.Prod.Lex
import Mathlib.Data.String.Basic
import ZelerPlatform.Devoluciones.Readback
import ZelerPlatform.Library.Collection

/-!
# Coverage certificates

A certificate says that the claims of a half-open range are acquired and complete. A
reader takes a chain of certificates, a proof vector, before it reads rows and validates
it afterwards. Whoever changes claims makes the certificates of their days stale; renewal
and the transition of the same transaction may prove them again.

The definitions are the bodies of these calls on the documents one seller's operations
share. `now` is the value of `$$NOW` in a guard and `clock` a reading of the Python clock,
in microseconds; what is written loses what lies below its millisecond.
-/

namespace ZelerPlatform.Devoluciones

open Mongo Mongo.Value Fallible

/-! ### Documents -/

/-- A document of `sheets_devoluciones_certificates`, whose validator fixes the fields and
their types. -/
structure CertificateDoc where
  id : String
  sellerId : String
  kind : String
  sourceIdentity : String
  sourceFingerprint : Option String
  acquisitionFingerprint : String
  dateFrom : Int
  dateTo : Int
  acquiredAt : Int
  expectedCount : Int
  state : String
  revision : Int
  currentMembershipHash : String
  currentReadModelFingerprint : String
  certifiedCount : Int
  validatedAt : Int
  validUntil : Int
  nextCheckAt : Int
  invalidationReason : Option String
  needsReacquisition : Bool
  coverageEpoch : Int
  schemaVersion : Int
  deriving DecidableEq

/-- What acquisition of the lease sees of a certificate. -/
def CertificateDoc.summary (c : CertificateDoc) : Certificate where
  sellerId := c.sellerId
  dateFrom := c.dateFrom
  dateTo := c.dateTo
  coverageEpoch := c.coverageEpoch
  state := c.state
  needsReacquisition := c.needsReacquisition
  invalidationReason := c.invalidationReason
  revision := c.revision

/-- A document of `sheets_devoluciones_runs`. -/
structure RunDoc where
  id : String
  authorizationId : String
  cohortId : String
  sellerId : String
  scope : String
  start : Int
  stop : Int
  partitionVersion : String
  releaseFingerprints : List (String × String)
  windowCount : Int
  state : String
  updatedAt : Option Int
  deriving DecidableEq

/-- What a completed window proves. -/
structure WindowProof where
  expectedCount : Int
  persistedCount : Int
  completeCount : Int
  missingCount : Int
  sourceFingerprint : String
  readModelFingerprint : String
  deriving DecidableEq

/-- A document of `sheets_devoluciones_run_windows`. -/
structure WindowDoc where
  runId : String
  index : Nat
  start : Int
  stop : Int
  state : String
  proof : Option WindowProof
  deriving DecidableEq

/-- The documents that the devoluciones operations of a seller share. -/
structure Coverage where
  operation : Option OperationDoc
  marker : Option MarkerDoc
  certificates : Collection CertificateDoc.id
  runs : Collection RunDoc.id
  windows : List WindowDoc
  claims : List Doc
  orders : List Doc

namespace Coverage

/-- The documents as the lease knows them. -/
def view (db : Coverage) : Db Unit where
  operation := db.operation
  marker := db.marker
  certificates := db.certificates.docs.map (·.summary)
  orders := db.orders
  claims := db.claims
  rest := ()

def fence (db : Coverage) : Int := db.view.fence

def epoch (db : Coverage) : Int := db.view.epoch

end Coverage

/-! ### Certificates -/

def kinds : List String := ["quota_run", "joint_snapshot", "legacy_joint_snapshot"]

def certificateStates : List String := ["reconciled", "stale", "failed"]

def invalidationReasons : List (Option String) :=
  [none, some "incompatible_writer", some "claim_mutation", some "order_mutation",
    some "unknown_impact", some "proof_drift", some "explicit_invalidation"]

/-- `VALIDITY`. -/
def validity : Int := 30 * 60 * 1000000

def certificateIdentity (digests : Digests) (sellerId kind sourceIdentity : String) :
    Except CoverageError String := do
  raiseIf (kind ∉ kinds ∨ sellerId = "" ∨ sourceIdentity = "")
    (.unavailable "invalid certificate identity")
  return digests.identity sellerId kind sourceIdentity

/-- What a certificate is made of. -/
structure Evidence where
  sourceFingerprint : Option String
  acquisitionFingerprint : String
  expectedCount : Int

def makeCertificate (digests : Digests) (sellerId kind sourceIdentity : String)
    (evidence : Evidence) (dateFrom dateTo acquiredAt : Int)
    (membershipHash fingerprint : String) (epoch clock : Int) :
    Except CoverageError CertificateDoc := do
  raiseIf (¬ (dateFrom < dateTo ∧ dateTo ≤ acquiredAt ∧ acquiredAt ≤ clock))
    (.unavailable "invalid acquired certificate bounds")
  raiseIf (evidence.acquisitionFingerprint = "" ∨ membershipHash = "" ∨ fingerprint = "" ∨
      evidence.expectedCount < 0 ∨ epoch < 0 ∨
      (kind ≠ "legacy_joint_snapshot" ∧ evidence.sourceFingerprint.all (·.isEmpty)))
    (.unavailable "incomplete certificate evidence")
  let id ← certificateIdentity digests sellerId kind sourceIdentity
  return {
    id := id
    sellerId := sellerId
    kind := kind
    sourceIdentity := sourceIdentity
    sourceFingerprint := evidence.sourceFingerprint
    acquisitionFingerprint := evidence.acquisitionFingerprint
    dateFrom := dateFrom
    dateTo := dateTo
    acquiredAt := acquiredAt
    expectedCount := evidence.expectedCount
    state := "reconciled"
    revision := 1
    currentMembershipHash := membershipHash
    currentReadModelFingerprint := fingerprint
    certifiedCount := evidence.expectedCount
    validatedAt := clock
    validUntil := clock + validity
    nextCheckAt := clock
    invalidationReason := none
    needsReacquisition := false
    coverageEpoch := epoch
    schemaVersion := 1 }

/-- The document as the server stores it. -/
def CertificateDoc.stored (c : CertificateDoc) : CertificateDoc :=
  { c with
    dateFrom := floorMs c.dateFrom
    dateTo := floorMs c.dateTo
    acquiredAt := floorMs c.acquiredAt
    validatedAt := floorMs c.validatedAt
    validUntil := floorMs c.validUntil
    nextCheckAt := floorMs c.nextCheckAt }

def nonBlank (text : String) : Bool := !(pyStrip text).isEmpty

/-- The checks of the fields, in the order of the schema, and what each raises. -/
def fieldChecks (c : CertificateDoc) : List (Bool × String) :=
  [(nonBlank c.id, "invalid certificate identity"),
    (nonBlank c.acquisitionFingerprint, "invalid certificate identity"),
    (decide (0 ≤ c.certifiedCount), "invalid certificate counter"),
    (decide (0 ≤ c.coverageEpoch), "invalid certificate counter"),
    (nonBlank c.currentMembershipHash, "invalid certificate identity"),
    (nonBlank c.currentReadModelFingerprint, "invalid certificate identity"),
    (decide (0 ≤ c.expectedCount), "invalid certificate counter"),
    (decide (c.invalidationReason ∈ invalidationReasons), "invalid certificate enum"),
    (decide (c.kind ∈ kinds), "invalid certificate enum"),
    (decide (1 ≤ c.revision), "invalid certificate counter"),
    (decide (c.schemaVersion = 1), "invalid certificate enum"),
    (nonBlank c.sellerId, "invalid certificate identity"),
    (nonBlank c.sourceIdentity, "invalid certificate identity"),
    (decide (c.state ∈ certificateStates), "invalid certificate enum")]

def validateCertificate (digests : Digests) (c : CertificateDoc) (clock : Int) :
    Except CoverageError Unit := do
  if let some (_, message) := (fieldChecks c).find? (!·.1) then throw (.unavailable message)
  let id ← certificateIdentity digests c.sellerId c.kind c.sourceIdentity
  raiseIf (c.id ≠ id ∨
      ¬ (c.dateFrom < c.dateTo ∧ c.dateTo ≤ c.acquiredAt ∧ c.acquiredAt ≤ clock) ∨
      ¬ (c.acquiredAt ≤ c.validatedAt ∧ c.validatedAt ≤ clock) ∨
      c.validatedAt + validity < c.validUntil ∨
      (c.kind = "legacy_joint_snapshot" ∧ c.sourceFingerprint ≠ none) ∨
      (c.kind ≠ "legacy_joint_snapshot" ∧ c.sourceFingerprint.all (·.isEmpty)))
    (.unavailable "inconsistent certificate evidence")

/-! ### Provenance -/

def windowLength : Int := 10 * 24 * 60 * 60 * 1000000

/-- `partition_windows`: the windows follow one another, and the last one is cut. -/
def partitionWindows (start stop : Int) : List (Nat × Int × Int) :=
  (List.range ((stop - start + windowLength - 1) / windowLength).toNat).map fun index =>
    (index, start + index * windowLength, min (start + (index + 1) * windowLength) stop)

def RunDoc.binding (run : RunDoc) : RunBinding where
  authorizationId := run.authorizationId
  cohortId := run.cohortId
  sellerId := run.sellerId
  scope := run.scope
  start := run.start
  stop := run.stop
  partitionVersion := run.partitionVersion
  releaseFingerprints := run.releaseFingerprints

/-- `RunBinding.__post_init__`. -/
def RunBinding.wellFormed (binding : RunBinding) : Bool :=
  [binding.authorizationId, binding.cohortId, binding.sellerId, binding.scope,
      binding.partitionVersion].all nonBlank &&
    decide (binding.start < binding.stop) && !binding.releaseFingerprints.isEmpty &&
    binding.releaseFingerprints.all fun fingerprint => !fingerprint.2.isEmpty

/-- The evidence of one completed window. -/
def windowEvidence (runId : String) (row : WindowDoc) (window : Nat × Int × Int) :
    Option WindowEvidence := do
  let proof ← row.proof
  if row.runId == runId && row.index == window.1 && row.start == window.2.1 &&
      row.stop == window.2.2 && row.state == "completed" && !proof.sourceFingerprint.isEmpty &&
      !proof.readModelFingerprint.isEmpty && proof.missingCount == 0 &&
      proof.expectedCount == proof.persistedCount &&
      proof.persistedCount == proof.completeCount && decide (0 ≤ proof.expectedCount) then
    some ⟨window.1, window.2.1, window.2.2, proof.expectedCount, proof.sourceFingerprint,
      proof.readModelFingerprint⟩
  else none

def quotaProvenance (digests : Digests) (run : RunDoc) (windows : List WindowDoc) :
    Except CoverageError Evidence := do
  raiseIf (run.binding.wellFormed = false) (.unavailable "invalid quota acquisition evidence")
  let rows := windows.insertionSort fun a b => a.index ≤ b.index
  let expected := partitionWindows run.start run.stop
  raiseIf (run.id ≠ digests.runId run.binding ∨ run.state ≠ "completed" ∨
      run.scope ≠ "devoluciones" ∨ rows.length ≠ expected.length ∨
      run.windowCount ≠ expected.length)
    (.unavailable "invalid quota acquisition evidence")
  match (rows.zip expected).mapM fun pair => windowEvidence run.id pair.1 pair.2 with
  | none => throw (.unavailable "invalid quota acquisition evidence")
  | some evidence =>
      return {
        sourceFingerprint := some (digests.sources (evidence.map (·.sourceFingerprint)))
        acquisitionFingerprint := digests.acquisition run.id evidence
        expectedCount := (evidence.map (·.expectedCount)).sum }

def validateProvenance (digests : Digests) (db : Coverage) (c : CertificateDoc) :
    Except CoverageError Unit := do
  if c.kind ≠ "quota_run" then return ()
  match db.runs.findOne fun run => run.id == c.sourceIdentity && run.sellerId == c.sellerId with
  | none => throw (.unavailable "invalid quota acquisition evidence")
  | some run =>
      let evidence ← quotaProvenance digests run
        (db.windows.filter fun row => row.runId == c.sourceIdentity)
      raiseIf (c.sourceFingerprint ≠ evidence.sourceFingerprint ∨
          c.acquisitionFingerprint ≠ evidence.acquisitionFingerprint ∨
          c.expectedCount ≠ evidence.expectedCount ∨ c.dateFrom ≠ run.start ∨
          c.dateTo ≠ run.stop)
        (.unavailable "certificate acquisition provenance changed")

/-! ### Selection -/

/-- A certificate that may take part in a proof. -/
def eligible (digests : Digests) (sellerId : String) (clock : Int) (c : CertificateDoc) : Bool :=
  (validateCertificate digests c clock).isOk && c.sellerId == sellerId &&
    c.state == "reconciled" && !c.needsReacquisition && decide (clock < c.validUntil) &&
    decide (c.dateFrom < c.dateTo) && decide (c.dateTo ≤ c.acquiredAt) &&
    (certificateIdentity digests sellerId c.kind c.sourceIdentity).toOption == some c.id &&
    !c.currentMembershipHash.isEmpty && !c.currentReadModelFingerprint.isEmpty

/-- The certificates of `candidates` that cover the instants from `cursor` on, one after the
other, and the instant they reach. Every certificate is taken at most once. -/
def extendCoverage (candidates : List CertificateDoc) (stop : Int) :
    Nat → Int → List CertificateDoc × Int
  | 0, cursor => ([], cursor)
  | fuel + 1, cursor =>
      if cursor < stop then
        match (candidates.filter fun c => decide (c.dateFrom ≤ cursor) &&
            decide (cursor < c.dateTo)).argmin fun c => toLex (-c.dateTo, c.id) with
        | none => ([], cursor)
        | some choice =>
            let (selected, reach) := extendCoverage candidates stop fuel choice.dateTo
            (choice :: selected, reach)
      else ([], cursor)

def coveragePrefix (digests : Digests) (certificates : List CertificateDoc) (sellerId : String)
    (start stop clock : Int) : Except CoverageError (List CertificateDoc × Int) := do
  raiseIf (¬ start < stop) (.unavailable "invalid requested bounds")
  let candidates := certificates.filter (eligible digests sellerId clock)
  let (selected, cursor) := extendCoverage candidates stop candidates.length start
  return (selected, min cursor stop)

def selectCoverage (digests : Digests) (certificates : List CertificateDoc) (sellerId : String)
    (start stop clock : Int) : Except CoverageError (List CertificateDoc) := do
  let (selected, reach) ← coveragePrefix digests certificates sellerId start stop clock
  raiseIf (reach < stop) (.unavailable "requested interval is not certified")
  return selected

/-- `require_compatible`, and the epoch and fence the caller reads next. -/
def requireCompatible (control : Option OperationDoc) : Except CoverageError (Int × Int) :=
  match control with
  | none => .error (.unavailable "certificate writer compatibility unavailable")
  | some operation =>
      match operation.coverageEpoch, operation.fence with
      | none, _ => .error (.unavailable "certificate writer compatibility unavailable")
      | some epoch, fence =>
          if operation.coverageMode ≠ some "active" ∨ operation.coverageAckFence ≠ fence then
            .error (.unavailable "certificate writer compatibility unavailable")
          else match fence with
            | none => .error (.missing "fence")
            | some fence => .ok (epoch, fence)

structure ProofVector where
  sellerId : String
  start : Int
  stop : Int
  epoch : Int
  fence : Int
  proofs : List CertificateDoc

def selectCoveringPrefix (digests : Digests) (db : Coverage) (sellerId : String)
    (start stop clock : Int) : Except CoverageError ProofVector := do
  let (epoch, fence) ← requireCompatible db.operation
  let documents := db.certificates.find fun c =>
    c.sellerId == sellerId && c.state == "reconciled" && decide (c.dateFrom < floorMs stop) &&
      decide (floorMs start < c.dateTo) && c.coverageEpoch == epoch &&
      decide (floorMs clock < c.validUntil)
  let (selected, reach) ← coveragePrefix digests documents sellerId start stop clock
  raiseIf (selected = []) (.unavailable "requested interval is not certified")
  selected.forM (validateProvenance digests db)
  return ⟨sellerId, start, reach, epoch, fence, selected⟩

/-- The fields in which a proof must not have changed. -/
def CertificateDoc.sameProof (a b : CertificateDoc) : Bool :=
  a.id == b.id && a.sellerId == b.sellerId && a.dateFrom == b.dateFrom && a.dateTo == b.dateTo &&
    a.revision == b.revision && a.coverageEpoch == b.coverageEpoch &&
    a.currentMembershipHash == b.currentMembershipHash &&
    a.currentReadModelFingerprint == b.currentReadModelFingerprint &&
    a.acquisitionFingerprint == b.acquisitionFingerprint && a.kind == b.kind &&
    a.sourceIdentity == b.sourceIdentity && a.sourceFingerprint == b.sourceFingerprint &&
    a.expectedCount == b.expectedCount && a.certifiedCount == b.certifiedCount &&
    a.acquiredAt == b.acquiredAt

/-- The check of one proof of a vector. -/
def validateProof (digests : Digests) (db : Coverage) (sellerId : String) (clock : Int)
    (proof : CertificateDoc) : Except CoverageError Unit := do
  match db.certificates.findOne fun c => c.id == proof.id && c.sellerId == sellerId with
  | none => throw (.unavailable "certificate removed during read")
  | some current =>
      let _ ← selectCoverage digests [current] sellerId proof.dateFrom proof.dateTo clock
      raiseIf (current.sameProof proof = false) (.unavailable "certificate changed during read")
      validateProvenance digests db current

/-- `validate_proof_vector`, on one snapshot. -/
def validateProofVector (digests : Digests) (db : Coverage) (vector : ProofVector) (clock : Int) :
    Except CoverageError Unit := do
  let (epoch, fence) ← requireCompatible db.operation
  raiseIf (epoch ≠ vector.epoch ∨ fence ≠ vector.fence)
    (.unavailable "certificate ownership changed during read")
  vector.proofs.forM (validateProof digests db vector.sellerId clock)

end ZelerPlatform.Devoluciones
