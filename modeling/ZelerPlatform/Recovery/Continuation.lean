import ZelerPlatform.Recovery.Queue

/-!
# History continuations

A history acquisition is a head document with a checkpoint and the receipts collected so
far. `HistoryContinuation` ends a worker's turn on the job of an acquisition: it saves the
checkpoint and gives the job back in one transaction, which the lease of the job fences. The
transaction reads the clock anew for each fence and for the update that yields the job.
-/

namespace ZelerPlatform.Recovery

open Fallible

inductive Phase
  | discover
  | hydrate
  | verify
  | publish
  | completed
  deriving DecidableEq, Repr

/-- A phase in which receipts are staged. -/
def Phase.staging : Phase → Bool
  | .discover => true
  | .hydrate => true
  | .verify => true
  | _ => false

/-- Orders are paged by offset, questions by a scan cursor. -/
inductive Cursor
  | offset (n : Nat)
  | scan (text : String)
  deriving DecidableEq, Repr

/-- A document of `sheets_history_acquisitions`. -/
structure Head where
  id : String
  sellerId : String
  readModel : ReadModel
  planId : String
  scopeId : String
  jobId : String
  dateFrom : Time
  dateTo : Time
  generation : Nat
  passNumber : Nat
  checkpointRevision : Nat
  pageSequence : Nat
  phase : Phase
  nextCursor : Option Cursor
  activeRangeId : Option String
  sourceTotal : Option Nat
  discoveredCount : Nat
  fetchedCount : Nat
  publishedCount : Nat
  driftRestarts : Nat
  publishAfter : Option String
  observedFrom : Option Time
  observedUntil : Option Time
  createdAt : Time
  updatedAt : Time
  deriving DecidableEq, Repr

/-- `orders:[0-9]{8}:[0-9]{8}`. -/
def isOrderScope (scope : String) : Bool :=
  match scope.toList with
  | 'o' :: 'r' :: 'd' :: 'e' :: 'r' :: 's' :: ':' :: rest =>
      rest.length = 17 && (rest.take 8).all Char.isDigit && rest[8]? = some ':'
        && (rest.drop 9).all Char.isDigit
  | _ => false

/-- What the model `SheetsHistoryAcquisition` checks of its fields. -/
def Head.valid (head : Head) : Bool :=
  !head.sellerId.isEmpty && head.sellerId.toList.all Char.isDigit
    && decide (1 ≤ head.generation ∧ 1 ≤ head.passNumber ∧ head.driftRestarts ≤ 3)
    && decide (head.dateFrom < head.dateTo)
    && (match head.readModel with
      | .orders => isOrderScope head.scopeId
          && decide (head.dateTo - head.dateFrom ≤ 90 * millisPerDay)
          && !(match head.nextCursor with | some (.scan _) => true | _ => false)
      | .questions => head.scopeId = "seller_scan"
          && !(match head.nextCursor with | some (.offset _) => true | _ => false)
      | _ => false)
    && decide (head.createdAt ≤ head.updatedAt)
    && (match head.observedFrom, head.observedUntil with
      | none, none => true
      | some first, some last => decide (first ≤ last)
      | _, _ => false)
    && decide (head.publishedCount ≤ head.fetchedCount ∧ head.fetchedCount ≤ head.discoveredCount)
    && (head.publishedCount = 0) = head.publishAfter.isNone
    && (head.phase ≠ .completed || head.observedFrom.isSome && head.sourceTotal.isSome
      && head.nextCursor.isNone && head.publishedCount = head.fetchedCount)

/-- The heads agree in the fields of `HEAD_IDENTITY`. -/
def sameIdentity (before after : Head) : Bool :=
  before.id = after.id && before.sellerId = after.sellerId && before.readModel = after.readModel
    && before.planId = after.planId && before.scopeId = after.scopeId
    && before.jobId = after.jobId && before.dateFrom = after.dateFrom
    && before.dateTo = after.dateTo && before.generation = after.generation
    && before.passNumber = after.passNumber && before.createdAt = after.createdAt

inductive ReceiptKind
  | membership
  | detail
  | exclusion
  deriving DecidableEq, Repr

/-- A document of `sheets_history_receipts`; payloads are their JSON texts. -/
structure Receipt where
  id : String
  acquisitionId : String
  sellerId : String
  readModel : ReadModel
  generation : Nat
  passNumber : Nat
  pageSequence : Nat
  kind : ReceiptKind
  resourceId : String
  observedAt : Time
  sourceVersion : Option String
  sourceHash : Option String
  sourcePayload : Option String
  payloadHash : Option String
  payload : Option String
  unavailableFields : List String
  exclusionReason : Option String
  deriving DecidableEq, Repr

/-- The fields of `IDENTITY`. -/
def Receipt.identity (receipt : Receipt) : String × Nat × Nat × ReceiptKind × String :=
  (receipt.acquisitionId, receipt.generation, receipt.passNumber, receipt.kind, receipt.resourceId)

/-- How many orders a batch stages. -/
def memberships (receipts : List Receipt) : Nat :=
  receipts.countP fun receipt => receipt.kind = .membership

/-- `_same_receipt`. -/
def sameReceipt (left right : Receipt) : Bool :=
  { left with id := right.id, pageSequence := right.pageSequence, observedAt := right.observedAt } = right

/-- The documents of the queue and of the history store. -/
structure Db where
  jobs : Jobs
  guards : Guards
  heads : Collection Head.id
  receipts : Collection Receipt.id

/-- The checks of a checkpoint that concern the payloads of its receipts and the encoded
sizes: `fits` for one head, `authentic` for the source identity, seller and fingerprints of
one receipt, `bounded` for the whole batch. -/
structure Evidence where
  fits : Head → Bool
  authentic : Receipt → Bool
  bounded : Head → Head → List Receipt → Bool

inductive HistoryError
  | conflict (message : String)
  | limit (message : String)
  | value (message : String)
  | queue (error : QueueError)
  deriving DecidableEq, Repr

/-- `_binding`. -/
def binding (head : Head) : Binding :=
  ⟨1, head.id, head.generation, head.passNumber, head.checkpointRevision⟩

variable (q : Queue) (evidence : Evidence)

/-- `_head`. -/
def checkedHead (head : Head) : Except HistoryError Head :=
  if ¬ head.valid then throw (.value "invalid history acquisition")
  else if ¬ evidence.fits head then throw (.limit "whole document exceeds local byte budget")
  else pure head

/-- The filter of a fence: the owned job, with the identity of the acquisition. -/
def fenceFilter (job : Job) (head : Head) (now : Time) (stored : Job) : Bool :=
  owned job now stored && stored.sellerId = head.sellerId && stored.readModel = head.readModel
    && stored.dateFrom = some head.dateFrom && stored.dateTo = some head.dateTo

/-- `_fence`. -/
def fence (job : Job) (head : Head) (now : Time) (jobs : Jobs) : Except HistoryError Jobs := do
  raiseIf (head.readModel ∉ q.enabledModels
      ∨ (q.allowedSellers.map fun sellers => decide (head.sellerId ∈ sellers)) = some false)
    (.conflict "history recovery is disabled for this seller or resource")
  raiseIf (job.sellerId ≠ head.sellerId ∨ job.readModel ≠ head.readModel)
    (.conflict "job identity does not match acquisition")
  raiseIf (job.id ≠ head.jobId) (.conflict "job does not own acquisition")
  raiseIf (¬ jobs.matched (fenceFilter job head now)) (.conflict "history recovery lease lost")
  return jobs.update (fenceFilter job head now)
    (fun stored => { stored with historyFenceRevision := stored.historyFenceRevision + 1 })
    fun _ => rfl

/-- `_current`: the fence holds, the head is the stored checkpoint and the job is bound to
no other one. Returns the stored job with the documents after the fence. -/
def current (job : Job) (head : Head) (now : Time) (db : Db) : Except HistoryError (Job × Db) := do
  let jobs ← fence q job head now db.jobs
  raiseIf (head.publishedCount ≠ 0)
    (.conflict "continuation cannot withdraw publication progress")
  raiseIf (db.heads.findOne (fun stored => stored.id = head.id) ≠ some head ∨ ¬ head.phase.staging)
    (.conflict "continuation requires the current staging checkpoint")
  match jobs.findOne fun stored => stored.id = job.id with
  | none => throw (.conflict "continuation requires a claimed attempt")
  | some claimed =>
      raiseIf (claimed.attempts < 1)
        (.conflict "continuation requires a claimed attempt")
      raiseIf (claimed.history.any fun bound => bound.acquisitionId ≠ head.id)
        (.conflict "queue references another acquisition")
      raiseIf (claimed.history.any fun bound => bound ≠ binding head)
        (.conflict "queue references another history checkpoint")
      return (claimed, { db with jobs })

/-- `_pending`: yield the job at a checkpoint. -/
def yieldPending (job : Job) (head : Head) (attempts : Int) (delay : Time) (now : Time)
    (jobs : Jobs) : Except HistoryError Jobs := do
  raiseIf (¬ jobs.matched (owned job now)) (.conflict "lease lost before continuation yield")
  return jobs.update (owned job now) (fun stored =>
    { stored with
      history := some (binding head), state := .pending, attempts, updatedAt := now,
      availableAt := now + delay, attemptToken := none, leaseUntil := none,
      failureReason := none }) fun _ => rfl

/-- The compare-and-swap of a head. -/
def replaceHead (expected saved : Head) (message : String) (db : Db) : Except HistoryError Db := do
  let filter := fun stored : Head =>
    stored.id = expected.id && stored.generation = expected.generation
      && stored.checkpointRevision = expected.checkpointRevision
  raiseIf (¬ db.heads.matched filter) (.conflict message)
  return { db with
    heads := db.heads.update filter (fun stored => { saved with id := stored.id }) fun _ => rfl }

/-- The checks of `checkpoint` before its transaction. -/
def checkCheckpoint (expected proposed : Head) (receipts : List Receipt) :
    Except HistoryError Unit := do
  raiseIf (¬ sameIdentity expected proposed)
    (.conflict "checkpoint cannot change acquisition identity")
  raiseIf (¬ (proposed.phase.staging ∧ expected.phase.staging
      ∧ proposed.checkpointRevision = expected.checkpointRevision + 1
      ∧ proposed.pageSequence = expected.pageSequence + 1
      ∧ proposed.publishedCount = 0 ∧ expected.publishedCount = 0
      ∧ proposed.driftRestarts = expected.driftRestarts
      ∧ expected.updatedAt ≤ proposed.updatedAt ∧ proposed.publishAfter = none))
    (.conflict "invalid staging checkpoint transition")
  raiseIf (receipts.length > 50 ∨ receipts.countP (fun receipt => receipt.kind = .detail) > 20)
    (.limit "staging batch exceeds local record budget")
  raiseIf (receipts.any fun receipt =>
      receipt.acquisitionId ≠ proposed.id || receipt.sellerId ≠ proposed.sellerId
        || receipt.readModel ≠ proposed.readModel || receipt.generation ≠ proposed.generation
        || receipt.passNumber ≠ proposed.passNumber
        || receipt.pageSequence ≠ proposed.pageSequence)
    (.conflict "receipt does not belong to checkpoint")
  raiseIf (¬ receipts.all evidence.authentic)
    (.conflict "source identity or fingerprint mismatch")
  raiseIf (¬ (receipts.map Receipt.identity).Nodup)
    (.conflict "batch repeats a receipt identity")
  raiseIf (¬ evidence.bounded expected proposed receipts)
    (.limit "staging transaction exceeds local byte budget")

/-- Store the receipts of a batch and count the new memberships and details. -/
def storeReceipts (replay : Bool) : List Receipt → Collection Receipt.id →
    Except HistoryError (Nat × Nat × Collection Receipt.id)
  | [], stored => pure (0, 0, stored)
  | receipt :: rest, stored => do
      match stored.findOne fun other => other.identity = receipt.identity with
      | some other =>
          raiseIf (¬ sameReceipt other receipt)
            (.conflict "conflicting source receipt requires drift reconciliation")
          storeReceipts replay rest stored
      | none =>
          raiseIf replay (.conflict "checkpoint replay is missing a receipt")
          raiseIf (receipt.kind = .detail ∧ (stored.findOne fun other =>
              other.identity = { receipt with kind := .membership }.identity).isNone)
            (.conflict "detail has no acquired membership")
          match stored.insert receipt with
          | none => throw (.conflict "receipt storage identity collision")
          | some stored =>
              let (discovered, fetched, stored) ← storeReceipts replay rest stored
              return (discovered + (if receipt.kind = .membership then 1 else 0),
                fetched + (if receipt.kind = .detail then 1 else 0), stored)

/-- The head after a batch: a replayed checkpoint is stored already. -/
def saveHead (replay : Bool) (expected proposed : Head) (discovered fetched : Nat) (db : Db) :
    Except HistoryError Db :=
  if replay then pure db
  else do
    raiseIf (¬ (proposed.discoveredCount = expected.discoveredCount + discovered
        ∧ proposed.fetchedCount = expected.fetchedCount + fetched))
      (.conflict "checkpoint counts do not match new receipts")
    replaceHead expected proposed "checkpoint compare-and-swap lost" db

/-- `checkpoint` inside a transaction. -/
def checkpoint (job : Job) (expected proposed : Head) (receipts : List Receipt)
    (before after : Time) (db : Db) : Except HistoryError (Head × Db) := do
  checkCheckpoint evidence expected proposed receipts
  let jobs ← fence q job expected before db.jobs
  let stored := db.heads.findOne fun stored => stored.id = expected.id
  let replay := stored = some proposed
  raiseIf (stored ≠ some expected ∧ ¬ replay)
    (.conflict "stale acquisition checkpoint")
  let (discovered, fetched, stagedReceipts) ← storeReceipts replay receipts db.receipts
  let db ← saveHead replay expected proposed discovered fetched
    { db with jobs, receipts := stagedReceipts }
  let jobs ← fence q job proposed after db.jobs
  return (proposed, { db with jobs })

/-- The values the clock of the queue takes in one transaction, in the order in which
they are read. -/
structure Readings where
  current : Time
  checkpoint : Time
  fence : Time
  yieldAt : Time

/-- `progress`. -/
def progress (job : Job) (expected proposed : Head) (receipts : List Receipt) (now : Readings)
    (db : Db) : Except HistoryError (Head × Db) := do
  let expected ← checkedHead evidence expected
  let proposed ← checkedHead evidence proposed
  raiseIf (expected.nextCursor = proposed.nextCursor ∧ expected.phase = proposed.phase
      ∧ expected.discoveredCount = proposed.discoveredCount
      ∧ expected.fetchedCount = proposed.fetchedCount)
    (.conflict "a revision alone is not durable acquisition progress")
  let (_, db) ← current q job expected now.current db
  let (saved, db) ← checkpoint q evidence job expected proposed receipts now.checkpoint now.fence db
  let jobs ← yieldPending job saved 0 0 now.yieldAt db.jobs
  return (saved, { db with jobs })

/-- The receipts of one pass of an acquisition. -/
def inScope (head : Head) (receipt : Receipt) : Bool :=
  receipt.acquisitionId = head.id && receipt.generation = head.generation
    && receipt.passNumber = head.passNumber

def countKind (head : Head) (kind : ReceiptKind) (db : Db) : Nat :=
  db.receipts.count fun receipt => inScope head receipt && receipt.kind = kind

/-- `begin_verification`. -/
def beginVerification (job : Job) (expected : Head) (now : Readings) (db : Db) :
    Except HistoryError (Head × Db) := do
  let expected ← checkedHead evidence expected
  raiseIf (¬ (expected.readModel = .orders ∧ expected.phase = .hydrate ∧ expected.nextCursor = none
      ∧ expected.sourceTotal.isSome ∧ expected.fetchedCount = expected.discoveredCount))
    (.conflict "verification requires hydrated enumeration")
  let (_, db) ← current q job expected now.current db
  let memberships := countKind expected .membership db
  raiseIf (memberships ≠ expected.discoveredCount
      ∨ countKind expected .detail db ≠ expected.fetchedCount
      ∨ some (memberships + countKind expected .exclusion db) ≠ expected.sourceTotal
      ∨ (db.receipts.findOne fun receipt =>
          inScope expected receipt && receipt.sourcePayload.isNone).isSome)
    (.conflict "verification baseline lacks source receipts")
  let saved ← checkedHead evidence
    { expected with
      passNumber := expected.passNumber + 1, activeRangeId := none,
      checkpointRevision := expected.checkpointRevision + 1, pageSequence := 0, phase := .verify,
      nextCursor := some (.offset 0), discoveredCount := 0, fetchedCount := 0,
      updatedAt := now.checkpoint }
  let db ← replaceHead expected saved "verification checkpoint changed" db
  let jobs ← fence q job saved now.fence db.jobs
  let jobs ← yieldPending job saved 0 0 now.yieldAt jobs
  return (saved, { db with jobs })

/-- `begin_publication`. -/
def beginPublication (job : Job) (expected : Head) (now : Readings) (db : Db) :
    Except HistoryError (Head × Db) := do
  let expected ← checkedHead evidence expected
  raiseIf (¬ (expected.readModel = .orders ∧ expected.phase = .verify ∧ expected.nextCursor = none
      ∧ expected.activeRangeId = none ∧ expected.sourceTotal.isSome
      ∧ expected.observedFrom.isSome ∧ expected.publishedCount = 0))
    (.conflict "publication requires completed order verification")
  let (_, db) ← current q job expected now.current db
  let members := countKind expected .membership db
  let excluded := countKind expected .exclusion db
  let excludedFor (reason : String) := db.receipts.count fun receipt =>
    inScope expected receipt && receipt.kind = .exclusion && receipt.exclusionReason = some reason
  let outside := excludedFor "outside_requested_creation_interval"
  let cancelled := excludedFor "seller_search_omits_source_confirmed_cancelled_order"
  raiseIf (members ≠ expected.discoveredCount ∨ excluded ≠ outside + cancelled ∨ members < cancelled
      ∨ some (members - cancelled + outside) ≠ expected.sourceTotal)
    (.conflict "verified order manifest count changed")
  let detailed (receipt : Receipt) := db.receipts.matched fun other =>
    other.acquisitionId = expected.id && other.generation = expected.generation
      && (other.passNumber + 1 = expected.passNumber || other.passNumber = expected.passNumber)
      && other.kind = .detail && other.resourceId = receipt.resourceId
  raiseIf (db.receipts.matched fun receipt =>
      inScope expected receipt && receipt.kind = .membership && !detailed receipt)
    (.conflict "verified order detail is missing")
  let saved ← checkedHead evidence
    { expected with
      phase := .publish, fetchedCount := members,
      checkpointRevision := expected.checkpointRevision + 1, updatedAt := now.checkpoint }
  let db ← replaceHead expected saved "publication handoff checkpoint changed" db
  let jobs ← yieldPending job saved 0 0 now.yieldAt db.jobs
  return (saved, { db with jobs })

inductive ReleaseReason
  | quota
  | failure
  | cursorExpired
  | sourceDrift
  deriving DecidableEq, Repr

/-- A release that gives the job up instead of yielding it: `finish`, and the binding of
the job to its checkpoint where `bind` says so. -/
def stop (claimed : Job) (expected : Head) (retryable : Bool) (reason : FailureReason)
    (bind : Bool) (message : String) (now : Readings) (db : Db) :
    Except HistoryError (Head × Db) :=
  match finish claimed false retryable reason now.checkpoint now.fence db.jobs with
  | .error error => throw (.queue error)
  | .ok (false, _) => throw (.conflict message)
  | .ok (true, jobs) =>
      let jobs :=
        if bind then
          jobs.update (fun stored => stored.id = claimed.id)
            (fun stored => { stored with history := some (binding expected) }) fun _ => rfl
        else jobs
      pure (expected, { db with jobs })

/-- The head of an acquisition that starts again after its source changed. -/
def restarted (expected : Head) (now : Time) : Head :=
  { expected with
    passNumber := expected.passNumber + 1, activeRangeId := none,
    driftRestarts := expected.driftRestarts + 1,
    checkpointRevision := expected.checkpointRevision + 1, pageSequence := 0, phase := .discover,
    nextCursor := none, sourceTotal := none, discoveredCount := 0, fetchedCount := 0,
    publishedCount := 0, publishAfter := none, observedFrom := none, observedUntil := none,
    updatedAt := now }

/-- The head a release saves: a restart allocates a new pass. -/
def restartHead (restart : Bool) (expected : Head) (now : Time) (db : Db) :
    Except HistoryError (Head × Db) :=
  if restart then do
    let saved ← checkedHead evidence (restarted expected now)
    let db ← replaceHead expected saved "restart checkpoint changed" db
    return (saved, db)
  else pure (expected, db)

/-- `release`. -/
def release (job : Job) (expected : Head) (reason : ReleaseReason) (now : Readings) (db : Db) :
    Except HistoryError (Head × Db) := do
  let expected ← checkedHead evidence expected
  let (claimed, db) ← current q job expected now.current db
  let restart := reason = .cursorExpired ∨ reason = .sourceDrift
  if expected.readModel = .questions ∧ restart then
    stop claimed expected false
      (if reason = .cursorExpired then .sourceCursorExpired else .sourceIncomplete) false
      "question stop lost owner" now db
  else if reason = .failure ∨ restart ∧ expected.driftRestarts = 3 then
    stop claimed expected (reason = .failure)
      (if reason = .failure then .sourceTemporarilyUnavailable else .sourceIncomplete) true
      "lease lost before failure release" now db
  else
    let (saved, db) ← restartHead evidence restart expected now.checkpoint db
    let jobs ← fence q job saved now.fence db.jobs
    let jobs ← yieldPending claimed saved (claimed.attempts - 1)
      (if reason = .quota then 1000 else 0) now.yieldAt jobs
    return (saved, { db with jobs })

end ZelerPlatform.Recovery
