import Mathlib.Data.Prod.Lex
import Mathlib.Order.Defs.LinearOrder
import ZelerPlatform.Library.Fallible
import ZelerPlatform.Library.Mongo.Python
import ZelerPlatform.Recovery.Job

/-!
# The recovery queue

`FormulaRecoveryQueue` admits requests as jobs, hands them to workers and takes them back.
Admission is a transaction that counts the seller's active jobs. Every other operation
updates one job, or all jobs of a kind, at once; an operation of a worker selects its job
by the attempt token it was claimed with and by a lease that has not run out.

The definitions are the bodies of these calls. `now` arguments are the values the clock
of the queue returns, `token` is the random token of a claim, and a `job` argument is the
document a worker was handed earlier, which need not be what is stored by now.
-/

namespace ZelerPlatform.Recovery

open Fallible

/-- What a call of the queue raises. -/
inductive QueueError
  | valueError (message : String)
  | capacityError
  | missingField (name : String)
  | duplicateKey
  deriving DecidableEq, Repr

/-- An admission guard: the revision of a seller that serialises its admissions. -/
abbrev Guards := Collection (Prod.fst : String × Nat → String)

/-- A `FormulaRecoveryQueue`; its constructor checks the two bounds. -/
structure Queue where
  maxActiveJobsPerSeller : Nat
  reservedInventorySlots : Nat
  enabledModels : List ReadModel
  allowedSellers : Option (List String)
  policyAuthority : Option String
  yearHistoryEnabled : Bool
  positive : 0 < maxActiveJobsPerSeller
  reserved : reservedInventorySlots ≤ min 1 maxActiveJobsPerSeller

/-! ### Admission -/

namespace Queue

variable (q : Queue)

/-- The checks of `enqueue` that read no document. `gate` is the answer of the seller
gate, for a queue that has one. -/
def admissible (request : Request) (gate : Option Bool) : Except QueueError Unit := do
  raiseIf ((q.allowedSellers.map fun sellers => decide (request.sellerId ∈ sellers)) = some false)
    (.valueError "recovery seller is not enabled")
  raiseIf (request.readModel ∉ q.enabledModels)
    (.valueError "recovery source is not enabled")
  match request.readModel, request with
  | .shipments, .shipmentIds .. => pure ()
  | .shipments, _ => throw (.valueError "shipment recovery requires explicit IDs")
  | .catalogProductSnapshots, .catalogProductIds .. => pure ()
  | .catalogProductSnapshots, .catalog .. => pure ()
  | .catalogProductSnapshots, .renewal .. => pure ()
  | .catalogProductSnapshots, _ =>
      throw (.valueError "catalog recovery requires explicit product IDs")
  | .catalogBuyboxSnapshots, .itemIds .. => pure ()
  | .catalogBuyboxSnapshots, .catalog .. => pure ()
  | .catalogBuyboxSnapshots, .renewal .. => pure ()
  | .catalogBuyboxSnapshots, _ =>
      throw (.valueError "buybox recovery requires explicit publication IDs")
  | .itemFormulaRows, .itemIds .. => pure ()
  | .itemFormulaRows, .catalog .. => pure ()
  | .itemFormulaRows, .renewal .. => pure ()
  | .itemFormulaRows, .inventory .. => pure ()
  | .itemFormulaRows, _ =>
      throw (.valueError "item recovery requires explicit IDs or an inventory request")
  | _, _ => pure ()
  raiseIf (gate = some false)
    (.valueError "recovery seller is not enabled")

/-- The read before the transaction: an active job of the request makes admission
unnecessary. -/
def activeJob (sha256 : String → String) (request : Request) (jobs : Jobs) : Option Job :=
  jobs.findOne fun job =>
    job.id = sha256 request.keyText && job.sellerId = request.sellerId
      && job.readModel = request.readModel && job.active

/-- The job that admission is about: an active one that covers the request already, or
the one under this key, with the document to insert if there is none. -/
inductive Target
  | covered (key : String)
  | unit (key : String) (candidate : Job)

/-- A request for publications leaves out those that active jobs acquire already. -/
def target (sha256 : String → String) (request : Request) (now : Time) (jobs : Jobs) :
    Except QueueError Target :=
  let key := sha256 request.keyText
  let candidate := initial q.policyAuthority key request now
  match request.narrowable with
  | none => pure (.unit key candidate)
  | some requested =>
      let activeItems := (jobs.find fun job =>
        job.activeOf request.sellerId && job.readModel = request.readModel
          && job.itemIds.isSome).take q.maxActiveJobsPerSeller
      let covered := activeItems.flatMap fun job => job.itemIds.getD []
      let remaining := requested.filter fun identity => identity ∉ covered
      if remaining = [] then
        match activeItems with
        | job :: _ => pure (.covered job.id)
        | [] => throw (.missingField "active_items")
      else if remaining = requested then pure (.unit key candidate)
      else
        let narrowed := sha256 (request.narrow remaining).keyText
        pure (.unit narrowed { candidate with id := narrowed, itemIds := some remaining })

/-- The two counts of admission, each limited to the capacity. -/
def checkCapacity (request : Request) (jobs : Jobs) : Except QueueError Unit := do
  let capacity := q.maxActiveJobsPerSeller
  let active := min capacity (jobs.count (Job.activeOf request.sellerId))
  let nonInventory := min capacity (jobs.count (Job.nonInventoryOf request.sellerId))
  raiseIf (q.reservedInventorySlots ≠ 0 ∧ ¬ request.isInventory
    ∧ nonInventory ≥ capacity - q.reservedInventorySlots) .capacityError
  raiseIf (active ≥ capacity) .capacityError

/-- The document of a reopened job. -/
def reopened (request : Request) (now : Time) (attempts : Int) (job : Job) : Job :=
  let job := { job with state := .pending, attempts, updatedAt := now }
  if request.isInventory then
    { job with inventoryOffset := none, inventoryUnavailableIds := none }
  else if request.isCatalog then
    { job with
      catalogOffset := some 0, catalogFailedOffsets := none, catalogFailureReason := none }
  else job

/-- The filter of a reopening: the key, and the cursor of a shipment job that has one. -/
def reopenFilter (key : String) (existing : Job) (request : Request) (job : Job) : Bool :=
  job.id = key &&
    match request, existing.shipmentOffset with
    | .shipmentIds _ ids, some offset =>
        job.shipmentIds = some ids && job.state = existing.state
          && job.shipmentOffset = some offset
    | _, _ => true

/-- The change of a reopening. A completed shipment cursor starts again and is recorded,
an unfinished one goes on with the attempts it has left. -/
def reopenChange (key : String) (existing : Job) (request : Request) (now : Time) :
    Except QueueError (Job → Job) :=
  match request, existing.shipmentOffset with
  | .shipmentIds _ ids, some offset =>
      if offset > ids.length then throw (.valueError "shipment cursor malformed during reopen")
      else if existing.state = .completed ∧ offset = ids.length then
        pure fun job =>
          { reopened request now 0 job with
            shipmentOffset := some 0,
            shipmentCursorHistory := job.shipmentCursorHistory
              ++ [⟨offset, existing.updatedAt, key, request.sellerId⟩] }
      else pure (reopened request now existing.attempts)
  | _, _ => pure (reopened request now 0)

/-- A change of a job that keeps its key. -/
theorem reopened_id (request : Request) (now : Time) (attempts : Int) (job : Job) :
    (reopened request now attempts job).id = job.id := by
  unfold reopened
  dsimp only
  split_ifs <;> rfl

theorem reopenChange_id {key : String} {existing : Job} {request : Request} {now : Time}
    {change : Job → Job} (h : reopenChange key existing request now = .ok change) (job : Job) :
    (change job).id = job.id := by
  unfold reopenChange at h
  split at h
  · split_ifs at h
    · cases h
      exact reopened_id _ now 0 job
    · cases h
      exact reopened_id _ now existing.attempts job
  · cases h
    exact reopened_id _ now 0 job

/-- What `admit` does to the unit of a request, once its target is known. -/
def admitUnit (request : Request) (reopenTerminal : Bool) (now : Time) (key : String)
    (candidate : Job) (jobs : Jobs) : Except QueueError Jobs :=
  match jobs.findOne fun job => job.id = key with
  | some existing => do
      -- A unit of another authority is left to the workers of that authority.
      if existing.policyAuthority ≠ q.policyAuthority then
        return jobs
      raiseIf (¬ request.validateExisting key existing)
        (.valueError "request identity changed")
      if request.neverReopened ∨ ¬ reopenTerminal ∨ existing.active then
        return jobs
      q.checkCapacity request jobs
      match hchange : reopenChange key existing request now with
      | .error error => throw error
      | .ok change =>
          raiseIf (request.isShipmentIds ∧ ¬ jobs.matched (reopenFilter key existing request))
            (.valueError "shipment reopen identity changed")
          return jobs.update (reopenFilter key existing request) change (reopenChange_id hchange)
  | none => do
      q.checkCapacity request jobs
      match jobs.insert candidate with
      | some jobs => return jobs
      | none => throw .duplicateKey

/-- The upsert that seeds the guard of a seller. -/
def seed (sellerId : String) (guards : Guards) : Guards :=
  (guards.insert (sellerId, 0)).getD guards

/-- The write by which concurrent admissions of a seller exclude each other. -/
def advance (sellerId : String) (guards : Guards) : Guards :=
  guards.update (fun guard => guard.1 = sellerId) (fun guard => (guard.1, guard.2 + 1))
    fun _ => rfl

/-- The transaction of `enqueue`, its `admit`. -/
def runAdmission (sha256 : String → String) (request : Request) (reopenTerminal : Bool) (now : Time)
    (jobs : Jobs) : Except QueueError (String × Jobs) := do
  match ← q.target sha256 request now jobs with
  | .covered key => return (key, jobs)
  | .unit key candidate =>
      let jobs ← q.admitUnit request reopenTerminal now key candidate jobs
      return (key, jobs)

/-! ### Claims -/

end Queue

inductive Lane
  | inventory
  | ids
  | ranges
  deriving DecidableEq, Repr

/-- `recovery_lane_filter`. -/
def recoveryLaneFilter (lane : Option Lane) (job : Job) : Bool :=
  let identified := job.itemIds.isSome || job.catalogProductIds.isSome || job.orderIds.isSome
    || job.shipmentIds.isSome
  match lane with
  | none => true
  | some .inventory => job.inventoryScope
  | some .ids => !job.inventoryScope && identified
  | some .ranges => !job.inventoryScope && !identified

/-- The lease of the job has not run out at `now`. -/
def Job.leasedAfter (now : Time) (job : Job) : Bool :=
  job.leaseUntil.any fun until' => decide (now < until')

/-- `{"lease_until": {"$lte": now}}`. -/
def Job.expiredAt (now : Time) (job : Job) : Bool :=
  job.leaseUntil.any fun until' => decide (until' ≤ now)

namespace Queue

variable (q : Queue)

/-- The filters of the seller and of the lane of a claim. -/
def laneFilter (lane : Option Lane) (history : Bool) (job : Job) : Bool :=
  (q.allowedSellers.all fun sellers => job.sellerId ∈ sellers)
    && job.policyAuthority = q.policyAuthority && recoveryLaneFilter lane job
    && (if history then job.history.any fun binding => binding.protocolVersion = 1
        else job.history.isNone)
    && (q.yearHistoryEnabled || !job.yearHistory)

/-- Update one chosen document and return it as it is afterwards. -/
def takeOne (chosen : Option Job) (change : Job → Job) (keeps : ∀ job, (change job).id = job.id)
    (jobs : Jobs) : Option Job × Jobs :=
  match chosen with
  | none => (none, jobs)
  | some job => (some (change job), jobs.update (fun stored => stored.id = job.id) change keeps)

/-- The claim of an expired last attempt at a catalog chunk, to be recorded as failed. -/
def claimExhausted (lane : Option Lane) (history : Bool) (now : Time) (token : String)
    (jobs : Jobs) : Option Job × Jobs :=
  takeOne (jobs.findOne fun job =>
      q.laneFilter lane history job && job.state = .running && job.catalogOffset.isSome
        && job.readModel ∈ q.enabledModels && job.expiredAt now
        && decide (maxAttempts ≤ job.attempts))
    (fun job => { job with leaseUntil := some (now + lease), attemptToken := some token })
    (fun _ => rfl) jobs

/-- The bulk update that fails every other job whose last attempt expired. -/
def failExhausted (lane : Option Lane) (history : Bool) (now : Time) (jobs : Jobs) : Jobs :=
  jobs.update
    (fun job => q.laneFilter lane history job && job.catalogOffset.isNone
      && job.state = .running && job.expiredAt now && decide (maxAttempts ≤ job.attempts))
    (fun job =>
      { job with
        state := .failed, failureReason := some .attemptsExhausted, updatedAt := now,
        availableAt := now + cooldown, leaseUntil := none, attemptToken := none })
    fun _ => rfl

/-- `claim_filter`. -/
def claimFilter (lane : Option Lane) (history : Bool) (now : Time) (job : Job) : Bool :=
  q.laneFilter lane history job && decide (job.attempts < maxAttempts)
    && job.readModel ∈ q.enabledModels && decide (job.availableAt ≤ now)
    && (job.state = .pending || job.state = .running && job.expiredAt now)

/-- The recent creation-tail sweeps that go first in the lane of ranges. -/
def recentTail (now : Time) (job : Job) : Bool :=
  job.readModel = .orders && (job.dateFrom.any fun t => decide (now - 10800000 ≤ t))
    && job.dateTo.any fun t => decide (now - 7200000 ≤ t)

/-- The job the next claim takes: a recent tail if there is one, else the first by
availability. -/
def nextJob (lane : Option Lane) (history : Bool) (now : Time) (jobs : Jobs) : Option Job :=
  let tail :=
    if lane = some .ranges ∧ ¬ history ∧ ReadModel.orders ∈ q.enabledModels then
      jobs.findFirst (fun job => q.claimFilter lane history now job && recentTail now job)
        fun job => toLex (-(job.dateTo.getD 0), toLex (job.availableAt, job.id))
    else none
  tail.orElse fun _ =>
    jobs.findFirst (q.claimFilter lane history now) fun job => toLex (job.availableAt, job.id)

/-- The claim of the next job. -/
def claimNext (lane : Option Lane) (history : Bool) (now : Time) (token : String) (jobs : Jobs) :
    Option Job × Jobs :=
  takeOne (q.nextJob lane history now jobs)
    (fun job =>
      { job with
        state := .running, attemptToken := some token, leaseUntil := some (now + lease),
        updatedAt := now, attempts := job.attempts + 1 })
    (fun _ => rfl) jobs

end Queue

/-! ### Operations of a worker -/

/-- `_owned`: the job still runs under the token of the snapshot and its lease has not run
out. Indexing a snapshot without a token raises, here it selects nothing. -/
def owned (job : Job) (now : Time) (stored : Job) : Bool :=
  stored.id = job.id && stored.state = .running && job.attemptToken.isSome
    && stored.attemptToken = job.attemptToken && stored.leasedAfter now

/-- An update of the job the caller owns, and whether there is one. -/
def updateOwned (job : Job) (now : Time) (change : Job → Job)
    (keeps : ∀ job, (change job).id = job.id) (jobs : Jobs) : Bool × Jobs :=
  (jobs.matched (owned job now), jobs.update (owned job now) change keeps)

/-- `_close_ineligible`. -/
def closeIneligible (job : Job) (now : Time) (jobs : Jobs) : Jobs :=
  (updateOwned job now (fun stored =>
    { stored with
      state := .failed, failureReason := some .sellerNotEligible, updatedAt := now,
      availableAt := now + cooldown, leaseUntil := none, attemptToken := none })
    (fun _ => rfl) jobs).2

def renew (job : Job) (now : Time) (jobs : Jobs) : Bool × Jobs :=
  updateOwned job now (fun stored =>
    { stored with leaseUntil := some (now + lease), updatedAt := now }) (fun _ => rfl) jobs

def deferQuota (job : Job) (now : Time) (jobs : Jobs) : Bool × Jobs :=
  updateOwned job now (fun stored =>
    { stored with
      state := .pending, updatedAt := now, availableAt := now + 1000,
      attempts := stored.attempts - 1, attemptToken := none, leaseUntil := none })
    (fun _ => rfl) jobs

/-- `re.fullmatch(r"ML[A-Z][0-9]+", value)`. -/
def isPublicationId (value : String) : Bool :=
  match value.toList with
  | 'M' :: 'L' :: site :: digits =>
      decide ('A' ≤ site ∧ site ≤ 'Z') && !digits.isEmpty
        && digits.all fun c => decide ('0' ≤ c ∧ c ≤ '9')
  | _ => false

/-- The checks of `checkpoint_inventory`. -/
def validCheckpoint (job : Job) (itemIds : List String) (offset : Nat) (unavailable : Bool) : Bool :=
  job.inventoryScope && decide (itemIds.length ≤ 10000) && decide (itemIds.Pairwise (· < ·))
    && itemIds.all isPublicationId && !(unavailable && job.inventoryOffset.isNone)
    && decide (offset ≤ itemIds.length)
    && match job.inventoryOffset with
      | none => offset = 0
      | some previous =>
          job.inventoryIds = some itemIds && decide (previous < offset ∧ offset ≤ previous + 20)

def checkpointInventory (job : Job) (itemIds : List String) (offset : Nat) (unavailable : Bool)
    (now : Time) (jobs : Jobs) : Except QueueError (Bool × Jobs) := do
  raiseIf (¬ validCheckpoint job itemIds offset unavailable)
    (.valueError "invalid inventory checkpoint")
  let completed := offset = itemIds.length
  let passed := itemIds.extract (job.inventoryOffset.getD 0) offset
  let missing := ((job.inventoryUnavailableIds.getD [] ++ if unavailable then passed else []).dedup
    ).mergeSort
  let terminalFailure := completed && !missing.isEmpty
  let observed := job.inventoryObservedAt.getD job.updatedAt
  let availableAt :=
    if ¬ completed then now
    else if terminalFailure then now + cooldown
    else max now (observed + inventoryRefreshInterval)
  return (updateOwned job now (fun stored =>
    { stored with
      inventoryIds := some itemIds, inventoryOffset := some offset,
      inventoryUnavailableIds := some missing,
      inventoryObservedAt :=
        if job.inventoryOffset.isNone then some job.updatedAt else stored.inventoryObservedAt,
      state := if terminalFailure then .failed else if completed then .completed else .pending,
      attempts := 0, updatedAt := now, availableAt,
      failureReason := if terminalFailure then some .sourceIncomplete else none,
      attemptToken := none, leaseUntil := none })
    (fun _ => rfl) jobs)

/-- The delay before another attempt, `30 * 2 ** (attempts - 1)` seconds. -/
def retryDelay (attempts : Int) : Time :=
  if 1 ≤ attempts then 30000 * 2 ^ (attempts - 1).toNat else 30000 / 2 ^ (1 - attempts).toNat

/-- The publication or product IDs a catalog continuation runs over. -/
def catalogIds (job : Job) : Option (List String) :=
  if job.readModel = .catalogProductSnapshots then job.catalogProductIds else job.itemIds

/-- The end of a chunk of a catalog continuation: the offset moves on, a failed chunk is
noted, and the job is pending again until its last chunk. -/
def finishChunk (job : Job) (offset : Nat) (succeeded : Bool) (reason : FailureReason)
    (now : Time) (jobs : Jobs) : Except QueueError (Bool × Jobs) := do
  let ids ← (catalogIds job).elim (throw (.missingField "item_ids")) pure
  raiseIf (¬ (offset < ids.length ∧ offset % 20 = 0))
    (.valueError "invalid catalog continuation offset")
  let nextOffset := min (offset + 20) ids.length
  let failed := job.catalogFailedOffsets.getD [] ++ if succeeded then [] else [offset]
  let done := decide (nextOffset = ids.length)
  let chunkReason := if succeeded then job.catalogFailureReason else some reason
  raiseIf (¬ failed.isEmpty ∧ chunkReason.isNone) (.missingField "catalog_failure_reason")
  return updateOwned job now (fun stored =>
    { stored with
      state := if !done then .pending else if failed.isEmpty then .completed else .failed,
      attempts := 0, availableAt := if done then now + cooldown else now, updatedAt := now,
      catalogOffset := some nextOffset, catalogFailedOffsets := some failed,
      catalogFailureReason := if succeeded then stored.catalogFailureReason else some reason,
      failureReason := if failed.isEmpty then none else chunkReason,
      leaseUntil := none, attemptToken := none }) (fun _ => rfl) jobs

/-- `finish`. A call for an inventory page that cannot be read ends in a checkpoint, which
reads the clock again. -/
def finish (job : Job) (succeeded retryable : Bool) (reason : FailureReason)
    (now checkpointNow : Time) (jobs : Jobs) : Except QueueError (Bool × Jobs) := do
  let retry := !succeeded && retryable && decide (job.attempts < maxAttempts)
  raiseIf (¬ reason.isPublic)
    (.valueError "unsupported public recovery failure reason")
  if !succeeded && !retry && job.inventoryScope && job.inventoryOffset.isSome
      && (reason = .sourceIncomplete || reason = .sourceTemporarilyUnavailable) then
    match job.inventoryIds, job.inventoryOffset with
    | some ids, some offset =>
        checkpointInventory job ids (min (offset + 20) ids.length) true checkpointNow jobs
    | _, _ => throw (.missingField "inventory_ids")
  else
    let state : JobState := if succeeded then .completed else if retry then .pending else .failed
    let availableAt :=
      if succeeded && (job.readModel = .catalogProductSnapshots
          || job.readModel = .catalogBuyboxSnapshots) then max now (job.updatedAt + cooldown)
      else if retry then now + retryDelay job.attempts
      else now + cooldown
    let failureReason := if succeeded then none else some reason
    match job.catalogOffset, retry with
    | some offset, false =>
        finishChunk job offset succeeded reason now jobs
    | _, _ =>
        return updateOwned job now (fun stored =>
          { stored with
            state, availableAt, updatedAt := now, failureReason,
            leaseUntil := none, attemptToken := none }) (fun _ => rfl) jobs

/-- The constructor of a shipment request accepts these IDs and leaves them as they are. -/
def validShipmentIds (sellerId : String) (ids : List String) : Bool :=
  Mongo.pyStrip sellerId ≠ "" && decide (1 ≤ ids.length ∧ ids.length ≤ 100)
    && ids.all (fun identity => !identity.isEmpty && identity.toList.all Char.isDigit)
    && decide (ids.Pairwise (· < ·))

namespace Queue

variable (q : Queue)

/-- `_shipment_cursor_binding`: the filter of a cursor update and the number of IDs. -/
def shipmentCursorBinding (sha256 : String → String) (job : Job) (now : Time) :
    Except QueueError ((Job → Bool) × Nat) := do
  let ids ← job.shipmentIds.elim (throw (.missingField "shipment_ids")) pure
  let requested := Request.shipmentIds job.sellerId ids
  raiseIf (¬ (validShipmentIds job.sellerId ids ∧ job.id = sha256 requested.keyText
      ∧ job.readModel = .shipments ∧ ReadModel.shipments ∈ q.enabledModels
      ∧ (q.allowedSellers.all fun sellers => job.sellerId ∈ sellers)
      ∧ job.policyAuthority = q.policyAuthority))
    (.valueError "shipment cursor identity unavailable")
  return (fun stored =>
    owned job now stored && stored.sellerId = job.sellerId && stored.readModel = .shipments
      && stored.shipmentIds = some ids && stored.policyAuthority = q.policyAuthority, ids.length)

/-- `checkpoint_shipment_cursor`, inside a transaction that publishes the shipment. -/
def checkpointShipmentCursor (sha256 : String → String) (job : Job)
    (expectedOffset nextOffset : Nat) (now : Time) (jobs : Jobs) :
    Except QueueError (Bool × Jobs) := do
  let (query, size) ← q.shipmentCursorBinding sha256 job now
  raiseIf (¬ (expectedOffset ≤ nextOffset ∧ nextOffset ≤ size ∧ nextOffset ≤ expectedOffset + 1))
    (.valueError "shipment cursor transition malformed")
  let filter := fun stored => query stored && stored.shipmentOffset = some expectedOffset
  return (jobs.matched filter,
    jobs.update filter (fun stored => { stored with shipmentOffset := some nextOffset })
      fun _ => rfl)

end Queue

/-! ### The relink re-arm -/

/-- `POLICY_VERSION` of the history onboarding. -/
def policyVersion : String := "history-on-link-v1"

/-- A failed job of the onboarding policy that the source rejected before the new link. -/
def rearmFilter (sellerId : String) (linkedAt : Time) (job : Job) : Bool :=
  job.sellerId = sellerId && job.policyAuthority = some policyVersion && job.state = .failed
    && job.failureReason = some .sourceRejected && decide (job.updatedAt < linkedAt)

/-- The bulk update of `process_once` after a new link of the seller's account. -/
def rearm (sellerId : String) (linkedAt now : Time) (jobs : Jobs) : Jobs :=
  jobs.update (rearmFilter sellerId linkedAt)
    (fun job =>
      { job with state := .pending, attempts := 0, availableAt := now, failureReason := none })
    fun _ => rfl

end ZelerPlatform.Recovery
