import Mathlib.Data.List.Sort
import Mathlib.Data.Prod.Lex
import Mathlib.Order.WithBot
import Mathlib.Data.String.Basic
import ZelerPlatform.Library.Collection
import ZelerPlatform.Library.Mongo.Value
import ZelerPlatform.Library.Program

/-!
# The processor of synchronisation jobs

`process_once` fails the jobs whose append outcome is unknown, claims a job and delivers the
webhook events between its request and the claim to a handler, one after another. All
operations on `sheets_sync_jobs` are atomic and any number of calls interleave.

What a call reads from outside is arbitrary: its clock, its token, whether the unique index
refuses its claim, the plan of the seller, the webhook events and what the handler does with
each. Beside the jobs the store lists what the calls have done, newest first, which nothing
reads. Instants are in microseconds, stored ones and those of queries whole milliseconds.
-/

namespace ZelerPlatform.SyncJobs

open Mongo.Value (floorMs)
open Transition

/-! ### Documents -/

inductive JobState
  | pending
  | running
  | succeeded
  | failed
  deriving DecidableEq, Repr

def JobState.terminal : JobState → Bool
  | succeeded => true
  | failed => true
  | _ => false

/-- A document of `sheets_sync_jobs`; sellers are numbers. -/
structure Job where
  id : String
  sellerId : Nat
  spreadsheetId : String
  state : JobState
  createdAt : ℤ
  requestedAt : ℤ
  availableAt : Option ℤ
  attemptCount : Nat
  attemptToken : Option String
  fence : Nat
  leaseUntil : Option ℤ
  appendStartedAt : Option ℤ
  startedAt : Option ℤ
  deltaThroughAt : Option ℤ
  cursorReceivedAt : Option ℤ
  cursorEventId : Option String
  unsupportedEventCount : Option Nat
  completedAt : Option ℤ
  errorCode : Option String
  errorMessage : Option String
  updatedAt : ℤ
  schemaVersion : Nat
  deriving DecidableEq, Repr

inductive UserId
  | text (s : String)
  | number (n : Nat)
  deriving DecidableEq, Repr

/-- A document of `webhook_events`. -/
structure WebhookEvent where
  id : String
  userId : UserId
  topic : String
  classification : Option String
  resource : String
  actions : Option (List String)
  rawActions : Option (List String)
  receivedAt : ℤ
  deriving DecidableEq, Repr

structure SheetsEvent where
  eventId : String
  eventType : String
  sellerId : Nat
  resource : String
  idempotencyKey : String
  deriving DecidableEq, Repr

/-! ### Events -/

/-- The text up to the first dot. -/
def beforeDot (text : String) : List Char := text.toList.takeWhile (· ≠ '.')

def supported (event : WebhookEvent) : Bool :=
  let classification := (event.classification.filter (· ≠ "")).getD event.topic
  ["items", "orders", "shipments", "questions"].any fun kind =>
    kind.toList = beforeDot classification

def isDigits (text : String) : Bool := text ≠ "" && text.toList.all Char.isDigit

inductive Source
  | orders
  | questions
  | shipments
  | messages
  deriving DecidableEq, Repr

/-- `TOPICS` -/
def topics : List (String × String × Source) :=
  [("orders_v2", "orders.updated", .orders), ("orders.updated", "orders.updated", .orders),
    ("questions", "questions.new", .questions), ("questions.new", "questions.new", .questions),
    ("shipments", "shipments.updated", .shipments),
    ("shipments.updated", "shipments.updated", .shipments),
    ("messages", "messages.new", .messages), ("messages.new", "messages.new", .messages)]

/-- `PATHS` -/
def pathMatches (source : Source) (resource : String) : Bool :=
  match source, resource.splitOn "/" with
  | .orders, ["", "orders", n] => isDigits n
  | .questions, ["", "questions", n] => isDigits n
  | .shipments, ["", "shipments", n] => isDigits n
  | .shipments, ["", "shipments", n, part] => isDigits n && (part = "costs" || part = "payments")
  | .messages, ["", "messages", "packs", n, "sellers", m] => isDigits n && isDigits m
  | _, _ => false

/-- The event type and the resource of an event, if it is one of the known kinds. -/
def normalizeHistoryEvent (document : WebhookEvent) : Option (String × String) := do
  let topic ← if document.topic = "" then document.classification else some document.topic
  let value ←
    if topic = "post_purchase" then
      let actions := document.actions.or document.rawActions
      match document.resource.splitOn "/" with
      | ["", "post-purchase", "v1", "claims", n] =>
          if isDigits n && actions = some ["claims"] then
            some ("claims.updated", document.resource)
          else none
      | ["", "post-purchase", "v1", "claims", n, "actions-history"] =>
          if isDigits n && actions = some ["claims_actions"] then
            some ("claims.updated", "/post-purchase/v1/claims/" ++ n)
          else none
      | _ => none
    else do
      let (eventType, source) ← topics.lookup topic
      if pathMatches source document.resource then some (eventType, document.resource) else none
  if document.classification.all fun classification =>
      classification = topic || classification = value.1
  then some value else none

/-! ### What a call reads from outside -/

/-- The exceptions of a handler: a wait for the policy, a rate limit of the gateway with
what its response says, or another one by the name of its type. -/
inductive HandlerError
  | policyWait
  | rateLimit (statusCode : Nat) (budgetStatus : Option String) (error : Option String)
      (retryAfter : ℤ)
  | other (typeName : String)
  deriving DecidableEq, Repr

/-- The places where a call reads the clock. -/
inductive Reading
  | recover
  | claim
  | mark
  | markUpdated
  | cursorUpdated (eventId : String)
  | countUpdated
  | available
  | finish
  | finishUpdated

structure Surroundings where
  clock : Reading → ℤ
  token : String
  duplicateKey : Bool
  pilot : Bool
  webhookEvents : List WebhookEvent
  handle : SheetsEvent → Except HandlerError Unit

structure Settings where
  activationCutoff : ℤ
  leaseDuration : ℤ
  contentionBackoff : ℤ
  retentionWindow : ℤ

/-! ### The store -/

/-- The writes of an attempt. -/
inductive Write
  | mark (startedAt : ℤ)
  | cursor (event : WebhookEvent)
  | count (unsupported : Nat)
  | release (availableAt : ℤ) (errorCode errorMessage : String)
  | finish (succeeded : Bool) (completedAt : ℤ) (errorCode errorMessage : Option String)
  deriving DecidableEq

/-- The write ends the attempt. -/
def Write.ends : Write → Bool
  | release .. => true
  | finish .. => true
  | _ => false

def Write.apply (write : Write) (updatedAt : ℤ) (job : Job) : Job :=
  match write with
  | mark startedAt =>
      { job with appendStartedAt := some (floorMs startedAt), updatedAt := floorMs updatedAt }
  | cursor event =>
      { job with
        cursorReceivedAt := some event.receivedAt
        cursorEventId := some event.id
        updatedAt := floorMs updatedAt }
  | count unsupported =>
      { job with unsupportedEventCount := some unsupported, updatedAt := floorMs updatedAt }
  | release availableAt errorCode errorMessage =>
      { job with
        state := .pending
        availableAt := some (floorMs availableAt)
        leaseUntil := none
        appendStartedAt := none
        completedAt := none
        errorCode := some errorCode
        errorMessage := some errorMessage
        updatedAt := floorMs updatedAt }
  | finish succeeded completedAt errorCode errorMessage =>
      { job with
        state := if succeeded then .succeeded else .failed
        completedAt := some (floorMs completedAt)
        leaseUntil := none
        errorCode := errorCode
        errorMessage := errorMessage
        updatedAt := floorMs updatedAt }

@[simp] theorem Write.apply_id (write : Write) (updatedAt : ℤ) (job : Job) :
    (write.apply updatedAt job).id = job.id := by
  cases write <;> rfl

@[simp] theorem Write.apply_fence (write : Write) (updatedAt : ℤ) (job : Job) :
    (write.apply updatedAt job).fence = job.fence := by
  cases write <;> rfl

@[simp] theorem Write.apply_attemptCount (write : Write) (updatedAt : ℤ) (job : Job) :
    (write.apply updatedAt job).attemptCount = job.attemptCount := by
  cases write <;> rfl

/-- What a call did. The job of an attempt is the one it claimed, as its claim left it. -/
inductive Fact (ι : Type*)
  | recovered (call : ι) (jobId : String)
  | claimed (call : ι) (job : Job)
  | wrote (call : ι) (job : Job) (write : Write)
  | handled (call : ι) (job : Job) (event : WebhookEvent)

structure Store (ι : Type*) where
  jobs : Collection Job.id
  history : List (Fact ι)

inductive Op
  | recover
  | find
  | claim (jobId : String)
  | contend (jobId : String)
  | write (jobId : String) (fence : Nat)
  | handle (jobId : String) (fence : Nat) (eventId : String)
  deriving DecidableEq, Repr

variable {ι : Type*}

/-! ### Operations on the jobs -/

/-- A running job whose lease has expired with its append mark set. -/
def uncertain (now : ℤ) (job : Job) : Bool :=
  job.state = .running && job.leaseUntil.any (· ≤ floorMs now) && job.appendStartedAt.isSome

def recoverJob (now : ℤ) (job : Job) : Job :=
  { job with
    state := .failed
    completedAt := some (floorMs now)
    leaseUntil := none
    errorCode := some "append_outcome_unknown"
    errorMessage := some "Append outcome is unknown; automatic retry is disabled"
    updatedAt := floorMs now }

def recoverUncertainAppends (i : ι) (now : ℤ) (s : Store ι) : Nat × Store ι :=
  let jobs := s.jobs.find (uncertain now)
  (jobs.length,
    { jobs := s.jobs.update (uncertain now) (recoverJob now) (by intro; rfl)
      history := jobs.map (fun job => .recovered i job.id) ++ s.history })

/-- Pending and available, or running with an expired lease and no append mark. -/
def claimable (settings : Settings) (now : ℤ) (job : Job) : Bool :=
  floorMs settings.activationCutoff ≤ job.createdAt &&
    ((job.state = .pending && job.availableAt.all (· ≤ floorMs now)) ||
      (job.state = .running && job.leaseUntil.any (· ≤ floorMs now) && job.appendStartedAt.isNone))

/-- Jobs are claimed in the order of creation, availability and id. -/
def claimOrder (job : Job) : ℤ ×ₗ WithBot ℤ ×ₗ String :=
  toLex (job.createdAt, toLex (job.availableAt, job.id))

def claimJob (settings : Settings) (token : String) (now : ℤ) (job : Job) : Job :=
  { job with
    state := .running
    attemptToken := some token
    leaseUntil := some (floorMs (now + settings.leaseDuration))
    startedAt := some (floorMs now)
    deltaThroughAt := some (floorMs now)
    updatedAt := floorMs now
    attemptCount := job.attemptCount + 1
    fence := job.fence + 1 }

inductive ClaimResult
  | lost
  | claimed (job : Job)
  | duplicateKey

/-- Claim the candidate, if it is still in its state and claimable. -/
def claimCandidate (settings : Settings) (i : ι) (r : Surroundings) (candidate : Job)
    (s : Store ι) : ClaimResult × Store ι :=
  match (s.jobs.byKey candidate.id).filter fun job =>
      job.state = candidate.state && claimable settings (r.clock .claim) job with
  | none => (.lost, s)
  | some job =>
      if r.duplicateKey then (.duplicateKey, s)
      else
        let claimed := claimJob settings r.token (r.clock .claim) job
        (.claimed claimed,
          { jobs := s.jobs.replace claimed, history := .claimed i claimed :: s.history })

def contendJob (settings : Settings) (now : ℤ) (job : Job) : Job :=
  { job with
    availableAt := some (floorMs (now + settings.contentionBackoff))
    updatedAt := floorMs now }

/-- A pending job that cannot be claimed waits. -/
def contend (settings : Settings) (now : ℤ) (jobId : String) (s : Store ι) : Unit × Store ι :=
  let jobs := s.jobs.update (fun job => job.id = jobId && job.state = .pending)
    (contendJob settings now) (by intro; rfl)
  ((), { s with jobs })

/-- The job is running under the token and the fence of the attempt. -/
def owned (job stored : Job) : Bool :=
  stored.id = job.id && stored.state = .running && stored.attemptToken = job.attemptToken &&
    stored.fence = job.fence

def writeOwned (i : ι) (job : Job) (write : Write) (updatedAt : ℤ) (s : Store ι) :
    Bool × Store ι :=
  if s.jobs.matched (owned job) then
    (true,
      { jobs := s.jobs.update (owned job) (write.apply updatedAt)
          (fun job => write.apply_id updatedAt job)
        history := .wrote i job write :: s.history })
  else (false, s)

/-! ### A call -/

inductive Raised
  | leaseLost
  | handler (error : HandlerError)
  deriving DecidableEq, Repr

variable {ι : Type}

/-- The lease of the job is lost where a write matches nothing. -/
def write (i : ι) (r : Surroundings) (updated : Reading) (job : Job) (write : Write) :
    Program Op (Store ι) (Except Raised Unit) := do
  let matched ← Program.act (.write job.id job.fence) (writeOwned i job write (r.clock updated))
  pure (if matched then .ok () else .error .leaseLost)

def finish (i : ι) (r : Surroundings) (job : Job) (succeeded : Bool) (code typeName : Option String) :
    Program Op (Store ι) (Except Raised Unit) :=
  let message :=
    match typeName with
    | some typeName => some (typeName ++ ": sync job processing failed")
    | none => code.map fun _ => "Requested delta is outside retention"
  write i r .finishUpdated job (.finish succeeded (r.clock .finish) code message)

def release (i : ι) (r : Surroundings) (job : Job) (wait : ℤ) (code message : String) :
    Program Op (Store ι) (Except Raised Unit) :=
  write i r .finishUpdated job (.release (r.clock .available + wait) code message)

/-- The events between the request of a job and its claim, in order. -/
def selectedEvents (r : Surroundings) (job : Job) : List WebhookEvent :=
  (r.webhookEvents.filter fun event =>
      (event.userId = .text (toString job.sellerId) || event.userId = .number job.sellerId) &&
        job.requestedAt ≤ event.receivedAt && job.deltaThroughAt.any (event.receivedAt ≤ ·))
    |>.insertionSort fun a b => toLex (a.receivedAt, a.id) ≤ toLex (b.receivedAt, b.id)

/-- Without a plan that executes, events of other kinds are left out. -/
def deltaEvents (r : Surroundings) (job : Job) : List WebhookEvent :=
  if r.pilot then selectedEvents r job else (selectedEvents r job).filter supported

/-- The event as the handler gets it; with a plan, only one with a known meaning. -/
def sheetsEvent (r : Surroundings) (job : Job) (event : WebhookEvent) :
    Except HandlerError SheetsEvent :=
  let key := "sync-job:" ++ job.id ++ ":" ++ event.id
  if r.pilot then
    match normalizeHistoryEvent event with
    | none => .error .policyWait
    | some (eventType, resource) => .ok ⟨event.id, eventType, job.sellerId, resource, key⟩
  else
    let eventType := (event.classification.filter (· ≠ "")).getD event.topic
    .ok ⟨event.id, eventType, job.sellerId, event.resource, key⟩

/-- The handler runs; what it did stays done if it raises. -/
def handleEvent (i : ι) (r : Surroundings) (job : Job) (event : WebhookEvent) (given : SheetsEvent) :
    Program Op (Store ι) (Except Raised Unit) :=
  Program.act (.handle job.id job.fence event.id) fun s =>
    ((r.handle given).mapError .handler, { s with history := .handled i job event :: s.history })

def deliver (i : ι) (r : Surroundings) (job : Job) :
    List WebhookEvent → Program Op (Store ι) (Except Raised Unit)
  | [] => pure (.ok ())
  | event :: rest =>
      match sheetsEvent r job event with
      | .error error => pure (.error (.handler error))
      | .ok given => do
          let handled ← handleEvent i r job event given
          match handled with
          | .error error => pure (.error error)
          | .ok () => do
              let written ← write i r (.cursorUpdated event.id) job (.cursor event)
              match written with
              | .error error => pure (.error error)
              | .ok () => deliver i r job rest

/-- The append mark, if there is anything to deliver. -/
def markAppend (i : ι) (r : Surroundings) (job : Job) :
    Program Op (Store ι) (Except Raised Unit) :=
  if deltaEvents r job = [] then pure (.ok ())
  else write i r .markUpdated job (.mark (r.clock .mark))

def processDelta (i : ι) (r : Surroundings) (job : Job) :
    Program Op (Store ι) (Except Raised Unit) := do
  let marked ← markAppend i r job
  match marked with
  | .error error => pure (.error error)
  | .ok () => do
      let delivered ← deliver i r job (deltaEvents r job)
      match delivered with
      | .error error => pure (.error error)
      | .ok () =>
          write i r .countUpdated job
            (.count ((selectedEvents r job).length - (deltaEvents r job).length))

/-- Only the fence of the gateway may ask for a wait. -/
def pilotWaitCode (statusCode : Nat) (budgetStatus error : Option String) : Option String :=
  if statusCode ≠ 429 || budgetStatus ≠ some "wait" then none
  else error.filter fun code =>
    code = "pilot_execution_unavailable" || code = "pilot_budget_exhausted"

def Raised.typeName : Raised → String
  | leaseLost => "RuntimeError"
  | handler .policyWait => "HistoryPolicyWaitError"
  | handler (.rateLimit ..) => "GatewayRateLimitError"
  | handler (.other typeName) => typeName

/-- What becomes of a job that was processed. -/
def concludeJob (settings : Settings) (i : ι) (r : Surroundings) (job : Job) :
    Except Raised Unit → Program Op (Store ι) (Except Raised String)
  | .ok () => do
      let finished ← finish i r job true none none
      pure (finished.map fun _ => "succeeded")
  | .error (.handler .policyWait) => do
      let released ← release i r job settings.contentionBackoff "pilot_execution_unavailable"
        "Durable work authority wait; acquisition will resume"
      pure (released.map fun _ => "pending")
  | .error (.handler (.rateLimit statusCode budgetStatus error retryAfter)) =>
      match pilotWaitCode statusCode budgetStatus error with
      | none => do
          let finished ← finish i r job false (some "sync_job_processing_failed")
            (some "GatewayRateLimitError")
          pure (finished.map fun _ => "failed")
      | some code => do
          let released ← release i r job retryAfter code
            "Gateway pilot budget wait; acquisition will resume"
          pure (released.map fun _ => "pending")
  | .error error => do
      let finished ← finish i r job false (some "sync_job_processing_failed") (some error.typeName)
      pure (finished.map fun _ => "failed")

def claimNext (settings : Settings) (i : ι) (r : Surroundings) :
    Program Op (Store ι) (Option Job) := do
  let candidate ← Program.read .find fun s =>
    s.jobs.findFirst (claimable settings (r.clock .claim)) claimOrder
  match candidate with
  | none => pure none
  | some candidate => do
      let claimed ← Program.act (.claim candidate.id) (claimCandidate settings i r candidate)
      match claimed with
      | .lost => pure none
      | .claimed job => pure (some job)
      | .duplicateKey => do
          Program.act (.contend candidate.id) (contend settings (r.clock .claim) candidate.id)
          pure none

/-- The request is older than what is retained. -/
def outsideRetention (settings : Settings) (job : Job) : Bool :=
  job.deltaThroughAt.any fun through => job.requestedAt < through - settings.retentionWindow

def processOnce (settings : Settings) (i : ι) (r : Surroundings) :
    Program Op (Store ι) (Except Raised String) := do
  let _recovered ← Program.act .recover (recoverUncertainAppends i (r.clock .recover))
  let claimed ← claimNext settings i r
  match claimed with
  | none => pure (.ok "idle")
  | some job =>
      if outsideRetention settings job then do
        let finished ← finish i r job false (some "delta_unavailable") none
        pure (finished.map fun _ => "failed")
      else do
        let processed ← processDelta i r job
        concludeJob settings i r job processed

end ZelerPlatform.SyncJobs
