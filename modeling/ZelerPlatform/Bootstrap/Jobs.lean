import ZelerPlatform.Library.Collection
import ZelerPlatform.Library.Dict
import ZelerPlatform.Library.Mongo.Document
import ZelerPlatform.Library.RelyGuarantee

/-!
# Bootstrap jobs

A linked seller gets a bootstrap job. The dispatcher claims the job and starts a runner, which
takes the job through its stages in order, publishes its completion and records that it has
succeeded; a job that has failed is taken up again while it has attempts left. Runners,
dispatchers and the links of sellers work side by side on one database. Each call to Mongo, the
broker or the jobs API is one atomic operation, and each may raise, with effect or without.
-/

namespace ZelerPlatform.Bootstrap

open Mongo Transition

inductive JobState
  | pending
  | running
  | paused
  | succeeded
  | failed
  | cancelled
  deriving DecidableEq, Repr

def JobState.name : JobState → String
  | pending => "pending"
  | running => "running"
  | paused => "paused"
  | succeeded => "succeeded"
  | failed => "failed"
  | cancelled => "cancelled"

/-- `ALLOWED_TRANSITIONS`. -/
def allowedTransitions : JobState → List JobState
  | .pending => [.running, .cancelled]
  | .running => [.paused, .succeeded, .failed, .cancelled]
  | .paused => [.running, .cancelled]
  | .failed => [.pending, .cancelled]
  | .succeeded => []
  | .cancelled => []

/-- A document of `bootstrap_jobs`; a missing counter is zero. -/
structure Job where
  id : String
  sellerId : String
  state : JobState
  dag : List (String × String)
  checkpoints : List (String × Value)
  currentStage : Option String
  attemptCount : Int
  dispatchAttempts : Int
  startedAt : Option Int
  finishedAt : Option Int
  failedAt : Option Int
  lastError : Option String
  triggeredBy : String
  createdAt : Int
  updatedAt : Int

/-- The classes of exceptions. A publication is tried again after one that is `transient`:
`TimeoutError`, `ConnectionError` or one of the broker. -/
inductive Kind
  | keyError
  | valueError
  | invalidTransition
  | illegalTransition
  | bootstrapPublishError
  | bootstrapTerminalFailure
  | transient (name : String)
  | other (name : String)
  deriving DecidableEq, Repr

def Kind.name : Kind → String
  | keyError => "KeyError"
  | valueError => "ValueError"
  | invalidTransition => "InvalidTransitionError"
  | illegalTransition => "IllegalTransition"
  | bootstrapPublishError => "BootstrapPublishError"
  | bootstrapTerminalFailure => "BootstrapTerminalFailure"
  | transient name => name
  | other name => name

structure Raised where
  kind : Kind
  message : String
  deriving DecidableEq, Repr

/-- The type of an exception and its message. -/
def Raised.text (e : Raised) : String := e.kind.name ++ ": " ++ e.message

/-- `_is_retryable_publish_error`. -/
def Raised.retryable (e : Raised) : Bool :=
  match e.kind with
  | .transient _ => true
  | _ => false

/-- What a stage does to its job, as the gateway answers it: the cursors it saves, and whether it
returns. -/
structure StageWork where
  cursors : List Value
  result : Except Raised Unit

/-- What one operation finds: the time, the exception it raises if it does, with whether it has
had its effect, and the work of a stage that begins here. -/
structure Turn where
  now : Int
  fault : Option (Raised × Bool)
  work : StageWork

/-- The database, the broker and the jobs API. `counter` is the count of the lock document;
`finished` has the jobs and stages whose work was done to the end, `skips` the jobs whose
completion was not published as they had failed, and `rollbacks` those a dispatcher has put back. -/
structure World where
  jobs : Collection Job.id
  counter : Option Int
  completions : List String
  links : List String
  launches : List String
  finished : List (String × String)
  skips : List String
  rollbacks : List String
  turns : Nat → Turn
  taken : Nat

inductive Label
  | mongo
  | broker
  | jobsApi
  | clock
  | stage
  deriving DecidableEq, Repr

/-- A call: a program of atomic operations that may raise. -/
abbrev Call (A : Type) := ExceptT Raised (Program Label World) A

section

variable {A : Type}

/-- One operation. -/
def atomically (label : Label) (f : Turn → World → Except Raised A × World) : Call A :=
  ExceptT.mk <| Program.act label fun s =>
    let turn := s.turns s.taken
    let s' := { s with taken := s.taken + 1 }
    match turn.fault with
    | none => f turn s'
    | some (e, false) => (.error e, s')
    | some (e, true) => (.error e, (f turn s').2)

/-- A step of the call itself, which the model keeps a record of. -/
def noting (f : World → World) : Call Unit :=
  ExceptT.mk <| Program.act .stage fun s => (.ok (), f s)

/-- The outcome of a guarded block. -/
def attempt (p : Call A) : Call (Except Raised A) := ExceptT.mk do return .ok (← p.run)

def required (found : Option A) (e : Raised) : Call A :=
  match found with
  | some a => return a
  | none => throw e

def clock : Call Int := atomically .clock fun turn s => (.ok turn.now, s)

def findOne (filter : Job → Bool) : Call (Option Job) :=
  atomically .mongo fun _ s => (.ok (s.jobs.findOne filter), s)

/-- `find_one_and_update`, which returns the document as it was before. -/
def findOneAndUpdate (filter : Job → Bool) (change : Int → Job → Job) : Call (Option Job) :=
  atomically .mongo fun turn s =>
    match s.jobs.findOne filter with
    | none => (.ok none, s)
    | some job => (.ok (some job), { s with jobs := s.jobs.replace (change turn.now job) })

end

/-! ### The state machine -/

section

variable (redact : String → String)

def load (jobId : String) : Call Job := do
  let job ← findOne fun job => job.id = jobId
  required job ⟨.keyError, "bootstrap job not found: " ++ jobId⟩

/-- A job after a transition, with the start and the error as they are set. -/
def Job.moved (started : Option Int) (target : JobState) (error : Option Raised) (now : Int)
    (job : Job) : Job :=
  { job with
    state := target
    updatedAt := now
    startedAt := if target = .running ∧ started = none then some now else job.startedAt
    finishedAt := if target ∈ [.succeeded, .failed, .cancelled] then some now else job.finishedAt
    failedAt := if target = .failed then some now else job.failedAt
    lastError := if target = .failed then (error.map fun e => redact e.text).or job.lastError
      else job.lastError
    attemptCount := job.attemptCount + if target = .running then 1 else 0 }

/-- `BootstrapStateMachine.transition`. -/
def transition (jobId : String) (target : JobState) (error : Option Raised) : Call Job := do
  let current ← load jobId
  let change := current.state.name ++ " -> " ++ target.name
  if target ∉ allowedTransitions current.state then
    throw ⟨.invalidTransition, "invalid bootstrap transition: " ++ change⟩
  else do
    let updated ← findOneAndUpdate (fun job => job.id = jobId ∧ job.state = current.state)
      (Job.moved redact current.startedAt target error)
    required updated ⟨.invalidTransition, "bootstrap transition raced: " ++ change⟩

def requeueForRetry (jobId : String) (maxAttempts : Int) : Call Job := do
  let updated ← findOneAndUpdate
    (fun job => job.id = jobId ∧ job.state ∈ [.failed, .pending] ∧ job.attemptCount < maxAttempts)
    fun now job => { job with state := .pending, updatedAt := now }
  required updated ⟨.illegalTransition, "cannot requeue bootstrap job for retry: " ++ jobId⟩

def updateCursor (jobId stage : String) (cursor : Value) : Call Job := do
  let updated ← findOneAndUpdate
    (fun job => job.id = jobId ∧ job.state ∈ [.running, .paused, .failed])
    fun now job => { job with
      currentStage := some stage
      checkpoints := Dict.set job.checkpoints stage cursor
      updatedAt := now }
  required updated ⟨.invalidTransition, "cannot update cursor unless job is active: " ++ jobId⟩

/-- The stage of a job is marked as done. -/
def Job.isDone (job : Job) (stage : String) : Bool := job.dag.lookup stage = some "done"

def markStageDone (jobId stage : String) : Call Job := do
  let updated ← findOneAndUpdate (fun job => job.id = jobId ∧ job.state = .running)
    fun now job => { job with
      dag := Dict.set job.dag stage "done"
      currentStage := some stage
      updatedAt := now }
  required updated
    ⟨.invalidTransition, "cannot mark stage done unless job is running: " ++ jobId⟩

/-! ### The publication of a completion -/

/-- `wall_clock_cap`, in microseconds. -/
def wallClockCap : Int := 30000000

def bootstrapPublishError : Raised := ⟨.bootstrapPublishError, "bootstrap publish failed"⟩

/-- `publish_attempt`: the broker takes the message. -/
def publishAttempt (jobId : String) : Call Unit :=
  atomically .broker fun _ s => (.ok (), { s with completions := s.completions ++ [jobId] })

/-- The attempts that are left of `_publish_with_retry`. -/
def publishAttempts (jobId : String) (startedAt : Int) : Nat → Call Unit
  | 0 => return ()
  | left + 1 => do
      match ← attempt (publishAttempt jobId) with
      | .ok () => return ()
      | .error e =>
          if ¬ e.retryable ∨ left = 0 then throw bootstrapPublishError
          else do
            let now ← clock
            if wallClockCap ≤ now - startedAt then throw bootstrapPublishError
            else publishAttempts jobId startedAt left

/-- `_publish_with_retry`. -/
def publishWithRetry (jobId : String) (maxAttempts : Nat) : Call Unit :=
  if maxAttempts < 1 then throw ⟨.valueError, "max_attempts must be at least 1"⟩
  else do
    let startedAt ← clock
    publishAttempts jobId startedAt maxAttempts

/-- `AioPikaBootstrapPublisher.publish_bootstrap_completed`. -/
def publishBootstrapCompleted (job : Job) (maxAttempts : Nat) : Call Unit :=
  if job.state = .failed then noting fun s => { s with skips := s.skips ++ [job.id] }
  else publishWithRetry job.id maxAttempts

/-! ### The runner -/

/-- `DEFAULT_STAGE_ORDER`. -/
def defaultStageOrder : List String :=
  ["accounts", "items", "orders", "questions", "messages", "shipments", "claims"]

/-- A `BootstrapDagRunner` with its publisher. -/
structure Runner where
  jobId : String
  stages : List String
  maxAttempts : Int
  publishMaxAttempts : Nat

def saveCursors (jobId stage : String) : List Value → Call Unit
  | [] => return ()
  | cursor :: rest => do
      let _ ← updateCursor jobId stage cursor
      saveCursors jobId stage rest

/-- The `run` of a stage. -/
def runStage (jobId stage : String) : Call Unit := do
  let work ← atomically .stage fun turn s => (.ok turn.work, s)
  saveCursors jobId stage work.cursors
  match work.result with
  | .error e => throw e
  | .ok () => noting fun s => { s with finished := s.finished ++ [(jobId, stage)] }

/-- `_record_failure`, and the exception again. -/
def recordFailure {A : Type} (jobId : String) (e : Raised) : Call A := do
  let _ ← transition redact jobId .failed (some e)
  throw e

/-- The turn of one stage. -/
def takeStage (jobId stage : String) : Call Unit := do
  let job ← load jobId
  if job.isDone stage then return ()
  else do
    match ← attempt (runStage jobId stage) with
    | .error e => recordFailure redact jobId e
    | .ok () => do
        let _ ← markStageDone jobId stage
        return ()

/-- `_run_stages`. -/
def runStages (jobId : String) : List String → Call Unit
  | [] => return ()
  | stage :: rest => do
      takeStage redact jobId stage
      runStages jobId rest

namespace Runner

/-- A job that waits is set running. -/
def start (r : Runner) (job : Job) : Call Job :=
  if job.state ∈ [.pending, .paused] then transition redact r.jobId .running none else return job

/-- `_enter_running_state_if_needed`. -/
def enterRunningStateIfNeeded (r : Runner) : Call Job := do
  let job ← load r.jobId
  if job.state = .failed then
    if r.maxAttempts ≤ job.attemptCount then
      throw ⟨.bootstrapTerminalFailure, "bootstrap retry budget exhausted for job " ++ job.id⟩
    else do
      let job ← requeueForRetry r.jobId r.maxAttempts
      r.start redact job
  else r.start redact job

/-- What a round guards. -/
def complete (r : Runner) : Call Job := do
  runStages redact r.jobId r.stages
  let finalJob ← load r.jobId
  match ← attempt (publishBootstrapCompleted finalJob r.publishMaxAttempts) with
  | .error e =>
      if e.kind = .bootstrapPublishError then recordFailure redact r.jobId e else throw e
  | .ok () => transition redact r.jobId .succeeded none

/-- After a round that has raised: a job that has failed is put back, or the round raises. -/
def retry (r : Runner) (e : Raised) : Call Unit := do
  let current ← load r.jobId
  if e.kind ≠ .bootstrapPublishError ∧ current.state = .failed ∧
      current.attemptCount < r.maxAttempts then do
    let _ ← requeueForRetry r.jobId r.maxAttempts
    return ()
  else throw e

/-- `run`, of a process that is stopped after so many rounds at the latest. -/
def run (r : Runner) : Nat → Call Job
  | 0 => throw ⟨.other "Stopped", ""⟩
  | rounds + 1 => do
      let _ ← r.enterRunningStateIfNeeded redact
      match ← attempt (r.complete redact) with
      | .ok completed => return completed
      | .error e => do
          r.retry e
          run r rounds

/-- `run_bootstrap_job`. -/
def runBootstrapJob (r : Runner) (sellerId : String) (rounds : Nat) : Call Job := do
  let job ← r.run redact rounds
  if job.sellerId ≠ sellerId then
    throw ⟨.valueError, "bootstrap job seller mismatch: expected " ++ sellerId ++ ", got "
      ++ job.sellerId⟩
  else return job

end Runner

end

/-! ### The dispatcher -/

structure Dispatcher where
  maxConcurrent : Int
  maxAttempts : Int

inductive Dispatched
  | skipped
  | failed
  | backpressure
  | running
  deriving DecidableEq, Repr

/-- `_acquire_lock`. -/
def Dispatcher.acquireLock (d : Dispatcher) : Call Bool := do
  let current ← atomically .mongo fun _ s => (.ok s.counter, s)
  match current with
  | none => atomically .mongo fun _ s => (.ok true, { s with counter := some (s.counter.getD 0 + 1) })
  | some count =>
      if d.maxConcurrent ≤ count then return false
      else atomically .mongo fun _ s => (.ok true, { s with counter := s.counter.map (· + 1) })

/-- `_release_lock`. -/
def releaseLock : Call Unit := do
  let current ← atomically .mongo fun _ s => (.ok s.counter, s)
  if current.getD 0 ≤ 0 then return ()
  else atomically .mongo fun _ s => (.ok (), { s with counter := s.counter.map (· - 1) })

/-- `_mark_failed`. -/
def markFailed (jobId : String) : Call Unit := do
  let _ ← findOneAndUpdate (fun job => job.id = jobId) fun now job => { job with
    state := .failed
    lastError := some "max dispatch attempts exceeded"
    updatedAt := now
    failedAt := some now }
  return ()

/-- Claim a pending job. -/
def claim (pending : Job) : Call Bool := do
  let claimed ← findOneAndUpdate (fun job => job.id = pending.id ∧ job.state = .pending)
    fun now job => { job with
      state := .running
      updatedAt := now
      startedAt := some (pending.startedAt.getD now)
      dispatchAttempts := job.dispatchAttempts + 1
      attemptCount := job.attemptCount + 1 }
  return claimed.isSome

/-- `run_job`. -/
def runJob (jobId : String) : Call Unit :=
  atomically .jobsApi fun _ s => (.ok (), { s with launches := s.launches ++ [jobId] })

/-- What is guarded with the lock held. -/
def launch (pending : Job) : Call Dispatched := do
  let claimed ← claim pending
  if ¬ claimed then return .skipped
  else do
    runJob pending.id
    return .running

/-- A running job is put back. -/
def rollBack (jobId : String) : Call Unit :=
  atomically .mongo fun turn s =>
    match s.jobs.findOne fun job => job.id = jobId ∧ job.state = .running with
    | none => (.ok (), s)
    | some job => (.ok (), { s with
        jobs := s.jobs.replace { job with state := .pending, updatedAt := turn.now }
        rollbacks := s.rollbacks ++ [jobId] })

/-- The guarded block with its handler. -/
def launchOrRollBack (pending : Job) : Call Dispatched := do
  match ← attempt (launch pending) with
  | .ok result => return result
  | .error e => do
      rollBack pending.id
      throw e

/-- `finally`: the lock is released before the outcome of the block goes on. -/
def releasing (p : Call Dispatched) : Call Dispatched := do
  let outcome ← attempt p
  releaseLock
  ExceptT.mk (pure outcome)

namespace Dispatcher

variable (d : Dispatcher)

/-- What is done with a pending job. -/
def dispatch (pending : Job) : Call Dispatched :=
  if d.maxAttempts ≤ pending.dispatchAttempts then do
    markFailed pending.id
    return .failed
  else do
    let acquired ← d.acquireLock
    if ¬ acquired then return .backpressure
    else releasing (launchOrRollBack pending)

/-- `handle_accounts_linked`. -/
def handleAccountsLinked (sellerId : String) : Call Dispatched := do
  let active ← findOne fun job => job.sellerId = sellerId ∧ job.state = .running
  if active.isSome then return .skipped
  else do
    match ← findOne fun job => job.sellerId = sellerId ∧ job.state = .pending with
    | none => return .skipped
    | some pending => d.dispatch pending

end Dispatcher

/-- What becomes of a message. -/
inductive Settlement
  | ack
  | reject
  | requeue
  deriving DecidableEq, Repr

def Dispatched.settlement : Dispatched → Settlement
  | running | skipped => .ack
  | failed => .reject
  | backpressure => .requeue

/-- `handle_message`, of a message with this seller if it is an event. -/
def Dispatcher.handleMessage (d : Dispatcher) (sellerId : Option String) : Call Settlement :=
  match sellerId with
  | none => return .reject
  | some sellerId => do
      match ← attempt (d.handleAccountsLinked sellerId) with
      | .error _ => return .requeue
      | .ok result => return result.settlement

/-! ### Links -/

def oauthJobId (sellerId : String) : String := "bootstrap-" ++ sellerId ++ "-oauth"

/-- The job that a link writes. -/
def linkedJob (sellerId : String) (force : Bool) (createdAt now : Int) : Job where
  id := oauthJobId sellerId
  sellerId := sellerId
  state := .pending
  dag := []
  checkpoints := []
  currentStage := none
  attemptCount := 0
  dispatchAttempts := 0
  startedAt := none
  finishedAt := none
  failedAt := none
  lastError := none
  triggeredBy := if force then "oauth_callback_force" else "oauth_callback"
  createdAt := createdAt
  updatedAt := now

/-- The states in which an ordinary link leaves a job alone. -/
def eligible : List JobState := [.pending, .running, .succeeded]

/-- The first search, which is left out if forced. -/
def eligibleJob (sellerId : String) (force : Bool) : Call (Option Job) :=
  if force then pure none
  else findOne fun job => job.sellerId = sellerId ∧ job.state ∈ eligible

/-- The job that is there, an eligible one first unless forced. -/
def existingJob (sellerId : String) (force : Bool) : Call (Option Job) := do
  let found ← eligibleJob sellerId force
  match found with
  | some job => return some job
  | none => findOne fun job => job.sellerId = sellerId

/-- `emit_accounts_linked`, after the history has been admitted. -/
def emitAccountsLinked (sellerId : String) (force : Bool) : Call Unit := do
  let now ← clock
  let existing ← existingJob sellerId force
  if existing.any (·.state ∈ eligible) ∧ ¬ force then return ()
  else do
    let job := linkedJob sellerId force (existing.elim now Job.createdAt) now
    atomically .mongo fun _ s => (.ok (), { s with jobs := s.jobs.put job })
    atomically .broker fun _ s => (.ok (), { s with links := s.links ++ [sellerId] })

/-! ### Requests -/

/-- A call of one of the processes. -/
inductive Request
  | run (runner : Runner) (sellerId : String) (rounds : Nat)
  | accountsLinked (dispatcher : Dispatcher) (sellerId : Option String)
  | link (sellerId : String) (force : Bool)

inductive Reply
  | completed (job : Job)
  | settled (settlement : Settlement)
  | linked

def Request.call (redact : String → String) : Request → Call Reply
  | run runner sellerId rounds => do
      let job ← runner.runBootstrapJob redact sellerId rounds
      return .completed job
  | accountsLinked dispatcher sellerId => do
      let settlement ← dispatcher.handleMessage sellerId
      return .settled settlement
  | link sellerId force => do
      emitAccountsLinked sellerId force
      return .linked

end ZelerPlatform.Bootstrap
