import ZelerPlatform.Library.PyValue
import ZelerPlatform.Library.Fallible

/-!
# Settling a delivery

`SheetsAmqpConsumerRunner._handle_message` answers each delivery with an acknowledgement or a
rejection, and publishes a delayed copy where an error may pass. Some branches publish inside a
guard that keeps the original on a failure. The others leave the delivery unsettled if the
publication raises, since an exception raised in an except clause passes the clauses below it.
-/

namespace ZelerPlatform.Sheets

open Fallible

/-- What `_pilot_wait_code` reads of the response of a rate limit error. -/
structure Response where
  statusCode : Int
  pilotGetBudgetStatus : Option String
  json : Except BuiltinError PyValue

/-- An exception, as the first branch it belongs to. -/
inductive PyError
  | historyPolicyWait
  | gatewayRateLimit (retryAfterSeconds : Int) (response : Response)
  | retryableGoogleSheetsApi (retryAfterSeconds : Int)
  | statusObservationContention
  | retryableItemAcquisition
  | eventClaimTimeout
  | devolucionesLeaseConflict
  | devolucionesLeaseLost
  | httpStatus (statusCode : Int)
  | connect
  | timeout
  | builtin (error : BuiltinError)

def runtimeError : PyError := .builtin (.other "RuntimeError")

structure SheetsEvent where
  eventId : String
  eventType : String
  sellerId : Int
  resource : String
  idempotencyKey : String

/-- A delivery, less its settlement. -/
structure Message where
  body : List UInt8
  headers : Option PyDict

/-- What the channel returns for a publication: a confirmation frame, `False` or `None`. -/
inductive Confirmation
  | confirmed
  | refused
  | unanswered
  deriving DecidableEq, Repr

/-- A delayed copy as it is published. -/
structure Copy where
  body : List UInt8
  headers : PyDict
  exchange : String
  routingKey : String
  expiration : Option Int

/-- What a delivery does to the broker. -/
inductive Effect
  | published (copy : Copy) (confirmation : Confirmation)
  | ack
  | nack (requeue : Bool)

/-! ### Constants -/

def meliEventsExchange : String := "meli.events"

def sheetsClaimsQueue : String := "zeler.sheets.claims"

def permanentHttpStatusCodes : List Int := [401, 403, 404, 422]

def retriableHttpStatusCodes : List Int := [408, 429]

def defaultStatusContentionRetryDelayMs : Int := 1000

def defaultEventClaimRetryDelayMs : Int := 1000

def retryAttemptHeader : String := "x-zeler-retry-attempt"

def policyWaitHeader : String := "x-zeler-policy-waits"

def policyWaitShortLimit : Int := 12

def policyWaitShortDelayMs : Int := 5000

def policyWaitLongDelayMs : Int := 600000

/-- `CLAIMS_RETRY_DELAYS`, the last one apart. -/
def claimsRetryDelays : List (Int × String) :=
  [(1000, "1s"), (5000, "5s"), (30000, "30s"), (120000, "2m")]

def claimsRetryLongest : Int × String := (600000, "10m")

/-! ### Reading a message -/

/-- `death.get("queue") in (queue_name, None)`. -/
def deathOf (queueName : String) (death : PyDict) : Bool :=
  match death.lookup "queue" with
  | none | some .none => true
  | some (.text queue) => queue == queueName
  | some _ => false

/-- The count of the first death of the queue. -/
def firstDeathCount (queueName : String) : List PyValue → Int
  | [] => 0
  | .dict death :: rest =>
      if deathOf queueName death then ((death.lookup "count").bind PyValue.int?).getD 0
      else firstDeathCount queueName rest
  | _ :: rest => firstDeathCount queueName rest

def xDeathCount (message : Message) (queueName : String) : Int :=
  match message.headers.bind (·.lookup "x-death") with
  | some (.list deaths) => firstDeathCount queueName deaths
  | _ => 0

def retryAttemptHeaderCount (message : Message) : Int :=
  match message.headers.bind (·.lookup retryAttemptHeader) with
  | some (.text value) => (intOfText value).getD 0
  | some value => value.int?.getD 0
  | none => 0

def deliveryAttemptCount (message : Message) (queueName : String) : Int :=
  max (xDeathCount message queueName) (retryAttemptHeaderCount message)

def policyWaitCount (message : Message) : Int :=
  match (message.headers.bind (·.lookup policyWaitHeader)).bind PyValue.int? with
  | some value => if 0 ≤ value then value else 0
  | none => 0

def retryHeaders (message : Message) (attempt : Int) : PyDict :=
  ((message.headers.getD []).drop "x-death").set retryAttemptHeader (.int attempt)

/-- The parts of the interpreter the reading of a body rests on: `json.loads` of the decoded
bytes, and `str` of a value that is no text. -/
structure Interpreter where
  loads : List UInt8 → Except BuiltinError PyValue
  repr : PyValue → Except BuiltinError String

def Interpreter.str (interpreter : Interpreter) : PyValue → Except BuiltinError String
  | .text s => .ok s
  | value => interpreter.repr value

/-- `payload[key]`. -/
def item (payload : PyDict) (key : String) : Except BuiltinError PyValue :=
  match payload.lookup key with
  | some value => .ok value
  | none => .error .key

/-- A value that is there and not `None`. -/
def given (fields : Option PyDict) (key : String) : Option PyValue :=
  match fields.bind (·.lookup key) with
  | none | some .none => none
  | some value => some value

def sheetsIdempotencyKey (interpreter : Interpreter) (message : Message) (payload : PyDict) :
    Except BuiltinError String :=
  match given message.headers "idempotency_key" with
  | some value => interpreter.str value
  | none =>
      match given (some payload) "idempotency_key" with
      | some value => interpreter.str value
      | none => do interpreter.str (← item payload "event_id")

def sheetsEventFromMessage (interpreter : Interpreter) (message : Message) :
    Except BuiltinError SheetsEvent := do
  match ← interpreter.loads message.body with
  | .dict payload =>
      let eventId ← interpreter.str (← item payload "event_id")
      let eventType ← interpreter.str (← item payload "event_type")
      let sellerId ← (← item payload "seller_id").toInt
      let resource ← interpreter.str (← item payload "resource")
      let idempotencyKey ← sheetsIdempotencyKey interpreter message payload
      return { eventId, eventType, sellerId, resource, idempotencyKey }
  | _ => throw .value

/-- `_event_context_from_message`: an error of the payload leaves no event. -/
def eventContextFromMessage (interpreter : Interpreter) (message : Message) :
    Except BuiltinError (Option SheetsEvent) :=
  match sheetsEventFromMessage interpreter message with
  | .ok event => .ok (some event)
  | .error error => if error.isPayloadError then .ok none else .error error

def pilotWaitCode (response : Response) : Except BuiltinError (Option String) :=
  if response.statusCode ≠ 429 ∨ response.pilotGetBudgetStatus ≠ some "wait" then .ok none
  else match response.json with
    | .error error => if error.isValueError then .ok none else .error error
    | .ok (.dict payload) =>
        match payload.lookup "error" with
        | some (.text code) =>
            if code = "pilot_execution_unavailable" ∨ code = "pilot_budget_exhausted" then
              .ok (some code)
            else .ok none
        | _ => .ok none
    | .ok _ => .ok none

def claimsRetryQueueName (delayMs : Int) : String :=
  match claimsRetryDelays.find? fun delay => delayMs ≤ delay.1 with
  | some delay => s!"{sheetsClaimsQueue}.retry.{delay.2}"
  | none => s!"{sheetsClaimsQueue}.retry.{claimsRetryLongest.2}"

def claimsRetryDelayMs (attempt : Int) : Int :=
  ((claimsRetryDelays ++ [claimsRetryLongest]).getD
    (min (max attempt 1) 5 - 1).toNat claimsRetryLongest).1

/-! ### The runner -/

/-- The runner between deliveries. -/
structure Runner where
  exchangeName : String
  deliveryLimit : Int
  hasChannel : Bool
  hasRetryDelayPublisher : Bool
  accountStatusCache : List (Int × Option String × ℚ)

/-- What one delivery meets: the clock, the account source, the handler and what comes of the
publication of a delayed copy. -/
structure Surroundings where
  monotonic : ℚ
  accountStatusSource : Option (Int → Except PyError (Option String))
  handle : SheetsEvent → Except PyError String
  publishing : Except PyError Confirmation

/-- A delivery under way: the runner and the effects so far stay when it raises. -/
structure Progress where
  runner : Runner
  effects : List Effect

abbrev Delivery (α : Type) := ExceptT PyError (StateM Progress) α

def effect (e : Effect) : Delivery Unit := fun s =>
  (.ok (), { s with effects := s.effects ++ [e] })

def ack : Delivery Unit := effect .ack

def nack (requeue : Bool) : Delivery Unit := effect (.nack requeue)

def runner : Delivery Runner := fun s => (.ok s.runner, s)

/-- A publication on the channel. -/
def publish (around : Surroundings) (copy : Copy) : Delivery Confirmation := do
  match around.publishing with
  | .ok confirmation =>
      effect (.published copy confirmation)
      return confirmation
  | .error error => throw error

/-- `RetryDelayPublisher.publish_delay`, which ignores what the channel returns. -/
def publishDelay (around : Surroundings) (messageBody : List UInt8) (queueName : String)
    (delayMs : Int) (headers : PyDict) : Delivery Unit := do
  let _ ← publish around
    { body := messageBody, headers, exchange := meliEventsExchange,
      routingKey := s!"{queueName}.delay", expiration := some delayMs }

/-- A copy that has to be confirmed, on the exchange of the runner. -/
def publishMandatory (around : Surroundings) (messageBody : List UInt8) (queueName : String)
    (delayMs : Int) (headers : PyDict) : Delivery Unit := do
  let self ← runner
  if !self.hasChannel then throw runtimeError
  else
    let confirmed ← publish around
      { body := messageBody, headers, exchange := self.exchangeName,
        routingKey := s!"{queueName}.delay", expiration := some delayMs }
    if confirmed = .refused ∨ confirmed = .unanswered then throw runtimeError else return ()

/-- A copy on the retry queue of the claims. -/
def publishClaims (around : Surroundings) (messageBody : List UInt8) (delayMs : Int)
    (headers : PyDict) (mandatory : Bool) : Delivery Unit := do
  let self ← runner
  if !self.hasChannel then throw runtimeError
  else
    let confirmed ← publish around
      { body := messageBody, headers, exchange := "",
        routingKey := claimsRetryQueueName delayMs, expiration := none }
    if confirmed = .refused ∨ mandatory ∧ confirmed = .unanswered then throw runtimeError
    else return ()

def publishRetryDelay (around : Surroundings) (messageBody : List UInt8) (queueName : String)
    (delayMs : Int) (headers : PyDict) (mandatory : Bool) : Delivery Unit := do
  if queueName ≠ sheetsClaimsQueue then
    if mandatory then publishMandatory around messageBody queueName delayMs headers
    else
      let self ← runner
      if !self.hasRetryDelayPublisher then throw runtimeError
      else publishDelay around messageBody queueName delayMs headers
  else publishClaims around messageBody delayMs headers mandatory

/-- The guard around a publication: an unconfirmed original is kept. -/
def ackIfPublished (publication : Delivery Unit) : Delivery Unit := do
  let published ← tryCatch (do publication; return true) fun _ => return false
  if published then ack else nack true

def retryClaimsTransient (around : Surroundings) (message : Message) (queueName : String)
    (deathCount delayMs : Int) : Delivery Bool := do
  if queueName ≠ sheetsClaimsQueue then return false
  else
    ackIfPublished (publishRetryDelay around message.body queueName
      (max delayMs (claimsRetryDelayMs (deathCount + 1)))
      (retryHeaders message (deathCount + 1)) false)
    return true

def accountIsPaused (around : Surroundings) (sellerId : Int) : Delivery Bool := do
  match around.accountStatusSource with
  | none => return false
  | some source =>
      let self ← runner
      match self.accountStatusCache.lookup sellerId with
      | some (some status, cachedAt) =>
          if around.monotonic - cachedAt ≤ 30 then return status == "paused"
          else askAccount source
      | _ => askAccount source
where
  /-- The source is asked and its answer cached. -/
  askAccount (source : Int → Except PyError (Option String)) : Delivery Bool := do
    let status ← ExceptT.mk (pure (source sellerId))
    modify fun s =>
      let cache := (sellerId, status, around.monotonic) :: s.runner.accountStatusCache
      { s with runner := { s.runner with accountStatusCache := cache } }
    return status == some "paused"

/-! ### The branches -/

/-- A delayed copy, or the original back in the queue where there is no publisher. -/
def retryDelayed (around : Surroundings) (message : Message) (queueName : String)
    (deathCount delayMs : Int) : Delivery Unit := do
  if ← retryClaimsTransient around message queueName deathCount delayMs then return ()
  else
    let self ← runner
    if !self.hasRetryDelayPublisher then nack true
    else
      publishRetryDelay around message.body queueName delayMs
        (retryHeaders message (deathCount + 1)) false
      ack

/-- A delayed copy for a claim, otherwise the original back in the queue. -/
def requeue (around : Surroundings) (message : Message) (queueName : String)
    (deathCount : Int) : Delivery Unit := do
  if ← retryClaimsTransient around message queueName deathCount 0 then return ()
  else nack true

/-- The branch of `HistoryPolicyWaitError`. -/
def policyWait (around : Surroundings) (message : Message) (queueName : String)
    (deathCount : Int) : Delivery Unit :=
  let waits := policyWaitCount message + 1
  let delayMs := if waits ≤ policyWaitShortLimit then policyWaitShortDelayMs
    else policyWaitLongDelayMs
  let headers := (retryHeaders message deathCount).set policyWaitHeader (.int waits)
  ackIfPublished (publishRetryDelay around message.body queueName delayMs headers true)

/-- The branch of `GatewayRateLimitError`. -/
def gatewayRateLimit (around : Surroundings) (message : Message) (queueName : String)
    (deathCount retryAfterSeconds : Int) (response : Response) : Delivery Unit :=
  match pilotWaitCode response with
  | .error error => throw (.builtin error)
  | .ok (some _) =>
      ackIfPublished (publishRetryDelay around message.body queueName (retryAfterSeconds * 1000)
        (retryHeaders message deathCount) true)
  | .ok none => retryDelayed around message queueName deathCount (retryAfterSeconds * 1000)

/-- The branch of `httpx.HTTPStatusError`. -/
def httpStatus (around : Surroundings) (message : Message) (queueName : String)
    (deathCount statusCode : Int) : Delivery Unit := do
  if statusCode = 412 then
    let delayMs := claimsRetryDelayMs (deathCount + 1)
    if ← retryClaimsTransient around message queueName deathCount delayMs then return ()
    else
      ackIfPublished (publishRetryDelay around message.body queueName delayMs
        (retryHeaders message (deathCount + 1)) false)
  else if statusCode ∈ permanentHttpStatusCodes then nack false
  else if 500 ≤ statusCode ∨ statusCode ∈ retriableHttpStatusCodes then
    requeue around message queueName deathCount
  else nack false

/-- The except clauses. -/
def handleError (around : Surroundings) (message : Message) (queueName : String)
    (deathCount : Int) : PyError → Delivery Unit
  | .historyPolicyWait => policyWait around message queueName deathCount
  | .gatewayRateLimit retryAfterSeconds response =>
      gatewayRateLimit around message queueName deathCount retryAfterSeconds response
  | .retryableGoogleSheetsApi retryAfterSeconds =>
      retryDelayed around message queueName deathCount (retryAfterSeconds * 1000)
  | .statusObservationContention =>
      retryDelayed around message queueName deathCount defaultStatusContentionRetryDelayMs
  | .retryableItemAcquisition =>
      retryDelayed around message queueName deathCount (claimsRetryDelayMs (deathCount + 1))
  | .eventClaimTimeout =>
      retryDelayed around message queueName deathCount defaultEventClaimRetryDelayMs
  | .devolucionesLeaseConflict | .devolucionesLeaseLost =>
      requeue around message queueName deathCount
  | .httpStatus statusCode => httpStatus around message queueName deathCount statusCode
  | .connect | .timeout => requeue around message queueName deathCount
  | .builtin _ => nack false

/-- The try block: whether the event was handled, and not left alone on a paused account. -/
def tryHandle (interpreter : Interpreter) (around : Surroundings) (message : Message) :
    Delivery Bool := do
  let event ← ExceptT.mk (pure ((sheetsEventFromMessage interpreter message).mapError .builtin))
  if ← accountIsPaused around event.sellerId then return false
  else
    let _ ← ExceptT.mk (pure (around.handle event))
    return true

def handleMessage (interpreter : Interpreter) (around : Surroundings) (message : Message)
    (queueName : String) : Delivery Unit := do
  let deathCount := deliveryAttemptCount message queueName
  let self ← runner
  if self.deliveryLimit ≤ deathCount then
    let _ ← ExceptT.mk (pure ((eventContextFromMessage interpreter message).mapError .builtin))
    nack false
  else
    let failure ← tryCatch (do let _ ← tryHandle interpreter around message; return none)
      fun error => return some error
    match failure with
    | none => ack
    | some error => handleError around message queueName deathCount error

end ZelerPlatform.Sheets
