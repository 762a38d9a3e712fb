import ZelerPlatform.Gateway.Classifier
import ZelerPlatform.Library.Collection
import ZelerPlatform.Library.Mongo.Python
import ZelerPlatform.Library.RelyGuarantee

/-!
# Webhooks

A notification of the marketplace is stored under its id when it comes in for the first time, and
published in the background; one that is there already is acknowledged only. Any number of
notifications are received side by side. Each call to Mongo, the broker or the ledger is one
atomic operation, and each may raise, with effect or without.
-/

namespace ZelerPlatform.Gateway.Webhooks

open Mongo Mongo.Value Transition

/-- The exceptions; `transient` are `ConnectionError`, `TimeoutError` and `OSError`. -/
inductive WebhookError
  | http (status : Nat) (detail : String)
  | classifier (error : ClassifierError)
  | replayConfig (message : String)
  | replayAbort (message : String)
  | transient (name : String)
  | other (name : String)
  deriving DecidableEq

/-- The class of an exception. -/
def WebhookError.className : WebhookError → String
  | http _ _ => "HTTPException"
  | classifier (.unknownTopic _) => "UnknownWebhookTopicError"
  | classifier (.builtin .jsonDecode) => "JSONDecodeError"
  | classifier (.builtin .unicodeDecode) => "UnicodeDecodeError"
  | classifier (.builtin .value) => "ValueError"
  | classifier (.builtin .key) => "KeyError"
  | classifier (.builtin .type) => "TypeError"
  | classifier (.builtin (.other name)) => name
  | replayConfig _ => "ReplayConfigError"
  | replayAbort _ => "ReplayAbortError"
  | transient name => name
  | other name => name

/-! ### Stored notifications and messages -/

/-- A document of `webhook_events`. -/
structure WebhookEvent where
  id : String
  topic : String
  userId : Int
  resource : String
  receivedAt : Int
  rawBody : Doc
  sourceIp : String
  publishedAt : Option Int
  classification : Option String
  replayRunId : Option String

/-- The document as it is stored. -/
def WebhookEvent.stored (e : WebhookEvent) : WebhookEvent :=
  { e with receivedAt := floorMs e.receivedAt }

/-- The fields of a document that make its message. `rest` are the others. -/
def WebhookEvent.fields (e : WebhookEvent) (rest : Doc) : Doc :=
  [("_id", .string e.id), ("topic", .string e.topic), ("user_id", .long e.userId),
    ("resource", .string e.resource), ("received_at", .date e.receivedAt),
    ("raw_body", .document e.rawBody), ("schema_version", .int 1)] ++ rest

/-- The document as `receive_meli_webhook` inserts it. -/
def WebhookEvent.document (e : WebhookEvent) : Doc :=
  e.fields [("published_at", .null), ("classification", .null), ("source_ip", .string e.sourceIp)]

/-- The document as `WEBHOOK_EVENTS_PROJECTION` reads it. -/
def WebhookEvent.projected (e : WebhookEvent) : Doc :=
  e.fields [("published_at", e.publishedAt.elim .null .date)]

/-- The payload of a message. -/
inductive Payload
  | event (envelope : Envelope)
  | unknown (eventId occurredAt : String) (sellerId : Value) (resource traceId : String)

def Payload.eventId : Payload → String
  | event envelope => envelope.eventId
  | unknown eventId _ _ _ _ => eventId

/-- What is published: the exchange, the routing key, the payload and the headers. -/
structure Message where
  exchange : String
  routingKey : String
  payload : Payload
  headers : List (String × String)

def meliEventsExchange : String := "meli.events"

section

variable (texts : EnvelopeTexts)

/-- `_fallback_event_id`. -/
def fallbackEventId (event : Doc) : String :=
  match orGet event "_id" (orGet event "notification_id" (orGet event "id" none)) with
  | some value => texts.pyStr value
  | none => ""

/-- `_build_unknown_envelope`. -/
def buildUnknownEnvelope (event : Doc) (traceId : Option String) : Except WebhookError Payload := do
  let occurredAt ← (texts.occurredAt (event.get? "received_at")).mapError (.classifier ∘ .builtin)
  return .unknown (fallbackEventId texts event) occurredAt (event.getD "user_id")
    (strField texts event "resource") (traceId.getD "")

/-- The message of a classified event. -/
def classifiedMessage (event : Doc) (traceId : Option String) :
    Except ClassifierError Message := do
  let classified ← classifyWebhookEvent texts event
  let envelope ← buildEventEnvelope texts event traceId
  return {
    exchange := meliEventsExchange
    routingKey := classified.routingKey
    payload := .event envelope
    headers := [("idempotency_key", classified.idempotencyKey), ("exchange", meliEventsExchange)] }

/-- The message of an event of an unknown topic. -/
def unknownMessage (event : Doc) (traceId : Option String) : Except WebhookError Message := do
  let payload ← buildUnknownEnvelope texts event traceId
  let originalTopic := strField texts event "topic"
  return {
    exchange := meliEventsExchange
    routingKey := "webhooks.unknown.dlq"
    payload
    headers := [
      ("idempotency_key", "unknown:" ++ originalTopic ++ ":" ++ fallbackEventId texts event),
      ("exchange", meliEventsExchange), ("original_topic", originalTopic)] }

/-- What `publish_webhook_event` publishes. -/
def webhookMessage (event : Doc) (traceId : Option String) : Except WebhookError Message :=
  match classifiedMessage texts event traceId with
  | .ok message => .ok message
  | .error (.unknownTopic _) => unknownMessage texts event traceId
  | .error e => .error (.classifier e)

end

/-! ### Requests -/

/-- The libraries the endpoint uses: `ip_address` and `ip_network` where they accept a text, HMAC
digests in hexadecimal digits, and the JSON of a body. -/
structure Libraries where
  texts : EnvelopeTexts
  isAddress : String → Bool
  inNetwork : String → String → Option Bool
  hmacSha256 : String → String → String
  loads : String → Option Value

structure GatewaySettings where
  meliAllowedIps : String
  requireSignature : Bool
  hmacSecret : String
  publisher : Bool

structure WebhookRequest where
  forwardedFor : Option String
  signature : Option String
  client : Option String
  traceId : String
  body : String

/-- The texts between commas, without blanks around them. -/
def commaSeparated (text : String) : List String :=
  (text.toList.splitOn ',').map fun part => pyStrip (.ofList part)

/-- `_source_ip`. -/
def WebhookRequest.sourceIp (request : WebhookRequest) : String :=
  match request.forwardedFor with
  | some forwarded => if forwarded = "" then request.client.getD ""
      else (commaSeparated forwarded).headD ""
  | none => request.client.getD ""

section

variable (libs : Libraries)

/-- An address is in one of the networks. -/
def inAnyNetwork (sourceIp : String) : List String → Except WebhookError Bool
  | [] => return false
  | entry :: rest =>
      match libs.inNetwork entry sourceIp with
      | none => throw (.classifier (.builtin .value))
      | some true => return true
      | some false => inAnyNetwork sourceIp rest

/-- `is_allowed_source_ip`. -/
def isAllowedSourceIp (sourceIp allowlist : String) : Except WebhookError Bool :=
  if allowlist = "" then return false
  else if ¬ libs.isAddress sourceIp then throw (.classifier (.builtin .value))
  else inAnyNetwork libs sourceIp ((commaSeparated allowlist).filter (· ≠ ""))

/-- `verify_hmac_signature`. -/
def verifyHmacSignature (body : String) (signature : Option String) (secret : String) : Bool :=
  signature.any fun signature =>
    signature ≠ "" ∧ signature = "sha256=" ++ libs.hmacSha256 secret body

variable (settings : GatewaySettings)

/-- The checks before a body is read. -/
def checkSource (request : WebhookRequest) : Except WebhookError Unit := do
  let allowed ← isAllowedSourceIp libs request.sourceIp settings.meliAllowedIps
  if ¬ allowed then throw (.http 401 "invalid webhook source")
  else if ¬ settings.requireSignature then return ()
  else if settings.hmacSecret = "" then
    throw (.http 503 "HMAC validation required but secret not configured")
  else if ¬ verifyHmacSignature libs request.body request.signature settings.hmacSecret then
    throw (.http 401 "invalid webhook signature")
  else return ()

/-- `_event_id` of the endpoint. -/
def notificationId (payload : Doc) : Except WebhookError String :=
  (webhookEventId libs.texts payload).mapError fun _ =>
    .http 422 "webhook payload missing notification id"

/-- `str(payload[key])`. -/
def requiredText (payload : Doc) (key : String) : Except WebhookError String :=
  match payload.get? key with
  | some value => return libs.texts.pyStr value
  | none => throw (.classifier (.builtin .key))

/-- The document of a payload. -/
def newEvent (payload : Doc) (sourceIp : String) (now : Int) :
    Except WebhookError WebhookEvent := do
  let id ← notificationId libs payload
  let topic ← requiredText libs payload "topic"
  let userId ← (intField payload "user_id").mapError .classifier
  let resource ← requiredText libs payload "resource"
  return {
    id, topic, userId, resource, receivedAt := now, rawBody := payload, sourceIp
    publishedAt := none, classification := none, replayRunId := none }

/-- The document of a request that is admitted. -/
def receivedEvent (request : WebhookRequest) (now : Int) : Except WebhookError WebhookEvent := do
  checkSource libs settings request
  match libs.loads request.body with
  | none => throw (.classifier (.builtin .jsonDecode))
  | some (.document payload) => newEvent libs payload request.sourceIp now
  | some _ => throw (.other "AttributeError")

end

/-! ### Calls -/

/-- A queue of the broker as its management export shows it. -/
structure QueueSnapshot where
  name : String
  ready : Int
  dlqReady : Int
  consumers : Int
  routingKeys : List String
  bindings : List (String × String × String)
  healthy : Bool
  recentErrors : List String

/-- What one operation finds: the time, the exception it raises if it does, with whether it has
had its effect, the queues, and whether the file that aborts is there. -/
structure Turn where
  now : Int
  fault : Option (WebhookError × Bool)
  snapshots : List QueueSnapshot
  abort : Bool

/-- A row of the ledger of a replay. -/
structure LedgerRow where
  runId : String
  id : String
  topic : String
  resource : String
  routingKey : String
  idempotencyKey : String
  status : String
  attempt : Nat
  errorClass : Option String
  deriving DecidableEq, Repr

/-- A message with the process that sent it. -/
structure Sent (ι : Type) where
  sender : ι
  message : Message

/-- The database, the broker and the ledger. `origin` has the process that inserted a document, with
the event it had received; it is a ghost, as are the senders. -/
structure World (ι : Type) where
  events : Collection WebhookEvent.id
  sent : List (Sent ι)
  ledger : List LedgerRow
  origin : String → Option (ι × WebhookEvent)
  turns : Nat → Turn
  taken : Nat

inductive Label
  | mongo
  | broker
  | clock
  | gate
  | ledger
  deriving DecidableEq, Repr

/-- A call: a program of atomic operations that may raise. -/
abbrev Call (ι A : Type) := ExceptT WebhookError (Program Label (World ι)) A

section

variable {ι A : Type} [DecidableEq ι]

/-- One operation. -/
def atomically (label : Label) (f : Turn → World ι → Except WebhookError A × World ι) : Call ι A :=
  ExceptT.mk <| Program.act label fun s =>
    let turn := s.turns s.taken
    let s' := { s with taken := s.taken + 1 }
    match turn.fault with
    | none => f turn s'
    -- The connection fails before the operation has taken place, or after.
    | some (e, false) => (.error e, s')
    | some (e, true) => (.error e, (f turn s').2)

/-- A result without an operation. -/
def lift (x : Except WebhookError A) : Call ι A := ExceptT.mk (pure x)

/-- The outcome of a guarded block. -/
def attempt (p : Call ι A) : Call ι (Except WebhookError A) := ExceptT.mk do return .ok (← p.run)

def clock : Call ι Int := atomically .clock fun turn s => (.ok turn.now, s)

/-- `message_id`: an empty event id is looked for elsewhere in vain. -/
def messageId (message : Message) : Except WebhookError String :=
  if message.payload.eventId = "" then throw (.classifier (.builtin .key))
  else return message.payload.eventId

/-- `_publish_to_exchange`: the broker takes the message and confirms it. -/
def publishToExchange (i : ι) (message : Message) : Call ι Unit := do
  let _ ← lift (messageId message)
  atomically .broker fun _ s => (.ok (), { s with sent := s.sent ++ [⟨i, message⟩] })

variable (texts : EnvelopeTexts)

/-- `publish_webhook_event`. -/
def publishWebhookEvent (i : ι) (event : Doc) (traceId : Option String) : Call ι Unit := do
  let message ← lift (webhookMessage texts event traceId)
  publishToExchange i message

/-- The update that marks an event as published. -/
def markPublished (e : WebhookEvent) : Call ι Unit :=
  atomically .mongo fun turn s =>
    match s.events.byKey e.id with
    | none => (.ok (), s)
    | some stored => (.ok (), { s with events := s.events.replace { stored with
        publishedAt := some (floorMs turn.now)
        classification := some e.topic } })

/-- What is guarded in `_classify_and_publish`. -/
def publishAndMark (i : ι) (e : WebhookEvent) (traceId : String) : Call ι Unit := do
  publishWebhookEvent texts i e.document (some traceId)
  markPublished e

/-- `_classify_and_publish`. -/
def classifyAndPublish (i : ι) (settings : GatewaySettings) (e : WebhookEvent) (traceId : String) :
    Call ι Unit :=
  if ¬ settings.publisher then return ()
  else do
    let _ ← attempt (publishAndMark texts i e traceId)
    return ()

/-- The update with `$setOnInsert`, and whether the document was there. -/
def insertOnce (i : ι) (e : WebhookEvent) : Call ι Bool :=
  atomically .mongo fun _ s =>
    match s.events.insert e.stored with
    | none => (.ok true, s)
    | some events => (.ok false, { s with
        events, origin := Function.update s.origin e.id (some (i, e)) })

/-- `receive_meli_webhook`, and its task in the background: whether it was a duplicate. -/
def receiveMeliWebhook (i : ι) (libs : Libraries) (settings : GatewaySettings)
    (request : WebhookRequest) : Call ι Bool := do
  let now ← clock
  let e ← lift (receivedEvent libs settings request now)
  let duplicate ← insertOnce i e
  if duplicate then return true
  else do
    classifyAndPublish libs.texts i settings e request.traceId
    return false

end

end ZelerPlatform.Gateway.Webhooks
