import ZelerPlatform.Gateway.Webhooks
import ZelerPlatform.Library.Dict

/-!
# Replays of webhooks

An operator plans a replay of the notifications that have not been published: of those about one
resource the plan selects the latest one, if the topic is one of states rather than of events. The
plan is executed one event at a time, while the queues behind the exchange are in order; a ledger
keeps what became of each event, and the first one that cannot be published ends the replay.
-/

namespace ZelerPlatform.Gateway.Webhooks

open Mongo Mongo.Value Transition

/-! ### Topics -/

/-- `SHEETS_FRESHNESS_TOPICS`. -/
def sheetsFreshnessTopics : List String :=
  ["items", "orders_v2", "shipments", "questions", "items_prices"]

/-- `SHEETS_CLAIMS_TOPICS`. -/
def sheetsClaimsTopics : List String := ["post_purchase"]

/-- `ALLOWED_TOPICS`. -/
def allowedTopics : List String :=
  ["price_suggestion", "user-products-families"] ++ sheetsFreshnessTopics ++ sheetsClaimsTopics

/-- `COALESCED_TOPICS`. -/
def coalescedTopics : List String := "price_suggestion" :: sheetsFreshnessTopics

/-- `TOPIC_NO_GO_REASONS`. -/
def topicNoGoReasons : List (String × String) := [
  ("user-products-families",
    "Sheets user_products.* handler/consumer behavior is not defined; "
      ++ "there is no active Sheets consumer path for user_products.*; "
      ++ "approval flags do not define functional safety.")]

/-- `TOPIC_REQUIRED_GATE_QUEUES`. -/
def topicRequiredGateQueues (topic : String) : List String :=
  if topic = "price_suggestion" then ["zeler.repricer.items"]
  else if topic ∈ sheetsFreshnessTopics then ["zeler.sheets.events"]
  else if topic = "post_purchase" then ["zeler.sheets.claims"]
  else []

/-- `TOPIC_ROUTING_KEYS` of the replay. -/
def replayRoutingKeys : List (String × String) := [
  ("price_suggestion", "price_suggestion.updated"),
  ("user-products-families", "user_products.families_updated"),
  ("items", "items.updated"),
  ("orders_v2", "orders.updated"),
  ("shipments", "shipments.updated"),
  ("questions", "questions.new"),
  ("items_prices", "items.price_updated"),
  ("post_purchase", "claims.updated")]

def sheetsReplayExchange : String := "zeler.sheets.replay"

/-- The topics that are replayed over the exchange for Sheets. -/
def sheetsTopics : List String := sheetsFreshnessTopics ++ sheetsClaimsTopics

def validateTopicAllowed (topic : String) : Except WebhookError Unit :=
  if topic ∈ allowedTopics then return ()
  else throw (.replayConfig ("unsupported topic: " ++ topic))

/-! ### The plan -/

structure PlanOptions where
  runId : String
  topics : List String
  limits : List (String × Nat)
  latestPerResource : Bool
  expectedCounts : Option (List (String × Nat))

structure PlannedEvent where
  id : String
  topic : String
  userId : Int
  resource : String
  receivedAt : Int
  routingKey : String
  idempotencyKey : String
  event : WebhookEvent
  skipReason : Option String

structure TopicPlanCount where
  total : Nat
  selected : Nat
  skipped : Nat
  deriving DecidableEq, Repr

structure ReplayPlan where
  runId : String
  selected : List PlannedEvent
  skipped : List PlannedEvent
  topicCounts : List (String × TopicPlanCount)

/-- `_validate_required_fields`, of a document as it is read. -/
def validateRequiredFields (e : WebhookEvent) : Except WebhookError Unit :=
  if e.resource = "" then throw (.replayConfig "corrupt webhook event has empty resource")
  else return ()

/-- `_planned_event`. -/
def plannedEvent (texts : EnvelopeTexts) (e : WebhookEvent) : Except WebhookError PlannedEvent := do
  validateRequiredFields e
  let classified ← (classifyWebhookEvent texts e.projected).mapError .classifier
  return {
    id := e.id, topic := e.topic, userId := e.userId, resource := classified.resource
    receivedAt := e.receivedAt, routingKey := classified.routingKey
    idempotencyKey := classified.idempotencyKey, event := e, skipReason := none }

/-- The key of a group of events of which the latest one is replayed. -/
structure ResourceKey where
  topic : String
  userId : Int
  resource : String
  deriving DecidableEq, Repr

def PlannedEvent.key (e : PlannedEvent) : ResourceKey := ⟨e.topic, e.userId, e.resource⟩

def PlannedEvent.skip (e : PlannedEvent) (reason : String) : PlannedEvent :=
  { e with skipReason := some reason }

/-- The latest event of each key so far, and those skipped. -/
abbrev Coalesced := List (ResourceKey × PlannedEvent) × List PlannedEvent

/-- One event more. -/
def coalesce (state : Coalesced) (e : PlannedEvent) : Coalesced :=
  match state.1.lookup e.key with
  | none => (Dict.set state.1 e.key e, state.2)
  | some existing =>
      if existing.receivedAt < e.receivedAt then
        (Dict.set state.1 e.key e, state.2 ++ [existing.skip "coalesced_older"])
      else (state.1, state.2 ++ [e.skip "coalesced_older"])

/-- `_coalesce_latest`. -/
def coalesceLatest (events : List PlannedEvent) : List PlannedEvent × List PlannedEvent :=
  let state := events.foldl coalesce ([], [])
  (state.1.map Prod.snd, state.2)

/-- What is selected and what is skipped of the events of a topic. -/
def selectTopic (options : PlanOptions) (topic : String) (events : List PlannedEvent) :
    List PlannedEvent × List PlannedEvent :=
  if (topicNoGoReasons.lookup topic).isSome then ([], events.map (·.skip "topic_no_go"))
  else if options.latestPerResource ∧ topic ∈ coalescedTopics then coalesceLatest events
  else (events, [])

/-- The order of a plan: by topic, time and id. -/
def PlannedEvent.before (a b : PlannedEvent) : Bool :=
  a.topic < b.topic || a.topic = b.topic &&
    (a.receivedAt < b.receivedAt || a.receivedAt = b.receivedAt && a.id ≤ b.id)

section

variable {ι : Type} [DecidableEq ι] (texts : EnvelopeTexts) (options : PlanOptions)

/-- An event of a topic that has not been published. -/
def unpublished (topic : String) (e : WebhookEvent) : Bool :=
  e.publishedAt = none ∧ e.topic = topic

/-- The check of the count that is expected of a topic. -/
def checkCount (topic : String) : Call ι Unit :=
  match options.expectedCounts.bind (·.lookup topic) with
  | none => return ()
  | some expected => do
      let actual ← atomically .mongo fun _ s => (.ok (s.events.count (unpublished topic)), s)
      if actual ≠ expected then
        lift (throw (.replayConfig ("baseline drift for " ++ topic ++ ": expected "
          ++ toString expected ++ ", found " ++ toString actual)))
      else return ()

/-- The events of a topic, the first ones first, as many as the limit allows. -/
def findTopicEvents (events : Collection WebhookEvent.id) (topic : String) : List WebhookEvent :=
  let sorted := (events.find (unpublished topic)).mergeSort fun a b => a.receivedAt ≤ b.receivedAt
  match options.limits.lookup topic with
  | some limit => sorted.take limit
  | none => sorted

/-- `_load_topic_events`. -/
def loadTopicEvents (topic : String) : Call ι (List WebhookEvent) := do
  checkCount options topic
  atomically .mongo fun _ s => (.ok (findTopicEvents options s.events topic), s)

/-- The plan for one topic is added. -/
def planTopic (plan : ReplayPlan) (topic : String) : Call ι ReplayPlan := do
  let loaded ← loadTopicEvents options topic
  let events ← lift (loaded.mapM (plannedEvent texts))
  let (selected, skipped) := selectTopic options topic events
  return { plan with
    selected := plan.selected ++ selected
    skipped := plan.skipped ++ skipped
    topicCounts := Dict.set plan.topicCounts topic
      ⟨events.length, selected.length, skipped.length⟩ }

def planTopics (plan : ReplayPlan) : List String → Call ι ReplayPlan
  | [] => return plan
  | topic :: rest => do
      let plan ← planTopic texts options plan topic
      planTopics plan rest

/-- The plan with its events in order. -/
def ReplayPlan.sorted (plan : ReplayPlan) : ReplayPlan :=
  { plan with
    selected := plan.selected.mergeSort PlannedEvent.before
    skipped := plan.skipped.mergeSort PlannedEvent.before }

/-- `build_replay_plan`. -/
def buildReplayPlan : Call ι ReplayPlan :=
  if options.runId = "" then lift (throw (.replayConfig "run_id is required"))
  else do
    let _ ← lift (options.topics.mapM validateTopicAllowed)
    let plan ← planTopics texts options ⟨options.runId, [], [], []⟩ options.topics
    return plan.sorted

end

/-! ### The gate -/

/-- `_routing_key_matches` for the parts of both keys from some place on. -/
def matchParts : List String → List String → Bool
  | [], parts => parts.isEmpty
  | "#" :: _, _ => true
  | _ :: _, [] => false
  | binding :: bindings, part :: parts =>
      (binding = "*" || binding = part) && matchParts bindings parts

/-- The parts of a key between dots. -/
def keyParts (key : String) : List String := (key.toList.splitOn '.').map .ofList

/-- `_routing_key_matches`. -/
def routingKeyMatches (bindingKey routingKey : String) : Bool :=
  bindingKey = routingKey || matchParts (keyParts bindingKey) (keyParts routingKey)

structure ReplayOptions where
  maxQueueReady : Int
  maxDlqDelta : Int
  requireConsumerHealth : Bool
  execute : Bool
  gate : Bool
  maxPublishAttempts : Nat
  abortFile : Option String

/-- Why a gate is closed; an open one has no decision here. -/
structure GateDecision where
  reason : String
  detail : String

/-- `_binding_proves_route`; a binding is its source, its destination and its routing key. -/
def bindingProvesRoute (binding : String × String × String)
    (source destination routingKey : String) : Bool :=
  binding.1 = source && binding.2.1 = destination && routingKeyMatches binding.2.2 routingKey

/-- The exchange over which a topic has to reach its queue. -/
def requiredBindingSourceExchange (topic : String) : Option String :=
  if topic ∈ sheetsTopics then some sheetsReplayExchange else none

/-- The checks of one queue that a topic needs: the decision if one fails. -/
def gateQueue (options : ReplayOptions) (topic : String) (snapshots : List QueueSnapshot)
    (queue : String) : Option GateDecision :=
  let routingKey := (replayRoutingKeys.lookup topic).getD ""
  let detail := "active consumer path " ++ queue
  match (snapshots.filter (·.name = queue)).getLast? with
  | none => some ⟨"missing_consumer", detail⟩
  | some snapshot =>
      if options.maxQueueReady < snapshot.ready then some ⟨"queue_cap_exceeded", detail⟩
      else if options.maxDlqDelta < snapshot.dlqReady then some ⟨"dlq_delta_exceeded", detail⟩
      else if options.requireConsumerHealth ∧ snapshot.consumers < 1 then
        some ⟨"missing_consumer", detail⟩
      else if options.requireConsumerHealth ∧ (¬ snapshot.healthy ∨ snapshot.recentErrors.any
          (· ∈ ["worker.message.requeued", "worker.message.dlq"])) then
        some ⟨"consumer_health_failed", detail⟩
      else match requiredBindingSourceExchange topic, options.execute with
      | some source, true =>
          if snapshot.bindings = [] then some ⟨"binding_unavailable", detail⟩
          else if snapshot.bindings.any (bindingProvesRoute · source queue routingKey) then none
          else some ⟨"wrong_binding",
            detail ++ "; requires " ++ source ++ " -> " ++ queue ++ " for " ++ routingKey⟩
      | _, _ =>
          if options.execute ∧ snapshot.routingKeys = [] then some ⟨"routing_unavailable", detail⟩
          else if snapshot.routingKeys ≠ [] ∧
              ¬ snapshot.routingKeys.any (routingKeyMatches · routingKey) then
            some ⟨"wrong_routing", detail⟩
          else none

/-- The checks of one topic. -/
def gateTopic (options : ReplayOptions) (snapshots : List QueueSnapshot) (topic : String) :
    Except WebhookError (Option GateDecision) := do
  validateTopicAllowed topic
  match topicNoGoReasons.lookup topic with
  | some reason => return some ⟨"topic_no_go", reason⟩
  | none => return (topicRequiredGateQueues topic).findSome? (gateQueue options topic snapshots)

/-- The decision about the first topic that fails. -/
def gateTopics (options : ReplayOptions) (snapshots : List QueueSnapshot) :
    List String → Except WebhookError (Option GateDecision)
  | [] => return none
  | topic :: rest => do
      match ← gateTopic options snapshots topic with
      | some decision => return some decision
      | none => gateTopics options snapshots rest

/-- The path of the file that aborts, if it is there. -/
def ReplayOptions.abortPath (options : ReplayOptions) (there : Bool) : Option String :=
  options.abortFile.filter fun _ => there

/-- `evaluate_rabbit_gates`: none if the gate is open. -/
def evaluateRabbitGates (options : ReplayOptions) (there : Bool) (snapshots : List QueueSnapshot)
    (topics : List String) : Except WebhookError (Option GateDecision) :=
  match options.abortPath there with
  | some path => return some ⟨"operator_abort", path⟩
  | none => gateTopics options snapshots topics

/-! ### The execution -/

section

variable {ι : Type} [DecidableEq ι] (texts : EnvelopeTexts) (i : ι) (options : ReplayOptions)

/-- `_enforce_rabbit_gate` on the queues as they are. -/
def enforceRabbitGate (topics : List String) : Call ι Unit :=
  atomically .gate fun turn s =>
    match evaluateRabbitGates options turn.abort turn.snapshots topics with
    | .error e => (.error e, s)
    | .ok none => (.ok (), s)
    | .ok (some decision) => (.error (.replayAbort ("Rabbit gate failed: " ++ decision.reason
        ++ if decision.detail = "" then "" else ": " ++ decision.detail)), s)

/-- `_write_ledger`. -/
def writeLedger (row : LedgerRow) : Call ι Unit :=
  atomically .ledger fun _ s => (.ok (), { s with ledger := s.ledger ++ [row] })

/-- `_ledger_row`. -/
def PlannedEvent.ledgerRow (e : PlannedEvent) (runId status : String) (attempt : Nat)
    (errorClass : Option String) : LedgerRow :=
  ⟨runId, e.id, e.topic, e.resource, e.routingKey, e.idempotencyKey, status, attempt, errorClass⟩

/-- A row of the ledger about an event, and then an exception. -/
def ledgerAndRaise {A : Type} (row : LedgerRow) (e : WebhookError) : Call ι A := do
  writeLedger row
  lift (throw e)

/-- What the replay over the exchange for Sheets publishes. -/
def sheetsMessage (texts : EnvelopeTexts) (e : PlannedEvent) (traceId : String) :
    Except WebhookError Message := do
  let envelope ← (buildEventEnvelope texts e.event.projected (some traceId)).mapError .classifier
  return {
    exchange := sheetsReplayExchange
    routingKey := e.routingKey
    payload := .event envelope
    headers := [("idempotency_key", e.idempotencyKey)] }

/-- `_publish_planned_event`. -/
def publishPlannedEvent (e : PlannedEvent) (traceId : String) : Call ι Unit :=
  if e.topic ∈ sheetsTopics then do
    let message ← lift (sheetsMessage texts e traceId)
    publishToExchange i message
  else publishWebhookEvent texts i e.event.projected (some traceId)

/-- `_is_transient_publish_error`. -/
def WebhookError.isTransient : WebhookError → Bool
  | transient _ => true
  | _ => false

/-- The attempts that are left: how many were made when one succeeds, or the error of the last. -/
def publishPlanned (e : PlannedEvent) (traceId : String) (made : Nat) :
    Nat → Call ι (Nat × Option WebhookError)
  | 0 => return (made, some (.other "RuntimeError"))
  | left + 1 => do
      match ← attempt (publishPlannedEvent texts i e traceId) with
      | .ok () => return (made + 1, none)
      | .error error =>
          if ¬ error.isTransient ∨ left = 0 then return (made + 1, some error)
          else publishPlanned e traceId (made + 1) left

/-- The mark of an event that was not marked before. -/
def markReplayed (e : PlannedEvent) (runId : String) : Call ι Bool :=
  atomically .mongo fun turn s =>
    match s.events.findOne fun stored => stored.id = e.id ∧ stored.publishedAt = none with
    | none => (.ok false, s)
    | some stored => (.ok true, { s with events := s.events.replace { stored with
        publishedAt := some (floorMs turn.now)
        classification := some e.routingKey
        replayRunId := some runId } })

/-- The gate before an event, with its row if it is closed. -/
def passGate (e : PlannedEvent) (runId : String) : Call ι Unit :=
  if ¬ options.gate then return ()
  else do
    match ← attempt (enforceRabbitGate options [e.topic]) with
    | .ok () => return ()
    | .error (.replayAbort message) =>
        ledgerAndRaise (e.ledgerRow runId "aborted" 0 (some "RabbitGateFailed"))
          (.replayAbort message)
    | .error error => lift (throw error)

/-- The file that aborts, before an event. -/
def checkAbort (e : PlannedEvent) (runId : String) : Call ι Unit := do
  let path ← atomically .gate fun turn s => (.ok (options.abortPath turn.abort), s)
  if path.isSome then
    ledgerAndRaise (e.ledgerRow runId "aborted" 0 (some "operator_abort"))
      (.replayAbort "operator abort requested")
  else return ()

/-- An event that has been published is marked, if its topic is one that is marked. -/
def recordPublished (e : PlannedEvent) (runId : String) : Call ι Unit := do
  let marked ← if e.topic ∈ sheetsFreshnessTopics then pure true else markReplayed e runId
  if marked then writeLedger (e.ledgerRow runId "published" 1 none)
  else
    ledgerAndRaise (e.ledgerRow runId "mark_ambiguous" 1 (some "MongoMarkAmbiguous"))
      (.replayAbort "ambiguous Mongo mark")

/-- One event of a plan. -/
def replayEvent (e : PlannedEvent) (runId : String) : Call ι Unit := do
  passGate options e runId
  checkAbort options e runId
  match validateRequiredFields e.event with
  | .error _ => writeLedger (e.ledgerRow runId "quarantined" 0 (some "schema"))
  | .ok () => do
      match ← publishPlanned texts i e runId 0 options.maxPublishAttempts with
      | (attempts, some error) =>
          ledgerAndRaise (e.ledgerRow runId "failed" attempts (some error.className))
            (.replayAbort ("publish failed for event " ++ e.id ++ " after " ++ toString attempts
              ++ " attempt(s)"))
      | (_, none) => recordPublished e runId

/-- The events of a plan, one after the other. -/
def replaySelected (runId : String) : List PlannedEvent → Call ι Unit
  | [] => return ()
  | e :: rest => do
      replayEvent texts i options e runId
      replaySelected runId rest

/-- `execute_replay_plan`. -/
def executeReplayPlan (plan : ReplayPlan) : Call ι Unit :=
  replaySelected texts i options plan.runId plan.selected

/-- `_run_from_options`. -/
def runFromOptions (planOptions : PlanOptions) : Call ι ReplayPlan := do
  let plan ← buildReplayPlan texts planOptions
  if ¬ options.execute then return plan
  else do
    enforceRabbitGate options planOptions.topics
    executeReplayPlan texts i options plan
    return plan

end

/-! ### Processes -/

/-- A call of one of the processes: a notification that comes in, or a replay. -/
inductive Request
  | notify (settings : GatewaySettings) (request : WebhookRequest)
  | replay (options : ReplayOptions) (planOptions : PlanOptions)

/-- What it answers: whether the notification was a duplicate, or the plan. -/
inductive Reply
  | received (duplicate : Bool)
  | replayed (plan : ReplayPlan)

def Request.call {ι : Type} [DecidableEq ι] (libs : Libraries) (i : ι) : Request → Call ι Reply
  | notify settings request => do
      let duplicate ← receiveMeliWebhook i libs settings request
      return .received duplicate
  | replay options planOptions => do
      let plan ← runFromOptions libs.texts i options planOptions
      return .replayed plan

end ZelerPlatform.Gateway.Webhooks
