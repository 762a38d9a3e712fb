import ZelerPlatform.Library.Fallible
import ZelerPlatform.Library.Mongo.Document
import ZelerPlatform.Library.PyValue

/-!
# The classifier of webhooks

`classify_webhook_event` gives a stored webhook its routing key, its resource and its idempotency
key; `build_event_envelope` makes the message that is published.
-/

namespace ZelerPlatform.Gateway

open Mongo Mongo.Value Fallible

/-! ### Patterns -/

/-- A part of a pattern: a text, or digits `[0-9]+`. -/
inductive Piece
  | text (text : String)
  | digits
  deriving DecidableEq

def isDigit (c : Char) : Bool := '0' ≤ c && c ≤ '9'

/-- `re.fullmatch`, with the digits that were matched. No pattern has a digit after digits, so that
they are taken as far as they go. -/
def fullmatch : List Piece → List Char → Option (List String)
  | [], [] => some []
  | [], _ :: _ => none
  | .text text :: pieces, cs =>
      if text.toList.isPrefixOf cs then fullmatch pieces (cs.drop text.length) else none
  | .digits :: pieces, cs =>
      if (cs.takeWhile isDigit).isEmpty then none
      else (fullmatch pieces (cs.dropWhile isDigit)).map (String.ofList (cs.takeWhile isDigit) :: ·)

/-! ### Values -/

/-- `str` of a value that is not plain, and `_format_occurred_at`. -/
structure EnvelopeTexts where
  str : Value → String
  occurredAt : Option Value → Except BuiltinError String

section

variable (texts : EnvelopeTexts)

/-- `str(value)`. -/
def EnvelopeTexts.pyStr : Value → String
  | .null => "None"
  | .bool b => if b then "True" else "False"
  | .int n | .long n => toString n
  | .string s => s
  | .array [] => "[]"
  | .document [] => "{}"
  | .double bits =>
      if ofBits bits = .fin 0 then (if bits.msb then "-0.0" else "0.0") else texts.str (.double bits)
  | value => texts.str value

/-- `int(value)`. -/
def pyInt : Value → Except BuiltinError Int
  | .bool b => .ok (if b then 1 else 0)
  | .int n | .long n => .ok n
  | .double bits =>
      match ofBits bits with
      | .fin q => .ok (q.num.tdiv q.den)
      | .nan => .error .value
      | _ => .error (.other "OverflowError")
  | .string s =>
      match intOfText s with
      | some n => .ok n
      | none => .error .value
  | _ => .error .type

/-- `event.get(key) or rest`. -/
def orGet (event : Doc) (key : String) (rest : Option Value) : Option Value :=
  match event.get? key with
  | some value => if value.truthy then some value else rest
  | none => rest

/-! ### Classification -/

inductive ClassifierError
  | unknownTopic (topic : String)
  | builtin (error : BuiltinError)
  deriving DecidableEq

/-- `TOPIC_ROUTING_KEYS`. -/
def topicRoutingKeys : List (String × String) := [
  ("items", "items.updated"),
  ("orders_v2", "orders.updated"),
  ("shipments", "shipments.updated"),
  ("questions", "questions.new"),
  ("messages", "messages.new"),
  ("items_prices", "items.price_updated"),
  ("catalog_item_competition_status", "catalog_item_competition_status.updated"),
  ("user-products-families", "user_products.families_updated"),
  ("stock-locations", "stock_locations.updated"),
  ("price_suggestion", "price_suggestion.updated"),
  ("fbm_stock_operations", "fbm_stock_operations.new")]

structure ClassifiedWebhookEvent where
  routingKey : String
  eventType : String
  idempotencyKey : String
  resource : String
  deriving DecidableEq

/-- `_event_id`. -/
def webhookEventId (event : Doc) : Except ClassifierError String :=
  match orGet event "_id" (orGet event "notification_id" (event.get? "id")) with
  | none | some .null => .error (.builtin .value)
  | some value => .ok (texts.pyStr value)

/-- `_CLAIM_RESOURCE`. -/
def claimResource : List Piece := [.text "/post-purchase/v1/claims/", .digits]

/-- `_CLAIM_ACTIONS_RESOURCE`. -/
def claimActionsResource : List Piece :=
  [.text "/post-purchase/v1/claims/", .digits, .text "/actions-history"]

/-- `str(event.get(key, ""))`. -/
def strField (event : Doc) (key : String) : String :=
  match event.get? key with
  | some value => texts.pyStr value
  | none => ""

/-- The actions of an event, or those of its body. -/
def eventActions (event : Doc) : Value :=
  match event.getD "actions", event.getD "raw_body" with
  | .null, .document raw => Doc.getD raw "actions"
  | actions, _ => actions

/-- `_normalize_post_purchase_claim_event`. -/
def normalizePostPurchaseClaimEvent (event : Doc) : Except ClassifierError String :=
  let resource := strField texts event "resource"
  let actions := eventActions event
  if (fullmatch claimResource resource.toList).isSome ∧ actions.pyEq (.array [.string "claims"]) then
    .ok resource
  else
    match fullmatch claimActionsResource resource.toList with
    | some [claimId] =>
        if actions.pyEq (.array [.string "claims_actions"]) then
          .ok ("/post-purchase/v1/claims/" ++ claimId)
        else .error (.unknownTopic "post_purchase")
    | _ => .error (.unknownTopic "post_purchase")

/-- `normalized_resource`. -/
def normalizedResource (event : Doc) : Except ClassifierError String :=
  if strField texts event "topic" = "post_purchase" then normalizePostPurchaseClaimEvent texts event
  else .ok (strField texts event "resource")

/-- `classify_webhook_event`. -/
def classifyWebhookEvent (event : Doc) : Except ClassifierError ClassifiedWebhookEvent := do
  let topic := strField texts event "topic"
  let resource ← normalizedResource texts event
  let routingKey :=
    if topic = "post_purchase" then some "claims.updated" else topicRoutingKeys.lookup topic
  match routingKey with
  | none => throw (.unknownTopic topic)
  | some routingKey =>
      let notificationId ← webhookEventId texts event
      return {
        routingKey
        eventType := routingKey
        idempotencyKey := topic ++ ":" ++ resource ++ ":" ++ notificationId
        resource }

structure Envelope where
  eventId : String
  eventType : String
  occurredAt : String
  sellerId : Int
  resource : String
  traceId : String
  schemaVersion : Nat
  deriving DecidableEq

/-- `int(event[key])`. -/
def intField (event : Doc) (key : String) : Except ClassifierError Int :=
  match event.get? key with
  | some value => (pyInt value).mapError .builtin
  | none => .error (.builtin .key)

/-- `build_event_envelope`. -/
def buildEventEnvelope (event : Doc) (traceId : Option String) :
    Except ClassifierError Envelope := do
  let classified ← classifyWebhookEvent texts event
  let eventId ← webhookEventId texts event
  let occurredAt ← (texts.occurredAt (event.get? "received_at")).mapError .builtin
  let sellerId ← intField event "user_id"
  return {
    eventId
    eventType := classified.eventType
    occurredAt
    sellerId
    resource := classified.resource
    traceId := traceId.getD ""
    schemaVersion := 1 }

end

end ZelerPlatform.Gateway
