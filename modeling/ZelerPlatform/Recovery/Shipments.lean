import Mathlib.Data.List.Dedup
import ZelerPlatform.Imports.Segments
import ZelerPlatform.Library.Mongo.Equality
import ZelerPlatform.Library.Mongo.Path
import ZelerPlatform.Recovery.Chunks

/-!
# Recovering shipments

A worker goes through the shipments of its job from the stored cursor on. For each of them it
asks the source for the orders, the shipment and the cost, and one transaction stores the
document, reads it back and moves the cursor; the last one also finishes the job. A cost that
may be had later leaves the cursor where it is, and the job is given back.

Instants in documents are in microseconds, those of the queue in milliseconds. `Texts` is what
Python's library makes of texts and values, `Pydantic` what the validators of the field types
and `Decimal` make of a value, as it is dumped for BSON.
-/

namespace ZelerPlatform.Recovery

open Fallible Mongo
open Imports (Texts pyStr orElse)

/-- `none` for a value that is refused. -/
structure Pydantic where
  check : String → Value → Option Value
  decimal : Value → Option Value

/-! ### What the source answers -/

/-- What a request or the reading of its body may raise. -/
inductive SourceError
  | localQuotaTimeout
  | httpStatus (code : Nat)
  | transport
  | valueError
  | other
  deriving DecidableEq, Repr

/-- A response; a body that is no JSON is `none`. -/
structure Response where
  statusCode : Nat
  json : Option Value

abbrev Answer := Except SourceError Response

/-- What a pass over one shipment raises. -/
inductive ShipmentError
  | source (error : SourceError)
  | valueError (message : String)
  | queue (error : QueueError)
  | duplicateKey
  deriving DecidableEq, Repr

/-- `response.json()`. -/
def Response.body (response : Response) : Except ShipmentError Value :=
  response.json.elim (throw (.source .valueError)) pure

/-- The response of a request that has to succeed with 200. -/
def answered (message : String) (answer : Answer) : Except ShipmentError Value := do
  let response ← answer.mapError .source
  raiseIf (response.statusCode ≠ 200) (.valueError message)
  response.body

/-- `value.isascii() and value.isdecimal()`. -/
def isAsciiDecimal (text : String) : Bool :=
  !text.isEmpty && text.toList.all Char.isDigit

section

variable (texts : Texts) (py : Pydantic)

/-- The orders of a shipment that its source attributes to the seller, in order. -/
def ownedOrdersOf (sellerId : String) (relations : List Value) : List String :=
  ((relations.filterMap Value.document?).filter fun row =>
      pyStr texts (row.getD "seller_id") = sellerId).map (fun row =>
    pyStr texts (row.getD "order_id")) |>.dedup.mergeSort

def relatedOrders (sellerId : String) (relation : Answer) : Except ShipmentError (List String) := do
  match ← answered "shipment order relationship unavailable" relation with
  | .array (first :: rest) =>
      let ownedOrders := ownedOrdersOf texts sellerId (first :: rest)
      raiseIf (ownedOrders = [] ∨ ¬ ownedOrders.all isAsciiDecimal)
        (.valueError "shipment seller relationship unavailable")
      return ownedOrders
  | _ => throw (.valueError "shipment order relationship unavailable")

/-- A value that is absent, or whose text is one of those expected. -/
def nullOrText (value : Value) (expected : List String) : Bool :=
  value = .null || pyStr texts value ∈ expected

def shipmentDetail (sellerId identity : String) (ownedOrders : List String) (answer : Answer) :
    Except ShipmentError Doc := do
  match ← answered "shipment detail incomplete" answer with
  | .document detail =>
      raiseIf (pyStr texts (Doc.getD detail "id") ≠ identity
          ∨ ¬ nullOrText texts (Doc.getD detail "seller_id") [sellerId]
          ∨ ¬ nullOrText texts (Doc.getD detail "order_id") ownedOrders)
        (.valueError "shipment detail scope mismatch")
      return detail
  | _ => throw (.valueError "shipment detail scope mismatch")

/-! ### The cost -/

/-- `_receiver_address_string`; the projection of the cost reads its texts in the same way. -/
def receiverAddressString : Value → Option String
  | .null => none
  | .document _ => none
  | .array _ => none
  | .other 30 _ => none
  | value =>
      let normalized := pyStrip (pyStr texts value)
      if normalized = "" then none else some normalized

/-- A model dumped with `exclude_none`. -/
def dumped (fields : Doc) : Doc := fields.filter fun field => field.2 ≠ .null

/-- `_parse_cost`. -/
def parseCost : Value → Option Value
  | .null => none
  | .bool _ => none
  | .document _ => none
  | .array _ => none
  | value => py.decimal value

/-- `_extract_sender_id`. -/
def extractSenderId (sender : Doc) : Option String :=
  ["sender_id", "seller_id", "user_id", "id"].findSome? fun field =>
    receiverAddressString texts (sender.getD field)

/-- `_extract_currency_id`. -/
def extractCurrencyId (costsPayload matchedSender : Doc) : Option String :=
  [matchedSender, costsPayload].findSome? fun source =>
    (receiverAddressString texts (source.getD "currency_id")).map texts.upper

/-- `ShipmentRealShippingCostProjection.from_meli_costs_payload`, dumped. -/
def realShippingCost (costsPayload : Value) (sellerId : String) (syncedAt : Int) : Option Doc := do
  let .document payload := costsPayload | none
  let normalizedSellerId := pyStrip sellerId
  guard (normalizedSellerId ≠ "")
  let .array senders := Doc.getD payload "senders" | none
  let matchedSender ← (senders.filterMap Value.document?).find? fun sender =>
    extractSenderId texts sender = some normalizedSellerId
  let sellerCost ← parseCost py (matchedSender.getD "cost")
  let receiverCost := (Doc.getD payload "receiver").document?.bind fun receiver =>
    parseCost py (receiver.getD "cost")
  return dumped [("source", .string "/shipments/\x7bshipment_id\x7d/costs"),
    ("seller_cost", sellerCost),
    ("receiver_cost", receiverCost.getD .null),
    ("currency_id", (extractCurrencyId texts payload matchedSender).elim .null .string),
    ("matched_sender_id", .string normalizedSellerId),
    ("synced_at", .date syncedAt)]

/-- The cost of a shipment if it is known, whether it may be known later, and whether that is
because the local quota ran out. -/
structure CostRead where
  cost : Option Doc
  retryPartial : Bool
  quotaError : Bool

/-- A status after which the cost is asked for again. -/
def retriedStatus (code : Nat) : Bool := code = 429 || decide (500 ≤ code)

def readCost (sellerId : String) (observedAt : Int) : Answer → Except ShipmentError CostRead
  | .ok response =>
      if response.statusCode = 200 then
        -- A body that is no JSON raises a `ValueError`, which is passed over.
        return ⟨response.json.bind fun payload => realShippingCost texts py payload sellerId observedAt,
          false, false⟩
      else return ⟨none, retriedStatus response.statusCode, false⟩
  | .error .localQuotaTimeout => return ⟨none, true, true⟩
  | .error (.httpStatus code) => return ⟨none, retriedStatus code, false⟩
  | .error .transport => return ⟨none, true, false⟩
  | .error .valueError => return ⟨none, false, false⟩
  | .error .other => throw (.source .other)

/-! ### The address -/

/-- `_named_value`. -/
def namedValue : Value → Value
  | .document fields =>
      ((receiverAddressString texts (Doc.getD fields "name")).or
        (receiverAddressString texts (Doc.getD fields "id"))).elim .null .string
  | value => value

/-- The address of a resource before it is cleaned. -/
def rawAddress (resource : Doc) : Option Doc :=
  match resource.getD "destination" with
  | .document destination =>
      (Doc.getD destination "shipping_address").document?.map fun address =>
        address.set "receiver_name" (Doc.getD destination "receiver_name")
  | _ => (resource.getD "receiver_address").document?

/-- `_receiver_address_snapshot`. -/
def receiverAddressSnapshot (resource : Doc) : Option Doc := do
  let raw ← rawAddress resource
  let text (value : Value) : Value := (receiverAddressString texts value).elim .null .string
  let sanitized := dumped [
    ("name", ((receiverAddressString texts (raw.getD "receiver_name")).or
      (receiverAddressString texts (raw.getD "name"))).elim .null .string),
    ("street_name", text (raw.getD "street_name")),
    ("street_number", text (raw.getD "street_number")),
    ("neighborhood", text (namedValue texts (raw.getD "neighborhood"))),
    ("zip_code", text (raw.getD "zip_code")),
    ("city", text (namedValue texts (raw.getD "city"))),
    ("state", text (namedValue texts (raw.getD "state"))),
    ("country", text (namedValue texts (raw.getD "country")))]
  guard (sanitized ≠ [])
  return sanitized

/-! ### The canonical document -/

/-- `_string_id`. -/
def stringId (value : Value) : Except ShipmentError String :=
  let normalized := if value.truthy then pyStrip (pyStr texts value) else ""
  if normalized = "" then throw (.valueError "resource is missing required id") else pure normalized

/-- `_shipment_order_id`. An `order` of the resource goes before its `order_id`. -/
def shipmentOrderId (resource : Doc) : Except ShipmentError String :=
  match resource.getD "order" with
  | .document order =>
      stringId texts (orElse [Doc.getD order "id", Doc.getD order "order_id"])
  | _ => stringId texts (resource.getD "order_id")

/-- The fields of `Shipment` in the order of its dump, with their defaults. -/
def shipmentFields : List (String × Option Value) :=
  [("schema_version", some (.int 1)), ("_id", none), ("seller_id", none), ("order_id", none),
    ("status", none), ("substatus", some .null), ("tracking_number", some .null),
    ("logistic_type", none), ("receiver_address", some .null), ("real_shipping_cost", some .null),
    ("formula_observed_at", some .null), ("unavailable_fields", some (.array [])),
    ("date_created", none), ("last_updated", none)]

/-- The validator of one field; ids become texts. -/
def checkField (field : String) (value : Value) : Option Value :=
  if field ∈ ["_id", "seller_id", "order_id"] then some (.string (pyStr texts value))
  else py.check field value

/-- `Shipment.model_validate` and its dump; a field without a default has to be there. -/
def shipmentModel (resource : Doc) : Option Doc :=
  (shipmentFields.mapM fun (field, default) =>
    ((resource.get? field).elim default (checkField texts py field)).map (field, ·)).map dumped

/-- `current_schema_version("shipments")`. -/
def shipmentSchemaVersion : Int := 1

/-- The resource as `_canonical_shipment_document` has it validated. -/
def shipmentInput (resource : Doc) (shipmentId sellerId orderId : String) : Doc :=
  resource.setAll [("_id", .string shipmentId), ("seller_id", .string sellerId),
    ("order_id", .string orderId),
    ("logistic_type",
      match resource.getD "logistic" with
      | .document logistic => Doc.getD logistic "type"
      | _ => resource.getD "logistic_type"),
    ("receiver_address", (receiverAddressSnapshot texts resource).elim .null .document),
    ("schema_version", .int shipmentSchemaVersion)]

/-- `_canonical_shipment_document`. -/
def canonicalShipmentDocument (resource : Doc) (sellerId : String) : Except ShipmentError Doc := do
  let shipmentId ← stringId texts (orElse [resource.getD "_id", resource.getD "id"])
  let orderId ← shipmentOrderId texts resource
  match shipmentModel texts py (shipmentInput texts resource shipmentId sellerId orderId) with
  | none => throw (.valueError "shipment resource failed validation")
  | some document =>
      return if (document.getD "unavailable_fields").truthy then document
        else document.filter fun field => field.1 ≠ "unavailable_fields"

/-! ### What a worker acquires -/

/-- A shipment as the source gave it, and what a worker makes of it before its transaction. -/
structure Acquisition where
  detail : Doc
  ownedOrders : List String
  cost : CostRead
  unavailableFields : List String
  resource : Doc

/-- The requests for one shipment, by their answers. -/
def acquireShipment (sellerId identity : String) (relation detail cost : Answer)
    (observedAt : Int) : Except ShipmentError Acquisition := do
  let ownedOrders ← relatedOrders texts sellerId relation
  let detail ← shipmentDetail texts sellerId identity ownedOrders detail
  let cost ← readCost texts py sellerId observedAt cost
  let unavailable := (if cost.cost.isNone then ["real_shipping_cost"] else []) ++
    if (receiverAddressSnapshot texts detail).isNone then ["receiver_address"] else []
  return ⟨detail, ownedOrders, cost, unavailable,
    detail.setAll [("order_id", .string (ownedOrders.headD "")),
      ("real_shipping_cost", cost.cost.elim .null .document),
      ("formula_observed_at", .date observedAt),
      -- The names are in order already, as `sorted` leaves them.
      ("unavailable_fields", .array (unavailable.map .string))]⟩

end

/-! ### Storing it -/

abbrev Shipments := Collection StoredDoc.id

/-- The document of the seller under an id. -/
def ofSeller (id : Value) (sellerId : String) (stored : StoredDoc) : Bool :=
  stored.id = some id
    && Value.equalMatches (Value.reach ["seller_id"] (.document stored.doc)) (.string sellerId)

/-- `bson_ms_utc_datetime` of a field. -/
def bsonInstant (value : Value) : Option Int := value.date?.map Value.floorMs

/-- `_fresh_resource_write_filter` on `last_updated`. -/
def freshShipmentFilter (document : Doc) (sellerId : String) (stored : StoredDoc) : Bool :=
  let reached := Value.reach ["last_updated"] (.document stored.doc)
  ofSeller (document.getD "_id") sellerId stored &&
    match bsonInstant (document.getD "last_updated") with
    | some incoming => Value.lteDateMatches reached incoming || !Value.existsMatches reached
    | none => !Value.existsMatches reached

/-- `_insert_resource_if_absent`; a key that another seller has aborts the transaction. -/
def insertShipmentIfAbsent (document : Doc) (sellerId : String) (shipments : Shipments) :
    Except ShipmentError (Bool × Shipments) :=
  if shipments.matched (ofSeller (document.getD "_id") sellerId) then return (false, shipments)
  else match shipments.insert (.ofDoc document) with
    | some shipments => return (true, shipments)
    | none => throw .duplicateKey

/-- The fields that a status event leaves as they are. -/
def retainedFields : List String :=
  ["receiver_address", "real_shipping_cost", "formula_observed_at", "unavailable_fields"]

/-- `$mergeObjects` of the retained fields and the document. -/
def mergedShipment (document : Doc) (stored : StoredDoc) : StoredDoc :=
  .ofDoc (Doc.setAll (retainedFields.filterMap fun field =>
    (stored.doc.get? field).map (field, ·)) document)

/-- Put a document in the place of the first one a filter selects. -/
def replaceSelectedShipment (filter : StoredDoc → Bool) (change : StoredDoc → StoredDoc)
    (shipments : Shipments) : Except ShipmentError Shipments :=
  match shipments.updateOne filter change with
  | .ok (_, shipments) => return shipments
  | .error _ => throw .duplicateKey

/-- `_persist_shipment`. -/
def persistShipment (texts : Texts) (py : Pydantic) (sellerId : String) (resource : Doc)
    (shipments : Shipments) : Except ShipmentError Shipments := do
  let document ← canonicalShipmentDocument texts py resource sellerId
  let (inserted, shipments) ← insertShipmentIfAbsent document sellerId shipments
  if inserted then return shipments
  else if document.get? "formula_observed_at" = none then
    replaceSelectedShipment (freshShipmentFilter document sellerId) (mergedShipment document)
      shipments
  else
    replaceSelectedShipment (freshShipmentFilter document sellerId) (fun _ => .ofDoc document)
      shipments

/-! ### The cursor and the transaction -/

/-- The job queue and the shipments, which one transaction may write. -/
structure Store where
  jobs : Jobs
  shipments : Shipments

/-- `initialize_shipment_cursor`. -/
def initializeShipmentCursor (q : Queue) (sha256 : String → String) (job : Job) (now : Time)
    (jobs : Jobs) : Except QueueError (Nat × Jobs) := do
  let (query, size) ← q.shipmentCursorBinding sha256 job now
  let offset := job.shipmentOffset.getD 0
  raiseIf (size < offset) (.valueError "shipment cursor malformed")
  let filter := fun stored => query stored && stored.shipmentOffset = job.shipmentOffset
  raiseIf (¬ jobs.matched filter)
    (.valueError "shipment cursor initialization lost ownership")
  return (offset, jobs.update filter (fun stored => { stored with shipmentOffset := some offset })
    fun _ => rfl)

/-- A field that the source did not give, taken from the stored document. -/
def keepField (prior : StoredDoc) (resource : Doc) (field : String) : Doc :=
  match prior.doc.getD field with
  | .document kept =>
      let resource := resource.set field (.document kept)
      -- The time of a kept cost gets its zone back, which is no change of the instant.
      if field = "receiver_address" then resource.filter fun entry => entry.1 ≠ "destination"
      else resource
  | _ => resource

/-- The resource with the stored values of the fields that the source did not give. -/
def keepUnavailable (acquired : Acquisition) (prior : Option StoredDoc) : Doc :=
  prior.elim acquired.resource fun prior =>
    acquired.unavailableFields.foldl (keepField prior) acquired.resource

/-- The cursor after the transaction of a shipment. -/
def following (index : Nat) (acquired : Acquisition) : Nat :=
  if acquired.cost.retryPartial then index else index + 1

/-- The writes of the transaction on the queue, at the two readings of its clock. -/
def settleShipment (q : Queue) (sha256 : String → String) (job : Job) (index : Nat)
    (acquired : Acquisition) (now finishNow : Time) (jobs : Jobs) : Except ShipmentError Jobs := do
  let (moved, jobs) ←
    (q.checkpointShipmentCursor sha256 job index (following index acquired) now jobs).mapError .queue
  raiseIf (moved = false) (.valueError "shipment cursor lost ownership before publication")
  if acquired.cost.retryPartial || following index acquired = (job.shipmentIds.getD []).length then
    let (finished, jobs) ← (finish job (!acquired.cost.retryPartial) acquired.cost.retryPartial
      .sourceTemporarilyUnavailable finishNow finishNow jobs).mapError .queue
    raiseIf (finished = false) (.valueError "shipment recovery lease lost before publication")
    return jobs
  else return jobs

/-- The transaction of one shipment. The two documents compare alike from either side. -/
def publishShipment (q : Queue) (sha256 : String → String) (texts : Texts) (py : Pydantic)
    (job : Job) (index : Nat) (identity : String) (acquired : Acquisition) (now finishNow : Time)
    (store : Store) : Except ShipmentError Store := do
  let scope := ofSeller (.string identity) job.sellerId
  let resource := keepUnavailable acquired (store.shipments.findOne scope)
  let shipments ← persistShipment texts py job.sellerId resource store.shipments
  let expected ← canonicalShipmentDocument texts py resource job.sellerId
  raiseIf (¬ (shipments.findOne scope).any fun stored =>
      Doc.pyEq (Value.storedFields expected) stored.doc)
    (.valueError "shipment changed during acquisition")
  let jobs ← settleShipment q sha256 job index acquired now finishNow store.jobs
  return ⟨jobs, shipments⟩

/-! ### What a canonical document holds -/

section

variable {texts : Texts} {py : Pydantic} {resource document : Doc} {sellerId field : String}
variable {value : Value}

/-- A field that is not null is in the dump. -/
theorem get?_dumped {doc : Doc} (h : doc.get? field = some value) (hvalue : value ≠ .null) :
    (dumped doc).get? field = some value := by
  induction doc with
  | nil => cases h
  | cons entry rest ih =>
      obtain ⟨key, v⟩ := entry
      rw [Doc.get?_cons] at h
      by_cases hkey : field = key
      · rw [if_pos hkey] at h
        obtain rfl := Option.some.inj h
        rw [dumped, List.filter_cons_of_pos (by simpa using hvalue), Doc.get?_cons, if_pos hkey]
      · rw [if_neg hkey] at h
        rw [dumped, List.filter_cons]
        split
        · rw [Doc.get?_cons, if_neg hkey]
          exact ih h
        · exact ih h

/-- A field of a model is what its validator makes of it. -/
theorem get?_mapM {fields : List (String × Option Value)} {g : String → Option Value → Option Value}
    {out : Doc} {default : Option Value}
    (h : (fields.mapM fun (f, d) => (g f d).map (f, ·)) = some out)
    (mem : fields.lookup field = some default) : out.get? field = g field default := by
  induction fields generalizing out with
  | nil => cases mem
  | cons entry rest ih =>
      obtain ⟨key, d⟩ := entry
      rw [List.mapM_cons] at h
      obtain ⟨first, hfirst, h⟩ := Option.bind_eq_some_iff.mp h
      obtain ⟨others, hothers, h⟩ := Option.bind_eq_some_iff.mp h
      obtain rfl := Option.some.inj h
      obtain ⟨v, hv, rfl⟩ := Option.map_eq_some_iff.mp hfirst
      rw [List.lookup_cons] at mem
      rw [Doc.get?_cons]
      by_cases hkey : field = key
      · rw [beq_iff_eq.mpr hkey] at mem
        obtain rfl := Option.some.inj mem
        rw [if_pos hkey, hkey, hv]
      · rw [beq_false_of_ne hkey] at mem
        rw [if_neg hkey]
        exact ih hothers mem

theorem get?_shipmentModel {default : Option Value} {checked : Value}
    (h : shipmentModel texts py resource = some document)
    (mem : shipmentFields.lookup field = some default) (present : resource.get? field = some value)
    (accepted : checkField texts py field value = some checked) (hchecked : checked ≠ .null) :
    document.get? field = some checked := by
  obtain ⟨out, hout, rfl⟩ := Option.map_eq_some_iff.mp h
  refine get?_dumped ?_ hchecked
  rw [get?_mapM (g := fun field default =>
    (resource.get? field).elim default (checkField texts py field)) hout mem, present]
  exact accepted

/-- A field of the canonical document, from the resource it was made of. -/
theorem get?_canonicalShipmentDocument
    (h : canonicalShipmentDocument texts py resource sellerId = .ok document) :
    ∃ shipmentId orderId, shipmentOrderId texts resource = .ok orderId ∧
      ∀ {field default value checked}, field ≠ "unavailable_fields" →
        shipmentFields.lookup field = some default →
        (shipmentInput texts resource shipmentId sellerId orderId).get? field = some value →
        checkField texts py field value = some checked → checked ≠ .null →
          document.get? field = some checked := by
  obtain ⟨shipmentId, -, h⟩ := bind_ok h
  obtain ⟨orderId, horder, h⟩ := bind_ok h
  refine ⟨shipmentId, orderId, horder, ?_⟩
  intro field default value checked hfield mem present accepted hchecked
  cases hmodel : shipmentModel texts py
      (shipmentInput texts resource shipmentId sellerId orderId) with
  | none =>
      rw [hmodel] at h
      cases h
  | some model =>
      rw [hmodel] at h
      have hget := get?_shipmentModel hmodel mem present accepted hchecked
      rw [← pure_ok h]
      split
      · exact hget
      · rw [Doc.get?_filter (p := fun key => key ≠ "unavailable_fields"), if_pos (by simpa using hfield)]
        exact hget

/-! ### Fields that are kept -/

variable {prior : StoredDoc} {fields : List String} {kept : Doc}

theorem keepField_document (h : prior.doc.getD field = .document kept) :
    keepField prior resource field =
      if field = "receiver_address" then
        (resource.set field (.document kept)).filter fun entry => entry.1 ≠ "destination"
      else resource.set field (.document kept) := by
  rw [keepField, h]

theorem get?_withoutDestination (hfield : field ≠ "destination") :
    Doc.get? (resource.filter fun entry => entry.1 ≠ "destination") field = resource.get? field := by
  rw [Doc.get?_filter (p := fun key => key ≠ "destination"), if_pos (by simpa using hfield)]

theorem get?_keepField (h : prior.doc.getD field = .document kept)
    (hfield : field ≠ "destination") :
    (keepField prior resource field).get? field = some (.document kept) := by
  rw [keepField_document h]
  split
  · rw [get?_withoutDestination hfield, Doc.get?_set, if_pos rfl]
  · rw [Doc.get?_set, if_pos rfl]

theorem get?_keepField_of_ne {other : String} (hother : other ≠ field)
    (hdestination : other ≠ "destination") :
    (keepField prior resource field).get? other = resource.get? other := by
  unfold keepField
  split
  · dsimp only
    split
    · rw [get?_withoutDestination hdestination, Doc.get?_set, if_neg hother]
    · rw [Doc.get?_set, if_neg hother]
  · rfl

/-- A field taken from the stored document is still there when others have been taken. -/
theorem get?_keepFields (h : prior.doc.getD field = .document kept) (hfield : field ≠ "destination")
    (mem : field ∈ fields ∨ resource.get? field = some (.document kept)) :
    (fields.foldl (keepField prior) resource).get? field = some (.document kept) := by
  induction fields generalizing resource with
  | nil => exact mem.resolve_left List.not_mem_nil
  | cons first rest ih =>
      by_cases hfirst : field = first
      · refine ih (.inr ?_)
        rw [← hfirst]
        exact get?_keepField h hfield
      · refine ih (mem.imp (fun mem => (List.mem_cons.mp mem).resolve_left hfirst) fun set => ?_)
        rw [get?_keepField_of_ne hfirst hfield, set]

/-- With a kept address the resource has no destination any more. -/
theorem get?_keepFields_destination (h : prior.doc.getD "receiver_address" = .document kept)
    (known : ∀ field ∈ fields, field ≠ "destination")
    (mem : "receiver_address" ∈ fields ∨ resource.get? "destination" = none) :
    (fields.foldl (keepField prior) resource).get? "destination" = none := by
  have gone : ∀ {resource : Doc}, Doc.get? (resource.filter fun entry => entry.1 ≠ "destination")
      "destination" = none := fun {resource} => by
    rw [Doc.get?_filter (p := fun key => key ≠ "destination"), if_neg (by simp)]
  induction fields generalizing resource with
  | nil => exact mem.resolve_left List.not_mem_nil
  | cons first rest ih =>
      obtain ⟨hfirst, hrest⟩ := List.forall_mem_cons.mp known
      by_cases haddress : "receiver_address" = first
      · refine ih hrest (.inr ?_)
        rw [← haddress, keepField_document h, if_pos rfl]
        exact gone
      · refine ih hrest (mem.imp (fun mem => (List.mem_cons.mp mem).resolve_left haddress)
          fun absent => ?_)
        unfold keepField
        split
        · dsimp only
          rw [if_neg (Ne.symm haddress), Doc.get?_set, if_neg hfirst.symm, absent]
        · exact absent

/-! ### What is acquired -/

/-- The source names the order as one of the seller's. -/
def Attributed (texts : Texts) (relation : Answer) (sellerId order : String) : Prop :=
  ∃ response rows row, relation = .ok response ∧ response.json = some (.array rows) ∧
    .document row ∈ rows ∧ pyStr texts (Doc.getD row "seller_id") = sellerId ∧
    pyStr texts (Doc.getD row "order_id") = order

variable {relation detail cost : Answer} {identity message : String} {observedAt : Int}
variable {acquired : Acquisition} {ownedOrders : List String}

theorem answered_ok (h : answered message relation = .ok value) :
    ∃ response, relation = .ok response ∧ response.json = some value := by
  obtain ⟨response, hresponse, h⟩ := bind_ok h
  obtain ⟨-, h⟩ := raiseIf_ok h
  refine ⟨response, ?_, ?_⟩
  · cases relation with
    | error e => cases hresponse
    | ok r => rw [Except.ok.inj hresponse]
  · rw [Response.body] at h
    cases hjson : response.json with
    | none =>
        rw [hjson] at h
        cases h
    | some body =>
        rw [hjson] at h
        rw [pure_ok h]

theorem relatedOrders_ok (h : relatedOrders texts sellerId relation = .ok ownedOrders) :
    ownedOrders ≠ [] ∧ ownedOrders.all isAsciiDecimal = true ∧
      ∀ order ∈ ownedOrders, Attributed texts relation sellerId order := by
  obtain ⟨value, hvalue, h⟩ := bind_ok h
  obtain ⟨response, hrelation, hjson⟩ := answered_ok hvalue
  split at h
  · next first rest =>
      obtain ⟨hchecked, h⟩ := raiseIf_ok h
      obtain rfl := pure_ok h
      obtain ⟨hsome, hall⟩ := not_or.mp hchecked
      refine ⟨hsome, not_not.mp hall, fun order mem => ?_⟩
      rw [ownedOrdersOf, List.mem_mergeSort, List.mem_dedup] at mem
      obtain ⟨row, hrow, rfl⟩ := List.mem_map.mp mem
      obtain ⟨hdocument, hseller⟩ := List.mem_filter.mp hrow
      obtain ⟨v, hv, hsome⟩ := List.mem_filterMap.mp hdocument
      refine ⟨response, first :: rest, row, hrelation, hjson, ?_, of_decide_eq_true hseller, rfl⟩
      cases v with
      | document fields => rwa [← Option.some.inj hsome]
      | _ => cases hsome
  · cases h

theorem acquireShipment_ok
    (h : acquireShipment texts py sellerId identity relation detail cost observedAt =
      .ok acquired) :
    relatedOrders texts sellerId relation = .ok acquired.ownedOrders ∧
      (∀ field ∈ acquired.unavailableFields,
        field = "real_shipping_cost" ∨ field = "receiver_address") ∧
      ∃ realShippingCost unavailable, acquired.resource = acquired.detail.setAll
        [("order_id", .string (acquired.ownedOrders.headD "")),
          ("real_shipping_cost", realShippingCost), ("formula_observed_at", .date observedAt),
          ("unavailable_fields", unavailable)] := by
  obtain ⟨ownedOrders, horders, h⟩ := bind_ok h
  obtain ⟨detail, -, h⟩ := bind_ok h
  obtain ⟨costRead, -, h⟩ := bind_ok h
  obtain rfl := pure_ok h
  refine ⟨horders, fun field mem => ?_, _, _, rfl⟩
  obtain mem | mem := List.mem_append.mp mem
  · split at mem
    · exact .inl (List.mem_singleton.mp mem)
    · cases mem
  · split at mem
    · exact .inr (List.mem_singleton.mp mem)
    · cases mem

/-- The order that goes into the resource is a number, and the source attributes it. -/
theorem headD_ownedOrders (h : relatedOrders texts sellerId relation = .ok ownedOrders) :
    Attributed texts relation sellerId (ownedOrders.headD "") ∧
      stringId texts (.string (ownedOrders.headD "")) = .ok (ownedOrders.headD "") := by
  obtain ⟨hsome, hall, hattributed⟩ := relatedOrders_ok h
  cases ownedOrders with
  | nil => exact absurd rfl hsome
  | cons order rest =>
      refine ⟨hattributed order List.mem_cons_self, ?_⟩
      obtain ⟨hempty, hdigits⟩ := Bool.and_eq_true_iff.mp
        (List.all_eq_true.mp hall order List.mem_cons_self)
      have hstrip : pyStrip order = order := pyStrip_of_forall fun c mem => by
        have hc := List.all_eq_true.mp hdigits c mem
        simp only [Char.isDigit, Bool.and_eq_true, decide_eq_true_eq] at hc
        have h48 : 48 ≤ c.toNat := hc.1
        have h57 : c.toNat ≤ 57 := hc.2
        simp only [isPySpace, Bool.or_eq_false_iff, Bool.and_eq_false_iff, decide_eq_false_iff_not,
          beq_eq_false_iff_ne]
        omega
      have htruthy : (Value.string order).truthy = true := hempty
      show stringId texts (.string order) = .ok order
      rw [stringId]
      simp only [htruthy, if_true, pyStr, hstrip]
      rw [if_neg (by simpa using hempty)]
      rfl

/-! ### What is stored -/

theorem get?_keepFields_of_not_mem {other : String} (hother : other ∉ fields)
    (hdestination : other ≠ "destination") :
    (fields.foldl (keepField prior) resource).get? other = resource.get? other := by
  induction fields generalizing resource with
  | nil => rfl
  | cons first rest ih =>
      obtain ⟨hfirst, hrest⟩ := not_or.mp (fun h => hother (List.mem_cons.mpr h))
      rw [List.foldl_cons, ih hrest, get?_keepField_of_ne hfirst hdestination]

/-- The document names the order that the source attributes, unless the detail has one. -/
theorem order_of_canonical {stored : Option StoredDoc}
    (hacquired : acquireShipment texts py sellerId identity relation detail cost observedAt =
      .ok acquired)
    (plain : ∀ order, acquired.detail.getD "order" ≠ .document order)
    (h : canonicalShipmentDocument texts py (keepUnavailable acquired stored) sellerId =
      .ok document) :
    document.get? "order_id" = some (.string (acquired.ownedOrders.headD "")) := by
  obtain ⟨horders, hfields, realShippingCost, unavailable, hresource⟩ := acquireShipment_ok hacquired
  obtain ⟨shipmentId, orderId, horder, hget⟩ := get?_canonicalShipmentDocument h
  have hkept : ∀ other, other ≠ "real_shipping_cost" → other ≠ "receiver_address" →
      other ≠ "destination" →
      (keepUnavailable acquired stored).get? other = acquired.resource.get? other := by
    intro other hcost haddress hdestination
    cases stored with
    | none => rfl
    | some prior =>
        exact get?_keepFields_of_not_mem
          (fun mem => (hfields other mem).elim hcost haddress) hdestination
  have hdetail : (keepUnavailable acquired stored).getD "order" = acquired.detail.getD "order" := by
    rw [Doc.getD, hkept _ (by decide) (by decide) (by decide), hresource,
      Doc.get?_setAll_of_not_mem (by simp [Doc.keys]), Doc.getD]
  have hid : (keepUnavailable acquired stored).getD "order_id" =
      .string (acquired.ownedOrders.headD "") := by
    rw [Doc.getD, hkept _ (by decide) (by decide) (by decide), hresource,
      Doc.get?_setAll (by simp [Doc.keys])]
    rfl
  rw [shipmentOrderId, hdetail] at horder
  split at horder
  · next order hdocument => exact absurd hdocument (plain order)
  · rw [hid, (headD_ownedOrders horders).2] at horder
    rw [← Except.ok.inj horder] at hget
    have hinput : (shipmentInput texts (keepUnavailable acquired stored) shipmentId sellerId
        (acquired.ownedOrders.headD "")).get? "order_id" =
        some (.string (acquired.ownedOrders.headD "")) := by
      rw [shipmentInput, Doc.get?_setAll (by simp [Doc.keys])]
      rfl
    exact hget (by decide) rfl hinput rfl (by simp)

/-- The value of a field is as the writer stores it: validation leaves it unchanged. -/
def Canonical (texts : Texts) (py : Pydantic) (field : String) (kept : Doc) : Prop :=
  py.check field (.document kept) = some (.document kept) ∧
    (field = "receiver_address" →
      receiverAddressSnapshot texts [("receiver_address", .document kept)] = some kept)

/-- An address is read from the address field where there is no destination. -/
theorem receiverAddressSnapshot_eq (hdestination : resource.get? "destination" = none)
    (h : resource.get? "receiver_address" = some (.document kept)) :
    receiverAddressSnapshot texts resource =
      receiverAddressSnapshot texts [("receiver_address", .document kept)] := by
  have hraw : rawAddress resource = rawAddress [("receiver_address", .document kept)] := by
    rw [rawAddress, Doc.getD, Doc.getD, hdestination, h]
    rfl
  rw [receiverAddressSnapshot, receiverAddressSnapshot, hraw]

/-- The document keeps a stored value that the source did not give. -/
theorem kept_of_canonical
    (hacquired : acquireShipment texts py sellerId identity relation detail cost observedAt =
      .ok acquired)
    (mem : field ∈ acquired.unavailableFields) (hprior : prior.doc.getD field = .document kept)
    (canonical : Canonical texts py field kept)
    (h : canonicalShipmentDocument texts py (keepUnavailable acquired (some prior)) sellerId =
      .ok document) :
    document.get? field = some (.document kept) := by
  obtain ⟨-, hfields, -⟩ := acquireShipment_ok hacquired
  obtain ⟨shipmentId, orderId, -, hget⟩ := get?_canonicalShipmentDocument h
  have hkept : (keepUnavailable acquired (some prior)).get? field = some (.document kept) :=
    get?_keepFields hprior (by obtain rfl | rfl := hfields field mem <;> decide) (.inl mem)
  obtain ⟨hcheck, haddress⟩ := canonical
  obtain rfl | rfl := hfields field mem
  · have hinput : (shipmentInput texts (keepUnavailable acquired (some prior)) shipmentId sellerId
        orderId).get? "real_shipping_cost" = some (.document kept) := by
      rw [shipmentInput, Doc.get?_setAll_of_not_mem (by simp [Doc.keys])]
      exact hkept
    exact hget (by decide) rfl hinput hcheck (by simp)
  · have hdestination :
        (keepUnavailable acquired (some prior)).get? "destination" = none :=
      get?_keepFields_destination hprior
        (fun field mem => by obtain rfl | rfl := hfields field mem <;> decide) (.inl mem)
    have hsnapshot : receiverAddressSnapshot texts (keepUnavailable acquired (some prior)) =
        some kept := (receiverAddressSnapshot_eq hdestination hkept).trans (haddress rfl)
    have hinput : (shipmentInput texts (keepUnavailable acquired (some prior)) shipmentId sellerId
        orderId).get? "receiver_address" = some (.document kept) := by
      rw [shipmentInput, Doc.get?_setAll (by simp [Doc.keys]), hsnapshot]
      rfl
    exact hget (by decide) rfl hinput hcheck (by simp)

/-! ### What happens to the job -/

variable {q : Queue} {sha256 : String → String} {job record : Job} {jobs jobs' : Jobs}
variable {now finishNow : Time} {ids : List String} {index offset : Nat}

/-- What no operation on a shipment job changes. -/
structure SameTask (record record' : Job) : Prop where
  sellerId : record'.sellerId = record.sellerId
  shipmentIds : record'.shipmentIds = record.shipmentIds
  catalogOffset : record'.catalogOffset = record.catalogOffset
  inventoryScope : record'.inventoryScope = record.inventoryScope

theorem SameTask.refl (record : Job) : SameTask record record := ⟨rfl, rfl, rfl, rfl⟩

theorem SameTask.trans {record' record'' : Job} (first : SameTask record record')
    (second : SameTask record' record'') : SameTask record record'' where
  sellerId := second.sellerId.trans first.sellerId
  shipmentIds := second.shipmentIds.trans first.shipmentIds
  catalogOffset := second.catalogOffset.trans first.catalogOffset
  inventoryScope := second.inventoryScope.trans first.inventoryScope

/-- The end of an attempt at a job without a catalog and outside the inventory. -/
theorem finish_plain {succeeded retryable matched : Bool} {reason : FailureReason}
    {checkpointNow : Time} (hcatalog : job.catalogOffset = none)
    (hscope : job.inventoryScope = false)
    (h : finish job succeeded retryable reason now checkpointNow jobs = .ok (matched, jobs')) :
    ∃ (change : Job → Job) (keeps : ∀ job, (change job).id = job.id),
      (matched, jobs') = updateOwned job now change keeps jobs ∧
      ∀ stored, SameTask stored (change stored) ∧ (change stored).attemptToken = none ∧
        (change stored).shipmentOffset = stored.shipmentOffset ∧
        ((change stored).state = .completed ↔ succeeded = true) := by
  obtain ⟨-, h⟩ := raiseIf_ok h
  dsimp only at h
  rw [if_neg (by simp [hscope]), hcatalog] at h
  refine ⟨_, _, (pure_ok h).symm, fun stored => ⟨⟨rfl, rfl, rfl, rfl⟩, rfl, rfl, ?_⟩⟩
  cases succeeded with
  | true => simp
  | false =>
      simp only [Bool.false_eq_true, if_false, iff_false]
      split <;> simp

theorem shipmentCursorBinding_ok {query : Job → Bool} {size : Nat}
    (h : q.shipmentCursorBinding sha256 job now = .ok (query, size)) :
    size = (job.shipmentIds.getD []).length ∧
      ∀ stored, query stored = true → owned job now stored = true := by
  refine ⟨?_, fun stored => owned_of_shipmentCursorBinding h⟩
  obtain ⟨ids, hids, h⟩ := bind_ok h
  obtain ⟨-, h⟩ := raiseIf_ok h
  rw [← (Prod.mk.inj (pure_ok h)).2]
  cases hjob : job.shipmentIds with
  | none =>
      rw [hjob] at hids
      cases hids
  | some own =>
      rw [hjob] at hids
      rw [Option.getD_some, show own = ids from pure_ok hids]

/-- A filter that selects a document asks for the one under its key. -/
theorem matched_byKey {filter : Job → Bool} (hrecord : jobs.byKey job.id = some record)
    (hfilter : ∀ stored, filter stored = true → stored.id = job.id)
    (h : jobs.matched filter = true) : filter record = true := by
  obtain ⟨stored, mem, hstored⟩ := List.any_eq_true.mp h
  obtain ⟨hmem, hid⟩ := Collection.byKey_some.mp hrecord
  rwa [← Collection.eq_of_key mem hmem ((hfilter stored hstored).trans hid.symm)]

/-- The cursor is set where it is, under the lease. -/
theorem initializeShipmentCursor_ok (hrecord : jobs.byKey job.id = some record)
    (h : initializeShipmentCursor q sha256 job now jobs = .ok (offset, jobs')) :
    owned job now record = true ∧ record.shipmentOffset = job.shipmentOffset ∧
      offset = job.shipmentOffset.getD 0 ∧ offset ≤ (job.shipmentIds.getD []).length ∧
      jobs'.byKey job.id = some { record with shipmentOffset := some offset } := by
  obtain ⟨⟨query, size⟩, hbinding, h⟩ := bind_ok h
  obtain ⟨hsize, hquery⟩ := shipmentCursorBinding_ok hbinding
  obtain ⟨hle, h⟩ := raiseIf_ok h
  obtain ⟨hmatched, h⟩ := raiseIf_ok h
  obtain ⟨rfl, rfl⟩ := Prod.mk.inj (pure_ok h)
  have hfilter := matched_byKey hrecord (fun stored hstored =>
    owned_id (hquery stored (Bool.and_eq_true_iff.mp hstored).1)) (not_not.mp hmatched)
  obtain ⟨hown, hoffset⟩ := Bool.and_eq_true_iff.mp hfilter
  refine ⟨hquery record hown, of_decide_eq_true hoffset, rfl, hsize ▸ not_lt.mp hle, ?_⟩
  rw [Collection.byKey_update, hrecord, Option.map_some, if_pos hfilter]

/-- An owned update of the document under its key. -/
theorem byKey_updateOwned {matched : Bool} {change : Job → Job}
    {keeps : ∀ job, (change job).id = job.id} (hrecord : jobs.byKey job.id = some record)
    (h : (matched, jobs') = updateOwned job now change keeps jobs) :
    jobs'.byKey job.id = some (if owned job now record then change record else record) := by
  rw [(Prod.mk.inj h).2, Collection.byKey_update, hrecord, Option.map_some]

/-- The cursor moves under the lease from where the worker is. -/
theorem checkpointShipmentCursor_ok {nextOffset : Nat} (hrecord : jobs.byKey job.id = some record)
    (h : q.checkpointShipmentCursor sha256 job index nextOffset now jobs = .ok (true, jobs')) :
    owned job now record = true ∧ record.shipmentOffset = some index ∧
      nextOffset ≤ (job.shipmentIds.getD []).length ∧
      jobs'.byKey job.id = some { record with shipmentOffset := some nextOffset } := by
  obtain ⟨⟨query, size⟩, hbinding, h⟩ := bind_ok h
  obtain ⟨hsize, hquery⟩ := shipmentCursorBinding_ok hbinding
  obtain ⟨hbounds, h⟩ := raiseIf_ok h
  obtain ⟨hmatched, rfl⟩ := Prod.mk.inj (pure_ok h)
  have hfilter := matched_byKey hrecord (fun stored hstored =>
    owned_id (hquery stored (Bool.and_eq_true_iff.mp hstored).1)) hmatched
  obtain ⟨hown, hoffset⟩ := Bool.and_eq_true_iff.mp hfilter
  refine ⟨hquery record hown, of_decide_eq_true hoffset, hsize ▸ (not_not.mp hbounds).2.1, ?_⟩
  rw [Collection.byKey_update, hrecord, Option.map_some, if_pos hfilter]

theorem mapError_ok {ε ε' α : Type} {f : ε → ε'} {x : Except ε α} {a : α}
    (h : x.mapError f = .ok a) : x = .ok a := by
  cases x with
  | error e => cases h
  | ok b => rw [Except.ok.inj h]

/-- What the transaction of a shipment makes of the job. -/
structure Settled (job : Job) (index : Nat) (acquired : Acquisition) (now : Time)
    (record record' : Job) : Prop where
  owned : owned job now record = true
  before : record.shipmentOffset = some index
  after : record'.shipmentOffset = some (following index acquired)
  bound : following index acquired ≤ (job.shipmentIds.getD []).length
  task : SameTask record record'
  token : record'.attemptToken = none ∨ record'.attemptToken = record.attemptToken
  completed : record'.state = .completed →
    following index acquired = (job.shipmentIds.getD []).length

theorem settleShipment_ok (hcatalog : job.catalogOffset = none) (hscope : job.inventoryScope = false)
    (hrecord : jobs.byKey job.id = some record)
    (h : settleShipment q sha256 job index acquired now finishNow jobs = .ok jobs') :
    ∃ record', jobs'.byKey job.id = some record' ∧
      Settled job index acquired now record record' := by
  obtain ⟨⟨moved, checkpointed⟩, hcheckpoint, h⟩ := bind_ok h
  obtain ⟨hmoved, hrest⟩ := raiseIf_ok h
  obtain rfl : moved = true := by simpa using hmoved
  obtain ⟨hown, hbefore, hbound, hkey⟩ :=
    checkpointShipmentCursor_ok hrecord (mapError_ok hcheckpoint)
  have hrunning : record.state = .running := by
    obtain ⟨-, -, -, hstate, -⟩ := owned_held le_rfl hown
    exact hstate
  dsimp only at hrest
  split at hrest
  · next hlast =>
      obtain ⟨⟨finished, settled⟩, hfinish, hsettled⟩ := bind_ok hrest
      obtain ⟨-, hsettled⟩ := raiseIf_ok hsettled
      obtain rfl := pure_ok hsettled
      obtain ⟨change, keeps, hupdate, hchange⟩ := finish_plain hcatalog hscope (mapError_ok hfinish)
      have hafter := byKey_updateOwned hkey hupdate
      split at hafter
      · obtain ⟨htask, htoken, hoffset, hcompleted⟩ :=
          hchange { record with shipmentOffset := some (following index acquired) }
        refine ⟨_, hafter, hown, hbefore, hoffset, hbound, ⟨htask.sellerId, htask.shipmentIds,
          htask.catalogOffset, htask.inventoryScope⟩, .inl htoken, fun hstate => ?_⟩
        -- Only a shipment that is not asked for again ends the job.
        have hretry : acquired.cost.retryPartial = false := by simpa using hcompleted.mp hstate
        rw [hretry, Bool.false_or] at hlast
        exact of_decide_eq_true hlast
      · exact ⟨_, hafter, hown, hbefore, rfl, hbound, ⟨rfl, rfl, rfl, rfl⟩, .inr rfl,
          fun hstate => by rw [show record.state = .completed from hstate] at hrunning; cases hrunning⟩
  · obtain rfl := pure_ok hrest
    exact ⟨_, hkey, hown, hbefore, rfl, hbound, ⟨rfl, rfl, rfl, rfl⟩, .inr rfl,
      fun hstate => by rw [show record.state = .completed from hstate] at hrunning; cases hrunning⟩

/-- What a committed transaction has found and left. -/
theorem publishShipment_ok {store store' : Store}
    (h : publishShipment q sha256 texts py job index identity acquired now finishNow store =
      .ok store') :
    settleShipment q sha256 job index acquired now finishNow store.jobs = .ok store'.jobs ∧
      ∃ document stored,
        canonicalShipmentDocument texts py (keepUnavailable acquired
          (store.shipments.findOne (ofSeller (.string identity) job.sellerId))) job.sellerId =
            .ok document ∧
        store'.shipments.findOne (ofSeller (.string identity) job.sellerId) = some stored ∧
        Doc.pyEq (Value.storedFields document) stored.doc = true := by
  obtain ⟨shipments, -, h⟩ := bind_ok h
  obtain ⟨document, hdocument, h⟩ := bind_ok h
  obtain ⟨hsame, h⟩ := raiseIf_ok h
  obtain ⟨jobs, hjobs, h⟩ := bind_ok h
  obtain rfl := pure_ok h
  obtain ⟨stored, hstored, heq⟩ := (Option.any_eq_true _ _).mp (not_not.mp hsame)
  exact ⟨hjobs, document, stored, hdocument, hstored, heq⟩

end

end ZelerPlatform.Recovery
