import ZelerPlatform.Acquisition.Ranges
import ZelerPlatform.Library.Run
import ZelerPlatform.Recovery.Shipments

/-!
# The discovery of an acquisition

A worker that has a claimed job asks the source for the next page of the range in hand, or of all
the bounds where nothing was divided, and saves its orders as receipts: memberships for those
created in the bounds, exclusions for those of the same hours outside of them. A second pass
verifies the first one and compares page by page. Any number of workers do so at a time; each of
their reads and transactions is one step.
-/

namespace ZelerPlatform.Acquisition

open Fallible Mongo Transition
open Imports (Texts pyStr utc zuluReplaced)
open Recovery (Db Evidence Head HistoryError Job Phase Queue Readings Receipt ReceiptKind Time
  ReleaseReason current inScope isAsciiDecimal memberships progress release)

/-- A `HistoryOrdersProducer` with its store. `dumps` is the text under which a payload is
stored, `pageFits` the limit on the size of an answer. -/
structure OrdersProducer extends RangeStore where
  fingerprint : Doc → String
  dumps : Doc → String
  pageFits : Value → Bool

/-- `datetime.isoformat(timespec="milliseconds")` of a UTC datetime. -/
def isoformatMilliseconds (t : Time) : String :=
  .ofList ((isoformatMicroseconds (micros t)).toList.take 23) ++ "+00:00"

/-- An answer of the source that was accepted. -/
inductive Answer
  | divide (total : Int)
  | page (total : Int) (receipts : List Receipt)

namespace OrdersProducer

variable (producer : OrdersProducer)

/-- `_date`. -/
def date : Value → Except OrderError Time
  | .string text =>
      match producer.texts.fromisoformat (zuluReplaced text) with
      | none => throw (.value "invalid isoformat string")
      | some (_, none) => throw (.value "question date timezone unavailable")
      | some (clock, offset) => do
          let instant ← (utc clock offset).mapError fun _ => .overflow
          return instant / 1000
  | _ => throw (.value "question date unavailable")

/-- `_version`. -/
def version (resource : Doc) : Except OrderError (Option String) :=
  match resource.getD "date_last_updated" with
  | .null => pure none
  | value => do return some (isoformatMilliseconds (← producer.date value))

/-- `_receipt` of an order that a search has found. -/
def receiptOf (head : Head) (identity : String) (inside : Bool) (row : Doc)
    (sourceVersion : Option String) (observedAt : Time) : Receipt where
  id := producer.sha256 (String.intercalate "\x00" [head.id, toString head.generation,
    toString head.passNumber, if inside then "membership" else "exclusion", identity])
  acquisitionId := head.id
  sellerId := head.sellerId
  readModel := .orders
  generation := head.generation
  passNumber := head.passNumber
  pageSequence := head.pageSequence + 1
  kind := if inside then .membership else .exclusion
  resourceId := identity
  observedAt := observedAt
  sourceVersion := sourceVersion
  sourceHash := some (producer.fingerprint row)
  sourcePayload := some (producer.dumps row)
  payloadHash := none
  payload := none
  unavailableFields := []
  exclusionReason := if inside then none else some "outside_requested_creation_interval"

/-- The owner of a row is not stated, or it is the seller. -/
def ownedBy (sellerId : String) (owner : Value) : Bool :=
  owner = .null || pyStr producer.texts owner = sellerId

/-- One row of a search over the hours of some bounds. -/
def readRow (head : Head) (bounds : OrderRangeNode) (observedAt : Time) (seen : List String)
    (row : Value) : Except OrderError Receipt := do
  let .document row := row | throw (.value "order search row is not an object")
  let identity := pyStr producer.texts (Doc.getD row "id")
  raiseIf (¬ isAsciiDecimal identity) (.value "invalid order identity")
  raiseIf (identity ∈ seen) (.drift "order page repeats an identity")
  let created ← producer.date (Doc.getD row "date_created")
  let seller := (Doc.getD row "seller").document?.elim .null fun seller => seller.getD "id"
  raiseIf (¬ (producer.ownedBy head.sellerId (Doc.getD row "seller_id")
      ∧ producer.ownedBy head.sellerId seller))
    (.value "order search seller mismatch")
  raiseIf (¬ (bounds.providerHours.1 ≤ micros created
      ∧ micros created < bounds.providerHours.2 + hour))
    (.value "order lies outside queried creation hours")
  let inside := decide (bounds.dateFrom ≤ micros created ∧ micros created < bounds.dateTo)
  let sourceVersion ← producer.version row
  return producer.receiptOf head identity inside row sourceVersion observedAt

def readRows (head : Head) (bounds : OrderRangeNode) (observedAt : Time) :
    List String → List Value → Except OrderError (List Receipt)
  | _, [] => pure []
  | seen, row :: rest => do
      let receipt ← producer.readRow head bounds observedAt seen row
      let receipts ← readRows head bounds observedAt (receipt.resourceId :: seen) rest
      return receipt :: receipts

/-- The bounds a worker asks for: those of the range in hand, or all. -/
def bounds (head : Head) (range : Option OrderRange) : OrderRangeNode :=
  range.elim (rootNode head) OrderRange.node

/-- What `_discover` makes of an answer. -/
def readPage (head : Head) (range : Option OrderRange) (observedAt : Time) (page : Value) :
    Except OrderError Answer := do
  let .document page := page | throw (.value "order page lacks pagination")
  let .document paging := Doc.getD page "paging" | throw (.value "order page lacks pagination")
  let .int total := Doc.getD paging "total" | throw (.value "invalid order total")
  raiseIf (total < 0) (.value "invalid order total")
  raiseIf (¬ producer.pageFits (.document page))
    (.limit "creation interval needs a bounded enumeration strategy")
  let expected := range.elim head.sourceTotal OrderRange.sourceTotal
  raiseIf (expected.any fun expected => total ≠ expected) (.drift "order total changed")
  let .array rows := Doc.getD page "results" | throw (.value "invalid order page length")
  raiseIf (50 < rows.length ∨ total < offsetOf head + rows.length)
    (.value "invalid order page length")
  if producer.resultBudget < total then
    return .divide total
  else do
    raiseIf (rows = [] ∧ total ≠ offsetOf head)
      (.drift "order enumeration ended before its observed total")
    let receipts ← producer.readRows head (bounds head range) observedAt [] rows
    return .page total receipts

/-- A staged order of a pass. -/
def staged (receipt : Receipt) : Bool := receipt.kind = .membership || receipt.kind = .exclusion

/-- The search for orders of a page among those the pass has. -/
def repeats (head : Head) (receipts : List Receipt) (stored : Collection Receipt.id) : Bool :=
  stored.matched fun other => inScope head other && staged other
    && other.resourceId ∈ receipts.map Receipt.resourceId

/-- A staged order of the pass before. -/
def baseline (head : Head) (receipt : Receipt) : Bool :=
  receipt.acquisitionId = head.id && receipt.generation = head.generation
    && receipt.passNumber + 1 = head.passNumber && staged receipt

/-- The fields in which a verified order agrees with the order it verifies. -/
def agrees (original receipt : Receipt) : Bool :=
  original.kind = receipt.kind && original.sourceVersion = receipt.sourceVersion
    && original.sourceHash = receipt.sourceHash
    && original.exclusionReason = receipt.exclusionReason

/-- `_compare_manifest`. -/
def compareManifest (head : Head) (receipts : List Receipt) (stored : Collection Receipt.id)
    (final : Bool) : Except OrderError Unit := do
  receipts.forM fun receipt =>
    raiseIf (((stored.findOne fun original =>
        baseline head original && original.resourceId = receipt.resourceId).all fun original =>
          ¬ agrees original receipt) = true)
      (.drift "verification manifest identity or source changed")
  raiseIf (final ∧ (stored.matched fun original =>
      baseline head original && original.resourceId ∉ receipts.map Receipt.resourceId
        && !(stored.matched fun other => inScope head other
          && other.resourceId = original.resourceId && other.kind = original.kind)) = true)
    (.drift "verification manifest omits prior identities")

/-- The head after a page of bounds that are not divided. -/
def undivided (head : Head) (total : Int) (receipts : List Receipt) (observedAt updatedAt : Time) :
    Head :=
  let next := offsetOf head + receipts.length
  { head with
    checkpointRevision := head.checkpointRevision + 1
    pageSequence := head.pageSequence + 1
    updatedAt
    observedFrom := some (head.observedFrom.getD observedAt)
    observedUntil := some observedAt
    sourceTotal := some total.toNat
    discoveredCount := head.discoveredCount + memberships receipts
    nextCursor := if next = total then none else some (.offset next)
    phase := if head.phase = .verify then .verify else if next = total then .hydrate else .discover }

/-- `_save` of a page of bounds that are not divided. -/
def save (job : Job) (head : Head) (total : Int) (receipts : List Receipt)
    (observedAt updatedAt : Time) (now : Readings) (s : RangeDb) :
    Except OrderError (Head × RangeDb) := do
  let (saved, db) ← (progress producer.queue producer.evidence job head
    (undivided head total receipts observedAt updatedAt) receipts now s.db).mapError
      OrderError.history
  return (saved, { s with db })

/-- The comparison that verifies a page of a range in its transaction. -/
def verification (head : Head) (receipts : List Receipt) :
    Option (Collection Receipt.id → Bool → Except OrderError Unit) :=
  if head.phase = .verify then some (compareManifest head receipts) else none

end OrdersProducer

/-! ### Workers side by side -/

/-- Where a worker is in `step`. -/
inductive OrdersPhase
  | idle
  | opened (job : Job) (head : Head)
  | asking (job : Job) (head : Head) (range : Option OrderRange)
  | dividing (job : Job) (head : Head) (range : Option OrderRange) (total : Int)
      (observedAt : Time)
  | answered (job : Job) (head : Head) (range : Option OrderRange) (total : Int)
      (receipts : List Receipt) (observedAt : Time)
  | unseen (job : Job) (head : Head) (range : Option OrderRange) (total : Int)
      (receipts : List Receipt) (observedAt : Time)
  | compared (job : Job) (head : Head) (total : Int) (receipts : List Receipt) (observedAt : Time)

/-- The job and the head a worker has in hand. -/
def OrdersPhase.inHand : OrdersPhase → Option (Job × Head)
  | idle => none
  | opened job head => some (job, head)
  | asking job head _ => some (job, head)
  | dividing job head _ _ _ => some (job, head)
  | answered job head _ _ _ _ => some (job, head)
  | unseen job head _ _ _ _ => some (job, head)
  | compared job head _ _ _ => some (job, head)

/-- A head whose enumeration goes on. -/
def enumerating (head : Head) : Bool :=
  head.readModel = .orders
    && (head.phase = .discover || head.phase = .verify && head.nextCursor.isSome)

/-- What an answer says of the orders the source has in some hours. -/
inductive OrdersEvent
  | answered (head : Head) (bounds : OrderRangeNode) (page : Value)
  | worker
  | outside

section

variable (producer : OrdersProducer)

/-- One step of a worker. A worker that fails in any way is idle again. -/
inductive OrdersMove : OrdersPhase → RangeDb → OrdersEvent → OrdersPhase → RangeDb → Prop
  | open {s job head now claimed db} (going : enumerating head = true)
      (h : current producer.queue job head now s.db = .ok (claimed, db)) :
      OrdersMove .idle s .worker (.opened job head) { s with db }
  | readAll {s job head} (h : head.activeRangeId = none) :
      OrdersMove (.opened job head) s .worker (.asking job head none) s
  | readRange {s job head range} (inHand : head.activeRangeId.isSome)
      (h : RangeStore.active head s.ranges = .ok range) :
      OrdersMove (.opened job head) s .worker (.asking job head (some range)) s
  | divide {s job head range page total observedAt}
      (h : producer.readPage head range observedAt page = .ok (.divide total)) :
      OrdersMove (.asking job head range) s
        (.answered head (OrdersProducer.bounds head range) page)
        (.dividing job head range total observedAt) s
  | answer {s job head range page total receipts observedAt}
      (h : producer.readPage head range observedAt page = .ok (.page total receipts)) :
      OrdersMove (.asking job head range) s
        (.answered head (OrdersProducer.bounds head range) page)
        (.answered job head range total receipts observedAt) s
  | search {s job head range total receipts observedAt}
      (h : OrdersProducer.repeats head receipts s.db.receipts = false) :
      OrdersMove (.answered job head range total receipts observedAt) s .worker
        (.unseen job head range total receipts observedAt) s
  | compare {s job head total receipts observedAt} (verifying : head.phase = .verify)
      (h : OrdersProducer.compareManifest head receipts s.db.receipts
        (offsetOf head + receipts.length = total) = .ok ⟨⟩) :
      OrdersMove (.unseen job head none total receipts observedAt) s .worker
        (.compared job head total receipts observedAt) s
  | saveFirst {s s' job head total receipts observedAt updatedAt now saved}
      (first : head.phase ≠ .verify)
      (h : producer.save job head total receipts observedAt updatedAt now s = .ok (saved, s')) :
      OrdersMove (.unseen job head none total receipts observedAt) s .worker .idle s'
  | saveCompared {s s' job head total receipts observedAt updatedAt now saved}
      (h : producer.save job head total receipts observedAt updatedAt now s = .ok (saved, s')) :
      OrdersMove (.compared job head total receipts observedAt) s .worker .idle s'
  | savePage {s s' job head range total receipts observedAt updatedAt now saved}
      (h : producer.page job head total (offsetOf head + receipts.length) receipts
        (OrdersProducer.verification head receipts) (some observedAt) updatedAt now s =
          .ok (saved, s')) :
      OrdersMove (.unseen job head (some range) total receipts observedAt) s .worker .idle s'
  | start {s s' job head total observedAt updatedAt now saved}
      (h : producer.start job head (some total) (some observedAt) updatedAt now s =
        .ok (saved, s')) :
      OrdersMove (.dividing job head none total observedAt) s .worker .idle s'
  | split {s s' job head range total observedAt updatedAt now saved}
      (h : producer.split job head total (some observedAt) updatedAt now s = .ok (saved, s')) :
      OrdersMove (.dividing job head (some range) total observedAt) s .worker .idle s'
  | release {phase s job head reason now saved db} (h : phase.inHand = some (job, head))
      (released : release producer.queue producer.evidence job head reason now s.db =
        .ok (saved, db)) :
      OrdersMove phase s .worker .idle { s with db }
  | fail {phase s} : OrdersMove phase s .worker .idle s

end

end ZelerPlatform.Acquisition
