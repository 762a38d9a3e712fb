import Mathlib.Data.Prod.Lex
import Mathlib.Data.String.Basic
import ZelerPlatform.Acquisition.Subdivision
import ZelerPlatform.Imports.Segments
import ZelerPlatform.Recovery.Continuation

/-!
# The ranges of an acquisition

An enumeration that is too large for the source is divided. The ranges of a pass are documents of
their own: one of them is in hand, its bounds are asked for page by page, and a range with too
many orders is split in two before its first page is taken. A transaction of the range store
saves what a page brought, moves the range and the head on, and gives the job back. When no range
is left, the totals of the split ranges are compared with those of their halves.

Instants of ranges are in microseconds, those of heads and receipts in milliseconds.
-/

namespace ZelerPlatform.Acquisition

open Fallible Mongo
open Imports (Texts pyStr utc)
open Recovery (Db Evidence Head HistoryError Job Phase Queue Readings Receipt ReceiptKind Time
  checkedHead checkpoint current inScope memberships yieldPending)

inductive RangeState
  | pending
  | split
  | enumerated
  deriving DecidableEq, Repr

/-- A document of `sheets_history_order_ranges`; the fields of its node are `node`. -/
structure OrderRange where
  id : String
  acquisitionId : String
  sellerId : String
  generation : Nat
  passNumber : Nat
  node : OrderRangeNode
  state : RangeState
  sourceTotal : Option Nat
  nextOffset : Nat
  deriving DecidableEq, Repr

/-- What the model `SheetsHistoryOrderRange` checks of its fields. -/
def OrderRange.valid (range : OrderRange) : Bool :=
  !range.sellerId.isEmpty && range.sellerId.toList.all Char.isDigit
    && decide (1 ≤ range.generation ∧ 1 ≤ range.passNumber)
    && range.node.valid && range.node.parentId ≠ some range.node.nodeId
    && (match range.sourceTotal with
      | none => range.nextOffset = 0 && range.state = .pending
      | some total => decide (range.nextOffset ≤ total))
    && (range.state ≠ .split || range.nextOffset = 0 && range.sourceTotal ≠ some 0)
    && (range.state ≠ .enumerated || range.sourceTotal = some range.nextOffset)

abbrev Ranges := Collection OrderRange.id

/-- The documents of the history store with those of its ranges. -/
structure RangeDb where
  db : Db
  ranges : Ranges

/-- What a step of an acquisition of orders raises. -/
inductive OrderError
  | history (error : HistoryError)
  | drift (message : String)
  | value (message : String)
  | duplicateKey
  | overflow
  deriving DecidableEq, Repr

def OrderError.ofSubdivision : SubdivisionError → OrderError
  | .value message => .history (.value message)
  | .saturatedOrderHour message => .history (.limit message)
  | .historyLimit message => .history (.limit message)

def OrderError.conflict (message : String) : OrderError := .history (.conflict message)

def OrderError.limit (message : String) : OrderError := .history (.limit message)

/-- A `HistoryRangeStore` with what it is built on; its constructor checks the budget.
`rangeFits` is the limit on the size of a range document, `loads` reads a stored payload. -/
structure RangeStore where
  queue : Queue
  evidence : Evidence
  sha256 : String → String
  texts : Texts
  loads : String → Doc
  rangeFits : OrderRange → Bool
  resultBudget : Int
  positive : 1 ≤ resultBudget

def micros (t : Time) : Int := t * 1000

/-- The offset of the cursor of a head; orders have no scan cursors. -/
def offsetOf (head : Head) : Nat :=
  match head.nextCursor with
  | some (.offset n) => n
  | _ => 0

/-- `_scope`. -/
def rangeInScope (head : Head) (range : OrderRange) : Bool :=
  range.acquisitionId = head.id && range.generation = head.generation
    && range.passNumber = head.passNumber

/-- The node of all the bounds of an acquisition. -/
def rootNode (head : Head) : OrderRangeNode where
  nodeId := head.id
  rootId := head.id
  parentId := none
  dateFrom := micros head.dateFrom
  dateTo := micros head.dateTo
  depth := 0

namespace RangeStore

variable (store : RangeStore)

def rangeOf (head : Head) (node : OrderRangeNode) : OrderRange where
  id := store.sha256 (String.intercalate "\x00"
    [head.id, toString head.generation, toString head.passNumber, node.nodeId])
  acquisitionId := head.id
  sellerId := head.sellerId
  generation := head.generation
  passNumber := head.passNumber
  node := node
  state := .pending
  sourceTotal := none
  nextOffset := 0

/-- `_document` of a range. -/
def checkedRange (range : OrderRange) : Except OrderError OrderRange := do
  raiseIf (¬ range.valid) (.history (.value "invalid order range"))
  raiseIf (¬ store.rangeFits range) (.limit "whole document exceeds local byte budget")
  return range

/-- `_active`: the range in hand. -/
def active (head : Head) (ranges : Ranges) : Except OrderError OrderRange := do
  match ranges.findOne fun range => some range.id = head.activeRangeId && rangeInScope head range with
  | none => throw (.conflict "active range binding changed")
  | some range =>
      raiseIf (range.state ≠ .pending ∨ range.sellerId ≠ head.sellerId
          ∨ range.node.rootId ≠ head.id)
        (.conflict "active range binding changed")
      raiseIf (¬ range.valid) (.history (.value "invalid order range"))
      raiseIf (¬ (micros head.dateFrom ≤ range.node.dateFrom
          ∧ range.node.dateFrom < range.node.dateTo ∧ range.node.dateTo ≤ micros head.dateTo))
        (.conflict "active range escapes fixed bounds")
      raiseIf (range.nextOffset ≠ offsetOf head) (.conflict "active range checkpoint changed")
      return range

def insertRange (range : OrderRange) (ranges : Ranges) : Except OrderError Ranges :=
  (ranges.insert range).elim (throw .duplicateKey) pure

/-- `_split_node`. -/
def splitNode (head : Head) (parent : OrderRange) (observedTotal : Int) (ranges : Ranges) :
    Except OrderError (Head × Ranges) := do
  raiseIf (parent.nextOffset ≠ 0)
    (.conflict "partially acquired ranges require restart before splitting")
  let children ← (subdivideOrderRange store.sha256 parent.node observedTotal
    store.resultBudget).mapError OrderError.ofSubdivision
  match children with
  | [first, second] =>
      let first ← store.checkedRange (store.rangeOf head first)
      let second ← store.checkedRange (store.rangeOf head second)
      let ranges ← insertRange first ranges
      let ranges ← insertRange second ranges
      return ({ head with activeRangeId := some first.id, nextCursor := some (.offset 0) },
        ranges.update (fun range => range.id = parent.id)
          (fun range => { range with state := .split, sourceTotal := some observedTotal.toNat })
          fun _ => rfl)
  | _ => throw (.conflict "range is within local budget")

/-! ### What a transaction of the store does -/

/-- The change of the head, the receipts to store and the ranges. -/
abbrev Action := RangeDb → Except OrderError (Head × List Receipt × Ranges)

def startAction (head : Head) (observedTotal : Option Int) : Action := fun s => do
  raiseIf (head.activeRangeId ≠ none ∨ head.discoveredCount ≠ 0
      ∨ head.nextCursor ≠ none ∧ head.nextCursor ≠ some (.offset 0))
    (.conflict "range root requires untouched discovery")
  let root ← store.checkedRange (store.rangeOf head (rootNode head))
  let ranges ← insertRange root s.ranges
  match observedTotal with
  | some total =>
      let (head, ranges) ← store.splitNode head root total ranges
      return (head, [], ranges)
  | none =>
      return ({ head with activeRangeId := some root.id, nextCursor := some (.offset 0) }, [], ranges)

def splitAction (head : Head) (observedTotal : Int) : Action := fun s => do
  let parent ← active head s.ranges
  let (head, ranges) ← store.splitNode head parent observedTotal s.ranges
  return (head, [], ranges)

/-- The creation instant in the payload of a receipt. -/
def createdOf (receipt : Receipt) : Except OrderError Int :=
  let raw := (receipt.sourcePayload.map store.loads).getD []
  match store.texts.fromisoformat (pyStr store.texts (raw.getD "date_created")) with
  | none => throw (.history (.value "invalid isoformat string"))
  | some (_, none) => throw (.history (.value "datetime must be timezone-aware"))
  | some (clock, offset) => (utc clock offset).mapError fun _ => .overflow

/-- The checks of one receipt of a page. -/
def checkReceipt (head : Head) (node : OrderRangeNode) (receipts : Collection Receipt.id)
    (receipt : Receipt) : Except OrderError Unit := do
  let created ← store.createdOf receipt
  let inside := node.dateFrom ≤ created ∧ created < node.dateTo
  raiseIf (¬ (node.providerHours.1 ≤ created ∧ created < node.providerHours.2 + hour)
      ∨ receipt.kind ≠ (if inside then .membership else .exclusion)
      ∨ ¬ inside ∧ receipt.exclusionReason ≠ some "outside_requested_creation_interval")
    (.conflict "receipt does not match active range bounds")
  raiseIf (receipts.matched fun stored =>
      inScope head stored && stored.resourceId = receipt.resourceId)
    (.conflict "range page repeats acquired identity")

/-- `_check_split_totals`: a split range has two halves, which have its orders. -/
def checkSplitTotals (head : Head) (ranges : Ranges) : Except OrderError Unit :=
  let halves (range : OrderRange) := ranges.find fun half =>
    rangeInScope head half && half.node.parentId = some range.node.nodeId
  raiseIf (ranges.matched fun range => rangeInScope head range && range.state = .split
      && ((halves range).length ≠ 2
        || range.sourceTotal ≠ some (((halves range).filterMap OrderRange.sourceTotal).sum)))
    (.drift "subdivision source totals changed")

/-- The total of the enumerated ranges of a pass. -/
def enumeratedTotal (head : Head) (ranges : Ranges) : Nat :=
  ((ranges.find fun range => rangeInScope head range && range.state = .enumerated).filterMap
    OrderRange.sourceTotal).sum

/-- The bounds of observation after receipts. -/
def observed (head : Head) (receipts : List Receipt) : Head :=
  match receipts with
  | [] => head
  | first :: rest =>
      { head with
        observedFrom := some ((rest.map Receipt.observedAt ++ head.observedFrom.toList).foldl min
          first.observedAt)
        observedUntil := some ((rest.map Receipt.observedAt ++ head.observedUntil.toList).foldl max
          first.observedAt) }

/-- The head when no range is left. -/
def finished (head : Head) (ranges : Ranges) : Except OrderError Head := do
  checkSplitTotals head ranges
  return { head with
    phase := if head.phase = .verify then .verify else .hydrate
    sourceTotal := some (enumeratedTotal head ranges) }

/-- The range in hand after a page. -/
def nextRange (head : Head) (changed : OrderRange) (ranges : Ranges) : Option OrderRange :=
  if changed.state = .enumerated then
    ranges.findFirst (fun range => rangeInScope head range && range.state = .pending)
      fun range => toLex (range.node.dateFrom, range.node.nodeId)
  else some changed

/-- The range after a page of it. -/
def turned (range : OrderRange) (total next : Nat) : OrderRange :=
  { range with
    sourceTotal := some total
    nextOffset := next
    state := if next = total then .enumerated else .pending }

def pageAction (head : Head) (sourceTotal nextOffset : Int) (receipts : List Receipt)
    (verifyManifest : Option (Collection Receipt.id → Bool → Except OrderError Unit)) :
    Action := fun s => do
  let range ← active head s.ranges
  raiseIf (sourceTotal < 0 ∨ nextOffset < 0) (.history (.value "invalid order range"))
  let changed := turned range sourceTotal.toNat nextOffset.toNat
  raiseIf (¬ changed.valid) (.history (.value "invalid order range"))
  raiseIf (store.resultBudget < sourceTotal) (.limit "range exceeds local result budget")
  raiseIf (range.sourceTotal ≠ none ∧ range.sourceTotal ≠ some sourceTotal.toNat)
    (.drift "range total changed")
  raiseIf (nextOffset - range.nextOffset ≠ receipts.length) (.conflict "range page length changed")
  raiseIf (receipts = [] ∧ sourceTotal ≠ 0) (.conflict "empty range page makes no progress")
  receipts.forM (store.checkReceipt head range.node s.db.receipts)
  raiseIf (¬ store.rangeFits changed) (.limit "whole document exceeds local byte budget")
  let ranges := s.ranges.replace changed
  let next := nextRange head changed ranges
  let turned := { observed head receipts with
    activeRangeId := next.map OrderRange.id
    nextCursor := next.map fun range => .offset range.nextOffset
    discoveredCount := head.discoveredCount + memberships receipts }
  let turned ← if next.isNone then finished turned ranges else pure turned
  (verifyManifest.elim (pure ⟨⟩) fun verify => verify s.db.receipts next.isNone)
  return (turned, receipts, ranges)

/-- The bounds of observation after an answer. -/
def observedAt (head : Head) : Option Time → Head
  | none => head
  | some t =>
      { head with
        observedFrom := some (min t (head.observedFrom.getD t))
        observedUntil := some (max t (head.observedUntil.getD t)) }

/-- `_run`: one transaction. -/
def run (job : Job) (head : Head) (action : Head → Action) (observation : Option Time)
    (updatedAt : Time) (now : Readings) (s : RangeDb) : Except OrderError (Head × RangeDb) := do
  let head ← (checkedHead store.evidence head).mapError OrderError.history
  raiseIf (head.readModel ≠ .orders ∨ ¬ (head.phase = .discover ∨ head.phase = .verify))
    (.conflict "range store requires order discovery or verification")
  let (_, db) ← (current store.queue job head now.current s.db).mapError OrderError.history
  let (changed, receipts, ranges) ← action head ⟨db, s.ranges⟩
  let proposed ← (checkedHead store.evidence { observedAt changed observation with
    checkpointRevision := head.checkpointRevision + 1
    pageSequence := head.pageSequence + 1
    updatedAt }).mapError OrderError.history
  let (saved, db) ← (checkpoint store.queue store.evidence job head proposed receipts
    now.checkpoint now.fence db).mapError OrderError.history
  let jobs ← (yieldPending job saved 0 0 now.yieldAt db.jobs).mapError OrderError.history
  return (saved, ⟨{ db with jobs }, ranges⟩)

/-- `start`. -/
def start (job : Job) (head : Head) (observedTotal : Option Int) (observation : Option Time)
    (updatedAt : Time) (now : Readings) (s : RangeDb) : Except OrderError (Head × RangeDb) :=
  store.run job head (fun head => store.startAction head observedTotal) observation updatedAt now s

/-- `split`. -/
def split (job : Job) (head : Head) (observedTotal : Int) (observation : Option Time)
    (updatedAt : Time) (now : Readings) (s : RangeDb) : Except OrderError (Head × RangeDb) :=
  store.run job head (fun head => store.splitAction head observedTotal) observation updatedAt now s

/-- `page`. -/
def page (job : Job) (head : Head) (sourceTotal nextOffset : Int) (receipts : List Receipt)
    (verifyManifest : Option (Collection Receipt.id → Bool → Except OrderError Unit))
    (observation : Option Time) (updatedAt : Time) (now : Readings) (s : RangeDb) :
    Except OrderError (Head × RangeDb) := do
  raiseIf (receipts.length > 50) (.limit "range page exceeds local record budget")
  raiseIf (head.phase = .verify ∧ verifyManifest.isNone)
    (.conflict "verification requires manifest comparison")
  store.run job head (fun head => store.pageAction head sourceTotal nextOffset receipts
    verifyManifest) observation updatedAt now s

end RangeStore

end ZelerPlatform.Acquisition
