import Mathlib.Data.List.Sort
import Mathlib.Data.Multiset.Basic
import ZelerPlatform.Library.Fallible
import ZelerPlatform.Library.Mongo.Document

/-!
# Sealed forward plans

A forward operation replaces the stock-time metrics of one seller and one UTC interval. Its
plan lists the actions on the metrics, each with the document it writes and the preimage it
replaces. Sealing a plan recomputes it from its own documents, binds it to the marker it
finds and derives from it the identity of the operation, the revisions of the documents, the
ledger of preimages and the marker the operation will write.

`Runtime` is what the engine takes from its libraries: SHA-256 over canonical BSON bytes, the
sizes of encoded documents, `str` of values other than texts and numbers, and the server's
reading of a string that is an expression.
-/

namespace ZelerPlatform.StockTime

open Fallible Mongo

def readModel : String := "stock_time_metrics"

def metricCollection : String := "sheets_stock_time_metrics"

def markerCollection : String := "sheets_read_model_freshness"

def reconcileSource : String := "zelerdata_read_model_reconcile"

inductive ErrorCode
  | invalidSeller | invalidUtcInterval | invalidSha256 | invalidBsonInput | actionScopeMismatch
  | invalidAction | invalidAttemptToken | transactionRequired | invalidOperationSchema
  | operationMismatch | takeoverConflict | leaseConflict | fenceConflict | preimageMismatch
  | markerConflict | markerReadbackMismatch | commitConflict | commitReadbackMismatch
  | commitOutcomeUnknown | forwardContextInvalid | stateBlocked | rollbackBlocked
  deriving DecidableEq, Repr

/-- What a call of the engine raises: an engine error, the private signal that a target has
changed, or anything else, from the driver or from Python. -/
inductive Raised
  | engine (code : ErrorCode)
  | targetDrift
  | other
  deriving DecidableEq, Repr

/-- A string of `n` lower-case hexadecimal digits. -/
def isHex (n : Nat) (s : String) : Bool :=
  s.length == n && s.toList.all fun c => ('0' ≤ c && c ≤ '9') || ('a' ≤ c && c ≤ 'f')

def isSha (s : String) : Bool := isHex 64 s

def isAttemptToken (s : String) : Bool := isHex 32 s

structure Runtime where
  sha256 : Doc → String
  sha256Parts : List Doc → String
  sha256SortedParts : Multiset Doc → String
  bsonLength : Doc → Nat
  jsonLength : Doc → Nat
  str : Value → String
  expression : String → Option Value
  sha256_hex : ∀ doc, isSha (sha256 doc) = true

/-! ### Data -/

inductive Action
  | insert | replace | delete | noOp
  deriving DecidableEq, Repr

def Action.text : Action → String
  | insert => "insert"
  | replace => "replace"
  | delete => "delete"
  | noOp => "no-op"

structure StockTimeAction where
  action : Action
  targetId : String
  document : Option Doc
  preimage : Option Doc
  deriving DecidableEq

structure ActionPlan where
  actions : List StockTimeAction
  sourceFingerprint : String
  preimageFingerprint : String
  planFingerprint : String
  actionCount : Nat
  insertCount : Nat
  replaceCount : Nat
  deleteCount : Nat
  noOpCount : Nat
  preimageCount : Nat
  estimatedBsonBytes : Nat
  estimatedJsonBytes : Nat
  estimatedTransactionPayloadBytes : Nat
  deriving DecidableEq

/-- Bounds are in microseconds. -/
structure ForwardBinding where
  sellerId : String
  dateFrom : Int
  dateTo : Int
  sourceFingerprint : String
  planFingerprint : String

structure ForwardMutation where
  sequence : Nat
  targetCollection : String
  targetId : String
  action : Action
  document : Option Doc
  preimage : Option Doc
  preimageKind : String
  preimageFingerprint : String
  expectedForwardRevision : String

structure LedgerCounts where
  plannedInsertCount : Nat
  plannedUpdateCount : Nat
  plannedDeleteCount : Nat
  plannedPreimageCount : Nat

structure SealedForwardPlan where
  binding : ForwardBinding
  actionPlan : ActionPlan
  operationId : String
  markerAction : Action
  markerPreimage : Option Doc
  mutations : List ForwardMutation
  expectedMetricDocuments : List Doc
  desiredMarker : Doc
  expectedMetricFingerprint : String
  ledgerCounts : LedgerCounts

/-- A document, or null for none. -/
def optional : Option Doc → Value
  | some doc => .document doc
  | none => .null

def natural (n : Nat) : Value := .int n

def markerId (seller : String) : String := seller ++ ":" ++ readModel

/-! ### Digests -/

section

variable (rt : Runtime)

def digest (document : Doc) : String := rt.sha256 document.canonicalBson

/-- `str(value)`. -/
def str : Value → String
  | .string s => s
  | .int n | .long n => toString n
  | .bool b => if b then "True" else "False"
  | .null => "None"
  | v => rt.str v

def preimageRecordId (operationId : String) (sequence : Value) (collection target : String) : String :=
  digest rt [("domain", .string "zeler.stock-time-forward-preimage-record"), ("version", .int 1),
    ("operation_id", .string operationId), ("sequence", sequence),
    ("target_collection", .string collection), ("target_id", .string target)]

def operationRevision (operationId collection target action : String) : String :=
  digest rt [("domain", .string "zeler.stock-time-forward-revision"), ("version", .int 1),
    ("operation_id", .string operationId), ("target_collection", .string collection),
    ("target_id", .string target), ("action", .string action)]

def preimageKind (preimage : Option Doc) : String :=
  if preimage.isNone then "absent" else "exact_document"

def preimageFingerprint (preimage : Option Doc) : String :=
  digest rt [("domain", .string "zeler.stock-time-forward-preimage"), ("version", .int 1),
    ("preimage_kind", .string (preimageKind preimage)), ("preimage", optional preimage)]

/-- The documents in the order of their ids. -/
def sortedById (documents : List Doc) : List Doc :=
  documents.insertionSort fun a b => str rt (a.getD "_id") ≤ str rt (b.getD "_id")

def metricProofFingerprint (documents : List Doc) : String :=
  digest rt [("domain", .string "zeler.stock-time-forward-metric-proof"), ("version", .int 1),
    ("exact_final_metrics", .array ((sortedById rt documents).map .document))]

def operationIdOf (seller : Value) (dateFrom dateTo sourceFingerprint planFingerprint : Value) :
    String :=
  digest rt [("domain", .string "zeler.stock-time-forward-operation"), ("version", .int 1),
    ("seller_id", seller), ("date_from", dateFrom), ("date_to", dateTo),
    ("source_fingerprint", sourceFingerprint), ("plan_fingerprint", planFingerprint)]

/-! ### Action plans -/

/-- The canonical documents under their ids, which have to be trimmed texts. -/
def indexedCanonicalDocuments : List Doc → Option (List (String × Doc))
  | [] => some []
  | document :: rest => do
      let id ← (document.getD "_id").str?
      guard (pyStrip id ≠ "" ∧ id = pyStrip id)
      let indexed ← indexedCanonicalDocuments rest
      guard (id ∉ indexed.map Prod.fst)
      pure ((id, document.canonical) :: indexed)

def businessDocumentBytes (document : Doc) : Doc :=
  Doc.canonicalBson (document.filter fun field => field.1 != "revision")

def plannedAction (document preimage : Option Doc) : Action :=
  match document, preimage with
  | none, _ => .delete
  | some _, none => .insert
  | some document, some preimage =>
      if businessDocumentBytes document = businessDocumentBytes preimage then .noOp else .replace

def actionPayload (action : StockTimeAction) : Doc :=
  [("action", .string action.action.text), ("target_id", .string action.targetId),
    ("document", optional action.document), ("preimage", optional action.preimage)]

def maxActionRows : Nat := 1000

def maxTransactionPayloadBytes : Nat := 8 * 1024 * 1024

/-- `none` stands for the errors of the planner, which sealing does not tell apart. -/
def planStockTimeActions (sourceInventory plannedDocuments existingTargetRows : List Doc) :
    Option ActionPlan := do
  let planned ← indexedCanonicalDocuments plannedDocuments
  let existing ← indexedCanonicalDocuments existingTargetRows
  let targetIds :=
    (planned.map Prod.fst ++ existing.map Prod.fst).dedup.insertionSort (· ≤ ·)
  guard (targetIds.length ≤ maxActionRows)
  let actions := targetIds.map fun id =>
    let document := planned.lookup id
    let preimage := existing.lookup id
    ⟨plannedAction document preimage, id, document, preimage⟩
  let parts := actions.map fun action => (actionPayload action).canonicalBson
  let bsonBytes := (parts.map rt.bsonLength).sum
  let jsonBytes := (actions.map fun action => rt.jsonLength (actionPayload action)).sum
  guard (bsonBytes + jsonBytes ≤ maxTransactionPayloadBytes)
  let count (kind : Action) := actions.countP fun action => action.action = kind
  pure {
    actions
    sourceFingerprint := rt.sha256SortedParts (sourceInventory.map Doc.canonicalBson)
    preimageFingerprint := rt.sha256Parts
      ((existing.insertionSort fun a b => a.1 ≤ b.1).map fun row => row.2.canonicalBson)
    planFingerprint := rt.sha256Parts parts
    actionCount := actions.length
    insertCount := count .insert
    replaceCount := count .replace
    deleteCount := count .delete
    noOpCount := count .noOp
    preimageCount := actions.countP fun action => action.preimage.isSome
    estimatedBsonBytes := bsonBytes
    estimatedJsonBytes := jsonBytes
    estimatedTransactionPayloadBytes := bsonBytes + jsonBytes }

def StockTimeAction.canonical (action : StockTimeAction) : StockTimeAction :=
  { action with
    document := action.document.map Doc.canonical, preimage := action.preimage.map Doc.canonical }

/-- The plan recomputed from its documents. Dictionaries are equal whatever the order of
their keys, and the values of the two plans are the same objects. -/
def validatedActionPlan (sourceInventory : List Doc) (supplied : ActionPlan) :
    Except Raised ActionPlan :=
  match planStockTimeActions rt sourceInventory (supplied.actions.filterMap (·.document))
      (supplied.actions.filterMap (·.preimage)) with
  | none => .error (.engine .invalidAction)
  | some validated =>
      if { supplied with actions := supplied.actions.map (·.canonical) } = validated then
        .ok validated
      else .error (.engine .invalidAction)

/-! ### Materialised plans -/

def mutation (operationId : String) (sequence : Nat) (collection target : String) (action : Action)
    (document preimage : Option Doc) : ForwardMutation where
  sequence := sequence
  targetCollection := collection
  targetId := target
  action := action
  document := document
  preimage := preimage
  preimageKind := preimageKind preimage
  preimageFingerprint := preimageFingerprint rt preimage
  expectedForwardRevision := operationRevision rt operationId collection target action.text

/-- The document an action writes: the planned one under the revision of the operation. -/
def desiredMetric (operationId : String) (action : StockTimeAction) (document : Doc) : Doc :=
  Doc.canonical (document.set "revision"
    (.string (operationRevision rt operationId metricCollection action.targetId action.action.text)))

/-- The mutations of the actions, numbered from `sequence` on, and the final metrics. -/
def materializeActions (operationId : String) (sequence : Nat) :
    List StockTimeAction → Except Raised (List ForwardMutation × List Doc)
  | [] => .ok ([], [])
  | action :: rest =>
      match action.action, action.document, action.preimage with
      | .noOp, _, none => .error (.engine .invalidAction)
      | .noOp, _, some preimage => do
          let (mutations, final) ← materializeActions operationId sequence rest
          pure (mutations, preimage :: final)
      | .delete, _, preimage => do
          let (mutations, final) ← materializeActions operationId (sequence + 1) rest
          pure (mutation rt operationId sequence metricCollection action.targetId .delete none preimage
            :: mutations, final)
      | _, none, _ => .error (.engine .invalidAction)
      | kind, some document, preimage => do
          let desired := desiredMetric rt operationId action document
          let (mutations, final) ← materializeActions operationId (sequence + 1) rest
          pure (mutation rt operationId sequence metricCollection action.targetId kind (some desired)
            preimage :: mutations, desired :: final)

def desiredMarker (binding : ForwardBinding) (operationId : String) (markerAction : Action)
    (proof : String) : Doc :=
  Doc.canonical [("_id", .string (markerId binding.sellerId)), ("seller_id", .string binding.sellerId),
    ("read_model", .string readModel), ("state", .string "reconciled"),
    ("date_from", .date binding.dateFrom), ("fresh_until", .date binding.dateTo),
    ("reconciled_until", .date binding.dateTo), ("last_event_synced_at", .date binding.dateFrom),
    ("updated_at", .date binding.dateTo), ("source", .string reconcileSource),
    ("coverage_basis", .string "legacy_imported"),
    ("revision", .string (operationRevision rt operationId markerCollection
      (markerId binding.sellerId) markerAction.text)),
    ("proof_fingerprint", .string proof), ("schema_version", .int 1)]

def materializeForwardPlan (binding : ForwardBinding) (actionPlan : ActionPlan)
    (operationId : String) (markerAction : Action) (markerPreimage : Option Doc) :
    Except Raised SealedForwardPlan := do
  let (metrics, final) ← materializeActions rt operationId 1 actionPlan.actions
  let proof := metricProofFingerprint rt final
  let marker := desiredMarker rt binding operationId markerAction proof
  let mutations := metrics ++ [mutation rt operationId (metrics.length + 1) markerCollection
    (markerId binding.sellerId) markerAction (some marker) markerPreimage]
  let count (kind : Action) := mutations.countP fun mutation => mutation.action = kind
  pure {
    binding, actionPlan, operationId, markerAction, markerPreimage, mutations
    expectedMetricDocuments := final
    desiredMarker := marker
    expectedMetricFingerprint := proof
    ledgerCounts := ⟨count .insert, count .replace, count .delete, mutations.length⟩ }

/-! ### Sealing -/

/-- Which of document and preimage an action has. -/
def presence : Action → Bool × Bool
  | .insert => (true, false)
  | .replace => (true, true)
  | .delete => (false, true)
  | .noOp => (true, true)

/-- A document belongs to the target, the seller and the interval of its action. -/
def inScope (seller : String) (start stop : Int) (targetId : String) (document : Doc) : Bool :=
  (document.getD "_id").pyEq (.string targetId)
    && str rt (document.getD "seller_id") == seller
    && (document.getD "date_from").pyEq (.date start)
    && (document.getD "date_to").pyEq (.date stop)

def checkAction (seller : String) (start stop : Int) (action : StockTimeAction) :
    Except Raised Unit := do
  raiseIf ((action.document.isSome, action.preimage.isSome) ≠ presence action.action)
    (.engine .invalidAction)
  raiseIf (¬ (action.document.toList ++ action.preimage.toList).all
    (inScope rt seller start stop action.targetId)) (.engine .actionScopeMismatch)

def markerInScope (seller : String) (prior : Doc) : Bool :=
  (prior.getD "_id").pyEq (.string (markerId seller))
    && str rt (prior.getD "seller_id") == seller
    && (prior.getD "read_model").pyEq (.string readModel)

def sealForwardPlan (sellerId : String) (dateFrom dateTo : Int) (sourceInventory : List Doc)
    (actionPlan : ActionPlan) (markerPreimage : Option Doc) : Except Raised SealedForwardPlan := do
  let seller := pyStrip sellerId
  raiseIf (seller = "") (.engine .invalidSeller)
  raiseIf (dateTo ≤ dateFrom) (.engine .invalidUtcInterval)
  raiseIf (¬ (isSha actionPlan.sourceFingerprint ∧ isSha actionPlan.preimageFingerprint
    ∧ isSha actionPlan.planFingerprint)) (.engine .invalidSha256)
  let prior := markerPreimage.map Doc.canonical
  raiseIf (prior.any fun prior => !markerInScope rt seller prior) (.engine .actionScopeMismatch)
  let _ ← actionPlan.actions.mapM (checkAction rt seller dateFrom dateTo)
  let validated ← validatedActionPlan rt sourceInventory actionPlan
  let sealedFingerprint := digest rt [("domain", .string "zeler.stock-time-forward-plan"),
    ("version", .int 1), ("action_plan_fingerprint", .string validated.planFingerprint),
    ("marker_preimage", optional prior)]
  let binding : ForwardBinding :=
    ⟨seller, dateFrom, dateTo, validated.sourceFingerprint, sealedFingerprint⟩
  let operationId := operationIdOf rt (.string seller) (.date dateFrom) (.date dateTo)
    (.string binding.sourceFingerprint) (.string binding.planFingerprint)
  materializeForwardPlan rt binding validated operationId
    (if prior.isSome then .replace else .insert) prior

end

end ZelerPlatform.StockTime
