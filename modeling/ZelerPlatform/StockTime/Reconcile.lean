import ZelerPlatform.Imports.StockHours
import ZelerPlatform.Library.Binary64
import ZelerPlatform.Library.Dict
import ZelerPlatform.Library.Mongo.Equality
import ZelerPlatform.StockTime.Actions
import ZelerPlatform.StockTime.Writes

/-!
# The read-only plan of a reconciliation

`planStockTimeMetricsReconcile` builds the metrics of an interval from the histories that are
stored now and compares them with the stored rows, without writing. It looks at the account and
the histories first, and reports the counts of the comparison with the issues it found. It
compares whole documents, so that the revision a forward operation gave a row counts against it,
and it has no issue for rows that are not there yet.
-/

namespace ZelerPlatform.StockTime

open Fallible Mongo
open Imports (Texts ReadInterval StockTimeMetric WeekBucket BuildResult ImportError strOf pyStr
  itemIdOf stockTimeMetricDocuments)

/-! ### Metrics as documents -/

/-- `_decimal_to_bson_number`. -/
def decimalToBsonNumber (value : ℚ) : Value :=
  if value.den = 1 then .int value.num else .double (Binary64.toDouble value)

def optionalText : Option String → Value
  | some text => .string text
  | none => .null

def weekDocument (bucket : WeekBucket) : Value :=
  .document [("start_day", .int bucket.startDay), ("end_day", .int bucket.endDay),
    ("has_stock", .bool bucket.hasStock)]

/-- `_bson_safe_document` of a metric. -/
def metricDocument (metric : StockTimeMetric) : Doc :=
  [("_id", .string metric.id), ("seller_id", .string metric.sellerId),
    ("item_id", .string metric.itemId), ("sku", .string metric.sku),
    ("normalized_sku", .string metric.normalizedSku), ("title", optionalText metric.title),
    ("url", optionalText metric.url), ("date_from", .date metric.dateFrom),
    ("date_to", .date metric.dateTo),
    ("active_stock_hours", decimalToBsonNumber metric.activeStockHours),
    ("total_hours", decimalToBsonNumber metric.totalHours),
    ("active_stock_percent", decimalToBsonNumber metric.activeStockPercent),
    ("weeks", .array (metric.weeks.map weekDocument)), ("source", .string metric.source),
    ("history_basis", .string metric.historyBasis),
    ("coverage_basis", .string metric.coverageBasis),
    ("schema_version", .int metric.schemaVersion)]

/-! ### Reports -/

inductive IssueCode
  | sellerAccountMissing
  | sellerAccountAmbiguous
  | nonMlmEvidence
  | sourceHistoryIncomplete
  | validatorCountMismatch
  | exactIntervalStaleRows
  | exactIntervalExtraRows
  deriving DecidableEq, Repr

def IssueCode.text : IssueCode → String
  | .sellerAccountMissing => "seller_account_missing"
  | .sellerAccountAmbiguous => "seller_account_ambiguous"
  | .nonMlmEvidence => "non_mlm_evidence"
  | .sourceHistoryIncomplete => "source_history_incomplete"
  | .validatorCountMismatch => "validator_count_mismatch"
  | .exactIntervalStaleRows => "exact_interval_stale_rows"
  | .exactIntervalExtraRows => "exact_interval_extra_rows"

/-- `StockTimeMetricsReconcilePlan`. -/
structure ReconcilePlan where
  ready : Bool
  sourceInventoryCount : Nat
  validatorCount : Nat
  persistedExactCount : Nat
  matchingExactCount : Nat
  missingExactCount : Nat
  staleExactCount : Nat
  extraExactCount : Nat
  issueCodes : List String
  deriving DecidableEq, Repr

/-- What the planner raises: `TypeError`, for an id that cannot be a key of a dictionary, and
`OverflowError`, for a datetime or an integer that is out of range. -/
inductive PlanError
  | unhashable
  | overflow
  deriving DecidableEq, Repr

/-- The codes of a set of issues in their order. -/
def sortedCodes (issues : List IssueCode) : List String :=
  (issues.map IssueCode.text).dedup.insertionSort (· ≤ ·)

/-- `_stock_time_plan`. -/
def stockTimePlan (issues : List IssueCode) : ReconcilePlan :=
  ⟨false, 0, 0, 0, 0, 0, 0, 0, sortedCodes issues⟩

/-- The collections the planner reads. -/
structure ReconcileDb where
  meliAccounts : List Doc
  itemHistoryProjection : List Doc
  stockTimeMetrics : List Doc

/-! ### Accounts and histories -/

/-- `_int(seller_id)`. -/
def numericSeller (seller : String) : Option Int := (intOfText seller).filter (0 ≤ ·)

/-- The text and the number a seller is looked up by. -/
def sellerKeys (seller : String) : Except PlanError (List Value) :=
  match numericSeller seller with
  | none => .ok [.string seller]
  | some n => if fitsInt64 n then .ok [.string seller, .int n] else .error .overflow

/-- `find` of a filter of equalities. -/
def findAll (collection : List Doc) (filter : Doc) : List Doc := collection.filter filter.matchesAll

/-- `dict.fromkeys` over values. -/
def fromkeys (values : List Value) : List Value :=
  values.foldl (fun kept value => if kept.any (·.pyEq value) then kept else kept ++ [value]) []

def unhashable : Value → Bool
  | .array _ | .document _ => true
  | _ => false

def accountFields : List String := ["account_id", "_id", "meli_user_id"]

/-- The ids of the account. -/
def accountIdsOf (account : Doc) : Except PlanError (List Value) :=
  let values := (accountFields.map account.getD).filter (· ≠ .null)
  if values.any unhashable then .error .unhashable else .ok (fromkeys values)

/-- One issue if the condition holds. -/
def issueIf (condition : Bool) (issue : IssueCode) : List IssueCode :=
  if condition then [issue] else []

section

variable (texts : Texts)

/-- The id a document is told apart by, or its place. -/
def dedupeKey (index : Nat) (document : Doc) : String :=
  (strOf texts (document.getD "_id")).getD ("index:" ++ toString index)

/-- The documents from a place on whose keys have not been seen. -/
def dedupeFrom (index : Nat) (seen : List String) : List Doc → List Doc
  | [] => []
  | document :: rest =>
      let key := dedupeKey texts index document
      if key ∈ seen then dedupeFrom (index + 1) seen rest
      else document :: dedupeFrom (index + 1) (key :: seen) rest

/-- `_dedupe_documents`. -/
def dedupeDocuments (documents : List Doc) : List Doc := dedupeFrom texts 0 [] documents

/-- `_seller_accounts`. -/
def sellerAccounts (keys : List Value) (accounts : List Doc) : List Doc :=
  dedupeDocuments texts (keys.flatMap fun key => findAll accounts [("seller_id", key)])

/-- `_account_ids_have_other_owner`. -/
def accountIdsHaveOtherOwner (accounts : List Doc) (seller : String) (accountIds : List Value) :
    Bool :=
  accountIds.any fun id => accountFields.any fun field =>
    (findAll accounts [(field, id)]).any fun account =>
      strOf texts (account.getD "seller_id") ≠ some seller

/-- `_seller_scoped_documents`. -/
def sellerScopedDocuments (collection : List Doc) (keys accountIds : List Value) : List Doc :=
  let filters : List Doc := keys.map (fun key => [("seller_id", key)]) ++
    accountIds.flatMap fun id =>
      [("account_id", id)] ::
        (strOf texts id).toList.map fun text => [("account_id", .string text)]
  dedupeDocuments texts (filters.flatMap (findAll collection))

/-- `str(value or "")`. -/
def textOr (value : Value) : String := if value.truthy then pyStr texts value else ""

/-- `text.upper().startswith("MLM")`. -/
def isMlm (text : String) : Bool := "MLM".toList.isPrefixOf (texts.upper text).toList

/-- The issues a projection raises. -/
def projectionIssues (seller : String) (accountIds : List Value) (projection : Doc) :
    List IssueCode :=
  let otherSeller := (strOf texts (projection.getD "seller_id")).any (· ≠ seller)
  let otherAccount := (strOf texts (projection.getD "account_id")).any fun account =>
    account ∉ accountIds.map (pyStr texts)
  issueIf (otherSeller || otherAccount) .sellerAccountAmbiguous ++
    issueIf (!isMlm texts ((itemIdOf texts projection).getD "")) .nonMlmEvidence

/-- `_stock_time_document_is_valid`. -/
def stockTimeDocumentIsValid (interval : ReadInterval) (metric : StockTimeMetric) : Bool :=
  isMlm texts metric.itemId && metric.dateFrom = interval.start && metric.dateTo = interval.stop &&
    metric.source = "legacy_history_import" && metric.historyBasis = "legacy_imported" &&
    metric.coverageBasis = "legacy_imported" && metric.schemaVersion = 1 && 0 < metric.totalHours

/-- What the planner finds in the accounts and the histories: the issues, and unless the account
already stops it, the metrics. -/
def sourceEvidence (db : ReconcileDb) (seller : String) (interval : ReadInterval) :
    Except PlanError (List IssueCode × Option (BuildResult StockTimeMetric)) := do
  let keys ← sellerKeys seller
  match sellerAccounts texts keys db.meliAccounts with
  | [] => return ([.sellerAccountMissing], none)
  | [account] =>
      let accountIds ← accountIdsOf account
      let projections := sellerScopedDocuments texts db.itemHistoryProjection keys accountIds
      let result ← (stockTimeMetricDocuments texts seller projections interval).mapError
        fun _ => PlanError.overflow
      let validatorCount := result.documents.countP (stockTimeDocumentIsValid texts interval)
      let issues :=
        issueIf (texts.upper (pyStrip (textOr texts (account.getD "site_id"))) ≠ "MLM")
            .nonMlmEvidence ++
          issueIf (accountIdsHaveOtherOwner texts db.meliAccounts seller accountIds)
            .sellerAccountAmbiguous ++
          projections.flatMap (projectionIssues texts seller accountIds) ++
          issueIf (!result.coverageComplete) .sourceHistoryIncomplete ++
          issueIf (validatorCount ≠ result.documents.length ||
            result.documents.length ≠ result.sourceInventoryCount) .validatorCountMismatch
      return (issues, some result)
  | _ => return ([.sellerAccountAmbiguous], none)

/-! ### The comparison -/

/-- `_seller_exact_stock_rows`. -/
def sellerExactStockRows (rows : List Doc) (keys : List Value) (interval : ReadInterval) :
    List Doc :=
  dedupeDocuments texts
    (keys.flatMap fun key => rows.filter (inInterval [key] interval.start interval.stop))

/-- `planned_by_id`. -/
def plannedById (result : BuildResult StockTimeMetric) : List (String × Doc) :=
  Dict.ofPairs (result.documents.map fun metric => (metric.id, metricDocument metric))

/-- `existing_by_id`. -/
def existingById (rows : List Doc) : List (String × Doc) :=
  Dict.ofPairs (rows.map fun row => (pyStr texts (row.getD "_id"), row))

/-- The report of the metrics that are planned and the rows that are there. -/
def comparedPlan (interval : ReadInterval) (issues : List IssueCode)
    (result : BuildResult StockTimeMetric) (rows : List Doc) : ReconcilePlan :=
  let planned := plannedById result
  let existing := existingById texts rows
  let stale := planned.countP fun (key, document) =>
    (existing.lookup key).any fun row => !row.pyEq document
  let extra := existing.countP fun (key, _) => key ∉ planned.map Prod.fst
  let issues := issues ++ issueIf (stale ≠ 0) .exactIntervalStaleRows ++
    issueIf (extra ≠ 0) .exactIntervalExtraRows
  { ready := issues.isEmpty
    sourceInventoryCount := result.sourceInventoryCount
    validatorCount := result.documents.countP (stockTimeDocumentIsValid texts interval)
    persistedExactCount := rows.length
    matchingExactCount := planned.countP fun (key, document) =>
      (existing.lookup key).any fun row => row.pyEq document
    missingExactCount := planned.countP fun (key, _) => key ∉ existing.map Prod.fst
    staleExactCount := stale
    extraExactCount := extra
    issueCodes := sortedCodes issues }

/-- `plan_stock_time_metrics_reconcile`. -/
def planStockTimeMetricsReconcile (db : ReconcileDb) (sellerId : String)
    (interval : ReadInterval) : Except PlanError ReconcilePlan := do
  let seller := pyStrip sellerId
  let evidence ← sourceEvidence texts db seller interval
  match evidence with
  | (issues, none) => return stockTimePlan issues
  | (issues, some result) =>
      let keys ← sellerKeys seller
      return comparedPlan texts interval issues result
        (sellerExactStockRows texts db.stockTimeMetrics keys interval)

end

end ZelerPlatform.StockTime
