import ZelerPlatform.Library.PyValue
import ZelerPlatform.StockTime.Plan

/-!
# Writing the metrics of a sealed plan

Each action writes one row under a filter of its id, the interval and the revision it expects
there; a row that is kept is written twice, so that a concurrent writer of it is noticed. The rows
of the interval are read back and have to be the final metrics of the plan.
-/

namespace ZelerPlatform.StockTime

open Fallible Mongo

/-! ### Rows -/

/-- `re.fullmatch(r"[0-9]+", seller)`. -/
def isDigits (s : String) : Bool := !s.isEmpty && s.toList.all fun c => '0' ≤ c && c ≤ '9'

/-- The integers BSON has. -/
def fitsInt64 (n : Int) : Bool := -9223372036854775808 ≤ n && n ≤ 9223372036854775807

/-- The texts and numbers a seller is stored as. -/
def sellerValues (seller : String) : Except Raised (List Value) :=
  if isDigits seller then
    match intOfText seller with
    | some n => if fitsInt64 n then .ok [.string seller, .int n] else .error .other
    | none => .error .other
  else .ok [.string seller]

/-- The interval of a row, under one of some seller values. -/
def inInterval (sellers : List Value) (start stop : Int) (row : Doc) : Bool :=
  (sellers.any fun seller => eqMatches (row.get? "seller_id") seller.stored) &&
    Doc.matchesAll [("date_from", .date start), ("date_to", .date stop)] row

/-- `_metric_interval_query`, of the seller values of the binding. -/
def metricIntervalQuery (sellers : List Value) (binding : ForwardBinding) (row : Doc) : Bool :=
  inInterval sellers binding.dateFrom binding.dateTo row

/-- `_revision_state_guard`. -/
def revisionStateGuard (document : Option Doc) (row : Doc) : Bool :=
  match document.bind fun document => document.get? "revision" with
  | none => (row.get? "revision").isNone
  | some revision =>
      (row.get? "revision").isSome && eqMatches (row.get? "revision") revision.stored

/-- `_metric_cas_selector`. -/
def metricCasSelector (sellers : List Value) (binding : ForwardBinding) (action : StockTimeAction)
    (revisionDocument : Option Doc) (row : Doc) : Bool :=
  eqMatches (row.get? "_id") (.string action.targetId) &&
    metricIntervalQuery sellers binding row && revisionStateGuard revisionDocument row

/-! ### Writes -/

structure WriteResult where
  matchedCount : Nat
  modifiedCount : Nat
  upsertedId : Option Value

/-- `replace_one` over the rows in their order. An id can neither change nor come twice. -/
def replaceOne (selector : Doc → Bool) (replacement : Doc) (upsert : Bool) (rows : List Doc) :
    Except Raised (WriteResult × List Doc) :=
  let stored := (StoredDoc.ofDoc replacement).doc
  match rows.find? selector with
  | some row =>
      if row.getD "_id" = stored.getD "_id" then
        .ok (⟨1, if row = stored then 0 else 1, none⟩,
          rows.replaceF fun row => if selector row then some stored else none)
      else .error .other
  | none =>
      if !upsert then .ok (⟨0, 0, none⟩, rows)
      else if rows.any fun row => row.getD "_id" = stored.getD "_id" then .error .other
      else .ok (⟨0, 0, some (stored.getD "_id")⟩, rows ++ [stored])

section

variable (rt : Runtime) (sellers : List Value) (binding : ForwardBinding) (operationId : String)

def insertMetricCas (action : StockTimeAction) (rows : List Doc) : Except Raised (List Doc) := do
  let some document := action.document | throw (.engine .invalidAction)
  let (result, rows) ← replaceOne (metricCasSelector sellers binding action none)
    (desiredMetric rt operationId { action with action := .insert } document) true rows
  raiseIf (¬ (result.matchedCount = 0 ∧ result.upsertedId = some (.string action.targetId)))
    (.engine .preimageMismatch)
  return rows

def replaceMetricCas (action : StockTimeAction) (rows : List Doc) : Except Raised (List Doc) := do
  let (some document, some preimage) := (action.document, action.preimage)
    | throw (.engine .invalidAction)
  let (result, rows) ← replaceOne (metricCasSelector sellers binding action (some preimage))
    (desiredMetric rt operationId { action with action := .replace } document) false rows
  raiseIf (¬ (result.matchedCount = 1 ∧ result.modifiedCount = 1)) (.engine .preimageMismatch)
  return rows

def deleteMetricCas (action : StockTimeAction) (rows : List Doc) : Except Raised (List Doc) := do
  let some preimage := action.preimage | throw (.engine .invalidAction)
  let selector := metricCasSelector sellers binding action (some preimage)
  raiseIf (¬ rows.any selector) (.engine .preimageMismatch)
  return rows.eraseP selector

/-- The revision a row that is kept has in between. -/
def temporaryRevision (action : StockTimeAction) (preimage : Doc) : Value :=
  let revision (kind : String) : Value :=
    .string (operationRevision rt operationId metricCollection action.targetId kind)
  if (preimage.getD "revision").pyEq (revision "no-op") then revision "no-op-alternate"
  else revision "no-op"

def touchNoopMetricCas (action : StockTimeAction) (rows : List Doc) : Except Raised (List Doc) := do
  let some preimage := action.preimage | throw (.engine .invalidAction)
  let temporary := Doc.canonical
    (preimage.set "revision" (temporaryRevision rt operationId action preimage))
  let (touched, rows) ← replaceOne (metricCasSelector sellers binding action (some preimage))
    temporary false rows
  raiseIf (¬ (touched.matchedCount = 1 ∧ touched.modifiedCount = 1)) (.engine .preimageMismatch)
  let (restored, rows) ← replaceOne (metricCasSelector sellers binding action (some temporary))
    preimage.canonical false rows
  raiseIf (¬ (restored.matchedCount = 1 ∧ restored.modifiedCount = 1)) (.engine .preimageMismatch)
  return rows

/-- The helper of the action. -/
def writeMetric (action : StockTimeAction) (rows : List Doc) : Except Raised (List Doc) :=
  match action.action with
  | .insert => insertMetricCas rt sellers binding operationId action rows
  | .replace => replaceMetricCas rt sellers binding operationId action rows
  | .delete => deleteMetricCas sellers binding action rows
  | .noOp => touchNoopMetricCas rt sellers binding operationId action rows

end

/-- `_exact_preimages_match`: the same canonical bytes, in any order. -/
def exactPreimagesMatch (observed expected : List Doc) : Bool :=
  decide ((observed.map Doc.canonicalBson).Perm (expected.map Doc.canonicalBson))

/-- `_write_and_verify_forward_metrics`. -/
def writeAndVerifyForwardMetrics (rt : Runtime) (sealedPlan : SealedForwardPlan)
    (rows : List Doc) : Except Raised (List Doc) := do
  let binding := sealedPlan.binding
  let sellers ← sellerValues binding.sellerId
  let rows ← sealedPlan.actionPlan.actions.foldlM (fun rows action =>
    writeMetric rt sellers binding sealedPlan.operationId action rows) rows
  let observed := rows.filter (metricIntervalQuery sellers binding)
  raiseIf (¬ (exactPreimagesMatch observed sealedPlan.expectedMetricDocuments ∧
      metricProofFingerprint rt observed = sealedPlan.expectedMetricFingerprint))
    (.engine .preimageMismatch)
  return rows

/-- The rows of the interval that are left are the final metrics. -/
theorem writeAndVerify_rows {rt : Runtime} {sealedPlan : SealedForwardPlan} {rows left : List Doc}
    (h : writeAndVerifyForwardMetrics rt sealedPlan rows = .ok left) :
    ∃ sellers, sellerValues sealedPlan.binding.sellerId = .ok sellers ∧
      ((left.filter (metricIntervalQuery sellers sealedPlan.binding)).map Doc.canonicalBson).Perm
        (sealedPlan.expectedMetricDocuments.map Doc.canonicalBson) := by
  rw [writeAndVerifyForwardMetrics] at h
  obtain ⟨sellers, hsellers, h⟩ := bind_ok h
  obtain ⟨rows', -, h⟩ := bind_ok h
  obtain ⟨hmatch, h⟩ := raiseIf_ok h
  obtain rfl := pure_ok h
  exact ⟨sellers, hsellers, of_decide_eq_true (not_not.mp hmatch).1⟩

end ZelerPlatform.StockTime
