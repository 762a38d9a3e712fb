import ZelerPlatform.Repricer.CatalogRules
import ZelerPlatform.Repricer.Engine

/-!
# Bulk jobs of catalog rules

`validate_upload` judges the rows of a CSV text and stores them with their job; `process_job` puts
the rule of each validated row into the database, marks the row as processed and closes the job at
the end. Each call to Mongo is one atomic operation, and a job may be left after any of them and
processed again. The rows are taken as parsed, and the digest in a job's id as given. Times of rows
and jobs are left out.
-/

namespace ZelerPlatform.Repricer

open Mongo Transition Transition.Program

inductive RowStatus
  | validated
  | queued
  | processed
  | failed
  | skipped
  deriving DecidableEq, Repr

inductive JobStatus
  | draft
  | validated
  | processing
  | completed
  | completedWithErrors
  | failed
  deriving DecidableEq, Repr

/-- `RepricerBulkRow`. -/
structure BulkRow where
  id : String
  sellerId : String
  accountId : String
  jobId : String
  rowNumber : Nat
  status : RowStatus
  itemId : Option String
  payload : Doc
  errorCode : Option String
  errorMessage : Option String
  deriving DecidableEq

/-- `RepricerBulkJob`. -/
structure BulkJob where
  id : String
  sellerId : String
  accountId : String
  status : JobStatus
  sourceFilename : String
  totalRows : Nat
  processedRows : Nat
  successRows : Nat
  failedRows : Nat
  createdBy : String
  deriving DecidableEq

structure Store where
  rules : Rules
  jobs : Collection BulkJob.id
  rows : Collection BulkRow.id

/-- A call of the service. -/
abbrev Call (A : Type) := ExceptT RepricerError (Program Unit Store) A

section

variable {A : Type}

def lift (x : Except RepricerError A) : Call A := ExceptT.mk (pure x)

/-- One operation. -/
def atomically (f : Store → Except RepricerError A × Store) : Call A := ExceptT.mk (act () f)

def find (f : Store → A) : Call A := atomically fun s => (.ok (f s), s)

/-- A write to the rules. -/
def writeRules (f : Rules → Except RepricerError (A × Rules)) : Call A :=
  atomically fun s =>
    match f s.rules with
    | .ok (a, rules) => (.ok a, { s with rules })
    | .error error => (.error error, s)

end

/-! ### Rows -/

/-- A parsed row of the CSV text. -/
abbrev RawRow := List (String × String)

/-- `raw_row.get(key, default)`. -/
def RawRow.get (raw : RawRow) (key default : String) : String := (raw.lookup key).getD default

/-- `raw_row.get(key) or None`. -/
def RawRow.get? (raw : RawRow) (key : String) : Option String := (raw.lookup key).filter (· ≠ "")

/-- A character as `str.casefold` has it, where that is ASCII letters; other characters, no part of
a word that is looked for, are left as they are. -/
def casefoldChar (c : Char) : List Char :=
  if c = 'ſ' then ['s']
  else if c = 'K' then ['k']
  else if c = 'ß' ∨ c = 'ẞ' then ['s', 's']
  else if c = 'ﬀ' then ['f', 'f']
  else if c = 'ﬁ' then ['f', 'i']
  else if c = 'ﬂ' then ['f', 'l']
  else if c = 'ﬃ' then ['f', 'f', 'i']
  else if c = 'ﬄ' then ['f', 'f', 'l']
  else if c = 'ﬅ' ∨ c = 'ﬆ' then ['s', 't']
  else [c.toLower]

/-- `_parse_bool`. -/
def parseBool (value : String) : Bool :=
  String.ofList ((pyStrip value).toList.flatMap casefoldChar) ∉ ["false", "0", "no", "inactive"]

def optionalText : Option String → Value
  | some text => .string text
  | none => .null

/-- The payload of a row. -/
def payloadOf (raw : RawRow) (accountId : String) : Doc :=
  [("account_id", .string ((raw.get? "account_id").getD accountId)),
    ("item_id", .string (raw.get "item_id" "")), ("title", optionalText (raw.get? "title")),
    ("sku", optionalText (raw.get? "sku")), ("strategy", .string (raw.get "strategy" "")),
    ("min_price", .string (raw.get "min_price" "")),
    ("max_price", .string (raw.get "max_price" "")),
    ("active", .bool (parseBool (raw.get "active" "true")))] ++
  match raw.get? "ally_account_id" with
  | some ally => [("ally_account_id", .string ally)]
  | none => []

def requiredFields : List String := ["item_id", "strategy", "min_price", "max_price"]

/-- An error of a row: its code and its message. -/
abbrev RowError := String × String

/-- The checks before the prices are read. -/
def preliminaryError (raw : RawRow) (rowNumber : Nat) (accountId : String) : Option RowError :=
  match requiredFields.find? fun field => raw.get field "" = "" with
  | some field => some ("missing_required_field", s!"Row {rowNumber} missing {field}")
  | none =>
      if (raw.get? "account_id").getD accountId ≠ accountId then
        some ("account_mismatch", s!"Row {rowNumber} account_id does not match the job")
      else if raw.get "strategy" "" ∉ strategies then
        some ("invalid_strategy", s!"Row {rowNumber} strategy is not supported")
      else none

/-- `a < b` of two prices. -/
def priceLt (a b : Decimal) : Except RepricerError Bool :=
  match a.lt b with
  | .ok less => .ok less
  | .error _ => .error .invalidOperation

/-- The check of the limits. -/
def limitsError (rowNumber : Nat) (limits : Option RepricerLimits) (minPrice maxPrice : Decimal) :
    Except RepricerError (Option RowError) :=
  match inForce limits with
  | none => pure none
  | some limits => do
      if ← priceLt minPrice (.finite limits.minPriceLimit) then
        pure (some ("min_price_below_limit",
          s!"Row {rowNumber} min_price is below the configured limit"))
      else if ← priceLt (.finite limits.maxPriceLimit) maxPrice then
        pure (some ("max_price_above_limit",
          s!"Row {rowNumber} max_price is above the configured limit"))
      else pure none

/-- The check of the ally. -/
def allyError (raw : RawRow) (rowNumber : Nat) (allies : Option RepricerAllies) :
    Option RowError :=
  match raw.get? "ally_account_id", allies with
  | some ally, some allies =>
      if ally ∈ allies.accountIds then none
      else some ("unknown_ally_account", s!"Row {rowNumber} references an unknown ally")
  | _, _ => none

/-- The checks of the prices and of the ally. -/
def bandError (raw : RawRow) (rowNumber : Nat) (limits : Option RepricerLimits)
    (allies : Option RepricerAllies) (minPrice maxPrice : Decimal) :
    Except RepricerError (Option RowError) := do
  if ← priceLt maxPrice minPrice then
    return some ("min_price_above_max_price", s!"Row {rowNumber} min_price is above max_price")
  else match ← limitsError rowNumber limits minPrice maxPrice with
    | some error => return some error
    | none => return allyError raw rowNumber allies

/-- `_normalize_bulk_row`; the payload is `payloadOf`. -/
def normalizeBulkRow (raw : RawRow) (rowNumber : Nat) (accountId : String)
    (limits : Option RepricerLimits) (allies : Option RepricerAllies) :
    Except RepricerError (Option RowError) :=
  match preliminaryError raw rowNumber accountId with
  | some error => .ok (some error)
  | none =>
      match Decimal.ofText (raw.get "min_price" ""), Decimal.ofText (raw.get "max_price" "") with
      | some minPrice, some maxPrice => bandError raw rowNumber limits allies minPrice maxPrice
      | _, _ => .ok (some ("invalid_price", s!"Row {rowNumber} has an invalid decimal price"))

/-- An upload: its seller, account and job, and what it is judged by. -/
structure Upload where
  sellerId : String
  accountId : String
  jobId : String
  limits : Option RepricerLimits
  allies : Option RepricerAllies
  sourceFilename : String
  operatorId : String
  raws : List RawRow

/-- `_validate_row`. -/
def Upload.validateRow (upload : Upload) (raw : RawRow) (rowNumber : Nat) :
    Except RepricerError BulkRow := do
  let error ← normalizeBulkRow raw rowNumber upload.accountId upload.limits upload.allies
  return {
    id := upload.jobId ++ "-row-" ++ toString rowNumber
    sellerId := upload.sellerId
    accountId := upload.accountId
    jobId := upload.jobId
    rowNumber
    status := if error.isSome then .failed else .validated
    itemId := some (raw.get "item_id" "")
    payload := payloadOf raw upload.accountId
    errorCode := error.map Prod.fst
    errorMessage := error.map Prod.snd }

/-- The rows of an upload; the first one after the header is the second. -/
def Upload.rows (upload : Upload) : Except RepricerError (List BulkRow) :=
  (upload.raws.zipIdx 2).mapM fun row => upload.validateRow row.1 row.2

/-- The job of an upload with its rows. -/
def Upload.job (upload : Upload) (rows : List BulkRow) : BulkJob where
  id := upload.jobId
  sellerId := upload.sellerId
  accountId := upload.accountId
  status := .validated
  sourceFilename := upload.sourceFilename
  totalRows := rows.length
  processedRows := 0
  successRows := rows.countP (·.status = .validated)
  failedRows := rows.length - rows.countP (·.status = .validated)
  createdBy := upload.operatorId

/-- `replace_one` of a row, with `upsert`. -/
def saveRow (sellerId : String) (row : BulkRow) : Call Unit :=
  atomically fun s =>
    match s.rows.replaceOne (fun r => r.id = row.id ∧ r.sellerId = sellerId) row true with
    | .ok (_, rows) => (.ok (), { s with rows })
    | .error _ => (.error .duplicateKey, s)

/-- `replace_one` of a job, with `upsert`. -/
def saveJob (sellerId : String) (job : BulkJob) : Call Unit :=
  atomically fun s =>
    match s.jobs.replaceOne (fun j => j.id = job.id ∧ j.sellerId = sellerId) job true with
    | .ok (_, jobs) => (.ok (), { s with jobs })
    | .error _ => (.error .duplicateKey, s)

def saveRows (sellerId : String) : List BulkRow → Call Unit
  | [] => return ()
  | row :: rest => do
      saveRow sellerId row
      saveRows sellerId rest

/-- `validate_upload`, once its text is parsed and its limits and allies are loaded. -/
def validateUpload (upload : Upload) : Call (BulkJob × List BulkRow) := do
  let rows ← lift upload.rows
  saveJob upload.sellerId (upload.job rows)
  saveRows upload.sellerId rows
  return (upload.job rows, rows)

/-! ### Processing -/

/-- `payload[name]`. -/
def item (payload : Doc) (name : String) : Except RepricerError Value :=
  match payload.get? name with
  | some value => .ok value
  | none => .error (.key name)

/-- The id of the rule of a row. -/
def BulkRow.ruleId (row : BulkRow) : String :=
  "catalog-" ++ row.sellerId ++ "-" ++ row.accountId ++ "-" ++ row.itemId.getD "None"

/-- The document of the new rule of a row. -/
def BulkRow.document (row : BulkRow) (operatorId : String) (now : Value) :
    Except RepricerError Doc := do
  let itemId ← item row.payload "item_id"
  let strategy ← item row.payload "strategy"
  let minPrice ← item row.payload "min_price"
  let maxPrice ← item row.payload "max_price"
  let active ← item row.payload "active"
  return [("_id", .string row.ruleId), ("seller_id", .string row.sellerId),
    ("account_id", .string row.accountId), ("item_id", itemId), ("title", row.payload.getD "title"),
    ("sku", row.payload.getD "sku"), ("strategy", strategy), ("min_price", minPrice),
    ("max_price", maxPrice), ("active", active), ("execution_state", .document []),
    ("created_at", now), ("updated_at", now), ("created_by", .string operatorId),
    ("updated_by", .string operatorId)]

/-- The fields of a stored rule that a row sets. -/
def BulkRow.updateFields (row : BulkRow) (operatorId : String) (now : Value) :
    Except RepricerError Doc := do
  let strategy ← item row.payload "strategy"
  let minPrice ← item row.payload "min_price"
  let maxPrice ← item row.payload "max_price"
  let active ← item row.payload "active"
  return [("title", row.payload.getD "title"), ("sku", row.payload.getD "sku"),
    ("strategy", strategy), ("min_price", minPrice), ("max_price", maxPrice), ("active", active),
    ("updated_at", now), ("updated_by", .string operatorId)]

/-- The filter of the rule of a row. -/
def BulkRow.filter (row : BulkRow) : Doc :=
  [("_id", .string row.ruleId), ("seller_id", .string row.sellerId)]

/-- `_upsert_catalog_rule_from_row`. -/
def upsertCatalogRuleFromRow (py : Pydantic) (row : BulkRow) (operatorId : String) (now : Value) :
    Call Unit := do
  let existing ← find fun s => s.rules.findOne (selects row.filter)
  if existing.isNone then
    let document ← lift (row.document operatorId now)
    let rule ← lift (modelValidate py document)
    writeRules fun rules => do return ((), ← insertOne rule rules)
  else
    let fields ← lift (row.updateFields operatorId now)
    writeRules fun rules => do return ((), (← updateOne row.filter fields rules).2)

/-- A row after its rule has been put into the database. -/
def BulkRow.done (row : BulkRow) : BulkRow :=
  if row.status = .validated then { row with status := .processed } else row

/-- The loop of `process_job`: the rows as it leaves them. -/
def processRows (py : Pydantic) (sellerId operatorId : String) (now : Value) :
    List BulkRow → Call (List BulkRow)
  | [] => return []
  | row :: rest => do
      if row.status = .validated then upsertCatalogRuleFromRow py row operatorId now
      saveRow sellerId row.done
      return row.done :: (← processRows py sellerId operatorId now rest)

/-- `get_job`. -/
def getJob (sellerId jobId : String) : Call BulkJob :=
  atomically fun s =>
    match s.jobs.findOne fun j => j.id = jobId ∧ j.sellerId = sellerId with
    | none => (.error (.bulkJobNotFound jobId), s)
    | some job => (.ok job, s)

/-- The rows of a job in the order of their numbers, a thousand at most. -/
def rowsOf (sellerId jobId : String) (s : Store) : List BulkRow :=
  ((s.rows.find fun row => row.sellerId = sellerId ∧ row.jobId = jobId).mergeSort
    fun a b => decide (a.rowNumber ≤ b.rowNumber)).take 1000

/-- `list_rows`. -/
def listRows (sellerId jobId : String) : Call (List BulkRow) := find (rowsOf sellerId jobId)

/-- The job after its rows have been processed. -/
def BulkJob.close (job : BulkJob) (rows : List BulkRow) : BulkJob :=
  { job with
    status := if rows.any (·.status = .failed) then .completedWithErrors else .completed
    processedRows := rows.length
    successRows := rows.countP (·.status = .processed)
    failedRows := rows.countP (·.status = .failed) }

/-- `process_job`. -/
def processJob (py : Pydantic) (sellerId jobId operatorId : String) (now : Value) :
    Call BulkJob := do
  let job ← getJob sellerId jobId
  if job.status ∈ [.completed, .completedWithErrors, .failed] then return job
  else
    let rows ← listRows sellerId job.id
    let processed ← processRows py sellerId operatorId now rows
    saveJob sellerId (job.close processed)
    return job.close processed

end ZelerPlatform.Repricer
