import ZelerPlatform.Repricer.BulkJobs

/-!
# Calls on single catalog rules

`create_catalog_rule` checks the price band, validates the model and inserts its JSON dump.
`patch_catalog_rule` sets the fields of a patch first and validates what it then reads back.
-/

namespace ZelerPlatform.Repricer

open Mongo Transition Transition.Program

section

variable (py : Pydantic)

/-- `Decimal(str(payload[name]))`: its text and its value. -/
def decimalItem (payload : Doc) (name : String) : Except RepricerError (String × Decimal) := do
  let text := py.str (← item payload name)
  match Decimal.ofText text with
  | some price => return (py.dumpedPrice text, price)
  | none => throw .invalidOperation

/-- The value of a key if it is there and not empty. -/
def nonempty (payload : Doc) (name : String) : Option Value := (payload.get? name).filter (·.truthy)

/-- The rule that `create_catalog_rule` makes of its payload. -/
def newCatalogRule (sellerId : String) (payload : Doc) (operatorId : String) (now : Value) :
    Except RepricerError Doc := do
  let (minText, minPrice) ← decimalItem py payload "min_price"
  let (maxText, maxPrice) ← decimalItem py payload "max_price"
  if ← priceLt maxPrice minPrice then throw (.catalogRuleValidation "min_price_above_max_price")
  else
    let accountId := py.str (← item payload "account_id")
    let itemId := py.str (← item payload "item_id")
    let ruleId := ((nonempty payload "_id").map py.str).getD
      ("catalog-" ++ sellerId ++ "-" ++ accountId ++ "-" ++ itemId)
    let strategy ← item payload "strategy"
    modelValidate py [("_id", .string ruleId), ("seller_id", .string sellerId),
      ("account_id", .string accountId), ("item_id", .string itemId),
      ("title", payload.getD "title"), ("sku", payload.getD "sku"), ("strategy", strategy),
      ("min_price", .string minText), ("max_price", .string maxText),
      ("active", .bool (((payload.get? "active").map Value.truthy).getD true)),
      ("execution_state", (nonempty payload "execution_state").getD (.document [])),
      ("created_at", now), ("updated_at", now), ("created_by", .string operatorId),
      ("updated_by", .string operatorId)]

/-- `create_catalog_rule`. -/
def createCatalogRule (sellerId : String) (payload : Doc) (operatorId : String) (now : Value) :
    Call Doc := do
  let rule ← lift (newCatalogRule py sellerId payload operatorId now)
  writeRules fun rules => do return ((), ← insertOne rule rules)
  return rule

/-- The filter of `patch_catalog_rule`. -/
def patchFilter (sellerId ruleId : String) (patch : Doc) : Doc :=
  [("_id", .string ruleId), ("seller_id", .string sellerId)] ++
    match (patch.get? "account_id").filter (· ≠ .null) with
    | some accountId => [("account_id", .string (py.str accountId))]
    | none => []

/-- The fields that `patch_catalog_rule` sets. -/
def patchFields (patch : Doc) (operatorId : String) (now : Value) : Doc :=
  let update : Doc :=
    patch.filter fun field => field.1 ∉ ["_id", "seller_id", "account_id"] ∧ field.2 ≠ .null
  (update.set "updated_at" now).set "updated_by" (.string operatorId)

/-- `patch_catalog_rule`. -/
def patchCatalogRule (sellerId ruleId : String) (patch : Doc) (operatorId : String) (now : Value) :
    Call Doc := do
  let filter := patchFilter py sellerId ruleId patch
  let matched ← writeRules (updateOne filter (patchFields patch operatorId now))
  if matched = 0 then lift (.error (.catalogRuleNotFound ruleId))
  else
    match ← find fun s => s.rules.findOne (selects filter) with
    | none => lift (.error (.catalogRuleNotFound ruleId))
    | some document => lift (modelValidate py document)

end

end ZelerPlatform.Repricer
