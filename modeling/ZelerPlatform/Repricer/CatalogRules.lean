import ZelerPlatform.Library.Collection
import ZelerPlatform.Library.Exec
import ZelerPlatform.Library.Mongo.Patch
import ZelerPlatform.Library.Mongo.Path
import ZelerPlatform.Library.PyNumber

/-!
# Catalog rules in the database

A rule is validated as `RepricerCatalogRule` and stored as the JSON dump of the model. What pydantic
accepts for a flag, a time or an execution state and how it writes it as JSON is a parameter, as are
`str` and the text of a `Decimal`. A validated rule is represented by its dump.
-/

namespace ZelerPlatform.Repricer

open Mongo Transition Transition.Program

/-- The exceptions of the service. A document that a model refuses raises a `ValidationError`, or
the `InvalidOperation` of a price that is no decimal; both are `validation`. -/
inductive RepricerError
  | catalogRuleValidation (message : String)
  | catalogRuleNotFound (id : String)
  | bulkJobNotFound (id : String)
  | key (name : String)
  | invalidOperation
  | validation
  | duplicateKey
  | write
  deriving DecidableEq, Repr

/-- The types of the fields that pydantic checks alone. -/
inductive FieldType
  | optionalText
  | flag
  | moment
  | state
  | version
  deriving DecidableEq, Repr

/-- `str`, what pydantic accepts for a field, the JSON it makes of what it has accepted, and the
text of the `Decimal` that a text is read as. -/
structure Pydantic where
  str : Value → String
  accepts : FieldType → Value → Bool
  dumped : FieldType → Value → Value
  dumpedPrice : String → String

/-- `str` of a text is the text, and a dump is read as what was dumped. -/
structure Pydantic.Lawful (py : Pydantic) : Prop where
  str_string : ∀ s, py.str (.string s) = s
  dumped : ∀ type v, py.accepts type v = true → py.accepts type (py.dumped type v) = true
  optionalText_null : py.accepts .optionalText .null = true
  optionalText_string : ∀ s, py.accepts .optionalText (.string s) = true
  optionalText : ∀ s, py.dumped .optionalText (.string s) = .string s
  noText : py.dumped .optionalText .null = .null
  accepts_flag : ∀ b, py.accepts .flag (.bool b) = true
  flag : ∀ b, py.dumped .flag (.bool b) = .bool b
  version : py.accepts .version (.int 1) = true
  emptyState : py.accepts .state (.document []) = true
  dumpedPrice : ∀ s x, Decimal.ofText s = some x → Decimal.ofText (py.dumpedPrice s) = some x

/-- A `Pydantic` that takes the values of the types alone, and the epoch as moment. -/
def plainPydantic : Pydantic where
  str
    | .string s => s
    | _ => ""
  accepts
    | .optionalText, .null => true
    | .optionalText, .string _ => true
    | .flag, .bool _ => true
    | .moment, .date _ => true
    | .moment, .string s => s = "1970-01-01T00:00:00Z"
    | .state, .document _ => true
    | .version, .int 1 => true
    | _, _ => false
  dumped
    | .moment, .date _ => .string "1970-01-01T00:00:00Z"
    | _, v => v
  dumpedPrice s := s

theorem plainPydantic_lawful : plainPydantic.Lawful where
  str_string _ := rfl
  dumped type v h := by
    cases type <;> cases v <;> first | exact h | rfl
  optionalText_null := rfl
  optionalText_string _ := rfl
  optionalText _ := rfl
  noText := rfl
  accepts_flag _ := rfl
  flag _ := rfl
  version := rfl
  emptyState := rfl
  dumpedPrice _ _ h := h

section

variable (py : Pydantic)

/-! ### `RepricerCatalogRule` -/

/-- The fields that are made texts, all of them required. -/
def textFields : List String :=
  ["_id", "seller_id", "account_id", "item_id", "created_by", "updated_by"]

def strategies : List String := ["min_price", "competitive", "maximize"]

/-- The fields pydantic checks alone, and whether they are required. -/
def typedFields : List (String × FieldType × Bool) :=
  [("title", .optionalText, false), ("sku", .optionalText, false), ("active", .flag, true),
    ("execution_state", .state, true), ("created_at", .moment, true), ("updated_at", .moment, true),
    ("schema_version", .version, false)]

def priceFields : List String := ["min_price", "max_price"]

/-- `_coerce_decimal`. -/
def coerceDecimal (value : Value) : Option Decimal := Decimal.ofText (py.str value)

/-- The price a document has. -/
def priceOf (doc : Doc) (field : String) : Option Decimal :=
  (doc.get? field).bind (coerceDecimal py)

/-- The price is a finite number, as pydantic wants a `Decimal` to be. -/
def hasPrice (doc : Doc) (field : String) : Bool :=
  match priceOf py doc field with
  | some (.finite _) => true
  | _ => false

/-- A typed field is accepted, or missing and not required. -/
def fieldAccepted (doc : Doc) (field : String × FieldType × Bool) : Bool :=
  match doc.get? field.1 with
  | none => !field.2.2
  | some value => py.accepts field.2.1 value

/-- The document passes the validation of `RepricerCatalogRule`. -/
def accepted (doc : Doc) : Bool :=
  textFields.all (fun field => (doc.get? field).isSome) &&
    strategies.any (fun strategy => decide (doc.get? "strategy" = some (.string strategy))) &&
    priceFields.all (hasPrice py doc) && typedFields.all (fieldAccepted py doc)

def dumpedText (doc : Doc) (field : String) : String × Value :=
  (field, .string (py.str (doc.getD field)))

def dumpedField (doc : Doc) (field : String) (type : FieldType) (default : Value) :
    String × Value :=
  (field, ((doc.get? field).map (py.dumped type)).getD default)

def dumpedDecimal (doc : Doc) (field : String) : String × Value :=
  (field, .string (py.dumpedPrice (py.str (doc.getD field))))

/-- `model_dump(mode="json", by_alias=True)` of the rule a document is read as. -/
def modelDump (doc : Doc) : Doc :=
  [dumpedField py doc "schema_version" .version (.int 1), dumpedText py doc "_id",
    dumpedText py doc "seller_id", dumpedText py doc "account_id", dumpedText py doc "item_id",
    dumpedField py doc "title" .optionalText .null, dumpedField py doc "sku" .optionalText .null,
    ("strategy", doc.getD "strategy"), dumpedDecimal py doc "min_price",
    dumpedDecimal py doc "max_price", dumpedField py doc "active" .flag .null,
    dumpedField py doc "execution_state" .state .null,
    dumpedField py doc "created_at" .moment .null, dumpedField py doc "updated_at" .moment .null,
    dumpedText py doc "created_by", dumpedText py doc "updated_by"]

/-- `RepricerCatalogRule.model_validate`. -/
def modelValidate (doc : Doc) : Except RepricerError Doc :=
  if accepted py doc then .ok (modelDump py doc) else .error .validation

variable {py}

section

variable {doc : Doc} {field : String} {value : Value}

/-- What the validation of a document has found. -/
theorem accepted_iff : accepted py doc = true ↔
    (∀ field ∈ textFields, (doc.get? field).isSome = true) ∧
      (∃ s ∈ strategies, doc.get? "strategy" = some (.string s)) ∧
      (∀ field ∈ priceFields, hasPrice py doc field = true) ∧
      ∀ field ∈ typedFields, fieldAccepted py doc field = true := by
  simp only [accepted, Bool.and_eq_true, List.all_eq_true, List.any_eq_true, decide_eq_true_eq,
    and_assoc]

theorem hasPrice_iff : hasPrice py doc field = true ↔ ∃ x, priceOf py doc field = some (.finite x) := by
  rw [hasPrice]
  split
  · next x hprice => exact ⟨fun _ => ⟨x, hprice⟩, fun _ => rfl⟩
  · next hother =>
      refine ⟨fun h => (Bool.false_ne_true h).elim, ?_⟩
      rintro ⟨x, hprice⟩
      exact absurd hprice (hother x)

/-- A price is dumped as a text that is read as the same price. -/
theorem priceOf_modelDump (lawful : py.Lawful) {x : Decimal} (mem : field ∈ priceFields)
    (h : priceOf py doc field = some x) : priceOf py (modelDump py doc) field = some x := by
  obtain ⟨value, hvalue, hprice⟩ := Option.bind_eq_some_iff.mp h
  have hdumped : (modelDump py doc).get? field =
      some (.string (py.dumpedPrice (py.str (doc.getD field)))) := by
    simp only [priceFields, List.mem_cons, List.not_mem_nil, or_false] at mem
    rcases mem with rfl | rfl
    · rfl
    · rfl
  rw [priceOf, hdumped, Option.bind_some, coerceDecimal, lawful.str_string]
  refine lawful.dumpedPrice _ _ ?_
  rw [Doc.getD, hvalue]
  exact hprice

/-- A typed field of a dump is accepted again. -/
theorem accepts_dumped (lawful : py.Lawful) {type : FieldType} {required : Bool} {default : Value}
    (h : fieldAccepted py doc (field, type, required) = true)
    (missing : required = false → py.accepts type default = true) :
    py.accepts type (((doc.get? field).map (py.dumped type)).getD default) = true := by
  rw [fieldAccepted] at h
  cases hvalue : doc.get? field with
  | none =>
      rw [hvalue] at h
      exact missing (by simpa using h)
  | some value =>
      rw [hvalue] at h
      exact lawful.dumped type value h

/-- The dump of a rule passes the validation again. -/
theorem accepted_modelDump (lawful : py.Lawful) (h : accepted py doc = true) :
    accepted py (modelDump py doc) = true := by
  obtain ⟨htexts, ⟨s, hs, hstrategy⟩, hprices, htyped⟩ := accepted_iff.mp h
  refine accepted_iff.mpr ⟨?_, ⟨s, hs, ?_⟩, fun field mem => ?_, ?_⟩
  · intro field mem
    simp only [textFields, List.mem_cons, List.not_mem_nil, or_false] at mem
    rcases mem with rfl | rfl | rfl | rfl | rfl | rfl <;> rfl
  · show some (doc.getD "strategy") = _
    rw [Doc.getD, hstrategy, Option.getD_some]
  · obtain ⟨x, hx⟩ := hasPrice_iff.mp (hprices field mem)
    exact hasPrice_iff.mpr ⟨x, priceOf_modelDump lawful mem hx⟩
  · have hfield (field : String) (type : FieldType) (required : Bool)
        (mem : (field, type, required) ∈ typedFields) := htyped _ mem
    intro field mem
    simp only [typedFields, List.mem_cons, List.not_mem_nil, or_false] at mem
    rcases mem with rfl | rfl | rfl | rfl | rfl | rfl | rfl
    · exact accepts_dumped lawful (hfield "title" .optionalText false (by decide))
        fun _ => lawful.optionalText_null
    · exact accepts_dumped lawful (hfield "sku" .optionalText false (by decide))
        fun _ => lawful.optionalText_null
    · exact accepts_dumped lawful (hfield "active" .flag true (by decide)) fun h => nomatch h
    · exact accepts_dumped lawful (hfield "execution_state" .state true (by decide))
        fun h => nomatch h
    · exact accepts_dumped lawful (hfield "created_at" .moment true (by decide)) fun h => nomatch h
    · exact accepts_dumped lawful (hfield "updated_at" .moment true (by decide)) fun h => nomatch h
    · exact accepts_dumped lawful (hfield "schema_version" .version false (by decide))
        fun _ => lawful.version

end

/-! ### The collection -/

def ruleKey (doc : Doc) : Value := doc.getD "_id"

abbrev Rules := Collection ruleKey

/-- `{"active": true}`. -/
def isActive (doc : Doc) : Bool := decide (doc.get? "active" = some (.bool true))

/-- Two rules under one key of the index of active rules. -/
def sameItem (a b : Doc) : Bool :=
  ["seller_id", "account_id", "item_id"].all fun field => decide (a.getD field = b.getD field)

/-- Another active rule is for the same item. -/
def indexTaken (doc : Doc) (rules : Rules) : Bool :=
  isActive doc && rules.docs.any fun other =>
    decide (ruleKey other ≠ ruleKey doc) && isActive other && sameItem other doc

/-- `insert_one`. -/
def insertOne (doc : Doc) (rules : Rules) : Except RepricerError Rules :=
  if indexTaken doc rules then .error .duplicateKey
  else match rules.insert doc with
    | none => .error .duplicateKey
    | some rules => .ok rules

/-- The paths of a `$set` that the server takes: no empty part, none that begins with a dollar, and
no path on the way of another. -/
def pathsValid (paths : List (List String)) : Bool :=
  paths.all (fun path => path.all fun part => part != "" && !part.startsWith "$") &&
    decide (paths.Pairwise fun p q => ¬ p <+: q ∧ ¬ q <+: p)

/-- `$set` of the fields; `none` where the server refuses it. -/
def setFields (fields doc : Doc) : Option Doc :=
  let patch : Patch := fields.map fun field => (pathParts field.1, field.2)
  if pathsValid (patch.map Prod.fst) then doc.applyPatch patch else none

/-- A filter of equalities; no `_id` is an array. -/
def selects (filter doc : Doc) : Bool :=
  filter.all fun field =>
    if field.1 = "_id" then decide (doc.get? "_id" = some field.2)
    else eqMatches (doc.get? field.1) field.2

/-- `update_one` with a `$set`; the number is that of the documents matched. -/
def updateOne (filter fields : Doc) (rules : Rules) : Except RepricerError (Nat × Rules) :=
  match rules.findOne (selects filter) with
  | none => .ok (0, rules)
  | some old =>
      match setFields fields old with
      | none => .error .write
      | some new =>
          if ruleKey new ≠ ruleKey old then .error .write
          else if indexTaken new rules then .error .duplicateKey
          else .ok (1, rules.replace new)

/-! ### What the operations do -/

section

variable {rules : Rules} {doc old fields : Doc} {id seller : String}

theorem eqMatches_string (s : String) : eqMatches (some (.string s)) (.string s) = true := by
  simp [eqMatches, candidates, Value.compare]

theorem get?_id_iff : doc.get? "_id" = some (.string id) ↔ ruleKey doc = .string id := by
  rw [ruleKey, Doc.getD]
  cases doc.get? "_id" with
  | none => simp
  | some v => simp

/-- The rule under an id, if a seller's filter finds it. -/
theorem findOne_selects :
    rules.findOne (selects [("_id", .string id), ("seller_id", .string seller)]) =
      (rules.byKey (.string id)).filter fun doc =>
        eqMatches (doc.get? "seller_id") (.string seller) := by
  have hselects (doc : Doc) : selects [("_id", .string id), ("seller_id", .string seller)] doc =
      (decide (ruleKey doc = .string id) && eqMatches (doc.get? "seller_id") (.string seller)) := by
    simp [selects, get?_id_iff]
  rw [Collection.findOne_of_key (k := .string id) fun doc h => by
    rw [hselects, Bool.and_eq_true, decide_eq_true_eq] at h
    exact h.1]
  cases hfound : rules.byKey (.string id) with
  | none => rfl
  | some doc =>
      rw [Option.filter_some, Option.filter_some, hselects, (Collection.byKey_some.mp hfound).2,
        decide_eq_true rfl, Bool.true_and]

/-- `$set` of fields without dots sets them as they are. -/
theorem applyPatch_plain (fields doc : Doc) :
    doc.applyPatch (fields.map fun field => ([field.1], field.2)) = some (doc.setAll fields) := by
  induction fields generalizing doc with
  | nil => rfl
  | cons field rest ih => exact ih (doc.set field.1 field.2)

theorem setFields_plain (plain : ∀ field ∈ fields, pathParts field.1 = [field.1])
    (valid : pathsValid (fields.map fun field => [field.1]) = true) :
    setFields fields doc = some (doc.setAll fields) := by
  have hpatch : (fields.map fun field => (pathParts field.1, field.2)) =
      fields.map fun field => ([field.1], field.2) :=
    List.map_congr_left fun field mem => by rw [plain field mem]
  rw [setFields, hpatch, List.map_map, show (Prod.fst ∘ fun field : String × Value =>
    ([field.1], field.2)) = fun field => [field.1] from rfl, valid, if_pos rfl, applyPatch_plain]

end

end

end ZelerPlatform.Repricer
