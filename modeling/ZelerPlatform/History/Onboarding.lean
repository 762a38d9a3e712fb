import ZelerPlatform.History.Plan
import ZelerPlatform.Library.Fallible
import ZelerPlatform.Library.Mongo.Patch
import ZelerPlatform.Library.RelyGuarantee
import ZelerPlatform.Recovery.Dates

/-!
# Admission of a seller's history

An account that is linked gets a plan: the document with the seller's id, to which
`admit_history_onboarding` adds the leaves of the policy that it does not have. A plan from
before the policy is checked first, and the patch is written only if the plan is still the one
that was read.

Storage calls are atomic and answer. `writes` records what the admissions have written; no
call reads it. Instants count microseconds; the documents of a collection hold whole
milliseconds, and all that is written here are such values.
-/

namespace ZelerPlatform.History.Onboarding

open Fallible Mongo Transition

inductive AdmissionError
  | value (message : String)
  | type
  | write
  deriving DecidableEq, Repr

/-- `SOURCES`, as the plan lists them. -/
def sources : List String :=
  ["orders", "questions", "shipments", "messages", "claims_returns", "full_withdrawals"]

/-! ### Dates and numbers -/

def usPerDay : Int := 86400000000

def isLeap (year : Int) : Bool := year % 4 == 0 && (year % 100 != 0 || year % 400 == 0)

/-- `calendar.monthrange(year, month)[1]`. -/
def monthLength (year month : Int) : Int :=
  if month = 2 then (if isLeap year then 29 else 28)
  else if month = 4 ∨ month = 6 ∨ month = 9 ∨ month = 11 then 30 else 31

/-- The same day a year before, or the last one of its month. -/
def calendarHistoryStart (cutoff : Int) : Except AdmissionError Int := do
  let (year, month, day) := Recovery.civil (cutoff / usPerDay)
  raiseIf (year - 1 < 1) (.value "year 0 is out of range")
  return Recovery.dayOf (year - 1, month, min day (monthLength (year - 1) month)) * usPerDay +
    cutoff % usPerDay

/-- `_utc_date`. -/
def utcDate (value : Value) : Except AdmissionError Int :=
  match value.date? with
  | some us => pure us
  | none => throw (.value "existing history plan has invalid date")

/-- `_nonnegative`. -/
def nonnegative (value : Value) : Except AdmissionError PUnit :=
  match value.int? with
  | some n => raiseIf (n < 0) (.value "existing history plan has invalid counter")
  | none => throw (.value "existing history plan has invalid counter")

/-! ### Plans from before the policy -/

/-- `if field in document: check(document[field])`. -/
def ifPresent (check : Value → Except AdmissionError PUnit) (document : Doc) (field : String) :
    Except AdmissionError PUnit :=
  match document.get? field with
  | some value => check value
  | none => pure ⟨⟩

/-- `document.get(field, {})`, of a field that is a mapping if it is there. -/
def mappingAt (document : Doc) (field : String) : Doc :=
  ((document.get? field).bind Value.document?).getD []

/-- `document.get(used, 0) > document.get(limit, inf)`, of fields that are integers. -/
def exceeds (document : Doc) (used limit : String) : Bool :=
  match (document.get? limit).bind Value.int? with
  | some bound => bound < ((document.get? used).bind Value.int?).getD 0
  | none => false

def checkMapping (message : String) (value : Value) : Except AdmissionError PUnit :=
  raiseIf (value.document?.isNone) (.value message)

/-- One entry of `budget`. -/
def checkSourceBudget (entry : Value) : Except AdmissionError PUnit := do
  checkMapping "existing history plan has invalid source budget" entry
  let budget := entry.document?.getD []
  ["physical_attempts", "consumed"].forM (ifPresent nonnegative budget)
  raiseIf (exceeds budget "consumed" "physical_attempts")
    (.value "existing history plan exceeds source budget")

/-- The state is looked up in a set, so it has to be hashable. -/
def checkState (value : Value) : Except AdmissionError PUnit :=
  match value with
  | .array _ | .document _ => throw .type
  | value => raiseIf (value ≠ .string "active" ∧ value ≠ .string "paused")
      (.value "existing history plan has invalid state")

def checkSources (value : Value) : Except AdmissionError PUnit :=
  match value with
  | .array items => raiseIf (¬ ((∀ item ∈ items, item ∈ sources.map Value.string) ∧ items.Nodup))
      (.value "existing history plan has invalid sources")
  | _ => throw (.value "existing history plan has invalid sources")

def checkRange (cutoff : Int) (value : Value) : Except AdmissionError PUnit := do
  let start ← calendarHistoryStart cutoff
  let dateFrom ← utcDate value
  raiseIf (¬ (start ≤ dateFrom ∧ dateFrom < cutoff))
    (.value "existing history plan has contradictory range")

def authority : Value := .document [("kind", .string "account_link_policy")]

def checkLease (now : Int) (value : Value) : Except AdmissionError PUnit := do
  let lease := value.document?.getD []
  raiseIf (value.document?.isNone ∨ lease = [] ∨
      ∃ key ∈ lease.keys, key ∉ ["owner", "token", "until"])
    (.value "existing history plan has unknown lease")
  let til := lease.get? "until"
  raiseIf til.isNone (.value "existing history plan has active or invalid lease")
  let til ← utcDate (til.getD .null)
  raiseIf (til > now) (.value "existing history plan has active or invalid lease")

/-- `_validate_legacy`. -/
def validateLegacy (plan : Doc) (cutoff now : Int) : Except AdmissionError PUnit := do
  ["total_budget", "total_consumed", "source_cursor", "execution_attempt_limit",
    "execution_consumed", "execution_sent", "incremental_consumed"].forM (ifPresent nonnegative plan)
  ["budget", "incremental_policy", "incremental_source_consumed"].forM
    (ifPresent (checkMapping "existing history plan has invalid budget shape") plan)
  (mappingAt plan "budget").forM fun (_, entry) => checkSourceBudget entry
  (mappingAt plan "incremental_source_consumed").forM fun (_, value) => nonnegative value
  ["max_daily_total", "max_daily_source"].forM
    (ifPresent nonnegative (mappingAt plan "incremental_policy"))
  raiseIf (exceeds plan "total_consumed" "total_budget")
    (.value "existing history plan exceeds total budget")
  ["execution_until", "admitted_at", "last_linked_at", "next_cycle_at"].forM
    (ifPresent (fun value => discard (utcDate value)) plan)
  ifPresent (fun value => raiseIf (value ≠ .bool true ∧ value ≠ .bool false)
    (.value "existing history plan has invalid eligibility")) plan "eligible"
  ifPresent checkState plan "state"
  ifPresent checkSources plan "sources"
  ifPresent (fun value => do
    let dateTo ← utcDate value
    raiseIf (dateTo ≠ cutoff) (.value "existing history plan has contradictory cutoff")) plan
    "date_to"
  ifPresent (checkRange cutoff) plan "date_from"
  ifPresent (fun value => raiseIf (¬ value.pyEq authority)
    (.value "existing history plan has unknown authority")) plan "authority"
  ["execution_charged", "execution_sent_by_source", "execution_work_sent_by_source",
    "execution_work"].forM (ifPresent (fun value => raiseIf (value ≠ .document [])
      (.value "existing history plan has unattributed ledger")) plan)
  match plan.get? "lease_until" with
  | some value => do
      let til ← utcDate value
      raiseIf (til > now) (.value "existing history plan has active lease")
  | none =>
      raiseIf ((plan.getD "lease_token").truthy ∨ (plan.getD "lease_owner").truthy)
        (.value "existing history plan has lease without expiry")
  ifPresent (checkLease now) plan "lease"

/-! ### The policy and its missing leaves -/

mutual

/-- What one default adds to a field of that name. -/
def missingLeaf (key : String) (present : Option Value) : Value → Except AdmissionError Patch
  | .document defaults =>
      match present with
      | none => pure [([key], .document defaults)]
      | some (.document inner) => do
          let below ← missingLeaves inner defaults
          return below.map fun (path, value) => (key :: path, value)
      | some _ => throw (.value "existing history plan has invalid seed shape")
  | value => pure (if present.isNone then [([key], value)] else [])

/-- `_missing_leaves`. -/
def missingLeaves (existing : Doc) : List (String × Value) → Except AdmissionError Patch
  | [] => pure []
  | (key, value) :: rest => do
      let here ← missingLeaf key (existing.get? key) value
      let further ← missingLeaves existing rest
      return here ++ further

end

/-- The budgets a pilot begins with. -/
def initial : List (String × Int) := sources.dropLast.zip [800, 150, 250, 300, 500]

/-- The policy of a plan whose year begins at `start`. -/
def policyFrom (start cutoff now : Int) (pilotSeed : Bool) : Doc :=
  [("policy_version", .string policyVersion),
    ("authority", authority),
    ("state", .string (if pilotSeed then "paused" else "active")),
    ("eligible", .bool true),
    ("date_from", .date start),
    ("date_to", .date cutoff),
    ("timezone", .string "UTC"),
    ("sources", .array ((if pilotSeed then sources.dropLast else sources).map Value.string)),
    ("budget", .document (sources.map fun source => (source, .document
      [("physical_attempts",
          .int (if pilotSeed then (initial.lookup source).getD 0 else 20000)),
        ("consumed", .int 0)]))),
    ("incremental_policy", .document
      [("max_daily_total", .int (if pilotSeed then 500 else 2000)),
        ("max_daily_source", .int (if pilotSeed then 300 else 1000))]),
    ("total_budget", .int (if pilotSeed then 2000 else 100000)),
    ("total_consumed", .int 0),
    ("onboarding_status", .string "pending"),
    ("admitted_at", .date now),
    ("next_cycle_at", .date now),
    ("source_cursor", .int 0),
    ("last_linked_at", .date now)]

/-- `defaults`. -/
def policyDefaults (cutoff now : Int) (pilotSeed : Bool) : Except AdmissionError Doc := do
  let start ← calendarHistoryStart cutoff
  return policyFrom start cutoff now pilotSeed

/-- `"full_withdrawals" in document.get("sources", [])`, of a checked list. -/
def listsFull (document : Doc) : Bool :=
  match document.get? "sources" with
  | some (.array items) => .string "full_withdrawals" ∈ items
  | _ => false

/-- What is computed from the plan that was read, up to the write. -/
def plannedPatch (existing : Doc) (cutoff now : Int) (pilotSeed : Bool) :
    Except AdmissionError (Doc × Patch) := do
  validateLegacy existing cutoff now
  raiseIf (pilotSeed ∧
      (listsFull existing ∨ ¬ ((existing.get? "state").getD (.string "paused")).pyEq (.string "paused")))
    (.value "pilot legacy scope must be paused without Full")
  let defaults ← policyDefaults cutoff now pilotSeed
  let patch ← missingLeaves existing defaults
  let candidate ← (existing.applyPatch patch).elim (throw .type) pure
  validateLegacy candidate cutoff now
  return (defaults, patch)

/-- The plan of another admission that came first. -/
def acceptWinner (winner : Option Doc) (existing defaults : Doc) (cutoff now : Int)
    (pilotSeed : Bool) : Except AdmissionError Doc := do
  match winner with
  | none => throw (.value "history admission snapshot changed")
  | some winner =>
      raiseIf (¬ (winner.getD "policy_version").pyEq (.string policyVersion) ∨
          ¬ (winner.getD "cutoff").pyEq (existing.getD "cutoff"))
        (.value "history admission snapshot changed")
      validateLegacy winner cutoff now
      raiseIf (¬ (winner.getD "authority").pyEq (defaults.getD "authority"))
        (.value "history admission winner has invalid policy")
      let missing ← missingLeaves winner defaults
      raiseIf (missing ≠ [] ∨ (pilotSeed ∧
          (¬ (winner.getD "state").pyEq (.string "paused") ∨ listsFull winner)))
        (.value "history admission winner has invalid policy")
      return winner

/-! ### The call -/

/-- A write of an admission that took effect. -/
inductive Write
  | identity
  | policy (patch : Patch)
  | linked
  deriving DecidableEq

/-- The plan of the seller, and what the admissions have written. -/
structure Plans (ι : Type) where
  plan : Option Doc
  writes : List (ι × Write)

inductive Label
  | upsertIdentity
  | find
  | setPolicy
  | findWinner
  | link
  | other
  deriving DecidableEq, Repr

variable {ι : Type}

abbrev Call (ι A : Type) := ExceptT AdmissionError (Program Label (Plans ι)) A

def op {A : Type} (label : Label) (f : Plans ι → Except AdmissionError A × Plans ι) : Call ι A :=
  ExceptT.mk (Program.act label f)

def check {A : Type} (x : Except AdmissionError A) : Call ι A := ExceptT.mk (pure x)

/-- `{"_id": seller_id, "seller_id": seller_id}`, where the plan is the one of that `_id`. -/
def ofSeller (sellerId : String) (plan : Doc) : Bool :=
  eqMatches (plan.get? "seller_id") (.string sellerId)

/-- What the upsert inserts. -/
def identity (sellerId : String) (now : Int) : Doc :=
  [("_id", .string sellerId), ("seller_id", .string sellerId), ("cutoff", .date now),
    ("schema_version", .int 1)]

def upsertIdentity (i : ι) (sellerId : String) (now : Int) : Call ι PUnit :=
  op .upsertIdentity fun s =>
    match s.plan with
    | some _ => (.ok ⟨⟩, s)
    | none => (.ok ⟨⟩, ⟨some (identity sellerId now), s.writes ++ [(i, .identity)]⟩)

def findPlan (label : Label) (sellerId : String) : Call ι (Option Doc) :=
  op label fun s => (.ok (s.plan.filter (ofSeller sellerId)), s)

/-- The patch under the comparison with the plan that was read; whether it matched. -/
def setPolicy (i : ι) (sellerId : String) (existing : Doc) (patch : Patch) : Call ι Bool :=
  op .setPolicy fun s =>
    match s.plan with
    | none => (.ok false, s)
    | some plan =>
        if ofSeller sellerId plan ∧ (Value.document plan).compare (.document existing) = .eq then
          match plan.applyPatch patch with
          | some plan => (.ok true, ⟨some plan, s.writes ++ [(i, .policy patch)]⟩)
          | none => (.error .write, s)
        else (.ok false, s)

/-- `$max`. -/
def maxField (plan : Doc) (field : String) (value : Value) : Doc :=
  match plan.get? field with
  | some old => if old.compare value = .lt then plan.set field value else plan
  | none => plan.set field value

def link (i : ι) (sellerId : String) (now : Int) : Call ι PUnit :=
  op .link fun s =>
    match s.plan with
    | none => (.ok ⟨⟩, s)
    | some plan =>
        if ofSeller sellerId plan ∧
            eqMatches (plan.get? "policy_version") (.string policyVersion) then
          (.ok ⟨⟩, ⟨some (maxField plan "last_linked_at" (.date now)), s.writes ++ [(i, .linked)]⟩)
        else (.ok ⟨⟩, s)

/-- The plan that was found and its cutoff. -/
def identified (found : Option Doc) : Except AdmissionError (Doc × Int) :=
  match found with
  | none => throw (.value "existing history plan has invalid identity or cutoff")
  | some existing =>
      match (existing.get? "cutoff").bind Value.date? with
      | none => throw (.value "existing history plan has invalid identity or cutoff")
      | some cutoff => pure (existing, cutoff)

/-- `admit_history_onboarding`. -/
def admitHistoryOnboarding (i : ι) (sellerId : String) (now : Int) (pilotSeed : Bool) :
    Call ι PUnit := do
  check (raiseIf (¬ (sellerId.toList ≠ [] ∧ sellerId.toList.all Char.isDigit))
    (.value "onboarding requires a canonical numeric seller"))
  let now := now / 1000000 * 1000000
  upsertIdentity i sellerId now
  let found ← findPlan .find sellerId
  let (existing, cutoff) ← check (identified found)
  let existing ← match existing.get? "policy_version" with
    | none => do
        let (defaults, patch) ← check (plannedPatch existing cutoff now pilotSeed)
        let matched ← setPolicy i sellerId existing patch
        if matched then pure existing
        else do
          let winner ← findPlan .findWinner sellerId
          check (acceptWinner winner existing defaults cutoff now pilotSeed)
    | some version => do
        check (raiseIf (¬ version.pyEq (.string policyVersion))
          (.value "existing history plan has unknown policy"))
        pure existing
  check (ifPresent (fun value => discard (utcDate value)) existing "last_linked_at")
  link i sellerId now

end ZelerPlatform.History.Onboarding
