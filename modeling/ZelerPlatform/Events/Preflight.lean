import ZelerPlatform.Library.Mongo.Path

/-!
# The freshness preflight

Before it touches what depends on a resource, the persistence asks in Python whether the stored
document would be replaced; the replacement itself is guarded by a Mongo filter made from the
same conditions. Each condition asks some fields to be missing and one to be at most an
instant. The two readings of a condition are written once, with what they know about a field
as parameters.
-/

namespace ZelerPlatform.Events.Preflight

open Mongo Mongo.Value

/-! ### Conditions -/

/-- `{"$exists": False}`, `{"$lte": t}`, or a value. -/
inductive Expectation
  | missing
  | atMost (t : Int)
  | equal (value : Value)
  deriving DecidableEq

/-- What is asked of the fields of a document. -/
abbrev FreshnessCondition := List (String × Expectation)

/-- `{**condition, field: expected}`. -/
def FreshnessCondition.set : FreshnessCondition → String → Expectation → FreshnessCondition
  | [], field, expected => [(field, expected)]
  | (f, e) :: rest, field, expected =>
      if f = field then (field, expected) :: rest else (f, e) :: set rest field expected

/-- `_document_path_value`, in which a null is like a missing field. -/
def documentPathValue (document : Doc) (dottedPath : String) : Option Value :=
  ((Value.document document).follow (pathParts dottedPath)).filter fun v => v != .null

/-- `bson_ms_utc_datetime`. -/
def bsonMsUtcDatetime : Value → Option Int
  | .date us => some (floorMs us)
  | _ => none

/-- The instant of a field that the incoming document carries. -/
def incomingObservedAt (incoming : Doc) (presentFreshnessFields : Option (List String))
    (field : String) : Option Int :=
  if presentFreshnessFields.all (·.contains field) then
    (documentPathValue incoming field).bind bsonMsUtcDatetime
  else none

/-- The conditions of the fields from one on, those before it being missing. -/
def conditionsFrom (incoming : String → Option Int) :
    FreshnessCondition → List String → List FreshnessCondition
  | missingPriorFields, [] => if missingPriorFields.isEmpty then [] else [missingPriorFields]
  | missingPriorFields, field :: rest =>
      let later := conditionsFrom incoming (missingPriorFields.set field .missing) rest
      match incoming field with
      | none => later
      | some t => missingPriorFields.set field (.atMost t) :: later

/-- `_freshness_write_conditions`. -/
def freshnessWriteConditions (document : Doc) (freshnessFields : List String)
    (presentFreshnessFields : Option (List String)) : List FreshnessCondition :=
  conditionsFrom (incomingObservedAt document presentFreshnessFields) [] freshnessFields

/-- `_item_sync_fallback_freshness_conditions`. -/
def itemSyncFallbackFreshnessConditions (existing incoming : Doc)
    (presentFreshnessFields : List String) : List FreshnessCondition :=
  if presentFreshnessFields.contains "last_updated" then
    match bsonMsUtcDatetime (existing.getD "last_updated"),
        bsonMsUtcDatetime (existing.getD "last_meli_sync_at"),
        bsonMsUtcDatetime (incoming.getD "last_updated") with
    | some lastUpdated, some lastSync, some incomingUpdated =>
        if lastUpdated = lastSync ∧ incomingUpdated < lastUpdated then
          [[("last_updated", .equal (existing.getD "last_updated")),
            ("last_meli_sync_at", .equal (existing.getD "last_meli_sync_at"))]]
        else []
    | _, _, _ => []
  else []

/-! ### The two readings -/

/-- What a reading of conditions knows of the fields of a document. -/
structure Reading where
  missing : String → Bool
  atMost : String → Int → Bool
  equal : String → Value → Bool

def Reading.holds (reading : Reading) (condition : FreshnessCondition) : Bool :=
  condition.all fun (field, expected) =>
    match expected with
    | .missing => reading.missing field
    | .atMost t => reading.atMost field t
    | .equal value => reading.equal field value

/-- How `_freshness_condition_matches` reads a document. -/
def pythonReading (document : Doc) : Reading where
  missing field := (documentPathValue document field).isNone
  atMost field t := match (documentPathValue document field).bind bsonMsUtcDatetime with
    | some actual => actual ≤ floorMs t
    | none => false
  equal field value := ((documentPathValue document field).getD .null).pyEq value

/-- How a Mongo filter reads a document. -/
def mongoReading (document : Doc) : Reading where
  missing field := !existsMatches ((Value.document document).reach (pathParts field))
  atMost field t := lteDateMatches ((Value.document document).reach (pathParts field)) t
  equal field value := equalMatches ((Value.document document).reach (pathParts field)) value

/-- `_resource_freshness_allows_write`. -/
def resourceFreshnessAllowsWrite (existing : Option Doc) (incoming : Doc)
    (freshnessFields : List String) (presentFreshnessFields : Option (List String))
    (extraFreshnessConditions : List FreshnessCondition) : Bool :=
  match existing with
  | none => true
  | some stored => (extraFreshnessConditions ++
      freshnessWriteConditions incoming freshnessFields presentFreshnessFields).any
        (pythonReading stored).holds

/-- The alternatives of `_freshness_write_guard`. -/
def freshnessWriteGuard (document : Doc) (freshnessFields : List String)
    (presentFreshnessFields : Option (List String))
    (extraFreshnessConditions : List FreshnessCondition) : List FreshnessCondition :=
  extraFreshnessConditions ++ freshnessWriteConditions document freshnessFields presentFreshnessFields

/-- Whether a document matches a guard; without alternatives the guard is an empty filter. -/
def guardMatches (guard : List FreshnessCondition) (stored : Doc) : Bool :=
  guard.isEmpty || guard.any (mongoReading stored).holds

/-- The arguments that callers pass: distinct fields without more conditions, or the field of an
item with the conditions of its fallback. -/
inductive Passed (stored incoming : Doc) :
    List String → Option (List String) → List FreshnessCondition → Prop
  | fields (freshnessFields : List String) (presentFreshnessFields : Option (List String))
      (some_field : freshnessFields ≠ []) (distinct : freshnessFields.Nodup) :
      Passed stored incoming freshnessFields presentFreshnessFields []
  | item (presentFreshnessFields : List String) :
      Passed stored incoming ["last_updated"] (some presentFreshnessFields)
        (itemSyncFallbackFreshnessConditions stored incoming presentFreshnessFields)

/-! ### What the conditions decide -/

/-- The decision on the first field that is not missing, or consent if there is none. -/
def Reading.decides (reading : Reading) (incoming : String → Option Int) : List String → Bool
  | [] => true
  | field :: rest =>
      if reading.missing field then reading.decides incoming rest
      else (incoming field).any (reading.atMost field)

/-- A field at most an instant is not missing. -/
def Reading.Consistent (reading : Reading) : Prop :=
  ∀ field t, reading.atMost field t = true → reading.missing field = false

variable {reading : Reading} {incoming : String → Option Int}

theorem set_of_not_mem {condition : FreshnessCondition} {field : String} {expected : Expectation}
    (h : field ∉ condition.map Prod.fst) :
    condition.set field expected = condition ++ [(field, expected)] := by
  induction condition with
  | nil => rfl
  | cons entry rest ih =>
      obtain ⟨f, e⟩ := entry
      rw [List.map_cons, List.mem_cons, not_or] at h
      rw [FreshnessCondition.set, if_neg (Ne.symm h.1), ih h.2]
      rfl

/-- With the fields before it asked to be missing, the conditions decide on the first field that
is not. -/
theorem conditionsFrom_holds (consistent : reading.Consistent) {missing : FreshnessCondition}
    {fields : List String} (some_field : missing ≠ [] ∨ fields ≠ [])
    (distinct : (missing.map Prod.fst ++ fields).Nodup) :
    (conditionsFrom incoming missing fields).any reading.holds =
      (reading.holds missing && reading.decides incoming fields) := by
  induction fields generalizing missing with
  | nil =>
      have hmissing : missing.isEmpty = false := by simpa using some_field
      simp [conditionsFrom, hmissing, Reading.decides]
  | cons field rest ih =>
      have hnew : field ∉ missing.map Prod.fst := by
        intro mem
        exact (List.nodup_append.mp distinct).2.2 field mem field List.mem_cons_self rfl
      have hset (expected : Expectation) : missing.set field expected =
          missing ++ [(field, expected)] := set_of_not_mem hnew
      have hlater : (conditionsFrom incoming (missing.set field .missing) rest).any reading.holds =
          (reading.holds (missing.set field .missing) && reading.decides incoming rest) := by
        refine ih (.inl ?_) ?_
        · rw [hset]
          simp
        · rw [hset]
          simpa using distinct
      have hholds (expected : Expectation) : reading.holds (missing.set field expected) =
          (reading.holds missing && reading.holds [(field, expected)]) := by
        rw [hset, Reading.holds, List.all_append]
        rfl
      rw [hholds] at hlater
      cases hincoming : incoming field with
      | none =>
          simp only [conditionsFrom, hincoming, hlater, Reading.decides, Option.any_none]
          cases h : reading.missing field <;> simp [Reading.holds, h]
      | some t =>
          simp only [conditionsFrom, hincoming, List.any_cons, hholds, hlater, Reading.decides,
            Option.any_some]
          cases h : reading.missing field with
          | true =>
              have hlte : reading.atMost field t = false := by
                by_contra hne
                rw [consistent field t (by simpa using hne)] at h
                cases h
              simp [Reading.holds, h, hlte]
          | false => simp [Reading.holds, h]

theorem conditionsFrom_ne_nil {missing : FreshnessCondition} {fields : List String}
    (some_field : missing ≠ [] ∨ fields ≠ []) : conditionsFrom incoming missing fields ≠ [] := by
  induction fields generalizing missing with
  | nil =>
      have hmissing : missing.isEmpty = false := by simpa using some_field
      simp [conditionsFrom, hmissing]
  | cons field rest ih =>
      have hset : missing.set field .missing ≠ [] := by
        cases missing with
        | nil => exact List.cons_ne_nil _ _
        | cons entry _ =>
            obtain ⟨f, e⟩ := entry
            rw [FreshnessCondition.set]
            split <;> exact List.cons_ne_nil _ _
      simp only [conditionsFrom]
      cases incoming field with
      | none => exact ih (.inl hset)
      | some t => exact List.cons_ne_nil _ _

/-! ### The readings of one field -/

theorem pythonReading_consistent (document : Doc) : (pythonReading document).Consistent := by
  intro field t h
  simp only [pythonReading] at h ⊢
  cases hvalue : documentPathValue document field with
  | none => simp [hvalue] at h
  | some v => rfl

theorem mongoReading_consistent (document : Doc) : (mongoReading document).Consistent := by
  intro field t h
  simp only [mongoReading] at h ⊢
  cases hreach : (Value.document document).reach (pathParts field) with
  | nil => simp [hreach, lteDateMatches] at h
  | cons v rest => rfl

/-! ### Agreement -/

/-- What the first field that a filter finds must hold for the two readings to agree. A null is
passed over in Python alone, so a later field must refuse; of an array only a filter looks into
the elements, and only a filter follows a path into them. -/
def Alike (stored : Doc) (incoming : String → Option Int) : List String → Prop
  | [] => True
  | field :: rest =>
      if (Value.document stored).throughArray (pathParts field) then
        if existsMatches ((Value.document stored).reach (pathParts field)) then
          (pythonReading stored).decides incoming rest = (incoming field).any
            fun t => lteDateMatches ((Value.document stored).reach (pathParts field)) t
        else Alike stored incoming rest
      else
        match (Value.document stored).follow (pathParts field) with
        | none => Alike stored incoming rest
        | some .null => (pythonReading stored).decides incoming rest = false
        | some (.array xs) => ∀ t, incoming field = some t → xs.any (isDateBy t) = false
        | some _ => True

variable {stored : Doc} {field : String} {rest : List String}

theorem decides_missing (h : reading.missing field = true) :
    reading.decides incoming (field :: rest) = reading.decides incoming rest := by
  rw [Reading.decides, if_pos h]

theorem decides_present (h : reading.missing field = false) :
    reading.decides incoming (field :: rest) = (incoming field).any (reading.atMost field) := by
  rw [Reading.decides, if_neg (by simp [h])]

theorem pythonReading_missing
    (h : ((Value.document stored).follow (pathParts field)).getD .null = .null) :
    (pythonReading stored).missing field = true := by
  simp only [pythonReading, documentPathValue]
  cases hfollow : (Value.document stored).follow (pathParts field) with
  | none => rfl
  | some v =>
      rw [hfollow] at h
      obtain rfl : v = .null := h
      rfl

theorem pythonReading_value {v : Value} (value : v ≠ .null)
    (h : (Value.document stored).follow (pathParts field) = some v) :
    (pythonReading stored).missing field = false ∧
      ∀ t, (pythonReading stored).atMost field t = isDateBy (floorMs t)
        (match v with | .date s => .date (floorMs s) | v => v) := by
  have hvalue : documentPathValue stored field = some v := by
    rw [documentPathValue, h, Option.filter_some, if_pos (by simpa using value)]
  simp only [pythonReading, hvalue]
  refine ⟨rfl, fun t => ?_⟩
  cases v <;> rfl

theorem mongoReading_value {v : Value}
    (path : (Value.document stored).throughArray (pathParts field) = false)
    (h : (Value.document stored).follow (pathParts field) = some v) :
    (mongoReading stored).missing field = false ∧
      ∀ t, (mongoReading stored).atMost field t = (candidates (some v)).any (isDateBy t) := by
  simp only [mongoReading, reach_of_not_throughArray path, h]
  exact ⟨rfl, fun t => by simp [lteDateMatches]⟩

/-- The two readings of one field through documents, and of those after it. -/
theorem decides_follow_iff (fixed : storedFields stored = stored)
    (whole : ∀ f t, incoming f = some t → floorMs t = t)
    (path : (Value.document stored).throughArray (pathParts field) = false)
    (ih : (pythonReading stored).decides incoming rest = (mongoReading stored).decides incoming rest ↔
      Alike stored incoming rest) :
    (pythonReading stored).decides incoming (field :: rest) =
        (mongoReading stored).decides incoming (field :: rest) ↔
      Alike stored incoming (field :: rest) := by
  have hpath : ¬ (Value.document stored).throughArray (pathParts field) = true := by simp [path]
  rw [Alike, if_neg hpath]
  cases hfollow : (Value.document stored).follow (pathParts field) with
  | none =>
      have hmongo : (mongoReading stored).missing field = true := by
        simp [mongoReading, reach_of_not_throughArray path, hfollow, existsMatches]
      rw [decides_missing (pythonReading_missing (by rw [hfollow]; rfl)), decides_missing hmongo, ih]
  | some v =>
      obtain ⟨hmongo, hmongoLe⟩ := mongoReading_value path hfollow
      rw [decides_present hmongo]
      by_cases hnull : v = .null
      · subst hnull
        rw [decides_missing (pythonReading_missing (by rw [hfollow]; rfl))]
        cases incoming field <;> simp [hmongoLe, candidates, isDateBy]
      obtain ⟨hpython, hpythonLe⟩ := pythonReading_value hnull hfollow
      rw [decides_present hpython]
      cases hincoming : incoming field with
      | none =>
          cases v with
          | null => exact absurd rfl hnull
          | _ => simp
      | some t =>
          rw [Option.any_some, Option.any_some, hpythonLe, hmongoLe, whole field t hincoming]
          cases v with
          | null => exact absurd rfl hnull
          | array xs => simp [candidates, isDateBy]
          | date s =>
              have hs : floorMs s = s := floorMs_of_stored_date (stored_of_follow (by
                show Value.document (storedFields stored) = Value.document stored
                rw [fixed]) hfollow)
              simp [candidates, isDateBy, hs]
          | _ => simp [candidates, isDateBy]

/-- The two readings agree on fields just if the first that a filter finds is alike. -/
theorem decides_iff (fixed : storedFields stored = stored)
    (whole : ∀ f t, incoming f = some t → floorMs t = t) (fields : List String) :
    (pythonReading stored).decides incoming fields = (mongoReading stored).decides incoming fields ↔
      Alike stored incoming fields := by
  induction fields with
  | nil => simp [Reading.decides, Alike]
  | cons field rest ih =>
      cases harray : (Value.document stored).throughArray (pathParts field) with
      | false => exact decides_follow_iff fixed whole harray ih
      | true =>
          have hpython : (pythonReading stored).missing field = true :=
            pythonReading_missing (by rw [follow_of_throughArray harray]; rfl)
          rw [Alike, if_pos harray, decides_missing hpython]
          cases hexists : existsMatches ((Value.document stored).reach (pathParts field)) with
          | false =>
              have hmongo : (mongoReading stored).missing field = true := by
                simp [mongoReading, hexists]
              rw [decides_missing hmongo, ih]
              simp
          | true =>
              have hmongo : (mongoReading stored).missing field = false := by
                simp [mongoReading, hexists]
              rw [decides_present hmongo, if_pos rfl]
              rfl

theorem incomingObservedAt_whole {document : Doc} {present : Option (List String)} {t : Int}
    (h : incomingObservedAt document present field = some t) : floorMs t = t := by
  unfold incomingObservedAt at h
  split at h
  · obtain ⟨v, -, hv⟩ := Option.bind_eq_some_iff.mp h
    cases v with
    | date us =>
        obtain rfl := Option.some.inj hv
        exact floorMs_floorMs us
    | _ => cases hv
  · cases h

variable {document : Doc} {present : Option (List String)} {fields : List String}

theorem freshnessWriteConditions_any (consistent : reading.Consistent) (some_field : fields ≠ [])
    (distinct : fields.Nodup) :
    (freshnessWriteConditions document fields present).any reading.holds =
      reading.decides (incomingObservedAt document present) fields :=
  conditionsFrom_holds consistent (.inr some_field) distinct

theorem guardMatches_eq {extra : List FreshnessCondition} (some_field : fields ≠ []) :
    guardMatches (freshnessWriteGuard document fields present extra) stored =
      (freshnessWriteGuard document fields present extra).any (mongoReading stored).holds := by
  have hne : freshnessWriteConditions document fields present ≠ [] :=
    conditionsFrom_ne_nil (.inr some_field)
  have hguard : (freshnessWriteGuard document fields present extra).isEmpty = false := by
    simp [freshnessWriteGuard, hne]
  rw [guardMatches, hguard, Bool.false_or]

theorem follow_undotted (top : pathParts field = [field]) :
    (Value.document stored).follow (pathParts field) = stored.get? field := by
  rw [top]
  simp only [follow, Doc.get?]
  cases stored.lookup field <;> rfl

theorem reach_undotted (top : pathParts field = [field]) :
    (Value.document stored).reach (pathParts field) = (stored.get? field).toList := by
  rw [top]
  simp only [reach, Doc.get?]
  cases stored.lookup field <;> rfl

/-- Both readings find the date of an undotted field equal to itself. -/
theorem equal_date (top : pathParts field = [field]) {us : Int}
    (h : stored.get? field = some (.date us)) :
    (pythonReading stored).equal field (.date us) = true ∧
      (mongoReading stored).equal field (.date us) = true := by
  have hvalue : documentPathValue stored field = some (.date us) := by
    rw [documentPathValue, follow_undotted top, h]
    rfl
  have hcompare : (Value.date us).compare (.date us) = .eq := by
    rw [Value.compare]
    exact Std.ReflCmp.compare_self
  constructor
  · show ((documentPathValue stored field).getD .null).pyEq (.date us) = true
    rw [hvalue]
    exact beq_self_eq_true us
  · show equalMatches ((Value.document stored).reach (pathParts field)) (.date us) = true
    rw [reach_undotted top, h]
    simp [equalMatches, candidates, hcompare]

theorem get?_of_bsonMs {t : Int} (h : bsonMsUtcDatetime (stored.getD field) = some t) :
    ∃ us, stored.get? field = some (.date us) ∧ stored.getD field = .date us := by
  cases hget : stored.get? field with
  | none => simp [Doc.getD, hget, bsonMsUtcDatetime] at h
  | some v =>
      rw [Doc.getD, hget] at h ⊢
      cases v with
      | date us => exact ⟨us, rfl, rfl⟩
      | _ => cases h

theorem alike_of_date (top : pathParts field = [field]) {us : Int}
    (h : stored.get? field = some (.date us)) : Alike stored incoming (field :: rest) := by
  have hpath : (Value.document stored).throughArray (pathParts field) = false := by
    have hlookup : stored.lookup field = some (.date us) := h
    rw [top]
    simp [throughArray, hlookup]
  rw [Alike, if_neg (by simp [hpath]), follow_undotted top, h]
  trivial

/-- Both readings grant what the fallback of an item asks, and there its date is alike. -/
theorem fallback_holds {present : List String} {condition : FreshnessCondition}
    (mem : condition ∈ itemSyncFallbackFreshnessConditions stored document present) :
    (pythonReading stored).holds condition = true ∧ (mongoReading stored).holds condition = true ∧
      Alike stored incoming ["last_updated"] := by
  have hupdatedTop : pathParts "last_updated" = ["last_updated"] := by decide
  have hsyncTop : pathParts "last_meli_sync_at" = ["last_meli_sync_at"] := by decide
  rw [itemSyncFallbackFreshnessConditions] at mem
  split at mem
  case isFalse => cases mem
  split at mem
  case h_2 => cases mem
  next updated sync _ hupdated hsync _ =>
    split at mem
    case isFalse => cases mem
    obtain rfl := List.mem_singleton.mp mem
    obtain ⟨u, hgetUpdated, hvalueUpdated⟩ := get?_of_bsonMs hupdated
    obtain ⟨s, hgetSync, hvalueSync⟩ := get?_of_bsonMs hsync
    rw [hvalueUpdated, hvalueSync]
    obtain ⟨hpython, hmongo⟩ := equal_date hupdatedTop hgetUpdated
    obtain ⟨hpython', hmongo'⟩ := equal_date hsyncTop hgetSync
    exact ⟨by simp [Reading.holds, hpython, hpython'],
      by simp [Reading.holds, hmongo, hmongo'], alike_of_date hupdatedTop hgetUpdated⟩

variable {extra : List FreshnessCondition}

theorem resourceFreshnessAllowsWrite_eq :
    resourceFreshnessAllowsWrite (some stored) document fields present extra =
      (extra.any (pythonReading stored).holds ||
        (freshnessWriteConditions document fields present).any (pythonReading stored).holds) := by
  simp only [resourceFreshnessAllowsWrite, List.any_append]

theorem guardMatches_freshnessWriteGuard (some_field : fields ≠ []) :
    guardMatches (freshnessWriteGuard document fields present extra) stored =
      (extra.any (mongoReading stored).holds ||
        (freshnessWriteConditions document fields present).any (mongoReading stored).holds) := by
  rw [guardMatches_eq some_field, freshnessWriteGuard, List.any_append]

/-- Without more conditions, distinct fields decide alike just if they are alike. -/
theorem conditions_agree_iff (fixed : storedFields stored = stored) (some_field : fields ≠ [])
    (distinct : fields.Nodup) :
    (freshnessWriteConditions document fields present).any (pythonReading stored).holds =
        (freshnessWriteConditions document fields present).any (mongoReading stored).holds ↔
      Alike stored (incomingObservedAt document present) fields := by
  rw [freshnessWriteConditions_any (pythonReading_consistent stored) some_field distinct,
    freshnessWriteConditions_any (mongoReading_consistent stored) some_field distinct]
  exact decides_iff fixed (fun _ _ => incomingObservedAt_whole) fields

/-- The preflight and the filter agree on a stored document just if its first freshness field
that a filter finds is alike. -/
theorem preflight_agrees_iff (existing : StoredDoc)
    (passed : Passed existing.doc document fields present extra) :
    (resourceFreshnessAllowsWrite (some existing.doc) document fields present extra = true ↔
        guardMatches (freshnessWriteGuard document fields present extra) existing.doc = true) ↔
      Alike existing.doc (incomingObservedAt document present) fields := by
  rw [← Bool.eq_iff_iff]
  cases passed with
  | fields _ _ some_field distinct =>
      rw [resourceFreshnessAllowsWrite_eq, guardMatches_freshnessWriteGuard some_field,
        List.any_nil, List.any_nil, Bool.false_or, Bool.false_or]
      exact conditions_agree_iff existing.fixed some_field distinct
  | item presentFields =>
      rw [resourceFreshnessAllowsWrite_eq, guardMatches_freshnessWriteGuard (List.cons_ne_nil _ _)]
      cases hextra : itemSyncFallbackFreshnessConditions existing.doc document presentFields with
      | nil =>
          rw [List.any_nil, List.any_nil, Bool.false_or, Bool.false_or]
          exact conditions_agree_iff existing.fixed (List.cons_ne_nil _ _) (by decide)
      | cons condition rest =>
          have hmem : condition ∈ itemSyncFallbackFreshnessConditions existing.doc document
              presentFields := hextra ▸ List.mem_cons_self
          obtain ⟨hpython, hmongo, halike⟩ := fallback_holds hmem
          rw [List.any_cons, List.any_cons, hpython, hmongo]
          simpa using halike

/-- An item whose date is an explicit null. -/
def undatedItem : StoredDoc := ⟨[("_id", .string "MLC1"), ("last_updated", .null)], rfl⟩

def datedItem : Doc := [("_id", .string "MLC1"), ("last_updated", .date 0)]

/-- The preflight takes the null for a missing date; the filter matches nothing. -/
theorem undatedItem_preflight_alone :
    ¬ (resourceFreshnessAllowsWrite (some undatedItem.doc) datedItem ["last_updated"]
          (some ["last_updated"])
          (itemSyncFallbackFreshnessConditions undatedItem.doc datedItem ["last_updated"]) = true ↔
        guardMatches (freshnessWriteGuard datedItem ["last_updated"] (some ["last_updated"])
          (itemSyncFallbackFreshnessConditions undatedItem.doc datedItem ["last_updated"]))
          undatedItem.doc = true) := by
  have hpreflight : resourceFreshnessAllowsWrite (some undatedItem.doc) datedItem ["last_updated"]
      (some ["last_updated"])
      (itemSyncFallbackFreshnessConditions undatedItem.doc datedItem ["last_updated"]) = true := by
    decide
  have hfilter : guardMatches (freshnessWriteGuard datedItem ["last_updated"]
      (some ["last_updated"])
      (itemSyncFallbackFreshnessConditions undatedItem.doc datedItem ["last_updated"]))
      undatedItem.doc = false := by
    decide
  rw [hpreflight, hfilter]
  simp

theorem preflight_agrees_iff_undatedItem :
    (resourceFreshnessAllowsWrite (some undatedItem.doc) datedItem ["last_updated"] none [] = true ↔
        guardMatches (freshnessWriteGuard datedItem ["last_updated"] none []) undatedItem.doc =
          true) ↔
      Alike undatedItem.doc (incomingObservedAt datedItem none) ["last_updated"] :=
  preflight_agrees_iff undatedItem (.fields ["last_updated"] none (by decide) (by decide))

end ZelerPlatform.Events.Preflight
