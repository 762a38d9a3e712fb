import ZelerPlatform.Library.Collection
import ZelerPlatform.Library.Mongo.Value
import ZelerPlatform.Library.Program
import ZelerPlatform.Library.Register

/-!
# Replacing a resource when the incoming one is fresh

A version of a question or an order is inserted when the seller has none, and else replaces
the stored document if a freshness guard selects it. The guard goes through the freshness
fields in order: it compares the first one that the stored document has with the incoming
instant of the same field, and selects nothing when the incoming version does not carry it.

Instants are in microseconds, those of documents whole milliseconds.
-/

namespace ZelerPlatform.Events

open Mongo.Value (floorMs)
open Register Transition

/-! ### Documents -/

/-- A document of `orders` or `questions`: its freshness fields by path, and the rest. -/
structure ResourceDocument (κ : Type*) where
  id : String
  sellerId : String
  dates : List (String × ℤ)
  content : κ
  deriving DecidableEq, Repr

/-- A document and the freshness fields that the payload it was made from carried. -/
structure Version (κ : Type*) where
  document : ResourceDocument κ
  presentFreshnessFields : List String
  deriving DecidableEq

def documentPathValue {κ : Type*} (document : ResourceDocument κ) (path : String) : Option ℤ :=
  document.dates.lookup path

/-- A field as a document has it. -/
def dated (field : String) (value : Option ℤ) : List (String × ℤ) :=
  (value.map fun t => (field, floorMs t)).toList

/-- A question as the source returns it. -/
structure QuestionResource (κ : Type*) where
  answerDateCreated : Option ℤ
  dateUpdated : Option ℤ
  lastUpdated : Option ℤ
  updatedAt : Option ℤ
  dateCreated : Option ℤ
  content : κ

/-- An order as the source returns it; one without `date_created` does not validate. -/
structure OrderResource (κ : Type*) where
  lastUpdated : Option ℤ
  dateLastUpdated : Option ℤ
  updatedAt : Option ℤ
  dateClosed : Option ℤ
  dateCreated : ℤ
  content : κ

variable {κ : Type*}

def canonicalQuestionDocument (id sellerId : String) (observedAt : ℤ)
    (resource : QuestionResource κ) : ResourceDocument κ where
  id := id
  sellerId := sellerId
  dates := dated "answer.date_created" resource.answerDateCreated ++
    dated "date_updated" (resource.dateUpdated.or (resource.lastUpdated.or resource.updatedAt)) ++
    dated "date_created" (some (resource.dateCreated.getD observedAt))
  content := resource.content

def questionPresentFreshnessFields (resource : QuestionResource κ) : List String :=
  (if resource.answerDateCreated.isSome then ["answer.date_created"] else []) ++
  (if resource.dateUpdated.isSome || resource.lastUpdated.isSome || resource.updatedAt.isSome then
    ["date_updated"] else []) ++
  if resource.dateCreated.isSome then ["date_created"] else []

def canonicalOrderDocument (id sellerId : String) (resource : OrderResource κ) :
    ResourceDocument κ where
  id := id
  sellerId := sellerId
  dates := dated "last_updated"
      (resource.lastUpdated.or (resource.dateLastUpdated.or resource.updatedAt)) ++
    dated "date_closed" resource.dateClosed ++ dated "date_created" (some resource.dateCreated)
  content := resource.content

def orderPresentFreshnessFields (resource : OrderResource κ) : List String :=
  (if resource.lastUpdated.isSome || resource.dateLastUpdated.isSome || resource.updatedAt.isSome
    then ["last_updated"] else []) ++
  (if resource.dateClosed.isSome then ["date_closed"] else []) ++ ["date_created"]

/-! ### The guard -/

/-- Fields that do not exist, and one that is at most an instant. -/
structure Condition where
  missing : List String
  lte : Option (String × ℤ)

def Condition.selects (condition : Condition) (stored : ResourceDocument κ) : Bool :=
  (condition.missing.all fun field => (documentPathValue stored field).isNone) &&
    condition.lte.all fun (field, t) => (documentPathValue stored field).any (· ≤ t)

/-- The instant of a field that the incoming version carries. -/
def Version.incoming (version : Version κ) (field : String) : Option ℤ :=
  if field ∈ version.presentFreshnessFields then documentPathValue version.document field else none

/-- The conditions of the fields from one on, those before it being missing. -/
def conditionsFrom (version : Version κ) (missingPriorFields : List String) :
    List String → List Condition
  | [] => if missingPriorFields.isEmpty then [] else [⟨missingPriorFields, none⟩]
  | field :: rest =>
      let rest := conditionsFrom version (missingPriorFields ++ [field]) rest
      match version.incoming field with
      | none => rest
      | some t => ⟨missingPriorFields, some (field, t)⟩ :: rest

def freshnessWriteConditions (version : Version κ) (freshnessFields : List String) :
    List Condition := conditionsFrom version [] freshnessFields

/-- Without conditions there is no guard. -/
def freshnessWriteGuard (version : Version κ) (freshnessFields : List String)
    (stored : ResourceDocument κ) : Bool :=
  let conditions := freshnessWriteConditions version freshnessFields
  conditions.isEmpty || conditions.any (·.selects stored)

/-! ### Writing -/

abbrev Resources (κ : Type*) := Collection (ResourceDocument.id (κ := κ))

inductive WriteOp
  | insertIfAbsent
  | find
  | replace
  deriving DecidableEq, Repr

def inScope (version : Version κ) (stored : ResourceDocument κ) : Bool :=
  stored.id == version.document.id && stored.sellerId == version.document.sellerId

/-- An upsert that sets on insertion only: the document, if none is in scope. -/
def setOnInsert (version : Version κ) (collection : Resources κ) :
    Except Collection.WriteError Bool × Resources κ :=
  if collection.matched (inScope version) then (.ok false, collection)
  else match collection.insert version.document with
    | some collection => (.ok true, collection)
    | none => (.error .duplicateKey, collection)

def replaceSelected [DecidableEq κ] (freshnessFields : List String) (version : Version κ)
    (collection : Resources κ) : Except Collection.WriteError Bool × Resources κ :=
  match collection.updateOne (fun stored => inScope version stored &&
      freshnessWriteGuard version freshnessFields stored) fun _ => version.document with
  | .ok (result, collection) => (.ok (0 < result.matched), collection)
  | .error error => (.error error, collection)

def insertResourceIfAbsent (version : Version κ) :
    Program WriteOp (Resources κ) (Except Collection.WriteError Bool) := do
  let inserted ← Program.act .insertIfAbsent (setOnInsert version)
  match inserted with
  | .ok inserted => pure (.ok inserted)
  | .error error => do
      let existing ← Program.read .find fun collection => collection.matched (inScope version)
      pure (if existing then .ok false else .error error)

def replaceResourceIfFresh [DecidableEq κ] (freshnessFields : List String) (version : Version κ) :
    Program WriteOp (Resources κ) (Except Collection.WriteError Bool) := do
  let inserted ← insertResourceIfAbsent version
  match inserted with
  | .error error => pure (.error error)
  | .ok true => pure (.ok true)
  | .ok false => Program.act .replace (replaceSelected freshnessFields version)

def questionFields : List String := ["answer.date_created", "date_updated", "date_created"]

def orderFields : List String := ["last_updated", "date_closed", "date_created"]

def replaceQuestionIfFresh [DecidableEq κ] (version : Version κ) :
    Program WriteOp (Resources κ) (Except Collection.WriteError Bool) :=
  replaceResourceIfFresh questionFields version

def replaceOrderIfFresh [DecidableEq κ] (version : Version κ) :
    Program WriteOp (Resources κ) (Except Collection.WriteError Bool) :=
  replaceResourceIfFresh orderFields version

/-! ### What the guard selects -/

/-- The first freshness field that a document has, with its instant. -/
def leadingField (freshnessFields : List String) (stored : ResourceDocument κ) :
    Option (String × ℤ) :=
  freshnessFields.findSome? fun field => (documentPathValue stored field).map fun t => (field, t)

theorem leadingField_some {freshnessFields : List String} {stored : ResourceDocument κ}
    {field : String} {t : ℤ} (h : leadingField freshnessFields stored = some (field, t)) :
    field ∈ freshnessFields ∧ documentPathValue stored field = some t := by
  obtain ⟨found, hmem, hvalue⟩ := List.exists_of_findSome?_eq_some h
  obtain ⟨t', ht', heq⟩ := Option.map_eq_some_iff.mp hvalue
  obtain ⟨rfl, rfl⟩ := Prod.mk.inj heq
  exact ⟨hmem, ht'⟩

/-- The version carries the leading field of the document, at or after its instant. -/
def Version.supersedes (freshnessFields : List String) (stored : ResourceDocument κ)
    (version : Version κ) : Bool :=
  (leadingField freshnessFields stored).all fun (field, t) =>
    (version.incoming field).any (t ≤ ·)

variable {version : Version κ} {stored : ResourceDocument κ} {freshnessFields : List String}

/-- Conditions on a missing field that the document has select nothing. -/
theorem not_selects_of_exists {missing : List String} {field : String} {t : ℤ}
    (hfield : field ∈ missing) (hvalue : documentPathValue stored field = some t) :
    (conditionsFrom version missing freshnessFields).any (·.selects stored) = false := by
  have hselects : ∀ lte, Condition.selects ⟨missing, lte⟩ stored = false := by
    intro lte
    unfold Condition.selects
    have hall : (missing.all fun field => (documentPathValue stored field).isNone) = false := by
      rw [List.all_eq_false]
      exact ⟨field, hfield, by simp [hvalue]⟩
    rw [hall, Bool.false_and]
  induction freshnessFields generalizing missing with
  | nil =>
      unfold conditionsFrom
      split
      · rfl
      · simp [hselects]
  | cons first rest ih =>
      have hrest : (conditionsFrom version (missing ++ [first]) rest).any (·.selects stored)
          = false := by
        refine ih (List.mem_append_left _ hfield) fun lte => ?_
        unfold Condition.selects
        have hall : ((missing ++ [first]).all fun field =>
            (documentPathValue stored field).isNone) = false := by
          rw [List.all_eq_false]
          exact ⟨field, List.mem_append_left _ hfield, by simp [hvalue]⟩
        rw [hall, Bool.false_and]
      unfold conditionsFrom
      cases version.incoming first with
      | none => exact hrest
      | some t => simp [hselects, hrest]

/-- With the fields before missing, the conditions decide on the leading field. -/
theorem conditionsFrom_selects {missing : List String}
    (hmissing : ∀ field ∈ missing, documentPathValue stored field = none)
    (hne : missing ≠ [] ∨ freshnessFields ≠ []) :
    (conditionsFrom version missing freshnessFields).any (·.selects stored)
      = version.supersedes freshnessFields stored := by
  have hall : (missing.all fun field => (documentPathValue stored field).isNone) = true := by
    rw [List.all_eq_true]
    intro field hfield
    simp [hmissing field hfield]
  induction freshnessFields generalizing missing with
  | nil =>
      have hmissing : missing.isEmpty = false := by simpa using hne
      unfold conditionsFrom
      rw [hmissing]
      simp [Condition.selects, hall, Version.supersedes, leadingField]
  | cons first rest ih =>
      unfold conditionsFrom
      cases hvalue : documentPathValue stored first with
      | none =>
          have hprior : ∀ field ∈ missing ++ [first], documentPathValue stored field = none := by
            intro field hfield
            rcases List.mem_append.mp hfield with hfield | hfield
            · exact hmissing field hfield
            · obtain rfl := List.mem_singleton.mp hfield
              exact hvalue
          have hrest := ih hprior (.inl (by simp)) (by simp [hall, hvalue])
          have hleading : version.supersedes (first :: rest) stored
              = version.supersedes rest stored := by
            simp [Version.supersedes, leadingField, hvalue]
          rw [hleading, ← hrest]
          cases version.incoming first with
          | none => rfl
          | some t => simp [Condition.selects, hvalue]
      | some t =>
          have hrest : (conditionsFrom version (missing ++ [first]) rest).any (·.selects stored)
              = false := not_selects_of_exists (List.mem_append_right _ List.mem_cons_self) hvalue
          have hleading : version.supersedes (first :: rest) stored
              = (version.incoming first).any (t ≤ ·) := by
            simp [Version.supersedes, leadingField, hvalue]
          rw [hleading]
          cases version.incoming first with
          | none => exact hrest
          | some incoming =>
              rw [List.any_cons, hrest]
              simp [Condition.selects, hall, hvalue]

theorem conditionsFrom_ne_nil {missing : List String} (hne : missing ≠ [] ∨ freshnessFields ≠ []) :
    conditionsFrom version missing freshnessFields ≠ [] := by
  induction freshnessFields generalizing missing with
  | nil =>
      have hmissing : missing.isEmpty = false := by simpa using hne
      simp [conditionsFrom, hmissing]
  | cons first rest ih =>
      unfold conditionsFrom
      cases version.incoming first with
      | none => exact ih (.inl (by simp))
      | some t => exact List.cons_ne_nil _ _

theorem freshnessWriteGuard_eq :
    freshnessWriteGuard version freshnessFields stored
      = version.supersedes freshnessFields stored := by
  show ((conditionsFrom version [] freshnessFields).isEmpty ||
    (conditionsFrom version [] freshnessFields).any (·.selects stored)) = _
  cases freshnessFields with
  | nil => rfl
  | cons first rest =>
      have hne : [] ≠ ([] : List String) ∨ first :: rest ≠ [] := .inr (by simp)
      rw [conditionsFrom_selects (by simp) hne,
        List.isEmpty_eq_false_iff.mpr (conditionsFrom_ne_nil hne), Bool.false_or]

theorem supersedes_iff :
    version.supersedes freshnessFields stored = true ↔
      ∀ field t, leadingField freshnessFields stored = some (field, t) →
        ∃ incoming, version.incoming field = some incoming ∧ t ≤ incoming := by
  unfold Version.supersedes
  cases leadingField freshnessFields stored with
  | none => simp
  | some leading =>
      obtain ⟨field, t⟩ := leading
      simp [Option.any_eq_true]

/-! ### One call on the collection -/

/-- The document under an id is of the seller, if there is one. -/
def Scoped (id sellerId : String) (collection : Resources κ) : Prop :=
  ∀ stored, collection.byKey id = some stored → stored.sellerId = sellerId

variable {id sellerId : String} {collection : Resources κ}

theorem inScope_iff (hid : version.document.id = id) (hseller : version.document.sellerId = sellerId) :
    inScope version stored = true ↔ stored.id = id ∧ stored.sellerId = sellerId := by
  simp [inScope, hid, hseller]

theorem setOnInsert_of_none (hid : version.document.id = id)
    (hnone : collection.byKey id = none) :
    ∃ collection', setOnInsert version collection = (.ok true, collection') ∧
      collection'.byKey id = some version.document := by
  have hunmatched : collection.matched (inScope version) = false := by
    rw [Collection.matched_eq_false]
    intro stored hmem
    have := Collection.byKey_none.mp hnone stored hmem
    simp [inScope, hid, this]
  unfold setOnInsert
  rw [hunmatched]
  cases hinsert : collection.insert version.document with
  | none =>
      obtain ⟨stored, hstored⟩ := Collection.insert_eq_none.mp hinsert
      rw [hid, hnone] at hstored
      cases hstored
  | some collection' =>
      refine ⟨collection', rfl, ?_⟩
      rw [Collection.byKey_insert hinsert, if_pos hid.symm]

theorem setOnInsert_of_some (hid : version.document.id = id)
    (hseller : version.document.sellerId = sellerId) (hscoped : Scoped id sellerId collection)
    (hsome : collection.byKey id = some stored) :
    setOnInsert version collection = (.ok false, collection) := by
  have hmatched : collection.matched (inScope version) = true := by
    obtain ⟨hmem, hkey⟩ := Collection.byKey_some.mp hsome
    exact List.any_eq_true.mpr ⟨stored, hmem, (inScope_iff hid hseller).mpr ⟨hkey, hscoped _ hsome⟩⟩
  unfold setOnInsert
  rw [if_pos hmatched]

/-- A replacement offers the version to the document under its id. -/
theorem byKey_replaceSelected [DecidableEq κ] (hid : version.document.id = id)
    (hseller : version.document.sellerId = sellerId) (hscoped : Scoped id sellerId collection)
    (hsome : collection.byKey id = some stored) :
    (replaceSelected freshnessFields version collection).2.byKey id =
      if version.supersedes freshnessFields stored then some version.document else some stored := by
  have hfind : collection.findOne (fun stored => inScope version stored &&
      freshnessWriteGuard version freshnessFields stored)
      = if version.supersedes freshnessFields stored then some stored else none := by
    rw [Collection.findOne_of_key (k := id) fun a ha => ?_, hsome]
    · have hin : inScope version stored = true :=
        (inScope_iff hid hseller).mpr ⟨(Collection.byKey_some.mp hsome).2, hscoped _ hsome⟩
      rw [Option.filter_some, hin, Bool.true_and, freshnessWriteGuard_eq]
    · rw [Bool.and_eq_true, inScope_iff hid hseller] at ha
      exact ha.1.1
  have hkey : version.document.id = stored.id := hid.trans (Collection.byKey_some.mp hsome).2.symm
  unfold replaceSelected Collection.updateOne
  rw [hfind]
  by_cases hs : version.supersedes freshnessFields stored = true
  · rw [if_pos hs, if_pos hs]
    simp only [if_pos hkey]
    rw [Collection.byKey_replace, if_pos hid.symm, hsome]
    rfl
  · rw [if_neg hs, if_neg hs]
    exact hsome

/-! ### Calls side by side -/

section

variable {ι : Type*} {versions : ι → Version κ}

/-- All versions are of one resource of a seller. -/
structure OfResource (id sellerId : String) (versions : ι → Version κ) : Prop where
  id : ∀ i, (versions i).document.id = id
  seller : ∀ i, (versions i).document.sellerId = sellerId

def documents (versions : ι → Version κ) (i : ι) : ResourceDocument κ := (versions i).document

def guards (freshnessFields : List String) (versions : ι → Version κ)
    (stored : ResourceDocument κ) (i : ι) : Bool := (versions i).supersedes freshnessFields stored

/-- A call offers its version once; the others may offer theirs at any time. -/
def offering (id : String) (freshnessFields : List String) (versions : ι → Version κ) (i : ι) :
    Contract (Resources κ) (Except Collection.WriteError Bool) where
  rely s t := ∃ order,
    t.byKey id = offers (documents versions) (guards freshnessFields versions) (s.byKey id) order
  guar s t := t.byKey id = s.byKey id ∨
    t.byKey id = offer (documents versions) (guards freshnessFields versions) (s.byKey id) i
  post _ t := ∃ before after, t.byKey id =
    offers (documents versions) (guards freshnessFields versions) none (before ++ i :: after)
  refl _ := ⟨[], rfl⟩
  trans := by
    rintro s t u ⟨first, hst⟩ ⟨second, htu⟩
    exact ⟨first ++ second, by rw [htu, hst, offers_append]⟩

theorem rely_of_guar {i j : ι} {s t : Resources κ}
    (h : (offering id freshnessFields versions i).guar s t) :
    (offering id freshnessFields versions j).rely s t := by
  rcases h with h | h
  · exact ⟨[], h⟩
  · exact ⟨[i], h⟩

theorem OfResource.scoped (h : OfResource id sellerId versions) {order : List ι}
    (harrived : collection.byKey id =
      offers (documents versions) (guards freshnessFields versions) none order) :
    Scoped id sellerId collection := by
  intro stored hstored
  rw [harrived] at hstored
  rcases offers_cases (documents versions) (guards freshnessFields versions) none order with
    hnone | ⟨i, -, hi⟩
  · rw [hnone] at hstored
    cases hstored
  · rw [hi] at hstored
    rw [← Option.some.inj hstored]
    exact h.seller i

variable [DecidableEq κ]

theorem meets_replaceResourceIfFresh (h : OfResource id sellerId versions) (i : ι)
    (habsent : collection.byKey id = none) :
    Program.Meets (offering id freshnessFields versions i) (fun _ _ => True)
      (replaceResourceIfFresh freshnessFields (versions i)) collection := by
  unfold replaceResourceIfFresh insertResourceIfAbsent
  rw [Program.bind_assoc]
  apply Program.Meets.act
  rintro s ⟨first, hs⟩ -
  rw [habsent] at hs
  cases hstored : s.byKey id with
  | none =>
      obtain ⟨s', hset, hs'⟩ := setOnInsert_of_none (h.id i) hstored
      rw [hset]
      refine ⟨.inr ?_, ?_⟩
      · rw [hstored]
        exact hs'
      · apply Program.Meets.pure
        rintro t ⟨after, ht⟩
        refine ⟨[], after, ?_⟩
        rw [ht, hs']
        rfl
  | some stored =>
      rw [setOnInsert_of_some (h.id i) (h.seller i) (h.scoped hs) hstored]
      refine ⟨.inl rfl, ?_⟩
      apply Program.Meets.last
      rintro t ⟨second, ht⟩ -
      have harrived : t.byKey id = offers (documents versions) (guards freshnessFields versions)
          none (first ++ second) := by
        rw [ht, hs, offers_append]
      obtain ⟨held, hheld⟩ : ∃ held, t.byKey id = some held := by
        rw [ht, hstored]
        rcases offers_cases (documents versions) (guards freshnessFields versions) (some stored) second
          with hsame | ⟨j, -, hj⟩
        · exact ⟨_, hsame⟩
        · exact ⟨_, hj⟩
      have hoffer : (replaceSelected freshnessFields (versions i) t).2.byKey id =
          offer (documents versions) (guards freshnessFields versions) (t.byKey id) i := by
        rw [byKey_replaceSelected (h.id i) (h.seller i) (h.scoped harrived) hheld, hheld]
        rfl
      refine ⟨.inr hoffer, ?_⟩
      rintro u ⟨after, hu⟩
      refine ⟨first ++ second, after, ?_⟩
      rw [hu, hoffer, offers_append, ← harrived, offers_cons]

/-- Calls one after another offer their versions in that order. -/
theorem byKey_run_replaceResourceIfFresh (h : OfResource id sellerId versions) (i : ι)
    {order : List ι} (harrived : collection.byKey id =
      offers (documents versions) (guards freshnessFields versions) none order) :
    ((replaceResourceIfFresh freshnessFields (versions i)).run collection).2.byKey id =
      offer (documents versions) (guards freshnessFields versions) (collection.byKey id) i := by
  unfold replaceResourceIfFresh insertResourceIfAbsent
  simp only [Program.run_bind, Program.run_act]
  cases hstored : collection.byKey id with
  | none =>
      obtain ⟨collection', hset, hcollection'⟩ := setOnInsert_of_none (h.id i) hstored
      rw [hset]
      exact hcollection'
  | some stored =>
      rw [setOnInsert_of_some (h.id i) (h.seller i) (h.scoped harrived) hstored]
      exact byKey_replaceSelected (h.id i) (h.seller i) (h.scoped harrived) hstored

end

/-! ### All versions -/

variable [DecidableEq κ] {ι : Type*} [DecidableEq ι]

/-- The calls for all versions, about to start. -/
def beginWrites (freshnessFields : List String) (versions : ι → Version κ)
    (collection : Resources κ) :
    Pool ι (Resources κ) (Program WriteOp (Resources κ) (Except Collection.WriteError Bool)) where
  shared := collection
  control i := replaceResourceIfFresh freshnessFields (versions i)

/-- Whatever the interleaving, the same document is stored when all calls have returned. -/
def OrderIndependent (id : String) (freshnessFields : List String) (versions : ι → Version κ)
    (collection : Resources κ) : Prop :=
  ∀ es pool es' pool', Run Program.Step (beginWrites freshnessFields versions collection) es pool →
    Run Program.Step (beginWrites freshnessFields versions collection) es' pool' →
    (∀ i, ∃ result, pool.control i = .ret result) →
    (∀ i, ∃ result, pool'.control i = .ret result) →
    pool.shared.byKey id = pool'.shared.byKey id

/-- Wherever the version has an instant of the stored document's field, it is an older one. -/
def AllOlder (freshnessFields : List String) (version : Version κ) (stored : ResourceDocument κ) :
    Prop :=
  ∀ field ∈ freshnessFields, ∀ incoming t, version.incoming field = some incoming →
    documentPathValue stored field = some t → incoming < t

/-- No step of any run replaces a document by a version that is older throughout. -/
def NeverOlder (id : String) (freshnessFields : List String) (versions : ι → Version κ)
    (collection : Resources κ) : Prop :=
  ∀ es pool e pool', Run Program.Step (beginWrites freshnessFields versions collection) es pool →
    Program.Step pool e pool' → ∀ stored stored', pool.shared.byKey id = some stored →
    pool'.shared.byKey id = some stored' → stored' ≠ stored →
    ∃ i, stored' = (versions i).document ∧ ¬ AllOlder freshnessFields (versions i) stored

variable {versions : ι → Version κ}

/-- What is stored along every run has arrived in some order. -/
theorem exists_arrived (h : OfResource id sellerId versions) (habsent : collection.byKey id = none)
    {es : List (ι × WriteOp)}
    {pool : Pool ι (Resources κ) (Program WriteOp (Resources κ) (Except Collection.WriteError Bool))}
    (run : Run Program.Step (beginWrites freshnessFields versions collection) es pool) :
    ∃ order, pool.shared.byKey id =
      offers (documents versions) (guards freshnessFields versions) none order := by
  refine Program.invariant_of_run (c := offering id freshnessFields versions) (I := fun collection => ∃ order,
      collection.byKey id = offers (documents versions) (guards freshnessFields versions) none order)
    (fun _ _ _ _ _ => rely_of_guar) (fun i => meets_replaceResourceIfFresh h i habsent)
    ⟨[], habsent⟩ ?_ (Program.always run)
  rintro i s t ⟨order, hs⟩ (hsame | hoffer)
  · exact ⟨order, hsame.trans hs⟩
  · exact ⟨order ++ [i], by rw [hoffer, hs, offers_append, offers_cons, offers_nil]⟩

theorem neverOlder (freshnessFields : List String) (h : OfResource id sellerId versions)
    (habsent : collection.byKey id = none)
    (hdated : ∀ i, (leadingField freshnessFields (versions i).document).isSome = true) :
    NeverOlder id freshnessFields versions collection := by
  intro es pool e pool' run step stored stored' hstored hstored' hne
  obtain ⟨order, harrived⟩ := exists_arrived h habsent run
  have hguar := Program.guar_of_step (c := offering id freshnessFields versions) (fun _ _ _ _ _ => rely_of_guar)
    (fun i => meets_replaceResourceIfFresh h i habsent) (Program.always run)
    (Program.always_step step)
  rcases hguar with hsame | hoffer
  · rw [hstored, hstored'] at hsame
    exact absurd (Option.some.inj hsame) hne
  · rw [hstored, hstored', offer_some] at hoffer
    split at hoffer
    · next hguard =>
        refine ⟨e.1, Option.some.inj hoffer, fun holder => ?_⟩
        have hleading : (leadingField freshnessFields stored).isSome = true := by
          rw [harrived] at hstored
          rcases offers_cases (documents versions) (guards freshnessFields versions) none order with
            hnone | ⟨i, -, hi⟩
          · rw [hnone] at hstored
            cases hstored
          · rw [hi] at hstored
            rw [← Option.some.inj hstored]
            exact hdated i
        obtain ⟨⟨field, t⟩, hfield⟩ := Option.isSome_iff_exists.mp hleading
        obtain ⟨incoming, hincoming, hle⟩ := supersedes_iff.mp hguard field t hfield
        obtain ⟨hmem, hvalue⟩ := leadingField_some hfield
        exact absurd hle (not_le.mpr (holder field hmem incoming t hincoming hvalue))
    · exact absurd (Option.some.inj hoffer) hne

/-- Along every run to the end the stored document is one of some order of arrival. -/
theorem independent_of_dominates (h : OfResource id sellerId versions)
    (habsent : collection.byKey id = none) {newest : ι}
    (hdominates : Dominates (documents versions) (guards freshnessFields versions) newest) :
    OrderIndependent id freshnessFields versions collection := by
  have hfinal : ∀ es pool, Run Program.Step (beginWrites freshnessFields versions collection) es
      pool → (∀ i, ∃ result, pool.control i = .ret result) →
        pool.shared.byKey id = some (versions newest).document := by
    intro es pool run returned
    obtain ⟨result, hreturned⟩ := returned newest
    obtain ⟨before, after, heq⟩ := Program.post_of_run (c := offering id freshnessFields versions) (fun _ _ _ _ _ => rely_of_guar)
      (fun i => meets_replaceResourceIfFresh h i habsent) (Program.always run) hreturned
    rw [heq]
    exact offers_of_dominates hdominates (List.mem_append_right _ List.mem_cons_self)
  intro es pool es' pool' run run' returned returned'
  rw [hfinal es pool run returned, hfinal es' pool' run' returned']

theorem exists_run_of_arrival (freshnessFields : List String) (h : OfResource id sellerId versions)
    (habsent : collection.byKey id = none) {order : List ι} (harrival : Arrival order) :
    ∃ es pool, Run Program.Step (beginWrites freshnessFields versions collection) es pool ∧
      (∀ i, ∃ result, pool.control i = .ret result) ∧ pool.shared.byKey id =
        offers (documents versions) (guards freshnessFields versions) none order := by
  obtain ⟨es, pool, run, hshared, hreturned, -⟩ := Program.run_in_order harrival.1
    (beginWrites freshnessFields versions collection)
  refine ⟨es, pool, run, fun i => hreturned i (harrival.2 i), ?_⟩
  rw [hshared]
  show Collection.byKey (order.foldl (fun collection i =>
    ((replaceResourceIfFresh freshnessFields (versions i)).run collection).2) collection) id = _
  clear harrival hshared hreturned run
  induction order using List.reverseRecOn with
  | nil => exact habsent
  | append_singleton before i ih =>
      rw [List.foldl_append, offers_append]
      exact (byKey_run_replaceResourceIfFresh h i ih).trans (by rw [ih]; rfl)

theorem orderIndependent_iff [Finite ι] [Nonempty ι] (freshnessFields : List String)
    (h : OfResource id sellerId versions)
    (habsent : collection.byKey id = none)
    (compare : ∀ i j, (versions i).document = (versions j).document →
      (∀ stored, (versions i).supersedes freshnessFields stored = true →
        (versions j).supersedes freshnessFields stored = true) ∨
      ∀ stored, (versions j).supersedes freshnessFields stored = true →
        (versions i).supersedes freshnessFields stored = true) :
    OrderIndependent id freshnessFields versions collection ↔
      ∃ newest, Dominates (documents versions) (guards freshnessFields versions) newest := by
  constructor
  · intro independent
    have hcompare : ∀ i j, documents versions i = documents versions j →
        (∀ stored, guards freshnessFields versions stored i = true →
          guards freshnessFields versions stored j = true) ∨
        ∀ stored, guards freshnessFields versions stored j = true →
          guards freshnessFields versions stored i = true := compare
    refine (independent_iff hcompare).mp fun order order' harrival harrival' => ?_
    obtain ⟨es, pool, run, returned, heq⟩ :=
      exists_run_of_arrival freshnessFields h habsent harrival
    obtain ⟨es', pool', run', returned', heq'⟩ :=
      exists_run_of_arrival freshnessFields h habsent harrival'
    rw [← heq, ← heq']
    exact independent es pool es' pool' run run' returned returned'
  · rintro ⟨newest, hdominates⟩
    exact independent_of_dominates h habsent hdominates

/-! ### Questions and orders -/

/-- The payload carried every freshness field of the document, `date_created` perhaps not. -/
def Version.Carries (version : Version κ) : Prop :=
  ∀ field, version.incoming field = documentPathValue version.document field ∨
    (field = "date_created" ∧ version.incoming field = none)

omit [DecidableEq κ] in
theorem supersedes_mono {v w : Version κ}
    (h : ∀ field t, v.incoming field = some t → w.incoming field = some t)
    (hs : v.supersedes freshnessFields stored = true) :
    w.supersedes freshnessFields stored = true := by
  rw [supersedes_iff] at hs ⊢
  intro field t hleading
  obtain ⟨incoming, hincoming, hle⟩ := hs field t hleading
  exact ⟨incoming, h field incoming hincoming, hle⟩

omit [DecidableEq κ] in
/-- Of two versions with one document, the one that carried its creation supersedes more. -/
theorem compare_of_carries {v w : Version κ} (hv : v.Carries) (hw : w.Carries)
    (hdoc : v.document = w.document) :
    (∀ stored, v.supersedes freshnessFields stored = true →
      w.supersedes freshnessFields stored = true) ∨
    ∀ stored, w.supersedes freshnessFields stored = true →
      v.supersedes freshnessFields stored = true := by
  by_cases hcreated : v.incoming "date_created" = none
  · refine .inl fun stored => supersedes_mono fun field t hincoming => ?_
    rcases hv field with hvalue | ⟨rfl, hnone⟩
    · rcases hw field with hvalue' | ⟨rfl, -⟩
      · rw [hvalue', ← hdoc, ← hvalue]
        exact hincoming
      · rw [hcreated] at hincoming
        cases hincoming
    · rw [hnone] at hincoming
      cases hincoming
  · refine .inr fun stored => supersedes_mono fun field t hincoming => ?_
    rcases hw field with hvalue' | ⟨-, hnone⟩
    · rcases hv field with hvalue | ⟨rfl, hnone⟩
      · rw [hvalue, hdoc, ← hvalue']
        exact hincoming
      · exact absurd hnone hcreated
    · rw [hnone] at hincoming
      cases hincoming

/-- A version of a question, observed at an instant. -/
def questionVersion (id sellerId : String) (observedAt : ℤ) (resource : QuestionResource κ) :
    Version κ :=
  ⟨canonicalQuestionDocument id sellerId observedAt resource,
    questionPresentFreshnessFields resource⟩

def orderVersion (id sellerId : String) (resource : OrderResource κ) : Version κ :=
  ⟨canonicalOrderDocument id sellerId resource, orderPresentFreshnessFields resource⟩

omit [DecidableEq κ] in
theorem mem_dated {field : String} {value : Option ℤ} {p : String × ℤ} (h : p ∈ dated field value) :
    p.1 = field ∧ value.isSome = true := by
  simp only [dated, Option.mem_toList, Option.map_eq_some_iff] at h
  obtain ⟨t, rfl, rfl⟩ := h
  exact ⟨rfl, rfl⟩

omit [DecidableEq κ] in
theorem Version.carries_of_mem (h : ∀ p ∈ version.document.dates, p.1 ≠ "date_created" →
    p.1 ∈ version.presentFreshnessFields) : version.Carries := by
  intro field
  unfold Version.incoming
  by_cases hpresent : field ∈ version.presentFreshnessFields
  · exact .inl (if_pos hpresent)
  · rw [if_neg hpresent]
    by_cases hcreated : field = "date_created"
    · exact .inr ⟨hcreated, rfl⟩
    · left
      cases hvalue : documentPathValue version.document field with
      | none => rfl
      | some t =>
          obtain ⟨before, after, hdates, -⟩ := List.lookup_eq_some_iff.mp hvalue
          refine absurd (h (field, t) ?_ hcreated) hpresent
          rw [hdates]
          simp

omit [DecidableEq κ] in
theorem carries_questionVersion {observedAt : ℤ} {resource : QuestionResource κ} :
    (questionVersion id sellerId observedAt resource).Carries := by
  refine Version.carries_of_mem fun p hp hcreated => ?_
  simp only [questionVersion, canonicalQuestionDocument, List.mem_append] at hp
  simp only [questionVersion, questionPresentFreshnessFields, List.mem_append]
  rcases hp with (hp | hp) | hp
  · obtain ⟨hfield, hsome⟩ := mem_dated hp
    rw [hfield, if_pos hsome]
    simp
  · obtain ⟨hfield, hsome⟩ := mem_dated hp
    rw [hfield]
    simp only [Option.isSome_or] at hsome
    rw [Bool.or_assoc, if_pos hsome]
    simp
  · exact absurd (mem_dated hp).1 hcreated

omit [DecidableEq κ] in
theorem carries_orderVersion {resource : OrderResource κ} :
    (orderVersion id sellerId resource).Carries := by
  refine Version.carries_of_mem fun p hp hcreated => ?_
  simp only [orderVersion, canonicalOrderDocument, List.mem_append] at hp
  simp only [orderVersion, orderPresentFreshnessFields, List.mem_append]
  rcases hp with (hp | hp) | hp
  · obtain ⟨hfield, hsome⟩ := mem_dated hp
    rw [hfield]
    simp only [Option.isSome_or] at hsome
    rw [Bool.or_assoc, if_pos hsome]
    simp
  · obtain ⟨hfield, hsome⟩ := mem_dated hp
    rw [hfield, if_pos hsome]
    simp
  · exact absurd (mem_dated hp).1 hcreated

omit [DecidableEq κ] in
/-- A document with a creation instant has a leading field. -/
theorem leadingField_isSome {document : ResourceDocument κ} (hmem : "date_created" ∈ freshnessFields)
    (hcreated : (documentPathValue document "date_created").isSome = true) :
    (leadingField freshnessFields document).isSome = true := by
  unfold leadingField
  rw [List.findSome?_isSome_iff]
  exact ⟨"date_created", hmem, by simpa using hcreated⟩

omit [DecidableEq κ] in
theorem documentPathValue_isSome {document : ResourceDocument κ} {field : String} {t : ℤ}
    (hmem : (field, t) ∈ document.dates) : (documentPathValue document field).isSome = true := by
  unfold documentPathValue
  rw [List.lookup_isSome_iff]
  exact ⟨(field, t), hmem, by simp⟩

/-- One version supersedes the document of every other one and no version supersedes its own. -/
def NewestOf (freshnessFields : List String) (versions : ι → Version κ) (newest : ι) : Prop :=
  ∀ i, (versions i).document ≠ (versions newest).document →
    (versions newest).supersedes freshnessFields (versions i).document = true ∧
      (versions i).supersedes freshnessFields (versions newest).document = false

theorem newest_wins_iff_of_carries [Finite ι] (h : OfResource id sellerId versions)
    (habsent : collection.byKey id = none) (hcarries : ∀ i, (versions i).Carries)
    (hmem : "date_created" ∈ freshnessFields)
    (hcreated : ∀ i, (documentPathValue (versions i).document "date_created").isSome = true) :
    (OrderIndependent id freshnessFields versions collection ∧
      NeverOlder id freshnessFields versions collection) ↔
    (IsEmpty ι ∨ ∃ newest, NewestOf freshnessFields versions newest) := by
  have hnever := neverOlder freshnessFields h habsent fun i =>
    leadingField_isSome hmem (hcreated i)
  rcases isEmpty_or_nonempty ι with hempty | hnonempty
  · refine ⟨fun _ => .inl hempty, fun _ => ⟨?_, hnever⟩⟩
    -- without calls there is nothing to run
    have hstay : ∀ es pool, Run Program.Step (beginWrites freshnessFields versions collection) es
        pool → pool.shared.byKey id = none := by
      intro es pool run
      obtain ⟨order, harrived⟩ := exists_arrived h habsent run
      rw [harrived]
      cases order with
      | nil => rfl
      | cons i rest => exact (hempty.false i).elim
    intro es pool es' pool' run run' _ _
    rw [hstay es pool run, hstay es' pool' run']
  · have hiff := orderIndependent_iff freshnessFields h habsent
      fun i j => compare_of_carries (hcarries i) (hcarries j)
    constructor
    · rintro ⟨hindependent, -⟩
      exact .inr (hiff.mp hindependent)
    · rintro (hempty | hnewest)
      · exact (hempty.false hnonempty.some).elim
      · exact ⟨hiff.mpr hnewest, hnever⟩

/-- Questions and orders: the order of arrival does not matter exactly when one of the
versions supersedes the others; older versions never replace a stored one. -/
theorem newest_wins_iff [Finite ι] (id sellerId : String) (collection : Resources κ)
    (habsent : collection.byKey id = none) :
    (∀ (resources : ι → QuestionResource κ) (observedAt : ι → ℤ),
      let versions := fun i => questionVersion id sellerId (observedAt i) (resources i)
      (OrderIndependent id questionFields versions collection ∧
        NeverOlder id questionFields versions collection) ↔
      (IsEmpty ι ∨ ∃ newest, NewestOf questionFields versions newest)) ∧
    (∀ resources : ι → OrderResource κ,
      let versions := fun i => orderVersion id sellerId (resources i)
      (OrderIndependent id orderFields versions collection ∧
        NeverOlder id orderFields versions collection) ↔
      (IsEmpty ι ∨ ∃ newest, NewestOf orderFields versions newest)) := by
  constructor
  · intro resources observedAt versions
    refine newest_wins_iff_of_carries ⟨fun _ => rfl, fun _ => rfl⟩ habsent
      (fun i => carries_questionVersion) (by decide) fun i => ?_
    refine documentPathValue_isSome (t := floorMs ((resources i).dateCreated.getD (observedAt i))) ?_
    simp [versions, questionVersion, canonicalQuestionDocument, dated]
  · intro resources versions
    refine newest_wins_iff_of_carries ⟨fun _ => rfl, fun _ => rfl⟩ habsent
      (fun i => carries_orderVersion) (by decide) fun i => ?_
    refine documentPathValue_isSome (t := floorMs (resources i).dateCreated) ?_
    simp [versions, orderVersion, canonicalOrderDocument, dated]

/-- A question that was answered, and one that was updated later and has no answer. -/
def answeredThenUpdated : Fin 2 → QuestionResource String
  | 0 => ⟨some 10000, some 5000, none, none, none, "answered"⟩
  | 1 => ⟨none, some 8000, none, none, none, "banned"⟩

/-- An order and its cancellation, with all instants. -/
def paidThenCancelled : Fin 2 → OrderResource String
  | 0 => ⟨some 3000, none, none, some 2000, 1000, "paid"⟩
  | 1 => ⟨some 6000, none, none, some 5000, 4000, "cancelled"⟩

theorem paidThenCancelled_independent :
    OrderIndependent "1" orderFields
      (fun i => orderVersion "1" "82" (paidThenCancelled i)) .empty := by
  refine (((newest_wins_iff "1" "82" .empty rfl).2 paidThenCancelled).mpr (.inr ⟨1, ?_⟩)).1
  unfold NewestOf
  decide

/-- Neither of the two may replace the other, so the first one to arrive stays. -/
theorem answeredThenUpdated_dependent :
    ¬ OrderIndependent "1" questionFields
      (fun i => questionVersion "1" "82" 20000 (answeredThenUpdated i)) .empty := by
  intro independent
  have hrun : ∀ schedule : List (Fin 2), schedule = [0, 1, 1] ∨ schedule = [1, 0, 0] →
      (perform Program.next schedule (beginWrites questionFields
        (fun i => questionVersion "1" "82" 20000 (answeredThenUpdated i)) .empty)).any
        (fun result => decide (∀ i, (Program.next i result.2).isNone = true) &&
          decide ((result.2.shared.byKey "1").map (·.content)
            = some (if schedule = [0, 1, 1] then "answered" else "banned"))) = true := by
    rintro schedule (rfl | rfl)
    · decide +kernel
    · decide +kernel
  obtain ⟨⟨es, pool⟩, hperform, hpool⟩ := (Option.any_eq_true _ _).mp (hrun _ (.inl rfl))
  obtain ⟨⟨es', pool'⟩, hperform', hpool'⟩ := (Option.any_eq_true _ _).mp (hrun _ (.inr rfl))
  simp only [Bool.and_eq_true, decide_eq_true_eq] at hpool hpool'
  have hsame := independent es pool es' pool' (Program.run_of_schedule hperform)
    (Program.run_of_schedule hperform') (fun i => Program.returned_of_next (hpool.1 i))
    (fun i => Program.returned_of_next (hpool'.1 i))
  rw [hsame, hpool'.2] at hpool
  exact absurd hpool.2 (by decide)

end ZelerPlatform.Events
