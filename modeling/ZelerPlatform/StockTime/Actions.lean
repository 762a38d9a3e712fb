import Mathlib.Data.List.Dedup
import ZelerPlatform.Library.Mongo.Canonical
import ZelerPlatform.StockTime.Plan

/-!
# What an action plan does

A plan has one action for each id, and applying its actions to the existing rows gives the
planned documents, up to their revision. Planning once more against the rows a commit leaves
finds nothing to do, if the doubled documents still fit. The order of documents, rows and keys
is immaterial.
-/

namespace ZelerPlatform.StockTime

open Fallible Mongo

variable {rt : Runtime}

/-! ### The index of the documents -/

/-- The id of a document that has a text for one. -/
def idOf (document : Doc) : String := ((document.getD "_id").str?).getD ""

/-- The id is a text, trimmed and not empty. -/
def Trimmed (document : Doc) : Prop :=
  ∃ id, document.getD "_id" = .string id ∧ pyStrip id ≠ "" ∧ id = pyStrip id

theorem str?_eq_some {v : Value} {s : String} : v.str? = some s ↔ v = .string s := by
  cases v <;> simp [Value.str?]

/-- What is indexed: documents with trimmed ids, no two of them the same. -/
theorem indexed_iff {documents : List Doc} {indexed : List (String × Doc)} :
    indexedCanonicalDocuments documents = some indexed ↔
      (∀ d ∈ documents, Trimmed d) ∧ (documents.map idOf).Nodup ∧
        indexed = documents.map fun d => (idOf d, d.canonical) := by
  induction documents generalizing indexed with
  | nil => simp [indexedCanonicalDocuments, eq_comm]
  | cons document rest ih =>
      simp only [indexedCanonicalDocuments]
      constructor
      · intro h
        obtain ⟨id, hid, h⟩ := Option.bind_eq_some_iff.mp h
        obtain ⟨_, htrim, h⟩ := Option.bind_eq_some_iff.mp h
        obtain ⟨tail, htail, h⟩ := Option.bind_eq_some_iff.mp h
        obtain ⟨_, hfresh, h⟩ := Option.bind_eq_some_iff.mp h
        obtain rfl := Option.some.inj h
        obtain ⟨hall, hnodup, rfl⟩ := ih.mp htail
        rw [Option.guard_eq_some'] at htrim hfresh
        have hidOf : idOf document = id := by rw [idOf, hid]; rfl
        refine ⟨?_, ?_, ?_⟩
        · intro d mem
          obtain rfl | mem := List.mem_cons.mp mem
          · exact ⟨id, str?_eq_some.mp hid, htrim⟩
          · exact hall d mem
        · rw [List.map_cons, List.nodup_cons, hidOf]
          rw [List.map_map] at hfresh
          exact ⟨hfresh, hnodup⟩
        · rw [List.map_cons, hidOf]
      · rintro ⟨hall, hnodup, rfl⟩
        obtain ⟨id, hid, htrim⟩ := hall document List.mem_cons_self
        have hstr : (document.getD "_id").str? = some id := str?_eq_some.mpr hid
        have hidOf : idOf document = id := by rw [idOf, hstr]; rfl
        rw [List.map_cons, List.nodup_cons] at hnodup
        have htail : indexedCanonicalDocuments rest =
            some (rest.map fun d => (idOf d, d.canonical)) :=
          ih.mpr ⟨fun d mem => hall d (List.mem_cons_of_mem _ mem), hnodup.2, rfl⟩
        have hfresh : id ∉ (rest.map fun d => (idOf d, d.canonical)).map Prod.fst := by
          rw [List.map_map, ← hidOf]
          exact hnodup.1
        refine Option.bind_eq_some_iff.mpr ⟨id, hstr, ?_⟩
        refine Option.bind_eq_some_iff.mpr ⟨(), (Option.guard_eq_some' ()).mpr htrim, ?_⟩
        refine Option.bind_eq_some_iff.mpr ⟨_, htail, ?_⟩
        refine Option.bind_eq_some_iff.mpr ⟨(), (Option.guard_eq_some' ()).mpr hfresh, ?_⟩
        rw [List.map_cons, hidOf]
        rfl

/-! ### Business documents -/

variable {document other : Doc} {k : String}

theorem keys_filter_nodup (once : (document.map Prod.fst).Nodup) {p : String × Value → Bool} :
    ((document.filter p).map Prod.fst).Nodup :=
  once.sublist (List.filter_sublist.map Prod.fst)

/-- Documents have the same business bytes just when they agree but for the revision. -/
theorem business_eq_iff (once : (document.map Prod.fst).Nodup)
    (once' : (other.map Prod.fst).Nodup) :
    businessDocumentBytes document = businessDocumentBytes other ↔
      ∀ k ≠ "revision", (document.get? k).map Doc.bytesOf = (other.get? k).map Doc.bytesOf := by
  rw [businessDocumentBytes, businessDocumentBytes,
    Doc.canonicalBson_eq_iff (keys_filter_nodup once) (keys_filter_nodup once')]
  refine forall_congr' fun k => ?_
  have hfilter (d : Doc) : Doc.get? (d.filter fun field => field.1 != "revision") k =
      if k = "revision" then none else d.get? k := by
    rw [Doc.get?_filter (p := (· != "revision"))]
    by_cases h : k = "revision" <;> simp [h]
  rw [hfilter, hfilter]
  by_cases h : k = "revision" <;> simp [h]

theorem Once.canonical_keys (once : document.Once) : (document.canonical.map Prod.fst).Nodup :=
  Value.keys_canonicalFields.nodup_iff.mpr once.keys

theorem bytes_canonical (once : document.Once) :
    (document.canonical.get? k).map Doc.bytesOf = (document.get? k).map Doc.bytesOf := by
  rw [Doc.get?_canonical once.keys]
  cases hv : document.get? k with
  | none => rfl
  | some v => exact congrArg some (Doc.bytesOf_canonical (once.value hv))

theorem business_canonical (once : document.Once) :
    businessDocumentBytes document.canonical = businessDocumentBytes document :=
  (business_eq_iff (Once.canonical_keys once) once.keys).mpr fun _ _ => bytes_canonical once

/-! ### The plan -/

variable {planned planned' existing existing' : List (String × Doc)}
variable {sources plannedDocuments existingRows : List Doc} {plan : ActionPlan}

/-- The ids of both indexes, in order. -/
def targetIds (planned existing : List (String × Doc)) : List String :=
  (planned.map Prod.fst ++ existing.map Prod.fst).dedup.insertionSort (· ≤ ·)

/-- The action for an id. -/
def actionFor (planned existing : List (String × Doc)) (id : String) : StockTimeAction :=
  ⟨plannedAction (planned.lookup id) (existing.lookup id), id, planned.lookup id,
    existing.lookup id⟩

def actionsOf (planned existing : List (String × Doc)) : List StockTimeAction :=
  (targetIds planned existing).map (actionFor planned existing)

/-- `estimated_payload`. -/
def estimatedPayload (rt : Runtime) (actions : List StockTimeAction) : Nat :=
  ((actions.map fun action => (actionPayload action).canonicalBson).map rt.bsonLength).sum +
    (actions.map fun action => rt.jsonLength (actionPayload action)).sum

/-- The plan of given actions. -/
def planOf (rt : Runtime) (sources : List Doc) (existing : List (String × Doc))
    (actions : List StockTimeAction) : ActionPlan :=
  let parts := actions.map fun action => (actionPayload action).canonicalBson
  let bsonBytes := (parts.map rt.bsonLength).sum
  let jsonBytes := (actions.map fun action => rt.jsonLength (actionPayload action)).sum
  let count (kind : Action) := actions.countP fun action => action.action = kind
  { actions
    sourceFingerprint := rt.sha256SortedParts (sources.map Doc.canonicalBson)
    preimageFingerprint := rt.sha256Parts
      ((existing.insertionSort fun a b => a.1 ≤ b.1).map fun row => row.2.canonicalBson)
    planFingerprint := rt.sha256Parts parts
    actionCount := actions.length
    insertCount := count .insert
    replaceCount := count .replace
    deleteCount := count .delete
    noOpCount := count .noOp
    preimageCount := actions.countP fun action => action.preimage.isSome
    estimatedBsonBytes := bsonBytes
    estimatedJsonBytes := jsonBytes
    estimatedTransactionPayloadBytes := bsonBytes + jsonBytes }

/-- What the planner does with two indexes. -/
theorem planStockTimeActions_eq (hplanned : indexedCanonicalDocuments plannedDocuments = some planned)
    (hexisting : indexedCanonicalDocuments existingRows = some existing) :
    planStockTimeActions rt sources plannedDocuments existingRows =
      if (targetIds planned existing).length ≤ maxActionRows ∧
          estimatedPayload rt (actionsOf planned existing) ≤ maxTransactionPayloadBytes then
        some (planOf rt sources existing (actionsOf planned existing))
      else none := by
  rw [planStockTimeActions, hplanned, hexisting]
  show (guard ((targetIds planned existing).length ≤ maxActionRows) >>= fun _ =>
    guard (estimatedPayload rt (actionsOf planned existing) ≤ maxTransactionPayloadBytes) >>=
      fun _ => some (planOf rt sources existing (actionsOf planned existing))) = _
  by_cases hrows : (targetIds planned existing).length ≤ maxActionRows
  · by_cases hbytes : estimatedPayload rt (actionsOf planned existing) ≤ maxTransactionPayloadBytes
    · simp [guard, hrows, hbytes]
    · simp [guard, hrows, hbytes]
  · simp [guard, hrows]

theorem planStockTimeActions_some
    (accepted : planStockTimeActions rt sources plannedDocuments existingRows = some plan) :
    ∃ planned existing, indexedCanonicalDocuments plannedDocuments = some planned ∧
      indexedCanonicalDocuments existingRows = some existing ∧
      (targetIds planned existing).length ≤ maxActionRows ∧
      plan = planOf rt sources existing (actionsOf planned existing) := by
  have haccepted := accepted
  rw [planStockTimeActions] at accepted
  obtain ⟨planned, hplanned, accepted⟩ := Option.bind_eq_some_iff.mp accepted
  obtain ⟨existing, hexisting, -⟩ := Option.bind_eq_some_iff.mp accepted
  rw [planStockTimeActions_eq hplanned hexisting] at haccepted
  split at haccepted
  · next h => exact ⟨planned, existing, hplanned, hexisting, h.1, (Option.some.inj haccepted).symm⟩
  · cases haccepted

theorem mem_targetIds {id : String} : id ∈ targetIds planned existing ↔
    id ∈ planned.map Prod.fst ∨ id ∈ existing.map Prod.fst := by
  rw [targetIds, (List.perm_insertionSort _ _).mem_iff, List.mem_dedup, List.mem_append]

theorem targetIds_nodup : (targetIds planned existing).Nodup :=
  (List.perm_insertionSort _ _).nodup_iff.mpr (List.nodup_dedup _)

/-! ### Reordered inputs -/

theorem targetIds_perm (hplanned : planned.Perm planned') (hexisting : existing.Perm existing') :
    targetIds planned existing = targetIds planned' existing' := by
  refine List.Perm.eq_of_pairwise (fun _ _ _ _ => Std.le_antisymm)
    (List.pairwise_insertionSort _ _) (List.pairwise_insertionSort _ _) ?_
  refine (List.perm_insertionSort _ _).trans (.trans ?_ (List.perm_insertionSort _ _).symm)
  exact ((hplanned.map Prod.fst).append (hexisting.map Prod.fst)).dedup

theorem actionsOf_perm (once : (planned.map Prod.fst).Nodup)
    (once' : (existing.map Prod.fst).Nodup) (hplanned : planned.Perm planned')
    (hexisting : existing.Perm existing') :
    actionsOf planned existing = actionsOf planned' existing' := by
  rw [actionsOf, actionsOf, targetIds_perm hplanned hexisting]
  refine List.map_congr_left fun id _ => ?_
  rw [actionFor, actionFor, lookup_perm once hplanned, lookup_perm once' hexisting]

theorem sortedRows_perm (once : (existing.map Prod.fst).Nodup)
    (hexisting : existing.Perm existing') :
    (existing.insertionSort fun a b => a.1 ≤ b.1) =
      existing'.insertionSort fun a b => a.1 ≤ b.1 := by
  have htotal : Std.Total fun a b : String × Doc => a.1 ≤ b.1 :=
    ⟨fun a b => String.le_total a.1 b.1⟩
  have htrans : IsTrans (String × Doc) fun a b => a.1 ≤ b.1 := ⟨fun _ _ _ => String.le_trans⟩
  have hsorted := (List.perm_insertionSort (fun a b : String × Doc => a.1 ≤ b.1) existing)
  refine eq_of_perm_of_keys ((hsorted.map Prod.fst).nodup_iff.mpr once)
    (hsorted.trans (hexisting.trans (List.perm_insertionSort _ existing').symm))
    (List.pairwise_insertionSort _ _) (List.pairwise_insertionSort _ _)

/-- The same documents in another order, and their keys in another order. -/
def Reordered (documents others : List Doc) : Prop :=
  ∃ middle, documents.Perm middle ∧ List.Forall₂ Doc.Rearranged middle others

theorem get?_of_trimmed {id : String} (h : document.getD "_id" = .string id) :
    document.get? "_id" = some (.string id) := by
  rw [Doc.getD] at h
  cases hid : document.get? "_id" with
  | none =>
      rw [hid] at h
      cases h
  | some v =>
      rw [hid] at h
      exact congrArg some h

theorem getD_rearranged (once : document.Once) (h : document.Rearranged other)
    (trimmed : Trimmed document) : other.getD "_id" = document.getD "_id" := by
  obtain ⟨id, hid, -⟩ := trimmed
  have hcanonical : (document.get? "_id").map Value.canonical =
      (other.get? "_id").map Value.canonical := by
    rw [← Doc.get?_canonical once.keys, ← Doc.get?_canonical (h.once once).keys, h.canonical once]
  rw [get?_of_trimmed hid] at hcanonical
  obtain ⟨v, hv, hsame⟩ := Option.map_eq_some_iff.mp hcanonical.symm
  have hstring : v = .string id := by
    cases v <;> first | exact hsame | cases hsame
  rw [hid, Doc.getD, hv, hstring]
  rfl

theorem indexed_reordered {documents others : List Doc} {indexed : List (String × Doc)}
    (once : ∀ d ∈ documents, d.Once) (h : Reordered documents others)
    (hindexed : indexedCanonicalDocuments documents = some indexed) :
    ∃ indexed', indexedCanonicalDocuments others = some indexed' ∧ indexed.Perm indexed' := by
  obtain ⟨middle, hperm, hothers⟩ := h
  obtain ⟨htrimmed, hnodup, rfl⟩ := indexed_iff.mp hindexed
  have hsame {d d' : Doc} (mem : d ∈ middle) (hd : d.Rearranged d') :
      d'.getD "_id" = d.getD "_id" ∧ d'.canonical = d.canonical := by
    have mem := hperm.symm.subset mem
    exact ⟨getD_rearranged (once d mem) hd (htrimmed d mem), (hd.canonical (once d mem)).symm⟩
  have hentries : others.map (fun d => (idOf d, d.canonical)) =
      middle.map fun d => (idOf d, d.canonical) := by
    clear hperm htrimmed hnodup hindexed
    induction hothers with
    | nil => rfl
    | cons hd _ ih =>
        obtain ⟨hid, hcanonical⟩ := hsame List.mem_cons_self hd
        rw [List.map_cons, List.map_cons, idOf, idOf, hid, hcanonical,
          ih fun mem hd => hsame (List.mem_cons_of_mem _ mem) hd]
  have hids : others.map idOf = middle.map idOf := by
    have hfst := congrArg (List.map Prod.fst) hentries
    rw [List.map_map, List.map_map] at hfst
    exact hfst
  refine ⟨_, indexed_iff.mpr ⟨fun d' mem => ?_, ?_, rfl⟩, ?_⟩
  · obtain ⟨d, hmem, hd⟩ := forall₂_right hothers mem
    obtain ⟨id, hid, htrim⟩ := htrimmed d (hperm.symm.subset hmem)
    exact ⟨id, (hsame hmem hd).1.trans hid, htrim⟩
  · rw [hids]
    exact (hperm.map idOf).nodup_iff.mp hnodup
  · rw [hentries]
    exact hperm.map _

/-- The order of rows, documents and keys does not change the plan. -/
theorem plan_reordered {sources' plannedDocuments' existingRows' : List Doc}
    (hsources : ∀ d ∈ sources, d.Once) (hplanned : ∀ d ∈ plannedDocuments, d.Once)
    (hexisting : ∀ d ∈ existingRows, d.Once) (sources_reordered : Reordered sources sources')
    (planned_reordered : Reordered plannedDocuments plannedDocuments')
    (existing_reordered : Reordered existingRows existingRows')
    (accepted : planStockTimeActions rt sources plannedDocuments existingRows = some plan) :
    planStockTimeActions rt sources' plannedDocuments' existingRows' = some plan := by
  obtain ⟨planned, existing, hp, he, -⟩ := planStockTimeActions_some accepted
  obtain ⟨planned', hp', hpp⟩ := indexed_reordered hplanned planned_reordered hp
  obtain ⟨existing', he', hee⟩ := indexed_reordered hexisting existing_reordered he
  have hkeys {documents : List Doc} {indexed : List (String × Doc)}
      (h : indexedCanonicalDocuments documents = some indexed) :
      (indexed.map Prod.fst).Nodup := by
    obtain ⟨-, hnodup, rfl⟩ := indexed_iff.mp h
    rw [List.map_map]
    exact hnodup
  have hactions := actionsOf_perm (hkeys hp) (hkeys he) hpp hee
  have hsource : (sources.map Doc.canonicalBson : Multiset Doc) =
      (sources'.map Doc.canonicalBson : List Doc) := by
    obtain ⟨middle, hperm, hothers⟩ := sources_reordered
    have hmiddle : ∀ d ∈ middle, d.Once := fun d mem => hsources d (hperm.symm.subset mem)
    have hsame : sources'.map Doc.canonicalBson = middle.map Doc.canonicalBson := by
      clear hperm
      induction hothers with
      | nil => rfl
      | cons hd _ ih =>
          rw [List.map_cons, List.map_cons, Doc.canonicalBson_eq, Doc.canonicalBson_eq,
            hd.canonical (hmiddle _ List.mem_cons_self),
            ih fun d mem => hmiddle d (List.mem_cons_of_mem _ mem)]
    rw [hsame]
    exact Multiset.coe_eq_coe.mpr (hperm.map _)
  rw [planStockTimeActions_eq hp he] at accepted
  rw [planStockTimeActions_eq hp' he', ← hactions, ← targetIds_perm hpp hee]
  split at accepted
  · next h =>
      rw [if_pos h, ← accepted, planOf, planOf, hsource, sortedRows_perm (hkeys he) hee]
  · cases accepted

/-! ### Applying a plan -/

/-- The rows of a collection by their ids. -/
abbrev Rows := String → Option Doc

def rowsOf (documents : List Doc) : Rows := fun id => documents.find? fun d => idOf d = id

/-- What an action makes of the row of its id. -/
def StockTimeAction.effect (action : StockTimeAction) (row : Option Doc) : Option Doc :=
  match action.action with
  | .noOp => row
  | .delete => none
  | .insert | .replace => action.document

def StockTimeAction.apply (action : StockTimeAction) (rows : Rows) : Rows :=
  Function.update rows action.targetId (action.effect (rows action.targetId))

def applyActions (actions : List StockTimeAction) (rows : Rows) : Rows :=
  actions.foldl (fun rows action => action.apply rows) rows

theorem applyActions_of_not_mem {actions : List StockTimeAction} {rows : Rows} {id : String}
    (h : id ∉ actions.map (·.targetId)) : applyActions actions rows id = rows id := by
  induction actions generalizing rows with
  | nil => rfl
  | cons action rest ih =>
      rw [List.map_cons, List.mem_cons, not_or] at h
      exact (ih h.2).trans (Function.update_of_ne h.1 _ _)

/-- One action for each id: the row of an id is what its action makes of it. -/
theorem applyActions_of_mem {actions : List StockTimeAction} {rows : Rows}
    (once : (actions.map (·.targetId)).Nodup) {action : StockTimeAction} (mem : action ∈ actions) :
    applyActions actions rows action.targetId = action.effect (rows action.targetId) := by
  induction actions generalizing rows with
  | nil => cases mem
  | cons first rest ih =>
      rw [List.map_cons, List.nodup_cons] at once
      cases mem with
      | head => exact (applyActions_of_not_mem once.1).trans (Function.update_self _ _ _)
      | tail _ mem =>
          have hne : action.targetId ≠ first.targetId := fun heq =>
            once.1 (heq ▸ List.mem_map.mpr ⟨action, mem, rfl⟩)
          exact (ih once.2 mem).trans (congrArg action.effect (Function.update_of_ne hne _ _))

theorem targetId_actionsOf : (actionsOf planned existing).map (·.targetId) =
    targetIds planned existing := by
  rw [actionsOf, List.map_map]
  exact List.map_id _

/-- The index has the canonical row of an id. -/
theorem lookup_indexed {documents : List Doc} {id : String} :
    (documents.map fun d => (idOf d, d.canonical)).lookup id =
      (rowsOf documents id).map Doc.canonical := by
  induction documents with
  | nil => rfl
  | cons document rest ih =>
      rw [List.map_cons, List.lookup_cons, rowsOf, List.find?_cons]
      by_cases h : idOf document = id
      · simp [h]
      · simp only [h, decide_false, beq_false_of_ne (Ne.symm h)]
        exact ih

theorem rowsOf_mem {documents : List Doc} {id : String} {d : Doc}
    (h : rowsOf documents id = some d) : d ∈ documents ∧ idOf d = id :=
  ⟨List.mem_of_find?_eq_some h, by simpa using List.find?_some h⟩

theorem lookup_none {indexed : List (String × Doc)} {id : String}
    (h : id ∉ indexed.map Prod.fst) : indexed.lookup id = none :=
  List.lookup_eq_none_iff.mpr fun entry mem =>
    bne_iff_ne.mpr fun heq => h (List.mem_map.mpr ⟨entry, mem, heq.symm⟩)

/-- The action for an id makes the planned document of the row, up to the revision. -/
theorem effect_actionFor {id : String} {document row : Option Doc}
    (hplanned : planned.lookup id = document.map Doc.canonical)
    (hexisting : existing.lookup id = row.map Doc.canonical) (once : ∀ d ∈ document, d.Once)
    (once' : ∀ d ∈ row, d.Once) :
    ((actionFor planned existing id).effect row).map businessDocumentBytes =
      document.map businessDocumentBytes := by
  rw [actionFor, hplanned, hexisting]
  cases document with
  | none => rfl
  | some document =>
      have hdocument := business_canonical (once document rfl)
      cases row with
      | none => exact congrArg some hdocument
      | some row =>
          have hrow := business_canonical (once' row rfl)
          by_cases hsame : businessDocumentBytes document.canonical =
              businessDocumentBytes row.canonical
          · have hkind : plannedAction (some document.canonical) (some row.canonical) = .noOp :=
              if_pos hsame
            simp only [Option.map_some, hkind, StockTimeAction.effect]
            rw [← hrow, ← hsame, hdocument]
          · have hkind : plannedAction (some document.canonical) (some row.canonical) = .replace :=
              if_neg hsame
            simp only [Option.map_some, hkind, StockTimeAction.effect]
            rw [hdocument]

/-- Applying the plan to the existing rows gives the planned documents, up to the revision. -/
theorem applied_eq_planned (hplanned : ∀ d ∈ plannedDocuments, d.Once)
    (hexisting : ∀ d ∈ existingRows, d.Once)
    (accepted : planStockTimeActions rt sources plannedDocuments existingRows = some plan)
    (id : String) :
    (applyActions plan.actions (rowsOf existingRows) id).map businessDocumentBytes =
      (rowsOf plannedDocuments id).map businessDocumentBytes := by
  obtain ⟨planned, existing, hp, he, -, rfl⟩ := planStockTimeActions_some accepted
  obtain ⟨-, -, hpdef⟩ := indexed_iff.mp hp
  obtain ⟨-, -, hedef⟩ := indexed_iff.mp he
  show (applyActions (actionsOf planned existing) _ id).map _ = _
  have hlookup : planned.lookup id = (rowsOf plannedDocuments id).map Doc.canonical := by
    rw [hpdef, lookup_indexed]
  have hlookup' : existing.lookup id = (rowsOf existingRows id).map Doc.canonical := by
    rw [hedef, lookup_indexed]
  have hresult : applyActions (actionsOf planned existing) (rowsOf existingRows) id =
      (actionFor planned existing id).effect (rowsOf existingRows id) := by
    by_cases hid : id ∈ targetIds planned existing
    · have hmem : actionFor planned existing id ∈ actionsOf planned existing :=
        List.mem_map_of_mem hid
      exact applyActions_of_mem (targetId_actionsOf ▸ targetIds_nodup) hmem
    · rw [applyActions_of_not_mem (targetId_actionsOf ▸ hid)]
      rw [mem_targetIds, not_or] at hid
      rw [lookup_none hid.2] at hlookup'
      rw [actionFor, lookup_none hid.1, Option.map_eq_none_iff.mp hlookup'.symm]
      rfl
  rw [hresult]
  exact effect_actionFor hlookup hlookup' (fun d hd => hplanned d (rowsOf_mem hd).1)
    fun d hd => hexisting d (rowsOf_mem hd).1

/-! ### Planning against the rows a commit leaves -/

variable {operationId : String}

/-- The metric an action leaves, if any. -/
def finalMetric (rt : Runtime) (operationId : String) (action : StockTimeAction) : Option Doc :=
  match action.action with
  | .noOp => action.preimage
  | .delete => none
  | .insert | .replace => action.document.map (desiredMetric rt operationId action)

/-- An action has the document or the preimage its kind needs. -/
def WellFormed (action : StockTimeAction) : Prop :=
  match action.action with
  | .noOp => action.preimage.isSome
  | .delete => True
  | .insert | .replace => action.document.isSome

theorem materializeActions_ok {actions : List StockTimeAction}
    (wellFormed : ∀ action ∈ actions, WellFormed action) (sequence : Nat) :
    ∃ mutations, materializeActions rt operationId sequence actions =
      .ok (mutations, actions.filterMap (finalMetric rt operationId)) := by
  induction actions generalizing sequence with
  | nil => exact ⟨[], rfl⟩
  | cons action rest ih =>
      have hrest : ∀ action ∈ rest, WellFormed action := fun a mem =>
        wellFormed a (List.mem_cons_of_mem _ mem)
      have hfirst := wellFormed action List.mem_cons_self
      obtain ⟨kind, targetId, document, preimage⟩ := action
      cases kind with
      | noOp =>
          obtain ⟨preimage, rfl⟩ := Option.isSome_iff_exists.mp hfirst
          obtain ⟨mutations, hmutations⟩ := ih hrest sequence
          refine ⟨mutations, ?_⟩
          rw [materializeActions, hmutations]
          rfl
      | delete =>
          obtain ⟨mutations, hmutations⟩ := ih hrest (sequence + 1)
          refine ⟨mutation rt operationId sequence metricCollection targetId .delete none preimage ::
            mutations, ?_⟩
          rw [materializeActions, hmutations]
          rfl
      | insert =>
          obtain ⟨document, rfl⟩ := Option.isSome_iff_exists.mp hfirst
          obtain ⟨mutations, hmutations⟩ := ih hrest (sequence + 1)
          refine ⟨mutation rt operationId sequence metricCollection targetId .insert
            (some (desiredMetric rt operationId ⟨.insert, targetId, some document, preimage⟩
              document)) preimage :: mutations, ?_⟩
          simp only [materializeActions, hmutations]
          rfl
      | replace =>
          obtain ⟨document, rfl⟩ := Option.isSome_iff_exists.mp hfirst
          obtain ⟨mutations, hmutations⟩ := ih hrest (sequence + 1)
          refine ⟨mutation rt operationId sequence metricCollection targetId .replace
            (some (desiredMetric rt operationId ⟨.replace, targetId, some document, preimage⟩
              document)) preimage :: mutations, ?_⟩
          simp only [materializeActions, hmutations]
          rfl

theorem wellFormed_actionFor {id : String} : WellFormed (actionFor planned existing id) := by
  rw [actionFor]
  cases planned.lookup id with
  | none => trivial
  | some document =>
      cases existing.lookup id with
      | none => rfl
      | some preimage =>
          by_cases hsame : businessDocumentBytes document = businessDocumentBytes preimage
          · have hkind : plannedAction (some document) (some preimage) = .noOp := if_pos hsame
            rw [hkind]
            rfl
          · have hkind : plannedAction (some document) (some preimage) = .replace := if_neg hsame
            rw [hkind]
            rfl

/-- A plan can be sealed, and its final metrics are what its actions leave. -/
theorem materializeForwardPlan_ok {binding : ForwardBinding} {markerAction : Action}
    {markerPreimage : Option Doc} :
    ∃ final, materializeForwardPlan rt binding
        (planOf rt sources existing (actionsOf planned existing)) operationId markerAction
          markerPreimage = .ok final ∧
      final.expectedMetricDocuments =
        (actionsOf planned existing).filterMap (finalMetric rt operationId) := by
  have hwellFormed : ∀ action ∈ actionsOf planned existing, WellFormed action := by
    intro action mem
    obtain ⟨id, -, rfl⟩ := List.mem_map.mp mem
    exact wellFormed_actionFor
  obtain ⟨mutations, hmutations⟩ : ∃ mutations,
      materializeActions rt operationId 1 (actionsOf planned existing) = .ok (mutations, _) :=
    materializeActions_ok hwellFormed 1
  rw [materializeForwardPlan]
  show ∃ final, (materializeActions rt operationId 1 (actionsOf planned existing)).bind _ =
    .ok final ∧ _
  rw [hmutations]
  exact ⟨_, rfl, rfl⟩

/-- A row that stands for a planned document: the same but for the revision. -/
structure StandsFor (document row : Doc) : Prop where
  id : row.getD "_id" = document.getD "_id"
  once : row.Once
  same : businessDocumentBytes row = businessDocumentBytes document

theorem getD_canonical (once : document.Once) (trimmed : Trimmed document) :
    document.canonical.getD "_id" = document.getD "_id" := by
  obtain ⟨id, hid, -⟩ := trimmed
  rw [hid, Doc.getD, Doc.get?_canonical once.keys, get?_of_trimmed hid]
  rfl

theorem trimmed_congr (same : other.getD "_id" = document.getD "_id") (h : Trimmed document) :
    Trimmed other := by
  obtain ⟨id, hid, htrim⟩ := h
  exact ⟨id, same.trans hid, htrim⟩

theorem idOf_congr (same : other.getD "_id" = document.getD "_id") : idOf other = idOf document := by
  rw [idOf, idOf, same]

/-- What the server keeps of a row stands for what the row stands for. -/
theorem StandsFor.ofDoc {row : Doc} (h : StandsFor document row) (trimmed : Trimmed document) :
    StandsFor document (StoredDoc.ofDoc row).doc where
  id := by
    obtain ⟨id, hid, -⟩ := trimmed
    have hrow := get?_of_trimmed (h.id.trans hid)
    rw [hid]
    show ((Doc.get? (Value.storedFields row.idFirst) "_id").getD .null) = _
    rw [Doc.get?_storedFields, Doc.get?_idFirst, hrow]
    rfl
  once := h.once.ofDoc
  same := by
    rw [← h.same]
    refine (business_eq_iff h.once.ofDoc.keys h.once.keys).mpr fun k _ => ?_
    show (Doc.get? (Value.storedFields row.idFirst) k).map Doc.bytesOf = _
    rw [Doc.get?_storedFields, Doc.get?_idFirst, Option.map_map]
    cases row.get? k with
    | none => rfl
    | some v => exact congrArg some Doc.bytesOf_stored

theorem StandsFor.desired {action : StockTimeAction} (once : document.Once)
    (trimmed : Trimmed document) :
    StandsFor document (desiredMetric rt operationId action document.canonical) := by
  obtain ⟨revised, hrevised⟩ : ∃ revised, revised = document.canonical.set "revision"
    (.string (operationRevision rt operationId metricCollection action.targetId
      action.action.text)) := ⟨_, rfl⟩
  have honce : revised.Once := hrevised ▸ once.canonical.set rfl
  have hget {k : String} (h : k ≠ "revision") : revised.get? k = document.canonical.get? k := by
    rw [hrevised, Doc.get?_set, if_neg h]
  have hid : revised.getD "_id" = document.getD "_id" := by
    rw [Doc.getD, hget (by decide)]
    exact getD_canonical once trimmed
  rw [desiredMetric, ← hrevised]
  refine ⟨(getD_canonical honce (trimmed_congr hid trimmed)).trans hid, honce.canonical, ?_⟩
  rw [business_canonical honce]
  refine (business_eq_iff honce.keys once.keys).mpr fun k hk => ?_
  rw [hget hk, bytes_canonical once]

/-- The metric that is left for a planned id stands for its document. -/
theorem finalMetric_standsFor {id : String} {row : Option Doc}
    (hplanned : planned.lookup id = some document.canonical)
    (hexisting : existing.lookup id = row.map Doc.canonical) (once : document.Once)
    (trimmed : Trimmed document)
    (rows : ∀ r ∈ row, r.Once ∧ r.getD "_id" = document.getD "_id") :
    ∃ metric, finalMetric rt operationId (actionFor planned existing id) = some metric ∧
      StandsFor document metric := by
  rw [actionFor, hplanned, hexisting]
  cases row with
  | none => exact ⟨_, rfl, .desired once trimmed⟩
  | some row =>
      obtain ⟨honce, hid⟩ := rows row rfl
      by_cases hsame : businessDocumentBytes document.canonical =
          businessDocumentBytes row.canonical
      · have hkind : plannedAction (some document.canonical) (some row.canonical) = .noOp :=
          if_pos hsame
        simp only [Option.map_some, hkind]
        refine ⟨row.canonical, rfl, ?_, honce.canonical, ?_⟩
        · exact (getD_canonical honce (trimmed_congr hid trimmed)).trans hid
        · rw [← hsame, business_canonical once]
      · have hkind : plannedAction (some document.canonical) (some row.canonical) = .replace :=
          if_neg hsame
        simp only [Option.map_some, hkind]
        exact ⟨_, rfl, .desired once trimmed⟩

/-- The ids of what is kept of a list of ids. -/
theorem ids_filterMap {ids : List String} {keep : String → Option Doc}
    (h : ∀ id ∈ ids, ∀ row, keep id = some row → idOf row = id) :
    (ids.filterMap keep).map idOf = ids.filter fun id => (keep id).isSome := by
  induction ids with
  | nil => rfl
  | cons id ids ih =>
      have hrest := ih fun id' mem => h id' (List.mem_cons_of_mem _ mem)
      cases hkeep : keep id with
      | none =>
          rw [List.filterMap_cons_none hkeep, hrest, List.filter_cons_of_neg (by simp [hkeep])]
      | some row =>
          rw [List.filterMap_cons_some hkeep, List.map_cons, hrest,
            List.filter_cons_of_pos (by simp [hkeep]), h id List.mem_cons_self row hkeep]

theorem getD_of_trimmed (h : Trimmed document) : document.getD "_id" = .string (idOf document) := by
  obtain ⟨id, hid, -⟩ := h
  rw [idOf, hid]
  rfl

/-- Documents that were planned, and rows that stand for them, one for each. -/
structure Committed (plannedDocuments rows : List Doc) : Prop where
  once : (rows.map idOf).Nodup
  ids : ∀ id, id ∈ rows.map idOf ↔ id ∈ plannedDocuments.map idOf
  standsFor : ∀ row ∈ rows, ∃ d ∈ plannedDocuments, StandsFor d row

/-- What is left when a plan has been committed. -/
theorem committed_of_plan (rt : Runtime) (operationId : String)
    (hplanned : ∀ d ∈ plannedDocuments, d.Once) (hexisting : ∀ d ∈ existingRows, d.Once)
    (hp : indexedCanonicalDocuments plannedDocuments = some planned)
    (he : indexedCanonicalDocuments existingRows = some existing) :
    Committed plannedDocuments (((actionsOf planned existing).filterMap
      (finalMetric rt operationId)).map fun metric => (StoredDoc.ofDoc metric).doc) := by
  obtain ⟨htrimmed, hnodup, hpdef⟩ := indexed_iff.mp hp
  obtain ⟨htrimmed', -, hedef⟩ := indexed_iff.mp he
  obtain ⟨keep, hkeep⟩ : ∃ keep : String → Option Doc, keep = fun id =>
    (finalMetric rt operationId (actionFor planned existing id)).map fun metric =>
      (StoredDoc.ofDoc metric).doc := ⟨_, rfl⟩
  have hrows : (((actionsOf planned existing).filterMap (finalMetric rt operationId)).map
      fun metric => (StoredDoc.ofDoc metric).doc) = (targetIds planned existing).filterMap keep := by
    rw [actionsOf, List.filterMap_map, List.map_filterMap, hkeep]
    rfl
  have hkeepAt (id : String) : keep id =
      (finalMetric rt operationId (actionFor planned existing id)).map fun metric =>
        (StoredDoc.ofDoc metric).doc := by rw [hkeep]
  have hkeys : planned.map Prod.fst = plannedDocuments.map idOf := by
    rw [hpdef, List.map_map]
    rfl
  -- A row is kept for the ids that are planned, and stands for the document planned there.
  have hkept (id : String) (d : Doc) (mem : d ∈ plannedDocuments) (hid : idOf d = id)
      (hlookup : planned.lookup id = some d.canonical) :
      ∃ row, keep id = some row ∧ StandsFor d row := by
    have hexisting' : existing.lookup id = (rowsOf existingRows id).map Doc.canonical := by
      rw [hedef, lookup_indexed]
    have hrow : ∀ r ∈ rowsOf existingRows id, r.Once ∧ r.getD "_id" = d.getD "_id" := by
      intro r hr
      obtain ⟨hmem, hr⟩ := rowsOf_mem hr
      refine ⟨hexisting r hmem, ?_⟩
      rw [getD_of_trimmed (htrimmed' r hmem), getD_of_trimmed (htrimmed d mem), hr, hid]
    obtain ⟨metric, hmetric, hstands⟩ : ∃ metric,
        finalMetric rt operationId (actionFor planned existing id) = some metric ∧
          StandsFor d metric :=
      finalMetric_standsFor hlookup hexisting' (hplanned d mem) (htrimmed d mem) hrow
    refine ⟨_, ?_, hstands.ofDoc (htrimmed d mem)⟩
    rw [hkeepAt, hmetric]
    rfl
  have hplannedId (id : String) (h : id ∈ planned.map Prod.fst) :
      ∃ d ∈ plannedDocuments, idOf d = id ∧ planned.lookup id = some d.canonical := by
    rw [hkeys] at h
    obtain ⟨d, mem, rfl⟩ := List.mem_map.mp h
    refine ⟨d, mem, rfl, (lookup_eq_some_iff (hkeys ▸ hnodup)).mpr ?_⟩
    rw [hpdef]
    exact List.mem_map.mpr ⟨d, mem, rfl⟩
  have hunplanned (id : String) (h : id ∉ planned.map Prod.fst) : keep id = none := by
    rw [hkeepAt, actionFor, lookup_none h]
    rfl
  have hstands (id : String) (row : Doc) (h : keep id = some row) :
      ∃ d ∈ plannedDocuments, idOf d = id ∧ StandsFor d row := by
    by_cases hid : id ∈ planned.map Prod.fst
    · obtain ⟨d, mem, hd, hlookup⟩ := hplannedId id hid
      obtain ⟨row', hrow', hstands⟩ := hkept id d mem hd hlookup
      obtain rfl := Option.some.inj (h.symm.trans hrow')
      exact ⟨d, mem, hd, hstands⟩
    · rw [hunplanned id hid] at h
      cases h
  have hids : ((targetIds planned existing).filterMap keep).map idOf =
      (targetIds planned existing).filter fun id => (keep id).isSome := ids_filterMap fun id _ row h => by
    obtain ⟨d, -, hd, hstand⟩ := hstands id row h
    rw [idOf_congr hstand.id, hd]
  rw [hrows]
  refine ⟨?_, fun id => ?_, fun row mem => ?_⟩
  · rw [hids]
    exact targetIds_nodup.filter _
  · rw [hids, List.mem_filter, mem_targetIds, ← hkeys]
    constructor
    · rintro ⟨-, hsome⟩
      by_contra hid
      rw [hunplanned id hid] at hsome
      cases hsome
    · intro hid
      obtain ⟨d, mem, hd, hlookup⟩ := hplannedId id hid
      obtain ⟨row, hrow, -⟩ := hkept id d mem hd hlookup
      exact ⟨.inl hid, by rw [hrow]; rfl⟩
  · obtain ⟨id, -, hrow⟩ := List.mem_filterMap.mp mem
    obtain ⟨d, hmem, -, hstand⟩ := hstands id row hrow
    exact ⟨d, hmem, hstand⟩

/-- Planned again over such rows there is nothing to do, but the plan may be too long. -/
theorem Committed.replan (rt : Runtime) {rows : List Doc} (h : Committed plannedDocuments rows)
    (hplanned : ∀ d ∈ plannedDocuments, d.Once)
    (hp : indexedCanonicalDocuments plannedDocuments = some planned)
    (short : plannedDocuments.length ≤ maxActionRows) :
    ∃ actions, (∀ action ∈ actions, action.action = .noOp) ∧ ∀ sources,
      (∀ plan, planStockTimeActions rt sources plannedDocuments rows = some plan →
        plan.actions = actions) ∧
      (planStockTimeActions rt sources plannedDocuments rows = none →
        maxTransactionPayloadBytes < estimatedPayload rt actions) := by
  obtain ⟨htrimmed, hnodup, hpdef⟩ := indexed_iff.mp hp
  obtain ⟨left, hleft⟩ : ∃ left, left = rows.map fun row => (idOf row, row.canonical) := ⟨_, rfl⟩
  have hr : indexedCanonicalDocuments rows = some left := by
    refine indexed_iff.mpr ⟨fun row mem => ?_, h.once, hleft⟩
    obtain ⟨d, hmem, hstand⟩ := h.standsFor row mem
    exact trimmed_congr hstand.id (htrimmed d hmem)
  have hkeys : planned.map Prod.fst = plannedDocuments.map idOf := by
    rw [hpdef, List.map_map]
    rfl
  have hkeys' : left.map Prod.fst = rows.map idOf := by
    rw [hleft, List.map_map]
    rfl
  have htargets {id : String} (hid : id ∈ targetIds planned left) :
      id ∈ plannedDocuments.map idOf := by
    rw [mem_targetIds, hkeys, hkeys', h.ids, or_self] at hid
    exact hid
  refine ⟨actionsOf planned left, fun action mem => ?_, fun sources => ?_⟩
  · obtain ⟨id, hid, rfl⟩ := List.mem_map.mp mem
    obtain ⟨row, hrow, hrowId⟩ := List.mem_map.mp ((h.ids id).mpr (htargets hid))
    obtain ⟨d, hmem, hstand⟩ := h.standsFor row hrow
    have hlookup : planned.lookup id = some d.canonical := by
      rw [lookup_eq_some_iff (hkeys ▸ hnodup), hpdef]
      exact List.mem_map.mpr ⟨d, hmem, by rw [← idOf_congr hstand.id, hrowId]⟩
    have hlookup' : left.lookup id = some row.canonical := by
      rw [lookup_eq_some_iff (hkeys' ▸ h.once), hleft]
      exact List.mem_map.mpr ⟨row, hrow, by rw [hrowId]⟩
    have hsame : businessDocumentBytes d.canonical = businessDocumentBytes row.canonical := by
      rw [business_canonical (hplanned d hmem), business_canonical hstand.once, hstand.same]
    show plannedAction (planned.lookup id) (left.lookup id) = .noOp
    rw [hlookup, hlookup']
    exact if_pos hsame
  · have hlength : (targetIds planned left).length ≤ maxActionRows := by
      refine le_trans ?_ short
      have hsubset : targetIds planned left ⊆ plannedDocuments.map idOf := fun _ hid => htargets hid
      simpa using (List.subperm_of_subset targetIds_nodup hsubset).length_le
    rw [planStockTimeActions_eq hp hr]
    constructor
    · intro plan hplan
      split at hplan
      · obtain rfl := Option.some.inj hplan
        rfl
      · cases hplan
    · intro hnone
      split at hnone
      · cases hnone
      · next hlong =>
          by_contra hfits
          exact hlong ⟨hlength, not_lt.mp hfits⟩

/-! ### Documents with a title -/

mutual

/-- The bytes BSON needs for a value made of texts and nulls. -/
def bsonSize : Value → Nat
  | .string s => s.utf8ByteSize + 5
  | .document fields => bsonFields fields + 5
  | _ => 0

def bsonFields : List (String × Value) → Nat
  | [] => 0
  | (key, v) :: rest => key.utf8ByteSize + 2 + bsonSize v + bsonFields rest

end

mutual

/-- The bytes compact JSON needs for a value made of plain texts and nulls. -/
def jsonSize : Value → Nat
  | .null => 4
  | .string s => s.utf8ByteSize + 2
  | .document [] => 2
  | .document fields => jsonFields fields + 1
  | _ => 0

def jsonFields : List (String × Value) → Nat
  | [] => 0
  | (key, v) :: rest => key.utf8ByteSize + 4 + jsonSize v + jsonFields rest

end

/-- A runtime that measures documents of plain texts. -/
def textual : Runtime where
  sha256 := fun _ => String.ofList (List.replicate 64 '0')
  sha256Parts := fun _ => String.ofList (List.replicate 64 '0')
  sha256SortedParts := fun _ => String.ofList (List.replicate 64 '0')
  bsonLength := fun d => bsonSize (.document d)
  jsonLength := fun d => jsonSize (.document d)
  str := fun _ => ""
  expression := fun _ => none
  sha256_hex := fun _ => by decide

/-- A document with a text of some length. -/
def titled (n : Nat) : Doc :=
  [("_id", .string "metric"), ("title", .string (String.ofList (List.replicate n 'x')))]

theorem utf8ByteSize_replicate (n : Nat) :
    (String.ofList (List.replicate n 'x')).utf8ByteSize = n := by
  induction n with
  | zero => rfl
  | succ n ih =>
      rw [List.replicate_succ', String.ofList_append, String.utf8ByteSize_append, ih]
      rfl


theorem titled_once (n : Nat) : (titled n).Once := rfl

/-- The titled document as it is left by a commit. -/
def titledRow (n : Nat) (revision : String) : Doc :=
  [("_id", .string "metric"), ("revision", .string revision),
    ("title", .string (String.ofList (List.replicate n 'x')))]

theorem estimate_insert_le (n : Nat) :
    estimatedPayload textual (actionsOf [("metric", titled n)] []) ≤ 2 * n + 300 := by
  have hsize : "action".utf8ByteSize = 6 ∧ "insert".utf8ByteSize = 6 ∧
      "document".utf8ByteSize = 8 ∧ "preimage".utf8ByteSize = 8 ∧ "target_id".utf8ByteSize = 9 ∧
      "metric".utf8ByteSize = 6 ∧ "_id".utf8ByteSize = 3 ∧ "title".utf8ByteSize = 5 := by decide
  obtain ⟨h₁, h₂, h₃, h₄, h₅, h₆, h₇, h₈⟩ := hsize
  show bsonSize (.document [("action", .string "insert"), ("document", .document (titled n)),
      ("preimage", .null), ("target_id", .string "metric")]) + 0 +
    (jsonSize (.document [("action", .string "insert"), ("target_id", .string "metric"),
      ("document", .document (titled n)), ("preimage", .null)]) + 0) ≤ _
  simp only [bsonSize, bsonFields, jsonSize, jsonFields, titled, utf8ByteSize_replicate]
  omega

/-- The actions of a titled document and its row carry the title twice. -/
theorem le_estimate_noOp (n : Nat) (revision : String) :
    4 * n ≤ estimatedPayload textual
      (actionsOf [("metric", titled n)] [("metric", titledRow n revision)]) := by
  rw [estimatedPayload, actionsOf, show targetIds [("metric", titled n)]
    [("metric", titledRow n revision)] = ["metric"] from rfl, List.map_singleton, actionFor]
  generalize plannedAction _ _ = kind
  show _ ≤ bsonSize (.document [("action", .string kind.text), ("document", .document (titled n)),
      ("preimage", .document (titledRow n revision)), ("target_id", .string "metric")]) + 0 +
    (jsonSize (.document [("action", .string kind.text), ("target_id", .string "metric"),
      ("document", .document (titled n)), ("preimage", .document (titledRow n revision))]) + 0)
  simp only [bsonSize, bsonFields, jsonSize, jsonFields, titled, titledRow, utf8ByteSize_replicate]
  omega

theorem titled_accepted {n : Nat} (short : 2 * n + 300 ≤ maxTransactionPayloadBytes) :
    planStockTimeActions textual [] [titled n] [] =
      some (planOf textual [] [] (actionsOf [("metric", titled n)] [])) := by
  have hp : indexedCanonicalDocuments [titled n] = some [("metric", titled n)] := rfl
  have he : indexedCanonicalDocuments [] = some [] := rfl
  rw [planStockTimeActions_eq hp he]
  have hlength : (targetIds [("metric", titled n)] []).length ≤ maxActionRows := by
    show 1 ≤ 1000
    decide
  exact if_pos ⟨hlength, (estimate_insert_le n).trans short⟩

theorem titled_rejected {n : Nat} {revision : String}
    (long : maxTransactionPayloadBytes < 4 * n) :
    planStockTimeActions textual [] [titled n] [titledRow n revision] = none := by
  have hp : indexedCanonicalDocuments [titled n] = some [("metric", titled n)] := rfl
  have he : indexedCanonicalDocuments [titledRow n revision] =
    some [("metric", titledRow n revision)] := rfl
  rw [planStockTimeActions_eq hp he]
  exact if_neg fun h => (long.trans_le (le_estimate_noOp n revision)).not_ge h.2

/-! ### The plan and its target -/

/-- A plan has one action for each id and makes the planned documents of the existing rows.
Planned over the rows its commit leaves, the same documents need no change, unless that plan
is too long; and the order of documents, rows and keys makes no difference. -/
theorem actionPlan_applies (hsources : ∀ d ∈ sources, d.Once)
    (hplanned : ∀ d ∈ plannedDocuments, d.Once) (hexisting : ∀ d ∈ existingRows, d.Once)
    (accepted : planStockTimeActions rt sources plannedDocuments existingRows = some plan) :
    ((plan.actions.map (·.targetId)).Nodup ∧ ∀ id, id ∈ plan.actions.map (·.targetId) ↔
      id ∈ plannedDocuments.map idOf ∨ id ∈ existingRows.map idOf) ∧
    (∀ id, (applyActions plan.actions (rowsOf existingRows) id).map businessDocumentBytes =
      (rowsOf plannedDocuments id).map businessDocumentBytes) ∧
    (∀ binding operationId markerAction markerPreimage, ∃ final actions,
      materializeForwardPlan rt binding plan operationId markerAction markerPreimage = .ok final ∧
      (∀ action ∈ actions, action.action = .noOp) ∧ ∀ sources,
        (∀ again, planStockTimeActions rt sources plannedDocuments
            (final.expectedMetricDocuments.map fun metric => (StoredDoc.ofDoc metric).doc) =
              some again → again.actions = actions) ∧
        (planStockTimeActions rt sources plannedDocuments
            (final.expectedMetricDocuments.map fun metric => (StoredDoc.ofDoc metric).doc) =
              none → maxTransactionPayloadBytes < estimatedPayload rt actions)) ∧
    ∀ sources' plannedDocuments' existingRows', Reordered sources sources' →
      Reordered plannedDocuments plannedDocuments' → Reordered existingRows existingRows' →
      planStockTimeActions rt sources' plannedDocuments' existingRows' = some plan := by
  refine ⟨?_, fun id => applied_eq_planned hplanned hexisting accepted id, ?_,
    fun _ _ _ hs hp he => plan_reordered hsources hplanned hexisting hs hp he accepted⟩
  · obtain ⟨planned, existing, hp, he, -, rfl⟩ := planStockTimeActions_some accepted
    obtain ⟨-, -, rfl⟩ := indexed_iff.mp hp
    obtain ⟨-, -, rfl⟩ := indexed_iff.mp he
    show ((actionsOf _ _).map (·.targetId)).Nodup ∧ ∀ id, id ∈ (actionsOf _ _).map _ ↔ _
    rw [targetId_actionsOf]
    refine ⟨targetIds_nodup, fun id => ?_⟩
    rw [mem_targetIds, List.map_map, List.map_map]
    rfl
  · intro binding operationId markerAction markerPreimage
    obtain ⟨planned, existing, hp, he, hlength, rfl⟩ := planStockTimeActions_some accepted
    have hshort : plannedDocuments.length ≤ maxActionRows := by
      obtain ⟨-, hnodup, hpdef⟩ := indexed_iff.mp hp
      have hsubset : plannedDocuments.map idOf ⊆ targetIds planned existing := fun id hid => by
        rw [mem_targetIds, hpdef, List.map_map]
        exact .inl hid
      have hle := (List.subperm_of_subset hnodup hsubset).length_le
      rw [List.length_map] at hle
      exact hle.trans hlength
    have hleft := committed_of_plan rt operationId hplanned hexisting hp he
    obtain ⟨actions, hnoOp, hagain⟩ := hleft.replan rt hplanned hp hshort
    obtain ⟨final, hfinal, hmetrics⟩ : ∃ final,
        materializeForwardPlan rt binding (planOf rt sources existing (actionsOf planned existing))
          operationId markerAction markerPreimage = .ok final ∧ final.expectedMetricDocuments =
            (actionsOf planned existing).filterMap (finalMetric rt operationId) :=
      materializeForwardPlan_ok
    exact ⟨final, actions, hfinal, hnoOp, by rw [hmetrics]; exact hagain⟩

theorem actionPlan_applies_titled : ∃ plan,
    planStockTimeActions textual [] [titled 2] [] = some plan ∧
      (plan.actions.map (·.targetId)).Nodup ∧
      (∀ id, id ∈ plan.actions.map (·.targetId) ↔ id ∈ ["metric"] ∨ id ∈ []) ∧
      ∀ id, (applyActions plan.actions (rowsOf []) id).map businessDocumentBytes =
        (rowsOf [titled 2] id).map businessDocumentBytes := by
  have haccepted := titled_accepted (n := 2) (by decide)
  have honce : ∀ d ∈ [titled 2], d.Once := fun d mem => by
    obtain rfl := List.mem_singleton.mp mem
    exact titled_once 2
  obtain ⟨⟨hnodup, hids⟩, happlied, -⟩ := actionPlan_applies (fun _ mem => by cases mem) honce
    (fun _ mem => by cases mem) haccepted
  exact ⟨_, haccepted, hnodup, hids, happlied⟩

/-- A document with a title of three mebibytes is planned and committed, and cannot be planned
once more. -/
theorem longTitle_rejected_again : ∃ plan final,
    planStockTimeActions textual [] [titled 3145728] [] = some plan ∧
      materializeForwardPlan textual ⟨"seller", 0, 1, "", ""⟩ plan "operation" .insert none =
        .ok final ∧
      planStockTimeActions textual [] [titled 3145728]
        (final.expectedMetricDocuments.map fun metric => (StoredDoc.ofDoc metric).doc) = none := by
  obtain ⟨final, hfinal, hmetrics⟩ : ∃ final,
      materializeForwardPlan textual ⟨"seller", 0, 1, "", ""⟩
        (planOf textual [] [] (actionsOf [("metric", titled 3145728)] [])) "operation" .insert none =
          .ok final ∧ final.expectedMetricDocuments =
            (actionsOf [("metric", titled 3145728)] []).filterMap
              (finalMetric textual "operation") := materializeForwardPlan_ok
  refine ⟨_, final, titled_accepted (by decide), hfinal, ?_⟩
  rw [hmetrics]
  exact titled_rejected (by decide)

end ZelerPlatform.StockTime
