import ZelerPlatform.StockTime.Reconcile

/-!
# What the plan says of a committed operation

After a forward operation has been committed, the read-only plan over the same histories finds a
row for each metric and no other. A row that the operation left alone counts as matching if it has
no revision. In any state of the store, the plan is ready only if no row it finds is extra or
differs from its metric.
-/

namespace ZelerPlatform.StockTime

open Fallible Mongo
open Imports (Texts ReadInterval StockTimeMetric BuildResult strOf pyStr stockTimeMetricDocuments
  stockTimeMetric stockMetricId)

variable {texts : Texts} {rt : Runtime} {document row other : Doc} {documents rows left : List Doc}

/-! ### Rows with the same bytes -/

/-- A row as the driver reads it. -/
structure Read (row : Doc) : Prop where
  once : row.Once
  fixed : Value.storedFields row = row

theorem idOf_canonicalBson (once : row.Once) : idOf row.canonicalBson = idOf row := by
  rw [idOf, idOf, Doc.getD, Doc.getD, Doc.get?_canonicalBson once.keys]
  cases row.get? "_id" with
  | none => rfl
  | some id =>
      cases id with
      | int n =>
          show ((Value.ofInt n).str?).getD "" = ""
          rw [Value.ofInt]
          split <;> rfl
      | _ => rfl

theorem getD_of_same_bytes (once : row.Once) (once' : other.Once)
    (same : row.canonicalBson = other.canonicalBson) (trimmed : Trimmed other) :
    row.getD "_id" = other.getD "_id" := by
  obtain ⟨id, hid, -⟩ := trimmed
  have hbytes := (Doc.canonicalBson_eq_iff once.keys once'.keys).mp same "_id"
  rw [get?_of_trimmed hid] at hbytes
  obtain ⟨v, hv, hsame⟩ := Option.map_eq_some_iff.mp hbytes
  rw [hid, Doc.getD, hv]
  exact Value.eq_string_of_bytes hsame

/-- Rows with the bytes of rows that stand for planned documents stand for them. -/
theorem Committed.of_perm {plannedDocuments : List Doc} (h : Committed plannedDocuments rows)
    (htrimmed : ∀ d ∈ plannedDocuments, Trimmed d) (once : ∀ row ∈ left, row.Once)
    (same : (left.map Doc.canonicalBson).Perm (rows.map Doc.canonicalBson)) :
    Committed plannedDocuments left := by
  have honce : ∀ row ∈ rows, row.Once := fun row mem => by
    obtain ⟨d, -, hstand⟩ := h.standsFor row mem
    exact hstand.once
  have hids (xs : List Doc) (hxs : ∀ row ∈ xs, row.Once) :
      (xs.map Doc.canonicalBson).map idOf = xs.map idOf := by
    rw [List.map_map]
    exact List.map_congr_left fun row mem => idOf_canonicalBson (hxs row mem)
  have hperm : (left.map idOf).Perm (rows.map idOf) := by
    rw [← hids left once, ← hids rows honce]
    exact same.map idOf
  refine ⟨hperm.nodup_iff.mpr h.once, fun id => hperm.mem_iff.trans (h.ids id), fun row mem => ?_⟩
  obtain ⟨other, hother, hbytes⟩ :=
    List.mem_map.mp (same.subset (List.mem_map_of_mem (f := Doc.canonicalBson) mem))
  obtain ⟨d, hd, hstand⟩ := h.standsFor other hother
  have hid : row.getD "_id" = other.getD "_id" :=
    getD_of_same_bytes (once row mem) hstand.once hbytes.symm
      (trimmed_congr hstand.id (htrimmed d hd))
  refine ⟨d, hd, hid.trans hstand.id, once row mem, ?_⟩
  rw [← hstand.same]
  refine (business_eq_iff (once row mem).keys hstand.once.keys).mpr fun k _ => ?_
  exact (Doc.canonicalBson_eq_iff (once row mem).keys hstand.once.keys).mp hbytes.symm k

/-! ### Documents told apart by their ids -/

theorem mem_of_dedupeFrom {index : Nat} {seen : List String}
    (mem : row ∈ dedupeFrom texts index seen documents) : row ∈ documents := by
  induction documents generalizing index seen with
  | nil => exact mem
  | cons document rest ih =>
      rw [dedupeFrom] at mem
      split at mem
      case isTrue => exact List.mem_cons_of_mem _ (ih mem)
      case isFalse =>
          cases mem with
          | head => exact List.mem_cons_self
          | tail _ mem => exact List.mem_cons_of_mem _ (ih mem)

theorem dedupeKey_of_trimmed {index : Nat} (trimmed : Trimmed document) :
    dedupeKey texts index document = idOf document := by
  obtain ⟨id, hid, hblank, htrim⟩ := trimmed
  have hpy : pyStr texts (.string id) = id := rfl
  rw [dedupeKey, idOf, hid, strOf, hpy, if_neg hblank, ← htrim]
  · rfl
  · simp

/-- Of documents with trimmed ids one is kept for each id that has not been seen. -/
theorem dedupeFrom_ids (index : Nat) (seen : List String)
    (trimmed : ∀ d ∈ documents, Trimmed d) :
    ((dedupeFrom texts index seen documents).map idOf).Nodup ∧
      ∀ id, id ∈ (dedupeFrom texts index seen documents).map idOf ↔
        id ∈ documents.map idOf ∧ id ∉ seen := by
  induction documents generalizing index seen with
  | nil => simp [dedupeFrom]
  | cons document rest ih =>
      have hrest : ∀ d ∈ rest, Trimmed d := fun d mem => trimmed d (List.mem_cons_of_mem _ mem)
      rw [dedupeFrom, dedupeKey_of_trimmed (trimmed document List.mem_cons_self)]
      split
      case isTrue hseen =>
          obtain ⟨honce, hids⟩ := ih _ _ hrest
          refine ⟨honce, fun id => (hids id).trans ?_⟩
          rw [List.map_cons, List.mem_cons]
          constructor
          · exact fun h => ⟨.inr h.1, h.2⟩
          · rintro ⟨rfl | hid, hunseen⟩
            · exact absurd hseen hunseen
            · exact ⟨hid, hunseen⟩
      case isFalse hunseen =>
          obtain ⟨honce, hids⟩ := ih _ _ hrest
          refine ⟨List.nodup_cons.mpr ⟨fun mem => ?_, honce⟩, fun id => ?_⟩
          · exact ((hids (idOf document)).mp mem).2 List.mem_cons_self
          · rw [List.map_cons, List.mem_cons, hids id, List.map_cons, List.mem_cons, List.mem_cons]
            constructor
            · rintro (rfl | ⟨hid, hnot⟩)
              · exact ⟨.inl rfl, hunseen⟩
              · exact ⟨.inr hid, fun h => hnot (.inr h)⟩
            · rintro ⟨rfl | hid, hnot⟩
              · exact .inl rfl
              · by_cases heq : id = idOf document
                · exact .inl heq
                · exact .inr ⟨hid, fun h => h.elim heq hnot⟩

/-! ### The rows of the interval -/

variable {keys : List Value} {start stop : Int} {interval : ReadInterval}

theorem mem_keyRows : row ∈ (keys.flatMap fun key => rows.filter (inInterval [key] start stop)) ↔
    row ∈ rows.filter (inInterval keys start stop) := by
  simp only [List.mem_flatMap, List.mem_filter, inInterval, List.any_cons, List.any_nil,
    Bool.or_false, Bool.and_eq_true, List.any_eq_true]
  constructor
  · rintro ⟨key, hkey, mem, hseller, hdates⟩
    exact ⟨mem, ⟨key, hkey, hseller⟩, hdates⟩
  · rintro ⟨mem, ⟨key, hkey, hseller⟩, hdates⟩
    exact ⟨key, hkey, mem, hseller, hdates⟩

/-- If the rows of the interval stand for planned documents, so do those the planner looks at. -/
theorem Committed.exactRows {plannedDocuments : List Doc}
    (h : Committed plannedDocuments (rows.filter (inInterval keys interval.start interval.stop)))
    (htrimmed : ∀ d ∈ plannedDocuments, Trimmed d) :
    Committed plannedDocuments (sellerExactStockRows texts rows keys interval) := by
  have hrows : ∀ row ∈ keys.flatMap fun key =>
      rows.filter (inInterval [key] interval.start interval.stop), Trimmed row := fun row mem => by
    obtain ⟨d, hd, hstand⟩ := h.standsFor row (mem_keyRows.mp mem)
    exact trimmed_congr hstand.id (htrimmed d hd)
  have hids : ∀ id, id ∈ (sellerExactStockRows texts rows keys interval).map idOf ↔ _ :=
    (dedupeFrom_ids 0 [] hrows).2
  refine ⟨(dedupeFrom_ids 0 [] hrows).1, fun id => ?_, fun row mem => ?_⟩
  · refine (hids id).trans (Iff.trans ?_ (h.ids id))
    simp only [List.not_mem_nil, not_false_eq_true, and_true, List.mem_map]
    exact exists_congr fun row => and_congr_left fun _ => mem_keyRows
  · exact h.standsFor row (mem_keyRows.mp (mem_of_dedupeFrom mem))

/-! ### The comparison -/

variable {result : BuildResult StockTimeMetric} {issues : List IssueCode}

/-- The documents of the metrics. -/
def metricDocuments (result : BuildResult StockTimeMetric) : List Doc :=
  result.documents.map metricDocument

theorem idOf_metricDocument (metric : StockTimeMetric) : idOf (metricDocument metric) = metric.id :=
  rfl

/-- Metrics with distinct ids are planned as they come. -/
theorem plannedById_of_nodup (once : ((metricDocuments result).map idOf).Nodup) :
    plannedById result = (metricDocuments result).map fun d => (idOf d, d) := by
  rw [metricDocuments, List.map_map] at once
  rw [plannedById, metricDocuments, List.map_map, Dict.ofPairs_of_nodup]
  · rfl
  · rw [List.map_map]
    exact once

theorem existingById_of_trimmed (trimmed : ∀ row ∈ rows, Trimmed row)
    (once : (rows.map idOf).Nodup) :
    existingById texts rows = rows.map fun row => (idOf row, row) := by
  have hpairs : rows.map (fun row => (pyStr texts (row.getD "_id"), row)) =
      rows.map fun row => (idOf row, row) := by
    refine List.map_congr_left fun row mem => ?_
    rw [getD_of_trimmed (trimmed row mem)]
    rfl
  rw [existingById, hpairs, Dict.ofPairs_of_nodup]
  rw [List.map_map]
  exact once

theorem lookup_rows {id : String} :
    (rows.map fun row => (idOf row, row)).lookup id = rowsOf rows id := by
  induction rows with
  | nil => rfl
  | cons row rest ih =>
      rw [List.map_cons, List.lookup_cons, rowsOf, List.find?_cons]
      by_cases h : idOf row = id
      · simp [h]
      · simp only [h, decide_false, beq_false_of_ne (Ne.symm h)]
        exact ih

theorem rowsOf_isSome {id : String} : (rowsOf rows id).isSome ↔ id ∈ rows.map idOf := by
  rw [rowsOf, List.find?_isSome, List.mem_map]
  exact exists_congr fun row => and_congr_right fun _ => decide_eq_true_iff

theorem countP_split {α : Type} {xs : List α} {p q : α → Bool} (h : ∀ x ∈ xs, p x = !q x) :
    xs.countP p + xs.countP q = xs.length := by
  rw [List.length_eq_countP_add_countP q, add_comm]
  refine congrArg _ (List.countP_congr fun x mem => ?_)
  rw [h x mem]
  simp

/-- What is reported of rows that stand for the metrics. -/
structure Complete (result : BuildResult StockTimeMetric) (issues : List IssueCode)
    (rows : List Doc) (report : ReconcilePlan) : Prop where
  persisted : report.persistedExactCount = result.documents.length
  missing : report.missingExactCount = 0
  extra : report.extraExactCount = 0
  matching_stale : report.matchingExactCount + report.staleExactCount = result.documents.length
  matching : report.matchingExactCount =
    (metricDocuments result).countP fun d => (rowsOf rows (idOf d)).any fun row => row.pyEq d
  ready : report.ready = true ↔ issues = [] ∧ report.staleExactCount = 0

theorem complete_of_committed (h : Committed (metricDocuments result) rows)
    (htrimmed : ∀ d ∈ metricDocuments result, Trimmed d)
    (once : ((metricDocuments result).map idOf).Nodup) :
    Complete result issues rows (comparedPlan texts interval issues result rows) := by
  have hrows : ∀ row ∈ rows, Trimmed row := fun row mem => by
    obtain ⟨d, hd, hstand⟩ := h.standsFor row mem
    exact trimmed_congr hstand.id (htrimmed d hd)
  have hplanned := plannedById_of_nodup once
  have hexisting : existingById texts rows = rows.map fun row => (idOf row, row) :=
    existingById_of_trimmed hrows h.once
  have hlookup (id : String) : (existingById texts rows).lookup id = rowsOf rows id := by
    rw [hexisting, lookup_rows]
  have hkeys : (plannedById result).map Prod.fst = (metricDocuments result).map idOf := by
    rw [hplanned, List.map_map]
    rfl
  have hkeys' : (existingById texts rows).map Prod.fst = rows.map idOf := by
    rw [hexisting, List.map_map]
    rfl
  have hlength : rows.length = result.documents.length := by
    have hperm : (rows.map idOf).Perm ((metricDocuments result).map idOf) :=
      (List.perm_ext_iff_of_nodup h.once once).mpr h.ids
    have := hperm.length_eq
    rwa [List.length_map, List.length_map, metricDocuments, List.length_map] at this
  have hmissing : (comparedPlan texts interval issues result rows).missingExactCount = 0 := by
    refine List.countP_eq_zero.mpr fun entry mem => ?_
    have hkey : entry.1 ∈ rows.map idOf :=
      (h.ids entry.1).mpr (hkeys ▸ List.mem_map_of_mem (f := Prod.fst) mem)
    rw [hkeys']
    simpa using hkey
  have hextra : (comparedPlan texts interval issues result rows).extraExactCount = 0 := by
    refine List.countP_eq_zero.mpr fun entry mem => ?_
    have hkey : entry.1 ∈ (metricDocuments result).map idOf :=
      (h.ids entry.1).mp (hkeys' ▸ List.mem_map_of_mem (f := Prod.fst) mem)
    rw [hkeys]
    simpa using hkey
  have hmatching : (comparedPlan texts interval issues result rows).matchingExactCount =
      (metricDocuments result).countP fun d =>
        (rowsOf rows (idOf d)).any fun row => row.pyEq d := by
    show (plannedById result).countP _ = _
    rw [hplanned, List.countP_map]
    refine List.countP_congr fun d _ => ?_
    show ((existingById texts rows).lookup (idOf d)).any (fun row => row.pyEq d) = true ↔ _
    rw [hlookup]
  have hstale : (comparedPlan texts interval issues result rows).staleExactCount =
      (metricDocuments result).countP fun d =>
        (rowsOf rows (idOf d)).any fun row => !row.pyEq d := by
    show (plannedById result).countP _ = _
    rw [hplanned, List.countP_map]
    refine List.countP_congr fun d _ => ?_
    show ((existingById texts rows).lookup (idOf d)).any (fun row => !row.pyEq d) = true ↔ _
    rw [hlookup]
  refine ⟨hlength, hmissing, hextra, ?_, hmatching, ?_⟩
  · rw [hmatching, hstale, countP_split, metricDocuments, List.length_map]
    intro d mem
    have hsome := rowsOf_isSome.mpr ((h.ids (idOf d)).mpr (List.mem_map_of_mem mem))
    obtain ⟨row, hrow⟩ := Option.isSome_iff_exists.mp hsome
    rw [hrow]
    simp
  · have hready : (comparedPlan texts interval issues result rows).ready =
        (issues ++ issueIf ((comparedPlan texts interval issues result rows).staleExactCount ≠ 0)
            .exactIntervalStaleRows ++
          issueIf ((comparedPlan texts interval issues result rows).extraExactCount ≠ 0)
            .exactIntervalExtraRows).isEmpty := rfl
    rw [hready, hextra]
    by_cases hzero : (comparedPlan texts interval issues result rows).staleExactCount = 0
    · simp [hzero, issueIf]
    · simp [hzero, issueIf]

/-! ### Sealed plans -/

theorem materializeActions_final {operationId : String} {sequence : Nat}
    {actions : List StockTimeAction} {mutations : List ForwardMutation} {final : List Doc}
    (h : materializeActions rt operationId sequence actions = .ok (mutations, final)) :
    final = actions.filterMap (finalMetric rt operationId) := by
  induction actions generalizing sequence mutations final with
  | nil =>
      obtain ⟨rfl, rfl⟩ := Prod.mk.inj (Except.ok.inj h)
      rfl
  | cons action rest ih =>
      obtain ⟨kind, targetId, document, preimage⟩ := action
      cases kind with
      | noOp =>
          cases preimage with
          | none => cases h
          | some preimage =>
              obtain ⟨⟨later, finals⟩, hrest, h⟩ := bind_ok h
              obtain ⟨rfl, rfl⟩ := Prod.mk.inj (Except.ok.inj h)
              rw [ih hrest]
              rfl
      | delete =>
          obtain ⟨⟨later, finals⟩, hrest, h⟩ := bind_ok h
          obtain ⟨rfl, rfl⟩ := Prod.mk.inj (Except.ok.inj h)
          rw [ih hrest]
          rfl
      | insert =>
          cases document with
          | none => cases h
          | some document =>
              obtain ⟨⟨later, finals⟩, hrest, h⟩ := bind_ok h
              obtain ⟨rfl, rfl⟩ := Prod.mk.inj (Except.ok.inj h)
              rw [ih hrest]
              rfl
      | replace =>
          cases document with
          | none => cases h
          | some document =>
              obtain ⟨⟨later, finals⟩, hrest, h⟩ := bind_ok h
              obtain ⟨rfl, rfl⟩ := Prod.mk.inj (Except.ok.inj h)
              rw [ih hrest]
              rfl

variable {sellerId : String} {dateFrom dateTo : Int} {sources existing : List Doc}
  {plan : ActionPlan} {marker : Option Doc} {sealedPlan : SealedForwardPlan}

/-- What a sealed plan is bound to, and the metrics it leaves. -/
structure SealedFrom (rt : Runtime) (sellerId : String) (dateFrom dateTo : Int)
    (plan : ActionPlan) (sealedPlan : SealedForwardPlan) : Prop where
  seller : sealedPlan.binding.sellerId = pyStrip sellerId
  start : sealedPlan.binding.dateFrom = dateFrom
  stop : sealedPlan.binding.dateTo = dateTo
  checked : ∀ action ∈ plan.actions,
    checkAction rt (pyStrip sellerId) dateFrom dateTo action = .ok ⟨⟩
  final : sealedPlan.expectedMetricDocuments =
    (plan.actions.map StockTimeAction.canonical).filterMap (finalMetric rt sealedPlan.operationId)

theorem sealedFrom_of_seal (h : sealForwardPlan rt sellerId dateFrom dateTo sources plan marker =
    .ok sealedPlan) : SealedFrom rt sellerId dateFrom dateTo plan sealedPlan := by
  rw [sealForwardPlan] at h
  dsimp only at h
  obtain ⟨-, h⟩ := raiseIf_ok h
  obtain ⟨-, h⟩ := raiseIf_ok h
  obtain ⟨-, h⟩ := raiseIf_ok h
  obtain ⟨-, h⟩ := raiseIf_ok h
  obtain ⟨checks, hchecks, h⟩ := bind_ok h
  obtain ⟨validated, hvalidated, h⟩ := bind_ok h
  rw [materializeForwardPlan] at h
  obtain ⟨⟨metrics, final⟩, hmetrics, h⟩ := bind_ok h
  obtain rfl := pure_ok h
  have hactions : validated.actions = plan.actions.map StockTimeAction.canonical := by
    rw [validatedActionPlan] at hvalidated
    split at hvalidated
    · cases hvalidated
    · split at hvalidated
      case isTrue hsame =>
          obtain rfl := Except.ok.inj hvalidated
          exact (congrArg ActionPlan.actions hsame).symm
      case isFalse => cases hvalidated
  refine ⟨rfl, rfl, rfl, fun action mem => ?_, ?_⟩
  · obtain ⟨⟨⟩, hcheck, -⟩ := mapM_mem hchecks mem
    exact hcheck
  · show final = _
    rw [materializeActions_final hmetrics, hactions]

/-- The documents of a plan are canonical already. -/
theorem canonical_actionsOf {planned left : List (String × Doc)}
    (hplanned : indexedCanonicalDocuments documents = some planned)
    (hleft : indexedCanonicalDocuments rows = some left) (once : ∀ d ∈ documents, d.Once)
    (once' : ∀ d ∈ rows, d.Once) :
    (actionsOf planned left).map StockTimeAction.canonical = actionsOf planned left := by
  have hcanonical {xs : List Doc} {indexed : List (String × Doc)} (id : String)
      (hindexed : indexedCanonicalDocuments xs = some indexed) (hxs : ∀ d ∈ xs, d.Once) :
      (indexed.lookup id).map Doc.canonical = indexed.lookup id := by
    obtain ⟨-, -, rfl⟩ := indexed_iff.mp hindexed
    rw [lookup_indexed, Option.map_map]
    cases hrow : rowsOf xs id with
    | none => rfl
    | some d =>
        have hd := hxs d (rowsOf_mem hrow).1
        exact congrArg some (Value.document.inj (Value.canonical_canonical (.document d) hd))
  rw [actionsOf, List.map_map]
  refine List.map_congr_left fun id _ => ?_
  rw [Function.comp_apply, actionFor, StockTimeAction.canonical, hcanonical id hplanned once,
    hcanonical id hleft once']

/-! ### Metrics as documents -/

theorem decimalToBsonNumber_exact (value : ℚ) : (decimalToBsonNumber value).exact = true := by
  rw [decimalToBsonNumber]
  split
  case isTrue => rfl
  case isFalse => exact decide_eq_true (Binary64.toDouble_number value)

theorem decimalToBsonNumber_keysOnce (value : ℚ) :
    (decimalToBsonNumber value).keysOnce = true := by
  rw [decimalToBsonNumber]
  split <;> rfl

theorem optionalText_keysOnce (text : Option String) : (optionalText text).keysOnce = true := by
  cases text <;> rfl

theorem metricDocument_once (metric : StockTimeMetric) : (metricDocument metric).Once := by
  have hweeks : Value.listOnce (metric.weeks.map weekDocument) = true := by
    refine Value.listOnce_iff.mpr fun v mem => ?_
    obtain ⟨bucket, -, rfl⟩ := List.mem_map.mp mem
    rfl
  refine Value.fieldsOnce_iff.mpr ⟨by simp [metricDocument], ?_⟩
  simp only [metricDocument, List.forall_mem_cons]
  exact ⟨rfl, rfl, rfl, rfl, rfl, optionalText_keysOnce _, optionalText_keysOnce _, rfl, rfl,
    decimalToBsonNumber_keysOnce _, decimalToBsonNumber_keysOnce _,
    decimalToBsonNumber_keysOnce _, hweeks, rfl, rfl, rfl, rfl, fun _ mem => by cases mem⟩

theorem optionalText_exact (text : Option String) : (optionalText text).exact = true := by
  cases text <;> rfl

theorem metricDocument_exact {metric : StockTimeMetric}
    (start : Value.floorMs metric.dateFrom = metric.dateFrom)
    (stop : Value.floorMs metric.dateTo = metric.dateTo) :
    Value.exactFields (metricDocument metric) = true := by
  have hweeks : (Value.array (metric.weeks.map weekDocument)).exact = true := by
    show Value.exactList (metric.weeks.map weekDocument) = true
    induction metric.weeks with
    | nil => rfl
    | cons bucket rest ih =>
        rw [List.map_cons, Value.exactList, ih]
        rfl
  refine Value.exactFields_iff.mpr ?_
  simp only [metricDocument, List.forall_mem_cons]
  exact ⟨rfl, rfl, rfl, rfl, rfl, optionalText_exact _, optionalText_exact _,
    decide_eq_true start, decide_eq_true stop, decimalToBsonNumber_exact _,
    decimalToBsonNumber_exact _, decimalToBsonNumber_exact _, hweeks, rfl, rfl, rfl, rfl,
    fun _ mem => by cases mem⟩

/-- The dates of the metrics are those of the interval. -/
theorem metric_dates {projections : List Doc} {seller : String} {metric : StockTimeMetric}
    (built : stockTimeMetricDocuments texts seller projections interval = .ok result)
    (mem : metric ∈ result.documents) :
    metric.dateFrom = interval.start ∧ metric.dateTo = interval.stop := by
  obtain ⟨source, -, hmetric⟩ := Imports.stockTimeMetricDocuments_document built mem
  rw [stockTimeMetric] at hmetric
  obtain ⟨segments, -, hmetric⟩ := bind_ok hmetric
  split at hmetric
  · obtain ⟨weeks, -, hmetric⟩ := bind_ok hmetric
    obtain rfl := Option.some.inj (pure_ok hmetric)
    exact ⟨rfl, rfl⟩
  · cases pure_ok hmetric

/-! ### Rows that are left alone -/

/-- The action keeps a row that has no revision. -/
def StockTimeAction.untouched (action : StockTimeAction) : Bool :=
  action.action = .noOp && action.preimage.all fun preimage => (preimage.get? "revision").isNone

theorem plannedAction_noOp {d e : Option Doc} (h : plannedAction d e = .noOp) :
    ∃ x y, d = some x ∧ e = some y ∧ businessDocumentBytes x = businessDocumentBytes y := by
  cases d with
  | none => cases h
  | some x =>
      cases e with
      | none => cases h
      | some y =>
          refine ⟨x, y, rfl, rfl, ?_⟩
          by_contra hne
          rw [plannedAction, if_neg hne] at h
          cases h

/-- A sealed action on a row that was read says that its interval begins and ends at a
millisecond. -/
theorem floorMs_of_checkAction {seller : String} {action : StockTimeAction} {preimage : Doc}
    (h : checkAction rt seller dateFrom dateTo action = .ok ⟨⟩)
    (hpreimage : action.preimage = some preimage.canonical) (hread : Read preimage) :
    Value.floorMs dateFrom = dateFrom ∧ Value.floorMs dateTo = dateTo := by
  have hdate {field : String} {t : Int}
      (heq : (preimage.canonical.getD field).pyEq (.date t) = true) : Value.floorMs t = t := by
    have hvalue := Value.eq_date_of_pyEq heq
    rw [Doc.getD, Doc.get?_canonical hread.once.keys] at hvalue
    cases hv : preimage.get? field with
    | none =>
        rw [hv] at hvalue
        cases hvalue
    | some v =>
        rw [hv] at hvalue
        have hcanonical : v.canonical = .date t := hvalue
        have hstored : v.stored = v := by
          have hfixed : Doc.get? (Value.storedFields preimage) field = _ :=
            Doc.get?_storedFields
          rw [hread.fixed, hv] at hfixed
          exact (Option.some.inj hfixed).symm
        cases v with
        | date us =>
            obtain rfl : us = t := Value.date.inj hcanonical
            exact Value.date.inj hstored
        | _ => cases hcanonical
  rw [checkAction] at h
  obtain ⟨-, h⟩ := raiseIf_ok h
  rw [raiseIf] at h
  split at h
  · cases h
  · next hscope =>
      rw [not_not, hpreimage] at hscope
      have hmem : preimage.canonical ∈ action.document.toList ++
          (some preimage.canonical).toList :=
        List.mem_append_right _ (List.mem_singleton.mpr rfl)
      have hpre := List.all_eq_true.mp hscope _ hmem
      rw [inScope, Bool.and_eq_true, Bool.and_eq_true, Bool.and_eq_true] at hpre
      exact ⟨hdate hpre.1.2, hdate hpre.2⟩

/-- A row without a revision that has the business bytes of a metric has its canonical bytes. -/
theorem canonicalBson_eq_metric {metric : StockTimeMetric} {preimage : Doc}
    (once : preimage.Once) (plain : preimage.get? "revision" = none)
    (same : businessDocumentBytes (metricDocument metric) = businessDocumentBytes preimage) :
    preimage.canonicalBson = (metricDocument metric).canonicalBson := by
  have hmetric := metricDocument_once metric
  refine (Doc.canonicalBson_eq_iff once.keys hmetric.keys).mpr fun k => ?_
  by_cases hk : k = "revision"
  · subst hk
    rw [plain]
    rfl
  · exact ((business_eq_iff hmetric.keys once.keys).mp same k hk).symm

variable {planned leftIndex : List (String × Doc)}

/-- A row that the operation leaves alone is found, and it is the metric. -/
theorem untouched_matches {projections : List Doc} {seller operationId : String}
    {observed : List Doc} {action : StockTimeAction}
    (built : stockTimeMetricDocuments texts seller projections interval = .ok result)
    (hplanned : indexedCanonicalDocuments (metricDocuments result) = some planned)
    (hexisting : indexedCanonicalDocuments existing = some leftIndex)
    (readExisting : ∀ row ∈ existing, Read row) (readObserved : ∀ row ∈ observed, Read row)
    (same : (observed.map Doc.canonicalBson).Perm
      (((actionsOf planned leftIndex).filterMap (finalMetric rt operationId)).map
        Doc.canonicalBson))
    (mem : action ∈ actionsOf planned leftIndex)
    (checked : checkAction rt seller interval.start interval.stop action = .ok ⟨⟩)
    (untouched : action.untouched = true) :
    ∃ d ∈ metricDocuments result, idOf d = action.targetId ∧
      ∃ row ∈ observed, idOf row = action.targetId ∧ row.pyEq d = true := by
  obtain ⟨-, -, hpdef⟩ := indexed_iff.mp hplanned
  obtain ⟨htrimmed, -, hedef⟩ := indexed_iff.mp hexisting
  obtain ⟨id, -, rfl⟩ := List.mem_map.mp mem
  rw [StockTimeAction.untouched, Bool.and_eq_true, decide_eq_true_eq] at untouched
  obtain ⟨hkind, hplain⟩ := untouched
  obtain ⟨x, y, hx, hy, hsame⟩ := plannedAction_noOp hkind
  have hfinal : finalMetric rt operationId (actionFor planned leftIndex id) = some y := by
    rw [finalMetric, hkind]
    exact hy
  -- The document and the row the action is about.
  have hx' : (rowsOf (metricDocuments result) id).map Doc.canonical = some x := by
    rw [← lookup_indexed, ← hpdef]
    exact hx
  have hy' : (rowsOf existing id).map Doc.canonical = some y := by
    rw [← lookup_indexed, ← hedef]
    exact hy
  obtain ⟨d, hd, rfl⟩ := Option.map_eq_some_iff.mp hx'
  obtain ⟨e, he, rfl⟩ := Option.map_eq_some_iff.mp hy'
  obtain ⟨hdmem, hdid⟩ := rowsOf_mem hd
  obtain ⟨hemem, heid⟩ := rowsOf_mem he
  obtain ⟨metric, hmetric, rfl⟩ := List.mem_map.mp hdmem
  have hread := readExisting e hemem
  have hplain' : e.canonical.get? "revision" = none := by
    have hpreimage : (actionFor planned leftIndex id).preimage = some e.canonical := hy
    rw [hpreimage, Option.all_some, Option.isNone_iff_eq_none] at hplain
    exact hplain
  obtain ⟨hstart, hstop⟩ := floorMs_of_checkAction checked hy hread
  obtain ⟨hfrom, hto⟩ := metric_dates built hmetric
  -- The row that has the bytes of the preimage.
  have hmem : e.canonical.canonicalBson ∈ observed.map Doc.canonicalBson :=
    same.symm.subset (List.mem_map_of_mem (List.mem_filterMap.mpr ⟨_, mem, hfinal⟩))
  obtain ⟨row, hrow, hbytes⟩ := List.mem_map.mp hmem
  have hrowRead := readObserved row hrow
  have hid : row.getD "_id" = e.canonical.getD "_id" :=
    getD_of_same_bytes hrowRead.once hread.once.canonical hbytes
      (trimmed_congr (getD_canonical hread.once (htrimmed e hemem)) (htrimmed e hemem))
  have hidOf : idOf row = id := by
    rw [idOf_congr (hid.trans (getD_canonical hread.once (htrimmed e hemem))), heid]
  refine ⟨metricDocument metric, hdmem, hdid, row, hrow, hidOf, ?_⟩
  refine Doc.pyEq_of_canonicalBson hrowRead.once (metricDocument_once metric) hrowRead.fixed
    (metricDocument_exact (by rw [hfrom, hstart]) (by rw [hto, hstop])) ?_
  rw [hbytes]
  refine canonicalBson_eq_metric hread.once.canonical hplain' ?_
  rw [← business_canonical (metricDocument_once metric)]
  exact hsame

/-! ### Sellers -/

theorem mem_of_mem_pyStrip {s : String} {c : Char} (mem : c ∈ (pyStrip s).toList) :
    c ∈ s.toList := by
  rw [pyStrip, String.toList_ofList, List.mem_reverse] at mem
  exact (List.dropWhile_sublist _).subset
    (List.mem_reverse.mp ((List.dropWhile_sublist _).subset mem))

theorem intOfText_nonneg {seller : String} {n : Int} (digits : isDigits seller = true)
    (h : intOfText seller = some n) : 0 ≤ n := by
  rw [isDigits, Bool.and_eq_true, List.all_eq_true] at digits
  rw [intOfText] at h
  split at h
  · obtain ⟨m, -, rfl⟩ := Option.map_eq_some_iff.mp h
    exact Int.natCast_nonneg m
  · next rest hminus =>
      have hmem : '-' ∈ seller.toList :=
        mem_of_mem_pyStrip (by rw [hminus]; exact List.mem_cons_self)
      exact absurd (digits.2 '-' hmem) (by decide)
  · obtain ⟨m, -, rfl⟩ := Option.map_eq_some_iff.mp h
    exact Int.natCast_nonneg m

/-- The seller is a number to the engine and to the planner, or to neither. -/
def SameSeller (seller : String) : Prop :=
  isDigits seller = true ∨ numericSeller seller = none

theorem sellerKeys_eq {seller : String} {sellers keys : List Value} (same : SameSeller seller)
    (hsellers : sellerValues seller = .ok sellers) (hkeys : sellerKeys seller = .ok keys) :
    keys = sellers := by
  by_cases hdigits : isDigits seller = true
  · rw [sellerValues, if_pos hdigits] at hsellers
    cases hn : intOfText seller with
    | none =>
        rw [hn] at hsellers
        cases hsellers
    | some n =>
        have hnumeric : numericSeller seller = some n := by
          rw [numericSeller, hn, Option.filter_some, if_pos]
          exact decide_eq_true (intOfText_nonneg hdigits hn)
        rw [hn] at hsellers
        rw [sellerKeys, hnumeric] at hkeys
        by_cases hfits : fitsInt64 n = true
        · simp only [hfits, if_true] at hsellers hkeys
          rw [← Except.ok.inj hkeys, ← Except.ok.inj hsellers]
        · simp only [hfits] at hsellers
          cases hsellers
  · rw [sellerValues, if_neg hdigits] at hsellers
    rw [sellerKeys, same.resolve_left hdigits] at hkeys
    rw [← Except.ok.inj hkeys, ← Except.ok.inj hsellers]

/-! ### After a commit -/

variable {db : ReconcileDb}

theorem keys_of_evidence {seller : String} {outcome : List IssueCode × Option (BuildResult StockTimeMetric)}
    (h : sourceEvidence texts db seller interval = .ok outcome) :
    ∃ keys, sellerKeys seller = .ok keys := by
  obtain ⟨keys, hkeys, -⟩ := bind_ok h
  exact ⟨keys, hkeys⟩

/-- The metrics of the evidence were built from histories. -/
theorem built_of_evidence {seller : String}
    (h : sourceEvidence texts db seller interval = .ok (issues, some result)) :
    ∃ projections, stockTimeMetricDocuments texts seller projections interval = .ok result := by
  obtain ⟨keys, -, h⟩ := bind_ok h
  split at h
  · cases pure_ok h
  · next account _ =>
      obtain ⟨accountIds, -, h⟩ := bind_ok h
      obtain ⟨built, hbuilt, h⟩ := bind_ok h
      obtain ⟨-, hresult⟩ := Prod.mk.inj (pure_ok h)
      obtain rfl := Option.some.inj hresult
      refine ⟨sellerScopedDocuments texts db.itemHistoryProjection keys accountIds, ?_⟩
      cases hdocuments : stockTimeMetricDocuments texts seller
          (sellerScopedDocuments texts db.itemHistoryProjection keys accountIds) interval with
      | error error =>
          rw [hdocuments] at hbuilt
          cases hbuilt
      | ok value =>
          rw [hdocuments] at hbuilt
          exact congrArg Except.ok (Except.ok.inj hbuilt)
  · cases pure_ok h

theorem plan_of_evidence {keys : List Value}
    (h : sourceEvidence texts db (pyStrip sellerId) interval = .ok (issues, some result))
    (hkeys : sellerKeys (pyStrip sellerId) = .ok keys) :
    planStockTimeMetricsReconcile texts { db with stockTimeMetrics := left } sellerId interval =
      .ok (comparedPlan texts interval issues result
        (sellerExactStockRows texts left keys interval)) := by
  have hsame : sourceEvidence texts { db with stockTimeMetrics := left } (pyStrip sellerId) interval =
      .ok (issues, some result) := h
  simp only [planStockTimeMetricsReconcile, hsame, hkeys]
  rfl

theorem canonicalBson_ofDoc (once : document.Once) :
    (StoredDoc.ofDoc document).doc.canonicalBson = document.canonicalBson := by
  refine (Doc.canonicalBson_eq_iff once.ofDoc.keys once.keys).mpr fun k => ?_
  show (Doc.get? (Value.storedFields document.idFirst) k).map Doc.bytesOf = _
  rw [Doc.get?_storedFields, Doc.get?_idFirst, Option.map_map]
  cases document.get? k with
  | none => rfl
  | some v => exact congrArg some Doc.bytesOf_stored

theorem lookup_once {xs : List Doc} {indexed : List (String × Doc)} {id : String}
    (hindexed : indexedCanonicalDocuments xs = some indexed) (once : ∀ d ∈ xs, d.Once)
    (h : indexed.lookup id = some document) : document.Once := by
  obtain ⟨-, -, rfl⟩ := indexed_iff.mp hindexed
  rw [lookup_indexed] at h
  obtain ⟨d, hd, rfl⟩ := Option.map_eq_some_iff.mp h
  exact (once d (rowsOf_mem hd).1).canonical

/-- The final metrics are dictionaries. -/
theorem finalMetric_once {operationId id : String}
    (hplanned : indexedCanonicalDocuments documents = some planned)
    (hexisting : indexedCanonicalDocuments existing = some leftIndex)
    (once : ∀ d ∈ documents, d.Once) (once' : ∀ d ∈ existing, d.Once)
    (h : finalMetric rt operationId (actionFor planned leftIndex id) = some row) : row.Once := by
  have hwritten (kind : Action) (h : (planned.lookup id).map
      (desiredMetric rt operationId (actionFor planned leftIndex id)) = some row) : row.Once := by
    obtain ⟨d, hd, rfl⟩ := Option.map_eq_some_iff.mp h
    exact ((lookup_once hplanned once hd).set rfl).canonical
  cases hkind : (actionFor planned leftIndex id).action with
  | noOp =>
      rw [finalMetric, hkind] at h
      exact lookup_once hexisting once' h
  | delete =>
      rw [finalMetric, hkind] at h
      cases h
  | insert =>
      rw [finalMetric, hkind] at h
      exact hwritten .insert h
  | replace =>
      rw [finalMetric, hkind] at h
      exact hwritten .replace h

/-- What the planner reports after a commit. -/
structure ReportsCommit (texts : Texts) (db : ReconcileDb) (sellerId : String)
    (interval : ReadInterval) (issues : List IssueCode) (result : BuildResult StockTimeMetric)
    (plan : ActionPlan) (left : List Doc) (report : ReconcilePlan) : Prop where
  reported : planStockTimeMetricsReconcile texts { db with stockTimeMetrics := left } sellerId
    interval = .ok report
  persisted : report.persistedExactCount = result.documents.length
  missing : report.missingExactCount = 0
  extra : report.extraExactCount = 0
  matching_stale : report.matchingExactCount + report.staleExactCount = result.documents.length
  untouched : plan.actions.countP StockTimeAction.untouched ≤ report.matchingExactCount
  ready : report.ready = true ↔ issues = [] ∧ report.staleExactCount = 0

theorem reports_commit (same : SameSeller (pyStrip sellerId))
    (evidence : sourceEvidence texts db (pyStrip sellerId) interval = .ok (issues, some result))
    (planned : planStockTimeActions rt sources (metricDocuments result) existing = some plan)
    (isSealed : sealForwardPlan rt sellerId interval.start interval.stop sources plan marker =
      .ok sealedPlan)
    (committed : writeAndVerifyForwardMetrics rt sealedPlan rows = .ok left)
    (readExisting : ∀ row ∈ existing, Read row) (readLeft : ∀ row ∈ left, Read row) :
    ∃ report, ReportsCommit texts db sellerId interval issues result plan left report := by
  obtain ⟨keys, hkeys⟩ := keys_of_evidence evidence
  obtain ⟨projections, built⟩ := built_of_evidence evidence
  obtain ⟨plannedIndex, leftIndex, hp, he, -, rfl⟩ := planStockTimeActions_some planned
  obtain ⟨htrimmed, honce, -⟩ := indexed_iff.mp hp
  have hdocuments : ∀ d ∈ metricDocuments result, d.Once := fun d mem => by
    obtain ⟨metric, -, rfl⟩ := List.mem_map.mp mem
    exact metricDocument_once metric
  have hsealed := sealedFrom_of_seal isSealed
  obtain ⟨sellers, hsellers, hperm⟩ := writeAndVerify_rows committed
  rw [hsealed.seller] at hsellers
  obtain rfl := sellerKeys_eq same hsellers hkeys
  obtain ⟨observed, hobserved⟩ : ∃ observed,
      observed = left.filter (inInterval keys interval.start interval.stop) := ⟨_, rfl⟩
  have hfilter : left.filter (metricIntervalQuery keys sealedPlan.binding) = observed := by
    rw [hobserved, show metricIntervalQuery keys sealedPlan.binding =
      inInterval keys sealedPlan.binding.dateFrom sealedPlan.binding.dateTo from rfl,
      hsealed.start, hsealed.stop]
  have hactions : (planOf rt sources leftIndex (actionsOf plannedIndex leftIndex)).actions =
      actionsOf plannedIndex leftIndex := rfl
  have hexisting : ∀ d ∈ existing, d.Once := fun d mem => (readExisting d mem).once
  rw [hfilter, hsealed.final, hactions, canonical_actionsOf hp he hdocuments hexisting] at hperm
  have hread : ∀ row ∈ observed, Read row := fun row mem =>
    readLeft row (List.mem_filter.mp (hobserved ▸ mem)).1
  -- The rows that are left stand for the metrics.
  have hcommitted : Committed (metricDocuments result) observed := by
    refine (committed_of_plan rt sealedPlan.operationId hdocuments hexisting hp he).of_perm
      htrimmed (fun row mem => (hread row mem).once) (hperm.trans (.of_eq ?_))
    rw [List.map_map]
    refine List.map_congr_left fun metric mem => ?_
    obtain ⟨action, haction, hmetric⟩ := List.mem_filterMap.mp mem
    obtain ⟨id, -, rfl⟩ := List.mem_map.mp haction
    exact (canonicalBson_ofDoc (finalMetric_once hp he hdocuments hexisting hmetric)).symm
  have hrows : Committed (metricDocuments result)
      (sellerExactStockRows texts left keys interval) :=
    Committed.exactRows (hobserved ▸ hcommitted) htrimmed
  have hcomplete : Complete result issues (sellerExactStockRows texts left keys interval)
      (comparedPlan texts interval issues result
        (sellerExactStockRows texts left keys interval)) :=
    complete_of_committed hrows htrimmed honce
  refine ⟨_, plan_of_evidence evidence hkeys, hcomplete.persisted, hcomplete.missing,
    hcomplete.extra, hcomplete.matching_stale, ?_, hcomplete.ready⟩
  rw [hactions, hcomplete.matching, List.countP_eq_length_filter, List.countP_eq_length_filter]
  -- Each untouched action has a metric of its own that is matched.
  have hsubset : ((actionsOf plannedIndex leftIndex).filter StockTimeAction.untouched).map
        (·.targetId) ⊆
      ((metricDocuments result).filter fun d =>
        (rowsOf (sellerExactStockRows texts left keys interval) (idOf d)).any
          fun row => row.pyEq d).map idOf := by
    intro id hid
    obtain ⟨action, haction, rfl⟩ := List.mem_map.mp hid
    obtain ⟨hmem, huntouched⟩ := List.mem_filter.mp haction
    obtain ⟨d, hd, hdid, row, hrow, hrowid, heq⟩ := untouched_matches built hp he readExisting hread
      hperm hmem (hsealed.checked action hmem) huntouched
    refine List.mem_map.mpr ⟨d, List.mem_filter.mpr ⟨hd, ?_⟩, hdid⟩
    obtain ⟨row', hrow'⟩ := Option.isSome_iff_exists.mp
      (rowsOf_isSome.mpr ((hrows.ids (idOf d)).mpr (List.mem_map_of_mem hd)))
    obtain ⟨hmem', hid'⟩ := rowsOf_mem hrow'
    have hobserved' : row' ∈ observed := by
      rw [hobserved]
      exact mem_keyRows.mp (mem_of_dedupeFrom hmem')
    obtain rfl : row' = row :=
      List.inj_on_of_nodup_map hcommitted.once hobserved' hrow (by rw [hid', hdid, hrowid])
    rw [hrow', Option.any_some]
    exact heq
  have honce' : (((actionsOf plannedIndex leftIndex).filter StockTimeAction.untouched).map
      (·.targetId)).Nodup := by
    refine List.Nodup.sublist (List.filter_sublist.map _) ?_
    rw [targetId_actionsOf]
    exact targetIds_nodup
  simpa using (List.subperm_of_subset honce' hsubset).length_le

/-! ### Ready in any state -/

theorem pyStrip_ne_empty {s : String} {c : Char} (mem : c ∈ s.toList)
    (letter : isPySpace c = false) : pyStrip s ≠ "" := by
  intro hempty
  have hnil : ((s.toList.dropWhile isPySpace).reverse.dropWhile isPySpace).reverse = [] := by
    rw [← String.toList_ofList (l := ((s.toList.dropWhile isPySpace).reverse.dropWhile
      isPySpace).reverse)]
    exact congrArg String.toList hempty
  have hspaces : ∀ x ∈ s.toList.dropWhile isPySpace, isPySpace x = true := fun x hx =>
    List.dropWhile_eq_nil_iff.mp (List.reverse_eq_nil_iff.mp hnil) x (List.mem_reverse.mpr hx)
  have hall : ∀ x ∈ s.toList, isPySpace x = true := by
    intro x hx
    rw [← List.takeWhile_append_dropWhile (p := isPySpace) (l := s.toList), List.mem_append] at hx
    exact hx.elim List.mem_takeWhile_imp (hspaces x)
  rw [hall c mem] at letter
  cases letter

/-- The id of a metric is not blank. -/
theorem pyStrip_metricId {projections : List Doc} {seller : String} {metric : StockTimeMetric}
    (built : stockTimeMetricDocuments texts seller projections interval = .ok result)
    (mem : metric ∈ result.documents) : pyStrip metric.id ≠ "" := by
  obtain ⟨source, -, hmetric⟩ := Imports.stockTimeMetricDocuments_document built mem
  rw [stockTimeMetric] at hmetric
  obtain ⟨segments, -, hmetric⟩ := bind_ok hmetric
  split at hmetric
  · obtain ⟨weeks, -, hmetric⟩ := bind_ok hmetric
    obtain rfl := Option.some.inj (pure_ok hmetric)
    refine pyStrip_ne_empty (c := ':') ?_ (by decide)
    simp [stockMetricId, String.toList_append]
  · cases pure_ok hmetric

/-- Of documents whose ids have the same trimmed text one is kept. -/
theorem eq_of_dedupeFrom {index : Nat} {seen : List String} {text : String}
    (mem : row ∈ dedupeFrom texts index seen documents)
    (mem' : other ∈ dedupeFrom texts index seen documents)
    (hrow : strOf texts (row.getD "_id") = some text)
    (hother : strOf texts (other.getD "_id") = some text) : row = other := by
  have habsent {index : Nat} {seen : List String} {documents : List Doc} {d : Doc}
      (hseen : text ∈ seen) (hd : strOf texts (d.getD "_id") = some text) :
      d ∉ dedupeFrom texts index seen documents := by
    induction documents generalizing index seen with
    | nil => exact List.not_mem_nil
    | cons document rest ih =>
        rw [dedupeFrom]
        split
        case isTrue => exact ih hseen
        case isFalse hunseen =>
            refine fun hmem => (List.mem_cons.mp hmem).elim ?_
              (ih (List.mem_cons_of_mem _ hseen))
            rintro rfl
            rw [dedupeKey, hd] at hunseen
            exact hunseen hseen
  induction documents generalizing index seen with
  | nil => cases mem
  | cons document rest ih =>
      rw [dedupeFrom] at mem mem'
      split at mem
      case isTrue hseen =>
          rw [if_pos hseen] at mem'
          exact ih mem mem'
      case isFalse hunseen =>
          rw [if_neg hunseen] at mem'
          have hkey {d : Doc} (hd : strOf texts (d.getD "_id") = some text) :
              dedupeKey texts index d = text := by
            rw [dedupeKey, hd]
            rfl
          cases mem with
          | head =>
              cases mem' with
              | head => rfl
              | tail _ mem' =>
                  rw [hkey hrow] at mem'
                  exact absurd mem' (habsent List.mem_cons_self hother)
          | tail _ mem =>
              cases mem' with
              | head =>
                  rw [hkey hother] at mem
                  exact absurd mem (habsent List.mem_cons_self hrow)
              | tail _ mem' => exact ih mem mem'

/-- A comparison without an issue finds each row with a text for an id equal to its metric. -/
theorem ready_comparison {projections : List Doc} {seller : String}
    (built : stockTimeMetricDocuments texts seller projections interval = .ok result)
    (read : ∀ row ∈ sellerExactStockRows texts rows keys interval, Read row)
    (ready : (comparedPlan texts interval issues result
      (sellerExactStockRows texts rows keys interval)).ready = true) :
    issues = [] ∧ ∀ row ∈ sellerExactStockRows texts rows keys interval, ∀ id,
      row.getD "_id" = .string id → ∃ d ∈ metricDocuments result, idOf d = id ∧
        row.pyEq d = true := by
  obtain ⟨found, hfound⟩ : ∃ found, found = sellerExactStockRows texts rows keys interval :=
    ⟨_, rfl⟩
  rw [← hfound] at read ready ⊢
  have hissues : issues ++
      issueIf ((comparedPlan texts interval issues result found).staleExactCount ≠ 0)
        .exactIntervalStaleRows ++
      issueIf ((comparedPlan texts interval issues result found).extraExactCount ≠ 0)
        .exactIntervalExtraRows = [] := List.isEmpty_iff.mp ready
  rw [List.append_eq_nil_iff, List.append_eq_nil_iff] at hissues
  obtain ⟨⟨hnone, hstale⟩, hextra⟩ := hissues
  have hzero {n : Nat} {issue : IssueCode} (h : issueIf (n ≠ 0) issue = []) : n = 0 := by
    by_contra hn
    simp [issueIf, hn] at h
  refine ⟨hnone, fun row mem id hid => ?_⟩
  -- The row that the dictionary has under the id.
  have hpair : (id, row) ∈ found.map fun row => (pyStr texts (row.getD "_id"), row) :=
    List.mem_map.mpr ⟨row, mem, by rw [hid]; rfl⟩
  obtain ⟨last, hlast⟩ := Option.isSome_iff_exists.mp (Dict.lookup_ofPairs_isSome hpair)
  obtain ⟨row', hmem', heq⟩ := List.mem_map.mp (Dict.mem_ofPairs_of_lookup hlast)
  obtain ⟨-, rfl⟩ := Prod.mk.inj heq
  have hkey : id ∈ (plannedById result).map Prod.fst := by
    by_contra hnot
    obtain ⟨before, after, hsplit, -⟩ := List.lookup_eq_some_iff.mp hlast
    have hentry : (id, row') ∈ existingById texts found := by
      rw [existingById, hsplit]
      exact List.mem_append_right _ List.mem_cons_self
    have := List.countP_eq_zero.mp (hzero hextra) _ hentry
    simp only [decide_eq_true_eq, not_not] at this
    exact hnot this
  obtain ⟨⟨key, d⟩, hentry, rfl⟩ := List.mem_map.mp hkey
  have hequal : row'.pyEq d = true := by
    have := List.countP_eq_zero.mp (hzero hstale) _ hentry
    simpa [existingById, hlast] using this
  have hd : (key, d) ∈ result.documents.map fun metric => (metric.id, metricDocument metric) :=
    Dict.mem_ofPairs hentry
  obtain ⟨metric, hmetric, hpair'⟩ := List.mem_map.mp hd
  obtain ⟨rfl, rfl⟩ := Prod.mk.inj hpair'
  obtain ⟨x, hx, hxy⟩ := Doc.pyEq_field (read row' hmem').once (metricDocument_once metric) hequal
    (k := "_id") (y := .string metric.id) rfl
  have hid' : row'.getD "_id" = .string metric.id := by
    rw [Doc.getD, hx]
    exact Value.eq_string_of_pyEq hxy
  have htext : strOf texts (.string metric.id) = some (pyStrip metric.id) := by
    have hpy : pyStr texts (.string metric.id) = metric.id := rfl
    rw [strOf, hpy, if_neg (pyStrip_metricId built hmetric)]
    simp
  obtain rfl : row = row' := by
    rw [hfound] at mem hmem'
    exact eq_of_dedupeFrom mem hmem' (by rw [hid]; exact htext) (by rw [hid']; exact htext)
  exact ⟨metricDocument metric, List.mem_map_of_mem hmetric, rfl, hequal⟩

/-- What a ready plan says of the rows that were read. -/
structure ReadyRows (texts : Texts) (db : ReconcileDb) (seller : String)
    (interval : ReadInterval) : Prop where
  found : ∃ result keys, sourceEvidence texts db seller interval = .ok ([], some result) ∧
    sellerKeys seller = .ok keys ∧
    ∀ row ∈ sellerExactStockRows texts db.stockTimeMetrics keys interval, ∀ id,
      row.getD "_id" = .string id → ∃ d ∈ metricDocuments result, idOf d = id ∧
        row.pyEq d = true

theorem ready_rows {report : ReconcilePlan} (read : ∀ row ∈ db.stockTimeMetrics, Read row)
    (reported : planStockTimeMetricsReconcile texts db sellerId interval = .ok report)
    (ready : report.ready = true) : ReadyRows texts db (pyStrip sellerId) interval := by
  obtain ⟨⟨issues, evidence⟩, hevidence, reported⟩ := bind_ok reported
  cases evidence with
  | none =>
      obtain rfl := pure_ok reported
      cases ready
  | some result =>
      obtain ⟨keys, hkeys, reported⟩ := bind_ok reported
      obtain rfl := pure_ok reported
      obtain ⟨projections, built⟩ := built_of_evidence hevidence
      have hread : ∀ row ∈ sellerExactStockRows texts db.stockTimeMetrics keys interval,
          Read row := fun row mem =>
        read row (List.mem_filter.mp (mem_keyRows.mp (mem_of_dedupeFrom mem))).1
      obtain ⟨rfl, hrows⟩ := ready_comparison built hread ready
      exact ⟨result, keys, hevidence, hkeys, hrows⟩

/-- After a commit the plan misses no row and finds no extra one, it counts the rows that were
left alone and have no revision as matching, and it is ready if the histories raise no issue and
no row is stale. In any state, a ready plan has found no row that differs from its metric. -/
theorem reconcile_reports (texts : Texts) (rt : Runtime) (db : ReconcileDb) (sellerId : String)
    (interval : ReadInterval) :
    (∀ issues result sources existing plan marker sealedPlan rows left,
      SameSeller (pyStrip sellerId) →
      sourceEvidence texts db (pyStrip sellerId) interval = .ok (issues, some result) →
      planStockTimeActions rt sources (metricDocuments result) existing = some plan →
      sealForwardPlan rt sellerId interval.start interval.stop sources plan marker =
        .ok sealedPlan →
      writeAndVerifyForwardMetrics rt sealedPlan rows = .ok left →
      (∀ row ∈ existing, Read row) → (∀ row ∈ left, Read row) →
      ∃ report, ReportsCommit texts db sellerId interval issues result plan left report) ∧
    ((∀ row ∈ db.stockTimeMetrics, Read row) → ∀ report,
      planStockTimeMetricsReconcile texts db sellerId interval = .ok report →
        report.ready = true → ReadyRows texts db (pyStrip sellerId) interval) :=
  ⟨fun _ _ _ _ _ _ _ _ _ same evidence planned isSealed committed readExisting readLeft =>
      reports_commit same evidence planned isSealed committed readExisting readLeft,
    fun read _ reported ready => ready_rows read reported ready⟩

/-! ### One metric -/

/-- One hour, and a listing whose stock is active all through it. -/
def hour : ReadInterval := ⟨0, 3600000000, by decide⟩

def activeListing : Doc :=
  [("_id", .string "P1"), ("seller_id", .string "1"), ("item_id", .string "MLM1"),
    ("variations_history", .document [("SKU", .array [.document
      [("status2", .string "active"), ("changed_at", .date 0)]])])]

def listedDb (stockTimeMetrics : List Doc) : ReconcileDb where
  meliAccounts := [[("_id", .string "A"), ("seller_id", .string "1"), ("site_id", .string "MLM")]]
  itemHistoryProjection := [activeListing]
  stockTimeMetrics

/-- The metrics of the listing. -/
def listedResult : Option (BuildResult StockTimeMetric) :=
  (sourceEvidence Imports.plainTexts (listedDb []) "1" hour).toOption.bind Prod.snd

/-- The plan of the listing over some rows. -/
def listedPlan (existing : List Doc) : Option ActionPlan :=
  listedResult.bind fun result =>
    planStockTimeActions textual [activeListing] (metricDocuments result) existing

def listedSeal (existing : List Doc) : Option SealedForwardPlan :=
  (listedPlan existing).bind fun plan =>
    (sealForwardPlan textual "1" 0 3600000000 [activeListing] plan none).toOption

def listedRows (existing : List Doc) : Option (List Doc) :=
  (listedSeal existing).bind fun sealedPlan =>
    (writeAndVerifyForwardMetrics textual sealedPlan existing).toOption

/-- The plan is ready while the row is not there, and stale once the operation has written it. -/
theorem ready_without_rows :
    planStockTimeMetricsReconcile Imports.plainTexts (listedDb []) "1" hour =
        .ok ⟨true, 1, 1, 0, 0, 1, 0, 0, []⟩ ∧
      (listedRows []).map (fun left =>
        planStockTimeMetricsReconcile Imports.plainTexts (listedDb left) "1" hour) =
          some (.ok ⟨false, 1, 1, 1, 0, 0, 1, 0, ["exact_interval_stale_rows"]⟩) :=
  ⟨by decide +kernel, by decide +kernel⟩

theorem reconcile_reports_listed :
    (∃ result plan left report, ReportsCommit Imports.plainTexts (listedDb []) "1" hour [] result
      plan left report) ∧
    ReadyRows Imports.plainTexts (listedDb []) "1" hour := by
  have both := reconcile_reports Imports.plainTexts textual (listedDb []) "1" hour
  refine ⟨?_, both.2 (fun _ mem => by cases mem) _ ready_without_rows.1 rfl⟩
  have read : (listedRows []).any (fun left => left.all fun row =>
      Value.fieldsOnce row && decide (Value.storedFields row = row)) = true := by
    decide +kernel
  have clean : (sourceEvidence Imports.plainTexts (listedDb []) "1" hour).toOption.map Prod.fst =
      some [] := by decide +kernel
  obtain ⟨left, hleft⟩ := Option.isSome_iff_exists.mp (Option.isSome_of_any read)
  rw [hleft, Option.any_some, List.all_eq_true] at read
  obtain ⟨sealedPlan, hsealed, hrows⟩ := Option.bind_eq_some_iff.mp hleft
  obtain ⟨plan, hplan, hseal⟩ := Option.bind_eq_some_iff.mp hsealed
  obtain ⟨result, hresult, planned⟩ := Option.bind_eq_some_iff.mp hplan
  obtain ⟨⟨issues, found⟩, hevidence, rfl : found = some result⟩ :=
    Option.bind_eq_some_iff.mp hresult
  obtain rfl : issues = [] := by rw [hevidence] at clean; exact Option.some.inj clean
  refine ⟨result, plan, left, both.1 [] result [activeListing] [] plan none sealedPlan [] left
    (.inl (by decide)) (toOption_some hevidence) planned (toOption_some hseal)
    (toOption_some hrows) (fun _ mem => by cases mem) fun row mem => ?_⟩
  obtain ⟨once, fixed⟩ := Bool.and_eq_true_iff.mp (read row mem)
  exact ⟨once, of_decide_eq_true fixed⟩

end ZelerPlatform.StockTime
