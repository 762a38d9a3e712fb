import ZelerPlatform.Repricer.BulkFrames
import ZelerPlatform.Repricer.CatalogCalls
import ZelerPlatform.Library.Run

/-!
# The price bands of stored rules

A rule that `create_catalog_rule` inserts has passed the checks before it is written, and so has a
rule that a validated row is given to. `patch_catalog_rule` writes before it checks: the rules stay
in order only as long as what a patch leaves does.
-/

namespace ZelerPlatform.Repricer

open Mongo Transition Transition.Program Fallible

/-- The prices of a document are finite and in order. -/
def Ordered (py : Pydantic) (doc : Doc) : Prop :=
  ∃ x y, priceOf py doc "min_price" = some (.finite x) ∧
    priceOf py doc "max_price" = some (.finite y) ∧ x ≤ y

/-- The fields by which the service looks for a rule. -/
def filterFields : List String := ["_id", "seller_id", "account_id"]

/-- A rule that passes the validation, with its prices in order. -/
structure Valid (py : Pydantic) (doc : Doc) : Prop where
  accepted : accepted py doc = true
  ordered : Ordered py doc
  texts : ∀ field ∈ filterFields, ∃ s, doc.get? field = some (.string s)

/-- Every stored rule is valid. -/
def AllValid (py : Pydantic) (rules : Rules) : Prop := ∀ doc ∈ rules.docs, Valid py doc

section

variable {py : Pydantic} {row : BulkRow} {doc old new : Doc} {rules : Rules} {operatorId : String}
  {now : Value} {x y : ℚ} {s t : Store}

theorem AllValid.insert (h : AllValid py rules) (hdoc : Valid py doc) {after : Rules}
    (hinsert : rules.insert doc = some after) : AllValid py after := by
  intro other mem
  rcases (Collection.mem_insert hinsert).mp mem with hold | rfl
  · exact h other hold
  · exact hdoc

theorem AllValid.replace (h : AllValid py rules) (hdoc : Valid py doc) :
    AllValid py (rules.replace doc) := by
  intro other mem
  rcases Collection.mem_replace.mp mem with hold | hnew
  · exact h other hold.1
  · exact hnew.1 ▸ hdoc

/-- The dump of a rule whose prices are in order is valid. -/
theorem valid_modelDump (lawful : py.Lawful) (h : accepted py doc = true) (ordered : Ordered py doc) :
    Valid py (modelDump py doc) where
  accepted := accepted_modelDump lawful h
  ordered := by
    obtain ⟨x, y, hmin, hmax, hle⟩ := ordered
    exact ⟨x, y, priceOf_modelDump lawful (by decide) hmin,
      priceOf_modelDump lawful (by decide) hmax, hle⟩
  texts := by
    intro field mem
    simp only [filterFields, List.mem_cons, List.not_mem_nil, or_false] at mem
    rcases mem with rfl | rfl | rfl
    · exact ⟨_, rfl⟩
    · exact ⟨_, rfl⟩
    · exact ⟨_, rfl⟩

/-! ### `create_catalog_rule` -/

theorem of_decimalItem (lawful : py.Lawful) {payload : Doc} {name text : String} {price : Decimal}
    (h : decimalItem py payload name = .ok (text, price)) : Decimal.ofText text = some price := by
  rw [decimalItem] at h
  obtain ⟨value, -, h⟩ := bind_ok h
  dsimp only at h
  split at h
  · next x hx =>
      obtain ⟨rfl, rfl⟩ := Prod.mk.inj (pure_ok h)
      exact lawful.dumpedPrice _ _ hx
  · cases h

/-- The prices of a document that passes the validation are in order if they compare so. -/
theorem ordered_of_accepted (h : accepted py doc = true) {minPrice maxPrice : Decimal}
    (hmin : priceOf py doc "min_price" = some minPrice)
    (hmax : priceOf py doc "max_price" = some maxPrice) (hlt : maxPrice.lt minPrice = .ok false) :
    Ordered py doc := by
  obtain ⟨-, -, hprices, -⟩ := accepted_iff.mp h
  obtain ⟨x, hx⟩ := hasPrice_iff.mp (hprices "min_price" (by decide))
  obtain ⟨y, hy⟩ := hasPrice_iff.mp (hprices "max_price" (by decide))
  obtain rfl := Option.some.inj (hmin.symm.trans hx)
  obtain rfl := Option.some.inj (hmax.symm.trans hy)
  exact ⟨x, y, hx, hy, not_lt.mp (of_decide_eq_false (Except.ok.inj hlt))⟩

/-- The rule that is made of a payload is valid. -/
theorem valid_newCatalogRule (lawful : py.Lawful) {sellerId : String} {payload : Doc}
    (h : newCatalogRule py sellerId payload operatorId now = .ok new) : Valid py new := by
  rw [newCatalogRule] at h
  obtain ⟨⟨minText, minPrice⟩, hmin, h⟩ := bind_ok h
  obtain ⟨⟨maxText, maxPrice⟩, hmax, h⟩ := bind_ok h
  obtain ⟨upsideDown, hlt, h⟩ := bind_ok h
  cases upsideDown with
  | true => cases h
  | false =>
      rw [if_neg Bool.false_ne_true] at h
      obtain ⟨accountId, -, h⟩ := bind_ok h
      obtain ⟨itemId, -, h⟩ := bind_ok h
      obtain ⟨strategy, -, h⟩ := bind_ok h
      rw [modelValidate] at h
      split at h
      · next haccepted =>
          obtain rfl := Except.ok.inj h
          have hprice {name text : String} {price : Decimal} {doc : Doc}
              (hfield : doc.get? name = some (.string text)) (hprice : Decimal.ofText text = some price) :
              priceOf py doc name = some price := by
            rw [priceOf, hfield, Option.bind_some, coerceDecimal, lawful.str_string, hprice]
          exact valid_modelDump lawful haccepted (ordered_of_accepted haccepted
            (hprice rfl (of_decimalItem lawful hmin)) (hprice rfl (of_decimalItem lawful hmax))
            (lt_of_priceLt hlt))
      · cases h

theorem exec_writeRules_error {A : Type} {f : Rules → Except RepricerError (A × Rules)}
    {error : RepricerError} (h : f s.rules = .error error) :
    exec (writeRules f) s = (.error error, s) := by
  rw [writeRules, atomically, exec_act, h]

/-- What a call has done: the rules are valid, and as they were if it has raised. -/
structure Sane (py : Pydantic) {A : Type} (s : Store) (result : Except RepricerError A × Store) :
    Prop where
  valid : AllValid py result.2.rules
  raised : ∀ error, result.1 = .error error → result.2.rules = s.rules

/-- A call that leaves the rules as they are. -/
theorem Sane.unchanged {A : Type} {result : Except RepricerError A × Store}
    (h : AllValid py s.rules) (same : result.2.rules = s.rules) : Sane py s result :=
  ⟨same ▸ h, fun _ _ => same⟩

theorem sane_create (lawful : py.Lawful) (sellerId : String) (payload : Doc) (operatorId : String)
    (now : Value) (h : AllValid py s.rules) :
    Sane py s (exec (createCatalogRule py sellerId payload operatorId now) s) := by
  rw [createCatalogRule]
  cases hnew : newCatalogRule py sellerId payload operatorId now with
  | error error => exact .unchanged h rfl
  | ok new =>
      rw [exec_bind_ok (exec_lift _)]
      cases hinsert : insertOne new s.rules with
      | error error =>
          rw [exec_bind_error (exec_writeRules_error (by rw [hinsert]; rfl))]
          exact .unchanged h rfl
      | ok rules =>
          rw [exec_bind_ok (exec_writeRules (by rw [hinsert]; rfl)), exec_pure]
          exact ⟨h.insert (valid_newCatalogRule lawful hnew) (of_insertOne hinsert).2,
            fun error h => by cases h⟩

/-! ### `patch_catalog_rule` -/

/-- A text that no path of a patch names is still there. -/
theorem text_applyPatch {patch : Patch} {field text : String} (h : old.applyPatch patch = some new)
    (hold : old.get? field = some (.string text)) (other : ∀ e ∈ patch, e.1 ≠ [field]) :
    new.get? field = some (.string text) := by
  have hat (doc : Doc) : doc.at? [field] = doc.get? field := by
    rw [Doc.at?_cons]
    cases doc.get? field with
    | none => rfl
    | some v => rfl
  rw [← hat] at hold ⊢
  induction patch generalizing old with
  | nil =>
      obtain rfl := Option.some.inj h
      exact hold
  | cons e rest ih =>
      obtain ⟨mid, hfirst, hrest⟩ := Option.bind_eq_some_iff.mp h
      refine ih hrest ?_ fun e' mem => other e' (List.mem_cons_of_mem _ mem)
      have hne := other e List.mem_cons_self
      rw [Doc.at?_setPath_apart hfirst ⟨?_, ?_⟩]
      · exact hold
      · intro hbefore
        cases hpath : e.1 with
        | nil =>
            rw [hpath] at hfirst
            cases hfirst
        | cons key rest =>
            rw [hpath] at hbefore hne
            obtain ⟨rfl, hnil⟩ := List.cons_prefix_cons.mp hbefore
            exact hne (congrArg _ (List.prefix_nil.mp hnil))
      · intro hway
        obtain ⟨-, hdocument⟩ := Doc.setPath_way hfirst hway (Ne.symm hne)
        obtain ⟨c, hc⟩ := hdocument _ hold
        cases hc

theorem pathParts_eq_singleton {path name : String} (h : pathParts path = [name]) : path = name := by
  obtain ⟨part, hpart, hname⟩ := List.map_eq_singleton_iff.mp h
  have hwhole : ['.'].intercalate (path.toList.splitOn '.') = path.toList :=
    List.intercalate_splitOn '.'
  rw [hpart, List.intercalate_singleton] at hwhole
  rw [← hname, hwhole, String.ofList_toList]

theorem mem_set {key : String} {value : Value} {field : String × Value}
    (mem : field ∈ doc.set key value) : field ∈ doc ∨ field.1 = key := by
  induction doc with
  | nil => exact .inr (congrArg Prod.fst (List.mem_singleton.mp mem))
  | cons head rest ih =>
      obtain ⟨k, v⟩ := head
      rw [Doc.set] at mem
      by_cases hk : (k == key) = true
      · rw [if_pos hk] at mem
        rcases List.mem_cons.mp mem with rfl | mem
        · exact .inr rfl
        · exact .inl (List.mem_cons_of_mem _ mem)
      · rw [if_neg hk] at mem
        rcases List.mem_cons.mp mem with rfl | mem
        · exact .inl List.mem_cons_self
        · exact (ih mem).imp_left (List.mem_cons_of_mem _)

/-- A patch names no field by which the rule is looked for. -/
theorem name_patchFields {patch : Doc} {field : String × Value}
    (mem : field ∈ patchFields patch operatorId now) : field.1 ∉ filterFields := by
  rcases mem_set mem with mem | hname
  · rcases mem_set mem with mem | hname
    · exact (of_decide_eq_true (List.mem_filter.mp mem).2).1
    · rw [hname]
      decide
  · rw [hname]
    decide

/-- The fields by which a rule is looked for are the same after a patch. -/
theorem texts_patch {patch : Doc} (hold : Valid py old)
    (hnew : setFields (patchFields patch operatorId now) old = some new) :
    ∀ field ∈ filterFields, new.get? field = old.get? field := by
  intro field mem
  obtain ⟨text, htext⟩ := hold.texts field mem
  rw [setFields] at hnew
  split at hnew
  · rw [htext]
    refine text_applyPatch hnew htext fun e he hpath => ?_
    obtain ⟨named, hnamed, rfl⟩ := List.mem_map.mp he
    exact name_patchFields hnamed (pathParts_eq_singleton hpath ▸ mem)
  · cases hnew

theorem selects_congr {filter : Doc} (h : ∀ field ∈ filter, new.get? field.1 = old.get? field.1) :
    selects filter new = selects filter old := by
  rw [Bool.eq_iff_iff, selects, selects, List.all_eq_true, List.all_eq_true]
  refine forall₂_congr fun field mem => ?_
  have hfield := h field mem
  by_cases hid : field.1 = "_id"
  · rw [if_pos hid, if_pos hid, ← hid, hfield]
  · rw [if_neg hid, if_neg hid, hfield]

/-- A patch that finds a rule leaves it passing the validation, with its prices in order. -/
def PatchFits (py : Pydantic) (sellerId ruleId : String) (patch : Doc) (operatorId : String)
    (now : Value) (rules : Rules) : Prop :=
  ∀ old new, rules.findOne (selects (patchFilter py sellerId ruleId patch)) = some old →
    setFields (patchFields patch operatorId now) old = some new →
    indexTaken new rules = false → accepted py new = true ∧ Ordered py new

theorem mem_patchFilter {sellerId ruleId : String} {patch : Doc} {field : String × Value}
    (mem : field ∈ patchFilter py sellerId ruleId patch) : field.1 ∈ filterFields := by
  rw [patchFilter] at mem
  split at mem
  · simp only [List.cons_append, List.nil_append, List.mem_cons, List.not_mem_nil, or_false] at mem
    rcases mem with rfl | rfl | rfl <;> simp [filterFields]
  · simp only [List.append_nil, List.mem_cons, List.not_mem_nil, or_false] at mem
    rcases mem with rfl | rfl <;> simp [filterFields]

theorem key_of_selects {sellerId ruleId : String} {patch : Doc}
    (h : selects (patchFilter py sellerId ruleId patch) doc = true) :
    ruleKey doc = .string ruleId := by
  rw [selects, patchFilter, List.cons_append, List.all_cons, if_pos rfl, Bool.and_eq_true] at h
  exact get?_id_iff.mp (of_decide_eq_true h.1)

theorem sane_patch (sellerId ruleId : String) (patch : Doc) (operatorId : String) (now : Value)
    (h : AllValid py s.rules) (fits : PatchFits py sellerId ruleId patch operatorId now s.rules) :
    Sane py s (exec (patchCatalogRule py sellerId ruleId patch operatorId now) s) := by
  rw [patchCatalogRule]
  cases hupdate : updateOne (patchFilter py sellerId ruleId patch)
      (patchFields patch operatorId now) s.rules with
  | error error =>
      rw [exec_bind_error (exec_writeRules_error hupdate)]
      exact .unchanged h rfl
  | ok result =>
      obtain ⟨matched, rules⟩ := result
      rw [exec_bind_ok (exec_writeRules hupdate)]
      rcases of_updateOne hupdate with ⟨rfl, -, rfl⟩ | ⟨rfl, old, new, hfind, hnew, hfree, rfl⟩
      · rw [if_pos rfl]
        exact .unchanged h rfl
      · obtain ⟨mem, hselects⟩ := Collection.findOne_mem hfind
        have hold := h old mem
        have hsame := texts_patch hold hnew
        obtain ⟨accepted, ordered⟩ := fits old new hfind hnew hfree
        have hvalid : Valid py new :=
          ⟨accepted, ordered, fun field hfield => by
            rw [hsame field hfield]
            exact hold.texts field hfield⟩
        have hagain : selects (patchFilter py sellerId ruleId patch) new = true := by
          rw [selects_congr fun field hfield => hsame field.1 (mem_patchFilter hfield)]
          exact hselects
        have hread : (s.rules.replace new).findOne (selects (patchFilter py sellerId ruleId patch)) =
            some new := by
          rw [Collection.findOne_of_key (k := .string ruleId) fun doc => key_of_selects,
            Collection.byKey_replace, if_pos (key_of_selects hagain).symm,
            Collection.byKey_some.mpr ⟨mem, key_of_selects hselects⟩, Option.map_some,
            Option.filter_some, if_pos hagain]
        rw [if_neg Nat.one_ne_zero, exec_bind_ok (exec_find _)]
        simp only [hread]
        refine ⟨h.replace hvalid, fun error hraised => ?_⟩
        rw [exec_lift, modelValidate, if_pos accepted] at hraised
        cases hraised

/-! ### `process_job` -/

theorem Ordered.of_carries (h : Ordered py row.payload) (carries : Carries py row doc) :
    Ordered py doc := by
  obtain ⟨x, y, hmin, hmax, hle⟩ := h
  exact ⟨x, y, (carries.prices _ (by decide)).trans hmin, (carries.prices _ (by decide)).trans hmax,
    hle⟩

/-- A valid rule that has been given the values of a row is valid. -/
theorem valid_update (lawful : py.Lawful) (describes : Describes py row)
    (ordered : Ordered py row.payload) (hnow : py.accepts .moment now = true) (hold : Valid py old)
    (id : old.get? "_id" = some (.string row.ruleId)) (scope : Scoped row old) :
    Valid py (old.setAll (row.newFields operatorId now)) where
  accepted := by
    have carries : Carries py row (old.setAll (row.newFields operatorId now)) :=
      describes.carries_update id scope
    obtain ⟨htexts, -, -, htyped⟩ := accepted_iff.mp hold.accepted
    refine accepted_iff.mpr ⟨?_, ?_, ?_, ?_⟩
    · intro field mem
      rw [get?_update, Option.isSome_or, htexts field mem, Bool.or_true]
    · obtain ⟨strategy, mem, hstrategy⟩ := describes.strategy
      refine ⟨strategy, mem, (get?_update _).trans ?_⟩
      exact congrArg some (getD_of_get? hstrategy)
    · obtain ⟨x, y, hmin, hmax, -⟩ := ordered.of_carries carries
      intro field mem
      simp only [priceFields, List.mem_cons, List.not_mem_nil, or_false] at mem
      rcases mem with rfl | rfl
      · exact hasPrice_iff.mpr ⟨x, hmin⟩
      · exact hasPrice_iff.mpr ⟨y, hmax⟩
    · have haccepted : accepted py (row.newRule operatorId now) = true :=
        describes.accepted lawful hnow
      obtain ⟨-, -, -, hnew⟩ := accepted_iff.mp haccepted
      intro field mem
      have hfresh := hnew field mem
      have hstored := htyped field mem
      rw [fieldAccepted, get?_update]
      simp only [typedFields, List.mem_cons, List.not_mem_nil, or_false] at mem
      rcases mem with rfl | rfl | rfl | rfl | rfl | rfl | rfl
      · exact hfresh
      · exact hfresh
      · exact hfresh
      · exact hstored
      · exact hstored
      · exact hfresh
      · exact hstored
  ordered := ordered.of_carries (describes.carries_update id scope)
  texts := by
    intro field mem
    obtain ⟨text, htext⟩ := hold.texts field mem
    refine ⟨text, ?_⟩
    rw [get?_update, htext]
    simp only [filterFields, List.mem_cons, List.not_mem_nil, or_false] at mem
    rcases mem with rfl | rfl | rfl <;> rfl

theorem allValid_upsert (operatorId : String) (lawful : py.Lawful) (describes : Describes py row)
    (ordered : Ordered py row.payload) (hnow : py.accepts .moment now = true)
    (room : Room s.rules row) (h : AllValid py s.rules) :
    AllValid py (exec (upsertCatalogRuleFromRow py row operatorId now) s).2.rules := by
  cases stored : s.rules.byKey (.string row.ruleId) with
  | none =>
      obtain ⟨rules, hinsert, hexec⟩ := exec_insert operatorId lawful describes hnow room stored
      have carries : Carries py row (modelDump py (row.newRule operatorId now)) :=
        describes.carries_modelDump lawful
      rw [hexec]
      refine h.insert ⟨accepted_modelDump lawful (describes.accepted lawful hnow),
        ordered.of_carries carries, fun field mem => ?_⟩ hinsert
      simp only [filterFields, List.mem_cons, List.not_mem_nil, or_false] at mem
      rcases mem with rfl | rfl | rfl
      · exact ⟨_, carries.id⟩
      · exact ⟨_, carries.scope.seller⟩
      · exact ⟨_, carries.scope.account⟩
  | some old =>
      obtain ⟨mem, hkey⟩ := Collection.byKey_some.mp stored
      rw [exec_update describes room stored]
      exact h.replace (valid_update lawful describes ordered hnow (h old mem)
        (get?_id_iff.mpr hkey) (room.own old stored))

end

section

variable {py : Pydantic} {sellerId accountId jobId operatorId : String} {now : Value}
  {rows applied rest beyond : List BulkRow} {row : BulkRow} {start : Rules} {s : Store}
  (lawful : py.Lawful) (hnow : py.accepts .moment now = true)
  (ready : Ready py sellerId accountId rows)
  (fits : ∀ row ∈ rows, row.status = .validated → Ordered py row.payload ∧ Room start row)
include lawful hnow ready fits

variable (operatorId) in
/-- The turn of a row. -/
theorem allValid_processRow (sub : applied ++ row :: rest = rows)
    (h : Midway py sellerId jobId start applied (row :: rest) beyond s)
    (valid : AllValid py s.rules) :
    AllValid py (exec (processRow py sellerId operatorId now row) s).2.rules := by
  have hmem : row ∈ rows := sub ▸ List.mem_append_right _ List.mem_cons_self
  rw [processRow]
  by_cases hstatus : row.status = .validated
  · obtain ⟨ordered, room⟩ := fits row hmem hstatus
    obtain ⟨rules, hexec, reflects⟩ :=
      h.upsert lawful hnow ready sub room hstatus operatorId
    have hrules := allValid_upsert operatorId lawful
      (ready.describes row hmem hstatus) ordered hnow (h.room ready sub room) valid
    rw [hexec] at hrules
    rw [if_pos hstatus, exec_bind_ok hexec, exec_saveRow (h.upserted reflects).row_stored]
    exact hrules
  · rw [if_neg hstatus]
    show AllValid py (exec (saveRow sellerId row.done) s).2.rules
    rw [exec_saveRow h.row_stored]
    exact valid

variable (operatorId) in
/-- The loop. -/
theorem allValid_processRows (sub : applied ++ rest = rows)
    (h : Midway py sellerId jobId start applied rest beyond s) (valid : AllValid py s.rules) :
    AllValid py (exec (processRows py sellerId operatorId now rest) s).2.rules := by
  induction rest generalizing applied s with
  | nil => exact valid
  | cons row rest ih =>
      have room : ∀ row ∈ rows, row.status = .validated → Room start row :=
        fun row mem hstatus => (fits row mem hstatus).2
      obtain ⟨u, hrow, -, hmidway⟩ :=
        exec_processRow operatorId lawful hnow ready room sub h
      have hu := allValid_processRow operatorId lawful hnow ready fits sub h valid
      rw [hrow] at hu
      have hrest := ih (by rwa [List.append_assoc]) hmidway hu
      rw [processRows_cons, exec_bind_ok hrow, exec_bind]
      rcases hexec : exec (processRows py sellerId operatorId now rest) u with ⟨error | out, t⟩
      · rw [hexec] at hrest
        exact hrest
      · rw [hexec] at hrest
        exact hrest

end

/-- The validated rows that `process_job` reads describe rules of one account with their prices in
order, and there is room for those. -/
def ProcessFits (py : Pydantic) (sellerId jobId : String) (s : Store) : Prop :=
  ∀ job, s.jobs.byKey jobId = some job → job.sellerId = sellerId →
    job.status ∉ [.completed, .completedWithErrors, .failed] → ∃ accountId,
      Ready py sellerId accountId (rowsOf sellerId jobId s) ∧
        ∀ row ∈ rowsOf sellerId jobId s, row.status = .validated →
          Ordered py row.payload ∧ Room s.rules row

section

variable {py : Pydantic} {s : Store}

theorem sane_process (lawful : py.Lawful) (sellerId jobId operatorId : String) {now : Value}
    (hnow : py.accepts .moment now = true) (h : AllValid py s.rules)
    (fits : ProcessFits py sellerId jobId s) :
    Sane py s (exec (processJob py sellerId jobId operatorId now) s) := by
  cases hfind : s.jobs.findOne fun j => j.id = jobId ∧ j.sellerId = sellerId with
  | none =>
      have hget : exec (getJob sellerId jobId) s = (.error (.bulkJobNotFound jobId), s) := by
        rw [getJob, atomically, exec_act, hfind]
      rw [processJob, exec_bind_error hget]
      exact .unchanged h rfl
  | some job =>
      obtain ⟨mem, hjob⟩ := Collection.findOne_mem hfind
      obtain ⟨rfl, rfl⟩ := of_decide_eq_true hjob
      have stored : s.jobs.byKey job.id = some job := Collection.byKey_some.mpr ⟨mem, rfl⟩
      rw [processJob, exec_bind_ok (exec_getJob stored rfl)]
      by_cases hclosed : job.status ∈ [.completed, .completedWithErrors, .failed]
      · rw [if_pos hclosed]
        exact .unchanged h rfl
      · obtain ⟨accountId, ready, hrows⟩ := fits job stored rfl hclosed
        have hmidway : Midway py job.sellerId job.id s.rules [] (rowsOf job.sellerId job.id s)
            ((allRows job.sellerId job.id s).drop 1000) s :=
          ⟨(List.take_append_drop 1000 _).symm, .inl reflects_nil⟩
        have room : ∀ row ∈ rowsOf job.sellerId job.id s, row.status = .validated →
            Room s.rules row := fun row mem hstatus => (hrows row mem hstatus).2
        obtain ⟨t, hexec, hjobs, -⟩ :=
          exec_processRows operatorId lawful hnow ready room rfl hmidway
        have hvalid := allValid_processRows operatorId lawful hnow ready hrows rfl
          hmidway h
        rw [hexec] at hvalid
        rw [if_neg hclosed, listRows, exec_bind_ok (exec_find _), exec_bind_ok hexec]
        have hstored : t.jobs.byKey job.id = some job := by rw [hjobs, stored]
        have hsave : exec (saveJob job.sellerId (job.close
            ((rowsOf job.sellerId job.id s).map BulkRow.done))) t = _ :=
          exec_saveJob hstored rfl
        rw [exec_bind_ok hsave, exec_pure]
        exact ⟨hvalid, fun error h => by cases h⟩

/-! ### `validate_upload` -/

theorem rules_exec_saveRow {sellerId : String} : (exec (saveRow sellerId row) s).2.rules = s.rules := by
  rw [saveRow, atomically, exec_act]
  split
  · rfl
  · rfl

theorem rules_exec_saveJob {sellerId : String} {job : BulkJob} :
    (exec (saveJob sellerId job) s).2.rules = s.rules := by
  rw [saveJob, atomically, exec_act]
  split
  · rfl
  · rfl

/-- A sequence of calls that leave the rules as they are. -/
theorem rules_exec_bind {A B : Type} {p : Call A} {k : A → Call B}
    (first : (exec p s).2.rules = s.rules)
    (second : ∀ a t, exec p s = (.ok a, t) → (exec (k a) t).2.rules = t.rules) :
    (exec (p >>= k) s).2.rules = s.rules := by
  rw [exec_bind]
  rcases hp : exec p s with ⟨error | a, t⟩
  · rw [hp] at first
    exact first
  · rw [hp] at first
    exact (second a t hp).trans first

theorem rules_exec_saveRows {sellerId : String} {rows : List BulkRow} :
    (exec (saveRows sellerId rows) s).2.rules = s.rules := by
  induction rows generalizing s with
  | nil => rfl
  | cons row rows ih =>
      rw [saveRows]
      exact rules_exec_bind rules_exec_saveRow fun _ _ _ => ih

theorem sane_upload (upload : Upload) (h : AllValid py s.rules) :
    Sane py s (exec (validateUpload upload) s) := by
  refine .unchanged h (rules_exec_bind rfl fun rows t _ => ?_)
  exact rules_exec_bind rules_exec_saveJob fun _ u _ =>
    rules_exec_bind rules_exec_saveRows fun _ _ _ => rfl

end

/-! ### Runs -/

/-- A call of the service. -/
inductive Action
  | create (sellerId : String) (payload : Doc) (operatorId : String) (now : Value)
  | patch (sellerId ruleId : String) (fields : Doc) (operatorId : String) (now : Value)
  | validate (upload : Upload)
  | process (sellerId jobId operatorId : String) (now : Value)

/-- The call without its result. -/
def Action.call (py : Pydantic) : Action → Call Unit
  | create sellerId payload operatorId now => do
      let _ ← createCatalogRule py sellerId payload operatorId now
  | patch sellerId ruleId fields operatorId now => do
      let _ ← patchCatalogRule py sellerId ruleId fields operatorId now
  | validate upload => do
      let _ ← validateUpload upload
  | process sellerId jobId operatorId now => do
      let _ ← processJob py sellerId jobId operatorId now

def step (py : Pydantic) (s : Store) (action : Action) (t : Store) : Prop :=
  t = (exec (action.call py) s).2

/-- What a call asks of its input and of the state it meets. -/
def Action.Fits (py : Pydantic) (s : Store) : Action → Prop
  | create .. => True
  | patch sellerId ruleId fields operatorId now =>
      PatchFits py sellerId ruleId fields operatorId now s.rules
  | validate _ => True
  | process sellerId jobId _ now =>
      py.accepts .moment now = true ∧ ProcessFits py sellerId jobId s

section

variable {py : Pydantic} {s t : Store} {actions : List Action}

theorem Sane.discard {A : Type} {p : Call A} (h : Sane py s (exec p s)) :
    Sane py s (exec (do let _ ← p) s) := by
  rw [exec_bind]
  rcases hp : exec p s with ⟨error | a, t⟩
  · rw [hp] at h
    exact ⟨h.valid, fun error _ => h.raised _ rfl⟩
  · rw [hp] at h
    exact ⟨h.valid, fun error hraised => by cases hraised⟩

/-- One call. -/
theorem sane_call (lawful : py.Lawful) (action : Action) (fits : action.Fits py s)
    (h : AllValid py s.rules) : Sane py s (exec (action.call py) s) := by
  cases action with
  | create sellerId payload operatorId now =>
      exact (sane_create lawful sellerId payload operatorId now h).discard
  | patch sellerId ruleId fields operatorId now =>
      exact (sane_patch sellerId ruleId fields operatorId now h fits).discard
  | validate upload => exact (sane_upload upload h).discard
  | process sellerId jobId operatorId now =>
      exact (sane_process lawful sellerId jobId operatorId fits.1 h fits.2).discard

end

/-- A rule with a band from 100 to 200. -/
def createSample : Action :=
  .create "S" [("account_id", .string "A"), ("item_id", .string "MLM1"),
    ("strategy", .string "competitive"), ("min_price", .string "100"),
    ("max_price", .string "200")] "O" (.date 0)

/-- A patch of its lower price alone. -/
def raiseMinPrice : Action :=
  .patch "S" "catalog-S-A-MLM1" [("min_price", .string "500")] "O" (.date 0)

def noStore : Store := ⟨.empty, .empty, .empty⟩

end ZelerPlatform.Repricer
