import ZelerPlatform.Repricer.BulkRows

/-!
# The rule of a bulk row

A validated row describes a rule. Its upsert inserts that rule, or gives its values to the rule that
is there, and is one write: a call that is cut off has made it or has not. A row that has been
processed is saved in its place among the rows of the job.
-/

namespace ZelerPlatform.Repricer

open Mongo Transition Transition.Program Fallible

section

variable {py : Pydantic} {row other : BulkRow} {doc fields : Doc} {operatorId : String}
  {now : Value}

/-! ### The rule of a row -/

/-- The document is for the item of the row. -/
structure Scoped (row : BulkRow) (doc : Doc) : Prop where
  seller : doc.get? "seller_id" = some (.string row.sellerId)
  account : doc.get? "account_id" = some (.string row.accountId)
  item : doc.get? "item_id" = row.itemId.map .string

/-- The document is the rule of the row. -/
structure Carries (py : Pydantic) (row : BulkRow) (doc : Doc) : Prop where
  id : doc.get? "_id" = some (.string row.ruleId)
  scope : Scoped row doc
  values : ∀ field ∈ ["title", "sku", "strategy", "active"], doc.getD field = row.payload.getD field
  prices : ∀ field ∈ priceFields, priceOf py doc field = priceOf py row.payload field

/-- The payload of a row describes a rule. -/
structure Describes (py : Pydantic) (row : BulkRow) : Prop where
  item : ∃ text, row.itemId = some text ∧ row.payload.get? "item_id" = some (.string text)
  texts : ∀ field ∈ ["title", "sku"],
    row.payload.get? field = some .null ∨ ∃ s, row.payload.get? field = some (.string s)
  strategy : ∃ s ∈ strategies, row.payload.get? "strategy" = some (.string s)
  active : ∃ b, row.payload.get? "active" = some (.bool b)
  prices : ∀ field ∈ priceFields, ∃ text x, row.payload.get? field = some (.string text) ∧
    Decimal.ofText text = some (.finite x)

/-- The new rule of a row whose payload is complete. -/
def BulkRow.newRule (row : BulkRow) (operatorId : String) (now : Value) : Doc :=
  [("_id", .string row.ruleId), ("seller_id", .string row.sellerId),
    ("account_id", .string row.accountId), ("item_id", row.payload.getD "item_id"),
    ("title", row.payload.getD "title"), ("sku", row.payload.getD "sku"),
    ("strategy", row.payload.getD "strategy"), ("min_price", row.payload.getD "min_price"),
    ("max_price", row.payload.getD "max_price"), ("active", row.payload.getD "active"),
    ("execution_state", .document []), ("created_at", now), ("updated_at", now),
    ("created_by", .string operatorId), ("updated_by", .string operatorId)]

/-- The fields such a row sets. -/
def BulkRow.newFields (row : BulkRow) (operatorId : String) (now : Value) : Doc :=
  [("title", row.payload.getD "title"), ("sku", row.payload.getD "sku"),
    ("strategy", row.payload.getD "strategy"), ("min_price", row.payload.getD "min_price"),
    ("max_price", row.payload.getD "max_price"), ("active", row.payload.getD "active"),
    ("updated_at", now), ("updated_by", .string operatorId)]

theorem getD_of_get? {doc : Doc} {field : String} {v : Value} (h : doc.get? field = some v) :
    doc.getD field = v := by rw [Doc.getD, h, Option.getD_some]

theorem item_eq {field : String} (h : (row.payload.get? field).isSome = true) :
    item row.payload field = .ok (row.payload.getD field) := by
  obtain ⟨v, hv⟩ := Option.isSome_iff_exists.mp h
  rw [item, hv, getD_of_get? hv]

namespace Describes

theorem complete (h : Describes py row) {field : String}
    (mem : field ∈ ["item_id", "strategy", "min_price", "max_price", "active"]) :
    (row.payload.get? field).isSome = true := by
  simp only [List.mem_cons, List.not_mem_nil, or_false] at mem
  rcases mem with rfl | rfl | rfl | rfl | rfl
  · obtain ⟨text, -, hitem⟩ := h.item
    rw [hitem]
    rfl
  · obtain ⟨s, -, hstrategy⟩ := h.strategy
    rw [hstrategy]
    rfl
  · obtain ⟨text, x, hprice, -⟩ := h.prices "min_price" (by decide)
    rw [hprice]
    rfl
  · obtain ⟨text, x, hprice, -⟩ := h.prices "max_price" (by decide)
    rw [hprice]
    rfl
  · obtain ⟨b, hactive⟩ := h.active
    rw [hactive]
    rfl

theorem document_eq (h : Describes py row) :
    row.document operatorId now = .ok (row.newRule operatorId now) := by
  rw [BulkRow.document, item_eq (h.complete (by decide)), item_eq (h.complete (by decide)),
    item_eq (h.complete (by decide)), item_eq (h.complete (by decide)),
    item_eq (h.complete (by decide))]
  rfl

theorem updateFields_eq (h : Describes py row) :
    row.updateFields operatorId now = .ok (row.newFields operatorId now) := by
  rw [BulkRow.updateFields, item_eq (h.complete (by decide)), item_eq (h.complete (by decide)),
    item_eq (h.complete (by decide)), item_eq (h.complete (by decide))]
  rfl

end Describes

/-- A row that describes a rule describes one that passes the validation. -/
theorem Describes.accepted (lawful : py.Lawful) (h : Describes py row)
    (hnow : py.accepts .moment now = true) :
    accepted py (row.newRule operatorId now) = true := by
  refine accepted_iff.mpr ⟨?_, ?_, ?_, ?_⟩
  · intro field mem
    simp only [textFields, List.mem_cons, List.not_mem_nil, or_false] at mem
    rcases mem with rfl | rfl | rfl | rfl | rfl | rfl <;> rfl
  · obtain ⟨s, hs, hstrategy⟩ := h.strategy
    exact ⟨s, hs, congrArg some (getD_of_get? hstrategy)⟩
  · intro field mem
    obtain ⟨text, x, hprice, hx⟩ := h.prices field mem
    have hfield : (row.newRule operatorId now).get? field = some (row.payload.getD field) := by
      simp only [priceFields, List.mem_cons, List.not_mem_nil, or_false] at mem
      rcases mem with rfl | rfl <;> rfl
    refine hasPrice_iff.mpr ⟨x, ?_⟩
    rw [priceOf, hfield, getD_of_get? hprice, Option.bind_some, coerceDecimal, lawful.str_string, hx]
  · have htext (field : String) (mem : field ∈ ["title", "sku"]) :
        py.accepts .optionalText (row.payload.getD field) = true := by
      rcases h.texts field mem with hnull | ⟨s, hs⟩
      · rw [getD_of_get? hnull]
        exact lawful.optionalText_null
      · rw [getD_of_get? hs]
        exact lawful.optionalText_string s
    intro field mem
    simp only [typedFields, List.mem_cons, List.not_mem_nil, or_false] at mem
    rcases mem with rfl | rfl | rfl | rfl | rfl | rfl | rfl
    · exact htext "title" (by decide)
    · exact htext "sku" (by decide)
    · obtain ⟨b, hactive⟩ := h.active
      show py.accepts .flag (row.payload.getD "active") = true
      rw [getD_of_get? hactive]
      exact lawful.accepts_flag b
    · exact lawful.emptyState
    · exact hnow
    · exact hnow
    · rfl

/-- The dump of a row's new rule carries the row. -/
theorem Describes.carries_modelDump (lawful : py.Lawful) (h : Describes py row) :
    Carries py row (modelDump py (row.newRule operatorId now)) where
  id := congrArg (fun text => some (Value.string text)) (lawful.str_string _)
  scope := by
    obtain ⟨text, hid, hitem⟩ := h.item
    refine ⟨congrArg (fun text => some (Value.string text)) (lawful.str_string _),
      congrArg (fun text => some (Value.string text)) (lawful.str_string _), ?_⟩
    show some (Value.string (py.str (row.payload.getD "item_id"))) = _
    rw [getD_of_get? hitem, lawful.str_string, hid]
    rfl
  values := by
    have htext (field : String) (mem : field ∈ ["title", "sku"]) :
        py.dumped .optionalText (row.payload.getD field) = row.payload.getD field := by
      rcases h.texts field mem with hnull | ⟨s, hs⟩
      · rw [getD_of_get? hnull, lawful.noText]
      · rw [getD_of_get? hs, lawful.optionalText]
    intro field mem
    simp only [List.mem_cons, List.not_mem_nil, or_false] at mem
    rcases mem with rfl | rfl | rfl | rfl
    · exact htext "title" (by decide)
    · exact htext "sku" (by decide)
    · rfl
    · obtain ⟨b, hactive⟩ := h.active
      show py.dumped .flag (row.payload.getD "active") = _
      rw [getD_of_get? hactive, lawful.flag]
  prices := by
    intro field mem
    obtain ⟨text, x, hprice, hx⟩ := h.prices field mem
    have hrow : priceOf py row.payload field = some (.finite x) := by
      rw [priceOf, hprice, Option.bind_some, coerceDecimal, lawful.str_string, hx]
    rw [hrow]
    refine priceOf_modelDump lawful mem ?_
    have hfield : (row.newRule operatorId now).get? field = row.payload.get? field := by
      simp only [priceFields, List.mem_cons, List.not_mem_nil, or_false] at mem
      rcases mem with rfl | rfl
      · exact (congrArg some (getD_of_get? hprice)).trans hprice.symm
      · exact (congrArg some (getD_of_get? hprice)).trans hprice.symm
    rw [priceOf, hfield]
    exact hrow

/-- The names of the fields a row sets. -/
def setNames : List String :=
  ["title", "sku", "strategy", "min_price", "max_price", "active", "updated_at", "updated_by"]

/-- The fields a row sets, in a rule that is stored. -/
theorem get?_update (field : String) :
    (doc.setAll (row.newFields operatorId now)).get? field =
      ((row.newFields operatorId now).get? field).or (doc.get? field) :=
  Doc.get?_setAll (show setNames.Nodup by decide)

/-- What a row sets leaves the item of the rule as it is. -/
theorem Scoped.update (h : Scoped row doc) :
    Scoped row (doc.setAll (other.newFields operatorId now)) where
  seller := (get?_update _).trans h.seller
  account := (get?_update _).trans h.account
  item := (get?_update _).trans h.item

/-- A rule of the item that has been given the values of the row carries the row. -/
theorem Describes.carries_update (h : Describes py row)
    (id : doc.get? "_id" = some (.string row.ruleId)) (scope : Scoped row doc) :
    Carries py row (doc.setAll (row.newFields operatorId now)) where
  id := (get?_update _).trans id
  scope := scope.update
  values := by
    intro field mem
    simp only [List.mem_cons, List.not_mem_nil, or_false] at mem
    rcases mem with rfl | rfl | rfl | rfl <;> exact getD_of_get? (get?_update _)
  prices := by
    intro field mem
    obtain ⟨text, x, hprice, hx⟩ := h.prices field mem
    have hfield : (doc.setAll (row.newFields operatorId now)).get? field =
        row.payload.get? field := by
      rw [get?_update]
      simp only [priceFields, List.mem_cons, List.not_mem_nil, or_false] at mem
      rcases mem with rfl | rfl
      · exact (congrArg some (getD_of_get? hprice)).trans hprice.symm
      · exact (congrArg some (getD_of_get? hprice)).trans hprice.symm
    rw [priceOf, hfield, priceOf]

theorem setFields_newFields :
    setFields (row.newFields operatorId now) doc =
      some (doc.setAll (row.newFields operatorId now)) := by
  have hvalid : pathsValid (setNames.map fun name => [name]) = true := by decide +kernel
  have hparts : ∀ name ∈ setNames, pathParts name = [name] := by decide +kernel
  refine setFields_plain ?_ hvalid
  intro field mem
  exact hparts field.1 (List.mem_map_of_mem (f := Prod.fst) mem)

end

/-! ### One row -/

/-- The rules leave room for the rule of a row: a rule under its id is of its item, and if the row
is active no other active rule is of that item. -/
structure Room (rules : Rules) (row : BulkRow) : Prop where
  own : ∀ doc, rules.byKey (.string row.ruleId) = some doc → Scoped row doc
  free : row.payload.get? "active" = some (.bool true) → ∀ doc ∈ rules.docs,
    isActive doc = true → Scoped row doc → ruleKey doc = .string row.ruleId

section

variable {py : Pydantic} {row other : BulkRow} {doc : Doc} {operatorId : String} {now : Value}
  {rules : Rules} {s t : Store}

/-- A rule that carries an active row is taken by the index where there is room. -/
theorem Room.indexFree (h : Room rules row) (carries : Carries py row doc)
    (hdescribes : Describes py row) : indexTaken doc rules = false := by
  rw [indexTaken, Bool.and_eq_false_iff]
  by_cases hactive : isActive doc = true
  · right
    have hrow : row.payload.get? "active" = some (.bool true) := by
      obtain ⟨b, hb⟩ := hdescribes.active
      have hvalue := carries.values "active" (by decide)
      rw [getD_of_get? (of_decide_eq_true hactive), getD_of_get? hb] at hvalue
      rw [hb, ← hvalue]
    rw [List.any_eq_false]
    intro other mem
    by_contra htaken
    simp only [Bool.and_eq_true, decide_eq_true_eq] at htaken
    obtain ⟨⟨hne, hother⟩, hsame⟩ := htaken
    have hscope (field : String) (hfield : field ∈ ["seller_id", "account_id", "item_id"])
        {s : String} (hs : doc.get? field = some (.string s)) :
        other.get? field = some (.string s) := by
      have heq := of_decide_eq_true (List.all_eq_true.mp hsame field hfield)
      rw [getD_of_get? hs, Doc.getD] at heq
      cases hv : other.get? field with
      | none =>
          rw [hv] at heq
          cases heq
      | some v =>
          rw [hv] at heq
          exact congrArg some heq
    obtain ⟨text, hid, hitem⟩ := hdescribes.item
    have hdocItem : doc.get? "item_id" = some (.string text) := by
      rw [carries.scope.item, hid]
      rfl
    have hscoped : Scoped row other := by
      refine ⟨hscope _ (by decide) carries.scope.seller, hscope _ (by decide) carries.scope.account,
        ?_⟩
      rw [hscope _ (by decide) hdocItem, hid]
      rfl
    apply hne
    rw [h.free hrow other mem hother hscoped]
    exact (get?_id_iff.mp carries.id).symm
  · exact .inl (Bool.eq_false_iff.mpr hactive)

theorem exec_find {A : Type} (f : Store → A) : exec (find f) s = (.ok (f s), s) := rfl

theorem exec_lift {A : Type} (x : Except RepricerError A) : exec (lift x) s = (x, s) := rfl

theorem exec_writeRules {A : Type} {f : Rules → Except RepricerError (A × Rules)} {a : A}
    (h : f s.rules = .ok (a, rules)) : exec (writeRules f) s = (.ok a, { s with rules }) := by
  rw [writeRules, atomically, exec_act, h]

/-- A rule that is not there yet is inserted. -/
theorem exec_insert (operatorId : String) (lawful : py.Lawful) (h : Describes py row)
    (hnow : py.accepts .moment now = true) (room : Room s.rules row)
    (absent : s.rules.byKey (.string row.ruleId) = none) :
    ∃ rules, s.rules.insert (modelDump py (row.newRule operatorId now)) = some rules ∧
      exec (upsertCatalogRuleFromRow py row operatorId now) s = (.ok (), { s with rules }) := by
  have carries : Carries py row (modelDump py (row.newRule operatorId now)) :=
    h.carries_modelDump lawful
  have hkey := get?_id_iff.mp carries.id
  cases hinsert : s.rules.insert (modelDump py (row.newRule operatorId now)) with
  | none =>
      obtain ⟨doc, hdoc⟩ := Collection.insert_eq_none.mp hinsert
      rw [hkey, absent] at hdoc
      cases hdoc
  | some rules =>
      refine ⟨rules, rfl, ?_⟩
      rw [upsertCatalogRuleFromRow, exec_bind_ok (exec_find _)]
      show exec (if (s.rules.findOne (selects row.filter)).isNone = true then _ else _) s = _
      rw [BulkRow.filter, findOne_selects, absent, Option.filter_none, if_pos Option.isNone_none,
        h.document_eq, exec_bind_ok (exec_lift _), modelValidate, if_pos (h.accepted lawful hnow),
        exec_bind_ok (exec_lift _)]
      refine exec_writeRules ?_
      rw [insertOne, room.indexFree carries h, if_neg Bool.false_ne_true, hinsert]
      rfl

/-- A rule of the item that is there is updated. -/
theorem exec_update (h : Describes py row) (room : Room s.rules row)
    (stored : s.rules.byKey (.string row.ruleId) = some doc) :
    exec (upsertCatalogRuleFromRow py row operatorId now) s =
      (.ok (), { s with
        rules := s.rules.replace (doc.setAll (row.newFields operatorId now)) }) := by
  have scope := room.own doc stored
  have hid : doc.get? "_id" = some (.string row.ruleId) :=
    get?_id_iff.mpr (Collection.byKey_some.mp stored).2
  have carries : Carries py row (doc.setAll (row.newFields operatorId now)) :=
    h.carries_update hid scope
  have hfind : s.rules.findOne (selects row.filter) = some doc := by
    rw [BulkRow.filter, findOne_selects, stored, Option.filter_some, scope.seller,
      eqMatches_string, if_pos rfl]
  have hkey : ruleKey (doc.setAll (row.newFields operatorId now)) = ruleKey doc := by
    rw [get?_id_iff.mp carries.id, get?_id_iff.mp hid]
  rw [upsertCatalogRuleFromRow, exec_bind_ok (exec_find _), hfind]
  show exec (lift (row.updateFields operatorId now) >>= _) s = _
  rw [h.updateFields_eq, exec_bind_ok (exec_lift _)]
  refine exec_writeRules ?_
  rw [updateOne, hfind]
  simp only [setFields_newFields, hkey, ne_eq, not_true_eq_false, if_false,
    room.indexFree carries h]
  rfl

/-- A row that describes a rule is applied where there is room for it. -/
theorem exec_upsert (operatorId : String) (lawful : py.Lawful) (h : Describes py row)
    (hnow : py.accepts .moment now = true) (room : Room s.rules row) :
    ∃ doc rules, exec (upsertCatalogRuleFromRow py row operatorId now) s =
        (.ok (), { s with rules }) ∧ Carries py row doc ∧
      ∀ key, rules.byKey key =
        if key = .string row.ruleId then some doc else s.rules.byKey key := by
  cases stored : s.rules.byKey (.string row.ruleId) with
  | none =>
      obtain ⟨rules, hinsert, hexec⟩ := exec_insert operatorId lawful h hnow room stored
      have carries : Carries py row (modelDump py (row.newRule operatorId now)) :=
        h.carries_modelDump lawful
      refine ⟨_, rules, hexec, carries, fun key => ?_⟩
      rw [Collection.byKey_insert hinsert, get?_id_iff.mp carries.id]
  | some doc =>
      have hid : doc.get? "_id" = some (.string row.ruleId) :=
        get?_id_iff.mpr (Collection.byKey_some.mp stored).2
      have carries : Carries py row (doc.setAll (row.newFields operatorId now)) :=
        h.carries_update hid (room.own doc stored)
      refine ⟨_, _, exec_update h room stored, carries, fun key => ?_⟩
      rw [Collection.byKey_replace, get?_id_iff.mp carries.id]
      by_cases hkey : key = .string row.ruleId
      · rw [if_pos hkey, if_pos hkey, hkey, stored, Option.map_some]
      · rw [if_neg hkey, if_neg hkey]

/-- An upsert that is cut off has done nothing or all it does. -/
theorem cut_upsert (cut : Cut (upsertCatalogRuleFromRow py row operatorId now).run s t) :
    t = s ∨ t = (exec (upsertCatalogRuleFromRow py row operatorId now) s).2 := by
  have hlift {A : Type} {x : Except RepricerError A} {k : A → Call Unit}
      (cut : Cut (lift x >>= k).run s t)
      (rest : ∀ a, Cut (k a).run s t → t = s ∨ t = (exec (k a) s).2) :
      t = s ∨ t = (exec (lift x >>= k) s).2 := by
    rcases cut.of_seq with cut | ⟨a, u, hexec, cut⟩
    · exact .inl cut.of_ret
    · obtain ⟨hx, rfl⟩ := Prod.mk.inj hexec
      rw [exec_bind_ok hexec]
      exact rest a cut
  have hwrite (f : Rules → Except RepricerError (Unit × Rules))
      (cut : Cut (writeRules f).run s t) : t = s ∨ t = (exec (writeRules f) s).2 := cut.of_act
  rw [upsertCatalogRuleFromRow] at cut ⊢
  rcases cut.of_seq with cut | ⟨existing, u, hexec, cut⟩
  · exact .inl (cut.of_act.elim id id)
  · obtain ⟨-, rfl⟩ := Prod.mk.inj hexec
    rw [exec_bind_ok hexec]
    split at cut
    case isTrue hnone =>
        rw [if_pos hnone]
        exact hlift cut fun _ cut => hlift cut fun _ cut => hwrite _ cut
    case isFalse hsome =>
        rw [if_neg hsome]
        exact hlift cut fun _ cut => hwrite _ cut

end

/-! ### The rows of a job -/

/-- All the rows of a job in the order of their numbers. -/
def allRows (sellerId jobId : String) (s : Store) : List BulkRow :=
  (s.rows.find fun row => row.sellerId = sellerId ∧ row.jobId = jobId).mergeSort
    fun a b => decide (a.rowNumber ≤ b.rowNumber)

section

variable {sellerId jobId : String} {row : BulkRow} {before after : List BulkRow} {s : Store}

theorem mem_allRows : row ∈ allRows sellerId jobId s ↔
    row ∈ s.rows.docs ∧ row.sellerId = sellerId ∧ row.jobId = jobId := by
  rw [allRows, List.mem_mergeSort, Collection.find_mem, decide_eq_true_eq]

theorem nodup_allRows : ((allRows sellerId jobId s).map BulkRow.id).Nodup :=
  (((List.mergeSort_perm _ _).map BulkRow.id).nodup_iff).mpr
    (s.rows.nodup.sublist (List.filter_sublist.map _))

theorem done_id : row.done.id = row.id := by
  rw [BulkRow.done]
  split <;> rfl

theorem done_sellerId : row.done.sellerId = row.sellerId := by
  rw [BulkRow.done]
  split <;> rfl

theorem done_jobId : row.done.jobId = row.jobId := by
  rw [BulkRow.done]
  split <;> rfl

theorem done_rowNumber : row.done.rowNumber = row.rowNumber := by
  rw [BulkRow.done]
  split <;> rfl

theorem done_status : row.done.status ≠ .validated := by
  rw [BulkRow.done]
  split
  · exact fun h => nomatch h
  · next h => exact h

theorem done_done : row.done.done = row.done := by
  rw [BulkRow.done, if_neg done_status]

theorem exec_saveRow (stored : row ∈ allRows sellerId jobId s) :
    exec (saveRow sellerId row.done) s =
      (.ok (), { s with rows := s.rows.replace row.done }) := by
  obtain ⟨mem, hseller, -⟩ := mem_allRows.mp stored
  have hfind : (s.rows.findOne fun r => r.id = row.done.id ∧ r.sellerId = sellerId) = some row := by
    rw [Collection.findOne_of_key (k := row.id) fun r h => by
      rw [decide_eq_true_eq, done_id] at h
      exact h.1]
    rw [Collection.byKey_some.mpr ⟨mem, rfl⟩, Option.filter_some, if_pos]
    exact decide_eq_true ⟨done_id.symm, hseller⟩
  have hmatched : (s.rows.matched fun r => r.id = row.done.id ∧ r.sellerId = sellerId) = true :=
    List.any_eq_true.mpr ⟨row, mem, decide_eq_true ⟨done_id.symm, hseller⟩⟩
  rw [saveRow, atomically, exec_act, Collection.replaceOne, hmatched, Bool.true_or, if_pos rfl,
    Collection.updateOne, hfind]
  simp only [done_id, if_true]

/-- A row is saved in its place. -/
theorem allRows_saveRow (stored : allRows sellerId jobId s = before ++ row :: after) :
    allRows sellerId jobId { s with rows := s.rows.replace row.done } =
      before ++ row.done :: after := by
  have hmem : row ∈ allRows sellerId jobId s := by rw [stored]; simp
  obtain ⟨mem, hseller, hjob⟩ := mem_allRows.mp hmem
  have hfind : ((s.rows.replace row.done).find fun r => r.sellerId = sellerId ∧ r.jobId = jobId) =
      (s.rows.find fun r => r.sellerId = sellerId ∧ r.jobId = jobId).map
        fun b => if b.id = row.done.id then row.done else b := by
    refine Collection.find_replace fun b hb hid => ?_
    obtain rfl : b = row := Collection.eq_of_key hb mem (hid.trans done_id)
    rw [done_sellerId, done_jobId]
  have hnumber (b : BulkRow) (hb : b ∈ s.rows.docs) :
      (if b.id = row.done.id then row.done else b).rowNumber = b.rowNumber := by
    by_cases hid : b.id = row.done.id
    · obtain rfl : b = row := Collection.eq_of_key hb mem (hid.trans done_id)
      rw [if_pos hid, done_rowNumber]
    · rw [if_neg hid]
  have hsort := List.map_mergeSort (f := fun b => if b.id = row.done.id then row.done else b)
    (r := fun a b => decide (a.rowNumber ≤ b.rowNumber))
    (s := fun a b => decide (a.rowNumber ≤ b.rowNumber))
    (l := s.rows.find fun r => r.sellerId = sellerId ∧ r.jobId = jobId) fun a ha b hb => by
      rw [hnumber a (Collection.find_mem.mp ha).1, hnumber b (Collection.find_mem.mp hb).1]
  have hnodup : ((allRows sellerId jobId s).map BulkRow.id).Nodup := nodup_allRows
  rw [stored, List.map_append, List.map_cons, List.nodup_append, List.nodup_cons] at hnodup
  obtain ⟨-, ⟨hafter, -⟩, hbefore⟩ := hnodup
  have hsame (xs : List BulkRow) (h : ∀ x ∈ xs, x.id ≠ row.id) :
      (xs.map fun b => if b.id = row.done.id then row.done else b) = xs := by
    conv_rhs => rw [← List.map_id xs]
    exact List.map_congr_left fun x hx => if_neg fun hid => h x hx (hid.trans done_id)
  rw [allRows, hfind, ← hsort]
  rw [allRows] at stored
  rw [stored, List.map_append, List.map_cons, if_pos done_id.symm, hsame before, hsame after]
  · intro x hx hid
    exact hafter (List.mem_map.mpr ⟨x, hx, hid⟩)
  · intro x hx hid
    exact hbefore x.id (List.mem_map_of_mem hx) row.id List.mem_cons_self hid

end

end ZelerPlatform.Repricer
