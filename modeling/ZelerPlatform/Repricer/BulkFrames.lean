import ZelerPlatform.Repricer.BulkRuns

/-!
# What a run of a bulk job leaves alone

A row that has been applied has found room in the index. No row changes the seller, the account or
the item of a rule that is stored, and none touches a rule that is not its own.
-/

namespace ZelerPlatform.Repricer

open Mongo Transition Transition.Program Fallible

/-- The fields that tell the item of a rule. -/
def scopeFields : List String := ["seller_id", "account_id", "item_id"]

/-- Every rule is still there and of its item. -/
def Keeps (before after : Rules) : Prop :=
  ∀ key doc, before.byKey key = some doc → ∃ new, after.byKey key = some new ∧
    ∀ field ∈ scopeFields, new.get? field = doc.get? field

/-- What a row that has been applied has done. -/
structure Upserted (row : BulkRow) (before after : Rules) (doc : Doc) : Prop where
  stored : ∀ key, after.byKey key = if key = .string row.ruleId then some doc else before.byKey key
  free : indexTaken doc before = false
  active : row.payload.get? "active" = some (.bool true) → isActive doc = true
  keeps : ∀ old, before.byKey (.string row.ruleId) = some old →
    ∀ field ∈ scopeFields, doc.get? field = old.get? field

section

variable {py : Pydantic} {sellerId operatorId : String} {now : Value} {row : BulkRow}
  {rows before after out : List BulkRow} {doc : Doc} {rules a b c : Rules} {s t : Store}

theorem Keeps.refl (rules : Rules) : Keeps rules rules := fun _ doc h => ⟨doc, h, fun _ _ => rfl⟩

theorem Keeps.trans (first : Keeps a b) (second : Keeps b c) : Keeps a c := by
  intro key doc h
  obtain ⟨middle, hmiddle, hfirst⟩ := first key doc h
  obtain ⟨new, hnew, hsecond⟩ := second key middle hmiddle
  exact ⟨new, hnew, fun field mem => (hsecond field mem).trans (hfirst field mem)⟩

theorem Upserted.keepsRules (h : Upserted row a b doc) : Keeps a b := by
  intro key old hold
  by_cases hkey : key = .string row.ruleId
  · exact ⟨doc, by rw [h.stored, if_pos hkey], h.keeps old (hkey ▸ hold)⟩
  · exact ⟨old, by rw [h.stored, if_neg hkey, hold], fun _ _ => rfl⟩

/-- A call that has returned has gone through its first part. -/
theorem of_exec_bind {A B : Type} {p : Call A} {k : A → Call B} {r : B}
    (h : exec (p >>= k) s = (.ok r, t)) :
    ∃ a u, exec p s = (.ok a, u) ∧ exec (k a) u = (.ok r, t) := by
  rw [exec_bind] at h
  rcases hp : exec p s with ⟨error | a, u⟩
  · rw [hp] at h
    cases h
  · rw [hp] at h
    exact ⟨a, u, rfl, h⟩

theorem of_exec_writeRules {A : Type} {f : Rules → Except RepricerError (A × Rules)} {r : A}
    (h : exec (writeRules f) s = (.ok r, t)) : f s.rules = .ok (r, t.rules) := by
  rw [writeRules, atomically, exec_act] at h
  split at h
  · next hf =>
      obtain ⟨hr, rfl⟩ := Prod.mk.inj h
      rw [hf, Except.ok.inj hr]
  · cases h

theorem of_insertOne (h : insertOne doc a = .ok b) :
    indexTaken doc a = false ∧ a.insert doc = some b := by
  rw [insertOne] at h
  split at h
  · cases h
  · next hfree =>
      refine ⟨Bool.eq_false_iff.mpr hfree, ?_⟩
      split at h
      · cases h
      · next hinsert => rw [hinsert, Except.ok.inj h]

theorem of_updateOne {filter fields : Doc} {n : Nat} (h : updateOne filter fields a = .ok (n, b)) :
    n = 0 ∧ a.findOne (selects filter) = none ∧ b = a ∨
      n = 1 ∧ ∃ old new, a.findOne (selects filter) = some old ∧ setFields fields old = some new ∧
        indexTaken new a = false ∧ b = a.replace new := by
  rw [updateOne] at h
  split at h
  · next hnone =>
      obtain ⟨rfl, rfl⟩ := Prod.mk.inj (Except.ok.inj h)
      exact .inl ⟨rfl, hnone, rfl⟩
  · next old hold =>
      right
      split at h
      · cases h
      · next new hnew =>
          by_cases hkey : ruleKey new ≠ ruleKey old
          · rw [if_pos hkey] at h
            cases h
          · rw [if_neg hkey] at h
            by_cases hfree : indexTaken new a = true
            · rw [if_pos hfree] at h
              cases h
            · rw [if_neg hfree] at h
              obtain ⟨rfl, rfl⟩ := Prod.mk.inj (Except.ok.inj h)
              exact ⟨rfl, old, new, hold, hnew, Bool.eq_false_iff.mpr hfree, rfl⟩

theorem isActive_of_getD (h : doc.getD "active" = .bool true) : isActive doc = true := by
  rw [Doc.getD] at h
  cases hv : doc.get? "active" with
  | none =>
      rw [hv] at h
      cases h
  | some v =>
      rw [hv] at h
      exact decide_eq_true (hv.trans (congrArg some h))

/-- A row that describes a rule, if it has been applied. -/
theorem of_exec_upsert (lawful : py.Lawful) (h : Describes py row)
    (hexec : exec (upsertCatalogRuleFromRow py row operatorId now) s = (.ok (), t)) :
    ∃ doc, Upserted row s.rules t.rules doc := by
  rw [upsertCatalogRuleFromRow, exec_bind_ok (exec_find _)] at hexec
  split at hexec
  case isTrue =>
    rw [h.document_eq, exec_bind_ok (exec_lift _)] at hexec
    obtain ⟨rule, u, hrule, hexec⟩ := of_exec_bind hexec
    rw [exec_lift, modelValidate] at hrule
    obtain ⟨hvalid, rfl⟩ := Prod.mk.inj hrule
    split at hvalid
    case isFalse => cases hvalid
    obtain rfl := Except.ok.inj hvalid
    obtain ⟨rules, hinsertOne, hrules⟩ := bind_ok (of_exec_writeRules hexec)
    obtain ⟨hfree, hinsert⟩ := of_insertOne hinsertOne
    obtain rfl : rules = t.rules := (Prod.mk.inj (Except.ok.inj hrules)).2
    have carries : Carries py row (modelDump py (row.newRule operatorId now)) :=
      h.carries_modelDump lawful
    have hkey := get?_id_iff.mp carries.id
    refine ⟨_, fun key => ?_, hfree, fun hactive => ?_, fun old hold => ?_⟩
    · rw [Collection.byKey_insert hinsert, hkey]
    · apply isActive_of_getD
      rw [carries.values "active" (by decide), getD_of_get? hactive]
    · rw [Collection.insert_eq_none.mpr ⟨old, hkey ▸ hold⟩] at hinsert
      cases hinsert
  case isFalse hsome =>
    rw [h.updateFields_eq, exec_bind_ok (exec_lift _)] at hexec
    obtain ⟨⟨n, rules⟩, hupdate, hrules⟩ := bind_ok (of_exec_writeRules hexec)
    obtain rfl : rules = t.rules := (Prod.mk.inj (Except.ok.inj hrules)).2
    rcases of_updateOne hupdate with ⟨-, hnone, -⟩ | ⟨-, old, new, hfind, hnew, hfree, hreplace⟩
    · exact absurd (Option.isNone_iff_eq_none.mpr hnone) hsome
    rw [setFields_newFields] at hnew
    obtain rfl := Option.some.inj hnew
    rw [BulkRow.filter, findOne_selects] at hfind
    have hold := (Option.filter_eq_some_iff.mp hfind).1
    have hid := get?_id_iff.mpr (Collection.byKey_some.mp hold).2
    have hkey : ruleKey (old.setAll (row.newFields operatorId now)) = .string row.ruleId :=
      get?_id_iff.mp ((get?_update _).trans hid)
    refine ⟨_, fun key => ?_, hfree, fun hactive => ?_, fun other hother field mem => ?_⟩
    · rw [hreplace, Collection.byKey_replace, hkey]
      by_cases heq : key = .string row.ruleId
      · rw [if_pos heq, if_pos heq, heq, hold, Option.map_some]
      · rw [if_neg heq, if_neg heq]
    · apply isActive_of_getD
      rw [getD_of_get? (get?_update _), getD_of_get? hactive]
    · obtain rfl : other = old := Option.some.inj (hother.symm.trans hold)
      rw [get?_update]
      simp only [scopeFields, List.mem_cons, List.not_mem_nil, or_false] at mem
      rcases mem with rfl | rfl | rfl <;> rfl

/-! ### The loop -/

theorem rules_saveRow (h : exec (saveRow sellerId row) s = (.ok (), t)) : t.rules = s.rules := by
  rw [saveRow, atomically, exec_act] at h
  split at h
  · obtain ⟨-, rfl⟩ := Prod.mk.inj h
    rfl
  · cases h

/-- The turn of a row. -/
theorem of_exec_processRow (lawful : py.Lawful)
    (describes : row.status = .validated → Describes py row)
    (h : exec (processRow py sellerId operatorId now row) s = (.ok (), t)) :
    row.status = .validated ∧ (∃ doc, Upserted row s.rules t.rules doc) ∨
      row.status ≠ .validated ∧ t.rules = s.rules := by
  rw [processRow] at h
  by_cases hstatus : row.status = .validated
  · rw [if_pos hstatus] at h
    obtain ⟨a, u, hupsert, hsave⟩ := of_exec_bind h
    left
    rw [rules_saveRow hsave]
    exact ⟨hstatus, of_exec_upsert lawful (describes hstatus) hupsert⟩
  · rw [if_neg hstatus] at h
    exact .inr ⟨hstatus, rules_saveRow h⟩

/-- A run that goes through rows has come to each of them. -/
theorem of_exec_processRows_append
    (h : exec (processRows py sellerId operatorId now (before ++ row :: after)) s = (.ok out, t)) :
    ∃ u v first second, exec (processRows py sellerId operatorId now before) s = (.ok first, u) ∧
      exec (processRow py sellerId operatorId now row) u = (.ok (), v) ∧
      exec (processRows py sellerId operatorId now after) v = (.ok second, t) := by
  induction before generalizing s out with
  | nil =>
      rw [List.nil_append, processRows_cons] at h
      obtain ⟨a, v, hrow, h⟩ := of_exec_bind h
      obtain ⟨second, w, hrest, h⟩ := of_exec_bind h
      obtain ⟨-, rfl⟩ := Prod.mk.inj h
      exact ⟨s, v, [], second, rfl, hrow, hrest⟩
  | cons head before ih =>
      rw [List.cons_append, processRows_cons] at h
      obtain ⟨a, w, hhead, h⟩ := of_exec_bind h
      obtain ⟨rest, x, hrest, h⟩ := of_exec_bind h
      obtain ⟨-, rfl⟩ := Prod.mk.inj h
      obtain ⟨u, v, first, second, hfirst, hrow, hsecond⟩ := ih hrest
      refine ⟨u, v, head.done :: first, second, ?_, hrow, hsecond⟩
      rw [processRows_cons, exec_bind_ok hhead, exec_bind_ok hfirst, exec_pure]

/-- What the loop leaves alone. -/
theorem of_exec_processRows (lawful : py.Lawful)
    (describes : ∀ row ∈ rows, row.status = .validated → Describes py row)
    (h : exec (processRows py sellerId operatorId now rows) s = (.ok out, t)) :
    out = rows.map BulkRow.done ∧ Keeps s.rules t.rules ∧
      ∀ key, (∀ row ∈ rows, row.status = .validated → key ≠ .string row.ruleId) →
        t.rules.byKey key = s.rules.byKey key := by
  induction rows generalizing s out with
  | nil =>
      obtain ⟨hout, rfl⟩ := Prod.mk.inj h
      exact ⟨(Except.ok.inj hout).symm, .refl _, fun _ _ => rfl⟩
  | cons row rows ih =>
      obtain ⟨hrow, hrows⟩ := List.forall_mem_cons.mp describes
      rw [processRows_cons] at h
      obtain ⟨a, u, hturn, h⟩ := of_exec_bind h
      obtain ⟨rest, v, hrest, h⟩ := of_exec_bind h
      obtain ⟨hout, rfl⟩ := Prod.mk.inj h
      obtain ⟨rfl, hkeeps, huntouched⟩ := ih hrows hrest
      refine ⟨(Except.ok.inj hout).symm, ?_, fun key hkey => ?_⟩
      · rcases of_exec_processRow lawful hrow hturn with ⟨-, doc, upserted⟩ | ⟨-, hsame⟩
        · exact upserted.keepsRules.trans hkeeps
        · rwa [hsame] at hkeeps
      · obtain ⟨hhead, htail⟩ := List.forall_mem_cons.mp hkey
        rw [huntouched key htail]
        rcases of_exec_processRow lawful hrow hturn with ⟨hstatus, doc, upserted⟩ | ⟨-, hsame⟩
        · rw [upserted.stored, if_neg (hhead hstatus)]
        · rw [hsame]

/-- A job that is not closed has gone through the rows that were read. -/
theorem of_exec_processJob {job closed : BulkJob} {jobId : String}
    (stored : s.jobs.byKey jobId = some job) (hseller : job.sellerId = sellerId)
    (hstatus : job.status = .validated)
    (h : exec (processJob py sellerId jobId operatorId now) s = (.ok closed, t)) :
    ∃ u processed, exec (processRows py sellerId operatorId now (rowsOf sellerId job.id s)) s =
      (.ok processed, u) ∧ t.rules = u.rules ∧ closed = job.close processed := by
  rw [processJob, exec_bind_ok (exec_getJob stored hseller), if_neg (by rw [hstatus]; decide),
    listRows, exec_bind_ok (exec_find _)] at h
  obtain ⟨processed, u, hrows, h⟩ := of_exec_bind h
  obtain ⟨a, v, hsave, h⟩ := of_exec_bind h
  obtain ⟨hclosed, rfl⟩ := Prod.mk.inj h
  refine ⟨u, processed, hrows, ?_, (Except.ok.inj hclosed).symm⟩
  rw [saveJob, atomically, exec_act] at hsave
  split at hsave
  · obtain ⟨-, rfl⟩ := Prod.mk.inj hsave
    rfl
  · cases hsave

end

end ZelerPlatform.Repricer
