import ZelerPlatform.Repricer.RowRules

/-!
# Runs of a bulk job

The loop of `process_job` goes through the rows in order, and a row that has been processed is not
applied again. So wherever a run is cut off, the rows before some place have been applied, the row
there perhaps too, and the next run goes on from there.
-/

namespace ZelerPlatform.Repricer

open Mongo Transition Transition.Program

/-! ### The rules that a list of rows leaves -/

/-- The last validated row of a rule. -/
def lastFor (rows : List BulkRow) (key : Value) : Option BulkRow :=
  rows.reverse.find? fun row => row.status = .validated ∧ key = .string row.ruleId

/-- The rule under a key is that of the last row of it, and where no row is of it the rule from
before. -/
def Shows (py : Pydantic) (rows : List BulkRow) (start rules : Rules) (key : Value) : Prop :=
  match lastFor rows key with
  | some row => ∃ doc, rules.byKey key = some doc ∧ Carries py row doc
  | none => rules.byKey key = start.byKey key

/-- The rules of the rows are stored and no other rule has changed. -/
def Reflects (py : Pydantic) (rows : List BulkRow) (start rules : Rules) : Prop :=
  ∀ key, Shows py rows start rules key

/-- What a row does to the rules: a validated one puts its rule there. -/
structure Applies (py : Pydantic) (row : BulkRow) (before after : Rules) : Prop where
  validated : row.status = .validated → ∃ doc, Carries py row doc ∧ ∀ key,
    after.byKey key = if key = .string row.ruleId then some doc else before.byKey key
  other : row.status ≠ .validated → after = before

/-- The rows are those of one upload: of one item or another of one account, and what is validated
describes a rule. -/
structure Ready (py : Pydantic) (sellerId accountId : String) (rows : List BulkRow) : Prop where
  seller : ∀ row ∈ rows, row.sellerId = sellerId
  account : ∀ row ∈ rows, row.accountId = accountId
  item : ∀ row ∈ rows, ∃ text, row.itemId = some text
  describes : ∀ row ∈ rows, row.status = .validated → Describes py row
  few : rows.length ≤ 1000

section

variable {py : Pydantic} {sellerId accountId : String} {rows applied rest : List BulkRow}
  {row other : BulkRow} {start before after rules : Rules} {key : Value}

theorem lastFor_append : lastFor (applied ++ [row]) key =
    if row.status = .validated ∧ key = .string row.ruleId then some row
    else lastFor applied key := by
  rw [lastFor, List.reverse_append, List.find?_append, List.reverse_singleton, List.find?_singleton]
  by_cases h : row.status = .validated ∧ key = .string row.ruleId
  · rw [if_pos h, if_pos (decide_eq_true h), Option.some_or]
  · rw [if_neg h, if_neg (by simpa using h), Option.none_or, lastFor]

theorem of_lastFor (h : lastFor rows key = some row) :
    row ∈ rows ∧ row.status = .validated ∧ key = .string row.ruleId := by
  refine ⟨List.mem_reverse.mp (List.mem_of_find?_eq_some h), ?_⟩
  have hfound := List.find?_some (p := fun row : BulkRow =>
    decide (row.status = .validated ∧ key = .string row.ruleId)) h
  exact of_decide_eq_true hfound

theorem reflects_nil : Reflects py [] start start := fun _ => rfl

/-- A row that comes after others, whether it has been applied before or not. -/
theorem Reflects.apply (h : Reflects py applied start before ∨
      Reflects py (applied ++ [row]) start before) (applies : Applies py row before after) :
    Reflects py (applied ++ [row]) start after := by
  intro key
  by_cases hrow : row.status = .validated ∧ key = .string row.ruleId
  · obtain ⟨doc, carries, hafter⟩ := applies.validated hrow.1
    rw [Shows, lastFor_append, if_pos hrow]
    exact ⟨doc, by rw [hafter, if_pos hrow.2], carries⟩
  · have hsame : after.byKey key = before.byKey key := by
      by_cases hstatus : row.status = .validated
      · obtain ⟨doc, -, hafter⟩ := applies.validated hstatus
        rw [hafter, if_neg fun hkey => hrow ⟨hstatus, hkey⟩]
      · rw [applies.other hstatus]
    rw [Shows, lastFor_append, if_neg hrow, hsame]
    rcases h with h | h
    · exact h key
    · have hkey := h key
      rwa [Shows, lastFor_append, if_neg hrow] at hkey

namespace Ready

/-- Rows of one rule are rows of one item. -/
theorem item_of_ruleId (ready : Ready py sellerId accountId rows) (hrow : row ∈ rows)
    (hother : other ∈ rows) (h : row.ruleId = other.ruleId) : row.itemId = other.itemId := by
  obtain ⟨a, ha⟩ := ready.item row hrow
  obtain ⟨b, hb⟩ := ready.item other hother
  rw [BulkRow.ruleId, BulkRow.ruleId, ready.seller row hrow, ready.seller other hother,
    ready.account row hrow, ready.account other hother, ha, hb] at h
  have htext : a = b := (String.append_right_inj _).mp h
  rw [ha, hb, htext]

/-- Rows of one item are rows of one rule. -/
theorem ruleId_of_item (ready : Ready py sellerId accountId rows) (hrow : row ∈ rows)
    (hother : other ∈ rows) (h : row.itemId = other.itemId) : row.ruleId = other.ruleId := by
  rw [BulkRow.ruleId, BulkRow.ruleId, ready.seller row hrow, ready.seller other hother,
    ready.account row hrow, ready.account other hother, h]

theorem scoped_of_item {doc : Doc} (ready : Ready py sellerId accountId rows) (hrow : row ∈ rows)
    (hother : other ∈ rows) (h : row.itemId = other.itemId) (scope : Scoped row doc) :
    Scoped other doc where
  seller := by rw [scope.seller, ready.seller row hrow, ready.seller other hother]
  account := by rw [scope.account, ready.account row hrow, ready.account other hother]
  item := by rw [scope.item, h]

/-- Where there is room for the rule of a row, there is room for it after other rows too. -/
theorem room (ready : Ready py sellerId accountId rows) (sub : ∀ row ∈ applied, row ∈ rows)
    (reflects : Reflects py applied start rules) (hrow : row ∈ rows) (h : Room start row) :
    Room rules row where
  own := by
    intro doc hdoc
    have hshows := reflects (.string row.ruleId)
    rw [Shows] at hshows
    split at hshows
    · next last hlast =>
        obtain ⟨doc', hdoc', carries⟩ := hshows
        obtain ⟨mem, -, hid⟩ := of_lastFor hlast
        obtain rfl : doc' = doc := Option.some.inj (hdoc'.symm.trans hdoc)
        have hitem := ready.item_of_ruleId hrow (sub _ mem) (Value.string.inj hid)
        exact ready.scoped_of_item (sub _ mem) hrow hitem.symm carries.scope
    · exact h.own doc (hshows.symm.trans hdoc)
  free := by
    intro hactive doc mem hdoc scope
    have hfound : rules.byKey (ruleKey doc) = some doc := Collection.byKey_some.mpr ⟨mem, rfl⟩
    have hshows := reflects (ruleKey doc)
    rw [Shows] at hshows
    split at hshows
    · next last hlast =>
        obtain ⟨doc', hdoc', carries⟩ := hshows
        obtain ⟨hmem, -, hid⟩ := of_lastFor hlast
        obtain rfl : doc' = doc := Option.some.inj (hdoc'.symm.trans hfound)
        have hitem : last.itemId = row.itemId := by
          have hsame := carries.scope.item.symm.trans scope.item
          obtain ⟨a, ha⟩ := ready.item last (sub _ hmem)
          obtain ⟨b, hb⟩ := ready.item row hrow
          rw [ha, hb, Option.map_some, Option.map_some, Option.some.injEq, Value.string.injEq] at hsame
          rw [ha, hb, hsame]
        rw [hid, ready.ruleId_of_item (sub _ hmem) hrow hitem]
    · obtain ⟨hmem, -⟩ := Collection.byKey_some.mp (hshows.symm.trans hfound)
      exact h.free hactive doc hmem hdoc scope

end Ready

end

/-! ### The loop -/

/-- What the loop does with a row. -/
def processRow (py : Pydantic) (sellerId operatorId : String) (now : Value) (row : BulkRow) :
    Call Unit := do
  if row.status = .validated then upsertCatalogRuleFromRow py row operatorId now
  saveRow sellerId row.done

/-- A run that has applied the rows before some place, and perhaps the one there; it goes on to the
rows beyond which it does not read. -/
structure Midway (py : Pydantic) (sellerId jobId : String) (start : Rules)
    (applied rest beyond : List BulkRow) (s : Store) : Prop where
  stored : allRows sellerId jobId s = applied.map BulkRow.done ++ (rest ++ beyond)
  rules : Reflects py applied start s.rules ∨
    ∃ row ∈ rest.head?, Reflects py (applied ++ [row]) start s.rules

section

variable {py : Pydantic} {sellerId accountId jobId operatorId : String} {now : Value}
  {rows applied rest beyond : List BulkRow} {row : BulkRow} {start after : Rules} {s t : Store}

theorem processRows_cons : processRows py sellerId operatorId now (row :: rest) =
    processRow py sellerId operatorId now row >>= fun _ =>
      processRows py sellerId operatorId now rest >>= fun done => pure (row.done :: done) := by
  rw [processRows, processRow]
  by_cases h : row.status = .validated
  · rw [if_pos h, if_pos h, seq_assoc]
  · rw [if_neg h, if_neg h]

namespace Midway

theorem row_stored (h : Midway py sellerId jobId start applied (row :: rest) beyond s) :
    row ∈ allRows sellerId jobId s := by
  rw [h.stored]
  exact List.mem_append_right _ List.mem_cons_self

/-- The rules of the rows before a row are stored, perhaps with its own. -/
theorem reflects (h : Midway py sellerId jobId start applied (row :: rest) beyond s) :
    Reflects py applied start s.rules ∨ Reflects py (applied ++ [row]) start s.rules := by
  refine h.rules.imp_right ?_
  rintro ⟨other, hother, reflects⟩
  rwa [Option.mem_some.mp hother]

/-- There is room for the row at its turn. -/
theorem room (h : Midway py sellerId jobId start applied (row :: rest) beyond s)
    (ready : Ready py sellerId accountId rows) (sub : applied ++ row :: rest = rows)
    (room : Room start row) : Room s.rules row := by
  have happlied (r : BulkRow) (hr : r ∈ applied) : r ∈ rows := sub ▸ List.mem_append_left _ hr
  have hmem : row ∈ rows := sub ▸ List.mem_append_right _ List.mem_cons_self
  rcases h.reflects with reflects | reflects
  · exact ready.room happlied reflects hmem room
  · refine ready.room (fun r hr => ?_) reflects hmem room
    rcases List.mem_append.mp hr with hr | hr
    · exact happlied r hr
    · exact List.mem_singleton.mp hr ▸ hmem

/-- The row at its turn can be applied. -/
theorem upsert (h : Midway py sellerId jobId start applied (row :: rest) beyond s)
    (lawful : py.Lawful) (hnow : py.accepts .moment now = true)
    (ready : Ready py sellerId accountId rows) (sub : applied ++ row :: rest = rows)
    (room : Room start row) (hstatus : row.status = .validated) (operatorId : String) :
    ∃ rules, exec (upsertCatalogRuleFromRow py row operatorId now) s =
      (.ok (), { s with rules }) ∧ Reflects py (applied ++ [row]) start rules := by
  have hmem : row ∈ rows := sub ▸ List.mem_append_right _ List.mem_cons_self
  obtain ⟨doc, rules, hexec, carries, hafter⟩ :=
    exec_upsert operatorId lawful (ready.describes row hmem hstatus) hnow
      (h.room ready sub room)
  refine ⟨rules, hexec, Reflects.apply h.reflects ⟨fun _ => ⟨doc, carries, hafter⟩, ?_⟩⟩
  exact fun hne => absurd hstatus hne

/-- After the row at its turn has been applied and before it is saved. -/
theorem upserted (h : Midway py sellerId jobId start applied (row :: rest) beyond s)
    (reflects : Reflects py (applied ++ [row]) start after) :
    Midway py sellerId jobId start applied (row :: rest) beyond { s with rules := after } where
  stored := h.stored
  rules := .inr ⟨row, rfl, reflects⟩

/-- After the row at its turn has been saved. -/
theorem saved (h : Midway py sellerId jobId start applied (row :: rest) beyond s)
    (reflects : Reflects py (applied ++ [row]) start after) :
    Midway py sellerId jobId start (applied ++ [row]) rest beyond
      { s with rules := after, rows := s.rows.replace row.done } where
  stored := by
    rw [List.map_append, List.append_assoc]
    exact allRows_saveRow h.stored
  rules := .inl reflects

end Midway

/-- A row that is not validated has no rule to apply. -/
theorem Midway.skip (h : Midway py sellerId jobId start applied (row :: rest) beyond s)
    (hstatus : row.status ≠ .validated) : Reflects py (applied ++ [row]) start s.rules :=
  Reflects.apply h.reflects ⟨fun hvalidated => absurd hvalidated hstatus, fun _ => rfl⟩

section

variable (lawful : py.Lawful) (hnow : py.accepts .moment now = true)
  (ready : Ready py sellerId accountId rows)
  (room : ∀ row ∈ rows, row.status = .validated → Room start row)
include lawful hnow ready room

variable (operatorId) in
/-- The row at its turn is applied and saved. -/
theorem exec_processRow (sub : applied ++ row :: rest = rows)
    (h : Midway py sellerId jobId start applied (row :: rest) beyond s) :
    ∃ t, exec (processRow py sellerId operatorId now row) s = (.ok (), t) ∧ t.jobs = s.jobs ∧
      Midway py sellerId jobId start (applied ++ [row]) rest beyond t := by
  have hmem : row ∈ rows := sub ▸ List.mem_append_right _ List.mem_cons_self
  rw [processRow]
  by_cases hstatus : row.status = .validated
  · obtain ⟨rules, hexec, reflects⟩ :=
      h.upsert lawful hnow ready sub (room row hmem hstatus) hstatus operatorId
    refine ⟨{ s with rules, rows := s.rows.replace row.done }, ?_, rfl, h.saved reflects⟩
    rw [if_pos hstatus, exec_bind_ok hexec]
    exact exec_saveRow (h.upserted reflects).row_stored
  · refine ⟨{ s with rows := s.rows.replace row.done }, ?_, rfl, h.saved (h.skip hstatus)⟩
    rw [if_neg hstatus]
    exact exec_saveRow h.row_stored

/-- Wherever the turn of a row is cut off, the row has been saved or is still at its turn. -/
theorem cut_processRow (sub : applied ++ row :: rest = rows)
    (h : Midway py sellerId jobId start applied (row :: rest) beyond s)
    (cut : Cut (processRow py sellerId operatorId now row).run s t) :
    t.jobs = s.jobs ∧ (Midway py sellerId jobId start applied (row :: rest) beyond t ∨
      Midway py sellerId jobId start (applied ++ [row]) rest beyond t) := by
  have hmem : row ∈ rows := sub ▸ List.mem_append_right _ List.mem_cons_self
  rw [processRow] at cut
  by_cases hstatus : row.status = .validated
  · rw [if_pos hstatus] at cut
    obtain ⟨rules, hexec, reflects⟩ :=
      h.upsert lawful hnow ready sub (room row hmem hstatus) hstatus operatorId
    rcases cut.of_seq with cut | ⟨a, u, hu, cut⟩
    · rcases cut_upsert cut with rfl | rfl
      · exact ⟨rfl, .inl h⟩
      · rw [hexec]
        exact ⟨rfl, .inl (h.upserted reflects)⟩
    · obtain ⟨-, rfl⟩ := Prod.mk.inj (hexec.symm.trans hu)
      rcases cut.of_act with rfl | hsaved
      · exact ⟨rfl, .inl (h.upserted reflects)⟩
      · have hend := congrArg Prod.snd
          (exec_saveRow (h.upserted reflects).row_stored)
        rw [hsaved.trans hend]
        exact ⟨rfl, .inr (h.saved reflects)⟩
  · rw [if_neg hstatus] at cut
    rcases cut.of_act with rfl | hsaved
    · exact ⟨rfl, .inl h⟩
    · have hend := congrArg Prod.snd (exec_saveRow h.row_stored)
      rw [hsaved.trans hend]
      exact ⟨rfl, .inr (h.saved (h.skip hstatus))⟩

variable (operatorId) in
/-- The loop applies and saves every row that is left. -/
theorem exec_processRows (sub : applied ++ rest = rows)
    (h : Midway py sellerId jobId start applied rest beyond s) :
    ∃ t, exec (processRows py sellerId operatorId now rest) s = (.ok (rest.map BulkRow.done), t) ∧
      t.jobs = s.jobs ∧ Midway py sellerId jobId start rows [] beyond t := by
  induction rest generalizing applied s with
  | nil => exact ⟨s, rfl, rfl, by rwa [← sub, List.append_nil]⟩
  | cons row rest ih =>
      obtain ⟨u, hrow, hjobs, hmidway⟩ :=
        exec_processRow operatorId lawful hnow ready room sub h
      obtain ⟨t, hrest, hjobs', hend⟩ := ih (by rwa [List.append_assoc]) hmidway
      refine ⟨t, ?_, hjobs'.trans hjobs, hend⟩
      rw [processRows_cons, exec_bind_ok hrow, exec_bind_ok hrest]
      rfl

/-- Wherever the loop is cut off, it has come to some row. -/
theorem cut_processRows (sub : applied ++ rest = rows)
    (h : Midway py sellerId jobId start applied rest beyond s)
    (cut : Cut (processRows py sellerId operatorId now rest).run s t) :
    t.jobs = s.jobs ∧ ∃ applied rest, applied ++ rest = rows ∧
      Midway py sellerId jobId start applied rest beyond t := by
  induction rest generalizing applied s with
  | nil =>
      obtain rfl : t = s := cut.of_ret
      exact ⟨rfl, applied, [], sub, h⟩
  | cons row rest ih =>
      have hsub : (applied ++ [row]) ++ rest = rows := by rwa [List.append_assoc]
      rw [processRows_cons] at cut
      rcases cut.of_seq with cut | ⟨a, u, hu, cut⟩
      · obtain ⟨hjobs, hmidway⟩ := cut_processRow lawful hnow ready room sub h cut
        refine ⟨hjobs, ?_⟩
        rcases hmidway with hmidway | hmidway
        · exact ⟨_, _, sub, hmidway⟩
        · exact ⟨_, _, hsub, hmidway⟩
      · obtain ⟨v, hrow, hjobs, hmidway⟩ :=
          exec_processRow operatorId lawful hnow ready room sub h
        obtain ⟨-, rfl⟩ := Prod.mk.inj (hrow.symm.trans hu)
        obtain ⟨hjobs', hsome⟩ := ih hsub hmidway cut.of_map
        exact ⟨hjobs'.trans hjobs, hsome⟩

end

end

/-! ### The job -/

/-- The states in which a job may be left: its calls are made one after another, and each is cut off
somewhere or comes to its end. -/
inductive Attempts (py : Pydantic) (sellerId jobId : String) : Store → Store → Prop
  | none (s : Store) : Attempts py sellerId jobId s s
  | again {operatorId : String} {now : Value} {s t u : Store}
      (earlier : Attempts py sellerId jobId s t) (hnow : py.accepts .moment now = true)
      (cut : Cut (processJob py sellerId jobId operatorId now).run t u) :
      Attempts py sellerId jobId s u

/-- A job that is not closed. -/
structure Unfinished (py : Pydantic) (sellerId : String) (job : BulkJob) (start : Rules)
    (rows : List BulkRow) (s : Store) : Prop where
  stored : s.jobs.byKey job.id = some job
  midway : ∃ applied rest, applied ++ rest = rows ∧
    Midway py sellerId job.id start applied rest [] s

/-- A job that is closed. -/
structure Finished (py : Pydantic) (job : BulkJob) (start : Rules) (rows : List BulkRow)
    (s : Store) : Prop where
  stored : s.jobs.byKey job.id = some (job.close (rows.map BulkRow.done))
  rules : Reflects py rows start s.rules

section

variable {py : Pydantic} {sellerId accountId jobId operatorId : String} {now : Value}
  {rows applied rest out : List BulkRow} {row : BulkRow} {job old : BulkJob} {start : Rules}
  {s t : Store}

theorem exec_processRow_done (stored : row.done ∈ allRows sellerId jobId s) :
    exec (processRow py sellerId operatorId now row.done) s = (.ok (), s) := by
  have hsave := exec_saveRow stored
  rw [done_done, Collection.replace_self (mem_allRows.mp stored).1] at hsave
  rw [processRow, if_neg done_status, done_done]
  exact hsave

theorem cut_processRow_done (stored : row.done ∈ allRows sellerId jobId s)
    (cut : Cut (processRow py sellerId operatorId now row.done).run s t) : t = s := by
  have hsave : exec (processRow py sellerId operatorId now row.done) s = _ :=
    exec_processRow_done stored
  rw [processRow, if_neg done_status] at cut hsave
  rcases cut.of_act with h | h
  · exact h
  · exact h.trans (congrArg Prod.snd hsave)

/-- The loop passes the rows that have been processed. -/
theorem exec_processRows_done (stored : ∀ row ∈ applied, row.done ∈ allRows sellerId jobId s)
    (h : exec (processRows py sellerId operatorId now rest) s = (.ok out, t)) :
    exec (processRows py sellerId operatorId now (applied.map BulkRow.done ++ rest)) s =
      (.ok (applied.map BulkRow.done ++ out), t) := by
  induction applied with
  | nil => exact h
  | cons row applied ih =>
      obtain ⟨hrow, happlied⟩ := List.forall_mem_cons.mp stored
      rw [List.map_cons, List.cons_append, processRows_cons,
        exec_bind_ok (exec_processRow_done hrow), exec_bind_ok (ih happlied), exec_pure, done_done,
        List.cons_append]

theorem cut_processRows_done (stored : ∀ row ∈ applied, row.done ∈ allRows sellerId jobId s)
    (cut : Cut
      (processRows py sellerId operatorId now (applied.map BulkRow.done ++ rest)).run s t) :
    t = s ∨ Cut (processRows py sellerId operatorId now rest).run s t := by
  induction applied with
  | nil => exact .inr cut
  | cons row applied ih =>
      obtain ⟨hrow, happlied⟩ := List.forall_mem_cons.mp stored
      rw [List.map_cons, List.cons_append, processRows_cons] at cut
      rcases cut.of_seq with cut | ⟨a, u, hu, cut⟩
      · exact .inl (cut_processRow_done hrow cut)
      · obtain ⟨-, rfl⟩ := Prod.mk.inj ((exec_processRow_done hrow).symm.trans hu)
        exact ih happlied cut.of_map

theorem exec_getJob (stored : s.jobs.byKey jobId = some job) (hseller : job.sellerId = sellerId) :
    exec (getJob sellerId jobId) s = (.ok job, s) := by
  have hfind : (s.jobs.findOne fun j => j.id = jobId ∧ j.sellerId = sellerId) = some job := by
    rw [Collection.findOne_of_key (k := jobId) fun j h => (of_decide_eq_true h).1, stored,
      Option.filter_some, if_pos]
    exact decide_eq_true ⟨(Collection.byKey_some.mp stored).2, hseller⟩
  rw [getJob, atomically, exec_act, hfind]

theorem exec_saveJob (stored : s.jobs.byKey job.id = some old) (hseller : old.sellerId = sellerId) :
    exec (saveJob sellerId job) s = (.ok (), { s with jobs := s.jobs.replace job }) := by
  obtain ⟨mem, hid⟩ := Collection.byKey_some.mp stored
  have hfind : (s.jobs.findOne fun j => j.id = job.id ∧ j.sellerId = sellerId) = some old := by
    rw [Collection.findOne_of_key (k := job.id) fun j h => (of_decide_eq_true h).1, stored,
      Option.filter_some, if_pos]
    exact decide_eq_true ⟨hid, hseller⟩
  have hmatched : (s.jobs.matched fun j => j.id = job.id ∧ j.sellerId = sellerId) = true :=
    List.any_eq_true.mpr ⟨old, mem, decide_eq_true ⟨hid, hseller⟩⟩
  rw [saveJob, atomically, exec_act, Collection.replaceOne, hmatched, Bool.true_or, if_pos rfl,
    Collection.updateOne, hfind]
  simp only [hid, if_true]

theorem rowsOf_eq (h : (allRows sellerId jobId s).length ≤ 1000) :
    rowsOf sellerId jobId s = allRows sellerId jobId s :=
  List.take_of_length_le h

theorem Unfinished.rowsOf (h : Unfinished py sellerId job start rows s) (few : rows.length ≤ 1000) :
    ∃ applied rest, applied ++ rest = rows ∧ Midway py sellerId job.id start applied rest [] s ∧
      rowsOf sellerId job.id s = applied.map BulkRow.done ++ rest ∧
      ∀ row ∈ applied, row.done ∈ allRows sellerId job.id s := by
  obtain ⟨applied, rest, sub, hmidway⟩ := h.midway
  have hstored := hmidway.stored
  rw [List.append_nil] at hstored
  have hlength : (allRows sellerId job.id s).length ≤ 1000 := by
    rw [hstored, List.length_append, List.length_map, ← List.length_append, sub]
    exact few
  refine ⟨applied, rest, sub, hmidway, (rowsOf_eq hlength).trans hstored, fun row hrow => ?_⟩
  rw [hstored]
  exact List.mem_append_left _ (List.mem_map_of_mem hrow)

theorem close_status : (job.close rows).status ∈ [.completed, .completedWithErrors, .failed] := by
  have hmem (done : Bool) : (if done then JobStatus.completedWithErrors else .completed) ∈
      [.completed, .completedWithErrors, .failed] := by
    cases done with
    | true => decide
    | false => decide
  exact hmem _

/-- The state after a job has been closed. -/
theorem Midway.close (h : Midway py sellerId job.id start rows [] [] s)
    (stored : s.jobs.byKey job.id = some job) :
    Finished py job start rows
      { s with jobs := s.jobs.replace (job.close (rows.map BulkRow.done)) } where
  stored := by
    have hid : job.id = (job.close (rows.map BulkRow.done)).id := rfl
    rw [Collection.byKey_replace, if_pos hid, stored, Option.map_some]
  rules := by
    rcases h.rules with reflects | ⟨row, hrow, -⟩
    · exact reflects
    · cases hrow

section

variable (lawful : py.Lawful) (hnow : py.accepts .moment now = true)
  (ready : Ready py sellerId accountId rows)
  (room : ∀ row ∈ rows, row.status = .validated → Room start row)
  (hseller : job.sellerId = sellerId) (hstatus : job.status = .validated)

include hseller in
/-- A job that is closed is returned as it is. -/
theorem Finished.exec_processJob (h : Finished py job start rows s) :
    exec (processJob py sellerId job.id operatorId now) s =
      (.ok (job.close (rows.map BulkRow.done)), s) := by
  rw [processJob, exec_bind_ok (exec_getJob h.stored hseller), if_pos close_status]
  rfl

include hseller in
theorem Finished.cut_processJob (h : Finished py job start rows s)
    (cut : Cut (processJob py sellerId job.id operatorId now).run s t) : t = s := by
  have hget := exec_getJob h.stored hseller
  rw [processJob] at cut
  rcases cut.of_seq with cut | ⟨closed, u, hu, cut⟩
  · exact cut.of_act.elim id fun hend => hend.trans (congrArg Prod.snd hget)
  · obtain ⟨hclosed, rfl⟩ := Prod.mk.inj (hget.symm.trans hu)
    rw [← Except.ok.inj hclosed, if_pos close_status] at cut
    exact cut.of_ret

include lawful hnow ready room hseller hstatus

/-- A job is processed from wherever it has been left. -/
theorem Unfinished.exec_processJob (h : Unfinished py sellerId job start rows s) :
    ∃ t, exec (processJob py sellerId job.id operatorId now) s =
      (.ok (job.close (rows.map BulkRow.done)), t) ∧ Finished py job start rows t := by
  obtain ⟨applied, rest, sub, hmidway, hrows, hdone⟩ := h.rowsOf ready.few
  obtain ⟨u, hexec, hjobs, hend⟩ :=
    exec_processRows operatorId lawful hnow ready room sub hmidway
  have hstored : u.jobs.byKey job.id = some job := by rw [hjobs, h.stored]
  refine ⟨_, ?_, hend.close hstored⟩
  rw [processJob, exec_bind_ok (exec_getJob h.stored hseller), if_neg (by rw [hstatus]; decide),
    listRows, exec_bind_ok (exec_find _), hrows, exec_bind_ok (exec_processRows_done hdone hexec),
    ← List.map_append, sub]
  have hsave : exec (saveJob sellerId (job.close (rows.map BulkRow.done))) u = _ :=
    exec_saveJob hstored hseller
  rw [exec_bind_ok hsave, exec_pure]

/-- Wherever a run is cut off, the job can be processed from there or is closed. -/
theorem Unfinished.cut_processJob (h : Unfinished py sellerId job start rows s)
    (cut : Cut (processJob py sellerId job.id operatorId now).run s t) :
    Unfinished py sellerId job start rows t ∨ Finished py job start rows t := by
  obtain ⟨applied, rest, sub, hmidway, hrows, hdone⟩ := h.rowsOf ready.few
  have hget := exec_getJob h.stored hseller
  rw [processJob] at cut
  rcases cut.of_seq with cut | ⟨found, u, hu, cut⟩
  · left
    rw [cut.of_act.elim id fun hend => hend.trans (congrArg Prod.snd hget)]
    exact h
  obtain ⟨hfound, rfl⟩ := Prod.mk.inj (hget.symm.trans hu)
  rw [← Except.ok.inj hfound, if_neg (by rw [hstatus]; decide), listRows] at cut
  rcases cut.of_seq with cut | ⟨listed, u, hu, cut⟩
  · left
    rw [cut.of_act.elim id id]
    exact h
  obtain ⟨hlisted, rfl⟩ := Prod.mk.inj hu
  rw [← Except.ok.inj hlisted, hrows] at cut
  obtain ⟨u, hexec, hjobs, hend⟩ :=
    exec_processRows operatorId lawful hnow ready room sub hmidway
  rcases cut.of_seq with cut | ⟨processed, v, hv, cut⟩
  · left
    rcases cut_processRows_done hdone cut with rfl | cut
    · exact h
    · obtain ⟨hsame, hsome⟩ := cut_processRows lawful hnow ready room sub hmidway cut
      exact ⟨by rw [hsame, h.stored], hsome⟩
  obtain ⟨hprocessed, rfl⟩ := Prod.mk.inj ((exec_processRows_done hdone hexec).symm.trans hv)
  have hstored : u.jobs.byKey job.id = some job := by rw [hjobs, h.stored]
  rcases cut.of_map.of_act with rfl | hsaved
  · exact .inl ⟨hstored, rows, [], List.append_nil _, hend⟩
  · right
    rw [← List.map_append, sub] at hprocessed
    rw [← Except.ok.inj hprocessed] at hsaved
    rw [hsaved.trans (congrArg Prod.snd (exec_saveJob hstored hseller))]
    exact hend.close hstored

end

/-- A job that has been left can be processed or is closed. -/
theorem Unfinished.attempts (h : Unfinished py sellerId job start rows s) (lawful : py.Lawful)
    (ready : Ready py sellerId accountId rows)
    (room : ∀ row ∈ rows, row.status = .validated → Room start row)
    (hseller : job.sellerId = sellerId) (hstatus : job.status = .validated)
    (attempts : Attempts py sellerId job.id s t) :
    Unfinished py sellerId job start rows t ∨ Finished py job start rows t := by
  induction attempts with
  | none => exact .inl h
  | again earlier hnow cut ih =>
      rcases ih h with hopen | hclosed
      · exact hopen.cut_processJob lawful hnow ready room hseller hstatus cut
      · exact .inr (hclosed.cut_processJob hseller cut ▸ hclosed)

end

end ZelerPlatform.Repricer
