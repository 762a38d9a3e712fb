import ZelerPlatform.Repricer.BulkFrames
import ZelerPlatform.Repricer.BulkRows

/-!
# Uploads of bulk rows

A row that is accepted describes a rule that passes the validation, and its job can be processed to
its end from wherever it has been left. That holds where no row has a NaN among the prices that are
compared, none is accepted with infinite prices, the rows fit into one read and the stored rules
leave room for those of the rows.
-/

namespace ZelerPlatform.Repricer

open Mongo Transition Transition.Program Fallible

/-- The id of a row of the upload. -/
def Upload.rowId (upload : Upload) (rowNumber : Nat) : String :=
  upload.jobId ++ "-row-" ++ toString rowNumber

/-- The row that is made of a raw row. -/
def Upload.row (upload : Upload) (raw : RawRow) (rowNumber : Nat) (error : Option RowError) :
    BulkRow where
  id := upload.rowId rowNumber
  sellerId := upload.sellerId
  accountId := upload.accountId
  jobId := upload.jobId
  rowNumber := rowNumber
  status := if error.isSome then .failed else .validated
  itemId := some (raw.get "item_id" "")
  payload := payloadOf raw upload.accountId
  errorCode := error.map Prod.fst
  errorMessage := error.map Prod.snd

/-- The row is that of a raw row. -/
def Upload.Makes (upload : Upload) (numbered : RawRow × Nat) (row : BulkRow) : Prop :=
  ∃ error, normalizeBulkRow numbered.1 numbered.2 upload.accountId upload.limits upload.allies =
      .ok error ∧ row = upload.row numbered.1 numbered.2 error

/-- What is stored under the ids of the job and of its rows is from the same text: the id of the job
is its digest. -/
structure Untaken (upload : Upload) (s : Store) : Prop where
  job : ∀ job, s.jobs.byKey upload.jobId = some job → job.sellerId = upload.sellerId
  rows : ∀ n row, s.rows.byKey (upload.rowId n) = some row → row.sellerId = upload.sellerId
  own : ∀ row ∈ s.rows.docs, row.sellerId = upload.sellerId → row.jobId = upload.jobId →
    ∃ n ∈ List.range' 2 upload.raws.length, row.id = upload.rowId n

section

variable {py : Pydantic} {upload : Upload} {raw : RawRow} {n m : Nat} {error : Option RowError}
  {rows rest : List BulkRow} {row : BulkRow} {s : Store}

theorem validateRow_eq
    (h : normalizeBulkRow raw n upload.accountId upload.limits upload.allies = .ok error) :
    upload.validateRow raw n = .ok (upload.row raw n error) := by
  rw [Upload.validateRow, h]
  rfl

theorem of_validateRow (h : upload.validateRow raw n = .ok row) : upload.Makes (raw, n) row := by
  obtain ⟨error, hnormalize, h⟩ := bind_ok h
  exact ⟨error, hnormalize, (pure_ok h).symm⟩

theorem rows_makes (h : upload.rows = .ok rows) :
    List.Forall₂ upload.Makes (upload.raws.zipIdx 2) rows :=
  (mapM_forall₂ h).imp fun _ _ => of_validateRow

theorem mem_rows (h : upload.rows = .ok rows) (mem : row ∈ rows) :
    ∃ raw n, (raw, n) ∈ upload.raws.zipIdx 2 ∧ upload.Makes (raw, n) row := by
  obtain ⟨⟨raw, n⟩, hraw, makes⟩ := forall₂_right (rows_makes h) mem
  exact ⟨raw, n, hraw, makes⟩

theorem length_rows (h : upload.rows = .ok rows) : rows.length = upload.raws.length := by
  rw [← (rows_makes h).length_eq, List.length_zipIdx]

theorem rowNumbers (h : upload.rows = .ok rows) :
    rows.map BulkRow.rowNumber = List.range' 2 upload.raws.length := by
  have hall : List.Forall₂ Eq ((upload.raws.zipIdx 2).map Prod.snd) (rows.map BulkRow.rowNumber) := by
    rw [List.forall₂_map_left_iff, List.forall₂_map_right_iff]
    refine (rows_makes h).imp ?_
    rintro numbered row ⟨error, -, rfl⟩
    rfl
  rw [List.forall₂_eq_eq_eq] at hall
  rw [← hall, List.zipIdx_map_snd]

theorem toString_inj (h : toString m = toString n) : m = n := by
  have hdigits : Nat.toDigits 10 m = Nat.toDigits 10 n := String.ofList_injective h
  rw [← Nat.ofDigitChars_toDigits (b := 10) (n := m) (by decide) (by decide), hdigits,
    Nat.ofDigitChars_toDigits (by decide) (by decide)]

theorem rowIds (h : upload.rows = .ok rows) :
    rows.map BulkRow.id = (List.range' 2 upload.raws.length).map upload.rowId := by
  rw [← rowNumbers h, List.map_map]
  refine List.map_congr_left fun row mem => ?_
  obtain ⟨raw, n, -, error, -, rfl⟩ := mem_rows h mem
  rfl

/-- The ids of the rows of an upload are different. -/
theorem nodup_rows (h : upload.rows = .ok rows) : (rows.map BulkRow.id).Nodup := by
  rw [rowIds h]
  refine List.Nodup.map (fun m n hsame => ?_) List.nodup_range'
  exact toString_inj ((String.append_right_inj _).mp hsame)

/-! ### The upload -/

theorem exec_saveRow_put
    (own : ∀ old, s.rows.byKey row.id = some old → old.sellerId = upload.sellerId) :
    exec (saveRow upload.sellerId row) s = (.ok (), { s with rows := s.rows.put row }) := by
  have hfind : (s.rows.findOne fun r => r.id = row.id ∧ r.sellerId = upload.sellerId) =
      s.rows.byKey row.id := by
    rw [Collection.findOne_of_key (k := row.id) fun r h => (of_decide_eq_true h).1]
    cases hold : s.rows.byKey row.id with
    | none => rfl
    | some old =>
        rw [Option.filter_some, if_pos]
        exact decide_eq_true ⟨(Collection.byKey_some.mp hold).2, own old hold⟩
  rw [saveRow, atomically, exec_act, Collection.replaceOne, Collection.put]
  cases hinsert : s.rows.insert row with
  | none =>
      obtain ⟨old, hold⟩ := Collection.insert_eq_none.mp hinsert
      obtain ⟨mem, hid⟩ := Collection.byKey_some.mp hold
      have hmatched : (s.rows.matched fun r => r.id = row.id ∧ r.sellerId = upload.sellerId) =
          true :=
        List.any_eq_true.mpr ⟨old, mem, decide_eq_true ⟨hid, own old hold⟩⟩
      rw [hmatched, Bool.true_or, if_pos rfl, Collection.updateOne, hfind, hold]
      simp only [hid, if_true, Option.getD_none]
  | some stored =>
      have hmatched : (s.rows.matched fun r => r.id = row.id ∧ r.sellerId = upload.sellerId) =
          false := by
        refine Collection.matched_eq_false.mpr fun r mem => decide_eq_false fun hr => ?_
        rw [Collection.insert_eq_none.mpr ⟨r, Collection.byKey_some.mpr ⟨mem, hr.1⟩⟩] at hinsert
        cases hinsert
      rw [hmatched, Bool.false_or, Bool.not_true, if_neg Bool.false_ne_true, Option.getD_some]

/-- The rows are all stored, in the place of earlier ones under their ids. -/
theorem exec_saveRows (nodup : (rest.map BulkRow.id).Nodup)
    (own : ∀ row ∈ rest, ∀ old, s.rows.byKey row.id = some old →
      old.sellerId = upload.sellerId) :
    ∃ stored, exec (saveRows upload.sellerId rest) s = (.ok (), { s with rows := stored }) ∧
      ∀ k, stored.byKey k = (rest.find? fun row => row.id = k).or (s.rows.byKey k) := by
  induction rest generalizing s with
  | nil => exact ⟨s.rows, rfl, fun k => rfl⟩
  | cons row rest ih =>
      obtain ⟨hrow, hrest⟩ := List.forall_mem_cons.mp own
      obtain ⟨hnew, hnodup⟩ := List.nodup_cons.mp nodup
      have hown : ∀ other ∈ rest, ∀ old, (s.rows.put row).byKey other.id = some old →
          old.sellerId = upload.sellerId := by
        intro other hother old hold
        have hne : other.id ≠ row.id :=
          fun hsame => hnew (List.mem_map.mpr ⟨other, hother, hsame⟩)
        rw [Collection.byKey_put, if_neg hne] at hold
        exact hrest other hother old hold
      obtain ⟨stored, hexec, hstored⟩ := ih (s := { s with rows := s.rows.put row }) hnodup hown
      refine ⟨stored, ?_, fun k => ?_⟩
      · rw [saveRows, exec_bind_ok (exec_saveRow_put hrow), hexec]
      · rw [hstored, Collection.byKey_put, List.find?_cons]
        by_cases hk : row.id = k
        · have hnone : (rest.find? fun other => other.id = k) = none := by
            refine List.find?_eq_none.mpr fun other hother hid => hnew ?_
            exact List.mem_map.mpr ⟨other, hother, (of_decide_eq_true hid).trans hk.symm⟩
          rw [hnone, if_pos hk.symm, decide_eq_true hk]
          rfl
        · rw [if_neg (Ne.symm hk), decide_eq_false hk]

theorem exec_saveJob_put
    (own : ∀ job, s.jobs.byKey upload.jobId = some job → job.sellerId = upload.sellerId) :
    exec (saveJob upload.sellerId (upload.job rows)) s =
      (.ok (), { s with jobs := s.jobs.put (upload.job rows) }) := by
  cases hold : s.jobs.byKey upload.jobId with
  | some old =>
      have hid : (upload.job rows).id = upload.jobId := rfl
      have hinsert : s.jobs.insert (upload.job rows) = none :=
        Collection.insert_eq_none.mpr ⟨old, hold⟩
      rw [exec_saveJob (hid ▸ hold) (own old hold), Collection.put, hinsert,
        Option.getD_none]
  | none =>
      have hmatched : (s.jobs.matched fun j => j.id = (upload.job rows).id ∧
          j.sellerId = upload.sellerId) = false := by
        refine Collection.matched_eq_false.mpr fun job mem => decide_eq_false fun hjob => ?_
        exact Collection.byKey_none.mp hold job mem hjob.1
      cases hinsert : s.jobs.insert (upload.job rows) with
      | none =>
          obtain ⟨job, hjob⟩ := Collection.insert_eq_none.mp hinsert
          cases hold.symm.trans hjob
      | some jobs =>
          rw [saveJob, atomically, exec_act, Collection.replaceOne, hmatched, Bool.false_or,
            Bool.not_true, if_neg Bool.false_ne_true, Collection.put, hinsert, Option.getD_some]

/-- An upload stores its job and its rows. -/
theorem exec_validateUpload (untaken : Untaken upload s) (h : upload.rows = .ok rows) :
    ∃ t, exec (validateUpload upload) s = (.ok (upload.job rows, rows), t) ∧ t.rules = s.rules ∧
      t.jobs.byKey upload.jobId = some (upload.job rows) ∧
      allRows upload.sellerId upload.jobId t = rows := by
  have hsave : exec (saveJob upload.sellerId (upload.job rows)) s = _ :=
    exec_saveJob_put untaken.job
  have hown : ∀ row ∈ rows, ∀ old, s.rows.byKey row.id = some old →
      old.sellerId = upload.sellerId := by
    intro row mem old hold
    obtain ⟨raw, n, -, error, -, rfl⟩ := mem_rows h mem
    exact untaken.rows n old hold
  obtain ⟨stored, hexec, hstored⟩ :=
    exec_saveRows (s := { s with jobs := s.jobs.put (upload.job rows) }) (nodup_rows h) hown
  refine ⟨{ s with jobs := s.jobs.put (upload.job rows), rows := stored }, ?_, rfl, ?_, ?_⟩
  · rw [validateUpload, h, exec_bind_ok (exec_lift _), exec_bind_ok hsave, exec_bind_ok hexec,
      exec_pure]
  · have hid : upload.jobId = (upload.job rows).id := rfl
    rw [Collection.byKey_put, if_pos hid]
  · have hnodup : rows.Nodup := (nodup_rows h).of_map _
    have hmem (row : BulkRow) : row ∈ allRows upload.sellerId upload.jobId
        { s with jobs := s.jobs.put (upload.job rows), rows := stored } ↔ row ∈ rows := by
      rw [mem_allRows]
      constructor
      · rintro ⟨mem, hseller, hjob⟩
        have hrow := (hstored row.id).symm.trans (Collection.byKey_some.mpr ⟨mem, rfl⟩)
        cases hfind : rows.find? fun other => other.id = row.id with
        | some other =>
            rw [hfind, Option.some_or] at hrow
            exact Option.some.inj hrow ▸ List.mem_of_find?_eq_some hfind
        | none =>
            rw [hfind, Option.none_or] at hrow
            obtain ⟨n, hn, hid⟩ := untaken.own row (Collection.byKey_some.mp hrow).1 hseller hjob
            have hids : row.id ∈ rows.map BulkRow.id := by
              rw [rowIds h, hid]
              exact List.mem_map_of_mem hn
            obtain ⟨other, hother, hsame⟩ := List.mem_map.mp hids
            exact absurd (decide_eq_true hsame) (List.find?_eq_none.mp hfind other hother)
      · intro mem
        have hrow : stored.byKey row.id = some row := by
          rw [hstored]
          cases hfind : rows.find? fun other => other.id = row.id with
          | some other =>
              have hid := of_decide_eq_true (List.find?_some (p := fun other : BulkRow =>
                decide (other.id = row.id)) hfind)
              rw [List.inj_on_of_nodup_map (nodup_rows h) (List.mem_of_find?_eq_some hfind) mem hid,
                Option.some_or]
          | none =>
              exact absurd (decide_eq_true rfl) (List.find?_eq_none.mp hfind row mem)
        obtain ⟨raw, n, -, error, -, rfl⟩ := mem_rows h mem
        exact ⟨(Collection.byKey_some.mp hrow).1, rfl, rfl⟩
    have hperm := (List.perm_ext_iff_of_nodup (nodup_allRows.of_map _) hnodup).mpr hmem
    have hnumbers : (rows.map BulkRow.rowNumber).Pairwise (· < ·) := by
      rw [rowNumbers h]
      exact List.pairwise_lt_range'
    have hordered : rows.Pairwise fun a b => a.rowNumber ≤ b.rowNumber :=
      (List.pairwise_map.mp hnumbers).imp le_of_lt
    have hsorted : (allRows upload.sellerId upload.jobId
        { s with jobs := s.jobs.put (upload.job rows), rows := stored }).Pairwise
          fun a b => a.rowNumber ≤ b.rowNumber := by
      refine (List.pairwise_mergeSort ?_ ?_ _).imp of_decide_eq_true
      · intro a b c hab hbc
        exact decide_eq_true ((of_decide_eq_true hab).trans (of_decide_eq_true hbc))
      · intro a b
        rcases Nat.le_total a.rowNumber b.rowNumber with hle | hle
        · rw [decide_eq_true hle, Bool.true_or]
        · rw [decide_eq_true hle, Bool.or_true]
    refine hperm.eq_of_pairwise (fun a b ha hb hab hba => ?_) hsorted hordered
    exact List.inj_on_of_nodup_map hnumbers.nodup ((hmem a).mp ha) hb (le_antisymm hab hba)

/-- A row that is to be accepted describes a rule. -/
theorem Passes.describes (passes : Passes upload raw) :
    Describes py (upload.row raw n none) where
  item := ⟨_, rfl, rfl⟩
  texts := by
    have htext (text : Option String) :
        some (optionalText text) = some .null ∨ ∃ s, some (optionalText text) = some (.string s) := by
      cases text with
      | none => exact .inl rfl
      | some s => exact .inr ⟨s, rfl⟩
    intro field mem
    simp only [List.mem_cons, List.not_mem_nil, or_false] at mem
    rcases mem with rfl | rfl
    · exact htext (raw.get? "title")
    · exact htext (raw.get? "sku")
  strategy := ⟨_, passes.wellFormed.strategy, rfl⟩
  active := ⟨_, rfl⟩
  prices := by
    obtain ⟨x, y, hx, hy, -⟩ := passes.prices
    intro field mem
    simp only [priceFields, List.mem_cons, List.not_mem_nil, or_false] at mem
    rcases mem with rfl | rfl
    · exact ⟨_, x, rfl, hx⟩
    · exact ⟨_, y, rfl, hy⟩

end

/-! ### Jobs that can be applied -/

/-- The stored rules and the rows of an upload are such that its job can be applied. -/
structure Fit (upload : Upload) (rules : Rules) : Prop where
  fair : ∀ raw ∈ upload.raws, FairRow upload raw
  few : upload.raws.length ≤ 1000
  room : ∀ raw n, (raw, n) ∈ upload.raws.zipIdx 2 → Passes upload raw →
    Room rules (upload.row raw n none)

/-- What is said of a validated row: its prices are finite, in order and within the limits in force,
and its rule passes the validation. -/
structure Sound (py : Pydantic) (upload : Upload) (row : BulkRow) : Prop where
  prices : ∃ x y, priceOf py row.payload "min_price" = some (.finite x) ∧
    priceOf py row.payload "max_price" = some (.finite y) ∧ InLimits upload.limits x y
  rule : ∀ operatorId now, py.accepts .moment now = true →
    ∃ doc, row.document operatorId now = .ok doc ∧ accepted py doc = true

/-- A job has been applied: its counts are those of its rows, the rule of each validated row is
stored, the last row of an item deciding, and no other rule has changed. -/
structure Applied (py : Pydantic) (rows : List BulkRow) (start : Rules) (job : BulkJob)
    (s : Store) : Prop where
  stored : s.jobs.byKey job.id = some job
  total : job.totalRows = rows.length
  processed : job.processedRows = job.totalRows
  succeeded : job.successRows = rows.countP (·.status = .validated)
  rules : Reflects py rows start s.rules

/-- The upload is validated without an exception and its validated rows are sound; and wherever its
job has been left, the next call applies it. -/
def Applicable (py : Pydantic) (upload : Upload) (rules : Rules) : Prop :=
  ∀ s, s.rules = rules → Untaken upload s → ∃ rows t,
    exec (validateUpload upload) s = (.ok (upload.job rows, rows), t) ∧
      (∀ row ∈ rows, row.status = .validated → Sound py upload row) ∧
      ∀ u, Attempts py upload.sellerId upload.jobId t u → ∀ operatorId now,
        py.accepts .moment now = true → ∃ job v,
          exec (processJob py upload.sellerId upload.jobId operatorId now) u = (.ok job, v) ∧
            Applied py rows rules job v

section

variable {py : Pydantic} {upload : Upload} {raw : RawRow} {n : Nat} {error : Option RowError}
  {rows : List BulkRow} {row : BulkRow} {rules : Rules} {s t : Store}

theorem row_status : (upload.row raw n error).status = .validated ↔ error = none := by
  cases error with
  | none => exact iff_of_true rfl rfl
  | some error => exact iff_of_false (fun h => nomatch h) fun h => nomatch h

/-- A validated row of a fair upload is one that is to be accepted. -/
theorem validated_rows (fair : ∀ raw ∈ upload.raws, FairRow upload raw) (h : upload.rows = .ok rows)
    (mem : row ∈ rows) (hstatus : row.status = .validated) :
    ∃ raw n, (raw, n) ∈ upload.raws.zipIdx 2 ∧ Passes upload raw ∧ row = upload.row raw n none := by
  obtain ⟨raw, n, hraw, error, hnormalize, rfl⟩ := mem_rows h mem
  obtain rfl := row_status.mp hstatus
  have hfair := fair raw (List.fst_mem_of_mem_zipIdx hraw)
  exact ⟨raw, n, hraw, (passes_iff hfair).mp hnormalize, rfl⟩

theorem ready_rows (fair : ∀ raw ∈ upload.raws, FairRow upload raw) (h : upload.rows = .ok rows)
    (few : rows.length ≤ 1000) : Ready py upload.sellerId upload.accountId rows where
  seller := by
    intro row mem
    obtain ⟨raw, n, -, error, -, rfl⟩ := mem_rows h mem
    rfl
  account := by
    intro row mem
    obtain ⟨raw, n, -, error, -, rfl⟩ := mem_rows h mem
    rfl
  item := by
    intro row mem
    obtain ⟨raw, n, -, error, -, rfl⟩ := mem_rows h mem
    exact ⟨_, rfl⟩
  describes := by
    intro row mem hstatus
    obtain ⟨raw, n, -, passes, rfl⟩ := validated_rows fair h mem hstatus
    exact passes.describes
  few := few

theorem Passes.sound (lawful : py.Lawful) (passes : Passes upload raw) :
    Sound py upload (upload.row raw n none) where
  prices := by
    obtain ⟨x, y, hx, hy, limits⟩ := passes.prices
    have hprice {field text : String} {price : ℚ}
        (hfield : (upload.row raw n none).payload.get? field = some (.string text))
        (h : Decimal.ofText text = some (.finite price)) :
        priceOf py (upload.row raw n none).payload field = some (.finite price) := by
      rw [priceOf, hfield, Option.bind_some, coerceDecimal, lawful.str_string, h]
    exact ⟨x, y, hprice rfl hx, hprice rfl hy, limits⟩
  rule := by
    intro operatorId now hnow
    have describes : Describes py (upload.row raw n none) := passes.describes
    exact ⟨_, describes.document_eq, describes.accepted lawful hnow⟩

/-- The rows of a fair upload are all judged. -/
theorem rows_ok (fair : ∀ raw ∈ upload.raws, FairRow upload raw) :
    ∃ rows, upload.rows = .ok rows := by
  have hall : ∀ numbered ∈ upload.raws.zipIdx 2, ∃ row,
      upload.validateRow numbered.1 numbered.2 = .ok row := by
    intro numbered mem
    obtain ⟨⟨error, hnormalize⟩, -⟩ :=
      (fairRow_iff (n := numbered.2)).mp (fair numbered.1 (List.fst_mem_of_mem_zipIdx mem))
    exact ⟨_, validateRow_eq hnormalize⟩
  have hrow : Nonempty BulkRow := ⟨upload.row [] 0 none⟩
  choose! f hf using hall
  exact ⟨_, mapM_eq_ok hf⟩

theorem countP_done (h : upload.rows = .ok rows) :
    (rows.map BulkRow.done).countP (·.status = .processed) =
      rows.countP (·.status = .validated) := by
  rw [List.countP_map]
  refine List.countP_congr fun row mem => ?_
  obtain ⟨raw, n, -, error, -, rfl⟩ := mem_rows h mem
  cases error with
  | none => exact iff_of_true rfl rfl
  | some error => exact iff_of_false (fun h => nomatch h) fun h => nomatch h

theorem Finished.applied (h : Finished py (upload.job rows) rules rows t)
    (hrows : upload.rows = .ok rows) :
    Applied py rows rules ((upload.job rows).close (rows.map BulkRow.done)) t where
  stored := h.stored
  total := rfl
  processed := List.length_map _
  succeeded := countP_done hrows
  rules := h.rules

/-- Where rows and rules fit, the job can be applied. -/
theorem Fit.applicable (lawful : py.Lawful) (fit : Fit upload rules) :
    Applicable py upload rules := by
  intro s hrules untaken
  obtain ⟨rows, hrows⟩ := rows_ok fit.fair
  obtain ⟨t, hexec, hsame, hjob, hall⟩ := exec_validateUpload untaken hrows
  have few : rows.length ≤ 1000 := length_rows hrows ▸ fit.few
  have ready : Ready py upload.sellerId upload.accountId rows := ready_rows fit.fair hrows few
  have hopen : Unfinished py upload.sellerId (upload.job rows) rules rows t := by
    refine ⟨hjob, [], rows, rfl, hall.trans (List.append_nil _).symm, .inl ?_⟩
    rw [hsame, hrules]
    exact reflects_nil
  have hroom : ∀ row ∈ rows, row.status = .validated → Room rules row := by
    intro row mem hstatus
    obtain ⟨raw, n, hraw, passes, rfl⟩ := validated_rows fit.fair hrows mem hstatus
    exact fit.room raw n hraw passes
  refine ⟨rows, t, hexec, fun row mem hstatus => ?_, fun u attempts operatorId now hnow => ?_⟩
  · obtain ⟨raw, n, hraw, passes, rfl⟩ := validated_rows fit.fair hrows mem hstatus
    exact passes.sound lawful
  · rcases hopen.attempts lawful ready hroom rfl rfl attempts with hleft | hclosed
    · obtain ⟨v, hprocess, hend⟩ := hleft.exec_processJob lawful hnow ready hroom rfl rfl
      exact ⟨_, v, hprocess, hend.applied hrows⟩
    · exact ⟨_, u, hclosed.exec_processJob rfl, hclosed.applied hrows⟩

/-- An upload that returns has judged its rows. -/
theorem rows_of_exec {job : BulkJob} (h : exec (validateUpload upload) s = (.ok (job, rows), t)) :
    upload.rows = .ok rows := by
  rw [validateUpload] at h
  obtain ⟨judged, u, hjudged, h⟩ := of_exec_bind h
  obtain ⟨a, v, hjob, h⟩ := of_exec_bind h
  obtain ⟨b, w, hrows, h⟩ := of_exec_bind h
  obtain ⟨hjudged, -⟩ := Prod.mk.inj hjudged
  obtain ⟨hreturned, -⟩ := Prod.mk.inj h
  rw [hjudged, (Prod.mk.inj (Except.ok.inj hreturned)).2]

/-- A row that raises nothing and is sound if it is validated is fair. -/
theorem fairRow_of_sound (lawful : py.Lawful) (hrows : upload.rows = .ok rows)
    (sound : ∀ row ∈ rows, row.status = .validated → Sound py upload row) (mem : raw ∈ upload.raws) :
    FairRow upload raw := by
  rw [← List.zipIdx_map_fst 2 upload.raws] at mem
  obtain ⟨⟨raw, n⟩, hraw, rfl⟩ := List.mem_map.mp mem
  obtain ⟨row, hrow, error, hnormalize, rfl⟩ := forall₂_left (rows_makes hrows) hraw
  refine (fairRow_iff (n := n)).mpr ⟨⟨error, hnormalize⟩, fun haccepted => ?_⟩
  rw [haccepted] at hnormalize
  obtain rfl := Except.ok.inj hnormalize
  obtain ⟨x, y, hx, hy, -⟩ := (sound _ hrow rfl).prices
  have hprice {field text : String} {price : ℚ}
      (hfield : (upload.row raw n none).payload.get? field = some (.string text))
      (h : priceOf py (upload.row raw n none).payload field = some (.finite price)) :
      Decimal.ofText text = some (.finite price) := by
    rwa [priceOf, hfield, Option.bind_some, coerceDecimal, lawful.str_string] at h
  exact ⟨x, y, hprice rfl hx, hprice rfl hy⟩

/-- A rule under the id of a validated row is of its item if it still is after the run. -/
theorem scoped_of_keeps {before after : Rules} {doc : Doc}
    (ready : Ready py upload.sellerId upload.accountId rows)
    (reflects : Reflects py rows rules after) (keeps : Keeps before after) (mem : row ∈ rows)
    (hstatus : row.status = .validated) (stored : before.byKey (.string row.ruleId) = some doc) :
    Scoped row doc := by
  obtain ⟨new, hnew, hfields⟩ := keeps _ _ stored
  have hshows := reflects (.string row.ruleId)
  rw [Shows] at hshows
  split at hshows
  · next last hlast =>
      obtain ⟨doc', hdoc', carries⟩ := hshows
      obtain rfl : doc' = new := Option.some.inj (hdoc'.symm.trans hnew)
      obtain ⟨hmem, -, hid⟩ := of_lastFor hlast
      have hitem := ready.item_of_ruleId hmem mem (Value.string.inj hid).symm
      have scope := ready.scoped_of_item hmem mem hitem carries.scope
      refine ⟨?_, ?_, ?_⟩
      · rw [← hfields "seller_id" (by decide), scope.seller]
      · rw [← hfields "account_id" (by decide), scope.account]
      · rw [← hfields "item_id" (by decide), scope.item]
  · next hnone =>
      have hrow := List.find?_eq_none.mp hnone row (List.mem_reverse.mpr mem)
      exact absurd ⟨hstatus, rfl⟩ (of_decide_eq_false (Bool.eq_false_iff.mpr hrow))

/-- A run that has applied its rows has found room for each of them. -/
theorem room_of_exec (lawful : py.Lawful) (ready : Ready py upload.sellerId upload.accountId rows)
    {operatorId : String} {now : Value} {out : List BulkRow}
    (h : exec (processRows py upload.sellerId operatorId now rows) s = (.ok out, t))
    (reflects : Reflects py rows s.rules t.rules) (mem : row ∈ rows)
    (hstatus : row.status = .validated) : Room s.rules row where
  own doc stored :=
    scoped_of_keeps ready reflects (of_exec_processRows lawful ready.describes h).2.1 mem hstatus
      stored
  free := by
    intro hactive other hother otherActive otherScoped
    by_contra hne
    obtain ⟨before, after, rfl⟩ := List.append_of_mem mem
    obtain ⟨u, v, first, second, hfirst, hrow, hsecond⟩ := of_exec_processRows_append h
    have hbefore (r : BulkRow) (hr : r ∈ before) : r ∈ before ++ row :: after :=
      List.mem_append_left _ hr
    have hafter (r : BulkRow) (hr : r ∈ after) : r ∈ before ++ row :: after :=
      List.mem_append_right _ (List.mem_cons_of_mem _ hr)
    -- the other rule is still there when the row has its turn
    have hstored : s.rules.byKey (ruleKey other) = some other :=
      Collection.byKey_some.mpr ⟨hother, rfl⟩
    have hstill : u.rules.byKey (ruleKey other) = some other := by
      rw [(of_exec_processRows lawful (fun r hr => ready.describes r (hbefore r hr)) hfirst).2.2
        (ruleKey other) fun r hr hvalid hkey => ?_, hstored]
      have scope := scoped_of_keeps ready reflects
        (of_exec_processRows lawful ready.describes h).2.1 (hbefore r hr) hvalid (hkey ▸ hstored)
      have hitem : r.itemId = row.itemId := by
        obtain ⟨a, ha⟩ := ready.item r (hbefore r hr)
        obtain ⟨b, hb⟩ := ready.item row mem
        have hsame := scope.item.symm.trans otherScoped.item
        rw [ha, hb, Option.map_some, Option.map_some, Option.some.injEq, Value.string.injEq] at hsame
        rw [ha, hb, hsame]
      exact hne (hkey.trans (congrArg _ (ready.ruleId_of_item (hbefore r hr) mem hitem)))
    rcases of_exec_processRow lawful (ready.describes row mem) hrow with ⟨-, doc, upserted⟩ | ⟨hno, -⟩
    · have hdoc : v.rules.byKey (.string row.ruleId) = some doc := by
        rw [upserted.stored, if_pos rfl]
      have scope := scoped_of_keeps ready reflects
        (of_exec_processRows lawful (fun r hr => ready.describes r (hafter r hr)) hsecond).2.1
        mem hstatus hdoc
      have htaken : indexTaken doc u.rules = true := by
        rw [indexTaken, upserted.active hactive, Bool.true_and]
        refine List.any_eq_true.mpr ⟨other, (Collection.byKey_some.mp hstill).1, ?_⟩
        have hkey : ruleKey other ≠ ruleKey doc := by
          rw [(Collection.byKey_some.mp hdoc).2]
          exact hne
        rw [decide_eq_true hkey, otherActive, Bool.true_and, Bool.true_and, sameItem,
          List.all_eq_true]
        intro field hfield
        simp only [List.mem_cons, List.not_mem_nil, or_false] at hfield
        apply decide_eq_true
        rcases hfield with rfl | rfl | rfl
        · rw [Doc.getD, Doc.getD, otherScoped.seller, scope.seller]
        · rw [Doc.getD, Doc.getD, otherScoped.account, scope.account]
        · rw [Doc.getD, Doc.getD, otherScoped.item, scope.item]
      rw [upserted.free] at htaken
      cases htaken
    · exact hno hstatus

/-- Where the job of an upload can be applied, rows and rules fit. -/
theorem Applicable.fit (lawful : py.Lawful) {now : Value} (hnow : py.accepts .moment now = true)
    (h : Applicable py upload rules) : Fit upload rules := by
  have untaken : Untaken upload ⟨rules, .empty, .empty⟩ :=
    { job := fun job h => nomatch h
      rows := fun n row h => nomatch h
      own := fun row mem => nomatch mem }
  obtain ⟨rows, t, hexec, sound, happlies⟩ := h _ rfl untaken
  have hrows := rows_of_exec hexec
  have fair : ∀ raw ∈ upload.raws, FairRow upload raw :=
    fun raw mem => fairRow_of_sound lawful hrows sound mem
  obtain ⟨t', hexec', hrules, hjob, hall⟩ := exec_validateUpload untaken hrows
  obtain rfl : t' = t := (Prod.mk.inj (hexec'.symm.trans hexec)).2
  obtain ⟨job, v, hprocess, applied⟩ := happlies t' (.none t') upload.operatorId now hnow
  have hseller : (upload.job rows).sellerId = upload.sellerId := rfl
  obtain ⟨u, processed, hloop, hsame, rfl⟩ := of_exec_processJob hjob hseller rfl hprocess
  have hread : rowsOf upload.sellerId (upload.job rows).id t' = rows.take 1000 :=
    congrArg (List.take 1000) hall
  have describes : ∀ row ∈ rows, row.status = .validated → Describes py row := by
    intro row mem hstatus
    obtain ⟨raw, n, -, passes, rfl⟩ := validated_rows fair hrows mem hstatus
    exact passes.describes
  rw [hread] at hloop
  have hprocessed : processed = (rows.take 1000).map BulkRow.done :=
    (of_exec_processRows lawful (fun row mem => describes row (List.mem_of_mem_take mem)) hloop).1
  have few : rows.length ≤ 1000 := by
    have hcount := applied.processed.trans applied.total
    rw [BulkJob.close, hprocessed] at hcount
    simp only [List.length_map, List.length_take] at hcount
    omega
  have ready : Ready py upload.sellerId upload.accountId rows := ready_rows fair hrows few
  have hrules : t'.rules = rules := hrules
  rw [List.take_of_length_le few] at hloop
  refine ⟨fair, length_rows hrows ▸ few, fun raw n hraw passes => ?_⟩
  obtain ⟨row, mem, error, hnormalize, rfl⟩ := forall₂_left (rows_makes hrows) hraw
  have haccepted := (passes_iff (n := n) (fair raw (List.fst_mem_of_mem_zipIdx hraw))).mpr passes
  obtain rfl := Except.ok.inj (haccepted.symm.trans hnormalize)
  rw [← hrules]
  refine room_of_exec lawful ready hloop ?_ mem rfl
  rw [hrules, ← hsame]
  exact applied.rules

end

/-- An upload of one row, with the given text as its lower price. -/
def oneRow (minPrice : String) : Upload where
  sellerId := "S"
  accountId := "A"
  jobId := "J"
  limits := none
  allies := none
  sourceFilename := "rules.csv"
  operatorId := "O"
  raws := [[("item_id", "MLM1"), ("strategy", "competitive"), ("min_price", minPrice),
    ("max_price", "200")]]

end ZelerPlatform.Repricer
