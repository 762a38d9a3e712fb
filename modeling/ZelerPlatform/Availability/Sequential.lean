import ZelerPlatform.Availability.History

/-!
# Observations recorded one after another

When each call returns before the next begins and later calls observe later instants, the
log of a series is its sequence of observations with repetitions left out. Both have the
same state at every instant, so a `SeriesHistory` fed with the rows answers for the
observations.
-/

namespace ZelerPlatform.Availability

open Timeline Transition

/-- The log after calls made one after another. -/
def record (calls : List Call) : State :=
  calls.foldl (fun s call => ((recordAvailabilityObservation call).run s).2) ⟨.empty, []⟩

/-- What the calls observed of a series. -/
def observed (calls : List Call) (series : Series) : List (ℤ × Bool) :=
  calls.filterMap fun call => (call.observes series).map fun available => (call.instant, available)

variable {call : Call} {calls : List Call} {log : Log} {series : Series} {s : State}
variable {observation : SeriesObservation} {observations : List SeriesObservation}

/-! ### One call -/

/-- The observation is one for which the call finds that a row is wanted. -/
def Call.wants (call : Call) (log : Log) (observation : SeriesObservation) : Bool :=
  wantsRow (latest log (call.series observation)) call.instant (call.available observation)

/-- The search of a call changes no row. -/
theorem found_log {latest : Option Row} :
    (if settles latest call.instant (call.available observation) then
      { s with settled :=
        (call.series observation, call.instant, call.available observation) :: s.settled }
      else s : State).log = s.log := by
  split <;> rfl

theorem recordSeries_docs (call : Call) (observation : SeriesObservation) (s : State)
    (hid : ∀ row ∈ s.log.docs, row.id ≠ (call.row observation).id) :
    ((recordSeries call observation).run s).2.log.docs =
      s.log.docs ++ if call.wants s.log observation then [call.row observation] else [] := by
  unfold recordSeries Call.wants
  rw [Program.run_bind, Program.run_act]
  by_cases hwants : wantsRow (latest s.log (call.series observation)) call.instant
      (call.available observation) = true
  · simp only [if_pos hwants, Program.run_act, found_log]
    cases hinsert : s.log.insert (call.row observation) with
    | some log => exact Collection.insert_docs hinsert
    | none =>
        obtain ⟨row, hrow⟩ := Collection.insert_eq_none.mp hinsert
        obtain ⟨hmem, heq⟩ := Collection.byKey_some.mp hrow
        exact absurd heq (hid row hmem)
  · simp only [if_neg hwants, Program.run_pure, found_log, List.append_nil]

/-- Rows of other series do not matter to what is wanted. -/
theorem wants_congr {log' : Log} {rows : List Row} (hdocs : log'.docs = log.docs ++ rows)
    (hrows : ∀ row ∈ rows, row.series ≠ call.series observation) :
    call.wants log' observation = call.wants log observation := by
  have hfind : log'.find (fun row => row.series = call.series observation)
      = log.find (fun row => row.series = call.series observation) := by
    unfold Collection.find
    have hnone : rows.filter (fun row => row.series = call.series observation) = [] := by
      rw [List.filter_eq_nil_iff]
      intro row hmem
      simpa using hrows row hmem
    rw [hdocs, List.filter_append, hnone, List.append_nil]
  unfold Call.wants latest
  rw [hfind]

/-- The rows a call appends are those that the log before it wants. -/
theorem recordAll_docs
    (hnodup : (observations.map fun observation => observation.variationId.getD "-").Nodup)
    (hid : ∀ row ∈ s.log.docs, ∀ observation ∈ observations, row.id ≠ (call.row observation).id) :
    ((recordAll call observations).run s).2.log.docs =
      s.log.docs ++ (observations.filter (call.wants s.log)).map call.row := by
  induction observations generalizing s with
  | nil => simp [recordAll]
  | cons observation rest ih =>
      obtain ⟨hfirst, hrest⟩ := List.nodup_cons.mp hnodup
      have hother : ∀ o ∈ rest, o.variationId.getD "-" ≠ observation.variationId.getD "-" :=
        fun o ho heq => hfirst (List.mem_map.mpr ⟨o, ho, heq⟩)
      have hdocs := recordSeries_docs call observation s fun row hrow =>
        hid row hrow observation List.mem_cons_self
      simp only [recordAll, Program.run_bind, Program.run_pure]
      rw [ih hrest, hdocs]
      · have hwants : rest.filter (call.wants
            ((recordSeries call observation).run s).2.log) = rest.filter (call.wants s.log) := by
          refine List.filter_congr fun o ho => ?_
          refine wants_congr hdocs fun row hrow hseries => ?_
          split at hrow
          · obtain rfl := List.mem_singleton.mp hrow
            exact hother o ho (congrArg (·.variationId.getD "-") hseries).symm
          · cases hrow
        rw [hwants, List.filter_cons]
        split <;> simp
      · intro row hrow o ho
        rw [hdocs, List.mem_append] at hrow
        rcases hrow with hrow | hrow
        · exact hid row hrow o (List.mem_cons_of_mem _ ho)
        · split at hrow
          · obtain rfl := List.mem_singleton.mp hrow
            intro heq
            simp only [Call.row, rowId, Prod.mk.injEq] at heq
            exact hother o ho heq.2.2.1.symm
          · cases hrow

/-- The call observes what the newest entry says already. -/
theorem wants_iff (hid : Identified log) (hold : ∀ row ∈ log.docs, row.observedAt < call.instant) :
    call.wants log observation = true ↔
      stateAt (entries log (call.series observation)) call.instant
        ≠ some (call.available observation) := by
  unfold Call.wants
  cases hlatest : latest log (call.series observation) with
  | none =>
      have hstate : stateAt (entries log (call.series observation)) call.instant = none := by
        refine stateAt_none.mpr fun p hp => ?_
        obtain ⟨row, hmem, hseries, -⟩ := mem_entries.mp hp
        exact absurd hseries (latest_none hlatest row hmem)
      simp [wantsRow, hstate]
  | some row =>
      obtain ⟨hmem, hseries, hmax⟩ := latest_some hlatest
      have hstate : stateAt (entries log (call.series observation)) call.instant
          = some row.available := by
        refine stateAt_eq hid.distinct (mem_entries.mpr ⟨row, hmem, hseries, rfl⟩)
          (hold row hmem).le fun p hp _ => ?_
        obtain ⟨other, hother, hseries', rfl⟩ := mem_entries.mp hp
        exact hmax other hother hseries'
      simp [wantsRow, hstate, hold row hmem]

/-- The log is in order and represents the observations of a series. -/
structure Represents (log : Log) (series : Series) (observations : List (ℤ × Bool)) : Prop where
  identified : Identified log
  distinct : Distinct observations
  state : ∀ u, stateAt (entries log series) u = stateAt observations u

/-- What the next call does to the log. -/
theorem call_docs (hid : Identified s.log)
    (hold : ∀ row ∈ s.log.docs, row.observedAt < call.instant) :
    ((recordAvailabilityObservation call).run s).2.log.docs =
      s.log.docs ++ (call.observations.filter (call.wants s.log)).map call.row := by
  refine recordAll_docs variationIds_nodup fun row hrow o _ heq => ?_
  rw [hid row hrow] at heq
  simp only [Call.row, rowId, Prod.mk.injEq] at heq
  exact (hold row hrow).ne heq.2.2.2

theorem Represents.next {observations : List (ℤ × Bool)} (h : Represents s.log series observations)
    (hold : ∀ row ∈ s.log.docs, row.observedAt < call.instant)
    (hnew : ∀ p ∈ observations, p.1 < call.instant) :
    Represents ((recordAvailabilityObservation call).run s).2.log series
      (observations ++ ((call.observes series).map fun a => (call.instant, a)).toList) := by
  have hdocs := call_docs h.identified hold
  set log' := ((recordAvailabilityObservation call).run s).2.log with hlog'
  have hid : Identified log' := by
    intro row hrow
    rw [hdocs, List.mem_append] at hrow
    rcases hrow with hrow | hrow
    · exact h.identified row hrow
    · obtain ⟨o, -, rfl⟩ := List.mem_map.mp hrow
      rfl
  have hnewer : ∀ p ∈ entries s.log series, p.1 < call.instant := by
    intro p hp
    obtain ⟨row, hmem, -, rfl⟩ := mem_entries.mp hp
    exact hold row hmem
  have hmem : ∀ p, p ∈ entries log' series ↔ p ∈ entries s.log series ∨
      ∃ o ∈ call.observations, call.wants s.log o = true ∧ call.series o = series ∧
        (call.instant, call.available o) = p := by
    intro p
    rw [mem_entries, mem_entries, hdocs]
    simp only [List.mem_append, List.mem_map, List.mem_filter]
    constructor
    · rintro ⟨row, hrow | ⟨o, ⟨ho, hwants⟩, rfl⟩, hseries, hp⟩
      · exact .inl ⟨row, hrow, hseries, hp⟩
      · exact .inr ⟨o, ho, hwants, hseries, hp⟩
    · rintro (⟨row, hrow, hseries, hp⟩ | ⟨o, ho, hwants, hseries, hp⟩)
      · exact ⟨row, .inl hrow, hseries, hp⟩
      · exact ⟨call.row o, .inr ⟨o, ⟨ho, hwants⟩, rfl⟩, hseries, hp⟩
  cases hobserves : call.observes series with
  | none =>
      refine ⟨hid, by simpa using h.distinct, fun u => ?_⟩
      simp only [Option.map_none, Option.toList_none, List.append_nil]
      rw [← h.state u]
      refine stateAt_congr h.identified.distinct fun p _ => ?_
      rw [hmem]
      refine or_iff_left ?_
      rintro ⟨o, ho, -, hseries, -⟩
      exact observes_none hobserves o ho hseries
  | some a =>
      obtain ⟨o, ho, hseries, rfl⟩ := mem_of_observes hobserves
      refine ⟨hid, h.distinct.concat hnew, fun u => ?_⟩
      show _ = stateAt (observations ++ [(call.instant, call.available o)]) u
      rw [stateAt_concat h.distinct hnew, ← h.state u]
      -- another observation of the series within the call is the same one
      have honly : ∀ o' ∈ call.observations, call.series o' = series → o' = o := by
        intro o' ho' hseries'
        refine observation_eq ho' ho ?_
        exact congrArg (·.variationId.getD "-") (hseries'.trans hseries.symm)
      have hentries : ∀ p, p ∈ entries log' series ↔ p ∈ entries s.log series ∨
          (call.wants s.log o = true ∧ p = (call.instant, call.available o)) := by
        intro p
        rw [hmem]
        refine or_congr_right ⟨?_, ?_⟩
        · rintro ⟨o', ho', hwants, hseries', rfl⟩
          obtain rfl := honly o' ho' hseries'
          exact ⟨hwants, rfl⟩
        · rintro ⟨hwants, rfl⟩
          exact ⟨o, ho, hwants, hseries, rfl⟩
      rw [← stateAt_concat h.identified.distinct hnewer]
      by_cases hwants : call.wants s.log o = true
      · refine stateAt_congr (h.identified.distinct.concat hnewer) fun p _ => ?_
        rw [hentries, List.mem_append, List.mem_singleton]
        simp [hwants]
      · have hsame : stateAt (entries s.log series) call.instant = some (call.available o) := by
          by_contra hne
          exact hwants ((wants_iff h.identified hold).mpr (by rwa [hseries]))
        rw [stateAt_concat_same h.identified.distinct hnewer hsame]
        refine stateAt_congr h.identified.distinct fun p _ => ?_
        rw [hentries]
        simp [hwants]

/-! ### All calls -/

theorem record_concat (call : Call) :
    record (calls ++ [call]) = ((recordAvailabilityObservation call).run (record calls)).2 := by
  simp [record]

theorem observed_concat (call : Call) :
    observed (calls ++ [call]) series = observed calls series ++
      ((call.observes series).map fun a => (call.instant, a)).toList := by
  unfold observed
  rw [List.filterMap_append]
  cases h : call.observes series <;> simp [h]

theorem mem_observed {p : ℤ × Bool} :
    p ∈ observed calls series ↔
      ∃ call ∈ calls, call.observes series = some p.2 ∧ call.instant = p.1 := by
  obtain ⟨t, a⟩ := p
  simp [observed, List.mem_filterMap, Option.map_eq_some_iff]

/-- The log represents the observations, and holds instants of the calls only. -/
theorem represents_record (series : Series) (increasing : (calls.map Call.instant).Pairwise (· < ·)) :
    Represents (record calls).log series (observed calls series) ∧
      ∀ row ∈ (record calls).log.docs, ∃ call ∈ calls, row.observedAt = call.instant := by
  induction calls using List.reverseRecOn with
  | nil =>
      refine ⟨⟨?_, List.nodup_nil, fun _ => rfl⟩, ?_⟩
      · intro row hrow
        cases hrow
      · intro row hrow
        cases hrow
  | append_singleton calls call ih =>
      rw [List.map_append, List.pairwise_append] at increasing
      obtain ⟨hbefore, -, hlast⟩ := increasing
      obtain ⟨hrep, hrows⟩ := ih hbefore
      have hlater : ∀ earlier ∈ calls, earlier.instant < call.instant := fun earlier hmem =>
        hlast _ (List.mem_map_of_mem hmem) _ List.mem_cons_self
      have hold : ∀ row ∈ (record calls).log.docs, row.observedAt < call.instant := by
        intro row hrow
        obtain ⟨earlier, hmem, heq⟩ := hrows row hrow
        rw [heq]
        exact hlater earlier hmem
      rw [record_concat, observed_concat]
      refine ⟨hrep.next hold ?_, ?_⟩
      · intro p hp
        obtain ⟨earlier, hmem, -, heq⟩ := mem_observed.mp hp
        rw [← heq]
        exact hlater earlier hmem
      · intro row hrow
        rw [call_docs hrep.identified hold, List.mem_append] at hrow
        rcases hrow with hrow | hrow
        · obtain ⟨earlier, hmem, heq⟩ := hrows row hrow
          exact ⟨earlier, List.mem_append_left _ hmem, heq⟩
        · obtain ⟨o, -, rfl⟩ := List.mem_map.mp hrow
          exact ⟨call, List.mem_append_right _ List.mem_cons_self, rfl⟩

/-! ### Reading the log back -/

/-- The microseconds of `[start, stop)` at which the latest observation was available. -/
def availableTicks (observations : List (ℤ × Bool)) (start stop : ℤ) : ℕ :=
  ticks (fun u => stateAt observations u == some true) start stop

/-- The rows of the log, in any order, tell in every window what was observed. -/
theorem history_of_observations (calls : List Call) (series : Series) (rows : List Row)
    (windowStart windowEnd : ℤ) (increasing : (calls.map Call.instant).Pairwise (· < ·))
    (hrows : rows.Perm ((record calls).log.find fun row => row.series = series)) :
    let history := SeriesHistory.ofRows windowStart windowEnd rows
    let observations := observed calls series
    (∀ start stop, windowStart ≤ start → start ≤ stop → stop ≤ windowEnd →
      history.availableSeconds start stop =
        if ∃ p ∈ observations, p.1 ≤ start then
          some ((availableTicks observations start stop : ℚ) / 1000000)
        else none) ∧
    (∀ start stop seconds, windowStart ≤ start → start ≤ stop → stop ≤ windowEnd →
      history.availableSeconds start stop = some seconds →
        0 ≤ seconds ∧ seconds ≤ ((stop - start : ℤ) : ℚ) / 1000000) ∧
    (∀ start mid stop seconds, windowStart ≤ start → start ≤ mid → mid ≤ stop →
      stop ≤ windowEnd → history.availableSeconds start stop = some seconds →
        ∃ first second, history.availableSeconds start mid = some first ∧
          history.availableSeconds mid stop = some second ∧ first + second = seconds) ∧
    (∀ instant, windowStart < instant → instant ≤ windowEnd →
      history.stateBefore instant = stateAt observations (instant - 1)) := by
  intro history observations
  obtain ⟨hrep, -⟩ := represents_record series increasing
  have hperm : (rows.map Row.entry).Perm (entries (record calls).log series) :=
    hrows.map Row.entry
  have hdistinct : Distinct (rows.map Row.entry) := hrep.identified.distinct.perm hperm.symm
  have hstate : ∀ u, stateAt (rows.map Row.entry) u = stateAt observations u := fun u => by
    rw [stateAt_perm hdistinct hperm]
    exact hrep.state u
  have hseconds : ∀ start stop, windowStart ≤ start → start ≤ stop → stop ≤ windowEnd →
      history.availableSeconds start stop =
        if ∃ p ∈ observations, p.1 ≤ start then
          some ((availableTicks observations start stop : ℚ) / 1000000)
        else none := by
    intro start stop hwindow horder hend
    have hnone : (∀ row ∈ rows, start < row.observedAt) ↔ ¬ ∃ p ∈ observations, p.1 ≤ start := by
      have hrow : (∀ row ∈ rows, start < row.observedAt)
          ↔ stateAt (rows.map Row.entry) start = none := by
        rw [stateAt_none]
        simp [Row.entry]
      rw [hrow, hstate, stateAt_none]
      push Not
      rfl
    rw [SeriesHistory.availableSeconds_ofRows hdistinct hwindow horder hend]
    simp only [hnone, hstate, ite_not]
    rfl
  refine ⟨hseconds, ?_, ?_, ?_⟩
  · intro start stop seconds hwindow horder hend heq
    rw [hseconds start stop hwindow horder hend] at heq
    split at heq
    · obtain rfl := Option.some.inj heq
      have hle : (availableTicks observations start stop : ℤ) ≤ stop - start := by
        have : availableTicks observations start stop ≤ (stop - start).toNat := ticks_le
        omega
      refine ⟨by positivity, ?_⟩
      gcongr
      exact_mod_cast hle
    · cases heq
  · intro start mid stop seconds hwindow hfirst hsecond hend heq
    rw [hseconds start stop hwindow (hfirst.trans hsecond) hend] at heq
    rw [hseconds start mid hwindow hfirst (hsecond.trans hend),
      hseconds mid stop (hwindow.trans hfirst) hsecond hend]
    split at heq
    · next hknown =>
        obtain ⟨p, hp, hle⟩ := hknown
        obtain rfl := Option.some.inj heq
        refine ⟨_, _, if_pos ⟨p, hp, hle⟩, if_pos ⟨p, hp, hle.trans hfirst⟩, ?_⟩
        rw [← add_div]
        congr 1
        exact_mod_cast ticks_add hfirst hsecond
    · cases heq
  · intro instant hstart hend
    rw [SeriesHistory.stateBefore_ofRows hdistinct hstart hend, hstate]

/-- A publication that sells out after two milliseconds. -/
def soldOut : List Call :=
  [.ofQuantity 1000 3, .ofQuantity 2000 1, .ofQuantity 3000 0]

theorem history_of_soldOut :
    (SeriesHistory.ofRows 0 9000
      ((record soldOut).log.find fun row => row.series = ⟨"82", "MLC1", none⟩)).stateBefore 3000
        = some true := by
  have h := (history_of_observations soldOut ⟨"82", "MLC1", none⟩ _ 0 9000 (by decide)
    (List.Perm.refl _)).2.2.2 3000 (by decide) (by decide)
  rw [h]
  decide

end ZelerPlatform.Availability
