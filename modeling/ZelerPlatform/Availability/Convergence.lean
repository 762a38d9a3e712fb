import ZelerPlatform.Availability.Log

/-!
# Observations recorded side by side

Calls may arrive in any order and interleave between their search and their insertion. An
observation that finds the log in its own state leaves no row, so an older one that arrives
later can put its row behind it, and the log then ends in a state that was observed earlier.

Where no row is inserted before such an observation without another row between them, each
of these observations stays represented, and the log ends in the state observed last.
-/

namespace ZelerPlatform.Availability

open Timeline Transition

variable {ι : Type*} [DecidableEq ι] {call : Call} {s t : State} {series : Series}
variable {observation : SeriesObservation} {observations : List SeriesObservation}

/-- Any number of calls about to start on an empty log. -/
def begin (calls : ι → Call) : Pool ι State (Program Op State Nat) where
  shared := ⟨.empty, []⟩
  control i := recordAvailabilityObservation (calls i)

/-- The row to be inserted is not older than an observation that left none, unless that
observed the same or there is a row between the two. -/
def InOrder (s : State) : Op → Prop
  | .find _ => True
  | .insert row => ∀ settled ∈ s.settled, settled.1 = row.series → row.observedAt < settled.2.1 →
      settled.2.2 = row.available ∨
        ∃ other ∈ s.log.docs, other.series = row.series ∧ row.observedAt < other.observedAt ∧
          other.observedAt ≤ settled.2.1

instance (s : State) (op : Op) : Decidable (InOrder s op) := by
  cases op <;> unfold InOrder <;> infer_instance

/-- What a step of a call does to the state. -/
inductive Effect (call : Call) (s : State) : State → Prop
  | idle : Effect call s s
  | settle (observation : SeriesObservation) (mem : observation ∈ call.observations)
      (same : settles (latest s.log (call.series observation)) call.instant
        (call.available observation) = true) :
      Effect call s { s with settled :=
        (call.series observation, call.instant, call.available observation) :: s.settled }
  | insert (observation : SeriesObservation) (mem : observation ∈ call.observations)
      (inOrder : InOrder s (.insert (call.row observation))) {log : Log}
      (h : s.log.insert (call.row observation) = some log) : Effect call s { s with log }

/-- Rows and settled observations stay. -/
def Grows (s t : State) : Prop := s.log.docs ⊆ t.log.docs ∧ s.settled ⊆ t.settled

theorem Effect.grows (h : Effect call s t) : Grows s t := by
  cases h with
  | idle => exact ⟨List.Subset.refl _, List.Subset.refl _⟩
  | settle => exact ⟨List.Subset.refl _, List.subset_cons_self _ _⟩
  | insert observation _ _ h =>
      refine ⟨?_, List.Subset.refl _⟩
      rw [Collection.insert_docs h]
      exact List.subset_append_left _ _

/-- An observation is in the log, or settled, or the log is as new. -/
def Recorded (call : Call) (observation : SeriesObservation) (s : State) : Prop :=
  (∃ row ∈ s.log.docs, row.id = (call.row observation).id) ∨
    (call.series observation, call.instant, call.available observation) ∈ s.settled ∨
    ∃ row ∈ s.log.docs, row.series = call.series observation ∧ call.instant ≤ row.observedAt

theorem Recorded.mono (h : Recorded call observation s) (hgrows : Grows s t) :
    Recorded call observation t := by
  rcases h with ⟨row, hrow, hid⟩ | hsettled | ⟨row, hrow, hseries, hle⟩
  · exact .inl ⟨row, hgrows.1 hrow, hid⟩
  · exact .inr (.inl (hgrows.2 hsettled))
  · exact .inr (.inr ⟨row, hgrows.1 hrow, hseries, hle⟩)

/-- A call records all it observes, whatever the others do. -/
def recording (call : Call) (observations : List SeriesObservation) : Contract State Nat where
  rely := Grows
  guar := Effect call
  post _ t := ∀ observation ∈ observations, Recorded call observation t
  refl _ := ⟨List.Subset.refl _, List.Subset.refl _⟩
  trans hst htu := ⟨List.Subset.trans hst.1 htu.1, List.Subset.trans hst.2 htu.2⟩

/-! ### Every call records its observations -/

theorem recorded_of_unwanted
    (h : wantsRow (latest s.log (call.series observation)) call.instant
      (call.available observation) = false) :
    settles (latest s.log (call.series observation)) call.instant (call.available observation)
        = true ∨ Recorded call observation s := by
  cases hlatest : latest s.log (call.series observation) with
  | none => simp [hlatest, wantsRow] at h
  | some row =>
      obtain ⟨hmem, hseries, -⟩ := latest_some hlatest
      by_cases hnewer : row.observedAt < call.instant
      · left
        simpa [hlatest, wantsRow, settles, hnewer] using h
      · exact .inr (.inr (.inr ⟨row, hmem, hseries, not_lt.mp hnewer⟩))

theorem meets_insert (hmem : observation ∈ call.observations) :
    Program.Meets (recording call [observation]) InOrder
      (Program.act (.insert (call.row observation)) fun s =>
        match s.log.insert (call.row observation) with
        | some log => (1, { s with log })
        | none => (0, s)) s := by
  apply Program.Meets.last
  intro t _ hinOrder
  cases hinsert : t.log.insert (call.row observation) with
  | some log =>
      refine ⟨.insert observation hmem hinOrder hinsert, fun u hu o ho => ?_⟩
      obtain rfl := List.mem_singleton.mp ho
      refine Recorded.mono (.inl ⟨call.row o, ?_, rfl⟩) hu
      show call.row o ∈ log.docs
      rw [Collection.insert_docs hinsert]
      simp
  | none =>
      refine ⟨.idle, fun u hu o ho => ?_⟩
      obtain rfl := List.mem_singleton.mp ho
      obtain ⟨row, hrow⟩ := Collection.insert_eq_none.mp hinsert
      obtain ⟨hmem, hid⟩ := Collection.byKey_some.mp hrow
      exact Recorded.mono (.inl ⟨row, hmem, hid⟩) hu

theorem meets_recordSeries (hmem : observation ∈ call.observations) :
    Program.Meets (recording call [observation]) InOrder (recordSeries call observation) s := by
  apply Program.Meets.act
  intro t _ _
  constructor
  · show Effect call t (if _ then _ else _)
    split
    · next hsettles => exact .settle observation hmem hsettles
    · exact .idle
  · cases hwants : wantsRow (latest t.log (call.series observation)) call.instant
        (call.available observation) with
    | true =>
        rw [if_pos hwants]
        exact meets_insert hmem
    | false =>
        rw [if_neg (by simp [hwants])]
        apply Program.Meets.pure
        intro v hv o ho
        obtain rfl := List.mem_singleton.mp ho
        refine Recorded.mono ?_ hv
        show Recorded call o (if _ then _ else _)
        split
        · exact .inr (.inl List.mem_cons_self)
        · next hsettles => exact (recorded_of_unwanted hwants).resolve_left hsettles

theorem meets_recordAll (hmem : observations ⊆ call.observations) :
    Program.Meets (recording call observations) InOrder (recordAll call observations) s := by
  induction observations generalizing s with
  | nil => exact Program.Meets.pure fun _ _ _ hnil => absurd hnil List.not_mem_nil
  | cons observation rest ih =>
      have hseries := meets_recordSeries (s := s) (hmem List.mem_cons_self)
      refine Program.Meets.bind ?_ ?_ hseries fun written t hfirst => ?_
      · exact fun _ _ h => h
      · exact fun _ _ h => h
      · have hrecorded : Recorded call observation t := hfirst observation List.mem_cons_self
        have hrest := Program.Meets.frame (c := recording call rest)
          (P := Recorded call observation) (fun _ _ h hr => hr.mono h)
          (fun _ _ h hr => hr.mono h.grows) hrecorded
          (ih (s := t) fun o ho => hmem (List.mem_cons_of_mem _ ho))
        refine Program.Meets.bind ?_ ?_ hrest fun more u hu => ?_
        · exact fun _ _ h => h
        · exact fun _ _ h => h
        · refine Program.Meets.pure fun v hv o ho => ?_
          rcases List.mem_cons.mp ho with rfl | ho
          · exact hu.2.mono hv
          · exact (hu.1 o ho).mono hv

theorem meets_record : Program.Meets (recording call call.observations) InOrder
    (recordAvailabilityObservation call) s := meets_recordAll (List.Subset.refl _)

/-! ### Settled observations stay represented -/

/-- Rows and settled observations are those of the calls, and the log is in the state of
each settled observation at its instant. -/
structure Sound (calls : ι → Call) (s : State) : Prop where
  rows : ∀ row ∈ s.log.docs, ∃ i, ∃ observation ∈ (calls i).observations,
    row = (calls i).row observation
  observed : ∀ settled ∈ s.settled, ∃ i, (calls i).observes settled.1 = some settled.2.2 ∧
    (calls i).instant = settled.2.1
  state : ∀ settled ∈ s.settled,
    stateAt (entries s.log settled.1) settled.2.1 = some settled.2.2

variable {calls : ι → Call} {i : ι}

omit [DecidableEq ι] in
theorem Sound.distinct (h : Sound calls s) : Distinct (entries s.log series) := by
  refine Identified.distinct fun row hrow => ?_
  obtain ⟨i, o, -, rfl⟩ := h.rows row hrow
  rfl

omit [DecidableEq ι] in
theorem Sound.settle (h : Sound calls s) (hmem : observation ∈ (calls i).observations)
    (same : settles (latest s.log ((calls i).series observation)) (calls i).instant
      ((calls i).available observation) = true) :
    Sound calls { s with settled := ((calls i).series observation, (calls i).instant,
      (calls i).available observation) :: s.settled } := by
  refine ⟨h.rows, ?_, ?_⟩
  · intro settled hsettled
    rcases List.mem_cons.mp hsettled with rfl | hsettled
    · exact ⟨i, observes_of_mem hmem, rfl⟩
    · exact h.observed settled hsettled
  · intro settled hsettled
    rcases List.mem_cons.mp hsettled with rfl | hsettled
    · obtain ⟨row, hlatest, hrow⟩ := (Option.any_eq_true _ _).mp same
      obtain ⟨hrowmem, hseries, hmax⟩ := latest_some hlatest
      simp only [Bool.and_eq_true, decide_eq_true_eq, beq_iff_eq] at hrow
      rw [← hrow.2]
      refine stateAt_eq h.distinct (mem_entries.mpr ⟨row, hrowmem, hseries, rfl⟩) hrow.1.le ?_
      intro p hp _
      obtain ⟨other, hother, hseries', rfl⟩ := mem_entries.mp hp
      exact hmax other hother hseries'
    · exact h.state settled hsettled

omit [DecidableEq ι] in
/-- A row in order breaks no settled observation. -/
theorem Sound.insert (distinctInstants : ∀ i j, (calls i).instant = (calls j).instant → i = j)
    (h : Sound calls s) (hmem : observation ∈ (calls i).observations)
    (inOrder : InOrder s (.insert ((calls i).row observation))) {log : Log}
    (hinsert : s.log.insert ((calls i).row observation) = some log) :
    Sound calls { s with log } := by
  have hrows : ∀ row ∈ log.docs, ∃ i, ∃ o ∈ (calls i).observations, row = (calls i).row o := by
    intro row hrow
    rw [Collection.insert_docs hinsert, List.mem_append, List.mem_singleton] at hrow
    rcases hrow with hrow | rfl
    · exact h.rows row hrow
    · exact ⟨i, observation, hmem, rfl⟩
  refine ⟨hrows, h.observed, ?_⟩
  rintro ⟨series, instant, available⟩ hsettled
  have hstate := h.state _ hsettled
  have hsound : Sound calls ⟨log, []⟩ := ⟨hrows, by simp, by simp⟩
  have hdistinct : Distinct (entries log series) := hsound.distinct
  show stateAt (entries log series) instant = some available
  by_cases hseries : ((calls i).row observation).series = series
  · obtain ⟨t, hentry, hle, hmax⟩ := stateAt_some hstate
    have hentries : ∀ p, p ∈ entries log series ↔ p ∈ entries s.log series ∨
        p = ((calls i).instant, (calls i).available observation) := by
      intro p
      rw [entries_insert hinsert, if_pos hseries, List.mem_append, List.mem_singleton]
      rfl
    -- the new row is after the settled instant, or at it, or before a later row
    rcases lt_trichotomy (calls i).instant instant with hlt | heq | hgt
    · rcases inOrder _ hsettled hseries.symm hlt with hsame | ⟨row, hrow, hrowseries, hafter, hby⟩
      · have hsame' : available = (calls i).available observation := hsame
        by_cases hnewer : t < (calls i).instant
        · refine hsame' ▸ stateAt_eq hdistinct ((hentries _).mpr (.inr rfl)) hlt.le ?_
          intro q hq hqle
          rcases (hentries q).mp hq with hq | rfl
          · exact (hmax q hq hqle).trans hnewer.le
          · exact le_rfl
        · refine stateAt_eq hdistinct ((hentries _).mpr (.inl hentry)) hle ?_
          intro q hq hqle
          rcases (hentries q).mp hq with hq | rfl
          · exact hmax q hq hqle
          · exact not_lt.mp hnewer
      · refine stateAt_eq hdistinct ((hentries _).mpr (.inl hentry)) hle ?_
        intro q hq hqle
        rcases (hentries q).mp hq with hq | rfl
        · exact hmax q hq hqle
        · have hrowle := hmax _ (mem_entries.mpr ⟨row, hrow, hrowseries.trans hseries, rfl⟩) hby
          exact (hafter.trans_le hrowle).le
    · obtain ⟨j, hobserves, hinstant⟩ := h.observed _ hsettled
      obtain rfl := distinctInstants i j (heq.trans hinstant.symm)
      have hcall : (calls i).observes series = some ((calls i).available observation) :=
        hseries ▸ observes_of_mem hmem
      rw [hcall] at hobserves
      obtain rfl := Option.some.inj hobserves
      exact stateAt_eq hdistinct ((hentries _).mpr (.inr rfl)) heq.le
        fun q hq hqle => hqle.trans heq.ge
    · refine stateAt_eq hdistinct ((hentries _).mpr (.inl hentry)) hle ?_
      intro q hq hqle
      rcases (hentries q).mp hq with hq | rfl
      · exact hmax q hq hqle
      · exact absurd hqle (not_le.mpr hgt)
  · rw [entries_insert hinsert, if_neg hseries]
    exact hstate

/-! ### The log after all calls -/

/-- When all calls have returned, the log is in the state last observed from then on. -/
def Converged (calls : ι → Call) (pool : Pool ι State (Program Op State Nat)) : Prop :=
  ∀ series newest available, (∀ i, ∃ written, pool.control i = .ret written) →
    (calls newest).observes series = some available →
    (∀ i, (calls i).observes series ≠ none → (calls i).instant ≤ (calls newest).instant) →
    ∀ u, (calls newest).instant ≤ u → stateAt (entries pool.shared.log series) u = some available

theorem converged_of_run {pool : Pool ι State (Program Op State Nat)} {es : List (ι × Op)}
    (distinctInstants : ∀ i j, (calls i).instant = (calls j).instant → i = j)
    (run : Run (restrict Program.Step (Program.Allowed fun _ => InOrder)) (begin calls) es pool) :
    Converged calls pool := by
  have compatible : ∀ i j, i ≠ j → ∀ s t,
      (recording (calls i) (calls i).observations).guar s t →
        (recording (calls j) (calls j).observations).rely s t := fun i j _ s t h => h.grows
  have hstart : ∀ i, Program.Meets (recording (calls i) (calls i).observations) InOrder
      ((begin calls).control i) (begin calls).shared := fun i => meets_record
  have hsound : Sound calls pool.shared := by
    refine Program.invariant_of_run (I := Sound calls) compatible hstart ?_ ?_ run
    · refine ⟨?_, ?_, ?_⟩
      · intro row hrow
        cases hrow
      · intro settled hsettled
        cases hsettled
      · intro settled hsettled
        cases hsettled
    · intro i s t h heffect
      cases heffect with
      | idle => exact h
      | settle observation hmem hsame => exact h.settle hmem hsame
      | insert observation hmem hinOrder hinsert =>
          exact h.insert distinctInstants hmem hinOrder hinsert
  intro series newest available returned hobserves hnewest u hu
  obtain ⟨written, hreturned⟩ := returned newest
  obtain ⟨o, ho, hseries, rfl⟩ := mem_of_observes hobserves
  have hbound : ∀ p ∈ entries pool.shared.log series, p.1 ≤ (calls newest).instant := by
    intro p hp
    obtain ⟨row, hrow, hrowseries, rfl⟩ := mem_entries.mp hp
    obtain ⟨i, o', ho', rfl⟩ := hsound.rows row hrow
    have hi := observes_of_mem ho'
    have hrowseries' : (calls i).series o' = series := hrowseries
    rw [hrowseries'] at hi
    exact hnewest i (by rw [hi]; simp)
  have hown : ∀ row ∈ pool.shared.log.docs, row.observedAt = (calls newest).instant →
      (row.series = series ∨ row.id = ((calls newest).row o).id) →
        stateAt (entries pool.shared.log series) u = some ((calls newest).available o) := by
    intro row hrow hat hwhich
    obtain ⟨i, o', ho', rfl⟩ := hsound.rows row hrow
    obtain rfl := distinctInstants i newest hat
    have hsame : o' = o := by
      rcases hwhich with hwhich | hid
      · refine observation_eq ho' ho ?_
        exact congrArg (·.variationId.getD "-") (hwhich.trans hseries.symm)
      · exact row_eq_of_id ho' ho hid
    subst hsame
    exact stateAt_eq hsound.distinct (mem_entries.mpr ⟨_, hrow, hseries, rfl⟩) hu
      fun q hq _ => hbound q hq
  have hpost := Program.post_of_run compatible hstart run hreturned o ho
  rcases hpost with ⟨row, hrow, hid⟩ | hsettled | ⟨row, hrow, hrowseries, hle⟩
  · have hat : row.observedAt = (calls newest).instant := by
      obtain ⟨i, o', ho', rfl⟩ := hsound.rows row hrow
      simp only [Call.row, rowId, Prod.mk.injEq] at hid
      exact hid.2.2.2
    exact hown row hrow hat (.inr hid)
  · have hstate := hsound.state _ hsettled
    rw [hseries] at hstate
    rw [stateAt_of_newest hsound.distinct hbound hu]
    exact hstate
  · rw [hseries] at hrowseries
    have hat := hbound _ (mem_entries.mpr ⟨row, hrow, hrowseries, rfl⟩)
    exact hown row hrow (le_antisymm hat hle) (.inl hrowseries)

/-- In stock, out of stock, and in stock again. -/
def restocked : Fin 3 → Call
  | 0 => .ofQuantity 1000 3
  | 1 => .ofQuantity 2000 0
  | 2 => .ofQuantity 3000 2

/-- One call after another, each of which leaves a row. -/
theorem restocked_converged :
    ∃ es pool, Run (restrict Program.Step (Program.Allowed fun _ => InOrder)) (begin restocked)
      es pool ∧ pool.shared.log.docs.length = 3 ∧
      stateAt (entries pool.shared.log ⟨"82", "MLC1", none⟩) 5000 = some true := by
  have hrun : (perform (guarded (fun pool e => decide (InOrder pool.shared e.2)) Program.next)
      [0, 0, 1, 1, 2, 2] (begin restocked)).any (fun result =>
        decide (∀ i, (Program.next i result.2).isNone = true) &&
          decide (result.2.shared.log.docs.length = 3)) = true := by
    decide +kernel
  obtain ⟨⟨es, pool⟩, hperform, hreturned⟩ := (Option.any_eq_true _ _).mp hrun
  simp only [Bool.and_eq_true, decide_eq_true_eq] at hreturned
  have run : Run (restrict Program.Step (Program.Allowed fun _ => InOrder)) (begin restocked) es
      pool := Program.run_of_guarded hperform
  refine ⟨es, pool, run, hreturned.2, ?_⟩
  have converged := converged_of_run (by decide) run
  exact converged _ 2 true (fun i => Program.returned_of_next (hreturned.1 i)) (by decide)
    (by decide) 5000 (by decide)

/-- The last observation first: it finds the log in its own state. -/
theorem restocked_late :
    (∀ i j, (restocked i).instant = (restocked j).instant → i = j) ∧
    ∃ es pool, Run Program.Step (begin restocked) es pool ∧ ¬ Converged restocked pool := by
  refine ⟨by decide, ?_⟩
  have hrun : (perform Program.next [0, 0, 2, 1, 1] (begin restocked)).any (fun result =>
      decide (∀ i, (Program.next i result.2).isNone = true) &&
        decide (stateAt (entries result.2.shared.log ⟨"82", "MLC1", none⟩) 3000 = some false))
      = true := by
    decide +kernel
  obtain ⟨⟨es, pool⟩, hperform, hresult⟩ := (Option.any_eq_true _ _).mp hrun
  simp only [Bool.and_eq_true, decide_eq_true_eq] at hresult
  refine ⟨es, pool, Program.run_of_schedule hperform, fun converged => ?_⟩
  have hlast := converged ⟨"82", "MLC1", none⟩ 2 true
    (fun i => Program.returned_of_next (hresult.1 i)) (by decide) (by decide) 3000 (by decide)
  rw [hresult.2] at hlast
  cases hlast

end ZelerPlatform.Availability
