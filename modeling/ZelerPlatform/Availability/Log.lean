import ZelerPlatform.Library.Collection
import ZelerPlatform.Library.Mongo.Value
import ZelerPlatform.Library.Program
import ZelerPlatform.Library.Timeline

/-!
# The availability log

An append-only log of when publications start and stop being available. A publication with
variations keeps one series for each of them, otherwise it keeps one of its own. A row is
written only when a series has none yet or its availability changed.

A call finds the newest row of a series and then inserts its own, or nothing; between the
two, other calls may insert theirs. Instants are in microseconds, those of the rows whole
milliseconds.
-/

namespace ZelerPlatform.Availability

open Mongo.Value (floorMs)
open Transition

/-- What the rows of one log line have in common. -/
structure Series where
  sellerId : String
  itemId : String
  variationId : Option String
  deriving DecidableEq, Repr

/-- A variation with its identity, its SKU unless that is ambiguous, and its stock, if it
has one. -/
structure Variation where
  identity : Option String
  sku : Option String
  availableQuantity : Option Nat

/-- A publication as the log reads it: texts trimmed, each identified variation once. -/
structure Item where
  itemId : String
  status : String
  sku : Option String
  availableQuantity : Option Nat
  variations : List Variation
  distinct : (variations.filterMap (·.identity)).Nodup

structure SeriesObservation where
  variationId : Option String
  sku : Option String
  availableQuantity : Nat

def namedObservation (variation : Variation) : Option SeriesObservation := do
  let identity ← variation.identity
  let quantity ← variation.availableQuantity
  pure ⟨some identity, variation.sku, quantity⟩

def Item.seriesObservations (item : Item) : List SeriesObservation :=
  if item.variations.any (·.identity.isSome) then item.variations.filterMap namedObservation
  else item.availableQuantity.toList.map fun quantity => ⟨none, item.sku, quantity⟩

abbrev RowId := String × String × String × ℤ

def rowId (series : Series) (observedAt : ℤ) : RowId :=
  (series.sellerId, series.itemId, series.variationId.getD "-", observedAt)

structure Row where
  id : RowId
  series : Series
  sku : Option String
  available : Bool
  status : String
  availableQuantity : Nat
  observedAt : ℤ
  source : String
  schemaVersion : Nat
  deriving DecidableEq

abbrev Log := Collection Row.id

/-- The log, and the observations that found it in their own state and left no row; nothing
reads the latter. -/
structure State where
  log : Log
  settled : List (Series × ℤ × Bool)

inductive Op
  | find (series : Series)
  | insert (row : Row)

/-- One call of `record_availability_observation`. -/
structure Call where
  sellerId : String
  item : Item
  observedAt : ℤ
  source : String

namespace Call

variable (call : Call)

/-- The instant of the rows of a call. -/
def instant : ℤ := floorMs call.observedAt

def series (observation : SeriesObservation) : Series :=
  ⟨call.sellerId, call.item.itemId, observation.variationId⟩

def available (observation : SeriesObservation) : Bool :=
  call.item.status == "active" && 0 < observation.availableQuantity

def row (observation : SeriesObservation) : Row where
  id := rowId (call.series observation) call.instant
  series := call.series observation
  sku := observation.sku
  available := call.available observation
  status := call.item.status
  availableQuantity := observation.availableQuantity
  observedAt := call.instant
  source := call.source
  schemaVersion := 1

end Call

/-- The newest row of a series. -/
def latest (log : Log) (series : Series) : Option Row :=
  (log.find fun row => row.series = series).argmax (·.observedAt)

/-- A row is wanted unless the log is as new as the observation or in the same state. -/
def wantsRow (latest : Option Row) (observedAt : ℤ) (available : Bool) : Bool :=
  match latest with
  | none => true
  | some row => row.observedAt < observedAt && row.available != available

/-- The log is older than the observation and in the same state. -/
def settles (latest : Option Row) (observedAt : ℤ) (available : Bool) : Bool :=
  latest.any fun row => row.observedAt < observedAt && row.available == available

/-- One series of a call. -/
def recordSeries (call : Call) (observation : SeriesObservation) : Program Op State Nat := do
  let series := call.series observation
  let available := call.available observation
  let wanted ← Program.act (.find series) fun s =>
    let latest := latest s.log series
    (wantsRow latest call.instant available,
      if settles latest call.instant available then
        { s with settled := (series, call.instant, available) :: s.settled }
      else s)
  if wanted then
    Program.act (.insert (call.row observation)) fun s =>
      match s.log.insert (call.row observation) with
      | some log => (1, { s with log })
      | none => (0, s)
  else pure 0

def recordAll (call : Call) : List SeriesObservation → Program Op State Nat
  | [] => pure 0
  | observation :: rest => do
      let written ← recordSeries call observation
      let more ← recordAll call rest
      pure (written + more)

/-- The observations a call makes: none for an item without an id or a status. -/
def Call.observations (call : Call) : List SeriesObservation :=
  if call.item.itemId = "" ∨ call.item.status = "" then [] else call.item.seriesObservations

def recordAvailabilityObservation (call : Call) : Program Op State Nat :=
  recordAll call call.observations

/-- One observation of a publication without variations. -/
def Call.ofQuantity (observedAt : ℤ) (quantity : Nat) : Call where
  sellerId := "82"
  item := ⟨"MLC1", "active", some "A-1", some quantity, [], List.nodup_nil⟩
  observedAt := observedAt
  source := "sheets_event_persistence"

/-! ### What a call observes -/

/-- The availability of a series that a call observes. -/
def Call.observes (call : Call) (series : Series) : Option Bool :=
  (call.observations.find? fun observation => call.series observation = series).map call.available

variable {call : Call} {series : Series} {observation other : SeriesObservation}

/-- Within a call no two observations are of one variation, and none mixes variations with
the publication itself. -/
theorem variationIds_nodup :
    (call.observations.map fun observation => observation.variationId.getD "-").Nodup := by
  unfold Call.observations Item.seriesObservations
  split
  · simp
  · split
    · have hsub : ((call.item.variations.filterMap namedObservation).map
          fun observation => observation.variationId.getD "-").Sublist
          (call.item.variations.filterMap (·.identity)) := by
        generalize call.item.variations = variations
        induction variations with
        | nil => exact List.Sublist.slnil
        | cons variation rest ih =>
            obtain ⟨identity, sku, quantity⟩ := variation
            cases identity with
            | none =>
                have hnone : namedObservation ⟨none, sku, quantity⟩ = none := rfl
                simpa [List.filterMap_cons, hnone] using ih
            | some identity =>
                cases quantity with
                | none =>
                    have hnone : namedObservation ⟨some identity, sku, none⟩ = none := rfl
                    simpa [List.filterMap_cons, hnone] using ih.cons identity
                | some quantity =>
                    have hsome : namedObservation ⟨some identity, sku, some quantity⟩
                        = some ⟨some identity, sku, quantity⟩ := rfl
                    simpa [List.filterMap_cons, hsome] using ih
      exact call.item.distinct.sublist hsub
    · cases call.item.availableQuantity <;> simp

theorem observation_eq (h : observation ∈ call.observations) (h' : other ∈ call.observations)
    (heq : observation.variationId.getD "-" = other.variationId.getD "-") : observation = other :=
  List.inj_on_of_nodup_map variationIds_nodup h h' heq

/-- Rows of one call with one id are the same row. -/
theorem row_eq_of_id (h : observation ∈ call.observations) (h' : other ∈ call.observations)
    (heq : (call.row observation).id = (call.row other).id) : observation = other := by
  refine observation_eq h h' ?_
  simp only [Call.row, rowId, Prod.mk.injEq] at heq
  exact heq.2.2.1

theorem observes_of_mem (h : observation ∈ call.observations) :
    call.observes (call.series observation) = some (call.available observation) := by
  unfold Call.observes
  cases hfind : call.observations.find? fun o => call.series o = call.series observation with
  | none => simpa using List.find?_eq_none.mp hfind observation h
  | some found =>
      have hmem := List.mem_of_find?_eq_some hfind
      have hseries : call.series found = call.series observation := by
        simpa using List.find?_some hfind
      have hvariation : found.variationId = observation.variationId :=
        congrArg Series.variationId hseries
      rw [observation_eq hmem h (by rw [hvariation])]
      rfl

theorem mem_of_observes {available : Bool} (h : call.observes series = some available) :
    ∃ observation ∈ call.observations,
      call.series observation = series ∧ call.available observation = available := by
  obtain ⟨observation, hfind, havailable⟩ := Option.map_eq_some_iff.mp h
  exact ⟨observation, List.mem_of_find?_eq_some hfind, by simpa using List.find?_some hfind,
    havailable⟩

theorem observes_none (h : call.observes series = none) :
    ∀ observation ∈ call.observations, call.series observation ≠ series := by
  intro observation hmem heq
  rw [← heq, observes_of_mem hmem] at h
  cases h

/-! ### The newest row -/

variable {log : Log} {row : Row}

theorem latest_some (h : latest log series = some row) :
    row ∈ log.docs ∧ row.series = series ∧
      ∀ other ∈ log.docs, other.series = series → other.observedAt ≤ row.observedAt := by
  have hmem := Collection.find_mem.mp (List.argmax_mem h)
  refine ⟨hmem.1, by simpa using hmem.2, fun other hother hseries => ?_⟩
  exact List.le_of_mem_argmax (Collection.find_mem.mpr ⟨hother, by simpa using hseries⟩) h

theorem latest_none (h : latest log series = none) : ∀ row ∈ log.docs, row.series ≠ series := by
  intro row hmem hseries
  have hfind : log.find (fun row => row.series = series) = [] := List.argmax_eq_none.mp h
  have hfound : row ∈ log.find (fun row => row.series = series) :=
    Collection.find_mem.mpr ⟨hmem, by simpa using hseries⟩
  rw [hfind] at hfound
  cases hfound

/-- The entries of a series in the log. -/
def entries (log : Log) (series : Series) : List (ℤ × Bool) :=
  (log.docs.filter fun row => row.series = series).map fun row => (row.observedAt, row.available)

theorem mem_entries {p : ℤ × Bool} :
    p ∈ entries log series ↔
      ∃ row ∈ log.docs, row.series = series ∧ (row.observedAt, row.available) = p := by
  simp only [entries, List.mem_map, List.mem_filter, decide_eq_true_eq]
  constructor
  · rintro ⟨row, ⟨hmem, hseries⟩, hp⟩
    exact ⟨row, hmem, hseries, hp⟩
  · rintro ⟨row, hmem, hseries, hp⟩
    exact ⟨row, ⟨hmem, hseries⟩, hp⟩

/-- Rows carry the id of their series and instant. -/
def Identified (log : Log) : Prop :=
  ∀ row ∈ log.docs, row.id = rowId row.series row.observedAt

theorem Identified.distinct (h : Identified log) : Timeline.Distinct (entries log series) := by
  have hnodup : (log.docs.filter fun row => row.series = series).Nodup :=
    log.nodup.of_map.filter _
  unfold Timeline.Distinct entries
  rw [List.map_map]
  refine List.Nodup.map_on ?_ hnodup
  intro row hrow other hother heq
  simp only [List.mem_filter, decide_eq_true_eq] at hrow hother
  refine log.eq_of_key hrow.1 hother.1 ?_
  have hat : row.observedAt = other.observedAt := heq
  show row.id = other.id
  rw [h row hrow.1, h other hother.1, hrow.2, hother.2, hat]

theorem entries_insert {log' : Log} (h : log.insert row = some log') :
    entries log' series = if row.series = series
      then entries log series ++ [(row.observedAt, row.available)] else entries log series := by
  unfold entries
  rw [Collection.insert_docs h, List.filter_append]
  by_cases hseries : row.series = series <;> simp [hseries]

end ZelerPlatform.Availability
