import Mathlib.Data.List.Sort
import ZelerPlatform.Library.Fallible
import ZelerPlatform.Library.Mongo.Document

/-!
# Segments of an imported history

A history is a list of entries in any order, each with the instant of a change and the state
that begins to hold then. Within an interval it is read as segments, one for each stretch
between two changes: `coveredSegments` goes over the entries in the order of their instants
and keeps the state in force and where it began.

Instants are in microseconds. `Texts` is what Python's library makes of texts and values.
-/

namespace ZelerPlatform.Imports

open Fallible Mongo

/-! ### Values -/

/-- `str` of a value that is neither a string nor an integer, `datetime.fromisoformat` as the reading of the clock
and the offset of the zone if there is one, and the two case mappings. -/
structure Texts where
  str : Value → String
  fromisoformat : String → Option (Int × Option Int)
  casefold : String → String
  upper : String → String

/-- `OverflowError`, of a conversion that leaves the years from 1 to 9999. -/
inductive ImportError
  | overflow
  deriving DecidableEq, Repr

def datetimeMin : Int := -62135596800000000

def datetimeMax : Int := 253402300799999999

/-- A list of values joined by `or`. -/
def orElse : List Value → Value
  | [] => .null
  | [value] => value
  | value :: rest => if value.truthy then value else orElse rest

section

variable (texts : Texts)

/-- `str(value)`. -/
def pyStr : Value → String
  | .string s => s
  | .int n | .long n => toString n
  | value => texts.str value

/-- `_str`. -/
def strOf : Value → Option String
  | .null => none
  | value =>
      let normalized := pyStrip (pyStr texts value)
      if normalized = "" then none else some normalized

/-- `_utc`. -/
def utc (clock : Int) : Option Int → Except ImportError Int
  | none => .ok clock
  | some offset =>
      if offset = 0 ∨ datetimeMin ≤ clock - offset ∧ clock - offset ≤ datetimeMax then
        .ok (clock - offset)
      else .error .overflow

/-- `value.replace("Z", "+00:00")`. -/
def zuluReplaced (text : String) : String :=
  .ofList (text.toList.flatMap fun c => if c = 'Z' then "+00:00".toList else [c])

/-- `_maybe_datetime`; BSON has no dates without a time. -/
def maybeDatetime : Value → Except ImportError (Option Int)
  | .date instant => .ok (some instant)
  | .string text =>
      match texts.fromisoformat (zuluReplaced text) with
      | none => .ok none
      | some (clock, offset) => (utc clock offset).map some
  | _ => .ok none

/-- `_first_datetime`. -/
def firstDatetime : List Value → Except ImportError (Option Int)
  | [] => .ok none
  | value :: rest => do
      match ← maybeDatetime texts value with
      | some instant => return some instant
      | none => firstDatetime rest

/-- `_BuildResult`. -/
structure BuildResult (α : Type) where
  documents : List α
  sourceInventoryCount : Nat
  coverageComplete : Bool

/-- Python's library on ASCII text in lower case and on SKUs in upper case, with no dates. -/
def plainTexts : Texts where
  str _ := ""
  fromisoformat _ := none
  casefold text := text
  upper text := text

/-! ### Segments -/

/-- `_ReadInterval`. -/
structure ReadInterval where
  start : Int
  stop : Int
  proper : start < stop

/-- `_HistorySegment`. -/
structure Segment where
  state : String
  start : Int
  stop : Int
  deriving DecidableEq, Repr

/-- The instant and the state of an entry that has both. -/
def datedState (entry : Doc) : Except ImportError (Option (Int × String)) := do
  match ← firstDatetime texts [entry.getD "changed_at", entry.getD "timestamp"] with
  | none => return none
  | some changedAt =>
      return (strOf texts (orElse [entry.getD "status2", entry.getD "status",
        entry.getD "new_value"])).map (changedAt, ·)

/-- `sorted` with the instants as keys, which keeps the order of equal ones. -/
def inOrder (entries : List (Int × String)) : List (Int × String) :=
  entries.insertionSort fun a b => a.1 ≤ b.1

/-- What the loop leaves to be done after its last entry. -/
def lastSegment (interval : ReadInterval) (current : Option String) (start : Int) :
    Option (List Segment) :=
  current.map fun state => if start < interval.stop then [⟨state, start, interval.stop⟩] else []

/-- The loop, with the state in force and where it began. -/
def scan (interval : ReadInterval) : Option String → Int → List (Int × String) →
    Option (List Segment)
  | current, start, [] => lastSegment interval current start
  | current, start, (changedAt, state) :: rest =>
      if changedAt ≤ interval.start then scan interval (some state) start rest
      else if interval.stop ≤ changedAt then lastSegment interval current start
      else match current with
        | none => none
        | some prior =>
            (scan interval (some state) changedAt rest).map fun segments =>
              if start < changedAt then ⟨prior, start, changedAt⟩ :: segments else segments

/-- `_covered_segments`. -/
def coveredSegments (history : List Doc) (interval : ReadInterval) :
    Except ImportError (Option (List Segment)) := do
  let dated ← history.mapM (datedState texts)
  return scan interval none interval.start (inOrder (dated.filterMap id))

/-- `_history_entries`. -/
def historyEntries : Value → List Doc
  | .array entries => entries.filterMap Value.document?
  | _ => []

end

/-! ### The history as a step function -/

/-- The state of the last of the entries, in their order, dated at or before an instant. -/
def stateAt (entries : List (Int × String)) (t : Int) : Option String :=
  ((entries.filter fun entry => entry.1 ≤ t).getLast?).map Prod.snd

/-- Segments without gaps from `start` to `stop`, none of them empty. -/
def Tiled : Int → Int → List Segment → Prop
  | start, stop, [] => start = stop
  | start, stop, segment :: rest =>
      segment.start = start ∧ segment.start < segment.stop ∧ Tiled segment.stop stop rest

/-- Every instant from `start` on lies in segments of the state in force then. -/
def Carries (inForce : Int → Option String) (start : Int) (segments : List Segment) : Prop :=
  ∀ t, start ≤ t → ∀ segment ∈ segments, segment.start ≤ t → t < segment.stop →
    inForce t = some segment.state

theorem Tiled.le {start stop : Int} {segments : List Segment} (h : Tiled start stop segments) :
    start ≤ stop := by
  induction segments generalizing start with
  | nil => exact le_of_eq h
  | cons first rest ih =>
      obtain ⟨rfl, hproper, hrest⟩ := h
      exact hproper.le.trans (ih hrest)

theorem Tiled.bounds {start stop : Int} {segments : List Segment} (h : Tiled start stop segments)
    {segment : Segment} (mem : segment ∈ segments) :
    start ≤ segment.start ∧ segment.start < segment.stop ∧ segment.stop ≤ stop := by
  induction segments generalizing start with
  | nil => cases mem
  | cons first rest ih =>
      obtain ⟨hstart, hproper, hrest⟩ := h
      cases mem with
      | head => exact ⟨hstart.ge, hproper, hrest.le⟩
      | tail _ mem =>
          obtain ⟨h₁, h₂, h₃⟩ := ih hrest mem
          exact ⟨by omega, h₂, h₃⟩

theorem Tiled.ne_nil {start stop : Int} {segments : List Segment}
    (h : Tiled start stop segments) (proper : start < stop) : segments ≠ [] := by
  rintro rfl
  exact proper.ne h

/-- Every instant between the bounds lies in one of the segments. -/
theorem Tiled.covers {start stop t : Int} {segments : List Segment}
    (h : Tiled start stop segments) (hstart : start ≤ t) (hstop : t < stop) :
    ∃ segment ∈ segments, segment.start ≤ t ∧ t < segment.stop := by
  induction segments generalizing start with
  | nil =>
      have : start = stop := h
      omega
  | cons first rest ih =>
      obtain ⟨rfl, -, hrest⟩ := h
      by_cases ht : t < first.stop
      · exact ⟨first, List.mem_cons_self, hstart, ht⟩
      · obtain ⟨segment, mem, hin⟩ := ih hrest (not_lt.mp ht)
        exact ⟨segment, List.mem_cons_of_mem first mem, hin⟩

/-- The lengths of the segments add up to that of the whole. -/
theorem Tiled.sum {start stop : Int} {segments : List Segment} (h : Tiled start stop segments) :
    (segments.map fun segment => segment.stop - segment.start).sum = stop - start := by
  induction segments generalizing start with
  | nil =>
      have : start = stop := h
      simp [this]
  | cons first rest ih =>
      obtain ⟨rfl, -, hrest⟩ := h
      rw [List.map_cons, List.sum_cons, ih hrest]
      omega

theorem stateAt_cons {entries : List (Int × String)} {entry : Int × String} {t : Int} :
    stateAt (entry :: entries) t =
      if entry.1 ≤ t then (stateAt entries t).or (some entry.2) else stateAt entries t := by
  unfold stateAt
  by_cases h : entry.1 ≤ t
  · rw [List.filter_cons_of_pos (by simpa using h), if_pos h, List.getLast?_cons]
    cases (entries.filter fun entry => decide (entry.1 ≤ t)).getLast? <;> rfl
  · rw [List.filter_cons_of_neg (by simpa using h), if_neg h]

theorem stateAt_none {entries : List (Int × String)} {t : Int} :
    stateAt entries t = none ↔ ∀ entry ∈ entries, t < entry.1 := by
  simp [stateAt]

variable {interval : ReadInterval} {entries : List (Int × String)} {current : Option String}
variable {start : Int}

theorem scan_cons {changedAt : Int} {state : String} :
    scan interval current start ((changedAt, state) :: entries) =
      if changedAt ≤ interval.start then scan interval (some state) start entries
      else if interval.stop ≤ changedAt then lastSegment interval current start
      else match current with
        | none => none
        | some prior =>
            (scan interval (some state) changedAt entries).map fun segments =>
              if start < changedAt then ⟨prior, start, changedAt⟩ :: segments else segments := by
  rw [scan.eq_def]

/-- What is read off a state in force from `start` on. -/
def Reads (interval : ReadInterval) (current : Option String) (start : Int)
    (entries : List (Int × String)) (result : Option (List Segment)) : Prop :=
  (result = none ↔ current = none ∧ ∀ entry ∈ entries, interval.start < entry.1) ∧
    ∀ segments, result = some segments → Tiled start interval.stop segments ∧
      Carries (fun t => (stateAt entries t).or current) start segments

theorem reads_last (hstop : start < interval.stop)
    (beyond : ∀ entry ∈ entries, interval.stop ≤ entry.1) :
    Reads interval current start entries (lastSegment interval current start) := by
  cases current with
  | none =>
      refine ⟨?_, by simp [lastSegment]⟩
      simp only [lastSegment, Option.map_none, true_and, true_iff]
      exact fun entry mem => interval.proper.trans_le (beyond entry mem)
  | some state =>
      refine ⟨by simp [lastSegment], ?_⟩
      intro segments h
      obtain rfl : [⟨state, start, interval.stop⟩] = segments := by
        simpa [lastSegment, hstop] using h
      refine ⟨⟨rfl, hstop, rfl⟩, ?_⟩
      intro t _ segment mem _ ht
      obtain rfl := List.mem_singleton.mp mem
      have hnone : stateAt entries t = none :=
        stateAt_none.mpr fun entry mem => lt_of_lt_of_le ht (beyond entry mem)
      simp [hnone]

/-- A change inside the interval ends the segment of the state in force. -/
theorem reads_change {changedAt : Int} {prior state : String} {result : Option (List Segment)}
    (inside : interval.start < changedAt) (hstart : start ≤ changedAt)
    (later : ∀ entry ∈ entries, changedAt ≤ entry.1)
    (h : Reads interval (some state) changedAt entries result) :
    Reads interval (some prior) start ((changedAt, state) :: entries)
      (result.map fun segments =>
        if start < changedAt then ⟨prior, start, changedAt⟩ :: segments else segments) := by
  have hafter (t : Int) (ht : changedAt ≤ t) :
      (stateAt ((changedAt, state) :: entries) t).or (some prior) =
        (stateAt entries t).or (some state) := by
    rw [stateAt_cons, if_pos ht]
    cases stateAt entries t <;> rfl
  obtain ⟨hnone, hsome⟩ := h
  refine ⟨by simp [hnone], ?_⟩
  intro segments hsegments
  obtain ⟨rest, hrest, rfl⟩ := Option.map_eq_some_iff.mp hsegments
  obtain ⟨htiled, hcarries⟩ := hsome rest hrest
  have hlast : ∀ t segment, segment ∈ rest → segment.start ≤ t → t < segment.stop →
      (stateAt ((changedAt, state) :: entries) t).or (some prior) = some segment.state := by
    intro t segment mem hfrom hto
    have ht : changedAt ≤ t := (htiled.bounds mem).1.trans hfrom
    rw [hafter t ht]
    exact hcarries t ht segment mem hfrom hto
  split
  · next hproper =>
      refine ⟨⟨rfl, hproper, htiled⟩, ?_⟩
      intro t _ segment mem hfrom hto
      cases mem with
      | head =>
          have hto : t < changedAt := hto
          have hnone : stateAt ((changedAt, state) :: entries) t = none := by
            refine stateAt_none.mpr fun entry mem => ?_
            cases mem with
            | head => exact hto
            | tail _ mem => exact hto.trans_le (later entry mem)
          simp [hnone]
      | tail _ mem => exact hlast t segment mem hfrom hto
  · next hsame =>
      obtain rfl : start = changedAt := le_antisymm hstart (not_lt.mp hsame)
      exact ⟨htiled, fun t _ segment mem hfrom hto => hlast t segment mem hfrom hto⟩

/-- What one pass over the sorted entries gives, from any point of it on: `start` is where
the state in force began, and no entry inside the interval lies before it. -/
theorem reads_scan (sorted : entries.Pairwise fun a b => a.1 ≤ b.1)
    (hstart : interval.start ≤ start) (hstop : start < interval.stop)
    (later : ∀ entry ∈ entries, start ≤ entry.1 ∨ start = interval.start) :
    Reads interval current start entries (scan interval current start entries) := by
  induction entries generalizing current start with
  | nil => exact reads_last hstop (by simp)
  | cons entry rest ih =>
      obtain ⟨changedAt, state⟩ := entry
      obtain ⟨hfirst, hrest⟩ := List.pairwise_cons.mp sorted
      unfold scan
      by_cases hbefore : changedAt ≤ interval.start
      · -- the entry is in force before the interval begins
        rw [if_pos hbefore]
        have hbegin : start = interval.start := by
          have := later (changedAt, state) List.mem_cons_self
          omega
        have hreads : Reads interval (some state) start rest
            (scan interval (some state) start rest) :=
          ih hrest hstart hstop fun _ _ => .inr hbegin
        obtain ⟨hnone, hsome⟩ := hreads
        refine ⟨by simp [hnone, hbefore], fun segments hsegments => ?_⟩
        obtain ⟨htiled, hcarries⟩ := hsome segments hsegments
        refine ⟨htiled, fun t ht segment mem hfrom hto => ?_⟩
        have hafter := hcarries t ht segment mem hfrom hto
        show (stateAt ((changedAt, state) :: rest) t).or current = some segment.state
        rw [stateAt_cons, if_pos (hbefore.trans (hstart.trans ht))]
        cases hstate : stateAt rest t with
        | none => simpa [hstate] using hafter
        | some _ => simpa [hstate] using hafter
      · rw [if_neg hbefore]
        rw [not_le] at hbefore
        by_cases hbeyond : interval.stop ≤ changedAt
        · rw [if_pos hbeyond]
          refine reads_last hstop fun entry mem => ?_
          cases mem with
          | head => exact hbeyond
          | tail _ mem => exact hbeyond.trans (hfirst entry mem)
        · rw [if_neg hbeyond]
          rw [not_le] at hbeyond
          cases current with
          | none =>
              refine ⟨?_, by simp⟩
              simp only [true_and, true_iff]
              intro entry mem
              cases mem with
              | head => exact hbefore
              | tail _ mem => exact hbefore.trans_le (hfirst entry mem)
          | some prior =>
              have hle : start ≤ changedAt := by
                have := later (changedAt, state) List.mem_cons_self
                omega
              exact reads_change hbefore hle hfirst
                (ih hrest hbefore.le hbeyond fun entry mem => .inl (hfirst entry mem))

/-! ### The entries that count -/

section

variable (texts : Texts)

/-- The instant a value names, whatever its year. -/
def instantOf : Value → Option Int
  | .date instant => some instant
  | .string text =>
      (texts.fromisoformat (zuluReplaced text)).map fun reading =>
        reading.1 - reading.2.getD 0
  | _ => none

/-- A text with an offset from UTC lies within the years from 1 to 9999 in UTC too. -/
def Convertible (value : Value) : Prop :=
  ∀ text clock offset, value = .string text →
    texts.fromisoformat (zuluReplaced text) = some (clock, some offset) → offset ≠ 0 →
    datetimeMin ≤ clock - offset ∧ clock - offset ≤ datetimeMax

/-- Every text that is looked at for the instant of an entry is convertible. -/
def Readable (entry : Doc) : Prop :=
  Convertible texts (entry.getD "changed_at") ∧
    (instantOf texts (entry.getD "changed_at") = none →
      Convertible texts (entry.getD "timestamp"))

/-- The instant and the state of an entry, on an unbounded calendar. -/
def dating (entry : Doc) : Option (Int × String) :=
  ((instantOf texts (entry.getD "changed_at")).or
    (instantOf texts (entry.getD "timestamp"))).bind fun changedAt =>
      (strOf texts (orElse [entry.getD "status2", entry.getD "status",
        entry.getD "new_value"])).map (changedAt, ·)

/-- The dated entries with a state, in the order in which they are read. -/
def timeline (history : List Doc) : List (Int × String) :=
  inOrder (history.filterMap (dating texts))

variable {texts}

theorem utc_ok {clock : Int} {offset : Option Int}
    (h : ∀ o, offset = some o → o ≠ 0 → datetimeMin ≤ clock - o ∧ clock - o ≤ datetimeMax) :
    utc clock offset = .ok (clock - offset.getD 0) := by
  cases offset with
  | none => simp [utc]
  | some o =>
      have hrange : o = 0 ∨ datetimeMin ≤ clock - o ∧ clock - o ≤ datetimeMax :=
        or_iff_not_imp_left.mpr (h o rfl)
      exact if_pos hrange

theorem maybeDatetime_ok {value : Value} (h : Convertible texts value) :
    maybeDatetime texts value = .ok (instantOf texts value) := by
  cases value with
  | string text =>
      show (match texts.fromisoformat (zuluReplaced text) with
        | none => .ok none
        | some (clock, offset) => (utc clock offset).map some) = Except.ok (instantOf texts _)
      unfold instantOf
      cases hread : texts.fromisoformat (zuluReplaced text) with
      | none => simp [hread]
      | some reading =>
          obtain ⟨clock, offset⟩ := reading
          have hutc : utc clock offset = .ok (clock - offset.getD 0) := by
            refine utc_ok fun o ho hne => h text clock o rfl ?_ hne
            rw [hread, ho]
          simp [hread, hutc, Except.map]
  | _ => rfl

theorem maybeDatetime_error {value : Value} (h : ¬ Convertible texts value) :
    maybeDatetime texts value = .error .overflow := by
  unfold Convertible at h
  push_neg at h
  obtain ⟨text, clock, offset, rfl, hread, hne, hrange⟩ := h
  have hutc : utc clock (some offset) = .error .overflow :=
    if_neg fun h => h.elim hne fun h => absurd h.2 (not_le.mpr (hrange h.1))
  simp only [maybeDatetime, hread, hutc]
  rfl

theorem datedState_ok {entry : Doc} (h : Readable texts entry) :
    datedState texts entry = .ok (dating texts entry) := by
  obtain ⟨hchanged, htimestamp⟩ := h
  simp only [datedState, firstDatetime, maybeDatetime_ok hchanged, dating]
  cases hinstant : instantOf texts (entry.getD "changed_at") with
  | some instant => rfl
  | none =>
      rw [maybeDatetime_ok (htimestamp hinstant)]
      cases instantOf texts (entry.getD "timestamp") <;> rfl

theorem datedState_error {entry : Doc} (h : ¬ Readable texts entry) :
    datedState texts entry = .error .overflow := by
  by_cases hchanged : Convertible texts (entry.getD "changed_at")
  · have hrest : ¬ (instantOf texts (entry.getD "changed_at") = none →
        Convertible texts (entry.getD "timestamp")) := fun h' => h ⟨hchanged, h'⟩
    rw [Classical.not_imp] at hrest
    simp only [datedState, firstDatetime, maybeDatetime_ok hchanged, hrest.1,
      maybeDatetime_error hrest.2]
    rfl
  · simp only [datedState, firstDatetime, maybeDatetime_error hchanged]
    rfl

variable {history : List Doc}

theorem coveredSegments_ok (h : ∀ entry ∈ history, Readable texts entry) :
    coveredSegments texts history interval =
      .ok (scan interval none interval.start (timeline texts history)) := by
  unfold coveredSegments
  rw [mapM_eq_ok fun entry mem => datedState_ok (h entry mem)]
  show Except.ok (scan interval none interval.start _) = _
  simp [timeline, List.filterMap_map]

theorem coveredSegments_raises {entry : Doc} (mem : entry ∈ history)
    (h : ¬ Readable texts entry) {result : Option (List Segment)} :
    coveredSegments texts history interval ≠ .ok result := by
  intro hok
  obtain ⟨dated, hdated, -⟩ := bind_ok hok
  obtain ⟨reading, hreading, -⟩ := mapM_mem hdated mem
  rw [datedState_error h] at hreading
  cases hreading

theorem inOrder_sorted (entries : List (Int × String)) :
    (inOrder entries).Pairwise fun a b => a.1 ≤ b.1 :=
  List.pairwise_insertionSort _ _

theorem mem_timeline {entry : Int × String} :
    entry ∈ timeline texts history ↔ entry ∈ history.filterMap (dating texts) :=
  (List.perm_insertionSort _ _).mem_iff

/-- The segments of a history that reaches back to the start are those of its step function;
a history that does not has none. -/
def Reproduces (texts : Texts) (history : List Doc) (interval : ReadInterval) : Prop :=
  ∃ result, coveredSegments texts history interval = .ok result ∧
    (result = none ↔ ∀ entry ∈ history.filterMap (dating texts), interval.start < entry.1) ∧
    ∀ segments, result = some segments →
      segments ≠ [] ∧ Tiled interval.start interval.stop segments ∧
      (∀ t, interval.start ≤ t → t < interval.stop →
        ∃ segment ∈ segments, segment.start ≤ t ∧ t < segment.stop) ∧
      (∀ segment ∈ segments, ∀ t, segment.start ≤ t → t < segment.stop →
        stateAt (timeline texts history) t = some segment.state) ∧
      (segments.map fun segment => segment.stop - segment.start).sum =
        interval.stop - interval.start

theorem reads_timeline :
    Reads interval none interval.start (timeline texts history)
      (scan interval none interval.start (timeline texts history)) :=
  reads_scan (inOrder_sorted _) le_rfl interval.proper fun _ _ => .inr rfl

theorem reproduces_of (h : ∀ entry ∈ history, Readable texts entry) :
    Reproduces texts history interval := by
  have hreads : Reads interval none interval.start (timeline texts history)
      (scan interval none interval.start (timeline texts history)) := reads_timeline
  obtain ⟨hnone, hsome⟩ := hreads
  refine ⟨_, coveredSegments_ok h, ?_, ?_⟩
  · rw [hnone]
    simp only [true_and, mem_timeline]
  · intro segments hsegments
    obtain ⟨htiled, hcarries⟩ := hsome segments hsegments
    refine ⟨htiled.ne_nil interval.proper, htiled, fun t => htiled.covers, ?_, htiled.sum⟩
    intro segment mem t hfrom hto
    have hstate := hcarries t ((htiled.bounds mem).1.trans hfrom) segment mem hfrom hto
    simpa using hstate

/-- `_covered_segments` gives the step function of the history exactly if no text it reads an
instant from leaves the calendar in UTC: an `OverflowError` is no `ValueError`. -/
theorem coveredSegments_reproduces (texts : Texts) (history : List Doc)
    (interval : ReadInterval) :
    Reproduces texts history interval ↔ ∀ entry ∈ history, Readable texts entry := by
  constructor
  · rintro ⟨result, hresult, -⟩ entry mem
    by_contra h
    exact coveredSegments_raises mem h hresult
  · exact reproduces_of

/-- Midnight of the first day, an hour east of Greenwich. -/
def firstHour : String := "0001-01-01T00:00:00+01:00"

/-- What Python's library makes of that text; no value is printed and no case mapped. -/
def firstHourTexts : Texts where
  str _ := ""
  fromisoformat text := if text = firstHour then some (datetimeMin, some 3600000000) else none
  casefold text := text
  upper text := text

/-- An entry dated in the first hour takes the whole history with it. -/
theorem coveredSegments_raises_in_first_hour :
    ¬ Reproduces firstHourTexts
      [[("changed_at", .string firstHour), ("status2", .string "active")]]
      ⟨0, 3600000000, by decide⟩ := by
  rintro ⟨result, hresult, -⟩
  have hraise : coveredSegments firstHourTexts
      [[("changed_at", .string firstHour), ("status2", .string "active")]]
      ⟨0, 3600000000, by decide⟩ = .error .overflow := by decide
  rw [hraise] at hresult
  cases hresult

end

end ZelerPlatform.Imports
