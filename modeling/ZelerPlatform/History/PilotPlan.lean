import Mathlib.Data.Prod.Lex
import ZelerPlatform.History.Months
import ZelerPlatform.Library.Joined
import ZelerPlatform.Library.Sorted
import ZelerPlatform.Library.Tiling

/-!
# Chunks of the pilot's history

The months before a cutoff are cut at its day of the month, or at the last day of a shorter
month. What is left before the cutoff, when its day was too late for the first month or its
time has a fraction of a second, is a chunk of its own. Work is resumed with the newest chunk,
then from the oldest one on.
-/

namespace ZelerPlatform.History.Pilot

open Onboarding (monthLength usPerDay calendarHistoryStart)
open Recovery (dayOf)
open Sorted

/-! ### Datetimes -/

/-- A UTC datetime, its time of day in microseconds. -/
structure DateTime where
  year : Int
  month : Int
  day : Int
  timeOfDay : Int
  year_mem : 1 ≤ year ∧ year ≤ 9999
  month_mem : 1 ≤ month ∧ month ≤ 12
  day_mem : 1 ≤ day ∧ day ≤ monthLength year month
  time_mem : 0 ≤ timeOfDay ∧ timeOfDay < usPerDay
  deriving DecidableEq

namespace DateTime

variable (t : DateTime)

def instant : Int := dayOf (t.year, t.month, t.day) * usPerDay + t.timeOfDay

/-- The number of the month. -/
def index : Int := 12 * t.year + (t.month - 1)

/-- The time of day up to the second. -/
def seconds : Int := t.timeOfDay - t.timeOfDay % 1000000

theorem instant_eq : t.instant = (monthStart t.index + (t.day - 1)) * usPerDay + t.timeOfDay := by
  rw [instant, dayOf_eq t.month_mem, index]

theorem civil_instant : Recovery.civil (t.instant / usPerDay) = (t.year, t.month, t.day) := by
  have hday : t.instant / usPerDay = dayOf (t.year, t.month, t.day) := by
    have := t.time_mem
    simp only [instant, usPerDay] at *
    omega
  rw [hday, civil_dayOf t.month_mem t.day_mem]

end DateTime

/-! ### Plans -/

inductive PlanError
  | value (message : String)
  deriving DecidableEq, Repr

inductive ChunkPriority
  | oldestEdge
  | recent
  | middle
  deriving DecidableEq, Repr

/-- `priority_order`. -/
def ChunkPriority.order : ChunkPriority → Nat
  | recent => 0
  | oldestEdge => 1
  | middle => 2

structure HistoryChunk where
  resource : String
  start : DateTime
  stop : DateTime
  id : String
  priority : ChunkPriority
  deriving DecidableEq

structure ResourceHistoryPlan where
  resource : String
  cutoff : DateTime
  chunks : List HistoryChunk

structure HistoryPlanner where
  cutoff : DateTime
  months : Nat
  positive : 1 ≤ months

/-- `str.lower`, and how many digits `%Y` has at least. -/
structure Formats where
  lower : String → String
  yearWidth : Nat

/-- `datetime(year, month, day, …)`, of a day of the month. -/
def datetime (year month : Int) (day timeOfDay : Int) : Except PlanError DateTime :=
  if hyear : 1 ≤ year ∧ year ≤ 9999 then
    if h : (1 ≤ month ∧ month ≤ 12) ∧ (1 ≤ day ∧ day ≤ monthLength year month) ∧
        0 ≤ timeOfDay ∧ timeOfDay < usPerDay then
      .ok ⟨year, month, day, timeOfDay, hyear, h.1, h.2.1, h.2.2⟩
    else .error (.value "day is out of range for month")
  else .error (.value s!"year {year} is out of range")

/-- `while target_month <= 0`. -/
def backwards (year month : Int) : Int × Int :=
  if month ≤ 0 then backwards (year - 1) (month + 12) else (year, month)
termination_by (1 - month).toNat
decreasing_by omega

/-- `while target_month > 12`. -/
def forwards (year month : Int) : Int × Int :=
  if 12 < month then forwards (year + 1) (month - 12) else (year, month)
termination_by month.toNat
decreasing_by omega

/-- `_subtract_calendar_months`. -/
def subtractCalendarMonths (cutoff : DateTime) (months : Nat) : Except PlanError DateTime :=
  let (year, month) := backwards cutoff.year (cutoff.month - months)
  datetime year month (min cutoff.day (monthLength year month)) cutoff.seconds

/-- `_add_calendar_months`. -/
def addCalendarMonths (anchor : DateTime) (count : Nat) : Except PlanError DateTime :=
  let (year, month) := forwards anchor.year (anchor.month + count)
  datetime year month (min anchor.day (monthLength year month)) anchor.seconds

/-- The boundaries after the one at `i` months. -/
def boundariesFrom (windowStart cutoff : DateTime) : Nat → Nat → Except PlanError (List DateTime)
  | 0, _ => .ok [cutoff]
  | count + 1, i => do
      let candidate ← addCalendarMonths windowStart (i + 1)
      if cutoff.instant ≤ candidate.instant then return [cutoff]
      return candidate :: (← boundariesFrom windowStart cutoff count (i + 1))

/-- `_calendar_month_boundaries`. -/
def calendarMonthBoundaries (windowStart cutoff : DateTime) (months : Nat) :
    Except PlanError (List DateTime) :=
  return windowStart :: (← boundariesFrom windowStart cutoff months 0)

/-- `_priority`. -/
def priority (index total : Nat) : ChunkPriority :=
  if total = 1 ∨ index + 1 = total then .recent
  else if index = 0 then .oldestEdge
  else .middle

section

variable (f : Formats)

/-- `strftime('%Y%m%d')`. -/
def Formats.date (t : DateTime) : String :=
  Recovery.padded f.yearWidth t.year ++ Recovery.padded 2 t.month ++ Recovery.padded 2 t.day

/-- `resource.strip().lower().replace(" ", "-")`. -/
def Formats.resourcePart (resource : String) : String :=
  (f.lower (Mongo.pyStrip resource)).map fun c => if c = ' ' then '-' else c

/-- `_chunk_id`. -/
def chunkId (resource : String) (start stop : DateTime) : String :=
  f.resourcePart resource ++ ":" ++ f.date start ++ ":" ++ f.date stop

/-- The chunks between boundaries, the first of which has an index. -/
def chunksFrom (resource : String) (total : Nat) :
    Nat → List (DateTime × DateTime) → List HistoryChunk
  | _, [] => []
  | index, (start, stop) :: rest =>
      ⟨resource, start, stop, chunkId f resource start stop, priority index total⟩ ::
        chunksFrom resource total (index + 1) rest

/-- `plan_for`. -/
def HistoryPlanner.planFor (planner : HistoryPlanner) (resource : String) :
    Except PlanError ResourceHistoryPlan := do
  if Mongo.pyStrip resource = "" then throw (.value "resource is required")
  let windowStart ← subtractCalendarMonths planner.cutoff planner.months
  let boundaries ← calendarMonthBoundaries windowStart planner.cutoff planner.months
  let specs := boundaries.zip boundaries.tail
  return ⟨resource, planner.cutoff, chunksFrom f resource specs.length 0 specs⟩

end

def HistoryChunk.key (chunk : HistoryChunk) : Nat ×ₗ Int :=
  toLex (chunk.priority.order, chunk.start.instant)

/-- `resume`. -/
def ResourceHistoryPlan.resume (plan : ResourceHistoryPlan) (completed : List String) :
    List HistoryChunk :=
  sortedBy HistoryChunk.key (plan.chunks.filter fun chunk => chunk.id ∉ completed)

/-! ### Shifted months -/

theorem backwards_eq {year month : Int} (h : month ≤ 12) : backwards year month =
    ((12 * year + (month - 1)) / 12, (12 * year + (month - 1)) % 12 + 1) := by
  fun_induction backwards year month with
  | case1 year month hle ih =>
      rw [ih (by omega)]
      exact Prod.ext (by simp only; omega) (by simp only; omega)
  | case2 year month hlt => exact Prod.ext (by simp only; omega) (by simp only; omega)

theorem forwards_eq {year month : Int} (h : 1 ≤ month) : forwards year month =
    ((12 * year + (month - 1)) / 12, (12 * year + (month - 1)) % 12 + 1) := by
  fun_induction forwards year month with
  | case1 year month hlt ih =>
      rw [ih (by omega)]
      exact Prod.ext (by simp only; omega) (by simp only; omega)
  | case2 year month hle => exact Prod.ext (by simp only; omega) (by simp only; omega)

/-- The datetime in another month, up to the second, on the same day or the last one. -/
structure DateTime.InMonth (anchor : DateTime) (k : Int) (t : DateTime) : Prop where
  index : t.index = k
  day : t.day = min anchor.day (monthLength t.year t.month)
  timeOfDay : t.timeOfDay = anchor.seconds

theorem DateTime.seconds_mem (t : DateTime) :
    0 ≤ t.seconds ∧ t.seconds ≤ t.timeOfDay ∧ t.timeOfDay < t.seconds + 1000000 := by
  have := t.time_mem
  rw [seconds]
  omega

theorem datetime_inMonth (anchor : DateTime) {k : Int} (low : 12 ≤ k) (high : k < 120000) :
    ∃ t, datetime (k / 12) (k % 12 + 1) (min anchor.day (monthLength (k / 12) (k % 12 + 1)))
      anchor.seconds = .ok t ∧ anchor.InMonth k t := by
  have hlength := monthLength_mem (k / 12) (k % 12 + 1)
  have hday := anchor.day_mem
  have hseconds := anchor.seconds_mem
  have htime := anchor.time_mem
  have hyear : 1 ≤ k / 12 ∧ k / 12 ≤ 9999 := by omega
  have hrest : (1 ≤ k % 12 + 1 ∧ k % 12 + 1 ≤ 12) ∧
      (1 ≤ min anchor.day (monthLength (k / 12) (k % 12 + 1)) ∧
        min anchor.day (monthLength (k / 12) (k % 12 + 1)) ≤ monthLength (k / 12) (k % 12 + 1)) ∧
      0 ≤ anchor.seconds ∧ anchor.seconds < usPerDay := by omega
  refine ⟨_, by rw [datetime, dif_pos hyear, dif_pos hrest], ?_, rfl, rfl⟩
  simp only [DateTime.index]
  omega

theorem DateTime.index_mem (t : DateTime) : 12 ≤ t.index ∧ t.index < 120000 := by
  have := t.year_mem
  have := t.month_mem
  rw [index]
  omega

theorem subtractCalendarMonths_eq {cutoff : DateTime} {months : Nat}
    (h : 12 ≤ cutoff.index - months) : ∃ t, subtractCalendarMonths cutoff months = .ok t ∧
      cutoff.InMonth (cutoff.index - months) t := by
  obtain ⟨t, heq, hin⟩ := datetime_inMonth cutoff h (by have := cutoff.index_mem; omega)
  refine ⟨t, ?_, hin⟩
  have hindex : 12 * cutoff.year + (cutoff.month - months - 1) = cutoff.index - months := by
    rw [DateTime.index]
    omega
  rw [subtractCalendarMonths, backwards_eq (by have := cutoff.month_mem; omega), hindex]
  exact heq

theorem addCalendarMonths_eq {anchor : DateTime} {count : Nat}
    (h : anchor.index + count < 120000) : ∃ t, addCalendarMonths anchor count = .ok t ∧
      anchor.InMonth (anchor.index + count) t := by
  obtain ⟨t, heq, hin⟩ := datetime_inMonth anchor (k := anchor.index + count)
    (by have := anchor.index_mem; omega) h
  refine ⟨t, ?_, hin⟩
  have hindex : 12 * anchor.year + (anchor.month + count - 1) = anchor.index + count := by
    rw [DateTime.index]
    omega
  rw [addCalendarMonths, forwards_eq (by have := anchor.month_mem; omega), hindex]
  exact heq

/-! ### Distances -/

/-- Half-open, and no longer than a month can be. -/
def Bounded (a b : DateTime) : Prop :=
  a.instant < b.instant ∧ b.instant ≤ a.instant + 31 * usPerDay

theorem DateTime.monthStart_succ_index (t : DateTime) :
    monthStart (t.index + 1) = monthStart t.index + monthLength t.year t.month := by
  have hyear : t.index / 12 = t.year := by
    have := t.month_mem
    rw [index]
    omega
  have hmonth : t.index % 12 + 1 = t.month := by
    have := t.month_mem
    rw [index]
    omega
  rw [monthStart_succ, hyear, hmonth]

theorem DateTime.InMonth.bounded {anchor a b : DateTime} {k : Int} (ha : anchor.InMonth k a)
    (hb : anchor.InMonth (k + 1) b) : Bounded a b := by
  have hnext := a.monthStart_succ_index
  have hlengthA := monthLength_mem a.year a.month
  have hlengthB := monthLength_mem b.year b.month
  have hday := anchor.day_mem
  have hdayA := ha.day
  have hdayB := hb.day
  rw [ha.index] at hnext
  rw [Bounded, a.instant_eq, b.instant_eq, ha.index, hb.index, hnext, ha.timeOfDay, hb.timeOfDay]
  simp only [usPerDay]
  omega

theorem DateTime.InMonth.lt_of_index {anchor a b : DateTime} {k : Int} (ha : anchor.InMonth k a)
    (h : k < b.index) : a.instant < b.instant := by
  have hnext := a.monthStart_succ_index
  have hle := monthStart_strictMono.monotone (show k + 1 ≤ b.index by omega)
  have hdayA := a.day_mem
  have hdayB := b.day_mem
  have htimeA := a.time_mem
  have htimeB := b.time_mem
  rw [ha.index] at hnext
  rw [a.instant_eq, b.instant_eq, ha.index]
  simp only [usPerDay] at *
  omega

/-- What is left of the cutoff's month. -/
theorem DateTime.InMonth.bounded_cutoff {cutoff anchor p : DateTime}
    (seconds : anchor.seconds = cutoff.seconds) (hp : anchor.InMonth cutoff.index p)
    (h : p.instant < cutoff.instant) : Bounded p cutoff := by
  refine ⟨h, ?_⟩
  have hlength := monthLength_mem cutoff.year cutoff.month
  have hdayP := p.day_mem
  have hday := cutoff.day_mem
  have htime := cutoff.seconds_mem
  rw [p.instant_eq, cutoff.instant_eq, hp.index, hp.timeOfDay, seconds]
  simp only [usPerDay]
  omega

/-! ### Boundaries -/

/-- Boundaries after one, up to the cutoff, all but the cutoff in months of their own. -/
inductive Reaches (cutoff : DateTime) : DateTime → List DateTime → Prop
  | last {p : DateTime} (step : Bounded p cutoff) : Reaches cutoff p [cutoff]
  | cons {p q : DateTime} {rest : List DateTime} (step : Bounded p q) (later : p.index < q.index)
      (tail : Reaches cutoff q rest) : Reaches cutoff p (q :: rest)

theorem boundariesFrom_reaches {start cutoff : DateTime} (seconds : start.seconds = cutoff.seconds)
    (count i : Nat) {p : DateTime} (hp : start.InMonth (start.index + i) p)
    (before : p.instant < cutoff.instant) (total : start.index + (i + count : Nat) = cutoff.index) :
    ∃ rest, boundariesFrom start cutoff count i = .ok rest ∧ Reaches cutoff p rest := by
  induction count generalizing i p with
  | zero =>
      refine ⟨[cutoff], rfl, .last ?_⟩
      rw [Nat.add_zero] at total
      exact (total ▸ hp).bounded_cutoff seconds before
  | succ count ih =>
      have hmax := cutoff.index_mem
      obtain ⟨q, hq, hin⟩ := @addCalendarMonths_eq start (i + 1) (by omega)
      have hstep : Bounded p q := hp.bounded (by simpa [add_assoc] using hin)
      rw [boundariesFrom, hq]
      by_cases hle : cutoff.instant ≤ q.instant
      · refine ⟨[cutoff], ?_, .last ⟨before, hle.trans hstep.2⟩⟩
        exact if_pos hle
      · obtain ⟨rest, heq, hrest⟩ := ih (i + 1) hin (not_le.mp hle) (by omega)
        refine ⟨q :: rest, ?_, .cons hstep ?_ hrest⟩
        · refine (if_neg hle).trans ?_
          rw [heq]
          rfl
        · have := hp.index
          have := hin.index
          omega

/-! ### Chunks -/

section

variable {f : Formats} {resource : String} {cutoff p : DateTime} {rest : List DateTime}


theorem chunksFrom_append (total index : Nat) (specs : List (DateTime × DateTime))
    (spec : DateTime × DateTime) :
    chunksFrom f resource total index (specs ++ [spec]) =
      chunksFrom f resource total index specs ++
        [⟨resource, spec.1, spec.2, chunkId f resource spec.1 spec.2,
          priority (index + specs.length) total⟩] := by
  induction specs generalizing index with
  | nil => rfl
  | cons first specs ih =>
      rw [List.cons_append, chunksFrom, chunksFrom, ih, List.cons_append, List.length_cons,
        Nat.add_right_comm, Nat.add_assoc]

theorem mem_chunksFrom {total index : Nat} {specs : List (DateTime × DateTime)}
    {chunk : HistoryChunk} (mem : chunk ∈ chunksFrom f resource total index specs) :
    (chunk.start, chunk.stop) ∈ specs ∧ chunk.id = chunkId f resource chunk.start chunk.stop ∧
      ∃ i, index ≤ i ∧ i < index + specs.length ∧ chunk.priority = priority i total := by
  induction specs generalizing index with
  | nil => cases mem
  | cons spec specs ih =>
      rw [chunksFrom, List.mem_cons] at mem
      cases mem with
      | inl h =>
          subst h
          exact ⟨List.mem_cons_self, rfl, index, le_rfl, by simp, rfl⟩
      | inr mem =>
          obtain ⟨hspec, hid, i, hlow, hhigh, hpriority⟩ := ih mem
          exact ⟨List.mem_cons_of_mem spec hspec, hid, i, by omega,
            by simp only [List.length_cons]; omega, hpriority⟩

theorem Reaches.ne_nil (h : Reaches cutoff p rest) : (p :: rest).zip rest ≠ [] := by
  cases h <;> simp

theorem Reaches.adjoining (h : Reaches cutoff p rest) (total index : Nat) :
    Adjoining (fun chunk : HistoryChunk => chunk.start.instant)
      (fun chunk => chunk.stop.instant) p.instant
      (chunksFrom f resource total index ((p :: rest).zip rest)) cutoff.instant := by
  induction h generalizing index with
  | last step => exact ⟨rfl, step.1, rfl⟩
  | cons step _ _ ih => exact ⟨rfl, step.1, ih (index + 1)⟩

theorem Reaches.bounded (h : Reaches cutoff p rest) :
    ∀ spec ∈ (p :: rest).zip rest, Bounded spec.1 spec.2 := by
  induction h with
  | last step => simpa using step
  | cons step _ _ ih =>
      rintro spec (_ | ⟨_, mem⟩)
      · exact step
      · exact ih spec mem

theorem Reaches.le_index (h : Reaches cutoff p rest) :
    ∀ spec ∈ (p :: rest).zip rest, p.index ≤ spec.1.index := by
  induction h with
  | last step => simp
  | cons step later _ ih =>
      rintro spec (_ | ⟨_, mem⟩)
      · exact le_rfl
      · exact later.le.trans (ih spec mem)

theorem Reaches.lt_index (h : Reaches cutoff p rest) :
    ((p :: rest).zip rest).Pairwise fun a b => a.1.index < b.1.index := by
  induction h with
  | last step => simp
  | cons step later tail ih =>
      exact .cons (fun spec mem => later.trans_le (tail.le_index spec mem)) ih

theorem Reaches.getLast? (h : Reaches cutoff p rest) :
    ((p :: rest).zip rest).getLast?.map Prod.snd = some cutoff := by
  induction h with
  | last step => rfl
  | @cons p q rest step later tail ih =>
      rw [List.zip_cons_cons, List.getLast?_cons]
      cases hlast : ((q :: rest).zip rest).getLast? with
      | none => exact absurd (List.getLast?_eq_none_iff.mp hlast) tail.ne_nil
      | some spec => simpa [hlast] using ih

theorem pairwise_chunksFrom {total index : Nat} {specs : List (DateTime × DateTime)}
    (h : specs.Pairwise fun a b => a.1.index < b.1.index) :
    (chunksFrom f resource total index specs).Pairwise
      fun a b => a.start.index < b.start.index := by
  induction specs generalizing index with
  | nil => exact .nil
  | cons spec specs ih =>
      rw [List.pairwise_cons] at h
      exact .cons (fun chunk mem => h.1 _ (mem_chunksFrom mem).1) (ih h.2)

/-! ### Ids -/

theorem colon_not_mem_padded {width : Nat} {n : Int} (h : 0 ≤ n) :
    ':' ∉ (Recovery.padded width n).toList :=
  fun mem => absurd (Recovery.isDigit_of_mem_padded h mem) (by decide)

theorem DateTime.nonneg (t : DateTime) : 0 ≤ t.year ∧ (0 ≤ t.month ∧ t.month < 10 ^ 2) ∧
    0 ≤ t.day ∧ t.day < 10 ^ 2 := by
  have := t.year_mem
  have := t.month_mem
  have := t.day_mem
  have := monthLength_mem t.year t.month
  omega

theorem date_inj {s t : DateTime} (h : f.date s = f.date t) : s.index = t.index := by
  have hs := s.nonneg
  have ht := t.nonneg
  have hlist := congrArg String.toList h
  rw [Formats.date, Formats.date, String.toList_append, String.toList_append,
    String.toList_append, String.toList_append] at hlist
  have hdays : (Recovery.padded 2 s.day).toList.length =
      (Recovery.padded 2 t.day).toList.length := by
    rw [Recovery.padded_length (by decide) hs.2.2.1 hs.2.2.2,
      Recovery.padded_length (by decide) ht.2.2.1 ht.2.2.2]
  have hmonths : (Recovery.padded 2 s.month).toList.length =
      (Recovery.padded 2 t.month).toList.length := by
    rw [Recovery.padded_length (by decide) hs.2.1.1 hs.2.1.2,
      Recovery.padded_length (by decide) ht.2.1.1 ht.2.1.2]
  obtain ⟨hlist, -⟩ := List.append_inj' hlist hdays
  obtain ⟨hyear, hmonth⟩ := List.append_inj' hlist hmonths
  have hyear := Recovery.padded_inj hs.1 ht.1 (String.toList_inj.mp hyear)
  have hmonth := Recovery.padded_inj hs.2.1.1 ht.2.1.1 (String.toList_inj.mp hmonth)
  rw [DateTime.index, DateTime.index, hyear, hmonth]

theorem colon_not_mem_date (t : DateTime) : ':' ∉ (f.date t).toList := by
  have h := t.nonneg
  rw [Formats.date, String.toList_append, String.toList_append]
  simp only [List.mem_append, not_or]
  exact ⟨⟨colon_not_mem_padded h.1, colon_not_mem_padded h.2.1.1⟩,
    colon_not_mem_padded h.2.2.1⟩

/-- Chunks with one id start in one month. -/
theorem chunkId_inj {s t s' t' : DateTime}
    (h : chunkId f resource s t = chunkId f resource s' t') : s.index = s'.index := by
  have hlist := congrArg String.toList h
  simp only [chunkId, String.toList_append, List.append_assoc] at hlist
  have hrest := List.append_cancel_left (List.append_cancel_left hlist)
  have hcount : (f.date s).toList.count ':' = (f.date s').toList.count ':' := by
    rw [List.count_eq_zero.mpr (colon_not_mem_date s),
      List.count_eq_zero.mpr (colon_not_mem_date s')]
  exact date_inj (String.toList_inj.mp (Joined.append_cons_inj hrest hcount).1)

theorem nodup_ids {total index : Nat} {specs : List (DateTime × DateTime)}
    (h : specs.Pairwise fun a b => a.1.index < b.1.index) :
    ((chunksFrom f resource total index specs).map HistoryChunk.id).Nodup := by
  rw [List.Nodup, List.pairwise_map]
  refine (pairwise_chunksFrom h).imp_of_mem fun ha hb hlt heq => hlt.ne ?_
  rw [(mem_chunksFrom ha).2.1, (mem_chunksFrom hb).2.1] at heq
  exact chunkId_inj heq

/-! ### Order of the work -/

theorem priority_order {i total : Nat} (h : i + 1 < total) :
    (priority i total).order = if i = 0 then 1 else 2 := by
  rw [priority, if_neg (by omega)]
  split <;> rfl

theorem priority_last {i total : Nat} (h : i + 1 = total) : (priority i total).order = 0 := by
  rw [priority, if_pos (.inr h)]
  rfl

theorem DateTime.instant_lt {s t : DateTime} (h : s.index < t.index) : s.instant < t.instant := by
  have hnext := s.monthStart_succ_index
  have hle := monthStart_strictMono.monotone (show s.index + 1 ≤ t.index by omega)
  have hdayS := s.day_mem
  have hdayT := t.day_mem
  have htimeS := s.time_mem
  have htimeT := t.time_mem
  rw [s.instant_eq, t.instant_eq]
  simp only [usPerDay] at *
  omega

/-- But for the last one the chunks stand in the order of their keys. -/
theorem pairwise_key {total index : Nat} {specs : List (DateTime × DateTime)}
    (h : specs.Pairwise fun a b => a.1.index < b.1.index) (hlt : index + specs.length < total) :
    (chunksFrom f resource total index specs).Pairwise fun a b => a.key < b.key := by
  induction specs generalizing index with
  | nil => exact .nil
  | cons spec specs ih =>
      rw [List.pairwise_cons] at h
      rw [List.length_cons] at hlt
      refine .cons (fun chunk mem => ?_) (ih h.2 (by omega))
      obtain ⟨hspec, -, i, hlow, hhigh, hpriority⟩ := mem_chunksFrom mem
      have hfirst : (priority index total).order ≤ 2 := by
        rw [priority_order (by omega)]
        split <;> omega
      have hchunk : chunk.priority.order = 2 := by
        rw [hpriority, priority_order (by omega), if_neg (by omega)]
      rw [HistoryChunk.key, HistoryChunk.key, Prod.Lex.toLex_lt_toLex', hchunk]
      exact ⟨hfirst, fun _ => DateTime.instant_lt (h.1 _ hspec)⟩

theorem resume_chunksFrom (h : (specs : List (DateTime × DateTime)).Pairwise
      fun a b => a.1.index < b.1.index) (completed : List String) :
    ResourceHistoryPlan.resume ⟨resource, cutoff, chunksFrom f resource specs.length 0 specs⟩
        completed =
      ((chunksFrom f resource specs.length 0 specs).getLast?.toList ++
        (chunksFrom f resource specs.length 0 specs).dropLast).filter
          fun chunk => chunk.id ∉ completed := by
  rw [ResourceHistoryPlan.resume]
  cases specs using List.reverseRecOn with
  | nil => rfl
  | append_singleton specs spec =>
      rw [chunksFrom_append, List.getLast?_concat, List.dropLast_concat]
      refine sortedBy_eq_of_pairwise (.sublist List.filter_sublist (.cons ?_ ?_)) ?_
      · intro chunk mem
        obtain ⟨-, -, i, -, hlt, hpriority⟩ := mem_chunksFrom mem
        rw [HistoryChunk.key, HistoryChunk.key, Prod.Lex.toLex_lt_toLex,
          priority_last (by simp), hpriority, priority_order (by simpa using hlt)]
        left
        split <;> omega
      · exact pairwise_key (List.pairwise_append.mp h).1 (by simp)
      · exact (List.perm_append_comm).filter _

end

/-! ### Plans that tile their window -/

/-- What a plan is from its start up to its cutoff. -/
structure ResourceHistoryPlan.Covers (plan : ResourceHistoryPlan) (start cutoff : DateTime) :
    Prop where
  first : plan.chunks.head?.map HistoryChunk.start = some start
  last : plan.chunks.getLast?.map HistoryChunk.stop = some cutoff
  adjoining : Adjoining (fun chunk : HistoryChunk => chunk.start.instant)
    (fun chunk => chunk.stop.instant) start.instant plan.chunks cutoff.instant
  bounded : ∀ chunk ∈ plan.chunks,
    chunk.stop.instant ≤ chunk.start.instant + 31 * usPerDay
  ids : (plan.chunks.map HistoryChunk.id).Nodup
  ascending : plan.chunks.Pairwise fun a b => a.start.instant < b.start.instant
  /-- What is not completed, each chunk once. -/
  pending : ∀ completed, (plan.resume completed).Perm
    (plan.chunks.filter fun chunk => chunk.id ∉ completed)
  /-- The last chunk first, then from the first one on. -/
  resumed : ∀ completed, plan.resume completed =
    (plan.chunks.getLast?.toList ++ plan.chunks.dropLast).filter
      fun chunk => chunk.id ∉ completed

theorem head?_chunksFrom (f : Formats) (resource : String) (total index : Nat)
    (specs : List (DateTime × DateTime)) :
    (chunksFrom f resource total index specs).head?.map HistoryChunk.start =
      specs.head?.map Prod.fst := by
  cases specs <;> rfl

theorem getLast?_chunksFrom (f : Formats) (resource : String) (total index : Nat)
    (specs : List (DateTime × DateTime)) :
    (chunksFrom f resource total index specs).getLast?.map HistoryChunk.stop =
      specs.getLast?.map Prod.snd := by
  cases specs using List.reverseRecOn with
  | nil => rfl
  | append_singleton specs spec => rw [chunksFrom_append, List.getLast?_concat,
      List.getLast?_concat, Option.map_some, Option.map_some]

theorem Reaches.covers {cutoff start : DateTime} {rest : List DateTime}
    (h : Reaches cutoff start rest) (f : Formats) (resource : String) :
    (⟨resource, cutoff, chunksFrom f resource ((start :: rest).zip rest).length 0
      ((start :: rest).zip rest)⟩ : ResourceHistoryPlan).Covers start cutoff where
  first := by
    rw [head?_chunksFrom]
    cases h <;> rfl
  last := by
    rw [getLast?_chunksFrom]
    exact h.getLast?
  adjoining := h.adjoining _ 0
  bounded chunk mem := (h.bounded _ (mem_chunksFrom mem).1).2
  ids := nodup_ids h.lt_index
  ascending := (pairwise_chunksFrom h.lt_index).imp DateTime.instant_lt
  pending completed := sortedBy_perm HistoryChunk.key _
  resumed completed := resume_chunksFrom h.lt_index completed

/-- The same date of the year before is not earlier than the start. -/
theorem calendarHistoryStart_ge {cutoff start : DateTime}
    (h : cutoff.InMonth (cutoff.index - 12) start) :
    ∃ t, calendarHistoryStart cutoff.instant = .ok t ∧ start.instant ≤ t := by
  have hindex := h.index
  have hmonths := start.month_mem
  have hmonths' := cutoff.month_mem
  simp only [DateTime.index] at hindex
  have hyear : start.year = cutoff.year - 1 := by omega
  have hmonth : start.month = cutoff.month := by omega
  have htime : cutoff.instant % usPerDay = cutoff.timeOfDay := by
    have := cutoff.time_mem
    rw [DateTime.instant]
    simp only [usPerDay] at *
    omega
  have hfirst : ¬ cutoff.year - 1 < 1 := by
    have := start.year_mem
    omega
  refine ⟨start.instant + (cutoff.timeOfDay - start.timeOfDay), ?_, ?_⟩
  · rw [calendarHistoryStart, cutoff.civil_instant, htime]
    simp only [Fallible.raiseIf, if_neg hfirst]
    rw [← hyear, ← hmonth, ← h.day, DateTime.instant]
    refine congrArg Except.ok ?_
    omega
  · have := cutoff.seconds_mem
    rw [h.timeOfDay]
    omega

theorem planFor_covers (f : Formats) (planner : HistoryPlanner) {resource : String}
    (required : Mongo.pyStrip resource ≠ "")
    (year : 1 ≤ (12 * planner.cutoff.year + (planner.cutoff.month - 1) - planner.months) / 12) :
    ∃ plan start, planner.planFor f resource = .ok plan ∧
      planner.cutoff.InMonth
        (12 * planner.cutoff.year + (planner.cutoff.month - 1) - planner.months) start ∧
      plan.Covers start planner.cutoff ∧
      (planner.months = 12 →
        ∃ t, calendarHistoryStart planner.cutoff.instant = .ok t ∧ start.instant ≤ t) := by
  obtain ⟨start, hsubtract, hstart⟩ :=
    @subtractCalendarMonths_eq planner.cutoff planner.months
      (by rw [DateTime.index]; omega)
  have hpositive := planner.positive
  have hindex := hstart.index
  have hself : start.InMonth (start.index + (0 : Nat)) start := by
    refine ⟨by simp, (min_eq_left start.day_mem.2).symm, ?_⟩
    rw [DateTime.seconds, hstart.timeOfDay, DateTime.seconds]
    omega
  have hseconds : start.seconds = planner.cutoff.seconds := by
    rw [← hself.timeOfDay, hstart.timeOfDay]
  obtain ⟨rest, hrest, hreaches⟩ := boundariesFrom_reaches hseconds planner.months 0 hself
    (DateTime.instant_lt (by omega)) (by omega)
  refine ⟨_, start, ?_, hstart, hreaches.covers f resource, fun hmonths => ?_⟩
  · rw [HistoryPlanner.planFor, if_neg required, hsubtract]
    change (calendarMonthBoundaries start planner.cutoff planner.months >>= _) = _
    rw [calendarMonthBoundaries, hrest]
    rfl
  · rw [hmonths] at hstart
    exact calendarHistoryStart_ge hstart

/-- Two months before 31 March 2024, the cutoff half a millisecond after a second. -/
theorem planFor_covers_leapYear : Mongo.pyStrip "orders" ≠ "" ∧
    ∃ plan start, (⟨⟨2024, 3, 31, 500, by decide, by decide, by decide, by decide⟩, 2, by decide⟩ :
        HistoryPlanner).planFor ⟨fun s => s, 4⟩ "orders" = .ok plan ∧
      plan.Covers start ⟨2024, 3, 31, 500, by decide, by decide, by decide, by decide⟩ := by
  have required : Mongo.pyStrip "orders" ≠ "" := by decide +kernel
  obtain ⟨plan, start, hplan, -, hcovers, -⟩ :=
    planFor_covers ⟨fun s => s, 4⟩
      ⟨⟨2024, 3, 31, 500, by decide, by decide, by decide, by decide⟩, 2, by decide⟩
      required (by decide)
  exact ⟨required, plan, start, hplan, hcovers⟩

end ZelerPlatform.History.Pilot
