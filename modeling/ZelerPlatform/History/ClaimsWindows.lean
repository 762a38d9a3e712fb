import ZelerPlatform.History.Admission
import ZelerPlatform.Library.Tiling

/-!
# The windows of the claims source

`advance_source` plans the claims of an admitted year in windows of ten days, takes one window
off when its run has ended, and halves a window whose run was too dense. The number of windows
comes from the whole days of the range, and their bounds from the range itself: the windows
cover the range just when it does not end less than a day into a window.
-/

namespace ZelerPlatform.History.Onboarding

open Mongo Transition

structure Window where
  start : Int
  stop : Int
  deriving DecidableEq, Repr

/-- The window as the plan holds it. -/
def Window.stored (w : Window) : Window := ⟨Value.floorMs w.start, Value.floorMs w.stop⟩

/-- `date_from` and `cutoff` of an admitted plan. -/
structure PlanRange where
  dateFrom : Int
  cutoff : Int
  before : dateFrom < cutoff
  whole : Value.floorMs dateFrom = dateFrom ∧ Value.floorMs cutoff = cutoff

/-- What the plan keeps for the claims; no turn reads `finished`, the windows taken off. -/
structure ClaimsPlan where
  claimsWindows : Option (List Window)
  claimsWatermark : Option Int
  claimsCompletedUnits : Int
  claimsFailedUnits : Int
  finished : List Window

/-- What `advance_onboarding_devoluciones` returns. -/
structure RunResult where
  state : Option String
  reason : Option String

/-- The two times a turn reads, the result of its run, and whether its lease was still held when
the windows were planned and when the run had returned. -/
structure Turn where
  now : Int
  windowNow : Int
  result : RunResult
  planned : Bool
  owned : Bool

inductive Answer
  | ready (withObservations : Bool) (completed failed : Int)
  | subdivided (pending : Nat)
  | moved (withObservations : Bool) (pending : Nat) (incremental : Bool)
  deriving DecidableEq, Repr

/-- The windows of the whole range. -/
def windowsOf (start cutoff : Int) : List Window :=
  (List.range (((cutoff - start) / usPerDay + 9) / 10).toNat).map fun (index : Nat) =>
    ⟨start + index * 10 * usPerDay, min cutoff (start + (index + 1) * 10 * usPerDay)⟩

/-- `timedelta / 2`, to the even microsecond. -/
def half (us : Int) : Int :=
  if us % 2 = 0 then us / 2 else if us / 2 % 2 = 0 then us / 2 else us / 2 + 1

def RunResult.terminal (result : RunResult) : Bool :=
  result.state.any (· ∈ ["completed", "failed", "aborted", "expired"])

def RunResult.failed (result : RunResult) : Bool := result.state ≠ some "completed"

/-- `result["state"]` of the answer. -/
def RunResult.withObservations (result : RunResult) : Bool :=
  result.state.any (· ∈ ["failed", "aborted", "expired"])

/-- `$inc` of the counters of an ended run. -/
def ClaimsPlan.count (plan : ClaimsPlan) (result : RunResult) : ClaimsPlan :=
  { plan with
    claimsCompletedUnits := plan.claimsCompletedUnits + if result.failed then 0 else 1
    claimsFailedUnits := plan.claimsFailedUnits + if result.failed then 1 else 0 }

/-- The windows that are left, as a turn takes them. -/
def ClaimsPlan.remaining (range : PlanRange) (plan : ClaimsPlan) : List Window :=
  plan.claimsWindows.getD (windowsOf range.dateFrom range.cutoff)

/-- The windows are written when there are none yet. -/
def ClaimsPlan.withWindows (range : PlanRange) (planned : Bool) (plan : ClaimsPlan) : ClaimsPlan :=
  if plan.claimsWindows.isNone ∧ planned then
    { plan with claimsWindows := some ((plan.remaining range).map Window.stored) }
  else plan

/-- A turn when no window is left. -/
def advanceIncremental (range : PlanRange) (turn : Turn) (plan : ClaimsPlan) :
    ClaimsPlan × Answer :=
  let watermark := plan.claimsWatermark.getD range.cutoff
  if turn.now < watermark + 15 * 60000000 then
    (plan, .ready (plan.claimsFailedUnits ≠ 0) plan.claimsCompletedUnits plan.claimsFailedUnits)
  else
    (if turn.result.terminal ∧ turn.owned then
        { plan.count turn.result with
          claimsWindows := some []
          claimsWatermark :=
            some (Value.floorMs (min turn.windowNow (watermark + 23 * 3600000000))) }
      else plan, .moved turn.result.withObservations 0 true)

/-- A turn on the first of the windows that are left. -/
def advanceWindow (turn : Turn) (window : Window) (rest : List Window) (plan : ClaimsPlan) :
    ClaimsPlan × Answer :=
  if ¬ turn.result.terminal then
    (plan, .moved turn.result.withObservations (rest.length + 1) false)
  else if turn.result.reason = some "physical_budget_exceeded" ∧
      window.stop - window.start > 3600000000 then
    let middle := window.start + half (window.stop - window.start)
    let windows := ⟨window.start, middle⟩ :: ⟨middle, window.stop⟩ :: rest
    (if turn.owned then { plan with claimsWindows := some (windows.map Window.stored) } else plan,
      .subdivided windows.length)
  else
    (if turn.owned then
        { plan.count turn.result with
          claimsWindows := some (rest.map Window.stored)
          finished := plan.finished ++ [window] }
      else plan, .moved turn.result.withObservations (rest.length + 1) false)

/-- `advance_source` for `claims_returns`. -/
def advanceClaims (range : PlanRange) (turn : Turn) (plan : ClaimsPlan) : ClaimsPlan × Answer :=
  match plan.remaining range with
  | [] => advanceIncremental range turn (plan.withWindows range turn.planned)
  | window :: rest => advanceWindow turn window rest (plan.withWindows range turn.planned)

/-- The plan before the first turn. -/
def unplanned : ClaimsPlan := ⟨none, none, 0, 0, []⟩

/-- The plan after turns, the first of them first. -/
def afterTurns (range : PlanRange) (turns : List Turn) : ClaimsPlan :=
  turns.foldl (fun plan turn => (advanceClaims range turn plan).1) unplanned

/-! ### The windows as they are planned -/

variable {range : PlanRange} {start cutoff lo hi : Int} {windows : List Window}

def tenDays : Int := 10 * usPerDay

/-- The first `n` windows reach their end or the cutoff. -/
theorem adjoining_range (n : Nat) (before : start ≤ cutoff)
    (open_ : n = 0 ∨ start + (n - 1) * tenDays < cutoff) :
    Adjoining Window.start Window.stop start
      ((List.range n).map fun (index : Nat) =>
        (⟨start + index * 10 * usPerDay, min cutoff (start + (index + 1) * 10 * usPerDay)⟩ : Window))
      (min cutoff (start + n * tenDays)) := by
  induction n with
  | zero =>
      show start = _
      simp [before]
  | succ n ih =>
      have hopen : start + n * tenDays < cutoff := by
        obtain h | h := open_
        · cases h
        · push_cast at h
          simpa using h
      have hprevious : n = 0 ∨ start + ((n : Int) - 1) * tenDays < cutoff := by
        right
        unfold tenDays usPerDay at hopen ⊢
        omega
      rw [List.range_succ, List.map_append]
      refine (ih hprevious).append ?_
      have hstart : min cutoff (start + n * tenDays) = start + n * 10 * usPerDay := by
        have hproduct : (n : Int) * 10 * usPerDay = n * tenDays := Int.mul_assoc _ _ _
        omega
      have hstop : start + ((n : Int) + 1) * 10 * usPerDay = start + (n + 1 : Nat) * tenDays := by
        unfold tenDays usPerDay
        push_cast
        omega
      rw [hstart, ← hstop]
      refine ⟨rfl, ?_, rfl⟩
      show start + n * 10 * usPerDay < min cutoff (start + (n + 1) * 10 * usPerDay)
      unfold tenDays usPerDay at *
      omega

/-- How many windows there are. -/
theorem windowsOf_adjoining (before : start < cutoff) :
    Adjoining Window.start Window.stop start (windowsOf start cutoff)
      (min cutoff (start + (((cutoff - start) / usPerDay + 9) / 10) * tenDays)) := by
  have hcount : 0 ≤ ((cutoff - start) / usPerDay + 9) / 10 := by
    unfold usPerDay
    omega
  have hrange := adjoining_range (((cutoff - start) / usPerDay + 9) / 10).toNat before.le (by
    rw [Int.toNat_of_nonneg hcount]
    unfold tenDays usPerDay
    omega)
  rw [Int.toNat_of_nonneg hcount] at hrange
  exact hrange

/-- What the windows of ten days leave of the range. -/
def PlanRange.remainder (range : PlanRange) : Int := (range.cutoff - range.dateFrom) % tenDays

/-- The last window reaches the cutoff just when it is whole or at least a day long. -/
theorem windowsOf_reaches_iff :
    Adjoining Window.start Window.stop range.dateFrom (windowsOf range.dateFrom range.cutoff)
      range.cutoff ↔ range.remainder = 0 ∨ usPerDay ≤ range.remainder := by
  have hwindows := windowsOf_adjoining range.before
  have hbefore := range.before
  have hcount : min range.cutoff (range.dateFrom +
      (((range.cutoff - range.dateFrom) / usPerDay + 9) / 10) * tenDays) = range.cutoff ↔
        range.remainder = 0 ∨ usPerDay ≤ range.remainder := by
    unfold PlanRange.remainder tenDays usPerDay
    omega
  rw [← hcount]
  constructor
  · exact fun h => hwindows.unique h
  · intro h
    rw [h] at hwindows
    exact hwindows

theorem windowsOf_short {w : Window} (mem : w ∈ windowsOf start cutoff) :
    w.stop - w.start ≤ tenDays := by
  obtain ⟨index, -, rfl⟩ := List.mem_map.mp mem
  show min cutoff (start + (index + 1) * 10 * usPerDay) - (start + index * 10 * usPerDay) ≤ tenDays
  unfold tenDays usPerDay
  omega

theorem floorMs_eq_self {us : Int} : Value.floorMs us = us ↔ us % 1000 = 0 := by
  unfold Value.floorMs
  omega

theorem windowsOf_whole {w : Window}
    (mem : w ∈ windowsOf range.dateFrom range.cutoff) : w.stored = w := by
  obtain ⟨index, -, rfl⟩ := List.mem_map.mp mem
  obtain ⟨hfrom, hcutoff⟩ := range.whole
  rw [floorMs_eq_self] at hfrom hcutoff
  have hstart : Value.floorMs (range.dateFrom + index * 10 * usPerDay) =
      range.dateFrom + index * 10 * usPerDay := by
    rw [floorMs_eq_self]
    unfold usPerDay
    omega
  have hstop : Value.floorMs (min range.cutoff (range.dateFrom + (index + 1) * 10 * usPerDay)) =
      min range.cutoff (range.dateFrom + (index + 1) * 10 * usPerDay) := by
    rw [floorMs_eq_self]
    unfold usPerDay
    omega
  rw [Window.stored, hstart, hstop]

/-! ### The windows from turn to turn -/

/-- What was taken off and what is left cover the range, with windows of at most ten days. -/
structure Covered (range : PlanRange) (finished windows : List Window) : Prop where
  reached : ∃ reached, Adjoining Window.start Window.stop range.dateFrom finished reached ∧
    Adjoining Window.start Window.stop reached windows range.cutoff
  short : ∀ w ∈ windows, w.stop - w.start ≤ tenDays
  whole : ∀ w ∈ windows, w.stored = w

variable {finished rest : List Window} {w : Window}

theorem Covered.map_stored (h : Covered range finished windows) :
    windows.map Window.stored = windows :=
  (List.map_congr_left h.whole).trans (List.map_id windows)

/-- Every instant of the range is in one window, finished or left. -/
theorem Covered.tiles (h : Covered range finished windows) :
    Tiles {w | w ∈ finished ++ windows} Window.start Window.stop range.dateFrom range.cutoff := by
  obtain ⟨reached, hfinished, hwindows⟩ := h.reached
  exact (hfinished.append hwindows).tiles

/-- The head window has ended. -/
theorem Covered.finish (h : Covered range finished (w :: rest)) :
    Covered range (finished ++ [w]) rest where
  reached := by
    obtain ⟨reached, hfinished, rfl, hproper, hrest⟩ := h.reached
    exact ⟨w.stop, hfinished.append (.single hproper), hrest⟩
  short v mem := h.short v (List.mem_cons_of_mem w mem)
  whole v mem := h.whole v (List.mem_cons_of_mem w mem)

/-- The head window is halved, at a whole millisecond. -/
theorem Covered.subdivide (h : Covered range finished (w :: rest))
    (long : 3600000000 < w.stop - w.start) :
    Covered range finished
      ((⟨w.start, w.start + half (w.stop - w.start)⟩ ::
        ⟨w.start + half (w.stop - w.start), w.stop⟩ :: rest).map Window.stored) := by
  have hwhole := h.whole w List.mem_cons_self
  have hstart : Value.floorMs w.start = w.start := congrArg Window.start hwhole
  have hstop : Value.floorMs w.stop = w.stop := congrArg Window.stop hwhole
  have hshort := h.short w List.mem_cons_self
  obtain ⟨middle, hmiddle⟩ :
      ∃ middle, middle = Value.floorMs (w.start + half (w.stop - w.start)) := ⟨_, rfl⟩
  have hbetween : w.start < middle ∧ middle < w.stop := by
    rw [hmiddle]
    unfold Value.floorMs half
    split_ifs <;> omega
  have hfixed : Value.floorMs middle = middle := by
    rw [hmiddle, Value.floorMs_floorMs]
  have hrest : rest.map Window.stored = rest :=
    (List.map_congr_left fun v mem => h.whole v (List.mem_cons_of_mem w mem)).trans
      (List.map_id rest)
  have hwindows : (⟨w.start, w.start + half (w.stop - w.start)⟩ ::
      ⟨w.start + half (w.stop - w.start), w.stop⟩ :: rest).map Window.stored =
        ⟨w.start, middle⟩ :: ⟨middle, w.stop⟩ :: rest := by
    rw [List.map_cons, List.map_cons, hrest, Window.stored, Window.stored, hstart, hstop, ← hmiddle]
  rw [hwindows]
  refine ⟨?_, ?_, ?_⟩
  · obtain ⟨reached, hfinished, rfl, hproper, hafter⟩ := h.reached
    exact ⟨w.start, hfinished, rfl, hbetween.1, rfl, hbetween.2, hafter⟩
  · intro v mem
    obtain rfl | mem := List.mem_cons.mp mem
    · show middle - w.start ≤ tenDays
      omega
    · obtain rfl | mem := List.mem_cons.mp mem
      · show w.stop - middle ≤ tenDays
        omega
      · exact h.short v (List.mem_cons_of_mem w mem)
  · intro v mem
    obtain rfl | mem := List.mem_cons.mp mem
    · rw [Window.stored, hstart, hfixed]
    · obtain rfl | mem := List.mem_cons.mp mem
      · rw [Window.stored, hstop, hfixed]
      · exact h.whole v (List.mem_cons_of_mem w mem)

theorem advanceIncremental_keeps {turn : Turn} {plan : ClaimsPlan}
    (h : Covered range plan.finished []) (none : plan.remaining range = []) :
    Covered range (advanceIncremental range turn plan).1.finished
      ((advanceIncremental range turn plan).1.remaining range) := by
  have hplan : Covered range plan.finished (plan.remaining range) := by rwa [none]
  unfold advanceIncremental
  dsimp only
  split_ifs
  · exact hplan
  · exact h
  · exact hplan

theorem advanceWindow_keeps {turn : Turn} {plan : ClaimsPlan}
    (h : Covered range plan.finished (w :: rest)) (next : plan.remaining range = w :: rest) :
    Covered range (advanceWindow turn w rest plan).1.finished
      ((advanceWindow turn w rest plan).1.remaining range) := by
  have hplan : Covered range plan.finished (plan.remaining range) := by rwa [next]
  unfold advanceWindow
  split_ifs with hterminal hdense howned howned
  · exact h.subdivide hdense.2
  · exact hplan
  · show Covered range (plan.finished ++ [w]) (rest.map Window.stored)
    rw [h.finish.map_stored]
    exact h.finish
  · exact hplan
  · exact hplan

/-- One turn keeps what covers the range. -/
theorem Covered.advance {plan : ClaimsPlan} (turn : Turn)
    (h : Covered range plan.finished (plan.remaining range)) :
    Covered range (advanceClaims range turn plan).1.finished
      ((advanceClaims range turn plan).1.remaining range) := by
  have hfinished : (plan.withWindows range turn.planned).finished = plan.finished := by
    unfold ClaimsPlan.withWindows
    split <;> rfl
  have hremaining : (plan.withWindows range turn.planned).remaining range =
      plan.remaining range := by
    unfold ClaimsPlan.withWindows
    split
    · exact h.map_stored
    · rfl
  unfold advanceClaims
  cases hwindows : plan.remaining range with
  | nil =>
      rw [hwindows] at h hremaining
      exact advanceIncremental_keeps (hfinished ▸ h) hremaining
  | cons w rest =>
      rw [hwindows] at h hremaining
      exact advanceWindow_keeps (hfinished ▸ h) hremaining

/-- The windows cover the range in every turn just when the range does not end less than a day
into a window. -/
theorem claims_windows_cover_iff (range : PlanRange) :
    (∀ turns, Covered range (afterTurns range turns).finished
      ((afterTurns range turns).remaining range)) ↔
        range.remainder = 0 ∨ usPerDay ≤ range.remainder := by
  constructor
  · intro h
    obtain ⟨reached, hfinished, hwindows⟩ := (h []).reached
    obtain rfl : range.dateFrom = reached := hfinished
    exact windowsOf_reaches_iff.mp hwindows
  · intro hremainder turns
    unfold afterTurns
    refine List.foldlRecOn (motive := fun plan : ClaimsPlan =>
      Covered range plan.finished (plan.remaining range)) turns _ ?_ fun plan h turn _ =>
        h.advance turn
    exact ⟨⟨range.dateFrom, rfl, windowsOf_reaches_iff.mpr hremainder⟩,
      fun w mem => windowsOf_short mem, fun w mem => windowsOf_whole mem⟩

/-- A plan from before the policy, of ten days and five hours. -/
def tenDaysFiveHours : Doc :=
  [("_id", .string "82"), ("seller_id", .string "82"), ("cutoff", .date 1785456000000000),
    ("date_from", .date 1784574000000000)]

/-- The plan when it has been admitted. -/
def admittedTenDays : Except AdmissionError PUnit × Plans Unit :=
  (admitHistoryOnboarding () "82" 1785456000123456 false).run.run ⟨some tenDaysFiveHours, []⟩

def tenDaysRange : PlanRange := ⟨1784574000000000, 1785456000000000, by decide, by decide⟩

/-- It is admitted with its range, and the five hours before the cutoff are in no window. -/
theorem tenDaysFiveHours_uncovered :
    admittedTenDays.1.isOk = true ∧
    (admittedTenDays.2.plan.bind (Doc.get? · "date_from")) = some (.date tenDaysRange.dateFrom) ∧
    (admittedTenDays.2.plan.bind (Doc.get? · "cutoff")) = some (.date tenDaysRange.cutoff) ∧
    windowsOf tenDaysRange.dateFrom tenDaysRange.cutoff = [⟨1784574000000000, 1785438000000000⟩] ∧
    ¬ ∀ turns, Covered tenDaysRange (afterTurns tenDaysRange turns).finished
      ((afterTurns tenDaysRange turns).remaining tenDaysRange) := by
  refine ⟨by decide +kernel, by decide +kernel, by decide +kernel, by decide +kernel, fun h => ?_⟩
  obtain ⟨reached, hfinished, hwindows⟩ := (h []).reached
  obtain rfl : tenDaysRange.dateFrom = reached := hfinished
  have hreaches := windowsOf_reaches_iff.mp hwindows
  revert hreaches
  decide +kernel

end ZelerPlatform.History.Onboarding
