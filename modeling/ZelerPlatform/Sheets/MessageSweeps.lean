import ZelerPlatform.Library.Collection
import ZelerPlatform.Library.Cursor
import ZelerPlatform.Sheets.PeriodicMessages

/-!
# What the sweeps visit

A completed sweep has visited every pack that a turn of it found ahead of its cursor, each once,
with the whole window of the sweep. A pack that comes into the orders behind the cursor waits for
the next sweep, whose window starts five minutes before the end of this one.
-/

namespace ZelerPlatform.Sheets.Messages

open Fallible Mongo Sources Sorted

/-! ### The packs of the orders -/

theorem packsOf_ascending (reading : Reading) (orders : List Value) :
    (packsOf reading orders).Pairwise (· < ·) := by
  have hsorted := sortedBy_pairwise id
    (((orders.filter Value.truthy).map reading.text).filter isNumeric).eraseDups
  have honce : (packsOf reading orders).Nodup :=
    (sortedBy_perm id _).nodup_iff.mpr (nodup_eraseDups _)
  exact (hsorted.and honce).imp fun h => lt_of_le_of_ne h.1 h.2

theorem pos_of_mem_packsOf {reading : Reading} {orders : List Value} {pack : String}
    (mem : pack ∈ packsOf reading orders) : "" < pack := by
  rw [packsOf, (sortedBy_perm id _).mem_iff, List.mem_eraseDups, List.mem_filter, isNumeric,
    Bool.and_eq_true, decide_eq_true_eq] at mem
  rw [String.lt_iff_toList_lt]
  cases hchars : pack.toList with
  | nil => exact absurd (String.toList_eq_nil_iff.mp hchars) mem.2.1
  | cons c rest => exact List.Lex.nil

/-- What lies ahead of the cursor. -/
def aheadOf (after : String) (packs : List String) : List String := packs.filter (after < ·)

theorem mem_aheadOf {after pack : String} {packs : List String} :
    pack ∈ aheadOf after packs ↔ pack ∈ packs ∧ after < pack := by
  rw [aheadOf, List.mem_filter, decide_eq_true_eq]

/-! ### The sweep in hand -/

theorem floorMs_floorMs (us : Int) : Value.floorMs (Value.floorMs us) = Value.floorMs us := by
  rw [Value.floorMs, Value.floorMs]
  omega

theorem floorMs_le (us : Int) : Value.floorMs us ≤ us := by
  rw [Value.floorMs]
  omega

theorem floorMs_sub_minutes {us : Int} (h : Value.floorMs us = us) (n : Int) :
    Value.floorMs (us - minutes n) = us - minutes n := by
  rw [Value.floorMs] at *
  rw [minutes]
  omega

theorem Plan.firstStart_stored (plan : Plan) : Value.floorMs plan.firstStart = plan.firstStart := by
  rw [Plan.firstStart]
  obtain h | h := max_choice plan.dateFrom (plan.cutoff - minutes 5)
  · rw [h, plan.dateFrom_stored]
  · rw [h, floorMs_sub_minutes plan.cutoff_stored]

/-- The packs of the visits. -/
def Sweep.packs (sweep : Sweep) : List String := sweep.visits.map (·.pack)

/-- Where the cursor of a sweep is, with a batch in hand or without. -/
def Placed (after : String) (checkpoint : Option MessageState) (sweep : Sweep) : Prop :=
  match checkpoint with
  | none => Cursor.Idle after sweep.due sweep.packs
  | some state =>
      Cursor.Busy after state.targetIds state.targetIndex sweep.due sweep.packs ∧
        state.targetIndex ≤ state.targetIds.length ∧ state.discoveryComplete = false ∧
        state.start = sweep.start ∧ Value.floorMs state.stop = sweep.stop

theorem Placed.congr {after : String} {checkpoint : Option MessageState} {sweep other : Sweep}
    (h : Placed after checkpoint sweep) (start : other.start = sweep.start)
    (stop : other.stop = sweep.stop) (due : other.due = sweep.due)
    (packs : other.packs = sweep.packs) : Placed after checkpoint other := by
  rw [Placed.eq_def] at *
  rw [start, stop, due, packs]
  exact h

/-- A state and what its sweep did, when the orders hold the known packs. -/
structure InHand (recovery : Recovery) (sweep : Sweep) (known : List String) : Prop where
  start : sweep.start = recovery.sweepStart
  stop : sweep.stop = Value.floorMs recovery.sweepEnd
  whole : Value.floorMs recovery.sweepStart = recovery.sweepStart
  known : sweep.due ⊆ known
  windows : ∀ visit ∈ sweep.visits, visit.start = sweep.start ∧ sweep.stop ≤ visit.stop
  placed : Placed recovery.afterPack recovery.checkpoint sweep
  complete : sweep.complete = recovery.sweepComplete
  finished : recovery.sweepComplete = true →
    recovery.checkpoint = none ∧ ∀ pack ∈ sweep.due, pack ∈ sweep.packs

variable {recovery : Recovery} {sweep : Sweep} {known packs : List String}

theorem InHand.stored (h : InHand recovery sweep known) :
    InHand recovery.stored sweep known where
  start := h.start.trans h.whole.symm
  stop := h.stop.trans (floorMs_floorMs _).symm
  whole := floorMs_floorMs _
  known := h.known
  windows := h.windows
  placed := h.placed
  complete := h.complete
  finished := h.finished

/-- A state with other texts and times. -/
structure Recovery.Similar (recovery next : Recovery) : Prop where
  sweepStart : next.sweepStart = recovery.sweepStart
  sweepEnd : next.sweepEnd = recovery.sweepEnd
  afterPack : next.afterPack = recovery.afterPack
  checkpoint : next.checkpoint = recovery.checkpoint
  sweepComplete : next.sweepComplete = recovery.sweepComplete

theorem InHand.similar {next : Recovery} (h : InHand recovery sweep known)
    (same : recovery.Similar next) : InHand next sweep known where
  start := h.start.trans same.sweepStart.symm
  stop := h.stop.trans (congrArg Value.floorMs same.sweepEnd.symm)
  whole := by rw [same.sweepStart, h.whole]
  known := h.known
  windows := h.windows
  placed := by
    rw [same.afterPack, same.checkpoint]
    exact h.placed
  complete := h.complete.trans same.sweepComplete.symm
  finished := by
    rw [same.sweepComplete, same.checkpoint]
    exact h.finished

theorem InHand.settle_eq (h : InHand recovery sweep known) :
    recovery.settle = .ok (recovery, recovery.checkpoint) := by
  have hplaced := h.placed
  rw [Recovery.settle]
  cases hcheckpoint : recovery.checkpoint with
  | none => rfl
  | some state =>
      rw [hcheckpoint] at hplaced
      obtain ⟨-, -, hfalse, -⟩ := hplaced
      exact if_neg (hfalse ▸ Bool.false_ne_true)

/-- The visits of a batch have the window of the sweep. -/
theorem window_ok (h : InHand recovery sweep known) {window : Int × Int}
    (hwindow : recovery.window recovery.checkpoint = .ok window) :
    window.1 = sweep.start ∧ Value.floorMs window.2 = sweep.stop ∧
      ∀ state, recovery.checkpoint = some state → window = (state.start, state.stop) := by
  have hplaced := h.placed
  rw [Recovery.window.eq_def] at hwindow
  cases hcheckpoint : recovery.checkpoint with
  | none =>
      rw [hcheckpoint] at hwindow
      obtain rfl := Except.ok.inj hwindow
      exact ⟨h.start.symm, h.stop.symm, fun state hstate => by cases hstate⟩
  | some state =>
      rw [hcheckpoint] at hwindow hplaced
      obtain ⟨-, -, -, hstart, hstop⟩ := hplaced
      obtain ⟨start, hstartBound, hrest⟩ := bind_ok hwindow
      obtain ⟨stop, hstopBound, hpair⟩ := bind_ok hrest
      obtain rfl := Except.ok.inj hpair
      rw [messageCheckpointBound] at hstartBound hstopBound
      split at hstartBound
      case isFalse => cases hstartBound
      case isTrue =>
          split at hstopBound
          case isFalse => cases hstopBound
          case isTrue =>
              obtain rfl := Except.ok.inj hstartBound
              obtain rfl := Except.ok.inj hstopBound
              refine ⟨hstart, hstop, fun other hother => ?_⟩
              obtain rfl := Option.some_inj.mp hother
              rfl

/-- What is kept of a call that returned. -/
structure Kept (recovery : Recovery) (packs : List String) (result : Returned)
    (next : Recovery) : Prop where
  sweepStart : next.sweepStart = recovery.sweepStart
  sweepEnd : next.sweepEnd = recovery.sweepEnd
  cursor : (result.report.discoveryComplete = false ∧ next.afterPack = recovery.afterPack ∧
      next.checkpoint = some result.checkpoint ∧ next.sweepComplete = false) ∨
    (result.report.discoveryComplete = true ∧ ∃ last,
      result.checkpoint.targetIds.getLast? = some last ∧ next.afterPack = last ∧
        next.checkpoint = none ∧ (next.sweepComplete = true → ∀ pack ∈ packs, ¬ last < pack))

theorem goOn_fields (recovery : Recovery) (now : Int) (result : Returned) :
    (recovery.goOn now result).sweepStart = recovery.sweepStart ∧
      (recovery.goOn now result).sweepEnd = recovery.sweepEnd ∧
      (recovery.goOn now result).afterPack = recovery.afterPack ∧
      (recovery.goOn now result).checkpoint = some result.checkpoint ∧
      (recovery.goOn now result).sweepComplete = false := by
  rw [Recovery.goOn]
  split
  · exact ⟨rfl, rfl, rfl, rfl, rfl⟩
  · exact ⟨rfl, rfl, rfl, rfl, rfl⟩

theorem proceed_kept {now : Int} {result : Returned} {next : Recovery}
    (h : recovery.proceed now packs result = .ok next) : Kept recovery packs result next := by
  obtain ⟨hstart, hend, hafter, hcheckpoint, hopen⟩ := goOn_fields recovery now result
  rw [Recovery.proceed] at h
  cases hcomplete : result.report.discoveryComplete with
  | false =>
      rw [hcomplete] at h
      obtain rfl := Except.ok.inj h
      exact ⟨hstart, hend, .inl ⟨hcomplete, hafter, hcheckpoint, hopen⟩⟩
  | true =>
      rw [hcomplete] at h
      cases hlast : result.checkpoint.targetIds.getLast? with
      | none =>
          rw [hlast] at h
          cases h
      | some last =>
          rw [hlast, if_pos rfl] at h
          dsimp only at h
          split at h
          case isTrue =>
              obtain rfl := Except.ok.inj h
              exact ⟨hstart, hend, .inr ⟨hcomplete, last, hlast, rfl, rfl,
                fun h => absurd (hopen.symm.trans h) Bool.false_ne_true⟩⟩
          case isFalse hany =>
              have hnone : ∀ pack ∈ packs, ¬ last < pack := fun pack mem hlt =>
                hany (List.any_eq_true.mpr ⟨pack, mem, decide_eq_true hlt⟩)
              obtain rfl := Except.ok.inj h
              exact ⟨hstart, hend, .inr ⟨hcomplete, last, hlast, rfl, rfl, fun _ => hnone⟩⟩

/-- The packs that a call visited are in a batch of the sweep. -/
structure Advanced (after : String) (sweep : Sweep) (result : Returned) : Prop where
  busy : Cursor.Busy after result.checkpoint.targetIds result.checkpoint.targetIndex sweep.due
    sweep.packs
  index : result.checkpoint.targetIndex ≤ result.checkpoint.targetIds.length
  start : result.checkpoint.start = sweep.start
  stop : Value.floorMs result.checkpoint.stop = sweep.stop
  complete : result.checkpoint.discoveryComplete = true →
    result.checkpoint.targetIndex = result.checkpoint.targetIds.length
  reported : result.report.discoveryComplete = result.checkpoint.discoveryComplete

theorem Advanced.placed {after : String} {result : Returned} {next : Recovery}
    (h : Advanced after sweep result) (kept : Kept recovery packs result next)
    (hafter : recovery.afterPack = after) (due : sweep.due ⊆ packs) :
    Placed next.afterPack next.checkpoint sweep ∧
      (next.sweepComplete = true →
        next.checkpoint = none ∧ ∀ pack ∈ sweep.due, pack ∈ sweep.packs) := by
  obtain ⟨hfalse, hsame, hcheckpoint, hopen⟩ | ⟨htrue, last, hlast, rfl, hcheckpoint, hover⟩ :=
    kept.cursor
  · rw [hcheckpoint, hsame, hafter, hopen]
    exact ⟨⟨h.busy, h.index, h.reported.symm.trans hfalse, h.start, h.stop⟩, fun h => by cases h⟩
  · have hbusy := h.busy
    rw [h.complete (h.reported.symm.trans htrue)] at hbusy
    have hidle := hbusy.pass hlast
    rw [hcheckpoint]
    exact ⟨hidle, fun hcomplete => ⟨rfl, hidle.done fun pack mem => hover hcomplete pack (due mem)⟩⟩

section

variable {reading : Reading} {plan : Plan} {turn : Turn} {remaining : List String}
  {outcome : Outcome}

theorem collect_cases {checkpoint : Option MessageState}
    (h : recovery.collect reading plan turn packs remaining checkpoint = .ok outcome) :
    ∃ window, recovery.window checkpoint = .ok window ∧ outcome.due = remaining ∧
      ((∃ result, collectPackMessages reading plan.sellerId (remaining.take periodicBatch)
          window.1 window.2 checkpoint turn.call = .ok result ∧
          recovery.proceed turn.now packs result = .ok outcome.recovery ∧
          outcome.visits = result.visits.map fun pack => ⟨pack, window.1, window.2⟩) ∨
        (recovery.Similar outcome.recovery ∧ outcome.visits = [])) := by
  obtain ⟨window, hwindow, hcollect⟩ := bind_ok h
  refine ⟨window, hwindow, ?_⟩
  cases hresult : collectPackMessages reading plan.sellerId (remaining.take periodicBatch)
      window.1 window.2 checkpoint turn.call with
  | ok result =>
      rw [hresult] at hcollect
      obtain ⟨next, hnext, hpure⟩ := bind_ok hcollect
      obtain rfl := Except.ok.inj hpure
      exact ⟨rfl, .inl ⟨result, rfl, hnext, rfl⟩⟩
  | error error =>
      rw [hresult] at hcollect
      cases error with
      | value message =>
          dsimp only at hcollect
          split at hcollect
          case isTrue =>
              obtain rfl := Except.ok.inj hcollect
              exact ⟨rfl, .inr ⟨⟨rfl, rfl, rfl, rfl, rfl⟩, rfl⟩⟩
          case isFalse => cases hcollect
      | policyWait => cases hcollect
      | other => cases hcollect

theorem packs_extend (sweep : Sweep) (outcome : Outcome) {visits : List String}
    {window : Int × Int}
    (h : outcome.visits = visits.map fun pack => ⟨pack, window.1, window.2⟩) :
    (sweep.extend outcome).packs = sweep.packs ++ visits := by
  rw [Sweep.packs, Sweep.extend, h, List.map_append, List.map_map]
  exact congrArg (sweep.packs ++ ·) (List.map_id visits)

theorem windows_extend {outcome : Outcome} {visits : List String} {window : Int × Int}
    (h : outcome.visits = visits.map fun pack => ⟨pack, window.1, window.2⟩)
    (windows : ∀ visit ∈ sweep.visits, visit.start = sweep.start ∧ sweep.stop ≤ visit.stop)
    (start : window.1 = sweep.start) (stop : Value.floorMs window.2 = sweep.stop) :
    ∀ visit ∈ (sweep.extend outcome).visits,
      visit.start = sweep.start ∧ sweep.stop ≤ visit.stop := by
  intro visit mem
  obtain mem | mem := List.mem_append.mp mem
  · exact windows visit mem
  · rw [h] at mem
    obtain ⟨pack, -, rfl⟩ := List.mem_map.mp mem
    exact ⟨start, stop ▸ floorMs_le window.2⟩

/-- What a call adds to a sweep in hand. -/
theorem InHand.advance (h : InHand recovery sweep known) (outcome : Outcome)
    (hknown : known ⊆ packs)
    (due : outcome.due ⊆ packs) {result : Returned} {window : Int × Int}
    (hproceed : recovery.proceed turn.now packs result = .ok outcome.recovery)
    (visits : outcome.visits = result.visits.map fun pack => ⟨pack, window.1, window.2⟩)
    (start : window.1 = sweep.start) (stop : Value.floorMs window.2 = sweep.stop)
    (advanced : Advanced recovery.afterPack (sweep.extend outcome) result) :
    InHand outcome.recovery (sweep.extend outcome) packs := by
  have hkept := proceed_kept hproceed
  have hdue : (sweep.extend outcome).due ⊆ packs :=
    List.append_subset.mpr ⟨fun pack mem => hknown (h.known mem), due⟩
  obtain ⟨hplaced, hover⟩ := advanced.placed hkept rfl hdue
  exact ⟨h.start.trans hkept.sweepStart.symm,
    h.stop.trans (congrArg Value.floorMs hkept.sweepEnd.symm),
    by rw [hkept.sweepStart, h.whole], hdue, windows_extend visits h.windows start stop, hplaced,
    rfl, hover⟩

/-- Packs are found, and nothing is visited. -/
theorem InHand.found (h : InHand recovery sweep known) (outcome : Outcome)
    (hknown : known ⊆ packs)
    (unfinished : recovery.sweepComplete = false)
    (idle : outcome.due ≠ [] → recovery.checkpoint = none)
    (due : outcome.due ⊆ aheadOf recovery.afterPack packs)
    (similar : recovery.Similar outcome.recovery) (visits : outcome.visits = []) :
    InHand outcome.recovery (sweep.extend outcome) packs := by
  have hextend : (sweep.extend outcome).packs = sweep.packs := by
    rw [Sweep.packs, Sweep.extend, visits, List.append_nil, Sweep.packs]
  have hplaced : Placed recovery.afterPack recovery.checkpoint (sweep.extend outcome) := by
    have hbefore := h.placed
    by_cases hnone : outcome.due = []
    · have hsame : (sweep.extend outcome).due = sweep.due := by
        rw [Sweep.extend, hnone, List.append_nil]
      exact hbefore.congr rfl rfl hsame hextend
    · rw [idle hnone] at hbefore ⊢
      rw [Placed, hextend]
      exact hbefore.found fun pack mem => (mem_aheadOf.mp (due mem)).2
  have hmine : InHand recovery { sweep.extend outcome with complete := false } packs := by
    refine ⟨h.start, h.stop, h.whole, ?_, ?_, hplaced, unfinished.symm, fun hcomplete =>
      absurd (unfinished.symm.trans hcomplete) Bool.false_ne_true⟩
    · exact List.append_subset.mpr ⟨fun pack mem => hknown (h.known mem),
        fun pack mem => (mem_aheadOf.mp (due mem)).1⟩
    · rw [Sweep.extend, visits, List.append_nil]
      exact h.windows
  have hcomplete : outcome.recovery.sweepComplete = false :=
    similar.sweepComplete.trans unfinished
  rw [← hcomplete] at hmine
  exact hmine.similar similar

/-- A turn with no batch in hand freezes one from the packs ahead of the cursor. -/
theorem fresh_inHand (h : InHand recovery sweep known) (hknown : known ⊆ packs)
    (sorted : packs.Pairwise (· < ·)) (unfinished : recovery.sweepComplete = false)
    (hcheckpoint : recovery.checkpoint = none)
    (hahead : aheadOf recovery.afterPack packs ≠ [])
    (hcollect : recovery.collect reading plan turn packs (aheadOf recovery.afterPack packs) none =
      .ok outcome) :
    InHand outcome.recovery (sweep.extend outcome) packs := by
  obtain ⟨window, hwindow, hdue, hcases⟩ := collect_cases hcollect
  rw [← hcheckpoint] at hwindow
  obtain ⟨hstart, hstop, -⟩ := window_ok h hwindow
  obtain ⟨result, hresult, hproceed, hvisits⟩ | ⟨hsimilar, hvisits⟩ := hcases
  · have hsorted : (aheadOf recovery.afterPack packs).Pairwise (· < ·) := sorted.filter _
    have honce := (hsorted.sublist (List.take_sublist periodicBatch _)).imp fun hlt => hlt.ne
    obtain ⟨htargets, hresultStart, hresultStop, hindex, hpart, hcomplete, hreported⟩ :=
      collect_fresh honce hresult
    have hidle : Cursor.Idle recovery.afterPack sweep.due sweep.packs := by
      have hplaced := h.placed
      rw [hcheckpoint] at hplaced
      exact hplaced
    have hbusy := (hidle.freeze hsorted (fun pack mem => (mem_aheadOf.mp mem).2)
      (fun pack mem hlt => mem_aheadOf.mpr ⟨hknown (h.known mem), hlt⟩) hahead
      (show 0 < periodicBatch by decide)).move hpart
    refine h.advance outcome hknown (hdue ▸ fun pack mem => (mem_aheadOf.mp mem).1) hproceed hvisits
      hstart hstop ⟨?_, ?_, hresultStart.trans hstart, ?_, ?_, hreported⟩
    · rw [packs_extend sweep outcome hvisits, Sweep.extend, hdue, htargets]
      exact hbusy
    · exact htargets ▸ hindex
    · rw [hresultStop]
      exact hstop
    · exact fun hdone => htargets ▸ hcomplete hdone
  · exact h.found outcome hknown unfinished (fun _ => hcheckpoint) (hdue ▸ List.Subset.refl _)
      hsimilar hvisits

/-- A turn with a batch in hand goes on with it. -/
theorem resumed_inHand {state : MessageState} (h : InHand recovery sweep known)
    (hknown : known ⊆ packs) (unfinished : recovery.sweepComplete = false)
    (hcheckpoint : recovery.checkpoint = some state)
    (hcollect : recovery.collect reading plan turn packs remaining (some state) = .ok outcome) :
    InHand outcome.recovery (sweep.extend { outcome with due := [] }) packs := by
  obtain ⟨window, hwindow, -, hcases⟩ := collect_cases hcollect
  rw [← hcheckpoint] at hwindow
  obtain ⟨hstart, hstop, -⟩ := window_ok h hwindow
  obtain ⟨result, hresult, hproceed, hvisits⟩ | ⟨hsimilar, hvisits⟩ := hcases
  · have hplaced := h.placed
    rw [hcheckpoint] at hplaced
    obtain ⟨hbusy, hplace, hfalse, -, -⟩ := hplaced
    obtain ⟨htargets, hresultStart, hresultStop, hindex, hpart, hcomplete, hreported⟩ :=
      collect_resumed (hbusy.sorted.imp fun hlt => hlt.ne) hplace hfalse hresult
    have hmoved := hbusy.move hpart
    refine h.advance { outcome with due := [] } hknown (List.nil_subset _) hproceed
      hvisits hstart hstop ⟨?_, ?_, hresultStart.trans hstart, ?_, ?_, hreported⟩
    · rw [packs_extend sweep { outcome with due := [] } hvisits, Sweep.extend,
        List.append_nil, htargets]
      exact hmoved
    · exact htargets ▸ hindex
    · rw [hresultStop]
      exact hstop
    · exact fun hdone => htargets ▸ hcomplete hdone
  · exact h.found { outcome with due := [] } hknown unfinished
      (fun hne => absurd rfl hne) (List.nil_subset _) hsimilar hvisits

/-- A sweep ends when no pack is ahead of its cursor. -/
theorem InHand.end (h : InHand recovery sweep known) (hknown : known ⊆ packs)
    (hcheckpoint : recovery.checkpoint = none) (hempty : aheadOf recovery.afterPack packs = [])
    (now : Int) :
    InHand ({ recovery with checkpoint := none }.awaitNext now)
      (sweep.extend ⟨{ recovery with checkpoint := none }.awaitNext now, [], []⟩) packs := by
  have hidle : Cursor.Idle recovery.afterPack sweep.due sweep.packs := by
    have hplaced := h.placed
    rw [hcheckpoint] at hplaced
    exact hplaced
  have hextend : sweep.extend ⟨{ recovery with checkpoint := none }.awaitNext now, [], []⟩ =
      { sweep with complete := true } := by
    rw [Sweep.extend, List.append_nil, List.append_nil]
    rfl
  have hreached (pack : String) (mem : pack ∈ sweep.due) : ¬ recovery.afterPack < pack :=
    fun hlt => List.ne_nil_of_mem (mem_aheadOf.mpr ⟨hknown (h.known mem), hlt⟩) hempty
  rw [hextend]
  exact ⟨h.start, h.stop, h.whole, fun pack mem => hknown (h.known mem), h.windows, hidle, rfl,
    fun _ => ⟨rfl, hidle.done hreached⟩⟩

/-- One turn of the sweep in hand. -/
theorem advanceSweep_inHand (h : InHand recovery sweep known)
    (hknown : known ⊆ packsOf reading turn.orders) (unfinished : recovery.sweepComplete = false)
    (hadvance : advanceSweep reading plan recovery turn = .ok outcome) :
    InHand outcome.recovery (sweep.extend outcome) (packsOf reading turn.orders) ∧
      (recovery.checkpoint = none →
        outcome.due = aheadOf recovery.afterPack (packsOf reading turn.orders)) := by
  obtain ⟨settled, hsettled, hrest⟩ := bind_ok hadvance
  obtain rfl := Except.ok.inj (h.settle_eq.symm.trans hsettled)
  cases hcheckpoint : recovery.checkpoint with
  | none =>
      rw [hcheckpoint] at hrest
      change (if aheadOf recovery.afterPack (packsOf reading turn.orders) = [] then _ else _) = _
        at hrest
      split at hrest
      case isTrue hempty =>
          obtain rfl := Except.ok.inj hrest
          refine ⟨?_, fun _ => hempty.symm⟩
          exact h.end hknown hcheckpoint hempty turn.now
      case isFalse hahead =>
          refine ⟨fresh_inHand h hknown (packsOf_ascending reading turn.orders) unfinished
            hcheckpoint hahead hrest, fun _ => ?_⟩
          obtain ⟨window, -, hdue, -⟩ := collect_cases hrest
          exact hdue
  | some state =>
      rw [hcheckpoint] at hrest
      obtain ⟨inner, hcollect, hpure⟩ := bind_ok hrest
      obtain rfl := Except.ok.inj hpure
      have hmine := resumed_inHand h hknown unfinished hcheckpoint hcollect
      exact ⟨hmine, fun hnone => by cases hnone⟩

theorem opening_inHand {start stop : Int} (whole : Value.floorMs start = start)
    (inventory : List String) :
    InHand (.opening start stop) (.opened (Recovery.opening start stop).stored inventory)
      known where
  start := whole
  stop := rfl
  whole := whole
  known := List.nil_subset _
  windows _ mem := by cases mem
  placed := Cursor.Idle.start _
  complete := rfl
  finished h := by cases h

end

/-! ### Runs -/

/-- Every sweep goes on from the end of the one before, which is complete. -/
inductive Linked (plan : Plan) : List Sweep → Prop
  | first {sweep : Sweep} (start : sweep.start = plan.firstStart) : Linked plan [sweep]
  | next {sweep last : Sweep} {earlier : List Sweep} (start : sweep.start = last.stop - minutes 5)
      (complete : last.complete = true) (rest : Linked plan (last :: earlier)) :
      Linked plan (sweep :: last :: earlier)

/-- What every sweep keeps to. -/
structure Accounted (sweep : Sweep) : Prop where
  inventory : sweep.inventory ⊆ sweep.due
  once : sweep.packs.Nodup
  visited : sweep.complete = true → ∀ pack ∈ sweep.due, ∃ visit ∈ sweep.visits,
    visit.pack = pack ∧ visit.start = sweep.start ∧ sweep.stop ≤ visit.stop

theorem InHand.nodup (h : InHand recovery sweep known) : sweep.packs.Nodup := by
  have hplaced := h.placed
  cases hcheckpoint : recovery.checkpoint with
  | none =>
      rw [hcheckpoint] at hplaced
      exact Cursor.Idle.nodup hplaced
  | some state =>
      rw [hcheckpoint] at hplaced
      exact hplaced.1.ascending.imp fun hlt => hlt.ne

theorem InHand.behind (h : InHand recovery sweep known) {pack : String} (mem : pack ∈ sweep.due)
    (hle : pack ≤ recovery.afterPack) : pack ∈ sweep.packs := by
  have hplaced := h.placed
  cases hcheckpoint : recovery.checkpoint with
  | none =>
      rw [hcheckpoint] at hplaced
      exact Cursor.Idle.passed hplaced mem hle
  | some state =>
      rw [hcheckpoint] at hplaced
      exact hplaced.1.behind mem hle

theorem InHand.accounted (h : InHand recovery sweep known)
    (inventory : sweep.inventory ⊆ sweep.due) : Accounted sweep := by
  refine ⟨inventory, h.nodup, fun hcomplete pack mem => ?_⟩
  obtain ⟨-, hvisited⟩ := h.finished (h.complete.symm.trans hcomplete)
  obtain ⟨visit, hvisit, hpack⟩ := List.mem_map.mp (hvisited pack mem)
  exact ⟨visit, hvisit, hpack, h.windows visit hvisit⟩

/-- Between two turns. -/
inductive Progress.Holds (plan : Plan) (known : List String) : Progress → Prop
  | start : Holds plan known Progress.start
  | swept {recovery : Recovery} {sweep : Sweep} {earlier : List Sweep}
      (hand : InHand recovery.stored sweep known) (linked : Linked plan (sweep :: earlier))
      (accounted : ∀ s ∈ sweep :: earlier, Accounted s) :
      Holds plan known ⟨some recovery.stored, sweep :: earlier⟩

theorem InHand.mono (h : InHand recovery sweep known) (hknown : known ⊆ packs) :
    InHand recovery sweep packs :=
  ⟨h.start, h.stop, h.whole, fun _ mem => hknown (h.known mem), h.windows, h.placed, h.complete,
    h.finished⟩

theorem Progress.Holds.mono {plan : Plan} {progress : Progress}
    (h : Progress.Holds plan known progress) (hknown : known ⊆ packs) :
    Progress.Holds plan packs progress := by
  cases h with
  | start => exact .start
  | swept hand linked accounted => exact .swept (hand.mono hknown) linked accounted

section

variable {reading : Reading} {plan : Plan} {turn : Turn} {outcome : Outcome}

/-- The turn that begins a sweep finds every pack of the orders. -/
theorem opening_step {start : Int} (whole : Value.floorMs start = start)
    (h : advanceSweep reading plan (.opening start turn.now) turn = .ok outcome) :
    let sweep := (Sweep.opened outcome.recovery.stored (packsOf reading turn.orders)).extend outcome
    InHand outcome.recovery.stored sweep (packsOf reading turn.orders) ∧ Accounted sweep ∧
      sweep.start = start := by
  have hfirst : InHand (Recovery.opening start turn.now) _ [] :=
    opening_inHand whole (packsOf reading turn.orders)
  obtain ⟨hhand, hdue⟩ := advanceSweep_inHand hfirst (List.nil_subset _) rfl h
  have hopened : Sweep.opened outcome.recovery.stored (packsOf reading turn.orders) =
      Sweep.opened (Recovery.opening start turn.now).stored (packsOf reading turn.orders) := by
    rw [Sweep.opened, Sweep.opened]
    have hstart : Value.floorMs start = outcome.recovery.sweepStart := hhand.start
    have hstop : Value.floorMs turn.now = Value.floorMs outcome.recovery.sweepEnd := hhand.stop
    rw [show outcome.recovery.stored.sweepStart = Value.floorMs outcome.recovery.sweepStart from
      rfl, hhand.whole, ← hstart, show outcome.recovery.stored.sweepEnd =
      Value.floorMs outcome.recovery.sweepEnd from rfl, ← hstop]
    rfl
  rw [hopened]
  refine ⟨hhand.stored, hhand.accounted ?_, whole⟩
  change packsOf reading turn.orders ⊆ [] ++ outcome.due
  rw [List.nil_append, hdue rfl]
  exact fun pack mem => mem_aheadOf.mpr ⟨mem, pos_of_mem_packsOf mem⟩

/-- A sweep goes on. -/
theorem continuing_step (h : InHand recovery sweep known) (accounted : Accounted sweep)
    (hknown : known ⊆ packsOf reading turn.orders) (unfinished : recovery.sweepComplete = false)
    (hadvance : advanceSweep reading plan recovery turn = .ok outcome) :
    InHand outcome.recovery.stored (sweep.extend outcome) (packsOf reading turn.orders) ∧
      Accounted (sweep.extend outcome) := by
  obtain ⟨hhand, -⟩ := advanceSweep_inHand h hknown unfinished hadvance
  exact ⟨hhand.stored, hhand.accounted fun pack mem =>
    List.mem_append_left _ (accounted.inventory mem)⟩

theorem Linked.extend {sweep other : Sweep} {earlier : List Sweep}
    (h : Linked plan (sweep :: earlier)) (start : other.start = sweep.start) :
    Linked plan (other :: earlier) := by
  cases h with
  | first hfirst => exact .first (start.trans hfirst)
  | next hnext complete rest => exact .next (start.trans hnext) complete rest

theorem advance_ok {last : Option Recovery}
    (h : advancePeriodicMessages reading plan last turn = .ok (some outcome)) :
    advanceSweep reading plan (sweepOf plan turn.now last) turn = .ok outcome := by
  rw [advancePeriodicMessages] at h
  split at h
  case isTrue => cases h
  case isFalse =>
      cases hadvance : advanceSweep reading plan (sweepOf plan turn.now last) turn with
      | error error =>
          rw [hadvance] at h
          cases h
      | ok other =>
          rw [hadvance] at h
          obtain rfl := Option.some_inj.mp (Except.ok.inj h)
          rfl

/-- One turn of a run. -/
theorem resume_holds {progress : Progress} (h : Progress.Holds plan known progress)
    (hknown : known ⊆ packsOf reading turn.orders) :
    Progress.Holds plan (packsOf reading turn.orders) (progress.resume reading plan turn) := by
  rw [Progress.resume]
  split
  case h_2 => exact h.mono hknown
  case h_1 outcome hok =>
      have hadvance := advance_ok hok
      cases hsaved : turn.saved with
      | false => exact h.mono hknown
      | true =>
          rw [if_pos rfl]
          cases h with
          | start =>
              obtain ⟨hhand, haccounted, hstart⟩ := opening_step plan.firstStart_stored hadvance
              exact .swept hhand (.first hstart) (List.forall_mem_singleton.mpr haccounted)
          | @swept recovery sweep earlier hand linked accounted =>
              have hadvance : advanceSweep reading plan
                  (sweepOf plan turn.now (some recovery.stored)) turn = .ok outcome := hadvance
              change Progress.Holds plan _ ⟨_, if recovery.stored.sweepComplete then
                (Sweep.opened outcome.recovery.stored (packsOf reading turn.orders)).extend
                  outcome :: sweep :: earlier
                else sweep.extend outcome :: earlier⟩
              cases hover : recovery.stored.sweepComplete with
              | true =>
                  rw [sweepOf, if_pos hover] at hadvance
                  obtain ⟨hhand, haccounted, hstart⟩ :=
                    opening_step (floorMs_sub_minutes (floorMs_floorMs _) 5) hadvance
                  have hstop : sweep.stop = recovery.stored.sweepEnd :=
                    hand.stop.trans (floorMs_floorMs _)
                  rw [if_pos rfl]
                  exact .swept hhand (.next (hstop ▸ hstart) (hand.complete.trans hover) linked)
                    (List.forall_mem_cons.mpr ⟨haccounted, accounted⟩)
              | false =>
                  rw [sweepOf, if_neg (hover ▸ Bool.false_ne_true)] at hadvance
                  obtain ⟨hhand, haccounted⟩ := continuing_step hand
                    (accounted sweep List.mem_cons_self) hknown hover hadvance
                  rw [if_neg Bool.false_ne_true]
                  exact .swept hhand (linked.extend rfl)
                    (List.forall_mem_cons.mpr ⟨haccounted, (List.forall_mem_cons.mp accounted).2⟩)

/-- A run of turns. -/
theorem run_holds {turns : List Turn} {progress : Progress}
    (h : Progress.Holds plan known progress)
    (hknown : ∀ turn ∈ turns, known ⊆ packsOf reading turn.orders)
    (growing : Growing reading turns) :
    ∃ known', Progress.Holds plan known' (turns.foldl (Progress.resume reading plan) progress) := by
  induction turns generalizing known progress with
  | nil => exact ⟨known, h⟩
  | cons turn rest ih =>
      obtain ⟨hlater, hrest⟩ := List.pairwise_cons.mp growing
      exact ih (resume_holds h (hknown turn List.mem_cons_self)) hlater hrest

theorem Linked.complete {sweep : Sweep} {earlier : List Sweep}
    (h : Linked plan (sweep :: earlier)) : ∀ s ∈ earlier, s.complete = true := by
  induction earlier generalizing sweep with
  | nil => simp
  | cons last older ih =>
      cases h with
      | next _ complete rest => exact List.forall_mem_cons.mpr ⟨complete, ih rest⟩

/-- The first sweep that ends after an instant has it in its window. -/
theorem Linked.first_window {sweeps : List Sweep} (h : Linked plan sweeps) {t : Int}
    (after : plan.firstStart ≤ t)
    (ended : ∃ sweep ∈ sweeps, sweep.complete = true ∧ t < sweep.stop) :
    ∃ later sweep earlier, sweeps = later ++ sweep :: earlier ∧ sweep.complete = true ∧
      (∀ s ∈ earlier, s.stop ≤ t) ∧ sweep.start ≤ t ∧ t < sweep.stop := by
  induction h with
  | @first sweep start =>
      obtain ⟨other, mem, hcomplete, hlt⟩ := ended
      obtain rfl := List.mem_singleton.mp mem
      exact ⟨[], other, [], rfl, hcomplete, by simp, start.le.trans after, hlt⟩
  | @next sweep last earlier start complete rest ih =>
      by_cases hearlier : ∃ s ∈ last :: earlier, t < s.stop
      · obtain ⟨s, mem, hlt⟩ := hearlier
        have hall : ∀ s ∈ last :: earlier, s.complete = true :=
          List.forall_mem_cons.mpr ⟨complete, rest.complete⟩
        obtain ⟨later, found, older, heq, hfound⟩ := ih ⟨s, mem, hall s mem, hlt⟩
        exact ⟨sweep :: later, found, older, congrArg (sweep :: ·) heq, hfound⟩
      · have hbefore (s : Sweep) (mem : s ∈ last :: earlier) : s.stop ≤ t :=
          not_lt.mp fun hlt => hearlier ⟨s, mem, hlt⟩
        obtain ⟨other, mem, hcomplete, hlt⟩ := ended
        obtain rfl | mem := List.mem_cons.mp mem
        · have hlast := hbefore last List.mem_cons_self
          refine ⟨[], other, last :: earlier, rfl, hcomplete, hbefore, ?_, hlt⟩
          rw [start, minutes]
          omega
        · exact absurd ⟨other, mem, hlt⟩ hearlier

/-- What a run of turns has visited. -/
structure SweptRun (plan : Plan) (progress : Progress) : Prop where
  /-- The first completed sweep that ends after an instant has visited, with a window that has
  the instant, every pack that it found ahead of its cursor. -/
  covered : ∀ t, plan.firstStart ≤ t →
    (∃ sweep ∈ progress.sweeps, sweep.complete = true ∧ t < sweep.stop) →
    ∃ later sweep earlier, progress.sweeps = later ++ sweep :: earlier ∧
      sweep.complete = true ∧ (∀ s ∈ earlier, s.stop ≤ t) ∧ t < sweep.stop ∧
      sweep.inventory ⊆ sweep.due ∧ ∀ pack ∈ sweep.due, ∃ visit ∈ sweep.visits,
        visit.pack = pack ∧ visit.start ≤ t ∧ t < visit.stop
  once : ∀ sweep ∈ progress.sweeps, sweep.packs.Nodup
  /-- The cursor is not past a pack that was not visited. -/
  behind : ∀ recovery sweep earlier, progress.recovery = some recovery →
    progress.sweeps = sweep :: earlier →
    ∀ pack ∈ sweep.due, pack ≤ recovery.afterPack → pack ∈ sweep.packs

theorem swept (reading : Reading) (plan : Plan) (turns : List Turn)
    (growing : Growing reading turns) :
    SweptRun plan (turns.foldl (Progress.resume reading plan) Progress.start) := by
  have hstart : Progress.Holds plan [] Progress.start := .start
  obtain ⟨known, hholds⟩ := run_holds hstart (fun turn _ => List.nil_subset _) growing
  generalize turns.foldl (Progress.resume reading plan) Progress.start = progress at hholds
  cases hholds with
  | start =>
      refine ⟨fun t _ ⟨_, mem, _⟩ => ?_, fun _ mem => ?_, fun _ _ _ h => ?_⟩
      · cases mem
      · cases mem
      · cases h
  | @swept recovery sweep earlier hand linked accounted =>
      refine ⟨fun t after ended => ?_, fun s mem => (accounted s mem).once, ?_⟩
      · obtain ⟨later, found, older, heq, hcomplete, hbefore, hstart, hlt⟩ :=
          linked.first_window after ended
        have haccounted := accounted found (heq ▸ by simp)
        refine ⟨later, found, older, heq, hcomplete, hbefore, hlt, haccounted.inventory,
          fun pack mem => ?_⟩
        obtain ⟨visit, hvisit, hpack, hvisitStart, hvisitStop⟩ :=
          haccounted.visited hcomplete pack mem
        exact ⟨visit, hvisit, hpack, hvisitStart.le.trans hstart, hlt.trans_le hvisitStop⟩
      · intro recovery' sweep' earlier' hrecovery hsweeps pack mem hle
        obtain rfl := Option.some_inj.mp hrecovery
        obtain ⟨rfl, -⟩ := List.cons.inj hsweeps
        exact hand.behind mem hle

/-! ### A pack that comes late -/

/-- Packs that are in the orders before the next sweep begins were visited for every instant
before the end of a completed sweep. -/
def Gapless (plan : Plan) (sweeps : List Sweep) : Prop :=
  ∀ later next sweep earlier, sweeps = later ++ next :: sweep :: earlier →
    sweep.complete = true → ∀ pack ∈ next.inventory, ∀ t, plan.firstStart ≤ t → t < sweep.stop →
      ∃ done ∈ sweeps, done.complete = true ∧ ∃ visit ∈ done.visits,
        visit.pack = pack ∧ visit.start ≤ t ∧ t < visit.stop

def lateReading : Reading := ⟨identityText, fun _ _ _ => none⟩

def latePlan : Plan := ⟨"1", 0, 3600000000, rfl, rfl⟩

/-- A turn in which every pack has one empty page. -/
def emptyTurn (now : Int) (packs : List String) : Turn where
  now := now
  orders := packs.map .string
  answer _ := .page (.document
    [("paging", .document [("total", .int 0)]), ("messages", .array [])])
  upsert _ _ := .ok true
  saved := true

/-- A pack comes into the orders after the first sweep. -/
def lateTurns : List Turn := [emptyTurn 7200000000 ["5"], emptyTurn 9000000000 ["3", "5"]]

theorem lateTurns_growing : Growing lateReading lateTurns := by
  refine List.pairwise_pair.mpr ?_
  decide +kernel

theorem lateTurns_sweeps :
    (lateTurns.foldl (Progress.resume lateReading latePlan) Progress.start).sweeps =
      [⟨6900000000, 9000000000, ["3", "5"], ["3", "5"],
          [⟨"3", 6900000000, 9000000000⟩, ⟨"5", 6900000000, 9000000000⟩], true⟩,
        ⟨3300000000, 7200000000, ["5"], ["5"], [⟨"5", 3300000000, 7200000000⟩], true⟩] := by
  decide +kernel

theorem late_pack_missed : Growing lateReading lateTurns ∧
    ¬ Gapless latePlan (lateTurns.foldl (Progress.resume lateReading latePlan)
      Progress.start).sweeps := by
  refine ⟨lateTurns_growing, fun h => ?_⟩
  rw [lateTurns_sweeps] at h
  -- The second sweep has the pack, with a window that starts long after the first instant.
  exact absurd (h [] _ _ [] rfl rfl "3" (by decide) 3300000000 (by decide) (by decide))
    (by decide)

theorem swept_lateTurns : SweptRun latePlan
    (lateTurns.foldl (Progress.resume lateReading latePlan) Progress.start) :=
  swept lateReading latePlan lateTurns lateTurns_growing

end

end ZelerPlatform.Sheets.Messages
