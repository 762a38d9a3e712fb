import ZelerPlatform.History.Conservation
import Mathlib.Data.String.Basic

/-!
# The daily maintenance budget

A maintenance charge first rolls the plan over to its own day, unless the plan is on that
day already, and then charges. The rollover compares days for difference, so a call that
took its day before midnight can roll the plan back after another call has rolled it
over, and the day it returns to starts again from zero.

Where every rollover goes forward, the budget of each day holds, in total and for each
source. The two bounds are one argument about a `Quota`.
-/

namespace ZelerPlatform.History

open Transition

/-! ### Quotas -/

/-- What is counted by day: all charges, or those of one source. -/
inductive Quota
  | total
  | source (source : Source)

namespace Quota

def covers : Quota → Source → Bool
  | total, _ => true
  | source own, other => own = other

def counter (plan : Plan) : Quota → Option Int
  | total => plan.incrementalConsumed
  | source own => plan.incrementalSourceConsumed own

def max (policy : IncrementalPolicy) : Quota → Int
  | total => policy.maxDailyTotal
  | source _ => policy.maxDailySource

end Quota

/-- A maintenance charge for `day` that counts against `quota`. -/
def Event.spends (quota : Quota) (day : String) : Event → Bool
  | .chargedDaily source own _ => quota.covers source && own == day
  | .chargedWork source own => quota.covers source && own == day
  | _ => false

/-- The checks of `_validate_legacy` on the daily budget. -/
structure DailyValid (plan : Plan) : Prop where
  policy : ∀ quota : Quota, 0 ≤ quota.max plan.incrementalPolicy
  counters : ∀ quota : Quota, 0 ≤ (quota.counter plan).getD 0

/-- A rollover finds no day or an earlier one; a charge finds its counters, or a maximum
that leaves room for it without them. -/
def InOrder {ι : Type*} (pool : Pool ι Plan Control) : Event → Prop
  | .rolledOver day => ∀ stored ∈ pool.shared.incrementalDay, stored < day
  | .chargedDaily source _ _ | .chargedWork source _ => ∀ quota : Quota, quota.covers source →
      (quota.counter pool.shared).isSome ∨ 1 ≤ quota.max pool.shared.incrementalPolicy
  | _ => True

/-! ### The invariant -/

/-- Days before the stored one are closed, days after it have not begun, and the counter
bounds what the stored day has spent. -/
structure WithinDay (policy : IncrementalPolicy) (quota : Quota) (events : List Event)
    (plan : Plan) : Prop where
  fixed : plan.incrementalPolicy = policy
  counter_nonneg : 0 ≤ (quota.counter plan).getD 0
  spent_le_max : ∀ day, (events.countP (·.spends quota day) : Int) ≤ quota.max policy
  stored : ∀ day ∈ plan.incrementalDay,
    (events.countP (·.spends quota day) : Int) ≤ (quota.counter plan).getD 0
  later : ∀ day, (∀ stored ∈ plan.incrementalDay, stored < day) →
    events.countP (·.spends quota day) = 0

namespace WithinDay

variable {policy : IncrementalPolicy} {quota : Quota} {events : List Event} {plan plan' : Plan}

theorem start (valid : DailyValid plan) : WithinDay plan.incrementalPolicy quota [] plan where
  fixed := rfl
  counter_nonneg := valid.counters quota
  spent_le_max _ := by simpa using valid.policy quota
  stored _ _ := by simpa using valid.counters quota
  later _ _ := rfl

/-- Steps that leave the daily budget as it is. -/
theorem skip (h : WithinDay policy quota events plan) {e : Event}
    (hpolicy : plan'.incrementalPolicy = plan.incrementalPolicy)
    (hday : plan'.incrementalDay = plan.incrementalDay)
    (hcounter : quota.counter plan' = quota.counter plan)
    (hspends : ∀ day, e.spends quota day = false) :
    WithinDay policy quota (events ++ [e]) plan' where
  fixed := hpolicy.trans h.fixed
  counter_nonneg := by simpa [hcounter] using h.counter_nonneg
  spent_le_max day := by simpa [hspends day] using h.spent_le_max day
  stored day hstored := by
    simpa [hspends day, hcounter] using h.stored day (by simpa [hday] using hstored)
  later day hlater := by
    simpa [hspends day] using h.later day (by simpa [hday] using hlater)

theorem rollover (h : WithinDay policy quota events plan) {t : Ticket}
    (hreset : resetDay t plan = some plan')
    (forward : ∀ stored ∈ plan.incrementalDay, stored < t.day) :
    WithinDay policy quota (events ++ [.rolledOver t.day]) plan' := by
  obtain ⟨_, _, rfl⟩ := resetDay_cases hreset
  have hzero : (quota.counter { plan with
      incrementalDay := some t.day
      incrementalConsumed := some 0
      incrementalSourceConsumed := fun _ => some 0 }).getD 0 = 0 := by
    cases quota <;> rfl
  constructor
  case fixed => exact h.fixed
  case counter_nonneg => rw [hzero]
  case spent_le_max =>
    intro day
    simpa [Event.spends] using h.spent_le_max day
  case stored =>
    rintro day hday
    obtain rfl : t.day = day := by simpa using hday
    rw [hzero]
    simpa [Event.spends] using h.later t.day forward
  case later =>
    intro day hlater
    have hafter : t.day < day := hlater t.day rfl
    simpa [Event.spends] using
      h.later day fun stored hstored => (forward stored hstored).trans hafter

/-- A maintenance charge, with or without a receipt, raises the counters its source has. -/
theorem charge (h : WithinDay policy quota events plan) {t : Ticket}
    (hcharge : chargeIncremental t plan = some plan')
    (counted : quota.covers t.gateway.source = true →
      (quota.counter plan).isSome ∨ 1 ≤ quota.max plan.incrementalPolicy) :
    WithinDay policy quota (events ++ [t.dailyEvent]) plan' := by
  obtain ⟨_, hday, htotal, hsource, rfl⟩ := chargeIncremental_cases hcharge
  have hspends : ∀ day, t.dailyEvent.spends quota day =
      (quota.covers t.gateway.source && t.day == day) := by
    intro day
    unfold Ticket.dailyEvent
    split <;> rfl
  have hbelow : quota.covers t.gateway.source = true →
      below (quota.counter plan) (quota.max plan.incrementalPolicy) = true := by
    cases quota with
    | total => exact fun _ => htotal
    | source own =>
        intro hown
        obtain rfl : own = t.gateway.source := by simpa [Quota.covers] using hown
        exact hsource
  by_cases hcovers : quota.covers t.gateway.source = true
  case neg =>
    refine h.skip rfl rfl ?_ fun day => by simp [hspends, hcovers]
    cases quota with
    | total => exact absurd rfl hcovers
    | source own =>
        have hne : own ≠ t.gateway.source := by simpa [Quota.covers] using hcovers
        simp [Quota.counter, Function.update_of_ne hne]
  have hcounter : ∀ plan'' : Plan,
      plan''.incrementalConsumed = increment plan.incrementalConsumed →
      plan''.incrementalSourceConsumed = Function.update plan.incrementalSourceConsumed
        t.gateway.source (increment (plan.incrementalSourceConsumed t.gateway.source)) →
      (quota.counter plan'').getD 0 = (quota.counter plan).getD 0 + 1 := by
    intro plan'' hconsumed hsources
    cases quota with
    | total => simp [Quota.counter, hconsumed]
    | source own =>
        obtain rfl : own = t.gateway.source := by simpa [Quota.covers] using hcovers
        simp [Quota.counter, hsources]
  have hroom : (quota.counter plan).getD 0 + 1 ≤ quota.max policy := by
    have hb := hbelow hcovers
    have hc := counted hcovers
    rw [h.fixed] at hb hc
    cases hq : quota.counter plan with
    | none => simpa [hq] using hc
    | some n =>
        have : n < quota.max policy := by simpa [below, hq] using hb
        simp only [Option.getD_some]
        omega
  have hstored := h.stored t.day (by simp [hday])
  have hcount : ∀ day, (events ++ [t.dailyEvent]).countP (·.spends quota day) =
      events.countP (·.spends quota day) + if t.day = day then 1 else 0 := by
    intro day
    by_cases hd : t.day = day <;> simp [hspends, hcovers, hd]
  constructor
  case fixed => exact h.fixed
  case counter_nonneg =>
    rw [hcounter _ rfl rfl]
    have := h.counter_nonneg
    omega
  case spent_le_max =>
    intro day
    rw [hcount]
    split
    · subst_vars
      push_cast
      omega
    · simpa using h.spent_le_max day
  case stored =>
    intro day hmem
    obtain rfl : t.day = day := by simpa [hday] using hmem
    rw [hcount, hcounter _ rfl rfl, if_pos rfl]
    push_cast
    omega
  case later =>
    intro day hlater
    have hlt : t.day < day := hlater t.day (by simp [hday])
    rw [hcount, if_neg hlt.ne, h.later day hlater]

theorem move (h : WithinDay policy quota events plan) {control control' : Control} {e : Event}
    {ι : Type*} {all : ι → Control} (order : InOrder ⟨plan, all⟩ e)
    (hmove : Move control plan e control' plan') : WithinDay policy quota (events ++ [e]) plan' := by
  cases hmove with
  | begin | abandon | keep | readPilot => exact h.skip rfl rfl rfl fun _ => rfl
  | initial _ hcharge =>
      obtain ⟨_, _, _, rfl⟩ := chargeInitial_cases hcharge
      exact h.skip rfl rfl (by cases quota <;> rfl) fun _ => rfl
  | rollover _ _ hreset => exact h.rollover hreset order
  | @incremental t _ _ hcharge =>
      refine h.charge hcharge fun hcovers => ?_
      unfold Ticket.dailyEvent at order
      split at order <;> exact order quota hcovers
  | pilot hsend =>
      obtain ⟨_, _, rfl⟩ := reservePilotGetSend_cases hsend
      exact h.skip rfl rfl (by cases quota <;> rfl) fun _ => rfl
  | history hsend =>
      obtain ⟨_, _, rfl⟩ := reserveHistorySend_cases hsend
      exact h.skip rfl rfl (by cases quota <;> rfl) fun _ => rfl
  | work hsend =>
      obtain ⟨_, _, _, _, _, rfl⟩ := reserveHistoryWorkSend_cases hsend
      exact h.skip rfl rfl (by cases quota <;> rfl) fun _ => rfl

theorem operate (h : WithinDay policy quota events plan) {e : Event}
    (hop : Operate plan e plan') : WithinDay policy quota (events ++ [e]) plan' := by
  obtain ⟨⟨_, _, _, _, _, _, _, _, _, hday, hconsumed, hsources, hpolicy⟩, _⟩ := hop
  refine h.skip hpolicy hday ?_ fun _ => rfl
  cases quota with
  | total => exact hconsumed
  | source own => simp [Quota.counter, hsources]

end WithinDay

/-- Where rollovers go forward, no day is charged more often than its quotas allow. -/
theorem daily_budget_kept {ι : Type*} [DecidableEq ι] {start pool : Pool ι Plan Control}
    {events : List Event} (valid : DailyValid start.shared)
    (run : Run (restrict (Step ι) InOrder) start events pool) (quota : Quota) (day : String) :
    (events.countP (·.spends quota day) : Int) ≤ quota.max start.shared.incrementalPolicy := by
  have hrun := run.invariant
    (P := fun events pool => WithinDay start.shared.incrementalPolicy quota events pool.shared)
    (.start valid) (by
      rintro es pool e pool' _ h ⟨order, hstep⟩
      cases hstep with
      | move i hmove => exact h.move order hmove
      | env hop => exact h.operate hop)
  exact hrun.spent_le_max day

/-! ### One call that straddles midnight -/

/-- `linkedPlan` before an operator bounds its execution. -/
def unlimitedPlan : Plan := { linkedPlan with executionAttemptLimit := none }

/-- A maintenance call on the orders of `unlimitedPlan` whose clock shows `now` throughout. -/
def maintenanceTicket (now : Int) : Ticket where
  gateway := { ordersGateway with incremental := true }
  execution := linkedPlan.executionId
  credit := some { ordersCredit with phase := .maintenance }
  clock := fun _ => now
  work_credit := by rintro ⟨⟩

private theorem unlimitedPlan_dailyValid : DailyValid unlimitedPlan where
  policy quota := by cases quota <;> exact Int.one_pos.le
  counters quota := by cases quota <;> exact le_rfl

private theorem begin_maintenance (now : Int) :
    Move .idle unlimitedPlan .local (.charging (maintenanceTicket now)) unlimitedPlan :=
  .begin (maintenanceTicket now).gateway true true now now (fun _ => now) (some unlimitedPlan)
    (by simp) rfl

/-- Within one day the single maintenance request of that plan is charged once. -/
theorem daily_budget_kept_one_charge :
    ∃ events, ∃ pool : Pool Unit Plan Control,
      Run (restrict (Step Unit) InOrder) ⟨unlimitedPlan, fun _ => .idle⟩ events pool ∧
      events.countP (·.spends .total "1970-01-01") = 1 ∧
      (events.countP (·.spends .total "1970-01-01") : Int) ≤ 1 := by
  obtain ⟨charged, h⟩ := Option.isSome_iff_exists.mp
    (by decide : ((resetDay (maintenanceTicket 0) unlimitedPlan).bind
      (chargeIncremental (maintenanceTicket 0))).isSome = true)
  obtain ⟨reset, hreset, hcharge⟩ := Option.bind_eq_some_iff.mp h
  have hpolicy : reset.incrementalPolicy = unlimitedPlan.incrementalPolicy := by
    obtain ⟨_, _, rfl⟩ := resetDay_cases hreset
    rfl
  let start : Pool Unit Plan Control := ⟨unlimitedPlan, fun _ => .idle⟩
  have first : Run (restrict (Step Unit) InOrder) start _ _ :=
    Run.nil.snoc (e := .local) ⟨by simp [InOrder], .move () (begin_maintenance 0)⟩
  have second := first.snoc (e := .rolledOver (maintenanceTicket 0).day)
    ⟨by simp [InOrder, unlimitedPlan, linkedPlan], .move () (by simpa using .rollover rfl rfl hreset)⟩
  have third := second.snoc (e := (maintenanceTicket 0).dailyEvent)
    ⟨fun quota _ => .inr (by rw [hpolicy]; cases quota <;> exact le_rfl),
      .move () (by simpa using .incremental hcharge)⟩
  exact ⟨_, _, third, by decide, daily_budget_kept unlimitedPlan_dailyValid third .total _⟩

/-- Calls 0 and 1 take their day before midnight and call 2 after it. Call 1 rolls the
plan back from the day of call 2 and charges the day of call 0 once more. -/
theorem straddling_call_exceeds_daily_budget :
    ∃ start pool : Pool (Fin 3) Plan Control, ∃ events,
      (∀ i, start.control i = .idle) ∧ DailyValid start.shared ∧
      Run (Step (Fin 3)) start events pool ∧ (∀ e ∈ events, e.isChargedWork = false) ∧
      start.shared.incrementalPolicy.maxDailyTotal <
        events.countP (·.spends .total "1970-01-01") := by
  obtain ⟨p₅, h⟩ := Option.isSome_iff_exists.mp
    (by decide : (((((resetDay (maintenanceTicket 0) unlimitedPlan).bind
      (chargeIncremental (maintenanceTicket 0))).bind
      (resetDay (maintenanceTicket 86400000000))).bind
      (resetDay (maintenanceTicket 0))).bind
      (chargeIncremental (maintenanceTicket 0))).isSome = true)
  simp only [Option.bind_eq_some_iff] at h
  obtain ⟨p₄, ⟨p₃, ⟨p₂, ⟨p₁, reset₀, charge₀⟩, reset₂⟩, reset₁⟩, charge₁⟩ := h
  let start : Pool (Fin 3) Plan Control := ⟨unlimitedPlan, fun _ => .idle⟩
  have run : Run (Step (Fin 3)) start [] start := .nil
  have run := Pool.run_move run 0 rfl (begin_maintenance 0)
  have run := Pool.run_move run 1 rfl (begin_maintenance 0)
  have run := Pool.run_move run 2 rfl (begin_maintenance 86400000000)
  have run := Pool.run_move run 0 rfl (.rollover rfl rfl reset₀)
  have run := Pool.run_move run 0 rfl (.incremental charge₀)
  have run := Pool.run_move run 2 rfl (.rollover rfl rfl reset₂)
  have run := Pool.run_move run 1 rfl (.rollover rfl rfl reset₁)
  have run := Pool.run_move run 1 rfl (.incremental charge₁)
  exact ⟨start, _, _, fun _ => rfl, unlimitedPlan_dailyValid, run,
    by decide, by decide⟩

end ZelerPlatform.History
