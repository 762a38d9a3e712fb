import ZelerPlatform.History.Budget

/-!
# Credits are conserved

The system is any number of calls over one plan, and an operator who may move the
execution, its window and its attempt limit, but never lowers the limit. `Conserved`
relates the counters of the plan to one another and to what has happened since the plan
was admitted: what was sent was charged, each charge with or without a receipt is spent
by its own kind of send only, and no budget or limit is overdrawn.

One lemma for each update says what the update needs and what it changes; the invariant
follows from these lemmas, and the run theorem from the invariant.
-/

namespace ZelerPlatform.History

open Mongo Transition

/-! ### The system -/

/-- The control state of a call. -/
inductive Control
  | idle
  | charging (t : Ticket)
  | reset (t : Ticket)
  | pilot (t : PilotTicket)

/-- What a step did to the plan. -/
inductive Event
  | local
  | charged (credit : Option CreditPath)
  | rolledOver (day : String)
  | chargedDaily (source : Source) (day : String) (credit : Option CreditPath)
  | chargedWork (source : Source) (day : String)
  | historySent (path : CreditPath)
  | workSent
  | pilotSent
  | operated
  deriving DecidableEq

/-- The event of a maintenance charge. -/
def Ticket.dailyEvent (t : Ticket) : Event :=
  if t.gateway.work.isSome then .chargedWork t.gateway.source t.day
  else .chargedDaily t.gateway.source t.day t.credit

/-- One step of a call. -/
inductive Move : Control → Plan → Event → Control → Plan → Prop
  | begin {plan t} (gateway : PlanBudgetGateway) (live eligible : Bool) (now now' : Int)
      (clock : Nat → Int) (snapshot : Option Plan)
      (present : ∀ read ∈ snapshot, read = plan)
      (h : beginCharge gateway live eligible now now' clock snapshot = .ok t) :
      Move .idle plan .local (.charging t) plan
  | abandon {control plan} : Move control plan .local .idle plan
  | initial {t plan plan'} (kind : t.gateway.incremental = false)
      (h : chargeInitial t plan = some plan') :
      Move (.charging t) plan (.charged t.credit) .idle plan'
  | rollover {t plan plan'} (kind : t.gateway.incremental = true)
      (free : t.gateway.work = none) (h : resetDay t plan = some plan') :
      Move (.charging t) plan (.rolledOver t.day) (.reset t) plan'
  | keep {t plan} (kind : t.gateway.incremental = true)
      (h : t.gateway.work = none → resetDay t plan = none) :
      Move (.charging t) plan .local (.reset t) plan
  | incremental {t plan plan'} (h : chargeIncremental t plan = some plan') :
      Move (.reset t) plan t.dailyEvent .idle plan'
  | readPilot {seller now t plan} (h : readPilotPlan seller now plan = some t) :
      Move .idle plan .local (.pilot t) plan
  | pilot {t plan plan'} (h : reservePilotGetSend t plan = some plan') :
      Move (.pilot t) plan .pilotSent .idle plan'
  | history {send plan plan'} (h : reserveHistorySend send plan = some plan') :
      Move .idle plan (.historySent send.path) .idle plan'
  | work {send live plan plan'} (h : reserveHistoryWorkSend send live plan = some plan') :
      Move .idle plan .workSent .idle plan'

/-- The operator replaces what authorises the plan and what limits an execution. A new
limit is not below the old one or, where there was none, not below what is consumed. -/
inductive Operate : Plan → Event → Plan → Prop
  | intro {plan plan' : Plan}
      (counters : plan'.executionConsumed = plan.executionConsumed ∧
        plan'.executionSent = plan.executionSent ∧
        plan'.executionCharged = plan.executionCharged ∧
        plan'.executionSentBySource = plan.executionSentBySource ∧
        plan'.executionWorkSentBySource = plan.executionWorkSentBySource ∧
        plan'.executionWork = plan.executionWork ∧ plan'.budget = plan.budget ∧
        plan'.totalBudget = plan.totalBudget ∧ plan'.totalConsumed = plan.totalConsumed ∧
        plan'.incrementalDay = plan.incrementalDay ∧
        plan'.incrementalConsumed = plan.incrementalConsumed ∧
        plan'.incrementalSourceConsumed = plan.incrementalSourceConsumed ∧
        plan'.incrementalPolicy = plan.incrementalPolicy)
      (raised : ∀ l' ∈ plan'.limit?,
        (∃ l ∈ plan.limit?, l ≤ l') ∨ (plan.limit? = none ∧ plan.consumed ≤ l')) :
      Operate plan .operated plan'

/-- The calls, indexed by `ι`, over one plan. -/
abbrev Step (ι : Type*) [DecidableEq ι] :
    Pool ι Plan Control → Event → Pool ι Plan Control → Prop :=
  Pool.Step (fun _ => Move) Operate

/-! ### What admission promises -/

/-- The checks of `_validate_legacy` on budgets and limits, which admission makes on the
plan it leaves behind. -/
structure Admitted (plan : Plan) : Prop where
  total : plan.totalConsumed ≤ plan.totalBudget
  source : ∀ s, (plan.budget s).consumed ≤ (plan.budget s).physicalAttempts
  limit : ∀ l ∈ plan.limit?, 0 ≤ l

/-- All execution counters are zero or absent. -/
structure ExecutionCountersZero (plan : Plan) : Prop where
  consumed : plan.consumed = 0
  sent : plan.sent = 0
  charged : ∀ entry ∈ plan.executionCharged, entry.2 = 0
  sentBySource : ∀ entry ∈ plan.executionSentBySource, entry.2 = 0
  workSentBySource : ∀ entry ∈ plan.executionWorkSentBySource, entry.2 = 0
  work : plan.executionWork = []

/-! ### The invariant -/

def receiptsSent (receipts : List (String × WorkReceipt)) : Int :=
  (receipts.map fun entry => entry.2.sent).sum

/-- Charges without a receipt that credited `path`. -/
def Event.credits (path : CreditPath) : Event → Bool
  | .charged credit => credit == some path
  | .chargedDaily _ _ credit => credit == some path
  | _ => false

def Event.isChargedWork : Event → Bool
  | .chargedWork _ _ => true
  | _ => false

/-- The counters of a plan, related to one another and to the events since admission. -/
structure Conserved (events : List Event) (plan : Plan) : Prop where
  sent_nonneg : 0 ≤ plan.sent
  sent_le_consumed : plan.sent ≤ plan.consumed
  consumed_le_limit : ∀ l ∈ plan.limit?, plan.consumed ≤ l
  sent_le_charged : ∀ path,
    plan.executionSentBySource.val path ≤ plan.executionCharged.val path
  receipt : ∀ entry ∈ plan.executionWork,
    0 ≤ entry.2.sent ∧ entry.2.sent ≤ entry.2.credit ∧ entry.2.credit = 1
  total : plan.totalConsumed ≤ plan.totalBudget
  source : ∀ s, (plan.budget s).consumed ≤ (plan.budget s).physicalAttempts
  conservation : plan.sent = events.count .pilotSent + plan.executionSentBySource.total +
    receiptsSent plan.executionWork
  historySends : ∀ path,
    (events.count (.historySent path) : Int) = plan.executionSentBySource.val path
  credits : ∀ path, (events.countP (·.credits path) : Int) = plan.executionCharged.val path
  workSends : (events.count .workSent : Int) = receiptsSent plan.executionWork
  workSentBySource : plan.executionWorkSentBySource.total = receiptsSent plan.executionWork
  workCharges : events.countP Event.isChargedWork = plan.executionWork.length

theorem Admitted.conserved {plan : Plan} (h : Admitted plan) (zero : ExecutionCountersZero plan) :
    Conserved [] plan where
  sent_nonneg := by rw [zero.sent]
  sent_le_consumed := by rw [zero.sent, zero.consumed]
  consumed_le_limit l hl := by
    rw [zero.consumed]
    exact h.limit l hl
  sent_le_charged path := by
    rw [Tally.val_eq_zero zero.charged, Tally.val_eq_zero zero.sentBySource]
  receipt := by simp [zero.work]
  total := h.total
  source := h.source
  conservation := by simp [zero.sent, zero.work, Tally.total_eq_zero zero.sentBySource,
    receiptsSent]
  historySends path := by simp [Tally.val_eq_zero zero.sentBySource]
  credits path := by simp [Tally.val_eq_zero zero.charged]
  workSends := by simp [zero.work, receiptsSent]
  workSentBySource := by simp [zero.work, Tally.total_eq_zero zero.workSentBySource, receiptsSent]
  workCharges := by simp [zero.work]

/-! ### What each update needs and changes -/

section
variable {t : Ticket} {plan plan' : Plan}

theorem owned_room {queryNow leaseNow : Int} (h : owned t queryNow leaseNow plan = true) :
    ∀ l ∈ plan.limit?, plan.consumed < l := by
  intro l hl
  simp only [owned, Bool.and_eq_true] at h
  exact Plan.consumed_lt_limit h.1.2 hl

theorem chargeInitial_cases (h : chargeInitial t plan = some plan') :
    (∀ l ∈ plan.limit?, plan.consumed < l) ∧
    (plan.budget t.gateway.source).consumed < (plan.budget t.gateway.source).physicalAttempts ∧
    plan.totalConsumed < plan.totalBudget ∧
    plan' = { plan with
      budget := spendBudget plan.budget t.gateway.source
      totalConsumed := plan.totalConsumed + 1
      executionConsumed := increment plan.executionConsumed
      executionCharged := creditLedger t.credit plan.executionCharged } := by
  simp only [chargeInitial, Option.ite_none_right_eq_some, Bool.and_eq_true,
    decide_eq_true_eq] at h
  obtain ⟨⟨⟨howned, hsource⟩, htotal⟩, hplan⟩ := h
  exact ⟨owned_room howned, hsource, htotal, (Option.some.inj hplan).symm⟩

theorem resetDay_cases (h : resetDay t plan = some plan') :
    incrementalOwned t plan = true ∧ plan.incrementalDay ≠ some t.day ∧
    plan' = { plan with
      incrementalDay := some t.day
      incrementalConsumed := some 0
      incrementalSourceConsumed := fun _ => some 0 } := by
  simp only [resetDay, Option.ite_none_right_eq_some, Bool.and_eq_true, bne_iff_ne] at h
  exact ⟨h.1.1, h.1.2, (Option.some.inj h.2).symm⟩

theorem chargeIncremental_cases (h : chargeIncremental t plan = some plan') :
    (∀ l ∈ plan.limit?, plan.consumed < l) ∧
    plan.incrementalDay = some t.day ∧
    below plan.incrementalConsumed plan.incrementalPolicy.maxDailyTotal = true ∧
    below (plan.incrementalSourceConsumed t.gateway.source)
      plan.incrementalPolicy.maxDailySource = true ∧
    plan' = { plan with
      incrementalConsumed := increment plan.incrementalConsumed
      incrementalSourceConsumed :=
        Function.update plan.incrementalSourceConsumed t.gateway.source
          (increment (plan.incrementalSourceConsumed t.gateway.source))
      executionConsumed := increment plan.executionConsumed
      executionCharged := creditLedger t.credit plan.executionCharged
      executionWork :=
        match t.gateway.work with
        | some attempt => plan.executionWork ++ [(attempt.nonce, attempt.intent.receipt attempt.path)]
        | none => plan.executionWork } := by
  simp only [chargeIncremental, Option.ite_none_right_eq_some, Bool.and_eq_true,
    beq_iff_eq] at h
  obtain ⟨⟨⟨⟨howned, hday⟩, htotal⟩, hsource⟩, hplan⟩ := h
  refine ⟨?_, hday, htotal, hsource, (Option.some.inj hplan).symm⟩
  simp only [incrementalOwned, Bool.and_eq_true] at howned
  exact owned_room howned.1

theorem reservePilotGetSend_cases {t : PilotTicket} (h : reservePilotGetSend t plan = some plan') :
    (∀ l ∈ plan.limit?, plan.consumed < l) ∧ plan.sent ≤ plan.consumed ∧
    plan' = { plan with
      executionConsumed := increment plan.executionConsumed
      executionSent := increment plan.executionSent } := by
  simp only [reservePilotGetSend, Option.ite_none_right_eq_some, Bool.and_eq_true,
    decide_eq_true_eq] at h
  obtain ⟨⟨⟨⟨_, hquery⟩, _⟩, hsent⟩, hplan⟩ := h
  exact ⟨fun l hl => Plan.consumed_lt_limit hquery hl, hsent, (Option.some.inj hplan).symm⟩

theorem reserveHistorySend_cases {send : HistorySend}
    (h : reserveHistorySend send plan = some plan') :
    plan.sent < plan.consumed ∧
    plan.executionSentBySource.val send.path < plan.executionCharged.val send.path ∧
    plan' = { plan with
      executionSent := increment plan.executionSent
      executionSentBySource := plan.executionSentBySource.inc send.path } := by
  simp only [reserveHistorySend, Option.ite_none_right_eq_some, Bool.and_eq_true,
    decide_eq_true_eq] at h
  obtain ⟨⟨⟨_, hsent⟩, hcredit⟩, hplan⟩ := h
  exact ⟨hsent, hcredit, (Option.some.inj hplan).symm⟩

theorem reserveHistoryWorkSend_cases {send : WorkSend} {live : WorkReceipt → Bool}
    (h : reserveHistoryWorkSend send live plan = some plan') :
    ∃ receipt, plan.executionWork.lookup send.workId = some receipt ∧
      receipt.credit = 1 ∧ receipt.sent = 0 ∧ plan.sent < plan.consumed ∧
      plan' = { plan with
        executionSent := increment plan.executionSent
        executionWorkSentBySource :=
          plan.executionWorkSentBySource.inc ⟨send.execution, send.source, send.phase⟩
        executionWork := spendReceipt send.workId plan.executionWork } := by
  simp only [reserveHistoryWorkSend, Option.bind_eq_bind, Option.bind_eq_some_iff,
    Option.ite_none_right_eq_some, Bool.and_eq_true, decide_eq_true_eq, beq_iff_eq] at h
  obtain ⟨_, _, receipt, hlookup, _, _, hfilter, hplan⟩ := h
  obtain ⟨⟨⟨⟨⟨⟨_, hcredit⟩, hfresh⟩, _⟩, _⟩, _⟩, hsent⟩ := hfilter
  exact ⟨receipt, hlookup, hcredit, hfresh, hsent, (Option.some.inj hplan).symm⟩

end

/-! ### Receipts -/

@[simp] theorem receiptsSent_append (receipts : List (String × WorkReceipt)) (nonce : String)
    (receipt : WorkReceipt) :
    receiptsSent (receipts ++ [(nonce, receipt)]) = receiptsSent receipts + receipt.sent := by
  simp [receiptsSent]

@[simp] theorem length_spendReceipt (workId : String) (receipts : List (String × WorkReceipt)) :
    (spendReceipt workId receipts).length = receipts.length := by
  induction receipts with
  | nil => rfl
  | cons entry rest ih =>
      unfold spendReceipt
      split <;> simp [ih]

theorem receiptsSent_spendReceipt {workId : String} {receipts : List (String × WorkReceipt)}
    {receipt : WorkReceipt} (h : receipts.lookup workId = some receipt) :
    receiptsSent (spendReceipt workId receipts) = receiptsSent receipts + 1 := by
  induction receipts with
  | nil => simp at h
  | cons entry rest ih =>
      obtain ⟨nonce, head⟩ := entry
      by_cases hnonce : nonce = workId
      · simp only [spendReceipt, if_pos hnonce, receiptsSent, List.map_cons, List.sum_cons]
        omega
      · have hrest : rest.lookup workId = some receipt := by
          rwa [List.lookup_cons, beq_false_of_ne (Ne.symm hnonce)] at h
        have := ih hrest
        simp only [spendReceipt, if_neg hnonce, receiptsSent, List.map_cons,
          List.sum_cons] at this ⊢
        omega

theorem mem_spendReceipt {workId : String} {receipts : List (String × WorkReceipt)}
    {receipt : WorkReceipt} (h : receipts.lookup workId = some receipt)
    {entry : String × WorkReceipt} (hentry : entry ∈ spendReceipt workId receipts) :
    entry ∈ receipts ∨ entry.2 = { receipt with sent := receipt.sent + 1 } := by
  induction receipts with
  | nil => simp at h
  | cons first rest ih =>
      obtain ⟨nonce, head⟩ := first
      by_cases hnonce : nonce = workId
      · subst hnonce
        obtain rfl : head = receipt := by simpa using h
        simp only [spendReceipt, if_pos, List.mem_cons] at hentry
        exact hentry.elim (fun he => .inr (by rw [he])) fun he => .inl (List.mem_cons_of_mem _ he)
      · rw [List.lookup_cons, beq_false_of_ne (Ne.symm hnonce)] at h
        simp only [spendReceipt, if_neg hnonce, List.mem_cons] at hentry
        rcases hentry with rfl | hentry
        · exact .inl (List.mem_cons_self ..)
        · exact (ih h hentry).imp_left (List.mem_cons_of_mem _)

/-! ### The invariant is preserved -/

namespace Conserved

variable {events : List Event} {plan plan' : Plan}

/-- Steps that touch no counter and count as no charge and no send. -/
theorem skip (h : Conserved events plan) {e : Event} (hpilot : e ≠ .pilotSent)
    (hwork : e ≠ .workSent) (hhistory : ∀ path, e ≠ .historySent path)
    (hcredits : ∀ path, e.credits path = false) (hcharge : e.isChargedWork = false) :
    Conserved (events ++ [e]) plan :=
  { h with
    conservation := by simpa [List.count_append, hpilot] using h.conservation
    historySends := fun path => by
      simpa [List.count_append, hhistory path] using h.historySends path
    credits := fun path => by simpa [hcredits path] using h.credits path
    workSends := by simpa [List.count_append, hwork] using h.workSends
    workCharges := by simpa [hcharge] using h.workCharges }

/-- A charge without a receipt. -/
theorem charge (h : Conserved events plan) {e : Event} {credit : Option CreditPath}
    (room : ∀ l ∈ plan.limit?, plan.consumed < l)
    (hpilot : e ≠ .pilotSent) (hwork : e ≠ .workSent) (hhistory : ∀ path, e ≠ .historySent path)
    (hcredits : ∀ path, e.credits path = (credit == some path))
    (hcharge : e.isChargedWork = false) :
    Conserved (events ++ [e]) { plan with
      executionConsumed := increment plan.executionConsumed
      executionCharged := creditLedger credit plan.executionCharged } := by
  have hval : ∀ path, (creditLedger credit plan.executionCharged).val path =
      plan.executionCharged.val path + if credit = some path then 1 else 0 := by
    intro path
    cases credit with
    | none => simp [creditLedger]
    | some own => simp [creditLedger, Tally.val_inc]
  exact
    { h with
      sent_le_consumed := by
        have := h.sent_le_consumed
        simp only [Plan.sent, Plan.consumed, increment_getD] at this ⊢
        omega
      consumed_le_limit := fun l hl => room l hl
      sent_le_charged := fun path => by
        have := h.sent_le_charged path
        simp only [hval]
        split <;> omega
      conservation := by
        simpa [Plan.sent, List.count_append, hpilot] using h.conservation
      historySends := fun path => by
        simpa [List.count_append, hhistory path] using h.historySends path
      credits := fun path => by
        have := h.credits path
        rw [hval, List.countP_append, ← this]
        by_cases hp : credit = some path <;> simp [hcredits path, hp]
      workSends := by simpa [List.count_append, hwork] using h.workSends
      workCharges := by simpa [hcharge] using h.workCharges }

/-- A charge with a fresh receipt. -/
theorem chargeWork (h : Conserved events plan) {source : Source} {day nonce path : String}
    {intent : HistoryWorkIntent} (room : ∀ l ∈ plan.limit?, plan.consumed < l) :
    Conserved (events ++ [.chargedWork source day]) { plan with
      executionConsumed := increment plan.executionConsumed
      executionWork := plan.executionWork ++ [(nonce, intent.receipt path)] } :=
  { h with
    sent_le_consumed := by
      have := h.sent_le_consumed
      simp only [Plan.sent, Plan.consumed, increment_getD] at this ⊢
      omega
    consumed_le_limit := fun l hl => room l hl
    receipt := fun entry hentry => by
      rcases List.mem_append.mp hentry with hentry | hentry
      · exact h.receipt entry hentry
      · obtain rfl := List.mem_singleton.mp hentry
        exact ⟨le_rfl, Int.one_pos.le, rfl⟩
    conservation := by
      simpa [Plan.sent, List.count_append, HistoryWorkIntent.receipt] using h.conservation
    historySends := fun path => by simpa [List.count_append] using h.historySends path
    credits := fun path => by simpa [Event.credits] using h.credits path
    workSends := by simpa [List.count_append, HistoryWorkIntent.receipt] using h.workSends
    workSentBySource := by simpa [HistoryWorkIntent.receipt] using h.workSentBySource
    workCharges := by simpa [Event.isChargedWork] using h.workCharges }

theorem sendPilot (h : Conserved events plan) (room : ∀ l ∈ plan.limit?, plan.consumed < l) :
    Conserved (events ++ [.pilotSent]) { plan with
      executionConsumed := increment plan.executionConsumed
      executionSent := increment plan.executionSent } :=
  { h with
    sent_nonneg := by
      have := h.sent_nonneg
      simp only [Plan.sent, increment_getD] at this ⊢
      omega
    sent_le_consumed := by
      have := h.sent_le_consumed
      simp only [Plan.sent, Plan.consumed, increment_getD] at this ⊢
      omega
    consumed_le_limit := fun l hl => room l hl
    conservation := by
      have := h.conservation
      simp only [Plan.sent, increment_getD, List.count_append, List.count_singleton_self,
        Nat.cast_add, Nat.cast_one] at this ⊢
      omega
    historySends := fun path => by simpa [List.count_append] using h.historySends path
    credits := fun path => by simpa [Event.credits] using h.credits path
    workSends := by simpa [List.count_append] using h.workSends
    workCharges := by simpa [Event.isChargedWork] using h.workCharges }

theorem sendHistory (h : Conserved events plan) {path : CreditPath}
    (hsent : plan.sent < plan.consumed)
    (hcredit : plan.executionSentBySource.val path < plan.executionCharged.val path) :
    Conserved (events ++ [.historySent path]) { plan with
      executionSent := increment plan.executionSent
      executionSentBySource := plan.executionSentBySource.inc path } :=
  { h with
    sent_nonneg := by
      have := h.sent_nonneg
      simp only [Plan.sent, increment_getD] at this ⊢
      omega
    sent_le_consumed := by
      simp only [Plan.sent, Plan.consumed, increment_getD] at hsent ⊢
      omega
    sent_le_charged := fun other => by
      have := h.sent_le_charged other
      simp only [Tally.val_inc]
      split
      · subst_vars
        omega
      · omega
    conservation := by
      have := h.conservation
      simp only [Plan.sent, increment_getD, List.count_append, Tally.total_inc] at this ⊢
      simp
      omega
    historySends := fun other => by
      have := h.historySends other
      rw [Tally.val_inc, List.count_append, Nat.cast_add, this]
      by_cases ho : path = other <;> simp [ho]
    credits := fun other => by simpa [Event.credits] using h.credits other
    workSends := by simpa [List.count_append] using h.workSends
    workCharges := by simpa [Event.isChargedWork] using h.workCharges }

theorem sendWork (h : Conserved events plan) {workId : String} {receipt : WorkReceipt}
    {path : CreditPath} (hlookup : plan.executionWork.lookup workId = some receipt)
    (hcredit : receipt.credit = 1) (hfresh : receipt.sent = 0)
    (hsent : plan.sent < plan.consumed) :
    Conserved (events ++ [.workSent]) { plan with
      executionSent := increment plan.executionSent
      executionWorkSentBySource := plan.executionWorkSentBySource.inc path
      executionWork := spendReceipt workId plan.executionWork } :=
  { h with
    sent_nonneg := by
      have := h.sent_nonneg
      simp only [Plan.sent, increment_getD] at this ⊢
      omega
    sent_le_consumed := by
      simp only [Plan.sent, Plan.consumed, increment_getD] at hsent ⊢
      omega
    receipt := fun entry hentry => by
      rcases mem_spendReceipt hlookup hentry with hentry | hentry
      · exact h.receipt entry hentry
      · rw [hentry]
        simp [hcredit, hfresh]
    conservation := by
      have := h.conservation
      rw [receiptsSent_spendReceipt hlookup]
      simp only [Plan.sent, increment_getD, List.count_append] at this ⊢
      simp
      omega
    historySends := fun path => by simpa [List.count_append] using h.historySends path
    credits := fun path => by simpa [Event.credits] using h.credits path
    workSends := by
      have := h.workSends
      rw [receiptsSent_spendReceipt hlookup]
      simp [List.count_append, this]
    workSentBySource := by
      rw [receiptsSent_spendReceipt hlookup, Tally.total_inc, h.workSentBySource]
    workCharges := by simpa [Event.isChargedWork] using h.workCharges }

theorem chargeInitial {t : Ticket} (h : Conserved events plan)
    (hcharge : History.chargeInitial t plan = some plan') :
    Conserved (events ++ [.charged t.credit]) plan' := by
  obtain ⟨room, hsource, htotal, rfl⟩ := chargeInitial_cases hcharge
  have hcharged := h.charge (e := .charged t.credit) room (by simp) (by simp) (by simp)
    (fun _ => rfl) rfl
  exact
    { hcharged with
      total := Int.add_one_le_of_lt htotal
      source := fun s => by
        by_cases hs : s = t.gateway.source
        · subst hs
          simp only [spendBudget, Function.update_self]
          omega
        · simpa [spendBudget, Function.update_of_ne hs] using h.source s }

theorem chargeIncremental {t : Ticket} (h : Conserved events plan)
    (hcharge : History.chargeIncremental t plan = some plan') :
    Conserved (events ++ [t.dailyEvent]) plan' := by
  obtain ⟨room, _, _, _, rfl⟩ := chargeIncremental_cases hcharge
  cases hwork : t.gateway.work with
  | none =>
      have hevent : t.dailyEvent = .chargedDaily t.gateway.source t.day t.credit := by
        simp [Ticket.dailyEvent, hwork]
      rw [hevent]
      exact
        { h.charge (e := .chargedDaily t.gateway.source t.day t.credit) room (by simp) (by simp)
            (by simp) (fun _ => rfl) rfl with }
  | some attempt =>
      have hevent : t.dailyEvent = .chargedWork t.gateway.source t.day := by
        simp [Ticket.dailyEvent, hwork]
      have hcredit : t.credit = none := t.work_credit (by simp [hwork])
      rw [hevent, hcredit]
      exact { h.chargeWork room with }

theorem move {control control' : Control} {e : Event} (h : Conserved events plan)
    (hmove : Move control plan e control' plan') : Conserved (events ++ [e]) plan' := by
  cases hmove with
  | begin | abandon | keep | readPilot =>
      exact h.skip (by simp) (by simp) (by simp) (fun _ => rfl) rfl
  | initial _ hcharge => exact h.chargeInitial hcharge
  | @rollover t _ _ _ _ hreset =>
      obtain ⟨_, _, rfl⟩ := resetDay_cases hreset
      exact { h.skip (e := .rolledOver t.day) (by simp) (by simp) (by simp) (fun _ => rfl) rfl with }
  | incremental hcharge => exact h.chargeIncremental hcharge
  | pilot hsend =>
      obtain ⟨room, _, rfl⟩ := reservePilotGetSend_cases hsend
      exact h.sendPilot room
  | history hsend =>
      obtain ⟨hsent, hcredit, rfl⟩ := reserveHistorySend_cases hsend
      exact h.sendHistory hsent hcredit
  | work hsend =>
      obtain ⟨_, hlookup, hcredit, hfresh, hsent, rfl⟩ := reserveHistoryWorkSend_cases hsend
      exact h.sendWork hlookup hcredit hfresh hsent

theorem operate {e : Event} (h : Conserved events plan) (hop : Operate plan e plan') :
    Conserved (events ++ [e]) plan' := by
  obtain ⟨⟨hconsumed, hsent, hcharged, hsentBy, hworkBy, hwork, hbudget, htotalBudget, htotal, _⟩,
    raised⟩ := hop
  have hskip := h.skip (e := .operated) (by simp) (by simp) (by simp) (fun _ => rfl) rfl
  have hc : plan'.consumed = plan.consumed := by rw [Plan.consumed, hconsumed, Plan.consumed]
  have hs : plan'.sent = plan.sent := by rw [Plan.sent, hsent, Plan.sent]
  constructor
  case consumed_le_limit =>
    intro l' hl'
    rw [hc]
    obtain ⟨l, hl, hle⟩ | ⟨_, hle⟩ := raised l' hl'
    · exact (h.consumed_le_limit l hl).trans hle
    · exact hle
  all_goals simp only [hs, hc, hcharged, hsentBy, hworkBy, hwork, hbudget, htotalBudget, htotal]
  · exact hskip.sent_nonneg
  · exact hskip.sent_le_consumed
  · exact hskip.sent_le_charged
  · exact hskip.receipt
  · exact hskip.total
  · exact hskip.source
  · exact hskip.conservation
  · exact hskip.historySends
  · exact hskip.credits
  · exact hskip.workSends
  · exact hskip.workSentBySource
  · exact hskip.workCharges

end Conserved

/-- In every state that calls and the operator reach from an admitted plan whose execution
counters are zero or absent, the counters are conserved. -/
theorem credits_conserved {ι : Type*} [DecidableEq ι] {start pool : Pool ι Plan Control}
    {events : List Event} (admitted : Admitted start.shared)
    (zero : ExecutionCountersZero start.shared) (run : Run (Step ι) start events pool) :
    Conserved events pool.shared := by
  refine run.invariant (P := fun events pool => Conserved events pool.shared)
    (admitted.conserved zero) ?_
  intro es pool e pool' _ h hstep
  cases hstep with
  | move i hmove => exact h.move hmove
  | env hop => exact h.operate hop

/-- A plan as linking an account leaves it, with one request to spend. -/
def linkedPlan : Plan where
  sellerId := "1"
  policyVersion := policyVersion
  authorityKind := some "account_link_policy"
  state := "active"
  eligible := true
  sources := [.orders]
  leaseToken := none
  leaseUntil := none
  executionId := some "00000000000000000000000000000001"
  executionUntil := none
  executionUtcDay := none
  executionAttemptLimit := some (.int 1)
  executionConsumed := none
  executionSent := none
  executionCharged := []
  executionSentBySource := []
  executionWorkSentBySource := []
  executionWork := []
  budget := fun _ => ⟨1, 0⟩
  totalBudget := 1
  totalConsumed := 0
  incrementalDay := none
  incrementalConsumed := none
  incrementalSourceConsumed := fun _ => none
  incrementalPolicy := ⟨1, 1⟩

def ordersCredit : CreditPath := ⟨"00000000000000000000000000000001", .orders, .initial⟩

def ordersGateway : PlanBudgetGateway := ⟨"1", .orders, none, false, none, by simp⟩

def ordersTicket : Ticket :=
  ⟨ordersGateway, linkedPlan.executionId, some ordersCredit, fun _ => 0, by simp [ordersGateway]⟩

private theorem linkedPlan_admitted : Admitted linkedPlan where
  total := by decide
  source s := by cases s <;> decide
  limit := by simp [Plan.limit?, linkedPlan, Value.integer?]

private theorem linkedPlan_zero : ExecutionCountersZero linkedPlan := by
  constructor <;> simp [linkedPlan, Plan.consumed, Plan.sent]

/-- One request of that plan, charged and sent. -/
theorem credits_conserved_one_request :
    ∃ pool : Pool Unit Plan Control,
      Run (Step Unit) ⟨linkedPlan, fun _ => .idle⟩
        [.local, .charged (some ordersCredit), .historySent ordersCredit] pool ∧
      Conserved [.local, .charged (some ordersCredit), .historySent ordersCredit] pool.shared := by
  obtain ⟨charged, hcharge⟩ :=
    Option.isSome_iff_exists.mp (by decide : (chargeInitial ordersTicket linkedPlan).isSome = true)
  have hsend : ((chargeInitial ordersTicket linkedPlan).bind
      (reserveHistorySend ⟨"1", ordersCredit, false, 0⟩)).isSome = true := by decide
  rw [hcharge] at hsend
  obtain ⟨sent, hsend⟩ := Option.isSome_iff_exists.mp hsend
  have hbegin : Move .idle linkedPlan .local (.charging ordersTicket) linkedPlan :=
    .begin ordersGateway true true 0 0 (fun _ => 0) (some linkedPlan) (by simp) rfl
  have run : Run (Step Unit) ⟨linkedPlan, fun _ => .idle⟩ [] ⟨linkedPlan, fun _ => .idle⟩ := .nil
  have run := Pool.run_move run () rfl hbegin
  have run := Pool.run_move run () rfl (.initial rfl hcharge)
  have run := Pool.run_move run () rfl (.history hsend)
  exact ⟨_, run, credits_conserved linkedPlan_admitted linkedPlan_zero run⟩

end ZelerPlatform.History
