import ZelerPlatform.History.Plan
import ZelerPlatform.Library.Run

/-!
# Charging and spending the credits of a plan

Two services account for every request on one plan document. `PlanBudgetGateway.charge`
pays for an attempt before it is dispatched: from the initial budget, from the daily
maintenance budget, or from the latter with a receipt that binds the credit to one
durable piece of work. The proxy spends the credit when it sends: `_reserve_history_send`
spends what a charge without a receipt paid for, `reserve_history_work_send` spends one
receipt, and `_reserve_pilot_get_send` charges and spends at once.

Every call is a process over the plan. Its reads, its clock readings and each of its
updates are separate steps, so that calls interleave; a call may be abandoned between any
two of them. What a call has read only decides which update it tries.
-/

namespace ZelerPlatform.History

open Mongo Transition

/-! ### Charging -/

/-- A durable piece of work whose requests are charged with a receipt. -/
structure HistoryWorkIntent where
  eventId : String
  sellerId : String
  eventType : String
  resource : String
  source : Source

/-- `HistoryWorkIntent.receipt(path)` with the fresh credit `_prepare_work_receipt` adds. -/
def HistoryWorkIntent.receipt (intent : HistoryWorkIntent) (path : String) : WorkReceipt where
  eventId := intent.eventId
  sellerId := intent.sellerId
  eventType := intent.eventType
  resource := intent.resource
  source := intent.source
  phase := .maintenance
  path := path
  credit := 1
  sent := 0

/-- A prepared physical attempt of a gateway that serves a work intent. -/
structure WorkAttempt where
  intent : HistoryWorkIntent
  nonce : String
  path : String

/-- A gateway instance. Its constructor refuses a work intent of another source. -/
structure PlanBudgetGateway where
  seller : String
  source : Source
  leaseToken : Option String
  incremental : Bool
  work : Option WorkAttempt
  work_source : ∀ attempt ∈ work, attempt.intent.source = source ∧ source ≠ .fullWithdrawals

/-- What one call of `charge` carries from its reads to its updates. The call reads its
clock several times; `clock n` is the reading number `n` of the part that updates. -/
structure Ticket where
  gateway : PlanBudgetGateway
  execution : Option String
  credit : Option CreditPath
  clock : Nat → Int
  work_credit : gateway.work.isSome = true → credit = none

/-- The day string of a maintenance charge, its first clock reading. -/
def Ticket.day (t : Ticket) : String := isoDay (t.clock 0)

/-- A plain integer of at least zero, `type(value) is int and value >= 0`. -/
def plainNonnegative (value : Option Value) : Bool :=
  match value with
  | some (.int n) => 0 ≤ n
  | _ => false

def isDate (value : Option Value) : Bool :=
  match value with
  | some (.date _) => true
  | _ => false

/-- `_work_policy_available`, with its two clock readings. -/
def workPolicyAvailable (gateway : PlanBudgetGateway) (now now' : Int) (snapshot : Plan) : Bool :=
  snapshot.executionId.any isHex32 &&
  isDate snapshot.executionUntil &&
  snapshot.executionUtcDay == some (.string (isoDay now)) &&
  snapshot.incrementalDay == some (isoDay now) &&
  plainNonnegative snapshot.executionAttemptLimit &&
  plainNonnegative snapshot.limits.executionConsumed &&
  plainNonnegative (snapshot.incrementalConsumed.map Value.ofInt) &&
  plainNonnegative ((snapshot.incrementalSourceConsumed gateway.source).map Value.ofInt) &&
  plainNonnegative (some (Value.ofInt snapshot.incrementalPolicy.maxDailyTotal)) &&
  plainNonnegative (some (Value.ofInt snapshot.incrementalPolicy.maxDailySource)) &&
  historyExecutionAllowed snapshot.limits now' false

/-- `charge` up to its first update: the liveness of the work and the eligibility of the
seller are read from other collections. -/
def beginCharge (gateway : PlanBudgetGateway) (live eligible : Bool) (now now' : Int)
    (clock : Nat → Int) (snapshot : Option Plan) : Except String Ticket := do
  if gateway.work.isSome && !gateway.incremental then
    throw "work requires its maintenance receipt"
  if gateway.work.isSome && !live then
    throw "work ownership unavailable"
  if !eligible then
    throw "account is not eligible for acquisition"
  let some plan := snapshot | throw "missing onboarding authority"
  if gateway.work.isSome && !workPolicyAvailable gateway now now' plan then
    throw "work policy or counters unavailable"
  let trace ← historyRequestTrace plan.executionId gateway.source gateway.incremental
  if gateway.work.isSome && trace.isNone then
    throw "work execution unavailable"
  return ⟨gateway, plan.executionId, if gateway.work.isSome then none else trace, clock,
    fun hwork => if_pos hwork⟩

/-- The lease part of a charge's filter; an empty token adds none. -/
def leaseMatches (token : Option String) (now : Int) (plan : Plan) : Bool :=
  match token with
  | some token =>
      token.isEmpty ||
        (plan.leaseToken == some token && plan.leaseUntil.any (Value.floorMs now < ·))
  | none => true

/-- The filter both kinds of charge share. -/
def owned (t : Ticket) (queryNow leaseNow : Int) (plan : Plan) : Bool :=
  plan.sellerId == t.gateway.seller && plan.policyVersion == policyVersion &&
  plan.state == "active" && plan.eligible && plan.sources.contains t.gateway.source &&
  plan.executionId == t.execution &&
  historyExecutionQuery plan.limits queryNow false &&
  leaseMatches t.gateway.leaseToken leaseNow plan

/-- The ledger of credits after a charge. -/
def creditLedger (credit : Option CreditPath) (ledger : Tally CreditPath) : Tally CreditPath :=
  match credit with
  | some path => ledger.inc path
  | none => ledger

def spendBudget (budget : Source → SourceBudget) (source : Source) : Source → SourceBudget :=
  Function.update budget source
    { budget source with consumed := (budget source).consumed + 1 }

/-- The update of a charge to the initial budget; `none` when the filter matches nothing. -/
def chargeInitial (t : Ticket) (plan : Plan) : Option Plan :=
  if owned t (t.clock 0) (t.clock 1) plan &&
      (plan.budget t.gateway.source).consumed < (plan.budget t.gateway.source).physicalAttempts &&
      plan.totalConsumed < plan.totalBudget then
    some { plan with
      budget := spendBudget plan.budget t.gateway.source
      totalConsumed := plan.totalConsumed + 1
      executionConsumed := increment plan.executionConsumed
      executionCharged := creditLedger t.credit plan.executionCharged }
  else none

/-- The stricter filter of a charge with a receipt: bounded work never repairs a plan. -/
def workOwned (t : Ticket) (attempt : WorkAttempt) (plan : Plan) : Bool :=
  plan.authorityKind == some "account_link_policy" &&
  gtMatches plan.executionUntil (.date (Value.floorMs (t.clock 3))) &&
  eqMatches plan.executionUtcDay (.string (isoDay (t.clock 4))) &&
  integerMatches plan.executionAttemptLimit &&
  gteMatches plan.executionAttemptLimit (.int 0) &&
  nonnegative plan.executionConsumed &&
  plan.incrementalDay == some t.day &&
  nonnegative plan.incrementalConsumed &&
  nonnegative (plan.incrementalSourceConsumed t.gateway.source) &&
  0 ≤ plan.incrementalPolicy.maxDailyTotal &&
  0 ≤ plan.incrementalPolicy.maxDailySource &&
  (plan.executionWork.lookup attempt.nonce).isNone

/-- The filter of a maintenance charge. -/
def incrementalOwned (t : Ticket) (plan : Plan) : Bool :=
  owned t (t.clock 1) (t.clock 2) plan &&
    match t.gateway.work with
    | some attempt => workOwned t attempt plan
    | none => true

/-- The daily reset, issued only without a work intent. -/
def resetDay (t : Ticket) (plan : Plan) : Option Plan :=
  if incrementalOwned t plan && plan.incrementalDay != some t.day then
    some { plan with
      incrementalDay := some t.day
      incrementalConsumed := some 0
      incrementalSourceConsumed := fun _ => some 0 }
  else none

/-- The update of a maintenance charge. -/
def chargeIncremental (t : Ticket) (plan : Plan) : Option Plan :=
  if incrementalOwned t plan && plan.incrementalDay == some t.day &&
      below plan.incrementalConsumed plan.incrementalPolicy.maxDailyTotal &&
      below (plan.incrementalSourceConsumed t.gateway.source)
        plan.incrementalPolicy.maxDailySource then
    some { plan with
      incrementalConsumed := increment plan.incrementalConsumed
      incrementalSourceConsumed :=
        Function.update plan.incrementalSourceConsumed t.gateway.source
          (increment (plan.incrementalSourceConsumed t.gateway.source))
      executionConsumed := increment plan.executionConsumed
      executionCharged := creditLedger t.credit plan.executionCharged
      executionWork :=
        match t.gateway.work with
        | some attempt => plan.executionWork ++ [(attempt.nonce, attempt.intent.receipt attempt.path)]
        | none => plan.executionWork }
  else none

/-! ### Sending -/

/-- The parts of `_pilot_plan_available`, for a plan as PyMongo decodes it. -/
def pilotPlanAvailable (plan : Plan) (now : Int) : Bool :=
  plan.policyVersion == policyVersion && plan.authorityKind == some "account_link_policy" &&
  plan.state == "active" && plan.eligible && plan.executionId.any isHex32 &&
  isDate plan.executionUntil && plan.executionUtcDay == some (.string (isoDay now)) &&
  plainNonnegative plan.executionAttemptLimit &&
  plainNonnegative plan.limits.executionConsumed &&
  plainNonnegative (some (Value.ofInt plan.sent)) && plan.sent ≤ plan.consumed &&
  historyExecutionAllowed
    { executionUntil := plan.executionUntil, executionUtcDay := plan.executionUtcDay,
      executionAttemptLimit := none, executionConsumed := none } now false

/-- What a pilot reservation has read and pins in its update. -/
structure PilotTicket where
  seller : String
  execution : Option String
  executionUntil : Option Value
  executionUtcDay : Option Value
  executionAttemptLimit : Option Value
  now : Int

/-- The read of `_reserve_pilot_get_send`. A later attempt of the same request also insists
on the execution of its first one, which only refuses more. -/
def readPilotPlan (seller : String) (now : Int) (plan : Plan) : Option PilotTicket :=
  if plan.sellerId == seller && pilotPlanAvailable plan now &&
      !plan.limit?.any (· ≤ plan.consumed) then
    some ⟨seller, plan.executionId, plan.executionUntil, plan.executionUtcDay,
      plan.executionAttemptLimit, now⟩
  else none

/-- An equality filter on a field whose pinned value came from the plan itself. -/
def pinned (field value : Option Value) : Bool :=
  match value with
  | some v => eqMatches field v
  | none => eqMatches field .null

/-- The update of `_reserve_pilot_get_send`: one charge, spent at once. -/
def reservePilotGetSend (t : PilotTicket) (plan : Plan) : Option Plan :=
  if plan.sellerId == t.seller && plan.policyVersion == policyVersion &&
      plan.authorityKind == some "account_link_policy" && plan.state == "active" &&
      plan.eligible && plan.executionId == t.execution &&
      pinned plan.executionUntil t.executionUntil &&
      pinned plan.executionUtcDay t.executionUtcDay &&
      pinned plan.executionAttemptLimit t.executionAttemptLimit &&
      nonnegative plan.executionConsumed &&
      historyExecutionQuery plan.limits t.now false &&
      absentOrNonnegative plan.executionSent && plan.sent ≤ plan.consumed then
    some { plan with
      executionConsumed := increment plan.executionConsumed
      executionSent := increment plan.executionSent }
  else none

/-- A proxy request whose trace and path have been accepted. -/
structure HistorySend where
  seller : String
  path : CreditPath
  /-- The seller is under the selected pilot, whose limits are not optional. -/
  selected : Bool
  now : Int

/-- The update of `_reserve_history_send` for a request without a work header. -/
def reserveHistorySend (send : HistorySend) (plan : Plan) : Option Plan :=
  if plan.sellerId == send.seller && plan.policyVersion == policyVersion &&
      plan.authorityKind == some "account_link_policy" &&
      plan.executionId == some send.path.execution && plan.state == "active" &&
      plan.eligible && plan.sources.contains send.path.source &&
      nonnegative plan.executionConsumed &&
      (plan.executionCharged.get? send.path).any (0 < ·) &&
      historyExecutionQuery plan.limits send.now true &&
      (!send.selected ||
        (gtMatches plan.executionUntil (.date (Value.floorMs send.now)) &&
          eqMatches plan.executionUtcDay (.string (isoDay send.now)) &&
          integerMatches plan.executionAttemptLimit &&
          gteMatches plan.executionAttemptLimit (.int 0))) &&
      absentOrNonnegative plan.executionSent &&
      absentOrNonnegative (plan.executionSentBySource.get? send.path) &&
      plan.sent < plan.consumed &&
      plan.executionSentBySource.val send.path < plan.executionCharged.val send.path then
    some { plan with
      executionSent := increment plan.executionSent
      executionSentBySource := plan.executionSentBySource.inc send.path }
  else none

/-- A proxy request with a work header. -/
structure WorkSend where
  seller : String
  execution : String
  source : Source
  phase : Phase
  workId : String
  path : String
  now : Int

/-- `$inc` of a receipt's `sent`. -/
def spendReceipt (workId : String) : List (String × WorkReceipt) → List (String × WorkReceipt)
  | [] => []
  | (nonce, receipt) :: rest =>
      if nonce = workId then (nonce, { receipt with sent := receipt.sent + 1 }) :: rest
      else (nonce, receipt) :: spendReceipt workId rest

/-- The transaction of `reserve_history_work_send`; `live` is the verdict of
`validate_history_work_receipt`, which reads and touches other collections. -/
def reserveHistoryWorkSend (send : WorkSend) (live : WorkReceipt → Bool) (plan : Plan) :
    Option Plan := do
  guard (send.phase = .maintenance ∧ isHex32 send.workId = true)
  let receipt ← plan.executionWork.lookup send.workId
  guard (receipt.source = send.source ∧ receipt.phase = send.phase ∧
    receipt.path = send.path ∧ receipt.sellerId = send.seller ∧ live receipt = true)
  let sentPath : CreditPath := ⟨send.execution, send.source, send.phase⟩
  if plan.sellerId == send.seller && plan.policyVersion == policyVersion &&
      plan.authorityKind == some "account_link_policy" &&
      plan.executionId == some send.execution && plan.state == "active" && plan.eligible &&
      plan.sources.contains send.source && plan.executionConsumed.any (0 < ·) &&
      gtMatches plan.executionUntil (.date (Value.floorMs send.now)) &&
      eqMatches plan.executionUtcDay (.string (isoDay send.now)) &&
      integerMatches plan.executionAttemptLimit &&
      gteMatches plan.executionAttemptLimit (.int 0) &&
      receipt.credit == 1 && receipt.sent == 0 &&
      historyExecutionQuery plan.limits send.now true &&
      absentOrNonnegative plan.executionSent &&
      absentOrNonnegative (plan.executionWorkSentBySource.get? sentPath) &&
      plan.sent < plan.consumed then
    some { plan with
      executionSent := increment plan.executionSent
      executionWorkSentBySource := plan.executionWorkSentBySource.inc sentPath
      executionWork := spendReceipt send.workId plan.executionWork }
  else none

end ZelerPlatform.History
