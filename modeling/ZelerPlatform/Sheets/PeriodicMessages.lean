import Mathlib.Data.String.Basic
import ZelerPlatform.Sheets.PackMessages

/-!
# Periodic sweeps of the message packs

After the first acquisition the packs of a seller are swept again and again, forty at a time in
the order of their texts. A sweep has a window of message dates, which starts five minutes before
the end of the last one. Its cursor is the last pack of the last completed batch, and its batch
in hand is frozen in a checkpoint. Packs come into the orders while a sweep goes on.
-/

namespace ZelerPlatform.Sheets.Messages

open Fallible Mongo Sources Sorted

/-! ### A turn -/

/-- `MESSAGE_PERIODIC_BATCH`. -/
def periodicBatch : Nat := 40

/-- `MESSAGE_PERIODIC_REQUESTS`. -/
def periodicRequests : Nat := 2

def minutes (n : Int) : Int := n * 60000000

/-- The midnight after an instant. -/
def nextMidnight (now : Int) : Int := (now / 86400000000 + 1) * 86400000000

/-- What the turns read of a plan. Its dates come from the store. -/
structure Plan where
  sellerId : String
  dateFrom : Int
  cutoff : Int
  dateFrom_stored : Value.floorMs dateFrom = dateFrom
  cutoff_stored : Value.floorMs cutoff = cutoff

/-- `message_periodic_recovery`. No pack comes before the empty text. -/
structure Recovery where
  sweepStart : Int
  sweepEnd : Int
  packsCompleted : Nat
  persisted : Nat
  issueCount : Nat
  afterPack : String
  checkpoint : Option MessageState
  sweepComplete : Bool
  state : Option String
  reason : Option String
  nextSweepAt : Option Int
  deriving DecidableEq, Repr

/-- What one turn meets. -/
structure Turn where
  now : Int
  /-- `orders.distinct("meli_pack_id")`. -/
  orders : List Value
  answer : Nat → Answer
  upsert : Nat → Nat → Except SourceError Bool
  /-- Whether the plan is still this worker's when the turn saves its state. -/
  saved : Bool

def Turn.call (turn : Turn) : Call :=
  ⟨periodicRequests, 50, true, turn.answer, turn.upsert⟩

/-- The packs of the orders, in the order of their texts. -/
def packsOf (reading : Reading) (orders : List Value) : List String :=
  sortedBy id (((orders.filter Value.truthy).map reading.text).filter isNumeric).eraseDups

def Plan.firstStart (plan : Plan) : Int := max plan.dateFrom (plan.cutoff - minutes 5)

/-- The state of a sweep that begins. -/
def Recovery.opening (start stop : Int) : Recovery :=
  ⟨start, stop, 0, 0, 0, "", none, false, none, none, none⟩

/-- Whether the last sweep is over, or there was none. -/
def isOver (recovery : Option Recovery) : Bool := recovery.all (·.sweepComplete)

/-- The sweep of a turn: that in hand, or a new one. -/
def sweepOf (plan : Plan) (now : Int) : Option Recovery → Recovery
  | none => .opening plan.firstStart now
  | some last =>
      if last.sweepComplete then .opening (last.sweepEnd - minutes 5) now else last

/-- The counts after a batch, and its last pack. -/
def Recovery.pass (recovery : Recovery) (completed : MessageState) (last : String) : Recovery :=
  { recovery with
    afterPack := last
    packsCompleted := recovery.packsCompleted + completed.targetIds.length
    persisted := recovery.persisted + completed.persisted
    issueCount := recovery.issueCount + completed.issueCount }

/-- A checkpoint that is complete has been passed; another is in hand. -/
def Recovery.settle (recovery : Recovery) : Except SourceError (Recovery × Option MessageState) :=
  match recovery.checkpoint with
  | none => .ok (recovery, none)
  | some checkpoint =>
      if checkpoint.discoveryComplete then
        match checkpoint.targetIds.getLast? with
        | none => .error .other
        | some last => .ok (recovery.pass checkpoint last, none)
      else .ok (recovery, some checkpoint)

/-- The sweep is over, and the next one waits for a quarter of an hour. -/
def Recovery.awaitNext (recovery : Recovery) (now : Int) : Recovery :=
  { recovery with
    sweepComplete := true
    state := some "awaiting_next_sweep"
    nextSweepAt := some (now + minutes 15) }

def Recovery.awaitBudget (recovery : Recovery) (now : Int) : Recovery :=
  { recovery with state := some "waiting_daily_budget", nextSweepAt := some (nextMidnight now) }

/-- `_message_checkpoint_bound`. -/
def messageCheckpointBound (value stored : Int) : Except SourceError Int :=
  if Value.floorMs value = Value.floorMs stored then .ok value
  else .error (.value "periodic message checkpoint range mismatch")

/-- The window of the batch in hand, or that of the sweep. -/
def Recovery.window (recovery : Recovery) (checkpoint : Option MessageState) :
    Except SourceError (Int × Int) :=
  match checkpoint with
  | none => .ok (recovery.sweepStart, recovery.sweepEnd)
  | some checkpoint => do
      let start ← messageCheckpointBound checkpoint.start recovery.sweepStart
      let stop ← messageCheckpointBound checkpoint.stop recovery.sweepEnd
      return (start, stop)

/-- The state after a call that returned, while its batch is not done. -/
def Recovery.goOn (recovery : Recovery) (now : Int) (result : Returned) : Recovery :=
  let running := { recovery with
    checkpoint := some result.checkpoint
    state := some "running"
    reason := result.report.blocked
    sweepComplete := false
    nextSweepAt := none }
  if result.report.blocked = some "daily_budget_exhausted" then running.awaitBudget now
  else running

/-- The state after a call that returned. -/
def Recovery.proceed (recovery : Recovery) (now : Int) (packs : List String)
    (result : Returned) : Except SourceError Recovery :=
  let waiting := recovery.goOn now result
  if result.report.discoveryComplete then
    match result.checkpoint.targetIds.getLast? with
    | none => .error .other
    | some last =>
        let passed := { waiting with checkpoint := none }.pass result.checkpoint last
        if packs.any (last < ·) then .ok passed else .ok (passed.awaitNext now)
  else .ok waiting

structure Visit where
  pack : String
  start : Int
  stop : Int
  deriving DecidableEq, Repr

/-- The state that a turn saves, the packs from which it takes its batch, and its visits. -/
structure Outcome where
  recovery : Recovery
  due : List String
  visits : List Visit

/-- A batch is frozen, or gone on with. -/
def Recovery.collect (reading : Reading) (plan : Plan) (turn : Turn) (packs remaining : List String)
    (recovery : Recovery) (checkpoint : Option MessageState) : Except SourceError Outcome := do
  let window ← recovery.window checkpoint
  match collectPackMessages reading plan.sellerId (remaining.take periodicBatch) window.1 window.2
      checkpoint turn.call with
  | .ok result => do
      let next ← recovery.proceed turn.now packs result
      return ⟨next, remaining, result.visits.map fun pack => ⟨pack, window.1, window.2⟩⟩
  | .error (.value message) =>
      if isExhausted message then
        .ok ⟨{ recovery with reason := some "daily_budget_exhausted" }.awaitBudget turn.now,
          remaining, []⟩
      else .error (.value message)
  | .error error => .error error

/-- `_advance_periodic_messages`, when it does not wait. -/
def advanceSweep (reading : Reading) (plan : Plan) (recovery : Recovery) (turn : Turn) :
    Except SourceError Outcome := do
  let settled ← recovery.settle
  let packs := packsOf reading turn.orders
  let remaining := packs.filter (settled.1.afterPack < ·)
  match settled.2 with
  | none =>
      if remaining = [] then
        .ok ⟨{ settled.1 with checkpoint := none }.awaitNext turn.now, [], []⟩
      else settled.1.collect reading plan turn packs remaining none
  | some checkpoint => do
      let outcome ← settled.1.collect reading plan turn packs remaining (some checkpoint)
      return { outcome with due := [] }

/-- Whether the last state says to wait. -/
def isWaiting (recovery : Option Recovery) (now : Int) : Bool :=
  recovery.any fun last => last.nextSweepAt.any (now < ·)

/-- `_advance_periodic_messages`; nothing is saved while it waits. -/
def advancePeriodicMessages (reading : Reading) (plan : Plan) (recovery : Option Recovery)
    (turn : Turn) : Except SourceError (Option Outcome) :=
  if isWaiting recovery turn.now then .ok none
  else (advanceSweep reading plan (sweepOf plan turn.now recovery) turn).map some

/-- A state as it is read back. -/
def Recovery.stored (recovery : Recovery) : Recovery :=
  { recovery with
    sweepStart := Value.floorMs recovery.sweepStart
    sweepEnd := Value.floorMs recovery.sweepEnd
    nextSweepAt := recovery.nextSweepAt.map Value.floorMs }

/-! ### Runs -/

/-- What the saved turns of a sweep did. -/
structure Sweep where
  start : Int
  stop : Int
  /-- The packs in the orders when the sweep began. -/
  inventory : List String
  /-- The packs that turns with no batch in hand found ahead of the cursor. -/
  due : List String
  visits : List Visit
  complete : Bool
  deriving DecidableEq, Repr

/-- The sweep in hand, after one more of its turns. -/
def Sweep.extend (sweep : Sweep) (outcome : Outcome) : Sweep :=
  { sweep with
    due := sweep.due ++ outcome.due
    visits := sweep.visits ++ outcome.visits
    complete := outcome.recovery.sweepComplete }

/-- The sweep of a turn, before it. -/
def Sweep.opened (recovery : Recovery) (inventory : List String) : Sweep :=
  ⟨recovery.sweepStart, recovery.sweepEnd, inventory, [], [], false⟩

/-- The stored state, and the sweeps so far, the last one first. -/
structure Progress where
  recovery : Option Recovery
  sweeps : List Sweep
  deriving DecidableEq, Repr

def Progress.start : Progress := ⟨none, []⟩

/-- The sweeps after a turn. -/
def Progress.record (progress : Progress) (inventory : List String) (outcome : Outcome) :
    List Sweep :=
  if isOver progress.recovery then
    (Sweep.opened outcome.recovery.stored inventory).extend outcome :: progress.sweeps
  else match progress.sweeps with
    | [] => []
    | sweep :: earlier => sweep.extend outcome :: earlier

/-- One turn. A turn that raises or that lost the plan leaves what was stored. -/
def Progress.resume (reading : Reading) (plan : Plan) (progress : Progress) (turn : Turn) :
    Progress :=
  match advancePeriodicMessages reading plan progress.recovery turn with
  | .ok (some outcome) =>
      if turn.saved then
        ⟨some outcome.recovery.stored,
          progress.record (packsOf reading turn.orders) outcome⟩
      else progress
  | _ => progress

/-- The packs of the orders stay. -/
def Growing (reading : Reading) (turns : List Turn) : Prop :=
  turns.Pairwise fun turn later => packsOf reading turn.orders ⊆ packsOf reading later.orders

end ZelerPlatform.Sheets.Messages
