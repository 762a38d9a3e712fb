import ZelerPlatform.Library.Collection
import ZelerPlatform.Library.Mongo.Value
import ZelerPlatform.Library.Program

/-!
# The status of an item

Each observation of an item's status is applied to one state document by compare-and-swap,
with a bounded number of attempts, and appends a transition when it changed the status. An
observation older than the state is dropped, except that a late paused one may move the
start of the pause back.

The store is restricted to one item: its document in `item_status_states` and its rows in
`item_status_transitions`. It also lists the observations applied to the document, which
nothing reads. Instants are in microseconds, stored ones whole milliseconds.
-/

namespace ZelerPlatform.Events

open Mongo.Value (floorMs)
open Transition

/-! ### Documents -/

/-- A status as observed, without surrounding blanks. -/
structure StatusObservation where
  status : String
  observedAt : ℤ
  deriving DecidableEq, Repr

def StatusObservation.instant (o : StatusObservation) : ℤ := floorMs o.observedAt

/-- A document of `item_status_states`. -/
structure StatusState where
  sellerId : String
  itemId : String
  currentStatus : String
  firstObservedAt : ℤ
  lastObservedAt : ℤ
  statusStartedAt : Option ℤ
  pausedSince : Option ℤ
  lastStatusChangeAt : Option ℤ
  schemaVersion : Nat
  deriving DecidableEq, Repr

abbrev TransitionId := String × String × ℤ × String × String

/-- A document of `item_status_transitions`. -/
structure StatusTransition where
  id : TransitionId
  sellerId : String
  itemId : String
  fromStatus : String
  toStatus : String
  observedAt : ℤ
  source : String
  schemaVersion : Nat
  deriving DecidableEq, Repr

structure StatusStore where
  state : Option StatusState
  transitions : Collection StatusTransition.id
  applied : List StatusObservation

inductive StatusOp
  | find
  | preserve (observedAt lastObservedAt : ℤ)
  | replace
  | insert
  | transition
  deriving DecidableEq, Repr

/-- What a call raises: a blank status, or contention. -/
inductive StatusError
  | validation
  | contention
  deriving DecidableEq, Repr

structure StatusResult where
  state : StatusState
  applied : Bool
  publishSnapshot : Bool

abbrev StatusProgram := Program StatusOp StatusStore

/-- `_STATUS_STATE_CAS_ATTEMPTS` -/
def statusStateCasAttempts : Nat := 3

def statusStateSchemaVersion : Nat := 1

def statusTransitionSchemaVersion : Nat := 1

/-! ### Pure parts -/

def observationIsOlderThanState (o : StatusObservation) (state : StatusState) : Bool :=
  o.instant < state.lastObservedAt

def statusStateMatchesObservation (o : StatusObservation) (state : StatusState) : Bool :=
  state.currentStatus = o.status && state.lastObservedAt = o.instant

def samePausedObservationCanPreserveEarliestStart (o : StatusObservation) (state : StatusState) :
    Bool :=
  o.status = "paused" && state.currentStatus = "paused" && o.instant ≤ state.lastObservedAt &&
    state.pausedSince.any (o.instant < ·)

/-- The state after an observation, from the one before it. -/
def statusStateDocument (sellerId itemId : String) (o : StatusObservation)
    (prior : Option StatusState) : StatusState :=
  let changed := prior.any (·.currentStatus != o.status)
  let enteringPausedWithoutPriorState := prior.isNone && o.status = "paused"
  let starts := changed || enteringPausedWithoutPriorState
  { sellerId := sellerId
    itemId := itemId
    currentStatus := o.status
    firstObservedAt := (prior.map (·.firstObservedAt)).getD o.instant
    lastObservedAt := o.instant
    statusStartedAt := if starts then some o.instant else prior.bind (·.statusStartedAt)
    pausedSince :=
      if starts then if o.status = "paused" then some o.instant else none
      else prior.bind (·.pausedSince)
    lastStatusChangeAt := if starts then some o.instant else prior.bind (·.lastStatusChangeAt)
    schemaVersion := statusStateSchemaVersion }

def statusTransitionDocument (sellerId itemId : String) (fromStatus : String)
    (o : StatusObservation) : StatusTransition where
  id := (sellerId, itemId, o.instant, fromStatus, o.status)
  sellerId := sellerId
  itemId := itemId
  fromStatus := fromStatus
  toStatus := o.status
  observedAt := o.instant
  source := "sheets_event_persistence"
  schemaVersion := statusTransitionSchemaVersion

/-! ### Writes -/

/-- The pause started earlier. -/
def StatusState.startPausedAt (state : StatusState) (start : ℤ) : StatusState :=
  { state with
    statusStartedAt := some start
    pausedSince := some start
    lastStatusChangeAt := some start }

/-- The state is paused, of the last observation expected, and its pause starts later. -/
def StatusState.pausedAfter (state : StatusState) (start lastObservedAt : ℤ) : Bool :=
  state.currentStatus = "paused" && state.lastObservedAt = lastObservedAt &&
    state.pausedSince.any (start < ·)

/-- Move the start of the pause back, if the state is as expected. -/
def updatePausedStart (o : StatusObservation) (lastObservedAt : ℤ) (s : StatusStore) :
    Bool × StatusStore :=
  match s.state with
  | none => (false, s)
  | some state =>
      if state.pausedAfter o.instant lastObservedAt then
        (true, { s with state := some (state.startPausedAt o.instant), applied := o :: s.applied })
      else (false, s)

/-- The status, its last observation and the scalars are those expected. -/
def StatusState.asExpected (state prior : StatusState) : Bool :=
  state.currentStatus = prior.currentStatus && state.lastObservedAt = prior.lastObservedAt &&
    state.statusStartedAt = prior.statusStartedAt && state.pausedSince = prior.pausedSince &&
    state.lastStatusChangeAt = prior.lastStatusChangeAt

def replaceStatusState (o : StatusObservation) (next prior : StatusState) (s : StatusStore) :
    Bool × StatusStore :=
  if s.state.any (·.asExpected prior) then
    (true, { s with state := some next, applied := o :: s.applied })
  else (false, s)

def insertStatusState (o : StatusObservation) (next : StatusState) (s : StatusStore) :
    Bool × StatusStore :=
  match s.state with
  | none => (true, { s with state := some next, applied := o :: s.applied })
  | some _ => (false, s)

def replaceStatusStateIfExpected (o : StatusObservation) (next : StatusState)
    (prior : Option StatusState) : StatusProgram Bool :=
  match prior with
  | none => Program.act .insert (insertStatusState o next)
  | some prior => Program.act .replace (replaceStatusState o next prior)

/-- An upsert: the id names all the other fields, so a document under it is the same one. -/
def upsertTransition (transition : StatusTransition) (s : StatusStore) : Unit × StatusStore :=
  let transitions := (s.transitions.insert transition).getD (s.transitions.replace transition)
  ((), { s with transitions })

/-! ### The calls -/

def preserveEarliestPausedStartIfExpected (o : StatusObservation) :
    Nat → StatusState → StatusProgram (Except StatusError (Option StatusState))
  | 0, _ => pure (.error .contention)
  | attempts + 1, state =>
      if samePausedObservationCanPreserveEarliestStart o state then do
        let matched ← Program.act (.preserve o.instant state.lastObservedAt)
          (updatePausedStart o state.lastObservedAt)
        let latest ← Program.read .find (·.state)
        if matched then pure (.ok (some (latest.getD (state.startPausedAt o.instant))))
        else match latest with
          | none => pure (.ok none)
          | some latest => preserveEarliestPausedStartIfExpected o attempts latest
      else pure (.ok none)

/-- Settle the observation against a state that was read: a late paused one may move the
start of the pause back, and any other that is older is dropped. -/
def settleAgainst (o : StatusObservation) (state : StatusState) :
    StatusProgram (Except StatusError (Option StatusResult)) := do
  let corrected ← preserveEarliestPausedStartIfExpected o statusStateCasAttempts state
  match corrected with
  | .error error => pure (.error error)
  | .ok (some corrected) => pure (.ok (some ⟨corrected, true, false⟩))
  | .ok none =>
      if observationIsOlderThanState o state then do
        let corrected ← preserveEarliestPausedStartIfExpected o statusStateCasAttempts state
        match corrected with
        | .error error => pure (.error error)
        | .ok (some corrected) => pure (.ok (some ⟨corrected, true, false⟩))
        | .ok none => pure (.ok (some ⟨state, false, true⟩))
      else pure (.ok none)

/-- After a lost write or the last attempt: settle against the state found, or find that
the observation is in it. -/
def settleFound (o : StatusObservation) (state : StatusState) :
    StatusProgram (Except StatusError (Option StatusResult)) := do
  let settled ← settleAgainst o state
  match settled with
  | .error error => pure (.error error)
  | .ok (some result) => pure (.ok (some result))
  | .ok none =>
      if statusStateMatchesObservation o state then pure (.ok (some ⟨state, true, true⟩))
      else pure (.ok none)

def settlePrior (o : StatusObservation) :
    Option StatusState → StatusProgram (Except StatusError (Option StatusResult))
  | none => pure (.ok none)
  | some state => settleAgainst o state

/-- Write the state after the observation and the transition it makes, unless the write is
lost. -/
def applyObservation (sellerId itemId : String) (o : StatusObservation)
    (prior : Option StatusState) : StatusProgram (Option StatusResult) := do
  let next := statusStateDocument sellerId itemId o prior
  let won ← replaceStatusStateIfExpected o next prior
  if won then
    match prior with
    | none => pure (some ⟨next, true, true⟩)
    | some prior =>
        if prior.currentStatus = o.status then pure (some ⟨next, true, true⟩)
        else do
          Program.act .transition (upsertTransition
            (statusTransitionDocument sellerId itemId prior.currentStatus o))
          pure (some ⟨next, true, true⟩)
  else pure none

/-- The remaining attempts, from the state last read. -/
def observationAttempts (sellerId itemId : String) (o : StatusObservation) :
    Nat → Option StatusState → StatusProgram (Except StatusError StatusResult)
  | 0, _ => do
      let latest ← Program.read .find (·.state)
      match latest with
      | none => pure (.error .contention)
      | some state => do
          let settled ← settleFound o state
          match settled with
          | .error error => pure (.error error)
          | .ok (some result) => pure (.ok result)
          | .ok none => pure (.error .contention)
  | attempts + 1, state => do
      let settled ← settlePrior o state
      match settled with
      | .error error => pure (.error error)
      | .ok (some result) => pure (.ok result)
      | .ok none =>
          -- the state document does not validate with a blank status
          if o.status = "" then pure (.error .validation)
          else do
            let applied ← applyObservation sellerId itemId o state
            match applied with
            | some result => pure (.ok result)
            | none => do
                let winning ← Program.read .find (·.state)
                match winning with
                | none => observationAttempts sellerId itemId o attempts none
                | some winning => do
                    let settled ← settleFound o winning
                    match settled with
                    | .error error => pure (.error error)
                    | .ok (some result) => pure (.ok result)
                    | .ok none => observationAttempts sellerId itemId o attempts (some winning)

def recordItemStatusObservation (sellerId itemId : String) (o : StatusObservation) :
    StatusProgram (Except StatusError StatusResult) := do
  let state ← Program.read .find (·.state)
  observationAttempts sellerId itemId o statusStateCasAttempts state

end ZelerPlatform.Events
