import ZelerPlatform.Library.Mongo.Value
import ZelerPlatform.Library.Run

/-!
# Event claim leases and the completed marker

`EventClaimStore` guards one scoped idempotency key with a short-lived claim document and
a completed marker. Every owner is a process with a token of its own: it may call `claim`
once and `complete` and `release` at any time, one call after the other. Each operation
on a collection and each reading of the clock is a step of its own.

The stores of the system are restricted to the one key: the claim document and the marker
under the scoped `_id`, and the legacy marker under the bare key, which none of these
calls writes. Instants count microseconds; stored dates are cut to milliseconds.
-/

namespace ZelerPlatform.Events

open Mongo Transition

/-! ### Documents -/

/-- A document of `processed_event_claims`; `owner` is the owner token. -/
structure ClaimDoc (ι : Type*) where
  owner : ι
  claimedAt : Int
  expiresAt : Int

/-- The part of a document of `processed_events` that decides activity. -/
structure MarkerDoc where
  processedAt : Int
  expiresAt : Int

/-- A marker from before keys were scoped; fields may be missing, and a consumer null. -/
structure LegacyDoc where
  moduleId : Option String
  consumerId : Option (Option String)
  expiresAt : Option Int

/-- The settings of the stores, and the legacy document of the key. -/
structure Settings where
  retention : Int
  poll : Int
  legacy : Option LegacyDoc

/-- The collections, as far as the key is concerned, and the clock. -/
structure Store (ι : Type*) where
  clock : Int
  claim : Option (ClaimDoc ι)
  marker : Option MarkerDoc

/-! ### Calls -/

/-- A call of `claim` with its effective lease and wait. -/
structure ClaimCall where
  moduleId : String
  consumerId : Option String
  lease : Int
  wait : Int
  deadline : Int
  attempts : Nat

inductive ClaimOutcome
  | claimed
  | completed
  | timedOut
  deriving DecidableEq, Repr

/-- The attempt budget. Below 285 years the quotient of two durations, rounded to a double,
has the ceiling of the exact one. -/
def maxAttempts (poll wait : Int) : Nat :=
  if 0 < poll then max 1 (-(-wait / poll)).toNat + 1 else 1

/-- The two reads of `is_duplicate`, each followed by a reading of the clock. -/
inductive Check
  | current
  | currentFound (expiresAt : Option Int)
  | legacy
  | legacyFound (expiresAt : Option Int)

/-- Where a `claim` call checks for duplicates: before it acquires, or after, with the
expiry of the lease it has acquired, if it has. -/
inductive Phase
  | before
  | after (lease : Option Int)

/-- The call an owner is in. -/
inductive Call
  | idle
  | check (call : ClaimCall) (phase : Phase) (check : Check)
  | acquiring (call : ClaimCall)
  | acquire (call : ClaimCall) (now : Int)
  | dropping
  | retry (call : ClaimCall)
  | finding
  | marking
  | insertMarker (now : Int)
  | clearing (marked : Bool)
  | releasing

/-- An owner: whether it has called `claim`, the expiry of its lease from the return of
`claim` to the end of `complete` or `release`, and the call it is in. -/
structure Owner where
  called : Bool
  held : Option Int
  call : Call

def Owner.fresh : Owner := ⟨false, none, .idle⟩

/-- The lease an owner has acquired, as it knows it. -/
def Owner.lease? (owner : Owner) : Option Int :=
  match owner.call with
  | .check _ (.after lease) _ => lease
  | .check _ .before _ | .acquiring _ | .acquire _ _ | .dropping | .retry _ => none
  | _ => owner.held

inductive Event (ι : Type*)
  | local
  | claimReturned (owner : ι) (outcome : ClaimOutcome)
  | marked (owner : ι)
  | completeReturned (owner : ι) (result : Bool)
  | releaseReturned (owner : ι) (result : Bool)
  | ticked
  | claimExpired
  deriving DecidableEq

/-! ### Operations -/

/-- `_document_is_active` for a document with this expiry. -/
def isActive (expiresAt : Option Int) (now : Int) : Bool :=
  expiresAt.any (now < ·)

/-- The expiry of the legacy document if it speaks for this module and consumer. -/
def legacyExpiry (settings : Settings) (call : ClaimCall) : Option Int :=
  settings.legacy.bind fun doc =>
    if doc.moduleId != some call.moduleId then none
    else if call.consumerId.isSome && doc.consumerId.any (· != call.consumerId) then none
    else doc.expiresAt

variable {ι : Type*} [DecidableEq ι]

/-- The upsert of `_acquire`: `none` when it collides with a live claim. -/
def acquireClaim (i : ι) (call : ClaimCall) (now : Int) (store : Store ι) : Option (Store ι) :=
  if store.claim.all (·.expiresAt ≤ Value.floorMs now) then
    some { store with
      claim := some ⟨i, Value.floorMs now, Value.floorMs (now + call.lease)⟩ }
  else none

/-- `find_one` of the owned claim. -/
def ownsClaim (i : ι) (store : Store ι) : Bool :=
  store.claim.any (·.owner = i)

/-- `delete_one` of the owned claim. -/
def deleteOwned (i : ι) (store : Store ι) : Store ι :=
  if ownsClaim i store then { store with claim := none } else store

/-- `mark_processed`: `none` when a marker exists. -/
def insertMarker (settings : Settings) (now : Int) (store : Store ι) : Option (Store ι) :=
  match store.marker with
  | none => some { store with
      marker := some ⟨Value.floorMs now, Value.floorMs (now + settings.retention)⟩ }
  | some _ => none

/-- `claim` once `is_duplicate` has returned. -/
def afterCheck (i : ι) (owner : Owner) (call : ClaimCall) (phase : Phase) (duplicate : Bool) :
    Event ι × Owner :=
  match phase, duplicate with
  | .before, true => (.claimReturned i .completed, { owner with call := .idle })
  | .before, false => (.local, { owner with call := .acquiring call })
  | .after _, true => (.local, { owner with call := .dropping })
  | .after none, false => (.local, { owner with call := .retry call })
  | .after (some lease), false =>
      (.claimReturned i .claimed, { owner with held := some lease, call := .idle })

/-- The next step of the call an owner is in. -/
def advance (settings : Settings) (i : ι) (owner : Owner) (store : Store ι) :
    Event ι × Owner × Store ι :=
  match owner.call with
  | .idle => (.local, owner, store)
  | .check call phase .current =>
      (.local, { owner with
        call := .check call phase (.currentFound (store.marker.map (·.expiresAt))) }, store)
  | .check call phase (.currentFound expiresAt) =>
      if isActive expiresAt store.clock then
        let (event, owner') := afterCheck i owner call phase true
        (event, owner', store)
      else (.local, { owner with call := .check call phase .legacy }, store)
  | .check call phase .legacy =>
      (.local, { owner with
        call := .check call phase (.legacyFound (legacyExpiry settings call)) }, store)
  | .check call phase (.legacyFound expiresAt) =>
      let (event, owner') := afterCheck i owner call phase (isActive expiresAt store.clock)
      (event, owner', store)
  | .acquiring call => (.local, { owner with call := .acquire call store.clock }, store)
  | .acquire call now =>
      match acquireClaim i call now store with
      | some store' =>
          (.local, { owner with
            call := .check call (.after (some (Value.floorMs (now + call.lease)))) .current }, store')
      | none => (.local, { owner with call := .check call (.after none) .current }, store)
  | .dropping =>
      (.claimReturned i .completed, { owner with call := .idle }, deleteOwned i store)
  | .retry call =>
      if call.attempts + 1 ≥ maxAttempts settings.poll call.wait || store.clock ≥ call.deadline then
        (.claimReturned i .timedOut, { owner with call := .idle }, store)
      else
        (.local, { owner with
          call := .check { call with attempts := call.attempts + 1 } .before .current }, store)
  | .finding =>
      if ownsClaim i store then (.local, { owner with call := .marking }, store)
      else (.completeReturned i false, { owner with held := none, call := .idle }, store)
  | .marking => (.local, { owner with call := .insertMarker store.clock }, store)
  | .insertMarker now =>
      match insertMarker settings now store with
      | some store' => (.marked i, { owner with call := .clearing true }, store')
      | none => (.local, { owner with call := .clearing false }, store)
  | .clearing marked =>
      (.completeReturned i marked, { owner with held := none, call := .idle }, deleteOwned i store)
  | .releasing =>
      (.releaseReturned i (ownsClaim i store), { owner with held := none, call := .idle },
        deleteOwned i store)

/-! ### The system -/

/-- One step of owner `i`. -/
inductive Move (settings : Settings) (i : ι) :
    Owner → Store ι → Event ι → Owner → Store ι → Prop
  | claim {owner store} (moduleId : String) (consumerId : Option String) (lease wait : Int)
      (fresh : owner.called = false) (idle : owner.call = .idle) :
      Move settings i owner store .local
        { owner with
          called := true
          call := .check ⟨moduleId, consumerId, lease, wait, store.clock + wait, 0⟩
            .before .current } store
  | complete {owner store} (idle : owner.call = .idle) :
      Move settings i owner store .local { owner with call := .finding } store
  | release {owner store} (idle : owner.call = .idle) :
      Move settings i owner store .local { owner with call := .releasing } store
  | advance {owner store event owner' store'}
      (h : Events.advance settings i owner store = (event, owner', store')) :
      Move settings i owner store event owner' store'
  /-- The database fails the operation: `complete` suppresses that of its delete. -/
  | deleteFailed {owner store marked} (h : owner.call = .clearing marked) :
      Move settings i owner store (.completeReturned i marked)
        { owner with held := none, call := .idle } store
  /-- Any other failure leaves the call by an exception. -/
  | raised {owner store} : Move settings i owner store .local { owner with call := .idle } store

/-- The clock does not go back, and TTL deletion removes expired claims only. -/
inductive Environment : Store ι → Event ι → Store ι → Prop
  | tick {store : Store ι} {now : Int} (h : store.clock ≤ now) :
      Environment store .ticked { store with clock := now }
  | expire {store : Store ι} {doc : ClaimDoc ι} (h : store.claim = some doc)
      (expired : doc.expiresAt ≤ store.clock) :
      Environment store .claimExpired { store with claim := none }

/-- The owners, indexed by their tokens. -/
abbrev Step (settings : Settings) :
    Pool ι (Store ι) Owner → Event ι → Pool ι (Store ι) Owner → Prop :=
  Pool.Step (Move settings) Environment

/-! ### Schedules -/

/-- What happens next, of what can happen without a failure of the database. -/
inductive Action (ι : Type*)
  | claim (owner : ι) (moduleId : String) (consumerId : Option String) (lease wait : Int)
  | complete (owner : ι)
  | release (owner : ι)
  | advance (owner : ι)
  | tick (now : Int)
  | expire

def act (settings : Settings) (action : Action ι) (pool : Pool ι (Store ι) Owner) :
    Option (Event ι × Pool ι (Store ι) Owner) :=
  let store := pool.shared
  match action with
  | .claim i moduleId consumerId lease wait =>
      match pool.control i with
      | ⟨false, held, .idle⟩ =>
          let call := ⟨moduleId, consumerId, lease, wait, store.clock + wait, 0⟩
          some (.local, ⟨store, Function.update pool.control i
            ⟨true, held, .check call .before .current⟩⟩)
      | _ => none
  | .complete i =>
      match pool.control i with
      | ⟨called, held, .idle⟩ =>
          some (.local, ⟨store, Function.update pool.control i ⟨called, held, .finding⟩⟩)
      | _ => none
  | .release i =>
      match pool.control i with
      | ⟨called, held, .idle⟩ =>
          some (.local, ⟨store, Function.update pool.control i ⟨called, held, .releasing⟩⟩)
      | _ => none
  | .advance i =>
      let (event, owner, store') := advance settings i (pool.control i) store
      some (event, ⟨store', Function.update pool.control i owner⟩)
  | .tick now =>
      if store.clock ≤ now then some (.ticked, ⟨{ store with clock := now }, pool.control⟩) else none
  | .expire =>
      match store.claim with
      | some doc =>
          if doc.expiresAt ≤ store.clock then
            some (.claimExpired, ⟨{ store with claim := none }, pool.control⟩)
          else none
      | none => none

theorem act_step {settings : Settings} {action : Action ι} {pool pool' : Pool ι (Store ι) Owner}
    {event : Event ι} (h : act settings action pool = some (event, pool')) :
    Step settings pool event pool' := by
  cases action with
  | claim i moduleId consumerId lease wait =>
      simp only [act] at h
      split at h
      · next held hcontrol =>
          obtain ⟨rfl, rfl⟩ := Prod.mk.inj (Option.some.inj h)
          exact .move i (hcontrol ▸ .claim moduleId consumerId lease wait rfl rfl)
      · cases h
  | complete i =>
      simp only [act] at h
      split at h
      · next called held hcontrol =>
          obtain ⟨rfl, rfl⟩ := Prod.mk.inj (Option.some.inj h)
          exact .move i (hcontrol ▸ .complete rfl)
      · cases h
  | release i =>
      simp only [act] at h
      split at h
      · next called held hcontrol =>
          obtain ⟨rfl, rfl⟩ := Prod.mk.inj (Option.some.inj h)
          exact .move i (hcontrol ▸ .release rfl)
      · cases h
  | advance i =>
      obtain ⟨rfl, rfl⟩ := Prod.mk.inj (Option.some.inj h)
      exact .move i (.advance rfl)
  | tick now =>
      simp only [act, Option.ite_none_right_eq_some] at h
      obtain ⟨rfl, rfl⟩ := Prod.mk.inj (Option.some.inj h.2)
      exact .env (.tick h.1)
  | expire =>
      simp only [act] at h
      split at h
      · next doc hdoc =>
          simp only [Option.ite_none_right_eq_some] at h
          obtain ⟨rfl, rfl⟩ := Prod.mk.inj (Option.some.inj h.2)
          exact .env (.expire hdoc h.1)
      · cases h

end ZelerPlatform.Events
