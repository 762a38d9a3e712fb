import ZelerPlatform.Library.Run
import ZelerPlatform.Recovery.Moves

/-!
# Runs of the recovery queue

Any number of queues over one database, with one capacity, and the workers of the history
lanes take steps in any order. A step is one atomic operation of the database: a call that
makes several of them takes several steps, with what it read before. The clock readings of a
step are those of the call; nothing relates the readings of different calls. The tokens handed
out so far are kept beside the database, since a new token is not one of them.
-/

namespace ZelerPlatform.Recovery

open Transition

/-- One atomic operation of the database, with the arguments of the call it belongs to. -/
inductive Event
  | seed (sellerId : String)
  | enqueue (q : Queue) (request : Request) (reopenTerminal : Bool) (gate : Option Bool) (now : Time)
  | claimExhausted (q : Queue) (lane : Option Lane) (history : Bool) (now : Time) (token : String)
  | failExhausted (q : Queue) (lane : Option Lane) (history : Bool) (now : Time)
  | claimNext (q : Queue) (lane : Option Lane) (history : Bool) (now : Time) (token : String)
  | closeIneligible (job : Job) (now : Time)
  | renew (job : Job) (now : Time)
  | deferQuota (job : Job) (now : Time)
  | finish (job : Job) (succeeded retryable : Bool) (reason : FailureReason)
      (now checkpointNow : Time)
  | checkpointInventory (job : Job) (itemIds : List String) (offset : Nat) (unavailable : Bool)
      (now : Time)
  | checkpointShipmentCursor (q : Queue) (job : Job) (expectedOffset nextOffset : Nat) (now : Time)
  | progress (q : Queue) (job : Job) (expected proposed : Head) (receipts : List Receipt)
      (now : Readings)
  | beginVerification (q : Queue) (job : Job) (expected : Head) (now : Readings)
  | beginPublication (q : Queue) (job : Job) (expected : Head) (now : Readings)
  | release (q : Queue) (job : Job) (expected : Head) (reason : ReleaseReason) (now : Readings)
  | rearm (sellerId : String) (linkedAt now : Time)

/-- The database and the attempt tokens handed out so far. -/
structure State where
  db : Db
  issued : List String

/-- What is stored after a call: a call that raises stores nothing. -/
def settle {ε α β : Type} (result : Except ε (β × α)) (before : α) : α :=
  match result with
  | .ok (_, after) => after
  | .error _ => before

/-- A call that raises leaves everything as it was. -/
theorem settle_cases {ε α β : Type} (result : Except ε (β × α)) (before : α) :
    settle result before = before ∨
      ∃ value, result = .ok value ∧ settle result before = value.2 := by
  cases result with
  | error _ => exact .inl rfl
  | ok value => exact .inr ⟨value, rfl, rfl⟩

def Readings.toList (now : Readings) : List Time :=
  [now.current, now.checkpoint, now.fence, now.yieldAt]

namespace Event

/-- The queue of a call that belongs to one. -/
def queue : Event → Option Queue
  | enqueue q .. => some q
  | claimExhausted q .. => some q
  | failExhausted q .. => some q
  | claimNext q .. => some q
  | checkpointShipmentCursor q .. => some q
  | progress q .. => some q
  | beginVerification q .. => some q
  | beginPublication q .. => some q
  | release q .. => some q
  | _ => none

/-- The token that a claim hands out. -/
def token : Event → Option String
  | claimExhausted _ _ _ _ token => some token
  | claimNext _ _ _ _ token => some token
  | _ => none

/-- The snapshot a call of a worker is made with. -/
def snapshot : Event → Option Job
  | closeIneligible job _ => some job
  | renew job _ => some job
  | deferQuota job _ => some job
  | finish job .. => some job
  | checkpointInventory job .. => some job
  | checkpointShipmentCursor _ job .. => some job
  | progress _ job .. => some job
  | beginVerification _ job .. => some job
  | beginPublication _ job .. => some job
  | release _ job .. => some job
  | _ => none

/-- The clock readings of the call. -/
def readings : Event → List Time
  | seed _ => []
  | enqueue _ _ _ _ now => [now]
  | claimExhausted _ _ _ now _ => [now]
  | failExhausted _ _ _ now => [now]
  | claimNext _ _ _ now _ => [now]
  | closeIneligible _ now => [now]
  | renew _ now => [now]
  | deferQuota _ now => [now]
  | finish _ _ _ _ now checkpointNow => [now, checkpointNow]
  | checkpointInventory _ _ _ _ now => [now]
  | checkpointShipmentCursor _ _ _ _ now => [now]
  | progress _ _ _ _ _ now => now.toList
  | beginVerification _ _ _ now => now.toList
  | beginPublication _ _ _ now => now.toList
  | release _ _ _ _ now => now.toList
  | rearm _ _ now => [now]

variable (sha256 : String → String) (evidence : Evidence)

/-- The documents after an operation. -/
def perform (e : Event) (db : Db) : Db :=
  match e with
  | seed seller => { db with guards := Queue.seed seller db.guards }
  | enqueue q request reopenTerminal gate now =>
      settle (do
        q.admissible request gate
        let (key, jobs) ← q.runAdmission sha256 request reopenTerminal now db.jobs
        return (key, { db with jobs, guards := Queue.advance request.sellerId db.guards })) db
  | claimExhausted q lane history now token =>
      { db with jobs := (q.claimExhausted lane history now token db.jobs).2 }
  | failExhausted q lane history now =>
      { db with jobs := q.failExhausted lane history now db.jobs }
  | claimNext q lane history now token =>
      { db with jobs := (q.claimNext lane history now token db.jobs).2 }
  | closeIneligible job now =>
      { db with jobs := Recovery.closeIneligible job now db.jobs }
  | renew job now => { db with jobs := (Recovery.renew job now db.jobs).2 }
  | deferQuota job now => { db with jobs := (Recovery.deferQuota job now db.jobs).2 }
  | finish job succeeded retryable reason now checkpointNow =>
      { db with
        jobs := settle (Recovery.finish job succeeded retryable reason now checkpointNow db.jobs)
          db.jobs }
  | checkpointInventory job itemIds offset unavailable now =>
      { db with
        jobs := settle (Recovery.checkpointInventory job itemIds offset unavailable now db.jobs)
          db.jobs }
  | checkpointShipmentCursor q job expectedOffset nextOffset now =>
      { db with
        jobs := settle
          (q.checkpointShipmentCursor sha256 job expectedOffset nextOffset now db.jobs) db.jobs }
  | progress q job expected proposed receipts now =>
      settle (Recovery.progress q evidence job expected proposed receipts now db) db
  | beginVerification q job expected now =>
      settle (Recovery.beginVerification q evidence job expected now db) db
  | beginPublication q job expected now =>
      settle (Recovery.beginPublication q evidence job expected now db) db
  | release q job expected reason now =>
      settle (Recovery.release q evidence job expected reason now db) db
  | rearm seller linkedAt now => { db with jobs := Recovery.rearm seller linkedAt now db.jobs }

end Event

variable (sha256 : String → String) (evidence : Evidence) (m r : Nat)

/-- The queues have `m` slots, `r` of them for inventory jobs, and a new token is new. -/
def Event.Possible (e : Event) (s : State) : Prop :=
  (∀ q ∈ e.queue, q.maxActiveJobsPerSeller = m ∧ q.reservedInventorySlots = r) ∧
  ∀ token ∈ e.token, token ∉ s.issued

def State.after (e : Event) (s : State) : State :=
  ⟨e.perform sha256 evidence s.db, e.token.toList ++ s.issued⟩

def Step (s : State) (e : Event) (t : State) : Prop :=
  e.Possible m r s ∧ t = s.after sha256 evidence e

instance (e : Event) (s : State) : Decidable (e.Possible m r s) :=
  inferInstanceAs (Decidable (_ ∧ _))

/-- The step an operation takes, if it is possible. -/
def Event.next (e : Event) (s : State) : Option (Event × State) :=
  if e.Possible m r s then some (e, s.after sha256 evidence e) else none

theorem step_of_next {e f : Event} {s t : State}
    (h : e.next sha256 evidence m r s = some (f, t)) : Step sha256 evidence m r s f t := by
  unfold Event.next at h
  split at h
  · obtain ⟨rfl, rfl⟩ := Prod.mk.inj (Option.some.inj h)
    exact ⟨‹_›, rfl⟩
  · cases h

/-! ### Steps of workers

A step of a worker is one of its owned updates or one continuation, or it raises. -/

/-- What a call of a worker stores. -/
inductive WorkerEffect (n : Time) (fresh : Option String) (job : Job) (db : Db) : Db → Prop
  | raises : WorkerEffect n fresh job db db
  | updates {jobs' : Jobs} (update : OwnedUpdate n job db.jobs jobs') :
      WorkerEffect n fresh job db { db with jobs := jobs' }
  | yields {now : Time} {db' : Db} (later : n ≤ now) (yielded : Yielded n fresh job now db db') :
      WorkerEffect n fresh job db db'

namespace WorkerEffect

variable {n : Time} {fresh : Option String} {job : Job} {db db' : Db} {ε β : Type}

theorem quiet (h : WorkerEffect n fresh job db db') : Quiet n fresh db.jobs db'.jobs := by
  cases h with
  | raises => exact .refl _
  | updates update => exact update.quiet
  | yields _ yielded => exact yielded.quiet

/-- A caller that lost its job stores nothing. -/
theorem unchanged (h : WorkerEffect n fresh job db db')
    (lost : db.jobs.matched (owned job n) = false) : db' = db := by
  cases h with
  | raises => rfl
  | updates update => rw [update.unchanged lost]
  | yields later yielded =>
      obtain ⟨stored, mem, hstored⟩ := List.any_eq_true.mp yielded.owned
      have := Collection.matched_eq_false.mp lost stored mem
      rw [owned_mono later hstored] at this
      cases this

theorem of_owned {result : Except ε (β × Jobs)}
    (h : ∀ {b jobs'}, result = .ok (b, jobs') → OwnedUpdate n job db.jobs jobs') :
    WorkerEffect n fresh job db { db with jobs := settle result db.jobs } := by
  cases hresult : result with
  | error _ => exact .raises
  | ok value => exact .updates (h hresult)

theorem of_yielded {now : Time} {result : Except ε (β × Db)} (later : n ≤ now)
    (h : ∀ {b db'}, result = .ok (b, db') → Yielded n fresh job now db db') :
    WorkerEffect n fresh job db (settle result db) := by
  cases hresult : result with
  | error _ => exact .raises
  | ok value => exact .yields later (h hresult)

end WorkerEffect

private theorem readings_from {n : Time} {now : Readings} (h : ∀ t ∈ now.toList, n ≤ t) :
    now.from n :=
  ⟨h _ (by simp [Readings.toList]), h _ (by simp [Readings.toList]),
    h _ (by simp [Readings.toList]), h _ (by simp [Readings.toList])⟩

theorem workerEffect_of_snapshot {n : Time} {fresh : Option String} {job : Job} {e : Event}
    {db : Db} (hsnapshot : e.snapshot = some job) (hn : ∀ t ∈ e.readings, n ≤ t) :
    WorkerEffect n fresh job db (e.perform sha256 evidence db) := by
  have first (now : Time) (rest : List Time) (h : ∀ t ∈ now :: rest, n ≤ t) : n ≤ now := h now (by simp)
  cases e with
  | closeIneligible =>
      cases hsnapshot
      exact .updates (ownedUpdate_closeIneligible (first _ _ hn))
  | renew =>
      cases hsnapshot
      exact .updates (ownedUpdate_renew (first _ _ hn))
  | deferQuota =>
      cases hsnapshot
      exact .updates (ownedUpdate_deferQuota (first _ _ hn))
  | finish _ _ _ _ now checkpointNow =>
      cases hsnapshot
      exact .of_owned (ownedUpdate_finish (first _ _ hn)
        (hn checkpointNow (by simp [Event.readings])))
  | checkpointInventory =>
      cases hsnapshot
      exact .of_owned (ownedUpdate_checkpointInventory (first _ _ hn))
  | checkpointShipmentCursor =>
      cases hsnapshot
      exact .of_owned (ownedUpdate_checkpointShipmentCursor (first _ _ hn))
  | progress =>
      cases hsnapshot
      exact .of_yielded (first _ _ hn) (yielded_progress (readings_from hn))
  | beginVerification =>
      cases hsnapshot
      exact .of_yielded (first _ _ hn) (yielded_beginVerification (readings_from hn))
  | beginPublication =>
      cases hsnapshot
      exact .of_yielded (first _ _ hn) (yielded_beginPublication (readings_from hn))
  | release =>
      cases hsnapshot
      exact .of_yielded (first _ _ hn) (yielded_release (readings_from hn))
  | _ => cases hsnapshot

end ZelerPlatform.Recovery
