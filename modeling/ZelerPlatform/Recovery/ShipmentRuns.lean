import ZelerPlatform.Library.Run
import ZelerPlatform.Recovery.Shipments

/-!
# Runs of workers on one shipment job

Any number of workers claim the job, each attempt under its own token, and take one step at a
time: a claim, one update of the job, the requests for one shipment, or one transaction. At any
point a worker may raise, which ends in an update by its handler, or stop for good. Everybody
else may write the shipments and the other jobs; the job itself only fails when its attempts
are used up, or is armed again after a new link. It is not reopened.

Who holds the job by its token has the stored cursor as its index (`HoldsCursor`), so only its
transaction moves the cursor.
-/

namespace ZelerPlatform.Recovery

open Mongo Transition
open Imports (Texts)

/-! ### The system -/

/-- Where the attempt under a token is. -/
inductive ShipmentPhase
  | idle
  | claimed (q : Queue) (job : Job)
  | acquiring (q : Queue) (job : Job) (index : Nat)
  | acquired (q : Queue) (job : Job) (index : Nat) (identity : String) (acquired : Acquisition)
  | finishing (job : Job)
  | raising (job : Job)
  | done

/-- The job that an attempt works on. -/
def ShipmentPhase.job : ShipmentPhase → Option Job
  | idle => none
  | claimed _ job => some job
  | acquiring _ job _ => some job
  | acquired _ job _ _ _ => some job
  | finishing job => some job
  | raising job => some job
  | done => none

/-- A committed transaction. -/
structure Publication where
  worker : String
  queue : Queue
  job : Job
  index : Nat
  identity : String
  acquired : Acquisition
  now : Time

inductive ShipmentEvent
  | published (publication : Publication)
  | worker
  | outside

/-- Where an attempt begins. -/
def startingAt (q : Queue) (job : Job) (offset : Nat) : ShipmentPhase :=
  if offset = (job.shipmentIds.getD []).length then .finishing job else .acquiring q job offset

/-- Where an attempt goes on after a transaction. -/
def afterPublication (q : Queue) (job : Job) (index : Nat) (acquired : Acquisition) :
    ShipmentPhase :=
  if acquired.cost.retryPartial then
    -- The quota error of the cost is raised after the commit.
    if acquired.cost.quotaError then .raising job else .done
  else if index + 1 = (job.shipmentIds.getD []).length then .done
  else .acquiring q job (index + 1)

section

variable (sha256 : String → String) (texts : Texts) (py : Pydantic) (key : String)

/-- One step of the attempt under token `i`. -/
inductive ShipmentMove (i : String) :
    ShipmentPhase → Store → ShipmentEvent → ShipmentPhase → Store → Prop
  | claim {store q lane history now job jobs}
      (h : q.claimNext lane history now i store.jobs = (some job, jobs)) (own : job.id = key) :
      ShipmentMove i .idle store .worker (.claimed q job) { store with jobs }
  | close {store q job} (now : Time) :
      ShipmentMove i (.claimed q job) store .worker .done
        { store with jobs := closeIneligible job now store.jobs }
  | start {store q job now offset jobs}
      (h : initializeShipmentCursor q sha256 job now store.jobs = .ok (offset, jobs)) :
      ShipmentMove i (.claimed q job) store .worker (startingAt q job offset) { store with jobs }
  | acquire {store q job index identity relation detail cost observedAt acquired}
      (listed : (job.shipmentIds.getD [])[index]? = some identity)
      (h : acquireShipment texts py job.sellerId identity relation detail cost observedAt =
        .ok acquired) :
      ShipmentMove i (.acquiring q job index) store .worker
        (.acquired q job index identity acquired) store
  | publish {store store' q job index identity acquired now finishNow phase}
      (h : publishShipment q sha256 texts py job index identity acquired now finishNow store =
        .ok store')
      -- The worker may not learn that the commit has succeeded.
      (next : phase = afterPublication q job index acquired ∨ phase = .raising job) :
      ShipmentMove i (.acquired q job index identity acquired) store
        (.published ⟨i, q, job, index, identity, acquired, now⟩) phase store'
  | succeed {store job now matched jobs}
      (h : finish job true false .recoveryFailed now now store.jobs = .ok (matched, jobs)) :
      ShipmentMove i (.finishing job) store .worker .done { store with jobs }
  | raise {phase store job} (h : ShipmentPhase.job phase = some job) :
      ShipmentMove i phase store .worker (.raising job) store
  | fail {store job retryable reason now matched jobs}
      (h : finish job false retryable reason now now store.jobs = .ok (matched, jobs)) :
      ShipmentMove i (.raising job) store .worker .done { store with jobs }
  | defer {store job} (now : Time) :
      ShipmentMove i (.raising job) store .worker .done
        { store with jobs := (deferQuota job now store.jobs).2 }
  | crash {phase store} : ShipmentMove i phase store .worker .done store

/-- A step of anybody else. -/
inductive ShipmentsOutside : Store → ShipmentEvent → Store → Prop
  | others {store store'} (same : store'.jobs.byKey key = store.jobs.byKey key) :
      ShipmentsOutside store .outside store'
  | failExhausted {store} (q : Queue) (lane : Option Lane) (history : Bool) (now : Time) :
      ShipmentsOutside store .outside
        { store with jobs := q.failExhausted lane history now store.jobs }
  | rearm {store} (sellerId : String) (linkedAt now : Time) :
      ShipmentsOutside store .outside
        { store with jobs := Recovery.rearm sellerId linkedAt now store.jobs }

abbrev ShipmentPool := Pool String Store ShipmentPhase

abbrev ShipmentStep : ShipmentPool → ShipmentEvent → ShipmentPool → Prop :=
  Pool.Step (ShipmentMove sha256 texts py key) (ShipmentsOutside key)

end

/-! ### The job -/

/-- The position of the cursor, which a job that was never begun has not yet. -/
def Job.shipmentCursor (job : Job) : Nat := job.shipmentOffset.getD 0

/-- The job of a request for shipments. -/
structure ShipmentJob (sellerId : String) (ids : List String) (record : Job) : Prop where
  sellerId : record.sellerId = sellerId
  shipmentIds : record.shipmentIds = some ids
  catalogOffset : record.catalogOffset = none
  inventoryScope : record.inventoryScope = false
  bound : record.shipmentCursor ≤ ids.length
  completed : record.state = .completed → record.shipmentCursor = ids.length

variable {sellerId : String} {ids : List String} {record record' job : Job} {i : String}

theorem ShipmentJob.of_same (h : ShipmentJob sellerId ids record) (task : SameTask record record')
    (bound : record'.shipmentCursor ≤ ids.length)
    (completed : record'.state = .completed → record'.shipmentCursor = ids.length) :
    ShipmentJob sellerId ids record' where
  sellerId := task.sellerId.trans h.sellerId
  shipmentIds := task.shipmentIds.trans h.shipmentIds
  catalogOffset := task.catalogOffset.trans h.catalogOffset
  inventoryScope := task.inventoryScope.trans h.inventoryScope
  bound
  completed

/-- What an attempt was handed. -/
structure Snapshot (key sellerId : String) (ids : List String) (i : String) (job : Job) : Prop
    extends ShipmentJob sellerId ids job where
  id : job.id = key
  token : job.attemptToken = some i

/-- Whoever holds the job under the token has this cursor. -/
def AtCursor (key i : String) (offset : Option Nat) (store : Store) : Prop :=
  ∀ record, store.jobs.byKey key = some record → record.attemptToken = some i →
    record.shipmentOffset = offset

/-- What an attempt knows of its job. -/
def HoldsCursor (texts : Texts) (py : Pydantic) (key sellerId : String) (ids : List String)
    (i : String) : ShipmentPhase → Store → Prop
  | .idle, store => ∀ record, store.jobs.byKey key = some record → record.attemptToken ≠ some i
  | .claimed _ job, store =>
      Snapshot key sellerId ids i job ∧ AtCursor key i job.shipmentOffset store
  | .acquiring _ job index, store =>
      Snapshot key sellerId ids i job ∧ AtCursor key i (some index) store ∧
        job.shipmentCursor ≤ index ∧ index < ids.length
  | .acquired _ job index identity acquired, store =>
      Snapshot key sellerId ids i job ∧ AtCursor key i (some index) store ∧
        job.shipmentCursor ≤ index ∧ ids[index]? = some identity ∧
        ∃ relation detail cost observedAt,
          acquireShipment texts py sellerId identity relation detail cost observedAt = .ok acquired
  | .finishing job, store =>
      Snapshot key sellerId ids i job ∧ AtCursor key i (some ids.length) store
  | .raising job, _ => Snapshot key sellerId ids i job
  | .done, _ => True

/-- A change of the job, as the attempts under the tokens that meet `other` see it. -/
structure Leaves (other : String → Prop) (record record' : Job) : Prop where
  task : SameTask record record'
  token : ∀ {t}, other t → record'.attemptToken = some t →
    record.attemptToken = some t ∧ record'.shipmentOffset = record.shipmentOffset

theorem Leaves.refl (other : String → Prop) (record : Job) : Leaves other record record :=
  ⟨.refl record, fun _ h => ⟨h, rfl⟩⟩

theorem Leaves.of_none {other : String → Prop} (task : SameTask record record')
    (h : record'.attemptToken = none) : Leaves other record record' :=
  ⟨task, fun _ htoken => by rw [h] at htoken; cases htoken⟩

section

variable {sha256 : String → String} {texts : Texts} {py : Pydantic} {key : String}
variable {store store' : Store} {phase phase' : ShipmentPhase} {e : ShipmentEvent}

theorem HoldsCursor.snapshot (h : HoldsCursor texts py key sellerId ids i phase store)
    (hjob : phase.job = some job) : Snapshot key sellerId ids i job := by
  cases phase with
  | idle => cases hjob
  | done => cases hjob
  | raising own => exact Option.some.inj hjob ▸ h
  | _ => exact Option.some.inj hjob ▸ h.1

/-- An attempt keeps its place in a step that leaves its token alone. -/
theorem HoldsCursor.leaves {other : String → Prop}
    (h : HoldsCursor texts py key sellerId ids i phase store)
    (hrecord : store.jobs.byKey key = some record)
    (hrecord' : store'.jobs.byKey key = some record') (leaves : Leaves other record record')
    (hi : other i) :
    HoldsCursor texts py key sellerId ids i phase store' := by
  have cursor : ∀ {offset}, AtCursor key i offset store → AtCursor key i offset store' := by
    intro offset at_cursor stored hstored htoken
    obtain rfl := Option.some.inj (hrecord'.symm.trans hstored)
    obtain ⟨hbefore, hoffset⟩ := leaves.token hi htoken
    rw [hoffset]
    exact at_cursor record hrecord hbefore
  cases phase with
  | idle =>
      intro stored hstored htoken
      obtain rfl := Option.some.inj (hrecord'.symm.trans hstored)
      exact h record hrecord (leaves.token hi htoken).1
  | claimed q job => exact ⟨h.1, cursor h.2⟩
  | acquiring q job index => exact ⟨h.1, cursor h.2.1, h.2.2⟩
  | acquired q job index identity acquired => exact ⟨h.1, cursor h.2.1, h.2.2⟩
  | finishing job => exact ⟨h.1, cursor h.2⟩
  | raising job => exact h
  | done => trivial

/-! ### What a commit stores -/

/-- The shipment that an attempt has published. -/
structure Published (texts : Texts) (py : Pydantic) (key sellerId : String) (ids : List String)
    (p : Publication) (before after : Store) : Prop where
  owned : ∃ record, before.jobs.byKey key = some record ∧ owned p.job p.now record = true ∧
    record.attemptToken = some p.worker ∧ record.shipmentOffset = some p.index
  listed : ids[p.index]? = some p.identity
  stored : ∃ relation detail cost observedAt document stored,
    acquireShipment texts py sellerId p.identity relation detail cost observedAt =
      .ok p.acquired ∧
    canonicalShipmentDocument texts py (keepUnavailable p.acquired
      (before.shipments.findOne (ofSeller (.string p.identity) sellerId))) sellerId =
        .ok document ∧
    after.shipments.findOne (ofSeller (.string p.identity) sellerId) = some stored ∧
    Doc.pyEq (Value.storedFields document) stored.doc = true ∧
    ((∀ order, p.acquired.detail.getD "order" ≠ .document order) →
      ∃ order, Attributed texts relation sellerId order ∧
        stored.doc.getD "order_id" = .string order) ∧
    ∀ prior field kept,
      before.shipments.findOne (ofSeller (.string p.identity) sellerId) = some prior →
      field ∈ p.acquired.unavailableFields → prior.doc.getD field = .document kept →
      Canonical texts py field kept →
        (Value.document kept).pyEq (stored.doc.getD field) = true

theorem token_of_owned {now : Time} (h : Snapshot key sellerId ids i job)
    (howned : owned job now record = true) : record.attemptToken = some i := by
  obtain ⟨token, htoken, -, -, hrecord, -⟩ := owned_held le_rfl howned
  rw [hrecord, ← htoken, h.token]

/-- A field of a stored document is its own stored form. -/
theorem stored_of_getD {prior : StoredDoc} {field : String} {kept : Doc}
    (h : prior.doc.getD field = .document kept) :
    (Value.document kept).stored = .document kept := by
  have hget : prior.doc.get? field = some (.document kept) := by
    rw [Doc.getD] at h
    cases hfield : prior.doc.get? field with
    | none =>
        rw [hfield] at h
        cases h
    | some v =>
        rw [hfield] at h
        exact congrArg some h
  have hfixed : Doc.get? (Value.storedFields prior.doc) field = prior.doc.get? field := by
    rw [prior.fixed]
  rw [Doc.get?_storedFields, hget] at hfixed
  exact Option.some.inj hfixed

theorem published_of_publish {p : Publication} {finishNow : Time} {relation detail cost : Answer}
    {observedAt : Int} (hsnapshot : Snapshot key sellerId ids p.worker p.job)
    (hrecord : store.jobs.byKey key = some record)
    (settled : Settled p.job p.index p.acquired p.now record record')
    (listed : ids[p.index]? = some p.identity)
    (hacquired : acquireShipment texts py sellerId p.identity relation detail cost observedAt =
      .ok p.acquired)
    (h : publishShipment p.queue sha256 texts py p.job p.index p.identity p.acquired p.now
      finishNow store = .ok store') :
    Published texts py key sellerId ids p store store' := by
  obtain ⟨-, document, stored, hdocument, hstored, hequal⟩ := publishShipment_ok h
  rw [hsnapshot.sellerId] at hdocument hstored
  have hfield : ∀ {field v}, document.get? field = some v →
      v.stored.pyEq (stored.doc.getD field) = true := by
    intro field v hv
    obtain ⟨y, hy, heq⟩ := Doc.get?_of_pyEq (x := v.stored) hequal
      (by rw [Doc.get?_storedFields, hv]; rfl)
    rw [Doc.getD, hy]
    exact heq
  have htoken := token_of_owned hsnapshot settled.owned
  refine ⟨⟨record, hrecord, settled.owned, htoken, settled.before⟩, listed, relation, detail,
    cost, observedAt, document, stored, hacquired, hdocument, hstored, hequal, fun plain => ?_, ?_⟩
  · obtain ⟨horders, -, -⟩ := acquireShipment_ok hacquired
    exact ⟨_, (headD_ownedOrders horders).1, Value.eq_string_of_string_pyEq
      (hfield (order_of_canonical hacquired plain hdocument))⟩
  · intro prior field kept hprior mem hkept canonical
    rw [hprior] at hdocument
    have := hfield (kept_of_canonical hacquired mem hkept canonical hdocument)
    rwa [stored_of_getD hkept] at this

/-! ### What one step does -/

/-- What a step leaves of the job, and what it says of the shipments if it is of an attempt. -/
structure Facts (texts : Texts) (py : Pydantic) (key sellerId : String) (ids : List String)
    (e : ShipmentEvent) (record record' : Job) (before after : Store) : Prop where
  job : ShipmentJob sellerId ids record'
  forward : record.shipmentCursor ≤ record'.shipmentCursor
  succ : record'.shipmentCursor ≤ record.shipmentCursor + 1
  moved : record'.shipmentCursor ≠ record.shipmentCursor →
    ∃ p, e = .published p ∧ p.index = record.shipmentCursor
  written : after.shipments ≠ before.shipments → e = .outside ∨ ∃ p, e = .published p
  published : ∀ p, e = .published p → Published texts py key sellerId ids p before after

/-- A step that leaves the cursor where it is, and the shipments to others. -/
theorem Facts.quiet (job : ShipmentJob sellerId ids record')
    (same : record'.shipmentCursor = record.shipmentCursor)
    (written : store'.shipments ≠ store.shipments → e = .outside)
    (event : ∀ p, e ≠ .published p) : Facts texts py key sellerId ids e record record' store store' where
  job
  forward := same.ge
  succ := same.le.trans (Nat.le_succ _)
  moved h := absurd same h
  written h := .inl (written h)
  published p h := absurd h (event p)

/-- A step of the attempt under token `i`. -/
structure Moved (texts : Texts) (py : Pydantic) (key sellerId : String) (ids : List String)
    (i : String) (e : ShipmentEvent) (phase' : ShipmentPhase) (record record' : Job)
    (before after : Store) : Prop where
  stored : after.jobs.byKey key = some record'
  leaves : Leaves (· ≠ i) record record'
  holds : HoldsCursor texts py key sellerId ids i phase' after
  facts : Facts texts py key sellerId ids e record record' before after

theorem cursor_eq {offset : Nat} (h : record.shipmentOffset = some offset) :
    record.shipmentCursor = offset := by
  rw [Job.shipmentCursor, h, Option.getD_some]

/-- A worker's step that changes neither document. -/
theorem moved_of_same (hrecord : store.jobs.byKey key = some record)
    (hjob : ShipmentJob sellerId ids record)
    (holds : HoldsCursor texts py key sellerId ids i phase' store) :
    Moved texts py key sellerId ids i .worker phase' record record store store where
  stored := hrecord
  leaves := .refl _ record
  holds
  facts := .quiet hjob rfl (absurd rfl) fun p h => by cases h

/-- The end of an attempt, whose worker gives the job up if it holds it still. -/
theorem moved_of_end {matched : Bool} {jobs : Jobs} {now : Time} {change : Job → Job}
    (hrecord : store.jobs.byKey key = some record) (hjob : ShipmentJob sellerId ids record)
    (hsnapshot : Snapshot key sellerId ids i job) (keeps : ∀ job, (change job).id = job.id)
    (h : (matched, jobs) = updateOwned job now change keeps store.jobs)
    (task : SameTask record (change record)) (token : (change record).attemptToken = none)
    (offset : (change record).shipmentOffset = record.shipmentOffset)
    (completed : (change record).state = .completed → record.attemptToken = some i →
      record.shipmentCursor = ids.length) :
    ∃ record', Moved texts py key sellerId ids i .worker .done record record' store
      { store with jobs } := by
  have hafter := byKey_updateOwned (hsnapshot.id.symm ▸ hrecord) h
  rw [hsnapshot.id] at hafter
  have event : ∀ p, ShipmentEvent.worker ≠ .published p := fun p hp => by cases hp
  have cursor : (change record).shipmentCursor = record.shipmentCursor := by
    rw [Job.shipmentCursor, offset, Job.shipmentCursor]
  split at hafter
  · next howned =>
      have after : ShipmentJob sellerId ids (change record) := hjob.of_same task
        (cursor.le.trans hjob.bound) fun hstate =>
          cursor.trans (completed hstate (token_of_owned hsnapshot howned))
      exact ⟨_, hafter, .of_none task token, trivial, .quiet after cursor (absurd rfl) event⟩
  · exact ⟨_, hafter, .refl _ record, trivial, .quiet hjob rfl (absurd rfl) event⟩

/-- An attempt at the job of which the worker's call of `finish` is the end. -/
theorem moved_of_finish {succeeded retryable matched : Bool} {reason : FailureReason}
    {now : Time} {jobs : Jobs} (hrecord : store.jobs.byKey key = some record)
    (hjob : ShipmentJob sellerId ids record) (hsnapshot : Snapshot key sellerId ids i job)
    (h : finish job succeeded retryable reason now now store.jobs = .ok (matched, jobs))
    (completed : succeeded = true → record.attemptToken = some i →
      record.shipmentCursor = ids.length) :
    ∃ record', Moved texts py key sellerId ids i .worker .done record record' store
      { store with jobs } := by
  obtain ⟨change, keeps, hupdate, hchange⟩ :=
    finish_plain hsnapshot.catalogOffset hsnapshot.inventoryScope h
  obtain ⟨task, token, offset, hcompleted⟩ := hchange record
  exact moved_of_end hrecord hjob hsnapshot keeps hupdate task token offset fun hstate =>
    completed (hcompleted.mp hstate)

theorem moved_of_claim {q : Queue} {lane : Option Lane} {history : Bool} {now : Time} {jobs : Jobs}
    (hrecord : store.jobs.byKey key = some record) (hjob : ShipmentJob sellerId ids record)
    (h : q.claimNext lane history now i store.jobs = (some job, jobs)) (own : job.id = key) :
    ∃ record', Moved texts py key sellerId ids i .worker (.claimed q job) record record' store
      { store with jobs } := by
  obtain ⟨-, hfound, hafter⟩ | ⟨hother, -⟩ :=
    takeOne_byKey (fun c hc => (nextJob_mem hc).1) hrecord h
  · obtain rfl := Option.some.inj hfound
    have hclaimed : ShipmentJob sellerId ids { record with
        state := .running, attemptToken := some i, leaseUntil := some (now + lease),
        updatedAt := now, attempts := record.attempts + 1 } :=
      hjob.of_same ⟨rfl, rfl, rfl, rfl⟩ hjob.bound fun hstate => by cases hstate
    refine ⟨_, hafter, ⟨⟨rfl, rfl, rfl, rfl⟩, fun ht htoken => ?_⟩,
      ⟨⟨hclaimed, own, rfl⟩, fun stored hstored _ => ?_⟩,
      .quiet hclaimed rfl (absurd rfl) fun p hp => by cases hp⟩
    · exact absurd (Option.some.inj htoken).symm ht
    · rw [← Option.some.inj (hafter.symm.trans hstored)]
  · exact absurd own (hother job rfl)

theorem holdsCursor_startingAt {q : Queue} {offset : Nat}
    (hsnapshot : Snapshot key sellerId ids i job)
    (hcursor : AtCursor key i (some offset) store) (hoffset : offset = job.shipmentCursor)
    (bound : offset ≤ ids.length) :
    HoldsCursor texts py key sellerId ids i (startingAt q job offset) store := by
  rw [startingAt, hsnapshot.shipmentIds, Option.getD_some]
  split
  · next hall =>
      rw [hall] at hcursor
      exact ⟨hsnapshot, hcursor⟩
  · next hmore => exact ⟨hsnapshot, hcursor, hoffset.ge, lt_of_le_of_ne bound hmore⟩

theorem moved_of_initialize {q : Queue} {now : Time} {offset : Nat} {jobs : Jobs}
    (hrecord : store.jobs.byKey key = some record) (hjob : ShipmentJob sellerId ids record)
    (hsnapshot : Snapshot key sellerId ids i job)
    (h : initializeShipmentCursor q sha256 job now store.jobs = .ok (offset, jobs)) :
    ∃ record', Moved texts py key sellerId ids i .worker (startingAt q job offset) record record'
      store { store with jobs } := by
  obtain ⟨howned, hbefore, hoffset, hbound, hafter⟩ :=
    initializeShipmentCursor_ok (hsnapshot.id.symm ▸ hrecord) h
  rw [hsnapshot.id] at hafter
  rw [hsnapshot.shipmentIds, Option.getD_some] at hbound
  have hcursor : record.shipmentCursor = offset := by
    rw [Job.shipmentCursor, hbefore, hoffset]
  have hset : ShipmentJob sellerId ids { record with shipmentOffset := some offset } :=
    hjob.of_same ⟨rfl, rfl, rfl, rfl⟩ hbound fun hstate => hcursor ▸ hjob.completed hstate
  refine ⟨_, hafter, ⟨⟨rfl, rfl, rfl, rfl⟩, fun {t} ht htoken => ?_⟩,
    holdsCursor_startingAt hsnapshot (fun stored hstored _ => ?_) hoffset hbound,
    .quiet hset hcursor.symm (absurd rfl) fun p hp => by cases hp⟩
  · have htoken : record.attemptToken = some t := htoken
    rw [token_of_owned hsnapshot howned] at htoken
    exact absurd (Option.some.inj htoken).symm ht
  · rw [← Option.some.inj (hafter.symm.trans hstored)]

theorem holdsCursor_afterPublication {q : Queue} {index : Nat} {acquired : Acquisition}
    (hsnapshot : Snapshot key sellerId ids i job)
    (hcursor : AtCursor key i (some (following index acquired)) store)
    (resumed : job.shipmentCursor ≤ index) (bound : following index acquired ≤ ids.length) :
    HoldsCursor texts py key sellerId ids i (afterPublication q job index acquired) store := by
  rw [afterPublication]
  split
  · split
    · exact hsnapshot
    · trivial
  · next hretry =>
      rw [hsnapshot.shipmentIds, Option.getD_some]
      rw [following, if_neg hretry] at hcursor bound
      split
      · trivial
      · next hmore =>
          exact ⟨hsnapshot, hcursor, resumed.trans (Nat.le_succ _), lt_of_le_of_ne bound hmore⟩

/-- A committed transaction moves the cursor by one at most, and from where the worker is. -/
theorem moved_of_publish {q : Queue} {index : Nat} {identity : String} {acquired : Acquisition}
    {now finishNow : Time} (hrecord : store.jobs.byKey key = some record)
    (hjob : ShipmentJob sellerId ids record)
    (holds : HoldsCursor texts py key sellerId ids i (.acquired q job index identity acquired) store)
    (h : publishShipment q sha256 texts py job index identity acquired now finishNow store =
      .ok store')
    (next : phase' = afterPublication q job index acquired ∨ phase' = .raising job) :
    ∃ record', Moved texts py key sellerId ids i
      (.published ⟨i, q, job, index, identity, acquired, now⟩) phase' record record' store store' := by
  obtain ⟨hsnapshot, -, hresumed, hlisted, relation, detail, cost, observedAt, hacquired⟩ := holds
  obtain ⟨hsettle, -⟩ := publishShipment_ok h
  obtain ⟨record', hafter, settled⟩ := settleShipment_ok hsnapshot.catalogOffset
    hsnapshot.inventoryScope (hsnapshot.id.symm ▸ hrecord) hsettle
  rw [hsnapshot.id] at hafter
  have hbefore := cursor_eq settled.before
  have hcursor := cursor_eq settled.after
  have hbound : following index acquired ≤ ids.length := by
    have := settled.bound
    rwa [hsnapshot.shipmentIds, Option.getD_some] at this
  have hrange : index ≤ following index acquired ∧ following index acquired ≤ index + 1 := by
    rw [following]
    split <;> omega
  have hheld : HoldsCursor texts py key sellerId ids i phase' store' := by
    obtain rfl | rfl := next
    · refine holdsCursor_afterPublication hsnapshot (fun stored hstored _ => ?_) hresumed hbound
      rw [← Option.some.inj (hafter.symm.trans hstored), settled.after]
    · exact hsnapshot
  refine ⟨record', hafter, ⟨settled.task, fun {t} ht htoken => ?_⟩, hheld, ?_⟩
  · obtain hnone | hsame := settled.token
    · rw [hnone] at htoken
      cases htoken
    · rw [hsame, token_of_owned hsnapshot settled.owned] at htoken
      exact absurd (Option.some.inj htoken).symm ht
  · refine ⟨hjob.of_same settled.task (hcursor ▸ hbound) fun hstate => ?_, ?_, ?_, fun _ => ?_,
      fun _ => .inr ⟨_, rfl⟩, fun p hp => ?_⟩
    · rw [hcursor, settled.completed hstate, hsnapshot.shipmentIds, Option.getD_some]
    · rw [hbefore, hcursor]
      exact hrange.1
    · rw [hbefore, hcursor]
      exact hrange.2
    · exact ⟨_, rfl, hbefore.symm⟩
    · obtain rfl := ShipmentEvent.published.inj hp
      exact published_of_publish hsnapshot hrecord settled hlisted hacquired h

theorem moved_of_move (hrecord : store.jobs.byKey key = some record)
    (hjob : ShipmentJob sellerId ids record)
    (holds : HoldsCursor texts py key sellerId ids i phase store)
    (h : ShipmentMove sha256 texts py key i phase store e phase' store') :
    ∃ record', Moved texts py key sellerId ids i e phase' record record' store store' := by
  cases h with
  | claim h own => exact moved_of_claim hrecord hjob h own
  | close now =>
      exact moved_of_end hrecord hjob holds.1 (by intro _; rfl) rfl ⟨rfl, rfl, rfl, rfl⟩ rfl rfl
        fun hstate => by cases hstate
  | start h => exact moved_of_initialize hrecord hjob holds.1 h
  | acquire listed h =>
      obtain ⟨hsnapshot, hcursor, hresumed, -⟩ := holds
      rw [hsnapshot.shipmentIds, Option.getD_some] at listed
      rw [hsnapshot.sellerId] at h
      exact ⟨record, moved_of_same hrecord hjob
        ⟨hsnapshot, hcursor, hresumed, listed, _, _, _, _, h⟩⟩
  | publish h next => exact moved_of_publish hrecord hjob holds h next
  | succeed h =>
      obtain ⟨hsnapshot, hcursor⟩ := holds
      exact moved_of_finish hrecord hjob hsnapshot h fun _ htoken =>
        cursor_eq (hcursor record hrecord htoken)
  | raise h => exact ⟨record, moved_of_same hrecord hjob (holds.snapshot h)⟩
  | fail h => exact moved_of_finish hrecord hjob holds h fun hfalse => by cases hfalse
  | defer now =>
      exact moved_of_end hrecord hjob holds (by intro _; rfl) rfl ⟨rfl, rfl, rfl, rfl⟩ rfl rfl
        fun hstate => by cases hstate
  | crash => exact ⟨record, moved_of_same hrecord hjob trivial⟩

/-- A step of anybody else leaves the cursor and the attempts where they are. -/
theorem leaves_of_outside (hrecord : store.jobs.byKey key = some record)
    (hjob : ShipmentJob sellerId ids record) (h : ShipmentsOutside key store e store') :
    ∃ record', store'.jobs.byKey key = some record' ∧ Leaves (fun _ => True) record record' ∧
      ShipmentJob sellerId ids record' ∧ record'.shipmentCursor = record.shipmentCursor := by
  cases h with
  | others same => exact ⟨record, same.trans hrecord, .refl _ record, hjob, rfl⟩
  | failExhausted q lane history now =>
      have hafter : (q.failExhausted lane history now store.jobs).byKey key = _ :=
        Collection.byKey_update
      rw [hrecord, Option.map_some] at hafter
      split at hafter
      · exact ⟨_, hafter, .of_none ⟨rfl, rfl, rfl, rfl⟩ rfl,
          hjob.of_same ⟨rfl, rfl, rfl, rfl⟩ hjob.bound (fun hstate => by cases hstate), rfl⟩
      · exact ⟨record, hafter, .refl _ record, hjob, rfl⟩
  | rearm seller linkedAt now =>
      have hafter : (Recovery.rearm seller linkedAt now store.jobs).byKey key = _ :=
        Collection.byKey_update
      rw [hrecord, Option.map_some] at hafter
      split at hafter
      · exact ⟨_, hafter, ⟨⟨rfl, rfl, rfl, rfl⟩, fun _ htoken => ⟨htoken, rfl⟩⟩,
          hjob.of_same ⟨rfl, rfl, rfl, rfl⟩ hjob.bound (fun hstate => by cases hstate), rfl⟩
      · exact ⟨record, hafter, .refl _ record, hjob, rfl⟩

theorem facts_of_outside (hrecord : store.jobs.byKey key = some record)
    (hjob : ShipmentJob sellerId ids record) (h : ShipmentsOutside key store e store') :
    ∃ record', store'.jobs.byKey key = some record' ∧
      Facts texts py key sellerId ids e record record' store store' := by
  obtain ⟨record', hrecord', -, job, same⟩ := leaves_of_outside hrecord hjob h
  have event : e = .outside := by
    cases h with
    | _ => rfl
  exact ⟨record', hrecord', .quiet job same (fun _ => event) fun p hp => by
    rw [event] at hp
    cases hp⟩

/-! ### Runs -/

/-- The job with its cursor at `base`; nobody begun has a token that the job does not know. -/
structure ShipmentStart (key sellerId : String) (ids : List String) (base : Nat)
    (pool : ShipmentPool) : Prop where
  stored : ∃ record, pool.shared.jobs.byKey key = some record ∧
    ShipmentJob sellerId ids record ∧ record.shipmentCursor = base ∧
    ∀ i, pool.control i = .done ∨ pool.control i = .idle ∧ record.attemptToken ≠ some i

variable {start pool next : ShipmentPool} {es : List ShipmentEvent} {base : Nat}

/-- Along a run the job is the request's, and every attempt knows its cursor. -/
theorem holds_of_run (fresh : ShipmentStart key sellerId ids base start)
    (run : Run (ShipmentStep sha256 texts py key) start es pool) :
    (∃ record, pool.shared.jobs.byKey key = some record ∧ ShipmentJob sellerId ids record) ∧
      ∀ i, HoldsCursor texts py key sellerId ids i (pool.control i) pool.shared := by
  obtain ⟨record, hrecord, hjob, -, hcontrol⟩ := fresh.stored
  refine Pool.invariant
    (I := fun store => ∃ record, store.jobs.byKey key = some record ∧
      ShipmentJob sellerId ids record)
    (L := HoldsCursor texts py key sellerId ids) ⟨record, hrecord, hjob⟩ (fun i => ?_)
    ?_ ?_ ?_ ?_ run
  · obtain hdone | ⟨hidle, htoken⟩ := hcontrol i
    · rw [hdone]
      trivial
    · rw [hidle]
      intro stored hstored
      rwa [← Option.some.inj (hrecord.symm.trans hstored)]
  · rintro i phase store e phase' store' ⟨record, hrecord, hjob⟩ holds hmove
    obtain ⟨record', moved⟩ := moved_of_move hrecord hjob holds hmove
    exact ⟨⟨record', moved.stored, moved.facts.job⟩, moved.holds⟩
  · rintro i j phase other store e phase' store' hij ⟨record, hrecord, hjob⟩ holds hother hmove
    obtain ⟨record', moved⟩ := moved_of_move hrecord hjob holds hmove
    exact hother.leaves hrecord moved.stored moved.leaves (Ne.symm hij)
  · rintro store e store' ⟨record, hrecord, hjob⟩ houtside
    obtain ⟨record', hrecord', -, job, -⟩ := leaves_of_outside hrecord hjob houtside
    exact ⟨record', hrecord', job⟩
  · rintro j other store e store' ⟨record, hrecord, hjob⟩ holds houtside
    obtain ⟨record', hrecord', leaves, -⟩ := leaves_of_outside hrecord hjob houtside
    exact holds.leaves hrecord hrecord' leaves trivial

/-- What the next step does. -/
theorem facts_of_step (fresh : ShipmentStart key sellerId ids base start)
    (run : Run (ShipmentStep sha256 texts py key) start es pool)
    (hrecord : pool.shared.jobs.byKey key = some record)
    (step : ShipmentStep sha256 texts py key pool e next) :
    ∃ record', next.shared.jobs.byKey key = some record' ∧
      Facts texts py key sellerId ids e record record' pool.shared next.shared := by
  obtain ⟨⟨stored, hstored, hjob⟩, holds⟩ := holds_of_run fresh run
  obtain rfl := Option.some.inj (hrecord.symm.trans hstored)
  cases step with
  | move i hmove =>
      obtain ⟨record', moved⟩ := moved_of_move hrecord hjob (holds i) hmove
      exact ⟨record', moved.stored, moved.facts⟩
  | env houtside =>
      exact facts_of_outside hrecord hjob houtside

/-- A shipment was stored at this place of the list. -/
def StoredAt (texts : Texts) (py : Pydantic) (key sellerId : String) (ids : List String)
    (es : List ShipmentEvent) (index : Nat) : Prop :=
  ∃ p before after, .published p ∈ es ∧ p.index = index ∧
    Published texts py key sellerId ids p before after

/-- Every shipment that the cursor has passed was stored in this run. -/
theorem stored_of_run (fresh : ShipmentStart key sellerId ids base start)
    (run : Run (ShipmentStep sha256 texts py key) start es pool) :
    ∀ record, pool.shared.jobs.byKey key = some record →
      base ≤ record.shipmentCursor ∧ ∀ index, base ≤ index → index < record.shipmentCursor →
        StoredAt texts py key sellerId ids es index := by
  refine run.invariant (P := fun es pool => ∀ record, pool.shared.jobs.byKey key = some record →
    base ≤ record.shipmentCursor ∧ ∀ index, base ≤ index → index < record.shipmentCursor →
      StoredAt texts py key sellerId ids es index) ?_ ?_
  · intro record hrecord
    obtain ⟨stored, hstored, -, hbase, -⟩ := fresh.stored
    obtain rfl := Option.some.inj (hstored.symm.trans hrecord)
    exact ⟨hbase.ge, fun index hle hlt => absurd hlt (by omega)⟩
  · intro es pool e next run ih step record' hrecord'
    obtain ⟨⟨record, hrecord, -⟩, -⟩ := holds_of_run fresh run
    obtain ⟨hbase, hstored⟩ := ih record hrecord
    obtain ⟨after, hafter, facts⟩ := facts_of_step fresh run hrecord step
    obtain rfl := Option.some.inj (hafter.symm.trans hrecord')
    refine ⟨hbase.trans facts.forward, fun index hle hlt => ?_⟩
    by_cases hold : index < record.shipmentCursor
    · obtain ⟨p, before, after, mem, hindex, published⟩ := hstored index hle hold
      exact ⟨p, before, after, List.mem_append_left _ mem, hindex, published⟩
    · have hsucc := facts.succ
      obtain ⟨p, rfl, hindex⟩ := facts.moved (by omega)
      exact ⟨p, _, _, List.mem_append_right _ List.mem_cons_self, by omega, facts.published p rfl⟩

/-- What holds of the job and of the attempts after a run. -/
structure Recovered (texts : Texts) (py : Pydantic) (key sellerId : String) (ids : List String)
    (base : Nat) (es : List ShipmentEvent) (pool : ShipmentPool) (record : Job) : Prop where
  completed : record.state = .completed → record.shipmentCursor = ids.length
  stored : ∀ index, base ≤ index → index < record.shipmentCursor →
    StoredAt texts py key sellerId ids es index
  resumed : ∀ i q job index, pool.control i = .acquiring q job index →
    job.shipmentCursor ≤ index ∧
      (record.attemptToken = some i → record.shipmentCursor = index)

/-- Along every run of attempts at a job for shipments that is not reopened, the cursor moves
forward, by one at most, and only in a transaction of the attempt that holds the lease, which
leaves the canonical document of what was acquired at the cursor. The job completes with its
cursor at the end, and no attempt acquires a shipment before the cursor it resumed at. -/
theorem shipments_recovered (fresh : ShipmentStart key sellerId ids base start)
    (run : Run (ShipmentStep sha256 texts py key) start es pool) :
    ∃ record, pool.shared.jobs.byKey key = some record ∧
      Recovered texts py key sellerId ids base es pool record ∧
      ∀ e next, ShipmentStep sha256 texts py key pool e next →
        ∃ record', next.shared.jobs.byKey key = some record' ∧
          Facts texts py key sellerId ids e record record' pool.shared next.shared := by
  obtain ⟨⟨record, hrecord, hjob⟩, holds⟩ := holds_of_run fresh run
  refine ⟨record, hrecord, ⟨hjob.completed, (stored_of_run fresh run record hrecord).2, ?_⟩,
    fun e next step => facts_of_step fresh run hrecord step⟩
  intro i q job index hcontrol
  have hholds := holds i
  rw [hcontrol] at hholds
  obtain ⟨-, hcursor, hresumed, -⟩ := hholds
  exact ⟨hresumed, fun htoken => cursor_eq (hcursor record hrecord htoken)⟩

end

/-! ### One shipment -/

theorem four_slots : 0 < 4 := by decide

theorem no_reserved_slot : 0 ≤ min 1 4 := by decide

def shipmentQueue : Queue where
  maxActiveJobsPerSeller := 4
  reservedInventorySlots := 0
  enabledModels := [.shipments]
  allowedSellers := none
  policyAuthority := none
  yearHistoryEnabled := true
  positive := four_slots
  reserved := no_reserved_slot

def shipmentKey : String := (Request.shipmentIds "1" ["7"]).keyText

/-- The job of a request for one shipment, and the job as it is held after its first claim. -/
def trackedJob : Job := initial none shipmentKey (.shipmentIds "1" ["7"]) 0

def heldJob (shipmentOffset : Option Nat) : Job :=
  { trackedJob with
    state := .running, attemptToken := some "token", leaseUntil := some lease, attempts := 1,
    shipmentOffset }

/-- A queue with one job, and the shipment as an event has left it, with a tracking number. -/
def trackedStore (job : Job) : Store where
  jobs := ⟨[job], by simp⟩
  shipments := ⟨[.ofDoc [("schema_version", .int 1), ("_id", .string "7"),
    ("seller_id", .string "1"), ("order_id", .string "5"), ("status", .string "shipped"),
    ("tracking_number", .string "T"), ("logistic_type", .string "fulfillment"),
    ("date_created", .date 0), ("last_updated", .date 0)]], by simp⟩

/-- Validators that take every value as it is. -/
def lenient : Pydantic := ⟨fun _ value => some value, some⟩

/-- What the source answers: the order, the detail without a tracking number, and no cost. -/
def trackedAcquisition : Except ShipmentError Acquisition :=
  acquireShipment Imports.plainTexts lenient "1" "7"
    (.ok ⟨200, some (.array [.document [("seller_id", .int 1), ("order_id", .int 5)]])⟩)
    (.ok ⟨200, some (.document [("id", .int 7), ("status", .string "shipped"),
      ("logistic_type", .string "fulfillment"), ("date_created", .date 0),
      ("last_updated", .date 0)])⟩)
    (.ok ⟨404, none⟩) 0

def trackedPublication (acquired : Acquisition) : Except ShipmentError Store :=
  publishShipment shipmentQueue id Imports.plainTexts lenient (heldJob none) 0 "7" acquired 0 0
    (trackedStore (heldJob (some 0)))

/-- The tracking number of the stored shipment. -/
def trackingNumber (store : Store) : Option (Option Value) :=
  (store.shipments.byKey (some (.string "7"))).map fun stored => stored.doc.get? "tracking_number"

theorem tracked_commit : ∃ acquired store, trackedAcquisition = .ok acquired ∧
    trackedPublication acquired = .ok store ∧ acquired.detail.get? "tracking_number" = none ∧
      trackingNumber store = some none ∧
      (store.jobs.byKey shipmentKey).map Job.state = some .completed := by
  have holds : (trackedAcquisition.toOption.bind fun acquired =>
      (trackedPublication acquired).toOption.map fun store =>
        (acquired.detail.get? "tracking_number", trackingNumber store,
          (store.jobs.byKey shipmentKey).map Job.state)) =
      some (none, some none, some .completed) := by
    decide +kernel
  obtain ⟨acquired, hacquired, hpublished⟩ := Option.bind_eq_some_iff.mp holds
  obtain ⟨store, hstore, hfields⟩ := Option.map_eq_some_iff.mp hpublished
  obtain ⟨hdetail, hrest⟩ := Prod.mk.inj hfields
  obtain ⟨hnumber, hstate⟩ := Prod.mk.inj hrest
  exact ⟨acquired, store, Fallible.toOption_some hacquired, Fallible.toOption_some hstore, hdetail,
    hnumber, hstate⟩

def trackedPool (store : Store) (phase : ShipmentPhase) : ShipmentPool :=
  ⟨store, Function.update (fun _ => .idle) "token" phase⟩

theorem trackedPool_move {store store' : Store} {phase phase' : ShipmentPhase} {e : ShipmentEvent}
    (h : ShipmentMove id Imports.plainTexts lenient shipmentKey "token" phase store e phase' store') :
    ShipmentStep id Imports.plainTexts lenient shipmentKey (trackedPool store phase) e
      (trackedPool store' phase') := by
  have control : (trackedPool store phase).control "token" = phase := by
    simp [trackedPool]
  have step : ShipmentStep id Imports.plainTexts lenient shipmentKey (trackedPool store phase) e
      ⟨store', Function.update (trackedPool store phase).control "token" phase'⟩ :=
    .move "token" (control.symm ▸ h)
  rwa [trackedPool, Function.update_idem] at step

theorem trackedPool_start :
    ShipmentStart shipmentKey "1" ["7"] 0 (trackedPool (trackedStore trackedJob) .idle) := by
  refine ⟨trackedJob, by decide +kernel, ⟨rfl, rfl, rfl, rfl, Nat.zero_le _, fun h => by cases h⟩,
    rfl, fun i => .inr ⟨?_, fun h => by cases h⟩⟩
  show Function.update (fun _ => ShipmentPhase.idle) "token" .idle i = _
  rw [Function.update_eq_self_iff.mpr rfl]

/-- The job before the transaction: claimed, begun and acquired. -/
theorem tracked_run {acquired : Acquisition} (hacquired : trackedAcquisition = .ok acquired) :
    Run (ShipmentStep id Imports.plainTexts lenient shipmentKey)
      (trackedPool (trackedStore trackedJob) .idle) [.worker, .worker, .worker]
      (trackedPool (trackedStore (heldJob (some 0)))
        (.acquired shipmentQueue (heldJob none) 0 "7" acquired)) := by
  have claimed : ShipmentMove id Imports.plainTexts lenient shipmentKey "token" .idle
      (trackedStore trackedJob) .worker (.claimed shipmentQueue (heldJob none))
      (trackedStore (heldJob none)) :=
    .claim (q := shipmentQueue) (show shipmentQueue.claimNext none false 0 "token"
      (trackedStore trackedJob).jobs = (some (heldJob none), (trackedStore (heldJob none)).jobs)
      from rfl) rfl
  have begun : ShipmentMove id Imports.plainTexts lenient shipmentKey "token"
      (.claimed shipmentQueue (heldJob none)) (trackedStore (heldJob none)) .worker
      (.acquiring shipmentQueue (heldJob none) 0) (trackedStore (heldJob (some 0))) :=
    .start (show initializeShipmentCursor shipmentQueue id (heldJob none) 0
      (trackedStore (heldJob none)).jobs = .ok (0, (trackedStore (heldJob (some 0))).jobs) from rfl)
  exact ((Run.single (trackedPool_move claimed)).snoc (trackedPool_move begun)).snoc
    (trackedPool_move (.acquire rfl hacquired))

/-- A field that the detail lacks, other than the two that are kept, is lost. -/
theorem tracking_number_lost :
    ∃ es before after acquired, ShipmentStart shipmentKey "1" ["7"] 0
        (trackedPool (trackedStore trackedJob) .idle) ∧
      Run (ShipmentStep id Imports.plainTexts lenient shipmentKey)
        (trackedPool (trackedStore trackedJob) .idle) es before ∧
      ShipmentStep id Imports.plainTexts lenient shipmentKey before
        (.published ⟨"token", shipmentQueue, heldJob none, 0, "7", acquired, 0⟩) after ∧
      acquired.detail.get? "tracking_number" = none ∧
      trackingNumber before.shared = some (some (.string "T")) ∧
      trackingNumber after.shared = some none := by
  obtain ⟨acquired, store, hacquired, hstore, hdetail, hnumber, -⟩ := tracked_commit
  exact ⟨_, _, _, acquired, trackedPool_start, tracked_run hacquired,
    trackedPool_move (.publish hstore (.inl rfl)), hdetail, rfl, hnumber⟩

theorem shipments_recovered_tracked :
    ∃ es pool record, Run (ShipmentStep id Imports.plainTexts lenient shipmentKey)
        (trackedPool (trackedStore trackedJob) .idle) es pool ∧
      Recovered Imports.plainTexts lenient shipmentKey "1" ["7"] 0 es pool record ∧
      record.state = .completed := by
  obtain ⟨acquired, store, hacquired, hstore, -, -, hstate⟩ := tracked_commit
  have run := (tracked_run hacquired).snoc (trackedPool_move (.publish hstore (.inl rfl)))
  obtain ⟨record, hrecord, recovered, -⟩ := shipments_recovered trackedPool_start run
  refine ⟨_, _, record, run, recovered, ?_⟩
  have hstored : store.jobs.byKey shipmentKey = some record := hrecord
  rw [hstored] at hstate
  exact Option.some.inj hstate

end ZelerPlatform.Recovery
