import Mathlib.Tactic.Linarith
import ZelerPlatform.Library.Run
import ZelerPlatform.Recovery.Moves

/-!
# Catalog continuations

A catalog job runs over its publications in chunks of twenty. A worker claims the job for its
next chunk and ends its turn by settling the chunk, by asking for another attempt, or by giving
the attempt back for quota; it may also crash, and then its lease expires. What happens to one
job along a run is told from the labels of the steps.
-/

namespace ZelerPlatform.Recovery

open Fallible Transition

/-! ### The takeover in a claim -/

/-- The filter of the takeover: an expired last attempt at a chunk. -/
def Queue.exhausted (q : Queue) (lane : Option Lane) (history : Bool) (now : Time) (job : Job) :
    Bool :=
  q.laneFilter lane history job && job.state = .running && job.catalogOffset.isSome
    && job.readModel ∈ q.enabledModels && job.expiredAt now && decide (maxAttempts ≤ job.attempts)

/-- The first part of `claim`, up to the call of `finish`. `later` is what the clock shows
there. -/
def Queue.settleExhausted (q : Queue) (lane : Option Lane) (history : Bool) (now : Time)
    (token : String) (later : Time) (jobs : Jobs) : Except QueueError Jobs :=
  match q.claimExhausted lane history now token jobs with
  | (none, jobs) => pure jobs
  | (some job, jobs) => do
      let (_, jobs) ← finish job false false .recoveryFailed later later jobs
      return jobs

/-! ### Runs -/

/-- What happens in a step; `matched` is what the call returns. -/
inductive Happening
  | claimed (job : Option Job)
  | takenOver (job : Option Job)
  | deferred (job : Job) (matched : Bool)
  | closed (job : Job) (matched : Bool)
  | finished (job : Job) (succeeded retryable matched : Bool)
  | quiet

/-- The call of `finish` asks for another attempt. -/
def retries (job : Job) (succeeded retryable : Bool) : Bool :=
  !succeeded && retryable && decide (job.attempts < maxAttempts)

namespace Happening

/-- A claim of the job for the chunk at an offset. -/
def claims (id : String) (offset : Nat) : Happening → Bool
  | claimed (some job) => job.id = id && job.catalogOffset = some offset
  | _ => false

/-- The chunk at an offset is given back for quota. -/
def defers (id : String) (offset : Nat) : Happening → Bool
  | deferred job true => job.id = id && job.catalogOffset = some offset
  | _ => false

/-- The chunk that is settled, and whether it succeeded. -/
def settles (id : String) : Happening → Option (Nat × Bool)
  | finished job succeeded retryable true =>
      if job.id = id ∧ retries job succeeded retryable = false then
        some (job.catalogOffset.getD 0, succeeded)
      else none
  | _ => none

/-- The job is closed for a seller who is not eligible any more. -/
def closes (id : String) : Happening → Bool
  | closed job true => job.id = id
  | _ => false

end Happening

/-- The jobs, and the documents handed out by claims. -/
structure Shift where
  jobs : Jobs
  handed : List Job

/-- A token not handed out yet. -/
def Shift.Fresh (s : Shift) (token : String) : Prop :=
  ∀ job ∈ s.handed, job.attemptToken ≠ some token

/-- One step of the queues and the workers, as far as the job under a key is concerned: a
claim or one of its parts, a call with a document that was handed out, or anything that leaves
that job alone. -/
inductive Work (id : String) (s : Shift) : Happening → Shift → Prop
  | claimExhausted (q : Queue) (lane : Option Lane) (history : Bool) (now : Time) {token : String}
      (fresh : s.Fresh token) {found : Option Job} {jobs : Jobs}
      (result : q.claimExhausted lane history now token s.jobs = (found, jobs)) :
      Work id s (.takenOver found) ⟨jobs, s.handed ++ found.toList⟩
  | failExhausted (q : Queue) (lane : Option Lane) (history : Bool) (now : Time) :
      Work id s .quiet ⟨q.failExhausted lane history now s.jobs, s.handed⟩
  | claimNext (q : Queue) (lane : Option Lane) (history : Bool) (now : Time) {token : String}
      (fresh : s.Fresh token) {found : Option Job} {jobs : Jobs}
      (result : q.claimNext lane history now token s.jobs = (found, jobs)) :
      Work id s (.claimed found) ⟨jobs, s.handed ++ found.toList⟩
  | renew {job : Job} (mem : job ∈ s.handed) (now : Time) :
      Work id s .quiet ⟨(renew job now s.jobs).2, s.handed⟩
  | deferQuota {job : Job} (mem : job ∈ s.handed) (now : Time) :
      Work id s (.deferred job (deferQuota job now s.jobs).1)
        ⟨(deferQuota job now s.jobs).2, s.handed⟩
  | closeIneligible {job : Job} (mem : job ∈ s.handed) (now : Time) :
      Work id s (.closed job (s.jobs.matched (owned job now)))
        ⟨closeIneligible job now s.jobs, s.handed⟩
  | finish {job : Job} (mem : job ∈ s.handed) (succeeded retryable : Bool) (reason : FailureReason)
      (now checkpointNow : Time) {matched : Bool} {jobs : Jobs}
      (result : finish job succeeded retryable reason now checkpointNow s.jobs =
        .ok (matched, jobs)) :
      Work id s (.finished job succeeded retryable matched) ⟨jobs, s.handed⟩
  | other {jobs : Jobs} (same : jobs.byKey id = s.jobs.byKey id) : Work id s .quiet ⟨jobs, s.handed⟩

/-- How often the job was claimed for a chunk. -/
def claimCount (id : String) (offset : Nat) (es : List Happening) : Nat :=
  es.countP (Happening.claims id offset)

/-- How often a chunk was given back for quota. -/
def deferralCount (id : String) (offset : Nat) (es : List Happening) : Nat :=
  es.countP (Happening.defers id offset)

/-- The chunks settled so far, in order. -/
def settledChunks (id : String) (es : List Happening) : List (Nat × Bool) :=
  es.filterMap (Happening.settles id)

/-- A catalog job over some publications that was not claimed yet. -/
structure Job.AtStart (ids : List String) (job : Job) : Prop where
  ids_eq : catalogIds job = some ids
  some_id : ids ≠ []
  scope : job.inventoryScope = false
  offset : job.catalogOffset = some 0
  failures : job.catalogFailedOffsets = none
  reason : job.catalogFailureReason = none
  state : job.state = .pending
  attempts : job.attempts = 0
  token : job.attemptToken = none

/-! ### What an operation does to one job -/

section

variable {id : String} {jobs jobs' : Jobs} {job snapshot : Job} {now : Time} {change : Job → Job}
variable {keeps : ∀ job, (change job).id = job.id} {p : Job → Bool}

theorem owned_id (h : owned snapshot now job = true) : job.id = snapshot.id := by
  simp only [owned, Bool.and_eq_true, decide_eq_true_eq] at h
  exact h.1.1.1.1

/-- The owner changes its job; a call without ownership leaves the job alone. -/
theorem updateOwned_byKey (snapshot : Job) (now : Time) (change : Job → Job)
    (keeps : ∀ job, (change job).id = job.id) (h : jobs.byKey id = some job) :
    (owned snapshot now job = true →
      (updateOwned snapshot now change keeps jobs).1 = true ∧
        (updateOwned snapshot now change keeps jobs).2.byKey id = some (change job)) ∧
      (owned snapshot now job = false →
        (updateOwned snapshot now change keeps jobs).2.byKey id = some job ∧
          ((updateOwned snapshot now change keeps jobs).1 = true → snapshot.id ≠ id)) := by
  obtain ⟨mem, hid⟩ := Collection.byKey_some.mp h
  have hafter : (updateOwned snapshot now change keeps jobs).2.byKey id =
      some (if owned snapshot now job then change job else job) := by
    rw [updateOwned, Collection.byKey_update, h, Option.map_some]
  constructor
  · intro howned
    rw [hafter, if_pos howned]
    exact ⟨List.any_eq_true.mpr ⟨job, mem, howned⟩, rfl⟩
  · intro hnot
    rw [hafter, if_neg (by simp [hnot])]
    refine ⟨rfl, fun hmatched hsame => ?_⟩
    obtain ⟨stored, hstored, howned⟩ := List.any_eq_true.mp hmatched
    have hkey : stored.id = job.id := by rw [owned_id howned, hsame, hid]
    rw [Collection.eq_of_key hstored mem hkey, hnot] at howned
    cases howned

/-- A claim takes the job, or it takes another one or none. -/
theorem takeOne_byKey {chosen found : Option Job} (hmem : ∀ c ∈ chosen, c ∈ jobs.docs)
    (h : jobs.byKey id = some job)
    (result : Queue.takeOne chosen change keeps jobs = (found, jobs')) :
    (chosen = some job ∧ found = some (change job) ∧ jobs'.byKey id = some (change job)) ∨
      ((∀ c ∈ found, c.id ≠ id) ∧ jobs'.byKey id = some job) := by
  obtain ⟨mem, hid⟩ := Collection.byKey_some.mp h
  cases chosen with
  | none =>
      obtain ⟨rfl, rfl⟩ := Prod.mk.inj result
      exact .inr ⟨by simp, h⟩
  | some c =>
      obtain ⟨rfl, rfl⟩ := Prod.mk.inj result
      by_cases hc : c.id = id
      · obtain rfl := Collection.eq_of_key (hmem c rfl) mem (hc.trans hid.symm)
        refine .inl ⟨rfl, rfl, ?_⟩
        rw [Collection.byKey_update, h, Option.map_some, if_pos (by simp)]
      · refine .inr ⟨?_, ?_⟩
        · intro c' hc'
          obtain rfl := Option.some.inj hc'
          rwa [keeps]
        · have hother : ¬ job.id = c.id := fun heq => hc (heq.symm.trans hid)
          rw [Collection.byKey_update, h, Option.map_some, if_neg (by simpa using hother)]

/-- Every call of `finish` that returns has made one owned update. -/
theorem finish_updates {succeeded retryable : Bool} {reason : FailureReason} {checkpointNow : Time}
    {matched : Bool}
    (h : finish snapshot succeeded retryable reason now checkpointNow jobs = .ok (matched, jobs')) :
    ∃ (t : Time) (change : Job → Job) (keeps : ∀ job, (change job).id = job.id),
      (matched, jobs') = updateOwned snapshot t change keeps jobs := by
  obtain ⟨-, h⟩ := raiseIf_ok h
  dsimp only at h
  split at h
  · split at h
    · obtain ⟨-, h⟩ := raiseIf_ok h
      exact ⟨_, _, _, (pure_ok h).symm⟩
    · cases h
  · split at h
    · obtain ⟨ids, -, h⟩ := bind_ok h
      obtain ⟨-, h⟩ := raiseIf_ok h
      obtain ⟨-, h⟩ := raiseIf_ok h
      exact ⟨_, _, _, (pure_ok h).symm⟩
    · exact ⟨_, _, _, (pure_ok h).symm⟩

/-- The change that settles a chunk. -/
def settleChunk (snapshot : Job) (ids : List String) (offset : Nat) (succeeded : Bool)
    (reason : FailureReason) (now : Time) (stored : Job) : Job :=
  let nextOffset := min (offset + 20) ids.length
  let failed := snapshot.catalogFailedOffsets.getD [] ++ if succeeded then [] else [offset]
  let done := decide (nextOffset = ids.length)
  let chunkReason := if succeeded then snapshot.catalogFailureReason else some reason
  { stored with
    state := if !done then .pending else if failed.isEmpty then .completed else .failed,
    attempts := 0, availableAt := if done then now + cooldown else now, updatedAt := now,
    catalogOffset := some nextOffset, catalogFailedOffsets := some failed,
    catalogFailureReason := if succeeded then stored.catalogFailureReason else some reason,
    failureReason := if failed.isEmpty then none else chunkReason,
    leaseUntil := none, attemptToken := none }

variable {ids : List String} {offset : Nat} {succeeded retryable matched : Bool}
variable {reason : FailureReason} {checkpointNow : Time}

theorem finishChunk_ok (hids : catalogIds snapshot = some ids)
    (h : finishChunk snapshot offset succeeded reason now jobs = .ok (matched, jobs')) :
    ∃ keeps, (matched, jobs') =
      updateOwned snapshot now (settleChunk snapshot ids offset succeeded reason now) keeps jobs := by
  rw [finishChunk, hids] at h
  obtain ⟨ids', hsame, h⟩ := bind_ok h
  obtain rfl := pure_ok hsame
  obtain ⟨-, h⟩ := raiseIf_ok h
  obtain ⟨-, h⟩ := raiseIf_ok h
  exact ⟨_, (pure_ok h).symm⟩

/-- A settled chunk is one that the call may settle. -/
theorem finishChunk_eq (hids : catalogIds snapshot = some ids) (hoffset : offset < ids.length)
    (aligned : offset % 20 = 0)
    (recorded : snapshot.catalogFailedOffsets.getD [] ≠ [] →
      snapshot.catalogFailureReason.isSome = true) :
    finishChunk snapshot offset succeeded reason now jobs =
      .ok (updateOwned snapshot now (settleChunk snapshot ids offset succeeded reason now)
        (by intro; rfl) jobs) := by
  have hrecorded : ¬ (¬ (snapshot.catalogFailedOffsets.getD [] ++
      if succeeded then [] else [offset]).isEmpty = true ∧
        (if succeeded then snapshot.catalogFailureReason else some reason).isNone = true) := by
    rintro ⟨hsome, hnone⟩
    cases succeeded with
    | true =>
        have hreason := recorded (by simpa using hsome)
        rw [if_pos rfl] at hnone
        simp [Option.isNone_iff_eq_none.mp hnone] at hreason
    | false => cases hnone
  rw [finishChunk, hids]
  simp only [Option.elim_some, pure_bind]
  rw [raiseIf, if_neg (not_not.mpr ⟨hoffset, aligned⟩), pure_bind, raiseIf, if_neg hrecorded,
    pure_bind]
  rfl

/-- The change of a call that asks for another attempt. -/
def retryLater (snapshot : Job) (reason : FailureReason) (now : Time) (stored : Job) : Job :=
  { stored with
    state := .pending, availableAt := now + retryDelay snapshot.attempts, updatedAt := now,
    failureReason := some reason, leaseUntil := none, attemptToken := none }

/-- What `finish` does to a catalog job: another attempt at the chunk, or its end. -/
theorem finish_ok (scope : snapshot.inventoryScope = false)
    (hoffset : snapshot.catalogOffset = some offset)
    (h : finish snapshot succeeded retryable reason now checkpointNow jobs = .ok (matched, jobs')) :
    (retries snapshot succeeded retryable = true ∧ ∃ keeps, (matched, jobs') =
      updateOwned snapshot now (retryLater snapshot reason now) keeps jobs) ∨
    (retries snapshot succeeded retryable = false ∧
      finishChunk snapshot offset succeeded reason now jobs = .ok (matched, jobs')) := by
  obtain ⟨-, h⟩ := raiseIf_ok h
  dsimp only at h
  rw [if_neg (by simp [scope]), hoffset] at h
  cases hretry : retries snapshot succeeded retryable with
  | false =>
      rw [show (!succeeded && retryable && decide (snapshot.attempts < maxAttempts)) = false
        from hretry] at h
      exact .inr ⟨rfl, h⟩
  | true =>
      have hsucceeded : succeeded = false := by
        simp only [retries, Bool.and_eq_true, Bool.not_eq_true'] at hretry
        exact hretry.1.1
      rw [show (!succeeded && retryable && decide (snapshot.attempts < maxAttempts)) = true
        from hretry, hsucceeded] at h
      exact .inl ⟨rfl, _, (pure_ok h).symm⟩

end

/-! ### What holds of the job -/

/-- The fields that only the settling of a chunk changes. -/
structure ChunkFields where
  ids : Option (List String)
  offset : Option Nat
  failedOffsets : Option (List Nat)
  failureReason : Option FailureReason
  inventoryScope : Bool

def Job.chunkFields (job : Job) : ChunkFields where
  ids := catalogIds job
  offset := job.catalogOffset
  failedOffsets := job.catalogFailedOffsets
  failureReason := job.catalogFailureReason
  inventoryScope := job.inventoryScope

/-- The chunks before the offset are those settled, in order, and the failed ones are noted. -/
structure Progress (ids : List String) (chunks : List (Nat × Bool)) (job : Job) : Prop where
  ids_eq : catalogIds job = some ids
  scope : job.inventoryScope = false
  offset : job.catalogOffset = some (min (20 * chunks.length) ids.length)
  order : chunks.map Prod.fst = (List.range chunks.length).map (20 * ·)
  bounded : 20 * chunks.length < ids.length + 20
  failures : job.catalogFailedOffsets.getD [] = (chunks.filter fun c => !c.2).map Prod.fst
  reason : job.catalogFailedOffsets.getD [] ≠ [] → job.catalogFailureReason.isSome = true

/-- The attempts at the next chunk count its claims, less those given back. -/
structure Tries (id : String) (es : List Happening) (next : Nat) (job : Job) : Prop where
  attempts_nonneg : 0 ≤ job.attempts
  attempts_le : job.attempts ≤ maxAttempts
  running : job.state = .running → 1 ≤ job.attempts
  current : (claimCount id next es : Int) = job.attempts + deferralCount id next es
  others : ∀ offset, offset ≠ next → claimCount id offset es ≤ 3 + deferralCount id offset es
  later : ∀ offset, next < offset →
    claimCount id offset es = 0 ∧ deferralCount id offset es = 0

/-- A job is active until its last chunk is settled or it is closed, and then its state says
how it ended. -/
structure Standing (ids : List String) (chunks : List (Nat × Bool)) (closed : Prop) (job : Job) :
    Prop where
  active : job.active = true → 20 * chunks.length < ids.length
  completed : job.state = .completed → ids.length ≤ 20 * chunks.length ∧ ∀ c ∈ chunks, c.2 = true
  failed : job.state = .failed → job.failureReason.isSome = true ∧
    (ids.length ≤ 20 * chunks.length ∧ (∃ c ∈ chunks, c.2 = false) ∨
      20 * chunks.length < ids.length ∧ closed)

/-- A document that was handed out with the token of the job has its chunk fields. -/
structure Held (handed : List Job) (job : Job) : Prop where
  known : ∀ token, job.attemptToken = some token → ∃ h ∈ handed, h.attemptToken = some token
  same : ∀ h ∈ handed, h.id = job.id → ∀ token, job.attemptToken = some token →
    h.attemptToken = some token → h.chunkFields = job.chunkFields ∧ h.attempts = job.attempts

/-- All of it, for the job under a key after some steps. -/
structure Orderly (id : String) (ids : List String) (handed : List Job) (es : List Happening)
    (job : Job) : Prop where
  progress : Progress ids (settledChunks id es) job
  tries : Tries id es (20 * (settledChunks id es).length) job
  standing : Standing ids (settledChunks id es) (∃ e ∈ es, e.closes id = true) job
  held : Held handed job

section

variable {id : String} {ids : List String} {chunks : List (Nat × Bool)} {job job' snapshot : Job}
variable {es : List Happening} {e : Happening} {handed : List Job} {next offset : Nat}

theorem Progress.of_same (h : Progress ids chunks job) (same : job'.chunkFields = job.chunkFields) :
    Progress ids chunks job' := by
  obtain ⟨hids, hoffset, hfailed, hreason, hscope⟩ := ChunkFields.mk.inj same
  exact ⟨hids.trans h.ids_eq, hscope.trans h.scope, hoffset.trans h.offset, h.order, h.bounded,
    by rw [hfailed]; exact h.failures, by rw [hfailed, hreason]; exact h.reason⟩

/-- While a chunk is left, the offset is where it begins. -/
theorem Progress.offset_eq (h : Progress ids chunks job) (left : 20 * chunks.length < ids.length) :
    job.catalogOffset = some (20 * chunks.length) := by
  rw [h.offset, Nat.min_eq_left (Nat.le_of_lt left)]

theorem Progress.settle (h : Progress ids chunks job) (left : 20 * chunks.length < ids.length)
    {succeeded : Bool} {reason : FailureReason} {now : Time}
    (same : snapshot.chunkFields = job.chunkFields) :
    Progress ids (chunks ++ [(20 * chunks.length, succeeded)])
      (settleChunk snapshot ids (20 * chunks.length) succeeded reason now job) := by
  obtain ⟨-, -, hfailed, hreason, -⟩ := ChunkFields.mk.inj same
  refine ⟨h.ids_eq, h.scope, ?_, ?_, ?_, ?_, ?_⟩
  · show some (min (20 * chunks.length + 20) ids.length) = _
    rw [List.length_append, List.length_singleton, Nat.mul_add, Nat.mul_one]
  · rw [List.map_append, h.order, List.length_append, List.length_singleton, List.range_succ,
      List.map_append]
    rfl
  · rw [List.length_append, List.length_singleton]
    omega
  · show (some (snapshot.catalogFailedOffsets.getD [] ++ _)).getD [] = _
    rw [Option.getD_some, hfailed, h.failures, List.filter_append, List.map_append]
    cases succeeded <;> rfl
  · intro hsome
    cases succeeded with
    | true =>
        refine h.reason ?_
        rw [← hfailed]
        simpa [settleChunk] using hsome
    | false => rfl

/-! #### Attempts -/

theorem claimCount_append (offset : Nat) (e : Happening) :
    claimCount id offset (es ++ [e]) = claimCount id offset es + if e.claims id offset then 1 else 0 := by
  rw [claimCount, List.countP_append, List.countP_singleton]
  rfl

theorem deferralCount_append (offset : Nat) (e : Happening) :
    deferralCount id offset (es ++ [e]) =
      deferralCount id offset es + if e.defers id offset then 1 else 0 := by
  rw [deferralCount, List.countP_append, List.countP_singleton]
  rfl

/-- A step that neither claims the job nor gives it back. -/
theorem Tries.uncounted (h : Tries id es next job) (claims : ∀ offset, e.claims id offset = false)
    (defers : ∀ offset, e.defers id offset = false) (attempts : job'.attempts = job.attempts)
    (running : job'.state = .running → job.state = .running) :
    Tries id (es ++ [e]) next job' := by
  have hclaim (offset : Nat) : claimCount id offset (es ++ [e]) = claimCount id offset es := by
    rw [claimCount_append, claims]
    rfl
  have hdeferral (offset : Nat) :
      deferralCount id offset (es ++ [e]) = deferralCount id offset es := by
    rw [deferralCount_append, defers]
    rfl
  refine ⟨?_, ?_, fun hrunning => ?_, ?_, fun offset hne => ?_, fun offset hlt => ?_⟩
  · rw [attempts]
    exact h.attempts_nonneg
  · rw [attempts]
    exact h.attempts_le
  · rw [attempts]
    exact h.running (running hrunning)
  · rw [hclaim, hdeferral, attempts]
    exact h.current
  · rw [hclaim, hdeferral]
    exact h.others offset hne
  · rw [hclaim, hdeferral]
    exact h.later offset hlt

/-- The next claim for the chunk. -/
theorem Tries.claim (h : Tries id es next job) (below : job.attempts < maxAttempts)
    (claims : ∀ offset, e.claims id offset = decide (offset = next))
    (defers : ∀ offset, e.defers id offset = false) (attempts : job'.attempts = job.attempts + 1) :
    Tries id (es ++ [e]) next job' := by
  have hclaim {offset : Nat} (hne : offset ≠ next) :
      claimCount id offset (es ++ [e]) = claimCount id offset es := by
    rw [claimCount_append, claims, if_neg (by simpa using hne), Nat.add_zero]
  have hdeferral (offset : Nat) :
      deferralCount id offset (es ++ [e]) = deferralCount id offset es := by
    rw [deferralCount_append, defers]
    rfl
  have hnonneg := h.attempts_nonneg
  refine ⟨by omega, by omega, fun _ => by omega, ?_, fun offset hne => ?_, fun offset hlt => ?_⟩
  · have hcurrent := h.current
    rw [claimCount_append, claims, if_pos (by simp), hdeferral]
    push_cast
    omega
  · rw [hclaim hne, hdeferral]
    exact h.others offset hne
  · rw [hclaim (Nat.ne_of_gt hlt), hdeferral]
    exact h.later offset hlt

/-- A claim of the chunk that is given back. -/
theorem Tries.defer (h : Tries id es next job) (running : job.state = .running)
    (claims : ∀ offset, e.claims id offset = false)
    (defers : ∀ offset, e.defers id offset = decide (offset = next))
    (attempts : job'.attempts = job.attempts - 1) (stopped : job'.state ≠ .running) :
    Tries id (es ++ [e]) next job' := by
  have hclaim (offset : Nat) : claimCount id offset (es ++ [e]) = claimCount id offset es := by
    rw [claimCount_append, claims]
    rfl
  have hdeferral {offset : Nat} (hne : offset ≠ next) :
      deferralCount id offset (es ++ [e]) = deferralCount id offset es := by
    rw [deferralCount_append, defers, if_neg (by simpa using hne), Nat.add_zero]
  have hrunning := h.running running
  have hle := h.attempts_le
  refine ⟨by omega, by omega, fun hstate => absurd hstate stopped, ?_, fun offset hne => ?_,
    fun offset hlt => ?_⟩
  · have hcurrent := h.current
    rw [deferralCount_append, defers, if_pos (by simp), hclaim]
    push_cast
    omega
  · rw [hclaim, hdeferral hne]
    exact h.others offset hne
  · rw [hclaim, hdeferral (Nat.ne_of_gt hlt)]
    exact h.later offset hlt

/-- After the end of a chunk the attempts are those at the one after it. -/
theorem Tries.settle (h : Tries id es next job) {next' : Nat} (later : next < next')
    (attempts : job'.attempts = 0) (stopped : job'.state ≠ .running) : Tries id es next' job' := by
  have hmax : maxAttempts = 3 := rfl
  obtain ⟨hclaims, hdeferrals⟩ := h.later next' later
  refine ⟨by omega, by omega, fun hstate => absurd hstate stopped, ?_, fun offset hne => ?_,
    fun offset hlt => h.later offset (later.trans hlt)⟩
  · rw [hclaims, hdeferrals, attempts]
    rfl
  · by_cases hnext : offset = next
    · subst hnext
      have hcurrent := h.current
      have hle := h.attempts_le
      omega
    · exact h.others offset hnext

/-! #### Documents handed out -/

theorem Held.of_same (h : Held handed job) (hid : job'.id = job.id)
    (token : job'.attemptToken = job.attemptToken) (same : job'.chunkFields = job.chunkFields)
    (attempts : job'.attempts = job.attempts) : Held handed job' := by
  refine ⟨fun t ht => h.known t (token ▸ ht), fun doc mem hdoc t ht hdocToken => ?_⟩
  rw [same, attempts]
  exact h.same doc mem (hdoc.trans hid) t (token ▸ ht) hdocToken

/-- A job without a token is held by nobody. -/
theorem Held.released (h : job.attemptToken = none) : Held handed job := by
  refine ⟨fun t ht => ?_, fun _ _ _ t ht => ?_⟩
  · rw [h] at ht
    cases ht
  · rw [h] at ht
    cases ht

/-- Documents of other jobs are handed out. -/
theorem Held.append (h : Held handed job) {docs : List Job} (others : ∀ doc ∈ docs, doc.id ≠ job.id) :
    Held (handed ++ docs) job := by
  refine ⟨fun t ht => ?_, fun doc mem hdoc => ?_⟩
  · obtain ⟨doc, mem, hdoc⟩ := h.known t ht
    exact ⟨doc, List.mem_append_left _ mem, hdoc⟩
  · obtain mem | mem := List.mem_append.mp mem
    · exact h.same doc mem hdoc
    · exact absurd hdoc (others doc mem)

/-- The job is handed out under a fresh token. -/
theorem Held.claimed {token : String} (fresh : ∀ doc ∈ handed, doc.attemptToken ≠ some token)
    (h : job.attemptToken = some token) : Held (handed ++ [job]) job := by
  refine ⟨fun t ht => ⟨job, by simp, ht⟩, fun doc mem _ t ht hdoc => ?_⟩
  obtain rfl := Option.some.inj (h.symm.trans ht)
  obtain mem | mem := List.mem_append.mp mem
  · exact absurd hdoc (fresh doc mem)
  · obtain rfl := List.mem_singleton.mp mem
    exact ⟨rfl, rfl⟩

/-! #### Steps -/

/-- A happening that neither claims the job nor gives it back nor settles a chunk of it. -/
structure Happening.Foreign (id : String) (e : Happening) : Prop where
  claims : ∀ offset, e.claims id offset = false
  defers : ∀ offset, e.defers id offset = false
  settles : e.settles id = none

theorem settledChunks_append (e : Happening) :
    settledChunks id (es ++ [e]) = settledChunks id es ++ (e.settles id).toList := by
  rw [settledChunks, List.filterMap_append]
  congr 1

theorem Happening.Foreign.settledChunks_append (foreign : e.Foreign id) :
    settledChunks id (es ++ [e]) = settledChunks id es := by
  rw [Recovery.settledChunks_append, foreign.settles]
  simp

/-- A change of the job in which no chunk is settled. -/
theorem Orderly.keep (h : Orderly id ids handed es job) {handed' : List Job}
    (foreign : e.Foreign id) (same : job'.chunkFields = job.chunkFields)
    (attempts : job'.attempts = job.attempts) (running : job'.state = .running → job.state = .running)
    (standing : Standing ids (settledChunks id es) (∃ e' ∈ es ++ [e], e'.closes id = true) job')
    (held : Held handed' job') : Orderly id ids handed' (es ++ [e]) job' := by
  refine ⟨?_, ?_, ?_, held⟩
  · rw [foreign.settledChunks_append]
    exact h.progress.of_same same
  · rw [foreign.settledChunks_append]
    exact h.tries.uncounted foreign.claims foreign.defers attempts running
  · rw [foreign.settledChunks_append]
    exact standing

theorem Standing.of_same {closed closed' : Prop} (h : Standing ids chunks closed job)
    (state : job'.state = job.state) (reason : job'.failureReason = job.failureReason)
    (weaker : closed → closed') : Standing ids chunks closed' job' := by
  refine ⟨fun hactive => h.active ?_, fun hstate => h.completed (state ▸ hstate), fun hstate => ?_⟩
  · simpa [Job.active, state] using hactive
  · obtain ⟨hreason, hend⟩ := h.failed (state ▸ hstate)
    rw [reason]
    exact ⟨hreason, hend.imp_right fun hclosed => ⟨hclosed.1, weaker hclosed.2⟩⟩

theorem closes_append {e' : Happening} (h : ∃ e ∈ es, e.closes id = true) :
    ∃ e ∈ es ++ [e'], e.closes id = true := by
  obtain ⟨e, mem, he⟩ := h
  exact ⟨e, List.mem_append_left _ mem, he⟩

/-- A step that leaves the job alone. -/
theorem Orderly.unaffected (h : Orderly id ids handed es job) {docs : List Job}
    (foreign : e.Foreign id) (others : ∀ doc ∈ docs, doc.id ≠ job.id) :
    Orderly id ids (handed ++ docs) (es ++ [e]) job :=
  h.keep foreign rfl rfl (fun hrunning => hrunning) (h.standing.of_same rfl rfl closes_append)
    (h.held.append others)

theorem foreign_quiet : Happening.quiet.Foreign id := ⟨fun _ => rfl, fun _ => rfl, rfl⟩

theorem foreign_takenOver (found : Option Job) : (Happening.takenOver found).Foreign id :=
  ⟨fun _ => rfl, fun _ => rfl, rfl⟩

theorem foreign_closed (doc : Job) (matched : Bool) : (Happening.closed doc matched).Foreign id :=
  ⟨fun _ => rfl, fun _ => rfl, rfl⟩

theorem foreign_claimed {found : Option Job} (other : ∀ doc ∈ found, doc.id ≠ id) :
    (Happening.claimed found).Foreign id := by
  refine ⟨fun offset => ?_, fun _ => rfl, rfl⟩
  cases found with
  | none => rfl
  | some doc => simp [Happening.claims, other doc rfl]

theorem foreign_deferred {doc : Job} {matched : Bool} (other : matched = true → doc.id ≠ id) :
    (Happening.deferred doc matched).Foreign id := by
  refine ⟨fun _ => rfl, fun offset => ?_, rfl⟩
  cases matched with
  | false => rfl
  | true => simp [Happening.defers, other rfl]

theorem foreign_finished {doc : Job} {succeeded retryable matched : Bool}
    (other : matched = true → doc.id ≠ id ∨ retries doc succeeded retryable = true) :
    (Happening.finished doc succeeded retryable matched).Foreign id := by
  refine ⟨fun _ => rfl, fun _ => rfl, ?_⟩
  cases matched with
  | false => rfl
  | true =>
      refine if_neg fun ⟨hid, hsettled⟩ => ?_
      obtain hne | hretry := other rfl
      · exact hne hid
      · rw [hsettled] at hretry
        cases hretry

/-- The document was handed out with the token under which the job runs. -/
def Holds (snapshot job : Job) : Prop :=
  snapshot.id = job.id ∧ job.state = .running ∧
    ∃ token, job.attemptToken = some token ∧ snapshot.attemptToken = some token

theorem holds_of_owned {now : Time} (h : owned snapshot now job = true) : Holds snapshot job := by
  obtain ⟨token, htoken, hid, hstate, hjob, -⟩ := owned_held le_rfl h
  exact ⟨hid.symm, hstate, token, hjob, htoken⟩

/-- Who holds the job knows its chunk. -/
theorem Orderly.of_holds (h : Orderly id ids handed es job) (mem : snapshot ∈ handed)
    (holds : Holds snapshot job) :
    snapshot.chunkFields = job.chunkFields ∧ snapshot.attempts = job.attempts := by
  obtain ⟨hid, -, token, hjob, hsnapshot⟩ := holds
  exact h.held.same snapshot mem hid token hjob hsnapshot

theorem Orderly.left (h : Orderly id ids handed es job) (active : job.active = true) :
    20 * (settledChunks id es).length < ids.length := h.standing.active active

variable {jobs jobs' : Jobs} {now : Time} {change : Job → Job}

/-- A call that changes the job of its owner and otherwise leaves the job alone. -/
theorem Orderly.update (h : Orderly id ids handed es job)
    (keeps : ∀ job, (change job).id = job.id) (stored : jobs.byKey id = some job)
    (owner : Holds snapshot job → owned snapshot now job = true →
      (updateOwned snapshot now change keeps jobs).1 = true →
        Orderly id ids handed (es ++ [e]) (change job))
    (foreign : ((updateOwned snapshot now change keeps jobs).1 = true → snapshot.id ≠ id) →
      e.Foreign id) :
    ∃ job', (updateOwned snapshot now change keeps jobs).2.byKey id = some job' ∧
      Orderly id ids handed (es ++ [e]) job' := by
  obtain ⟨howner, hother⟩ := updateOwned_byKey snapshot now change keeps stored
  cases howned : owned snapshot now job with
  | true =>
      obtain ⟨hmatched, hafter⟩ := howner howned
      exact ⟨_, hafter, owner (holds_of_owned howned) howned hmatched⟩
  | false =>
      obtain ⟨hafter, hmatched⟩ := hother howned
      refine ⟨job, hafter, ?_⟩
      have hsame : Orderly id ids (handed ++ []) (es ++ [e]) job :=
        h.unaffected (foreign hmatched) (by simp)
      rwa [List.append_nil] at hsame

/-- A job gives up its lease: nothing but its state changes. -/
theorem Orderly.release (h : Orderly id ids handed es job) (foreign : e.Foreign id)
    (same : job'.chunkFields = job.chunkFields) (attempts : job'.attempts = job.attempts)
    (released : job'.attemptToken = none) (stopped : job'.state ≠ .running)
    (standing : Standing ids (settledChunks id es) (∃ e' ∈ es ++ [e], e'.closes id = true) job') :
    Orderly id ids handed (es ++ [e]) job' :=
  h.keep foreign same attempts (fun hrunning => absurd hrunning stopped) standing (.released released)

/-- A job that has not ended, with a chunk left. -/
theorem Standing.of_left {closed : Prop} (left : 20 * chunks.length < ids.length)
    (completed : job.state ≠ .completed) (failed : job.state ≠ .failed) :
    Standing ids chunks closed job :=
  ⟨fun _ => left, fun h => absurd h completed, fun h => absurd h failed⟩

/-- The owner gives its attempt at the chunk back. -/
theorem Orderly.defer (h : Orderly id ids handed es job) (mem : snapshot ∈ handed)
    (holds : Holds snapshot job) (hid : job.id = id) :
    Orderly id ids handed (es ++ [.deferred snapshot true])
      { job with
        state := .pending, updatedAt := now, availableAt := now + 1000,
        attempts := job.attempts - 1, attemptToken := none, leaseUntil := none } := by
  have hleft := h.left (active_of_running holds.2.1)
  have hoffset : snapshot.catalogOffset = some (20 * (settledChunks id es).length) :=
    (congrArg ChunkFields.offset (h.of_holds mem holds).1).trans (h.progress.offset_eq hleft)
  have hsettled : settledChunks id (es ++ [.deferred snapshot true]) = settledChunks id es := by
    rw [settledChunks_append]
    exact List.append_nil _
  have hdefers (offset : Nat) : (Happening.deferred snapshot true).defers id offset =
      decide (offset = 20 * (settledChunks id es).length) := by
    simp [Happening.defers, holds.1, hid, hoffset, eq_comm]
  refine ⟨?_, ?_, ?_, .released rfl⟩
  · rw [hsettled]
    exact h.progress.of_same rfl
  · rw [hsettled]
    exact h.tries.defer holds.2.1 (fun _ => rfl) hdefers rfl (by simp)
  · rw [hsettled]
    exact .of_left hleft (by simp) (by simp)

/-- After a chunk is settled the job goes on, or it has ended as its chunks say. -/
theorem Standing.settle {closed : Prop} {succeeded : Bool} {reason : FailureReason}
    (progress : Progress ids (chunks ++ [(20 * chunks.length, succeeded)])
      (settleChunk snapshot ids (20 * chunks.length) succeeded reason now job))
    (left : 20 * chunks.length < ids.length) (same : snapshot.chunkFields = job.chunkFields) :
    Standing ids (chunks ++ [(20 * chunks.length, succeeded)]) closed
      (settleChunk snapshot ids (20 * chunks.length) succeeded reason now job) := by
  obtain ⟨after, hafter⟩ : ∃ after, after = settleChunk snapshot ids (20 * chunks.length) succeeded
    reason now job := ⟨_, rfl⟩
  have hstate : after.state =
      if !decide (min (20 * chunks.length + 20) ids.length = ids.length) then .pending
      else if (after.catalogFailedOffsets.getD []).isEmpty then .completed else .failed := by
    rw [hafter]
    rfl
  have hreason : after.failureReason = if (after.catalogFailedOffsets.getD []).isEmpty then none
      else after.catalogFailureReason := by
    have hjob := congrArg ChunkFields.failureReason same
    rw [hafter]
    cases succeeded with
    | true =>
        show (if _ then none else snapshot.catalogFailureReason) = _
        rw [show snapshot.catalogFailureReason = job.catalogFailureReason from hjob]
        rfl
    | false => rfl
  rw [← hafter] at progress ⊢
  have hlength : (chunks ++ [(20 * chunks.length, succeeded)]).length = chunks.length + 1 := by
    simp
  have hfailures := progress.failures
  refine ⟨fun hactive => ?_, fun hcompleted => ?_, fun hfailed => ?_⟩
  · rw [hlength]
    by_contra hdone
    have hmin : min (20 * chunks.length + 20) ids.length = ids.length := by omega
    rw [Job.active, hstate] at hactive
    simp only [hmin, decide_true, Bool.not_true, Bool.false_eq_true, if_false] at hactive
    split at hactive <;> cases hactive
  · rw [hstate] at hcompleted
    split at hcompleted
    · cases hcompleted
    next hdone =>
      have hmin : min (20 * chunks.length + 20) ids.length = ids.length := by simpa using hdone
      split at hcompleted
      next hempty =>
        rw [List.isEmpty_iff.mp hempty] at hfailures
        have hnone := List.map_eq_nil_iff.mp hfailures.symm
        refine ⟨by rw [hlength]; omega, fun c mem => ?_⟩
        simpa using List.filter_eq_nil_iff.mp hnone c mem
      · cases hcompleted
  · rw [hstate] at hfailed
    split at hfailed
    · cases hfailed
    next hdone =>
      have hmin : min (20 * chunks.length + 20) ids.length = ids.length := by simpa using hdone
      split at hfailed
      · cases hfailed
      next hsome =>
        have hne : after.catalogFailedOffsets.getD [] ≠ [] := fun h => hsome (by rw [h]; rfl)
        refine ⟨?_, .inl ⟨by rw [hlength]; omega, ?_⟩⟩
        · rw [hreason, if_neg hsome]
          exact progress.reason hne
        · rw [hfailures] at hne
          obtain ⟨c, hc⟩ := List.exists_mem_of_ne_nil _ (mt List.map_eq_nil_iff.mpr hne)
          obtain ⟨mem, hfalse⟩ := List.mem_filter.mp hc
          exact ⟨c, mem, by simpa using hfalse⟩

/-- The owner settles the chunk. -/
theorem Orderly.settle (h : Orderly id ids handed es job) (mem : snapshot ∈ handed)
    (holds : Holds snapshot job) (hid : job.id = id) {succeeded retryable : Bool}
    {reason : FailureReason} (settled : retries snapshot succeeded retryable = false) :
    Orderly id ids handed (es ++ [.finished snapshot succeeded retryable true])
      (settleChunk snapshot ids (20 * (settledChunks id es).length) succeeded reason now job) := by
  have hleft := h.left (active_of_running holds.2.1)
  have hsame := (h.of_holds mem holds).1
  have hoffset : snapshot.catalogOffset = some (20 * (settledChunks id es).length) :=
    (congrArg ChunkFields.offset hsame).trans (h.progress.offset_eq hleft)
  have hchunks : settledChunks id (es ++ [.finished snapshot succeeded retryable true]) =
      settledChunks id es ++ [(20 * (settledChunks id es).length, succeeded)] := by
    rw [settledChunks_append]
    simp [Happening.settles, holds.1, hid, settled, hoffset]
  have hprogress : Progress ids (settledChunks id es ++ [_]) (settleChunk snapshot ids _ succeeded
    reason now job) := h.progress.settle hleft hsame
  have hstopped : (settleChunk snapshot ids (20 * (settledChunks id es).length) succeeded reason now
      job).state ≠ .running := by
    simp only [settleChunk]
    split_ifs <;> simp
  refine ⟨?_, ?_, ?_, .released rfl⟩
  · rw [hchunks]
    exact hprogress
  · rw [hchunks, List.length_append, List.length_singleton]
    have hquiet : Tries id (es ++ [.finished snapshot succeeded retryable true])
        (20 * (settledChunks id es).length) job :=
      h.tries.uncounted (fun _ => rfl) (fun _ => rfl) rfl fun hrunning => hrunning
    exact hquiet.settle (by omega) rfl hstopped
  · rw [hchunks]
    exact .settle hprogress hleft hsame

/-- A claim of the next chunk. -/
theorem Orderly.claim (h : Orderly id ids handed es job) (hid : job.id = id)
    (active : job.active = true) (below : job.attempts < maxAttempts) {token : String}
    (fresh : ∀ doc ∈ handed, doc.attemptToken ≠ some token) (hid' : job'.id = job.id)
    (same : job'.chunkFields = job.chunkFields) (attempts : job'.attempts = job.attempts + 1)
    (running : job'.state = .running) (htoken : job'.attemptToken = some token) :
    Orderly id ids (handed ++ [job']) (es ++ [.claimed (some job')]) job' := by
  have hleft := h.left active
  have hoffset : job'.catalogOffset = some (20 * (settledChunks id es).length) :=
    (congrArg ChunkFields.offset same).trans (h.progress.offset_eq hleft)
  have hsettled : settledChunks id (es ++ [.claimed (some job')]) = settledChunks id es := by
    rw [settledChunks_append]
    exact List.append_nil _
  have hclaims (offset : Nat) : (Happening.claimed (some job')).claims id offset =
      decide (offset = 20 * (settledChunks id es).length) := by
    simp [Happening.claims, hid', hid, hoffset, eq_comm]
  refine ⟨?_, ?_, ?_, .claimed fresh htoken⟩
  · rw [hsettled]
    exact h.progress.of_same same
  · rw [hsettled]
    exact h.tries.claim below hclaims (fun _ => rfl) attempts
  · rw [hsettled]
    exact .of_left hleft (by simp [running]) (by simp [running])

/-- One step keeps the job orderly. -/
theorem Orderly.step {s t : Shift} (h : Orderly id ids s.handed es job)
    (stored : s.jobs.byKey id = some job) (work : Work id s e t) :
    ∃ job', t.jobs.byKey id = some job' ∧ Orderly id ids t.handed (es ++ [e]) job' := by
  obtain ⟨mem, hid⟩ := Collection.byKey_some.mp stored
  cases work with
  | @claimExhausted q lane history now token fresh found jobs result =>
      obtain ⟨-, rfl, hafter⟩ | ⟨hother, hafter⟩ := takeOne_byKey
        (fun c hc => (Collection.findOne_mem hc).1) stored result
      · exact ⟨_, hafter, h.keep (foreign_takenOver _) rfl rfl (fun hrunning => hrunning)
          (h.standing.of_same rfl rfl closes_append) (.claimed fresh rfl)⟩
      · exact ⟨job, hafter, h.unaffected (foreign_takenOver _) fun doc hdoc =>
          hid ▸ hother doc (Option.mem_toList.mp hdoc)⟩
  | failExhausted q lane history now =>
      refine ⟨job, ?_, ?_⟩
      · rw [Queue.failExhausted, Collection.byKey_update, stored, Option.map_some, if_neg]
        simp [h.progress.offset]
      · have hsame : Orderly id ids (s.handed ++ []) (es ++ [.quiet]) job :=
          h.unaffected foreign_quiet (by simp)
        rwa [List.append_nil] at hsame
  | @claimNext q lane history now token fresh found jobs result =>
      obtain ⟨hchosen, rfl, hafter⟩ | ⟨hother, hafter⟩ := takeOne_byKey
        (fun c hc => (nextJob_mem hc).1) stored result
      · have hfilter := (nextJob_mem hchosen).2
        simp only [Queue.claimFilter, Bool.and_eq_true, Bool.or_eq_true, decide_eq_true_eq]
          at hfilter
        obtain ⟨⟨⟨⟨-, hattempts⟩, -⟩, -⟩, hstate⟩ := hfilter
        have hactive : job.active = true := by
          obtain hpending | ⟨hrunning, -⟩ := hstate
          · simp [Job.active, hpending]
          · exact active_of_running hrunning
        exact ⟨_, hafter, h.claim hid hactive hattempts fresh rfl rfl rfl rfl rfl⟩
      · exact ⟨job, hafter, h.unaffected (foreign_claimed hother) fun doc hdoc =>
          hid ▸ hother doc (Option.mem_toList.mp hdoc)⟩
  | @renew snapshot hsnapshot now =>
      refine h.update (by intro; rfl) stored (fun holds _ _ => ?_) fun _ => foreign_quiet
      exact h.keep foreign_quiet rfl rfl (fun hrunning => hrunning)
        (h.standing.of_same rfl rfl closes_append) (h.held.of_same rfl rfl rfl rfl)
  | @deferQuota snapshot hsnapshot now =>
      refine h.update (by intro; rfl) stored (fun holds _ hmatched => ?_) foreign_deferred
      rw [show (Recovery.deferQuota snapshot now s.jobs).1 = true from hmatched]
      exact h.defer hsnapshot holds hid
  | @closeIneligible snapshot hsnapshot now =>
      refine h.update (by intro; rfl) stored (fun holds _ hmatched => ?_) fun _ => foreign_closed _ _
      have hleft := h.left (active_of_running holds.2.1)
      have hcloses : (Happening.closed snapshot (s.jobs.matched (owned snapshot now))).closes id =
          true := by
        rw [show s.jobs.matched (owned snapshot now) = true from hmatched]
        simp [Happening.closes, holds.1, hid]
      refine h.release (foreign_closed _ _) rfl rfl rfl (by simp) ⟨fun hactive => ?_, ?_, ?_⟩
      · cases hactive
      · intro hcompleted
        cases hcompleted
      · exact fun _ => ⟨rfl, .inr ⟨hleft, _, by simp, hcloses⟩⟩
  | @finish snapshot hsnapshot succeeded retryable reason now checkpointNow matched jobs result =>
      by_cases holds : Holds snapshot job
      · have hsame := (h.of_holds hsnapshot holds).1
        have hscope : snapshot.inventoryScope = false :=
          (congrArg ChunkFields.inventoryScope hsame).trans h.progress.scope
        have hids : catalogIds snapshot = some ids :=
          (congrArg ChunkFields.ids hsame).trans h.progress.ids_eq
        have hleft := h.left (active_of_running holds.2.1)
        have hoffset : snapshot.catalogOffset = some (20 * (settledChunks id es).length) :=
          (congrArg ChunkFields.offset hsame).trans (h.progress.offset_eq hleft)
        obtain ⟨hretry, keeps, heq⟩ | ⟨hsettled, hchunk⟩ := finish_ok hscope hoffset result
        · obtain rfl : matched = _ := congrArg Prod.fst heq
          obtain rfl : jobs = _ := congrArg Prod.snd heq
          refine h.update keeps stored (fun _ _ _ => ?_) fun _ => foreign_finished fun _ => .inr hretry
          exact h.release (foreign_finished fun _ => .inr hretry) rfl rfl rfl (by simp [retryLater])
            (.of_left hleft (by simp [retryLater]) (by simp [retryLater]))
        · obtain ⟨keeps, heq⟩ := finishChunk_ok hids hchunk
          obtain rfl : matched = _ := congrArg Prod.fst heq
          obtain rfl : jobs = _ := congrArg Prod.snd heq
          refine h.update keeps stored (fun _ _ hmatched => ?_) fun hother =>
            foreign_finished fun hmatched => .inl (hother hmatched)
          rw [hmatched]
          exact h.settle hsnapshot holds hid hsettled
      · obtain ⟨now', change, keeps, heq⟩ := finish_updates result
        obtain rfl : matched = _ := congrArg Prod.fst heq
        obtain rfl : jobs = _ := congrArg Prod.snd heq
        exact h.update keeps stored (fun hholds _ _ => absurd hholds holds) fun hother =>
          foreign_finished fun hmatched => .inl (hother hmatched)
  | @other jobs same =>
      refine ⟨job, same.trans stored, ?_⟩
      have hsame : Orderly id ids (s.handed ++ []) (es ++ [.quiet]) job :=
        h.unaffected foreign_quiet (by simp)
      rwa [List.append_nil] at hsame

/-- A job that was not claimed yet is orderly. -/
theorem Orderly.start (h : job.AtStart ids) : Orderly id ids handed [] job := by
  have hlength : 0 < ids.length := List.length_pos_iff.mpr h.some_id
  have hpending := h.state
  refine ⟨⟨h.ids_eq, h.scope, ?_, rfl, ?_, ?_, ?_⟩, ⟨?_, ?_, ?_, ?_, fun _ _ => Nat.zero_le _,
    fun _ _ => ⟨rfl, rfl⟩⟩, .of_left hlength (by simp [hpending]) (by simp [hpending]),
    .released h.token⟩
  · rw [h.offset]
    simp [settledChunks]
  · show 0 < ids.length + 20
    omega
  · rw [h.failures]
    rfl
  · rw [h.failures]
    intro hsome
    exact absurd rfl hsome
  · rw [h.attempts]
  · rw [h.attempts]
    decide
  · intro hrunning
    rw [hpending] at hrunning
    cases hrunning
  · rw [h.attempts]
    rfl

/-- Along every run the job stays orderly. -/
theorem orderly_run {s t : Shift} (stored : s.jobs.byKey id = some job) (start : job.AtStart ids)
    (run : Run (Work id) s es t) :
    ∃ job', t.jobs.byKey id = some job' ∧ Orderly id ids t.handed es job' := by
  refine run.invariant (P := fun es t =>
    ∃ job', t.jobs.byKey id = some job' ∧ Orderly id ids t.handed es job') ?_ ?_
  · exact ⟨job, stored, .start start⟩
  · rintro es t e u - ⟨job', hstored, horderly⟩ hwork
    exact horderly.step hstored hwork

end

/-! ### The continuation as a whole -/

/-- How the chunks of a job stand after some steps. -/
structure Chunkwise (id : String) (ids : List String) (es : List Happening) (job : Job) : Prop where
  offset : job.catalogOffset = some (min (20 * (settledChunks id es).length) ids.length)
  order : (settledChunks id es).map Prod.fst =
    (List.range (settledChunks id es).length).map (20 * ·)
  within : ∀ chunk ∈ settledChunks id es, chunk.1 < ids.length
  failures : job.catalogFailedOffsets.getD [] =
    ((settledChunks id es).filter fun chunk => !chunk.2).map Prod.fst
  distinct : (job.catalogFailedOffsets.getD []).Nodup
  claims : ∀ offset, claimCount id offset es ≤ 3 + deferralCount id offset es
  completed : job.state = .completed ↔
    ids.length ≤ 20 * (settledChunks id es).length ∧ ∀ chunk ∈ settledChunks id es, chunk.2 = true
  ended : ids.length ≤ 20 * (settledChunks id es).length →
    job.state = .completed ∨ job.state = .failed
  failed : job.state = .failed → job.failureReason.isSome = true ∧
    ((∃ chunk ∈ settledChunks id es, chunk.2 = false) ∨ ∃ e ∈ es, e.closes id = true)

/-- What becomes of the job in a claim that finds its last attempt at a chunk expired. -/
structure TakenOver (q : Queue) (lane : Option Lane) (history : Bool) (later : Time)
    (ids : List String) (offset : Nat) (job job' : Job) : Prop where
  next : job'.catalogOffset = some (min (offset + 20) ids.length)
  failed : job'.catalogFailedOffsets = some (job.catalogFailedOffsets.getD [] ++ [offset])
  claimable : offset + 20 < ids.length → ∀ now, later ≤ now →
    q.claimFilter lane history now job' = true
  last : ids.length ≤ offset + 20 → job'.state = .failed ∧ job'.failureReason.isSome = true

section

variable {id : String} {ids : List String} {job : Job} {es : List Happening} {handed : List Job}

theorem Orderly.chunkwise (h : Orderly id ids handed es job) : Chunkwise id ids es job := by
  have hmax : maxAttempts = 3 := rfl
  have hmem {chunk : Nat × Bool} (mem : chunk ∈ settledChunks id es) :
      ∃ i < (settledChunks id es).length, chunk.1 = 20 * i := by
    have hfst : chunk.1 ∈ (settledChunks id es).map Prod.fst := List.mem_map_of_mem mem
    rw [h.progress.order] at hfst
    obtain ⟨i, hi, heq⟩ := List.mem_map.mp hfst
    exact ⟨i, List.mem_range.mp hi, heq.symm⟩
  have hdistinct : ((settledChunks id es).map Prod.fst).Nodup := by
    rw [h.progress.order]
    exact List.nodup_range.map fun a b (heq : 20 * a = 20 * b) => by omega
  refine ⟨h.progress.offset, h.progress.order, fun chunk mem => ?_, h.progress.failures, ?_,
    fun offset => ?_, ⟨h.standing.completed, fun ⟨hall, hsucceeded⟩ => ?_⟩, fun hall => ?_,
    fun hfailed => ?_⟩
  · obtain ⟨i, hi, heq⟩ := hmem mem
    have hbounded := h.progress.bounded
    omega
  · rw [h.progress.failures]
    exact hdistinct.sublist (List.filter_sublist.map _)
  · by_cases hnext : offset = 20 * (settledChunks id es).length
    · have hcurrent := h.tries.current
      have hle := h.tries.attempts_le
      rw [hnext]
      omega
    · exact h.tries.others offset hnext
  · cases hstate : job.state with
    | completed => rfl
    | failed =>
        obtain ⟨-, hend⟩ := h.standing.failed hstate
        obtain ⟨-, chunk, mem, hfalse⟩ | ⟨hleft, -⟩ := hend
        · rw [hsucceeded chunk mem] at hfalse
          cases hfalse
        · omega
    | pending =>
        have hleft := h.left (by simp [Job.active, hstate])
        omega
    | running =>
        have hleft := h.left (by simp [Job.active, hstate])
        omega
  · cases hstate : job.state with
    | completed => exact .inl rfl
    | failed => exact .inr rfl
    | pending =>
        have hleft := h.left (by simp [Job.active, hstate])
        omega
    | running =>
        have hleft := h.left (by simp [Job.active, hstate])
        omega
  · obtain ⟨hreason, hend⟩ := h.standing.failed hfailed
    exact ⟨hreason, hend.imp (fun hdone => hdone.2) fun hclosed => hclosed.2⟩

/-- The offset moves on by a chunk in the steps that settle one, and in no other. -/
theorem Orderly.advances {s t : Shift} {e : Happening} (h : Orderly id ids s.handed es job)
    (stored : s.jobs.byKey id = some job) (work : Work id s e t) {offset : Nat}
    (at_offset : job.catalogOffset = some offset) :
    ∃ job', t.jobs.byKey id = some job' ∧ job'.catalogOffset =
      if (e.settles id).isSome then some (min (offset + 20) ids.length) else some offset := by
  obtain ⟨job', hstored, horderly⟩ := h.step stored work
  refine ⟨job', hstored, ?_⟩
  have hoffset := at_offset.symm.trans h.progress.offset
  rw [horderly.progress.offset, settledChunks_append]
  cases hsettles : e.settles id with
  | none => simpa using hoffset.symm
  | some chunk =>
      have hvalue := Option.some.inj hoffset
      simp only [Option.toList_some, List.length_append, List.length_singleton, Option.isSome_some,
        if_true, Option.some.injEq]
      omega

variable {q : Queue} {lane : Option Lane} {history : Bool} {now later : Time} {token : String}
variable {jobs jobs' : Jobs} {offset : Nat}

theorem finish_exhausted (scope : job.inventoryScope = false)
    (at_offset : job.catalogOffset = some offset) :
    finish job false false .recoveryFailed later later jobs =
      finishChunk job offset false .recoveryFailed later jobs := by
  rw [finish, raiseIf, if_neg (by decide)]
  simp only [pure_bind, scope, at_offset]
  rfl

/-- The document a takeover hands to its own call of `finish`. -/
def takeOver (now : Time) (token : String) (job : Job) : Job :=
  { job with leaseUntil := some (now + lease), attemptToken := some token }

theorem takeOver_id (now : Time) (token : String) (job : Job) :
    (takeOver now token job).id = job.id := rfl

theorem claimExhausted_eq :
    q.claimExhausted lane history now token jobs =
      Queue.takeOne (jobs.findOne (q.exhausted lane history now)) (takeOver now token)
        (takeOver_id now token) jobs := rfl

/-- The claim that finds the expired last attempt settles the chunk as failed. -/
theorem Orderly.takenOver (h : Orderly id ids handed es job) (stored : jobs.byKey id = some job)
    (found : jobs.findOne (q.exhausted lane history now) = some job) (leased : later < now + lease)
    (at_offset : job.catalogOffset = some offset) :
    ∃ after job', q.settleExhausted lane history now token later jobs = .ok after ∧
      after.byKey id = some job' ∧ TakenOver q lane history later ids offset job job' := by
  have hexhausted := (Collection.findOne_mem found).2
  simp only [Queue.exhausted, Bool.and_eq_true, decide_eq_true_eq] at hexhausted
  obtain ⟨⟨⟨⟨⟨hlane, hrunning⟩, -⟩, hmodel⟩, -⟩, -⟩ := hexhausted
  have hleft := h.left (active_of_running hrunning)
  obtain rfl : offset = 20 * (settledChunks id es).length :=
    Option.some.inj (at_offset.symm.trans (h.progress.offset_eq hleft))
  obtain ⟨jobs₁, htake, hstored⟩ : ∃ jobs₁ : Jobs, q.claimExhausted lane history now token jobs =
      (some (takeOver now token job), jobs₁) ∧ jobs₁.byKey id = some (takeOver now token job) := by
    refine ⟨jobs.update (fun stored => stored.id = job.id) (takeOver now token)
      (takeOver_id now token), ?_, ?_⟩
    · rw [claimExhausted_eq, found]
      rfl
    · rw [Collection.byKey_update, stored, Option.map_some, if_pos (by simp)]
  have hprogress : Progress ids (settledChunks id es) (takeOver now token job) :=
    h.progress.of_same rfl
  let settled := settleChunk (takeOver now token job) ids (20 * (settledChunks id es).length) false
    .recoveryFailed later
  have hfinish : finish (takeOver now token job) false false .recoveryFailed later later jobs₁ =
      .ok (updateOwned (takeOver now token job) later settled (fun _ => rfl) jobs₁) := by
    rw [finish_exhausted hprogress.scope at_offset,
      finishChunk_eq hprogress.ids_eq hleft (by omega) hprogress.reason]
  have howned : owned (takeOver now token job) later (takeOver now token job) = true := by
    simp [owned, takeOver, hrunning, Job.leasedAfter, leased]
  obtain ⟨-, hafter⟩ := (updateOwned_byKey (takeOver now token job) later settled (fun _ => rfl)
    hstored).1 howned
  refine ⟨_, _, ?_, hafter, ?_⟩
  · rw [Queue.settleExhausted, htake]
    simp only [hfinish]
    rfl
  refine ⟨rfl, rfl, fun hmore now' hnow' => ?_, fun hlast => ?_⟩
  · have hdone : ¬ min (20 * (settledChunks id es).length + 20) ids.length = ids.length := by omega
    have hstate : (settled (takeOver now token job)).state = .pending := by
      simp [settled, settleChunk, hdone]
    have havailable : (settled (takeOver now token job)).availableAt = later := by
      simp [settled, settleChunk, hdone]
    have hsame : q.laneFilter lane history (settled (takeOver now token job)) = true := hlane
    simp only [Queue.claimFilter, hsame, hstate, havailable]
    simp [settled, settleChunk, takeOver, hmodel, hnow', maxAttempts]
  · have hdone : min (20 * (settledChunks id es).length + 20) ids.length = ids.length := by omega
    constructor
    · simp [settled, settleChunk, hdone]
    · simp [settled, settleChunk]

/-- A claim that finds another expired attempt first leaves the job alone. -/
theorem settleExhausted_other (stored : jobs.byKey id = some job) {first : Job}
    (found : jobs.findOne (q.exhausted lane history now) = some first) (other : first.id ≠ id)
    {after : Jobs} (h : q.settleExhausted lane history now token later jobs = .ok after) :
    after.byKey id = some job := by
  obtain ⟨jobs₁, htake⟩ : ∃ jobs₁ : Jobs, q.claimExhausted lane history now token jobs =
      (some (takeOver now token first), jobs₁) := by
    refine ⟨jobs.update (fun stored => stored.id = first.id) (takeOver now token)
      (takeOver_id now token), ?_⟩
    rw [claimExhausted_eq, found]
    rfl
  have hstored : jobs₁.byKey id = some job := by
    obtain ⟨hsame, -, -⟩ | ⟨-, hafter⟩ :=
      takeOne_byKey (fun c hc => (Collection.findOne_mem hc).1) stored htake
    · obtain rfl := Option.some.inj (found.symm.trans hsame)
      exact absurd (Collection.byKey_some.mp stored).2 other
    · exact hafter
  rw [Queue.settleExhausted, htake] at h
  obtain ⟨⟨matched, jobs₂⟩, hfinish, h⟩ := bind_ok h
  obtain rfl := pure_ok h
  obtain ⟨t, change, keeps, heq⟩ := finish_updates hfinish
  obtain rfl : jobs₂ = _ := congrArg Prod.snd heq
  refine ((updateOwned_byKey (takeOver now token first) t change keeps hstored).2 ?_).1
  by_contra howned
  have hid := owned_id (by simpa using howned)
  exact other (hid.symm.trans (Collection.byKey_some.mp hstored).2)

/-- A new job for a catalog request or a renewal starts with its first chunk. -/
theorem atStart_initial {request : Request} {seller : String} {model : ReadModel}
    (h : request = .catalog seller model ids ∨ ∃ slot, request = .renewal seller model ids slot)
    (some_id : ids ≠ []) (authority : Option String) (key : String) :
    (initial authority key request now).AtStart ids := by
  obtain rfl | ⟨slot, rfl⟩ := h
  · cases model <;> exact ⟨rfl, some_id, rfl, rfl, rfl, rfl, rfl, rfl, rfl⟩
  · cases model <;> exact ⟨rfl, some_id, rfl, rfl, rfl, rfl, rfl, rfl, rfl⟩

end

/-! ### A job of one chunk -/

def lonelyQueue : Queue where
  maxActiveJobsPerSeller := 4
  reservedInventorySlots := 0
  enabledModels := [.itemFormulaRows]
  allowedSellers := none
  policyAuthority := none
  yearHistoryEnabled := true
  positive := by decide
  reserved := by decide

def lonelyJob : Job := initial none "key" (.catalog "123" .itemFormulaRows ["MLC1", "MLC2"]) 1000

def lonelyJobs : Jobs := ⟨[lonelyJob], by simp⟩

/-- What the claim of the job returns, and the jobs after it. -/
def claimedLonely : Option Job × Jobs := lonelyQueue.claimNext none false 2000 "token" lonelyJobs

end ZelerPlatform.Recovery
