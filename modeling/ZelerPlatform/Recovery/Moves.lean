import Mathlib.Tactic.SplitIfs
import ZelerPlatform.Recovery.Continuation

/-!
# What an operation does to a job

Every operation of the queue changes jobs in place or adds a new one. `Proceeds` says what
no change of a job undoes: its identity, the bounds on its attempts, the token of a running
job, and that a lease once lost under a token is not found again. `Continues` adds that a job
that takes up no capacity takes up none afterwards; only a reopening admission and the
re-arm go beyond that.
-/

namespace ZelerPlatform.Recovery

open Fallible

/-- What holds of every stored job. -/
structure Job.Valid (job : Job) : Prop where
  attempts_nonneg : 0 ≤ job.attempts
  attempts_le : job.attempts ≤ maxAttempts
  running : job.state = .running → 1 ≤ job.attempts ∧ ∃ token, job.attemptToken = some token

/-- The job runs under the token, with a lease beyond `n`. -/
def Job.HeldAt (n : Time) (token : String) (job : Job) : Prop :=
  job.state = .running ∧ job.attemptToken = some token ∧ job.leasedAfter n = true

/-- A change of a job, by an operation whose clock shows `n` or later and which hands out
the token `fresh` at most. -/
structure Proceeds (n : Time) (fresh : Option String) (job job' : Job) : Prop where
  id : job'.id = job.id
  sellerId : job'.sellerId = job.sellerId
  inventoryScope : job'.inventoryScope = job.inventoryScope
  valid : job.Valid → job'.Valid
  token : ∀ {t}, job'.attemptToken = some t → job.attemptToken = some t ∨ fresh = some t
  held : ∀ {t}, fresh ≠ some t → job'.HeldAt n t → job.HeldAt n t

/-- A change that makes no job active. -/
structure Continues (n : Time) (fresh : Option String) (job job' : Job) : Prop
    extends Proceeds n fresh job job' where
  active : job'.active = true → job.active = true

section

variable {n : Time} {fresh : Option String} {a b c : Job}

theorem Proceeds.refl (job : Job) : Proceeds n fresh job job :=
  ⟨rfl, rfl, rfl, fun h => h, Or.inl, fun _ h => h⟩

theorem Proceeds.trans (first : Proceeds n fresh a b) (second : Proceeds n fresh b c) :
    Proceeds n fresh a c where
  id := second.id.trans first.id
  sellerId := second.sellerId.trans first.sellerId
  inventoryScope := second.inventoryScope.trans first.inventoryScope
  valid h := second.valid (first.valid h)
  token h := (second.token h).elim first.token Or.inr
  held hfresh h := first.held hfresh (second.held hfresh h)

theorem Continues.refl (job : Job) : Continues n fresh job job := ⟨.refl job, fun h => h⟩

theorem Continues.trans (first : Continues n fresh a b) (second : Continues n fresh b c) :
    Continues n fresh a c :=
  ⟨first.toProceeds.trans second.toProceeds, fun h => first.active (second.active h)⟩

theorem active_of_running {job : Job} (h : job.state = .running) : job.active = true := by
  simp [Job.active, h]

theorem leasedAfter_mono {job : Job} {now : Time} (hn : n ≤ now) (h : job.leasedAfter now = true) :
    job.leasedAfter n = true := by
  unfold Job.leasedAfter at *
  cases hlease : job.leaseUntil with
  | none => simp [hlease] at h
  | some t =>
      simp only [hlease, Option.any_some, decide_eq_true_eq] at h ⊢
      exact lt_of_le_of_lt hn h

end

/-! ### Changes of a job that a worker owns -/

/-- The owner keeps the job: it still runs, under its token. -/
structure Keeps (job job' : Job) : Prop where
  id : job'.id = job.id
  sellerId : job'.sellerId = job.sellerId
  inventoryScope : job'.inventoryScope = job.inventoryScope
  state : job'.state = job.state
  attempts : job'.attempts = job.attempts
  attemptToken : job'.attemptToken = job.attemptToken

/-- The owner gives the job up, with its attempts counted, forgiven or given back. -/
structure GivesUp (job job' : Job) : Prop where
  id : job'.id = job.id
  sellerId : job'.sellerId = job.sellerId
  inventoryScope : job'.inventoryScope = job.inventoryScope
  state : job'.state ≠ .running
  attempts : job'.attempts = job.attempts ∨ job'.attempts = 0 ∨ job'.attempts = job.attempts - 1
  attemptToken : job'.attemptToken = none

section

variable {n now : Time} {fresh : Option String} {job snapshot job' : Job}

theorem owned_held (hn : n ≤ now) (h : owned snapshot now job = true) :
    ∃ token, snapshot.attemptToken = some token ∧ job.id = snapshot.id ∧ job.HeldAt n token := by
  simp only [owned, Bool.and_eq_true, decide_eq_true_eq] at h
  obtain ⟨⟨⟨⟨hid, hstate⟩, hsome⟩, htoken⟩, hlease⟩ := h
  obtain ⟨token, htok⟩ := Option.isSome_iff_exists.mp hsome
  exact ⟨token, htok, hid, hstate, htoken.trans htok, leasedAfter_mono hn hlease⟩

theorem Keeps.continues (h : Keeps job job') (hn : n ≤ now) (hown : owned snapshot now job = true) :
    Continues n fresh job job' := by
  obtain ⟨token, _, _, hstate, htoken, hlease⟩ := owned_held hn hown
  refine ⟨⟨h.id, h.sellerId, h.inventoryScope, fun hvalid => ⟨?_, ?_, fun _ => ?_⟩, ?_, ?_⟩, ?_⟩
  · rw [h.attempts]
    exact hvalid.attempts_nonneg
  · rw [h.attempts]
    exact hvalid.attempts_le
  · rw [h.attempts, h.attemptToken]
    exact hvalid.running hstate
  · intro t ht
    exact .inl (h.attemptToken ▸ ht)
  · intro t _ hheld
    exact ⟨hstate, h.attemptToken ▸ hheld.2.1, hlease⟩
  · intro _
    exact active_of_running hstate

theorem GivesUp.continues (h : GivesUp job job') (hstate : job.state = .running) :
    Continues n fresh job job' := by
  refine ⟨⟨h.id, h.sellerId, h.inventoryScope, fun hvalid => ?_, ?_, ?_⟩, ?_⟩
  · have hpos := (hvalid.running hstate).1
    have hnonneg := hvalid.attempts_nonneg
    have hle := hvalid.attempts_le
    have hmax : maxAttempts = 3 := rfl
    obtain hattempts | hattempts | hattempts := h.attempts
    all_goals exact ⟨by omega, by omega, fun hrunning => absurd hrunning h.state⟩
  · intro t ht
    rw [h.attemptToken] at ht
    cases ht
  · intro t _ hheld
    exact absurd hheld.1 h.state
  · intro _
    exact active_of_running hstate

end

/-! ### Collections of jobs -/

/-- Jobs that moved on in place, none of which became active. -/
abbrev Quiet (n : Time) (fresh : Option String) (jobs jobs' : Jobs) : Prop :=
  Collection.Moves (Continues n fresh) jobs jobs'

section

variable {n now : Time} {fresh : Option String} {jobs jobs' jobs'' : Jobs} {snapshot : Job}

theorem Quiet.refl (jobs : Jobs) : Quiet n fresh jobs jobs :=
  Collection.Moves.refl Continues.refl jobs

theorem Quiet.trans (first : Quiet n fresh jobs jobs') (second : Quiet n fresh jobs' jobs'') :
    Quiet n fresh jobs jobs'' :=
  Collection.Moves.trans Continues.trans first second

/-- The jobs after an update of the job that the caller owns when its clock shows `n` or
later, in which the owner keeps the job or gives it up. -/
def OwnedUpdate (n : Time) (snapshot : Job) (jobs jobs' : Jobs) : Prop :=
  ∃ (now : Time) (p : Job → Bool) (change : Job → Job) (keeps : ∀ job, (change job).id = job.id),
    n ≤ now ∧ (∀ job, p job = true → owned snapshot now job = true) ∧
    (∀ job ∈ jobs.docs, p job = true → Keeps job (change job) ∨ GivesUp job (change job)) ∧
    jobs' = jobs.update p change keeps

theorem OwnedUpdate.quiet (h : OwnedUpdate n snapshot jobs jobs') : Quiet n fresh jobs jobs' := by
  obtain ⟨now, p, change, keeps, hn, hp, hchange, rfl⟩ := h
  refine Collection.Moves.update keeps Continues.refl fun job mem hjob => ?_
  obtain hkeeps | hgives := hchange job mem hjob
  · exact hkeeps.continues hn (hp job hjob)
  · obtain ⟨_, _, _, hstate, _, _⟩ := owned_held hn (hp job hjob)
    exact hgives.continues hstate

theorem owned_mono (hn : n ≤ now) {job : Job} (h : owned snapshot now job = true) :
    owned snapshot n job = true := by
  simp only [owned, Bool.and_eq_true] at h ⊢
  exact ⟨h.1, leasedAfter_mono hn h.2⟩

/-- A caller that owns no job changes none. -/
theorem OwnedUpdate.unchanged (h : OwnedUpdate n snapshot jobs jobs')
    (lost : jobs.matched (owned snapshot n) = false) : jobs' = jobs := by
  obtain ⟨now, p, change, keeps, hn, hp, -, rfl⟩ := h
  refine Collection.update_of_not_matched (Collection.matched_eq_false.mpr fun job mem => ?_)
  have hlost := Collection.matched_eq_false.mp lost job mem
  by_contra hjob
  rw [owned_mono hn (hp job (by simpa using hjob))] at hlost
  cases hlost

theorem ownedUpdate_of_all {change : Job → Job} (keeps : ∀ job, (change job).id = job.id)
    (hn : n ≤ now) (h : ∀ job, Keeps job (change job) ∨ GivesUp job (change job)) :
    OwnedUpdate n snapshot jobs (updateOwned snapshot now change keeps jobs).2 :=
  ⟨now, owned snapshot now, change, keeps, hn, fun _ hp => hp, fun job _ _ => h job, rfl⟩

end

/-! ### Operations of a worker -/

section

variable {n now : Time} {job : Job} {jobs jobs' : Jobs} {b : Bool}

theorem ownedUpdate_closeIneligible (hn : n ≤ now) : OwnedUpdate n job jobs (closeIneligible job now jobs) :=
  ownedUpdate_of_all (by intro; rfl) hn fun _ => .inr ⟨rfl, rfl, rfl, by simp, .inl rfl, rfl⟩

theorem ownedUpdate_renew (hn : n ≤ now) : OwnedUpdate n job jobs (renew job now jobs).2 :=
  ownedUpdate_of_all (by intro; rfl) hn fun _ => .inl ⟨rfl, rfl, rfl, rfl, rfl, rfl⟩

theorem ownedUpdate_deferQuota (hn : n ≤ now) : OwnedUpdate n job jobs (deferQuota job now jobs).2 :=
  ownedUpdate_of_all (by intro; rfl) hn fun _ => .inr ⟨rfl, rfl, rfl, by simp, .inr (.inr rfl), rfl⟩

theorem ownedUpdate_checkpointInventory {itemIds : List String} {offset : Nat} {unavailable : Bool}
    (hn : n ≤ now)
    (h : checkpointInventory job itemIds offset unavailable now jobs = .ok (b, jobs')) :
    OwnedUpdate n job jobs jobs' := by
  obtain ⟨-, h⟩ := raiseIf_ok h
  rw [← (Prod.mk.inj (pure_ok h)).2]
  refine ownedUpdate_of_all (by intro; rfl) hn fun _ => .inr ⟨rfl, rfl, rfl, ?_, .inr (.inl rfl), rfl⟩
  dsimp only
  split_ifs <;> simp

theorem ownedUpdate_finishChunk {offset : Nat} {succeeded : Bool} {reason : FailureReason}
    (hn : n ≤ now) (h : finishChunk job offset succeeded reason now jobs = .ok (b, jobs')) :
    OwnedUpdate n job jobs jobs' := by
  obtain ⟨ids, -, h⟩ := bind_ok h
  obtain ⟨-, h⟩ := raiseIf_ok h
  obtain ⟨-, h⟩ := raiseIf_ok h
  rw [← (Prod.mk.inj (pure_ok h)).2]
  refine ownedUpdate_of_all (by intro; rfl) hn fun _ => .inr ⟨rfl, rfl, rfl, ?_, .inr (.inl rfl), rfl⟩
  dsimp only
  split_ifs <;> simp

theorem ownedUpdate_finish {succeeded retryable : Bool} {reason : FailureReason} {checkpointNow : Time}
    (hn : n ≤ now) (hcheckpoint : n ≤ checkpointNow)
    (h : finish job succeeded retryable reason now checkpointNow jobs = .ok (b, jobs')) :
    OwnedUpdate n job jobs jobs' := by
  obtain ⟨-, h⟩ := raiseIf_ok h
  dsimp only at h
  split at h
  · split at h
    · exact ownedUpdate_checkpointInventory hcheckpoint h
    · cases h
  · split at h
    · exact ownedUpdate_finishChunk hn h
    · rw [← (Prod.mk.inj (pure_ok h)).2]
      refine ownedUpdate_of_all (by intro; rfl) hn fun _ => .inr ⟨rfl, rfl, rfl, ?_, .inl rfl, rfl⟩
      dsimp only
      split_ifs <;> simp

variable {q : Queue} {sha256 : String → String}

theorem owned_of_shipmentCursorBinding {query : Job → Bool} {size : Nat}
    (h : q.shipmentCursorBinding sha256 job now = .ok (query, size)) {stored : Job}
    (hquery : query stored = true) : owned job now stored = true := by
  obtain ⟨ids, -, h⟩ := bind_ok h
  obtain ⟨-, h⟩ := raiseIf_ok h
  rw [← (Prod.mk.inj (pure_ok h)).1] at hquery
  simp only [Bool.and_eq_true] at hquery
  exact hquery.1.1.1.1

theorem ownedUpdate_checkpointShipmentCursor {expectedOffset nextOffset : Nat} (hn : n ≤ now)
    (h : q.checkpointShipmentCursor sha256 job expectedOffset nextOffset now jobs
      = .ok (b, jobs')) : OwnedUpdate n job jobs jobs' := by
  obtain ⟨⟨query, size⟩, hbinding, h⟩ := bind_ok h
  obtain ⟨-, h⟩ := raiseIf_ok h
  rw [← (Prod.mk.inj (pure_ok h)).2]
  have hp (stored : Job)
      (h : (query stored && decide (stored.shipmentOffset = some expectedOffset)) = true) :
      owned job now stored = true := by
    simp only [Bool.and_eq_true] at h
    exact owned_of_shipmentCursorBinding hbinding h.1
  refine ⟨now, _, _, ?_, hn, hp, ?_, rfl⟩
  · exact fun _ => rfl
  · exact fun _ _ _ => .inl ⟨rfl, rfl, rfl, rfl, rfl, rfl⟩

end

/-! ### Claims -/

section

variable {n now : Time} {jobs : Jobs} {q : Queue} {lane : Option Lane} {history : Bool}
variable {fresh : Option String} {token : String}

/-- The update of one chosen job moves that job on. -/
theorem quiet_takeOne {chosen : Option Job} {change : Job → Job}
    {keeps : ∀ job, (change job).id = job.id} (hmem : ∀ job ∈ chosen, job ∈ jobs.docs)
    (h : ∀ job ∈ chosen, Continues n fresh job (change job)) :
    Quiet n fresh jobs (Queue.takeOne chosen change keeps jobs).2 := by
  cases chosen with
  | none => exact .refl jobs
  | some job =>
      refine Collection.Moves.update keeps Continues.refl fun stored mem hid => ?_
      have : stored = job :=
        Collection.eq_of_key mem (hmem job rfl) (by simpa using hid)
      subst this
      exact h stored rfl

/-- A claim of a job with attempts left, or of one whose last attempt is over. -/
private theorem continues_of_claim {job job' : Job} (hid : job'.id = job.id)
    (hseller : job'.sellerId = job.sellerId) (hscope : job'.inventoryScope = job.inventoryScope)
    (htoken : job'.attemptToken = some token) (hactive : job.active = true)
    (hattempts : job.Valid → 1 ≤ job'.attempts ∧ job'.attempts ≤ maxAttempts) :
    Continues n (some token) job job' := by
  refine ⟨⟨hid, hseller, hscope, fun hvalid => ?_, fun ht => .inr ?_, fun ht hheld => ?_⟩,
    fun _ => hactive⟩
  · obtain ⟨hpos, hle⟩ := hattempts hvalid
    exact ⟨le_trans (by decide) hpos, hle, fun _ => ⟨hpos, token, htoken⟩⟩
  · rwa [htoken] at ht
  · exact absurd (htoken.symm.trans hheld.2.1) ht

theorem quiet_claimExhausted :
    Quiet n (some token) jobs (q.claimExhausted lane history now token jobs).2 := by
  refine quiet_takeOne (fun job hjob => (Collection.findOne_mem hjob).1) fun job hjob => ?_
  have hp := (Collection.findOne_mem hjob).2
  simp only [Bool.and_eq_true, decide_eq_true_eq] at hp
  obtain ⟨⟨⟨⟨⟨-, hrunning⟩, -⟩, -⟩, -⟩, -⟩ := hp
  exact continues_of_claim rfl rfl rfl rfl (active_of_running hrunning) fun hvalid =>
    ⟨(hvalid.running hrunning).1, hvalid.attempts_le⟩

theorem nextJob_mem {job : Job} (h : q.nextJob lane history now jobs = some job) :
    job ∈ jobs.docs ∧ q.claimFilter lane history now job = true := by
  unfold Queue.nextJob at h
  dsimp only at h
  split at h
  · rw [Option.orElse_eq_or] at h
    obtain htail | ⟨-, hrest⟩ := Option.or_eq_some_iff.mp h
    · obtain ⟨hmem, hp⟩ := Collection.findFirst_mem htail
      simp only [Bool.and_eq_true] at hp
      exact ⟨hmem, hp.1⟩
    · exact Collection.findFirst_mem hrest
  · simp only [Option.orElse_eq_or, Option.none_or] at h
    exact Collection.findFirst_mem h

theorem quiet_claimNext :
    Quiet n (some token) jobs (q.claimNext lane history now token jobs).2 := by
  refine quiet_takeOne (fun job hjob => (nextJob_mem hjob).1) fun job hjob => ?_
  have hp := (nextJob_mem hjob).2
  simp only [Queue.claimFilter, Bool.and_eq_true, Bool.or_eq_true, decide_eq_true_eq] at hp
  obtain ⟨⟨⟨⟨-, hattempts⟩, -⟩, -⟩, hstate⟩ := hp
  refine continues_of_claim rfl rfl rfl rfl ?_ fun hvalid => ⟨?_, ?_⟩
  · obtain hpending | ⟨hrunning, -⟩ := hstate
    · simp [Job.active, hpending]
    · exact active_of_running hrunning
  · have := hvalid.attempts_nonneg
    show 1 ≤ job.attempts + 1
    omega
  · show job.attempts + 1 ≤ maxAttempts
    omega

theorem quiet_failExhausted : Quiet n fresh jobs (q.failExhausted lane history now jobs) := by
  refine Collection.Moves.update _ Continues.refl fun job _ hp => ?_
  simp only [Bool.and_eq_true, decide_eq_true_eq] at hp
  exact GivesUp.continues ⟨rfl, rfl, rfl, by simp, .inl rfl, rfl⟩ hp.1.1.2

end

/-! ### Continuations -/

section

variable {n now : Time} {fresh : Option String} {job claimed : Job} {head saved : Head}
variable {jobs jobs' : Jobs} {db db' : Db} {q : Queue} {evidence : Evidence}

/-- A fence passes for an owner only, and changes nothing but the fence revision. -/
theorem fence_ok (h : fence q job head now jobs = .ok jobs') :
    jobs.matched (owned job now) = true ∧
    jobs' = jobs.update (fenceFilter job head now)
      (fun stored => { stored with historyFenceRevision := stored.historyFenceRevision + 1 })
      fun _ => rfl := by
  obtain ⟨-, h⟩ := raiseIf_ok h
  obtain ⟨-, h⟩ := raiseIf_ok h
  obtain ⟨-, h⟩ := raiseIf_ok h
  obtain ⟨hmatched, h⟩ := raiseIf_ok h
  obtain ⟨stored, mem, hstored⟩ := List.any_eq_true.mp (not_not.mp hmatched)
  simp only [fenceFilter, Bool.and_eq_true] at hstored
  exact ⟨List.any_eq_true.mpr ⟨stored, mem, hstored.1.1.1.1⟩, (pure_ok h).symm⟩

theorem ownedUpdate_fence (hn : n ≤ now) (h : fence q job head now jobs = .ok jobs') :
    OwnedUpdate n job jobs jobs' := by
  rw [(fence_ok h).2]
  refine ⟨now, _, _, ?_, hn, fun stored hp => ?_, ?_, rfl⟩
  · exact fun _ => rfl
  · simp only [fenceFilter, Bool.and_eq_true] at hp
    exact hp.1.1.1.1
  · exact fun _ _ _ => .inl ⟨rfl, rfl, rfl, rfl, rfl, rfl⟩

/-- A fence leaves the attempts of every job as they were. -/
theorem fence_attempts (h : fence q job head now jobs = .ok jobs') (mem : claimed ∈ jobs'.docs) :
    ∃ stored ∈ jobs.docs, claimed.id = stored.id ∧ claimed.attempts = stored.attempts := by
  rw [(fence_ok h).2] at mem
  obtain ⟨stored, hstored, rfl⟩ := Collection.mem_update.mp mem
  refine ⟨stored, hstored, ?_⟩
  split <;> exact ⟨rfl, rfl⟩

/-- What `_current` establishes: the fence held, and the job it returns is the stored one. -/
theorem current_ok (h : current q job head now db = .ok (claimed, db')) :
    fence q job head now db.jobs = .ok db'.jobs ∧ claimed ∈ db'.jobs.docs ∧
    db' = { db with jobs := db'.jobs } := by
  obtain ⟨jobs, hfence, h⟩ := bind_ok h
  obtain ⟨-, h⟩ := raiseIf_ok h
  obtain ⟨-, h⟩ := raiseIf_ok h
  split at h
  · cases h
  next stored hfind =>
    obtain ⟨-, h⟩ := raiseIf_ok h
    obtain ⟨-, h⟩ := raiseIf_ok h
    obtain ⟨-, h⟩ := raiseIf_ok h
    obtain ⟨rfl, rfl⟩ := Prod.mk.inj (pure_ok h)
    exact ⟨hfence, (Collection.findOne_mem hfind).1, rfl⟩

theorem ownedUpdate_yieldPending {attempts : Int} {delay : Time} (hn : n ≤ now)
    (hattempts : ∀ stored ∈ jobs.docs, stored.id = job.id →
      attempts = 0 ∨ attempts = stored.attempts - 1)
    (h : yieldPending job head attempts delay now jobs = .ok jobs') :
    OwnedUpdate n job jobs jobs' := by
  obtain ⟨-, h⟩ := raiseIf_ok h
  rw [← pure_ok h]
  refine ⟨now, _, _, ?_, hn, fun _ hp => hp, fun stored mem hp => ?_, rfl⟩
  · exact fun _ => rfl
  · obtain ⟨_, _, hid, _⟩ := owned_held le_rfl hp
    exact .inr ⟨rfl, rfl, rfl, by simp, .inr (hattempts stored mem hid), rfl⟩

theorem replaceHead_jobs {expected : Head} {message : String}
    (h : replaceHead expected saved message db = .ok db') :
    db'.jobs = db.jobs ∧ db'.guards = db.guards := by
  obtain ⟨-, h⟩ := raiseIf_ok h
  rw [← pure_ok h]
  exact ⟨rfl, rfl⟩

/-- A change of nothing that the queue goes by. -/
private theorem continues_of_binding {bound : Option Binding} (stored : Job) :
    Continues n fresh stored { stored with history := bound } :=
  ⟨⟨rfl, rfl, rfl, fun h => ⟨h.1, h.2, h.3⟩, Or.inl, fun _ h => h⟩, fun h => h⟩

/-- No reading of the clock in a transaction is before `n`. -/
def Readings.from (n : Time) (now : Readings) : Prop :=
  n ≤ now.current ∧ n ≤ now.checkpoint ∧ n ≤ now.fence ∧ n ≤ now.yieldAt

/-- What a continuation does to the documents: its job was owned, jobs move on, no
admission guard changes. -/
structure Yielded (n : Time) (fresh : Option String) (job : Job) (now : Time) (db db' : Db) :
    Prop where
  owned : db.jobs.matched (owned job now) = true
  quiet : Quiet n fresh db.jobs db'.jobs
  guards : db'.guards = db.guards

theorem yielded_of_current (hn : n ≤ now) (h : current q job head now db = .ok (claimed, db')) :
    Yielded n fresh job now db db' := by
  obtain ⟨hfence, -, hdb⟩ := current_ok h
  refine ⟨(fence_ok hfence).1, (ownedUpdate_fence hn hfence).quiet, ?_⟩
  rw [hdb]

theorem Yielded.more {db'' : Db} {t : Time} (h : Yielded n fresh job t db db')
    (hquiet : Quiet n fresh db'.jobs db''.jobs) (hguards : db''.guards = db'.guards) :
    Yielded n fresh job t db db'' :=
  ⟨h.owned, h.quiet.trans hquiet, hguards.trans h.guards⟩

variable {expected proposed : Head} {receipts : List Receipt} {times : Readings}

theorem quiet_checkpoint {before after : Time} (hbefore : n ≤ before) (hafter : n ≤ after)
    (h : checkpoint q evidence job expected proposed receipts before after db
      = .ok (saved, db')) :
    Quiet n fresh db.jobs db'.jobs ∧ db'.guards = db.guards := by
  obtain ⟨-, -, h⟩ := bind_ok h
  obtain ⟨jobs, hfirst, h⟩ := bind_ok h
  obtain ⟨-, h⟩ := raiseIf_ok h
  obtain ⟨⟨discovered, fetched, staged⟩, -, h⟩ := bind_ok h
  obtain ⟨db₁, hsave, h⟩ := bind_ok h
  obtain ⟨jobs', hlast, h⟩ := bind_ok h
  obtain ⟨-, rfl⟩ := Prod.mk.inj (pure_ok h)
  have hdb₁ : db₁.jobs = jobs ∧ db₁.guards = db.guards := by
    unfold saveHead at hsave
    split at hsave
    · rw [← pure_ok hsave]
      exact ⟨rfl, rfl⟩
    · obtain ⟨-, hreplace⟩ := raiseIf_ok hsave
      exact replaceHead_jobs hreplace
  rw [hdb₁.1] at hlast
  exact ⟨(ownedUpdate_fence hbefore hfirst).quiet.trans (ownedUpdate_fence hafter hlast).quiet,
    hdb₁.2⟩

theorem yielded_progress (hn : times.from n)
    (h : progress q evidence job expected proposed receipts times db = .ok (saved, db')) :
    Yielded n fresh job times.current db db' := by
  obtain ⟨expected, -, h⟩ := bind_ok h
  obtain ⟨proposed, -, h⟩ := bind_ok h
  obtain ⟨-, h⟩ := raiseIf_ok h
  obtain ⟨⟨claimed, db₁⟩, hcurrent, h⟩ := bind_ok h
  obtain ⟨⟨saved', db₂⟩, hcheckpoint, h⟩ := bind_ok h
  obtain ⟨jobs, hyield, h⟩ := bind_ok h
  obtain ⟨-, rfl⟩ := Prod.mk.inj (pure_ok h)
  obtain ⟨hquiet, hguards⟩ := quiet_checkpoint hn.2.1 hn.2.2.1 hcheckpoint
  exact ((yielded_of_current hn.1 hcurrent).more hquiet hguards).more
    (ownedUpdate_yieldPending hn.2.2.2 (fun _ _ _ => .inl rfl) hyield).quiet rfl

theorem yielded_beginVerification (hn : times.from n)
    (h : beginVerification q evidence job expected times db = .ok (saved, db')) :
    Yielded n fresh job times.current db db' := by
  obtain ⟨expected, -, h⟩ := bind_ok h
  obtain ⟨-, h⟩ := raiseIf_ok h
  obtain ⟨⟨claimed, db₁⟩, hcurrent, h⟩ := bind_ok h
  obtain ⟨-, h⟩ := raiseIf_ok h
  obtain ⟨saved', -, h⟩ := bind_ok h
  obtain ⟨db₂, hreplace, h⟩ := bind_ok h
  obtain ⟨jobs, hfence, h⟩ := bind_ok h
  obtain ⟨jobs', hyield, h⟩ := bind_ok h
  obtain ⟨-, rfl⟩ := Prod.mk.inj (pure_ok h)
  obtain ⟨hjobs, hguards⟩ := replaceHead_jobs hreplace
  rw [hjobs] at hfence
  exact (yielded_of_current hn.1 hcurrent).more ((ownedUpdate_fence hn.2.2.1 hfence).quiet.trans
    (ownedUpdate_yieldPending hn.2.2.2 (fun _ _ _ => .inl rfl) hyield).quiet) hguards

theorem yielded_beginPublication (hn : times.from n)
    (h : beginPublication q evidence job expected times db = .ok (saved, db')) :
    Yielded n fresh job times.current db db' := by
  obtain ⟨expected, -, h⟩ := bind_ok h
  obtain ⟨-, h⟩ := raiseIf_ok h
  obtain ⟨⟨claimed, db₁⟩, hcurrent, h⟩ := bind_ok h
  obtain ⟨-, h⟩ := raiseIf_ok h
  obtain ⟨-, h⟩ := raiseIf_ok h
  obtain ⟨saved', -, h⟩ := bind_ok h
  obtain ⟨db₂, hreplace, h⟩ := bind_ok h
  obtain ⟨jobs, hyield, h⟩ := bind_ok h
  obtain ⟨-, rfl⟩ := Prod.mk.inj (pure_ok h)
  obtain ⟨hjobs, hguards⟩ := replaceHead_jobs hreplace
  rw [hjobs] at hyield
  exact (yielded_of_current hn.1 hcurrent).more
    (ownedUpdate_yieldPending hn.2.2.2 (fun _ _ _ => .inl rfl) hyield).quiet hguards

theorem quiet_stop {retryable bind : Bool} {reason : FailureReason} {message : String}
    (hn : times.from n)
    (h : stop claimed expected retryable reason bind message times db = .ok (saved, db')) :
    Quiet n fresh db.jobs db'.jobs ∧ db'.guards = db.guards := by
  unfold stop at h
  split at h
  · cases h
  · cases h
  next jobs hfinish =>
    obtain ⟨-, rfl⟩ := Prod.mk.inj (pure_ok h)
    refine ⟨(ownedUpdate_finish hn.2.1 hn.2.2.1 hfinish).quiet.trans ?_, rfl⟩
    split
    · exact Collection.Moves.update (by intro; rfl) Continues.refl fun stored _ _ =>
        continues_of_binding stored
    · exact .refl _

theorem yielded_release {reason : ReleaseReason} (hn : times.from n)
    (h : release q evidence job expected reason times db = .ok (saved, db')) :
    Yielded n fresh job times.current db db' := by
  obtain ⟨expected, -, h⟩ := bind_ok h
  obtain ⟨⟨claimed, db₁⟩, hcurrent, h⟩ := bind_ok h
  have hyielded : Yielded n fresh _ _ _ _ := yielded_of_current hn.1 hcurrent
  dsimp only at h
  split at h
  · obtain ⟨hquiet, hguards⟩ := quiet_stop hn h
    exact hyielded.more hquiet hguards
  split at h
  · obtain ⟨hquiet, hguards⟩ := quiet_stop hn h
    exact hyielded.more hquiet hguards
  obtain ⟨⟨saved', db₂⟩, hrestart, h⟩ := bind_ok h
  obtain ⟨jobs, hfence, h⟩ := bind_ok h
  obtain ⟨jobs', hyield, h⟩ := bind_ok h
  obtain ⟨-, rfl⟩ := Prod.mk.inj (pure_ok h)
  have hdb₂ : db₂.jobs = db₁.jobs ∧ db₂.guards = db₁.guards := by
    unfold restartHead at hrestart
    split at hrestart
    · obtain ⟨restart, -, hrestart⟩ := bind_ok hrestart
      obtain ⟨db₃, hreplace, hrestart⟩ := bind_ok hrestart
      obtain ⟨-, rfl⟩ := Prod.mk.inj (pure_ok hrestart)
      exact replaceHead_jobs hreplace
    · obtain ⟨-, rfl⟩ := Prod.mk.inj (pure_ok hrestart)
      exact ⟨rfl, rfl⟩
  rw [hdb₂.1] at hfence
  -- The attempt given back is one of the claimed job, which is the job that yields.
  have hattempts (stored : Job) (mem : stored ∈ jobs.docs) (hid : stored.id = claimed.id) :
      claimed.attempts - 1 = 0 ∨ claimed.attempts - 1 = stored.attempts - 1 := by
    obtain ⟨before, hbefore, hsame, hcount⟩ := fence_attempts hfence mem
    have : before = claimed :=
      Collection.eq_of_key hbefore (current_ok hcurrent).2.1 (hsame.symm.trans hid)
    exact .inr (by rw [hcount, this])
  exact hyielded.more ((ownedUpdate_fence hn.2.2.1 hfence).quiet.trans
    (ownedUpdate_yieldPending hn.2.2.2 hattempts hyield).quiet) hdb₂.2

end

end ZelerPlatform.Recovery
