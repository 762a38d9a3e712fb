import ZelerPlatform.Recovery.Steps

/-!
# What no operation changes of a job

A job stays the unit of work it was inserted as: its seller, its read model, the publications
or products it acquires and the authority it belongs to are those of its insertion, whatever
is done to it afterwards.
-/

namespace ZelerPlatform.Recovery

open Fallible

/-- The fields of a job that say what it acquires and for whom. -/
structure JobUnit where
  id : String
  sellerId : String
  readModel : ReadModel
  policyAuthority : Option String
  itemIds : Option (List String)
  catalogProductIds : Option (List String)
  deriving DecidableEq

def Job.unit (job : Job) : JobUnit where
  id := job.id
  sellerId := job.sellerId
  readModel := job.readModel
  policyAuthority := job.policyAuthority
  itemIds := job.itemIds
  catalogProductIds := job.catalogProductIds

/-- The same units of work, in whatever state. -/
abbrev SameUnits (jobs jobs' : Jobs) : Prop :=
  Collection.Moves (fun job job' => job'.unit = job.unit) jobs jobs'

section

variable {jobs jobs' jobs'' : Jobs} {job claimed : Job} {now : Time} {b : Bool}

theorem SameUnits.refl (jobs : Jobs) : SameUnits jobs jobs :=
  List.forall₂_same.mpr fun _ _ => rfl

theorem SameUnits.trans (first : SameUnits jobs jobs') (second : SameUnits jobs' jobs'') :
    SameUnits jobs jobs'' :=
  Collection.Moves.trans (fun h h' => h'.trans h) first second

theorem SameUnits.update {p : Job → Bool} {change : Job → Job}
    (keeps : ∀ job, (change job).id = job.id) (same : ∀ job, (change job).unit = job.unit) :
    SameUnits jobs (jobs.update p change keeps) :=
  Collection.Moves.update keeps (fun _ => rfl) fun job _ _ => same job

/-! ### Operations of a worker -/

theorem sameUnits_checkpointInventory {itemIds : List String} {offset : Nat} {unavailable : Bool}
    (h : checkpointInventory job itemIds offset unavailable now jobs = .ok (b, jobs')) :
    SameUnits jobs jobs' := by
  obtain ⟨-, h⟩ := raiseIf_ok h
  rw [← (Prod.mk.inj (pure_ok h)).2]
  exact .update (by intro; rfl) (by intro; rfl)

theorem sameUnits_finishChunk {offset : Nat} {succeeded : Bool} {reason : FailureReason}
    (h : finishChunk job offset succeeded reason now jobs = .ok (b, jobs')) :
    SameUnits jobs jobs' := by
  obtain ⟨ids, -, h⟩ := bind_ok h
  obtain ⟨-, h⟩ := raiseIf_ok h
  obtain ⟨-, h⟩ := raiseIf_ok h
  rw [← (Prod.mk.inj (pure_ok h)).2]
  exact .update (by intro; rfl) (by intro; rfl)

theorem sameUnits_finish {succeeded retryable : Bool} {reason : FailureReason} {checkpointNow : Time}
    (h : finish job succeeded retryable reason now checkpointNow jobs = .ok (b, jobs')) :
    SameUnits jobs jobs' := by
  obtain ⟨-, h⟩ := raiseIf_ok h
  dsimp only at h
  split at h
  · split at h
    · exact sameUnits_checkpointInventory h
    · cases h
  · split at h
    · exact sameUnits_finishChunk h
    · rw [← (Prod.mk.inj (pure_ok h)).2]
      exact .update (by intro; rfl) (by intro; rfl)

variable {q : Queue} {sha256 : String → String}

theorem sameUnits_checkpointShipmentCursor {expectedOffset nextOffset : Nat}
    (h : q.checkpointShipmentCursor sha256 job expectedOffset nextOffset now jobs
      = .ok (b, jobs')) : SameUnits jobs jobs' := by
  obtain ⟨⟨query, size⟩, -, h⟩ := bind_ok h
  obtain ⟨-, h⟩ := raiseIf_ok h
  rw [← (Prod.mk.inj (pure_ok h)).2]
  exact .update (by intro; rfl) (by intro; rfl)

theorem sameUnits_takeOne {chosen : Option Job} {change : Job → Job}
    {keeps : ∀ job, (change job).id = job.id} (same : ∀ job, (change job).unit = job.unit) :
    SameUnits jobs (Queue.takeOne chosen change keeps jobs).2 := by
  cases chosen with
  | none => exact .refl jobs
  | some job => exact .update keeps same

/-! ### Continuations -/

variable {head saved expected proposed : Head} {receipts : List Receipt} {times : Readings}
variable {db db' : Db} {evidence : Evidence}

theorem sameUnits_fence (h : fence q job head now jobs = .ok jobs') : SameUnits jobs jobs' := by
  rw [(fence_ok h).2]
  exact .update (by intro; rfl) (by intro; rfl)

theorem sameUnits_current (h : current q job head now db = .ok (claimed, db')) :
    SameUnits db.jobs db'.jobs := sameUnits_fence (current_ok h).1

theorem sameUnits_yieldPending {attempts : Int} {delay : Time}
    (h : yieldPending job head attempts delay now jobs = .ok jobs') : SameUnits jobs jobs' := by
  obtain ⟨-, h⟩ := raiseIf_ok h
  rw [← pure_ok h]
  exact .update (by intro; rfl) (by intro; rfl)

theorem sameUnits_checkpoint {before after : Time}
    (h : checkpoint q evidence job expected proposed receipts before after db
      = .ok (saved, db')) : SameUnits db.jobs db'.jobs := by
  obtain ⟨-, -, h⟩ := bind_ok h
  obtain ⟨jobs, hfirst, h⟩ := bind_ok h
  obtain ⟨-, h⟩ := raiseIf_ok h
  obtain ⟨⟨discovered, fetched, staged⟩, -, h⟩ := bind_ok h
  obtain ⟨db₁, hsave, h⟩ := bind_ok h
  obtain ⟨jobs', hlast, h⟩ := bind_ok h
  obtain ⟨-, rfl⟩ := Prod.mk.inj (pure_ok h)
  have hdb₁ : db₁.jobs = jobs := by
    rw [saveHead] at hsave
    split at hsave
    · rw [← pure_ok hsave]
    · obtain ⟨-, hreplace⟩ := raiseIf_ok hsave
      exact (replaceHead_jobs hreplace).1
  rw [hdb₁] at hlast
  exact (sameUnits_fence hfirst).trans (sameUnits_fence hlast)

theorem sameUnits_progress
    (h : progress q evidence job expected proposed receipts times db = .ok (saved, db')) :
    SameUnits db.jobs db'.jobs := by
  obtain ⟨expected, -, h⟩ := bind_ok h
  obtain ⟨proposed, -, h⟩ := bind_ok h
  obtain ⟨-, h⟩ := raiseIf_ok h
  obtain ⟨⟨claimed, db₁⟩, hcurrent, h⟩ := bind_ok h
  obtain ⟨⟨saved', db₂⟩, hcheckpoint, h⟩ := bind_ok h
  obtain ⟨jobs, hyield, h⟩ := bind_ok h
  obtain ⟨-, rfl⟩ := Prod.mk.inj (pure_ok h)
  exact ((sameUnits_current hcurrent).trans (sameUnits_checkpoint hcheckpoint)).trans
    (sameUnits_yieldPending hyield)

theorem sameUnits_beginVerification
    (h : beginVerification q evidence job expected times db = .ok (saved, db')) :
    SameUnits db.jobs db'.jobs := by
  obtain ⟨expected, -, h⟩ := bind_ok h
  obtain ⟨-, h⟩ := raiseIf_ok h
  obtain ⟨⟨claimed, db₁⟩, hcurrent, h⟩ := bind_ok h
  obtain ⟨-, h⟩ := raiseIf_ok h
  obtain ⟨saved', -, h⟩ := bind_ok h
  obtain ⟨db₂, hreplace, h⟩ := bind_ok h
  obtain ⟨jobs, hfence, h⟩ := bind_ok h
  obtain ⟨jobs', hyield, h⟩ := bind_ok h
  obtain ⟨-, rfl⟩ := Prod.mk.inj (pure_ok h)
  rw [(replaceHead_jobs hreplace).1] at hfence
  exact ((sameUnits_current hcurrent).trans (sameUnits_fence hfence)).trans
    (sameUnits_yieldPending hyield)

theorem sameUnits_beginPublication
    (h : beginPublication q evidence job expected times db = .ok (saved, db')) :
    SameUnits db.jobs db'.jobs := by
  obtain ⟨expected, -, h⟩ := bind_ok h
  obtain ⟨-, h⟩ := raiseIf_ok h
  obtain ⟨⟨claimed, db₁⟩, hcurrent, h⟩ := bind_ok h
  obtain ⟨-, h⟩ := raiseIf_ok h
  obtain ⟨-, h⟩ := raiseIf_ok h
  obtain ⟨saved', -, h⟩ := bind_ok h
  obtain ⟨db₂, hreplace, h⟩ := bind_ok h
  obtain ⟨jobs, hyield, h⟩ := bind_ok h
  obtain ⟨-, rfl⟩ := Prod.mk.inj (pure_ok h)
  rw [(replaceHead_jobs hreplace).1] at hyield
  exact (sameUnits_current hcurrent).trans (sameUnits_yieldPending hyield)

theorem sameUnits_stop {retryable bind : Bool} {reason : FailureReason} {message : String}
    (h : stop claimed expected retryable reason bind message times db = .ok (saved, db')) :
    SameUnits db.jobs db'.jobs := by
  rw [stop] at h
  split at h
  · cases h
  · cases h
  next jobs hfinish =>
    obtain ⟨-, rfl⟩ := Prod.mk.inj (pure_ok h)
    refine (sameUnits_finish hfinish).trans ?_
    split
    · exact .update (by intro; rfl) (by intro; rfl)
    · exact .refl _

theorem sameUnits_release {reason : ReleaseReason}
    (h : release q evidence job expected reason times db = .ok (saved, db')) :
    SameUnits db.jobs db'.jobs := by
  obtain ⟨expected, -, h⟩ := bind_ok h
  obtain ⟨⟨claimed, db₁⟩, hcurrent, h⟩ := bind_ok h
  refine (sameUnits_current hcurrent).trans ?_
  dsimp only at h
  split at h
  · exact sameUnits_stop h
  split at h
  · exact sameUnits_stop h
  obtain ⟨⟨saved', db₂⟩, hrestart, h⟩ := bind_ok h
  obtain ⟨jobs, hfence, h⟩ := bind_ok h
  obtain ⟨jobs', hyield, h⟩ := bind_ok h
  obtain ⟨-, rfl⟩ := Prod.mk.inj (pure_ok h)
  have hdb₂ : db₂.jobs = db₁.jobs := by
    rw [restartHead] at hrestart
    split at hrestart
    · obtain ⟨restart, -, hrestart⟩ := bind_ok hrestart
      obtain ⟨db₃, hreplace, hrestart⟩ := bind_ok hrestart
      obtain ⟨-, rfl⟩ := Prod.mk.inj (pure_ok hrestart)
      exact (replaceHead_jobs hreplace).1
    · obtain ⟨-, rfl⟩ := Prod.mk.inj (pure_ok hrestart)
      rfl
  rw [hdb₂] at hfence
  exact (sameUnits_fence hfence).trans (sameUnits_yieldPending hyield)

theorem reopened_unit (request : Request) (attempts : Int) (job : Job) :
    (Queue.reopened request now attempts job).unit = job.unit := by
  simp only [Queue.reopened]
  split_ifs <;> rfl

theorem reopenChange_unit {key : String} {existing : Job} {request : Request} {change : Job → Job}
    (h : Queue.reopenChange key existing request now = .ok change) (job : Job) :
    (change job).unit = job.unit := by
  rw [Queue.reopenChange.eq_def] at h
  split at h
  · split_ifs at h
    · cases h
      exact reopened_unit _ 0 job
    · cases h
      exact reopened_unit _ existing.attempts job
  · cases h
    exact reopened_unit _ 0 job

end

/-! ### Operations -/

variable {sha256 : String → String} {evidence : Evidence}

theorem sameUnits_settle {ε β : Type} {result : Except ε (β × Jobs)} {jobs : Jobs}
    (h : ∀ {b jobs'}, result = .ok (b, jobs') → SameUnits jobs jobs') :
    SameUnits jobs (settle result jobs) := by
  obtain hsame | ⟨value, hresult, hvalue⟩ := settle_cases result jobs
  · rw [hsame]
    exact .refl jobs
  · rw [hvalue]
    exact h hresult

theorem sameUnits_settle_db {ε β : Type} {result : Except ε (β × Db)} {db : Db}
    (h : ∀ {b db'}, result = .ok (b, db') → SameUnits db.jobs db'.jobs) :
    SameUnits db.jobs (settle result db).jobs := by
  obtain hsame | ⟨value, hresult, hvalue⟩ := settle_cases result db
  · rw [hsame]
    exact .refl _
  · rw [hvalue]
    exact h hresult

/-- Every operation but an admission leaves the units as they are. -/
theorem sameUnits_perform {e : Event} {db : Db}
    (h : ∀ q request reopenTerminal gate now, e ≠ .enqueue q request reopenTerminal gate now) :
    SameUnits db.jobs (e.perform sha256 evidence db).jobs := by
  cases e with
  | seed => exact .refl _
  | enqueue => exact absurd rfl (h _ _ _ _ _)
  | claimExhausted => exact sameUnits_takeOne fun _ => rfl
  | failExhausted => exact .update (by intro; rfl) (by intro; rfl)
  | claimNext => exact sameUnits_takeOne fun _ => rfl
  | closeIneligible => exact .update (by intro; rfl) (by intro; rfl)
  | renew => exact .update (by intro; rfl) (by intro; rfl)
  | deferQuota => exact .update (by intro; rfl) (by intro; rfl)
  | finish => exact sameUnits_settle sameUnits_finish
  | checkpointInventory => exact sameUnits_settle sameUnits_checkpointInventory
  | checkpointShipmentCursor => exact sameUnits_settle sameUnits_checkpointShipmentCursor
  | progress => exact sameUnits_settle_db sameUnits_progress
  | beginVerification => exact sameUnits_settle_db sameUnits_beginVerification
  | beginPublication => exact sameUnits_settle_db sameUnits_beginPublication
  | release => exact sameUnits_settle_db sameUnits_release
  | rearm => exact .update (by intro; rfl) (by intro; rfl)

end ZelerPlatform.Recovery
