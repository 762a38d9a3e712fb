import ZelerPlatform.Recovery.Steps

/-!
# Capacity and fencing of the recovery queue

Admission keeps the capacity, and so do all operations of workers. The re-arm of failed jobs
after a relink counts nothing: the capacity survives it if the re-armed jobs still fit. A call
with a snapshot that no longer selects its job changes no document.
-/

namespace ZelerPlatform.Recovery

open Fallible Transition

/-! ### Admission -/

/-- There is room for one more job of the request's kind. -/
structure Room (q : Queue) (request : Request) (jobs : Jobs) : Prop where
  active : jobs.count (Job.activeOf request.sellerId) < q.maxActiveJobsPerSeller
  nonInventory : request.isInventory = false →
    jobs.count (Job.nonInventoryOf request.sellerId)
      < q.maxActiveJobsPerSeller - q.reservedInventorySlots

/-- A key of the request, or of the request narrowed to some of its publications. -/
def KeyOf (sha256 : String → String) (request : Request) (key : String) : Prop :=
  ∃ request' : Request, key = sha256 request'.keyText ∧ request'.sellerId = request.sellerId ∧
    request'.isInventory = request.isInventory

section

variable {q : Queue} {sha256 : String → String} {request : Request} {reopenTerminal : Bool}
variable {now : Time} {jobs jobs' : Jobs} {key : String} {candidate : Job}

theorem nonInventory_le (seller : String) :
    jobs.count (Job.nonInventoryOf seller) ≤ jobs.count (Job.activeOf seller) := by
  refine List.countP_mono_left fun job _ h => ?_
  simp only [Job.nonInventoryOf, Bool.and_eq_true] at h
  exact h.1

theorem checkCapacity_ok {u : Unit} (h : q.checkCapacity request jobs = .ok u) :
    Room q request jobs := by
  obtain ⟨hreserved, h⟩ := raiseIf_ok h
  unfold raiseIf at h
  split at h
  · cases h
  next hactive =>
    have hcount : jobs.count (Job.activeOf request.sellerId) < q.maxActiveJobsPerSeller := by
      omega
    refine ⟨hcount, fun hinv => ?_⟩
    have hle : jobs.count _ ≤ _ := nonInventory_le request.sellerId
    by_cases hzero : q.reservedInventorySlots = 0
    · omega
    · have : ¬ min q.maxActiveJobsPerSeller (jobs.count (Job.nonInventoryOf request.sellerId))
          ≥ q.maxActiveJobsPerSeller - q.reservedInventorySlots := fun hge =>
        hreserved ⟨hzero, by simp [hinv], hge⟩
      omega

/-- A document that a request may add: pending, never attempted and not leased. -/
structure NewJob (request : Request) (key : String) (job : Job) : Prop where
  id : job.id = key
  sellerId : job.sellerId = request.sellerId
  inventoryScope : job.inventoryScope = request.isInventory
  state : job.state = .pending
  attempts : job.attempts = 0
  attemptToken : job.attemptToken = none

theorem newJob_initial (authority : Option String) (key : String) (request : Request)
    (now : Time) : NewJob request key (initial authority key request now) := by
  obtain ⟨hid, hseller, hscope, hstate, hattempts, htoken⟩ := initial_fresh authority key request now
  exact ⟨hid, hseller, hscope, hstate, hattempts, htoken⟩

theorem target_ok (h : q.target sha256 request now jobs = .ok (.unit key candidate)) :
    KeyOf sha256 request key ∧ NewJob request key candidate := by
  have own := newJob_initial q.policyAuthority (sha256 request.keyText) request now
  unfold Queue.target at h
  dsimp only at h
  split at h
  · cases pure_ok h
    exact ⟨⟨request, rfl, rfl, rfl⟩, own⟩
  · split at h
    · split at h <;> cases h
    · split at h
      · cases pure_ok h
        exact ⟨⟨request, rfl, rfl, rfl⟩, own⟩
      · cases pure_ok h
        exact ⟨⟨_, rfl, by simp, by simp⟩,
          ⟨rfl, own.sellerId, own.inventoryScope, own.state, own.attempts, own.attemptToken⟩⟩

/-- A reopening changes one inactive job: it becomes pending, with no attempts or with
those it had. -/
structure Reopens (existing : Job) (change : Job → Job) : Prop where
  id : ∀ job, (change job).id = job.id
  sellerId : ∀ job, (change job).sellerId = job.sellerId
  inventoryScope : ∀ job, (change job).inventoryScope = job.inventoryScope
  state : ∀ job, (change job).state = .pending
  attempts : ∀ job, (change job).attempts = 0 ∨ (change job).attempts = existing.attempts
  attemptToken : ∀ job, (change job).attemptToken = job.attemptToken

private theorem reopens_reopened {existing : Job} {attempts : Int} (request : Request) (now : Time)
    (h : attempts = 0 ∨ attempts = existing.attempts) :
    Reopens existing (Queue.reopened request now attempts) := by
  constructor <;> intro job <;> unfold Queue.reopened <;> dsimp only <;> split_ifs <;>
    first | rfl | exact h

theorem reopens_reopenChange {existing : Job} {change : Job → Job}
    (h : Queue.reopenChange key existing request now = .ok change) : Reopens existing change := by
  unfold Queue.reopenChange at h
  split at h
  · split_ifs at h
    · cases h
      rename_i seller ids offset _ _ _
      have base : Reopens existing (Queue.reopened (.shipmentIds seller ids) now 0) :=
        reopens_reopened _ now (.inl rfl)
      exact ⟨base.id, base.sellerId, base.inventoryScope, base.state, base.attempts,
        base.attemptToken⟩
    · cases h
      exact reopens_reopened _ now (.inr rfl)
  · cases h
    exact reopens_reopened _ now (.inl rfl)

/-- What an admission can do: nothing, add a job, or reopen an inactive one, and the last
two only where there is room. -/
inductive Admitted (sha256 : String → String) (q : Queue) (request : Request) (jobs : Jobs) :
    Jobs → Prop
  | none : Admitted sha256 q request jobs jobs
  | insert {key : String} {job : Job} {jobs' : Jobs} (room : Room q request jobs)
      (key_of : KeyOf sha256 request key) (new : NewJob request key job)
      (inserted : jobs.insert job = some jobs') : Admitted sha256 q request jobs jobs'
  | reopen {existing : Job} {p : Job → Bool} {change : Job → Job} (room : Room q request jobs)
      (mem : existing ∈ jobs.docs) (key_of : KeyOf sha256 request existing.id)
      (inactive : existing.active = false) (selects : ∀ job, p job = true → job.id = existing.id)
      (change_ok : Reopens existing change) :
      Admitted sha256 q request jobs (jobs.update p change change_ok.id)

theorem admitted_of_admitUnit (hkey : KeyOf sha256 request key)
    (hnew : NewJob request key candidate)
    (h : q.admitUnit request reopenTerminal now key candidate jobs = .ok jobs') :
    Admitted sha256 q request jobs jobs' := by
  unfold Queue.admitUnit at h
  split at h
  next existing hfind =>
    obtain ⟨hmem, hid⟩ := Collection.findOne_mem hfind
    have hid : existing.id = key := by simpa using hid
    split at h
    · cases pure_ok h
      exact .none
    obtain ⟨-, h⟩ := raiseIf_ok h
    split at h
    · cases pure_ok h
      exact .none
    next hterminal =>
      obtain ⟨_, hroom, h⟩ := bind_ok h
      split at h
      · cases h
      next change hchange =>
        obtain ⟨-, h⟩ := raiseIf_ok h
        cases pure_ok h
        refine .reopen (checkCapacity_ok hroom) hmem (hid ▸ hkey) ?_ (fun job hp => ?_)
          (reopens_reopenChange hchange)
        · simpa using fun hactive => hterminal (.inr (.inr hactive))
        · simp only [Queue.reopenFilter, Bool.and_eq_true, decide_eq_true_eq] at hp
          exact hp.1.trans hid.symm
  next =>
    obtain ⟨_, hroom, h⟩ := bind_ok h
    split at h
    next inserted hinserted =>
      cases pure_ok h
      exact .insert (checkCapacity_ok hroom) hkey hnew hinserted
    · cases h

theorem admitted_of_runAdmission (h : q.runAdmission sha256 request reopenTerminal now jobs = .ok (key, jobs')) :
    Admitted sha256 q request jobs jobs' := by
  obtain ⟨target, htarget, h⟩ := bind_ok h
  cases target with
  | covered _ =>
      obtain ⟨-, rfl⟩ := Prod.mk.inj (pure_ok h)
      exact .none
  | unit key' candidate =>
      obtain ⟨hkey, hnew⟩ := target_ok htarget
      obtain ⟨jobs₁, hunit, h⟩ := bind_ok h
      obtain ⟨-, rfl⟩ := Prod.mk.inj (pure_ok h)
      exact admitted_of_admitUnit hkey hnew hunit

end

/-! ### What a step does to the jobs -/

variable {sha256 : String → String} {evidence : Evidence} {m r : Nat}

inductive Effect (sha256 : String → String) (n : Time) (jobs jobs' : Jobs) : Event → Prop
  | quiet {e : Event} (moves : Quiet n e.token jobs jobs') : Effect sha256 n jobs jobs' e
  | enqueue {q : Queue} {request : Request} {reopenTerminal : Bool} {gate : Option Bool}
      {now : Time} (admitted : Admitted sha256 q request jobs jobs') :
      Effect sha256 n jobs jobs' (.enqueue q request reopenTerminal gate now)
  | rearm {seller : String} {linkedAt now : Time} (rearmed : jobs' = rearm seller linkedAt now jobs) :
      Effect sha256 n jobs jobs' (.rearm seller linkedAt now)

theorem effect_of_perform {n : Time} (e : Event) (db : Db) (hn : ∀ t ∈ e.readings, n ≤ t) :
    Effect sha256 n db.jobs (e.perform sha256 evidence db).jobs e := by
  cases e with
  | seed => exact .quiet (.refl _)
  | enqueue q request reopenTerminal gate now =>
      simp only [Event.perform]
      obtain hsame | ⟨value, hresult, hvalue⟩ := settle_cases _ db
      · rw [hsame]
        exact .quiet (.refl _)
      · rw [hvalue]
        obtain ⟨_, -, h⟩ := bind_ok hresult
        obtain ⟨⟨key, jobs⟩, hadmit, h⟩ := bind_ok h
        cases pure_ok h
        exact .enqueue (admitted_of_runAdmission hadmit)
  | claimExhausted => exact .quiet quiet_claimExhausted
  | failExhausted => exact .quiet quiet_failExhausted
  | claimNext => exact .quiet quiet_claimNext
  | rearm => exact .rearm rfl
  | _ => exact .quiet (workerEffect_of_snapshot sha256 evidence rfl hn).quiet

/-! ### Invariants of the jobs -/

/-- What holds of the stored jobs besides the capacity: each is valid, each lies under a key
of its seller and kind, and every stored token has been handed out. -/
structure Sound (sha256 : String → String) (s : State) : Prop where
  valid : ∀ job ∈ s.db.jobs.docs, job.Valid
  keyed : ∀ job ∈ s.db.jobs.docs, ∃ request : Request, request.plainSeller = true ∧
    job.id = sha256 request.keyText ∧ job.sellerId = request.sellerId ∧
    job.inventoryScope = request.isInventory
  tokens : ∀ job ∈ s.db.jobs.docs, ∀ {token}, job.attemptToken = some token → token ∈ s.issued

/-- The capacity of every seller is kept. -/
def WithinCapacity (m r : Nat) (jobs : Jobs) : Prop :=
  ∀ seller, jobs.count (Job.activeOf seller) ≤ m ∧ jobs.count (Job.nonInventoryOf seller) ≤ m - r

/-- The failed jobs that a re-arm selects fit beside the active ones. -/
def RearmFits (m r : Nat) (seller : String) (linkedAt : Time) (jobs : Jobs) : Prop :=
  jobs.count (fun job => job.activeOf seller || rearmFilter seller linkedAt job) ≤ m ∧
  jobs.count (fun job => job.nonInventoryOf seller
    || rearmFilter seller linkedAt job && !job.inventoryScope) ≤ m - r

/-- Requests are for sellers without NUL characters, and re-armed jobs fit. -/
def Allowed (m r : Nat) (s : State) : Event → Prop
  | .enqueue _ request .. => request.plainSeller = true
  | .rearm seller linkedAt _ => RearmFits m r seller linkedAt s.db.jobs
  | _ => True

instance (s : State) (e : Event) : Decidable (Allowed m r s e) :=
  match e with
  | .enqueue _ request .. => inferInstanceAs (Decidable (request.plainSeller = true))
  | .rearm _ _ _ => inferInstanceAs (Decidable (_ ∧ _))
  | .seed _ | .claimExhausted .. | .failExhausted .. | .claimNext .. | .closeIneligible ..
  | .renew .. | .deferQuota .. | .finish .. | .checkpointInventory ..
  | .checkpointShipmentCursor .. | .progress .. | .beginVerification .. | .beginPublication ..
  | .release .. => inferInstanceAs (Decidable True)

/-- Where a job after a step comes from. -/
def Origin (sha256 : String → String) (n : Time) (jobs : Jobs) (e : Event) (job' : Job) : Prop :=
  (∃ job ∈ jobs.docs, Proceeds n e.token job job') ∨
  ∃ q request reopenTerminal gate now key, e = .enqueue q request reopenTerminal gate now ∧
    KeyOf sha256 request key ∧ NewJob request key job'

private theorem proceeds_of_pending {n : Time} {fresh : Option String} {job job' : Job}
    (hid : job'.id = job.id) (hseller : job'.sellerId = job.sellerId)
    (hscope : job'.inventoryScope = job.inventoryScope) (hstate : job'.state = .pending)
    (hattempts : job'.attempts = 0 ∨ job'.attempts = job.attempts)
    (htoken : job'.attemptToken = job.attemptToken) : Proceeds n fresh job job' := by
  refine ⟨hid, hseller, hscope, fun hvalid => ?_, fun ht => .inl (htoken ▸ ht), ?_⟩
  · have hnonneg := hvalid.attempts_nonneg
    have hle := hvalid.attempts_le
    have hmax : maxAttempts = 3 := rfl
    obtain hzero | hsame := hattempts
    all_goals exact ⟨by omega, by omega, fun h => by rw [hstate] at h; cases h⟩
  · intro _ _ hheld
    rw [hheld.1] at hstate
    cases hstate

theorem origin_of_effect {n : Time} {jobs jobs' : Jobs} {e : Event}
    (h : Effect sha256 n jobs jobs' e) {job' : Job} (mem : job' ∈ jobs'.docs) :
    Origin sha256 n jobs e job' := by
  cases h with
  | quiet moves =>
      obtain ⟨job, hjob, hmove⟩ := moves.source mem
      exact .inl ⟨job, hjob, hmove.toProceeds⟩
  | rearm rearmed =>
      subst rearmed
      obtain ⟨job, hjob, rfl⟩ := Collection.mem_update.mp mem
      refine .inl ⟨job, hjob, ?_⟩
      split
      · exact proceeds_of_pending rfl rfl rfl rfl (.inl rfl) rfl
      · exact .refl job
  | enqueue admitted =>
      cases admitted with
      | none => exact .inl ⟨job', mem, .refl job'⟩
      | insert room key_of new inserted =>
          rw [Collection.insert_docs inserted, List.mem_append] at mem
          obtain mem | mem := mem
          · exact .inl ⟨job', mem, .refl job'⟩
          · rw [List.mem_singleton] at mem
            subst mem
            exact .inr ⟨_, _, _, _, _, _, rfl, key_of, new⟩
      | reopen room hexisting key_of inactive selects change_ok =>
          obtain ⟨job, hjob, rfl⟩ := Collection.mem_update.mp mem
          refine .inl ⟨job, hjob, ?_⟩
          split
          next hp =>
            have := Collection.eq_of_key hjob hexisting (selects job hp)
            subst this
            exact proceeds_of_pending (change_ok.id _) (change_ok.sellerId _)
              (change_ok.inventoryScope _) (change_ok.state _) (change_ok.attempts _)
              (change_ok.attemptToken _)
          · exact .refl job

/-- The clock readings of a call have a lower bound. -/
private theorem exists_before (times : List Time) : ∃ n, ∀ t ∈ times, n ≤ t := by
  induction times with
  | nil => exact ⟨0, by simp⟩
  | cons t times ih =>
      obtain ⟨n, hn⟩ := ih
      refine ⟨min t n, fun u mem => ?_⟩
      obtain rfl | mem := List.mem_cons.mp mem
      · exact min_le_left _ _
      · exact le_trans (min_le_right _ _) (hn u mem)

theorem Sound.step {s t : State} {e : Event} (h : Sound sha256 s) (allowed : Allowed m r s e)
    (step : Step sha256 evidence m r s e t) : Sound sha256 t := by
  obtain ⟨-, rfl⟩ := step
  obtain ⟨n, hn⟩ := exists_before e.readings
  have origin {job : Job} (mem : job ∈ (e.perform sha256 evidence s.db).jobs.docs) :
      Origin sha256 n s.db.jobs e job := origin_of_effect (effect_of_perform e s.db hn) mem
  refine ⟨fun job mem => ?_, fun job mem => ?_, fun job mem token htoken => ?_⟩
  · obtain ⟨before, hbefore, hmove⟩ | ⟨_, _, _, _, _, _, -, -, hnew⟩ := origin mem
    · exact hmove.valid (h.valid before hbefore)
    · refine ⟨by simp [hnew.attempts], by simp [hnew.attempts, maxAttempts], fun hrunning => ?_⟩
      rw [hnew.state] at hrunning
      cases hrunning
  · obtain ⟨before, hbefore, hmove⟩ | ⟨_, request, _, _, _, key, rfl, hkey, hnew⟩ := origin mem
    · obtain ⟨request, hplain, hid, hseller, hscope⟩ := h.keyed before hbefore
      exact ⟨request, hplain, hmove.id.trans hid, hmove.sellerId.trans hseller,
        hmove.inventoryScope.trans hscope⟩
    · obtain ⟨request', hid, hseller, hinv⟩ := hkey
      refine ⟨request', ?_, hnew.id.trans hid, hnew.sellerId.trans hseller.symm,
        hnew.inventoryScope.trans hinv.symm⟩
      unfold Request.plainSeller
      rw [hseller]
      exact allowed
  · show token ∈ e.token.toList ++ s.issued
    obtain ⟨before, hbefore, hmove⟩ | ⟨_, _, _, _, _, _, -, -, hnew⟩ := origin mem
    · obtain hold | hfresh := hmove.token htoken
      · exact List.mem_append_right _ (h.tokens before hbefore hold)
      · exact List.mem_append_left _ (by simp [hfresh])
    · rw [hnew.attemptToken] at htoken
      cases htoken

/-! ### The capacity over a step

Both bounds count active jobs of a kind, where a kind is a matter of the seller and of the
inventory scope, which no change of a job touches. -/

/-- An active job of a kind. -/
def Job.occupies (kind : String → Bool → Bool) (job : Job) : Bool :=
  kind job.sellerId job.inventoryScope && job.active

/-- All jobs of a seller. -/
def anyOf (seller : String) : String → Bool → Bool := fun owner _ => decide (owner = seller)

/-- The jobs of a seller outside the reserved slot. -/
def unreservedOf (seller : String) : String → Bool → Bool :=
  fun owner inventory => decide (owner = seller) && !inventory

section

variable {jobs jobs' : Jobs} {p : Job → Bool} {change : Job → Job}
variable {keeps : ∀ job, (change job).id = job.id} {kind : String → Bool → Bool}

theorem count_activeOf (seller : String) :
    jobs.count (Job.activeOf seller) = jobs.count (Job.occupies (anyOf seller)) := rfl

theorem count_nonInventoryOf (seller : String) :
    jobs.count (Job.nonInventoryOf seller) = jobs.count (Job.occupies (unreservedOf seller)) := by
  refine List.countP_congr fun job _ => ?_
  simp [Job.nonInventoryOf, Job.activeOf, Job.occupies, unreservedOf, and_right_comm]

theorem withinCapacity_iff : WithinCapacity m r jobs ↔ ∀ seller,
    jobs.count (Job.occupies (anyOf seller)) ≤ m ∧
    jobs.count (Job.occupies (unreservedOf seller)) ≤ m - r := by
  simp only [WithinCapacity, count_activeOf, count_nonInventoryOf]

theorem count_quiet_le {n : Time} {fresh : Option String} (moves : Quiet n fresh jobs jobs') :
    jobs'.count (Job.occupies kind) ≤ jobs.count (Job.occupies kind) := by
  refine moves.count_le fun job job' hmove h => ?_
  simp only [Job.occupies, Bool.and_eq_true] at h ⊢
  rw [hmove.sellerId, hmove.inventoryScope] at h
  exact ⟨h.1, hmove.active h.2⟩

section

variable (hseller : ∀ job, (change job).sellerId = job.sellerId)
variable (hscope : ∀ job, (change job).inventoryScope = job.inventoryScope)

include hseller hscope

/-- After an update the active jobs of a kind are those from before and, at most, the
selected jobs of the kind. -/
theorem count_update_le :
    (jobs.update p change keeps).count (Job.occupies kind) ≤ jobs.count fun job =>
      job.occupies kind || p job && kind job.sellerId job.inventoryScope := by
  have moves : Collection.Moves (fun job job' => job'.sellerId = job.sellerId ∧
      job'.inventoryScope = job.inventoryScope ∧ (job'.active = true → (job.active || p job) = true))
      jobs (jobs.update p change keeps) :=
    Collection.Moves.update keeps (fun _ => ⟨rfl, rfl, fun h => by simp [h]⟩) fun job _ hp =>
      ⟨hseller job, hscope job, fun _ => by simp [hp]⟩
  refine moves.count_le fun job job' ⟨hsame, hkind, hactive⟩ h => ?_
  simp only [Job.occupies, Bool.and_eq_true, Bool.or_eq_true] at h hactive ⊢
  rw [hsame, hkind] at h
  exact (hactive h.2).imp (fun hjob => ⟨h.1, hjob⟩) fun hp => ⟨hp, h.1⟩

/-- An update of jobs of other kinds makes no job of the kind active. -/
theorem count_update_other
    (hother : ∀ job ∈ jobs.docs, p job = true → kind job.sellerId job.inventoryScope = false) :
    (jobs.update p change keeps).count (Job.occupies kind) ≤ jobs.count (Job.occupies kind) := by
  refine le_trans (count_update_le hseller hscope) (List.countP_mono_left fun job mem h => ?_)
  simp only [Bool.or_eq_true, Bool.and_eq_true] at h
  obtain h | ⟨hp, hjob⟩ := h
  · exact h
  · rw [hother job mem hp] at hjob
    cases hjob

/-- An update of one job makes at most one more job of the kind active. -/
theorem count_update_one {key : String} (hp : ∀ job ∈ jobs.docs, p job = true → job.id = key) :
    (jobs.update p change keeps).count (Job.occupies kind)
      ≤ jobs.count (Job.occupies kind) + 1 := by
  have one (job : Job) (mem : job ∈ jobs.docs)
      (h : (p job && kind job.sellerId job.inventoryScope) = true) : job.id = key := by
    simp only [Bool.and_eq_true] at h
    exact hp job mem h.1
  exact le_trans (count_update_le hseller hscope) (Collection.count_or_le_succ one)

end

theorem WithinCapacity.of_quiet {n : Time} {fresh : Option String} (h : WithinCapacity m r jobs)
    (moves : Quiet n fresh jobs jobs') : WithinCapacity m r jobs' := by
  rw [withinCapacity_iff] at h ⊢
  exact fun seller => ⟨le_trans (count_quiet_le moves) (h seller).1,
    le_trans (count_quiet_le moves) (h seller).2⟩

theorem WithinCapacity.of_rearm {seller : String} {linkedAt now : Time}
    (h : WithinCapacity m r jobs) (fits : RearmFits m r seller linkedAt jobs) :
    WithinCapacity m r (rearm seller linkedAt now jobs) := by
  rw [withinCapacity_iff] at h ⊢
  intro seller'
  by_cases hseller : seller' = seller
  · subst hseller
    constructor
    · refine le_trans (count_update_le (fun _ => rfl) fun _ => rfl) (le_trans ?_ fits.1)
      refine List.countP_mono_left fun job _ hjob => ?_
      simp only [Bool.or_eq_true, Bool.and_eq_true] at hjob ⊢
      exact hjob.imp id And.left
    · refine le_trans (count_update_le (fun _ => rfl) fun _ => rfl) (le_trans ?_ fits.2)
      refine List.countP_mono_left fun job _ hjob => ?_
      simp only [Job.nonInventoryOf, Job.activeOf, Job.occupies, unreservedOf, Bool.or_eq_true,
        Bool.and_eq_true] at hjob ⊢
      exact hjob.imp (fun h => ⟨⟨h.1.1, h.2⟩, h.1.2⟩) fun h => ⟨h.1, h.2.2⟩
  · have other (job : Job) (hp : rearmFilter seller linkedAt job = true) :
        decide (job.sellerId = seller') = false := by
      simp only [rearmFilter, Bool.and_eq_true, decide_eq_true_eq] at hp
      simpa [hp.1.1.1.1] using Ne.symm hseller
    constructor
    · exact le_trans (count_update_other (fun _ => rfl) (fun _ => rfl) fun job _ hp =>
        other job hp) (h seller').1
    · exact le_trans (count_update_other (fun _ => rfl) (fun _ => rfl) fun job _ hp => by
        simp [unreservedOf, other job hp]) (h seller').2

/-- The stored job under a key of the request is of the request's seller and kind. -/
theorem Sound.of_key {s : State} (h : Sound sha256 s) (hsha : Function.Injective sha256)
    {request : Request} (hplain : request.plainSeller = true) {job : Job}
    (mem : job ∈ s.db.jobs.docs) (hkey : KeyOf sha256 request job.id) :
    job.sellerId = request.sellerId ∧ job.inventoryScope = request.isInventory := by
  obtain ⟨request₁, hid₁, hseller₁, hinv₁⟩ := hkey
  obtain ⟨request₂, hplain₂, hid₂, hseller₂, hinv₂⟩ := h.keyed job mem
  have hplain₁ : request₁.plainSeller = true := by
    unfold Request.plainSeller at hplain ⊢
    rwa [hseller₁]
  obtain ⟨hseller, hinv⟩ := keyText_names hplain₁ hplain₂ (hsha (hid₁.symm.trans hid₂))
  exact ⟨hseller₂.trans (hseller.symm.trans hseller₁), hinv₂.trans (hinv.symm.trans hinv₁)⟩

variable {q : Queue} {request : Request} {s : State}

/-- An admission makes one job of the request's kind active at most. -/
theorem count_admitted_le (kind : String → Bool → Bool) (hsha : Function.Injective sha256)
    (sound : Sound sha256 s)
    (hplain : request.plainSeller = true) (admitted : Admitted sha256 q request s.db.jobs jobs') :
    jobs'.count (Job.occupies kind) ≤ s.db.jobs.count (Job.occupies kind)
      + if kind request.sellerId request.isInventory then 1 else 0 := by
  cases admitted with
  | none => omega
  | insert room key_of new inserted =>
      rw [Collection.count_insert inserted]
      simp [Job.occupies, Job.active, new.sellerId, new.inventoryScope, new.state]
  | reopen room mem key_of inactive selects change_ok =>
      obtain ⟨hseller, hscope⟩ := sound.of_key hsha hplain mem key_of
      split
      · exact count_update_one change_ok.sellerId change_ok.inventoryScope fun job _ hp =>
          selects job hp
      next hkind =>
        refine count_update_other change_ok.sellerId change_ok.inventoryScope fun job hjob hp => ?_
        have := Collection.eq_of_key hjob mem (selects job hp)
        subst this
        simpa [hseller, hscope] using hkind

theorem Admitted.room (admitted : Admitted sha256 q request jobs jobs') :
    jobs' = jobs ∨ Room q request jobs := by
  cases admitted with
  | none => exact .inl rfl
  | insert room => exact .inr room
  | reopen room => exact .inr room

theorem WithinCapacity.of_admitted (hsha : Function.Injective sha256) (sound : Sound sha256 s)
    (hplain : request.plainSeller = true) (hm : q.maxActiveJobsPerSeller = m)
    (hr : q.reservedInventorySlots = r) (h : WithinCapacity m r s.db.jobs)
    (admitted : Admitted sha256 q request s.db.jobs jobs') : WithinCapacity m r jobs' := by
  obtain rfl | ⟨hactive, hnonInventory⟩ := admitted.room
  · exact h
  rw [withinCapacity_iff] at h ⊢
  intro seller
  have hany := count_admitted_le (anyOf seller) hsha sound hplain admitted
  have hunreserved := count_admitted_le (unreservedOf seller) hsha sound hplain admitted
  rw [count_activeOf] at hactive
  rw [count_nonInventoryOf] at hnonInventory
  have hseller := h seller
  by_cases howner : request.sellerId = seller
  · subst howner
    refine ⟨by split at hany <;> omega, ?_⟩
    cases hinv : request.isInventory with
    | false =>
        have := hnonInventory hinv
        split at hunreserved <;> omega
    | true =>
        simp only [unreservedOf, hinv, Bool.not_true, Bool.and_false, Bool.false_eq_true,
          if_false] at hunreserved
        omega
  · simp only [anyOf, unreservedOf, howner, decide_false, Bool.false_and, Bool.false_eq_true,
      if_false, Nat.add_zero] at hany hunreserved
    exact ⟨le_trans hany hseller.1, le_trans hunreserved hseller.2⟩

end

theorem WithinCapacity.step (hsha : Function.Injective sha256) {s t : State} {e : Event}
    (sound : Sound sha256 s) (h : WithinCapacity m r s.db.jobs) (allowed : Allowed m r s e)
    (step : Step sha256 evidence m r s e t) : WithinCapacity m r t.db.jobs := by
  obtain ⟨⟨hqueue, -⟩, rfl⟩ := step
  obtain ⟨n, hn⟩ := exists_before e.readings
  have heffect : Effect sha256 n s.db.jobs (e.perform sha256 evidence s.db).jobs e :=
    effect_of_perform e s.db hn
  show WithinCapacity m r (e.perform sha256 evidence s.db).jobs
  generalize (e.perform sha256 evidence s.db).jobs = jobs' at heffect ⊢
  cases heffect with
  | quiet moves => exact h.of_quiet moves
  | enqueue admitted =>
      obtain ⟨hm, hr⟩ := hqueue _ rfl
      exact h.of_admitted hsha sound allowed hm hr admitted
  | rearm rearmed =>
      subst rearmed
      exact h.of_rearm allowed

/-! ### Snapshots that lost their job -/

/-- A job lost at `n`, under a token handed out before, is not found again by an operation
whose clock shows `n` or later. -/
theorem lost_of_step {n : Time} {s t : State} {e : Event} {snapshot : Job}
    (hissued : ∀ token, snapshot.attemptToken = some token → token ∈ s.issued)
    (lost : s.db.jobs.matched (owned snapshot n) = false) (step : Step sha256 evidence m r s e t)
    (hn : ∀ now ∈ e.readings, n ≤ now) : t.db.jobs.matched (owned snapshot n) = false := by
  obtain ⟨⟨-, hfresh⟩, rfl⟩ := step
  refine Collection.matched_eq_false.mpr fun job mem => ?_
  by_contra howned
  obtain ⟨token, htoken, hid, hheld⟩ := owned_held le_rfl (by simpa using howned)
  obtain ⟨before, hbefore, hmove⟩ | ⟨_, _, _, _, _, _, -, -, hnew⟩ :=
    origin_of_effect (effect_of_perform e s.db hn) mem
  · have hne : e.token ≠ some token := fun h =>
      hfresh token h (hissued token htoken)
    obtain ⟨hstate, hsame, hlease⟩ := hmove.held hne hheld
    have := Collection.matched_eq_false.mp lost before hbefore
    simp [owned, hmove.id ▸ hid, hstate, hsame, htoken, hlease] at this
  · have hstate := hnew.state
    rw [hheld.1] at hstate
    cases hstate

theorem lost_of_run {n : Time} {s t : State} {es : List Event} {snapshot : Job}
    (hissued : ∀ token, snapshot.attemptToken = some token → token ∈ s.issued)
    (lost : s.db.jobs.matched (owned snapshot n) = false)
    (run : Run (Step sha256 evidence m r) s es t) (hn : ∀ e ∈ es, ∀ now ∈ e.readings, n ≤ now) :
    t.db.jobs.matched (owned snapshot n) = false := by
  have both : (∀ token, snapshot.attemptToken = some token → token ∈ t.issued) ∧
      t.db.jobs.matched (owned snapshot n) = false := by
    induction run with
    | nil => exact ⟨hissued, lost⟩
    | snoc _ last ih =>
        obtain ⟨hissued', lost'⟩ := ih fun e he => hn e (by simp [he])
        refine ⟨fun token htoken => ?_, lost_of_step hissued' lost' last (hn _ (by simp))⟩
        obtain ⟨-, rfl⟩ := last
        exact List.mem_append_right _ (hissued' token htoken)
  exact both.2

/-- A call with a snapshot that has lost its job changes no document. -/
theorem unchanged_of_lost {n : Time} {s t u : State} {later : List Event} {e : Event}
    {snapshot : Job} (hissued : ∀ token, snapshot.attemptToken = some token → token ∈ s.issued)
    (lost : s.db.jobs.matched (owned snapshot n) = false)
    (run : Run (Step sha256 evidence m r) s later t) (step : Step sha256 evidence m r t e u)
    (hn : ∀ f ∈ e :: later, ∀ now ∈ f.readings, n ≤ now) (hsnapshot : e.snapshot = some snapshot) :
    u.db = t.db := by
  have hlost := lost_of_run hissued lost run fun f hf => hn f (by simp [hf])
  obtain ⟨-, rfl⟩ := step
  have effect : WorkerEffect n none snapshot t.db (e.perform sha256 evidence t.db) :=
    workerEffect_of_snapshot sha256 evidence hsnapshot (hn e (by simp))
  exact effect.unchanged hlost

/-- While re-armed jobs fit beside the active ones, no seller ever has more than `m` active
jobs, nor more than `m - r` outside the slots for its inventory. Attempts stay within their
bound, a running job carries one token, and a call with a snapshot that has lost its job
changes no document, however much later it comes. -/
theorem capacity_and_fencing (hsha : Function.Injective sha256) {start s : State}
    {es : List Event} (empty : start.db.jobs = .empty)
    (run : Run (restrict (Step sha256 evidence m r) (Allowed m r)) start es s) :
    WithinCapacity m r s.db.jobs ∧
    (∀ job ∈ s.db.jobs.docs, 0 ≤ job.attempts ∧ job.attempts ≤ maxAttempts ∧
      (job.state = .running → ∃! token, job.attemptToken = some token)) ∧
    ∀ {n : Time} {snapshot : Job} {later : List Event} {t u : State} {e : Event},
      (∀ token, snapshot.attemptToken = some token → token ∈ s.issued) →
      s.db.jobs.matched (owned snapshot n) = false →
      Run (Step sha256 evidence m r) s later t → Step sha256 evidence m r t e u →
      (∀ f ∈ e :: later, ∀ now ∈ f.readings, n ≤ now) → e.snapshot = some snapshot →
      u.db = t.db := by
  have hstart : Sound sha256 start ∧ WithinCapacity m r start.db.jobs := by
    refine ⟨⟨?_, ?_, ?_⟩, fun seller => ?_⟩ <;> simp [empty, Collection.count]
  obtain ⟨sound, within⟩ :=
    run.state_invariant (P := fun s => Sound sha256 s ∧ WithinCapacity m r s.db.jobs) hstart
      fun ⟨sound, within⟩ ⟨allowed, step⟩ =>
        ⟨sound.step allowed step, within.step hsha sound allowed step⟩
  refine ⟨within, fun job mem => ?_, unchanged_of_lost⟩
  have hvalid := sound.valid job mem
  refine ⟨hvalid.attempts_nonneg, hvalid.attempts_le, fun hrunning => ?_⟩
  obtain ⟨token, htoken⟩ := (hvalid.running hrunning).2
  exact ⟨token, htoken, fun other hother => Option.some.inj (hother.symm.trans htoken)⟩

/-! ### A relink beyond the capacity -/

/-- A queue of the onboarding policy with a single slot. -/
def policyQueue : Queue where
  maxActiveJobsPerSeller := 1
  reservedInventorySlots := 0
  enabledModels := [.orders]
  allowedSellers := none
  policyAuthority := some policyVersion
  yearHistoryEnabled := true
  positive := by decide
  reserved := by decide

/-- The orders of January and of February 2026. -/
def january : Request := .orderHistory "123" "plan" 1767225600000 1769904000000

def february : Request := .orderHistory "123" "plan" 1769904000000 1772323200000

def januaryKey : String := "15380e8d00abb31ccfcbe5176f54ac95d0732ede0a192c9421d6c0d35b17dbf0"

def februaryKey : String := "32b9f5e82ebedcee5e9a852e56c43431416a0d1b923b6994e1fa61d2a2c5cbb6"

/-- SHA-256 on the texts of the two keys, some injection elsewhere. -/
def sampleSha256 : Equiv.Perm String :=
  (Equiv.swap january.keyText januaryKey).trans (Equiv.swap february.keyText februaryKey)

example : sampleSha256 january.keyText = januaryKey ∧ sampleSha256 february.keyText = februaryKey := by
  decide +kernel

def sampleEvidence : Evidence := ⟨fun _ => true, fun _ => true, fun _ _ _ => true⟩

def emptyState : State := ⟨⟨.empty, .empty, .empty, .empty⟩, []⟩

/-- The document a worker is handed when it claims the January job. -/
def claimedJanuary : Job :=
  { initial (some policyVersion) januaryKey january 1000 with
    state := .running, attempts := 1, attemptToken := some "token", leaseUntil := some 602000,
    updatedAt := 2000 }

/-- The January job is admitted, claimed and rejected by the source. -/
def rejectedJanuary : List Event :=
  [.seed "123", .enqueue policyQueue january true none 1000,
    .claimExhausted policyQueue none true 2000 "unused",
    .failExhausted policyQueue none true 2000,
    .claimNext policyQueue none true 2000 "token",
    .finish claimedJanuary false false .sourceRejected 3000 3000]

/-- With no job in its slot, the January job may be re-armed; the worker that had claimed it
then changes nothing. -/
theorem capacity_and_fencing_rearmed :
    ∃ es s, Run (restrict (Step sampleSha256 sampleEvidence 1 0) (Allowed 1 0)) emptyState es s ∧
      s.db.jobs.count (Job.activeOf "123") = 1 ∧ WithinCapacity 1 0 s.db.jobs ∧
      ∀ t, Step sampleSha256 sampleEvidence 1 0 s (.renew claimedJanuary 6000) t → t.db = s.db := by
  have hrun : (perform (guarded (fun s e => decide (Allowed 1 0 s e))
      (Event.next sampleSha256 sampleEvidence 1 0)) (rejectedJanuary ++ [.rearm "123" 5000 5000])
      emptyState).any (fun result => result.2.db.jobs.count (Job.activeOf "123") = 1
        ∧ "token" ∈ result.2.issued
        ∧ result.2.db.jobs.matched (owned claimedJanuary 6000) = false) = true := by
    decide +kernel
  obtain ⟨⟨es, s⟩, hperform, hs⟩ := (Option.any_eq_true _ _).mp hrun
  obtain ⟨hcount, hissued, hlost⟩ := of_decide_eq_true hs
  have bounded : Run (restrict (Step sampleSha256 sampleEvidence 1 0)
      fun s e => decide (Allowed 1 0 s e) = true) emptyState es s := by
    refine run_of_perform ?_ hperform
    intro a s e t h
    refine restrict_of_guarded ?_ h
    exact step_of_next sampleSha256 sampleEvidence 1 0
  have run : Run (restrict (Step sampleSha256 sampleEvidence 1 0) (Allowed 1 0)) emptyState es s :=
    bounded.mono fun ⟨hallowed, step⟩ => ⟨of_decide_eq_true hallowed, step⟩
  obtain ⟨hwithin, -, hfence⟩ := capacity_and_fencing sampleSha256.injective rfl run
  refine ⟨es, s, run, hcount, hwithin, fun t step => ?_⟩
  refine hfence (fun token htoken => ?_) hlost .nil step (by simp [Event.readings]) rfl
  cases htoken
  exact hissued

/-- The February job takes the slot of the rejected one; then the account is linked anew. -/
def relinkSchedule : List Event :=
  rejectedJanuary ++ [.seed "123", .enqueue policyQueue february true none 4000, .rearm "123" 5000 5000]

/-- The re-arm of the January job beside the February job makes two of one slot. -/
theorem relink_exceeds_capacity :
    Function.Injective sampleSha256 ∧ emptyState.db.jobs = .empty ∧
    ∃ es s, Run (Step sampleSha256 sampleEvidence 1 0) emptyState es s ∧
      ¬ WithinCapacity 1 0 s.db.jobs := by
  have hrun : (perform (Event.next sampleSha256 sampleEvidence 1 0) relinkSchedule emptyState).any
      (fun result => result.2.db.jobs.count (Job.activeOf "123") = 2) = true := by
    decide +kernel
  obtain ⟨⟨es, s⟩, hperform, hcount⟩ := (Option.any_eq_true _ _).mp hrun
  refine ⟨sampleSha256.injective, rfl, es, s,
    run_of_perform (step_of_next sampleSha256 sampleEvidence 1 0) hperform, fun h => ?_⟩
  have := (h "123").1
  simp only [decide_eq_true_eq] at hcount
  omega

end ZelerPlatform.Recovery
