import ZelerPlatform.Recovery.Capacity
import ZelerPlatform.Recovery.Keys
import ZelerPlatform.Recovery.Units

/-!
# Coalescing of publication requests

A request for publications is narrowed to those that no active job acquires, which changes
the key it is admitted under. The text of a key names the request, so a job under the narrowed
key acquires just what the request was narrowed to, be the job new, active or terminal.
-/

namespace ZelerPlatform.Recovery

open Fallible Transition

/-! ### Requests of a run -/

/-- The requests that are ever made, with all they can be narrowed to: their constructors
accepted them, and no two of their keys collide. -/
structure Collisionless (sha256 : String → String) (known : Set Request) : Prop where
  accepted : ∀ request ∈ known, request.accepted = true
  narrowed : ∀ request ∈ known, ∀ ids ∈ request.narrowable, ∀ remaining : List String,
    remaining.Sublist ids → remaining ≠ [] → request.narrow remaining ∈ known
  injective : ∀ request ∈ known, ∀ request' ∈ known,
    sha256 request.keyText = sha256 request'.keyText → request.keyText = request'.keyText

/-- The request an operation admits. -/
def Event.request : Event → Option Request
  | .enqueue _ request .. => some request
  | _ => none

/-- An operation of any queue or worker, which admits a known request if it admits one. -/
def Requested (sha256 : String → String) (evidence : Evidence) (known : Set Request) (db : Db)
    (e : Event) (db' : Db) : Prop :=
  (∀ request ∈ e.request, request ∈ known) ∧ db' = e.perform sha256 evidence db

/-- A job lies under the key of a known request. If that is one for publications, the job
acquires just these. -/
def KeyedJob (sha256 : String → String) (known : Set Request) (job : Job) : Prop :=
  ∃ request ∈ known, job.id = sha256 request.keyText ∧
    ∀ ids, ForPublications request ids →
      job.sellerId = request.sellerId ∧ job.readModel = request.readModel ∧ job.itemIds = some ids

variable {sha256 : String → String} {evidence : Evidence} {known : Set Request}
variable {q : Queue} {request : Request} {ids : List String} {now : Time} {jobs jobs' : Jobs}
variable {key : String} {candidate job job' : Job}

theorem KeyedJob.of_unit (h : KeyedJob sha256 known job) (same : job'.unit = job.unit) :
    KeyedJob sha256 known job' := by
  obtain ⟨request, mem, hid, hids⟩ := h
  have hunit := JobUnit.mk.inj same
  refine ⟨request, mem, hunit.1.trans hid, fun ids hfor => ?_⟩
  obtain ⟨hseller, hmodel, hitems⟩ := hids ids hfor
  exact ⟨hunit.2.1.trans hseller, hunit.2.2.1.trans hmodel, hunit.2.2.2.2.1.trans hitems⟩

/-- A job under the key of a request for publications acquires just these. -/
theorem KeyedJob.publications (clean : Collisionless sha256 known)
    (h : KeyedJob sha256 known job) (mem : request ∈ known) (hfor : ForPublications request ids)
    (hid : job.id = sha256 request.keyText) :
    job.sellerId = request.sellerId ∧ job.readModel = request.readModel ∧
      job.itemIds = some ids := by
  obtain ⟨request', mem', hid', hids⟩ := h
  have htext := clean.injective request mem request' mem' (hid.symm.trans hid')
  obtain rfl := hfor.eq_of_keyText (clean.accepted _ mem) (clean.accepted _ mem') htext
  exact hids ids hfor

/-! ### What an admission is about -/

theorem ForPublications.narrowable_eq (h : ForPublications request ids) :
    request.narrowable = some ids := by
  cases h with
  | itemIds _ _ narrowed => obtain rfl | rfl := narrowed <;> rfl
  | catalog _ _ narrowed => obtain rfl | rfl := narrowed <;> rfl

theorem ForPublications.narrow (h : ForPublications request ids) (remaining : List String) :
    ForPublications (request.narrow remaining) remaining ∧
      (request.narrow remaining).readModel = request.readModel := by
  cases h with
  | itemIds _ _ narrowed => exact ⟨.itemIds _ _ narrowed, rfl⟩
  | catalog _ _ narrowed => exact ⟨.catalog _ _ narrowed, rfl⟩

/-- The job that is inserted for a request for publications. -/
theorem ForPublications.initial_unit (h : ForPublications request ids)
    (authority : Option String) (key : String) :
    (initial authority key request now).unit =
      ⟨key, request.sellerId, request.readModel, authority, some ids, none⟩ := by
  cases h with
  | itemIds => rfl
  | catalog _ _ narrowed => obtain rfl | rfl := narrowed <;> rfl

theorem ForPublications.narrow_self (h : ForPublications request ids) :
    request.narrow ids = request := by
  cases h <;> rfl

/-- The active jobs whose publications an admission leaves out. -/
def Queue.activeItems (q : Queue) (request : Request) (jobs : Jobs) : List Job :=
  (jobs.find fun job =>
    job.activeOf request.sellerId && job.readModel = request.readModel && job.itemIds.isSome).take
      q.maxActiveJobsPerSeller

/-- The publications an admission does not leave out. -/
def Queue.remaining (q : Queue) (request : Request) (ids : List String) (jobs : Jobs) :
    List String :=
  ids.filter fun identity =>
    identity ∉ (q.activeItems request jobs).flatMap fun job => job.itemIds.getD []

theorem activeItems_mem (mem : job ∈ q.activeItems request jobs) :
    job ∈ jobs.docs ∧ job.activeOf request.sellerId = true ∧ job.readModel = request.readModel := by
  obtain ⟨hmem, hp⟩ := Collection.find_mem.mp (List.mem_of_mem_take mem)
  simp only [Bool.and_eq_true, decide_eq_true_eq] at hp
  exact ⟨hmem, hp.1.1, hp.1.2⟩

/-- A publication is left out for an active job that acquires it. -/
theorem covered_or_remaining {identity : String} (mem : identity ∈ ids) :
    (∃ job ∈ q.activeItems request jobs, identity ∈ job.itemIds.getD []) ∨
      identity ∈ q.remaining request ids jobs := by
  by_cases h : identity ∈ (q.activeItems request jobs).flatMap fun job => job.itemIds.getD []
  · exact .inl (List.mem_flatMap.mp h)
  · exact .inr (List.mem_filter.mpr ⟨mem, by simpa using h⟩)

/-- Where there is room for a job, no active one was overlooked. -/
theorem not_remaining_of_active (room : Room q request jobs) (mem : job ∈ jobs.docs)
    (active : job.activeOf request.sellerId = true) (model : job.readModel = request.readModel)
    {identity : String} (acquired : identity ∈ job.itemIds.getD []) :
    identity ∉ q.remaining request ids jobs := by
  have hsome : job.itemIds.isSome = true := by
    cases hitems : job.itemIds with
    | none => simp [hitems] at acquired
    | some _ => rfl
  have hcount : (jobs.find fun job => job.activeOf request.sellerId &&
      decide (job.readModel = request.readModel) && job.itemIds.isSome).length ≤
        q.maxActiveJobsPerSeller := by
    refine le_trans ?_ room.active.le
    rw [Collection.find, ← List.countP_eq_length_filter]
    refine List.countP_mono_left fun job _ h => ?_
    simp only [Bool.and_eq_true] at h
    exact h.1.1
  have hitems : job ∈ q.activeItems request jobs := by
    rw [Queue.activeItems, List.take_of_length_le hcount]
    exact Collection.find_mem.mpr ⟨mem, by simp [active, model, hsome]⟩
  intro hremaining
  have hnot := (List.mem_filter.mp hremaining).2
  simp only [decide_eq_true_eq] at hnot
  exact hnot (List.mem_flatMap.mpr ⟨job, hitems, acquired⟩)

/-- What an admission of publications is about: an active job, or the unit of the request
narrowed to what no active job acquires. -/
inductive Aim (sha256 : String → String) (q : Queue) (request : Request) (ids : List String)
    (jobs : Jobs) : Queue.Target → Prop
  | covered {job : Job} (none_left : q.remaining request ids jobs = [])
      (mem : job ∈ q.activeItems request jobs) : Aim sha256 q request ids jobs (.covered job.id)
  | unit {key : String} {candidate : Job} (some_left : q.remaining request ids jobs ≠ [])
      (key_eq : key = sha256 (request.narrow (q.remaining request ids jobs)).keyText)
      (candidate_unit : candidate.unit = ⟨key, request.sellerId, request.readModel,
        q.policyAuthority, some (q.remaining request ids jobs), none⟩)
      (pending : candidate.state = .pending) : Aim sha256 q request ids jobs (.unit key candidate)

theorem target_eq (h : ForPublications request ids) :
    q.target sha256 request now jobs =
      let remaining := q.remaining request ids jobs
      let candidate := initial q.policyAuthority (sha256 request.keyText) request now
      let narrowed := sha256 (request.narrow remaining).keyText
      if remaining = [] then
        match q.activeItems request jobs with
        | job :: _ => pure (.covered job.id)
        | [] => throw (.missingField "active_items")
      else if remaining = ids then pure (.unit (sha256 request.keyText) candidate)
      else
        pure (.unit narrowed { candidate with id := narrowed, itemIds := some remaining }) := by
  rw [Queue.target, h.narrowable_eq]
  rfl

theorem aim_of_target (h : ForPublications request ids) {target : Queue.Target}
    (htarget : q.target sha256 request now jobs = .ok target) :
    Aim sha256 q request ids jobs target := by
  have hstate : (initial q.policyAuthority (sha256 request.keyText) request now).state = .pending :=
    (initial_fresh q.policyAuthority (sha256 request.keyText) request now).2.2.2.1
  rw [target_eq h] at htarget
  dsimp only at htarget
  split at htarget
  next hnone =>
    cases hitems : q.activeItems request jobs with
    | nil =>
        rw [hitems] at htarget
        cases htarget
    | cons job rest =>
        rw [hitems] at htarget
        rw [← pure_ok htarget]
        exact .covered hnone (hitems ▸ List.mem_cons_self)
  next hsome =>
    split at htarget
    next hall =>
      rw [← pure_ok htarget]
      refine .unit hsome ?_ ?_ hstate
      · rw [hall, h.narrow_self]
      · rw [hall]
        exact h.initial_unit _ _
    next =>
      rw [← pure_ok htarget]
      refine .unit hsome rfl ?_ hstate
      have hinitial : (initial q.policyAuthority (sha256 request.keyText) request now).unit = _ :=
        h.initial_unit _ _
      have hunit := JobUnit.mk.inj hinitial
      simp only [Job.unit, JobUnit.mk.injEq]
      exact ⟨trivial, hunit.2.1, hunit.2.2.1, hunit.2.2.2.1, trivial, hunit.2.2.2.2.2⟩

/-! ### What an admission does to its unit -/

/-- One job is inserted, or reopened in the place of an inactive one under its key; every
other job stays as it is. -/
structure Opens (q : Queue) (request : Request) (jobs jobs' : Jobs) (opened : Job) : Prop where
  room : Room q request jobs
  mem : opened ∈ jobs'.docs
  pending : opened.state = .pending
  others : ∀ job ∈ jobs'.docs, job ∈ jobs.docs ∨ job = opened
  kept : ∀ job ∈ jobs.docs, job.active = true → job ∈ jobs'.docs

/-- An admission of publications finds an active job under the key, inserts the candidate or
reopens an inactive job. -/
theorem admitUnit_publications (h : ForPublications request ids)
    (own : ∀ existing ∈ jobs.docs, existing.id = key →
      existing.policyAuthority = q.policyAuthority) (pending : candidate.state = .pending)
    (admitted : q.admitUnit request true now key candidate jobs = .ok jobs') :
    (jobs' = jobs ∧ ∃ existing ∈ jobs.docs, existing.id = key ∧ existing.active = true) ∨
      ∃ opened, Opens q request jobs jobs' opened ∧
        (opened = candidate ∨ ∃ existing ∈ jobs.docs, existing.id = key ∧
          opened.unit = existing.unit) := by
  rw [Queue.admitUnit.eq_def] at admitted
  split at admitted
  next existing hfind =>
    obtain ⟨hmem, hid⟩ := Collection.findOne_mem hfind
    have hid : existing.id = key := by simpa using hid
    rw [if_neg (not_not.mpr (own existing hmem hid))] at admitted
    obtain ⟨-, admitted⟩ := raiseIf_ok admitted
    split at admitted
    next hkept =>
      have hactive : existing.active = true := by
        cases h <;> simpa [Request.neverReopened] using hkept
      exact .inl ⟨(pure_ok admitted).symm, existing, hmem, hid, hactive⟩
    next hterminal =>
      have hinactive : existing.active = false := by
        simpa using fun hactive => hterminal (.inr (.inr hactive))
      obtain ⟨_, hroom, admitted⟩ := bind_ok admitted
      split at admitted
      · cases admitted
      next change hchange =>
        obtain ⟨-, admitted⟩ := raiseIf_ok admitted
        rw [← pure_ok admitted]
        have hfilter (job : Job) : Queue.reopenFilter key existing request job = true ↔
            job.id = key := by
          cases h <;> simp [Queue.reopenFilter]
        refine .inr ⟨change existing, ⟨checkCapacity_ok hroom, ?_,
          (reopens_reopenChange hchange).state existing, fun job mem => ?_, fun job mem hactive => ?_⟩,
          .inr ⟨existing, hmem, hid, reopenChange_unit hchange existing⟩⟩
        · exact Collection.mem_update.mpr ⟨existing, hmem, if_pos ((hfilter existing).mpr hid)⟩
        · obtain ⟨before, hbefore, rfl⟩ := Collection.mem_update.mp mem
          split
          next hselected =>
            obtain rfl := Collection.eq_of_key hbefore hmem (((hfilter before).mp hselected).trans
              hid.symm)
            exact .inr rfl
          next => exact .inl hbefore
        · refine Collection.mem_update.mpr ⟨job, mem, if_neg fun hselected => ?_⟩
          obtain rfl := Collection.eq_of_key mem hmem (((hfilter job).mp hselected).trans hid.symm)
          rw [hinactive] at hactive
          cases hactive
  next =>
    obtain ⟨_, hroom, admitted⟩ := bind_ok admitted
    split at admitted
    next inserted hinserted =>
      rw [← pure_ok admitted]
      refine .inr ⟨candidate, ⟨checkCapacity_ok hroom, ?_, pending, fun job mem => ?_,
        fun job mem _ => ?_⟩, .inl rfl⟩
      · exact (Collection.mem_insert hinserted).mpr (.inr rfl)
      · exact (Collection.mem_insert hinserted).mp mem
      · exact (Collection.mem_insert hinserted).mpr (.inl mem)
    · cases admitted

/-! ### Every job lies under a key of its unit -/

/-- An admission inserts its candidate or changes no unit. -/
theorem unit_of_admitUnit {reopenTerminal : Bool}
    (h : q.admitUnit request reopenTerminal now key candidate jobs = .ok jobs')
    (mem : job ∈ jobs'.docs) : (∃ before ∈ jobs.docs, job.unit = before.unit) ∨ job = candidate := by
  rw [Queue.admitUnit.eq_def] at h
  split at h
  next existing hfind =>
    split at h
    · exact .inl ⟨job, (pure_ok h) ▸ mem, rfl⟩
    obtain ⟨-, h⟩ := raiseIf_ok h
    split at h
    · exact .inl ⟨job, (pure_ok h) ▸ mem, rfl⟩
    obtain ⟨_, -, h⟩ := bind_ok h
    split at h
    · cases h
    next change hchange =>
      obtain ⟨-, h⟩ := raiseIf_ok h
      rw [← pure_ok h] at mem
      obtain ⟨before, hbefore, rfl⟩ := Collection.mem_update.mp mem
      refine .inl ⟨before, hbefore, ?_⟩
      split
      · exact reopenChange_unit hchange before
      · rfl
  next =>
    obtain ⟨_, -, h⟩ := bind_ok h
    split at h
    next inserted hinserted =>
      rw [← pure_ok h] at mem
      obtain mem | rfl := (Collection.mem_insert hinserted).mp mem
      · exact .inl ⟨job, mem, rfl⟩
      · exact .inr rfl
    · cases h

/-- The unit of an admission lies under the key of its request or of a narrower one. -/
theorem key_of_target (h : q.target sha256 request now jobs = .ok (.unit key candidate)) :
    candidate.id = key ∧ ∃ request' : Request, key = sha256 request'.keyText ∧
      (request' = request ∨ ∃ requested ∈ request.narrowable, ∃ remaining : List String,
        remaining.Sublist requested ∧ remaining ≠ [] ∧ request' = request.narrow remaining) := by
  have hid : (initial q.policyAuthority (sha256 request.keyText) request now).id = _ :=
    (initial_fresh _ _ _ _).1
  rw [Queue.target.eq_def] at h
  dsimp only at h
  split at h
  · cases pure_ok h
    exact ⟨hid, request, rfl, .inl rfl⟩
  next requested hrequested =>
    split at h
    · split at h <;> cases h
    next hsome =>
      split at h
      · cases pure_ok h
        exact ⟨hid, request, rfl, .inl rfl⟩
      · cases pure_ok h
        exact ⟨rfl, _, rfl, .inr ⟨requested, hrequested, _, List.filter_sublist, hsome, rfl⟩⟩

/-- Narrowing makes no request one for publications. -/
theorem ForPublications.of_narrow {remaining : List String}
    (h : ForPublications (request.narrow remaining) ids) : ∃ ids', ForPublications request ids' := by
  cases request with
  | itemIds seller model all =>
      cases h with
      | itemIds _ _ narrowed => exact ⟨all, .itemIds seller all narrowed⟩
  | catalog seller model all =>
      cases h with
      | catalog _ _ narrowed => exact ⟨all, .catalog seller all narrowed⟩
  | _ => cases h

theorem ForPublications.remaining_known (h : ForPublications request ids)
    (clean : Collisionless sha256 known) (mem : request ∈ known)
    (some_left : q.remaining request ids jobs ≠ []) :
    request.narrow (q.remaining request ids jobs) ∈ known :=
  clean.narrowed request mem ids h.narrowable_eq _ List.filter_sublist some_left

theorem keyed_candidate (clean : Collisionless sha256 known) (mem : request ∈ known)
    (htarget : q.target sha256 request now jobs = .ok (.unit key candidate)) :
    KeyedJob sha256 known candidate := by
  by_cases hfor : ∃ ids, ForPublications request ids
  · obtain ⟨ids, hfor⟩ := hfor
    cases aim_of_target hfor htarget with
    | unit some_left key_eq candidate_unit pending =>
        obtain ⟨hid, hseller, hmodel, -, hitems, -⟩ := JobUnit.mk.inj candidate_unit
        refine ⟨_, hfor.remaining_known clean mem some_left, hid.trans key_eq, fun ids' hfor' => ?_⟩
        obtain ⟨hnarrow, hsame⟩ := hfor.narrow (q.remaining request ids jobs)
        obtain rfl := Option.some.inj (hnarrow.narrowable_eq.symm.trans hfor'.narrowable_eq)
        rw [request.narrow_sellerId, hsame]
        exact ⟨hseller, hmodel, hitems⟩
  · obtain ⟨hid, request', rfl, hnarrower⟩ := key_of_target htarget
    refine ⟨request', ?_, hid, fun ids hids => ?_⟩
    · obtain rfl | ⟨requested, hrequested, remaining, hsublist, hne, rfl⟩ := hnarrower
      · exact mem
      · exact clean.narrowed request mem requested hrequested remaining hsublist hne
    · obtain rfl | ⟨_, -, _, -, -, rfl⟩ := hnarrower
      · exact absurd ⟨ids, hids⟩ hfor
      · exact absurd hids.of_narrow hfor

/-- The units after an operation lie under the keys of known requests if those before do. -/
theorem keyed_step (clean : Collisionless sha256 known) {db db' : Db} {e : Event}
    (h : ∀ job ∈ db.jobs.docs, KeyedJob sha256 known job)
    (step : Requested sha256 evidence known db e db') :
    ∀ job ∈ db'.jobs.docs, KeyedJob sha256 known job := by
  obtain ⟨hknown, rfl⟩ := step
  intro job mem
  by_cases henqueue : ∃ q request reopenTerminal gate now,
      e = .enqueue q request reopenTerminal gate now
  · obtain ⟨q, request, reopenTerminal, gate, now, rfl⟩ := henqueue
    have hmem : request ∈ known := hknown request rfl
    rw [Event.perform] at mem
    obtain hsame | ⟨value, hresult, hvalue⟩ := settle_cases _ db
    · rw [hsame] at mem
      exact h job mem
    · rw [hvalue] at mem
      obtain ⟨_, -, hresult⟩ := bind_ok hresult
      obtain ⟨⟨key, jobs'⟩, hadmit, hresult⟩ := bind_ok hresult
      cases pure_ok hresult
      obtain ⟨target, htarget, hadmit⟩ := bind_ok hadmit
      cases target with
      | covered _ =>
          obtain ⟨-, rfl⟩ := Prod.mk.inj (pure_ok hadmit)
          exact h job mem
      | unit key' candidate =>
          obtain ⟨jobs'', hunit, hadmit⟩ := bind_ok hadmit
          obtain ⟨-, rfl⟩ := Prod.mk.inj (pure_ok hadmit)
          obtain ⟨before, hbefore, hsame⟩ | rfl := unit_of_admitUnit hunit mem
          · exact (h before hbefore).of_unit hsame
          · exact keyed_candidate clean hmem htarget
  · have hmoves : SameUnits db.jobs (e.perform sha256 evidence db).jobs :=
      sameUnits_perform fun q request reopenTerminal gate now heq =>
        henqueue ⟨q, request, reopenTerminal, gate, now, heq⟩
    obtain ⟨before, hbefore, hsame⟩ := hmoves.source mem
    exact (h before hbefore).of_unit hsame

/-- Along every run, every job lies under the key of a known request. -/
theorem keyed_run (clean : Collisionless sha256 known) {db db' : Db} {es : List Event}
    (start : db.jobs = .empty) (run : Run (Requested sha256 evidence known) db es db') :
    ∀ job ∈ db'.jobs.docs, KeyedJob sha256 known job := by
  have hstart : ∀ job ∈ db.jobs.docs, KeyedJob sha256 known job := by
    rw [start]
    intro job mem
    cases mem
  exact run.state_invariant (P := fun db => ∀ job ∈ db.jobs.docs, KeyedJob sha256 known job)
    hstart (keyed_step clean)

/-! ### Coverage -/

/-- What an admission of publications comes to, with the jobs before and after it. -/
structure Coalesced (request : Request) (ids : List String) (jobs : Jobs) (key : String)
    (jobs' : Jobs) : Prop where
  covered : ∀ identity ∈ ids, ∃ job ∈ jobs'.docs, job.activeOf request.sellerId = true ∧
    job.readModel = request.readModel ∧ identity ∈ job.itemIds.getD []
  named : ∃ job ∈ jobs'.docs, job.id = key ∧ job.active = true
  one : ∀ job ∈ jobs'.docs, ∀ job' ∈ jobs'.docs, job ∉ jobs.docs → job' ∉ jobs.docs → job = job'
  fresh : ∀ job ∈ jobs'.docs, job ∉ jobs.docs → ∀ identity ∈ job.itemIds.getD [],
    ∀ before ∈ jobs.docs, before.activeOf request.sellerId = true →
      before.readModel = request.readModel → identity ∉ before.itemIds.getD []

theorem active_of_activeOf {seller : String} (h : job.activeOf seller = true) : job.active = true := by
  simp only [Job.activeOf, Bool.and_eq_true] at h
  exact h.2

theorem activeOf_of_active {seller : String} (active : job.active = true)
    (hseller : job.sellerId = seller) : job.activeOf seller = true := by
  simp [Job.activeOf, active, hseller]

/-- An active job that acquires a publication which is left out. -/
theorem exists_of_covered {identity : String}
    (h : ∃ job ∈ q.activeItems request jobs, identity ∈ job.itemIds.getD []) :
    ∃ job ∈ jobs.docs, job.activeOf request.sellerId = true ∧ job.readModel = request.readModel ∧
      identity ∈ job.itemIds.getD [] := by
  obtain ⟨job, hjob, hidentity⟩ := h
  obtain ⟨hmem, hactive, hmodel⟩ := activeItems_mem hjob
  exact ⟨job, hmem, hactive, hmodel, hidentity⟩

theorem coalesced_of_unchanged {job : Job}
    (covered : ∀ identity ∈ ids, ∃ job ∈ jobs.docs, job.activeOf request.sellerId = true ∧
      job.readModel = request.readModel ∧ identity ∈ job.itemIds.getD [])
    (mem : job ∈ jobs.docs) (hid : job.id = key) (active : job.active = true) :
    Coalesced request ids jobs key jobs :=
  ⟨covered, ⟨job, mem, hid, active⟩, fun _ h _ _ hnew => absurd h hnew, fun _ h hnew => absurd h hnew⟩

/-- A job opened for all publications that are not left out. -/
theorem Opens.coalesced {opened : Job} (opens : Opens q request jobs jobs' opened)
    (seller : opened.sellerId = request.sellerId) (model : opened.readModel = request.readModel)
    (items : opened.itemIds = some (q.remaining request ids jobs)) :
    Coalesced request ids jobs opened.id jobs' := by
  have hactive : opened.active = true := by simp [Job.active, opens.pending]
  have hnew {job : Job} (mem : job ∈ jobs'.docs) (new : job ∉ jobs.docs) : job = opened :=
    (opens.others job mem).resolve_left new
  refine ⟨fun identity hidentity => ?_, ⟨opened, opens.mem, rfl, hactive⟩,
    fun job mem job' mem' new new' => (hnew mem new).trans (hnew mem' new').symm,
    fun job mem new identity hidentity before hbefore hactiveOf hmodel hacquired => ?_⟩
  · obtain hcovered | hremaining := covered_or_remaining hidentity
    · obtain ⟨job, mem, hactiveOf, hmodel, hacquired⟩ := exists_of_covered hcovered
      exact ⟨job, opens.kept job mem (active_of_activeOf hactiveOf), hactiveOf, hmodel, hacquired⟩
    · exact ⟨opened, opens.mem, activeOf_of_active hactive seller, model, by rwa [items]⟩
  · obtain rfl := hnew mem new
    rw [items] at hidentity
    exact not_remaining_of_active opens.room hbefore hactiveOf hmodel hacquired hidentity

/-- All accepted requests are collisionless under a digest without collisions. -/
theorem collisionless_of_injective (injective : Function.Injective sha256) :
    Collisionless sha256 {request | request.accepted = true} where
  accepted _ mem := mem
  narrowed request mem ids hids remaining hsublist hne := by
    have hempty : remaining.isEmpty = false := by simpa using hne
    have hall (hids : ids.all isPublicationId = true) : remaining.all isPublicationId = true :=
      List.all_eq_true.mpr fun identity hidentity =>
        List.all_eq_true.mp hids identity (hsublist.subset hidentity)
    have mem : request.accepted = true := mem
    show (request.narrow remaining).accepted = true
    cases request with
    | itemIds seller model all =>
        obtain rfl : all = ids := by cases model <;> cases hids <;> rfl
        simp only [Request.accepted, Bool.and_eq_true] at mem
        simp [Request.narrow, Request.accepted, mem.1.1, hempty, hall mem.2]
    | catalog seller model all =>
        obtain rfl : all = ids := by cases model <;> cases hids <;> rfl
        simp only [Request.accepted, Bool.and_eq_true] at mem
        simp [Request.narrow, Request.accepted, mem.1.1, hempty, hall mem.2]
    | renewal seller model all slot =>
        obtain rfl : all = ids := by cases model <;> cases hids <;> rfl
        simp only [Request.accepted, Bool.and_eq_true] at mem
        simp [Request.narrow, Request.accepted, mem.1.1, hempty, hall mem.2]
    | _ => exact mem
  injective _ _ _ _ h := injective h

/-! ### A request for one publication more -/

def rowsQueue : Queue where
  maxActiveJobsPerSeller := 2
  reservedInventorySlots := 0
  enabledModels := [.itemFormulaRows]
  allowedSellers := none
  policyAuthority := none
  yearHistoryEnabled := true
  positive := by decide
  reserved := by decide

def firstItem : Request := .itemIds "123" .itemFormulaRows ["MLC1"]

def secondItem : Request := .itemIds "123" .itemFormulaRows ["MLC2"]

def bothItems : Request := .itemIds "123" .itemFormulaRows ["MLC1", "MLC2"]

def firstItemKey : String := "3b939381a0f0e92d6ad79200176fd849c6fbca2b3ad21f64167dad427de269a0"

def secondItemKey : String := "5dc69ba9c9f33a087f71a4fa4d498288d99b173cf943cc1a4ae549c80787a8c3"

/-- SHA-256 on the texts of the two keys, some injection elsewhere. -/
def itemsSha256 : Equiv.Perm String :=
  (Equiv.swap firstItem.keyText firstItemKey).trans (Equiv.swap secondItem.keyText secondItemKey)

/-- The database with a job for the first item. -/
def firstItemDb : Db :=
  (Event.enqueue rowsQueue firstItem true none 1000).perform itemsSha256 sampleEvidence emptyState.db

end ZelerPlatform.Recovery
