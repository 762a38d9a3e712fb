import ZelerPlatform.Bootstrap.JobRuns

/-!
# Jobs that have failed before

A runner that finds its job failed puts it back and looks at the document that this update
returns, which is the one from before it. So it does not set the job running, and no stage can be
marked as done: on its own, such a runner always raises, and the job is no further than before.
-/

namespace ZelerPlatform.Bootstrap

open Mongo Transition

/-- The job waits, with these stages done and so many attempts made. -/
def Waits (jobId : String) (before : Job) (s : World) : Prop :=
  ∃ job, s.jobs.byKey jobId = some job ∧ job.state = .pending ∧ job.dag = before.dag ∧
    job.attemptCount = before.attemptCount

/-- The job has failed, or waits. -/
def Idle (jobId : String) (before : Job) (s : World) : Prop :=
  s.jobs.byKey jobId = some before ∨ Waits jobId before s

/-- On its own the call ends in `Q`, or raises in `E`. -/
def Solo {A : Type} (P : World → Prop) (p : Call A) (Q : A → World → Prop) (E : World → Prop) :
    Prop := (Frame.alone : Frame Label World).Triple P p Q fun _ => E

section

variable {A B : Type} {P E : World → Prop} {Q : A → World → Prop} {R : B → World → Prop}

theorem Solo.atomically {label : Label} {f : Turn → World → Except Raised A × World}
    (taken : ∀ s n, P s → P { s with taken := n }) (fails : ∀ s, P s → E s)
    (h : ∀ turn s, P s → E (f turn s).2 ∧ ∀ a, (f turn s).1 = .ok a → Q a (f turn s).2) :
    Solo P (Bootstrap.atomically label f) Q E := by
  refine Frame.Triple.op (Frame.alone_stable _) (fun _ => Frame.alone_stable _)
    (fun _ => Frame.alone_stable _) fun s hs _ => ⟨trivial, ?_⟩
  have hs' := taken s (s.taken + 1) hs
  obtain ⟨herror, hok⟩ := h (s.turns s.taken) _ hs'
  dsimp only
  split
  · next a ha =>
      revert ha
      split
      · exact fun ha => hok a ha
      · exact fun ha => nomatch ha
      · exact fun ha => nomatch ha
  · split
    · exact herror
    · exact fails _ hs'
    · exact herror

theorem Solo.pure {a : A} (h : ∀ s, P s → Q a s) : Solo P (pure a : Call A) Q E :=
  Frame.Triple.pure (Frame.alone_stable _) h

theorem Solo.throw {e : Raised} (h : ∀ s, P s → E s) : Solo P (throw e : Call A) Q E :=
  Frame.Triple.lift (x := .error e) (fun _ h => by cases h) (fun _ _ => Frame.alone_stable _)
    (fun _ _ h => by cases h) fun _ s _ hs => h s hs

theorem Solo.bind {p : Call A} {k : A → Call B} (first : Solo P p Q E)
    (next : ∀ a, Solo (Q a) (k a) R E) : Solo P (p >>= k) R E :=
  Frame.Triple.bind first next fun _ => Frame.alone_stable _

theorem Solo.pre {p : Call A} {P' : World → Prop} (h : Solo P p Q E) (hpre : ∀ s, P' s → P s) :
    Solo P' p Q E := Frame.Triple.pre h hpre

theorem Solo.raises {p : Call A} {E' : World → Prop} (h : Solo P p Q E) (hE : ∀ s, E s → E' s) :
    Solo P p Q E' := Frame.Triple.consequence h (fun _ h => h) (fun _ _ h => h) fun _ s => hE s

theorem Solo.attempt {p : Call A} {k : Except Raised A → Call B} {E' : World → Prop}
    (first : Solo P p Q E') (returned : ∀ a, Solo (Q a) (k (.ok a)) R E)
    (raised : ∀ e, Solo E' (k (.error e)) R E) : Solo P (Bootstrap.attempt p >>= k) R E := by
  refine Frame.Triple.bind (Frame.Triple.outcome first (fun _ => Frame.alone_stable _)
    fun _ => Frame.alone_stable _) (fun r => ?_) fun _ => Frame.alone_stable _
  cases r with
  | ok a => exact returned a
  | error e => exact raised e

end

section

variable {A : Type} {jobId stage : String} {before : Job} {redact : String → String}
variable {P : World → Prop}

theorem waits_taken (s : World) (n : Nat) (h : Waits jobId before s) :
    Waits jobId before { s with taken := n } := h

/-- What an update finds of a job that waits. -/
theorem find_waiting {s : World} {f : Job → Bool} (h : Waits jobId before s)
    (named : ∀ job, f job = true → job.id = jobId) :
    (∃ job, s.jobs.findOne f = some job ∧ s.jobs.byKey jobId = some job ∧
      job.state = .pending) ∨ s.jobs.findOne f = none := by
  obtain ⟨job, hjob, hstate, -⟩ := h
  cases hfind : s.jobs.findOne f with
  | none => exact .inr rfl
  | some found =>
      obtain ⟨hstored, hfilter⟩ := byKey_of_findOne hfind
      rw [named found hfilter, hjob] at hstored
      obtain rfl := Option.some.inj hstored
      exact .inl ⟨job, rfl, hjob, hstate⟩

/-- A job that is loaded while it waits. -/
theorem load_waiting : Solo (Waits jobId before) (load jobId)
    (fun job s => Waits jobId before s ∧ job.state = .pending) (Waits jobId before) := by
  refine Solo.bind (Q := fun found s => Waits jobId before s ∧
    ∀ job, found = some job → job.state = .pending) ?_ fun found => ?_
  · refine .atomically waits_taken (fun _ h => h) fun turn s hs => ⟨hs, fun found hfound => ?_⟩
    obtain rfl := Except.ok.inj hfound
    refine ⟨hs, fun job hjob => ?_⟩
    obtain ⟨other, hother, -, hstate⟩ | hnone := find_waiting hs
      (f := fun job => job.id = jobId) fun job h => by simpa using h
    · rw [hother] at hjob
      exact Option.some.inj hjob ▸ hstate
    · rw [hnone] at hjob
      cases hjob
  · cases found with
    | none => exact .throw fun s hs => hs.1
    | some job => exact .pure fun s hs => ⟨hs.1, hs.2 job rfl⟩

/-- An update that selects jobs in other states only raises. -/
theorem update_waiting {filter : Job → Bool} {change : Int → Job → Job} {e : Raised}
    {Q : Job → World → Prop} (named : ∀ job, filter job = true → job.id = jobId)
    (others : ∀ job, filter job = true → job.state ≠ .pending) :
    Solo (Waits jobId before) (findOneAndUpdate filter change >>= fun updated => required updated e)
      Q (Waits jobId before) := by
  have hnone {s : World} (h : Waits jobId before s) : s.jobs.findOne filter = none := by
    obtain ⟨job, hfind, -, hstate⟩ | hnone := find_waiting h named
    · exact absurd hstate (others job (byKey_of_findOne hfind).2)
    · exact hnone
  refine Solo.bind (Q := fun found s => Waits jobId before s ∧ found = none) ?_ fun found => ?_
  · refine .atomically waits_taken (fun _ h => h) fun turn s hs => ?_
    rw [hnone hs]
    exact ⟨hs, fun found hfound => ⟨hs, (Except.ok.inj hfound).symm⟩⟩
  · cases found with
    | none => exact .throw fun s hs => hs.1
    | some job =>
        intro s hs
        exact absurd hs.2 (Option.some_ne_none job)

/-- A job that waits neither fails nor succeeds. -/
theorem transition_waiting {target : JobState} {error : Option Raised} {Q : Job → World → Prop}
    (h : target ∉ allowedTransitions .pending) :
    Solo (Waits jobId before) (transition redact jobId target error) Q (Waits jobId before) := by
  refine load_waiting.bind fun current => ?_
  dsimp only
  split
  · exact .throw fun s hs => hs.1
  · next hallowed =>
      intro s hs
      rw [hs.2] at hallowed
      exact absurd h hallowed

theorem saveCursors_waiting (cursors : List Value) :
    Solo (Waits jobId before) (saveCursors jobId stage cursors) (fun _ => Waits jobId before)
      (Waits jobId before) := by
  cases cursors with
  | nil => exact .pure fun _ hs => hs
  | cons cursor rest =>
      refine Solo.bind (Q := fun _ _ => False) (update_waiting ?_ ?_) fun _ _ hs => hs.elim
      · intro job h
        simp only [Bool.decide_and, Bool.and_eq_true, decide_eq_true_eq] at h
        exact h.1
      · intro job h hpending
        simp [hpending] at h

theorem runStage_waiting : Solo (Waits jobId before) (runStage jobId stage)
    (fun _ => Waits jobId before) (Waits jobId before) := by
  have hread : Solo (Waits jobId before) (atomically .stage fun turn s => (.ok turn.work, s))
      (fun _ => Waits jobId before) (Waits jobId before) :=
    .atomically waits_taken (fun _ h => h) fun _ _ hs => ⟨hs, fun _ _ => hs⟩
  refine hread.bind fun work => (saveCursors_waiting work.cursors).bind fun _ => ?_
  split
  · exact .throw fun _ hs => hs
  · exact Frame.Triple.op (Frame.alone_stable _) (fun _ => Frame.alone_stable _)
      (fun _ => Frame.alone_stable _) fun _ hs _ => ⟨trivial, hs⟩

theorem takeStage_waiting : Solo (Waits jobId before) (takeStage redact jobId stage)
    (fun _ => Waits jobId before) (Waits jobId before) := by
  refine load_waiting.bind fun job => Solo.pre ?_ fun s hs => hs.1
  split
  · exact .pure fun _ hs => hs
  · refine runStage_waiting.attempt (fun _ => ?_) fun e => ?_
    · refine Solo.bind (Q := fun _ _ => False) (update_waiting ?_ ?_) fun _ _ hs => hs.elim
      · intro job h
        simp only [Bool.decide_and, Bool.and_eq_true, decide_eq_true_eq] at h
        exact h.1
      · intro job h hpending
        simp [hpending] at h
    · exact Solo.bind (Q := fun _ _ => False) (transition_waiting (by decide))
        fun _ _ hs => hs.elim

theorem runStages_waiting (stages : List String) :
    Solo (Waits jobId before) (runStages redact jobId stages) (fun _ => Waits jobId before)
      (Waits jobId before) := by
  induction stages with
  | nil => exact .pure fun _ hs => hs
  | cons stage rest ih => exact takeStage_waiting.bind fun _ => ih

theorem publishAttempts_waiting {other : String} {startedAt : Int} (left : Nat) :
    Solo (Waits jobId before) (publishAttempts other startedAt left) (fun _ => Waits jobId before)
      (Waits jobId before) := by
  induction left with
  | zero => exact .pure fun _ hs => hs
  | succ left ih =>
      have hattempt : Solo (Waits jobId before) (publishAttempt other)
          (fun _ => Waits jobId before) (Waits jobId before) :=
        .atomically waits_taken (fun _ h => h) fun _ _ hs => ⟨hs, fun _ _ => hs⟩
      refine hattempt.attempt (fun _ => .pure fun _ hs => hs) fun e => ?_
      dsimp only
      split
      · exact .throw fun _ hs => hs
      · refine Solo.bind (Q := fun _ => Waits jobId before)
          (.atomically waits_taken (fun _ h => h) fun _ _ hs => ⟨hs, fun _ _ => hs⟩) fun now => ?_
        split
        · exact .throw fun _ hs => hs
        · exact ih

theorem clock_waiting : Solo (Waits jobId before) clock (fun _ => Waits jobId before)
    (Waits jobId before) :=
  .atomically waits_taken (fun _ h => h) fun _ _ hs => ⟨hs, fun _ _ => hs⟩

theorem publish_waiting {job : Job} {maxAttempts : Nat} :
    Solo (Waits jobId before) (publishBootstrapCompleted job maxAttempts)
      (fun _ => Waits jobId before) (Waits jobId before) := by
  unfold publishBootstrapCompleted
  split
  · exact Frame.Triple.op (Frame.alone_stable _) (fun _ => Frame.alone_stable _)
      (fun _ => Frame.alone_stable _) fun _ hs _ => ⟨trivial, hs⟩
  · unfold publishWithRetry
    split
    · exact .throw fun _ hs => hs
    · exact clock_waiting.bind fun _ => publishAttempts_waiting maxAttempts

variable {r : Runner}

/-- A round cannot complete a job that waits. -/
theorem complete_waiting : Solo (Waits r.jobId before) (r.complete redact) (fun _ _ => False)
    (Waits r.jobId before) := by
  refine (runStages_waiting r.stages).bind fun _ => load_waiting.bind fun finalJob => ?_
  refine Solo.pre (publish_waiting.attempt (fun _ => transition_waiting (by decide)) fun e => ?_)
    fun s hs => hs.1
  dsimp only
  split
  · exact Solo.bind (Q := fun _ _ => False) (transition_waiting (by decide))
      fun _ _ hs => hs.elim
  · exact .throw fun _ hs => hs

theorem retry_waiting {e : Raised} : Solo (Waits r.jobId before) (r.retry e) (fun _ _ => False)
    (Waits r.jobId before) := by
  refine load_waiting.bind fun current => ?_
  split
  · next hretry =>
      intro s hs
      exact absurd (hs.2.symm.trans hretry.2.1) (by decide)
  · exact .throw fun s hs => hs.1

/-! ### A job that is found failed -/

/-- The job is put back, and the runner goes on with the document from before. -/
theorem enter_failed (failed : before.state = .failed) :
    Solo (fun s => s.jobs.byKey r.jobId = some before) (r.enterRunningStateIfNeeded redact)
      (fun _ => Waits r.jobId before) (Idle r.jobId before) := by
  have hload : Solo (fun s => s.jobs.byKey r.jobId = some before) (load r.jobId)
      (fun job s => s.jobs.byKey r.jobId = some before ∧ job = before) (Idle r.jobId before) := by
    refine Solo.bind (Q := fun found s => s.jobs.byKey r.jobId = some before ∧
      found = some before) ?_ fun found => ?_
    · exact .atomically (fun _ _ h => h) (fun _ h => .inl h) fun turn s hs => ⟨.inl hs,
        fun found hfound => ⟨hs, (Except.ok.inj hfound).symm.trans hs⟩⟩
    · cases found with
      | none => exact .throw fun s hs => .inl hs.1
      | some job => exact .pure fun s hs => ⟨hs.1, Option.some.inj hs.2⟩
  refine hload.bind fun job => ?_
  intro s hs
  obtain ⟨hs, rfl⟩ := hs
  revert s
  show Solo (fun s => s.jobs.byKey r.jobId = some job) _ _ _
  rw [if_pos failed]
  split
  · exact .throw fun s hs => .inl hs
  · have hid {s : World} (h : s.jobs.byKey r.jobId = some job) : job.id = r.jobId := byKey_id h
    refine Solo.bind (Q := fun found s => Waits r.jobId job s ∧ found = job) ?_ fun found => ?_
    · refine Solo.bind (Q := fun found s => found = some job ∧ Waits r.jobId job s ∨
        found = none ∧ s.jobs.byKey r.jobId = some job) ?_ fun found => ?_
      · refine .atomically (fun _ _ h => h) (fun _ h => .inl h) fun turn s hs => ?_
        split
        · exact ⟨.inl hs, fun found hfound => .inr ⟨(Except.ok.inj hfound).symm, hs⟩⟩
        · next found hfind =>
            obtain ⟨hstored, hfilter⟩ := byKey_of_findOne hfind
            simp only [Bool.decide_and, Bool.and_eq_true, decide_eq_true_eq] at hfilter
            rw [hfilter.1, hs] at hstored
            obtain rfl := Option.some.inj hstored
            have hwaits : Waits r.jobId job { s with
                jobs := s.jobs.replace { job with state := .pending, updatedAt := turn.now } } := by
              refine ⟨{ job with state := .pending, updatedAt := turn.now }, ?_, rfl, rfl, rfl⟩
              show (s.jobs.replace _).byKey r.jobId = _
              rw [Collection.byKey_replace, if_pos (hid hs).symm, hs, Option.map_some]
            exact ⟨.inr hwaits, fun other hother => .inl ⟨(Except.ok.inj hother).symm, hwaits⟩⟩
      · cases found with
        | none =>
            refine .throw fun s hs => ?_
            obtain ⟨hsome, -⟩ | ⟨-, hstored⟩ := hs
            · cases hsome
            · exact .inl hstored
        | some found =>
            refine .pure fun s hs => ?_
            obtain ⟨heq, hwaits⟩ | ⟨hnone, -⟩ := hs
            · exact ⟨hwaits, Option.some.inj heq⟩
            · cases hnone
    · intro s hs
      obtain ⟨hs, rfl⟩ := hs
      have hstart : r.start redact found = pure found := by
        unfold Runner.start
        rw [if_neg (by rw [failed]; decide)]
      rw [hstart]
      exact Solo.pure (P := Waits r.jobId found) (E := Idle r.jobId found) (fun _ h => h) s hs

theorem run_failed (failed : before.state = .failed) (rounds : Nat) :
    Solo (fun s => s.jobs.byKey r.jobId = some before) (r.run redact rounds) (fun _ _ => False)
      (Idle r.jobId before) := by
  cases rounds with
  | zero => exact .throw fun s hs => .inl hs
  | succ rounds =>
      refine (enter_failed failed).bind fun _ => ?_
      refine Solo.raises (complete_waiting.attempt (fun _ _ hs => hs.elim) fun e => ?_)
        fun s hs => .inr hs
      exact retry_waiting.bind fun _ _ hs => hs.elim

end

/-- A runner on its own that finds its job failed raises, whatever its calls meet with, and
leaves the job as it was or waiting, with no stage and no attempt more. -/
theorem failed_job_never_completed (redact : String → String) (r : Runner) (sellerId : String)
    (rounds : Nat) (s : World) (job : Job) (stored : s.jobs.byKey r.jobId = some job)
    (failed : job.state = .failed) :
    ∃ e t, Program.exec (r.runBootstrapJob redact sellerId rounds) s = (.error e, t) ∧
      Idle r.jobId job t := by
  have hsolo : Solo (fun s => s.jobs.byKey r.jobId = some job)
      (r.runBootstrapJob redact sellerId rounds) (fun _ _ => False) (Idle r.jobId job) :=
    (run_failed failed rounds).bind fun _ _ hs => hs.elim
  have hexec := hsolo.exec stored
  generalize Program.exec (r.runBootstrapJob redact sellerId rounds) s = outcome at hexec
  obtain ⟨e | completed, t⟩ := outcome
  · exact ⟨e, t, rfl, hexec⟩
  · exact hexec.elim

/-- The job of a seller that has failed in its first attempt. -/
def failedOnce : Job :=
  { linkedJob "7" false 0 0 with
    state := .failed
    dag := [("accounts", "done")]
    attemptCount := 1 }

theorem failed_job_never_completed_once : ∃ e t,
    Program.exec (Runner.runBootstrapJob id ⟨"bootstrap-7-oauth", defaultStageOrder, 3, 3⟩ "7" 4)
      { linkedWorld with jobs := ⟨[failedOnce], List.nodup_singleton _⟩ } = (.error e, t) ∧
      Idle "bootstrap-7-oauth" failedOnce t :=
  failed_job_never_completed id ⟨"bootstrap-7-oauth", defaultStageOrder, 3, 3⟩ "7" 4
    { linkedWorld with jobs := ⟨[failedOnce], List.nodup_singleton _⟩ } failedOnce
    (Collection.byKey_some.mpr ⟨List.mem_singleton_self _, rfl⟩) rfl

end ZelerPlatform.Bootstrap
