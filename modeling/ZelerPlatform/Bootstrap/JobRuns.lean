import ZelerPlatform.Bootstrap.Jobs

/-!
# Runs of bootstrap jobs

Whatever runners, dispatchers and links of other sellers do in between, the stages of a job are
done in their order, each after its work was done to the end; a job that has succeeded has all its
stages done, and its completion was published unless that was skipped; and its attempts stay
within their bound, except for one more each time a dispatcher puts it back.
-/

namespace ZelerPlatform.Bootstrap

open Mongo Transition

/-! ### What holds of a job -/

/-- What holds of the stored job: `bound` is for the attempts of its runners. -/
structure Fine (stages : List String) (bound : Int) (id : String) (s : World) (job : Job) :
    Prop where
  order : ∀ before stage after, stages = before ++ stage :: after → job.isDone stage = true →
    ∀ earlier ∈ before, job.isDone earlier = true
  finished : ∀ stage, job.isDone stage = true → (id, stage) ∈ s.finished
  told : id ∈ s.completions ∨ id ∈ s.skips → ∀ stage ∈ stages, job.isDone stage = true
  succeeded : job.state = .succeeded → id ∈ s.completions ∨ id ∈ s.skips
  attempts : job.attemptCount ≤ bound + s.rollbacks.count id
  pending : job.state = .pending → job.attemptCount < bound + s.rollbacks.count id
  dispatched : 0 ≤ job.dispatchAttempts ∧ job.dispatchAttempts ≤ job.attemptCount
  reached : job.state ≠ .paused ∧ job.state ≠ .cancelled

/-- The job is there, and this holds of it. -/
def Sound (stages : List String) (bound : Int) (id : String) (s : World) : Prop :=
  ∃ job, s.jobs.byKey id = some job ∧ Fine stages bound id s job

/-- The stored job has this stage done. -/
def DoneAt (id stage : String) (s : World) : Prop :=
  ∃ job, s.jobs.byKey id = some job ∧ job.isDone stage = true

/-- The completion has been published, or that was skipped. -/
def Told (id : String) (s : World) : Prop := id ∈ s.completions ∨ id ∈ s.skips

/-- What one operation does to the stored job. -/
structure Moved (stages : List String) (id : String) (s : World) (job job' : Job) : Prop where
  state : job'.state = job.state ∨ job'.state ∈ allowedTransitions job.state ∨
    (job.state = .running ∧ job'.state = .pending) ∨ job'.state = .failed
  attempts : job'.attemptCount = job.attemptCount +
    if job'.state = .running ∧ job.state ≠ .running then 1 else 0
  kept : ∀ stage, job.isDone stage = true → job'.isDone stage = true
  done : ∀ stage, job'.isDone stage = true → job.isDone stage = true ∨
    job.state = .running ∧ (id, stage) ∈ s.finished ∧
      ∃ before after, stages = before ++ stage :: after ∧
        ∀ earlier ∈ before, job.isDone earlier = true

/-- What only grows. -/
structure Grows (id : String) (s t : World) : Prop where
  done : ∀ stage, DoneAt id stage s → DoneAt id stage t
  finished : s.finished ⊆ t.finished
  completions : s.completions ⊆ t.completions
  skips : s.skips ⊆ t.skips

section

variable {stages : List String} {bound : Int} {id : String} {s t u : World} {job new : Job}

theorem Grows.refl (s : World) : Grows id s s :=
  ⟨fun _ h => h, List.Subset.refl _, List.Subset.refl _, List.Subset.refl _⟩

theorem Grows.trans (h : Grows id s t) (h' : Grows id t u) : Grows id s u :=
  ⟨fun stage hdone => h'.done stage (h.done stage hdone),
    List.Subset.trans h.finished h'.finished, List.Subset.trans h.completions h'.completions,
    List.Subset.trans h.skips h'.skips⟩

theorem Moved.refl (job : Job) : Moved stages id s job job :=
  ⟨.inl rfl, by simp, fun _ h => h, fun _ h => .inl h⟩

/-- A change that leaves the stages alone. -/
theorem Moved.of_dag (state : new.state = job.state ∨ new.state ∈ allowedTransitions job.state ∨
    (job.state = .running ∧ new.state = .pending) ∨ new.state = .failed)
    (attempts : new.attemptCount = job.attemptCount +
      if new.state = .running ∧ job.state ≠ .running then 1 else 0)
    (dag : new.dag = job.dag) : Moved stages id s job new := by
  have hsame (stage : String) : new.isDone stage = job.isDone stage := by
    unfold Job.isDone
    rw [dag]
  refine ⟨state, attempts, fun stage hdone => ?_, fun stage hdone => .inl ?_⟩
  · rw [hsame, hdone]
  · rw [← hsame, hdone]

/-- The same for what holds of the job. -/
theorem Fine.of_dag (h : Fine stages bound id s job) (dag : new.dag = job.dag)
    (succeeded : new.state = .succeeded → Told id s)
    (attempts : new.attemptCount ≤ bound + s.rollbacks.count id)
    (pending : new.state = .pending → new.attemptCount < bound + s.rollbacks.count id)
    (dispatched : 0 ≤ new.dispatchAttempts ∧ new.dispatchAttempts ≤ new.attemptCount)
    (reached : new.state ≠ .paused ∧ new.state ≠ .cancelled) : Fine stages bound id s new := by
  have hsame (stage : String) : new.isDone stage = job.isDone stage := by
    unfold Job.isDone
    rw [dag]
  refine ⟨?_, ?_, ?_, succeeded, attempts, pending, dispatched, reached⟩
  · simpa only [hsame] using h.order
  · simpa only [hsame] using h.finished
  · simpa only [hsame] using h.told

/-- What is noted besides may grow. -/
theorem Fine.grow (h : Fine stages bound id s job) (finished : s.finished ⊆ t.finished)
    (told : Told id t → ∀ stage ∈ stages, job.isDone stage = true) (kept : Told id s → Told id t)
    (rollbacks : s.rollbacks.count id ≤ t.rollbacks.count id) : Fine stages bound id t job := by
  refine ⟨h.order, fun stage hdone => finished (h.finished stage hdone), told,
    fun hstate => kept (h.succeeded hstate), ?_, fun hstate => ?_, h.dispatched, h.reached⟩
  · have := h.attempts
    omega
  · have := h.pending hstate
    omega

end

/-! ### What the others keep, and what an operation guarantees -/

def frame (stages : List String) (bound : Int) (id : String) : Frame Label World where
  rely s t := (Sound stages bound id s → Sound stages bound id t) ∧ Grows id s t
  guar s t := ((Sound stages bound id s → Sound stages bound id t) ∧ Grows id s t) ∧
    ∀ job, s.jobs.byKey id = some job →
      ∃ job', t.jobs.byKey id = some job' ∧ Moved stages id s job job'
  allowed _ _ := True
  refl s := ⟨fun h => h, .refl s⟩
  trans h h' := ⟨fun hs => h'.1 (h.1 hs), h.2.trans h'.2⟩

section

variable {stages : List String} {bound : Int} {id jobId : String} {s t : World} {job new : Job}
variable {A B : Type} {P : World → Prop} {Q : A → World → Prop}

/-- A job is written, or none, and notes are made. -/
theorem guar_of_write (finished : s.finished ⊆ t.finished)
    (completions : s.completions ⊆ t.completions) (skips : s.skips ⊆ t.skips)
    (h : ∀ job, s.jobs.byKey id = some job → ∃ new, t.jobs.byKey id = some new ∧
      (Fine stages bound id s job → Fine stages bound id t new) ∧ Moved stages id s job new) :
    (frame stages bound id).guar s t := by
  refine ⟨⟨fun ⟨job, hjob, hfine⟩ => ?_, ⟨fun stage ⟨job, hjob, hdone⟩ => ?_, finished,
    completions, skips⟩⟩, fun job hjob => ?_⟩
  · obtain ⟨new, hnew, hkeeps, -⟩ := h job hjob
    exact ⟨new, hnew, hkeeps hfine⟩
  · obtain ⟨new, hnew, -, hmoved⟩ := h job hjob
    exact ⟨new, hnew, hmoved.kept stage hdone⟩
  · obtain ⟨new, hnew, -, hmoved⟩ := h job hjob
    exact ⟨new, hnew, hmoved⟩

/-- Nothing that concerns the job. -/
theorem guar_of_same (jobs : t.jobs.byKey id = s.jobs.byKey id) (finished : s.finished ⊆ t.finished)
    (completions : t.completions = s.completions) (skips : t.skips = s.skips)
    (rollbacks : t.rollbacks = s.rollbacks) : (frame stages bound id).guar s t := by
  refine guar_of_write finished (by rw [completions]; exact List.Subset.refl _)
    (by rw [skips]; exact List.Subset.refl _) fun job hjob =>
      ⟨job, jobs.trans hjob, fun hfine => ?_, .refl job⟩
  have htold : Told id t ↔ Told id s := by
    unfold Told
    rw [completions, skips]
  exact hfine.grow finished (fun h => hfine.told (htold.mp h)) htold.mpr (by rw [rollbacks])

/-- The count of the operations plays no part. -/
theorem guar_of_taken {n : Nat} (h : (frame stages bound id).guar { s with taken := n } t) :
    (frame stages bound id).guar s t := by
  have hsame : (frame stages bound id).guar s { s with taken := n } :=
    guar_of_same rfl (List.Subset.refl _) rfl rfl rfl
  obtain ⟨⟨hsound, hgrows⟩, hmoved⟩ := h
  refine ⟨⟨fun hs => hsound (hsame.1.1 hs), hsame.1.2.trans hgrows⟩, fun job hjob => ?_⟩
  obtain ⟨job', hjob', h⟩ := hmoved job hjob
  exact ⟨job', hjob', h.state, h.attempts, h.kept, h.done⟩

theorem sound_stable : (frame stages bound id).Stable (Sound stages bound id) :=
  fun _ _ h => h.1

theorem doneAt_stable (stage : String) : (frame stages bound id).Stable (DoneAt id stage) :=
  fun _ _ h => h.2.done stage

theorem told_stable : (frame stages bound id).Stable (Told jobId) :=
  fun _ _ h => Or.imp (h.2.completions ·) (h.2.skips ·)

/-- The work of this stage was done to the end. -/
def Worked (jobId stage : String) (s : World) : Prop := (jobId, stage) ∈ s.finished

theorem worked_stable (stage : String) : (frame stages bound id).Stable (Worked jobId stage) :=
  fun _ _ h hworked => h.2.finished hworked

/-- The job is sound, and if it is this one, these stages are done. -/
def Ready (stages : List String) (bound : Int) (id jobId : String) (some : List String)
    (s : World) : Prop :=
  Sound stages bound id s ∧ (jobId = id → ∀ stage ∈ some, DoneAt id stage s)

theorem ready_stable (some : List String) :
    (frame stages bound id).Stable (Ready stages bound id jobId some) :=
  fun _ _ h ⟨hsound, hdone⟩ =>
    ⟨h.1 hsound, fun hid stage hmem => h.2.done stage (hdone hid stage hmem)⟩

/-- An assertion that the others keep and under which the job is sound. -/
structure Holds (stages : List String) (bound : Int) (id : String) (P : World → Prop) : Prop where
  stable : (frame stages bound id).Stable P
  sound : ∀ s, P s → Sound stages bound id s

theorem holds_sound : Holds stages bound id (Sound stages bound id) := ⟨sound_stable, fun _ h => h⟩

theorem holds_ready (some : List String) :
    Holds stages bound id (Ready stages bound id jobId some) :=
  ⟨ready_stable some, fun _ h => h.1⟩

theorem Holds.and (h : Holds stages bound id P) {R : World → Prop}
    (hR : (frame stages bound id).Stable R) : Holds stages bound id fun s => P s ∧ R s :=
  ⟨h.stable.and hR, fun s hs => h.sound s hs.1⟩

/-! ### Operations -/

/-- The others keep the job sound. -/
def soundly (stages : List String) (bound : Int) (id : String) : (frame stages bound id).Kept :=
  ⟨Sound stages bound id, sound_stable⟩

/-- A call that ends in `Q`, or raises; the job is sound in both cases. -/
def Spec (stages : List String) (bound : Int) (id : String) (P : World → Prop) (p : Call A)
    (Q : A → World → Prop) : Prop :=
  (frame stages bound id).Triple P p (fun a s => Sound stages bound id s ∧ Q a s)
    fun _ => Sound stages bound id

theorem Spec.atomically {label : Label} {f : Turn → World → Except Raised A × World}
    (hP : Holds stages bound id P) (hQ : ∀ a, (frame stages bound id).Stable (Q a))
    (h : ∀ turn s, P s → (frame stages bound id).guar s (f turn s).2 ∧
      ∀ a, (f turn s).1 = .ok a → Q a (f turn s).2) :
    Spec stages bound id P (Bootstrap.atomically label f) Q := by
  refine Frame.Triple.op hP.stable (fun a => sound_stable.and (hQ a)) (fun _ => sound_stable)
    fun s hs _ => ?_
  have hsame : (frame stages bound id).guar s { s with taken := s.taken + 1 } :=
    guar_of_same rfl (List.Subset.refl _) rfl rfl rfl
  have hs' := hP.stable _ _ hsame.1 hs
  obtain ⟨hguar, hpost⟩ := h (s.turns s.taken) _ hs'
  have hsound := hguar.1.1 (hP.sound _ hs')
  dsimp only
  split
  · refine ⟨guar_of_taken hguar, ?_⟩
    split
    · next a ha => exact ⟨hsound, hpost a ha⟩
    · exact hsound
  · exact ⟨hsame, hP.sound _ hs'⟩
  · exact ⟨guar_of_taken hguar, hsound⟩

theorem Spec.noting {f : World → World} (hP : Holds stages bound id P) {Q : Unit → World → Prop}
    (hQ : ∀ a, (frame stages bound id).Stable (Q a))
    (h : ∀ s, P s → (frame stages bound id).guar s (f s) ∧ Q () (f s)) :
    Spec stages bound id P (Bootstrap.noting f) Q := by
  refine Frame.Triple.op hP.stable (fun a => sound_stable.and (hQ a)) (fun _ => sound_stable)
    fun s hs _ => ?_
  obtain ⟨hguar, hpost⟩ := h s hs
  exact ⟨hguar, hguar.1.1 (hP.sound s hs), hpost⟩

theorem Spec.pure {a : A} (hP : Holds stages bound id P)
    (hQ : (frame stages bound id).Stable (Q a)) (h : ∀ s, P s → Q a s) :
    Spec stages bound id P (pure a : Call A) Q :=
  Frame.Kept.Spec.pure (I := soundly stages bound id) ⟨hP.stable, hP.sound⟩ hQ h

theorem Spec.throw {e : Raised} (hP : Holds stages bound id P) :
    Spec stages bound id P (throw e : Call A) Q :=
  Frame.Kept.Spec.raise (I := soundly stages bound id) ⟨hP.stable, hP.sound⟩

theorem Spec.bind {p : Call A} {k : A → Call B} {R : B → World → Prop}
    (first : Spec stages bound id P p Q)
    (next : ∀ a, Spec stages bound id (fun s => Sound stages bound id s ∧ Q a s) (k a) R) :
    Spec stages bound id P (p >>= k) R :=
  Frame.Kept.Spec.bind (I := soundly stages bound id) first next

theorem Spec.pre {p : Call A} {P' : World → Prop} (h : Spec stages bound id P p Q)
    (hpre : ∀ s, P' s → P s) : Spec stages bound id P' p Q := Frame.Triple.pre h hpre

theorem Spec.post {p : Call A} {Q' : A → World → Prop} (h : Spec stages bound id P p Q)
    (hpost : ∀ a s, Sound stages bound id s → Q a s → Q' a s) : Spec stages bound id P p Q' :=
  Frame.Kept.Spec.post (I := soundly stages bound id) h hpost

theorem Spec.with_fact {p : Call A} {c : Prop} (fact : ∀ s, P s → c)
    (h : c → Spec stages bound id P p Q) : Spec stages bound id P p Q :=
  Frame.Triple.with_fact fact h

/-- A guarded block and what follows each of its outcomes. -/
theorem Spec.attempt {p : Call A} {k : Except Raised A → Call B} {R : World → Prop}
    {T : B → World → Prop} (first : Spec stages bound id P p Q)
    (hQ : ∀ a, (frame stages bound id).Stable (Q a)) (hR : (frame stages bound id).Stable R)
    (returned : ∀ a, Spec stages bound id (fun s => Sound stages bound id s ∧ Q a s ∧ R s)
      (k (.ok a)) T)
    (raised : ∀ e, Spec stages bound id (fun s => Sound stages bound id s ∧ R s) (k (.error e)) T) :
    Spec stages bound id (fun s => P s ∧ R s) (Bootstrap.attempt p >>= k) T :=
  Frame.Kept.Spec.attempt (I := soundly stages bound id) first hQ hR (fun s t h => hR s t h.1)
    returned raised

theorem Spec.required {found : Option A} {e : Raised} (hP : Holds stages bound id P)
    (hQ : ∀ a, (frame stages bound id).Stable (Q a)) (h : ∀ a s, found = some a → P s → Q a s) :
    Spec stages bound id P (Bootstrap.required found e) Q := by
  cases found with
  | some a => exact .pure hP (hQ a) fun s hs => h a s rfl hs
  | none => exact .throw hP

/-- A read leaves everything as it is. -/
theorem Spec.findOne {filter : Job → Bool} {R : Option Job → World → Prop}
    (hP : Holds stages bound id P) (hR : ∀ found, (frame stages bound id).Stable (R found))
    (h : ∀ s, P s → R (s.jobs.findOne filter) s) :
    Spec stages bound id P (Bootstrap.findOne filter) fun found s => P s ∧ R found s := by
  refine .atomically hP (fun found => hP.stable.and (hR found)) fun turn s hs => ⟨?_, ?_⟩
  · exact guar_of_same rfl (List.Subset.refl _) rfl rfl rfl
  · intro found hfound
    obtain rfl := Except.ok.inj hfound
    exact ⟨hs, h s hs⟩

/-- One job is changed in its place. -/
theorem guar_of_replace (found : s.jobs.byKey job.id = some job) (keeps : new.id = job.id)
    (own : job.id = id →
      (Fine stages bound id s job → Fine stages bound id s new) ∧ Moved stages id s job new) :
    (frame stages bound id).guar s { s with jobs := s.jobs.replace new } := by
  by_cases hid : job.id = id
  · obtain ⟨hfine, hmoved⟩ := own hid
    refine guar_of_write (List.Subset.refl _) (List.Subset.refl _) (List.Subset.refl _)
      fun stored hstored => ⟨new, ?_, ?_, ?_⟩
    · show (s.jobs.replace new).byKey id = some new
      rw [Collection.byKey_replace, if_pos (by rw [keeps, hid]), hstored, Option.map_some]
    · obtain rfl : job = stored := by simpa [hid, hstored] using found.symm
      intro hold
      exact (hfine hold).grow (List.Subset.refl _) (hfine hold).told (fun h => h) (Nat.le_refl _)
    · obtain rfl : job = stored := by simpa [hid, hstored] using found.symm
      exact hmoved
  · refine guar_of_same ?_ (List.Subset.refl _) rfl rfl rfl
    show (s.jobs.replace new).byKey id = _
    rw [Collection.byKey_replace, if_neg]
    rw [keeps]
    exact Ne.symm hid

theorem byKey_id (h : s.jobs.byKey id = some job) : job.id = id := (Collection.byKey_some.mp h).2

theorem byKey_of_findOne {filter : Job → Bool} (h : s.jobs.findOne filter = some job) :
    s.jobs.byKey job.id = some job ∧ filter job = true := by
  obtain ⟨hmem, hfilter⟩ := Collection.findOne_mem h
  exact ⟨Collection.byKey_some.mpr ⟨hmem, rfl⟩, hfilter⟩

theorem Spec.findOneAndUpdate {filter : Job → Bool} {change : Int → Job → Job}
    {R : Job → World → Prop} (hP : Holds stages bound id P)
    (hR : ∀ job, (frame stages bound id).Stable (R job))
    (keeps : ∀ now job, (change now job).id = job.id)
    (own : ∀ (s : World) job now, P s → s.jobs.byKey id = some job → filter job = true →
      (Fine stages bound id s job → Fine stages bound id s (change now job)) ∧
      Moved stages id s job (change now job))
    (wrote : ∀ (s : World) job now, s.jobs.byKey job.id = some job → filter job = true →
      R job { s with jobs := s.jobs.replace (change now job) }) :
    Spec stages bound id P (Bootstrap.findOneAndUpdate filter change)
      fun found s => P s ∧ ∀ job, found = some job → R job s := by
  refine .atomically hP (fun found => hP.stable.and fun s t hst h job hjob =>
    hR job s t hst (h job hjob)) fun turn s hs => ?_
  split
  · refine ⟨guar_of_same rfl (List.Subset.refl _) rfl rfl rfl, fun found hfound => ?_⟩
    obtain rfl : none = found := Except.ok.inj hfound
    exact ⟨hs, fun job hjob => absurd hjob.symm (Option.some_ne_none job)⟩
  · next job hfind =>
      obtain ⟨hstored, hfilter⟩ := byKey_of_findOne hfind
      have hguar := guar_of_replace hstored (keeps turn.now job) fun hid =>
        own s job turn.now hs (hid ▸ hstored) hfilter
      refine ⟨hguar, fun found hfound => ?_⟩
      obtain rfl : some job = found := Except.ok.inj hfound
      refine ⟨hP.stable _ _ hguar.1 hs, fun other hother => ?_⟩
      obtain rfl := Option.some.inj hother
      exact wrote s job turn.now hstored hfilter

/-! ### The state machine -/

/-- What a loaded job tells: what it has done is done. -/
def Loaded (id jobId : String) (job : Job) (s : World) : Prop :=
  job.id = jobId ∧ (jobId = id → ∀ stage, job.isDone stage = true → DoneAt id stage s)

theorem loaded_stable : (frame stages bound id).Stable (Loaded id jobId job) :=
  fun _ _ h ⟨hid, hdone⟩ => ⟨hid, fun heq stage hstage =>
    h.2.done stage (hdone heq stage hstage)⟩

theorem load_spec (hP : Holds stages bound id P) :
    Spec stages bound id P (load jobId) fun job s => P s ∧ Loaded id jobId job s := by
  refine (Spec.findOne (R := fun found s => ∀ job, found = some job → Loaded id jobId job s) hP
    (fun found s t hst h job hjob => loaded_stable s t hst (h job hjob)) ?_).bind fun found => ?_
  · intro s hs job hjob
    obtain ⟨hstored, hfilter⟩ := byKey_of_findOne hjob
    have hid : job.id = jobId := by simpa using hfilter
    refine ⟨hid, fun heq stage hdone => ⟨job, ?_, hdone⟩⟩
    rw [← heq, ← hid]
    exact hstored
  · refine .required ?_ (fun job => hP.stable.and loaded_stable) fun job s hfound hs =>
      ⟨hs.2.1, hs.2.2 job hfound⟩
    refine holds_sound.and (hP.stable.and ?_)
    exact fun s t hst h job hjob => loaded_stable s t hst (h job hjob)

/-- The outcome of an update that is required to have found its job. -/
theorem required_spec {found : Option Job} {e : Raised} {R : Job → World → Prop}
    (hP : Holds stages bound id P) (hR : ∀ job, (frame stages bound id).Stable (R job)) :
    Spec stages bound id
      (fun s => Sound stages bound id s ∧ P s ∧ ∀ job, found = some job → R job s)
      (required found e) fun job s => P s ∧ R job s := by
  refine .required ?_ (fun job => hP.stable.and (hR job)) fun job s hfound hs =>
    ⟨hs.2.1, hs.2.2 job hfound⟩
  exact holds_sound.and (hP.stable.and fun s t hst h job hjob => hR job s t hst (h job hjob))

variable {redact : String → String} {target : JobState} {error : Option Raised}

/-- A transition keeps what holds of a job, if it is told that it has succeeded only then. -/
theorem moved_spec {started : Option Int} {now : Int}
    (allowed : target ∈ allowedTransitions job.state)
    (htarget : target = .running ∨ target = .failed ∨ target = .succeeded ∧ Told id s) :
    (Fine stages bound id s job →
      Fine stages bound id s (job.moved redact started target error now)) ∧
    Moved stages id s job (job.moved redact started target error now) := by
  have hstate : target = .running → job.state ≠ .running := by
    rintro rfl hrunning
    rw [hrunning] at allowed
    simp [allowedTransitions] at allowed
  refine ⟨fun h => h.of_dag rfl ?_ ?_ ?_ ?_ ?_, .of_dag (.inr (.inl allowed)) ?_ rfl⟩
  · intro hsucceeded
    obtain hrun | hfail | ⟨-, htold⟩ := htarget
    · exact absurd (hrun.symm.trans hsucceeded) (by decide)
    · exact absurd (hfail.symm.trans hsucceeded) (by decide)
    · exact htold
  · show job.attemptCount + (if target = .running then 1 else 0) ≤ _
    split
    · next hrun =>
        -- A job is set running from `pending`, as none is ever paused.
        have hpending : job.state = .pending := by
          rw [hrun] at allowed
          have hpaused := h.reached.1
          revert allowed hpaused
          cases job.state <;> simp [allowedTransitions]
        have := h.pending hpending
        omega
    · have := h.attempts
      omega
  · intro hpending
    have hp : target = .pending := hpending
    rw [hp] at htarget
    simp at htarget
  · obtain ⟨hzero, hle⟩ := h.dispatched
    refine ⟨hzero, ?_⟩
    show job.dispatchAttempts ≤ job.attemptCount + if target = .running then 1 else 0
    split
    · omega
    · omega
  · obtain rfl | rfl | ⟨rfl, -⟩ := htarget
    · exact ⟨nofun, nofun⟩
    · exact ⟨nofun, nofun⟩
    · exact ⟨nofun, nofun⟩
  · show job.attemptCount + _ = job.attemptCount + _
    by_cases hrun : target = .running
    · rw [if_pos hrun, if_pos ⟨hrun, hstate hrun⟩]
    · rw [if_neg hrun, if_neg fun h => hrun h.1]

theorem transition_spec (hP : Holds stages bound id P)
    (htarget : ∀ s, P s → jobId = id →
      target = .running ∨ target = .failed ∨ target = .succeeded ∧ Told id s) :
    Spec stages bound id P (transition redact jobId target error) fun job s =>
      P s ∧ job.id = jobId := by
  refine (load_spec hP).bind fun current => ?_
  have hP' : Holds stages bound id fun s =>
      Sound stages bound id s ∧ P s ∧ Loaded id jobId current s :=
    holds_sound.and (hP.stable.and loaded_stable)
  dsimp only
  split
  · exact .throw hP'
  · next hallowed =>
      have hupdate : Spec stages bound id P (findOneAndUpdate
          (fun job => job.id = jobId ∧ job.state = current.state)
          (Job.moved redact current.startedAt target error)) fun found s =>
            P s ∧ ∀ job, found = some job → job.id = jobId := by
        refine .findOneAndUpdate hP (fun _ => .pure) (fun _ _ => rfl) ?_ ?_
        · intro s job now hs hstored hfilter
          obtain ⟨hjob, hstate⟩ : job.id = jobId ∧ job.state = current.state := by
            simpa using hfilter
          refine moved_spec ?_ (htarget s hs (hjob.symm.trans (byKey_id hstored)))
          rw [hstate]
          exact not_not.mp hallowed
        · intro s job now hstored hfilter
          simp only [Bool.decide_and, Bool.and_eq_true, decide_eq_true_eq] at hfilter
          exact hfilter.1
      exact (hupdate.pre fun s hs => hs.2.1).bind fun found => required_spec hP fun _ => .pure

/-- An update that is required to find its job. -/
theorem update_spec {filter : Job → Bool} {change : Int → Job → Job} {e : Raised}
    {R : Job → World → Prop} (hP : Holds stages bound id P)
    (hR : ∀ job, (frame stages bound id).Stable (R job))
    (keeps : ∀ now job, (change now job).id = job.id)
    (own : ∀ (s : World) job now, P s → s.jobs.byKey id = some job → filter job = true →
      (Fine stages bound id s job → Fine stages bound id s (change now job)) ∧
      Moved stages id s job (change now job))
    (wrote : ∀ (s : World) job now, s.jobs.byKey job.id = some job → filter job = true →
      R job { s with jobs := s.jobs.replace (change now job) }) :
    Spec stages bound id P (findOneAndUpdate filter change >>= fun updated => required updated e)
      fun job s => P s ∧ R job s :=
  (Spec.findOneAndUpdate hP hR keeps own wrote).bind fun _ => required_spec hP hR

theorem requeue_spec {maxAttempts : Int} (h : jobId = id → maxAttempts ≤ bound) :
    Spec stages bound id (Sound stages bound id) (requeueForRetry jobId maxAttempts)
      fun _ _ => True := by
  refine Spec.post (update_spec (R := fun _ _ => True) holds_sound (fun _ => .pure)
    (fun _ _ => rfl) ?_ fun _ _ _ _ _ => trivial) fun _ _ _ _ => trivial
  intro s job now _ hstored hfilter
  simp only [Bool.decide_and, Bool.and_eq_true, decide_eq_true_eq, List.mem_cons,
    List.not_mem_nil, or_false] at hfilter
  obtain ⟨hjob, hstate, hattempts⟩ := hfilter
  have hbound := h (hjob.symm.trans (byKey_id hstored))
  refine ⟨fun hfine => hfine.of_dag rfl nofun hfine.attempts (fun _ => ?_) hfine.dispatched
    ⟨nofun, nofun⟩, .of_dag ?_ (by simp) rfl⟩
  · show job.attemptCount < _
    omega
  · obtain hfailed | hpending := hstate
    · rw [hfailed]
      exact .inr (.inl (by simp [allowedTransitions]))
    · exact .inl hpending.symm

theorem updateCursor_spec {stage : String} {cursor : Value} :
    Spec stages bound id (Sound stages bound id) (updateCursor jobId stage cursor)
      fun _ _ => True := by
  refine Spec.post (update_spec (R := fun _ _ => True) holds_sound (fun _ => .pure)
    (fun _ _ => rfl) ?_ fun _ _ _ _ _ => trivial) fun _ _ _ _ => trivial
  intro s job now _ _ _
  exact ⟨fun hfine => hfine.of_dag rfl hfine.succeeded hfine.attempts hfine.pending
    hfine.dispatched hfine.reached, .of_dag (.inl rfl) (by simp) rfl⟩

/-- A stage has one place in an order without repetitions. -/
theorem before_eq {before before' after after' : List String} {stage : String}
    (distinct : (before ++ stage :: after).Nodup)
    (h : before ++ stage :: after = before' ++ stage :: after') : before = before' := by
  have hnot : stage ∉ before ++ after := (List.nodup_middle.mp distinct).notMem
  rw [h] at distinct
  have hnot' : stage ∉ before' ++ after' := (List.nodup_middle.mp distinct).notMem
  have hp : (before ++ stage :: after).takeWhile (· ≠ stage) =
      (before' ++ stage :: after').takeWhile (· ≠ stage) := by rw [h]
  rw [List.takeWhile_append_of_pos, List.takeWhile_append_of_pos] at hp
  · simpa using hp
  · intro a ha
    simp only [ne_eq, decide_not, Bool.not_eq_eq_eq_not, Bool.not_true, decide_eq_false_iff_not]
    rintro rfl
    exact hnot' (List.mem_append_left _ ha)
  · intro a ha
    simp only [ne_eq, decide_not, Bool.not_eq_eq_eq_not, Bool.not_true, decide_eq_false_iff_not]
    rintro rfl
    exact hnot (List.mem_append_left _ ha)

/-- The stages that are done once another one is. -/
theorem isDone_set {stage other : String} (h : new.dag = Dict.set job.dag stage "done") :
    new.isDone other = true ↔ other = stage ∨ job.isDone other = true := by
  unfold Job.isDone
  rw [h, Dict.lookup_set]
  by_cases heq : other = stage
  · simp [heq]
  · simp [heq]

theorem markStageDone_spec {before after : List String} {stage : String} (distinct : stages.Nodup)
    (place : jobId = id → stages = before ++ stage :: after) :
    Spec stages bound id
      (fun s => Ready stages bound id jobId before s ∧ Worked jobId stage s)
      (markStageDone jobId stage)
      fun _ s => Ready stages bound id jobId (before ++ [stage]) s := by
  refine Spec.post (update_spec (R := fun _ s => jobId = id → DoneAt id stage s)
    ((holds_ready before).and (worked_stable stage)) (fun _ s t hst h hid =>
      hst.2.done stage (h hid)) (fun _ _ => rfl) ?_ ?_) ?_
  · rintro s job now ⟨⟨-, hready⟩, hworked⟩ hstored hfilter
    obtain ⟨hjob, hstate⟩ : job.id = jobId ∧ job.state = .running := by simpa using hfilter
    have hid := hjob.symm.trans (byKey_id hstored)
    obtain rfl := place hid
    have hbefore : ∀ earlier ∈ before, job.isDone earlier = true := by
      intro earlier hmem
      obtain ⟨stored, hother, hdone⟩ := hready hid earlier hmem
      obtain rfl : stored = job := Option.some.inj (hother.symm.trans hstored)
      exact hdone
    have hset {other : String} : Job.isDone { job with
        dag := Dict.set job.dag stage "done"
        currentStage := some stage
        updatedAt := now } other = true ↔ other = stage ∨ job.isDone other = true := isDone_set rfl
    rw [hid] at hworked
    refine ⟨fun hfine => ⟨?_, ?_, ?_, hfine.succeeded, hfine.attempts, hfine.pending,
      hfine.dispatched, hfine.reached⟩, .inl rfl, by simp, fun other h => hset.mpr (.inr h), ?_⟩
    · intro pre other post hplace hdone earlier hmem
      refine hset.mpr (.inr ?_)
      obtain rfl | hold := hset.mp hdone
      · rw [before_eq distinct hplace] at hbefore
        exact hbefore earlier hmem
      · exact hfine.order pre other post hplace hold earlier hmem
    · intro other hdone
      obtain rfl | hold := hset.mp hdone
      · exact hworked
      · exact hfine.finished other hold
    · exact fun htold other hmem => hset.mpr (.inr (hfine.told htold other hmem))
    · intro other hdone
      obtain rfl | hold := hset.mp hdone
      · exact .inr ⟨hstate, hworked, before, after, rfl, hbefore⟩
      · exact .inl hold
  · intro s job now hstored hfilter hid
    obtain ⟨hjob, -⟩ : job.id = jobId ∧ job.state = .running := by simpa using hfilter
    refine ⟨{ job with
      dag := Dict.set job.dag stage "done"
      currentStage := some stage
      updatedAt := now }, ?_, Iff.mpr (isDone_set rfl) (.inl rfl)⟩
    show (s.jobs.replace _).byKey id = _
    rw [Collection.byKey_replace, if_pos (hid.symm.trans hjob.symm), ← hid, ← hjob, hstored,
      Option.map_some]
  · rintro job s hsound ⟨⟨⟨-, hdone⟩, -⟩, hstage⟩
    refine ⟨hsound, fun hid other hmem => ?_⟩
    obtain hbefore | hself := List.mem_append.mp hmem
    · exact hdone hid other hbefore
    · obtain rfl := List.mem_singleton.mp hself
      exact hstage hid

/-! ### The stages -/

theorem saveCursors_spec {stage : String} (cursors : List Value) :
    Spec stages bound id (Sound stages bound id) (saveCursors jobId stage cursors)
      fun _ _ => True := by
  induction cursors with
  | nil => exact .pure holds_sound .pure fun _ _ => trivial
  | cons cursor rest ih => exact updateCursor_spec.bind fun _ => ih.pre fun s hs => hs.1

theorem runStage_spec {stage : String} :
    Spec stages bound id (Sound stages bound id) (runStage jobId stage)
      fun _ => Worked jobId stage := by
  have hread : Spec stages bound id (Sound stages bound id)
      (atomically .stage fun turn s => (.ok turn.work, s)) fun _ _ => True :=
    .atomically holds_sound (fun _ => .pure) fun turn s _ =>
      ⟨guar_of_same rfl (List.Subset.refl _) rfl rfl rfl, fun _ _ => trivial⟩
  refine hread.bind fun work => ?_
  refine ((saveCursors_spec work.cursors).pre fun s hs => hs.1).bind fun _ => ?_
  refine Spec.pre ?_ fun s hs => hs.1
  split
  · exact .throw holds_sound
  · refine .noting holds_sound (fun _ => worked_stable stage) fun s _ => ⟨?_, ?_⟩
    · exact guar_of_same rfl (List.subset_append_left _ _) rfl rfl rfl
    · exact List.mem_append_right _ (List.mem_singleton_self _)

theorem recordFailure_spec {e : Raised} :
    Spec stages bound id (Sound stages bound id) (recordFailure redact jobId e : Call A) Q :=
  (transition_spec holds_sound fun _ _ _ => .inr (.inl rfl)).bind fun _ =>
    (Spec.throw holds_sound).pre fun _ hs => hs.1

theorem takeStage_spec {before after : List String} {stage : String} (distinct : stages.Nodup)
    (place : jobId = id → stages = before ++ stage :: after) :
    Spec stages bound id (Ready stages bound id jobId before) (takeStage redact jobId stage)
      fun _ => Ready stages bound id jobId (before ++ [stage]) := by
  refine (load_spec (holds_ready before)).bind fun job => ?_
  split
  · next hdone =>
      refine .pure (holds_sound.and ((ready_stable before).and loaded_stable)) (ready_stable _) ?_
      rintro s ⟨hsound, ⟨-, hready⟩, -, hloaded⟩
      refine ⟨hsound, fun hid other hmem => ?_⟩
      obtain hbefore | hself := List.mem_append.mp hmem
      · exact hready hid other hbefore
      · obtain rfl := List.mem_singleton.mp hself
        exact hloaded hid other hdone
  · have hready : (frame stages bound id).Stable (Ready stages bound id jobId before) :=
      ready_stable before
    refine Spec.pre (Spec.attempt runStage_spec (fun _ => worked_stable stage) hready
      (fun _ => ?_) fun e => ?_) fun s hs => ⟨hs.1, hs.2.1⟩
    · refine ((markStageDone_spec distinct place).pre fun s hs => ⟨hs.2.2, hs.2.1⟩).bind
        fun _ => ?_
      exact .pure (holds_sound.and (ready_stable _)) (ready_stable _) fun s hs => hs.2
    · exact recordFailure_spec.pre fun s hs => hs.1

theorem runStages_spec {before rest : List String} (distinct : stages.Nodup)
    (place : jobId = id → stages = before ++ rest) :
    Spec stages bound id (Ready stages bound id jobId before) (runStages redact jobId rest)
      fun _ => Ready stages bound id jobId (before ++ rest) := by
  induction rest generalizing before with
  | nil =>
      rw [List.append_nil]
      exact .pure (holds_ready before) (ready_stable before) fun s hs => hs
  | cons stage rest ih =>
      refine (takeStage_spec distinct place).bind fun _ => ?_
      have hrest : Spec stages bound id (Ready stages bound id jobId (before ++ [stage]))
          (runStages redact jobId rest)
          fun _ => Ready stages bound id jobId (before ++ [stage] ++ rest) :=
        ih fun hid => by simp [place hid]
      rw [List.append_assoc, List.singleton_append] at hrest
      exact hrest.pre fun s hs => hs.2

/-! ### The publication -/

/-- Something is told of a job, all of whose stages are done if it is this one. -/
theorem guar_of_tell (jobs : t.jobs = s.jobs) (finished : t.finished = s.finished)
    (rollbacks : t.rollbacks = s.rollbacks) (completions : s.completions ⊆ t.completions)
    (skips : s.skips ⊆ t.skips) (told : Told id t → Told id s ∨ jobId = id)
    (ready : jobId = id → ∀ stage ∈ stages, DoneAt id stage s) :
    (frame stages bound id).guar s t := by
  refine guar_of_write (by rw [finished]; exact List.Subset.refl _) completions skips
    fun job hjob => ⟨job, by rw [jobs, hjob], fun hfine => ?_, .refl job⟩
  refine hfine.grow (by rw [finished]; exact List.Subset.refl _) (fun htold => ?_)
    (Or.imp (completions ·) (skips ·)) (by rw [rollbacks])
  obtain hbefore | hid := told htold
  · exact hfine.told hbefore
  · intro stage hmem
    obtain ⟨stored, hstored, hdone⟩ := ready hid stage hmem
    obtain rfl : stored = job := Option.some.inj (hstored.symm.trans hjob)
    exact hdone

theorem publishAttempt_spec :
    Spec stages bound id (Ready stages bound id jobId stages) (publishAttempt jobId)
      fun _ => Told jobId := by
  refine .atomically (holds_ready stages) (fun _ => told_stable) fun turn s ⟨_, hready⟩ => ⟨?_, ?_⟩
  · refine guar_of_tell rfl rfl rfl (List.subset_append_left _ _) (List.Subset.refl _) ?_ hready
    rintro (hcompleted | hskipped)
    · obtain hbefore | hself := List.mem_append.mp hcompleted
      · exact .inl (.inl hbefore)
      · exact .inr (List.mem_singleton.mp hself).symm
    · exact .inl (.inr hskipped)
  · exact fun _ _ => .inl (List.mem_append_right _ (List.mem_singleton_self _))

theorem clock_spec (hP : Holds stages bound id P) :
    Spec stages bound id P clock fun _ => P :=
  .atomically hP (fun _ => hP.stable) fun _ _ hs =>
    ⟨guar_of_same rfl (List.Subset.refl _) rfl rfl rfl, fun _ _ => hs⟩

theorem publishAttempts_spec {startedAt : Int} {left : Nat} (some : left ≠ 0) :
    Spec stages bound id (Ready stages bound id jobId stages)
      (publishAttempts jobId startedAt left) fun _ => Told jobId := by
  induction left with
  | zero => exact absurd rfl some
  | succ left ih =>
      have hready : (frame stages bound id).Stable (Ready stages bound id jobId stages) :=
        ready_stable stages
      refine Spec.pre (Spec.attempt publishAttempt_spec (fun _ => told_stable) hready
        (fun _ => ?_) fun e => ?_) fun s hs => ⟨hs, hs⟩
      · exact .pure (holds_sound.and (told_stable.and (ready_stable stages))) told_stable
          fun s hs => hs.2.1
      · refine Spec.pre (P := Ready stages bound id jobId stages) ?_ fun s hs => hs.2
        dsimp only
        split
        · exact .throw (holds_ready stages)
        · next hmore =>
            refine (clock_spec (holds_ready stages)).bind fun now => ?_
            refine Spec.pre (P := Ready stages bound id jobId stages) ?_ fun s hs => hs.2
            split
            · exact .throw (holds_ready stages)
            · exact ih fun hzero => hmore (.inr hzero)

theorem publishBootstrapCompleted_spec {maxAttempts : Nat} (h : job.id = jobId) :
    Spec stages bound id (Ready stages bound id jobId stages)
      (publishBootstrapCompleted job maxAttempts) fun _ => Told jobId := by
  subst h
  unfold publishBootstrapCompleted
  split
  · refine .noting (holds_ready stages) (fun _ => told_stable) fun s ⟨_, hready⟩ => ⟨?_, ?_⟩
    · refine guar_of_tell rfl rfl rfl (List.Subset.refl _) (List.subset_append_left _ _) ?_ hready
      rintro (hcompleted | hskipped)
      · exact .inl (.inl hcompleted)
      · obtain hbefore | hself := List.mem_append.mp hskipped
        · exact .inl (.inr hbefore)
        · exact .inr (List.mem_singleton.mp hself).symm
    · exact .inr (List.mem_append_right _ (List.mem_singleton_self _))
  · unfold publishWithRetry
    split
    · exact .throw (holds_ready stages)
    · next hsome =>
        refine (clock_spec (holds_ready stages)).bind fun startedAt => ?_
        exact (publishAttempts_spec (by omega)).pre fun s hs => hs.2

/-! ### The runner -/

/-- A runner of this job has its stages and its bound. -/
def Own (stages : List String) (bound : Int) (id : String) (r : Runner) : Prop :=
  r.jobId = id → r.stages = stages ∧ r.maxAttempts ≤ bound

variable {r : Runner}

theorem start_spec : Spec stages bound id (Sound stages bound id) (r.start redact job)
    fun _ _ => True := by
  unfold Runner.start
  split
  · exact (transition_spec holds_sound fun _ _ _ => .inl rfl).post fun _ _ _ _ => trivial
  · exact .pure holds_sound .pure fun _ _ => trivial

theorem enter_spec (own : Own stages bound id r) :
    Spec stages bound id (Sound stages bound id) (r.enterRunningStateIfNeeded redact)
      fun _ _ => True := by
  refine (load_spec holds_sound).bind fun job => Spec.pre ?_ fun s hs => hs.1
  split
  · split
    · exact .throw holds_sound
    · exact (requeue_spec fun hid => (own hid).2).bind fun _ => start_spec.pre fun s hs => hs.1
  · exact start_spec

/-- What a completed job tells. -/
def Completed (stages : List String) (bound : Int) (id jobId : String) (s : World) : Prop :=
  Ready stages bound id jobId stages s ∧ Told jobId s

theorem holds_completed : Holds stages bound id (Completed stages bound id jobId) :=
  (holds_ready stages).and told_stable

theorem complete_spec (distinct : stages.Nodup) (own : Own stages bound id r) :
    Spec stages bound id (Sound stages bound id) (r.complete redact)
      fun job s => Completed stages bound id r.jobId s ∧ job.id = r.jobId := by
  have hstages : Spec stages bound id (Sound stages bound id)
      (runStages redact r.jobId r.stages) fun _ => Ready stages bound id r.jobId stages := by
    have hrun : Spec stages bound id (Ready stages bound id r.jobId [])
        (runStages redact r.jobId r.stages)
        fun _ => Ready stages bound id r.jobId ([] ++ r.stages) :=
      runStages_spec distinct fun hid => (own hid).1.symm
    refine (hrun.pre fun s hs => ⟨hs, fun _ _ h => (List.not_mem_nil h).elim⟩).post
      fun _ s hsound hs => ?_
    exact ⟨hsound, fun hid stage hmem => hs.2 hid stage (by simpa [(own hid).1] using hmem)⟩
  refine hstages.bind fun _ => ?_
  refine ((load_spec (holds_ready stages)).pre fun s hs => hs.2).bind fun finalJob => ?_
  refine Spec.with_fact (fun s hs => hs.2.2.1) fun hid => ?_
  have hready : (frame stages bound id).Stable (Ready stages bound id r.jobId stages) :=
    ready_stable stages
  refine Spec.pre (Spec.attempt (publishBootstrapCompleted_spec hid) (fun _ => told_stable) hready
    (fun _ => ?_) fun e => ?_) fun s hs => ⟨hs.2.1, hs.2.1⟩
  · exact (transition_spec holds_completed fun s hs hjob => .inr (.inr ⟨rfl, hjob ▸ hs.2⟩)).pre
      fun s hs => ⟨hs.2.2, hs.2.1⟩
  · dsimp only
    refine Spec.pre (P := Sound stages bound id) ?_ fun s hs => hs.1
    split
    · exact recordFailure_spec
    · exact .throw holds_sound

theorem retry_spec (own : Own stages bound id r) {e : Raised} :
    Spec stages bound id (Sound stages bound id) (r.retry e) fun _ _ => True := by
  refine (load_spec holds_sound).bind fun current => Spec.pre ?_ fun s hs => hs.1
  split
  · exact (requeue_spec fun hid => (own hid).2).bind fun _ =>
      (Spec.pure holds_sound .pure fun _ _ => trivial).pre fun s hs => hs.1
  · exact .throw holds_sound

theorem run_spec (distinct : stages.Nodup) (own : Own stages bound id r) (rounds : Nat) :
    Spec stages bound id (Sound stages bound id) (r.run redact rounds)
      fun job s => Completed stages bound id r.jobId s ∧ job.id = r.jobId := by
  induction rounds with
  | zero => exact .throw holds_sound
  | succ rounds ih =>
      refine (enter_spec own).bind fun _ => ?_
      refine Spec.pre (Spec.attempt (R := fun _ => True) (complete_spec distinct own)
        (fun _ => holds_completed.stable.and .pure) .pure (fun completed => ?_) fun e => ?_)
          fun s hs => ⟨hs.1, trivial⟩
      · exact .pure (holds_sound.and ((holds_completed.stable.and .pure).and .pure))
          (holds_completed.stable.and .pure) fun s hs => hs.2.1
      · exact ((retry_spec own).pre fun s hs => hs.1).bind fun _ => ih.pre fun s hs => hs.1

/-! ### The dispatcher and links -/

/-- The call keeps what holds of the job. -/
def Keeps (stages : List String) (bound : Int) (id : String) (p : Call A) : Prop :=
  Spec stages bound id (Sound stages bound id) p fun _ _ => True

theorem Keeps.atomically {label : Label} {f : Turn → World → Except Raised A × World}
    (h : ∀ turn s, (frame stages bound id).guar s (f turn s).2) :
    Keeps stages bound id (Bootstrap.atomically label f) :=
  Spec.atomically holds_sound (fun _ => .pure) fun turn s _ => ⟨h turn s, fun _ _ => trivial⟩

theorem Keeps.pure (a : A) : Keeps stages bound id (pure a) :=
  Spec.pure holds_sound .pure fun _ _ => trivial

theorem Keeps.throw (e : Raised) : Keeps stages bound id (throw e : Call A) :=
  Spec.throw holds_sound

theorem Keeps.bind {p : Call A} {k : A → Call B} (hp : Keeps stages bound id p)
    (hk : ∀ a, Keeps stages bound id (k a)) : Keeps stages bound id (p >>= k) :=
  Spec.bind hp fun a => (hk a).pre fun _ hs => hs.1

theorem Keeps.attempt {p : Call A} {k : Except Raised A → Call B}
    (hp : Keeps stages bound id p) (hk : ∀ r, Keeps stages bound id (k r)) :
    Keeps stages bound id (Bootstrap.attempt p >>= k) :=
  Spec.pre (Spec.attempt (R := fun _ => True) hp (fun _ => .pure) .pure
    (fun a => (hk (.ok a)).pre fun _ hs => hs.1) fun e => (hk (.error e)).pre fun _ hs => hs.1)
    fun _ hs => ⟨hs, trivial⟩

theorem Keeps.findOne (filter : Job → Bool) :
    Keeps stages bound id (Bootstrap.findOne filter) :=
  .atomically fun _ _ => guar_of_same rfl (List.Subset.refl _) rfl rfl rfl

/-- An operation on the count of the lock document. -/
theorem Keeps.counter {f : World → A} {g : World → Option Int} :
    Keeps stages bound id
      (Bootstrap.atomically .mongo fun _ s => (.ok (f s), { s with counter := g s })) :=
  .atomically fun _ _ => guar_of_same rfl (List.Subset.refl _) rfl rfl rfl

theorem keeps_acquireLock {d : Dispatcher} : Keeps stages bound id d.acquireLock := by
  refine (Keeps.counter (f := World.counter) (g := World.counter)).bind fun current => ?_
  cases current with
  | none => exact .counter
  | some count =>
      dsimp only
      split
      · exact .pure _
      · exact .counter

theorem keeps_releaseLock : Keeps stages bound id releaseLock := by
  refine (Keeps.counter (f := World.counter) (g := World.counter)).bind fun current => ?_
  split
  · exact .pure _
  · exact .counter

theorem keeps_markFailed : Keeps stages bound id (markFailed jobId) := by
  refine Keeps.bind (Spec.post (Spec.findOneAndUpdate (R := fun _ _ => True) holds_sound
    (fun _ => .pure) (fun _ _ => rfl) ?_ fun _ _ _ _ _ => trivial) fun _ _ _ _ => trivial)
      fun _ => .pure _
  intro s job now _ _ _
  exact ⟨fun h => h.of_dag rfl nofun h.attempts nofun h.dispatched ⟨nofun, nofun⟩,
    .of_dag (.inr (.inr (.inr rfl))) (by simp) rfl⟩

theorem keeps_claim {pending : Job} : Keeps stages bound id (claim pending) := by
  refine Keeps.bind (Spec.post (Spec.findOneAndUpdate (R := fun _ _ => True) holds_sound
    (fun _ => .pure) (fun _ _ => rfl) ?_ fun _ _ _ _ _ => trivial) fun _ _ _ _ => trivial)
      fun _ => .pure _
  intro s job now _ _ hfilter
  obtain ⟨-, hstate⟩ : job.id = pending.id ∧ job.state = .pending := by simpa using hfilter
  refine ⟨fun h => h.of_dag rfl nofun ?_ nofun ?_ ⟨nofun, nofun⟩, .of_dag ?_ ?_ rfl⟩
  · have := h.pending hstate
    show job.attemptCount + 1 ≤ _
    omega
  · obtain ⟨hzero, hle⟩ := h.dispatched
    show 0 ≤ job.dispatchAttempts + 1 ∧ job.dispatchAttempts + 1 ≤ job.attemptCount + 1
    omega
  · rw [hstate]
    exact .inr (.inl (by simp [allowedTransitions]))
  · rw [hstate]
    simp

theorem keeps_rollBack : Keeps stages bound id (rollBack jobId) := by
  refine .atomically fun turn s => ?_
  split
  · exact guar_of_same rfl (List.Subset.refl _) rfl rfl rfl
  · next job hfind =>
      obtain ⟨hstored, hfilter⟩ := byKey_of_findOne hfind
      obtain ⟨hjob, hstate⟩ : job.id = jobId ∧ job.state = .running := by simpa using hfilter
      refine guar_of_write (List.Subset.refl _) (List.Subset.refl _) (List.Subset.refl _)
        fun own hown => ?_
      show ∃ new, (s.jobs.replace _).byKey id = some new ∧ _
      rw [Collection.byKey_replace, hown, Option.map_some]
      split
      · next hid =>
          have hid : id = job.id := hid
          obtain rfl : job = own := by simpa [← hid, hown] using hstored.symm
          refine ⟨_, rfl, fun h => ?_, .of_dag (.inr (.inr (.inl ⟨hstate, rfl⟩))) (by simp) rfl⟩
          have hcount : (s.rollbacks ++ [jobId]).count id = s.rollbacks.count id + 1 := by
            rw [List.count_append, hid, hjob, List.count_singleton_self]
          have hattempts := h.attempts
          refine ⟨h.order, h.finished, h.told, fun hdone => (by cases hdone), ?_, fun _ => ?_,
            h.dispatched, ⟨by simp, by simp⟩⟩
          · show job.attemptCount ≤ bound + ((s.rollbacks ++ [jobId]).count id : Nat)
            omega
          · show job.attemptCount < bound + ((s.rollbacks ++ [jobId]).count id : Nat)
            omega
      · exact ⟨own, rfl, fun h => h.grow (List.Subset.refl _) h.told (fun hs => hs)
          (List.Sublist.count_le id (List.sublist_append_left _ _)), .refl own⟩

theorem keeps_launch {pending : Job} : Keeps stages bound id (launch pending) := by
  refine keeps_claim.bind fun claimed => ?_
  split
  · exact .pure _
  · exact Keeps.bind (.atomically fun _ _ => guar_of_same rfl (List.Subset.refl _) rfl rfl rfl)
      fun _ => .pure _

theorem keeps_launchOrRollBack {pending : Job} :
    Keeps stages bound id (launchOrRollBack pending) := by
  refine keeps_launch.attempt fun outcome => ?_
  cases outcome with
  | ok result => exact .pure _
  | error e => exact keeps_rollBack.bind fun _ => .throw e

theorem keeps_releasing {p : Call Dispatched} (h : Keeps stages bound id p) :
    Keeps stages bound id (releasing p) := by
  refine h.attempt fun outcome => keeps_releaseLock.bind fun _ => ?_
  cases outcome with
  | ok result => exact .pure result
  | error e => exact .throw e

theorem keeps_handleMessage {d : Dispatcher} {sellerId : Option String} :
    Keeps stages bound id (d.handleMessage sellerId) := by
  cases sellerId with
  | none => exact .pure _
  | some sellerId =>
      refine Keeps.attempt ?_ fun outcome => ?_
      · refine (Keeps.findOne _).bind fun active => ?_
        split
        · exact .pure _
        · refine (Keeps.findOne _).bind fun found => ?_
          cases found with
          | none => exact .pure _
          | some pending =>
              show Keeps stages bound id (d.dispatch pending)
              unfold Dispatcher.dispatch
              split
              · exact keeps_markFailed.bind fun _ => .pure _
              · refine keeps_acquireLock.bind fun acquired => ?_
                split
                · exact .pure _
                · exact keeps_releasing keeps_launchOrRollBack
      · cases outcome with
        | ok result => exact .pure _
        | error e => exact .pure _

theorem keeps_existingJob {sellerId : String} {force : Bool} :
    Keeps stages bound id (existingJob sellerId force) := by
  have hfound : Keeps stages bound id (eligibleJob sellerId force) := by
    unfold eligibleJob
    split
    · exact .pure _
    · exact .findOne _
  refine hfound.bind fun found => ?_
  cases found with
  | some job => exact .pure _
  | none => exact .findOne _

theorem keeps_emitAccountsLinked {sellerId : String} {force : Bool}
    (apart : oauthJobId sellerId ≠ id) :
    Keeps stages bound id (emitAccountsLinked sellerId force) := by
  have hclock : Keeps stages bound id clock :=
    (clock_spec holds_sound).post fun _ _ _ _ => trivial
  refine hclock.bind fun now => keeps_existingJob.bind fun existing => ?_
  split
  · exact .pure _
  · refine Keeps.bind (.atomically fun turn s => guar_of_same ?_ (List.Subset.refl _) rfl rfl rfl)
      fun _ => .atomically fun _ _ => guar_of_same rfl (List.Subset.refl _) rfl rfl rfl
    show (s.jobs.put _).byKey id = s.jobs.byKey id
    rw [Collection.byKey_put, if_neg]
    exact Ne.symm apart

/-! ### Runs -/

/-- What a reply tells of this job. -/
def Replied (stages : List String) (bound : Int) (id : String) (reply : Reply) (s : World) : Prop :=
  ∀ job, reply = .completed job → job.id = id → Completed stages bound id id s

theorem replied_stable {reply : Reply} :
    (frame stages bound id).Stable (Replied stages bound id reply) :=
  fun s t hst h job hreply hid => holds_completed.stable s t hst (h job hreply hid)

/-- Runners of this job are its own, and no link writes it anew. -/
def Request.Apart (stages : List String) (bound : Int) (id : String) : Request → Prop
  | run runner _ _ => Own stages bound id runner
  | accountsLinked _ _ => True
  | link sellerId _ => oauthJobId sellerId ≠ id

theorem call_spec (distinct : stages.Nodup) {request : Request}
    (apart : request.Apart stages bound id) :
    Spec stages bound id (Sound stages bound id) (request.call redact)
      (Replied stages bound id) := by
  have hnone {reply : Reply} (h : ∀ job, reply ≠ .completed job) :
      Spec stages bound id (Sound stages bound id) (pure reply : Call Reply)
        (Replied stages bound id) :=
    .pure holds_sound replied_stable fun s _ job hjob => (h job hjob).elim
  cases request with
  | run runner sellerId rounds =>
      have hjob : Spec stages bound id (Sound stages bound id)
          (runner.runBootstrapJob redact sellerId rounds)
          fun job s => Completed stages bound id runner.jobId s ∧ job.id = runner.jobId := by
        have hholds {job : Job} : Holds stages bound id fun s => Sound stages bound id s ∧
            Completed stages bound id runner.jobId s ∧ job.id = runner.jobId :=
          holds_sound.and (holds_completed.stable.and .pure)
        refine (run_spec distinct apart rounds).bind fun job => ?_
        split
        · exact .throw hholds
        · exact .pure hholds (holds_completed.stable.and .pure) fun s hs => hs.2
      refine hjob.bind fun job => ?_
      refine .pure (holds_sound.and (holds_completed.stable.and .pure)) replied_stable ?_
      rintro s ⟨-, hcompleted, hjob⟩ other hother hid
      obtain rfl : job = other := Reply.completed.inj hother
      rw [← hjob, hid] at hcompleted
      exact hcompleted
  | accountsLinked dispatcher sellerId =>
      exact Spec.bind keeps_handleMessage fun settlement =>
        (hnone fun _ h => by cases h).pre fun s hs => hs.1
  | link sellerId force =>
      exact Spec.bind (keeps_emitAccountsLinked apart) fun _ =>
        (hnone fun _ h => by cases h).pre fun s hs => hs.1

end

/-- A job as a link writes it, of which nothing has been published. -/
structure Fresh (s : World) (id : String) (job : Job) : Prop where
  stored : s.jobs.byKey id = some job
  state : job.state = .pending
  dag : job.dag = []
  attempts : job.attemptCount = 0
  dispatched : job.dispatchAttempts = 0
  untold : ¬ Told id s

theorem Fresh.sound {stages : List String} {bound : Int} {id : String} {s : World} {job : Job}
    (h : Fresh s id job) (positive : 0 < bound) : Sound stages bound id s := by
  have hnone (stage : String) : job.isDone stage ≠ true := by
    unfold Job.isDone
    rw [h.dag]
    simp
  refine ⟨job, h.stored, fun _ stage _ _ hdone => absurd hdone (hnone stage),
    fun stage hdone => absurd hdone (hnone stage), fun htold => absurd htold h.untold,
    fun hstate => ?_, ?_, fun _ => ?_, ?_, ?_⟩
  · rw [h.state] at hstate
    cases hstate
  · rw [h.attempts]
    omega
  · rw [h.attempts]
    omega
  · rw [h.attempts, h.dispatched]
    exact ⟨Int.le_refl 0, Int.le_refl 0⟩
  · rw [h.state]
    exact ⟨nofun, nofun⟩

/-- What holds of a job along a run. -/
structure Safe {ι : Type} [DecidableEq ι] (stages : List String) (bound : Int) (id : String)
    (pool : Pool ι World (Program Label World (Except Raised Reply))) : Prop where
  sound : Sound stages bound id pool.shared
  replied : ∀ i reply, pool.control i = .ret (.ok reply) → Replied stages bound id reply pool.shared
  step : ∀ e pool', Program.Step pool e pool' → ∀ job, pool.shared.jobs.byKey id = some job →
    ∃ job', pool'.shared.jobs.byKey id = some job' ∧ Moved stages id pool.shared job job'

/-- Any number of processes, in any order, with any failures. -/
theorem bootstrap_runs_safe {ι : Type} [DecidableEq ι] (redact : String → String)
    (requests : ι → Request) (stages : List String) (distinct : stages.Nodup) (bound : Int)
    (positive : 0 < bound) (id : String) (apart : ∀ i, (requests i).Apart stages bound id)
    (start : World) (job : Job) (fresh : Fresh start id job) (es : List (ι × Label))
    (pool : Pool ι World (Program Label World (Except Raised Reply)))
    (run : Run Program.Step ⟨start, fun i => ((requests i).call redact).run⟩ es pool) :
    Safe stages bound id pool := by
  let contracts (_ : ι) : Contract World (Except Raised Reply) :=
    (frame stages bound id).contract
      (fun reply s => Sound stages bound id s ∧ Replied stages bound id reply s)
      fun _ => Sound stages bound id
  have compatible (i j : ι) (_ : i ≠ j) (s t : World) (h : (contracts i).guar s t) :
      (contracts j).rely s t := h.1
  have hrun := Program.always run
  have hsound : Sound stages bound id start := fresh.sound positive
  have hstart (i : ι) : Program.Meets (contracts i) (fun _ _ => True)
      ((requests i).call redact).run start := call_spec distinct (apart i) start hsound
  refine ⟨?_, fun i reply hreturned => ?_, fun e pool' hstep => ?_⟩
  · exact Program.invariant_of_run (c := contracts) compatible hstart hsound
      (fun i s t hs h => h.1.1 hs) hrun
  · exact (Program.post_of_run (c := contracts) compatible hstart hrun hreturned).2
  · exact (Program.guar_of_step (c := contracts) compatible hstart hrun
      (Program.always_step hstep)).2

/-- A linked seller, with calls that all work and stages that save nothing. -/
def linkedWorld : World where
  jobs := ⟨[linkedJob "7" false 0 0], List.nodup_singleton _⟩
  counter := none
  completions := []
  links := ["7"]
  launches := []
  finished := []
  skips := []
  rollbacks := []
  turns _ := ⟨1, none, [], .ok ()⟩
  taken := 0

theorem linkedWorld_fresh : Fresh linkedWorld "bootstrap-7-oauth" (linkedJob "7" false 0 0) where
  stored := Collection.byKey_some.mpr ⟨List.mem_singleton_self _, rfl⟩
  state := rfl
  dag := rfl
  attempts := rfl
  dispatched := rfl
  untold := by simp [Told, linkedWorld]

/-- The dispatcher starts the job, and a runner takes it through its stages. -/
def dispatchThenRun : Bool → Request
  | false => .accountsLinked ⟨5, 3⟩ (some "7")
  | true => .run ⟨"bootstrap-7-oauth", defaultStageOrder, 3, 3⟩ "7" 4

theorem bootstrap_runs_safe_linked : ∃ es pool,
    Run Program.Step ⟨linkedWorld, fun i => ((dispatchThenRun i).call id).run⟩ es pool ∧
    pool.shared.jobs.docs.map Job.state = [.succeeded] ∧
    Safe defaultStageOrder 3 "bootstrap-7-oauth" pool := by
  have hrun : (perform Program.next (List.replicate 8 false ++ List.replicate 34 true)
      ⟨linkedWorld, fun i => ((dispatchThenRun i).call id).run⟩).any (fun result =>
        result.2.shared.jobs.docs.map Job.state = [.succeeded]) = true := by
    decide +kernel
  obtain ⟨⟨es, pool⟩, hperform, hresult⟩ := (Option.any_eq_true _ _).mp hrun
  have run : Run Program.Step ⟨linkedWorld, fun i => ((dispatchThenRun i).call id).run⟩ es pool :=
    Program.run_of_schedule hperform
  refine ⟨es, pool, run, of_decide_eq_true hresult, ?_⟩
  refine bootstrap_runs_safe id dispatchThenRun defaultStageOrder (by decide) 3 (by decide)
    "bootstrap-7-oauth" ?_ linkedWorld (linkedJob "7" false 0 0) linkedWorld_fresh es pool run
  intro i
  cases i with
  | false => trivial
  | true => exact fun _ => ⟨rfl, Int.le_refl 3⟩

end ZelerPlatform.Bootstrap
