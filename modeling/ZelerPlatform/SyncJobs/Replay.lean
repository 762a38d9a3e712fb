import ZelerPlatform.SyncJobs.Attempts

/-!
# Uncertain appends are not replayed

An attempt owns its job from its claim until another claim or a recovery takes the job away.
While its append mark is open nobody else can claim the job: the job is running under the
fence of the attempt with the mark set, or it has ended for good. So at most one attempt of
a job has an open mark, and only that one hands events to the handler.

The invariant speaks of the facts of the past and of the fence, the state and the mark of
the stored jobs. Every operation that a call may do next keeps it, whatever the clocks say.
-/

namespace ZelerPlatform.SyncJobs

open Transition

variable {ι : Type} [DecidableEq ι]

/-! ### Attempts that have lost their job -/

/-- The fact takes the job away from the attempt. -/
def Takes (i : ι) (job : Job) : Fact ι → Prop
  | .recovered _ jobId => jobId = job.id
  | .claimed call job' => call ≠ i ∧ job'.id = job.id
  | _ => False

/-- After its claim the attempt has lost its job to a recovery or to another claim. -/
def Lost (i : ι) (job : Job) (history : List (Fact ι)) : Prop :=
  ∃ later fact earlier, history = later ++ fact :: earlier ∧ .claimed i job ∈ earlier ∧
    Takes i job fact

/-- The attempt has set its append mark and not released the job. -/
def Open (i : ι) (job : Job) (history : List (Fact ι)) : Prop :=
  Marked i job history ∧ ¬ Released i job history

variable {i j : ι} {job job' stored : Job} {fact : Fact ι} {w : Write}
variable {history later earlier : List (Fact ι)} {s t : Store ι}
variable {settings : Settings} {r : Surroundings} {surroundings : ι → Surroundings}

omit [DecidableEq ι] in
theorem lost_cons :
    Lost i job (fact :: history) ↔
      (.claimed i job ∈ history ∧ Takes i job fact) ∨ Lost i job history := by
  constructor
  · rintro ⟨later, fact', earlier, heq, hclaimed, htakes⟩
    cases later with
    | nil =>
        obtain ⟨rfl, rfl⟩ := List.cons.inj heq
        exact .inl ⟨hclaimed, htakes⟩
    | cons head later =>
        obtain ⟨rfl, rfl⟩ := List.cons.inj heq
        exact .inr ⟨later, fact', earlier, rfl, hclaimed, htakes⟩
  · rintro (⟨hclaimed, htakes⟩ | ⟨later, fact', earlier, rfl, hclaimed, htakes⟩)
    · exact ⟨[], fact, history, rfl, hclaimed, htakes⟩
    · exact ⟨fact :: later, fact', earlier, rfl, hclaimed, htakes⟩

omit [DecidableEq ι] in
theorem Lost.append (h : Lost i job earlier) : Lost i job (later ++ earlier) := by
  obtain ⟨later', fact, earlier', rfl, hclaimed, htakes⟩ := h
  exact ⟨later ++ later', fact, earlier', by simp, hclaimed, htakes⟩

omit [DecidableEq ι] in
theorem lost_recovered {jobs : List Job}
    (h : Lost i job (jobs.map (fun job => .recovered j job.id) ++ history)) :
    (∃ found ∈ jobs, found.id = job.id) ∨ Lost i job history := by
  induction jobs with
  | nil => exact .inr h
  | cons found rest ih =>
      rcases lost_cons.mp h with ⟨-, htakes⟩ | h
      · exact .inl ⟨found, List.mem_cons_self, htakes⟩
      · rcases ih h with ⟨found', hmem, hid⟩ | h
        · exact .inl ⟨found', List.mem_cons_of_mem _ hmem, hid⟩
        · exact .inr h

omit [DecidableEq ι] in
theorem open_cons (h : Open i job (fact :: history)) :
    (∃ startedAt, fact = .wrote i job (.mark startedAt)) ∨ Open i job history := by
  obtain ⟨⟨startedAt, hmem⟩, hreleased⟩ := h
  rcases List.mem_cons.mp hmem with rfl | hmem
  · exact .inl ⟨startedAt, rfl⟩
  · refine .inr ⟨⟨startedAt, hmem⟩, ?_⟩
    rintro ⟨availableAt, code, message, hrelease⟩
    exact hreleased ⟨availableAt, code, message, List.mem_cons_of_mem _ hrelease⟩

omit [DecidableEq ι] in
theorem mem_recovered {jobs : List Job} (hattempt : fact.attempt.isSome = true) :
    fact ∈ jobs.map (fun job => .recovered j job.id) ++ history ↔ fact ∈ history := by
  rw [List.mem_append, or_iff_right]
  intro hmem
  obtain ⟨found, -, rfl⟩ := List.mem_map.mp hmem
  cases hattempt

omit [DecidableEq ι] in
theorem open_recovered {jobs : List Job} :
    Open i job (jobs.map (fun job => .recovered j job.id) ++ history) ↔ Open i job history := by
  unfold Open Marked Released
  simp only [mem_recovered (rfl : (Fact.wrote _ _ _).attempt.isSome = true)]

/-! ### Histories -/

/-- What an attempt may add to a history. -/
def Admissible : Fact ι → List (Fact ι) → Prop
  | .recovered _ _, _ => True
  | .claimed i _, earlier => own i earlier = []
  | .wrote i job _, earlier => Active i job (own i earlier) ∧ ¬ Lost i job earlier
  | .handled i job _, earlier =>
      Ready i job (own i earlier) ∧
        ∀ k job', k ≠ i → job'.id = job.id → Marked k job' earlier → Released k job' earlier

def Recorded : List (Fact ι) → Prop
  | [] => True
  | fact :: earlier => Admissible fact earlier ∧ Recorded earlier

theorem Recorded.split (h : Recorded (later ++ earlier)) : Recorded earlier := by
  induction later with
  | nil => exact h
  | cons fact later ih => exact ih h.2

theorem recorded_recovered {jobs : List Job} (h : Recorded history) :
    Recorded (jobs.map (fun job => .recovered j job.id) ++ history) := by
  induction jobs with
  | nil => exact h
  | cons found rest ih => exact ⟨trivial, ih⟩

/-- A call claims one job only. -/
theorem Recorded.claimed_unique (h : Recorded history) (hjob : .claimed i job ∈ history)
    (hjob' : .claimed i job' ∈ history) : job = job' := by
  induction history with
  | nil => cases hjob
  | cons fact earlier ih =>
      -- before its claim an attempt has no facts
      have hnone : ∀ {job job'}, fact = .claimed i job → .claimed i job' ∉ earlier := by
        rintro job job' rfl hmem
        have hown : own i earlier = [] := h.1
        have := mem_own.mpr ⟨hmem, rfl⟩
        rw [hown] at this
        cases this
      rcases List.mem_cons.mp hjob with rfl | hmem
      · rcases List.mem_cons.mp hjob' with heq | hmem'
        · cases heq
          rfl
        · exact absurd hmem' (hnone rfl)
      · rcases List.mem_cons.mp hjob' with rfl | hmem'
        · exact absurd hmem (hnone rfl)
        · exact ih h.2 hmem hmem'

theorem Active.claimed (h : Active i job (own i history)) : .claimed i job ∈ history := by
  obtain ⟨done, hprogress⟩ := h
  exact (mem_own.mp hprogress.claimed).1

theorem Recorded.claimed_of_wrote (h : Recorded history) (hmem : .wrote i job w ∈ history) :
    .claimed i job ∈ history := by
  obtain ⟨later, earlier, rfl⟩ := List.append_of_mem hmem
  have hactive : Active i job (own i earlier) := h.split.1.1
  exact List.mem_append_right _ (List.mem_cons_of_mem _ hactive.claimed)

theorem Recorded.claimed_of_open (h : Recorded history) (hopen : Open i job history) :
    .claimed i job ∈ history := by
  obtain ⟨⟨startedAt, hmem⟩, -⟩ := hopen
  exact h.claimed_of_wrote hmem

theorem Ready.open (h : Ready i job (own i history)) : Open i job history := by
  obtain ⟨startedAt, hmark⟩ := h.marked
  refine ⟨⟨startedAt, (mem_own.mp hmark).1⟩, ?_⟩
  rintro ⟨availableAt, code, message, hmem⟩
  obtain ⟨done, hprogress⟩ := h.active
  cases hprogress.going _ _ (mem_own.mpr ⟨hmem, rfl⟩)

/-! ### The invariant -/

/-- A stored job against the history. -/
structure Tracks (history : List (Fact ι)) (stored : Job) : Prop where
  fence : ∀ i job, .claimed i job ∈ history → job.id = stored.id → job.fence ≤ stored.fence
  lost : ∀ i job, Lost i job history → job.id = stored.id →
    job.fence < stored.fence ∨ stored.state.terminal = true
  marked : ∀ i job, Open i job history → job.id = stored.id → stored.state.terminal = true ∨
    (stored.state = .running ∧ stored.fence = job.fence ∧ stored.appendStartedAt.isSome = true)

structure Sound (s : Store ι) : Prop where
  recorded : Recorded s.history
  distinct : ∀ i j job job', .claimed i job ∈ s.history → .claimed j job' ∈ s.history →
    job.id = job'.id → job.fence = job'.fence → i = j
  exclusive : ∀ i j job job', Open i job s.history → Open j job' s.history →
    job.id = job'.id → i = j
  tracks : ∀ stored ∈ s.jobs.docs, Tracks s.history stored

omit [DecidableEq ι] in
/-- Facts that leave the claims, the losses and the open marks of a job as they were. -/
theorem Tracks.of_subset {history' : List (Fact ι)} (h : Tracks history stored)
    (hclaimed : ∀ i job, job.id = stored.id → .claimed i job ∈ history' → .claimed i job ∈ history)
    (hlost : ∀ i job, job.id = stored.id → Lost i job history' → Lost i job history)
    (hopen : ∀ i job, job.id = stored.id → Open i job history' → Open i job history) :
    Tracks history' stored :=
  ⟨fun i job hmem hid => h.fence i job (hclaimed i job hid hmem) hid,
    fun i job hl hid => h.lost i job (hlost i job hid hl) hid,
    fun i job ho hid => h.marked i job (hopen i job hid ho) hid⟩

namespace Sound

theorem recover (h : Sound s) (i : ι) (now : ℤ) :
    Sound (recoverUncertainAppends i now s).2 := by
  refine ⟨recorded_recovered h.recorded, ?_, ?_, ?_⟩
  · intro i j job job' hjob hjob'
    exact h.distinct i j job job' ((mem_recovered rfl).mp hjob) ((mem_recovered rfl).mp hjob')
  · intro i j job job' hopen hopen'
    exact h.exclusive i j job job' (open_recovered.mp hopen) (open_recovered.mp hopen')
  · intro stored' hmem
    obtain ⟨stored, hstored, rfl⟩ := List.mem_map.mp hmem
    have htracks := h.tracks stored hstored
    by_cases huncertain : uncertain now stored = true
    · rw [if_pos huncertain]
      refine ⟨?_, fun _ _ _ _ => .inr rfl, fun _ _ _ _ => .inl rfl⟩
      intro j job hclaimed hid
      exact htracks.fence j job ((mem_recovered rfl).mp hclaimed) hid
    · rw [if_neg huncertain]
      refine htracks.of_subset (fun j job _ hclaimed => (mem_recovered rfl).mp hclaimed) ?_
        fun j job _ hopen => open_recovered.mp hopen
      intro j job hid hlost
      rcases lost_recovered hlost with ⟨found, hfound, hfid⟩ | hlost
      · obtain ⟨hmem, hp⟩ := Collection.find_mem.mp hfound
        obtain rfl := s.jobs.eq_of_key hmem hstored (hfid.trans hid)
        exact absurd hp huncertain
      · exact hlost

theorem contend (h : Sound s) (now : ℤ) (jobId : String) :
    Sound (contend settings now jobId s).2 := by
  refine ⟨h.recorded, h.distinct, h.exclusive, ?_⟩
  intro stored' hmem
  obtain ⟨stored, hstored, rfl⟩ := List.mem_map.mp hmem
  have htracks := h.tracks stored hstored
  split
  · exact ⟨htracks.fence, htracks.lost, htracks.marked⟩
  · exact htracks

theorem claimed {now : ℤ} {token : String} (h : Sound s) (i : ι)
    (unclaimed : own i s.history = []) (hstored : stored ∈ s.jobs.docs)
    (hclaimable : claimable settings now stored = true) :
    Sound ⟨s.jobs.replace (claimJob settings token now stored),
      .claimed i (claimJob settings token now stored) :: s.history⟩ := by
  have htracks := h.tracks stored hstored
  simp only [claimable, Bool.and_eq_true, Bool.or_eq_true, decide_eq_true_eq] at hclaimable
  have hterminal : stored.state.terminal ≠ true := by
    rcases hclaimable.2 with ⟨hstate, -⟩ | ⟨⟨hstate, -⟩, -⟩
    · simp [hstate, JobState.terminal]
    · simp [hstate, JobState.terminal]
  -- the new fence is above those of all claims before
  have hbelow : ∀ j job, .claimed j job ∈ s.history → job.id = stored.id →
      job.fence < stored.fence + 1 := by
    intro j job hmem hid
    exact Nat.lt_succ_of_le (htracks.fence j job hmem hid)
  have hopen : ∀ {j job history}, Open j job (.claimed i (claimJob settings token now stored) ::
      history) → Open j job history := by
    intro j job history hopen
    rcases open_cons hopen with ⟨startedAt, heq⟩ | hopen
    · cases heq
    · exact hopen
  refine ⟨⟨unclaimed, h.recorded⟩, ?_, ?_, ?_⟩
  · intro j k job job' hjob hjob' hid hfence
    rcases List.mem_cons.mp hjob with heq | hjob
    · cases heq
      rcases List.mem_cons.mp hjob' with heq' | hjob'
      · cases heq'
        rfl
      · exact absurd hfence.symm (hbelow k job' hjob' hid.symm).ne
    · rcases List.mem_cons.mp hjob' with heq' | hjob'
      · cases heq'
        exact absurd hfence (hbelow j job hjob hid).ne
      · exact h.distinct j k job job' hjob hjob' hid hfence
  · intro j k job job' hj hk
    exact h.exclusive j k job job' (hopen hj) (hopen hk)
  · intro stored' hmem
    rcases Collection.mem_replace.mp hmem with ⟨hmem, hne⟩ | ⟨rfl, -⟩
    · refine (h.tracks stored' hmem).of_subset ?_ ?_ fun j job _ => hopen
      · intro j job hid hclaimed
        rcases List.mem_cons.mp hclaimed with heq | hclaimed
        · cases heq
          exact absurd hid.symm hne
        · exact hclaimed
      · intro j job hid hlost
        rcases lost_cons.mp hlost with ⟨-, -, htaken⟩ | hlost
        · exact absurd (hid.symm.trans htaken.symm) hne
        · exact hlost
    · refine ⟨?_, ?_, ?_⟩
      · intro j job hclaimed hid
        rcases List.mem_cons.mp hclaimed with heq | hclaimed
        · cases heq
          exact le_rfl
        · exact (hbelow j job hclaimed hid).le
      · intro j job hlost hid
        rcases lost_cons.mp hlost with ⟨hclaimed, -⟩ | hlost
        · exact .inl (hbelow j job hclaimed hid)
        · rcases htracks.lost j job hlost hid with hlt | hended
          · exact .inl (hlt.trans (Nat.lt_succ_self _))
          · exact absurd hended hterminal
      · intro j job hj hid
        rcases htracks.marked j job (hopen hj) hid with hended | ⟨hrunning, -, hmark⟩
        · exact absurd hended hterminal
        · rcases hclaimable.2 with ⟨hpending, -⟩ | ⟨-, hnone⟩
          · rw [hrunning] at hpending
            cases hpending
          · rw [Option.isNone_iff_eq_none.mp hnone] at hmark
            cases hmark

/-- The job an attempt may write to is its own, and nobody else has a mark on it. -/
theorem written (h : Sound s) (active : Active i job (own i s.history)) (hstored : stored ∈ s.jobs.docs)
    (howned : owned job stored = true) (w : Write) (updatedAt : ℤ) :
    ¬ Lost i job s.history ∧ Tracks (.wrote i job w :: s.history) (w.apply updatedAt stored) ∧
      ∀ j job', Open j job' s.history → job'.id = job.id → j = i := by
  simp only [owned, Bool.and_eq_true, decide_eq_true_eq] at howned
  obtain ⟨⟨⟨hid, hrunning⟩, -⟩, hfence⟩ := howned
  have hterminal : stored.state.terminal ≠ true := by simp [hrunning, JobState.terminal]
  have htracks := h.tracks stored hstored
  have hothers : ∀ j job', Open j job' s.history → job'.id = job.id → j = i := by
    intro j job' hopen hid'
    rcases htracks.marked j job' hopen (hid'.trans hid.symm) with hended | ⟨-, hsame, -⟩
    · exact absurd hended hterminal
    · exact h.distinct j i job' job (h.recorded.claimed_of_open hopen) active.claimed hid'
        (hsame.symm.trans hfence)
  refine ⟨?_, ⟨?_, ?_, ?_⟩, hothers⟩
  · intro hlost
    rcases htracks.lost i job hlost hid.symm with hlt | hended
    · exact hlt.ne hfence.symm
    · exact hterminal hended
  · intro j job' hclaimed hid'
    rw [Write.apply_id] at hid'
    rw [Write.apply_fence]
    rcases List.mem_cons.mp hclaimed with heq | hclaimed
    · cases heq
    · exact htracks.fence j job' hclaimed hid'
  · intro j job' hlost hid'
    rw [Write.apply_id] at hid'
    rw [Write.apply_fence]
    rcases lost_cons.mp hlost with ⟨-, hnone⟩ | hlost
    · exact hnone.elim
    · rcases htracks.lost j job' hlost hid' with hlt | hended
      · exact .inl hlt
      · exact absurd hended hterminal
  · intro j job' hopen hid'
    rw [Write.apply_id] at hid'
    rw [Write.apply_fence]
    rcases open_cons hopen with ⟨startedAt, heq⟩ | hopen'
    · cases heq
      exact .inr ⟨hrunning, hfence, rfl⟩
    · rcases htracks.marked j job' hopen' hid' with hended | ⟨-, hsame, hmark⟩
      · exact absurd hended hterminal
      · cases w with
        | mark => exact .inr ⟨hrunning, hsame, rfl⟩
        | cursor => exact .inr ⟨hrunning, hsame, hmark⟩
        | count => exact .inr ⟨hrunning, hsame, hmark⟩
        | finish succeeded =>
            left
            cases succeeded <;> rfl
        | release availableAt code message =>
            -- the attempt with the mark is the one that releases the job
            obtain rfl := hothers j job' hopen' (hid'.trans hid)
            obtain rfl := h.recorded.claimed_unique (h.recorded.claimed_of_open hopen')
              active.claimed
            exact absurd ⟨availableAt, code, message, List.mem_cons_self⟩ hopen.2

theorem write (h : Sound s) (active : Active i job (own i s.history)) (w : Write) (updatedAt : ℤ) :
    Sound (writeOwned i job w updatedAt s).2 := by
  unfold writeOwned
  split
  case isFalse => exact h
  case isTrue hmatched =>
    obtain ⟨stored, hstored, howned⟩ := List.any_eq_true.mp hmatched
    obtain ⟨hlost, htracks, hothers⟩ := h.written active hstored howned w updatedAt
    refine ⟨⟨⟨active, hlost⟩, h.recorded⟩, ?_, ?_, ?_⟩
    · intro j k job' job'' hj hk
      rcases List.mem_cons.mp hj with heq | hj
      · cases heq
      · rcases List.mem_cons.mp hk with heq | hk
        · cases heq
        · exact h.distinct j k job' job'' hj hk
    · intro j k job' job'' hj hk hid
      rcases open_cons hj with ⟨_, heq⟩ | hj'
      · cases heq
        rcases open_cons hk with ⟨_, heq⟩ | hk'
        · cases heq
          rfl
        · exact (hothers k job'' hk' hid.symm).symm
      · rcases open_cons hk with ⟨_, heq⟩ | hk'
        · cases heq
          exact hothers j job' hj' hid
        · exact h.exclusive j k job' job'' hj' hk' hid
    · intro stored' hmem
      obtain ⟨before, hbefore, rfl⟩ := List.mem_map.mp hmem
      by_cases hown : owned job before = true
      · rw [if_pos hown]
        exact (h.written active hbefore hown w updatedAt).2.1
      · rw [if_neg hown]
        have hne : before.id ≠ job.id := by
          intro hid
          have hkey : stored.id = job.id := by
            simp only [owned, Bool.and_eq_true, decide_eq_true_eq] at howned
            exact howned.1.1.1
          obtain rfl := s.jobs.eq_of_key hbefore hstored (hid.trans hkey.symm)
          exact hown howned
        refine (h.tracks before hbefore).of_subset ?_ ?_ ?_
        · intro j job' _ hclaimed
          rcases List.mem_cons.mp hclaimed with heq | hclaimed
          · cases heq
          · exact hclaimed
        · intro j job' _ hl
          rcases lost_cons.mp hl with ⟨-, hnone⟩ | hl
          · exact hnone.elim
          · exact hl
        · intro j job' hid ho
          rcases open_cons ho with ⟨_, heq⟩ | ho
          · cases heq
            exact absurd hid.symm hne
          · exact ho

theorem handle (h : Sound s) (ready : Ready i job (own i s.history)) (event : WebhookEvent) :
    Sound { s with history := .handled i job event :: s.history } := by
  have hopen : ∀ {j job'}, Open j job' (.handled i job event :: s.history) →
      Open j job' s.history := by
    intro j job' hopen
    rcases open_cons hopen with ⟨_, heq⟩ | hopen
    · cases heq
    · exact hopen
  have hclaimed : ∀ {j job'}, .claimed j job' ∈ Fact.handled i job event :: s.history →
      .claimed j job' ∈ s.history := by
    intro j job' hmem
    rcases List.mem_cons.mp hmem with heq | hmem
    · cases heq
    · exact hmem
  refine ⟨⟨⟨ready, ?_⟩, h.recorded⟩, ?_, ?_, ?_⟩
  · intro k job' hne hid hmarked
    by_contra hreleased
    exact hne (h.exclusive k i job' job ⟨hmarked, hreleased⟩ ready.open hid)
  · intro j k job' job'' hj hk
    exact h.distinct j k job' job'' (hclaimed hj) (hclaimed hk)
  · intro j k job' job'' hj hk
    exact h.exclusive j k job' job'' (hopen hj) (hopen hk)
  · intro stored hmem
    refine (h.tracks stored hmem).of_subset (fun j job' _ => hclaimed) ?_ fun j job' _ => hopen
    intro j job' _ hl
    rcases lost_cons.mp hl with ⟨-, hnone⟩ | hl
    · exact hnone.elim
    · exact hl

/-- What a call may do next keeps the invariant. -/
theorem effect (h : Sound s) (effect : Effect settings i r s t) : Sound t := by
  cases effect with
  | idle => exact h
  | recover => exact h.recover i _
  | contend _ jobId => exact h.contend _ jobId
  | claim unclaimed candidate =>
      rcases claimCandidate_cases settings i r candidate s with
        ⟨stored, hmem, -, hclaimable, heq⟩ | heq | heq
      · rw [heq]
        exact h.claimed i unclaimed hmem hclaimable
      · rw [heq]
        exact h
      · rw [heq]
        exact h
  | write active w updatedAt _ => exact h.write active w updatedAt
  | handle ready event => exact h.handle ready event

end Sound

/-! ### After the loss -/

omit [DecidableEq ι] in
theorem Lost.claimed (h : Lost i job history) : .claimed i job ∈ history := by
  obtain ⟨later, fact, earlier, rfl, hclaimed, -⟩ := h
  exact List.mem_append_right _ (List.mem_cons_of_mem _ hclaimed)

/-- An attempt that has lost its job writes nothing more, and right after the one event it
may still hand on it would have to write. -/
theorem Recorded.after_loss (h : Recorded (later ++ earlier)) (lost : Lost i job earlier) :
    (∀ job' w, .wrote i job' w ∉ later) ∧
      ((own i later).filterMap Fact.event = [] ∨
        (((own i later).filterMap Fact.event).length = 1 ∧
          ∃ job' event rest, own i (later ++ earlier) = .handled i job' event :: rest)) := by
  induction later with
  | nil => exact ⟨by simp, .inl rfl⟩
  | cons fact later ih =>
      obtain ⟨hwrites, hevents⟩ := ih h.2
      have hadmissible : Admissible fact (later ++ earlier) := h.1
      by_cases hattempt : fact.attempt = some i
      · rw [own_cons hattempt, List.cons_append, own_cons hattempt]
        have hclaimed : .claimed i job ∈ later ++ earlier := List.mem_append_right _ lost.claimed
        cases fact with
        | recovered => cases hattempt
        | claimed k job' =>
            obtain rfl := Option.some.inj hattempt
            have := mem_own.mpr ⟨hclaimed, rfl⟩
            rw [show own k (later ++ earlier) = [] from hadmissible] at this
            cases this
        | wrote k job' w =>
            obtain rfl := Option.some.inj hattempt
            obtain ⟨hactive, hnot⟩ := hadmissible
            obtain rfl := h.2.claimed_unique hclaimed hactive.claimed
            exact absurd lost.append hnot
        | handled k job' event =>
            obtain rfl := Option.some.inj hattempt
            refine ⟨?_, .inr ⟨?_, job', event, _, rfl⟩⟩
            · intro job'' w hmem
              rcases List.mem_cons.mp hmem with heq | hmem
              · cases heq
              · exact hwrites job'' w hmem
            · obtain ⟨w, rest, hwritten⟩ := hadmissible.1.written
              rcases hevents with hnone | ⟨-, job'', event', rest', hhandled⟩
              · simp [Fact.event, hnone]
              · rw [hwritten] at hhandled
                cases hhandled
      · rw [own_cons_of_ne hattempt, List.cons_append, own_cons_of_ne hattempt]
        refine ⟨?_, hevents⟩
        intro job' w hmem
        rcases List.mem_cons.mp hmem with rfl | hmem
        · exact hattempt rfl
        · exact hwrites job' w hmem

/-! ### Steps -/

/-- The event is one for the job: of its seller, received between its request and its claim,
and of a kind that is delivered. -/
def selects (r : Surroundings) (job : Job) (event : WebhookEvent) : Bool :=
  ((event.userId = .text (toString job.sellerId) || event.userId = .number job.sellerId) &&
    job.requestedAt ≤ event.receivedAt && job.deltaThroughAt.any (event.receivedAt ≤ ·)) &&
      (r.pilot || supported event)

/-- Every event for the job once, in the order of receipt and id, and each was accepted. -/
structure AllDelivered (r : Surroundings) (job : Job) (events : List WebhookEvent) : Prop where
  perm : events.Perm (r.webhookEvents.filter (selects r job))
  sorted : events.Pairwise fun a b => toLex (a.receivedAt, a.id) ≤ toLex (b.receivedAt, b.id)
  accepted : ∀ event ∈ events, Accepts r job event

theorem selectedEvents_sorted : (selectedEvents r job).Pairwise fun a b =>
    toLex (a.receivedAt, a.id) ≤ toLex (b.receivedAt, b.id) := by
  have total : Std.Total fun a b : WebhookEvent =>
      toLex (a.receivedAt, a.id) ≤ toLex (b.receivedAt, b.id) := ⟨fun _ _ => le_total _ _⟩
  have trans : IsTrans WebhookEvent fun a b =>
      toLex (a.receivedAt, a.id) ≤ toLex (b.receivedAt, b.id) := ⟨fun _ _ _ => le_trans⟩
  exact List.pairwise_insertionSort _ _

omit [DecidableEq ι] in
theorem Delivered.all {past : List (Fact ι)} (h : Delivered r job past) :
    AllDelivered r job (handledEvents past) := by
  obtain ⟨hevents, haccepts⟩ := h
  rw [hevents]
  have hselected : (selectedEvents r job).Perm _ := List.perm_insertionSort _ _
  refine ⟨?_, ?_, haccepts⟩
  · unfold deltaEvents
    split
    · next hpilot =>
        refine hselected.trans (List.Perm.of_eq (List.filter_congr fun event _ => ?_))
        simp [selects, hpilot]
    · next hpilot =>
        refine (hselected.filter supported).trans (List.Perm.of_eq ?_)
        rw [List.filter_filter]
        refine List.filter_congr fun event _ => ?_
        simp [selects, hpilot, Bool.and_comm]
  · unfold deltaEvents
    split
    · exact selectedEvents_sorted
    · exact selectedEvents_sorted.filter supported

/-- What a step of a call does to the jobs. -/
structure StepLaw (r : Surroundings) (i : ι) (s t : Store ι) : Prop where
  kept : ∀ stored ∈ s.jobs.docs, ∃ stored' ∈ t.jobs.docs, stored'.id = stored.id ∧
    stored.fence ≤ stored'.fence ∧ stored.attemptCount ≤ stored'.attemptCount ∧
    (stored.state.terminal = true → stored' = stored)
  claims : ∀ job, t.history = .claimed i job :: s.history →
    ∃ stored ∈ s.jobs.docs, stored.id = job.id ∧ stored.fence < job.fence ∧
      stored.attemptCount < job.attemptCount ∧ job ∈ t.jobs.docs
  writes : ∀ job w, t.history = .wrote i job w :: s.history →
    ∃ stored ∈ s.jobs.docs, owned job stored = true ∧
      ∃ updatedAt, w.apply updatedAt stored ∈ t.jobs.docs
  succeeds : ∀ stored ∈ s.jobs.docs, stored.state ≠ .succeeded → ∀ stored' ∈ t.jobs.docs,
    stored'.id = stored.id → stored'.state = .succeeded →
      ∃ job, owned job stored = true ∧ .claimed i job ∈ s.history ∧
        AllDelivered r job (handledEvents (own i s.history))
  lost : ∀ job, Lost i job s.history → t.jobs = s.jobs

theorem not_lost_of_unclaimed (unclaimed : own i s.history = []) : ¬ Lost i job s.history := by
  intro hlost
  have := mem_own.mpr ⟨hlost.claimed, rfl⟩
  rw [unclaimed] at this
  cases this

/-- A step that neither claims nor writes and lets no job succeed. -/
theorem StepLaw.of_map (f : Job → Job) (hdocs : t.jobs.docs = s.jobs.docs.map f)
    (hkept : ∀ stored, (f stored).id = stored.id ∧ (f stored).fence = stored.fence ∧
      (f stored).attemptCount = stored.attemptCount ∧
      (stored.state.terminal = true → f stored = stored) ∧
      ((f stored).state = .succeeded → stored.state = .succeeded))
    (hfact : ∀ fact, t.history = fact :: s.history →
      (∀ job, fact ≠ .claimed i job) ∧ ∀ job w, fact ≠ .wrote i job w)
    (hlost : ∀ job, Lost i job s.history → t.jobs = s.jobs) : StepLaw r i s t := by
  refine ⟨?_, ?_, ?_, ?_, hlost⟩
  · intro stored hmem
    obtain ⟨hid, hfence, hcount, hterminal, -⟩ := hkept stored
    rw [hdocs]
    exact ⟨f stored, List.mem_map_of_mem hmem, hid, hfence.ge, hcount.ge, hterminal⟩
  · intro job heq
    exact absurd rfl ((hfact _ heq).1 job)
  · intro job w heq
    exact absurd rfl ((hfact _ heq).2 job w)
  · intro stored hmem hne stored' hmem' hid hsucceeded
    rw [hdocs] at hmem'
    obtain ⟨before, hbefore, rfl⟩ := List.mem_map.mp hmem'
    obtain ⟨hsame, -, -, -, hback⟩ := hkept before
    obtain rfl := s.jobs.eq_of_key hbefore hmem (hsame.symm.trans hid)
    exact absurd (hback hsucceeded) hne

theorem stepLaw_recover (unclaimed : own i s.history = []) (now : ℤ) :
    StepLaw r i s (recoverUncertainAppends i now s).2 := by
  refine StepLaw.of_map (fun job => if uncertain now job then recoverJob now job else job) rfl
    ?_ ?_ fun job hlost => absurd hlost (not_lost_of_unclaimed unclaimed)
  · intro stored
    split
    · next huncertain =>
        simp only [uncertain, Bool.and_eq_true, decide_eq_true_eq] at huncertain
        refine ⟨rfl, rfl, rfl, fun h => ?_, fun h => by cases h⟩
        rw [huncertain.1.1] at h
        cases h
    · exact ⟨rfl, rfl, rfl, fun _ => rfl, id⟩
  · intro fact (heq : List.map _ _ ++ s.history = _)
    cases hjobs : s.jobs.find (uncertain now) with
    | nil =>
        rw [hjobs] at heq
        exact absurd heq.symm (List.cons_ne_self _ _)
    | cons job rest =>
        rw [hjobs] at heq
        obtain ⟨rfl, -⟩ := List.cons.inj heq
        exact ⟨fun _ h => (by cases h), fun _ _ h => (by cases h)⟩

theorem stepLaw_contend (unclaimed : own i s.history = []) (now : ℤ) (jobId : String) :
    StepLaw r i s (contend settings now jobId s).2 := by
  refine StepLaw.of_map (fun job => if job.id = jobId && job.state = .pending then
    contendJob settings now job else job) rfl ?_
    (fun fact heq => absurd heq.symm (List.cons_ne_self _ _))
    fun job hlost => absurd hlost (not_lost_of_unclaimed unclaimed)
  intro stored
  split
  · next hpending =>
      simp only [Bool.and_eq_true, decide_eq_true_eq] at hpending
      refine ⟨rfl, rfl, rfl, fun h => ?_, id⟩
      rw [hpending.2] at h
      cases h
  · exact ⟨rfl, rfl, rfl, fun _ => rfl, id⟩

theorem stepLaw_same (hjobs : t.jobs = s.jobs) (hfact : ∀ fact, t.history = fact :: s.history →
      (∀ job, fact ≠ .claimed i job) ∧ ∀ job w, fact ≠ .wrote i job w) :
    StepLaw r i s t := by
  refine StepLaw.of_map id ?_ (fun _ => ⟨rfl, rfl, rfl, fun _ => rfl, id⟩) hfact fun _ _ => hjobs
  rw [hjobs, List.map_id]

theorem stepLaw_idle : StepLaw r i s s :=
  stepLaw_same rfl fun _ heq => absurd heq.symm (List.cons_ne_self _ _)

theorem stepLaw_claimed {now : ℤ} {token : String} (unclaimed : own i s.history = [])
    (hstored : stored ∈ s.jobs.docs) (hclaimable : claimable settings now stored = true) :
    StepLaw r i s ⟨s.jobs.replace (claimJob settings token now stored),
      .claimed i (claimJob settings token now stored) :: s.history⟩ := by
  have hmem : claimJob settings token now stored ∈
      (s.jobs.replace (claimJob settings token now stored)).docs :=
    Collection.mem_replace.mpr (.inr ⟨rfl, stored, hstored, rfl⟩)
  refine ⟨?_, ?_, ?_, ?_, fun job hlost => absurd hlost (not_lost_of_unclaimed unclaimed)⟩
  · intro before hbefore
    by_cases hid : before.id = stored.id
    · obtain rfl := s.jobs.eq_of_key hbefore hstored hid
      refine ⟨_, hmem, rfl, Nat.le_succ _, Nat.le_succ _, fun hterminal => ?_⟩
      simp only [claimable, Bool.and_eq_true, Bool.or_eq_true, decide_eq_true_eq] at hclaimable
      rcases hclaimable.2 with ⟨hstate, -⟩ | ⟨⟨hstate, -⟩, -⟩
      · rw [hstate] at hterminal
        cases hterminal
      · rw [hstate] at hterminal
        cases hterminal
    · exact ⟨before, Collection.mem_replace.mpr (.inl ⟨hbefore, hid⟩), rfl, le_rfl, le_rfl,
        fun _ => rfl⟩
  · intro job heq
    cases heq
    exact ⟨stored, hstored, rfl, Nat.lt_succ_self _, Nat.lt_succ_self _, hmem⟩
  · intro job w heq
    cases heq
  · intro before hbefore hne stored' hmem' hid hsucceeded
    rcases Collection.mem_replace.mp hmem' with ⟨hmem', -⟩ | ⟨rfl, -⟩
    · obtain rfl := s.jobs.eq_of_key hmem' hbefore hid
      exact absurd hsucceeded hne
    · cases hsucceeded

theorem stepLaw_write (h : Sound s) (active : Active i job (own i s.history)) (w : Write)
    (updatedAt : ℤ) (succeeds : ∀ completedAt code message,
      w = .finish true completedAt code message → Delivered r job (own i s.history)) :
    StepLaw r i s (writeOwned i job w updatedAt s).2 := by
  unfold writeOwned
  split
  case isFalse => exact stepLaw_idle
  case isTrue hmatched =>
    obtain ⟨target, htarget, howned⟩ := List.any_eq_true.mp hmatched
    have hwritten : w.apply updatedAt target ∈ (s.jobs.update (owned job) (w.apply updatedAt)
        fun job => w.apply_id updatedAt job).docs :=
      Collection.mem_update.mpr ⟨target, htarget, if_pos howned⟩
    refine ⟨?_, ?_, ?_, ?_, ?_⟩
    · intro stored hmem
      refine ⟨_, List.mem_map.mpr ⟨stored, hmem, rfl⟩, ?_⟩
      split
      · next hown =>
          refine ⟨w.apply_id _ _, (w.apply_fence _ _).ge, (w.apply_attemptCount _ _).ge, ?_⟩
          intro hterminal
          simp only [owned, Bool.and_eq_true, decide_eq_true_eq] at hown
          rw [hown.1.1.2] at hterminal
          cases hterminal
      · exact ⟨rfl, le_rfl, le_rfl, fun _ => rfl⟩
    · intro job' heq
      cases heq
    · intro job' w' heq
      cases heq
      exact ⟨target, htarget, howned, updatedAt, hwritten⟩
    · intro stored hmem hne stored' hmem' hid hsucceeded
      obtain ⟨before, hbefore, rfl⟩ := List.mem_map.mp hmem'
      by_cases hown : owned job before = true
      · rw [if_pos hown] at hid hsucceeded
        rw [Write.apply_id] at hid
        obtain rfl := s.jobs.eq_of_key hbefore hmem hid
        refine ⟨job, hown, active.claimed, ?_⟩
        simp only [owned, Bool.and_eq_true, decide_eq_true_eq] at hown
        have hrunning : before.state = .running := hown.1.1.2
        -- only one write makes a running job succeed
        cases w with
        | finish succeeded completedAt code message =>
            cases succeeded with
            | true => exact (succeeds completedAt code message rfl).all
            | false => cases hsucceeded
        | release => cases hsucceeded
        | mark => exact absurd hsucceeded hne
        | cursor => exact absurd hsucceeded hne
        | count => exact absurd hsucceeded hne
      · rw [if_neg hown] at hid hsucceeded
        obtain rfl := s.jobs.eq_of_key hbefore hmem hid
        exact absurd hsucceeded hne
    · intro job' hlost
      obtain rfl := h.recorded.claimed_unique hlost.claimed active.claimed
      exact absurd hlost (h.written active htarget howned w updatedAt).1

/-- What a call may do next obeys the law of its steps. -/
theorem Sound.stepLaw (h : Sound s) (effect : Effect settings i r s t) : StepLaw r i s t := by
  cases effect with
  | idle => exact stepLaw_idle
  | recover unclaimed => exact stepLaw_recover unclaimed _
  | contend unclaimed jobId => exact stepLaw_contend unclaimed _ jobId
  | claim unclaimed candidate =>
      rcases claimCandidate_cases settings i r candidate s with
        ⟨stored, hmem, -, hclaimable, heq⟩ | heq | heq
      · rw [heq]
        exact stepLaw_claimed unclaimed hmem hclaimable
      · rw [heq]
        exact stepLaw_idle
      · rw [heq]
        exact stepLaw_idle
  | write active w updatedAt succeeds => exact stepLaw_write h active w updatedAt succeeds
  | handle ready event =>
      refine stepLaw_same rfl fun fact heq => ?_
      obtain ⟨rfl, -⟩ := List.cons.inj heq
      exact ⟨fun _ h => (by cases h), fun _ _ h => (by cases h)⟩

/-! ### Runs -/

/-- Calls over these jobs that have not done anything yet. -/
def begin (settings : Settings) (surroundings : ι → Surroundings) (jobs : Collection Job.id) :
    Pool ι (Store ι) (Program Op (Store ι) (Except Raised String)) where
  shared := ⟨jobs, []⟩
  control i := processOnce settings i (surroundings i)

omit [DecidableEq ι] in
theorem not_lost_nil : ¬ Lost i job ([] : List (Fact ι)) := by
  intro hlost
  cases hlost.claimed

theorem sound_begin (jobs : Collection Job.id) : Sound (⟨jobs, []⟩ : Store ι) := by
  have hopen : ∀ {i : ι} {job}, ¬ Open i job ([] : List (Fact ι)) := by
    rintro i job ⟨⟨_, hmem⟩, -⟩
    cases hmem
  refine ⟨trivial, ?_, ?_, ?_⟩
  · intro i j job job' hmem
    cases hmem
  · intro i j job job' h
    exact absurd h hopen
  · intro stored _
    refine ⟨?_, ?_, ?_⟩
    · intro i job hmem
      cases hmem
    · intro i job h
      exact absurd h not_lost_nil
    · intro i job h
      exact absurd h hopen

variable {jobs : Collection Job.id} {es : List (ι × Op)}
variable {pool pool' : Pool ι (Store ι) (Program Op (Store ι) (Except Raised String))}

theorem effect_of_step (run : Run Program.Step (begin settings surroundings jobs) es pool)
    {op : Op} (step : Program.Step pool (i, op) pool') :
    Effect settings i (surroundings i) pool.shared pool'.shared :=
  Program.guar_of_step (c := fun i => attempting settings i (surroundings i) fun _ _ => True)
    (fun _ _ hne _ _ h => Effect.own_eq h hne) (fun _ => meets_processOnce rfl)
    (Program.always run) (Program.always_step step)

theorem sound_of_run (run : Run Program.Step (begin settings surroundings jobs) es pool) :
    Sound pool.shared := by
  refine run.invariant (P := fun _ pool => Sound pool.shared) (sound_begin jobs) ?_
  intro es pool e pool' run h step
  exact h.effect (effect_of_step run step)

/-- Any number of calls, interleaved in any way: a claim raises the fence and the count of
attempts, and a job that has ended stays as it is; an attempt hands an event on only after
its own append mark, with every other mark of the job released; after the loss of its job
an attempt hands on one event at most and writes nothing; a job succeeds only by an attempt
to which all its events were delivered. -/
theorem uncertain_append_not_replayed (settings : Settings) (surroundings : ι → Surroundings)
    (jobs : Collection Job.id) {es : List (ι × Op)}
    {pool : Pool ι (Store ι) (Program Op (Store ι) (Except Raised String))}
    (run : Run Program.Step (begin settings surroundings jobs) es pool) :
    (∀ i op pool', Program.Step pool (i, op) pool' →
      StepLaw (surroundings i) i pool.shared pool'.shared) ∧
    (∀ later i job event earlier, pool.shared.history = later ++ .handled i job event :: earlier →
      Marked i job earlier ∧
        ∀ k job', k ≠ i → job'.id = job.id → Marked k job' earlier → Released k job' earlier) ∧
    ∀ later earlier i job, pool.shared.history = later ++ earlier → Lost i job earlier →
      (∀ job' w, .wrote i job' w ∉ later) ∧ (handledEvents (own i later)).length ≤ 1 := by
  have sound := sound_of_run run
  refine ⟨?_, ?_, ?_⟩
  · intro i op pool' step
    exact sound.stepLaw (effect_of_step run step)
  · intro later i job event earlier heq
    have hrecorded := sound.recorded
    rw [heq] at hrecorded
    obtain ⟨hready, hothers⟩ := hrecorded.split.1
    obtain ⟨startedAt, hmark⟩ := hready.marked
    exact ⟨⟨startedAt, (mem_own.mp hmark).1⟩, hothers⟩
  · intro later earlier i job heq hlost
    have hrecorded := sound.recorded
    rw [heq] at hrecorded
    obtain ⟨hwrites, hevents⟩ := hrecorded.after_loss hlost
    refine ⟨hwrites, ?_⟩
    unfold handledEvents
    rw [List.length_reverse]
    rcases hevents with hnone | ⟨hone, -⟩
    · simp [hnone]
    · exact hone.le

/-! ### A recovery in the middle of a delivery -/

/-- A pending job with one event between its request and its claim. -/
def requested : Job where
  id := "job-1"
  sellerId := 82
  spreadsheetId := "sheet-1"
  state := .pending
  createdAt := 1000
  requestedAt := 1000
  availableAt := none
  attemptCount := 0
  attemptToken := none
  fence := 0
  leaseUntil := none
  appendStartedAt := none
  startedAt := none
  deltaThroughAt := none
  cursorReceivedAt := none
  cursorEventId := none
  unsupportedEventCount := none
  completedAt := none
  errorCode := none
  errorMessage := none
  updatedAt := 1000
  schemaVersion := 1

/-- The second call reads its clock after the lease of the first has expired. -/
def expiring (i : Fin 2) : Surroundings where
  clock _ := if i = 0 then 5000 else 60000000
  token := "token"
  duplicateKey := false
  pilot := false
  webhookEvents := [⟨"event-1", .text "82", "items", none, "/items/1", none, none, 2000⟩]
  handle _ := .ok ()

def minutely : Settings := ⟨0, 1000000, 5000000, 60000000⟩

theorem uncertain_append_not_replayed_recovered :
    ∃ es pool, Run Program.Step (begin minutely expiring ⟨[requested], by simp⟩) es pool ∧
      pool.shared.history.map Fact.attempt = [some 0, none, some 0, some 0] ∧
      pool.shared.jobs.docs.map Job.state = [.failed] ∧
      ∀ later earlier i job, pool.shared.history = later ++ earlier → Lost i job earlier →
        (∀ job' w, .wrote i job' w ∉ later) ∧ (handledEvents (own i later)).length ≤ 1 := by
  have hrun : (perform Program.next [0, 0, 0, 0, 1, 0, 0, 0]
      (begin minutely expiring ⟨[requested], by simp⟩)).any (fun result =>
        decide (result.2.shared.history.map Fact.attempt = [some 0, none, some 0, some 0]) &&
          decide (result.2.shared.jobs.docs.map Job.state = [.failed])) = true := by
    decide +kernel
  obtain ⟨⟨es, pool⟩, hperform, hresult⟩ := (Option.any_eq_true _ _).mp hrun
  simp only [Bool.and_eq_true, decide_eq_true_eq] at hresult
  have run := Program.run_of_schedule hperform
  exact ⟨es, pool, run, hresult.1, hresult.2,
    (uncertain_append_not_replayed minutely expiring ⟨[requested], by simp⟩ run).2.2⟩

end ZelerPlatform.SyncJobs
