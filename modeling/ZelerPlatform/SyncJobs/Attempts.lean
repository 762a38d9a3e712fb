import ZelerPlatform.SyncJobs.Processor

/-!
# What an attempt may do next

What a call does next follows from the facts of its own attempt: it claims once, writes
while no write has ended the attempt, hands an event on only right after a write and under
its append mark, and writes `succeeded` only with all selected events handled. No other
call adds facts to an attempt, so this holds along the text of a call, whatever the others
do in the meantime.
-/

namespace ZelerPlatform.SyncJobs

open Transition

variable {ι : Type} [DecidableEq ι]

/-! ### The facts of an attempt -/

/-- The call whose attempt the fact belongs to. A recovery belongs to no attempt. -/
def Fact.attempt : Fact ι → Option ι
  | recovered _ _ => none
  | claimed call _ => some call
  | wrote call _ _ => some call
  | handled call _ _ => some call

def Fact.event : Fact ι → Option WebhookEvent
  | handled _ _ event => some event
  | _ => none

def own (i : ι) (history : List (Fact ι)) : List (Fact ι) :=
  history.filter fun fact => fact.attempt = some i

/-- The events an attempt handled, in order. -/
def handledEvents (past : List (Fact ι)) : List WebhookEvent := (past.filterMap Fact.event).reverse

def Marked (i : ι) (job : Job) (history : List (Fact ι)) : Prop :=
  ∃ startedAt, .wrote i job (.mark startedAt) ∈ history

def Released (i : ι) (job : Job) (history : List (Fact ι)) : Prop :=
  ∃ availableAt code message, .wrote i job (.release availableAt code message) ∈ history

variable {i : ι} {r : Surroundings} {settings : Settings} {job : Job} {event : WebhookEvent}
variable {fact : Fact ι} {history past past' : List (Fact ι)} {s t : Store ι}

theorem own_cons (h : fact.attempt = some i) : own i (fact :: history) = fact :: own i history := by
  simp [own, h]

theorem own_cons_of_ne (h : fact.attempt ≠ some i) : own i (fact :: history) = own i history := by
  simp [own, h]

theorem mem_own : fact ∈ own i history ↔ fact ∈ history ∧ fact.attempt = some i := by
  simp [own]

@[simp] theorem own_recovered (j : ι) (jobs : List Job) :
    own i (jobs.map (fun job => .recovered j job.id) ++ history) = own i history := by
  unfold own
  rw [List.filter_append, List.filter_eq_nil_iff.mpr, List.nil_append]
  intro fact hfact
  obtain ⟨job, -, rfl⟩ := List.mem_map.mp hfact
  simp [Fact.attempt]

/-! ### Effects -/

/-- The attempt goes on and has handled these events. -/
structure Progress (i : ι) (job : Job) (done : List WebhookEvent) (past : List (Fact ι)) :
    Prop where
  claimed : .claimed i job ∈ past
  going : ∀ job' write, .wrote i job' write ∈ past → write.ends = false
  events : handledEvents past = done

def Active (i : ι) (job : Job) (past : List (Fact ι)) : Prop := ∃ done, Progress i job done past

/-- The attempt may hand an event on: its last fact is a write, and it has its mark. -/
structure Ready (i : ι) (job : Job) (past : List (Fact ι)) : Prop where
  active : Active i job past
  marked : Marked i job past
  written : ∃ write rest, past = .wrote i job write :: rest

/-- The handler accepts the event. -/
def Accepts (r : Surroundings) (job : Job) (event : WebhookEvent) : Prop :=
  ∃ given, sheetsEvent r job event = .ok given ∧ r.handle given = .ok ()

/-- All selected events have been handled, in order, and accepted. -/
def Delivered (r : Surroundings) (job : Job) (past : List (Fact ι)) : Prop :=
  handledEvents past = deltaEvents r job ∧ ∀ event ∈ deltaEvents r job, Accepts r job event

/-- What an operation of a call does to the store. -/
inductive Effect (settings : Settings) (i : ι) (r : Surroundings) (s : Store ι) : Store ι → Prop
  | idle : Effect settings i r s s
  | recover (unclaimed : own i s.history = []) :
      Effect settings i r s (recoverUncertainAppends i (r.clock .recover) s).2
  | contend (unclaimed : own i s.history = []) (jobId : String) :
      Effect settings i r s (contend settings (r.clock .claim) jobId s).2
  | claim (unclaimed : own i s.history = []) (candidate : Job) :
      Effect settings i r s (claimCandidate settings i r candidate s).2
  | write {job : Job} (active : Active i job (own i s.history)) (write : Write) (updatedAt : ℤ)
      (succeeds : ∀ completedAt code message, write = .finish true completedAt code message →
        Delivered r job (own i s.history)) :
      Effect settings i r s (writeOwned i job write updatedAt s).2
  | handle {job : Job} (ready : Ready i job (own i s.history)) (event : WebhookEvent) :
      Effect settings i r s { s with history := .handled i job event :: s.history }

/-- The others add no facts to the attempt. -/
def attempting (settings : Settings) (i : ι) (r : Surroundings) {A : Type}
    (post : A → List (Fact ι) → Prop) : Contract (Store ι) A where
  rely s t := own i t.history = own i s.history
  guar := Effect settings i r
  post result t := post result (own i t.history)
  refl _ := rfl
  trans first second := second.trans first

omit [DecidableEq ι] in
theorem claimCandidate_cases (settings : Settings) (i : ι) (r : Surroundings) (candidate : Job)
    (s : Store ι) :
    (∃ stored ∈ s.jobs.docs, stored.id = candidate.id ∧
      claimable settings (r.clock .claim) stored = true ∧
      claimCandidate settings i r candidate s =
        (.claimed (claimJob settings r.token (r.clock .claim) stored),
          { jobs := s.jobs.replace (claimJob settings r.token (r.clock .claim) stored)
            history := .claimed i (claimJob settings r.token (r.clock .claim) stored) ::
              s.history })) ∨
    claimCandidate settings i r candidate s = (.lost, s) ∨
    claimCandidate settings i r candidate s = (.duplicateKey, s) := by
  unfold claimCandidate
  cases hfound : (s.jobs.byKey candidate.id).filter fun job =>
      job.state = candidate.state && claimable settings (r.clock .claim) job with
  | none => exact .inr (.inl rfl)
  | some stored =>
      obtain ⟨hstored, hfilter⟩ := Option.filter_eq_some_iff.mp hfound
      obtain ⟨hmem, hid⟩ := Collection.byKey_some.mp hstored
      simp only [Bool.and_eq_true] at hfilter
      cases hduplicate : r.duplicateKey with
      | true => exact .inr (.inr (by simp))
      | false => exact .inl ⟨stored, hmem, hid, hfilter.2, by simp⟩

/-- An effect of one call adds no fact to the attempt of another. -/
theorem Effect.own_eq {j : ι} (h : Effect settings i r s t) (hne : i ≠ j) :
    own j t.history = own j s.history := by
  have hother : ∀ fact : Fact ι, fact.attempt = some i → fact.attempt ≠ some j := by
    intro fact hfact heq
    exact hne (Option.some.inj (hfact.symm.trans heq))
  cases h with
  | idle => rfl
  | recover => exact own_recovered i _
  | contend => rfl
  | claim _ candidate =>
      rcases claimCandidate_cases settings i r candidate s with ⟨stored, -, -, -, heq⟩ | heq | heq
      · rw [heq]
        exact own_cons_of_ne (hother _ rfl)
      · rw [heq]
      · rw [heq]
  | write =>
      unfold writeOwned
      split
      · exact own_cons_of_ne (hother _ rfl)
      · rfl
  | handle => exact own_cons_of_ne (hother _ rfl)

/-! ### Along the text of a call -/

omit [DecidableEq ι] in
theorem Progress.active {done : List WebhookEvent} (h : Progress i job done past) :
    Active i job past := ⟨done, h⟩

omit [DecidableEq ι] in
theorem Progress.write {done : List WebhookEvent} (h : Progress i job done past) (write : Write)
    (hends : write.ends = false) : Progress i job done (.wrote i job write :: past) := by
  refine ⟨List.mem_cons_of_mem _ h.claimed, ?_, h.events⟩
  intro job' write' hmem
  rcases List.mem_cons.mp hmem with heq | hmem
  · cases heq
    exact hends
  · exact h.going job' write' hmem

omit [DecidableEq ι] in
theorem Progress.handle {done : List WebhookEvent} (h : Progress i job done past)
    (event : WebhookEvent) :
    Progress i job (done ++ [event]) (.handled i job event :: past) := by
  refine ⟨List.mem_cons_of_mem _ h.claimed, ?_, ?_⟩
  · intro job' write hmem
    rcases List.mem_cons.mp hmem with heq | hmem
    · cases heq
    · exact h.going job' write hmem
  · show (event :: past.filterMap Fact.event).reverse = done ++ [event]
    rw [List.reverse_cons]
    exact congrArg (· ++ [event]) h.events

omit [DecidableEq ι] in
/-- Right after a write that left the attempt with its mark. -/
theorem Progress.ready {done : List WebhookEvent} {write : Write}
    (h : Progress i job done (.wrote i job write :: past))
    (hmarked : Marked i job (.wrote i job write :: past)) :
    Ready i job (.wrote i job write :: past) := ⟨⟨done, h⟩, hmarked, write, past, rfl⟩

omit [DecidableEq ι] in
theorem Marked.cons (h : Marked i job past) : Marked i job (fact :: past) := by
  obtain ⟨startedAt, hmem⟩ := h
  exact ⟨startedAt, List.mem_cons_of_mem _ hmem⟩

variable {allowed : Store ι → Op → Prop} {A B : Type}
variable {post : A → List (Fact ι) → Prop} {post' : B → List (Fact ι) → Prop}

theorem meets_return {a : A} (hpast : own i s.history = past) (h : post a past) :
    Program.Meets (attempting settings i r post) allowed (pure a) s := by
  apply Program.Meets.pure
  intro t (ht : own i t.history = own i s.history)
  show post a (own i t.history)
  rw [ht, hpast]
  exact h

theorem meets_call {p : Program Op (Store ι) B} {k : B → Program Op (Store ι) A}
    (h : Program.Meets (attempting settings i r post') allowed p s)
    (next : ∀ b t past, own i t.history = past → post' b past →
      Program.Meets (attempting settings i r post) allowed (k b) t) :
    Program.Meets (attempting settings i r post) allowed (p >>= k) s :=
  Program.Meets.bind (fun _ _ h => h) (fun _ _ h => h) h fun b t => next b t _ rfl

theorem meets_write (updated : Reading) (hpast : own i s.history = past)
    (active : Active i job past) (w : Write)
    (succeeds : ∀ completedAt code message, w = .finish true completedAt code message →
      Delivered r job past) :
    Program.Meets
      (attempting settings i r fun result past' =>
        (result = .ok () ∧ past' = .wrote i job w :: past) ∨
          (result = .error .leaseLost ∧ past' = past))
      allowed (write i r updated job w) s := by
  unfold write
  apply Program.Meets.act
  intro t (ht : own i t.history = own i s.history) _
  rw [hpast] at ht
  refine ⟨.write (ht ▸ active) w _ (by rw [ht]; exact succeeds), meets_return rfl ?_⟩
  unfold writeOwned
  split
  · refine .inl ⟨rfl, ?_⟩
    show own i (.wrote i job w :: t.history) = _
    rw [own_cons rfl, ht]
  · exact .inr ⟨rfl, ht⟩

/-- What a delivery that returns leaves of the attempt. -/
def Delivers (i : ι) (r : Surroundings) (job : Job) (done events : List WebhookEvent)
    (result : Except Raised Unit) (past : List (Fact ι)) : Prop :=
  Active i job past ∧ (result = .ok () →
    Progress i job (done ++ events) past ∧ ∀ event ∈ events, Accepts r job event)

theorem meets_deliver {done events : List WebhookEvent} (hpast : own i s.history = past)
    (progress : Progress i job done past) (ready : events ≠ [] → Ready i job past) :
    Program.Meets (attempting settings i r (Delivers i r job done events)) allowed
      (deliver i r job events) s := by
  induction events generalizing done past s with
  | nil =>
      refine meets_return hpast ⟨progress.active, fun _ => ⟨?_, by simp⟩⟩
      rw [List.append_nil]
      exact progress
  | cons event rest ih =>
      have hready := ready (List.cons_ne_nil _ _)
      unfold deliver
      cases hgiven : sheetsEvent r job event with
      | error error => exact meets_return hpast ⟨progress.active, fun h => by cases h⟩
      | ok given =>
          apply Program.Meets.act
          intro t (ht : own i t.history = own i s.history) _
          rw [hpast] at ht
          refine ⟨.handle (ht ▸ hready) event, ?_⟩
          have hhandled : own i (.handled i job event :: t.history) =
              .handled i job event :: past := by rw [own_cons rfl, ht]
          have hprogress := progress.handle event
          cases haccepted : r.handle given with
          | error error => exact meets_return hhandled ⟨hprogress.active, fun h => by cases h⟩
          | ok =>
              apply meets_call (meets_write (.cursorUpdated event.id) hhandled hprogress.active
                (.cursor event) (by intro _ _ _ h; cases h))
              rintro result u _ hu (⟨rfl, rfl⟩ | ⟨rfl, rfl⟩)
              · have hwritten := hprogress.write (.cursor event) rfl
                refine (ih hu hwritten fun _ => hwritten.ready hready.marked.cons.cons).weaken ?_
                rintro result v ⟨hactive, hok⟩
                refine ⟨hactive, fun h => ?_⟩
                obtain ⟨hdone, haccepts⟩ := hok h
                refine ⟨by simpa using hdone, fun event' hmem => ?_⟩
                rcases List.mem_cons.mp hmem with rfl | hmem
                · exact ⟨given, hgiven, haccepted⟩
                · exact haccepts event' hmem
              · exact meets_return hu ⟨hprogress.active, fun h => by cases h⟩

/-- The delivery and the count of what was left out. -/
theorem meets_deliverAll (hpast : own i s.history = past) (progress : Progress i job [] past)
    (ready : deltaEvents r job ≠ [] → Ready i job past) (count : Nat) :
    Program.Meets (attempting settings i r (Delivers i r job [] (deltaEvents r job))) allowed
      (deliver i r job (deltaEvents r job) >>= fun delivered =>
        match delivered with
        | .error error => pure (.error error)
        | .ok () => write i r .countUpdated job (.count count)) s := by
  apply meets_call (meets_deliver hpast progress ready)
  rintro (error | ⟨⟩) t past' ht ⟨hactive, hok⟩
  · exact meets_return ht ⟨hactive, fun h => by cases h⟩
  · obtain ⟨hdone, haccepts⟩ := hok rfl
    refine (meets_write .countUpdated ht hactive (.count count)
      (by intro _ _ _ h; cases h)).weaken ?_
    rintro result u (⟨rfl, hu⟩ | ⟨rfl, hu⟩)
    · have hcount := hdone.write (.count count) rfl
      rw [← hu] at hcount
      exact ⟨hcount.active, fun _ => ⟨hcount, haccepts⟩⟩
    · rw [← hu] at hactive
      exact ⟨hactive, fun h => by cases h⟩

theorem meets_processDelta (hpast : own i s.history = past) (progress : Progress i job [] past) :
    Program.Meets
      (attempting settings i r (Delivers i r job [] (deltaEvents r job))) allowed
      (processDelta i r job) s := by
  unfold processDelta markAppend
  split
  · next hnone => exact meets_deliverAll hpast progress (fun h => absurd hnone h) _
  · apply meets_call (meets_write .markUpdated hpast progress.active (.mark _)
      (by intro _ _ _ h; cases h))
    rintro result t _ ht (⟨rfl, rfl⟩ | ⟨rfl, rfl⟩)
    · have hmark := progress.write (.mark (r.clock .mark)) rfl
      exact meets_deliverAll ht hmark (fun _ => hmark.ready ⟨_, List.mem_cons_self⟩) _
    · exact meets_return ht ⟨progress.active, fun h => by cases h⟩

/-- A write at the end of a call. -/
theorem meets_end {message : String} (updated : Reading) (hpast : own i s.history = past)
    (active : Active i job past) (w : Write)
    (succeeds : ∀ completedAt code message, w = .finish true completedAt code message →
      Delivered r job past) :
    Program.Meets (attempting settings i r fun _ _ => True) allowed
      (write i r updated job w >>= fun written => pure (written.map fun _ => message)) s := by
  apply meets_call (meets_write updated hpast active w succeeds)
  intro result t past' ht _
  exact meets_return ht trivial

theorem meets_concludeJob {result : Except Raised Unit} (hpast : own i s.history = past)
    (delivers : Delivers i r job [] (deltaEvents r job) result past) :
    Program.Meets (attempting settings i r fun _ _ => True) allowed
      (concludeJob settings i r job result) s := by
  obtain ⟨hactive, hok⟩ := delivers
  have hfailed : ∀ {code typeName : Option String}, ∀ completedAt code' message,
      Write.finish false (r.clock .finish) code typeName = .finish true completedAt code' message →
        Delivered r job past := by
    intro code typeName _ _ _ h
    cases h
  match result with
  | .ok () =>
      obtain ⟨hdone, haccepts⟩ := hok rfl
      exact meets_end .finishUpdated hpast hactive _ fun _ _ _ _ => ⟨hdone.events, haccepts⟩
  | .error (.handler .policyWait) =>
      exact meets_end .finishUpdated hpast hactive _ (by intro _ _ _ h; cases h)
  | .error (.handler (.rateLimit statusCode budgetStatus error retryAfter)) =>
      simp only [concludeJob]
      split
      · exact meets_end .finishUpdated hpast hactive _ hfailed
      · exact meets_end .finishUpdated hpast hactive _ (by intro _ _ _ h; cases h)
  | .error (.handler (.other typeName)) => exact meets_end .finishUpdated hpast hactive _ hfailed
  | .error .leaseLost => exact meets_end .finishUpdated hpast hactive _ hfailed

theorem meets_claimNext (hpast : own i s.history = []) :
    Program.Meets
      (attempting settings i r fun claimed past => ∀ job, claimed = some job →
        Progress i job [] past)
      allowed (claimNext settings i r) s := by
  unfold claimNext
  apply Program.Meets.read
  intro t (ht : own i t.history = own i s.history)
  rw [hpast] at ht
  refine ⟨.idle, ?_⟩
  cases t.jobs.findFirst (claimable settings (r.clock .claim)) claimOrder with
  | none => exact meets_return ht (by simp)
  | some candidate =>
      apply Program.Meets.act
      intro u (hu : own i u.history = own i t.history) _
      rw [ht] at hu
      refine ⟨.claim hu candidate, ?_⟩
      rcases claimCandidate_cases settings i r candidate u with
        ⟨stored, -, -, -, heq⟩ | heq | heq
      · rw [heq]
        refine meets_return (own_cons rfl) ?_
        rintro job ⟨rfl⟩
        rw [hu]
        exact ⟨List.mem_cons_self, by simp, rfl⟩
      · rw [heq]
        exact meets_return hu (by simp)
      · rw [heq]
        apply Program.Meets.act
        intro v (hv : own i v.history = own i u.history) _
        rw [hu] at hv
        exact ⟨.contend hv candidate.id, meets_return hv (by simp)⟩

theorem meets_processOnce (hpast : own i s.history = []) :
    Program.Meets (attempting settings i r fun _ _ => True) allowed
      (processOnce settings i r) s := by
  unfold processOnce
  apply Program.Meets.act
  intro t (ht : own i t.history = own i s.history) _
  rw [hpast] at ht
  refine ⟨.recover ht, ?_⟩
  apply meets_call (meets_claimNext ((own_recovered i _).trans ht))
  rintro (none | job) u past hu hclaimed
  · exact meets_return hu trivial
  · have hprogress := hclaimed job rfl
    simp only
    split
    · exact meets_end .finishUpdated hu hprogress.active _ (by intro _ _ _ h; cases h)
    · apply meets_call (meets_processDelta hu hprogress)
      intro result v past' hv hdelivers
      exact meets_concludeJob hv hdelivers

end ZelerPlatform.SyncJobs
