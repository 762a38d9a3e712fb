import ZelerPlatform.Events.ItemStatus

/-!
# Item status observations side by side

Whatever the interleaving of the observations of an item, its state goes forward: the last
observation never gets older, it is the newest one once all calls have returned, and each
transition row is one of two different statuses at the instant of an observation.

A late paused observation moves the start of the pause back without looking at what was
applied in between. Where no observation of another status was, every paused state spans a
run of paused observations only.
-/

namespace ZelerPlatform.Events

open Transition

variable {o : StatusObservation} {s t u : StatusStore} {state prior : StatusState}
variable {sellerId itemId : String}

/-- The start of the pause is not moved back across an applied observation of another status. -/
def KeepsPause (s : StatusStore) : StatusOp → Prop
  | .preserve start lastObservedAt => ∀ state ∈ s.state, state.pausedAfter start lastObservedAt →
      ∀ since ∈ state.pausedSince, ∀ a ∈ s.applied, a.status ≠ "paused" →
        ¬ (start ≤ a.instant ∧ a.instant < since)
  | _ => True

instance (s : StatusStore) (op : StatusOp) : Decidable (KeepsPause s op) := by
  cases op <;> unfold KeepsPause <;> infer_instance

/-- What a step of a call does to the store. -/
inductive Effect (sellerId itemId : String) (o : StatusObservation) (s : StatusStore) :
    StatusStore → Prop
  | idle : Effect sellerId itemId o s s
  | insert (absent : s.state = none) (named : o.status ≠ "") :
      Effect sellerId itemId o s
        { s with
          state := some (statusStateDocument sellerId itemId o none)
          applied := o :: s.applied }
  | replace (state prior : StatusState) (present : s.state = some state) (named : o.status ≠ "")
      (expected : state.asExpected prior = true)
      (newer : observationIsOlderThanState o prior = false) :
      Effect sellerId itemId o s
        { s with
          state := some (statusStateDocument sellerId itemId o (some prior))
          applied := o :: s.applied }
  | preserve (state : StatusState) (since : ℤ) (present : s.state = some state)
      (paused : state.currentStatus = "paused" ∧ o.status = "paused")
      (later : state.pausedSince = some since ∧ o.instant < since)
      (within : o.instant ≤ state.lastObservedAt)
      (keeps : ∀ a ∈ s.applied, a.status ≠ "paused" → ¬ (o.instant ≤ a.instant ∧ a.instant < since)) :
      Effect sellerId itemId o s
        { s with state := some (state.startPausedAt o.instant), applied := o :: s.applied }
  | transition (fromStatus : String) (differs : fromStatus ≠ o.status) :
      Effect sellerId itemId o s
        (upsertTransition (statusTransitionDocument sellerId itemId fromStatus o) s).2

/-- There is a state, and its last observation is not older than before. -/
def Later (s t : StatusStore) : Prop :=
  ∀ state, s.state = some state →
    ∃ state', t.state = some state' ∧ state.lastObservedAt ≤ state'.lastObservedAt

/-- The state is as new as an instant. -/
def Reached (instant : ℤ) (s : StatusStore) : Prop :=
  ∃ state, s.state = some state ∧ instant ≤ state.lastObservedAt

theorem Later.refl (s : StatusStore) : Later s s := fun state h => ⟨state, h, le_rfl⟩

theorem Later.trans (hst : Later s t) (htu : Later t u) : Later s u := by
  intro state hs
  obtain ⟨state', ht, hle⟩ := hst state hs
  obtain ⟨state'', hu, hle'⟩ := htu state' ht
  exact ⟨state'', hu, hle.trans hle'⟩

theorem Reached.later {instant : ℤ} (h : Reached instant s) (hlater : Later s t) :
    Reached instant t := by
  obtain ⟨state, hs, hle⟩ := h
  obtain ⟨state', ht, hle'⟩ := hlater state hs
  exact ⟨state', ht, hle.trans hle'⟩

theorem asExpected_iff : state.asExpected prior = true ↔
    state.currentStatus = prior.currentStatus ∧ state.lastObservedAt = prior.lastObservedAt ∧
      state.statusStartedAt = prior.statusStartedAt ∧ state.pausedSince = prior.pausedSince ∧
      state.lastStatusChangeAt = prior.lastStatusChangeAt := by
  simp [StatusState.asExpected, and_assoc]

theorem Effect.later (h : Effect sellerId itemId o s t) : Later s t := by
  cases h with
  | idle => exact Later.refl s
  | insert absent =>
      intro state hs
      rw [absent] at hs
      cases hs
  | replace state prior present named expected newer =>
      intro state' hs
      obtain rfl := Option.some.inj (present.symm.trans hs)
      refine ⟨_, rfl, ?_⟩
      rw [(asExpected_iff.mp expected).2.1]
      show prior.lastObservedAt ≤ o.instant
      simpa [observationIsOlderThanState] using newer
  | preserve state since present =>
      intro state' hs
      obtain rfl := Option.some.inj (present.symm.trans hs)
      exact ⟨_, rfl, le_rfl⟩
  | transition => exact Later.refl s

/-- What a call of the observation does, with what holds when it returns. -/
def observing {α : Type} (sellerId itemId : String) (o : StatusObservation)
    (post : α → StatusStore → Prop) : Contract StatusStore α where
  rely := Later
  guar := Effect sellerId itemId o
  post := post
  refl := Later.refl
  trans := Later.trans

/-! ### Every call moves the state as allowed -/

section

variable {α β : Type} {post : α → StatusStore → Prop} {post' : β → StatusStore → Prop}
variable {p : StatusProgram β} {k : β → StatusProgram α}

/-- A call within a call of the same observation. -/
theorem observing_bind
    (h : Program.Meets (observing sellerId itemId o post') KeepsPause p s)
    (hnext : ∀ b t, post' b t →
      Program.Meets (observing sellerId itemId o post) KeepsPause (k b) t) :
    Program.Meets (observing sellerId itemId o post) KeepsPause (p >>= k) s :=
  Program.Meets.bind (fun _ _ h => h) (fun _ _ h => h) h hnext

/-- What was reached stays reached when the call within returns. -/
theorem observing_frame {instant : ℤ} (hreached : Reached instant s)
    (h : Program.Meets (observing sellerId itemId o post') KeepsPause p s) :
    Program.Meets (observing sellerId itemId o fun b t => post' b t ∧ Reached instant t)
      KeepsPause p s :=
  Program.Meets.frame (c := observing sellerId itemId o post') (P := Reached instant)
    (fun _ _ h hr => hr.later h) (fun _ _ h hr => hr.later h.later) hreached h

end

theorem updatePausedStart_cases (lastObservedAt : ℤ) :
    (∃ state since, s.state = some state ∧ state.pausedAfter o.instant lastObservedAt = true ∧
      state.currentStatus = "paused" ∧ state.lastObservedAt = lastObservedAt ∧
      state.pausedSince = some since ∧ o.instant < since ∧ updatePausedStart o lastObservedAt s =
        (true, { s with state := some (state.startPausedAt o.instant), applied := o :: s.applied })) ∨
    updatePausedStart o lastObservedAt s = (false, s) := by
  unfold updatePausedStart
  cases hs : s.state with
  | none => exact .inr rfl
  | some state =>
      cases hafter : state.pausedAfter o.instant lastObservedAt with
      | false => exact .inr (by simp [hafter])
      | true =>
          left
          have hparts := hafter
          simp only [StatusState.pausedAfter, Bool.and_eq_true, decide_eq_true_eq,
            Option.any_eq_true] at hparts
          obtain ⟨⟨hpaused, hlast⟩, since, hsince, hlt⟩ := hparts
          exact ⟨state, since, rfl, hafter, hpaused, hlast, hsince, hlt, by simp [hafter]⟩

/-- A corrected state is as new as the observation. -/
def Corrects (o : StatusObservation) (r : Except StatusError (Option StatusState))
    (t : StatusStore) : Prop :=
  ∀ corrected, r = .ok (some corrected) → Reached o.instant t

theorem meets_preserve (attempts : Nat) (state : StatusState) :
    Program.Meets (observing sellerId itemId o (Corrects o)) KeepsPause
      (preserveEarliestPausedStartIfExpected o attempts state) s := by
  induction attempts generalizing state s with
  | zero =>
      apply Program.Meets.pure
      intro t _ corrected h
      cases h
  | succ attempts ih =>
      unfold preserveEarliestPausedStartIfExpected
      split
      · next hsame =>
          simp only [samePausedObservationCanPreserveEarliestStart, Bool.and_eq_true,
            decide_eq_true_eq] at hsame
          obtain ⟨⟨⟨hstatus, -⟩, hle⟩, -⟩ := hsame
          apply Program.Meets.act
          intro t _ hkeeps
          rcases updatePausedStart_cases (o := o) (s := t) state.lastObservedAt with
            ⟨found, since, hfound, hafter, hpaused, hlast, hsince, hlt, hupdate⟩ | hupdate
          · rw [hupdate]
            constructor
            · exact .preserve found since hfound ⟨hpaused, hstatus⟩ ⟨hsince, hlt⟩ (hlast ▸ hle)
                (hkeeps found hfound hafter since hsince)
            · apply Program.Meets.read
              intro u hu
              refine ⟨.idle, ?_⟩
              apply Program.Meets.pure
              intro v hv corrected _
              have hreached : Reached o.instant { t with
                  state := some (found.startPausedAt o.instant), applied := o :: t.applied } :=
                ⟨_, rfl, hlast ▸ hle⟩
              exact (hreached.later hu).later hv
          · rw [hupdate]
            refine ⟨.idle, ?_⟩
            apply Program.Meets.read
            intro u hu
            refine ⟨.idle, ?_⟩
            cases hlatest : u.state with
            | none =>
                apply Program.Meets.pure
                intro v _ corrected h
                cases h
            | some latest => exact ih latest
      · apply Program.Meets.pure
        intro t _ corrected h
        cases h

/-- A result is given when the state is as new as the observation, and none only when the
state that was read is not newer. -/
def Settles (o : StatusObservation) (state : StatusState)
    (r : Except StatusError (Option StatusResult)) (t : StatusStore) : Prop :=
  (∀ result, r = .ok (some result) → Reached o.instant t) ∧
    (r = .ok none → observationIsOlderThanState o state = false)

theorem Settles.error {error : StatusError} : Settles o state (.error error) t :=
  ⟨fun _ h => (by cases h), fun h => by cases h⟩

theorem Settles.some {result : StatusResult} (h : Reached o.instant t) :
    Settles o state (.ok (some result)) t :=
  ⟨fun _ _ => h, fun h => by cases h⟩

theorem Settles.none (h : observationIsOlderThanState o state = false) :
    Settles o state (.ok none) t :=
  ⟨fun _ h => (by cases h), fun _ => h⟩

theorem reached_of_older (hseen : Reached state.lastObservedAt s)
    (holder : observationIsOlderThanState o state = true) : Reached o.instant s := by
  obtain ⟨found, hfound, hle⟩ := hseen
  simp only [observationIsOlderThanState, decide_eq_true_eq] at holder
  exact ⟨found, hfound, (holder.trans_le hle).le⟩

theorem meets_settleAgainst (hseen : Reached state.lastObservedAt s) :
    Program.Meets (observing sellerId itemId o (Settles o state)) KeepsPause
      (settleAgainst o state) s := by
  unfold settleAgainst
  refine observing_bind (observing_frame hseen (meets_preserve _ state)) ?_
  rintro (error | (_ | corrected)) t ⟨hpost, hseen⟩
  · apply Program.Meets.pure
    exact fun u _ => .error
  · show Program.Meets _ _ (if observationIsOlderThanState o state then _ else _) t
    split
    · next holder =>
        have hreached := reached_of_older hseen holder
        refine observing_bind (observing_frame hreached (meets_preserve _ state)) ?_
        rintro (error | (_ | corrected)) u ⟨-, hreached⟩
        · apply Program.Meets.pure
          exact fun v _ => .error
        · apply Program.Meets.pure
          exact fun v hv => .some (hreached.later hv)
        · apply Program.Meets.pure
          exact fun v hv => .some (hreached.later hv)
    · next hnewer =>
        apply Program.Meets.pure
        exact fun u _ => .none (by simpa using hnewer)
  · apply Program.Meets.pure
    exact fun u hu => .some ((hpost corrected rfl).later hu)

theorem meets_settleFound (hseen : Reached state.lastObservedAt s) :
    Program.Meets (observing sellerId itemId o (Settles o state)) KeepsPause
      (settleFound o state) s := by
  unfold settleFound
  refine observing_bind (observing_frame hseen (meets_settleAgainst hseen)) ?_
  rintro (error | (_ | result)) t ⟨⟨hresult, hnone⟩, hseen⟩
  · apply Program.Meets.pure
    exact fun u _ => .error
  · show Program.Meets _ _ (if statusStateMatchesObservation o state then _ else _) t
    split
    · next hmatches =>
        simp only [statusStateMatchesObservation, Bool.and_eq_true, decide_eq_true_eq] at hmatches
        rw [hmatches.2] at hseen
        apply Program.Meets.pure
        exact fun u hu => .some (hseen.later hu)
    · apply Program.Meets.pure
      exact fun u _ => .none (hnone rfl)
  · apply Program.Meets.pure
    exact fun u hu => .some ((hresult result rfl).later hu)

/-- A call that returns leaves a state as new as its observation. -/
def Applies (o : StatusObservation) (r : Except StatusError StatusResult) (t : StatusStore) : Prop :=
  ∀ result, r = .ok result → Reached o.instant t

/-- The write of the next state, if it wins. -/
theorem meets_replaceStatusState (prior : Option StatusState) (named : o.status ≠ "")
    (newer : ∀ state ∈ prior, observationIsOlderThanState o state = false) :
    Program.Meets (observing sellerId itemId o fun won t => won = true → Reached o.instant t)
      KeepsPause (replaceStatusStateIfExpected o (statusStateDocument sellerId itemId o prior)
        prior) s := by
  cases prior with
  | none =>
      apply Program.Meets.last
      intro t _ _
      unfold insertStatusState
      cases hstate : t.state with
      | none =>
          refine ⟨.insert hstate named, fun u hu _ => ?_⟩
          exact Reached.later ⟨_, rfl, le_rfl⟩ hu
      | some state => exact ⟨.idle, fun _ _ h => by cases h⟩
  | some prior =>
      apply Program.Meets.last
      intro t _ _
      unfold replaceStatusState
      split
      · next hexpected =>
          obtain ⟨state, hstate, hexpected⟩ := (Option.any_eq_true _ _).mp hexpected
          refine ⟨.replace state prior hstate named hexpected (newer prior rfl), fun u hu _ => ?_⟩
          exact Reached.later ⟨_, rfl, le_rfl⟩ hu
      · exact ⟨.idle, fun _ _ h => by cases h⟩

theorem meets_settlePrior (prior : Option StatusState)
    (hseen : ∀ state ∈ prior, Reached state.lastObservedAt s) :
    Program.Meets (observing sellerId itemId o fun r t =>
      (∀ result, r = .ok (some result) → Reached o.instant t) ∧
        (r = .ok none → ∀ state ∈ prior, observationIsOlderThanState o state = false)) KeepsPause
      (settlePrior o prior) s := by
  cases prior with
  | none =>
      apply Program.Meets.pure
      exact fun t _ => ⟨fun _ h => (by cases h), fun _ _ h => by cases h⟩
  | some state =>
      refine Program.Meets.weaken (meets_settleAgainst (hseen state rfl)) fun r t hsettles => ?_
      refine ⟨hsettles.1, fun hnone read hread => ?_⟩
      obtain rfl := Option.some.inj hread
      exact hsettles.2 hnone

theorem meets_applyObservation (prior : Option StatusState) (named : o.status ≠ "")
    (newer : ∀ state ∈ prior, observationIsOlderThanState o state = false) :
    Program.Meets (observing sellerId itemId o fun r t => ∀ result, r = some result →
      Reached o.instant t) KeepsPause (applyObservation sellerId itemId o prior) s := by
  unfold applyObservation
  refine observing_bind (meets_replaceStatusState prior named newer) ?_
  rintro (_ | _) t hwon
  · apply Program.Meets.pure
    exact fun u _ _ h => by cases h
  · have hreached := hwon rfl
    cases prior with
    | none =>
        apply Program.Meets.pure
        exact fun u hu _ _ => hreached.later hu
    | some prior =>
        show Program.Meets _ _ (if prior.currentStatus = o.status then _ else _) t
        split
        · apply Program.Meets.pure
          exact fun u hu _ _ => hreached.later hu
        · next hdiffers =>
            apply Program.Meets.act
            intro u hu _
            refine ⟨.transition _ hdiffers, ?_⟩
            apply Program.Meets.pure
            exact fun v hv _ _ => ((hreached.later hu).later (Later.refl u)).later hv

theorem meets_attempts (attempts : Nat) (state : Option StatusState)
    (hseen : ∀ read ∈ state, Reached read.lastObservedAt s) :
    Program.Meets (observing sellerId itemId o (Applies o)) KeepsPause
      (observationAttempts sellerId itemId o attempts state) s := by
  induction attempts generalizing state s with
  | zero =>
      apply Program.Meets.read
      intro t _
      refine ⟨.idle, ?_⟩
      cases hlatest : t.state with
      | none =>
          apply Program.Meets.pure
          exact fun u _ _ h => by cases h
      | some latest =>
          refine observing_bind (meets_settleFound ⟨latest, hlatest, le_rfl⟩) ?_
          rintro (error | (_ | result)) u ⟨hresult, -⟩
          · apply Program.Meets.pure
            exact fun v _ _ h => by cases h
          · apply Program.Meets.pure
            exact fun v _ _ h => by cases h
          · apply Program.Meets.pure
            exact fun v hv _ _ => (hresult result rfl).later hv
  | succ attempts ih =>
      refine observing_bind (meets_settlePrior state hseen) ?_
      rintro (error | (_ | result)) t ⟨hresult, hnewer⟩
      · apply Program.Meets.pure
        exact fun u _ _ h => by cases h
      · show Program.Meets _ _ (if o.status = "" then _ else _) t
        split
        · apply Program.Meets.pure
          exact fun u _ _ h => by cases h
        · next named =>
            refine observing_bind (meets_applyObservation state named (hnewer rfl)) ?_
            rintro (_ | result) u hresult
            · apply Program.Meets.read
              intro v _
              refine ⟨.idle, ?_⟩
              cases hwinning : v.state with
              | none => exact ih none fun _ h => by cases h
              | some winning =>
                  have hread : Reached winning.lastObservedAt v := ⟨winning, hwinning, le_rfl⟩
                  refine observing_bind (observing_frame hread (meets_settleFound hread)) ?_
                  rintro (error | (_ | result)) w ⟨⟨hresult, -⟩, hread⟩
                  · apply Program.Meets.pure
                    exact fun x _ _ h => by cases h
                  · refine ih (some winning) fun read h => ?_
                    obtain rfl := Option.some.inj h
                    exact hread
                  · apply Program.Meets.pure
                    exact fun x hx _ _ => (hresult result rfl).later hx
            · apply Program.Meets.pure
              exact fun v hv _ _ => (hresult result rfl).later hv
      · apply Program.Meets.pure
        exact fun u hu _ _ => (hresult result rfl).later hu

theorem meets_recordItemStatusObservation :
    Program.Meets (observing sellerId itemId o (Applies o)) KeepsPause
      (recordItemStatusObservation sellerId itemId o) s := by
  apply Program.Meets.read
  intro t _
  exact ⟨.idle, meets_attempts _ _ fun state hstate => ⟨state, hstate, le_rfl⟩⟩

/-! ### What all calls preserve -/

variable {ι : Type*} {observations : ι → StatusObservation}

/-- No observation of another status was applied between the start of the pause and the last
observation. -/
def PausedThroughout (s : StatusStore) (state : StatusState) (since : ℤ) : Prop :=
  since ≤ state.lastObservedAt ∧ ∀ a ∈ s.applied, a.status ≠ "paused" →
    ¬ (since ≤ a.instant ∧ a.instant ≤ state.lastObservedAt)

structure StatusInvariant (observations : ι → StatusObservation) (s : StatusStore) : Prop where
  applied : ∀ a ∈ s.applied, ∃ i, a = observations i
  absent : s.state = none → s.applied = []
  observed : ∀ state ∈ s.state, ∃ i, (observations i).instant = state.lastObservedAt ∧
    (observations i).status = state.currentStatus
  newest : ∀ state ∈ s.state, ∀ a ∈ s.applied, a.instant ≤ state.lastObservedAt
  paused : ∀ state ∈ s.state, ∀ since ∈ state.pausedSince,
    state.currentStatus = "paused" ∧ PausedThroughout s state since
  transitions : ∀ row ∈ s.transitions.docs, row.fromStatus ≠ row.toStatus ∧
    ∃ i, row.toStatus = (observations i).status ∧ row.observedAt = (observations i).instant

namespace StatusInvariant

variable {i : ι}

theorem empty : StatusInvariant observations ⟨none, .empty, []⟩ where
  applied := by simp
  absent _ := rfl
  observed := by simp
  newest := by simp
  paused := by simp
  transitions := by simp

theorem insert (h : StatusInvariant observations s) (absent : s.state = none) :
    StatusInvariant observations
      { s with
        state := some (statusStateDocument sellerId itemId (observations i) none)
        applied := observations i :: s.applied } where
  applied := by
    rw [h.absent absent]
    simp
  absent := by simp
  observed := by
    rintro state ⟨⟩
    exact ⟨i, rfl, rfl⟩
  newest := by
    rw [h.absent absent]
    rintro state ⟨⟩ a ha
    obtain rfl := List.mem_singleton.mp ha
    exact le_rfl
  paused := by
    rw [h.absent absent]
    rintro state ⟨⟩ since hsince
    by_cases hpaused : (observations i).status = "paused"
    · obtain rfl : (observations i).instant = since := by
        simpa [statusStateDocument, hpaused] using hsince
      refine ⟨hpaused, le_rfl, fun a ha hother => ?_⟩
      obtain rfl := List.mem_singleton.mp ha
      exact absurd hpaused hother
    · simp [statusStateDocument, hpaused] at hsince
  transitions := h.transitions

theorem replace (distinct : ∀ i j, (observations i).instant = (observations j).instant → i = j)
    (h : StatusInvariant observations s) (present : s.state = some state)
    (expected : state.asExpected prior = true)
    (newer : observationIsOlderThanState (observations i) prior = false) :
    StatusInvariant observations
      { s with
        state := some (statusStateDocument sellerId itemId (observations i) (some prior))
        applied := observations i :: s.applied } := by
  obtain ⟨hstatus, hlast, -, hsince, -⟩ := asExpected_iff.mp expected
  have hle : state.lastObservedAt ≤ (observations i).instant := by
    rw [hlast]
    simpa [observationIsOlderThanState] using newer
  obtain ⟨j, hj, hjstatus⟩ := h.observed state present
  have hbound : ∀ a ∈ observations i :: s.applied, a.instant ≤ (observations i).instant := by
    intro a ha
    rcases List.mem_cons.mp ha with rfl | ha
    · exact le_rfl
    · exact (h.newest state present a ha).trans hle
  refine ⟨?_, by simp, ?_, ?_, ?_, h.transitions⟩
  · intro a ha
    rcases List.mem_cons.mp ha with rfl | ha
    · exact ⟨i, rfl⟩
    · exact h.applied a ha
  · rintro next ⟨⟩
    exact ⟨i, rfl, rfl⟩
  · rintro next ⟨⟩
    exact hbound
  · rintro next ⟨⟩ since hnext
    by_cases hchanged : prior.currentStatus = (observations i).status
    · -- the pause goes on: what was applied since is what was applied before, and this
      have hprior : state.pausedSince = some since := by
        rw [hsince]
        simpa [statusStateDocument, hchanged] using hnext
      obtain ⟨hpaused, hthrough, hnone⟩ := h.paused state present since hprior
      refine ⟨hchanged.symm.trans (hstatus.symm.trans hpaused), hthrough.trans hle, ?_⟩
      intro a ha hother hwithin
      rcases List.mem_cons.mp ha with rfl | ha
      · exact hother (hchanged.symm.trans (hstatus.symm.trans hpaused))
      · exact hnone a ha hother ⟨hwithin.1, h.newest state present a ha⟩
    · by_cases hpaused : (observations i).status = "paused"
      · obtain rfl : (observations i).instant = since := by
          have hne : prior.currentStatus ≠ "paused" := hpaused ▸ hchanged
          simpa [statusStateDocument, hpaused, hne] using hnext
        refine ⟨hpaused, le_rfl, ?_⟩
        intro a ha hother hwithin
        obtain ⟨k, rfl⟩ : ∃ k, a = observations k := by
          rcases List.mem_cons.mp ha with rfl | ha
          · exact ⟨i, rfl⟩
          · exact h.applied a ha
        have hk := distinct k i (le_antisymm (hbound _ ha) hwithin.1)
        exact hother (hk ▸ hpaused)
      · have hne : (prior.currentStatus != (observations i).status) = true := by
          simpa using hchanged
        simp [statusStateDocument, hne, hpaused] at hnext

theorem preserve {since : ℤ} (h : StatusInvariant observations s) (present : s.state = some state)
    (paused : state.currentStatus = "paused" ∧ (observations i).status = "paused")
    (later : state.pausedSince = some since ∧ (observations i).instant < since)
    (within : (observations i).instant ≤ state.lastObservedAt)
    (keeps : ∀ a ∈ s.applied, a.status ≠ "paused" →
      ¬ ((observations i).instant ≤ a.instant ∧ a.instant < since)) :
    StatusInvariant observations
      { s with
        state := some (state.startPausedAt (observations i).instant)
        applied := observations i :: s.applied } := by
  obtain ⟨-, hthrough, hnone⟩ := h.paused state present since later.1
  refine ⟨?_, by simp, ?_, ?_, ?_, h.transitions⟩
  · intro a ha
    rcases List.mem_cons.mp ha with rfl | ha
    · exact ⟨i, rfl⟩
    · exact h.applied a ha
  · rintro next ⟨⟩
    exact h.observed state present
  · rintro next ⟨⟩ a ha
    rcases List.mem_cons.mp ha with rfl | ha
    · exact within
    · exact h.newest state present a ha
  · rintro next ⟨⟩ start hstart
    obtain rfl : (observations i).instant = start := by
      simpa [StatusState.startPausedAt] using hstart
    refine ⟨paused.1, within, ?_⟩
    intro a ha hother hwithin
    rcases List.mem_cons.mp ha with rfl | ha
    · exact hother paused.2
    · by_cases hbefore : a.instant < since
      · exact keeps a ha hother ⟨hwithin.1, hbefore⟩
      · exact hnone a ha hother ⟨not_lt.mp hbefore, hwithin.2⟩

theorem transition {fromStatus : String} (h : StatusInvariant observations s)
    (differs : fromStatus ≠ (observations i).status) :
    StatusInvariant observations (upsertTransition
      (statusTransitionDocument sellerId itemId fromStatus (observations i)) s).2 := by
  refine ⟨h.applied, h.absent, h.observed, h.newest, h.paused, ?_⟩
  intro row hrow
  have hcases : row ∈ s.transitions.docs ∨
      row = statusTransitionDocument sellerId itemId fromStatus (observations i) := by
    simp only [upsertTransition] at hrow
    cases hinsert : s.transitions.insert
        (statusTransitionDocument sellerId itemId fromStatus (observations i)) with
    | some transitions =>
        rw [hinsert] at hrow
        exact (Collection.mem_insert hinsert).mp hrow
    | none =>
        rw [hinsert] at hrow
        rcases Collection.mem_replace.mp hrow with ⟨hmem, -⟩ | ⟨heq, -⟩
        · exact .inl hmem
        · exact .inr heq
  rcases hcases with hmem | rfl
  · exact h.transitions row hmem
  · exact ⟨differs, i, rfl, rfl⟩

end StatusInvariant

/-! ### Runs -/

variable [DecidableEq ι]

/-- Calls for all observations of an item without a state, about to start. -/
def beginObservations (sellerId itemId : String) (observations : ι → StatusObservation) :
    Pool ι StatusStore (StatusProgram (Except StatusError StatusResult)) where
  shared := ⟨none, .empty, []⟩
  control i := recordItemStatusObservation sellerId itemId (observations i)

variable {es : List (ι × StatusOp)}
variable {pool : Pool ι StatusStore (StatusProgram (Except StatusError StatusResult))}

theorem statusInvariant_of_run
    (distinct : ∀ i j, (observations i).instant = (observations j).instant → i = j)
    (run : Run (restrict Program.Step (Program.Allowed fun _ => KeepsPause))
      (beginObservations sellerId itemId observations) es pool) :
    StatusInvariant observations pool.shared := by
  refine Program.invariant_of_run (I := StatusInvariant observations)
    (c := fun i => observing sellerId itemId (observations i) (Applies (observations i)))
    (fun _ _ _ _ _ h => h.later) (fun _ => meets_recordItemStatusObservation) .empty ?_ run
  intro i s t h heffect
  cases heffect with
  | idle => exact h
  | insert absent => exact h.insert absent
  | replace state prior present _ expected newer => exact h.replace distinct present expected newer
  | preserve state since present paused later within keeps =>
      exact h.preserve present paused later within keeps
  | transition fromStatus differs => exact h.transition differs

/-- The state machine of an item, along every run that keeps each pause within one run of
paused observations. -/
theorem status_state_machine (sellerId itemId : String) (observations : ι → StatusObservation)
    (distinct : ∀ i j, (observations i).instant = (observations j).instant → i = j)
    (run : Run (restrict Program.Step (Program.Allowed fun _ => KeepsPause))
      (beginObservations sellerId itemId observations) es pool) :
    (∀ e pool', restrict Program.Step (Program.Allowed fun _ => KeepsPause) pool e pool' →
      Later pool.shared pool'.shared) ∧
    (∀ newest, (∀ i, ∃ result, pool.control i = .ret (.ok result)) →
      (∀ i, (observations i).instant ≤ (observations newest).instant) →
      ∃ state, pool.shared.state = some state ∧
        state.lastObservedAt = (observations newest).instant ∧
        state.currentStatus = (observations newest).status) ∧
    (∀ row ∈ pool.shared.transitions.docs, row.fromStatus ≠ row.toStatus ∧
      ∃ i, row.toStatus = (observations i).status ∧ row.observedAt = (observations i).instant) ∧
    (∀ state ∈ pool.shared.state, state.currentStatus = "paused" →
      ∀ since ∈ state.pausedSince, PausedThroughout pool.shared state since) := by
  have compatible : ∀ i j, i ≠ j → ∀ s t,
      (observing sellerId itemId (observations i) (Applies (observations i))).guar s t →
        (observing sellerId itemId (observations j) (Applies (observations j))).rely s t :=
    fun _ _ _ _ _ h => h.later
  have hstart : ∀ i, Program.Meets
      (observing sellerId itemId (observations i) (Applies (observations i))) KeepsPause
      ((beginObservations sellerId itemId observations).control i)
      (beginObservations sellerId itemId observations).shared :=
    fun _ => meets_recordItemStatusObservation
  have hinvariant := statusInvariant_of_run distinct run
  refine ⟨?_, ?_, hinvariant.transitions, ?_⟩
  · intro e pool' step
    exact Effect.later (Program.guar_of_step compatible hstart run step)
  · intro newest returned hnewest
    obtain ⟨result, hresult⟩ := returned newest
    obtain ⟨state, hstate, hle⟩ := Program.post_of_run compatible hstart run hresult result rfl
    obtain ⟨i, hi, hstatus⟩ := hinvariant.observed state hstate
    have hlast : (observations i).instant = (observations newest).instant :=
      le_antisymm (hnewest i) (hle.trans hi.ge)
    obtain rfl := distinct i newest hlast
    exact ⟨state, hstate, hi.symm, hstatus.symm⟩
  · intro state hstate _ since hsince
    exact (hinvariant.paused state hstate since hsince).2

/-- Active, paused, and paused again. -/
def pausedTwice : Fin 3 → StatusObservation
  | 0 => ⟨"active", 1000⟩
  | 1 => ⟨"paused", 3000⟩
  | 2 => ⟨"paused", 2000⟩

/-- The late paused observation moves the start of the pause back to itself. -/
theorem pausedTwice_since :
    ∃ es pool, Run (restrict Program.Step (Program.Allowed fun _ => KeepsPause))
      (beginObservations "82" "MLC1" pausedTwice) es pool ∧
      ∃ state, pool.shared.state = some state ∧ state.pausedSince = some 2000 ∧
        PausedThroughout pool.shared state 2000 := by
  have hrun : (perform (guarded (fun pool e => decide (KeepsPause pool.shared e.2)) Program.next)
      [0, 0, 1, 1, 1, 2, 2, 2] (beginObservations "82" "MLC1" pausedTwice)).any (fun result =>
        result.2.shared.state.any fun state =>
          state.pausedSince = some 2000 && state.currentStatus = "paused") = true := by
    decide +kernel
  obtain ⟨⟨es, pool⟩, hperform, hresult⟩ := (Option.any_eq_true _ _).mp hrun
  obtain ⟨state, hstate, hparts⟩ := (Option.any_eq_true _ _).mp hresult
  simp only [Bool.and_eq_true, decide_eq_true_eq] at hparts
  have run : Run (restrict Program.Step (Program.Allowed fun _ => KeepsPause))
      (beginObservations "82" "MLC1" pausedTwice) es pool := Program.run_of_guarded hperform
  have machine := status_state_machine "82" "MLC1" pausedTwice (by decide) run
  exact ⟨es, pool, run, state, hstate, hparts.1,
    machine.2.2.2 state hstate hparts.2 2000 hparts.1⟩

/-- Paused, active, and paused again. -/
def pausedAround : Fin 3 → StatusObservation
  | 0 => ⟨"paused", 1000⟩
  | 1 => ⟨"active", 2000⟩
  | 2 => ⟨"paused", 3000⟩

/-- The first observation comes last: the pause then starts before the active one. -/
theorem pausedAround_late :
    (∀ i j, (pausedAround i).instant = (pausedAround j).instant → i = j) ∧
    ∃ es pool, Run Program.Step (beginObservations "82" "MLC1" pausedAround) es pool ∧
      ∃ state, pool.shared.state = some state ∧ state.currentStatus = "paused" ∧
        state.pausedSince = some 1000 ∧ ¬ PausedThroughout pool.shared state 1000 := by
  refine ⟨by decide, ?_⟩
  have hrun : (perform Program.next [1, 1, 2, 2, 2, 0, 0, 0]
      (beginObservations "82" "MLC1" pausedAround)).any (fun result =>
        decide (pausedAround 1 ∈ result.2.shared.applied) &&
        result.2.shared.state.any fun state => state.currentStatus = "paused" &&
          state.pausedSince = some 1000 && state.lastObservedAt = 3000) = true := by
    decide +kernel
  obtain ⟨⟨es, pool⟩, hperform, hresult⟩ := (Option.any_eq_true _ _).mp hrun
  simp only [Bool.and_eq_true, decide_eq_true_eq] at hresult
  obtain ⟨happlied, hresult⟩ := hresult
  obtain ⟨state, hstate, hparts⟩ := (Option.any_eq_true _ _).mp hresult
  simp only [Bool.and_eq_true, decide_eq_true_eq] at hparts
  obtain ⟨⟨hpaused, hsince⟩, hlast⟩ := hparts
  refine ⟨es, pool, Program.run_of_schedule hperform, state, hstate, hpaused, hsince, ?_⟩
  rintro ⟨-, hnone⟩
  refine hnone _ happlied (by decide) ⟨by decide, ?_⟩
  rw [hlast]
  decide

end ZelerPlatform.Events
