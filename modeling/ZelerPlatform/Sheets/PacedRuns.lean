import ZelerPlatform.Sheets.Pacer

/-!
# Runs of the pacer

Of all the tasks that were ever started at most one serves, and one does as long as a caller is
in a queue. It does not wake before the next slot, so grants keep their distance. Every step in
which a turn is taken goes to a caller that waits, and brings the turns of the others nearer.
-/

namespace ZelerPlatform.Sheets.Pacer

open Transition

namespace State

variable {b : Budget} {s t : State} {lane : Lane} {i : Nat}

/-! ### The one task -/

/-- Callers in a queue are served by one task, and every task that serves is that one. -/
structure Served (s : State) : Prop where
  served : ∀ lane, s.pending lane ≠ [] → ∃ d, s.driver = some d ∧ (s.tasks d).Serving
  only : ∀ d, (s.tasks d).Serving → s.driver = some d
  current : ∀ d, s.driver = some d → (s.tasks d).Serving ∨ s.tasks d = .done
  spread : ∀ d, (s.tasks d).Serving → s.spreadRequests = true

theorem served_start (clock : Int) : (start clock).Served where
  served := by simp [start]
  only _ h := h.elim
  current := by simp [start]
  spread _ h := h.elim

theorem Served.congr (h : s.Served) (fewer : ∀ lane, t.pending lane ≠ [] → s.pending lane ≠ [])
    (driver : t.driver = s.driver) (tasks : t.tasks = s.tasks)
    (spread : t.spreadRequests = s.spreadRequests) : t.Served where
  served lane hne := by
    rw [driver, tasks]
    exact h.served lane (fewer lane hne)
  only := by
    rw [driver, tasks]
    exact h.only
  current := by
    rw [driver, tasks]
    exact h.current
  spread := by
    rw [tasks, spread]
    exact h.spread

theorem unserved_iff : s.unserved = true ↔ ∀ d, s.driver = some d → s.tasks d = .done := by
  rw [unserved]
  split
  case h_1 hnone => simp [hnone]
  case h_2 d hsome => simp [hsome]

theorem Served.acquire (h : s.Served) {lane : Option String} (explicit : lane.isSome) :
    (s.acquire lane).Served := by
  rw [State.acquire]
  split
  case h_1 => exact h
  case h_2 known _ =>
      dsimp only
      have hspread : (s.join known lane.isSome).spreadRequests = true := by
        simp [State.join, explicit]
      split
      case isTrue hunserved =>
          have hdone := unserved_iff.mp hunserved
          have honly (d : Nat) (hserving : ((s.join known lane.isSome).spawn.tasks d).Serving) :
              d = s.spawned := by
            by_contra hne
            simp only [State.spawn, State.join, Function.update_of_ne hne] at hserving
            have := hdone d (h.only d hserving)
            simp only [State.join] at this
            rw [this] at hserving
            exact hserving
          have hcreated : (s.join known lane.isSome).spawn.tasks s.spawned = .created :=
            Function.update_self _ _ _
          refine ⟨fun _ _ => ⟨s.spawned, rfl, ?_⟩, fun d hserving => ?_, fun d hdriver => ?_,
            fun _ _ => hspread⟩
          · rw [hcreated]
            trivial
          · rw [honly d hserving]
            rfl
          · obtain rfl : s.spawned = d := Option.some_inj.mp hdriver
            rw [hcreated]
            exact .inl trivial
      case isFalse hserved =>
          refine ⟨fun _ _ => ?_, h.only, h.current, fun _ _ => hspread⟩
          rw [unserved_iff] at hserved
          push Not at hserved
          obtain ⟨d, hdriver, hne⟩ := hserved
          exact ⟨d, hdriver, (h.current d hdriver).resolve_right hne⟩

theorem Served.dismiss (h : s.Served) (empty : ∀ lane, s.pending lane = []) :
    s.dismiss.Served := by
  rw [State.dismiss]
  split
  case h_1 => exact h
  case h_2 d hdriver =>
      have hnone (d' : Nat) (hserving : ((if s.tasks d = .done then s.tasks else
          Function.update s.tasks d .cancelled) d').Serving) : False := by
        by_cases heq : d' = d
        · subst heq
          split at hserving
          · rename_i hdone
            rw [hdone] at hserving
            exact hserving
          · rw [Function.update_self] at hserving
            exact hserving
        · have hold : (s.tasks d').Serving := by
            split at hserving
            · exact hserving
            · rwa [Function.update_of_ne heq] at hserving
          exact heq (Option.some_inj.mp ((h.only d' hold).symm.trans hdriver))
      exact ⟨fun lane hne => absurd (empty lane) hne, fun d' hserving => (hnone d' hserving).elim,
        by simp, fun d' hserving => (hnone d' hserving).elim⟩

theorem Served.leave (h : s.Served) : (s.leave i lane).Served := by
  have hgone : State.Served { s with
      pending := Function.update s.pending lane ((s.pending lane).erase i)
      left := Function.update s.left i true } := by
    refine h.congr (fun lane' hne hnil => hne ?_) rfl rfl rfl
    simp only [Function.update_apply]
    split
    · rename_i heq
      rw [← heq, hnil]
      rfl
    · exact hnil
  rw [State.leave]
  split
  case isTrue => exact hgone
  case isFalse hempty => exact hgone.dismiss (pending_of_not_anyPending hempty)

/-- A task that serves goes on, or ends when nobody waits. -/
theorem Served.update (h : s.Served) {d : Nat} {driver : Driver} (serving : (s.tasks d).Serving)
    (goes : driver.Serving ∨ driver = .done ∧ ∀ lane, s.pending lane = []) :
    State.Served { s with tasks := Function.update s.tasks d driver } := by
  have hdriver := h.only d serving
  have hold {d' : Nat} (hserving : (Function.update s.tasks d driver d').Serving) :
      (s.tasks d').Serving := by
    by_cases heq : d' = d
    · exact heq ▸ serving
    · rwa [Function.update_of_ne heq] at hserving
  refine ⟨fun lane hne => ⟨d, hdriver, ?_⟩, fun d' hserving => h.only d' (hold hserving),
    fun d' hcurrent => ?_, fun d' hserving => h.spread d' (hold hserving)⟩
  · have := goes.resolve_right fun hdone => hne (hdone.2 lane)
    simpa using this
  · obtain rfl : d = d' := Option.some_inj.mp (hdriver.symm.trans hcurrent)
    simp only [Function.update_self]
    exact goes.imp_right And.left

theorem Served.loop (h : s.Served) {d : Nat} (serving : (s.tasks d).Serving) :
    (s.loop d).Served := by
  rw [State.loop]
  split
  case isTrue => exact h.update serving (.inl trivial)
  case isFalse hempty =>
      exact h.update serving (.inr ⟨rfl, pending_of_not_anyPending hempty⟩)

/-- A task that does not serve may end. -/
theorem Served.finish (h : s.Served) {d : Nat} (cancelled : s.tasks d = .cancelled) :
    State.Served { s with tasks := Function.update s.tasks d .done } := by
  have hnot : ¬ (s.tasks d).Serving := by
    rw [cancelled]
    exact id
  have hold {d' : Nat} (hserving : (Function.update s.tasks d .done d').Serving) :
      d' ≠ d ∧ (s.tasks d').Serving := by
    by_cases heq : d' = d
    · subst heq
      rw [Function.update_self] at hserving
      exact hserving.elim
    · exact ⟨heq, by rwa [Function.update_of_ne heq] at hserving⟩
  refine ⟨fun lane hne => ?_, fun d' hserving => h.only d' (hold hserving).2,
    fun d' hcurrent => ?_, fun d' hserving => h.spread d' (hold hserving).2⟩
  · obtain ⟨d', hdriver, hserving⟩ := h.served lane hne
    refine ⟨d', hdriver, ?_⟩
    have hne : d' ≠ d := fun heq => hnot (heq ▸ hserving)
    simpa only [Function.update_of_ne hne] using hserving
  · have hne : d' ≠ d := by
      rintro rfl
      obtain hserving | hdone := h.current d' hcurrent
      · exact hnot hserving
      · cases cancelled.symm.trans hdone
    simpa only [Function.update_of_ne hne] using h.current d' hcurrent

theorem Served.fail (h : s.Served) {d : Nat} (serving : (s.tasks d).Serving) :
    (s.fail d).Served := by
  have hnone : State.Served { s with pending := fun _ => [] } :=
    ⟨fun lane hne => absurd rfl hne, h.only, h.current, h.spread⟩
  exact (hnone.update serving (.inr ⟨rfl, fun _ => rfl⟩)).congr (fun _ hne => hne) rfl rfl rfl

/-! ### Steps -/

/-- The state at another time, maybe in a new window. -/
def Opened (s t : State) : Prop :=
  ∃ clock windowStart used,
    t = { s with clock := clock, windowStart := windowStart, used := used } ∧
      (used = s.used ∨ used = 0)

theorem Opened.refl (s : State) : s.Opened s := ⟨_, _, _, rfl, .inl rfl⟩

theorem opened_clock (s : State) (clock : Int) : s.Opened { s with clock := clock } :=
  ⟨_, _, _, rfl, .inl rfl⟩

theorem Opened.newWindow (h : s.Opened t) (now : Int) (c : Prop) [Decidable c] :
    s.Opened (if c then t.newWindow now else t) := by
  obtain ⟨clock, windowStart, used, rfl, hused⟩ := h
  split
  · exact ⟨clock, some now, 0, rfl, .inr rfl⟩
  · exact ⟨clock, windowStart, used, rfl, hused⟩

/-- What one step can do. -/
inductive Move (b : Budget) (s : State) : Event → State → Prop
  | acquire (lane : Option String) (explicit : lane.isSome) :
      Move b s (.acquire lane) (s.acquire lane)
  | cancel (i : Nat) (arrived : i < s.arrivals.length) : Move b s (.cancel i) (s.cancel i)
  | leave (i : Nat) (lane : Lane) (arrived : s.arrivals[i]? = some lane)
      (ready : s.futures i ≠ .waiting) : Move b s (.leave i) (s.leave i lane)
  | begin {first second third : Int} (d : Nat) (opened : State) (h : s.Opened opened)
      (serving : (s.tasks d).Serving) :
      Move b s (.resume d first second third) (opened.loop d)
  | sleep {first second third : Int} (d : Nat) (opened : State) (h : s.Opened opened)
      (serving : (s.tasks d).Serving) (wakeAt : Int) (exhausted : Bool)
      (late : ∀ next, s.nextGrantAt = some next → next ≤ wakeAt) :
      Move b s (.resume d first second third) { opened with
        tasks := Function.update opened.tasks d (.asleep wakeAt exhausted) }
  | turn {first second third : Int} (d : Nat) (opened : State) (h : s.Opened opened)
      (serving : (s.tasks d).Serving) (waited : Bool)
      (late : ∀ next, s.nextGrantAt = some next → next ≤ third) :
      Move b s (.resume d first second third)
        ((select b waited third laneRotation.length opened).loop d)
  | finish {first second third : Int} (d : Nat) (opened : State) (h : s.Opened opened)
      (cancelled : s.tasks d = .cancelled) :
      Move b s (.resume d first second third)
        { opened with tasks := Function.update opened.tasks d .done }
  | fail (d : Nat) (serving : (s.tasks d).Serving) : Move b s (.timerFails d) (s.fail d)

theorem le_remaining (b : Budget) (spread : s.spreadRequests = true) {next : Int}
    (h : s.nextGrantAt = some next) (now : Int) : next - now ≤ s.remaining b now := by
  rw [remaining, h, spread]
  exact le_max_right _ _

/-- No task wakes before the next slot. -/
def Late (s : State) : Prop :=
  ∀ d wakeAt exhausted, s.tasks d = .asleep wakeAt exhausted →
    ∀ next, s.nextGrantAt = some next → next ≤ wakeAt

theorem move_serve (served : s.Served) {d : Nat} {first second third : Int}
    (serving : (s.tasks d).Serving) (opened : s.Opened t) (hsecond : first ≤ second)
    (hthird : second ≤ third) :
    Move b s (.resume d first second third) (t.serve b d first second third) := by
  have hspread := served.spread d serving
  rw [State.serve]
  have hopened := opened.newWindow first (t.windowOver first = true)
  generalize (if t.windowOver first = true then t.newWindow first else t) = u at hopened
  obtain ⟨clock, windowStart, used, rfl, hused⟩ := id hopened
  dsimp only
  split
  case isTrue hlong =>
      refine .sleep d _ hopened serving _ _ fun next hnext => ?_
      have := le_remaining b (s := { s with
        clock := clock, windowStart := windowStart, used := used }) hspread hnext first
      omega
  case isFalse hshort =>
      rw [State.slot]
      refine .turn d _ (hopened.newWindow _ _) serving _ fun next hnext => ?_
      have := le_remaining b (s := { s with
        clock := clock, windowStart := windowStart, used := used }) hspread hnext first
      omega

theorem move_of_step (served : s.Served) (late : s.Late) {e : Event} (named : e.Named)
    (h : Step b s e t) : Move b s e t := by
  rw [Step] at h
  cases e with
  | acquire lane =>
      obtain rfl := Option.some_inj.mp h
      exact .acquire lane named
  | cancel i =>
      obtain ⟨hlt, heq⟩ := Option.ite_none_right_eq_some.mp h
      obtain rfl := Option.some_inj.mp heq
      exact .cancel i hlt
  | leave i =>
      obtain ⟨lane, hlane, hrest⟩ := Option.bind_eq_some_iff.mp h
      obtain ⟨hready, heq⟩ := Option.ite_none_left_eq_some.mp hrest
      obtain rfl := Option.some_inj.mp heq
      exact .leave i lane hlane fun hwaiting => hready (.inl hwaiting)
  | resume d first second third =>
      obtain ⟨⟨-, hsecond, hthird⟩, hrest⟩ := Option.ite_none_right_eq_some.mp h
      have hopened := opened_clock s third
      dsimp only at hrest
      split at hrest
      case h_1 hcreated =>
          obtain rfl := Option.some_inj.mp hrest
          exact .begin d _ hopened (hcreated ▸ trivial)
      case h_2 hyielded =>
          obtain rfl := Option.some_inj.mp hrest
          exact move_serve served (hyielded ▸ trivial) hopened hsecond hthird
      case h_3 wakeAt exhausted hasleep =>
          obtain ⟨hwake, heq⟩ := Option.ite_none_right_eq_some.mp hrest
          obtain rfl := Option.some_inj.mp heq
          rw [State.slot]
          refine .turn d _ (hopened.newWindow _ _) (hasleep ▸ trivial) _ fun next hnext => ?_
          exact (late d wakeAt exhausted hasleep next hnext).trans (hwake.trans hthird)
      case h_4 hcancelled =>
          obtain rfl := Option.some_inj.mp hrest
          exact .finish d _ hopened hcancelled
      case h_5 => cases hrest
  | timerFails d =>
      simp only [State.next] at h
      split at h
      case h_1 wakeAt exhausted hasleep =>
          obtain rfl := Option.some_inj.mp h
          exact .fail d (hasleep ▸ trivial)
      case h_2 => cases h

/-! ### Invariants -/

variable {e : Event}

theorem Queues.opened (h : s.Queues) (opened : s.Opened t) : t.Queues := by
  obtain ⟨clock, windowStart, used, rfl, -⟩ := opened
  exact h.congr rfl rfl rfl rfl

theorem Served.opened (h : s.Served) (opened : s.Opened t) : t.Served := by
  obtain ⟨clock, windowStart, used, rfl, -⟩ := opened
  exact h.congr (fun _ hne => hne) rfl rfl rfl

theorem Opened.tasks (h : s.Opened t) : t.tasks = s.tasks := by
  obtain ⟨clock, windowStart, used, rfl, -⟩ := h
  rfl

theorem Opened.nextGrantAt (h : s.Opened t) : t.nextGrantAt = s.nextGrantAt := by
  obtain ⟨clock, windowStart, used, rfl, -⟩ := h
  rfl

theorem Queues.leave (h : s.Queues) (ready : s.futures i ≠ .waiting) :
    (s.leave i lane).Queues := by
  have hgone : State.Queues { s with
      pending := Function.update s.pending lane ((s.pending lane).erase i)
      left := Function.update s.left i true } := by
    suffices hshrunk : State.Queues { s with
        pending := Function.update s.pending lane ((s.pending lane).erase i) } from
      hshrunk.congr rfl rfl rfl rfl
    refine h.shrink (fun lane' => ?_) fun lane' j mem hwaiting => ?_
    · simp only [Function.update_apply]
      split
      · rename_i heq
        exact heq ▸ List.erase_sublist
      · exact List.Sublist.refl _
    · simp only [Function.update_apply]
      split
      · rename_i heq
        subst heq
        have hne : j ≠ i := fun heq => ready (heq ▸ hwaiting)
        exact (List.mem_erase_of_ne hne).mpr mem
      · exact mem
  rw [State.leave]
  split
  case isTrue => exact hgone
  case isFalse =>
      rw [State.dismiss]
      split
      · exact hgone
      · exact hgone.congr rfl rfl rfl rfl

theorem Queues.acquire (h : s.Queues) (lane : Option String) : (s.acquire lane).Queues := by
  rw [State.acquire]
  split
  case h_1 => exact h
  case h_2 known _ =>
      dsimp only
      split
      · exact (h.join lane.isSome).congr rfl rfl rfl rfl
      · exact h.join lane.isSome

theorem Queues.move (h : s.Queues) (move : Move b s e t) : t.Queues := by
  cases move with
  | acquire lane _ => exact h.acquire lane
  | cancel i _ => exact h.cancel
  | leave i lane _ ready => exact h.leave ready
  | begin d opened hopened _ => exact (h.opened hopened).congr rfl rfl rfl rfl
  | sleep d opened hopened _ wakeAt exhausted _ =>
      exact (h.opened hopened).congr rfl rfl rfl rfl
  | turn d opened hopened _ waited _ =>
      exact ((h.opened hopened).select waited _ laneRotation.length).congr rfl rfl rfl rfl
  | finish d opened hopened _ => exact (h.opened hopened).congr rfl rfl rfl rfl
  | fail d _ => exact h.fail d

theorem Served.move (h : s.Served) (move : Move b s e t) : t.Served := by
  cases move with
  | acquire lane explicit => exact h.acquire explicit
  | cancel i _ =>
      rw [State.cancel]
      split
      · exact h.congr (fun _ hne => hne) rfl rfl rfl
      · exact h
  | leave i lane _ _ => exact h.leave
  | begin d opened hopened serving => exact (h.opened hopened).loop (hopened.tasks ▸ serving)
  | sleep d opened hopened serving wakeAt exhausted _ =>
      exact (h.opened hopened).update (hopened.tasks ▸ serving) (.inl trivial)
  | @turn _ _ third d opened hopened serving waited _ =>
      have hframe := frame_select (b := b) opened waited third laneRotation.length
      refine Served.loop ((h.opened hopened).congr hframe.fewer hframe.driver hframe.tasks
        hframe.spreadRequests) ?_
      rw [hframe.tasks, hopened.tasks]
      exact serving
  | finish d opened hopened cancelled => exact (h.opened hopened).finish (hopened.tasks ▸ cancelled)
  | fail d serving => exact h.fail serving

/-- No task sleeps but the one that serves. -/
theorem Late.of_tasks {d : Nat} (h : s.Late) (tasks : ∀ d' ≠ d, ∀ wakeAt exhausted,
      t.tasks d' = .asleep wakeAt exhausted → s.tasks d' = .asleep wakeAt exhausted)
    (own : ∀ wakeAt exhausted, t.tasks d = .asleep wakeAt exhausted →
      ∀ next, s.nextGrantAt = some next → next ≤ wakeAt)
    (next : t.nextGrantAt = s.nextGrantAt) : t.Late := by
  intro d' wakeAt exhausted hasleep
  rw [next]
  by_cases heq : d' = d
  · subst heq
    exact own wakeAt exhausted hasleep
  · exact h d' wakeAt exhausted (tasks d' heq wakeAt exhausted hasleep)

theorem loop_tasks_self (s : State) (d : Nat) (wakeAt : Int) (exhausted : Bool) :
    (s.loop d).tasks d ≠ .asleep wakeAt exhausted := by
  simp only [loop, Function.update_self]
  split <;> simp

theorem Late.move (h : s.Late) (served : s.Served) (move : Move b s e t) : t.Late := by
  cases move with
  | acquire lane _ =>
      rw [State.acquire]
      split
      case h_1 => exact h
      case h_2 known _ =>
          dsimp only
          split
          · refine h.of_tasks (d := s.spawned) (fun d' hne wakeAt exhausted hasleep => ?_)
              (fun wakeAt exhausted hasleep => ?_) rfl
            · simpa only [State.spawn, State.join, Function.update_of_ne hne] using hasleep
            · simp [State.spawn, State.join] at hasleep
          · exact h
  | cancel i _ =>
      rw [State.cancel]
      split <;> exact h
  | leave i lane _ _ =>
      rw [State.leave]
      split
      · exact h
      · rw [State.dismiss]
        split
        · exact h
        · rename_i d _
          refine h.of_tasks (d := d) (fun d' hne wakeAt exhausted hasleep => ?_)
            (fun wakeAt exhausted hasleep => ?_) rfl
          · dsimp only at hasleep
            split at hasleep
            · exact hasleep
            · simpa only [Function.update_of_ne hne] using hasleep
          · dsimp only at hasleep
            split at hasleep
            · exact h d wakeAt exhausted hasleep
            · simp at hasleep
  | begin d opened hopened _ =>
      refine h.of_tasks (d := d) (fun d' hne wakeAt exhausted hasleep => ?_)
        (fun wakeAt exhausted hasleep => (loop_tasks_self _ _ _ _ hasleep).elim)
        hopened.nextGrantAt
      simpa only [State.loop, Function.update_of_ne hne, hopened.tasks] using hasleep
  | sleep d opened hopened _ wakeAt exhausted late =>
      refine h.of_tasks (d := d) (fun d' hne wakeAt exhausted hasleep => ?_)
        (fun wakeAt' exhausted' hasleep => ?_) hopened.nextGrantAt
      · simpa only [Function.update_of_ne hne, hopened.tasks] using hasleep
      · simp only [Function.update_self, Driver.asleep.injEq] at hasleep
        exact hasleep.1 ▸ late
  | @turn _ _ third d opened hopened serving waited _ =>
      -- Any other task that slept would serve too.
      intro d' wakeAt exhausted hasleep
      have hne : d' ≠ d := by
        rintro rfl
        exact loop_tasks_self _ _ _ _ hasleep
      have hframe := frame_select (b := b) opened waited third laneRotation.length
      simp only [State.loop, Function.update_of_ne hne, hframe.tasks, hopened.tasks] at hasleep
      have hserving : (s.tasks d').Serving := by
        rw [hasleep]
        trivial
      exact absurd (Option.some_inj.mp ((served.only d' hserving).symm.trans
        (served.only d serving))) hne
  | finish d opened hopened _ =>
      refine h.of_tasks (d := d) (fun d' hne wakeAt exhausted hasleep => ?_)
        (fun wakeAt exhausted hasleep => ?_) hopened.nextGrantAt
      · simpa only [Function.update_of_ne hne, hopened.tasks] using hasleep
      · simp at hasleep
  | fail d _ =>
      refine h.of_tasks (d := d) (fun d' hne wakeAt exhausted hasleep => ?_)
        (fun wakeAt exhausted hasleep => ?_) rfl
      · simpa only [State.fail, Function.update_of_ne hne] using hasleep
      · simp [State.fail] at hasleep

/-- Grants keep the interval, and the next one comes an interval after the last one. -/
structure Times (b : Budget) (s : State) : Prop where
  spaced : s.grants.Pairwise fun g h => g.time + b.interval ≤ h.time
  next : ∀ g ∈ s.grants, ∃ next, s.nextGrantAt = some next ∧ g.time + b.interval ≤ next

theorem Times.slot (h : s.Times b) (slot : Slot b s t) (positive : 0 ≤ b.interval) :
    t.Times b := by
  cases slot with
  | none grants next _ =>
      refine ⟨grants ▸ h.spaced, ?_⟩
      rw [grants, next]
      exact h.next
  | grant lane i now waits spaced grants next _ =>
      have hbefore (g : Grant) (mem : g ∈ s.grants) : g.time + b.interval ≤ now := by
        obtain ⟨at_, heq, hle⟩ := h.next g mem
        exact hle.trans (spaced at_ heq)
      refine ⟨?_, fun g mem => ⟨_, next, ?_⟩⟩
      · rw [grants, List.pairwise_append]
        refine ⟨h.spaced, List.pairwise_singleton _ _, fun g mem g' hg' => ?_⟩
        rw [List.mem_singleton] at hg'
        exact hg' ▸ hbefore g mem
      · rw [grants, List.mem_append, List.mem_singleton] at mem
        cases mem with
        | inl mem => have := hbefore g mem; omega
        | inr heq => rw [heq]

theorem Slot.of_opened (opened : s.Opened t) {u : State} (slot : Slot b t u) : Slot b s u := by
  obtain ⟨clock, windowStart, used, rfl, hused⟩ := opened
  cases slot with
  | none grants next h =>
      refine .none grants next ?_
      simp only at h
      omega
  | grant lane i now waits spaced grants next h =>
      refine .grant lane i now waits spaced grants next ?_
      simp only at h
      omega

theorem Slot.refl (s : State) : Slot b s s := .none rfl rfl (.inl rfl)

/-- A step in which no turn is taken. -/
structure Quiet (s t : State) : Prop where
  grants : t.grants = s.grants
  next : t.nextGrantAt = s.nextGrantAt
  used : t.used = s.used ∨ t.used = 0
  cursor : t.cursor = s.cursor
  arrivals : s.arrivals.length ≤ t.arrivals.length
  cancelled : ∀ i < s.arrivals.length, s.futures i = .cancelled → t.futures i = .cancelled

theorem Quiet.of_eq (grants : t.grants = s.grants) (next : t.nextGrantAt = s.nextGrantAt)
    (used : t.used = s.used) (cursor : t.cursor = s.cursor) (arrivals : t.arrivals = s.arrivals)
    (futures : t.futures = s.futures) : Quiet s t :=
  ⟨grants, next, .inl used, cursor, (congrArg List.length arrivals).ge,
    fun _ _ h => futures ▸ h⟩

theorem Opened.quiet (h : s.Opened t) : Quiet s t := by
  obtain ⟨clock, windowStart, used, rfl, hused⟩ := h
  exact ⟨rfl, rfl, hused, rfl, le_rfl, fun _ _ h => h⟩

theorem Quiet.trans {u : State} (h : Quiet s t) (h' : Quiet t u) : Quiet s u where
  grants := h'.grants.trans h.grants
  next := h'.next.trans h.next
  used := by
    have := h.used
    have := h'.used
    omega
  cursor := h'.cursor.trans h.cursor
  arrivals := h.arrivals.trans h'.arrivals
  cancelled i hlt hcancelled :=
    h'.cancelled i (hlt.trans_le h.arrivals) (h.cancelled i hlt hcancelled)

theorem quiet_join (s : State) (lane : Lane) (explicit : Bool) :
    Quiet s (s.join lane explicit) where
  grants := rfl
  next := rfl
  used := .inl rfl
  cursor := rfl
  arrivals := by simp [join]
  cancelled i hlt hcancelled := (Function.update_of_ne hlt.ne _ _).trans hcancelled

theorem quiet_or_turn (move : Move b s e t) : Quiet s t ∨ ∃ d opened waited third,
    s.Opened opened ∧ (∀ next, s.nextGrantAt = some next → next ≤ third) ∧
      t = (State.select b waited third laneRotation.length opened).loop d := by
  cases move with
  | acquire lane _ =>
      left
      rw [State.acquire]
      split
      case h_1 => exact .of_eq rfl rfl rfl rfl rfl rfl
      case h_2 known _ =>
          dsimp only
          split
          · exact (quiet_join s known lane.isSome).trans (.of_eq rfl rfl rfl rfl rfl rfl)
          · exact quiet_join s known lane.isSome
  | cancel i _ =>
      left
      rw [State.cancel]
      split
      · refine ⟨rfl, rfl, .inl rfl, rfl, le_rfl, fun j _ hcancelled => ?_⟩
        simp only [Function.update_apply]
        split
        · rfl
        · exact hcancelled
      · exact .of_eq rfl rfl rfl rfl rfl rfl
  | leave i lane _ _ =>
      left
      rw [State.leave]
      split
      · exact .of_eq rfl rfl rfl rfl rfl rfl
      · rw [State.dismiss]
        split <;> exact .of_eq rfl rfl rfl rfl rfl rfl
  | begin d opened hopened _ =>
      exact .inl (hopened.quiet.trans (.of_eq rfl rfl rfl rfl rfl rfl))
  | sleep d opened hopened _ wakeAt exhausted _ =>
      exact .inl (hopened.quiet.trans (.of_eq rfl rfl rfl rfl rfl rfl))
  | @turn _ _ third d opened hopened _ waited late =>
      exact .inr ⟨d, opened, waited, third, hopened, late, rfl⟩
  | finish d opened hopened _ =>
      exact .inl (hopened.quiet.trans (.of_eq rfl rfl rfl rfl rfl rfl))
  | fail d _ =>
      refine .inl ⟨rfl, rfl, .inl rfl, rfl, le_rfl, fun i _ hcancelled => ?_⟩
      simp only [State.fail]
      rw [if_neg (by simp [hcancelled]), hcancelled]

/-- No step takes more than one slot, and none for a caller that does not wait. -/
theorem Queues.slot (h : s.Queues) (move : Move b s e t) : Slot b s t := by
  obtain hquiet | ⟨d, opened, waited, third, hopened, late, rfl⟩ := quiet_or_turn move
  · exact .none hquiet.grants hquiet.next hquiet.used
  · have hslot := (h.opened hopened).slot_select (b := b) waited laneRotation.length
      (hopened.nextGrantAt ▸ late)
    refine .of_opened hopened ?_
    cases hslot with
    | none grants next used => exact .none grants next used
    | grant lane i now waits spaced grants next used =>
        exact .grant lane i now waits spaced grants next used

theorem cursor_move (h : s.cursor < laneRotation.length) (move : Move b s e t) :
    t.cursor < laneRotation.length := by
  obtain hquiet | ⟨d, opened, waited, third, hopened, -, rfl⟩ := quiet_or_turn move
  · exact hquiet.cursor ▸ h
  · rw [← hopened.quiet.cursor] at h
    exact select_cursor (s := opened) h waited third laneRotation.length

/-- While a caller of a lane waits, every slot is one of that lane or nearer to its turn. -/
theorem Queues.near (h : s.Queues) (cursor : s.cursor < laneRotation.length)
    (waits : s.Waits lane i) (move : Move b s e t) :
    t.grants = s.grants ∧ t.cursor = s.cursor ∨ ∃ g, t.grants = s.grants ++ [g] ∧
      (g.lane = lane ∨ Turns.wait laneRotation lane t.cursor <
        Turns.wait laneRotation lane s.cursor) := by
  obtain hquiet | ⟨d, opened, waited, third, hopened, -, rfl⟩ := quiet_or_turn move
  · exact .inl ⟨hquiet.grants, hquiet.cursor⟩
  · obtain ⟨clock, windowStart, used, rfl, hused⟩ := id hopened
    exact .inr ((h.opened hopened).select_near cursor waits
      (Turns.wait_lt (mem_laneRotation lane) _))

/-- Who was cancelled stays so. -/
theorem Queues.stays_cancelled (h : s.Queues) (move : Move b s e t) (hlt : i < s.arrivals.length)
    (hcancelled : s.futures i = .cancelled) :
    i < t.arrivals.length ∧ t.futures i = .cancelled := by
  obtain hquiet | ⟨d, opened, waited, third, hopened, -, rfl⟩ := quiet_or_turn move
  · exact ⟨hlt.trans_le hquiet.arrivals, hquiet.cancelled i hlt hcancelled⟩
  · have hselect : i < (State.select b waited third laneRotation.length opened).arrivals.length ∧
        (State.select b waited third laneRotation.length opened).futures i = .cancelled := by
      refine select_rule
        (P := fun t => t.Queues ∧ i < t.arrivals.length ∧ t.futures i = .cancelled)
        (Q := fun t => i < t.arrivals.length ∧ t.futures i = .cancelled)
        (fun t ht => ht.2) (fun t lane _ ht => ⟨ht.1.pass, ht.2⟩) ?_ laneRotation.length
        ⟨h.opened hopened, hlt.trans_le hopened.quiet.arrivals,
          hopened.quiet.cancelled i hlt hcancelled⟩
      rintro t lane j rest - ⟨hqueues, hlt', hcancelled'⟩ front
      refine ⟨hlt', (Function.update_of_ne ?_ _ _).trans hcancelled'⟩
      rintro rfl
      cases hcancelled'.symm.trans (hqueues.front_waits front).2
    exact hselect

theorem update_failed {futures : Nat → Future} {j : Nat} {future : Future}
    (hne : future ≠ .failed) (h : Function.update futures j future i = .failed) :
    futures i = .failed := by
  rw [Function.update_apply] at h
  split at h
  · exact absurd h hne
  · exact h

/-- Only a timer that fails lets callers fail. -/
theorem failed_of_move (move : Move b s e t) (failed : t.futures i = .failed) :
    s.futures i = .failed ∨ ∃ d, e = .timerFails d := by
  cases move with
  | acquire lane _ =>
      left
      rw [State.acquire] at failed
      split at failed
      case h_1 => exact failed
      case h_2 =>
          dsimp only at failed
          split at failed <;> exact update_failed (by simp) failed
  | cancel j _ =>
      left
      rw [State.cancel] at failed
      split at failed
      · exact update_failed (by simp) failed
      · exact failed
  | leave j lane _ _ =>
      left
      rw [State.leave] at failed
      split at failed
      · exact failed
      · rw [State.dismiss] at failed
        split at failed <;> exact failed
  | begin d opened hopened _ =>
      obtain ⟨clock, windowStart, used, rfl, -⟩ := hopened
      exact .inl failed
  | sleep d opened hopened _ wakeAt exhausted _ =>
      obtain ⟨clock, windowStart, used, rfl, -⟩ := hopened
      exact .inl failed
  | @turn _ _ third d opened hopened _ waited _ =>
      left
      have hselect : (State.select b waited third laneRotation.length opened).futures i = .failed →
          opened.futures i = .failed :=
        select_rule (P := fun t => t.futures i = .failed → opened.futures i = .failed)
          (fun _ h => h) (fun _ _ _ h => h)
          (fun _ _ _ _ _ h _ hfailed => h (update_failed (by simp) hfailed)) _ id
      have := hselect failed
      obtain ⟨clock, windowStart, used, rfl, -⟩ := hopened
      exact this
  | finish d opened hopened _ =>
      obtain ⟨clock, windowStart, used, rfl, -⟩ := hopened
      exact .inl failed
  | fail d _ => exact .inr ⟨d, rfl⟩

/-! ### Runs -/

/-- What holds in every state that is reached. -/
structure Inv (b : Budget) (s : State) : Prop where
  queues : s.Queues
  served : s.Served
  late : s.Late
  times : s.Times b
  cursor : s.cursor < laneRotation.length

end State

theorem Budget.le_interval (b : Budget) : window ≤ b.perMinute * b.interval := by
  have := b.within
  have hpos : (0 : Int) < b.perMinute := by omega
  have hdiv := Int.lt_mul_ediv_self_add (x := window + (b.perMinute - 1)) hpos
  rw [Budget.interval]
  omega

theorem Budget.interval_nonneg (b : Budget) : 0 ≤ b.interval := by
  have := b.within
  refine Int.ediv_nonneg ?_ (by omega)
  simp only [window]
  omega

open State

variable {b : Budget} {clock : Int} {events : List Event} {s t : State}

theorem inv_start (b : Budget) (clock : Int) : (State.start clock).Inv b where
  queues := queues_start clock
  served := served_start clock
  late := by simp [State.Late, State.start]
  times := ⟨by simp [State.start], by simp [State.start]⟩
  cursor := by simp [State.start, laneRotation]

theorem State.Inv.move (h : s.Inv b) {e : Event} (move : Move b s e t) : t.Inv b where
  queues := h.queues.move move
  served := h.served.move move
  late := h.late.move h.served move
  times := h.times.slot (h.queues.slot move) b.interval_nonneg
  cursor := cursor_move h.cursor move

/-- A step of a run in which every call names a lane. -/
abbrev NamedStep (b : Budget) : State → Event → State → Prop :=
  restrict (Step b) fun _ e => e.Named

theorem State.Inv.move_of_step (h : s.Inv b) {e : Event} (step : NamedStep b s e t) :
    Move b s e t :=
  State.move_of_step h.served h.late step.1 step.2

theorem State.Inv.run (h : s.Inv b) (run : Run (NamedStep b) s events t) : t.Inv b :=
  run.state_invariant h fun hinv step => hinv.move (hinv.move_of_step step)

/-- No slot goes to a caller after it was cancelled. -/
theorem State.Inv.cancelled_run (h : s.Inv b) {i : Nat} (hlt : i < s.arrivals.length)
    (cancelled : s.futures i = .cancelled) (run : Run (NamedStep b) s events t) :
    i ∉ t.grants.map Grant.caller := by
  have hrun : t.Inv b ∧ i < t.arrivals.length ∧ t.futures i = .cancelled :=
    run.state_invariant (P := fun t => t.Inv b ∧ i < t.arrivals.length ∧ t.futures i = .cancelled)
      ⟨h, hlt, cancelled⟩ fun hinv step =>
        ⟨hinv.1.move (hinv.1.move_of_step step),
          hinv.1.queues.stays_cancelled (hinv.1.move_of_step step) hinv.2.1 hinv.2.2⟩
  rw [List.mem_map]
  rintro ⟨g, mem, rfl⟩
  obtain ⟨-, waited, hgranted⟩ := hrun.1.queues.granted g mem
  cases hrun.2.2.symm.trans hgranted

/-- Along a run in which a lane always has a caller that waits, its turn comes nearer. -/
theorem State.Inv.fair_run (h : s.Inv b) {lane : Lane}
    (run : Run (restrict (NamedStep b) fun s _ => ∃ i, s.Waits lane i) s events t) :
    ∃ grants, t.grants = s.grants ++ grants ∧ ((∃ g ∈ grants.take laneRotation.length,
      g.lane = lane) ∨ grants.length + Turns.wait laneRotation lane t.cursor ≤
        Turns.wait laneRotation lane s.cursor) := by
  have hrun : t.Inv b ∧ ∃ grants, t.grants = s.grants ++ grants ∧
      ((∃ g ∈ grants.take laneRotation.length, g.lane = lane) ∨
        grants.length + Turns.wait laneRotation lane t.cursor ≤
          Turns.wait laneRotation lane s.cursor) := by
    refine run.state_invariant (P := fun t => t.Inv b ∧ ∃ grants, t.grants = s.grants ++ grants ∧
      ((∃ g ∈ grants.take laneRotation.length, g.lane = lane) ∨
        grants.length + Turns.wait laneRotation lane t.cursor ≤
          Turns.wait laneRotation lane s.cursor)) ⟨h, [], by simp, .inr (by simp)⟩ ?_
    rintro t e u ⟨hinv, grants, hgrants, hfair⟩ ⟨⟨i, hwaits⟩, hstep⟩
    have hmove := hinv.move_of_step hstep
    refine ⟨hinv.move hmove, ?_⟩
    obtain ⟨hsame, hcursor⟩ | ⟨g, hnew, hg⟩ := hinv.queues.near hinv.cursor hwaits hmove
    · exact ⟨grants, hsame.trans hgrants, hcursor ▸ hfair⟩
    · refine ⟨grants ++ [g], by rw [hnew, hgrants, List.append_assoc], ?_⟩
      cases hfair with
      | inl hfound =>
          obtain ⟨g', mem, hlane⟩ := hfound
          refine .inl ⟨g', ?_, hlane⟩
          rw [List.take_append]
          exact List.mem_append_left _ mem
      | inr hnear =>
          have hwait := Turns.wait_lt (mem_laneRotation lane) s.cursor
          cases hg with
          | inl hlane =>
              refine .inl ⟨g, ?_, hlane⟩
              have hshort : (grants ++ [g]).length ≤ laneRotation.length := by
                simp only [List.length_append, List.length_singleton]
                omega
              rw [List.take_of_length_le hshort]
              exact List.mem_append_right _ (List.mem_singleton_self g)
          | inr hlt =>
              right
              simp only [List.length_append, List.length_singleton]
              omega
  exact hrun.2

theorem failed_run (run : Run (NamedStep b) (State.start clock) events s) {i : Nat}
    (failed : s.futures i = .failed) : ∃ d, .timerFails d ∈ events := by
  have hrun : s.Inv b ∧ ∀ i, s.futures i = .failed → ∃ d, .timerFails d ∈ events := by
    refine run.invariant (P := fun es t => t.Inv b ∧
      ∀ i, t.futures i = .failed → ∃ d, .timerFails d ∈ es)
      ⟨inv_start b clock, by simp [State.start]⟩ ?_
    rintro es t e u - ⟨hinv, hold⟩ hstep
    have hmove := hinv.move_of_step hstep
    refine ⟨hinv.move hmove, fun i hfailed => ?_⟩
    obtain hbefore | ⟨d, rfl⟩ := State.failed_of_move hmove hfailed
    · obtain ⟨d, mem⟩ := hold i hbefore
      exact ⟨d, List.mem_append_left _ mem⟩
    · exact ⟨d, List.mem_append_right _ (List.mem_singleton_self _)⟩
  exact hrun.2 i failed

/-- A budget that is kept and lanes that are served in turn, in a state that a run reached. -/
structure Paced (b : Budget) (events : List Event) (s : State) : Prop where
  spaced : s.grants.Pairwise fun g h => g.time + b.interval ≤ h.time
  /-- In no minute are there more slots than the budget. -/
  within : ∀ lo, (s.grants.filter fun g => lo ≤ g.time ∧ g.time < lo + window).length ≤
    b.perMinute
  inOrder : s.grants.Pairwise fun g h => g.lane = h.lane → g.caller < h.caller
  /-- Who came before a caller with a slot in its lane has one too, or was cancelled. -/
  skipped : ∀ lane i j, i < j → s.arrivals[i]? = some lane → s.arrivals[j]? = some lane →
    j ∈ s.grants.map Grant.caller → i ∈ s.grants.map Grant.caller ∨ s.futures i = .cancelled ∨
      s.futures i = .failed ∧ ∃ d, .timerFails d ∈ events
  cancelled : ∀ i < s.arrivals.length, s.futures i = .cancelled → ∀ later t,
    Run (NamedStep b) s later t → i ∉ t.grants.map Grant.caller
  /-- A step takes a slot for a caller that waits, or it takes none. -/
  slots : ∀ e t, NamedStep b s e t → State.Slot b s t
  /-- Of four slots in a row one is that of a lane in which a caller always waits. -/
  fair : ∀ lane later t, Run (restrict (NamedStep b) fun s _ => ∃ i, s.Waits lane i) s later t →
    ∃ grants, t.grants = s.grants ++ grants ∧
      (4 ≤ grants.length → ∃ g ∈ grants.take 4, g.lane = lane)
  /-- While a caller waits one task serves. -/
  served : ∀ lane i, s.Waits lane i →
    ∃ d, s.driver = some d ∧ ∀ d', (s.tasks d').Serving ↔ d' = d

theorem paced (b : Budget) (run : Run (NamedStep b) (State.start clock) events s) :
    Paced b events s := by
  have hinv := (inv_start b clock).run run
  refine ⟨hinv.times.spaced, fun lo => ?_, hinv.queues.inOrder, ?_, ?_, ?_, ?_, ?_⟩
  · have hspaced := hinv.times.spaced
    rw [← List.pairwise_map (f := Grant.time) (R := fun t u => t + b.interval ≤ u)] at hspaced
    have hfew := Spaced.length_filter_le lo hspaced b.le_interval b.interval_nonneg
    rwa [List.filter_map, List.length_map] at hfew
  · intro lane i j hlt hi hj hgranted
    obtain ⟨g, mem, rfl⟩ := List.mem_map.mp hgranted
    obtain rfl : g.lane = lane :=
      Option.some_inj.mp ((hinv.queues.granted g mem).1.symm.trans hj)
    cases hfuture : s.futures i with
    | waiting =>
        have hbehind := hinv.queues.behind g mem i (hinv.queues.queued g.lane i ⟨hi, hfuture⟩)
        exact absurd hbehind hlt.asymm
    | granted waited =>
        obtain ⟨g', mem', hg'⟩ := hinv.queues.logged i (State.lt_of_arrived hi) waited hfuture
        exact .inl (List.mem_map.mpr ⟨g', mem', hg'⟩)
    | failed => exact .inr (.inr ⟨rfl, failed_run run hfuture⟩)
    | cancelled => exact .inr (.inl rfl)
  · exact fun i hlt hcancelled later t hrun => hinv.cancelled_run hlt hcancelled hrun
  · exact fun e t hstep => hinv.queues.slot (hinv.move_of_step hstep)
  · intro lane later t hrun
    obtain ⟨grants, hgrants, hfair⟩ := hinv.fair_run hrun
    refine ⟨grants, hgrants, fun hmany => hfair.resolve_right fun hnear => ?_⟩
    have hwait : Turns.wait laneRotation lane s.cursor < 4 :=
      Turns.wait_lt (mem_laneRotation lane) s.cursor
    omega
  · intro lane i hwaits
    obtain ⟨d, hdriver, hserving⟩ :=
      hinv.served.served lane (List.ne_nil_of_mem (hinv.queues.queued lane i hwaits))
    refine ⟨d, hdriver, fun d' => ⟨fun h => ?_, fun h => h ▸ hserving⟩⟩
    exact Option.some_inj.mp ((hinv.served.only d' h).symm.trans hdriver)

theorem run_next {u : State} (run : Run (NamedStep b) s events t) (e : Event) (named : e.Named)
    (h : t.next b e = some u) : Run (NamedStep b) s (events ++ [e]) u :=
  run.snoc ⟨named, h⟩

/-- Two callers come, and the first one gets its slot at once. -/
theorem paced_twoCallers : ∃ s, Run (NamedStep ⟨180, by decide⟩) (State.start 0)
    [.acquire (some "ids"), .acquire (some "ranges"), .resume 0 0 0 0, .resume 0 5 6 7] s ∧
    s.grants = [⟨0, .ids, 7⟩] ∧ Paced ⟨180, by decide⟩ [.acquire (some "ids"),
      .acquire (some "ranges"), .resume 0 0 0 0, .resume 0 5 6 7] s := by
  have hfirst : Run (NamedStep ⟨180, by decide⟩) (State.start 0) _ _ :=
    run_next .nil (.acquire (some "ids")) rfl rfl
  have hsecond := run_next hfirst (.acquire (some "ranges")) rfl rfl
  have hbegin := run_next hsecond (.resume 0 0 0 0) trivial rfl
  have hturn := run_next hbegin (.resume 0 5 6 7) trivial rfl
  exact ⟨_, hturn, by decide, paced _ hturn⟩

end ZelerPlatform.Sheets.Pacer
