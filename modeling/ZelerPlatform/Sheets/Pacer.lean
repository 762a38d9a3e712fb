import ZelerPlatform.Library.Run
import ZelerPlatform.Library.Turns

/-!
# The pacer of the recovery's requests

Callers wait in one queue for each lane, and one task grants them slots, a spaced budget in a
minute, lane after lane in rotation. Callers come, are cancelled and leave between any two
steps of the task; the one that leaves the queues empty takes the task away. A task that was
taken away ends with its next step.
-/

namespace ZelerPlatform.Sheets.Pacer

open Transition

/-! ### Lanes -/

inductive Lane
  | inventory
  | ids
  | ranges
  deriving DecidableEq, Repr

/-- `LANE_ROTATION`. -/
def laneRotation : List Lane := [.inventory, .ids, .ids, .ranges]

theorem mem_laneRotation (lane : Lane) : lane ∈ laneRotation := by
  cases lane <;> decide

def laneOf : String → Option Lane
  | "inventory" => some .inventory
  | "ids" => some .ids
  | "ranges" => some .ranges
  | _ => none

/-- `lane or "ids"`. -/
def named (lane : Option String) : String :=
  match lane with
  | none => "ids"
  | some name => if name = "" then "ids" else name

/-! ### State -/

/-- `WINDOW`, in microseconds. -/
def window : Int := 60000000

/-- `requests_per_minute`. -/
structure Budget where
  perMinute : Nat
  within : 1 ≤ perMinute ∧ perMinute ≤ 600

/-- `ceil(WINDOW / budget)`. -/
def Budget.interval (b : Budget) : Int := (window + (b.perMinute - 1)) / b.perMinute

/-- The future that a caller waits for. -/
inductive Future
  | waiting
  | granted (waited : Bool)
  | failed
  | cancelled
  deriving DecidableEq, Repr

/-- A task that serves, at the point where it is suspended. -/
inductive Driver
  | created
  | yielded
  | asleep (wakeAt : Int) (exhausted : Bool)
  | cancelled
  | done
  deriving DecidableEq, Repr

def Driver.Serving : Driver → Prop
  | created | yielded | asleep _ _ => True
  | cancelled | done => False

structure Grant where
  caller : Nat
  lane : Lane
  time : Int
  deriving DecidableEq, Repr

/-- The pacer and the loop that its callers and tasks run in. -/
structure State where
  windowStart : Option Int
  used : Nat
  spreadRequests : Bool
  nextGrantAt : Option Int
  pending : Lane → List Nat
  cursor : Nat
  driver : Option Nat
  clock : Int
  /-- The lanes of the callers in the order they came. -/
  arrivals : List Lane
  futures : Nat → Future
  left : Nat → Bool
  spawned : Nat
  tasks : Nat → Driver
  grants : List Grant

def State.start (clock : Int) : State where
  windowStart := none
  used := 0
  spreadRequests := false
  nextGrantAt := none
  pending := fun _ => []
  cursor := 0
  driver := none
  clock := clock
  arrivals := []
  futures := fun _ => .waiting
  left := fun _ => false
  spawned := 0
  tasks := fun _ => .done
  grants := []

namespace State

variable (b : Budget) (s : State)

/-- `any(self._pending.values())`. -/
def anyPending : Bool := laneRotation.any fun lane => !(s.pending lane).isEmpty

/-! ### Callers -/

/-- `self._driver is None or self._driver.done()`. -/
def unserved : Bool :=
  match s.driver with
  | none => true
  | some d => s.tasks d = .done

def spawn : State :=
  { s with
    driver := some s.spawned
    spawned := s.spawned + 1
    tasks := Function.update s.tasks s.spawned .created }

/-- A caller joins the queue of its lane. -/
def join (lane : Lane) (explicit : Bool) : State :=
  { s with
    spreadRequests := s.spreadRequests || explicit
    pending := Function.update s.pending lane (s.pending lane ++ [s.arrivals.length])
    arrivals := s.arrivals ++ [lane]
    futures := Function.update s.futures s.arrivals.length .waiting }

/-- `acquire`, up to where it waits. -/
def acquire (lane : Option String) : State :=
  match laneOf (named lane) with
  | none => s
  | some known =>
      let joined := s.join known lane.isSome
      if joined.unserved then joined.spawn else joined

/-- The caller is cancelled, or its deadline expires. -/
def cancel (i : Nat) : State :=
  if s.futures i = .waiting then { s with futures := Function.update s.futures i .cancelled }
  else s

/-- Without a caller in a queue the task is taken away. -/
def dismiss : State :=
  match s.driver with
  | none => s
  | some d =>
      { s with
        driver := none
        tasks := if s.tasks d = .done then s.tasks else Function.update s.tasks d .cancelled }

/-- What `acquire` does in the end. -/
def leave (i : Nat) (lane : Lane) : State :=
  let gone := { s with
    pending := Function.update s.pending lane ((s.pending lane).erase i)
    left := Function.update s.left i true }
  if gone.anyPending then gone else gone.dismiss

/-! ### The task -/

/-- A turn passes to the next lane. Cancelled callers leave the queue of this one. -/
def pass (lane : Lane) : State :=
  { s with
    cursor := (s.cursor + 1) % laneRotation.length
    pending := Function.update s.pending lane
      ((s.pending lane).dropWhile fun i => s.futures i = .cancelled) }

/-- The slot goes to the first caller of a lane. -/
def grant (lane : Lane) (i : Nat) (rest : List Nat) (waited : Bool) (now : Int) : State :=
  { s with
    pending := Function.update s.pending lane rest
    used := s.used + 1
    nextGrantAt := some (now + b.interval)
    futures := Function.update s.futures i (.granted waited)
    grants := s.grants ++ [⟨i, lane, now⟩] }

/-- `for _ in LANE_ROTATION`. -/
def select (waited : Bool) (now : Int) : Nat → State → State
  | 0, s => s
  | turns + 1, s =>
      match laneRotation[s.cursor]? with
      | none => s
      | some lane =>
          let passed := s.pass lane
          match passed.pending lane with
          | [] => select waited now turns passed
          | i :: rest => passed.grant b lane i rest waited now

/-- `while any(self._pending.values())`. -/
def loop (d : Nat) : State :=
  { s with tasks := Function.update s.tasks d (if s.anyPending then .yielded else .done) }

/-- A window that begins now. -/
def newWindow (now : Int) : State := { s with windowStart := some now, used := 0 }

/-- Whether the window is over, or none has begun. -/
def windowOver (now : Int) : Bool :=
  match s.windowStart with
  | none => true
  | some start => window ≤ now - start

/-- How long to wait for a slot. -/
def remaining (now : Int) : Int :=
  let inWindow := match s.windowStart with
    | some start => if b.perMinute ≤ s.used then max 0 (start + window - now) else 0
    | none => 0
  match s.nextGrantAt with
  | some next => if s.spreadRequests then max inWindow (next - now) else inWindow
  | none => inWindow

/-- The rest of `_serve` when a slot is there. -/
def slot (d : Nat) (exhausted waited : Bool) (now third : Int) : State :=
  let opened := if exhausted || s.windowOver now then s.newWindow now else s
  (select b waited third laneRotation.length opened).loop d

/-- `_wait_for_slot`, and what follows it if there is nothing to wait for. -/
def serve (d : Nat) (first second third : Int) : State :=
  let opened := if s.windowOver first then s.newWindow first else s
  let exhausted : Bool := b.perMinute ≤ opened.used
  if 0 < opened.remaining b first then
    { opened with
      tasks := Function.update opened.tasks d
        (.asleep (first + opened.remaining b first) exhausted) }
  else opened.slot b d exhausted false second third

/-- The timer of a task fails, and with it every caller that waits. -/
def fail (d : Nat) : State :=
  { s with
    pending := fun _ => []
    futures := fun i =>
      if (∃ lane ∈ laneRotation, i ∈ s.pending lane) ∧ s.futures i = .waiting then .failed
      else s.futures i
    tasks := Function.update s.tasks d .done }

end State

/-! ### Runs -/

inductive Event
  | acquire (lane : Option String)
  | cancel (i : Nat)
  | leave (i : Nat)
  /-- The next step of a task, and what the clock says in the course of it. -/
  | resume (d : Nat) (first second third : Int)
  | timerFails (d : Nat)
  deriving DecidableEq, Repr

/-- The call names a lane. -/
def Event.Named : Event → Prop
  | acquire lane => lane.isSome
  | _ => True

/-- One event, if it can happen. A sleep does not return early. -/
def State.next (b : Budget) (s : State) : Event → Option State
  | .acquire lane => some (s.acquire lane)
  | .cancel i => if i < s.arrivals.length then some (s.cancel i) else none
  | .leave i => do
      let lane ← s.arrivals[i]?
      if s.futures i = .waiting ∨ s.left i = true then none else some (s.leave i lane)
  | .resume d first second third =>
      if s.clock ≤ first ∧ first ≤ second ∧ second ≤ third then
        let later := { s with clock := third }
        match s.tasks d with
        | .created => some (later.loop d)
        | .yielded => some (later.serve b d first second third)
        | .asleep wakeAt exhausted =>
            if wakeAt ≤ second then some (later.slot b d exhausted true second third) else none
        | .cancelled => some { later with tasks := Function.update s.tasks d .done }
        | .done => none
      else none
  | .timerFails d =>
      match s.tasks d with
      | .asleep _ _ => some (s.fail d)
      | _ => none

def Step (b : Budget) (s : State) (e : Event) (t : State) : Prop := s.next b e = some t

/-! ### Queues -/

namespace State

variable {b : Budget} {s t : State} {lane : Lane} {i : Nat}

theorem anyPending_iff : s.anyPending = true ↔ ∃ lane, s.pending lane ≠ [] := by
  rw [anyPending, List.any_eq_true]
  constructor
  · rintro ⟨lane, -, h⟩
    exact ⟨lane, by simpa using h⟩
  · rintro ⟨lane, h⟩
    exact ⟨lane, mem_laneRotation lane, by simpa using h⟩

theorem pending_of_not_anyPending (h : ¬ s.anyPending = true) (lane : Lane) :
    s.pending lane = [] := by
  by_contra hne
  exact h (anyPending_iff.mpr ⟨lane, hne⟩)

/-- A caller that waits for a lane. -/
def Waits (s : State) (lane : Lane) (i : Nat) : Prop :=
  s.arrivals[i]? = some lane ∧ s.futures i = .waiting

/-- Queues hold the callers that wait, in the order they came, behind those with a slot. -/
structure Queues (s : State) : Prop where
  arrived : ∀ lane, ∀ i ∈ s.pending lane,
    s.arrivals[i]? = some lane ∧ (s.futures i = .waiting ∨ s.futures i = .cancelled)
  ordered : ∀ lane, (s.pending lane).Pairwise (· < ·)
  queued : ∀ lane i, s.Waits lane i → i ∈ s.pending lane
  granted : ∀ g ∈ s.grants, s.arrivals[g.caller]? = some g.lane ∧
    ∃ waited, s.futures g.caller = .granted waited
  logged : ∀ i < s.arrivals.length, ∀ waited, s.futures i = .granted waited →
    ∃ g ∈ s.grants, g.caller = i
  behind : ∀ g ∈ s.grants, ∀ i ∈ s.pending g.lane, g.caller < i
  inOrder : s.grants.Pairwise fun g h => g.lane = h.lane → g.caller < h.caller

theorem lt_of_arrived (h : s.arrivals[i]? = some lane) : i < s.arrivals.length :=
  (List.getElem?_eq_some_iff.mp h).1

theorem queues_start (clock : Int) : (start clock).Queues where
  arrived := by simp [start]
  ordered := by simp [start]
  queued := by simp [start, Waits]
  granted := by simp [start]
  logged := by simp [start]
  behind := by simp [start]
  inOrder := by simp [start]

/-- Only queues, futures and grants matter. -/
theorem Queues.congr (h : s.Queues) (arrivals : t.arrivals = s.arrivals)
    (pending : t.pending = s.pending) (futures : t.futures = s.futures)
    (grants : t.grants = s.grants) : t.Queues := by
  cases s
  cases t
  simp only at arrivals pending futures grants
  subst arrivals pending futures grants
  exact ⟨h.arrived, h.ordered, h.queued, h.granted, h.logged, h.behind, h.inOrder⟩

theorem Queues.join (h : s.Queues) (explicit : Bool) : (s.join lane explicit).Queues := by
  have hnew {lane' : Lane} {i : Nat} (mem : i ∈ s.pending lane') : i < s.arrivals.length :=
    lt_of_arrived (h.arrived lane' i mem).1
  have hfuture {i : Nat} (hlt : i < s.arrivals.length) :
      (s.join lane explicit).futures i = s.futures i :=
    Function.update_of_ne hlt.ne _ _
  have hlane {i : Nat} {lane' : Lane} (harrived : s.arrivals[i]? = some lane') :
      (s.join lane explicit).arrivals[i]? = some lane' := by
    rw [← harrived]
    exact List.getElem?_append_left (lt_of_arrived harrived)
  have hmem {lane' : Lane} {i : Nat} (mem : i ∈ (s.join lane explicit).pending lane') :
      i ∈ s.pending lane' ∨ i = s.arrivals.length ∧ lane' = lane := by
    simp only [State.join, Function.update_apply] at mem
    split at mem
    · rename_i heq
      subst heq
      exact (List.mem_append.mp mem).imp id fun hi => ⟨List.mem_singleton.mp hi, rfl⟩
    · exact .inl mem
  refine ⟨fun lane' i mem => ?_, fun lane' => ?_, fun lane' i hwaits => ?_, fun g mem => ?_,
    fun i hlt waited hgranted => ?_, fun g mem i hi => ?_, h.inOrder⟩
  · obtain mem | ⟨rfl, rfl⟩ := hmem mem
    · have := h.arrived lane' i mem
      rw [hfuture (hnew mem)]
      exact ⟨hlane this.1, this.2⟩
    · exact ⟨by simp [State.join], .inl (Function.update_self _ _ _)⟩
  · by_cases heq : lane' = lane
    · subst heq
      simp only [State.join, Function.update_self]
      exact List.pairwise_append.mpr ⟨h.ordered lane', List.pairwise_singleton _ _,
        fun i mem j hj => (List.mem_singleton.mp hj) ▸ hnew mem⟩
    · simpa only [State.join, Function.update_of_ne heq] using h.ordered lane'
  · obtain ⟨harrived, hwaiting⟩ := hwaits
    obtain hlt | heq : i < s.arrivals.length ∨ i = s.arrivals.length := by
      have := lt_of_arrived harrived
      simp only [State.join, List.length_append, List.length_singleton] at this
      omega
    · have hold : s.arrivals[i]? = some lane' := by
        rw [← harrived]
        exact (List.getElem?_append_left hlt).symm
      have mem := h.queued lane' i ⟨hold, (hfuture hlt) ▸ hwaiting⟩
      simp only [State.join, Function.update_apply]
      split
      · rename_i heq
        exact List.mem_append_left _ (heq ▸ mem)
      · exact mem
    · subst heq
      obtain rfl : lane = lane' := by simpa [State.join] using harrived
      simp [State.join]
  · obtain ⟨harrived, hgranted⟩ := h.granted g mem
    rw [hfuture (lt_of_arrived harrived)]
    exact ⟨hlane harrived, hgranted⟩
  · by_cases hold : i < s.arrivals.length
    · exact h.logged i hold waited ((hfuture hold) ▸ hgranted)
    · obtain rfl : i = s.arrivals.length := by
        simp only [State.join, List.length_append, List.length_singleton] at hlt
        omega
      simp [State.join] at hgranted
  · obtain mem' | ⟨rfl, -⟩ := hmem hi
    · exact h.behind g mem i mem'
    · exact lt_of_arrived (h.granted g mem).1

theorem Queues.cancel (h : s.Queues) : (s.cancel i).Queues := by
  rw [State.cancel]
  split
  case isFalse => exact h
  case isTrue hwaiting =>
      have hfuture {j : Nat} {future : Future} (hne : future ≠ .cancelled)
          (heq : Function.update s.futures i .cancelled j = future) : s.futures j = future := by
        rw [Function.update_apply] at heq
        split at heq
        · exact absurd heq.symm hne
        · exact heq
      refine ⟨fun lane j mem => ?_, h.ordered, fun lane j hwaits => ?_, fun g mem => ?_,
        fun j hlt waited hgranted => ?_, h.behind, h.inOrder⟩
      · refine ⟨(h.arrived lane j mem).1, ?_⟩
        simp only [Function.update_apply]
        split
        · exact .inr rfl
        · exact (h.arrived lane j mem).2
      · exact h.queued lane j ⟨hwaits.1, hfuture (by simp) hwaits.2⟩
      · obtain ⟨harrived, waited, hgranted⟩ := h.granted g mem
        refine ⟨harrived, waited, ?_⟩
        refine (Function.update_of_ne ?_ _ _).trans hgranted
        rintro heq
        rw [heq, hwaiting] at hgranted
        cases hgranted
      · exact h.logged j hlt waited (hfuture (by simp) hgranted)

/-- Queues without some callers that no longer wait. -/
theorem Queues.shrink (h : s.Queues) {pending : Lane → List Nat}
    (fewer : ∀ lane, (pending lane).Sublist (s.pending lane))
    (keeps : ∀ lane i, i ∈ s.pending lane → s.futures i = .waiting → i ∈ pending lane) :
    State.Queues { s with pending := pending } where
  arrived lane i mem := h.arrived lane i ((fewer lane).subset mem)
  ordered lane := (h.ordered lane).sublist (fewer lane)
  queued lane i hwaits := keeps lane i (h.queued lane i hwaits) hwaits.2
  granted := h.granted
  logged := h.logged
  behind g mem i hi := h.behind g mem i ((fewer g.lane).subset hi)
  inOrder := h.inOrder

theorem Queues.pass (h : s.Queues) : (s.pass lane).Queues := by
  suffices hshrunk : State.Queues { s with pending := (s.pass lane).pending } from
    hshrunk.congr rfl rfl rfl rfl
  refine h.shrink (fun lane' => ?_) fun lane' i mem hwaiting => ?_
  · simp only [State.pass, Function.update_apply]
    split
    · rename_i heq
      exact heq ▸ List.dropWhile_sublist _
    · exact List.Sublist.refl _
  · simp only [State.pass, Function.update_apply]
    split
    · rename_i heq
      subst heq
      have hsplit := List.takeWhile_append_dropWhile
        (p := fun i => decide (s.futures i = .cancelled)) (l := s.pending lane')
      rw [← hsplit, List.mem_append] at mem
      refine mem.resolve_left fun htaken => ?_
      have hcancelled := of_decide_eq_true (List.all_eq_true.mp (List.all_takeWhile
        (p := fun i => decide (s.futures i = .cancelled)) (l := s.pending lane')) i htaken)
      cases hwaiting.symm.trans hcancelled
    · exact mem

/-- What is at the front of a queue after its turn was passed waits. -/
theorem Queues.front_waits (h : s.Queues) {rest : List Nat}
    (front : (s.pass lane).pending lane = i :: rest) : s.Waits lane i := by
  have mem : i ∈ (s.pass lane).pending lane := front ▸ List.mem_cons_self
  have harrived := h.pass.arrived lane i mem
  refine ⟨harrived.1, harrived.2.resolve_right fun hcancelled => ?_⟩
  simp only [State.pass, Function.update_self] at front
  have hfront := List.head_dropWhile_not (fun i => decide (s.futures i = .cancelled))
    (l := s.pending lane) (by rw [front]; simp)
  simp only [front, List.head_cons] at hfront
  exact of_decide_eq_false hfront hcancelled

theorem Queues.grant (h : s.Queues) {rest : List Nat} {waited : Bool} {now : Int}
    (front : s.pending lane = i :: rest) (waits : s.Waits lane i) :
    (s.grant b lane i rest waited now).Queues := by
  have hordered := h.ordered lane
  rw [front, List.pairwise_cons] at hordered
  have hother {j : Nat} {lane' : Lane}
      (mem : j ∈ (s.grant b lane i rest waited now).pending lane') :
      j ∈ s.pending lane' ∧ j ≠ i := by
    simp only [State.grant, Function.update_apply] at mem
    split at mem
    · rename_i heq
      subst heq
      exact ⟨front ▸ List.mem_cons_of_mem i mem, (hordered.1 j mem).ne'⟩
    · rename_i hne
      refine ⟨mem, fun heq => hne ?_⟩
      subst heq
      exact Option.some_inj.mp ((h.arrived lane' j mem).1.symm.trans waits.1)
  have hfuture {j : Nat} (hne : j ≠ i) :
      (s.grant b lane i rest waited now).futures j = s.futures j :=
    Function.update_of_ne hne _ _
  refine ⟨fun lane' j mem => ?_, fun lane' => ?_, fun lane' j hwaits => ?_, fun g mem => ?_,
    fun j hlt waited' hgranted => ?_, fun g mem j hj => ?_, ?_⟩
  · rw [hfuture (hother mem).2]
    exact h.arrived lane' j (hother mem).1
  · simp only [State.grant, Function.update_apply]
    split
    · exact hordered.2
    · exact h.ordered lane'
  · have hne : j ≠ i := by
      rintro rfl
      have := hwaits.2
      simp [State.grant] at this
    have mem := h.queued lane' j ⟨hwaits.1, (hfuture hne) ▸ hwaits.2⟩
    simp only [State.grant, Function.update_apply]
    split
    · rename_i heq
      subst heq
      rw [front, List.mem_cons] at mem
      exact mem.resolve_left hne
    · exact mem
  · simp only [State.grant, List.mem_append, List.mem_singleton] at mem
    cases mem with
    | inl mem =>
        obtain ⟨harrived, waited', hgranted⟩ := h.granted g mem
        refine ⟨harrived, waited', (hfuture ?_).trans hgranted⟩
        rintro heq
        rw [heq, waits.2] at hgranted
        cases hgranted
    | inr heq =>
        subst heq
        exact ⟨waits.1, waited, Function.update_self _ _ _⟩
  · by_cases heq : j = i
    · exact ⟨⟨i, lane, now⟩, by simp [State.grant], heq.symm⟩
    · obtain ⟨g, mem, hg⟩ := h.logged j hlt waited' ((hfuture heq) ▸ hgranted)
      exact ⟨g, List.mem_append_left _ mem, hg⟩
  · have hj' := hother hj
    simp only [State.grant, List.mem_append, List.mem_singleton] at mem
    cases mem with
    | inl mem => exact h.behind g mem j hj'.1
    | inr heq =>
        subst heq
        have hmem := hj'.1
        rw [front, List.mem_cons] at hmem
        exact hordered.1 j (hmem.resolve_left hj'.2)
  · simp only [State.grant, List.pairwise_append, List.pairwise_singleton, true_and,
      List.mem_singleton]
    refine ⟨h.inOrder, fun g mem _ heq hlane => ?_⟩
    subst heq
    exact h.behind g mem i (hlane ▸ front ▸ List.mem_cons_self)

theorem Queues.fail (h : s.Queues) (d : Nat) : (s.fail d).Queues := by
  have hkept {j : Nat} {future : Future} (hne : future ≠ .failed)
      (heq : (s.fail d).futures j = future) : s.futures j = future := by
    simp only [State.fail] at heq
    split at heq
    · exact absurd heq.symm hne
    · exact heq
  refine ⟨by simp [State.fail], by simp [State.fail], fun lane j hwaits => ?_, fun g mem => ?_,
    fun j hlt waited hgranted => h.logged j hlt waited (hkept (by simp) hgranted),
    by simp [State.fail], h.inOrder⟩
  · have hwaiting := hkept (by simp) hwaits.2
    have hfailed : (s.fail d).futures j = .failed :=
      if_pos ⟨⟨lane, mem_laneRotation lane, h.queued lane j ⟨hwaits.1, hwaiting⟩⟩, hwaiting⟩
    cases hfailed.symm.trans hwaits.2
  · obtain ⟨harrived, waited, hgranted⟩ := h.granted g mem
    refine ⟨harrived, waited, ?_⟩
    simp only [State.fail]
    rw [if_neg (by simp [hgranted]), hgranted]

/-! ### Selection -/

/-- What holds while turns are passed, and what holds when one was taken or all were passed. -/
theorem select_rule {P Q : State → Prop} {waited : Bool} {now : Int} (passed : ∀ t, P t → Q t)
    (passes : ∀ t lane, laneRotation[t.cursor]? = some lane → P t → P (t.pass lane))
    (grants : ∀ t lane i rest, laneRotation[t.cursor]? = some lane → P t →
      (t.pass lane).pending lane = i :: rest → Q ((t.pass lane).grant b lane i rest waited now))
    (turns : Nat) (h : P s) : Q (select b waited now turns s) := by
  induction turns generalizing s with
  | zero => exact passed s h
  | succ turns ih =>
      rw [select]
      split
      case h_1 => exact passed s h
      case h_2 lane hlane =>
          dsimp only
          split
          case h_1 => exact ih (passes s lane hlane h)
          case h_2 i rest hfront => exact grants s lane i rest hlane h hfront

/-- What passing turns and granting a slot leave alone. -/
structure Frame (s t : State) : Prop where
  tasks : t.tasks = s.tasks
  driver : t.driver = s.driver
  spreadRequests : t.spreadRequests = s.spreadRequests
  arrivals : t.arrivals = s.arrivals
  fewer : ∀ lane, t.pending lane ≠ [] → s.pending lane ≠ []

theorem Frame.trans {u : State} (h : Frame s t) (h' : Frame t u) : Frame s u where
  tasks := h'.tasks.trans h.tasks
  driver := h'.driver.trans h.driver
  spreadRequests := h'.spreadRequests.trans h.spreadRequests
  arrivals := h'.arrivals.trans h.arrivals
  fewer lane hne := h.fewer lane (h'.fewer lane hne)

theorem frame_pass (s : State) (lane : Lane) : Frame s (s.pass lane) where
  tasks := rfl
  driver := rfl
  spreadRequests := rfl
  arrivals := rfl
  fewer lane' hne hnil := by
    refine hne ?_
    simp only [pass, Function.update_apply]
    split
    · rename_i heq
      rw [← heq, hnil, List.dropWhile_nil]
    · exact hnil

theorem frame_grant {rest : List Nat} (front : s.pending lane = i :: rest) (waited : Bool)
    (now : Int) : Frame s (s.grant b lane i rest waited now) where
  tasks := rfl
  driver := rfl
  spreadRequests := rfl
  arrivals := rfl
  fewer lane' hne := by
    by_cases heq : lane' = lane
    · rw [heq, front]
      exact List.cons_ne_nil _ _
    · simpa only [grant, Function.update_of_ne heq] using hne

theorem frame_select (s : State) (waited : Bool) (now : Int) (turns : Nat) :
    Frame s (select b waited now turns s) :=
  select_rule (P := Frame s) (fun _ h => h) (fun t lane _ h => h.trans (frame_pass t lane))
    (fun t lane _ _ _ h front => (h.trans (frame_pass t lane)).trans (frame_grant front _ _)) turns
    ⟨rfl, rfl, rfl, rfl, fun _ hne => hne⟩

theorem cursor_pass (s : State) (lane : Lane) :
    (s.pass lane).cursor < laneRotation.length :=
  Nat.mod_lt _ (by decide)

theorem select_cursor (h : s.cursor < laneRotation.length) (waited : Bool) (now : Int)
    (turns : Nat) : (select b waited now turns s).cursor < laneRotation.length :=
  select_rule (P := fun t => t.cursor < laneRotation.length) (fun _ h => h)
    (fun t lane _ _ => cursor_pass t lane) (fun t lane _ _ _ _ _ => cursor_pass t lane) turns h

theorem Queues.select (h : s.Queues) (waited : Bool) (now : Int) (turns : Nat) :
    (select b waited now turns s).Queues :=
  select_rule (P := Queues) (fun _ h => h) (fun _ _ _ h => h.pass)
    (fun _ _ _ _ _ h front => h.pass.grant front (h.front_waits front)) turns h

/-- At most one slot is taken, and by a caller that waits. The count of slots may begin anew. -/
inductive Slot (b : Budget) (s : State) (t : State) : Prop
  | none (grants : t.grants = s.grants) (next : t.nextGrantAt = s.nextGrantAt)
      (used : t.used = s.used ∨ t.used = 0)
  | grant (lane : Lane) (i : Nat) (now : Int) (waits : s.Waits lane i)
      (spaced : ∀ next, s.nextGrantAt = some next → next ≤ now)
      (grants : t.grants = s.grants ++ [⟨i, lane, now⟩])
      (next : t.nextGrantAt = some (now + b.interval)) (used : t.used = s.used + 1 ∨ t.used = 1)

theorem Queues.slot_select (h : s.Queues) (waited : Bool) {now : Int} (turns : Nat)
    (spaced : ∀ next, s.nextGrantAt = some next → next ≤ now) :
    Slot b s (State.select b waited now turns s) := by
  refine select_rule
    (P := fun t => t.Queues ∧ t.grants = s.grants ∧ t.nextGrantAt = s.nextGrantAt ∧
      t.used = s.used ∧ t.arrivals = s.arrivals ∧ t.futures = s.futures)
    (fun t ht => .none ht.2.1 ht.2.2.1 (.inl ht.2.2.2.1))
    (fun t lane _ ht => ⟨ht.1.pass, ht.2⟩) ?_ turns ⟨h, rfl, rfl, rfl, rfl, rfl⟩
  rintro t lane i rest - ⟨hqueues, hgrants, hnext, hused, harrivals, hfutures⟩ front
  obtain ⟨harrived, hwaiting⟩ := hqueues.front_waits front
  refine .grant lane i now ⟨harrivals ▸ harrived, hfutures ▸ hwaiting⟩ spaced ?_ rfl (.inl ?_)
  · exact congrArg (· ++ [_]) hgrants
  · exact congrArg (· + 1) hused

/-- With a caller that waits a slot is taken, by it or nearer to its turn. -/
theorem Queues.select_near (h : s.Queues) (cursor : s.cursor < laneRotation.length)
    (waits : s.Waits lane i) {waited : Bool} {now : Int} {turns : Nat}
    (enough : Turns.wait laneRotation lane s.cursor < turns) :
    ∃ g, (State.select b waited now turns s).grants = s.grants ++ [g] ∧ (g.lane = lane ∨
      Turns.wait laneRotation lane (State.select b waited now turns s).cursor <
        Turns.wait laneRotation lane s.cursor) := by
  induction turns generalizing s with
  | zero => exact absurd enough (Nat.not_lt_zero _)
  | succ turns ih =>
      obtain ⟨turn, hturn⟩ : ∃ turn, laneRotation[s.cursor]? = some turn :=
        ⟨_, List.getElem?_eq_getElem cursor⟩
      have hnear (hne : turn ≠ lane) : Turns.wait laneRotation lane (s.pass turn).cursor + 1 =
          Turns.wait laneRotation lane s.cursor := by
        rw [← Turns.wait_succ (mem_laneRotation lane) hturn hne]
        exact congrArg (· + 1) (Turns.wait_mod laneRotation lane (s.cursor + 1))
      have hpassed : (s.pass turn).Queues := h.pass
      have hqueued := hpassed.queued lane i waits
      rw [State.select, hturn]
      dsimp only
      split
      case h_1 hnil =>
          have hne : turn ≠ lane := by
            rintro rfl
            rw [hnil] at hqueued
            cases hqueued
          obtain ⟨g, hgrants, hg⟩ := ih h.pass (cursor_pass s turn) waits
            (by have := hnear hne; omega)
          exact ⟨g, hgrants, hg.imp_right fun hlt => by have := hnear hne; omega⟩
      case h_2 j rest hfront =>
          refine ⟨⟨j, turn, now⟩, rfl, ?_⟩
          by_cases hne : turn = lane
          · exact .inl hne
          · refine .inr (lt_of_lt_of_eq (Nat.lt_succ_self _) (hnear hne))

end State

end ZelerPlatform.Sheets.Pacer
