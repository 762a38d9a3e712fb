import ZelerPlatform.Library.WindowCounter

/-!
# The proxy's fixed-window rate limit

`rate_limit_counters` holds one document for each `module:seller` key. A call reads
its own clock, computes the start of its UTC-aligned window and issues one atomic
`find_one_and_update`. Calls of any number of replicas therefore reach a document in
some order that need not be the order of their clock readings: a run of the system is
the list of calls in the order in which their updates are applied.

The pipeline compares the stored window with the caller's for equality only. A call
delayed across a boundary moves the document back to its own window, and the next call
of the newer window starts that window's count again. `windows_bounded_iff` says
exactly which runs keep the promised bound.

Clock readings count microseconds since the epoch; window starts count seconds.
-/

namespace ZelerPlatform.Gateway.RateLimit

open WindowCounter

/-- The settings shared by the replicas. -/
structure RateLimitCounter where
  defaultLimit : Nat
  windowS : Nat

/-- A document of `rate_limit_counters`. -/
structure CounterDoc where
  moduleId : String
  sellerId : Int
  windowStart : Nat
  count : Nat
  updatedAt : Nat

/-- The collection, by `_id`. -/
abbrev Counters := String → Option CounterDoc

/-- One call of `check_and_increment` with the clock reading it has taken. -/
structure Call where
  moduleId : String
  sellerId : Int
  now : Nat

/-- The exception carries the wait in microseconds. -/
structure RateLimitExceeded where
  retryAfter : Int

def fixedWindowStart (now windowS : Nat) : Nat :=
  let unixS := now / 1000000
  unixS - unixS % windowS

def counterKey (moduleId : String) (sellerId : Int) : String :=
  s!"{moduleId}:{sellerId}"

def Call.key (call : Call) : String := counterKey call.moduleId call.sellerId

def Call.window (config : RateLimitCounter) (call : Call) : Nat :=
  fixedWindowStart call.now config.windowS

/-- The aggregation pipeline, applied to the stored document or, for the upsert, to
none: a missing `$window_start` equals no date. -/
def pipelineUpdate (call : Call) (windowStart : Nat) (doc : Option CounterDoc) : CounterDoc where
  moduleId := call.moduleId
  sellerId := call.sellerId
  windowStart :=
    match doc with
    | some d => if d.windowStart = windowStart then d.windowStart else windowStart
    | none => windowStart
  count :=
    match doc with
    | some d => if d.windowStart = windowStart then d.count + 1 else 1
    | none => 1
  updatedAt := call.now

/-- The atomic update of one call and what the call does with the returned document. -/
def checkAndIncrement (config : RateLimitCounter) (counters : Counters) (call : Call) :
    Counters × Except RateLimitExceeded Unit :=
  let windowStart := call.window config
  let doc := pipelineUpdate call windowStart (counters call.key)
  let outcome :=
    if config.defaultLimit < doc.count then
      .error ⟨max 1000000 (((windowStart + config.windowS) * 1000000 : Nat) - (call.now : Int))⟩
    else .ok ()
  (Function.update counters call.key (some doc), outcome)

/-- The calls in the order in which their updates are applied, with their outcomes. -/
def serve (config : RateLimitCounter) :
    Counters → List Call → List (Call × Except RateLimitExceeded Unit)
  | _, [] => []
  | counters, call :: rest =>
      let (counters', outcome) := checkAndIncrement config counters call
      (call, outcome) :: serve config counters' rest

/-- The windows the calls of one key ask for, in order of arrival. -/
def windowsOf (config : RateLimitCounter) (key : String) (calls : List Call) : List Nat :=
  (calls.filter (fun call => call.key = key)).map (Call.window config)

/-- Calls of `key` whose clock reading lies in window `w` and that return. -/
def passed (config : RateLimitCounter) (key : String) (w : Nat)
    (served : List (Call × Except RateLimitExceeded Unit)) : Nat :=
  served.countP fun (call, outcome) =>
    call.key = key ∧ call.window config = w ∧ outcome.toBool

/-- What a document remembers of its key's calls. -/
def CounterDoc.counter (doc : CounterDoc) : Counter Nat := ⟨doc.windowStart, doc.count⟩

/-- The pipeline is one hit of a window counter. -/
@[simp] theorem pipelineUpdate_counter (call : Call) (windowStart : Nat)
    (doc : Option CounterDoc) :
    (pipelineUpdate call windowStart doc).counter =
      tick (doc.map CounterDoc.counter) windowStart := by
  cases doc with
  | none => rfl
  | some d =>
      simp only [pipelineUpdate, CounterDoc.counter, tick, Option.map_some]
      split <;> simp_all

theorem pipelineUpdate_count (call : Call) (windowStart : Nat) (doc : Option CounterDoc) :
    (pipelineUpdate call windowStart doc).count =
      (tick (doc.map CounterDoc.counter) windowStart).count := by
  rw [← pipelineUpdate_counter call]
  rfl

theorem checkAndIncrement_outcome (config : RateLimitCounter) (counters : Counters)
    (call : Call) :
    (checkAndIncrement config counters call).2.toBool =
      decide ((tick ((counters call.key).map CounterDoc.counter) (call.window config)).count ≤
        config.defaultLimit) := by
  simp only [checkAndIncrement, pipelineUpdate_count]
  split
  · next hover => exact (decide_eq_false (Nat.not_le.mpr hover)).symm
  · next hwithin => exact (decide_eq_true (Nat.not_lt.mp hwithin)).symm

/-- The calls of one key drive that key's document as hits of a window counter; the
calls of other keys leave it alone. -/
theorem passed_serve (config : RateLimitCounter) (key : String) (w : Nat)
    (counters : Counters) (calls : List Call) :
    passed config key w (serve config counters calls) =
      admitted config.defaultLimit w ((counters key).map CounterDoc.counter)
        (windowsOf config key calls) := by
  induction calls generalizing counters with
  | nil => rfl
  | cons call rest ih =>
      have hstep : passed config key w (serve config counters (call :: rest)) =
          passed config key w (serve config (checkAndIncrement config counters call).1 rest) +
            if call.key = key ∧ call.window config = w ∧
              (checkAndIncrement config counters call).2.toBool then 1 else 0 := by
        simp [passed, serve, List.countP_cons]
      rw [hstep, ih]
      by_cases hkey : call.key = key
      · subst hkey
        have hwindows : windowsOf config call.key (call :: rest) =
            call.window config :: windowsOf config call.key rest := by
          simp [windowsOf]
        rw [hwindows, admitted_cons, checkAndIncrement_outcome, Nat.add_comm]
        simp [checkAndIncrement]
      · have hwindows : windowsOf config key (call :: rest) = windowsOf config key rest := by
          simp [windowsOf, hkey]
        have hother : (checkAndIncrement config counters call).1 key = counters key := by
          simp [checkAndIncrement, Function.update_of_ne (Ne.symm hkey)]
        rw [hwindows, hother]
        simp [hkey]

/-- In a run that starts without counters, every window of a key keeps the limit exactly
when each window is asked for no more often than the limit or without another window of
the key coming in between. -/
theorem windows_bounded_iff (config : RateLimitCounter) (hlimit : 1 ≤ config.defaultLimit)
    (key : String) (calls : List Call) :
    (∀ w, passed config key w (serve config (fun _ => none) calls) ≤ config.defaultLimit) ↔
      ∀ w, (windowsOf config key calls).count w ≤ config.defaultLimit ∨
        Uninterrupted w (windowsOf config key calls) := by
  refine forall_congr' fun w => ?_
  rw [passed_serve]
  exact admitted_le_iff hlimit _

/-- The shipped window of one minute with a limit of one, all calls in order. -/
theorem windows_bounded_in_order :
    passed ⟨1, 60⟩ "repricer:7" 60 (serve ⟨1, 60⟩ (fun _ => none)
      [⟨"repricer", 7, 59999999⟩, ⟨"repricer", 7, 60000000⟩, ⟨"repricer", 7, 60000001⟩]) ≤ 1 := by
  refine (windows_bounded_iff ⟨1, 60⟩ (by decide) "repricer:7" _).mpr (fun w => .inr ?_) 60
  have hwindows : windowsOf ⟨1, 60⟩ "repricer:7"
      [⟨"repricer", 7, 59999999⟩, ⟨"repricer", 7, 60000000⟩, ⟨"repricer", 7, 60000001⟩] =
        [0, 60, 60] := by decide
  rw [hwindows]
  by_cases h0 : w = 0
  · exact ⟨[], 1, [60, 60], by simp, by simp [h0], by simp [h0]⟩
  · by_cases h60 : w = 60
    · exact ⟨[0], 2, [], by simp [h60], by simp, by simp [h60]⟩
    · exact ⟨[0, 60, 60], 0, [], by simp [h0, h60], by simp, by simp⟩

/-- A call that read its clock just before the boundary arrives between two calls of the
next window: both of these pass although the limit is one. -/
theorem late_call_breaks_limit :
    ¬ ∀ (config : RateLimitCounter), 1 ≤ config.defaultLimit → 1 ≤ config.windowS →
      ∀ (key : String) (calls : List Call) (w : Nat),
        passed config key w (serve config (fun _ => none) calls) ≤ config.defaultLimit := by
  intro h
  have := h ⟨1, 60⟩ (by decide) (by decide) "repricer:7"
    [⟨"repricer", 7, 60000000⟩, ⟨"repricer", 7, 59999999⟩, ⟨"repricer", 7, 60000001⟩] 60
  revert this
  decide

end ZelerPlatform.Gateway.RateLimit
