import Mathlib
import ZelerPlatform.Sheets.Settlement

/-!
# A message through its redeliveries

A delivery puts its message back in the queue, replaces it by a delayed copy, or rejects it. Only
the copy carries the number of attempts on: the message in the queue is redelivered as it was, so
a failure that is answered by requeueing is not counted.
-/

namespace PyDict

variable {fields : PyDict} {key k : String} {value : PyValue}

theorem lookup_cons (k : String) (field : String × PyValue) (rest : PyDict) :
    List.lookup k (field :: rest) = if k = field.1 then some field.2 else List.lookup k rest := by
  rw [List.lookup_cons]
  by_cases h : k = field.1
  · rw [beq_iff_eq.mpr h, if_pos h]
  · rw [beq_false_of_ne h, if_neg h]

theorem lookup_append (fields : PyDict) (k : String) (field : String × PyValue) :
    List.lookup k (fields ++ [field]) =
      (List.lookup k fields).or (if k = field.1 then some field.2 else none) := by
  induction fields with
  | nil => rw [List.nil_append, lookup_cons, List.lookup_nil, Option.none_or]
  | cons first rest ih =>
      rw [List.cons_append, lookup_cons, lookup_cons, ih]
      split
      case isTrue => rfl
      case isFalse => rfl

theorem lookup_replaced (fields : PyDict) (k : String) :
    List.lookup k (fields.map fun field => if field.1 == key then (key, value) else field) =
      if k = key then (List.lookup k fields).map fun _ => value else List.lookup k fields := by
  induction fields with
  | nil => simp
  | cons first rest ih =>
      rw [List.map_cons, lookup_cons, lookup_cons, ih]
      by_cases hfirst : first.1 = key
      · rw [if_pos (beq_iff_eq.mpr hfirst), hfirst]
        by_cases hk : k = key
        · rw [if_pos hk, if_pos hk, if_pos hk]
          rfl
        · rw [if_neg hk, if_neg hk, if_neg hk, if_neg hk]
      · rw [if_neg (fun h => hfirst (beq_iff_eq.mp h))]
        by_cases hk : k = first.1
        · have hne : k ≠ key := fun h => hfirst (hk.symm.trans h)
          rw [if_neg hne, if_pos hk, if_neg hne]
        · rw [if_neg hk, if_neg hk]

theorem lookup_set (fields : PyDict) (key k : String) (value : PyValue) :
    List.lookup k (fields.set key value) = if k = key then some value else List.lookup k fields := by
  rw [set]
  split
  case isTrue held =>
      rw [lookup_replaced]
      split
      case isTrue hk =>
          obtain ⟨v, hv⟩ := Option.isSome_iff_exists.mp held
          rw [hk, hv]
          rfl
      case isFalse => rfl
  case isFalse missing =>
      rw [lookup_append]
      split
      case isTrue hk =>
          rw [hk, Option.not_isSome_iff_eq_none.mp missing]
          rfl
      case isFalse => exact Option.or_none

theorem lookup_drop (fields : PyDict) (key k : String) :
    List.lookup k (fields.drop key) = if k = key then none else List.lookup k fields := by
  induction fields with
  | nil => simp [drop]
  | cons first rest ih =>
      rw [drop] at ih
      rw [drop, List.filter_cons]
      split
      case isTrue hkept =>
          have hne : first.1 ≠ key := by simpa using hkept
          rw [lookup_cons, lookup_cons, ih]
          by_cases hk : k = first.1
          · rw [if_pos hk, if_neg (fun h => hne (hk.symm.trans h)), if_pos hk]
          · rw [if_neg hk, if_neg hk]
      case isFalse hdropped =>
          have heq : first.1 = key := by simpa using hdropped
          rw [ih, lookup_cons, heq]
          split <;> rfl

end PyDict

namespace ZelerPlatform.Sheets

open Stateful

/-! ### The broker -/

/-- What a delivery meets, and what the delay queue would record of a copy. -/
structure Turn where
  around : Surroundings
  deaths : List PyDict

/-- Where a message is. -/
inductive Place
  | queued (message : Message)
  | rejected
  | acked
  | unsettled

/-- The headers of a copy with the entries that its delay queue adds. -/
def withDeaths (routingKey : String) (headers : PyDict) : List PyDict → PyDict
  | [] => headers
  | death :: rest => headers.set "x-death" (.list ((death :: rest).map fun entry =>
      .dict (entry.set "queue" (.text routingKey))))

/-- A copy as it comes out of the delay queue. -/
def delayed (deaths : List PyDict) (copy : Copy) : Message where
  body := copy.body
  headers := some (withDeaths copy.routingKey copy.headers deaths)

/-- What the effects of a delivery make of its message: one that is requeued keeps its headers, and
a copy that the channel did not refuse replaces it. -/
def broker (deaths : List PyDict) (message : Message) : Option Copy → List Effect → Place
  | _, [] => .unsettled
  | copied, .published copy confirmation :: rest =>
      broker deaths message (if confirmation = .refused then copied else some copy) rest
  | _, .nack true :: _ => .queued message
  | _, .nack false :: _ => .rejected
  | some copy, .ack :: _ => .queued (delayed deaths copy)
  | none, .ack :: _ => .acked

/-- A message in the course of its deliveries. -/
structure Redelivery where
  runner : Runner
  place : Place
  handlerCalls : Nat

/-- Whether a delivery calls the handler. -/
def callsHandler (interpreter : Interpreter) (around : Surroundings) (self : Runner)
    (message : Message) (queueName : String) : Bool :=
  if self.deliveryLimit ≤ deliveryAttemptCount message queueName then false
  else match sheetsEventFromMessage interpreter message with
    | .error _ => false
    | .ok event =>
        match accountStatus around self event.sellerId with
        | .error _ => false
        | .ok status => status != some "paused"

/-- One more delivery, if the message is in the queue. -/
def deliver (interpreter : Interpreter) (queueName : String) (s : Redelivery) (turn : Turn) :
    Redelivery :=
  match s.place with
  | .queued message =>
      let (_, progress) :=
        run (handleMessage interpreter turn.around message queueName) ⟨s.runner, []⟩
      { runner := progress.runner
        place := broker turn.deaths message none progress.effects
        handlerCalls := s.handlerCalls +
          (callsHandler interpreter turn.around s.runner message queueName).toNat }
  | _ => s

/-- A message from its first delivery on. -/
def redeliveries (interpreter : Interpreter) (queueName : String) (self : Runner)
    (message : Message) (turns : List Turn) : Redelivery :=
  turns.foldl (deliver interpreter queueName) ⟨self, .queued message, 0⟩

/-! ### Failures that are counted -/

/-- A copy would be published, and the channel does not refuse it. -/
def Copies (around : Surroundings) (self : Runner) (queueName : String) : Prop :=
  ∃ confirmation, around.publishing = .ok confirmation ∧ confirmation ≠ .refused ∧
    sends self queueName false confirmation = true

/-- The answer to an error rejects the message or counts the attempt on a copy. -/
def Counted (around : Surroundings) (self : Runner) (queueName : String) (error : PyError) :
    Prop :=
  match branch error with
  | some .reject => True
  | some .delay | some .readiness => Copies around self queueName
  | some .requeue => queueName = sheetsClaimsQueue ∧ Copies around self queueName
  | some .wait | none => False

/-- A delivery that fails and is counted; at the limit the body must leave the handling of the
message to its end. -/
def Counts (interpreter : Interpreter) (queueName : String) (s : Redelivery) (turn : Turn) : Prop :=
  match s.place with
  | .queued message =>
      if s.runner.deliveryLimit ≤ deliveryAttemptCount message queueName then
        ∃ event?, eventContextFromMessage interpreter message = .ok event?
      else ∃ error, attempt interpreter turn.around s.runner message = .error error ∧
        Counted turn.around s.runner queueName error
  | _ => True

/-- Every delivery of a run fails and is counted. -/
def CountedRun (interpreter : Interpreter) (queueName : String) : Redelivery → List Turn → Prop
  | _, [] => True
  | s, turn :: rest => Counts interpreter queueName s turn ∧
      CountedRun interpreter queueName (deliver interpreter queueName s turn) rest

/-! ### Counting -/

section

variable {interpreter : Interpreter} {around : Surroundings} {self : Runner} {message : Message}
variable {queueName : String} {error : PyError} {deathCount delayMs : Int}

theorem lookup_retryHeaders (message : Message) (attempt : Int) (k : String) :
    (retryHeaders message attempt).lookup k =
      if k = retryAttemptHeader then some (.int attempt)
      else if k = "x-death" then none else (message.headers.getD []).lookup k := by
  rw [retryHeaders, PyDict.lookup_set, PyDict.lookup_drop]

theorem firstDeathCount_foreign {routingKey : String} (foreign : routingKey ≠ queueName)
    (deaths : List PyDict) : firstDeathCount queueName (deaths.map fun death =>
      .dict (death.set "queue" (.text routingKey))) = 0 := by
  induction deaths with
  | nil => rfl
  | cons death rest ih =>
      have hother : deathOf queueName (death.set "queue" (.text routingKey)) = false := by
        rw [deathOf, PyDict.lookup_set, if_pos rfl]
        exact beq_false_of_ne foreign
      rw [List.map_cons, firstDeathCount, hother]
      exact ih

/-- A copy carries the number of attempts on, whatever the delay queue records. -/
theorem deliveryAttemptCount_delayed {copy : Copy} {attempt : Int} (nonneg : 0 ≤ attempt)
    (headers : copy.headers = retryHeaders message attempt)
    (foreign : copy.routingKey ≠ queueName) (deaths : List PyDict) :
    deliveryAttemptCount (delayed deaths copy) queueName = attempt := by
  have hne : retryAttemptHeader ≠ "x-death" := by decide
  have hdeaths : xDeathCount (delayed deaths copy) queueName = 0 := by
    rw [xDeathCount, delayed, Option.bind_some]
    cases deaths with
    | nil => rw [withDeaths, headers, lookup_retryHeaders, if_neg hne.symm, if_pos rfl]
    | cons death rest =>
        rw [withDeaths, PyDict.lookup_set, if_pos rfl]
        exact firstDeathCount_foreign foreign (death :: rest)
  have hattempt : retryAttemptHeaderCount (delayed deaths copy) = attempt := by
    rw [retryAttemptHeaderCount, delayed, Option.bind_some]
    cases deaths with
    | nil =>
        rw [withDeaths, headers, lookup_retryHeaders, if_pos rfl]
        rfl
    | cons death rest =>
        rw [withDeaths, PyDict.lookup_set, if_neg hne, headers, lookup_retryHeaders, if_pos rfl]
        rfl
  rw [deliveryAttemptCount, hdeaths, hattempt]
  exact max_eq_right nonneg

theorem append_ne_self (name : String) {suffix : String} (longer : 0 < suffix.length) :
    name ++ suffix ≠ name := by
  intro h
  have hlength := congrArg String.length h
  rw [String.length_append] at hlength
  omega

theorem delayQueueName_ne (queueName : String) : s!"{queueName}.delay" ≠ queueName :=
  append_ne_self queueName (by decide)

theorem claimsRetryQueueName_ne (delayMs : Int) :
    claimsRetryQueueName delayMs ≠ sheetsClaimsQueue := by
  have hname (name : String) : s!"{sheetsClaimsQueue}.retry.{name}" ≠ sheetsClaimsQueue := by
    have hassoc : s!"{sheetsClaimsQueue}.retry.{name}" =
        sheetsClaimsQueue ++ (".retry." ++ name) := String.append_assoc ..
    rw [hassoc]
    refine append_ne_self sheetsClaimsQueue ?_
    rw [String.length_append]
    exact Nat.add_pos_left (by decide) _
  rw [claimsRetryQueueName]
  split
  · exact hname _
  · exact hname _

/-! ### The copies -/

/-- The effects that replace a message by a copy with one more attempt. -/
def CopiesOn (message : Message) (queueName : String) (deathCount : Int) (effects : List Effect) :
    Prop :=
  ∃ copy confirmation, copy.headers = retryHeaders message (deathCount + 1) ∧
    copy.routingKey ≠ queueName ∧ confirmation ≠ Confirmation.refused ∧
      effects = [.published copy confirmation, .ack]

theorem publishRetryDelay_copies (s : Progress) (body : List UInt8) (delayMs : Int)
    (headers : PyDict) (copies : Copies around s.runner queueName) :
    ∃ copy confirmation, copy.headers = headers ∧ copy.routingKey ≠ queueName ∧
      confirmation ≠ Confirmation.refused ∧
      run (publishRetryDelay around body queueName delayMs headers false) s =
        (.ok (), s.add [.published copy confirmation]) := by
  obtain ⟨confirmation, answer, hrefused, hsends⟩ := copies
  rw [sends] at hsends
  rw [publishRetryDelay]
  by_cases claims : queueName = sheetsClaimsQueue
  · rw [if_pos claims] at hsends
    have hchannel : s.runner.hasChannel = true := by
      simp only [Bool.and_eq_true] at hsends
      exact hsends.1.1
    rw [if_neg (not_not_intro claims), publishClaims, run_bind_ok run_runner]
    simp only [hchannel, Bool.not_true, Bool.false_eq_true, if_false]
    rw [run_bind_ok (run_publish_ok answer)]
    refine ⟨⟨body, headers, "", claimsRetryQueueName delayMs, none⟩, confirmation, rfl, ?_,
      hrefused, ?_⟩
    · exact claims ▸ claimsRetryQueueName_ne delayMs
    · simp only [hrefused, false_and, or_self, if_false, run_pure]
  · rw [if_neg claims, if_neg Bool.false_ne_true] at hsends
    rw [if_pos claims, if_neg Bool.false_ne_true, run_bind_ok run_runner]
    simp only [hsends, Bool.not_true, Bool.false_eq_true, if_false]
    rw [publishDelay, run_bind_ok (run_publish_ok answer)]
    exact ⟨⟨body, headers, meliEventsExchange, s!"{queueName}.delay", some delayMs⟩, confirmation,
      rfl, delayQueueName_ne queueName, hrefused, rfl⟩

theorem ackIfPublished_copies (s : Progress) (message : Message) (deathCount delayMs : Int)
    (copies : Copies around s.runner queueName) : ∃ effects,
      run (ackIfPublished (publishRetryDelay around message.body queueName delayMs
        (retryHeaders message (deathCount + 1)) false)) s = (.ok (), s.add effects) ∧
      CopiesOn message queueName deathCount effects := by
  obtain ⟨copy, confirmation, hheaders, hforeign, hrefused, hrun⟩ := publishRetryDelay_copies s
    message.body delayMs (retryHeaders message (deathCount + 1)) copies
  have hguard := run_tryCatch_ok (g := fun _ => pure false)
    ((run_bind_ok (f := fun _ => pure true) hrun).trans (run_pure true))
  refine ⟨[.published copy confirmation, .ack], ?_,
    copy, confirmation, hheaders, hforeign, hrefused, rfl⟩
  rw [ackIfPublished, run_bind_ok hguard]
  simp

theorem retryClaimsTransient_copies (s : Progress) (message : Message) (deathCount delayMs : Int)
    (claims : queueName = sheetsClaimsQueue) (copies : Copies around s.runner queueName) :
    ∃ effects, run (retryClaimsTransient around message queueName deathCount delayMs) s =
        (.ok true, s.add effects) ∧ CopiesOn message queueName deathCount effects := by
  obtain ⟨effects, hrun, hcopies⟩ := ackIfPublished_copies s message deathCount
    (max delayMs (claimsRetryDelayMs (deathCount + 1))) copies
  refine ⟨effects, ?_, hcopies⟩
  rw [retryClaimsTransient, if_neg (not_not_intro claims), run_bind_ok hrun, run_pure]

theorem requeue_copies (s : Progress) (message : Message) (deathCount : Int)
    (claims : queueName = sheetsClaimsQueue) (copies : Copies around s.runner queueName) :
    ∃ effects, run (requeue around message queueName deathCount) s = (.ok (), s.add effects) ∧
      CopiesOn message queueName deathCount effects := by
  obtain ⟨effects, hrun, hcopies⟩ :=
    retryClaimsTransient_copies s message deathCount 0 claims copies
  refine ⟨effects, ?_, hcopies⟩
  rw [requeue, run_bind_ok hrun]
  rfl

theorem retryDelayed_copies (s : Progress) (message : Message) (deathCount delayMs : Int)
    (copies : Copies around s.runner queueName) :
    ∃ effects, run (retryDelayed around message queueName deathCount delayMs) s =
        (.ok (), s.add effects) ∧ CopiesOn message queueName deathCount effects := by
  rw [retryDelayed]
  by_cases claims : queueName = sheetsClaimsQueue
  · obtain ⟨effects, hrun, hcopies⟩ :=
      retryClaimsTransient_copies s message deathCount delayMs claims copies
    refine ⟨effects, ?_, hcopies⟩
    rw [run_bind_ok hrun]
    rfl
  · have hpublisher : s.runner.hasRetryDelayPublisher = true := by
      obtain ⟨confirmation, -, -, hsends⟩ := copies
      rw [sends, if_neg claims, if_neg Bool.false_ne_true] at hsends
      exact hsends
    obtain ⟨copy, confirmation, hheaders, hforeign, hrefused, hrun⟩ := publishRetryDelay_copies s
      message.body delayMs (retryHeaders message (deathCount + 1)) copies
    refine ⟨[.published copy confirmation, .ack], ?_,
      copy, confirmation, hheaders, hforeign, hrefused, rfl⟩
    rw [run_bind_ok (retryClaimsTransient_run_other claims)]
    simp only [Bool.false_eq_true, if_false]
    rw [run_bind_ok run_runner, hpublisher]
    simp only [Bool.not_true, Bool.false_eq_true, if_false]
    rw [run_bind_ok hrun]
    simp

theorem readiness_copies (s : Progress) (message : Message) (deathCount : Int)
    (copies : Copies around s.runner queueName) :
    ∃ effects, run (httpStatus around message queueName deathCount 412) s =
        (.ok (), s.add effects) ∧ CopiesOn message queueName deathCount effects := by
  rw [httpStatus, if_pos rfl]
  by_cases claims : queueName = sheetsClaimsQueue
  · obtain ⟨effects, hrun, hcopies⟩ := retryClaimsTransient_copies s message deathCount
      (claimsRetryDelayMs (deathCount + 1)) claims copies
    refine ⟨effects, ?_, hcopies⟩
    rw [run_bind_ok hrun]
    rfl
  · obtain ⟨effects, hrun, hcopies⟩ := ackIfPublished_copies s message deathCount
      (claimsRetryDelayMs (deathCount + 1)) copies
    refine ⟨effects, ?_, hcopies⟩
    rw [run_bind_ok (retryClaimsTransient_run_other claims)]
    exact hrun

/-- A counted failure rejects the message or copies it with one more attempt. -/
theorem handleError_counted (s : Progress) (message : Message) (deathCount : Int)
    (counted : Counted around s.runner queueName error) : ∃ effects,
      run (handleError around message queueName deathCount error) s = (.ok (), s.add effects) ∧
      (effects = [.nack false] ∨ CopiesOn message queueName deathCount effects) := by
  by_cases passing : Passing error
  · suffices h : ∃ effects, run (handleError around message queueName deathCount error) s =
        (.ok (), s.add effects) ∧ CopiesOn message queueName deathCount effects by
      obtain ⟨effects, hrun, hcopies⟩ := h
      exact ⟨effects, hrun, .inr hcopies⟩
    cases error with
    | historyPolicyWait => cases counted
    | gatewayRateLimit retryAfterSeconds response =>
        simp only [handleError, gatewayRateLimit]
        simp only [Counted, branch] at counted
        cases hcode : pilotWaitCode response with
        | error e =>
            rw [hcode] at counted
            cases counted
        | ok code =>
            rw [hcode] at counted
            cases code with
            | some code => cases counted
            | none => exact retryDelayed_copies s message deathCount _ counted
    | retryableGoogleSheetsApi retryAfterSeconds =>
        exact retryDelayed_copies s message deathCount _ counted
    | statusObservationContention => exact retryDelayed_copies s message deathCount _ counted
    | retryableItemAcquisition => exact retryDelayed_copies s message deathCount _ counted
    | eventClaimTimeout => exact retryDelayed_copies s message deathCount _ counted
    | devolucionesLeaseConflict => exact requeue_copies s message deathCount counted.1 counted.2
    | devolucionesLeaseLost => exact requeue_copies s message deathCount counted.1 counted.2
    | connect => exact requeue_copies s message deathCount counted.1 counted.2
    | timeout => exact requeue_copies s message deathCount counted.1 counted.2
    | builtin e => exact (passing rfl).elim
    | httpStatus statusCode =>
        by_cases hready : statusCode = 412
        · subst hready
          exact readiness_copies s message deathCount counted
        · have hretry : 500 ≤ statusCode ∨ statusCode ∈ retriableHttpStatusCodes := by
            by_contra h
            exact passing (by simp [branch, hready, h])
          have hpermanent : statusCode ∉ permanentHttpStatusCodes := by
            simp only [permanentHttpStatusCodes, retriableHttpStatusCodes, List.mem_cons,
              List.not_mem_nil, or_false] at hretry ⊢
            omega
          simp only [Counted, branch, if_neg hready, if_pos hretry] at counted
          simp only [handleError, httpStatus, if_neg hready, if_neg hpermanent, if_pos hretry]
          exact requeue_copies s message deathCount counted.1 counted.2
  · exact ⟨_, handleError_run_reject s around message queueName deathCount passing, .inl rfl⟩

/-! ### One delivery -/

theorem handleMessage_limit {event? : Option SheetsEvent}
    (limit : self.deliveryLimit ≤ deliveryAttemptCount message queueName)
    (readable : eventContextFromMessage interpreter message = .ok event?) :
    run (handleMessage interpreter around message queueName) ⟨self, []⟩ =
      (.ok (), ⟨self, [.nack false]⟩) := by
  rw [handleMessage]
  simp only [run_bind_ok (run_runner (s := ⟨self, []⟩)), if_pos limit, readable]
  rfl

theorem handleMessage_error
    (below : ¬ self.deliveryLimit ≤ deliveryAttemptCount message queueName)
    (failed : attempt interpreter around self message = .error error) :
    ∃ cache, run (handleMessage interpreter around message queueName) ⟨self, []⟩ =
      run (handleError around message queueName (deliveryAttemptCount message queueName) error)
        (Progress.cached ⟨self, []⟩ cache) := by
  obtain ⟨cache, hrun⟩ := tryHandle_run interpreter ⟨self, []⟩ around message
  rw [failed] at hrun
  refine ⟨cache, ?_⟩
  rw [handleMessage]
  simp only [run_bind_ok (run_runner (s := ⟨self, []⟩)), if_neg below]
  rw [run_bind_ok ((run_tryCatch_error (g := fun error => pure (some error))
    (run_bind_error hrun)).trans (run_pure _))]

/-- What comes of the next delivery: the message is rejected, or redelivered with its attempt
counted. -/
inductive Next (queueName : String) (limit : Int) (message : Message) : Place → Bool → Prop
  | exhausted (at_limit : limit ≤ deliveryAttemptCount message queueName) :
      Next queueName limit message .rejected false
  | rejected (called : Bool) (below : deliveryAttemptCount message queueName < limit) :
      Next queueName limit message .rejected called
  | copied (copy : Message) (called : Bool)
      (below : deliveryAttemptCount message queueName < limit)
      (counted : deliveryAttemptCount copy queueName = deliveryAttemptCount message queueName + 1) :
      Next queueName limit message (.queued copy) called

theorem deliver_counted {s : Redelivery} {turn : Turn} (queued : s.place = .queued message)
    (nonneg : 0 ≤ deliveryAttemptCount message queueName)
    (counts : Counts interpreter queueName s turn) : ∃ called : Bool,
      Next queueName s.runner.deliveryLimit message (deliver interpreter queueName s turn).place
        called ∧
      (deliver interpreter queueName s turn).handlerCalls = s.handlerCalls + called.toNat ∧
      (deliver interpreter queueName s turn).runner.deliveryLimit = s.runner.deliveryLimit := by
  refine ⟨callsHandler interpreter turn.around s.runner message queueName, ?_⟩
  simp only [Counts, queued] at counts
  simp only [deliver, queued]
  by_cases limit : s.runner.deliveryLimit ≤ deliveryAttemptCount message queueName
  · rw [if_pos limit] at counts
    obtain ⟨event?, readable⟩ := counts
    rw [handleMessage_limit limit readable, callsHandler, if_pos limit]
    exact ⟨.exhausted limit, trivial, rfl⟩
  · rw [if_neg limit] at counts
    obtain ⟨error, failed, counted⟩ := counts
    obtain ⟨cache, hrun⟩ := handleMessage_error limit failed
    obtain ⟨effects, herror, hanswer⟩ := handleError_counted
      (Progress.cached ⟨s.runner, []⟩ cache) message (deliveryAttemptCount message queueName)
      counted
    rw [hrun, herror]
    refine ⟨?_, trivial, rfl⟩
    obtain rfl | ⟨copy, confirmation, hheaders, hforeign, hrefused, rfl⟩ := hanswer
    · exact .rejected _ (not_le.mp limit)
    · have hplace : broker turn.deaths message none [.published copy confirmation, .ack] =
          .queued (delayed turn.deaths copy) := by
        rw [broker, if_neg hrefused]
        rfl
      refine Eq.symm hplace ▸ .copied _ _ (not_le.mp limit) ?_
      exact deliveryAttemptCount_delayed (by omega) hheaders hforeign turn.deaths

/-! ### All deliveries -/

/-- After some deliveries: rejected within the limit, or queued with every delivery counted. -/
def Bounded (queueName : String) (limit : Int) (deliveries : Nat) (s : Redelivery) : Prop :=
  s.runner.deliveryLimit = limit ∧ s.handlerCalls ≤ limit.toNat ∧
    (s.place = .rejected ∨ ∃ message, s.place = .queued message ∧
      (deliveries : Int) ≤ deliveryAttemptCount message queueName ∧
      s.handlerCalls ≤ deliveries ∧ deliveries ≤ limit.toNat)

theorem Bounded.deliver {limit : Int} {deliveries : Nat} {s : Redelivery} {turn : Turn}
    (h : Bounded queueName limit deliveries s) (counts : Counts interpreter queueName s turn) :
    Bounded queueName limit (deliveries + 1) (deliver interpreter queueName s turn) := by
  obtain ⟨hlimit, hcalls, hrejected | ⟨message, queued, hcount, hless, hwithin⟩⟩ := h
  · have hsame : Sheets.deliver interpreter queueName s turn = s := by
      rw [Sheets.deliver, hrejected]
    rw [hsame]
    exact ⟨hlimit, hcalls, .inl hrejected⟩
  · obtain ⟨called, hnext, hhandler, hrunner⟩ := deliver_counted queued (by omega) counts
    have hone : called.toNat ≤ 1 := Bool.toNat_le called
    rw [hlimit] at hnext hrunner
    refine ⟨hrunner, ?_⟩
    rw [hhandler]
    generalize (Sheets.deliver interpreter queueName s turn).place = place at hnext ⊢
    cases hnext with
    | exhausted at_limit => exact ⟨by simpa using hcalls, .inl rfl⟩
    | rejected _ below => exact ⟨by omega, .inl rfl⟩
    | copied copy _ below counted =>
        refine ⟨by omega, .inr ⟨copy, rfl, ?_, by omega, by omega⟩⟩
        rw [counted]
        push_cast
        omega

theorem Bounded.run {limit : Int} {deliveries : Nat} {s : Redelivery} {turns : List Turn}
    (h : Bounded queueName limit deliveries s) (counted : CountedRun interpreter queueName s turns) :
    Bounded queueName limit (deliveries + turns.length)
      (turns.foldl (Sheets.deliver interpreter queueName) s) := by
  induction turns generalizing s deliveries with
  | nil => exact h
  | cons turn rest ih =>
      have hrest := ih (h.deliver counted.1) counted.2
      rw [List.length_cons, Nat.add_comm rest.length, ← Nat.add_assoc]
      exact hrest

/-- A message whose failures are all counted is rejected after at most as many calls of the
handler as the limit. -/
theorem redeliveries_bounded {turns : List Turn}
    (nonneg : 0 ≤ deliveryAttemptCount message queueName)
    (counted : CountedRun interpreter queueName ⟨self, .queued message, 0⟩ turns) :
    (redeliveries interpreter queueName self message turns).handlerCalls ≤
        self.deliveryLimit.toNat ∧
      (self.deliveryLimit.toNat < turns.length →
        (redeliveries interpreter queueName self message turns).place = .rejected) := by
  have hstart : Bounded queueName self.deliveryLimit 0 ⟨self, .queued message, 0⟩ :=
    ⟨rfl, Nat.zero_le _, .inr ⟨message, rfl, nonneg, le_rfl, Nat.zero_le _⟩⟩
  obtain ⟨-, hcalls, hplace⟩ := hstart.run counted
  refine ⟨hcalls, fun hmany => ?_⟩
  obtain hrejected | ⟨_, -, -, -, hwithin⟩ := hplace
  · exact hrejected
  · omega

end

/-- A handler that cannot reach the gateway. -/
def unreachable : Surroundings where
  monotonic := 0
  accountStatusSource := none
  handle _ := .error .connect
  publishing := .ok .confirmed

/-- Every answer to it requeues the message of an event as it was, so nothing is counted. -/
theorem redeliveries_unreachable (deliveries : Nat) :
    redeliveries (plainInterpreter (.int 1)) "zeler.sheets.events" plainRunner firstDelivery
        (List.replicate deliveries ⟨unreachable, []⟩) =
      ⟨plainRunner, .queued firstDelivery, deliveries⟩ := by
  have hrun (calls : Nat) : (List.replicate deliveries ⟨unreachable, []⟩).foldl
      (deliver (plainInterpreter (.int 1)) "zeler.sheets.events")
        ⟨plainRunner, .queued firstDelivery, calls⟩ =
      ⟨plainRunner, .queued firstDelivery, calls + deliveries⟩ := by
    induction deliveries generalizing calls with
    | zero => rfl
    | succ n ih =>
        have hstep : deliver (plainInterpreter (.int 1)) "zeler.sheets.events"
            ⟨plainRunner, .queued firstDelivery, calls⟩ ⟨unreachable, []⟩ =
              ⟨plainRunner, .queued firstDelivery, calls + 1⟩ := rfl
        rw [List.replicate_succ, List.foldl_cons, hstep, ih, Nat.add_right_comm, Nat.add_assoc]
  rw [redeliveries, hrun, Nat.zero_add]

/-- Six calls of the handler at a limit of five, and the message is still in the queue. -/
theorem unreachable_unbounded :
    (redeliveries (plainInterpreter (.int 1)) "zeler.sheets.events" plainRunner firstDelivery
        (List.replicate 6 ⟨unreachable, []⟩)).handlerCalls = 6 ∧
      plainRunner.deliveryLimit = 5 ∧
      (redeliveries (plainInterpreter (.int 1)) "zeler.sheets.events" plainRunner firstDelivery
        (List.replicate 6 ⟨unreachable, []⟩)).place = .queued firstDelivery :=
  ⟨rfl, rfl, rfl⟩

theorem redeliveries_claims_rejected :
    (redeliveries (plainInterpreter (.int 1)) sheetsClaimsQueue plainRunner firstDelivery
      (List.replicate 6 ⟨unreachable, []⟩)).place = .rejected := by
  have hcounted : CountedRun (plainInterpreter (.int 1)) sheetsClaimsQueue
      ⟨plainRunner, .queued firstDelivery, 0⟩ (List.replicate 6 ⟨unreachable, []⟩) := by
    refine ⟨?_, ?_, ?_, ?_, ?_, ?_, trivial⟩
    · exact ⟨.connect, rfl, rfl, .confirmed, rfl, by decide, rfl⟩
    · exact ⟨.connect, rfl, rfl, .confirmed, rfl, by decide, rfl⟩
    · exact ⟨.connect, rfl, rfl, .confirmed, rfl, by decide, rfl⟩
    · exact ⟨.connect, rfl, rfl, .confirmed, rfl, by decide, rfl⟩
    · exact ⟨.connect, rfl, rfl, .confirmed, rfl, by decide, rfl⟩
    · exact ⟨some ⟨"e1", "items", 1, "/items/1", "e1"⟩, rfl⟩
  exact (redeliveries_bounded (by decide) hcounted).2 (by decide)

end ZelerPlatform.Sheets
