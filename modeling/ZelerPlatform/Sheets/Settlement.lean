import ZelerPlatform.Sheets.Consumer
import ZelerPlatform.Library.Stateful

/-!
# Every delivery settled once

A branch of the except clauses answers its delivery once, with a kept original or an accepted
copy, unless it publishes outside a guard or takes an unconfirmed copy for an accepted one.
Those are the deliveries that are lost or left unsettled.
-/

namespace ZelerPlatform.Sheets

open Stateful

/-! ### Effects -/

def Effect.settles : Effect → Bool
  | .published .. => false
  | _ => true

/-- More effects on the broker. -/
def Progress.add (s : Progress) (effects : List Effect) : Progress :=
  { s with effects := s.effects ++ effects }

@[simp] theorem add_runner (s : Progress) (es : List Effect) : (s.add es).runner = s.runner := rfl

@[simp] theorem add_add (s : Progress) (xs ys : List Effect) :
    (s.add xs).add ys = s.add (xs ++ ys) := by
  simp [Progress.add, List.append_assoc]

@[simp] theorem add_nil (s : Progress) : s.add [] = s := by simp [Progress.add]

section

variable {s : Progress} {around : Surroundings} {copy : Copy} {confirmation : Confirmation}
variable {error : PyError}

@[simp] theorem run_effect (e : Effect) : run (effect e) s = (.ok (), s.add [e]) := rfl

@[simp] theorem run_ack : run ack s = (.ok (), s.add [.ack]) := rfl

@[simp] theorem run_nack (requeue : Bool) :
    run (nack requeue) s = (.ok (), s.add [.nack requeue]) := rfl

@[simp] theorem run_runner : run runner s = (.ok s.runner, s) := rfl

theorem run_publish_ok (h : around.publishing = .ok confirmation) :
    run (publish around copy) s = (.ok confirmation, s.add [.published copy confirmation]) := by
  unfold publish
  rw [h]
  rfl

theorem run_publish_error (h : around.publishing = .error error) :
    run (publish around copy) s = (.error error, s) := by
  unfold publish
  rw [h]
  rfl

end

/-! ### One publication -/

/-- Whether a publication returns, given what the channel answers. -/
def sends (self : Runner) (queueName : String) (mandatory : Bool) (confirmation : Confirmation) :
    Bool :=
  if queueName = sheetsClaimsQueue then
    self.hasChannel && confirmation != .refused && !(mandatory && confirmation == .unanswered)
  else if mandatory then self.hasChannel && confirmation == .confirmed
  else self.hasRetryDelayPublisher

section

variable {s : Progress} {around : Surroundings} {body : List UInt8} {queueName : String}
variable {delayMs : Int} {headers : PyDict} {mandatory : Bool} {confirmation : Confirmation}

/-- What a publication does: a copy that is sent, or an error with nothing settled. -/
inductive Publication (around : Surroundings) (self : Runner) (body : List UInt8)
    (queueName : String) (mandatory : Bool) : Except PyError Unit → List Effect → Prop
  | sent (copy : Copy) (confirmation : Confirmation) (same : copy.body = body)
      (answer : around.publishing = .ok confirmation)
      (accepted : sends self queueName mandatory confirmation = true) :
      Publication around self body queueName mandatory (.ok ()) [.published copy confirmation]
  | failed (error : PyError) (effects : List Effect)
      (unsettled : effects.filter Effect.settles = [])
      (refused : ∀ confirmation, around.publishing = .ok confirmation →
        sends self queueName mandatory confirmation = false) :
      Publication around self body queueName mandatory (.error error) effects

theorem publishMandatory_run (other : queueName ≠ sheetsClaimsQueue) :
    ∃ result effects,
      run (publishMandatory around body queueName delayMs headers) s = (result, s.add effects) ∧
        Publication around s.runner body queueName true result effects := by
  unfold publishMandatory
  rw [run_bind_ok run_runner]
  cases hchannel : s.runner.hasChannel with
  | false =>
      refine ⟨_, [], by simp, .failed runtimeError _ rfl fun c _ => ?_⟩
      simp [sends, other, hchannel]
  | true =>
      simp only [Bool.not_true, Bool.false_eq_true, if_false]
      cases hpublish : around.publishing with
      | error e =>
          rw [run_bind_error (run_publish_error hpublish)]
          exact ⟨_, [], by simp, .failed e _ rfl fun c h => by rw [hpublish] at h; cases h⟩
      | ok c =>
          rw [run_bind_ok (run_publish_ok hpublish)]
          cases c with
          | confirmed =>
              exact ⟨_, _, by simp; rfl,
                .sent _ .confirmed rfl hpublish (by simp [sends, other, hchannel])⟩
          | refused =>
              refine ⟨_, _, by simp; rfl, .failed runtimeError _ rfl fun c h => ?_⟩
              cases hpublish.symm.trans h
              simp [sends, other]
          | unanswered =>
              refine ⟨_, _, by simp; rfl, .failed runtimeError _ rfl fun c h => ?_⟩
              cases hpublish.symm.trans h
              simp [sends, other]

theorem publishClaims_run (claims : queueName = sheetsClaimsQueue) :
    ∃ result effects,
      run (publishClaims around body delayMs headers mandatory) s = (result, s.add effects) ∧
        Publication around s.runner body queueName mandatory result effects := by
  unfold publishClaims
  rw [run_bind_ok run_runner]
  cases hchannel : s.runner.hasChannel with
  | false =>
      refine ⟨_, [], by simp, .failed runtimeError _ rfl fun c _ => ?_⟩
      simp [sends, claims, hchannel]
  | true =>
      simp only [Bool.not_true, Bool.false_eq_true, if_false]
      cases hpublish : around.publishing with
      | error e =>
          rw [run_bind_error (run_publish_error hpublish)]
          exact ⟨_, [], by simp, .failed e _ rfl fun c h => by rw [hpublish] at h; cases h⟩
      | ok c =>
          rw [run_bind_ok (run_publish_ok hpublish)]
          by_cases hrefused : c = .refused ∨ mandatory ∧ c = .unanswered
          · rw [if_pos hrefused]
            refine ⟨_, _, by simp; rfl, .failed runtimeError _ rfl fun c' h => ?_⟩
            cases hpublish.symm.trans h
            simp only [sends, if_pos claims, hchannel]
            rcases hrefused with rfl | ⟨rfl, rfl⟩ <;> rfl
          · rw [if_neg hrefused]
            refine ⟨_, _, by simp; rfl, .sent _ c rfl hpublish ?_⟩
            simp only [sends, if_pos claims, hchannel]
            cases c <;> simp_all

theorem publishRetryDelay_run (s : Progress) (around : Surroundings) (body : List UInt8)
    (queueName : String) (delayMs : Int) (headers : PyDict) (mandatory : Bool) :
    ∃ result effects,
      run (publishRetryDelay around body queueName delayMs headers mandatory) s =
          (result, s.add effects) ∧
        Publication around s.runner body queueName mandatory result effects := by
  unfold publishRetryDelay
  by_cases claims : queueName = sheetsClaimsQueue
  · rw [if_neg (not_not_intro claims)]
    exact publishClaims_run claims
  rw [if_pos claims]
  cases mandatory with
  | true => exact publishMandatory_run claims
  | false =>
      simp only [Bool.false_eq_true, if_false]
      rw [run_bind_ok run_runner]
      cases hpublisher : s.runner.hasRetryDelayPublisher with
      | false =>
          refine ⟨_, [], by simp, .failed runtimeError _ rfl fun c _ => ?_⟩
          simp [sends, claims, hpublisher]
      | true =>
          simp only [Bool.not_true, Bool.false_eq_true, if_false]
          unfold publishDelay
          cases hpublish : around.publishing with
          | error e =>
              rw [run_bind_error (run_publish_error hpublish)]
              exact ⟨_, [], by simp, .failed e _ rfl fun c h => by rw [hpublish] at h; cases h⟩
          | ok c =>
              rw [run_bind_ok (run_publish_ok hpublish)]
              exact ⟨_, _, by simp; rfl,
                .sent _ c rfl hpublish (by simp [sends, claims, hpublisher])⟩

end

/-! ### One answer -/

/-- An answer that loses nothing: an accepted copy or the original kept. -/
inductive Kept (body : List UInt8) : List Effect → Prop
  | copied (copy : Copy) (same : copy.body = body) :
      Kept body [.published copy .confirmed, .ack]
  | requeued (before : List Effect) (unsettled : before.filter Effect.settles = []) :
      Kept body (before ++ [.nack true])

/-- The original is acknowledged for a copy that was not confirmed. -/
def Dropped (effects : List Effect) : Prop :=
  ∃ copy confirmation, confirmation ≠ Confirmation.confirmed ∧
    effects = [.published copy confirmation, .ack]

section

variable {s : Progress} {around : Surroundings} {message : Message} {queueName : String}
variable {delayMs deathCount : Int} {headers : PyDict} {mandatory : Bool}

/-- A channel's answer other than a confirmation that passes for one. -/
def PassesUnconfirmed (around : Surroundings) (self : Runner) (queueName : String)
    (mandatory : Bool) : Prop :=
  ∃ confirmation, around.publishing = .ok confirmation ∧ confirmation ≠ .confirmed ∧
    sends self queueName mandatory confirmation = true

/-- A guarded publication answers the delivery. -/
theorem ackIfPublished_run (s : Progress) (around : Surroundings) (message : Message)
    (queueName : String) (delayMs : Int) (headers : PyDict) (mandatory : Bool) :
    ∃ effects,
      run (ackIfPublished (publishRetryDelay around message.body queueName delayMs headers
        mandatory)) s = (.ok (), s.add effects) ∧
      (Kept message.body effects ∧ ¬ PassesUnconfirmed around s.runner queueName mandatory ∨
        Dropped effects ∧ PassesUnconfirmed around s.runner queueName mandatory) := by
  obtain ⟨result, effects, hrun, publication⟩ :=
    publishRetryDelay_run s around message.body queueName delayMs headers mandatory
  unfold ackIfPublished
  cases publication with
  | sent copy confirmation same answer accepted =>
      have hguard := run_tryCatch_ok (g := fun _ => pure false)
        ((run_bind_ok (f := fun _ => pure true) hrun).trans (run_pure true))
      rw [run_bind_ok hguard]
      refine ⟨_, by simp; rfl, ?_⟩
      by_cases hconfirmed : confirmation = .confirmed
      · subst hconfirmed
        refine .inl ⟨.copied copy same, ?_⟩
        rintro ⟨c, hc, hne, -⟩
        cases answer.symm.trans hc
        exact hne rfl
      · exact .inr ⟨⟨copy, confirmation, hconfirmed, rfl⟩,
          confirmation, answer, hconfirmed, accepted⟩
  | failed error _ unsettled refused =>
      have hguard := (run_tryCatch_error (g := fun _ => pure false)
        (run_bind_error (f := fun _ => pure true) hrun)).trans (run_pure false)
      rw [run_bind_ok hguard]
      refine ⟨effects ++ [.nack true], by simp, .inl ⟨.requeued _ unsettled, ?_⟩⟩
      rintro ⟨c, hc, -, haccepted⟩
      rw [refused c hc] at haccepted
      cases haccepted

/-- A mandatory copy is taken for accepted only if it was confirmed. -/
theorem not_passesUnconfirmed_mandatory {self : Runner} :
    ¬ PassesUnconfirmed around self queueName true := by
  rintro ⟨c, -, hne, haccepted⟩
  unfold sends at haccepted
  cases c <;> simp_all

theorem retryClaimsTransient_run_other (other : queueName ≠ sheetsClaimsQueue) :
    run (retryClaimsTransient around message queueName deathCount delayMs) s = (.ok false, s) := by
  unfold retryClaimsTransient
  rw [if_pos other]
  rfl

theorem retryClaimsTransient_run_claims (s : Progress) (around : Surroundings)
    (message : Message) (deathCount delayMs : Int) (claims : queueName = sheetsClaimsQueue) :
    ∃ effects,
      run (retryClaimsTransient around message queueName deathCount delayMs) s =
          (.ok true, s.add effects) ∧
        (Kept message.body effects ∧ ¬ PassesUnconfirmed around s.runner queueName false ∨
          Dropped effects ∧ PassesUnconfirmed around s.runner queueName false) := by
  obtain ⟨effects, hrun, answer⟩ := ackIfPublished_run s around message queueName
    (max delayMs (claimsRetryDelayMs (deathCount + 1)))
    (retryHeaders message (deathCount + 1)) false
  refine ⟨effects, ?_, answer⟩
  unfold retryClaimsTransient
  rw [if_neg (not_not_intro claims), run_bind_ok hrun]
  rfl

/-- The channel takes no copy for good and the runner acknowledges the original all the same. -/
def LosesCopy (around : Surroundings) (self : Runner) (queueName : String) : Prop :=
  if queueName = sheetsClaimsQueue then
    self.hasChannel = true ∧ around.publishing = .ok .unanswered
  else
    self.hasRetryDelayPublisher = true ∧
      (around.publishing = .ok .refused ∨ around.publishing = .ok .unanswered)

/-- The publication outside a guard raises. -/
def RaisesCopy (around : Surroundings) (self : Runner) (queueName : String) : Prop :=
  queueName ≠ sheetsClaimsQueue ∧ self.hasRetryDelayPublisher = true ∧
    ∃ error, around.publishing = .error error

theorem passesUnconfirmed_iff {self : Runner} :
    PassesUnconfirmed around self queueName false ↔ LosesCopy around self queueName := by
  unfold PassesUnconfirmed LosesCopy sends
  by_cases claims : queueName = sheetsClaimsQueue
  · simp only [if_pos claims]
    constructor
    · rintro ⟨c, hc, hne, hsends⟩
      cases c <;> simp_all
    · rintro ⟨hchannel, hc⟩
      exact ⟨_, hc, by simp, by simp [hchannel]⟩
  · simp only [if_neg claims]
    constructor
    · rintro ⟨c, hc, hne, hsends⟩
      cases c <;> simp_all
    · rintro ⟨hpublisher, hc | hc⟩
      · exact ⟨_, hc, by simp, by simp [hpublisher]⟩
      · exact ⟨_, hc, by simp, by simp [hpublisher]⟩

end

/-! ### One error -/

/-- What is done about an error. -/
inductive Branch
  | wait
  | delay
  | readiness
  | requeue
  | reject
  deriving DecidableEq, Repr

/-- The branch of an error; a rate limit whose response cannot be read has none. -/
def branch : PyError → Option Branch
  | .historyPolicyWait => some .wait
  | .gatewayRateLimit _ response =>
      match pilotWaitCode response with
      | .error _ => none
      | .ok (some _) => some .wait
      | .ok none => some .delay
  | .retryableGoogleSheetsApi _ | .statusObservationContention | .retryableItemAcquisition
  | .eventClaimTimeout => some .delay
  | .devolucionesLeaseConflict | .devolucionesLeaseLost | .connect | .timeout => some .requeue
  | .httpStatus statusCode =>
      if statusCode = 412 then some .readiness
      else if 500 ≤ statusCode ∨ statusCode ∈ retriableHttpStatusCodes then some .requeue
      else some .reject
  | .builtin _ => some .reject

/-- An error that may pass: it is in no branch that rejects. -/
def Passing (error : PyError) : Prop := branch error ≠ some .reject

/-- The answer to an error loses the delivery or leaves it unsettled. -/
def Mishandles (around : Surroundings) (self : Runner) (queueName : String) (error : PyError) :
    Prop :=
  match branch error with
  | none => True
  | some .wait | some .reject => False
  | some .requeue => queueName = sheetsClaimsQueue ∧ LosesCopy around self queueName
  | some .readiness => LosesCopy around self queueName
  | some .delay =>
      LosesCopy around self queueName ∨ RaisesCopy around self queueName

/-- The delivery is dropped, or left unsettled by an error. -/
def Lost (result : Except PyError Unit) (effects : List Effect) : Prop :=
  result = .ok () ∧ Dropped effects ∨
    (∃ error, result = .error error) ∧ effects.filter Effect.settles = []

section

variable {s : Progress} {around : Surroundings} {message : Message} {queueName : String}
variable {delayMs deathCount statusCode : Int}

theorem kept_nack {body : List UInt8} : Kept body [.nack true] := .requeued [] rfl

theorem requeue_run (s : Progress) (around : Surroundings) (message : Message)
    (queueName : String) (deathCount : Int) :
    ∃ effects, run (requeue around message queueName deathCount) s = (.ok (), s.add effects) ∧
      (Kept message.body effects ∧
          ¬ (queueName = sheetsClaimsQueue ∧ LosesCopy around s.runner queueName) ∨
        Dropped effects ∧ queueName = sheetsClaimsQueue ∧ LosesCopy around s.runner queueName) := by
  unfold requeue
  by_cases claims : queueName = sheetsClaimsQueue
  · obtain ⟨effects, hrun, answer⟩ :=
      retryClaimsTransient_run_claims s around message deathCount 0 claims
    rw [run_bind_ok hrun]
    simp only [passesUnconfirmed_iff] at answer
    exact ⟨effects, rfl, by simpa [claims] using answer⟩
  · rw [run_bind_ok (retryClaimsTransient_run_other claims)]
    exact ⟨_, rfl, .inl ⟨kept_nack, fun h => claims h.1⟩⟩

/-- The branch with a delayed copy outside a guard. -/
theorem retryDelayed_run (s : Progress) (around : Surroundings) (message : Message)
    (queueName : String) (deathCount delayMs : Int) :
    ∃ result effects,
      run (retryDelayed around message queueName deathCount delayMs) s = (result, s.add effects) ∧
      (result = .ok () ∧ Kept message.body effects ∧
          ¬ (LosesCopy around s.runner queueName ∨ RaisesCopy around s.runner queueName) ∨
        result = .ok () ∧ Dropped effects ∧ LosesCopy around s.runner queueName ∨
        (∃ error, result = .error error) ∧ effects.filter Effect.settles = [] ∧
          RaisesCopy around s.runner queueName) := by
  unfold retryDelayed
  by_cases claims : queueName = sheetsClaimsQueue
  · obtain ⟨effects, hrun, answer⟩ :=
      retryClaimsTransient_run_claims s around message deathCount delayMs claims
    rw [run_bind_ok hrun]
    simp only [passesUnconfirmed_iff] at answer
    refine ⟨_, effects, rfl, ?_⟩
    obtain ⟨kept, safe⟩ | ⟨dropped, loses⟩ := answer
    · exact .inl ⟨rfl, kept, fun h => h.elim safe fun h => h.1 claims⟩
    · exact .inr (.inl ⟨rfl, dropped, loses⟩)
  rw [run_bind_ok (retryClaimsTransient_run_other claims)]
  simp only [Bool.false_eq_true, if_false]
  rw [run_bind_ok run_runner]
  cases hpublisher : s.runner.hasRetryDelayPublisher with
  | false =>
      exact ⟨_, _, rfl, .inl ⟨rfl, kept_nack, by simp [LosesCopy, RaisesCopy, claims, hpublisher]⟩⟩
  | true =>
      simp only [Bool.not_true, Bool.false_eq_true, if_false]
      obtain ⟨result, effects, hrun, publication⟩ := publishRetryDelay_run s around message.body
        queueName delayMs (retryHeaders message (deathCount + 1)) false
      cases publication with
      | sent copy c same answer accepted =>
          rw [run_bind_ok hrun]
          refine ⟨.ok (), [.published copy c, .ack], by simp, ?_⟩
          by_cases hconfirmed : c = .confirmed
          · subst hconfirmed
            refine .inl ⟨rfl, .copied copy same, ?_⟩
            simp [LosesCopy, RaisesCopy, claims, answer]
          · refine .inr (.inl ⟨rfl, ⟨copy, c, hconfirmed, rfl⟩, ?_⟩)
            rw [LosesCopy, if_neg claims, answer]
            cases c <;> simp_all
      | failed e _ unsettled refused =>
          rw [run_bind_error hrun]
          refine ⟨_, effects, rfl, .inr (.inr ⟨⟨e, rfl⟩, unsettled, claims, hpublisher, ?_⟩)⟩
          cases hpublish : around.publishing with
          | error e => exact ⟨e, rfl⟩
          | ok c =>
              have := refused c hpublish
              simp [sends, claims, hpublisher] at this

theorem httpStatus_run (s : Progress) (around : Surroundings) (message : Message)
    (queueName : String) (deathCount : Int) :
    ∃ effects,
      run (httpStatus around message queueName deathCount 412) s = (.ok (), s.add effects) ∧
      (Kept message.body effects ∧ ¬ LosesCopy around s.runner queueName ∨
        Dropped effects ∧ LosesCopy around s.runner queueName) := by
  unfold httpStatus
  rw [if_pos rfl]
  by_cases claims : queueName = sheetsClaimsQueue
  · obtain ⟨effects, hrun, answer⟩ := retryClaimsTransient_run_claims s around message deathCount
      (claimsRetryDelayMs (deathCount + 1)) claims
    rw [run_bind_ok hrun]
    simp only [passesUnconfirmed_iff] at answer
    exact ⟨effects, rfl, answer⟩
  · rw [run_bind_ok (retryClaimsTransient_run_other claims)]
    obtain ⟨effects, hrun, answer⟩ := ackIfPublished_run s around message queueName
      (claimsRetryDelayMs (deathCount + 1)) (retryHeaders message (deathCount + 1)) false
    simp only [passesUnconfirmed_iff] at answer
    exact ⟨effects, hrun, answer⟩

/-- An error that may pass is answered without a loss, or the delivery is lost or left as the
branch of the error mishandles it. -/
theorem handleError_run (s : Progress) (around : Surroundings) (message : Message)
    (queueName : String) (deathCount : Int) {error : PyError} (passing : Passing error) :
    ∃ result effects,
      run (handleError around message queueName deathCount error) s = (result, s.add effects) ∧
      (result = .ok () ∧ Kept message.body effects ∧
          ¬ Mishandles around s.runner queueName error ∨
        Lost result effects ∧ Mishandles around s.runner queueName error) := by
  have hguarded (delayMs : Int) (headers : PyDict) (hwait : branch error = some .wait) :
      ∃ result effects,
        run (ackIfPublished (publishRetryDelay around message.body queueName delayMs headers
          true)) s = (result, s.add effects) ∧
        (result = .ok () ∧ Kept message.body effects ∧
            ¬ Mishandles around s.runner queueName error ∨
          Lost result effects ∧ Mishandles around s.runner queueName error) := by
    obtain ⟨effects, hrun, answer⟩ := ackIfPublished_run s around message queueName delayMs
      headers true
    obtain ⟨kept, -⟩ | ⟨-, passes⟩ := answer
    · exact ⟨_, effects, hrun, .inl ⟨rfl, kept, by simp [Mishandles, hwait]⟩⟩
    · exact (not_passesUnconfirmed_mandatory passes).elim
  have hdelay (delayMs : Int) (hdelay : branch error = some .delay) :
      ∃ result effects,
        run (retryDelayed around message queueName deathCount delayMs) s =
          (result, s.add effects) ∧
        (result = .ok () ∧ Kept message.body effects ∧
            ¬ Mishandles around s.runner queueName error ∨
          Lost result effects ∧ Mishandles around s.runner queueName error) := by
    obtain ⟨result, effects, hrun, answer⟩ :=
      retryDelayed_run s around message queueName deathCount delayMs
    refine ⟨result, effects, hrun, ?_⟩
    simp only [Mishandles, hdelay]
    obtain ⟨hok, kept, safe⟩ | ⟨hok, dropped, loses⟩ | ⟨herror, unsettled, raises⟩ := answer
    · exact .inl ⟨hok, kept, safe⟩
    · exact .inr ⟨.inl ⟨hok, dropped⟩, .inl loses⟩
    · exact .inr ⟨.inr ⟨herror, unsettled⟩, .inr raises⟩
  have hrequeue (hbranch : branch error = some .requeue) :
      ∃ result effects,
        run (requeue around message queueName deathCount) s = (result, s.add effects) ∧
        (result = .ok () ∧ Kept message.body effects ∧
            ¬ Mishandles around s.runner queueName error ∨
          Lost result effects ∧ Mishandles around s.runner queueName error) := by
    obtain ⟨effects, hrun, answer⟩ := requeue_run s around message queueName deathCount
    refine ⟨_, effects, hrun, ?_⟩
    have hmishandles : Mishandles around s.runner queueName error =
        (queueName = sheetsClaimsQueue ∧ LosesCopy around s.runner queueName) := by
      simp only [Mishandles, hbranch]
    rw [hmishandles]
    exact answer.imp (fun ⟨kept, safe⟩ => ⟨rfl, kept, safe⟩)
      fun ⟨dropped, loses⟩ => ⟨.inl ⟨rfl, dropped⟩, loses⟩
  cases error with
  | historyPolicyWait => exact hguarded _ _ rfl
  | gatewayRateLimit retryAfterSeconds response =>
      simp only [handleError, gatewayRateLimit]
      cases hcode : pilotWaitCode response with
      | error e =>
          refine ⟨.error (.builtin e), [], by simp, .inr ⟨.inr ⟨⟨_, rfl⟩, rfl⟩, ?_⟩⟩
          simp [Mishandles, branch, hcode]
      | ok code =>
          cases code with
          | some code => exact hguarded _ _ (by simp [branch, hcode])
          | none => exact hdelay _ (by simp [branch, hcode])
  | retryableGoogleSheetsApi retryAfterSeconds => exact hdelay _ rfl
  | statusObservationContention => exact hdelay _ rfl
  | retryableItemAcquisition => exact hdelay _ rfl
  | eventClaimTimeout => exact hdelay _ rfl
  | devolucionesLeaseConflict => exact hrequeue rfl
  | devolucionesLeaseLost => exact hrequeue rfl
  | connect => exact hrequeue rfl
  | timeout => exact hrequeue rfl
  | builtin e => exact (passing rfl).elim
  | httpStatus statusCode =>
      by_cases hready : statusCode = 412
      · subst hready
        obtain ⟨effects, hrun, answer⟩ := httpStatus_run s around message queueName deathCount
        refine ⟨_, effects, hrun, ?_⟩
        have hmishandles : Mishandles around s.runner queueName (.httpStatus 412) =
          LosesCopy around s.runner queueName := rfl
        rw [hmishandles]
        exact answer.imp (fun ⟨kept, safe⟩ => ⟨rfl, kept, safe⟩)
          fun ⟨dropped, loses⟩ => ⟨.inl ⟨rfl, dropped⟩, loses⟩
      · have hretry : 500 ≤ statusCode ∨ statusCode ∈ retriableHttpStatusCodes := by
          by_contra h
          exact passing (by simp [branch, hready, h])
        have hpermanent : statusCode ∉ permanentHttpStatusCodes := by
          simp only [permanentHttpStatusCodes, retriableHttpStatusCodes, List.mem_cons,
            List.not_mem_nil, or_false] at hretry ⊢
          omega
        simp only [handleError, httpStatus, if_neg hready, if_neg hpermanent, if_pos hretry]
        exact hrequeue (by simp [branch, hready, hretry])

/-- A permanent error rejects the delivery. -/
theorem handleError_run_reject (s : Progress) (around : Surroundings) (message : Message)
    (queueName : String) (deathCount : Int) {error : PyError} (permanent : ¬ Passing error) :
    run (handleError around message queueName deathCount error) s =
      (.ok (), s.add [.nack false]) := by
  have hreject : branch error = some .reject := not_not.mp permanent
  cases error with
  | gatewayRateLimit retryAfterSeconds response =>
      simp only [branch] at hreject
      split at hreject <;> cases hreject
  | httpStatus statusCode =>
      have hready : statusCode ≠ 412 := by
        rintro rfl
        cases hreject
      have hretry : ¬ (500 ≤ statusCode ∨ statusCode ∈ retriableHttpStatusCodes) := by
        intro h
        simp only [branch, if_neg hready, if_pos h] at hreject
        cases hreject
      simp only [handleError, httpStatus, if_neg hready, if_neg hretry, ite_self]
      rfl
  | builtin e => rfl
  | _ => cases hreject

end

/-! ### The try block -/

/-- The status of an account: the one seen in the last 30 seconds, or what the source says. -/
def accountStatus (around : Surroundings) (self : Runner) (sellerId : Int) :
    Except PyError (Option String) :=
  match around.accountStatusSource with
  | none => .ok none
  | some source =>
      match self.accountStatusCache.lookup sellerId with
      | some (some status, cachedAt) =>
          if around.monotonic - cachedAt ≤ 30 then .ok (some status) else source sellerId
      | _ => source sellerId

/-- What comes of the try block: the error raised, or whether the event was handled and not left
alone on a paused account. -/
def attempt (interpreter : Interpreter) (around : Surroundings) (self : Runner)
    (message : Message) : Except PyError Bool := do
  let event ← (sheetsEventFromMessage interpreter message).mapError .builtin
  let status ← accountStatus around self event.sellerId
  if status = some "paused" then return false
  else
    let _ ← around.handle event
    return true

/-- The runner with another cache. -/
def Progress.cached (s : Progress) (cache : List (Int × Option String × ℚ)) : Progress :=
  { s with runner := { s.runner with accountStatusCache := cache } }

theorem accountIsPaused_run (s : Progress) (around : Surroundings) (sellerId : Int) :
    ∃ cache, run (accountIsPaused around sellerId) s =
      ((accountStatus around s.runner sellerId).map (· == some "paused"), s.cached cache) := by
  have hask (source : Int → Except PyError (Option String)) :
      ∃ cache, run (accountIsPaused.askAccount around sellerId source) s =
        ((source sellerId).map (· == some "paused"), s.cached cache) := by
    unfold accountIsPaused.askAccount
    cases hsource : source sellerId with
    | error e => exact ⟨s.runner.accountStatusCache, rfl⟩
    | ok status => exact ⟨(sellerId, status, around.monotonic) :: s.runner.accountStatusCache, rfl⟩
  unfold accountIsPaused accountStatus
  cases around.accountStatusSource with
  | none => exact ⟨s.runner.accountStatusCache, rfl⟩
  | some source =>
      simp only
      rw [run_bind_ok run_runner]
      cases s.runner.accountStatusCache.lookup sellerId with
      | none => exact hask source
      | some seen =>
          obtain ⟨status, cachedAt⟩ := seen
          cases status with
          | none => exact hask source
          | some status =>
              by_cases fresh : around.monotonic - cachedAt ≤ 30
              · simp only [if_pos fresh]
                exact ⟨s.runner.accountStatusCache, rfl⟩
              · simp only [if_neg fresh]
                exact hask source

theorem tryHandle_run (interpreter : Interpreter) (s : Progress) (around : Surroundings)
    (message : Message) :
    ∃ cache, run (tryHandle interpreter around message) s =
      (attempt interpreter around s.runner message, s.cached cache) := by
  unfold tryHandle attempt
  cases sheetsEventFromMessage interpreter message with
  | error e => exact ⟨s.runner.accountStatusCache, rfl⟩
  | ok event =>
      obtain ⟨cache, hpaused⟩ := accountIsPaused_run s around event.sellerId
      refine ⟨cache, ?_⟩
      rw [run_bind_ok (show run (ExceptT.mk (pure ((Except.ok event).mapError PyError.builtin))) s =
        (.ok event, s) from rfl)]
      cases hstatus : accountStatus around s.runner event.sellerId with
      | error e =>
          rw [hstatus] at hpaused
          rw [run_bind_error hpaused]
          simp [Except.mapError, bind, Except.bind, hstatus]
      | ok status =>
          rw [hstatus] at hpaused
          rw [run_bind_ok hpaused]
          by_cases paused : status = some "paused"
          · simp [Except.mapError, bind, Except.bind, hstatus, paused]
            rfl
          · simp only [Except.mapError, bind, Except.bind, hstatus, paused, beq_iff_eq, if_false]
            cases around.handle event with
            | error e => rfl
            | ok reply => rfl

/-! ### One delivery -/

/-- What a delivery does from its arrival. -/
def delivered (interpreter : Interpreter) (around : Surroundings) (self : Runner)
    (message : Message) (queueName : String) : Except PyError Unit × List Effect :=
  let (result, s) := run (handleMessage interpreter around message queueName) ⟨self, []⟩
  (result, s.effects)

/-- A delivery settled once and not lost; an acknowledgement is for an event handled, one on a
paused account or an accepted copy. -/
structure Settled (interpreter : Interpreter) (around : Surroundings) (before : Runner)
    (message : Message) (queueName : String) (result : Except PyError Unit)
    (effects : List Effect) : Prop where
  returns : result = .ok ()
  once : ∃ answer, effects.filter Effect.settles = [answer]
  acked : .ack ∈ effects →
    (∃ event status reply, sheetsEventFromMessage interpreter message = .ok event ∧
      accountStatus around before event.sellerId = .ok status ∧ status ≠ some "paused" ∧
      around.handle event = .ok reply) ∨
    (∃ event, sheetsEventFromMessage interpreter message = .ok event ∧
      accountStatus around before event.sellerId = .ok (some "paused")) ∨
    ∃ copy, .published copy .confirmed ∈ effects ∧ copy.body = message.body
  rejected : .nack false ∈ effects →
    before.deliveryLimit ≤ deliveryAttemptCount message queueName ∨
    ∃ error, attempt interpreter around before message = .error error ∧ ¬ Passing error

/-- The deliveries that are lost or left unsettled. -/
def Mishandled (interpreter : Interpreter) (around : Surroundings) (self : Runner)
    (message : Message) (queueName : String) : Prop :=
  if self.deliveryLimit ≤ deliveryAttemptCount message queueName then
    ∃ error, sheetsEventFromMessage interpreter message = .error error ∧
      error.isPayloadError = false
  else
    ∃ error, attempt interpreter around self message = .error error ∧
      Mishandles around self queueName error

section

variable {interpreter : Interpreter} {around : Surroundings} {self : Runner} {message : Message}
variable {queueName : String}

/-- The try block ends well for an event handled or on a paused account. -/
theorem attempt_ok_iff : (∃ handled, attempt interpreter around self message = .ok handled) ↔
    (∃ event status reply, sheetsEventFromMessage interpreter message = .ok event ∧
      accountStatus around self event.sellerId = .ok status ∧ status ≠ some "paused" ∧
      around.handle event = .ok reply) ∨
    ∃ event, sheetsEventFromMessage interpreter message = .ok event ∧
      accountStatus around self event.sellerId = .ok (some "paused") := by
  unfold attempt
  cases sheetsEventFromMessage interpreter message with
  | error e => simp [Except.mapError, bind, Except.bind]
  | ok event =>
      cases hstatus : accountStatus around self event.sellerId with
      | error e => simp [Except.mapError, bind, Except.bind, hstatus]
      | ok status =>
          by_cases paused : status = some "paused"
          · simp [Except.mapError, bind, Except.bind, hstatus, paused, pure, Except.pure]
          · cases hreply : around.handle event with
            | error e => simp [Except.mapError, bind, Except.bind, hstatus, paused, hreply]
            | ok reply =>
                simp [Except.mapError, bind, Except.bind, hstatus, paused, hreply, pure,
                  Except.pure]

theorem delivered_limit (limit : self.deliveryLimit ≤ deliveryAttemptCount message queueName) :
    delivered interpreter around self message queueName =
      match eventContextFromMessage interpreter message with
      | .ok _ => (.ok (), [.nack false])
      | .error error => (.error (.builtin error), []) := by
  unfold delivered handleMessage
  simp only [run_bind_ok (run_runner (s := ⟨self, []⟩)), if_pos limit]
  cases eventContextFromMessage interpreter message with
  | error e => rfl
  | ok event => rfl

theorem delivered_ok {handled : Bool}
    (below : ¬ self.deliveryLimit ≤ deliveryAttemptCount message queueName)
    (h : attempt interpreter around self message = .ok handled) :
    delivered interpreter around self message queueName = (.ok (), [.ack]) := by
  obtain ⟨cache, hrun⟩ := tryHandle_run interpreter ⟨self, []⟩ around message
  rw [h] at hrun
  unfold delivered handleMessage
  simp only [run_bind_ok (run_runner (s := ⟨self, []⟩)), if_neg below]
  rw [run_bind_ok (run_tryCatch_ok ((run_bind_ok hrun).trans (run_pure none)))]
  rfl

theorem delivered_error {error : PyError}
    (below : ¬ self.deliveryLimit ≤ deliveryAttemptCount message queueName)
    (h : attempt interpreter around self message = .error error) :
    ∃ cache, delivered interpreter around self message queueName =
      let (result, s) := run (handleError around message queueName
        (deliveryAttemptCount message queueName) error) (Progress.cached ⟨self, []⟩ cache)
      (result, s.effects) := by
  obtain ⟨cache, hrun⟩ := tryHandle_run interpreter ⟨self, []⟩ around message
  rw [h] at hrun
  refine ⟨cache, ?_⟩
  unfold delivered handleMessage
  simp only [run_bind_ok (run_runner (s := ⟨self, []⟩)), if_neg below]
  rw [run_bind_ok ((run_tryCatch_error (g := fun error => pure (some error))
    (run_bind_error hrun)).trans (run_pure _))]

theorem Kept.settled {effects : List Effect} (kept : Kept message.body effects) :
    Settled interpreter around self message queueName (.ok ()) effects := by
  cases kept with
  | copied copy same =>
      refine ⟨rfl, ⟨.ack, rfl⟩, fun _ => .inr (.inr ⟨copy, by simp, same⟩), fun h => ?_⟩
      simp at h
  | requeued before unsettled =>
      have hno : ∀ e ∈ before, e.settles = false := by
        intro e he
        have := List.filter_eq_nil_iff.mp unsettled e he
        simpa using this
      refine ⟨rfl, ⟨.nack true, by simp [unsettled, Effect.settles]⟩, fun h => ?_, fun h => ?_⟩
      · rcases List.mem_append.mp h with h | h
        · exact absurd (hno _ h) (by simp [Effect.settles])
        · simp at h
      · rcases List.mem_append.mp h with h | h
        · exact absurd (hno _ h) (by simp [Effect.settles])
        · simp at h

theorem not_settled_of_lost {result : Except PyError Unit} {effects : List Effect}
    (lost : Lost result effects)
    (failed : ¬ ∃ handled, attempt interpreter around self message = .ok handled) :
    ¬ Settled interpreter around self message queueName result effects := by
  intro settled
  obtain ⟨-, copy, confirmation, hne, rfl⟩ | ⟨⟨error, rfl⟩, -⟩ := lost
  · rw [attempt_ok_iff, not_or] at failed
    obtain handled | paused | ⟨other, hother, -⟩ := settled.acked (by simp)
    · exact failed.1 handled
    · exact failed.2 paused
    · simp only [List.mem_cons, Effect.published.injEq, reduceCtorEq, List.not_mem_nil,
        or_false] at hother
      exact hne hother.2.symm
  · cases settled.returns

end

/-- A delivery is settled once and not lost unless it is mishandled. -/
theorem settled_iff (interpreter : Interpreter) (around : Surroundings) (before : Runner)
    (message : Message) (queueName : String) :
    Settled interpreter around before message queueName
        (delivered interpreter around before message queueName).1
        (delivered interpreter around before message queueName).2 ↔
      ¬ Mishandled interpreter around before message queueName := by
  unfold Mishandled
  by_cases limit : before.deliveryLimit ≤ deliveryAttemptCount message queueName
  · rw [if_pos limit, delivered_limit limit]
    have hrejected : Settled interpreter around before message queueName (.ok ())
        [.nack false] :=
      ⟨rfl, ⟨.nack false, rfl⟩, fun h => by simp at h, fun _ => .inl limit⟩
    unfold eventContextFromMessage
    cases sheetsEventFromMessage interpreter message with
    | ok event => simpa using hrejected
    | error e =>
        cases hpayload : e.isPayloadError with
        | true => simpa [hpayload] using hrejected
        | false =>
            constructor
            · intro settled
              simp only [hpayload, Bool.false_eq_true, if_false] at settled
              cases settled.returns
            · intro readable
              exact (readable ⟨e, rfl, hpayload⟩).elim
  rw [if_neg limit]
  cases hattempt : attempt interpreter around before message with
  | ok handled =>
      rw [delivered_ok limit hattempt]
      have acked : Settled interpreter around before message queueName (.ok ()) [.ack] := by
        refine ⟨rfl, ⟨.ack, rfl⟩, fun _ => ?_, fun h => by simp at h⟩
        rw [← or_assoc]
        exact .inl (attempt_ok_iff.mp ⟨handled, hattempt⟩)
      simpa using acked
  | error error =>
      obtain ⟨cache, hdelivered⟩ := delivered_error limit hattempt
      have hmishandled : (∃ e, (Except.error error : Except PyError Bool) = .error e ∧
          Mishandles around before queueName e) ↔ Mishandles around before queueName error := by
        simp
      rw [hmishandled, hdelivered]
      by_cases passing : Passing error
      · obtain ⟨result, effects, hrun, answer⟩ := handleError_run
          (Progress.cached ⟨before, []⟩ cache) around message queueName
          (deliveryAttemptCount message queueName) passing
        rw [hrun]
        have heffects : ((Progress.cached ⟨before, []⟩ cache).add effects).effects = effects := rfl
        simp only [heffects]
        obtain ⟨rfl, kept, safe⟩ | ⟨lost, mishandles⟩ := answer
        · exact ⟨fun _ => safe, fun _ => kept.settled⟩
        · have failed : ¬ ∃ handled, attempt interpreter around before message = .ok handled := by
            rw [hattempt]
            simp
          exact ⟨fun settled => (not_settled_of_lost lost failed settled).elim,
            fun safe => (safe mishandles).elim⟩
      · rw [handleError_run_reject _ around message queueName _ passing]
        have safe : ¬ Mishandles around before queueName error := by
          rw [Mishandles, not_not.mp passing]
          exact not_false
        refine ⟨fun _ => safe, fun _ => ?_⟩
        exact ⟨rfl, ⟨.nack false, rfl⟩, fun h => by simp [Progress.add, Progress.cached] at h,
          fun _ => .inr ⟨error, hattempt, passing⟩⟩

/-- A consumer of the events queue that publishes delayed copies. -/
def plainRunner : Runner where
  exchangeName := meliEventsExchange
  deliveryLimit := 5
  hasChannel := true
  hasRetryDelayPublisher := true
  accountStatusCache := []

/-- The body of an event on an item of the seller. -/
def itemBody (sellerId : String) : List UInt8 :=
  ("\x7b\"event_id\": \"e1\", \"event_type\": \"items\", \"seller_id\": " ++ sellerId ++
    ", \"resource\": \"/items/1\"\x7d").toUTF8.toList

/-- An interpreter at such a body: `json.loads` takes `Infinity` for a number. -/
def plainInterpreter (sellerId : PyValue) : Interpreter where
  loads _ := .ok (.dict [("event_id", .text "e1"), ("event_type", .text "items"),
    ("seller_id", sellerId), ("resource", .text "/items/1")])
  repr _ := .ok ""

/-- A handler out of time for its claim, with the channel closed under the delayed copy. -/
def claimTimeout : Surroundings where
  monotonic := 0
  accountStatusSource := none
  handle _ := .error .eventClaimTimeout
  publishing := .error (.builtin (.other "ChannelInvalidStateError"))

/-- A first delivery of an event of seller 1. -/
def firstDelivery : Message := ⟨itemBody "1", none⟩

/-- A fifth retry of an event whose seller is no integer. -/
def infiniteDelivery : Message :=
  ⟨itemBody "Infinity", some [("x-zeler-retry-attempt", .int 5)]⟩

/-- Two deliveries left unsettled: the delayed copy cannot be published outside a guard, and the
event of a delivery at its limit has a seller without an integer. -/
theorem claimTimeout_unsettled :
    (delivered (plainInterpreter (.int 1)) claimTimeout plainRunner firstDelivery
        "zeler.sheets.events").2 = [] ∧
      ¬ Settled (plainInterpreter (.int 1)) claimTimeout plainRunner firstDelivery
        "zeler.sheets.events"
        (delivered (plainInterpreter (.int 1)) claimTimeout plainRunner firstDelivery
          "zeler.sheets.events").1
        (delivered (plainInterpreter (.int 1)) claimTimeout plainRunner firstDelivery
          "zeler.sheets.events").2 ∧
    (delivered (plainInterpreter (.float (.infinity false))) claimTimeout plainRunner
        infiniteDelivery "zeler.sheets.claims").2 = [] ∧
      ¬ Settled (plainInterpreter (.float (.infinity false))) claimTimeout plainRunner
        infiniteDelivery "zeler.sheets.claims"
        (delivered (plainInterpreter (.float (.infinity false))) claimTimeout plainRunner
          infiniteDelivery "zeler.sheets.claims").1
        (delivered (plainInterpreter (.float (.infinity false))) claimTimeout plainRunner
          infiniteDelivery "zeler.sheets.claims").2 := by
  refine ⟨rfl, fun settled => ?_, rfl, fun settled => ?_⟩
  · have hraised : (Except.error (.builtin (.other "ChannelInvalidStateError")) :
        Except PyError Unit) = .ok () := settled.returns
    cases hraised
  · have hraised : (Except.error (.builtin (.other "OverflowError")) :
        Except PyError Unit) = .ok () := settled.returns
    cases hraised

end ZelerPlatform.Sheets
