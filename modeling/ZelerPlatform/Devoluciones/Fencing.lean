import ZelerPlatform.Devoluciones.Lease
import ZelerPlatform.Library.Run

/-!
# Fencing of devoluciones operations

Any number of processes acquire, heartbeat, write, invalidate and finish on one
(seller, scope). Transactions are atomic and server time does not go back. A context can
change documents only while it passes the lease guard (`HolderStep`); the guard fixes the
fence, and an acquisition hands out a fence that nobody has had.
-/

namespace ZelerPlatform.Devoluciones

open Mongo Transition

/-! ### The system -/

structure World (δ : Type) where
  now : Int
  db : Db δ

/-- A process: idle, in `acquire_devoluciones_operation` with the attempts it has made, or
with a context, which it may have finished. -/
inductive Process
  | idle
  | acquiring (request : Acquisition) (attempt : Nat)
  | holding (ctx : Context) (finished : Bool)

inductive Event (ι : Type*)
  | local
  | acquired (process : ι)
  | acquireFailed (process : ι)

variable {ι : Type*} {δ : Type} {key : Key}

/-- One step of process `i`. A database error, of which only a transient one is retried,
aborts the transaction. -/
inductive Move (key : Key) (i : ι) : Process → World δ → Event ι → Process → World δ → Prop
  | call {world} (request : Acquisition) :
      Move key i .idle world .local (.acquiring request 0) world
  | acquire {request attempt} {world : World δ} {ctx db} (now₁ now₂ now₃ : Int)
      (time : world.now ≤ now₁ ∧ now₁ ≤ now₂ ∧ now₂ ≤ now₃)
      (h : acquireOnce key request now₁ now₂ now₃ world.db = .ok (ctx, db)) :
      Move key i (.acquiring request attempt) world (.acquired i) (.holding ctx false) ⟨now₃, db⟩
  | refuse {request attempt} {world : World δ} {error} (now₁ now₂ now₃ : Int)
      (time : world.now ≤ now₁ ∧ now₁ ≤ now₂ ∧ now₂ ≤ now₃)
      (h : acquireOnce key request now₁ now₂ now₃ world.db = .error error) :
      Move key i (.acquiring request attempt) world (.acquireFailed i) .idle ⟨now₃, world.db⟩
  | retry {request attempt world} (h : attempt < 2) :
      Move key i (.acquiring request attempt) world .local (.acquiring request (attempt + 1)) world
  | abort {request attempt world} :
      Move key i (.acquiring request attempt) world (.acquireFailed i) .idle world
  | heartbeat {ctx ctx' finished} {world : World δ} {now result db} (time : world.now ≤ now)
      (h : Devoluciones.heartbeat ctx now world.db = (result, ctx', db)) :
      Move key i (.holding ctx finished) world .local (.holding ctx' finished) ⟨now, db⟩
  | write {ctx ctx' finished} {world : World δ} {now₁ now₂ result db}
      (sellerId : String) (checkpoint : Doc) (writer : Writer δ key) (impactHandled : Bool)
      (time : world.now ≤ now₁ ∧ now₁ ≤ now₂)
      (h : guardedWrite ctx sellerId checkpoint writer impactHandled now₁ now₂ world.db =
        (result, ctx', db)) :
      Move key i (.holding ctx finished) world .local (.holding ctx' finished) ⟨now₂, db⟩
  | invalidate {ctx ctx' finished} {world : World δ} {now₁ now now₂ result db} (source : String)
      (time : world.now ≤ now₁ ∧ now₁ ≤ now ∧ now ≤ now₂)
      (h : invalidateReadiness key ctx source now₁ now now₂ world.db = (result, ctx', db)) :
      Move key i (.holding ctx finished) world .local (.holding ctx' finished) ⟨now₂, db⟩
  | finish {ctx ctx' finished} {world : World δ} {now result db} (succeeded : Bool)
      (errorCode : Option String) (time : world.now ≤ now)
      (h : Devoluciones.finish ctx succeeded errorCode now world.db = (result, ctx', db)) :
      Move key i (.holding ctx finished) world .local
        (.holding ctx' (finished || result.isOk)) ⟨now, db⟩
  | fail {ctx finished world} :
      Move key i (.holding ctx finished) world .local (.holding ctx finished) world
  | drop {ctx finished world} : Move key i (.holding ctx finished) world .local .idle world

/-- The processes, indexed by `ι`; nobody else writes these documents. -/
abbrev Step [DecidableEq ι] (key : Key) :
    Pool ι (World δ) Process → Event ι → Pool ι (World δ) Process → Prop :=
  Pool.Step (Move key) fun _ _ _ => False

/-! ### What a holder can do -/

/-- The context passes `operation_lease_guard`. -/
def Passes (ctx : Context) (now : Int) (db : Db δ) : Prop :=
  ∃ operation, db.operation = some operation ∧ leaseGuard ctx now operation = true

variable {ctx ctx' : Context} {now : Int} {db db' : Db δ}

theorem Passes.fence (h : Passes ctx now db) : db.fence = ctx.fence := by
  obtain ⟨operation, hoperation, hguard⟩ := h
  simp only [leaseGuard, Bool.and_eq_true, beq_iff_eq] at hguard
  simp [Db.fence, hoperation, hguard.1.1.2]

theorem updateGuarded_cases {set : OperationDoc → OperationDoc}
    (h : updateGuarded ctx now set db = some db') :
    Passes ctx now db ∧ ∃ operation, db.operation = some operation ∧
      db' = { db with operation := some (set operation) } := by
  unfold updateGuarded at h
  split at h
  · next operation hoperation =>
      simp only [Option.ite_none_right_eq_some] at h
      exact ⟨⟨operation, hoperation, h.1⟩, operation, hoperation, (Option.some.inj h.2).symm⟩
  · cases h

/-- An update under the guard that leaves fence and epoch as they are. -/
theorem updateGuarded_keeps (key : Key) {set : OperationDoc → OperationDoc}
    (h : updateGuarded ctx now set db = some db') (hfence : ∀ op, (set op).fence = op.fence)
    (hepoch : ∀ op, (set op).coverageEpoch = op.coverageEpoch) :
    db'.fence = db.fence ∧ (EpochBound key db → EpochBound key db') := by
  obtain ⟨_, operation, hoperation, rfl⟩ := updateGuarded_cases h
  have hepochs : Db.epoch { db with operation := some (set operation) } = db.epoch := by
    simp [Db.epoch, hoperation, hepoch]
  refine ⟨by simp [Db.fence, hoperation, hfence], fun hbound certificate hmem hseller => ?_⟩
  rw [hepochs]
  exact hbound certificate hmem hseller

/-- A holder changes nothing, or it passes the guard and keeps the fence. -/
inductive HolderStep (key : Key) (ctx : Context) (now : Int) (db : Db δ) :
    Context → Db δ → Prop
  | same {ctx' : Context} (hfence : ctx'.fence = ctx.fence) : HolderStep key ctx now db ctx' db
  | passed {db' : Db δ} (passes : Passes ctx now db) (hfence : db'.fence = db.fence)
      (hepochs : EpochBound key db → EpochBound key db') : HolderStep key ctx now db ctx db'

theorem heartbeat_step {result : Except LeaseError Unit}
    (h : heartbeat ctx now db = (result, ctx', db')) : HolderStep key ctx now db ctx' db' := by
  unfold heartbeat at h
  split at h
  · obtain ⟨-, rfl, rfl⟩ := (Prod.mk.inj h).imp id Prod.mk.inj
    exact .same rfl
  · split at h <;> obtain ⟨-, rfl, rfl⟩ := (Prod.mk.inj h).imp id Prod.mk.inj
    · next hupdate =>
        obtain ⟨hfence, hepochs⟩ := updateGuarded_keeps key hupdate (fun _ => rfl) fun _ => rfl
        exact .passed (updateGuarded_cases hupdate).1 hfence hepochs
    · exact .same rfl

theorem finish_step {succeeded : Bool} {errorCode : Option String}
    {result : Except LeaseError Unit}
    (h : finish ctx succeeded errorCode now db = (result, ctx', db')) :
    HolderStep key ctx now db ctx' db' := by
  unfold finish at h
  split at h
  · obtain ⟨-, rfl, rfl⟩ := (Prod.mk.inj h).imp id Prod.mk.inj
    exact .same rfl
  · split at h <;> obtain ⟨-, rfl, rfl⟩ := (Prod.mk.inj h).imp id Prod.mk.inj
    · next hupdate =>
        obtain ⟨hfence, hepochs⟩ := updateGuarded_keeps key hupdate (fun _ => rfl) fun _ => rfl
        exact .passed (updateGuarded_cases hupdate).1 hfence hepochs
    · exact .same rfl

theorem finish_ok {succeeded : Bool} {errorCode : Option String}
    {result : Except LeaseError Unit}
    (h : finish ctx succeeded errorCode now db = (result, ctx', db')) (hok : result.isOk = true) :
    ctx' = ctx ∧ db'.fence = ctx.fence ∧
      ∀ operation ∈ db'.operation, operation.state ≠ "running" := by
  unfold finish at h
  split at h
  · obtain ⟨rfl, -, -⟩ := (Prod.mk.inj h).imp id Prod.mk.inj
    cases hok
  · split at h <;> obtain ⟨rfl, rfl, rfl⟩ := (Prod.mk.inj h).imp id Prod.mk.inj
    · next hupdate =>
        have hkeeps := updateGuarded_keeps ⟨"", ""⟩ hupdate (fun _ => rfl) fun _ => rfl
        obtain ⟨hpasses, operation, hoperation, rfl⟩ := updateGuarded_cases hupdate
        refine ⟨rfl, hkeeps.1.trans hpasses.fence, ?_⟩
        rintro _ ⟨⟩
        dsimp only
        split <;> decide
    · cases hok

theorem EpochBound.impact (h : EpochBound key db) {claims : List (Option Doc)} {reason : String} :
    EpochBound key (invalidateClaimImpact key claims reason db) := by
  unfold invalidateClaimImpact
  dsimp only
  split
  · exact h
  · exact h.invalidate rfl rfl

theorem invalidateClaimImpact_fence {claims : List (Option Doc)} {reason : String} :
    (invalidateClaimImpact key claims reason db).fence = db.fence := by
  unfold invalidateClaimImpact
  dsimp only
  split <;> rfl

theorem invalidateImpact_keeps (key : Key) (ctx : Context) (checkpoint : Doc)
    (impactHandled : Bool) (prior db : Db δ) :
    (invalidateImpact key ctx checkpoint impactHandled prior db).fence = db.fence ∧
    (EpochBound key db →
      EpochBound key (invalidateImpact key ctx checkpoint impactHandled prior db)) := by
  unfold invalidateImpact
  dsimp only
  split
  · exact ⟨invalidateClaimImpact_fence, fun hbound => hbound.impact⟩
  · split
    · exact ⟨invalidateClaimImpact_fence, fun hbound => hbound.impact⟩
    · exact ⟨rfl, id⟩

theorem guardedWriteBody_cases {checkpoint : Doc} {writer : Writer δ key} {impactHandled : Bool}
    {now₁ now₂ : Int}
    (h : guardedWriteBody ctx checkpoint writer impactHandled now₁ now₂ db = .ok db') :
    Passes ctx now₁ db ∧ db'.fence = db.fence ∧ (EpochBound key db → EpochBound key db') := by
  unfold guardedWriteBody at h
  split at h
  case h_2 => cases h
  next db₁ hupdate =>
  obtain ⟨hfence₁, hepochs₁⟩ := updateGuarded_keeps key hupdate (fun _ => rfl)
    fun _ => rfl
  refine ⟨(updateGuarded_cases hupdate).1, ?_⟩
  simp only [bind, Except.bind] at h
  split at h
  case h_1 => cases h
  next db₂ hwriter =>
  have hrun : writer.run db₁ = .ok db₂ := by
    cases hresult : writer.run db₁ with
    | error message => simp [hresult, Except.mapError] at hwriter
    | ok written => simpa [hresult, Except.mapError] using hwriter
  have hfence₂ := writer.fence hrun
  have hepochs₂ := writer.epochs hrun
  obtain ⟨hfence₃, hepochs₃⟩ :=
    invalidateImpact_keeps key ctx checkpoint impactHandled db₁ db₂
  have hdb₃ := And.intro (hfence₃.trans (hfence₂.trans hfence₁))
    fun hbound => hepochs₃ (hepochs₂ (hepochs₁ hbound))
  split at h
  · split at h
    case h_2 => cases h
    next db₄ hfinal =>
    cases h
    obtain ⟨hfence₄, hepochs₄⟩ := updateGuarded_keeps key hfinal (fun _ => rfl)
      fun _ => rfl
    exact ⟨hfence₄.trans hdb₃.1, fun hbound => hepochs₄ (hdb₃.2 hbound)⟩
  · cases h
    exact hdb₃

theorem guardedWrite_step {sellerId : String} {checkpoint : Doc} {writer : Writer δ key}
    {impactHandled : Bool} {now₁ now₂ : Int} {result : Except LeaseError Unit}
    (h : guardedWrite ctx sellerId checkpoint writer impactHandled now₁ now₂ db =
      (result, ctx', db')) : HolderStep key ctx now₁ db ctx' db' := by
  unfold guardedWrite at h
  split at h
  case h_1 | h_2 =>
    obtain ⟨-, rfl, rfl⟩ := (Prod.mk.inj h).imp id Prod.mk.inj
    exact .same rfl
  case h_3 =>
    split at h
    · obtain ⟨-, rfl, rfl⟩ := (Prod.mk.inj h).imp id Prod.mk.inj
      exact .same rfl
    · split at h <;> obtain ⟨-, rfl, rfl⟩ := (Prod.mk.inj h).imp id Prod.mk.inj
      · next hbody =>
          obtain ⟨hpasses, hfence, hepochs⟩ := guardedWriteBody_cases hbody
          exact .passed hpasses hfence hepochs
      · exact .same rfl
      · exact .same rfl

/-! ### What an acquisition does -/

structure Acquired (key : Key) (ctx : Context) (db db' : Db δ) : Prop where
  fence : db'.fence = db.fence + 1
  context : ctx.fence = db.fence + 1
  epoch : db'.epoch = if db.incompatible then db.epoch + 1 else db.epoch
  certificates : db'.certificates = if db.incompatible then
      invalidateCertificates key.sellerId "incompatible_writer" (fun _ => true) db.certificates
    else db.certificates

theorem acquireOnce_cases {request : Acquisition} {now₁ now₂ now₃ : Int}
    (h : acquireOnce key request now₁ now₂ now₃ db = .ok (ctx, db')) :
    Acquired key ctx db db' := by
  unfold acquireOnce at h
  simp only [bind, Except.bind] at h
  split at h
  case h_1 => cases h
  split at h
  case h_1 => cases h
  split at h
  · cases h
  split at h
  · cases h
  cases h
  exact ⟨rfl, rfl, rfl, rfl⟩

theorem Acquired.epochBound (h : Acquired key ctx db db') (hbound : EpochBound key db) :
    EpochBound key db' := by
  intro certificate hmem hseller
  rw [h.certificates] at hmem
  rw [h.epoch]
  split at hmem
  · obtain ⟨before, hbefore, hsame, hepoch⟩ := invalidateCertificates_epoch hmem
    have := hbound before hbefore (hsame ▸ hseller)
    rw [hepoch]
    split <;> omega
  · have := hbound certificate hmem hseller
    split <;> omega

/-- After a takeover from a holder that has not acknowledged its fence, all certificates of
the seller are stale, and of an earlier epoch if none was of a later one. -/
theorem Acquired.stale (h : Acquired key ctx db db') (hincompatible : db.incompatible = true) :
    ∀ certificate ∈ db'.certificates, certificate.sellerId = key.sellerId →
      certificate.state = "stale" ∧ certificate.needsReacquisition = true ∧
        (EpochBound key db → certificate.coverageEpoch < db'.epoch) := by
  intro certificate hmem hseller
  rw [h.epoch, if_pos hincompatible]
  rw [h.certificates, if_pos hincompatible] at hmem
  obtain ⟨before, hbefore, rfl⟩ := List.mem_map.mp hmem
  by_cases hown : before.sellerId = key.sellerId
  · simp only [hown, beq_self_eq_true, Bool.and_self, if_true, Certificate.invalidate,
      true_and]
    intro hbound
    have := hbound before hbefore hown
    omega
  · simp [hown] at hseller

/-! ### The invariant -/

/-- A finished context has been superseded, or its operation no longer runs. -/
def Retired (ctx : Context) (db : Db δ) : Prop :=
  ctx.fence < db.fence ∨
    ctx.fence = db.fence ∧ ∀ operation ∈ db.operation, operation.state ≠ "running"

theorem Retired.not_passes (h : Retired ctx db) : ¬ Passes ctx now db := by
  intro hpasses
  have hfence := hpasses.fence
  obtain hlt | ⟨-, hstate⟩ := h
  · omega
  · obtain ⟨operation, hoperation, hguard⟩ := hpasses
    simp only [leaseGuard, Bool.and_eq_true, beq_iff_eq] at hguard
    exact hstate operation hoperation hguard.1.2

/-- Nobody has a fence above the stored one, no two processes have the same, and what is
finished is retired. -/
structure Fenced (pool : Pool ι (World δ) Process) : Prop where
  fence_le : ∀ i ctx finished, pool.control i = .holding ctx finished →
    ctx.fence ≤ pool.shared.db.fence
  distinct : ∀ i j ctx ctx' finished finished', pool.control i = .holding ctx finished →
    pool.control j = .holding ctx' finished' → ctx.fence = ctx'.fence → i = j
  retired : ∀ i ctx, pool.control i = .holding ctx true → Retired ctx pool.shared.db

/-- The three kinds of steps: of a process with a context, an acquisition, and the rest. -/
inductive MoveCase (key : Key) (i : ι) (process process' : Process) (world world' : World δ) :
    Event ι → Prop
  | held {ctx ctx' : Context} {finished finished' : Bool} {now : Int}
      (before : process = .holding ctx finished) (after : process' = .holding ctx' finished')
      (time : world.now ≤ now) (step : HolderStep key ctx now world.db ctx' world'.db)
      (hfinished : finished' = true → finished = true ∨ Retired ctx' world'.db) :
      MoveCase key i process process' world world' .local
  | acquired {ctx : Context} (after : process' = .holding ctx false)
      (h : Acquired key ctx world.db world'.db) :
      MoveCase key i process process' world world' (.acquired i)
  | quiet {event : Event ι} (hevent : ∀ k, event ≠ .acquired k) (same : world'.db = world.db)
      (after : ∀ ctx finished, process' ≠ .holding ctx finished) :
      MoveCase key i process process' world world' event

theorem HolderStep.fence {db' : Db δ} (h : HolderStep key ctx now db ctx' db') :
    ctx'.fence = ctx.fence ∧ db'.fence = db.fence := by
  cases h with
  | same hfence => exact ⟨hfence, rfl⟩
  | passed _ hfence => exact ⟨rfl, hfence⟩

theorem HolderStep.epochs {db' : Db δ} (h : HolderStep key ctx now db ctx' db')
    (hbound : EpochBound key db) : EpochBound key db' := by
  cases h with
  | same => exact hbound
  | passed _ _ hepochs => exact hepochs hbound

theorem HolderStep.change {db' : Db δ} (h : HolderStep key ctx now db ctx' db') :
    db' = db ∨ Passes ctx now db := by
  cases h with
  | same => exact .inl rfl
  | passed passes => exact .inr passes

theorem Move.cases {i : ι} {process process' : Process} {world world' : World δ} {event : Event ι}
    (h : Move key i process world event process' world') :
    MoveCase key i process process' world world' event := by
  cases h with
  | call | refuse | retry | abort | drop => exact .quiet (by simp) rfl (by simp)
  | acquire _ _ _ _ hacquire => exact .acquired rfl (acquireOnce_cases hacquire)
  | heartbeat time hstep => exact .held rfl rfl time (heartbeat_step hstep) .inl
  | write _ _ _ _ time hstep => exact .held rfl rfl time.1 (guardedWrite_step hstep) .inl
  | invalidate _ time hstep => exact .held rfl rfl time.1 (guardedWrite_step hstep) .inl
  | finish _ _ time hstep =>
      refine .held rfl rfl time (finish_step hstep) fun hfinished => ?_
      rw [Bool.or_eq_true] at hfinished
      refine hfinished.imp id fun hok => ?_
      obtain ⟨rfl, hfence, hstate⟩ := finish_ok hstep hok
      exact .inr ⟨hfence.symm, hstate⟩
  | fail => exact .held rfl rfl le_rfl (.same rfl) .inl

variable [DecidableEq ι] {pool pool' start : Pool ι (World δ) Process} {events : List (Event ι)}

namespace Fenced

/-- A step that hands out no fence. Contexts keep theirs, and what it changes needs the
guard. -/
theorem keep (h : Fenced pool) {i : ι} {process : Process} {world : World δ}
    (hfence : world.db.fence = pool.shared.db.fence)
    (hchange : world.db = pool.shared.db ∨ ∃ ctx finished now,
      pool.control i = .holding ctx finished ∧ Passes ctx now pool.shared.db)
    (hctx : ∀ ctx finished, process = .holding ctx finished → ∃ before finished',
      pool.control i = .holding before finished' ∧ ctx.fence = before.fence ∧
        (finished = true → finished' = true ∧ world.db = pool.shared.db ∨ Retired ctx world.db)) :
    Fenced ⟨world, Function.update pool.control i process⟩ := by
  have hcontext : ∀ j ctx finished,
      Function.update pool.control i process j = .holding ctx finished →
      ∃ before finished', pool.control j = .holding before finished' ∧
        ctx.fence = before.fence := by
    intro j ctx finished hj
    by_cases hne : j = i
    · subst hne
      obtain ⟨before, finished', hbefore, hsame, -⟩ := hctx ctx finished (by simpa using hj)
      exact ⟨before, finished', hbefore, hsame⟩
    · rw [Function.update_of_ne hne] at hj
      exact ⟨ctx, finished, hj, rfl⟩
  constructor
  case fence_le =>
    intro j ctx finished hj
    obtain ⟨before, finished', hbefore, hsame⟩ := hcontext j ctx finished hj
    simp only [hfence, hsame]
    exact h.fence_le j before finished' hbefore
  case distinct =>
    intro j k ctx ctx' finished finished' hj hk hsame
    obtain ⟨before, _, hbefore, heq⟩ := hcontext j ctx finished hj
    obtain ⟨before', _, hbefore', heq'⟩ := hcontext k ctx' finished' hk
    exact h.distinct j k before before' _ _ hbefore hbefore' (by rw [← heq, ← heq', hsame])
  case retired =>
    intro j ctx hj
    by_cases hne : j = i
    · subst hne
      obtain ⟨before, finished', hbefore, hsame, hretired⟩ := hctx ctx true (by simpa using hj)
      obtain ⟨rfl, hdb⟩ | hretired := hretired rfl
      · have hold := h.retired j before hbefore
        simp only [hdb, Retired, hsame] at hold ⊢
        exact hold
      · exact hretired
    · have hj : pool.control j = .holding ctx true := by simpa [Function.update_of_ne hne] using hj
      have hold := h.retired j ctx hj
      obtain hsame | ⟨own, finished, now, hown, hpasses⟩ := hchange
      · simpa only [hsame] using hold
      · -- whoever passes the guard has the stored fence, so `j` has been superseded
        obtain hlt | ⟨heq, -⟩ := hold
        · exact .inl (by simpa only [hfence] using hlt)
        · exact absurd (h.distinct j i ctx own true finished hj hown
            (heq.trans hpasses.fence)) hne

theorem acquire (h : Fenced pool) {i : ι} {world : World δ} {ctx : Context}
    (hacquired : Acquired key ctx pool.shared.db world.db) :
    Fenced ⟨world, Function.update pool.control i (.holding ctx false)⟩ := by
  have hbelow : ∀ j before finished,
      Function.update pool.control i (.holding ctx false) j = .holding before finished →
      j = i ∧ before = ctx ∧ finished = false ∨
        j ≠ i ∧ pool.control j = .holding before finished ∧
        before.fence ≤ pool.shared.db.fence := by
    intro j before finished hj
    by_cases hne : j = i
    · subst hne
      rw [Function.update_self] at hj
      cases hj
      exact .inl ⟨rfl, rfl, rfl⟩
    · rw [Function.update_of_ne hne] at hj
      exact .inr ⟨hne, hj, h.fence_le j before finished hj⟩
  have hfence := hacquired.fence
  have hcontext := hacquired.context
  constructor
  case fence_le =>
    intro j before finished hj
    simp only [hfence]
    obtain ⟨-, rfl, -⟩ | ⟨-, -, hle⟩ := hbelow j before finished hj <;> omega
  case distinct =>
    intro j k before before' finished finished' hj hk hsame
    obtain ⟨rfl, rfl, -⟩ | ⟨hj', hjold, hjle⟩ := hbelow j before finished hj <;>
      obtain ⟨rfl, rfl, -⟩ | ⟨hk', hkold, hkle⟩ := hbelow k before' finished' hk
    · rfl
    · omega
    · omega
    · exact h.distinct j k before before' finished finished' hjold hkold hsame
  case retired =>
    intro j before hj
    obtain ⟨-, -, hfalse⟩ | ⟨-, -, hle⟩ := hbelow j before true hj
    · cases hfalse
    · refine .inl ?_
      simp only [hfence]
      omega

theorem step (h : Fenced pool) {event : Event ι} (hstep : Step key pool event pool') :
    Fenced pool' := by
  cases hstep with
  | env henv => exact henv.elim
  | move i hmove =>
      cases hmove.cases with
      | acquired after hacquired =>
          subst after
          exact h.acquire hacquired
      | quiet _ same after =>
          refine h.keep (by rw [same]) (.inl same) ?_
          exact fun ctx finished hafter => absurd hafter (after ctx finished)
      | held before after time hold hfinished =>
          subst after
          refine h.keep hold.fence.2
            (hold.change.imp id fun hpasses => ⟨_, _, _, before, hpasses⟩) ?_
          rintro _ _ ⟨⟩
          refine ⟨_, _, before, hold.fence.1, fun htrue => ?_⟩
          obtain rfl | hretired := hfinished htrue
          · exact .inl ⟨rfl, hold.change.resolve_right (h.retired i _ before).not_passes⟩
          · exact .inr hretired

end Fenced

theorem fenced_run (idle : ∀ i, start.control i = .idle)
    (run : Run (Step key) start events pool) : Fenced pool := by
  refine run.state_invariant (P := Fenced) ?_ fun h hstep => h.step hstep
  constructor <;> simp [idle]

theorem epochBound_run (bound : EpochBound key start.shared.db)
    (run : Run (Step key) start events pool) : EpochBound key pool.shared.db := by
  refine run.state_invariant (P := fun pool => EpochBound key pool.shared.db) bound ?_
  intro pool event pool' hbound hstep
  cases hstep with
  | env henv => exact henv.elim
  | move i hmove =>
      cases hmove.cases with
      | held _ _ _ hold _ => exact hold.epochs hbound
      | acquired _ hacquired => exact hacquired.epochBound hbound
      | quiet _ same => exact same ▸ hbound

/-- A context that can no longer change anything: superseded, expired or finished. -/
def Spent (ctx : Context) (finished : Bool) (world : World δ) : Prop :=
  ctx.fence ≠ world.db.fence ∨
    (∀ operation ∈ world.db.operation, ∀ til ∈ operation.leaseUntil, til ≤ world.now) ∨
    finished = true

omit [DecidableEq ι] in
theorem Spent.not_passes {finished : Bool} {world : World δ} (h : Spent ctx finished world)
    (hretired : finished = true → Retired ctx world.db) (time : world.now ≤ now) :
    ¬ Passes ctx now world.db := by
  intro hpasses
  obtain hsuperseded | hexpired | hfinished := h
  · exact hsuperseded hpasses.fence.symm
  · obtain ⟨operation, hoperation, hguard⟩ := hpasses
    simp only [leaseGuard, Bool.and_eq_true, Option.any_eq_true, decide_eq_true_eq] at hguard
    obtain ⟨til, htil, hlt⟩ := hguard.2
    have := hexpired operation hoperation til htil
    omega
  · exact (hretired hfinished).not_passes hpasses

/-- Lease fencing, in every state that a run reaches. -/
theorem lease_fenced (idle : ∀ i, start.control i = .idle)
    (run : Run (Step key) start events pool) :
    -- the fence never decreases, and increases at every acquisition
    (∀ event pool', Step key pool event pool' →
      pool.shared.db.fence ≤ pool'.shared.db.fence ∧
      ∀ i, event = .acquired i → pool.shared.db.fence < pool'.shared.db.fence) ∧
    -- at most one context passes the guard
    (∀ i j ctx ctx' finished finished' now, pool.control i = .holding ctx finished →
      pool.control j = .holding ctx' finished' → Passes ctx now pool.shared.db →
      Passes ctx' now pool.shared.db → i = j) ∧
    -- a superseded, expired or finished context changes no document
    (∀ i ctx finished event process' world', pool.control i = .holding ctx finished →
      Spent ctx finished pool.shared →
      Move key i (.holding ctx finished) pool.shared event process' world' →
      world'.db = pool.shared.db) ∧
    -- a failed acquisition leaves everything as it was
    (∀ i pool', Step key pool (.acquireFailed i) pool' → pool'.shared.db = pool.shared.db) ∧
    -- a takeover from an incompatible holder leaves no certificate of the new epoch
    (∀ i pool' operation, Step key pool (.acquired i) pool' →
      pool.shared.db.operation = some operation → operation.coverageMode = some "active" →
      operation.coverageAckFence ≠ operation.fence →
      ∀ certificate ∈ pool'.shared.db.certificates, certificate.sellerId = key.sellerId →
        certificate.state = "stale" ∧ certificate.needsReacquisition = true ∧
        (EpochBound key start.shared.db →
          certificate.coverageEpoch < pool'.shared.db.epoch)) := by
  have hfenced := fenced_run idle run
  refine ⟨?_, ?_, ?_, ?_, ?_⟩
  · intro event pool' hstep
    cases hstep with
    | env henv => exact henv.elim
    | move i hmove =>
        cases hmove.cases with
        | held _ _ _ hold _ => exact ⟨hold.fence.2.ge, by simp⟩
        | acquired _ hacquired =>
            have hraised := Int.lt_add_one_iff.mpr le_rfl |>.trans_eq hacquired.fence.symm
            exact ⟨hraised.le, fun _ _ => hraised⟩
        | quiet hevent same => exact ⟨by rw [same], fun k hk => absurd hk (hevent k)⟩
  · intro i j ctx ctx' finished finished' now hi hj hpasses hpasses'
    exact hfenced.distinct i j ctx ctx' finished finished' hi hj
      (hpasses.fence.symm.trans hpasses'.fence)
  · intro i ctx finished event process' world' hi hspent hmove
    cases hmove.cases with
    | held before _ time hold =>
        cases before
        refine hold.change.resolve_right (hspent.not_passes ?_ time)
        rintro rfl
        exact hfenced.retired i ctx hi
    | acquired => cases hmove
    | quiet _ same => exact same
  · intro i pool' hstep
    cases hstep with
    | env henv => exact henv.elim
    | move j hmove =>
        cases hmove.cases with
        | quiet _ same => exact same
  · intro i pool' operation hstep hoperation hmode hack
    cases hstep with
    | env henv => exact henv.elim
    | move j hmove =>
        cases hmove.cases with
        | acquired _ hacquired =>
            have hstale := hacquired.stale (by
              simp [Db.incompatible, hoperation, hmode, OperationDoc.unacknowledged, hack])
            exact fun certificate hmem hseller => (hstale certificate hmem hseller).imp id
              (.imp id fun hepoch bound => hepoch (epochBound_run bound run))
        | quiet hevent => exact absurd rfl (hevent i)

/-! ### A takeover -/

def sampleKey : Key := ⟨"1", "devoluciones"⟩

def sampleRequest : Acquisition := ⟨"operation", "attempt", none, true, false⟩

/-- A seller without any documents. -/
def emptyWorld : World Unit := ⟨0, ⟨none, none, [], [], [], ()⟩⟩

/-- Process 1 takes the lease over when that of process 0 expires. From then on process 0
changes nothing. -/
theorem lease_fenced_takeover :
    ∃ events, ∃ pool : Pool (Fin 2) (World Unit) Process, ∃ ctx,
      Run (Step sampleKey) ⟨emptyWorld, fun _ => .idle⟩ events pool ∧
      pool.shared.db.fence = 2 ∧ pool.control 0 = .holding ctx false ∧
      ∀ event process' world',
        Move sampleKey (0 : Fin 2) (.holding ctx false) pool.shared event process' world' →
        world'.db = pool.shared.db := by
  let start : Pool (Fin 2) (World Unit) Process := ⟨emptyWorld, fun _ => .idle⟩
  have run : Run (Step sampleKey) start [] start := .nil
  have run := Pool.run_move run 0 rfl (.call sampleRequest)
  have run := Pool.run_move run 0 rfl (.acquire 0 0 0 (by decide) rfl)
  have run := Pool.run_move run 1 rfl (.call sampleRequest)
  have run := Pool.run_move run 1 rfl (.acquire 120000000 120000000 120000000 (by decide) rfl)
  refine ⟨_, _, _, run, rfl, rfl, fun event process' world' hmove => ?_⟩
  exact (lease_fenced (fun _ => rfl) run).2.2.1 0 _ false event process' world' rfl
    (.inl (by decide)) hmove

end ZelerPlatform.Devoluciones
