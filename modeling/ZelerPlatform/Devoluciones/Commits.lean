import ZelerPlatform.Devoluciones.CertificateWrites
import ZelerPlatform.Devoluciones.Fencing

/-!
# Committed transactions on the coverage of a seller

What one transaction can do to the certificates: it changes them in place and never turns a
revision back, it publishes, or it retires what a new certificate replaces. Every fence is
handed out once, so one operation stands behind it, and what that operation may publish or
retire depends on its task alone.
-/

namespace ZelerPlatform.Devoluciones

open Mongo Mongo.Value Fallible Transition

/-! ### The system -/

/-- What an operation does while it holds the lease. -/
inductive Task
  | quotaRun (runId : String)
  | snapshot
  | renewal
  | migration
  | projection
  deriving DecidableEq

/-- A committed transaction: the documents before and after it, and the images that
`invalidate_claim_impact` gets in it. -/
structure Change where
  before : Coverage
  images : List (Option Doc)
  after : Coverage

/-- An update of the operation under the guard. -/
def Coverage.guarded (ctx : Context) (now : Int) (set : OperationDoc → OperationDoc)
    (db : Coverage) : Option Coverage :=
  (updateGuarded ctx now set db.view).map fun view => { db with operation := view.operation }

/-- The second guard of `guarded_devoluciones_write`. -/
def closeWrite (ctx : Context) (checkpoint : Doc) (now : Int) (db : Coverage) : Option Coverage :=
  if ctx.coverageMode == "active" ||
      checkpoint.get? "phase" == some (.string "certificate_migration") then
    db.guarded ctx now fun control => { control with updatedAt := some now }
  else some db

/-- The certificates after an acquisition. -/
def Coverage.acquired (key : Key) (view : Db Unit) (db : Coverage) : Coverage :=
  let db' := if db.view.incompatible then
      invalidateAllCertificates key.sellerId "incompatible_writer" db
    else db
  { db' with operation := view.operation, marker := view.marker }

section

variable (digests : Digests) (key : Key)

/-- The body of a guarded write, and the images it invalidates with. -/
inductive Writes (ctx : Context) : Task → Coverage → List (Option Doc) → Coverage → Prop
  | finalize {db db'} (run : RunDoc) (windows : List WindowDoc) (now clock clock' : Int)
      (h : finalizeQuotaRun digests ctx run windows now clock clock' db = .ok db') :
      Writes ctx (.quotaRun run.id) db [] db'
  | publishJoint {db db'} (start stop : Int) (fingerprint : String) (ids : List String)
      (now clock clock' : Int)
      (h : publishJointCertificate digests ctx start stop fingerprint ids now clock clock' db =
        .ok db') : Writes ctx .snapshot db [] db'
  | renew {db db'} (candidate : CertificateDoc) (clock clock' : Int)
      (h : Devoluciones.renew digests ctx candidate clock clock' db = .ok db') :
      Writes ctx .renewal db [] db'
  | withdraw {db} (candidate : CertificateDoc) (clock : Int) :
      Writes ctx .renewal db [] (Devoluciones.withdraw candidate clock db)
  | migrate {db db'} (candidate : CertificateDoc) (now clock : Int)
      (h : publishCertificate digests ctx candidate now clock db = .ok db') :
      Writes ctx .migration db [] db'
  | activate {db db'} (clock : Int) (h : activateCoverage digests ctx clock db = .ok db') :
      Writes ctx .migration db [] db'
  | rollback {db} : Writes ctx .migration db [] (rollbackCoverage ctx db)
  | mutate {task db} (mutation : Mutation) (inTime : Bool) (completed : Nat) (clock : Int)
      (touches : mutation.Touches db.claims) :
      Writes ctx task db mutation.images
        (mutateClaims digests key ctx mutation inTime completed clock db)
  | invalidateAll {task db} (reason : String) :
      Writes ctx task db [] (invalidateAllCertificates ctx.sellerId reason db)
  | other {task db db'} (operation : db'.operation = db.operation)
      (certificates : db'.certificates = db.certificates) (claims : db'.claims = db.claims) :
      Writes ctx task db [] db'

/-- One committed transaction on the documents of the seller; `task` is what the operation
does that was given a fence. -/
inductive Commit (task : Int → Task) : Coverage → Change → Coverage → Prop
  | acquire {db : Coverage} {ctx view} (request : Acquisition) (now₁ now₂ now₃ : Int)
      (h : acquireOnce key request now₁ now₂ now₃ db.view = .ok (ctx, view)) :
      Commit task db ⟨db, [], db.acquired key view⟩ (db.acquired key view)
  | heartbeat {db : Coverage} {ctx ctx' now result view}
      (h : Devoluciones.heartbeat ctx now db.view = (result, ctx', view)) :
      Commit task db ⟨db, [], { db with operation := view.operation }⟩
        { db with operation := view.operation }
  | finish {db : Coverage} {ctx ctx' now result view} (succeeded : Bool)
      (errorCode : Option String)
      (h : Devoluciones.finish ctx succeeded errorCode now db.view = (result, ctx', view)) :
      Commit task db ⟨db, [], { db with operation := view.operation }⟩
        { db with operation := view.operation }
  | write {db db₁ db₂ db₃ : Coverage} {ctx images} (checkpoint : Doc) (now₁ now₂ : Int)
      (seller : ctx.sellerId = key.sellerId)
      (opened : db.guarded ctx now₁ (fun control => { control with
        checkpoint := some checkpoint
        updatedAt := some now₁ }) = some db₁)
      (body : Writes digests key ctx (task ctx.fence) db₁ images db₂)
      (closed : closeWrite ctx checkpoint now₂ db₂ = some db₃) :
      Commit task db ⟨db, images, db₃⟩ db₃
  | elsewhere {db db' : Coverage} (operation : db'.operation = db.operation)
      (certificates : ∀ c : CertificateDoc, c.sellerId = key.sellerId →
        (c ∈ db'.certificates.docs ↔ c ∈ db.certificates.docs))
      (claims : db'.claims = db.claims) :
      Commit task db ⟨db, [], db'⟩ db'

end

/-! ### What a transaction does to the certificates -/

/-- The same certificate later on: its range stays and its revision does not go back. -/
structure Onward (c d : CertificateDoc) : Prop where
  id : d.id = c.id
  sellerId : d.sellerId = c.sellerId
  dateFrom : d.dateFrom = c.dateFrom
  dateTo : d.dateTo = c.dateTo
  revision : c.revision ≤ d.revision

theorem Onward.refl (c : CertificateDoc) : Onward c c := ⟨rfl, rfl, rfl, rfl, le_rfl⟩

theorem Onward.trans {c d e : CertificateDoc} (first : Onward c d) (second : Onward d e) :
    Onward c e :=
  ⟨second.id.trans first.id, second.sellerId.trans first.sellerId,
    second.dateFrom.trans first.dateFrom, second.dateTo.trans first.dateTo,
    first.revision.trans second.revision⟩

variable {digests : Digests} {key : Key} {task : Int → Task} {ctx : Context}
variable {db db' db'' : Coverage}

/-- The identity that a run of the source publishes. -/
def runIdentity (digests : Digests) (key : Key) (runId : String) : String :=
  digests.identity key.sellerId "quota_run" runId

/-- A task may publish this identity. -/
def Publishes (digests : Digests) (key : Key) (task : Task) (id : String) : Prop :=
  ∀ runId, task = .quotaRun runId → id = runIdentity digests key runId

/-- A task may retire this identity. -/
def Retires (digests : Digests) (key : Key) (task : Task) (id : String) : Prop :=
  ∃ runId, task = .quotaRun runId ∧ id ≠ runIdentity digests key runId

/-- A task never publishes again what it may have retired. -/
theorem Retires.not_publishes {t : Task} {id : String} (h : Retires digests key t id) :
    ¬ Publishes digests key t id := by
  obtain ⟨runId, htask, hne⟩ := h
  exact fun hpublishes => hne (hpublishes runId htask)

/-- What becomes of the seller's certificates: they go on in place, but for what the task
publishes and retires. Claims change only with an image. -/
structure Fate (digests : Digests) (key : Key) (images : List (Option Doc)) (t : Task)
    (db db' : Coverage) : Prop where
  fence : db'.fence = db.fence
  epoch : db.epoch ≤ db'.epoch
  forward : ∀ c ∈ db.certificates.docs, c.sellerId = key.sellerId →
    (∃ d ∈ db'.certificates.docs, Onward c d) ∨ Retires digests key t c.id
  backward : ∀ d ∈ db'.certificates.docs, d.sellerId = key.sellerId →
    (∃ c ∈ db.certificates.docs, Onward c d) ∨ Publishes digests key t d.id
  claims : ∀ claim, (claim ∈ db.claims ↔ claim ∈ db'.claims) ∨
    ∃ image, some image ∈ images ∧ storedFields image = claim

variable {images : List (Option Doc)}

namespace Fate

variable {t : Task}

theorem refl (db : Coverage) : Fate digests key images t db db :=
  ⟨rfl, le_rfl, fun c hc _ => .inl ⟨c, hc, .refl c⟩, fun c hc _ => .inl ⟨c, hc, .refl c⟩,
    fun _ => .inl .rfl⟩

theorem trans (first : Fate digests key images t db db')
    (second : Fate digests key images t db' db'') :
    Fate digests key images t db db'' where
  fence := second.fence.trans first.fence
  epoch := first.epoch.trans second.epoch
  forward := by
    intro c hc hseller
    obtain ⟨d, hd, hcd⟩ | hretires := first.forward c hc hseller
    · obtain ⟨e, he, hde⟩ | hretires := second.forward d hd (hcd.sellerId.trans hseller)
      · exact .inl ⟨e, he, hcd.trans hde⟩
      · exact .inr (hcd.id ▸ hretires)
    · exact .inr hretires
  backward := by
    intro e he hseller
    obtain ⟨d, hd, hde⟩ | hpublishes := second.backward e he hseller
    · obtain ⟨c, hc, hcd⟩ | hpublishes := first.backward d hd (hde.sellerId.symm.trans hseller)
      · exact .inl ⟨c, hc, hcd.trans hde⟩
      · exact .inr (hde.id ▸ hpublishes)
    · exact .inr hpublishes
  claims := by
    intro claim
    obtain hfirst | himage := first.claims claim
    · exact (second.claims claim).imp hfirst.trans id
    · exact .inr himage

/-- Transactions that leave operation, certificates and claims alone. -/
theorem same (operation : db'.operation = db.operation)
    (certificates : db'.certificates = db.certificates) (claims : db'.claims = db.claims) :
    Fate digests key images t db db' where
  fence := by simp only [Coverage.fence, Coverage.view, Db.fence, operation]
  epoch := by simp only [Coverage.epoch, Coverage.view, Db.epoch, operation, le_refl]
  forward c hc _ := .inl ⟨c, certificates ▸ hc, .refl c⟩
  backward c hc _ := .inl ⟨c, certificates ▸ hc, .refl c⟩
  claims claim := .inl (by rw [claims])

theorem update {selected : CertificateDoc → Bool} {change : CertificateDoc → CertificateDoc}
    {keeps : ∀ c, (change c).id = c.id} (onward : ∀ c, Onward c (change c)) :
    Fate digests key images t db (db.updateCertificates selected change keeps) where
  fence := rfl
  epoch := le_rfl
  forward := by
    intro c hc _
    refine .inl ⟨if selected c then change c else c, List.mem_map.mpr ⟨c, hc, rfl⟩, ?_⟩
    split
    · exact onward c
    · exact .refl c
  backward := by
    intro d hd _
    obtain ⟨c, hc, rfl⟩ := List.mem_map.mp hd
    refine .inl ⟨c, hc, ?_⟩
    split
    · exact onward c
    · exact .refl c
  claims _ := .inl .rfl

end Fate

theorem onward_invalidate (reason : String) (c : CertificateDoc) : Onward c (c.invalidate reason) :=
  ⟨rfl, rfl, rfl, rfl, by simp [CertificateDoc.invalidate]⟩

/-! ### Publication -/

variable {t : Task}

theorem publishCertificate_cases {document : CertificateDoc} {now clock : Int}
    (h : publishCertificate digests ctx document now clock db = .ok db') :
    ctx.sellerId = document.sellerId ∧ (db' = db ∨ ∃ certificates,
      db.certificates.insert document.stored = some certificates ∧
        db' = { db with certificates := certificates }) := by
  unfold publishCertificate at h
  obtain ⟨hseller, h⟩ := raiseIf_ok h
  obtain ⟨-, h⟩ := raiseIf_ok h
  obtain ⟨-, -, h⟩ := bind_ok h
  obtain ⟨-, h⟩ := raiseIf_ok h
  obtain ⟨-, -, h⟩ := bind_ok h
  refine ⟨not_not.mp hseller, ?_⟩
  split at h
  · next certificates hinsert => exact .inr ⟨certificates, hinsert, (pure_ok h).symm⟩
  · obtain ⟨-, h⟩ := raiseIf_ok h
    exact .inl (pure_ok h).symm

theorem Fate.publish {document : CertificateDoc} {now clock : Int}
    (h : publishCertificate digests ctx document now clock db = .ok db')
    (publishes : Publishes digests key t document.id) : Fate digests key images t db db' := by
  obtain ⟨-, rfl | ⟨certificates, hinsert, rfl⟩⟩ := publishCertificate_cases h
  · exact .refl _
  · refine ⟨rfl, le_rfl, fun c hc _ => .inl ⟨c, ?_, .refl c⟩, fun d hd _ => ?_,
      fun _ => .inl .rfl⟩
    · exact (Collection.mem_insert hinsert).mpr (.inl hc)
    · obtain hold | rfl := (Collection.mem_insert hinsert).mp hd
      · exact .inl ⟨d, hold, .refl d⟩
      · exact .inr publishes

theorem mem_erase_all {ids : List String} {certificates : Collection CertificateDoc.id}
    {c : CertificateDoc} :
    c ∈ (ids.foldl Collection.erase certificates).docs ↔
      c ∈ certificates.docs ∧ c.id ∉ ids := by
  induction ids generalizing certificates with
  | nil => simp
  | cons id ids ih =>
      simp only [List.foldl_cons, ih, Collection.mem_erase, List.mem_cons, not_or, and_assoc]

theorem Fate.retire {document : CertificateDoc} {runId : String}
    (hid : document.id = runIdentity digests key runId) :
    Fate digests key images (.quotaRun runId) db
      (retireSupersededIntradayCertificates document db) where
  fence := rfl
  epoch := le_rfl
  forward := by
    intro c hc _
    by_cases hretired : c.id ∈ (db.certificates.find (superseded document db)).map (·.id)
    · obtain ⟨d, hd, hdc⟩ := List.mem_map.mp hretired
      have hsuperseded := (Collection.find_mem.mp hd).2
      simp only [superseded, Bool.and_eq_true, bne_iff_ne] at hsuperseded
      refine .inr ⟨runId, rfl, ?_⟩
      rw [← hid, ← hdc]
      exact hsuperseded.1.1.1.2
    · exact .inl ⟨c, mem_erase_all.mpr ⟨hc, hretired⟩, .refl c⟩
  backward := fun d hd _ => .inl ⟨d, (mem_erase_all.mp hd).1, .refl d⟩
  claims _ := .inl .rfl

theorem makeCertificate_id {sellerId kind sourceIdentity : String} {evidence : Evidence}
    {dateFrom dateTo acquiredAt epoch clock : Int} {membershipHash fingerprint : String}
    {c : CertificateDoc}
    (h : makeCertificate digests sellerId kind sourceIdentity evidence dateFrom dateTo acquiredAt
      membershipHash fingerprint epoch clock = .ok c) :
    c.id = digests.identity sellerId kind sourceIdentity := by
  unfold makeCertificate at h
  obtain ⟨-, h⟩ := raiseIf_ok h
  obtain ⟨-, h⟩ := raiseIf_ok h
  obtain ⟨id, hidentity, h⟩ := bind_ok h
  obtain ⟨-, hidentity⟩ := raiseIf_ok hidentity
  rw [← pure_ok h]
  exact (pure_ok hidentity).symm

theorem Fate.publishQuota (hseller : ctx.sellerId = key.sellerId) {run : RunDoc} {runId : String}
    (hrun : run.id = runId) {windows : List WindowDoc} {now clock clock' : Int}
    (h : publishQuotaCertificate digests ctx run windows now clock clock' db = .ok db') :
    Fate digests key images (.quotaRun runId) db db' := by
  unfold publishQuotaCertificate at h
  obtain ⟨evidence, -, h⟩ := bind_ok h
  obtain ⟨-, -, h⟩ := bind_ok h
  obtain ⟨facts, -, h⟩ := bind_ok h
  obtain ⟨document, hdocument, h⟩ := bind_ok h
  obtain ⟨published, hpublished, h⟩ := bind_ok h
  have hid : document.id = runIdentity digests key runId := by
    rw [makeCertificate_id hdocument, hseller, runIdentity, hrun]
  rw [← pure_ok h]
  refine (Fate.publish hpublished ?_).trans (.retire hid)
  rintro _ ⟨⟩
  exact hid

theorem Fate.finalize (hseller : ctx.sellerId = key.sellerId) {run : RunDoc}
    {windows : List WindowDoc} {now clock clock' : Int}
    (h : finalizeQuotaRun digests ctx run windows now clock clock' db = .ok db') :
    Fate digests key images (.quotaRun run.id) db db' := by
  unfold finalizeQuotaRun at h
  obtain ⟨-, h⟩ := raiseIf_ok h
  have hcompleted : Fate digests key images (.quotaRun run.id) db (db.completeRun ctx run clock) :=
    .same rfl rfl rfl
  split at h
  · refine hcompleted.trans (Fate.publishQuota hseller ?_ h)
    rfl
  · rw [← pure_ok h]
    exact hcompleted

theorem Fate.publishJoint {start stop : Int} {fingerprint : String} {ids : List String}
    {now clock clock' : Int}
    (h : publishJointCertificate digests ctx start stop fingerprint ids now clock clock' db =
      .ok db') : Fate digests key images .snapshot db db' := by
  unfold publishJointCertificate at h
  obtain ⟨-, -, h⟩ := bind_ok h
  obtain ⟨facts, -, h⟩ := bind_ok h
  obtain ⟨-, h⟩ := raiseIf_ok h
  obtain ⟨document, -, h⟩ := bind_ok h
  exact .publish h nofun

/-! ### Renewal and migration -/

theorem Fate.renew {candidate : CertificateDoc} {clock clock' : Int}
    (h : Devoluciones.renew digests ctx candidate clock clock' db = .ok db') :
    Fate digests key images t db db' := by
  unfold Devoluciones.renew at h
  split at h
  · exact (throw_ok h).elim
  · obtain ⟨-, h⟩ := raiseIf_ok h
    obtain ⟨-, -, h⟩ := bind_ok h
    obtain ⟨-, -, h⟩ := bind_ok h
    obtain ⟨facts, -, h⟩ := bind_ok h
    obtain ⟨-, h⟩ := raiseIf_ok h
    rw [← pure_ok h]
    exact .update fun c => ⟨rfl, rfl, rfl, rfl, le_rfl⟩

theorem Fate.withdraw {candidate : CertificateDoc} {clock : Int} :
    Fate digests key images t db (Devoluciones.withdraw candidate clock db) :=
  .update fun c => ⟨rfl, rfl, rfl, rfl, by simp [CertificateDoc.withdrawn]⟩

theorem Fate.reactivate {clock : Int} {state state' : Coverage × Nat} {c : CertificateDoc}
    (h : Devoluciones.reactivate digests ctx clock state c = .ok state') :
    Fate digests key images t state.1 state'.1 := by
  unfold Devoluciones.reactivate at h
  obtain ⟨-, -, h⟩ := bind_ok h
  split at h
  · obtain ⟨-, h⟩ := raiseIf_ok h
    rw [← pure_ok h]
    exact .refl _
  · rw [← pure_ok h]
    exact .update fun c => ⟨rfl, rfl, rfl, rfl, by simp [CertificateDoc.reactivated]⟩

theorem Fate.reactivateAll {clock : Int} {certificates : List CertificateDoc}
    {state state' : Coverage × Nat}
    (h : certificates.foldlM (Devoluciones.reactivate digests ctx clock) state = .ok state') :
    Fate digests key images t state.1 state'.1 := by
  induction certificates generalizing state with
  | nil =>
      rw [← pure_ok h]
      exact .refl _
  | cons c certificates ih =>
      rw [List.foldlM_cons] at h
      obtain ⟨next, hnext, hrest⟩ := bind_ok h
      exact (Fate.reactivate hnext).trans (ih hrest)

/-- Writing the operation of the context keeps the fence. -/
theorem Fate.setOperation {set : OperationDoc → OperationDoc}
    (hfence : ∀ op, (set op).fence = op.fence)
    (hepoch : ∀ op, op.coverageEpoch.getD 0 ≤ (set op).coverageEpoch.getD 0) :
    Fate digests key images t db (db.setOperation ctx set) where
  fence := by
    cases hop : db.operation with
    | none => simp [Coverage.fence, Coverage.view, Coverage.setOperation, Db.fence, hop]
    | some op =>
        simp only [Coverage.fence, Coverage.view, Coverage.setOperation, Db.fence, hop,
          Option.map_some, Option.bind_some]
        split
        · rw [hfence]
        · rfl
  epoch := by
    cases hop : db.operation with
    | none => simp [Coverage.epoch, Coverage.view, Coverage.setOperation, Db.epoch, hop]
    | some op =>
        simp only [Coverage.epoch, Coverage.view, Coverage.setOperation, Db.epoch, hop,
          Option.map_some, Option.bind_some]
        split
        · exact hepoch op
        · exact le_rfl
  forward c hc _ := .inl ⟨c, hc, .refl c⟩
  backward c hc _ := .inl ⟨c, hc, .refl c⟩
  claims _ := .inl .rfl

theorem Fate.activate {clock : Int} (h : activateCoverage digests ctx clock db = .ok db') :
    Fate digests key images t db db' := by
  unfold activateCoverage at h
  obtain ⟨-, h⟩ := raiseIf_ok h
  obtain ⟨state, hstate, h⟩ := bind_ok h
  obtain ⟨-, h⟩ := raiseIf_ok h
  obtain ⟨-, -, h⟩ := bind_ok h
  rw [← pure_ok h]
  exact (Fate.reactivateAll hstate).trans (.setOperation (fun _ => rfl) fun _ => le_rfl)

theorem Fate.rollback : Fate digests key images t db (rollbackCoverage ctx db) := by
  have hlegacy : Fate digests key images t db (db.setOperation ctx fun control => { control with
      coverageMode := some "legacy"
      coverageEpoch := some (control.coverageEpoch.getD 0 + 1) }) :=
    .setOperation (fun _ => rfl) fun op => by simp
  exact hlegacy.trans (.update (onward_invalidate _))

/-! ### Changes of claims -/

theorem Fate.invalidateImpact {changed : List (Option Doc)} {reason : String} :
    Fate digests key images t db (invalidateImpactOf key changed reason db) := by
  unfold invalidateImpactOf
  dsimp only
  split
  · exact .refl db
  · have hmarker : Fate digests key images t db (db.staleMarker key changed) := .same rfl rfl rfl
    exact hmarker.trans (.update (onward_invalidate _))

theorem Fate.completeTransition {clock : Int} {prepared : CertificateDoc × List String} :
    Fate digests key images t db
      (Devoluciones.completeTransition digests ctx clock db prepared) := by
  unfold Devoluciones.completeTransition
  split
  · exact .refl db
  · exact .update fun c => ⟨rfl, rfl, rfl, rfl, le_rfl⟩

theorem Fate.complete {clock : Int} {prepared : List (CertificateDoc × List String)} :
    Fate digests key images t db (completeCertificateTransition digests ctx clock prepared db) := by
  unfold completeCertificateTransition
  induction prepared generalizing db with
  | nil => exact .refl db
  | cons first rest ih => exact Fate.completeTransition.trans ih

theorem Fate.mutate {mutation : Mutation} {inTime : Bool} {completed : Nat} {clock : Int}
    (touches : mutation.Touches db.claims) :
    Fate digests key mutation.images t db
      (mutateClaims digests key ctx mutation inTime completed clock db) := by
  have hwritten : Fate digests key mutation.images t db
      { db with claims := mutation.claims, orders := mutation.orders } :=
    ⟨rfl, le_rfl, fun c hc _ => .inl ⟨c, hc, .refl c⟩, fun c hc _ => .inl ⟨c, hc, .refl c⟩,
      touches⟩
  exact hwritten.trans (Fate.invalidateImpact.trans .complete)

/-- What the body of a guarded write does to the certificates. -/
theorem Writes.fate (hseller : ctx.sellerId = key.sellerId)
    (h : Writes digests key ctx t db images db') : Fate digests key images t db db' := by
  cases h with
  | finalize run windows now clock clock' h => exact .finalize hseller h
  | publishJoint start stop fingerprint ids now clock clock' h => exact .publishJoint h
  | renew candidate clock clock' h => exact .renew h
  | withdraw candidate clock => exact .withdraw
  | migrate candidate now clock h => exact .publish h nofun
  | activate clock h => exact .activate h
  | rollback => exact .rollback
  | mutate mutation inTime completed clock touches => exact .mutate touches
  | invalidateAll reason => exact .update (onward_invalidate reason)
  | other operation certificates claims => exact .same operation certificates claims

/-! ### What a commit does -/

theorem Coverage.guarded_cases {now : Int} {set : OperationDoc → OperationDoc}
    (h : db.guarded ctx now set = some db') :
    db.fence = ctx.fence ∧ ∃ op, db.operation = some op ∧
      db' = { db with operation := some (set op) } := by
  obtain ⟨view, hview, rfl⟩ := Option.map_eq_some_iff.mp h
  obtain ⟨hpasses, op, hop, rfl⟩ := updateGuarded_cases hview
  exact ⟨hpasses.fence, op, hop, rfl⟩

theorem Fate.guarded {now : Int} {set : OperationDoc → OperationDoc}
    (h : db.guarded ctx now set = some db') (hfence : ∀ op, (set op).fence = op.fence)
    (hepoch : ∀ op, (set op).coverageEpoch = op.coverageEpoch) :
    Fate digests key images t db db' := by
  obtain ⟨-, op, hop, rfl⟩ := Coverage.guarded_cases h
  refine ⟨?_, ?_, fun c hc _ => .inl ⟨c, hc, .refl c⟩, fun c hc _ => .inl ⟨c, hc, .refl c⟩,
    fun _ => .inl .rfl⟩
  · simp [Coverage.fence, Coverage.view, Db.fence, hop, hfence]
  · simp [Coverage.epoch, Coverage.view, Db.epoch, hop, hepoch]

theorem Fate.closeWrite {checkpoint : Doc} {now : Int}
    (h : Devoluciones.closeWrite ctx checkpoint now db = some db') :
    Fate digests key images t db db' := by
  unfold Devoluciones.closeWrite at h
  split at h
  · exact .guarded h (fun _ => rfl) fun _ => rfl
  · cases h
    exact .refl _

/-- The holder's own updates keep fence and epoch. -/
theorem Fate.ofView {view : Db Unit} (hfence : view.fence = db.view.fence)
    (hepoch : view.epoch = db.view.epoch) :
    Fate digests key images t db { db with operation := view.operation } where
  fence := hfence
  epoch := hepoch.ge
  forward c hc _ := .inl ⟨c, hc, .refl c⟩
  backward c hc _ := .inl ⟨c, hc, .refl c⟩
  claims _ := .inl .rfl

theorem heartbeat_view {now : Int} {result : Except LeaseError Unit} {ctx' : Context}
    {view view' : Db Unit} (h : heartbeat ctx now view = (result, ctx', view')) :
    view'.fence = view.fence ∧ view'.epoch = view.epoch := by
  unfold heartbeat at h
  split at h
  · obtain ⟨-, -, rfl⟩ := (Prod.mk.inj h).imp id Prod.mk.inj
    exact ⟨rfl, rfl⟩
  · split at h <;> obtain ⟨-, -, rfl⟩ := (Prod.mk.inj h).imp id Prod.mk.inj
    · next hupdate =>
        obtain ⟨-, op, hop, rfl⟩ := updateGuarded_cases hupdate
        simp [Db.fence, Db.epoch, hop]
    · exact ⟨rfl, rfl⟩

theorem finish_view {now : Int} {succeeded : Bool} {errorCode : Option String}
    {result : Except LeaseError Unit} {ctx' : Context} {view view' : Db Unit}
    (h : finish ctx succeeded errorCode now view = (result, ctx', view')) :
    view'.fence = view.fence ∧ view'.epoch = view.epoch := by
  unfold finish at h
  split at h
  · obtain ⟨-, -, rfl⟩ := (Prod.mk.inj h).imp id Prod.mk.inj
    exact ⟨rfl, rfl⟩
  · split at h <;> obtain ⟨-, -, rfl⟩ := (Prod.mk.inj h).imp id Prod.mk.inj
    · next hupdate =>
        obtain ⟨-, op, hop, rfl⟩ := updateGuarded_cases hupdate
        simp [Db.fence, Db.epoch, hop]
    · exact ⟨rfl, rfl⟩

variable {change : Change}

theorem Commit.before (h : Commit digests key task db change db') : change.before = db := by
  cases h <;> rfl

theorem Commit.after (h : Commit digests key task db change db') : change.after = db' := by
  cases h <;> rfl

/-- A commit raises the fence, or it is one of the operation that was given the fence. -/
theorem Commit.fate (h : Commit digests key task db change db') :
    db'.fence = db.fence + 1 ∧ db.epoch ≤ db'.epoch ∨
      Fate digests key change.images (task db.fence) db db' := by
  cases h with
  | acquire request now₁ now₂ now₃ h =>
      have hacquired := acquireOnce_cases h
      refine .inl ⟨hacquired.fence, ?_⟩
      show db.view.epoch ≤ _
      refine le_trans ?_ hacquired.epoch.ge
      split <;> omega
  | heartbeat h => exact .inr (.ofView (heartbeat_view h).1 (heartbeat_view h).2)
  | finish succeeded errorCode h => exact .inr (.ofView (finish_view h).1 (finish_view h).2)
  | write checkpoint now₁ now₂ seller opened body closed =>
      rw [(Coverage.guarded_cases opened).1]
      refine .inr ((Fate.guarded opened (fun _ => rfl) fun _ => rfl).trans ?_)
      exact (body.fate seller).trans (.closeWrite closed)
  | elsewhere operation certificates claims =>
      refine .inr ⟨?_, ?_, fun c hc hseller => ?_, fun d hd hseller => ?_, fun claim => ?_⟩
      · simp only [Coverage.fence, Coverage.view, Db.fence, operation]
      · simp only [Coverage.epoch, Coverage.view, Db.epoch, operation, le_refl]
      · exact .inl ⟨c, (certificates c hseller).mpr hc, .refl c⟩
      · exact .inl ⟨d, (certificates d hseller).mp hd, .refl d⟩
      · exact .inl (by rw [claims])

end ZelerPlatform.Devoluciones
