import ZelerPlatform.Library.Exec
import ZelerPlatform.Publicador.Publication

/-!
# Publishing a batch

A publication of a draft first examines it: it reads, asks the gateway and comes to a verdict.
Only then does it write the draft and append the event of the verdict, whose id names the
operation and the draft. So a draft that comes to the same verdict twice is a duplicate key,
which `publish_batch` does not catch.
-/

namespace ZelerPlatform.Publicador.Batches

open Transition Transition.Program

variable {ι : Type} [DecidableEq ι] {A B : Type}

/-! ### Calls on their own -/

/-- The drafts a call begins to work on, in order. -/
def visits (p : Call ι A) (s : Store ι) : List String :=
  (Program.trace p.run s).filterMap fun label =>
    match label with
    | .enter draft => some draft
    | _ => none

@[simp] theorem exec_lift (x : Except PublicadorError A) (s : Store ι) :
    exec (lift x) s = (x, s) := rfl

@[simp] theorem exec_atomically (label : Label)
    (f : Store ι → Except PublicadorError A × Store ι) (s : Store ι) :
    exec (atomically label f) s = f s := rfl

@[simp] theorem exec_find (f : Store ι → A) (s : Store ι) : exec (find f) s = (.ok (f s), s) := rfl

theorem visits_bind (p : Call ι A) (k : A → Call ι B) (s : Store ι) :
    visits (p >>= k) s = visits p s ++
      match exec p s with
      | (.ok a, t) => visits (k a) t
      | (.error _, _) => [] := by
  show List.filterMap _ (Program.trace (p.run >>= ExceptT.bindCont k) s) = _
  rw [Program.trace_bind, List.filterMap_append]
  show visits p s ++ List.filterMap _
    (Program.trace (ExceptT.bindCont k (exec p s).1) (exec p s).2) = _
  rcases exec p s with ⟨e | a, t⟩
  · rfl
  · rfl

theorem visits_assoc {C : Type} (p : Call ι A) (k : A → Call ι B) (m : B → Call ι C)
    (s : Store ι) : visits (p >>= k >>= m) s = visits (p >>= fun a => k a >>= m) s := by
  rw [visits_bind, visits_bind p k, visits_bind p, exec_bind p k]
  rcases exec p s with ⟨e | a, t⟩
  · simp only [List.append_nil]
  · simp only [List.append_assoc, visits_bind]

/-- The call begins to work on no draft. -/
def Silent (p : Call ι A) : Prop := ∀ s, visits p s = []

theorem Silent.bind {p : Call ι A} {k : A → Call ι B} (hp : Silent p) (hk : ∀ a, Silent (k a)) :
    Silent (p >>= k) := by
  intro s
  rw [visits_bind, hp s]
  rcases exec p s with ⟨e | a, t⟩
  · rfl
  · exact hk a t

theorem Silent.pure (a : A) : Silent (pure a : Call ι A) := fun _ => rfl

theorem Silent.lift (x : Except PublicadorError A) : Silent (lift x : Call ι A) := fun _ => rfl

theorem Silent.mongo (f : Store ι → Except PublicadorError A × Store ι) :
    Silent (atomically .mongo f) := fun _ => rfl

theorem Silent.request (method path : String) (f : Store ι → Except PublicadorError A × Store ι) :
    Silent (atomically (.request method path) f) := fun _ => rfl

theorem Silent.find (f : Store ι → A) : Silent (find f) := fun _ => rfl

/-- The call changes nothing but the number of the next request, and nothing of it depends on who
works on which draft. -/
def Reads (p : Call ι A) : Prop :=
  ∀ s : Store ι, ∃ x k, ∀ owner, exec p { s with owner } = (x, { s with owner, requests := k })

theorem Reads.bind {p : Call ι A} {k : A → Call ι B} (hp : Reads p) (hk : ∀ a, Reads (k a)) :
    Reads (p >>= k) := by
  intro s
  obtain ⟨x, n, hx⟩ := hp s
  cases x with
  | error e => exact ⟨.error e, n, fun owner => exec_bind_error (hx owner)⟩
  | ok a =>
      obtain ⟨y, m, hy⟩ := hk a { s with requests := n }
      refine ⟨y, m, fun owner => ?_⟩
      rw [exec_bind_ok (hx owner)]
      exact hy owner

theorem Reads.pure (a : A) : Reads (pure a : Call ι A) := fun s => ⟨_, s.requests, fun _ => rfl⟩

theorem Reads.lift (x : Except PublicadorError A) : Reads (lift x : Call ι A) :=
  fun s => ⟨_, s.requests, fun _ => rfl⟩

theorem Reads.find {f : Store ι → A} (h : ∀ (s : Store ι) owner, f { s with owner } = f s) :
    Reads (find f) :=
  fun s => ⟨.ok (f s), s.requests, fun owner => by rw [exec_find, h]⟩

theorem Reads.request (method path : String) : Reads (request method path : Call ι PyValue) :=
  fun s => ⟨s.gateway s.requests, s.requests + 1, fun _ => rfl⟩

/-- Readings change no draft. -/
theorem Reads.drafts {p : Call ι A} (hp : Reads p) {s t : Store ι} {x : Except PublicadorError A}
    (h : exec p s = (x, t)) : t.drafts = s.drafts := by
  obtain ⟨y, k, hk⟩ := hp s
  have hs : exec p s = (y, { s with requests := k }) := hk s.owner
  rw [h] at hs
  rw [(Prod.mk.inj hs).2]

theorem reads_loadDraft {sellerId accountId draftId : String} :
    Reads (loadDraft sellerId accountId draftId : Call ι Draft) := by
  intro s
  cases hfound : s.drafts.findOne fun d =>
      d.id = draftId ∧ d.sellerId = sellerId ∧ d.accountId = accountId with
  | none =>
      refine ⟨.error (.value "publicador_draft_not_found"), s.requests, fun owner => ?_⟩
      rw [loadDraft, exec_atomically, hfound]
  | some draft =>
      refine ⟨.ok draft, s.requests, fun owner => ?_⟩
      rw [loadDraft, exec_atomically, hfound]

theorem reads_requiredAttributes {checks : Checks} {sellerId accountId categoryId : String} :
    Reads (requiredAttributes checks sellerId accountId categoryId : Call ι PyValue) :=
  (Reads.lift _).bind fun _ => (Reads.request _ _).bind fun _ => .lift _

theorem reads_publicationPreferences {checks : Checks} {sellerId accountId : String} :
    Reads (publicationPreferences checks sellerId accountId : Call ι PyValue) :=
  (Reads.lift _).bind fun _ => (Reads.find fun _ _ => rfl).bind fun _ => (Reads.request _ _).bind fun _ =>
    (Reads.request _ _).bind fun _ => (Reads.request _ _).bind fun _ =>
      (Reads.request _ _).bind fun _ => .lift _

theorem reads_buildPublishPayload {checks : Checks} {draft : Draft} :
    Reads (buildPublishPayload checks draft : Call ι PyValue) :=
  (Reads.find fun _ _ => rfl).bind fun _ => .lift _

/-! ### Verdicts -/

/-- What the examination of a draft comes to: field errors, or the marketplace's answer. -/
inductive Verdict
  | blocked (draft : Draft) (errors : List FieldError)
  | accepted (draft : Draft) (response : PyValue)

namespace Verdict

def draft : Verdict → Draft
  | blocked draft _ | accepted draft _ => draft

def operation : Verdict → String
  | blocked _ _ => "draft.validation_blocked"
  | accepted _ _ => "draft.published"

/-- The id of the event of the verdict. -/
def event (verdict : Verdict) : String := "event-" ++ verdict.operation ++ "-" ++ verdict.draft.id

/-- The draft as the verdict leaves it. -/
def settled (actorId : String) : Verdict → Draft
  | blocked draft errors =>
      { draft with
        status := "validation_failed", processStatus := "failed", errors, updatedBy := actorId }
  | accepted draft response =>
      { draft with
        status := "published", processStatus := "published",
        meliItemId := responseGet response "id", permalink := responseGet response "permalink",
        meliResponse := response, errors := [], updatedBy := actorId }

def posts (item : Option String) : Verdict → List Posting
  | blocked _ _ => []
  | accepted draft response => [⟨draft.id, item, responseGet response "id"⟩]

def publication (actorId : String) : Verdict → Publication
  | blocked _ _ => { status := "blocked", draft := none }
  | accepted draft response =>
      { status := "published", draft := some ((accepted draft response).settled actorId) }

end Verdict

/-- The reading half of `validate_and_publish_draft`. -/
def examine (checks : Checks) (sellerId accountId draftId : String) : Call ι Verdict := do
  let draft ← loadDraft sellerId accountId draftId
  let attributes ← requiredAttributes checks sellerId accountId (categoryId draft)
  let preferences ← publicationPreferences checks sellerId accountId
  let fieldErrors ← lift (checks.localFieldErrors draft attributes preferences)
  let _ ← buildPublishPayload checks draft
  if fieldErrors ≠ [] then return .blocked draft fieldErrors
  else
    let validation ← request "POST" "/items/validate"
    let gatewayErrors ← lift (checks.gatewayFieldErrors validation)
    if gatewayErrors ≠ [] then return .blocked draft gatewayErrors
    else
      let response ← request "POST" "/items"
      return .accepted draft response

/-- Its writing half. -/
def conclude (item : Option String) (actorId : String) (verdict : Verdict) : Call ι Publication := do
  atomically .mongo fun s => (.ok (), { s with posts := s.posts ++ verdict.posts item })
  replaceDraft (verdict.settled actorId)
  appendDraftEvent verdict.operation verdict.draft.id
  return verdict.publication actorId

variable {checks : Checks} {sellerId accountId batchId draftId actorId : String}
  {item : Option String} {s t : Store ι}

theorem reads_examine : Reads (examine checks sellerId accountId draftId : Call ι Verdict) := by
  refine reads_loadDraft.bind fun draft => reads_requiredAttributes.bind fun attributes =>
    reads_publicationPreferences.bind fun preferences => (Reads.lift _).bind fun errors =>
      reads_buildPublishPayload.bind fun _ => ?_
  split
  · exact .pure _
  · refine (Reads.request _ _).bind fun validation => (Reads.lift _).bind fun errors => ?_
    split
    · exact .pure _
    · exact (Reads.request _ _).bind fun _ => .pure _

/-- An examination is of the draft it was asked for. -/
theorem loadDraft_id {draft : Draft} (h : exec (loadDraft sellerId accountId draftId) s =
    (.ok draft, t)) : t = s ∧ draft.id = draftId := by
  rw [loadDraft, exec_atomically] at h
  split at h
  · cases h
  · next found hfound =>
      obtain ⟨hdraft, hstore⟩ := Prod.mk.inj h
      have hid := (Collection.findOne_mem hfound).2
      simp only [Bool.decide_and, Bool.and_eq_true, decide_eq_true_eq] at hid
      rw [← Except.ok.inj hdraft]
      exact ⟨hstore.symm, hid.1⟩

/-- A draft is found again as long as no draft is written. -/
theorem loadDraft_again {draft : Draft} {u : Store ι}
    (h : exec (loadDraft sellerId accountId draftId) s = (.ok draft, t))
    (same : u.drafts = s.drafts) :
    exec (loadDraft sellerId accountId draftId) u = (.ok draft, u) := by
  rw [loadDraft, exec_atomically] at h ⊢
  rw [same]
  split at h
  · cases h
  · rw [← Except.ok.inj (Prod.mk.inj h).1]

theorem exec_blocked {draft : Draft} {errors : List FieldError} {payload : PyValue} :
    exec (blockDraft draft errors actorId >>= fun _ =>
        (pure { status := "blocked", fieldErrors := errors, payload } : Call ι Validation) >>=
          fun validation =>
            if validation.status ≠ "valid" then
              pure { status := validation.status, draft := none }
            else do
              let draft ← loadDraft sellerId accountId draftId
              let response ← postItems draftId item
              let updated :=
                { draft with
                  status := "published", processStatus := "published",
                  meliItemId := responseGet response "id",
                  permalink := responseGet response "permalink",
                  meliResponse := response, errors := [], updatedBy := actorId }
              replaceDraft updated
              appendDraftEvent "draft.published" draft.id
              return { status := "published", draft := some updated }) s =
      exec ((pure (.blocked draft errors) : Call ι Verdict) >>= conclude item actorId) s := by
  have hposts : ({ s with posts := s.posts ++ [] } : Store ι) = s := by rw [List.append_nil]
  rw [blockDraft, exec_assoc]
  show _ = exec (replaceDraft _ >>= fun _ => appendDraftEvent _ _ >>= fun _ => pure _)
    { s with posts := s.posts ++ [] }
  rw [hposts]
  exact exec_congr fun _ _ _ => exec_congr fun _ _ _ => rfl

theorem exec_accepted {draft : Draft} :
    exec (postItems draft.id item >>= fun response =>
        replaceDraft ((Verdict.accepted draft response).settled actorId) >>= fun _ =>
          appendDraftEvent "draft.published" draft.id >>= fun _ =>
            (pure ((Verdict.accepted draft response).publication actorId) : Call ι Publication)) s =
      exec ((request "POST" "/items" >>= fun response =>
        (pure (.accepted draft response) : Call ι Verdict)) >>= conclude item actorId) s := by
  rw [exec_assoc]
  cases hanswer : s.gateway s.requests with
  | error e =>
      have hpost : exec (postItems draft.id item) s =
          (.error e, { s with requests := s.requests + 1 }) := by
        rw [postItems, exec_atomically, hanswer]
      have hrequest : exec (request "POST" "/items") s =
          (.error e, { s with requests := s.requests + 1 }) := by
        rw [request, exec_atomically, hanswer]
      rw [exec_bind_error hpost, exec_bind_error hrequest]
  | ok response =>
      have hpost : exec (postItems draft.id item) s =
          (.ok response, { s with
            requests := s.requests + 1
            posts := s.posts ++ (Verdict.accepted draft response).posts item }) := by
        rw [postItems, exec_atomically, hanswer]
        rfl
      have hrequest : exec (request "POST" "/items") s =
          (.ok response, { s with requests := s.requests + 1 }) := by
        rw [request, exec_atomically, hanswer]
      rw [exec_bind_ok hpost, exec_bind_ok hrequest]
      rfl

/-- A publication examines the draft and then writes what the verdict says. -/
theorem exec_validateAndPublishDraft :
    exec (validateAndPublishDraft checks item sellerId accountId draftId actorId) s =
      exec (examine checks sellerId accountId draftId >>= conclude item actorId) s := by
  rw [validateAndPublishDraft, validateDraft, examine, exec_assoc, exec_assoc]
  refine exec_congr fun draft t₁ hload => ?_
  obtain ⟨-, hid⟩ := loadDraft_id hload
  rw [exec_assoc, exec_assoc]
  refine exec_congr fun attributes t₂ hattributes => ?_
  rw [exec_assoc, exec_assoc]
  refine exec_congr fun preferences t₃ hpreferences => ?_
  rw [exec_assoc, exec_assoc]
  refine exec_congr fun errors t₄ herrors => ?_
  rw [exec_assoc, exec_assoc]
  refine exec_congr fun payload t₅ hpayload => ?_
  have same₅ : t₅.drafts = s.drafts := by
    rw [reads_buildPublishPayload.drafts hpayload, (Reads.lift _).drafts herrors,
      reads_publicationPreferences.drafts hpreferences,
      reads_requiredAttributes.drafts hattributes, reads_loadDraft.drafts hload]
  by_cases blocked : errors ≠ []
  case pos =>
    rw [if_pos blocked, if_pos blocked, exec_assoc]
    exact exec_blocked
  case neg =>
    rw [if_neg blocked, if_neg blocked, exec_assoc, exec_assoc]
    refine exec_congr fun validation t₆ hvalidation => ?_
    rw [exec_assoc, exec_assoc]
    refine exec_congr fun gatewayErrors t₇ hgateway => ?_
    have same : t₇.drafts = s.drafts := by
      rw [(Reads.lift _).drafts hgateway, (Reads.request _ _).drafts hvalidation, same₅]
    by_cases refused : gatewayErrors ≠ []
    case pos =>
      rw [if_pos refused, if_pos refused, exec_assoc]
      exact exec_blocked
    case neg =>
      rw [if_neg refused, if_neg refused]
      have again := loadDraft_again hload same
      show exec (loadDraft sellerId accountId draftId >>= fun draft =>
        postItems draftId item >>= fun response =>
          replaceDraft ((Verdict.accepted draft response).settled actorId) >>= fun _ =>
            appendDraftEvent "draft.published" draft.id >>= fun _ =>
              pure ((Verdict.accepted draft response).publication actorId)) t₇ = _
      rw [exec_bind_ok again, ← hid]
      exact exec_accepted

/-! ### Writes -/

/-- The store after `_replace_draft`. -/
def putDraft (draft : Draft) (s : Store ι) : Store ι :=
  { s with
    drafts := match s.drafts.findOne fun d =>
        d.id = draft.id ∧ d.sellerId = draft.sellerId ∧ d.accountId = draft.accountId with
      | none => s.drafts
      | some _ => s.drafts.replace draft }

/-- The store after `_replace_item`. -/
def putItem (item : BatchItem) (s : Store ι) : Store ι :=
  { s with
    items := match s.items.findOne fun b =>
        b.id = item.id ∧ b.sellerId = item.sellerId ∧ b.accountId = item.accountId with
      | none => s.items
      | some _ => s.items.replace item }

theorem exec_replaceDraft (draft : Draft) (s : Store ι) :
    exec (replaceDraft draft) s = (.ok (), putDraft draft s) := by
  rw [replaceDraft, exec_atomically, putDraft]
  cases s.drafts.findOne fun d =>
      d.id = draft.id ∧ d.sellerId = draft.sellerId ∧ d.accountId = draft.accountId with
  | none => rfl
  | some found => rfl

theorem exec_replaceItem (item : BatchItem) (s : Store ι) :
    exec (replaceItem item) s = (.ok (), putItem item s) := by
  rw [replaceItem, exec_atomically, putItem]
  cases s.items.findOne fun b =>
      b.id = item.id ∧ b.sellerId = item.sellerId ∧ b.accountId = item.accountId with
  | none => rfl
  | some found => rfl

theorem exec_insertEvent (id : String) (s : Store ι) :
    exec (insertEvent id) s =
      if id ∈ s.events then (.error duplicateKey, s)
      else (.ok (), { s with events := s.events ++ [id] }) := by
  rw [insertEvent, exec_atomically]

/-- The store after the verdict on a draft. -/
def Verdict.write (verdict : Verdict) (item : Option String) (actorId : String) (s : Store ι) :
    Store ι :=
  let written := putDraft (verdict.settled actorId) { s with posts := s.posts ++ verdict.posts item }
  { written with events := written.events ++ [verdict.event] }

theorem exec_conclude (verdict : Verdict) (new : verdict.event ∉ s.events) :
    exec (conclude item actorId verdict) s =
      (.ok (verdict.publication actorId), verdict.write item actorId s) := by
  rw [conclude]
  show exec (replaceDraft _ >>= _) { s with posts := s.posts ++ verdict.posts item } = _
  rw [exec_bind_ok (exec_replaceDraft _ _)]
  have hevent : exec (appendDraftEvent verdict.operation verdict.draft.id) (putDraft
      (verdict.settled actorId) { s with posts := s.posts ++ verdict.posts item }) =
      (.ok (), verdict.write item actorId s) := by
    rw [appendDraftEvent, exec_insertEvent]
    exact if_neg new
  rw [exec_bind_ok hevent]
  rfl

theorem exec_conclude_duplicate (verdict : Verdict) (taken : verdict.event ∈ s.events) :
    (exec (conclude item actorId verdict) s).1 = .error duplicateKey := by
  rw [conclude]
  show (exec (replaceDraft _ >>= _) { s with posts := s.posts ++ verdict.posts item }).1 = _
  rw [exec_bind_ok (exec_replaceDraft _ _)]
  have hevent : exec (appendDraftEvent verdict.operation verdict.draft.id) (putDraft
      (verdict.settled actorId) { s with posts := s.posts ++ verdict.posts item }) =
      (.error duplicateKey, putDraft (verdict.settled actorId)
        { s with posts := s.posts ++ verdict.posts item }) := by
    rw [appendDraftEvent, exec_insertEvent]
    exact if_pos taken
  rw [exec_bind_error hevent]

/-- Nobody works on the draft any more. -/
def release (draftId : String) (s : Store ι) : Store ι :=
  { s with owner := Function.update s.owner draftId none }

/-! ### The items of a batch -/

/-- A call of `publish_batch`. -/
structure PublishCall (ι : Type) where
  caller : ι
  checks : Checks
  sellerId : String
  accountId : String
  batchId : String
  actorId : String

namespace PublishCall

variable (call : PublishCall ι)

def program : Call ι Batch :=
  publishBatch call.caller call.checks call.sellerId call.accountId call.batchId call.actorId

/-- All the items of the batch. -/
def items (s : Store ι) : List BatchItem :=
  s.items.find fun item =>
    item.batchId = call.batchId ∧ item.sellerId = call.sellerId ∧ item.accountId = call.accountId

/-- The item is processed or has failed to be published, and has a draft. -/
def isDue (item : BatchItem) : Bool :=
  item.status ∈ ["processed", "publish_failed"] ∧ item.draftId?.isSome

/-- The items of the batch that are to be published. -/
def due (s : Store ι) : List BatchItem := (call.items s).filter isDue

/-- Those of them that `publish_batch` reads. -/
def taken (s : Store ι) : List BatchItem := ((call.items s).take 1000).filter isDue

/-- What the examination of the draft of an item comes to. -/
def outcome (item : BatchItem) (s : Store ι) : Except PublicadorError Verdict :=
  (exec (examine call.checks call.sellerId call.accountId ((item.draftId?).getD "")) s).1

/-- The item with its outcome. -/
def recorded (item : BatchItem) : Except PublicadorError Verdict → BatchItem
  | .ok verdict => publishedItem item call.actorId (verdict.publication call.actorId)
  | .error error => failedItem item call.actorId ((caught error).getD "")

/-- The store after an item whose outcome could be written. -/
def settle (item : BatchItem) (s : Store ι) : Store ι :=
  let draftId := (item.draftId?).getD ""
  let examined := (exec (examine call.checks call.sellerId call.accountId draftId) s).2
  let written := match call.outcome item s with
    | .ok verdict => verdict.write (some item.id) call.actorId examined
    | .error _ => examined
  putItem (call.recorded item (call.outcome item s)) (release draftId written)

/-- The outcome can be written: an exception is one that is caught, and the event of a verdict is
not there yet. -/
def Settles (s : Store ι) : Except PublicadorError Verdict → Prop
  | .ok verdict => verdict.event ∉ s.events
  | .error error => (caught error).isSome = true

/-- Every item in turn settles, after those before it. -/
def AllSettle : List BatchItem → Store ι → Prop
  | [], _ => True
  | item :: rest, s => Settles s (call.outcome item s) ∧ AllSettle rest (call.settle item s)

/-- The store after all the items. -/
def settleAll : List BatchItem → Store ι → Store ι
  | [], s => s
  | item :: rest, s => settleAll rest (call.settle item s)

/-- The items with their outcomes. -/
def outcomes : List BatchItem → Store ι → List (BatchItem × Except PublicadorError Verdict)
  | [], _ => []
  | item :: rest, s => (item, call.outcome item s) :: outcomes rest (call.settle item s)

/-- The part of the loop of `publish_batch` that handles an item. -/
def publishItem (item : BatchItem) : Call ι Unit := do
  let draftId := (item.draftId?).getD ""
  let result ← tryExcept (working call.caller draftId
    (validateAndPublishDraft call.checks (some item.id) call.sellerId call.accountId draftId
      call.actorId))
  recordItem item call.actorId result

end PublishCall

theorem exec_tryExcept (p : Call ι A) (s : Store ι) :
    exec (tryExcept p) s = (.ok (exec p s).1, (exec p s).2) := by
  show Program.run (p.run >>= fun x => pure (Except.ok x)) s = _
  rw [Program.run_bind]
  rfl

theorem exec_working (i : ι) (draftId : String) (p : Call ι A) (s : Store ι) :
    exec (working i draftId p) s =
      ((exec p { s with owner := Function.update s.owner draftId (some i) }).1, release draftId
        (exec p { s with owner := Function.update s.owner draftId (some i) }).2) := by
  show Program.run (Program.act _ _ >>= fun _ => p.run >>= fun x =>
    Program.act _ _ >>= fun _ => pure x) s = _
  rw [Program.run_bind, Program.run_bind, Program.run_bind]
  rfl

/-- Whoever worked on a draft is forgotten when the call is done with it. -/
theorem release_again (draftId : String) (i : Option ι) (s : Store ι) :
    release draftId { s with owner := Function.update s.owner draftId i } = release draftId s := by
  rw [release, release, Function.update_idem]

variable {call : PublishCall ι} {batchItem : BatchItem}

theorem recordItem_caught {error : PublicadorError} (h : (caught error).isSome = true) :
    exec (recordItem batchItem call.actorId (.error error)) s =
      (.ok (), putItem (call.recorded batchItem (.error error)) s) := by
  obtain ⟨message, hmessage⟩ := Option.isSome_iff_exists.mp h
  rw [recordItem, PublishCall.recorded, hmessage]
  exact exec_replaceItem _ _

theorem recordItem_raises {error : PublicadorError} (h : ¬ (caught error).isSome = true) :
    exec (recordItem batchItem call.actorId (.error error)) s = (.error error, s) := by
  rw [recordItem, Option.not_isSome_iff_eq_none.mp h]
  rfl

/-- The publication of a draft under the marks of a call. -/
def PublishCall.publication (call : PublishCall ι) (item : BatchItem) (draftId : String) :
    Call ι Publication :=
  working call.caller draftId (validateAndPublishDraft call.checks (some item.id) call.sellerId
    call.accountId draftId call.actorId)

section

variable {k : Nat}

theorem exec_publication_ok {verdict : Verdict}
    (hx : ∀ owner : String → Option ι, exec (examine call.checks call.sellerId call.accountId
      draftId) { s with owner } = (.ok verdict, { s with owner, requests := k }))
    (new : verdict.event ∉ s.events) :
    exec (call.publication batchItem draftId) s =
      (.ok (verdict.publication call.actorId), release draftId
        (verdict.write (some batchItem.id) call.actorId { s with requests := k })) := by
  rw [PublishCall.publication, exec_working, exec_validateAndPublishDraft, exec_bind_ok (hx _),
    exec_conclude verdict]
  · exact congrArg (Prod.mk _) (release_again draftId (some call.caller)
      (verdict.write (some batchItem.id) call.actorId { s with requests := k }))
  · exact new

theorem exec_publication_duplicate {verdict : Verdict}
    (hx : ∀ owner : String → Option ι, exec (examine call.checks call.sellerId call.accountId
      draftId) { s with owner } = (.ok verdict, { s with owner, requests := k }))
    (taken : verdict.event ∈ s.events) :
    (exec (call.publication batchItem draftId) s).1 = .error duplicateKey := by
  rw [PublishCall.publication, exec_working, exec_validateAndPublishDraft, exec_bind_ok (hx _)]
  exact exec_conclude_duplicate verdict taken

theorem exec_publication_error {error : PublicadorError}
    (hx : ∀ owner : String → Option ι, exec (examine call.checks call.sellerId call.accountId
      draftId) { s with owner } = (.error error, { s with owner, requests := k })) :
    exec (call.publication batchItem draftId) s =
      (.error error, release draftId { s with requests := k }) := by
  rw [PublishCall.publication, exec_working, exec_validateAndPublishDraft, exec_bind_error (hx _)]
  exact congrArg (Prod.mk _) (release_again draftId (some call.caller) { s with requests := k })

end

theorem exec_publishItem_eq (hdraft : (batchItem.draftId?).getD "" = draftId) :
    exec (call.publishItem batchItem) s =
      exec (recordItem batchItem call.actorId (exec (call.publication batchItem draftId) s).1)
        (exec (call.publication batchItem draftId) s).2 := by
  rw [PublishCall.publishItem, hdraft, exec_bind, exec_tryExcept]
  rfl

/-- The examination of the draft of an item: its outcome and the number of the next request. -/
theorem exists_examined (call : PublishCall ι) (item : BatchItem) (s : Store ι) :
    ∃ k, ∀ owner : String → Option ι, exec (examine call.checks call.sellerId call.accountId
        ((item.draftId?).getD "")) { s with owner } =
      (call.outcome item s, { s with owner, requests := k }) := by
  have reads : Reads (examine call.checks call.sellerId call.accountId
      ((item.draftId?).getD "") : Call ι Verdict) := reads_examine
  obtain ⟨x, k, hx⟩ := reads s
  have hexamine : exec (examine call.checks call.sellerId call.accountId
      ((item.draftId?).getD "")) s = (x, { s with requests := k }) := hx s.owner
  have houtcome : call.outcome item s = x := by rw [PublishCall.outcome, hexamine]
  exact ⟨k, houtcome ▸ hx⟩

/-- An item that settles is recorded with its outcome. -/
theorem exec_publishItem (settles : PublishCall.Settles s (call.outcome batchItem s)) :
    exec (call.publishItem batchItem) s = (.ok (), call.settle batchItem s) := by
  obtain ⟨k, hx⟩ := exists_examined call batchItem s
  generalize hdraft : (batchItem.draftId?).getD "" = draftId at hx
  have hexamine : exec (examine call.checks call.sellerId call.accountId draftId) s =
      (call.outcome batchItem s, { s with requests := k }) := hx s.owner
  rw [exec_publishItem_eq hdraft, PublishCall.settle, hdraft, hexamine]
  cases houtcome : call.outcome batchItem s with
  | ok verdict =>
      rw [houtcome] at hx settles
      rw [exec_publication_ok hx settles]
      exact exec_replaceItem _ _
  | error error =>
      rw [houtcome] at hx settles
      rw [exec_publication_error hx]
      exact recordItem_caught settles

/-- An item that does not settle ends the call with an exception. -/
theorem exec_publishItem_raises (stuck : ¬ PublishCall.Settles s (call.outcome batchItem s)) :
    ∃ error t, exec (call.publishItem batchItem) s = (.error error, t) := by
  obtain ⟨k, hx⟩ := exists_examined call batchItem s
  generalize hdraft : (batchItem.draftId?).getD "" = draftId at hx
  rw [exec_publishItem_eq hdraft]
  cases houtcome : call.outcome batchItem s with
  | ok verdict =>
      rw [houtcome] at hx stuck
      rw [exec_publication_duplicate hx (not_not.mp stuck)]
      exact ⟨_, _, recordItem_raises (by simp [caught, duplicateKey])⟩
  | error error =>
      rw [houtcome] at hx stuck
      rw [exec_publication_error hx]
      exact ⟨_, _, recordItem_raises stuck⟩

/-- The loop of `publish_batch`. -/
def PublishCall.publishItems (call : PublishCall ι) (items : List BatchItem) : Call ι Unit :=
  Publicador.publishItems call.caller call.checks call.sellerId call.accountId call.actorId items

theorem publishItems_cons {items : List BatchItem} :
    exec (call.publishItems (batchItem :: items)) s =
      exec (call.publishItem batchItem >>= fun _ => call.publishItems items) s :=
  (exec_assoc _ _ _ s).symm

/-- Where every item settles the loop comes to its end. -/
theorem exec_publishItems {items : List BatchItem} (settle : call.AllSettle items s) :
    exec (call.publishItems items) s = (.ok (), call.settleAll items s) := by
  induction items generalizing s with
  | nil => rfl
  | cons item rest ih =>
      rw [publishItems_cons, exec_bind_ok (exec_publishItem settle.1)]
      exact ih settle.2

/-- A loop that comes to its end has settled every item. -/
theorem allSettle_of_exec {items : List BatchItem} {t : Store ι}
    (h : exec (call.publishItems items) s = (.ok (), t)) : call.AllSettle items s := by
  induction items generalizing s with
  | nil => trivial
  | cons item rest ih =>
      rw [publishItems_cons] at h
      by_cases settles : PublishCall.Settles s (call.outcome item s)
      · rw [exec_bind_ok (exec_publishItem settles)] at h
        exact ⟨settles, ih h⟩
      · obtain ⟨error, u, hraises⟩ := exec_publishItem_raises settles
        rw [exec_bind_error hraises] at h
        cases h

/-! ### Visits -/

theorem silent_validateAndPublishDraft :
    Silent (validateAndPublishDraft checks item sellerId accountId draftId actorId :
      Call ι Publication) := by
  have hload (id : String) : Silent (loadDraft sellerId accountId id : Call ι Draft) := .mongo _
  have hblock (draft : Draft) (errors : List FieldError) :
      Silent (blockDraft draft errors actorId : Call ι Unit) :=
    (Silent.mongo _).bind fun _ => .mongo _
  have hattributes (category : String) :
      Silent (requiredAttributes checks sellerId accountId category : Call ι PyValue) :=
    (Silent.lift _).bind fun _ => (Silent.request _ _ _).bind fun _ => .lift _
  have hpreferences : Silent (publicationPreferences checks sellerId accountId : Call ι PyValue) :=
    (Silent.lift _).bind fun _ => (Silent.find _).bind fun _ => (Silent.request _ _ _).bind fun _ =>
      (Silent.request _ _ _).bind fun _ => (Silent.request _ _ _).bind fun _ =>
        (Silent.request _ _ _).bind fun _ => .lift _
  have hpayload (draft : Draft) : Silent (buildPublishPayload checks draft : Call ι PyValue) :=
    (Silent.find _).bind fun _ => .lift _
  have hvalidate : Silent (validateDraft checks sellerId accountId draftId actorId :
      Call ι Validation) := by
    refine (hload _).bind fun draft => (hattributes _).bind fun attributes =>
      hpreferences.bind fun preferences => (Silent.lift _).bind fun errors =>
        (hpayload _).bind fun payload => ?_
    split
    · exact (hblock _ _).bind fun _ => .pure _
    · refine (Silent.request _ _ _).bind fun validation => (Silent.lift _).bind fun errors => ?_
      split
      · exact (hblock _ _).bind fun _ => .pure _
      · exact .pure _
  refine hvalidate.bind fun validation => ?_
  split
  · exact .pure _
  · exact (hload _).bind fun draft => (Silent.request _ _ _).bind fun response =>
      (Silent.mongo _).bind fun _ => (Silent.mongo _).bind fun _ => .pure _

theorem visits_working {i : ι} {p : Call ι A} (silent : Silent p) :
    visits (working i draftId p) s = [draftId] := by
  show List.filterMap _ (Program.trace (Program.act _ _ >>= fun _ => p.run >>= fun x =>
    Program.act _ _ >>= fun _ => pure x) s) = _
  rw [Program.trace_bind, Program.trace_bind, Program.trace_bind, List.filterMap_append,
    List.filterMap_append]
  show [draftId] ++ (visits p _ ++ []) = _
  rw [silent]
  rfl

theorem visits_publishItem :
    visits (call.publishItem batchItem) s = [(batchItem.draftId?).getD ""] := by
  have hrecord (x : Except PublicadorError Publication) :
      Silent (recordItem batchItem call.actorId x : Call ι Unit) := by
    cases x with
    | ok publication => exact .mongo _
    | error error =>
        rw [recordItem]
        split
        · exact .mongo _
        · exact .lift _
  rw [PublishCall.publishItem, visits_bind, exec_tryExcept]
  show List.filterMap _ (Program.trace (_ >>= fun x => pure (Except.ok x)) s) ++ visits _ _ = _
  rw [hrecord, List.append_nil, Program.trace_bind, Program.trace_pure, List.append_nil]
  exact visits_working silent_validateAndPublishDraft

/-- Where every item settles the loop goes to the draft of each item once, in order. -/
theorem visits_publishItems {items : List BatchItem} (settle : call.AllSettle items s) :
    visits (call.publishItems items) s = items.map fun item => (item.draftId?).getD "" := by
  induction items generalizing s with
  | nil => rfl
  | cons item rest ih =>
      have hsplit : visits (call.publishItems (item :: rest)) s =
          visits (call.publishItem item >>= fun _ => call.publishItems rest) s :=
        (visits_assoc _ _ _ s).symm
      rw [hsplit, visits_bind, visits_publishItem, exec_publishItem settle.1]
      exact congrArg _ (ih settle.2)

/-! ### What the items become -/

section

variable {x : Except PublicadorError Verdict}

theorem recorded_id : (call.recorded batchItem x).id = batchItem.id := by
  rcases x with error | ⟨draft, errors⟩ | ⟨draft, response⟩ <;> rfl

theorem recorded_batchId : (call.recorded batchItem x).batchId = batchItem.batchId := by
  rcases x with error | ⟨draft, errors⟩ | ⟨draft, response⟩ <;> rfl

theorem recorded_sellerId : (call.recorded batchItem x).sellerId = batchItem.sellerId := by
  rcases x with error | ⟨draft, errors⟩ | ⟨draft, response⟩ <;> rfl

theorem recorded_accountId : (call.recorded batchItem x).accountId = batchItem.accountId := by
  rcases x with error | ⟨draft, errors⟩ | ⟨draft, response⟩ <;> rfl

theorem recorded_draftId : (call.recorded batchItem x).draftId? = batchItem.draftId? := by
  rcases x with error | ⟨draft, errors⟩ | ⟨draft, response⟩ <;> rfl

/-- The marketplace accepted the item. -/
def accepted : Except PublicadorError Verdict → Bool
  | .ok (.accepted _ _) => true
  | _ => false

theorem recorded_status : (call.recorded batchItem x).status =
    if accepted x then "published" else "publish_failed" := by
  rcases x with error | ⟨draft, errors⟩ | ⟨draft, response⟩ <;> rfl

end

/-- What a call leaves as it is while it handles an item. -/
theorem settle_batches : (call.settle batchItem s).batches = s.batches := by
  obtain ⟨k, hx⟩ := exists_examined call batchItem s
  rw [PublishCall.settle, show exec _ s = _ from hx s.owner]
  rcases call.outcome batchItem s with error | verdict <;> rfl

theorem settle_items : (call.settle batchItem s).items =
    (putItem (call.recorded batchItem (call.outcome batchItem s)) s).items := by
  obtain ⟨k, hx⟩ := exists_examined call batchItem s
  rw [PublishCall.settle, show exec _ s = _ from hx s.owner]
  rcases call.outcome batchItem s with error | verdict <;> rfl

theorem settleAll_batches {items : List BatchItem} :
    (call.settleAll items s).batches = s.batches := by
  induction items generalizing s with
  | nil => rfl
  | cons item rest ih => exact (ih (s := call.settle item s)).trans settle_batches

theorem settle_items_eq (stored : s.items.byKey batchItem.id = some batchItem) :
    (call.settle batchItem s).items =
      s.items.replace (call.recorded batchItem (call.outcome batchItem s)) := by
  generalize hnew : call.recorded batchItem (call.outcome batchItem s) = new
  have hfound : (s.items.findOne fun b => b.id = new.id ∧ b.sellerId = new.sellerId ∧
      b.accountId = new.accountId) = some batchItem := by
    rw [Collection.findOne_of_key (k := new.id) (fun b hb => (of_decide_eq_true hb).1), ← hnew,
      recorded_id, stored, Option.filter_some, recorded_sellerId, recorded_accountId]
    simp
  rw [settle_items, hnew, putItem, hfound]

/-- An item that is stored takes its outcome, and the others stay. -/
theorem settle_byKey (stored : s.items.byKey batchItem.id = some batchItem) {id : String} :
    (call.settle batchItem s).items.byKey id =
      if id = batchItem.id then some (call.recorded batchItem (call.outcome batchItem s))
      else s.items.byKey id := by
  rw [settle_items_eq stored, Collection.byKey_replace, recorded_id]
  by_cases h : id = batchItem.id
  · rw [if_pos h, if_pos h, h, stored, Option.map_some]
  · rw [if_neg h, if_neg h]

/-- The number of items of a batch stays. -/
theorem settle_length (stored : s.items.byKey batchItem.id = some batchItem) :
    (call.items (call.settle batchItem s)).length = (call.items s).length := by
  rw [PublishCall.items, settle_items_eq stored]
  refine Collection.length_find_replace fun b mem hb => ?_
  rw [recorded_id] at hb
  have heq : b = batchItem :=
    Option.some.inj ((Collection.byKey_some.mpr ⟨mem, hb⟩).symm.trans stored)
  rw [heq, recorded_batchId, recorded_sellerId, recorded_accountId]

/-- A batch item that is stored under its id, as are those after it, none of them under the id of
another. -/
structure Stored (items : List BatchItem) (s : Store ι) : Prop where
  nodup : (items.map BatchItem.id).Nodup
  stored : ∀ item ∈ items, s.items.byKey item.id = some item

namespace Stored

variable {items : List BatchItem}

theorem head (h : Stored (batchItem :: items) s) :
    s.items.byKey batchItem.id = some batchItem := h.stored batchItem List.mem_cons_self

theorem tail (h : Stored (batchItem :: items) s) : Stored items (call.settle batchItem s) where
  nodup := (List.nodup_cons.mp h.nodup).2
  stored other mem := by
    have hne : other.id ≠ batchItem.id := fun heq =>
      (List.nodup_cons.mp h.nodup).1 (heq ▸ List.mem_map_of_mem mem)
    rw [settle_byKey h.head, if_neg hne]
    exact h.stored other (List.mem_cons_of_mem _ mem)

/-- The items that are not handled stay as they are. -/
theorem byKey_others (h : Stored items s) {id : String} (others : id ∉ items.map BatchItem.id) :
    (call.settleAll items s).items.byKey id = s.items.byKey id := by
  induction items generalizing s with
  | nil => rfl
  | cons item rest ih =>
      obtain ⟨hne, others⟩ := List.ne_and_not_mem_of_not_mem_cons others
      rw [PublishCall.settleAll, ih h.tail others, settle_byKey h.head, if_neg hne]

/-- The items that are handled take their outcomes. -/
theorem byKey_outcome (h : Stored items s) {p : BatchItem × Except PublicadorError Verdict}
    (mem : p ∈ call.outcomes items s) :
    (call.settleAll items s).items.byKey p.1.id = some (call.recorded p.1 p.2) := by
  induction items generalizing s with
  | nil => cases mem
  | cons item rest ih =>
      rcases List.mem_cons.mp mem with rfl | mem
      · rw [PublishCall.settleAll, h.tail.byKey_others (List.nodup_cons.mp h.nodup).1,
          settle_byKey h.head, if_pos rfl]
      · exact ih h.tail mem

variable (call) in
theorem length_eq (h : Stored items s) :
    (call.items (call.settleAll items s)).length = (call.items s).length := by
  induction items generalizing s with
  | nil => rfl
  | cons item rest ih => exact (ih h.tail).trans (settle_length h.head)

end Stored

variable (call) in
theorem outcomes_map_fst (items : List BatchItem) (s : Store ι) :
    (call.outcomes items s).map Prod.fst = items := by
  induction items generalizing s with
  | nil => rfl
  | cons item rest ih => exact congrArg (item :: ·) (ih _)

/-- An item of the batch has taken its outcome or was there before. -/
theorem Stored.cases_items {items : List BatchItem} (h : Stored items s)
    (mem : batchItem ∈ call.items (call.settleAll items s)) :
    (∃ p ∈ call.outcomes items s, batchItem = call.recorded p.1 p.2) ∨
      batchItem.id ∉ items.map BatchItem.id ∧ batchItem ∈ call.items s := by
  obtain ⟨hmem, hscope⟩ := Collection.find_mem.mp mem
  have hkey := Collection.byKey_some.mpr ⟨hmem, rfl⟩
  by_cases handled : batchItem.id ∈ items.map BatchItem.id
  · left
    rw [← outcomes_map_fst call items s, List.map_map] at handled
    obtain ⟨p, hp, hid⟩ := List.mem_map.mp handled
    have hid : p.1.id = batchItem.id := hid
    refine ⟨p, hp, ?_⟩
    rw [← hid, h.byKey_outcome hp] at hkey
    exact (Option.some.inj hkey).symm
  · right
    rw [h.byKey_others handled] at hkey
    exact ⟨handled, Collection.find_mem.mpr ⟨(Collection.byKey_some.mp hkey).1, hscope⟩⟩

theorem stored_taken (s : Store ι) : Stored (call.taken s) s where
  nodup := s.items.nodup.sublist
    (((List.filter_sublist.trans (List.take_sublist _ _)).trans List.filter_sublist).map _)
  stored item mem := Collection.byKey_some.mpr
    ⟨(Collection.find_mem.mp (List.mem_of_mem_take (List.mem_of_mem_filter mem))).1, rfl⟩

/-! ### The batch -/

namespace PublishCall

/-- The batch is stored. -/
def Finds (call : PublishCall ι) (s : Store ι) (batch : Batch) : Prop :=
  s.batches.findOne (Batch.isOf call.batchId call.sellerId call.accountId) = some batch

/-- The id of the event the call appends for the batch. -/
def event (s : Store ι) : String := "event" ++ "-" ++ s.ids s.idCount

def marked (batch : Batch) : Batch := { batch with status := "published", publishStatus := "published" }

/-- What the call makes of its batch, with the counts of the items it reads. -/
def counted (call : PublishCall ι) (batch : Batch) (s : Store ι) : Batch :=
  { marked batch with counts := countsOf ((call.items s).take 1000) }

/-- The end of `publish_batch`. -/
def finish (call : PublishCall ι) (batch : Batch) : Call ι Batch := do
  replaceBatch (marked batch)
  refreshCounts call.sellerId call.accountId call.batchId
  appendEvent
  loadBatch call.sellerId call.accountId call.batchId

end PublishCall

section

variable {batch other : Batch}

theorem exec_loadBatch (found : call.Finds s batch) :
    exec (loadBatch call.sellerId call.accountId call.batchId) s = (.ok batch, s) := by
  rw [loadBatch, exec_atomically, found]

theorem PublishCall.Finds.scope (found : call.Finds s batch) :
    batch.id = call.batchId ∧ batch.sellerId = call.sellerId ∧ batch.accountId = call.accountId :=
  of_decide_eq_true (Collection.findOne_mem found).2

/-- A batch in the place of one that was found is found instead. -/
theorem PublishCall.Finds.replace (found : call.Finds s batch) (other : Batch) (id : other.id = batch.id)
    (sellerId : other.sellerId = batch.sellerId) (accountId : other.accountId = batch.accountId) :
    exec (replaceBatch other) s = (.ok (), { s with batches := s.batches.replace other }) ∧
      call.Finds { s with batches := s.batches.replace other } other := by
  obtain ⟨hid, hseller, haccount⟩ := found.scope
  constructor
  · rw [replaceBatch, exec_atomically, id, sellerId, accountId, hid, hseller, haccount, found]
  · have hkey : s.batches.byKey other.id = some batch :=
      Collection.byKey_some.mpr ⟨(Collection.findOne_mem found).1, id.symm⟩
    show (s.batches.replace other).findOne (Batch.isOf _ _ _) = some other
    rw [Collection.findOne_of_key (k := other.id), Collection.byKey_replace, if_pos rfl, hkey]
    · simp [Batch.isOf, id, sellerId, accountId, hid, hseller, haccount]
    · intro b hb
      rw [id, hid]
      exact (of_decide_eq_true hb).1

/-- The end of a call: the counts are stored, and the event of the batch is appended. -/
theorem exec_finish (found : call.Finds s batch) :
    ∃ t : Store ι, t.items = s.items ∧ call.Finds t (call.counted batch s) ∧
      exec (call.finish batch) s =
        if PublishCall.event s ∈ s.events then (.error duplicateKey, t)
        else (.ok (call.counted batch s), { t with events := t.events ++ [PublishCall.event s] }) := by
  obtain ⟨hfirst, found₁⟩ := found.replace (PublishCall.marked batch) rfl rfl rfl
  obtain ⟨hsecond, found₂⟩ := found₁.replace (call.counted batch s) rfl rfl rfl
  let t : Store ι :=
    { s with
      batches := (s.batches.replace (PublishCall.marked batch)).replace (call.counted batch s)
      idCount := s.idCount + 1 }
  have hrefresh : exec (refreshCounts call.sellerId call.accountId call.batchId)
      { s with batches := s.batches.replace (PublishCall.marked batch) } =
      (.ok (), { t with idCount := s.idCount }) := by
    rw [refreshCounts, exec_bind_ok (exec_loadBatch found₁)]
    show exec (itemsForBatch _ _ _ >>= _) _ = _
    rw [itemsForBatch, exec_bind_ok (exec_find _ _)]
    exact hsecond
  refine ⟨t, rfl, found₂, ?_⟩
  have hevent : exec appendEvent ({ t with idCount := s.idCount } : Store ι) =
      if PublishCall.event s ∈ s.events then (.error duplicateKey, t)
      else (.ok (), { t with events := t.events ++ [PublishCall.event s] }) := by
    have hid : exec (idFactory "event") ({ t with idCount := s.idCount } : Store ι) =
        (.ok (PublishCall.event s), t) := rfl
    rw [appendEvent, exec_bind_ok hid, exec_insertEvent]
  rw [PublishCall.finish, exec_bind_ok hfirst, exec_bind_ok hrefresh]
  by_cases taken : PublishCall.event s ∈ s.events
  · rw [if_pos taken] at hevent ⊢
    exact exec_bind_error hevent
  · rw [if_neg taken] at hevent ⊢
    rw [exec_bind_ok hevent]
    exact exec_loadBatch found₂

/-- A call loads its batch, handles the items it reads and finishes. -/
theorem exec_program (found : call.Finds s batch) :
    exec call.program s =
      exec (call.publishItems (call.taken s) >>= fun _ => call.finish batch) s := by
  rw [PublishCall.program, publishBatch, exec_bind_ok (exec_loadBatch found)]
  rfl

theorem visits_program (found : call.Finds s batch) :
    visits call.program s =
      visits (call.publishItems (call.taken s) >>= fun _ => call.finish batch) s := by
  rw [PublishCall.program, publishBatch, visits_bind, exec_loadBatch found]
  rfl

theorem silent_finish : Silent (call.finish batch) := by
  have hload : Silent (loadBatch call.sellerId call.accountId call.batchId : Call ι Batch) :=
    .mongo _
  have hrefresh : Silent (refreshCounts call.sellerId call.accountId call.batchId : Call ι Unit) :=
    hload.bind fun _ => (Silent.find _).bind fun _ => .mongo _
  have hevent : Silent (appendEvent : Call ι Unit) := Silent.bind (fun _ => rfl) fun _ => .mongo _
  exact (Silent.mongo _).bind fun _ => hrefresh.bind fun _ => hevent.bind fun _ => hload

end

/-! ### Isolation -/

/-- The counts are the numbers of the items by status. -/
structure HonestCounts (counts : Counts) (items : List BatchItem) : Prop where
  total : counts.total = items.length
  queued : counts.queued = items.countP (·.status = "queued")
  blocked : counts.blocked = items.countP (·.status = "blocked")
  processed : counts.processed = items.countP (·.status = "processed")
  published : counts.published = items.countP (·.status = "published")
  failed : counts.failed =
    items.countP fun item => item.status ∈ ["failed", "publish_failed", "retryable"]

/-- A call returns and has counted its batch honestly; it has gone to the draft of each due item
once; each due item has its own outcome, and no other item has changed; due for the next call are
the items that failed. -/
structure Isolates (call : PublishCall ι) (s : Store ι) : Prop where
  returns : ∃ batch, (exec call.program s).1 = .ok batch ∧
    call.Finds (exec call.program s).2 batch ∧
    HonestCounts batch.counts (call.items (exec call.program s).2)
  visits : visits call.program s = (call.due s).map fun item => (item.draftId?).getD ""
  outcomes : ∀ p ∈ call.outcomes (call.due s) s, ∃ stored,
    (exec call.program s).2.items.byKey p.1.id = some stored ∧
      stored.status = if accepted p.2 then "published" else "publish_failed"
  others : ∀ id ∉ (call.due s).map BatchItem.id,
    (exec call.program s).2.items.byKey id = s.items.byKey id
  retries : ∀ item, item ∈ call.due (exec call.program s).2 ↔
    ∃ p ∈ call.outcomes (call.due s) s, accepted p.2 = false ∧ item = call.recorded p.1 p.2

/-- The batch has at most a thousand items, the due ones settle one after another, and the id of
the event of the batch is new. -/
structure Isolable (call : PublishCall ι) (s : Store ι) : Prop where
  few : (call.items s).length ≤ 1000
  settle : call.AllSettle (call.due s) s
  event : PublishCall.event (call.settleAll (call.due s) s) ∉ (call.settleAll (call.due s) s).events

/-- No item has a status that is the name of the total. -/
def Named (call : PublishCall ι) (s : Store ι) : Prop := ∀ item ∈ call.items s, item.status ≠ "total"

theorem countsOf_total {items : List BatchItem} (named : ∀ item ∈ items, item.status ≠ "total") :
    (countsOf items).total = items.length := by
  have hnone : items.countP (·.status = "total") = 0 := by
    rw [List.countP_eq_zero]
    intro item mem
    simpa using named item mem
  rw [countsOf, hnone, Nat.add_zero]

theorem honest_countsOf {items : List BatchItem} (named : ∀ item ∈ items, item.status ≠ "total") :
    HonestCounts (countsOf items) items := ⟨countsOf_total named, rfl, rfl, rfl, rfl, rfl⟩

theorem Named.settleAll (named : Named call s) {items : List BatchItem} (h : Stored items s) :
    Named call (call.settleAll items s) := by
  intro item mem
  rcases h.cases_items mem with ⟨p, -, rfl⟩ | ⟨-, mem⟩
  · rw [recorded_status]
    split <;> decide
  · exact named item mem

/-- A call that returns has read items that settle, and its result has the counts of what it
read. -/
theorem of_exec_program {batch result : Batch} {t : Store ι} (found : call.Finds s batch)
    (h : exec call.program s = (.ok result, t)) :
    call.AllSettle (call.taken s) s ∧
      PublishCall.event (call.settleAll (call.taken s) s) ∉
        (call.settleAll (call.taken s) s).events ∧
      result = call.counted batch (call.settleAll (call.taken s) s) ∧
      t.items = (call.settleAll (call.taken s) s).items ∧ call.Finds t result := by
  rw [exec_program found] at h
  rcases hitems : exec (call.publishItems (call.taken s)) s with ⟨error | ⟨⟩, u⟩
  · rw [exec_bind_error hitems] at h
    cases h
  · have settle := allSettle_of_exec hitems
    rw [exec_bind_ok (exec_publishItems settle)] at h
    have found' : call.Finds (call.settleAll (call.taken s) s) batch := by
      rw [PublishCall.Finds, settleAll_batches]
      exact found
    obtain ⟨w, hitems, hfinds, hfinish⟩ := exec_finish found'
    rw [hfinish] at h
    split at h
    · cases h
    · next new =>
        obtain ⟨hresult, hstore⟩ := Prod.mk.inj h
        obtain rfl := Except.ok.inj hresult
        obtain rfl := hstore
        exact ⟨settle, new, rfl, hitems, hfinds⟩

/-- Where the items read settle and the event is new, a call returns. -/
theorem exec_program_ok {batch : Batch} (found : call.Finds s batch)
    (settle : call.AllSettle (call.taken s) s)
    (new : PublishCall.event (call.settleAll (call.taken s) s) ∉
      (call.settleAll (call.taken s) s).events) :
    ∃ result t, exec call.program s = (.ok result, t) := by
  have found' : call.Finds (call.settleAll (call.taken s) s) batch := by
    rw [PublishCall.Finds, settleAll_batches]
    exact found
  obtain ⟨w, -, -, hfinish⟩ := exec_finish found'
  rw [exec_program found, exec_bind_ok (exec_publishItems settle), hfinish, if_neg new]
  exact ⟨_, _, rfl⟩

theorem taken_eq_due (few : (call.items s).length ≤ 1000) : call.taken s = call.due s := by
  rw [PublishCall.taken, List.take_of_length_le few, PublishCall.due]

theorem Isolates.few {batch : Batch} (h : Isolates call s) (found : call.Finds s batch)
    (named : Named call s) : (call.items s).length ≤ 1000 := by
  obtain ⟨result, hresult, -, honest⟩ := h.returns
  obtain ⟨-, -, hcounted, hitems, -⟩ :=
    of_exec_program found (Prod.ext hresult rfl : exec call.program s = (_, _))
  have hread : call.items (exec call.program s).2 =
      call.items (call.settleAll (call.taken s) s) := by
    rw [PublishCall.items, hitems, PublishCall.items]
  have named' : Named call (call.settleAll (call.taken s) s) := named.settleAll (stored_taken s)
  have htotal := honest.total
  rw [hread, (stored_taken s).length_eq call, hcounted] at htotal
  have hcount : (countsOf ((call.items (call.settleAll (call.taken s) s)).take 1000)).total =
      ((call.items (call.settleAll (call.taken s) s)).take 1000).length :=
    countsOf_total fun item mem => named' item (List.mem_of_mem_take mem)
  have taken : Stored (call.taken s) s := stored_taken s
  have hlength := taken.length_eq call
  rw [List.length_take, hlength] at hcount
  have : min 1000 (call.items s).length = (call.items s).length := hcount.symm.trans htotal
  omega

theorem Isolable.isolates {batch : Batch} (h : Isolable call s) (found : call.Finds s batch)
    (named : Named call s) : Isolates call s := by
  have htaken := taken_eq_due h.few
  have stored : Stored (call.due s) s := htaken ▸ stored_taken s
  obtain ⟨result, t, hexec⟩ := exec_program_ok found (htaken ▸ h.settle) (htaken ▸ h.event)
  obtain ⟨-, -, hcounted, hitems, hfinds⟩ := of_exec_program found hexec
  rw [htaken] at hcounted hitems
  have hread : call.items t = call.items (call.settleAll (call.due s) s) := by
    rw [PublishCall.items, hitems, PublishCall.items]
  have named' : Named call (call.settleAll (call.due s) s) := named.settleAll stored
  refine ⟨⟨result, ?_, ?_, ?_⟩, ?_, ?_, ?_, ?_⟩
  · rw [hexec]
  · rw [hexec]
    exact hfinds
  · rw [hexec, hread, hcounted]
    show HonestCounts (countsOf ((call.items _).take 1000)) _
    rw [List.take_of_length_le (stored.length_eq call ▸ h.few)]
    exact honest_countsOf named'
  · rw [visits_program found, visits_bind, htaken, visits_publishItems h.settle,
      exec_publishItems h.settle]
    show _ ++ Batches.visits (call.finish batch) _ = _
    rw [silent_finish, List.append_nil]
  · intro p mem
    rw [hexec, hitems]
    exact ⟨_, stored.byKey_outcome mem, recorded_status⟩
  · intro id others
    rw [hexec, hitems]
    exact stored.byKey_others others
  · intro item
    rw [hexec, PublishCall.due, hread]
    constructor
    · intro mem
      obtain ⟨mem, hdue⟩ := List.mem_filter.mp mem
      rcases stored.cases_items mem with ⟨p, hp, rfl⟩ | ⟨hnew, mem⟩
      · refine ⟨p, hp, ?_, rfl⟩
        have hstatus := (of_decide_eq_true hdue).1
        rw [recorded_status] at hstatus
        cases haccepted : accepted p.2 with
        | false => rfl
        | true => simp [haccepted] at hstatus
      · exact absurd (List.mem_map_of_mem (List.mem_filter.mpr ⟨mem, hdue⟩)) hnew
    · rintro ⟨p, hp, hfailed, rfl⟩
      have hmem : p.1 ∈ call.due s := by
        rw [← outcomes_map_fst call (call.due s) s]
        exact List.mem_map_of_mem hp
      obtain ⟨hitem, hdue⟩ := List.mem_filter.mp hmem
      refine List.mem_filter.mpr ⟨Collection.find_mem.mpr
        ⟨(Collection.byKey_some.mp (stored.byKey_outcome hp)).1, ?_⟩, ?_⟩
      · rw [recorded_batchId, recorded_sellerId, recorded_accountId]
        exact (Collection.find_mem.mp hitem).2
      · refine decide_eq_true ⟨?_, ?_⟩
        · rw [recorded_status, hfailed]
          decide
        · rw [recorded_draftId]
          exact (of_decide_eq_true hdue).2

/-- A call isolates failures and counts honestly exactly if its batch has at most a thousand items,
no exception of an item goes uncaught and no event it appends is there already. -/
theorem isolates_iff {batch : Batch} (found : call.Finds s batch) (named : Named call s) :
    Isolates call s ↔ Isolable call s := by
  constructor
  · intro h
    have few := h.few found named
    obtain ⟨result, hresult, -⟩ := h.returns
    obtain ⟨settle, event, -⟩ :=
      of_exec_program found (Prod.ext hresult rfl : exec call.program s = (_, _))
    rw [taken_eq_due few] at settle event
    exact ⟨few, settle, event⟩
  · exact fun h => h.isolates found named

/-! ### Two calls -/

section

/-- Checks that leave the finding of errors to the gateway. -/
def gatewayChecks : Checks where
  attributes response := .ok response
  preferences _ responses := .ok (responses.head?.getD .none)
  localFieldErrors _ _ _ := .ok []
  payload _ _ := .ok .none
  gatewayFieldErrors response :=
    match responseGet response "field_errors" with
    | .list (.text message :: _) => .ok [⟨"title", message⟩]
    | _ => .ok []

def processedDraft (id sku : String) : Draft :=
  ⟨id, "82", "a1", sku, "generated", "not_started", .none, .none, .none, [], [], "", []⟩

def processedItem (id sku draftId : String) : BatchItem :=
  ⟨id, "b1", "82", "a1", sku, .none, .none, .none, .none, .none, [], some draftId, "processed",
    "processed", "not_started", .none, .none, 0, [], ""⟩

def processedBatch : Batch := ⟨"b1", "82", "a1", "processed", "processed", "not_started",
  ⟨2, 0, 0, 2, 0, 0⟩⟩

/-- A batch of two processed items. The gateway finds the first one's title too long at every
validation; the second one's request for its attributes fails. -/
def processedPair : Store Unit where
  drafts := ⟨[processedDraft "d1" "SKU-1", processedDraft "d2" "SKU-2"], by decide⟩
  items := ⟨[processedItem "i1" "SKU-1" "d1", processedItem "i2" "SKU-2" "d2"], by decide⟩
  batches := ⟨[processedBatch], by decide⟩
  assets := []
  events := []
  settings _ _ := none
  gateway n :=
    if n = 6 then .error (.runtime "gateway unavailable")
    else .ok (.dict [("field_errors", .list [.text "title is too long"])])
  requests := 0
  ids n := if n = 0 then "e0" else "e1"
  idCount := 0
  posts := []
  owner _ := none
  created := []

def publishPair : PublishCall Unit := ⟨(), gatewayChecks, "82", "a1", "b1", "ana"⟩

instance (s : Store ι) (x : Except PublicadorError Verdict) : Decidable (PublishCall.Settles s x) := by
  rcases x with error | verdict <;> rw [PublishCall.Settles] <;> infer_instance

/-- The first call records both failures. -/
theorem isolates_processedPair : Isolates publishPair processedPair := by
  have found : publishPair.Finds processedPair processedBatch := rfl
  have named : Named publishPair processedPair := by
    intro item mem
    have hmem : item ∈ processedPair.items.docs := (Collection.find_mem.mp mem).1
    have hitem : item = processedItem "i1" "SKU-1" "d1" ∨ item = processedItem "i2" "SKU-2" "d2" := by
      simpa [processedPair] using hmem
    rcases hitem with rfl | rfl <;> decide
  refine (isolates_iff found named).mpr ⟨?_, ⟨?_, ?_, trivial⟩, ?_⟩
  · decide +kernel
  · decide +kernel
  · decide +kernel
  · decide +kernel

/-- The failures a call raised. -/
def raised {A : Type} : Except PublicadorError A → Option PublicadorError
  | .error error => some error
  | .ok _ => none

/-- The same gateway blocks the first item again in the second call: its event is there already, so
the call raises and does not come to the second item. -/
theorem not_isolates_processedPair :
    raised (exec publishPair.program (exec publishPair.program processedPair).2).1 =
        some duplicateKey ∧
      visits publishPair.program (exec publishPair.program processedPair).2 = ["d1"] ∧
      (publishPair.due (exec publishPair.program processedPair).2).map BatchItem.id =
        ["i1", "i2"] ∧
      ¬ Isolates publishPair (exec publishPair.program processedPair).2 := by
  have hraised : raised (exec publishPair.program (exec publishPair.program processedPair).2).1 =
      some duplicateKey := by decide +kernel
  refine ⟨hraised, ?_, ?_, fun h => ?_⟩
  · decide +kernel
  · decide +kernel
  · obtain ⟨result, hresult, -⟩ := h.returns
    rw [hresult] at hraised
    cases hraised

end

end ZelerPlatform.Publicador.Batches
