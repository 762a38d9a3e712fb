import ZelerPlatform.Gateway.Classifier

/-!
# Work of stored webhooks

A webhook that is worked on later is charged to the budget of its source if
`normalize_history_event` knows it and its claim holds the processing key that
`validate_history_work_receipt` computes. The gateway has named the event before, with tables of its
own.
-/

namespace ZelerPlatform.History.Receipts

open Mongo Mongo.Value Gateway

def consumer : String := "zeler.sheets.events"

/-- `TOPICS`: the event type and the source of a topic. -/
def topics : List (String × String × String) := [
  ("orders_v2", "orders.updated", "orders"),
  ("orders.updated", "orders.updated", "orders"),
  ("questions", "questions.new", "questions"),
  ("questions.new", "questions.new", "questions"),
  ("shipments", "shipments.updated", "shipments"),
  ("shipments.updated", "shipments.updated", "shipments"),
  ("messages", "messages.new", "messages"),
  ("messages.new", "messages.new", "messages")]

/-- `PATHS`, with the alternatives of a pattern as patterns of their own. -/
def paths : List (String × List (List Piece)) := [
  ("orders", [[.text "/orders/", .digits]]),
  ("questions", [[.text "/questions/", .digits]]),
  ("shipments", [[.text "/shipments/", .digits], [.text "/shipments/", .digits, .text "/costs"],
    [.text "/shipments/", .digits, .text "/payments"]]),
  ("messages", [[.text "/messages/packs/", .digits, .text "/sellers/", .digits]]),
  ("claims_returns", [[.text "/orders/", .digits], [.text "/post-purchase/v1/claims/", .digits],
    [.text "/post-purchase/v2/claims/", .digits, .text "/returns"]])]

/-- The resource is a path of the source. -/
def matchesPath (source resource : String) : Bool :=
  ((paths.lookup source).getD []).any fun pattern => (fullmatch pattern resource.toList).isSome

/-! ### Events -/

/-- An event type, a resource and a source. -/
abbrev Normalized := String × String × String

/-- The actions of an event, or those of its body. -/
def documentActions (document : Doc) : Value :=
  match document.getD "actions", document.getD "raw_body" with
  | .null, .document raw => Doc.getD raw "actions"
  | actions, _ => actions

/-- What the topic and the resource of an event say, before its classification is looked at. -/
def namedEvent (document : Doc) (topic : Option Value) (resource : String) : Option Normalized :=
  match topic with
  | some (.string "post_purchase") =>
      let actions := documentActions document
      let root := fullmatch [.text "/post-purchase/v1/claims/", .digits] resource.toList
      let history := fullmatch [.text "/post-purchase/v1/claims/", .digits, .text "/actions-history"]
        resource.toList
      if root.isSome ∧ actions.pyEq (.array [.string "claims"]) then
        some ("claims.updated", resource, "claims_returns")
      else
        match history with
        | some [claimId] =>
            if actions.pyEq (.array [.string "claims_actions"]) then
              some ("claims.updated", "/post-purchase/v1/claims/" ++ claimId, "claims_returns")
            else none
        | _ => none
  | some (.string topic) =>
      match topics.lookup topic with
      | some (eventType, source) =>
          if matchesPath source resource then some (eventType, resource, source) else none
      | none => none
  | _ => none

/-- The classification is missing or a name of the event. -/
def classified (document : Doc) (topic : Option Value) (eventType : String) : Bool :=
  document.getD "classification" == .null ||
    topic.any (fun topic => (document.getD "classification").pyEq topic) ||
      (document.getD "classification").pyEq (.string eventType)

/-- `normalize_history_event`. -/
def normalizeHistoryEvent (document : Doc) : Option Normalized :=
  let topic := orGet document "topic" (document.get? "classification")
  match document.get? "resource" with
  | some (.string resource) =>
      (namedEvent document topic resource).filter fun value => classified document topic value.1
  | _ => none

/-! ### Receipts -/

/-- A field that is a text and not empty. -/
def textField (receipt : Doc) (key : String) : Option String :=
  ((receipt.get? key).bind (·.str?)).filter (!·.isEmpty)

/-- `[a-f0-9]{32}`. -/
def isToken (value : Option Value) : Bool :=
  (value.bind (·.str?)).any fun token =>
    token.length == 32 && token.toList.all fun c => isDigit c || ('a' ≤ c && c ≤ 'f')

/-- A seller whose text is that of its number. -/
def isSeller (seller : String) : Bool :=
  seller.toList.all isDigit && seller.length ≤ 20 &&
    (intOfText seller).map (fun number => toString number) == some seller

/-- The identity of a job of a receipt, if it has one; nothing where it is malformed. -/
def jobIdentity (receipt : Doc) : Option (Option Doc) :=
  match receipt.getD "job_identity" with
  | .null => some none
  | .document job =>
      match textField job "_id", Doc.get? job "fence" with
      | some _, some (.int fence) =>
          if isToken (Doc.get? job "attempt_token") ∧ 1 ≤ fence then some (some job) else none
      | _, _ => none
  | _ => none

/-- The key of the claim on an event. -/
def processingKey (topic resource eventId : String) (job : Option Doc) : String :=
  match job with
  | some job => "sync-job:" ++ (textField job "_id").getD "" ++ ":" ++ eventId
  | none => topic ++ ":" ++ resource ++ ":" ++ eventId

/-- The collections that a receipt is checked against. -/
structure WorkStore where
  events : List Doc
  claims : List Doc
  jobs : List Doc

/-- `_utc`; nothing where it raises. -/
def utcField (doc : Doc) (key : String) : Option Int := (doc.get? key).bind (·.date?)

/-- A document has the fields of a query, as Python compares them. -/
def holdsFields (query doc : Doc) : Bool :=
  query.all fun field => (doc.getD field.1).pyEq field.2

/-- `claim_query` but for `expires_at`. -/
def claimQuery (key owner : String) : Doc :=
  [("_id", .string (consumer ++ ":" ++ key)), ("owner_token", .string owner),
    ("module_id", .string "sheets"), ("consumer_id", .string consumer),
    ("idempotency_key", .string key)]

/-- The claim that holds the key is there and alive. -/
def liveClaim (store : WorkStore) (key owner : String) (current : Int) : Bool :=
  match store.claims.find? fun claim => Doc.matchesAll (claimQuery key owner) claim &&
      (utcField claim "expires_at").any fun expires => floorMs current < expires with
  | some claim => holdsFields (claimQuery key owner) claim &&
      (utcField claim "expires_at").any fun expires => current < expires
  | none => false

section

variable (texts : EnvelopeTexts)

/-- The job is still running, and the event came in its range. -/
def liveJob (store : WorkStore) (job : Doc) (seller : String) (current : Int) (event : Doc) :
    Bool :=
  match store.jobs.find? fun stored =>
      Doc.matchesAll job stored && eqMatches (stored.get? "state") (.string "running") &&
        (eqMatches (stored.get? "seller_id") (.string seller) ||
          (intOfText seller).any fun number => eqMatches (stored.get? "seller_id") (ofInt number)) &&
        (utcField stored "lease_until").any fun lease => floorMs current < lease with
  | some stored =>
      match utcField stored "lease_until", utcField stored "requested_at",
        utcField event "received_at", utcField stored "delta_through_at" with
      | some lease, some requested, some received, some through =>
          holdsFields job stored && stored.get? "state" == some (.string "running") &&
            texts.pyStr (stored.getD "seller_id") == seller &&
            decide (current < lease) && decide (requested ≤ received ∧ received ≤ through)
      | _, _, _, _ => false
  | none => false

structure HistoryWorkIntent where
  eventId : String
  sellerId : String
  eventType : String
  resource : String
  source : String
  claimIdentity : Doc
  jobIdentity : Option Doc

/-- `validate_history_work_receipt` without `touch`; nothing where it raises
`HistoryWorkWaitError`. -/
def validateHistoryWorkReceipt (store : WorkStore) (receipt : Doc) (now : Int) :
    Option HistoryWorkIntent := do
  let eventId ← textField receipt "event_id"
  let seller ← textField receipt "seller_id"
  let eventType ← textField receipt "event_type"
  let resource ← textField receipt "resource"
  let source ← textField receipt "source"
  let path ← textField receipt "path"
  guard (isSeller seller)
  guard (receipt.get? "phase" = some (.string "maintenance"))
  guard (matchesPath source path)
  guard (source ≠ "messages" ∨ ("/sellers/" ++ seller).toList.isSuffixOf path.toList)
  let identity ← (receipt.get? "claim_identity").bind Value.document?
  guard (identity.get? "module_id" = some (.string "sheets") ∧
    identity.get? "consumer_id" = some (.string consumer))
  guard (isToken (identity.get? "owner_token"))
  let owner ← textField identity "owner_token"
  let job ← jobIdentity receipt
  let event ← store.events.find? fun event => eqMatches (event.get? "_id") (.string eventId)
  guard (event.get? "_id" = some (.string eventId))
  guard (texts.pyStr (event.getD "user_id") = seller)
  guard (normalizeHistoryEvent event = some (eventType, resource, source))
  let topic ← textField event "topic"
  let key := processingKey topic resource eventId job
  guard (identity.get? "processing_key" = some (.string key))
  guard (liveClaim store key owner now)
  guard (job.all fun job => liveJob texts store job seller now event)
  return {
    eventId
    sellerId := seller
    eventType
    resource
    source
    claimIdentity := identity
    jobIdentity := job }

end

/-! ### The names of the gateway -/

/-- The resource is a path that its topic is about. -/
def Canonical (topic resource : String) : Prop :=
  topic = "post_purchase" ∨
    ∃ named, topics.lookup topic = some named ∧ matchesPath named.2 resource = true

section

variable {texts : EnvelopeTexts} {row : Doc} {traceId : Option String} {envelope : Envelope}
variable {event : ClassifiedWebhookEvent} {topic resource key : String} {value : Value}

/-- An envelope carries the names of the classification. -/
theorem of_buildEventEnvelope (h : buildEventEnvelope texts row traceId = .ok envelope) :
    ∃ event, classifyWebhookEvent texts row = .ok event ∧ envelope.eventType = event.eventType ∧
      envelope.resource = event.resource := by
  rw [buildEventEnvelope] at h
  obtain ⟨event, hevent, h⟩ := Fallible.bind_ok h
  obtain ⟨eventId, -, h⟩ := Fallible.bind_ok h
  obtain ⟨occurredAt, -, h⟩ := Fallible.bind_ok h
  obtain ⟨sellerId, -, h⟩ := Fallible.bind_ok h
  rw [← Fallible.pure_ok h]
  exact ⟨event, hevent, rfl, rfl⟩

/-- What a classified event is made of. -/
theorem of_classifyWebhookEvent (h : classifyWebhookEvent texts row = .ok event) :
    ∃ notificationId, webhookEventId texts row = .ok notificationId ∧
      event.idempotencyKey =
        strField texts row "topic" ++ ":" ++ event.resource ++ ":" ++ notificationId ∧
      (strField texts row "topic" = "post_purchase" ∧
          normalizePostPurchaseClaimEvent texts row = .ok event.resource ∧
          event.eventType = "claims.updated" ∨
        strField texts row "topic" ≠ "post_purchase" ∧
          event.resource = strField texts row "resource" ∧
          topicRoutingKeys.lookup (strField texts row "topic") = some event.eventType) := by
  rw [classifyWebhookEvent] at h
  obtain ⟨resource, hresource, h⟩ := Fallible.bind_ok h
  rw [normalizedResource] at hresource
  by_cases hclaims : strField texts row "topic" = "post_purchase"
  · rw [if_pos hclaims] at hresource
    simp only [if_pos hclaims] at h
    obtain ⟨notificationId, hid, h⟩ := Fallible.bind_ok h
    rw [← Fallible.pure_ok h]
    exact ⟨notificationId, hid, rfl, .inl ⟨hclaims, hresource, rfl⟩⟩
  · rw [if_neg hclaims] at hresource
    simp only [if_neg hclaims] at h
    cases hkey : topicRoutingKeys.lookup (strField texts row "topic") with
    | none =>
        rw [hkey] at h
        exact (Fallible.throw_ok h).elim
    | some key =>
        rw [hkey] at h
        obtain ⟨notificationId, hid, h⟩ := Fallible.bind_ok h
        rw [← Fallible.pure_ok h]
        exact ⟨notificationId, hid, rfl, .inr ⟨hclaims, (Except.ok.inj hresource).symm, rfl⟩⟩

/-- The texts of the values that are false. -/
def falsyTexts : List String := ["None", "False", "0", "-0.0", "0.0", "", "[]", "{}"]

theorem pyStr_mem_falsyTexts (texts : EnvelopeTexts) (h : value.truthy = false) :
    texts.pyStr value ∈ falsyTexts := by
  cases value with
  | null => exact show "None" ∈ falsyTexts by decide
  | bool b =>
      obtain rfl : b = false := h
      exact show "False" ∈ falsyTexts by decide
  | int n | long n =>
      obtain rfl : n = 0 := by simpa [truthy] using h
      exact show "0" ∈ falsyTexts by decide
  | double bits =>
      have hzero : ofBits bits = .fin 0 := by simpa [truthy] using h
      rw [EnvelopeTexts.pyStr, if_pos hzero]
      split
      · decide
      · decide
  | string s =>
      obtain rfl : s = "" := by simpa [truthy] using h
      exact show "" ∈ falsyTexts by decide
  | array xs =>
      obtain rfl : xs = [] := by simpa [truthy] using h
      exact show "[]" ∈ falsyTexts by decide
  | document fields =>
      obtain rfl : fields = [] := by simpa [truthy] using h
      exact show "{}" ∈ falsyTexts by decide
  | date us => cases h
  | other rank text => cases h

/-- A topic that is false is not the text of any topic. -/
theorem pyStr_of_falsy (texts : EnvelopeTexts) (h : value.truthy = false) :
    texts.pyStr value ≠ "post_purchase" ∧ topicRoutingKeys.lookup (texts.pyStr value) = none := by
  have hall : ∀ text ∈ falsyTexts,
      text ≠ "post_purchase" ∧ topicRoutingKeys.lookup text = none := by decide
  exact hall _ (pyStr_mem_falsyTexts texts h)

/-- Both services read the claims of a post-purchase event alike. -/
theorem namedEvent_post_purchase (texts : EnvelopeTexts)
    (hresource : row.get? "resource" = some (.string resource)) :
    namedEvent row (some (.string "post_purchase")) resource =
      match normalizePostPurchaseClaimEvent texts row with
      | .ok claim => some ("claims.updated", claim, "claims_returns")
      | .error _ => none := by
  have htext : strField texts row "resource" = resource := by
    rw [strField, hresource]
    rfl
  rw [normalizePostPurchaseClaimEvent, htext]
  have hactions : documentActions row = eventActions row := rfl
  simp only [namedEvent, hactions]
  by_cases hroot : (fullmatch claimResource resource.toList).isSome ∧
      (eventActions row).pyEq (.array [.string "claims"])
  · rw [if_pos hroot]
    exact if_pos hroot
  · rw [if_neg hroot]
    refine (if_neg hroot).trans ?_
    change (match fullmatch claimActionsResource resource.toList with
      | some [claimId] => _
      | _ => _) = _
    generalize fullmatch claimActionsResource resource.toList = history
    rcases history with - | - | ⟨claimId, - | ⟨second, rest⟩⟩
    · rfl
    · rfl
    · by_cases hhistory : (eventActions row).pyEq (.array [.string "claims_actions"])
      · simp only [if_pos hhistory]
      · simp only [if_neg hhistory]
    · rfl

/-- A topic that both tables have gets one name from them. -/
theorem lookup_topics {named : String × String} (h : topics.lookup topic = some named)
    (hkey : topicRoutingKeys.lookup topic = some key) : named.1 = key := by
  have hall : ∀ pair ∈ topics, (topicRoutingKeys.lookup pair.1).all (· == pair.2.1) = true := by
    decide
  obtain ⟨before, after, hsplit, -⟩ := List.lookup_eq_some_iff.mp h
  have hmem : (topic, named) ∈ topics := by
    rw [hsplit]
    exact List.mem_append_right _ List.mem_cons_self
  have hsame := hall _ hmem
  rw [hkey] at hsame
  exact (beq_iff_eq.mp hsame).symm

theorem namedEvent_topic (h : topic ≠ "post_purchase") :
    namedEvent row (some (.string topic)) resource =
      match topics.lookup topic with
      | some (eventType, source) =>
          if matchesPath source resource then some (eventType, resource, source) else none
      | none => none := by
  simp [namedEvent, h]

/-- A classified event has a topic that is true. -/
theorem truthy_topic (h : classifyWebhookEvent texts row = .ok event) :
    ∃ value, row.get? "topic" = some value ∧ value.truthy = true := by
  obtain ⟨notificationId, -, -, hcases⟩ := of_classifyWebhookEvent h
  have hknown : ¬ (strField texts row "topic" ≠ "post_purchase" ∧
      topicRoutingKeys.lookup (strField texts row "topic") = none) := by
    rintro ⟨hother, hnone⟩
    rcases hcases with ⟨htopic, -⟩ | ⟨-, -, hkey⟩
    · exact hother htopic
    · rw [hnone] at hkey
      cases hkey
  cases htopic : row.get? "topic" with
  | none =>
      rw [strField, htopic] at hknown
      exact absurd (show "" ≠ "post_purchase" ∧ topicRoutingKeys.lookup "" = none by decide) hknown
  | some value =>
      rw [strField, htopic] at hknown
      cases htruthy : value.truthy with
      | false => exact absurd (pyStr_of_falsy texts htruthy) hknown
      | true => exact ⟨value, rfl, htruthy⟩

/-- The topic and the resource of an event that both services know are texts. -/
theorem texts_of_named {named : Normalized} (h : classifyWebhookEvent texts row = .ok event)
    (hnamed : normalizeHistoryEvent row = some named) :
    ∃ topic resource, row.get? "topic" = some (.string topic) ∧ topic ≠ "" ∧
      row.get? "resource" = some (.string resource) ∧
      namedEvent row (some (.string topic)) resource = some named := by
  obtain ⟨value, htopic, htruthy⟩ := truthy_topic h
  have horGet : orGet row "topic" (row.get? "classification") = some value := by
    rw [orGet, htopic]
    exact if_pos htruthy
  rw [normalizeHistoryEvent, horGet] at hnamed
  cases hresource : row.get? "resource" with
  | none =>
      rw [hresource] at hnamed
      cases hnamed
  | some text =>
      rw [hresource] at hnamed
      cases text with
      | string resource =>
          obtain ⟨hnamed, -⟩ := Option.filter_eq_some_iff.mp hnamed
          cases value with
          | string topic =>
              refine ⟨topic, resource, htopic, ?_, rfl, hnamed⟩
              rintro rfl
              cases htruthy
          | _ => cases hnamed
      | _ => cases hnamed

/-- The classification of an event whose topic and resource are texts. -/
theorem named_of_classified (htopic : row.get? "topic" = some (.string topic))
    (hresource : row.get? "resource" = some (.string resource))
    (h : classifyWebhookEvent texts row = .ok event) {named : Normalized}
    (hnamed : namedEvent row (some (.string topic)) resource = some named) :
    event.eventType = named.1 ∧ event.resource = named.2.1 := by
  obtain ⟨notificationId, -, -, hcases⟩ := of_classifyWebhookEvent h
  have htext : strField texts row "topic" = topic := by
    rw [strField, htopic]
    rfl
  have hresourceText : strField texts row "resource" = resource := by
    rw [strField, hresource]
    rfl
  rw [htext, hresourceText] at hcases
  rcases hcases with ⟨rfl, hclaim, htype⟩ | ⟨hother, hsame, hkey⟩
  · rw [namedEvent_post_purchase texts hresource, hclaim] at hnamed
    obtain rfl := Option.some.inj hnamed
    exact ⟨htype, rfl⟩
  · rw [namedEvent_topic hother] at hnamed
    cases hlookup : topics.lookup topic with
    | none =>
        rw [hlookup] at hnamed
        cases hnamed
    | some pair =>
        obtain ⟨eventType, source⟩ := pair
        rw [hlookup] at hnamed
        simp only [Option.ite_none_right_eq_some, Option.some.injEq] at hnamed
        obtain ⟨-, rfl⟩ := hnamed
        exact ⟨(lookup_topics hlookup hkey).symm, hsame⟩

/-- An event of a source of history is named where its resource is canonical. -/
theorem namedEvent_canonical (htopic : row.get? "topic" = some (.string topic))
    (hresource : row.get? "resource" = some (.string resource))
    (h : classifyWebhookEvent texts row = .ok event) (canonical : Canonical topic resource) :
    ∃ named, namedEvent row (some (.string topic)) resource = some named := by
  obtain ⟨notificationId, -, -, hcases⟩ := of_classifyWebhookEvent h
  have htext : strField texts row "topic" = topic := by
    rw [strField, htopic]
    rfl
  rw [htext] at hcases
  rcases hcases with ⟨rfl, hclaim, -⟩ | ⟨hother, -, -⟩
  · rw [namedEvent_post_purchase texts hresource, hclaim]
    exact ⟨_, rfl⟩
  · rcases canonical with rfl | ⟨⟨eventType, source⟩, hlookup, hpath⟩
    · exact absurd rfl hother
    · rw [namedEvent_topic hother, hlookup]
      exact ⟨_, if_pos hpath⟩

/-- The classification is missing, or it is the topic or the event type. -/
def Named (row : Doc) (topic eventType : String) : Prop :=
  row.getD "classification" = .null ∨ row.getD "classification" = .string topic ∨
    row.getD "classification" = .string eventType

theorem pyEq_string {text : String} : value.pyEq (.string text) = true ↔ value = .string text := by
  cases value with
  | string s =>
      have hpy : (string s).pyEq (string text) = (s == text) := rfl
      rw [hpy, beq_iff_eq, string.injEq]
  | _ => exact iff_of_false (fun h => by cases h) fun h => by cases h

theorem classified_iff {eventType : String} :
    classified row (some (.string topic)) eventType = true ↔ Named row topic eventType := by
  rw [classified, Bool.or_eq_true, Bool.or_eq_true, beq_iff_eq, Option.any_some, pyEq_string,
    pyEq_string, or_assoc]
  rfl

theorem of_guard {p : Prop} [Decidable p] {α : Type} {f : Unit → Option α} {result : α}
    (h : (guard p >>= f) = some result) : p ∧ f () = some result := by
  by_cases hp : p
  · rw [guard, if_pos hp] at h
    exact ⟨hp, h⟩
  · rw [guard, if_neg hp] at h
    cases h

/-- What an accepted receipt says of its event and of its key. -/
theorem of_validateHistoryWorkReceipt {store : WorkStore} {receipt : Doc} {now : Int}
    {intent : HistoryWorkIntent}
    (h : validateHistoryWorkReceipt texts store receipt now = some intent) :
    ∃ event topic,
      (store.events.find? fun event =>
        eqMatches (event.get? "_id") (.string intent.eventId)) = some event ∧
      event.get? "_id" = some (.string intent.eventId) ∧ intent.eventId ≠ "" ∧
      normalizeHistoryEvent event = some (intent.eventType, intent.resource, intent.source) ∧
      textField event "topic" = some topic ∧
      intent.claimIdentity.get? "processing_key" =
        some (.string (processingKey topic intent.resource intent.eventId intent.jobIdentity)) := by
  rw [validateHistoryWorkReceipt] at h
  obtain ⟨eventId, heventId, h⟩ := Option.bind_eq_some_iff.mp h
  obtain ⟨seller, -, h⟩ := Option.bind_eq_some_iff.mp h
  obtain ⟨eventType, -, h⟩ := Option.bind_eq_some_iff.mp h
  obtain ⟨resource, -, h⟩ := Option.bind_eq_some_iff.mp h
  obtain ⟨source, -, h⟩ := Option.bind_eq_some_iff.mp h
  obtain ⟨path, -, h⟩ := Option.bind_eq_some_iff.mp h
  obtain ⟨-, h⟩ := of_guard h
  obtain ⟨-, h⟩ := of_guard h
  obtain ⟨-, h⟩ := of_guard h
  obtain ⟨-, h⟩ := of_guard h
  obtain ⟨identity, -, h⟩ := Option.bind_eq_some_iff.mp h
  obtain ⟨-, h⟩ := of_guard h
  obtain ⟨-, h⟩ := of_guard h
  obtain ⟨owner, -, h⟩ := Option.bind_eq_some_iff.mp h
  obtain ⟨job, -, h⟩ := Option.bind_eq_some_iff.mp h
  obtain ⟨event, hevent, h⟩ := Option.bind_eq_some_iff.mp h
  obtain ⟨hid, h⟩ := of_guard h
  obtain ⟨-, h⟩ := of_guard h
  obtain ⟨hnamed, h⟩ := of_guard h
  obtain ⟨topic, htopic, h⟩ := Option.bind_eq_some_iff.mp h
  obtain ⟨hkey, h⟩ := of_guard h
  obtain ⟨-, h⟩ := of_guard h
  obtain ⟨-, h⟩ := of_guard h
  obtain rfl := Option.some.inj h
  have hne : eventId ≠ "" := by
    rintro rfl
    obtain ⟨-, hempty⟩ := Option.filter_eq_some_iff.mp heventId
    cases hempty
  exact ⟨event, topic, hevent, hid, hne, hnamed, htopic, hkey⟩

/-- The key of the gateway is the key that a receipt needs outside a job. -/
theorem processingKey_eq {eventId eventType source : String}
    (htopic : row.get? "topic" = some (.string topic))
    (hid : row.get? "_id" = some (.string eventId)) (hne : eventId ≠ "")
    (h : classifyWebhookEvent texts row = .ok event)
    (hnamed : normalizeHistoryEvent row = some (eventType, resource, source)) :
    processingKey topic resource eventId none = event.idempotencyKey := by
  obtain ⟨notificationId, hnotification, hkey, -⟩ := of_classifyWebhookEvent h
  obtain ⟨topic', text, htopic', -, hresource, hevent⟩ := texts_of_named h hnamed
  have heventId : notificationId = eventId := by
    have htruthy : (Value.string eventId).truthy = true := by
      simpa [truthy] using hne
    rw [webhookEventId, orGet, hid] at hnotification
    simp only [htruthy, if_true] at hnotification
    exact (Except.ok.inj hnotification).symm
  have htext : strField texts row "topic" = topic := by
    rw [strField, htopic]
    rfl
  rw [hkey, htext, heventId, (named_of_classified htopic' hresource h hevent).2]
  rfl

/-- Both services give an event they know the same names, and an event on a canonical resource that
the gateway publishes is known unless its classification is another one. -/
theorem same_names (texts : EnvelopeTexts) (row : Doc) (traceId : Option String)
    (envelope : Envelope) (h : buildEventEnvelope texts row traceId = .ok envelope) :
    ∃ event, classifyWebhookEvent texts row = .ok event ∧
      (∀ eventType resource source,
        normalizeHistoryEvent row = some (eventType, resource, source) →
          envelope.eventType = eventType ∧ event.eventType = eventType ∧
          envelope.resource = resource ∧ event.resource = resource ∧
          (∀ topic eventId, row.get? "topic" = some (.string topic) →
            row.get? "_id" = some (.string eventId) → eventId ≠ "" →
              processingKey topic resource eventId none = event.idempotencyKey) ∧
          ∀ store receipt now intent,
            validateHistoryWorkReceipt texts store receipt now = some intent →
            (store.events.find? fun event =>
              eqMatches (event.get? "_id") (.string intent.eventId)) = some row →
            intent.jobIdentity = none →
              intent.claimIdentity.get? "processing_key" = some (.string event.idempotencyKey)) ∧
      ∀ topic resource, row.get? "topic" = some (.string topic) →
        row.get? "resource" = some (.string resource) → Canonical topic resource →
          ((normalizeHistoryEvent row).isSome ↔ Named row topic envelope.eventType) := by
  obtain ⟨event, hevent, htype, hresource⟩ := of_buildEventEnvelope h
  refine ⟨event, hevent, ?_, ?_⟩
  · intro eventType resource source hnamed
    obtain ⟨topic, text, htopic, -, htext, hnamedEvent⟩ := texts_of_named hevent hnamed
    obtain ⟨hsameType, hsameResource⟩ := named_of_classified htopic htext hevent hnamedEvent
    refine ⟨htype.trans hsameType, hsameType, hresource.trans hsameResource, hsameResource,
      fun topic eventId htopic hid hne => processingKey_eq htopic hid hne hevent hnamed, ?_⟩
    intro store receipt now intent hvalid hrow hjob
    obtain ⟨found, foundTopic, hfound, hid, hne, hintent, hfoundTopic, hkey⟩ :=
      of_validateHistoryWorkReceipt hvalid
    obtain rfl : row = found := Option.some.inj (hrow.symm.trans hfound)
    obtain rfl : topic = foundTopic := by
      rw [textField, htopic] at hfoundTopic
      exact (Option.filter_eq_some_iff.mp hfoundTopic).1 |> Option.some.inj
    rw [hkey, hjob, processingKey_eq htopic hid hne hevent hintent]
  · intro topic resource htopic hresourceText canonical
    obtain ⟨value, hvalue, htruthy⟩ := truthy_topic hevent
    obtain rfl : Value.string topic = value := Option.some.inj (htopic.symm.trans hvalue)
    have horGet : orGet row "topic" (row.get? "classification") = some (.string topic) := by
      rw [orGet, htopic]
      exact if_pos htruthy
    obtain ⟨named, hnamed⟩ := namedEvent_canonical htopic hresourceText hevent canonical
    rw [normalizeHistoryEvent, horGet, hresourceText, htype,
      (named_of_classified htopic hresourceText hevent hnamed).1, ← classified_iff]
    simp only [hnamed]
    cases hclass : classified row (some (.string topic)) named.1 with
    | true => simp [hclass]
    | false => simp [hclass]

end

/-- Texts of plain values. -/
def plainTexts : EnvelopeTexts where
  str _ := ""
  occurredAt _ := .ok "2026-01-01T00:00:00Z"

/-- A webhook of an order. -/
def orderRow (classification : Value) : Doc :=
  [("_id", .string "event-1"), ("topic", .string "orders_v2"), ("user_id", .int 82),
    ("resource", .string "/orders/42"), ("classification", classification)]

def orderEnvelope : Envelope where
  eventId := "event-1"
  eventType := "orders.updated"
  occurredAt := "2026-01-01T00:00:00Z"
  sellerId := 82
  resource := "/orders/42"
  traceId := ""
  schemaVersion := 1

theorem same_names_order :
    ∃ event, classifyWebhookEvent plainTexts (orderRow .null) = .ok event ∧
      (∀ eventType resource source,
        normalizeHistoryEvent (orderRow .null) = some (eventType, resource, source) →
          orderEnvelope.eventType = eventType ∧ event.eventType = eventType ∧
          orderEnvelope.resource = resource ∧ event.resource = resource ∧
          (∀ topic eventId, (orderRow .null).get? "topic" = some (.string topic) →
            (orderRow .null).get? "_id" = some (.string eventId) → eventId ≠ "" →
              processingKey topic resource eventId none = event.idempotencyKey) ∧
          ∀ store receipt now intent,
            validateHistoryWorkReceipt plainTexts store receipt now = some intent →
            (store.events.find? fun event =>
              eqMatches (event.get? "_id") (.string intent.eventId)) = some (orderRow .null) →
            intent.jobIdentity = none →
              intent.claimIdentity.get? "processing_key" = some (.string event.idempotencyKey)) ∧
      ∀ topic resource, (orderRow .null).get? "topic" = some (.string topic) →
        (orderRow .null).get? "resource" = some (.string resource) → Canonical topic resource →
          ((normalizeHistoryEvent (orderRow .null)).isSome ↔
            Named (orderRow .null) topic orderEnvelope.eventType) :=
  same_names plainTexts (orderRow .null) none orderEnvelope rfl

/-- The gateway publishes an order whose classification is another event type. -/
theorem published_unknown :
    buildEventEnvelope plainTexts (orderRow (.string "questions.new")) none = .ok orderEnvelope ∧
      Canonical "orders_v2" "/orders/42" ∧
      normalizeHistoryEvent (orderRow (.string "questions.new")) = none :=
  ⟨rfl, .inr ⟨_, rfl, by decide +kernel⟩, by decide +kernel⟩

end ZelerPlatform.History.Receipts
