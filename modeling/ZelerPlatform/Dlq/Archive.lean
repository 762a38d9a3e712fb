import ZelerPlatform.Imports.Segments
import ZelerPlatform.Library.Dict
import ZelerPlatform.Recovery.Job

/-!
# What is archived from the dead-letter queue

A message of the queue is archived if its resource was read again clearly after the event, if a
reconciled marker covers the event, or if it is too old; it is retained otherwise. The record
that is kept of it holds hashed references only. Instants are in microseconds.
-/

namespace ZelerPlatform.Dlq

open Fallible Mongo
open Imports (ImportError Texts datetimeMax maybeDatetime orElse pyStr)
open Recovery (civil padded)

/-- `RETENTION`. -/
def retentionBound : Int := 30 * 86400000000

/-- `REREAD_MARGIN`. -/
def rereadMargin : Int := 15 * 60000000

inductive Reason
  | resourceReread
  | windowReconciled
  | ageExceeded
  | retained
  deriving DecidableEq, Repr

structure ArchiveDecision where
  archive : Bool
  reasonCode : Reason
  deriving DecidableEq, Repr

/-- A collection of documents by name. -/
abbrev Documents := String → List Doc

section

variable (texts : Texts)

/-- `str(value or "").strip()`. -/
def strippedOf (value : Value) : String := pyStrip (pyStr texts (orElse [value, .string ""]))

/-- `_event_type`. -/
def eventType (message : Doc) : String :=
  pyStrip (pyStr texts (orElse [Doc.getD message "event_type", Doc.getD message "event",
    .string ""]))

/-- The text up to the first dot. -/
def beforeDot (text : String) : String := .ofList (text.toList.takeWhile (· ≠ '.'))

/-- `_parse_timestamp`. -/
def parseTimestamp : Value → Except ImportError (Option Int) := maybeDatetime texts

/-! ### The last read of a resource -/

/-- Where the platform stamps its last read of a resource. The field is that of the document, or
of each element of an array in it; `latest` sorts by it, last first. -/
structure RereadTarget where
  collection : String
  key : String
  identity : String
  sellerId : String
  field : String × Option String
  latest : Bool
  deriving DecidableEq, Repr

/-- What follows `lead` in a text. -/
def following (lead : String) (text : List Char) : Option (List Char) :=
  if lead.toList.isPrefixOf text then some (text.drop lead.length) else none

/-- Digits and what follows them. -/
def digits (text : List Char) : Option (List Char × List Char) :=
  match text.span Char.isDigit with
  | ([], _) => none
  | found => some found

/-- `ML[A-Z][0-9]+` and what follows it. -/
def itemId (text : List Char) : Option (List Char × List Char) :=
  match text with
  | 'M' :: 'L' :: site :: rest =>
      if site.isUpper then (digits rest).map fun (number, tail) => ('M' :: 'L' :: site :: number, tail)
      else none
  | _ => none

/-- The identity in a resource with one of the tails. -/
def identityOf (lead : String) (identity : List Char → Option (List Char × List Char))
    (tails : List String) (resource : String) : Option String := do
  let rest ← following lead resource.toList
  let (found, tail) ← identity rest
  if String.ofList tail ∈ tails then return .ofList found else none

/-- `_REREAD_SOURCES`: the identity in a resource, the collection and the field. -/
def rereadSource (kind resource : String) : Option (String × String × String × Option String) :=
  if kind = "items" then
    (identityOf "/items/" itemId ["", "/prices"] resource).map
      (·, "items", "last_meli_sync_at", none)
  else if kind = "shipments" then
    (identityOf "/shipments/" digits [""] resource).map
      (·, "shipments", "formula_observed_at", none)
  else if kind = "orders" then
    (identityOf "/orders/" digits [""] resource).map
      (·, "orders", "items", some "sale_fee_synced_at")
  else if kind = "catalog_item_competition_status" then
    (identityOf "/items/" itemId ["/price_to_win", "/price_to_win?version=v2"] resource).map
      (·, "sheets_catalog_competition_observations", "observed_at", none)
  else none

/-- `reread_target`. -/
def rereadTarget (message : Doc) : Option RereadTarget := do
  let sellerId := strippedOf texts (Doc.getD message "seller_id")
  let .string resource := Doc.getD message "resource" | none
  let (identity, collection, field) ← rereadSource (beforeDot (eventType texts message)) resource
  if sellerId ≠ "" ∧ sellerId.toList.all Char.isDigit then
    if collection = "sheets_catalog_competition_observations" then
      return ⟨collection, "item_id", identity, sellerId, field, true⟩
    else return ⟨collection, "_id", identity, sellerId, field, false⟩
  else none

/-- The stamps at the field of a target. -/
def RereadTarget.stamps (target : RereadTarget) (document : Doc) : List Int :=
  let values := match target.field with
    | (head, none) => [Doc.getD document head]
    | (head, some rest) =>
        match Doc.getD document head with
        | .array lines => lines.filterMap fun line => (Value.document? line).map fun line => Doc.getD line rest
        | _ => []
  values.filterMap fun
    | Value.date us => some us
    | _ => none

/-- `reread_at_from_document`. -/
def rereadAtFromDocument (target : RereadTarget) (document : Option Doc) : Option Int :=
  document.bind fun document => (target.stamps document).max?

/-- The filter of a target. -/
def RereadTarget.matching (target : RereadTarget) (document : Doc) : Bool :=
  eqMatches (document.get? target.key) (.string target.identity)
    && eqMatches (document.get? "seller_id") (.string target.sellerId)

/-- The later one of two documents, the first one if neither is later. -/
def RereadTarget.later (target : RereadTarget) (best : Option Doc) (document : Doc) : Option Doc :=
  match best with
  | none => some document
  | some best =>
      if (Doc.getD best target.field.1).compare (Doc.getD document target.field.1) = .lt then
        some document
      else some best

/-- `find_one` of a target. -/
def RereadTarget.findOne (target : RereadTarget) (db : Documents) : Option Doc :=
  let found := (db target.collection).filter target.matching
  if target.latest then found.foldl target.later none else found.head?

/-- `mongo_reread_lookup`, for the sellers of a run. -/
def mongoRereadLookup (sellers : List String) (db : Documents) (message : Doc) : Option Int := do
  let target ← rereadTarget texts message
  if target.sellerId ∈ sellers.map pyStrip then
    rereadAtFromDocument target (target.findOne db)
  else none

/-! ### Reconciled markers -/

structure CoverageKey where
  sellerId : String
  model : String
  deriving DecidableEq, Repr

/-- The seller, the model and the edge of a marker that claims a reconciled window. -/
def reconciledEdge (row : Doc) : Except ImportError (Option (CoverageKey × Int)) := do
  let sellerId := strippedOf texts (Doc.getD row "seller_id")
  let model := strippedOf texts (Doc.getD row "read_model")
  if sellerId = "" ∨ model = "" then return none
  if texts.casefold (strippedOf texts (Doc.getD row "state")) ≠ "reconciled" then return none
  if strippedOf texts (Doc.getD row "coverage_basis") = "observed_only" then return none
  let edge ← maybeDatetime texts (Doc.getD row "reconciled_until")
  return edge.map (⟨sellerId, model⟩, ·)

/-- The latest edges by seller and model. -/
abbrev Coverage := List (CoverageKey × Int)

/-- A later edge takes the place of an earlier one. -/
def Coverage.extend (coverage : Coverage) (key : CoverageKey) (edge : Int) : Coverage :=
  match coverage.lookup key with
  | some current => if current < edge then Dict.set coverage key edge else coverage
  | none => Dict.set coverage key edge

/-- `_reconciled_coverages`, after the rows of a coverage. -/
def reconciledCoverages (coverage : Coverage) : List Doc → Except ImportError Coverage
  | [] => pure coverage
  | row :: rest => do
      match ← reconciledEdge texts row with
      | none => reconciledCoverages coverage rest
      | some (key, edge) => reconciledCoverages (coverage.extend key edge) rest

/-- `load_reconciled_coverages`. -/
def loadReconciledCoverages (sellers : List String) (db : Documents) : Except ImportError Coverage :=
  reconciledCoverages texts [] ((db "sheets_read_model_freshness").filter fun row =>
    sellers.any fun seller => eqMatches (row.get? "seller_id") (.string seller))

/-- `MODEL_FOR_EVENT_PREFIX`. -/
def modelForEventPrefix (kind : String) : Option String :=
  if kind = "questions" then some "questions" else none

/-! ### The decision -/

/-- A read at this instant proves that the change of an event was seen. -/
def rereadProves (occurredAt rereadAt : Option Int) (now : Int) : Except ImportError Bool :=
  match occurredAt, rereadAt with
  | some occurredAt, some rereadAt =>
      if datetimeMax < occurredAt + rereadMargin then throw .overflow
      else pure (decide (occurredAt + rereadMargin ≤ rereadAt ∧ rereadAt ≤ now))
  | _, _ => pure false

/-- An edge covers an event. -/
def covers : Option Int → Option Int → Bool
  | some occurredAt, some edge => decide (occurredAt ≤ edge)
  | _, _ => false

/-- An event is older than the bound. -/
def older (retention now : Int) : Option Int → Bool
  | some occurredAt => decide (retention < now - occurredAt)
  | none => false

/-- `decide_archive`. -/
def decideArchive (message : Doc) (coverage : Coverage) (now retention : Int)
    (rereadAt : Option Int) : Except ImportError ArchiveDecision := do
  let occurredAt ← parseTimestamp texts (Doc.getD message "occurred_at")
  let reread ← rereadProves occurredAt rereadAt now
  if reread then return ⟨true, .resourceReread⟩
  let sellerId := strippedOf texts (Doc.getD message "seller_id")
  let coveredUntil := (modelForEventPrefix (beforeDot (eventType texts message))).bind fun model =>
    coverage.lookup ⟨sellerId, model⟩
  if covers occurredAt coveredUntil then return ⟨true, .windowReconciled⟩
  if older retention now occurredAt then return ⟨true, .ageExceeded⟩
  return ⟨false, .retained⟩

/-! ### The record -/

/-- A document of `sheets_dlq_archives`. -/
structure ArchiveRecord where
  eventType : String
  sellerRef : Option String
  resourceRef : Option String
  messageFingerprint : Option String
  occurredAt : Option String
  reasonCode : Reason
  archivedAt : String
  deriving DecidableEq, Repr

/-- `datetime.isoformat` of a UTC datetime. -/
def isoformat (t : Int) : String :=
  let (year, month, day) := civil (t / 86400000000)
  let rest := t % 86400000000
  let fraction := if rest % 1000000 = 0 then "" else "." ++ padded 6 (rest % 1000000)
  padded 4 year ++ "-" ++ padded 2 month ++ "-" ++ padded 2 day ++ "T"
    ++ padded 2 (rest / 3600000000) ++ ":" ++ padded 2 (rest / 60000000 % 60) ++ ":"
    ++ padded 2 (rest / 1000000 % 60) ++ fraction ++ "+00:00"

variable (sha256 : String → String)

/-- `_hash_ref`. -/
def hashRef (kind : String) (value : Value) : Option String :=
  if value = .null ∨ pyStrip (pyStr texts value) = "" then none
  else some ("sha256:" ++ kind ++ ":" ++ sha256 (pyStr texts value))

/-- `build_archive_record`. -/
def buildArchiveRecord (message : Doc) (decision : ArchiveDecision) (now : Int) :
    Except ImportError ArchiveRecord := do
  let occurredAt ← parseTimestamp texts (Doc.getD message "occurred_at")
  return {
    eventType := pyStr texts (orElse [Doc.getD message "event_type", Doc.getD message "event",
      .string ""])
    sellerRef := hashRef texts sha256 "seller" (Doc.getD message "seller_id")
    resourceRef := hashRef texts sha256 "resource" (Doc.getD message "resource")
    messageFingerprint := hashRef texts sha256 "message" (orElse
      [Doc.getD message "idempotency_key", Doc.getD message "event_id", Doc.getD message "resource"])
    occurredAt := occurredAt.map isoformat
    reasonCode := decision.reasonCode
    archivedAt := isoformat now }

end

/-! ### What authorizes a removal -/

/-- The evidence for the reason of a decision: a stored read of the resource of a seller of the
run, a reconciled marker of one, or the age of the message. -/
inductive Authorized (texts : Texts) (sellers : List String) (markers db : Documents)
    (message : Doc) (now retention : Int) : Reason → Prop
  | reread {occurredAt stamp target document}
      (occurred : parseTimestamp texts (Doc.getD message "occurred_at") = .ok (some occurredAt))
      (source : rereadTarget texts message = some target)
      (seller : target.sellerId ∈ sellers.map pyStrip)
      (mem : document ∈ db target.collection) (matching : target.matching document = true)
      (stamped : stamp ∈ target.stamps document)
      (later : occurredAt + rereadMargin ≤ stamp) (past : stamp ≤ now) :
      Authorized texts sellers markers db message now retention .resourceReread
  | covered {occurredAt edge row seller model}
      (occurred : parseTimestamp texts (Doc.getD message "occurred_at") = .ok (some occurredAt))
      (kind : modelForEventPrefix (beforeDot (eventType texts message)) = some model)
      (mem : row ∈ markers "sheets_read_model_freshness") (named : seller ∈ sellers)
      (matching : eqMatches (row.get? "seller_id") (.string seller) = true)
      (marker : reconciledEdge texts row =
        .ok (some (⟨strippedOf texts (Doc.getD message "seller_id"), model⟩, edge)))
      (within : occurredAt ≤ edge) :
      Authorized texts sellers markers db message now retention .windowReconciled
  | old {occurredAt}
      (occurred : parseTimestamp texts (Doc.getD message "occurred_at") = .ok (some occurredAt))
      (age : retention < now - occurredAt) :
      Authorized texts sellers markers db message now retention .ageExceeded

section

variable {texts : Texts} {sellers : List String} {markers db : Documents} {message document : Doc}
variable {target : RereadTarget} {coverage : Coverage} {now retention stamp edge : Int}
variable {decision : ArchiveDecision} {rows : List Doc} {key : CoverageKey}

theorem mem_of_foldl_later {found : List Doc} {best : Option Doc}
    (h : found.foldl target.later best = some document) :
    document ∈ found ∨ best = some document := by
  induction found generalizing best with
  | nil => exact .inr h
  | cons other found ih =>
      obtain hmem | hlater := ih h
      · exact .inl (List.mem_cons_of_mem _ hmem)
      · unfold RereadTarget.later at hlater
        split at hlater
        · exact .inl (by simp [Option.some.inj hlater])
        · split at hlater
          · exact .inl (by simp [Option.some.inj hlater])
          · exact .inr hlater

theorem mem_of_findOne (h : target.findOne db = some document) :
    document ∈ db target.collection ∧ target.matching document = true := by
  unfold RereadTarget.findOne at h
  refine List.mem_filter.mp ?_
  dsimp only at h
  split at h
  · exact (mem_of_foldl_later h).resolve_right (by simp)
  · exact List.mem_of_mem_head? h

/-- A stamp that a lookup returns is that of a stored document. -/
theorem lookup_some (h : mongoRereadLookup texts sellers db message = some stamp) :
    ∃ target document, rereadTarget texts message = some target ∧
      target.sellerId ∈ sellers.map pyStrip ∧ document ∈ db target.collection ∧
      target.matching document = true ∧ stamp ∈ target.stamps document := by
  unfold mongoRereadLookup at h
  obtain ⟨target, htarget, hrest⟩ := Option.bind_eq_some_iff.mp h
  split at hrest
  · next hseller =>
      obtain ⟨document, hfind, hstamp⟩ := Option.bind_eq_some_iff.mp hrest
      obtain ⟨hmem, hmatching⟩ := mem_of_findOne hfind
      exact ⟨target, document, htarget, hseller, hmem, hmatching, List.max?_mem hstamp⟩
  · cases hrest

theorem lookup_extend {other : CoverageKey} {latest : Int}
    (h : (coverage.extend key edge).lookup other = some latest) :
    other = key ∧ latest = edge ∨ coverage.lookup other = some latest := by
  have hset (h : (Dict.set coverage key edge).lookup other = some latest) :
      other = key ∧ latest = edge ∨ coverage.lookup other = some latest := by
    rw [Dict.lookup_set] at h
    split at h
    · next hother => exact .inl ⟨hother, (Option.some.inj h).symm⟩
    · exact .inr h
  unfold Coverage.extend at h
  split at h
  · split at h
    · exact hset h
    · exact .inr h
  · exact hset h

/-- Every edge of a coverage is that of a marker. -/
theorem reconciledCoverages_mem {before : Coverage}
    (h : reconciledCoverages texts before rows = .ok coverage)
    (mem : coverage.lookup key = some edge) :
    (∃ row ∈ rows, reconciledEdge texts row = .ok (some (key, edge))) ∨
    before.lookup key = some edge := by
  induction rows generalizing before with
  | nil =>
      obtain rfl := pure_ok h
      exact .inr mem
  | cons row rows ih =>
      rw [reconciledCoverages] at h
      obtain ⟨found, hrow, hrest⟩ := bind_ok h
      cases found with
      | none =>
          obtain ⟨other, hother, hmarker⟩ | hbefore := ih hrest
          · exact .inl ⟨other, List.mem_cons_of_mem _ hother, hmarker⟩
          · exact .inr hbefore
      | some found =>
          obtain ⟨other, hother, hmarker⟩ | hbefore := ih hrest
          · exact .inl ⟨other, List.mem_cons_of_mem _ hother, hmarker⟩
          · obtain ⟨rfl, rfl⟩ | hold := lookup_extend hbefore
            · exact .inl ⟨row, List.mem_cons_self, hrow⟩
            · exact .inr hold

theorem covers_iff {occurredAt coveredUntil : Option Int} :
    covers occurredAt coveredUntil = true ↔
      ∃ occurred edge, occurredAt = some occurred ∧ coveredUntil = some edge ∧ occurred ≤ edge := by
  cases occurredAt with
  | none => simp [covers]
  | some occurred =>
      cases coveredUntil with
      | none => simp [covers]
      | some edge => simp [covers]

theorem older_iff {occurredAt : Option Int} : older retention now occurredAt = true ↔
    ∃ occurred, occurredAt = some occurred ∧ retention < now - occurred := by
  cases occurredAt with
  | none => simp [older]
  | some occurred => simp [older]

/-- A message is archived for a reason that the stores bear out. -/
theorem authorized_of_decide (markers_ok : loadReconciledCoverages texts sellers markers = .ok coverage)
    (h : decideArchive texts message coverage now retention
      (mongoRereadLookup texts sellers db message) = .ok decision)
    (archives : decision.archive = true) :
    Authorized texts sellers markers db message now retention decision.reasonCode := by
  unfold decideArchive at h
  obtain ⟨occurredAt, hoccurred, hreread⟩ := bind_ok h
  obtain ⟨reread, hcheck, hrest⟩ := bind_ok hreread
  cases reread with
  | true =>
      obtain rfl := pure_ok hrest
      unfold rereadProves at hcheck
      split at hcheck
      · next occurred stamp hstamp =>
          split at hcheck
          · cases hcheck
          · have hwithin := of_decide_eq_true (pure_ok hcheck)
            obtain ⟨target, document, htarget, hseller, hmem, hmatching, hstamps⟩ :=
              lookup_some hstamp
            exact .reread hoccurred htarget hseller hmem hmatching hstamps hwithin.1 hwithin.2
      · cases pure_ok hcheck
  | false =>
      dsimp only at hrest
      rw [if_neg Bool.false_ne_true] at hrest
      split at hrest
      · next hcovered =>
          obtain rfl := pure_ok hrest
          obtain ⟨occurred, edge, rfl, hedge, hwithin⟩ := covers_iff.mp hcovered
          obtain ⟨model, hmodel, hlookup⟩ := Option.bind_eq_some_iff.mp hedge
          obtain ⟨row, hrow, hmarker⟩ | hnone := reconciledCoverages_mem markers_ok hlookup
          · obtain ⟨mem, hnamed⟩ := List.mem_filter.mp hrow
            obtain ⟨seller, hseller, hmatching⟩ := List.any_eq_true.mp hnamed
            exact .covered hoccurred hmodel mem hseller hmatching hmarker hwithin
          · cases hnone
      · split at hrest
        · next hage =>
            obtain rfl := pure_ok hrest
            obtain ⟨occurred, rfl, hold⟩ := older_iff.mp hage
            exact .old hoccurred hold
        · obtain rfl := pure_ok hrest
          cases archives

end

end ZelerPlatform.Dlq
