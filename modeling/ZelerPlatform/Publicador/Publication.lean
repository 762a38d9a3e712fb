import ZelerPlatform.Library.Collection
import ZelerPlatform.Library.Program
import ZelerPlatform.Library.PyValue

/-!
# Drafts, batches and their publication

`process_batch` makes a draft of each queued item and `publish_batch` publishes the drafts of
the processed ones through `validate_and_publish_draft`. Each call to Mongo and each request to
the gateway is one atomic operation. The gateway answers the requests of a run in the order in
which they arrive, each as it likes.

The store also keeps what the marketplace has accepted, which call works on which draft and
which draft was made for which item. The last two are ghosts: nothing reads them. Times are
left out.
-/

namespace ZelerPlatform.Publicador

open Transition

/-- The exceptions of the module; `other` is one that is no `RuntimeError`, `ValueError` or
`LegacyBatchContractError`. -/
inductive PublicadorError
  | runtime (message : String)
  | value (message : String)
  | legacyBatchContract (message : String)
  | other (name : String)
  deriving DecidableEq, Repr

def duplicateKey : PublicadorError := .other "DuplicateKeyError"

structure FieldError where
  field : String
  message : String
  deriving DecidableEq, Repr

/-- A draft; `fields` are the ones no function here changes. -/
structure Draft where
  id : String
  sellerId : String
  accountId : String
  sku : String
  status : String
  processStatus : String
  meliItemId : PyValue
  permalink : PyValue
  meliResponse : PyValue
  errors : List FieldError
  assetIds : List String
  updatedBy : String
  fields : PyDict

structure Image where
  filename : String
  contentType : String
  width : PyValue
  height : PyValue
  hash : PyValue

structure BatchItem where
  id : String
  batchId : String
  sellerId : String
  accountId : String
  sku : String
  gtin : PyValue
  price : PyValue
  logisticsType : PyValue
  listingType : PyValue
  freeShipping : PyValue
  images : List Image
  draftId : Option String
  status : String
  processStatus : String
  publishStatus : String
  meliItemId : PyValue
  permalink : PyValue
  retryCount : Int
  errors : List String
  updatedBy : String

structure Counts where
  total : Nat
  queued : Nat
  blocked : Nat
  processed : Nat
  published : Nat
  failed : Nat

structure Batch where
  id : String
  sellerId : String
  accountId : String
  status : String
  processStatus : String
  publishStatus : String
  counts : Counts

structure Asset where
  id : String
  sellerId : String
  accountId : String
  ownerId : String
  sku : String
  storageUri : String
  image : Image
  meliPictureId : PyValue

/-- A POST of `/items` the marketplace has accepted: the draft it was for, the batch item whose
publication it was, and the id of the new item. -/
structure Posting where
  draft : String
  item : Option String
  meliItemId : PyValue

/-- The database, the gateway and the marketplace. -/
structure Store (ι : Type) where
  drafts : Collection Draft.id
  items : Collection BatchItem.id
  batches : Collection Batch.id
  assets : List Asset
  events : List String
  settings : String → String → Option PyDict
  gateway : Nat → Except PublicadorError PyValue
  requests : Nat
  ids : Nat → String
  idCount : Nat
  posts : List Posting
  owner : String → Option ι
  created : List (String × String)

inductive Label
  | enter (draft : String)
  | leave (draft : String)
  | mongo
  | request (method path : String)
  | newId
  deriving DecidableEq, Repr

/-- A call: a program of atomic operations that may raise. -/
abbrev Call (ι A : Type) := ExceptT PublicadorError (Program Label (Store ι)) A

section

variable {ι A : Type} [DecidableEq ι]

/-- A result without an operation. -/
def lift (x : Except PublicadorError A) : Call ι A := ExceptT.mk (pure x)

/-- One operation. -/
def atomically (label : Label) (f : Store ι → Except PublicadorError A × Store ι) : Call ι A :=
  ExceptT.mk (Program.act label f)

/-- A reading operation of Mongo. -/
def find (f : Store ι → A) : Call ι A := atomically .mongo fun s => (.ok (f s), s)

/-- `self._id_factory(prefix)`. -/
def idFactory (pre : String) : Call ι String :=
  atomically .newId fun s =>
    (.ok (pre ++ "-" ++ s.ids s.idCount), { s with idCount := s.idCount + 1 })

/-- A request other than the POST of `/items`. -/
def request (method path : String) : Call ι PyValue :=
  atomically (.request method path) fun s =>
    (s.gateway s.requests, { s with requests := s.requests + 1 })

/-- `response.get(key)`. -/
def responseGet (response : PyValue) (key : String) : PyValue :=
  match response with
  | .dict fields => (fields.lookup key).getD .none
  | _ => .none

/-- The POST of `/items` for a draft. -/
def postItems (draftId : String) (item : Option String) : Call ι PyValue :=
  atomically (.request "POST" "/items") fun s =>
    let s' := { s with requests := s.requests + 1 }
    match s.gateway s.requests with
    | .error error => (.error error, s')
    | .ok response =>
        (.ok response, { s' with posts := s.posts ++ [⟨draftId, item, responseGet response "id"⟩] })

/-- Insert an event under its id. -/
def insertEvent (id : String) : Call ι Unit :=
  atomically .mongo fun s =>
    if id ∈ s.events then (.error duplicateKey, s)
    else (.ok (), { s with events := s.events ++ [id] })

/-- What a call does with a draft, between two ghost steps. -/
def working (i : ι) (draftId : String) (p : Call ι A) : Call ι A := ExceptT.mk do
  Program.act (.enter draftId) fun s =>
    ((), { s with owner := Function.update s.owner draftId (some i) })
  let result ← p.run
  Program.act (.leave draftId) fun s =>
    ((), { s with owner := Function.update s.owner draftId none })
  return result

/-! ### Drafts -/

/-- `_load_draft`. -/
def loadDraft (sellerId accountId draftId : String) : Call ι Draft :=
  atomically .mongo fun s =>
    match s.drafts.findOne fun d =>
        d.id = draftId ∧ d.sellerId = sellerId ∧ d.accountId = accountId with
    | none => (.error (.value "publicador_draft_not_found"), s)
    | some draft => (.ok draft, s)

/-- `_replace_draft`. -/
def replaceDraft (draft : Draft) : Call ι Unit :=
  atomically .mongo fun s =>
    match s.drafts.findOne fun d =>
        d.id = draft.id ∧ d.sellerId = draft.sellerId ∧ d.accountId = draft.accountId with
    | none => (.ok (), s)
    | some _ => (.ok (), { s with drafts := s.drafts.replace draft })

/-- `_append_event` of the publication service; its ids name the operation and the draft. -/
def appendDraftEvent (operation draftId : String) : Call ι Unit :=
  insertEvent ("event-" ++ operation ++ "-" ++ draftId)

/-- The pure parts of a validation: what is read of the responses, `build_publish_payload`,
`_local_field_errors` and `_gateway_field_errors`. -/
structure Checks where
  attributes : PyValue → Except PublicadorError PyValue
  preferences : Option PyDict → List PyValue → Except PublicadorError PyValue
  localFieldErrors : Draft → PyValue → PyValue → Except PublicadorError (List FieldError)
  payload : Draft → List Asset → Except PublicadorError PyValue
  gatewayFieldErrors : PyValue → Except PublicadorError (List FieldError)

def requireScope (sellerId accountId : String) : Except PublicadorError Unit :=
  if sellerId = "" ∨ accountId = "" then .error (.value "seller_id_and_account_id_required")
  else .ok ()

def requiredAttributes (checks : Checks) (sellerId accountId categoryId : String) :
    Call ι PyValue := do
  lift (requireScope sellerId accountId)
  let response ← request "GET" ("/categories/" ++ categoryId ++ "/attributes")
  lift (checks.attributes response)

def publicationPreferences (checks : Checks) (sellerId accountId : String) : Call ι PyValue := do
  lift (requireScope sellerId accountId)
  let settings ← find fun s => s.settings sellerId accountId
  let listingTypes ← request "GET" "/sites/MLM/listing_types"
  let shipping ← request "GET" ("/users/" ++ sellerId ++ "/shipping_preferences")
  let brands ← request "GET" ("/users/" ++ sellerId ++ "/brands")
  let stores ← request "GET" ("/users/" ++ sellerId ++ "/stores/search")
  lift (checks.preferences settings [listingTypes, shipping, brands, stores])

def buildPublishPayload (checks : Checks) (draft : Draft) : Call ι PyValue := do
  let assets ← find fun s => (s.assets.filter fun asset =>
    asset.sellerId = draft.sellerId ∧ asset.accountId = draft.accountId ∧
      asset.ownerId = draft.id).take 10
  lift (checks.payload draft assets)

structure Validation where
  status : String
  fieldErrors : List FieldError
  payload : PyValue

/-- `_block_draft`. -/
def blockDraft (draft : Draft) (fieldErrors : List FieldError) (actorId : String) :
    Call ι Unit := do
  replaceDraft
    { draft with
      status := "validation_failed", processStatus := "failed", errors := fieldErrors,
      updatedBy := actorId }
  appendDraftEvent "draft.validation_blocked" draft.id

/-- `str(draft.get("category_id") or "")`. -/
def categoryId (draft : Draft) : String :=
  match draft.fields.lookup "category_id" with
  | some (.text category) => category
  | _ => ""

def validateDraft (checks : Checks) (sellerId accountId draftId actorId : String) :
    Call ι Validation := do
  let draft ← loadDraft sellerId accountId draftId
  let attributes ← requiredAttributes checks sellerId accountId (categoryId draft)
  let preferences ← publicationPreferences checks sellerId accountId
  let fieldErrors ← lift (checks.localFieldErrors draft attributes preferences)
  let payload ← buildPublishPayload checks draft
  if fieldErrors ≠ [] then
    blockDraft draft fieldErrors actorId
    return { status := "blocked", fieldErrors, payload }
  else
    let validation ← request "POST" "/items/validate"
    let gatewayErrors ← lift (checks.gatewayFieldErrors validation)
    if gatewayErrors ≠ [] then
      blockDraft draft gatewayErrors actorId
      return { status := "blocked", fieldErrors := gatewayErrors, payload }
    else return { status := "valid", fieldErrors := [], payload }

/-- What `validate_and_publish_draft` returns: the status, and the draft as published. -/
structure Publication where
  status : String
  draft : Option Draft

/-- `validate_and_publish_draft`; `item` is the batch item it is called for. -/
def validateAndPublishDraft (checks : Checks) (item : Option String)
    (sellerId accountId draftId actorId : String) : Call ι Publication := do
  let validation ← validateDraft checks sellerId accountId draftId actorId
  if validation.status ≠ "valid" then return { status := validation.status, draft := none }
  else
    let draft ← loadDraft sellerId accountId draftId
    let response ← postItems draftId item
    let updated :=
      { draft with
        status := "published", processStatus := "published",
        meliItemId := responseGet response "id", permalink := responseGet response "permalink",
        meliResponse := response, errors := [], updatedBy := actorId }
    replaceDraft updated
    appendDraftEvent "draft.published" draft.id
    return { status := "published", draft := some updated }

/-! ### Batches -/

/-- The batch of a scope. -/
def Batch.isOf (id sellerId accountId : String) (b : Batch) : Bool :=
  b.id = id ∧ b.sellerId = sellerId ∧ b.accountId = accountId

/-- `_load_batch`. -/
def loadBatch (sellerId accountId batchId : String) : Call ι Batch :=
  atomically .mongo fun s =>
    match s.batches.findOne (Batch.isOf batchId sellerId accountId) with
    | none => (.error (.value "publicador_batch_not_found"), s)
    | some batch => (.ok batch, s)

/-- `_items_for_batch`. -/
def itemsForBatch (sellerId accountId batchId : String) : Call ι (List BatchItem) :=
  find fun s => (s.items.find fun item =>
    item.batchId = batchId ∧ item.sellerId = sellerId ∧ item.accountId = accountId).take 1000

/-- `_replace_batch`. -/
def replaceBatch (batch : Batch) : Call ι Unit :=
  atomically .mongo fun s =>
    match s.batches.findOne (Batch.isOf batch.id batch.sellerId batch.accountId) with
    | none => (.ok (), s)
    | some _ => (.ok (), { s with batches := s.batches.replace batch })

/-- `_replace_item`. -/
def replaceItem (item : BatchItem) : Call ι Unit :=
  atomically .mongo fun s =>
    match s.items.findOne fun b =>
        b.id = item.id ∧ b.sellerId = item.sellerId ∧ b.accountId = item.accountId with
    | none => (.ok (), s)
    | some _ => (.ok (), { s with items := s.items.replace item })

/-- The counts of `_refresh_counts`. -/
def countsOf (items : List BatchItem) : Counts where
  total := items.length + items.countP (·.status = "total")
  queued := items.countP (·.status = "queued")
  blocked := items.countP (·.status = "blocked")
  processed := items.countP (·.status = "processed")
  published := items.countP (·.status = "published")
  failed := items.countP fun item => item.status ∈ ["failed", "publish_failed", "retryable"]

/-- `_refresh_counts`. -/
def refreshCounts (sellerId accountId batchId : String) : Call ι Unit := do
  let batch ← loadBatch sellerId accountId batchId
  let items ← itemsForBatch sellerId accountId batchId
  replaceBatch { batch with counts := countsOf items }

/-- `_append_event` of the batch service. -/
def appendEvent : Call ι Unit := do
  let id ← idFactory "event"
  insertEvent id

/-- `item.get("draft_id")`, where it is true. -/
def BatchItem.draftId? (item : BatchItem) : Option String := item.draftId.filter (· ≠ "")

/-- Insert an asset; the hashes of a seller's assets are unique. -/
def insertAsset (asset : Asset) (sameHash : Asset → Asset → Bool) : Call ι Unit :=
  atomically .mongo fun s =>
    if s.assets.any fun b => b.id == asset.id || (b.sellerId == asset.sellerId && sameHash b asset)
    then (.error duplicateKey, s)
    else (.ok (), { s with assets := s.assets ++ [asset] })

/-- The loop of `_create_assets_for_item`: the ids of the assets. -/
def createAssets (sameHash : Asset → Asset → Bool) (item : BatchItem) (draft : Draft) :
    List Image → Call ι (List String)
  | [] => return []
  | image :: rest => do
      let id ← idFactory "asset"
      insertAsset
        { id, sellerId := item.sellerId, accountId := item.accountId, ownerId := draft.id,
          sku := item.sku, image, meliPictureId := .none,
          storageUri := "publicador://batches/" ++ item.batchId ++ "/" ++ item.sku ++ "/" ++
            image.filename } sameHash
      return id :: (← createAssets sameHash item draft rest)

/-- Insert a draft; its id is unique, and the SKU in the scope of seller and account. `item` is
the batch item it is made for. -/
def insertDraft (draft : Draft) (item : String) : Call ι Unit :=
  atomically .mongo fun s =>
    if s.drafts.docs.any fun b =>
        b.sellerId = draft.sellerId ∧ b.accountId = draft.accountId ∧ b.sku = draft.sku then
      (.error duplicateKey, s)
    else
      match s.drafts.insert draft with
      | none => (.error duplicateKey, s)
      | some drafts => (.ok (), { s with drafts, created := s.created ++ [(item, draft.id)] })

/-- The draft of a batch item. -/
def draftOf (item : BatchItem) (id actorId : String) : Draft where
  id := id
  sellerId := item.sellerId
  accountId := item.accountId
  sku := item.sku
  status := "generated"
  processStatus := "not_started"
  meliItemId := .none
  permalink := .none
  meliResponse := .none
  errors := []
  assetIds := []
  updatedBy := actorId
  fields := [("gtin", item.gtin), ("title", .text item.sku), ("category_id", .text "MLM-BATCH"),
    ("attributes", .dict []), ("price", item.price), ("logistics_type", item.logisticsType),
    ("listing_type", item.listingType), ("free_shipping", item.freeShipping)]

/-- The part of `_create_draft_from_item` that makes a new draft. -/
def newDraft (i : ι) (sameHash : Asset → Asset → Bool) (item : BatchItem) (actorId : String) :
    Call ι Draft := do
  let id ← idFactory "draft"
  let draft := draftOf item id actorId
  working i id do
    insertDraft draft item.id
    let assetIds ← createAssets sameHash item draft item.images
    replaceDraft { draft with assetIds }
    appendEvent
    return { draft with assetIds }

/-- `_create_draft_from_item`. -/
def createDraftFromItem (i : ι) (sameHash : Asset → Asset → Bool) (item : BatchItem)
    (actorId : String) : Call ι Draft := do
  match item.draftId? with
  | none => newDraft i sameHash item actorId
  | some draftId =>
      let existing ← find fun s => s.drafts.findOne fun d =>
        d.id = draftId ∧ d.sellerId = item.sellerId ∧ d.accountId = item.accountId
      match existing with
      | some draft => return draft
      | none => newDraft i sameHash item actorId

/-- The loop of `process_batch`. -/
def processItems (i : ι) (sameHash : Asset → Asset → Bool) (actorId : String) :
    List BatchItem → Call ι Unit
  | [] => return ()
  | item :: rest => do
      let draft ← createDraftFromItem i sameHash item actorId
      replaceItem
        { item with
          status := "processed", processStatus := "processed", draftId := some draft.id,
          updatedBy := actorId }
      processItems i sameHash actorId rest

def processBatch (i : ι) (sameHash : Asset → Asset → Bool)
    (sellerId accountId batchId actorId : String) : Call ι Batch := do
  let batch ← loadBatch sellerId accountId batchId
  let items ← itemsForBatch sellerId accountId batchId
  processItems i sameHash actorId
    (items.filter fun item => item.status ∈ ["queued", "retryable"])
  replaceBatch { batch with status := "processed", processStatus := "processed" }
  refreshCounts sellerId accountId batchId
  appendEvent
  loadBatch sellerId accountId batchId

/-- `_failed_item`. -/
def failedItem (item : BatchItem) (actorId error : String) : BatchItem :=
  { item with
    status := "publish_failed", publishStatus := "failed", retryCount := item.retryCount + 1,
    errors := item.errors ++ [error], updatedBy := actorId }

/-- The text of an exception that `publish_batch` catches. -/
def caught : PublicadorError → Option String
  | .runtime message | .value message | .legacyBatchContract message => some message
  | .other _ => none

/-- What `publish_batch` makes of an item whose publication returned. -/
def publishedItem (item : BatchItem) (actorId : String) (result : Publication) : BatchItem :=
  match result.draft with
  | some draft =>
      { item with
        status := "published", publishStatus := "published", meliItemId := draft.meliItemId,
        permalink := draft.permalink, updatedBy := actorId }
  | none => failedItem item actorId "batch_item_publish_blocked"

/-- The outcome of a call as a value. -/
def tryExcept (p : Call ι A) : Call ι (Except PublicadorError A) :=
  ExceptT.mk (do return .ok (← p.run))

/-- What `publish_batch` records of the publication of an item. -/
def recordItem (item : BatchItem) (actorId : String) :
    Except PublicadorError Publication → Call ι Unit
  | .ok result => replaceItem (publishedItem item actorId result)
  | .error error =>
      match caught error with
      | some message => replaceItem (failedItem item actorId message)
      | none => lift (.error error)

/-- The loop of `publish_batch`. -/
def publishItems (i : ι) (checks : Checks) (sellerId accountId actorId : String) :
    List BatchItem → Call ι Unit
  | [] => return ()
  | item :: rest => do
      let draftId := (item.draftId?).getD ""
      let result ← tryExcept (working i draftId
        (validateAndPublishDraft checks (some item.id) sellerId accountId draftId actorId))
      recordItem item actorId result
      publishItems i checks sellerId accountId actorId rest

def publishBatch (i : ι) (checks : Checks) (sellerId accountId batchId actorId : String) :
    Call ι Batch := do
  let batch ← loadBatch sellerId accountId batchId
  let items ← itemsForBatch sellerId accountId batchId
  publishItems i checks sellerId accountId actorId (items.filter fun item =>
    item.status ∈ ["processed", "publish_failed"] ∧ item.draftId?.isSome)
  replaceBatch { batch with status := "published", publishStatus := "published" }
  refreshCounts sellerId accountId batchId
  appendEvent
  loadBatch sellerId accountId batchId

/-- The calls of the module. -/
inductive Request
  | processBatch (sellerId accountId batchId actorId : String)
  | publishBatch (sellerId accountId batchId actorId : String)
  | validateAndPublishDraft (sellerId accountId draftId actorId : String)
  | validateDraft (sellerId accountId draftId actorId : String)

/-- The program of a call; its result plays no part. -/
def Request.program (i : ι) (checks : Checks) (sameHash : Asset → Asset → Bool) :
    Request → Call ι Unit
  | .processBatch sellerId accountId batchId actorId => do
      let _ ← Publicador.processBatch i sameHash sellerId accountId batchId actorId
  | .publishBatch sellerId accountId batchId actorId => do
      let _ ← Publicador.publishBatch i checks sellerId accountId batchId actorId
  | .validateAndPublishDraft sellerId accountId draftId actorId => do
      let _ ← working i draftId
        (Publicador.validateAndPublishDraft checks none sellerId accountId draftId actorId)
  | .validateDraft sellerId accountId draftId actorId => do
      let _ ← working i draftId
        (Publicador.validateDraft checks sellerId accountId draftId actorId)

end

end ZelerPlatform.Publicador
