import Mathlib.Data.String.Basic
import ZelerPlatform.Library.Collection

/-!
# Recovery jobs and the requests that ask for them

A job of `sheets_formula_recovery_jobs` is one unit of acquisition work of a seller. It is
named by the key of the request that first asked for it, so that repeated requests meet in
one document. Datetimes are the milliseconds that BSON stores; a field that a document may
lack is an `Option`.
-/

namespace ZelerPlatform.Recovery

abbrev Time := Int

/-- `RECOVERABLE_MODELS`. -/
inductive ReadModel
  | questions
  | orders
  | shipments
  | itemFormulaRows
  | catalogProductSnapshots
  | catalogBuyboxSnapshots
  deriving DecidableEq, Repr

def ReadModel.text : ReadModel → String
  | .questions => "questions"
  | .orders => "orders"
  | .shipments => "shipments"
  | .itemFormulaRows => "item_formula_rows"
  | .catalogProductSnapshots => "catalog_product_snapshots"
  | .catalogBuyboxSnapshots => "catalog_buybox_snapshots"

/-- `LEASE`, ten minutes. -/
def lease : Time := 600000

/-- `COOLDOWN`, fifteen minutes. -/
def cooldown : Time := 900000

/-- `INVENTORY_REFRESH_INTERVAL`, ten minutes. -/
def inventoryRefreshInterval : Time := 600000

/-- `MAX_ATTEMPTS`. -/
def maxAttempts : Int := 3

inductive JobState
  | pending
  | running
  | completed
  | failed
  deriving DecidableEq, Repr

/-- The texts of `failure_reason`. -/
inductive FailureReason
  | recoveryFailed
  | sourceTemporarilyUnavailable
  | sourceRejected
  | sourceCursorExpired
  | sourceIncomplete
  | storageUnavailable
  | attemptsExhausted
  | sellerNotEligible
  deriving DecidableEq, Repr

/-- The reasons a caller of `finish` may give. -/
def FailureReason.isPublic : FailureReason → Bool
  | .attemptsExhausted => false
  | .sellerNotEligible => false
  | _ => true

/-- The modification a `ModifiedOrderIdsRecoveryRequest` observed. -/
structure Modification where
  observedAt : Time
  version : String
  hash : String
  deriving DecidableEq, Repr

/-- The five `history_*` fields that tie a job to one checkpoint of an acquisition. -/
structure Binding where
  protocolVersion : Nat
  acquisitionId : String
  generation : Nat
  passNumber : Nat
  checkpointRevision : Nat
  deriving DecidableEq, Repr

/-- An entry of `shipment_cursor_history`. -/
structure CursorEntry where
  offset : Nat
  completedAt : Time
  requestKey : String
  sellerId : String
  deriving DecidableEq, Repr

/-- A document of `sheets_formula_recovery_jobs`. -/
structure Job where
  id : String
  sellerId : String
  readModel : ReadModel
  state : JobState
  attempts : Int
  createdAt : Time
  updatedAt : Time
  availableAt : Time
  policyAuthority : Option String := none
  attemptToken : Option String := none
  leaseUntil : Option Time := none
  failureReason : Option FailureReason := none
  dateFrom : Option Time := none
  dateTo : Option Time := none
  yearHistory : Bool := false
  historyPlanId : Option String := none
  history : Option Binding := none
  historyFenceRevision : Nat := 0
  itemIds : Option (List String) := none
  catalogProductIds : Option (List String) := none
  orderIds : Option (List String) := none
  modification : Option Modification := none
  shipmentIds : Option (List String) := none
  shipmentOffset : Option Nat := none
  shipmentCursorHistory : List CursorEntry := []
  catalogOffset : Option Nat := none
  catalogFailedOffsets : Option (List Nat) := none
  catalogFailureReason : Option FailureReason := none
  inventoryScope : Bool := false
  inventoryIds : Option (List String) := none
  inventoryOffset : Option Nat := none
  inventoryUnavailableIds : Option (List String) := none
  inventoryObservedAt : Option Time := none
  deriving DecidableEq, Repr

/-- `{"state": {"$in": ["pending", "running"]}}`. -/
def Job.active (job : Job) : Bool := job.state = .pending || job.state = .running

/-- An active job of the seller; these are the jobs that take up its capacity. -/
def Job.activeOf (sellerId : String) (job : Job) : Bool :=
  job.sellerId = sellerId && job.active

/-- An active job of the seller outside the slot reserved for its inventory. -/
def Job.nonInventoryOf (sellerId : String) (job : Job) : Bool :=
  job.activeOf sellerId && !job.inventoryScope

/-- The collection of jobs. -/
abbrev Jobs := Collection Job.id

/-! ### Dates in keys -/

/-- Year, month and day of a day counted from the first of January 1970. -/
def civil (day : Int) : Int × Int × Int :=
  let z := day + 719468
  let era := z / 146097
  let doe := z % 146097
  let yoe := (doe - doe / 1460 + doe / 36524 - doe / 146096) / 365
  let doy := doe - (365 * yoe + yoe / 4 - yoe / 100)
  let mp := (5 * doy + 2) / 153
  let m := if mp < 10 then mp + 3 else mp - 9
  (yoe + era * 400 + (if m ≤ 2 then 1 else 0), m, doy - (153 * mp + 2) / 5 + 1)

/-- A number in at least `width` digits. -/
def padded (width : Nat) (n : Int) : String :=
  String.ofList (List.replicate (width - (toString n).length) '0') ++ toString n

def millisPerDay : Int := 86400000

/-- `datetime.isoformat` of a UTC datetime. -/
def isoformat (t : Time) : String :=
  let (year, month, day) := civil (t / millisPerDay)
  let rest := t % millisPerDay
  let fraction := if rest % 1000 = 0 then "" else "." ++ padded 6 (rest % 1000 * 1000)
  padded 4 year ++ "-" ++ padded 2 month ++ "-" ++ padded 2 day ++ "T"
    ++ padded 2 (rest / 3600000) ++ ":" ++ padded 2 (rest / 60000 % 60) ++ ":"
    ++ padded 2 (rest / 1000 % 60) ++ fraction ++ "+00:00"

/-- The format `%Y%m%d`. -/
def yearMonthDay (t : Time) : String :=
  let (year, month, day) := civil (t / millisPerDay)
  padded 4 year ++ padded 2 month ++ padded 2 day

example : isoformat 1709210096789 = "2024-02-29T12:34:56.789000+00:00" := by decide +kernel

/-! ### Requests -/

/-- The request classes of the queue, after the normalisation of their constructors. -/
inductive Request
  | range (sellerId : String) (readModel : ReadModel) (dateFrom dateTo : Time)
  | yearHistory (sellerId : String) (readModel : ReadModel) (dateFrom dateTo : Time)
  | questionScan (sellerId planId : String) (dateFrom dateTo : Time)
  | orderHistory (sellerId planId : String) (dateFrom dateTo : Time)
  | orderIds (sellerId : String) (ids : List String)
  | modifiedOrderIds (sellerId orderId : String) (modification : Modification)
  | shipmentIds (sellerId : String) (ids : List String)
  | itemIds (sellerId : String) (readModel : ReadModel) (ids : List String)
  | catalogProductIds (sellerId : String) (ids : List String)
  | catalog (sellerId : String) (readModel : ReadModel) (ids : List String)
  | renewal (sellerId : String) (readModel : ReadModel) (ids : List String) (slot : Time)
  | inventory (sellerId : String)
  deriving DecidableEq, Repr

namespace Request

def sellerId : Request → String
  | range seller .. => seller
  | yearHistory seller .. => seller
  | questionScan seller .. => seller
  | orderHistory seller .. => seller
  | orderIds seller .. => seller
  | modifiedOrderIds seller .. => seller
  | shipmentIds seller .. => seller
  | itemIds seller .. => seller
  | catalogProductIds seller .. => seller
  | catalog seller .. => seller
  | renewal seller .. => seller
  | inventory seller => seller

def readModel : Request → ReadModel
  | range _ model .. => model
  | yearHistory _ model .. => model
  | questionScan .. => .questions
  | orderHistory .. => .orders
  | orderIds .. => .orders
  | modifiedOrderIds .. => .orders
  | shipmentIds .. => .shipments
  | itemIds _ model _ => model
  | catalogProductIds .. => .catalogProductSnapshots
  | catalog _ model _ => model
  | renewal _ model .. => model
  | inventory _ => .itemFormulaRows

/-- `OrderHistoryRecoveryRequest.scope_id`. -/
def scopeId (dateFrom dateTo : Time) : String :=
  "orders:" ++ yearMonthDay dateFrom ++ ":" ++ yearMonthDay dateTo

/-- What the key of a request digests after the seller. -/
def identity : Request → List String
  | range _ model dateFrom dateTo => [model.text, isoformat dateFrom, isoformat dateTo]
  | yearHistory _ model dateFrom dateTo =>
      [model.text, "year_history", isoformat dateFrom, isoformat dateTo]
  | questionScan _ planId _ _ => ["questions", "seller_scan", planId]
  | orderHistory _ planId dateFrom dateTo => [planId, scopeId dateFrom dateTo]
  | orderIds _ ids => "orders" :: "ids" :: ids
  | modifiedOrderIds _ orderId modification =>
      ["orders", "modified", orderId, modification.version, modification.hash]
  | shipmentIds _ ids => "shipments" :: "ids" :: ids
  | itemIds _ model ids => model.text :: "ids" :: ids
  | catalogProductIds _ ids => "catalog_product_snapshots" :: "products" :: ids
  | catalog _ model ids => model.text :: "catalog_intent" :: ids
  | renewal _ model _ slot => [model.text, "renewal", isoformat slot]
  | inventory _ => ["item_formula_rows", "inventory"]

/-- The text whose SHA-256 digest is the key: the parts joined by NUL characters. -/
def keyText (request : Request) : String :=
  request.sellerId ++ String.join (request.identity.map ("\x00" ++ ·))

/-- `isinstance(request, ItemInventoryRecoveryRequest)`. -/
def isInventory : Request → Bool
  | inventory _ => true
  | _ => false

/-- `isinstance(request, ShipmentIdsRecoveryRequest)`. -/
def isShipmentIds : Request → Bool
  | shipmentIds .. => true
  | _ => false

/-- `isinstance(request, CatalogRecoveryRequest)`, which a renewal is as well. -/
def isCatalog : Request → Bool
  | catalog .. => true
  | renewal .. => true
  | _ => false

/-- The publication IDs of the two request classes that admission narrows. -/
def narrowable : Request → Option (List String)
  | itemIds _ .itemFormulaRows ids => some ids
  | itemIds _ .catalogBuyboxSnapshots ids => some ids
  | catalog _ .itemFormulaRows ids => some ids
  | catalog _ .catalogBuyboxSnapshots ids => some ids
  | renewal _ .itemFormulaRows ids _ => some ids
  | renewal _ .catalogBuyboxSnapshots ids _ => some ids
  | _ => none

/-- The request for the IDs that no active job covers yet. -/
def narrow (remaining : List String) : Request → Request
  | itemIds seller model _ => itemIds seller model remaining
  | catalog seller model _ => catalog seller model remaining
  | renewal seller model _ slot => renewal seller model remaining slot
  | request => request

@[simp] theorem narrow_sellerId (remaining : List String) (request : Request) :
    (request.narrow remaining).sellerId = request.sellerId := by cases request <;> rfl

@[simp] theorem narrow_isInventory (remaining : List String) (request : Request) :
    (request.narrow remaining).isInventory = request.isInventory := by cases request <;> rfl

/-- The request asks for one of the plan-bound, fixed identities, which admission never
reopens; the modification lane is the third of them. -/
def neverReopened : Request → Bool
  | questionScan .. => true
  | orderHistory .. => true
  | modifiedOrderIds .. => true
  | _ => false

/-- `validate_existing`: the stored job has the identity of the request. -/
def validateExisting (key : String) (job : Job) : Request → Bool
  | questionScan seller planId dateFrom dateTo =>
      job.sellerId = seller && job.readModel = .questions && job.historyPlanId = some planId
        && job.dateFrom = some dateFrom && job.dateTo = some dateTo
  | orderHistory seller planId dateFrom dateTo =>
      job.sellerId = seller && job.readModel = .orders && job.historyPlanId = some planId
        && job.dateFrom = some dateFrom && job.dateTo = some dateTo
  | shipmentIds seller ids =>
      job.id = key && job.sellerId = seller && job.readModel = .shipments
        && job.shipmentIds = some ids
  | _ => true

end Request

/-! ### New jobs -/

/-- The document `enqueue` inserts for a request. -/
def initial (policyAuthority : Option String) (key : String) (request : Request) (now : Time) :
    Job :=
  let base : Job :=
    { id := key, sellerId := request.sellerId, readModel := request.readModel,
      state := .pending, attempts := 0, createdAt := now, updatedAt := now, availableAt := now,
      policyAuthority }
  let plan (planId : String) (dateFrom dateTo : Time) : Job :=
    { base with
      dateFrom := some dateFrom, dateTo := some dateTo, historyPlanId := some planId,
      history := some ⟨1, key, 1, 1, 0⟩ }
  let catalog (ids : List String) : Job :=
    if request.readModel = .catalogProductSnapshots then
      { base with catalogProductIds := some ids, catalogOffset := some 0 }
    else { base with itemIds := some ids, catalogOffset := some 0 }
  match request with
  | .questionScan _ planId dateFrom dateTo => plan planId dateFrom dateTo
  | .orderHistory _ planId dateFrom dateTo => plan planId dateFrom dateTo
  | .catalog _ _ ids => catalog ids
  | .renewal _ _ ids _ => catalog ids
  | .orderIds _ ids => { base with orderIds := some ids }
  | .modifiedOrderIds _ orderId modification =>
      { base with orderIds := some [orderId], modification := some modification }
  | .shipmentIds _ ids => { base with shipmentIds := some ids }
  | .itemIds _ _ ids => { base with itemIds := some ids }
  | .catalogProductIds _ ids => { base with catalogProductIds := some ids }
  | .inventory _ => { base with inventoryScope := true }
  | .range _ _ dateFrom dateTo => { base with dateFrom := some dateFrom, dateTo := some dateTo }
  | .yearHistory _ _ dateFrom dateTo =>
      { base with dateFrom := some dateFrom, dateTo := some dateTo, yearHistory := true }

section Initial

variable (authority : Option String) (key : String) (request : Request) (now : Time)

/-- A new job is the request's own: pending, never attempted, not leased. -/
theorem initial_fresh :
    (initial authority key request now).id = key ∧
    (initial authority key request now).sellerId = request.sellerId ∧
    (initial authority key request now).inventoryScope = request.isInventory ∧
    (initial authority key request now).state = .pending ∧
    (initial authority key request now).attempts = 0 ∧
    (initial authority key request now).attemptToken = none := by
  cases request with
  | catalog _ model _ =>
      simp only [initial]
      split <;> exact ⟨rfl, rfl, rfl, rfl, rfl, rfl⟩
  | renewal _ model _ _ =>
      simp only [initial]
      split <;> exact ⟨rfl, rfl, rfl, rfl, rfl, rfl⟩
  | _ => exact ⟨rfl, rfl, rfl, rfl, rfl, rfl⟩

end Initial

/-! ### Keys name sellers and kinds

A seller id holds no NUL character, so the first one in the digested text ends it. What
follows tells an inventory request from every other. -/

/-- The character that separates the parts of a key. -/
def nul : Char := '\x00'

/-- The seller id has no NUL character. -/
def Request.plainSeller (request : Request) : Bool := nul ∉ request.sellerId.toList

theorem keyText_toList (request : Request) :
    request.keyText.toList = request.sellerId.toList
      ++ request.identity.flatMap fun part => nul :: part.toList := by
  rw [Request.keyText, String.toList_append, String.toList_join, List.flatMap_map]
  congr 1
  refine List.flatMap_congr fun part _ => ?_
  simp [nul]

/-- The first separator splits a text in one way. -/
private theorem first_separator {a : Char} {x y z w : List Char} (hx : a ∉ x) (hy : a ∉ y)
    (h : x ++ a :: z = y ++ a :: w) : x = y ∧ z = w := by
  induction x generalizing y with
  | nil =>
      cases y with
      | nil => simpa using h
      | cons b y =>
          simp only [List.nil_append, List.cons_append, List.cons.injEq] at h
          exact absurd (by simp [h.1] : a ∈ b :: y) hy
  | cons b x ih =>
      cases y with
      | nil =>
          simp only [List.nil_append, List.cons_append, List.cons.injEq] at h
          exact absurd (by simp [h.1] : a ∈ b :: x) hx
      | cons c y =>
          simp only [List.cons_append, List.cons.injEq] at h
          obtain ⟨rfl, rfl⟩ := ih (fun hb => hx (by simp [hb])) (fun hb => hy (by simp [hb])) h.2
          simp [h.1]

private theorem modelText_inventory {model : ReadModel} {rest : List Char}
    (h : model.text.toList ++ rest = "item_formula_rows".toList ++ nul :: "inventory".toList) :
    rest = nul :: "inventory".toList := by
  cases model <;> simp_all [ReadModel.text]

private theorem nul_mem_inventory {rest : List Char} (mem : nul ∈ rest)
    (h : nul :: rest = nul :: "inventory".toList) : False :=
  absurd ((List.cons.inj h).2 ▸ mem : nul ∈ "inventory".toList) (by decide)

/-- Only an inventory request goes on as one after the seller. -/
private theorem isInventory_of_identity {request : Request}
    (h : (request.identity.flatMap fun part => nul :: part.toList)
      = nul :: ("item_formula_rows".toList ++ nul :: "inventory".toList)) :
    request.isInventory = true := by
  cases request with
  | inventory => rfl
  | orderHistory _ planId dateFrom dateTo =>
      -- The scope of an order history has a colon, the other text has none.
      have : ':' ∈ (nul :: ("item_formula_rows".toList ++ nul :: "inventory".toList)) := by
        rw [← h]
        simp [Request.identity, Request.scopeId]
      simp [nul] at this
  | range =>
      simp only [Request.identity, List.flatMap_cons, List.flatMap_nil, List.append_nil,
        List.cons_append] at h
      exact (nul_mem_inventory (by simp) (modelText_inventory (List.cons.inj h).2)).elim
  | yearHistory =>
      simp only [Request.identity, List.flatMap_cons, List.flatMap_nil, List.append_nil,
        List.cons_append] at h
      exact (nul_mem_inventory (by simp) (modelText_inventory (List.cons.inj h).2)).elim
  | itemIds =>
      simp only [Request.identity, List.flatMap_cons, List.cons_append] at h
      simpa using modelText_inventory (List.cons.inj h).2
  | catalog =>
      simp only [Request.identity, List.flatMap_cons, List.cons_append] at h
      simpa using modelText_inventory (List.cons.inj h).2
  | renewal =>
      simp only [Request.identity, List.flatMap_cons, List.cons_append] at h
      simpa using modelText_inventory (List.cons.inj h).2
  | _ => simp [Request.identity] at h

/-- The identity of a request is not empty. -/
private theorem identity_text (request : Request) :
    ∃ rest, (request.identity.flatMap fun part => nul :: part.toList) = nul :: rest := by
  cases request <;> exact ⟨_, rfl⟩

/-- Equal keys are keys of one seller and of one kind. -/
theorem keyText_names {request request' : Request} (h : request.plainSeller)
    (h' : request'.plainSeller) (same : request.keyText = request'.keyText) :
    request.sellerId = request'.sellerId ∧ request.isInventory = request'.isInventory := by
  have htext := congrArg String.toList same
  obtain ⟨rest, hrest⟩ := identity_text request
  obtain ⟨rest', hrest'⟩ := identity_text request'
  rw [keyText_toList, keyText_toList, hrest, hrest'] at htext
  obtain ⟨hseller, hidentity⟩ := first_separator (by simpa [Request.plainSeller] using h)
    (by simpa [Request.plainSeller] using h') htext
  refine ⟨String.toList_injective hseller, Bool.eq_iff_iff.mpr ⟨fun hinv => ?_, fun hinv => ?_⟩⟩
  · obtain ⟨seller, rfl⟩ : ∃ seller, request = .inventory seller := by
      cases request <;> simp_all [Request.isInventory]
    apply isInventory_of_identity
    rw [hrest', ← hidentity, ← hrest]
    simp [Request.identity]
  · obtain ⟨seller, rfl⟩ : ∃ seller, request' = .inventory seller := by
      cases request' <;> simp_all [Request.isInventory]
    apply isInventory_of_identity
    rw [hrest, hidentity, ← hrest']
    simp [Request.identity]

end ZelerPlatform.Recovery
