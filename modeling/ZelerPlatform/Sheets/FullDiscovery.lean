import Mathlib.Data.String.Basic
import ZelerPlatform.Library.Fallible
import ZelerPlatform.Library.Mongo.Path
import ZelerPlatform.Library.Sorted
import ZelerPlatform.Library.Walk
import ZelerPlatform.Sheets.OnboardingSources

/-!
# Discovery of the fulfillment operations

The operations of every inventory of a seller are searched with each type, and a search goes on
with the scroll that its last page returned until a page returns none. Inventories are selected
from pages of the seller's items, a page at a time. The collector keeps its place in a
checkpoint; calls that raise leave the old one.
-/

namespace ZelerPlatform.Sheets.Full

open Fallible Mongo Sources Sorted

/-! ### Items -/

/-- `_FULL_SEARCH_TYPES`, which are the `WITHDRAWAL_TYPES` as well. -/
def fullSearchTypes : List String :=
  ["WITHDRAWAL_RESERVATION", "WITHDRAWAL_CANCELATION", "WITHDRAWAL_DELIVERY",
    "WITHDRAWAL_REMOVAL", "WITHDRAWAL_DISCARDED"]

/-- `_FULL_ITEM_PAGE_SIZE`. -/
def itemPageSize : Nat := 32

/-- `_MAX_FULL_INVENTORIES`. -/
def maxInventories : Nat := 4096

/-- An item of the collection, and its `_id`. -/
structure Item where
  id : String
  doc : Doc

/-- The collection in the order of its index. -/
structure Items where
  list : List Item
  ascending : list.Pairwise fun a b => a.id < b.id

/-- `int(seller_id)`, of a numeric one. -/
def sellerNumber (sellerId : String) : Int := (Nat.ofDigitChars 10 sellerId.toList 0 : Nat)

/-- `{"seller_id": {"$in": [seller_id, int(seller_id)]}}`. -/
def Item.ofSeller (sellerId : String) (item : Item) : Bool :=
  eqMatches (item.doc.get? "seller_id") (.string sellerId) ||
    eqMatches (item.doc.get? "seller_id") (.int (sellerNumber sellerId))

/-- The items among which inventories are selected. -/
def Item.selected (sellerId : String) (item : Item) : Bool :=
  item.ofSeller sellerId && Value.equalMatches
    ((Value.document item.doc).reach ["shipping", "logistic_type"]) (.string "fulfillment")

/-- `str(value) == seller`, of a numeric seller. -/
def isSeller (sellerId : String) : Value → Bool
  | .string s => s = sellerId
  | .int n | .long n => toString n = sellerId
  | _ => false

/-- `_item_full_inventories`. -/
def itemFullInventories (item : Doc) (sellerId : String) : List String :=
  match item.getD "shipping" with
  | .document shipping =>
      if isSeller sellerId (item.getD "seller_id") ∧
          Doc.getD shipping "logistic_type" = .string "fulfillment" then
        let variations := match item.getD "variations" with
          | .array xs => xs
          | _ => []
        ((Value.document item :: variations).filterMap fun resource =>
          match resource with
          | .document fields => identifier (Doc.getD fields "inventory_id")
          | _ => none).eraseDups
      else []
  | _ => []

/-! ### Checkpoints -/

structure Target where
  itemId : String
  inventoryId : String
  deriving DecidableEq, Repr

structure FullState extends SourceState where
  /-- `inventory_selection_version == 1`. -/
  versioned : Bool
  targets : List Target
  inventoryIndex : Nat
  seen : List String
  scanComplete : Bool
  itemAfter : Option String
  scroll : Option String
  scrollObservedAt : Option Int
  deriving DecidableEq, Repr

/-- `_state`. -/
def fullState (sellerId : String) (start stop : Int) (checkpoint : Option FullState) :
    Except SourceError FullState :=
  match checkpoint with
  | none => do
      let base ← sourceState sellerId "full_operations" start stop none
      return ⟨base, false, [], 0, [], false, none, none, none⟩
  | some state => do
      let base ← sourceState sellerId "full_operations" start stop (some state.toSourceState)
      return { state with toSourceState := base }

/-- `_identifier(text)` does not raise. -/
def isIdentifier (text : String) : Bool := (identifier (.string text)).isSome

/-- The selection of a checkpoint from before there was one is begun. -/
def FullState.migrated (state : FullState) : FullState :=
  if state.versioned then state
  else { state with
    versioned := true
    targets := []
    inventoryIndex := 0
    seen := []
    scanComplete := false
    typeIndex := 0
    discoveryComplete := false
    scroll := none
    scrollObservedAt := none
    itemAfter := none }

/-- `_full_inventory_checkpoint`. -/
def fullInventoryCheckpoint (state : FullState) : Except SourceError FullState :=
  let state := state.migrated
  if maxInventories < state.targets.length ∨ maxInventories < state.seen.length ∨
      state.targets.length < state.inventoryIndex then
    .error (.value "invalid Full inventory checkpoint")
  else if state.targets.all (fun target => isIdentifier target.itemId &&
        isIdentifier target.inventoryId) && state.seen.all isIdentifier &&
      state.itemAfter.all isIdentifier then
    .ok state
  else .error (.value "invalid source identity")

/-! ### Selection -/

/-- A page of items while it is scanned. -/
structure Scan where
  base : SourceState
  scanComplete : Bool
  itemAfter : Option String
  targets : List Target
  seen : List String

/-- `for inventory in _item_full_inventories(item, seller)`. -/
def Scan.inventories (itemId : String) : List String → Scan → Scan
  | [], scan => scan
  | inventory :: rest, scan =>
      if inventory ∈ scan.seen then scan.inventories itemId rest
      else if scan.seen.length = maxInventories then
        { scan with
          base := scan.base.pend "inventory_selection_limit" none
          scanComplete := true }
      else Scan.inventories itemId rest { scan with
        seen := scan.seen ++ [inventory]
        targets := scan.targets ++ [⟨itemId, inventory⟩] }

/-- `for item in rows`. -/
def Scan.items (sellerId : String) : List Item → Scan → Except SourceError Scan
  | [], scan => .ok scan
  | item :: rest, scan =>
      match identifier (.string item.id) with
      | none => .error (.value "invalid source identity")
      | some itemId => Scan.items sellerId rest (Scan.inventories itemId
          (itemFullInventories item.doc sellerId) { scan with itemAfter := some itemId })

/-- `{"_id": {"$gt": inventory_item_after}}`. -/
def Item.isAfter (itemAfter : Option String) (item : Item) : Bool :=
  match itemAfter with
  | some after => after = "" || after < item.id
  | none => true

/-- `_select_full_inventory_page`. -/
def selectFullInventoryPage (items : Items) (state : FullState) :
    Except SourceError FullState := do
  let rows := (items.list.filter fun item =>
    item.selected state.sellerId && item.isAfter state.itemAfter).take (itemPageSize + 1)
  let scan ← Scan.items state.sellerId (rows.take itemPageSize)
    ⟨state.toSourceState, rows.length ≤ itemPageSize, state.itemAfter, [], state.seen⟩
  return { state with
    toSourceState := { scan.base with typeIndex := 0 }
    scanComplete := scan.scanComplete
    itemAfter := scan.itemAfter
    targets := scan.targets
    inventoryIndex := 0
    seen := sortedBy id scan.seen }

/-- Whether nothing is left to search, or to select. -/
def FullState.exhausted (state : FullState) : Bool :=
  state.inventoryIndex = state.targets.length && state.scanComplete

/-- `_advance_full_inventory`. -/
def FullState.advance (state : FullState) : FullState :=
  let next := { state with
    inventoryIndex := state.inventoryIndex + 1
    typeIndex := 0
    scroll := none
    scrollObservedAt := none }
  { next with discoveryComplete := next.exhausted }

/-! ### Pages of operations -/

/-- What the gateway answers to a request. -/
inductive Answer
  | status (code : Nat)
  | unreachable
  | raises (error : SourceError)
  | page (body : Value)

/-- `str.upper` and `datetime.fromisoformat` of the text of an operation. -/
structure Texts where
  upper : String → String
  instant : String → Option Int

/-- Arguments and surroundings of one call. -/
structure Call where
  maxRequests : Nat
  pageSize : Nat
  now : Int
  answer : Nat → Answer
  /-- Whether the document of a row of a request is this seller's in the end. -/
  upsert : Nat → Nat → Except SourceError Bool

/-- `_timestamp`. -/
def timestamp (texts : Texts) : Value → Option Int
  | .string s => texts.instant s
  | .date us => some us
  | _ => none

inductive RowCheck
  | skip
  | invalid
  | keep (operationId : String)

/-- What is to be done about a row. -/
def checkRow (texts : Texts) (state : FullState) (inventoryId : String) (raw : Value) : RowCheck :=
  match raw with
  | .document row =>
      if isSeller state.sellerId (Doc.getD row "seller_id") = false ∨
          Doc.getD row "inventory_id" ≠ .string inventoryId then .invalid
      else match Doc.getD row "type" with
        | .string kind =>
            if texts.upper kind ∉ fullSearchTypes then .skip
            else match identifier (Doc.getD row "id"),
                timestamp texts (Doc.getD row "date_created") with
              | some operationId, some created =>
                  if state.start ≤ created ∧ created < state.stop then .keep operationId
                  else .skip
              | _, _ => .invalid
        | _ => .skip
  | _ => .invalid

/-- A row is stored, counted as an issue or left out. -/
def applyRow (texts : Texts) (call : Call) (inventoryId : String) (request row : Nat)
    (raw : Value) (state : FullState) : Except SourceError FullState :=
  match checkRow texts state inventoryId raw with
  | .skip => .ok state
  | .invalid =>
      .ok { state with toSourceState := state.toSourceState.pend "invalid_operation" none }
  | .keep operationId =>
      match call.upsert request row with
      | .error error => .error error
      | .ok true => .ok { state with persisted := state.persisted + 1 }
      | .ok false => .ok { state with
          toSourceState := state.toSourceState.pend "seller_conflict" (some operationId) }

/-- `for raw in rows`, from a row on. -/
def applyRows (texts : Texts) (call : Call) (inventoryId : String) (request : Nat) :
    Nat → List Value → FullState → Except SourceError FullState
  | _, [], state => .ok state
  | row, raw :: rest, state => do
      let state ← applyRow texts call inventoryId request row raw state
      applyRows texts call inventoryId request (row + 1) rest state

/-- The rows and the scroll of a page, unless it is invalid. -/
def pageOf (pageSize : Nat) (body : Value) : Option (List Value × Option String) :=
  match body with
  | .document fields =>
      match Doc.getD fields "results", Doc.getD fields "paging" with
      | .array rows, .document paging =>
          if pageSize < rows.length then none
          else match Doc.get? paging "scroll" with
            | some .null => some (rows, none)
            | some (.string scroll) => some (rows, some scroll)
            | _ => none
      | _, _ => none
  | _ => none

/-! ### Searches -/

/-- A request for the operations of an inventory and a type. -/
abbrev Search : Type := Walk.Call (String × String) String

/-- `if state.get("scroll")`. -/
def FullState.sent (state : FullState) : Option String := state.scroll.filter fun s => s ≠ ""

/-- The state after a page. -/
def FullState.afterPage (state : FullState) (now : Int) (scroll : Option String) : FullState :=
  let observed := { state with
    scrollObservedAt := if scroll ≠ state.scroll then some now else state.scrollObservedAt
    scroll := scroll }
  match scroll with
  | some _ => observed
  | none =>
      let ended := { observed with typeIndex := state.typeIndex + 1, scrollObservedAt := none }
      if ended.typeIndex = fullSearchTypes.length then ended.advance else ended

inductive Turn
  | again (state : FullState) (search : Option Search)
  | stop (state : FullState) (blocked : String) (search : Search)

/-- Whether the item of a target still has its inventory. -/
def FullState.owns (state : FullState) (items : Items) (target : Target) : Bool :=
  (items.list.find? fun item =>
    item.id = target.itemId && item.ofSeller state.sellerId).any fun item =>
      target.inventoryId ∈ itemFullInventories item.doc state.sellerId

/-- What a page says about the search that it is of. -/
def pageAnswer : Option String → Walk.Answer String
  | some token => .more token
  | none => .ended

/-- A request for a type, and what follows from its answer. -/
def ask (texts : Texts) (call : Call) (requests : Nat) (target : Target) (kind : String)
    (state : FullState) : Except SourceError Turn :=
  let failed : Search := ⟨(target.inventoryId, kind), state.sent, .failed⟩
  match call.answer requests with
  | .status code =>
      .ok (.stop { state with lastError := some s!"http_{code}" }
        (if code = 401 ∨ code = 403 then "access_denied" else "source_retry_required") failed)
  | .unreachable =>
      .ok (.stop { state with lastError := some "source_retry_required" } "source_retry_required"
        failed)
  | .raises error => .error error
  | .page body =>
      match pageOf call.pageSize body with
      | none => .ok (.stop { state with lastError := some "invalid_page" } "invalid_page" failed)
      | some (rows, scroll) =>
          match applyRows texts call target.inventoryId requests 0 rows state with
          | .error error => .error error
          | .ok applied =>
              .ok (.again (applied.afterPage call.now scroll)
                (some ⟨(target.inventoryId, kind), state.sent, pageAnswer scroll⟩))

/-- One pass of the loop, for a target. -/
def turn (texts : Texts) (items : Items) (call : Call) (requests : Nat) (target : Target)
    (state : FullState) : Except SourceError Turn :=
  if state.owns items target = false then
    .ok (.again ({ state with
      toSourceState := state.toSourceState.pend "inventory_no_longer_owned"
        (some target.inventoryId) } : FullState).advance none)
  else match fullSearchTypes[state.typeIndex]? with
    | some kind => ask texts call requests target kind state
    | none => .error .other

/-- The state with more issues and rows. -/
def FullState.Noted (state next : FullState) : Prop :=
  ∃ base, next = { state with toSourceState := base } ∧ state.toSourceState.Noted base

theorem FullState.Noted.trans {state next last : FullState} (h : state.Noted next)
    (h' : next.Noted last) : state.Noted last := by
  obtain ⟨base, rfl, hbase⟩ := h
  obtain ⟨base', rfl, hbase'⟩ := h'
  exact ⟨base', rfl, hbase.trans hbase'⟩

theorem applyRow_noted {texts : Texts} {call : Call} {inventoryId : String} {request row : Nat}
    {raw : Value} {state next : FullState}
    (h : applyRow texts call inventoryId request row raw state = .ok next) : state.Noted next := by
  rw [applyRow] at h
  split at h
  case h_1 =>
      obtain rfl := Except.ok.inj h
      exact ⟨state.toSourceState, rfl, .refl _⟩
  case h_2 =>
      obtain rfl := Except.ok.inj h
      exact ⟨_, rfl, SourceState.noted_pend _ _ _⟩
  case h_3 operationId _ =>
      split at h
      case h_1 => cases h
      case h_2 =>
          obtain rfl := Except.ok.inj h
          exact ⟨{ state.toSourceState with persisted := state.persisted + 1 }, rfl,
            ⟨rfl, rfl, rfl, fun h => ⟨h.few, h.all⟩, fun _ h => h⟩⟩
      case h_3 =>
          obtain rfl := Except.ok.inj h
          exact ⟨_, rfl, SourceState.noted_pend _ _ _⟩

theorem applyRows_noted {texts : Texts} {call : Call} {inventoryId : String} {request row : Nat}
    {rows : List Value} {state next : FullState}
    (h : applyRows texts call inventoryId request row rows state = .ok next) :
    state.Noted next := by
  induction rows generalizing row state with
  | nil =>
      obtain rfl : state = next := Except.ok.inj h
      exact ⟨state.toSourceState, rfl, .refl _⟩
  | cons raw rest ih =>
      obtain ⟨middle, hmiddle, hrest⟩ := bind_ok h
      exact (applyRow_noted hmiddle).trans (ih hrest)

/-- The loop goes on past a target, or after a page of the search. -/
theorem turn_again {texts : Texts} {items : Items} {call : Call} {requests : Nat}
    {target : Target} {state next : FullState} {search : Option Search}
    (h : turn texts items call requests target state = .ok (.again next search)) :
    (state.owns items target = false ∧ search = none ∧
      next = ({ state with
        toSourceState := state.toSourceState.pend "inventory_no_longer_owned"
          (some target.inventoryId) } : FullState).advance) ∨
    ∃ kind applied scroll, fullSearchTypes[state.typeIndex]? = some kind ∧
      state.Noted applied ∧ next = applied.afterPage call.now scroll ∧
      search = some ⟨(target.inventoryId, kind), state.sent, pageAnswer scroll⟩ := by
  rw [turn] at h
  split at h
  case isTrue howns =>
      obtain ⟨rfl, rfl⟩ : _ = next ∧ none = search := by
        simpa only [Except.ok.injEq, Turn.again.injEq] using h
      exact .inl ⟨howns, rfl, rfl⟩
  case isFalse =>
      right
      split at h
      case h_2 => cases h
      case h_1 kind hkind =>
          rw [ask] at h
          split at h
          case h_1 => cases h
          case h_2 => cases h
          case h_3 => cases h
          case h_4 =>
              split at h
              case h_1 => cases h
              case h_2 rows scroll _ =>
                  split at h
                  case h_1 => cases h
                  case h_2 applied happlied =>
                      obtain ⟨rfl, rfl⟩ : _ = next ∧ _ = search := by
                        simpa only [Except.ok.injEq, Turn.again.injEq] using h
                      exact ⟨kind, applied, scroll, hkind, applyRows_noted happlied, rfl, rfl⟩

theorem afterPage_targets (state : FullState) (now : Int) (scroll : Option String) :
    (state.afterPage now scroll).targets = state.targets ∧
      state.inventoryIndex ≤ (state.afterPage now scroll).inventoryIndex := by
  cases scroll with
  | some token => exact ⟨rfl, le_rfl⟩
  | none =>
      rw [FullState.afterPage]
      dsimp only
      split
      · exact ⟨rfl, Nat.le_succ _⟩
      · exact ⟨rfl, le_rfl⟩

/-- Every pass of the loop takes a target or a request. -/
theorem turn_progress {texts : Texts} {items : Items} {call : Call} {requests : Nat}
    {target : Target} {state next : FullState} {search : Option Search}
    (h : turn texts items call requests target state = .ok (.again next search)) :
    next.targets = state.targets ∧ state.inventoryIndex ≤ next.inventoryIndex ∧
      (search = none → next.inventoryIndex = state.inventoryIndex + 1) := by
  obtain ⟨-, -, rfl⟩ | ⟨kind, applied, scroll, -, ⟨base, rfl, -⟩, rfl, rfl⟩ := turn_again h
  · exact ⟨rfl, Nat.le_succ _, fun _ => rfl⟩
  · obtain ⟨htargets, hindex⟩ :=
      afterPage_targets { state with toSourceState := base } call.now scroll
    exact ⟨htargets, hindex, by simp⟩

/-- Where a call returns: its checkpoint, its report and the searches that it made. -/
structure Returned where
  checkpoint : FullState
  report : Report
  searches : List Search

def returned (state : FullState) (requests : Nat) (blocked : Option String)
    (searches : List Search) : Returned :=
  ⟨state, report state.toSourceState requests blocked, searches⟩

/-- `while state["inventory_index"] < len(state["inventory_targets"])`. -/
def loop (texts : Texts) (items : Items) (call : Call) (requests : Nat) (searches : List Search)
    (state : FullState) : Except SourceError Returned :=
  if h : state.inventoryIndex < state.targets.length ∧ requests < call.maxRequests then
    match hturn : turn texts items call requests
        (getElem state.targets state.inventoryIndex h.1) state with
    | .error error => .error error
    | .ok (.stop next blocked search) =>
        .ok (returned next (requests + 1) (some blocked) (searches ++ [search]))
    | .ok (.again next none) => loop texts items call requests searches next
    | .ok (.again next (some search)) =>
        loop texts items call (requests + 1) (searches ++ [search]) next
  else .ok (returned state requests
    (if state.discoveryComplete then some "full_withdrawal_contract_incompatible" else none)
    searches)
termination_by (state.targets.length - state.inventoryIndex) + (call.maxRequests - requests)
decreasing_by
  · obtain ⟨htargets, -, hindex⟩ := turn_progress hturn
    have := hindex rfl
    rw [htargets]
    omega
  · obtain ⟨htargets, hindex, -⟩ := turn_progress hturn
    rw [htargets]
    omega

/-- A scroll that was observed five minutes ago has expired. -/
def FullState.expire (state : FullState) (now : Int) : FullState :=
  match state.scrollObservedAt with
  | some observed =>
      if 300000000 ≤ now - observed then { state with scroll := none, scrollObservedAt := none }
      else state
  | none => state

/-- The next targets, unless there are none any more. -/
def FullState.refill (items : Items) (state : FullState) : Except SourceError FullState :=
  if state.scanComplete then .ok state else selectFullInventoryPage items state

/-- What a call does with a checkpoint that it accepted. -/
def FullState.proceed (texts : Texts) (items : Items) (call : Call) (state : FullState) :
    Except SourceError Returned :=
  if state.inventoryIndex = state.targets.length then do
    let next ← state.refill items
    let selected := { next with discoveryComplete := next.exhausted }
    if selected.discoveryComplete ∨ selected.targets = [] then
      .ok (returned selected 0 (if selected.discoveryComplete then
        some (if selected.seen = [] then "full_inventory_unavailable"
          else "full_withdrawal_contract_incompatible") else none) [])
    else loop texts items call 0 [] (selected.expire call.now)
  else loop texts items call 0 [] (state.expire call.now)

/-- `collect_full_operations`. -/
def collectFullOperations (texts : Texts) (items : Items) (sellerId : String) (start stop : Int)
    (checkpoint : Option FullState) (call : Call) : Except SourceError Returned := do
  raiseIf (¬ (1 ≤ call.maxRequests ∧ call.maxRequests ≤ 100 ∧ 1 ≤ call.pageSize ∧
    call.pageSize ≤ 1000)) (.value "invalid Full request budget")
  let state ← fullState sellerId start stop checkpoint
  raiseIf (fullSearchTypes.length < state.typeIndex) (.value "invalid Full type cursor")
  let accepted ← fullInventoryCheckpoint state
  accepted.proceed texts items call

/-! ### Runs -/

/-- The last checkpoint, and the searches of the calls that returned. -/
structure Progress where
  checkpoint : Option FullState
  searches : List Search
  report : Option Report

def Progress.start : Progress := ⟨none, [], none⟩

/-- The next call goes on from the checkpoint of the last one that returned. -/
def Progress.resume (texts : Texts) (items : Items) (sellerId : String) (start stop : Int)
    (progress : Progress) (call : Call) : Progress :=
  match collectFullOperations texts items sellerId start stop progress.checkpoint call with
  | .ok result =>
      ⟨some result.checkpoint, progress.searches ++ result.searches, some result.report⟩
  | .error _ => progress

end ZelerPlatform.Sheets.Full
