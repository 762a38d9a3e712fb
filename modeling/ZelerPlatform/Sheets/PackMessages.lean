import Mathlib
import ZelerPlatform.Library.Fallible
import ZelerPlatform.Library.Mongo.Python
import ZelerPlatform.Library.Sorted
import ZelerPlatform.Sheets.OnboardingSources

/-!
# Collection of the messages of packs

The messages of some packs are fetched a page at a time, pack after pack, from the first page of
each. A pack is visited when its last page was read, or when the marketplace does not have it.
The targets are frozen in the checkpoint of the first call.
-/

namespace ZelerPlatform.Sheets.Messages

open Fallible Mongo Sources Sorted

/-- `_id` and `date_created` of a message. -/
structure Message where
  id : String
  created : Int

/-- `str` of a stored value, and `_message_document` of a row of a pack, unless it raises. -/
structure Reading where
  text : Value → String
  message : String → String → Value → Option Message

/-- What the gateway answers to a request. -/
inductive Answer
  | status (code : Nat)
  | unreachable
  | raises (error : SourceError)
  | page (body : Value)

/-- Arguments and surroundings of one call. -/
structure Call where
  maxRequests : Nat
  pageSize : Nat
  /-- `gateway.incremental`. -/
  incremental : Bool
  answer : Nat → Answer
  /-- Whether the document of a row of a request is this seller's in the end. -/
  upsert : Nat → Nat → Except SourceError Bool

structure MessageState extends SourceState where
  targetIds : List String
  deriving DecidableEq, Repr

/-- `_safe_identifier(raw.get("id")) if isinstance(raw, dict) else None`. -/
def rowId : Value → Option String
  | .document row => identifier (Doc.getD row "id")
  | _ => none

/-- A row is stored, counted as an issue or left out. -/
def applyRow (reading : Reading) (call : Call) (pack : String) (request row : Nat) (raw : Value)
    (state : MessageState) : Except SourceError MessageState :=
  match reading.message state.sellerId pack raw with
  | none =>
      .ok { state with toSourceState := state.toSourceState.pend "invalid_message" (rowId raw) }
  | some message =>
      if state.start ≤ message.created ∧ message.created < state.stop then
        match call.upsert request row with
        | .error error => .error error
        | .ok true => .ok { state with persisted := state.persisted + 1 }
        | .ok false => .ok { state with
            toSourceState := state.toSourceState.pend "seller_conflict" (some message.id) }
      else .ok state

/-- `for raw in rows`, from a row on. -/
def applyRows (reading : Reading) (call : Call) (pack : String) (request : Nat) :
    Nat → List Value → MessageState → Except SourceError MessageState
  | _, [], state => .ok state
  | row, raw :: rest, state => do
      let state ← applyRow reading call pack request row raw state
      applyRows reading call pack request (row + 1) rest state

/-- The rows of a page and how many there are in all, unless the page is invalid. -/
def pageOf (pageSize offset : Nat) (body : Value) : Option (List Value × Int) :=
  match body with
  | .document fields =>
      match Doc.getD fields "paging", Doc.getD fields "messages" with
      | .document paging, .array rows =>
          match (Doc.getD paging "total").integer? with
          | some total =>
              if total < 0 ∨ pageSize < rows.length ∨
                  ((Doc.get? paging "offset").getD (.int offset)).pyEq (.int offset) = false then
                none
              else some (rows, total)
          | none => none
      | _, _ => none
  | _ => none

/-- `"budget exhausted" in str(error)`. -/
def isExhausted (message : String) : Bool := "budget exhausted".toList <:+: message.toList

inductive PageTurn
  | again (state : MessageState) (ended : Bool)
  | stop (state : MessageState) (blocked : String) (requests : Nat)

/-- `target_index += 1`. -/
def MessageState.nextTarget (state : MessageState) : MessageState :=
  { state with targetIndex := state.targetIndex + 1, offset := 0 }

def MessageState.failed (state : MessageState) (error : String) : MessageState :=
  { state with lastError := some error }

/-- What follows from the rows of a page. -/
def MessageState.afterPage (state : MessageState) (requests : Nat) (rows : List Value)
    (total : Int) : PageTurn :=
  if total ≤ (state.offset + rows.length : Nat) then .again state.nextTarget true
  else if rows = [] then
    .stop (state.failed "incomplete_page") "incomplete_page" (requests + 1)
  else .again { state with offset := state.offset + rows.length } false

/-- A request for a page of a pack, and what follows from its answer. -/
def ask (reading : Reading) (call : Call) (requests : Nat) (pack : String)
    (state : MessageState) : Except SourceError PageTurn :=
  match call.answer requests with
  | .status code =>
      if code = 400 ∨ code = 404 then
        .ok (.again { state with
          toSourceState := state.toSourceState.pend s!"http_{code}" (some pack) : MessageState
          }.nextTarget true)
      else .ok (.stop (state.failed s!"http_{code}")
        (if code = 401 ∨ code = 403 then "access_denied" else "source_retry_required")
        (requests + 1))
  | .raises .policyWait => .ok (.stop (state.failed "policy_wait") "policy_wait" requests)
  | .raises (.value message) =>
      if isExhausted message then
        let reason :=
          if call.incremental then "daily_budget_exhausted" else "initial_budget_exhausted"
        .ok (.stop (state.failed reason) reason requests)
      else .error (.value message)
  | .raises .other => .error .other
  | .unreachable => .ok (.stop (state.failed "source_retry_required") "source_retry_required"
      (requests + 1))
  | .page body =>
      match pageOf call.pageSize state.offset body with
      | none => .ok (.stop (state.failed "invalid_page") "invalid_page" (requests + 1))
      | some (rows, total) =>
          match applyRows reading call pack requests 0 rows state with
          | .error error => .error error
          | .ok applied => .ok (applied.afterPage requests rows total)

/-- Where a call returns: its checkpoint, its report and the packs that it visited. -/
structure Returned where
  checkpoint : MessageState
  report : Report
  visits : List String

def returned (state : MessageState) (requests : Nat) (blocked : Option String)
    (visits : List String) : Returned :=
  ⟨state, report state.toSourceState requests blocked, visits⟩

/-- `state["discovery_complete"] = state["target_index"] == len(packs)`. -/
def MessageState.finish (state : MessageState) : MessageState :=
  { state with discoveryComplete := state.targetIndex = state.targetIds.length }

/-- `while state["target_index"] < len(packs)`, with a number of requests left. -/
def loop (reading : Reading) (call : Call) :
    Nat → Nat → List String → MessageState → Except SourceError Returned
  | 0, requests, visits, state => .ok (returned state.finish requests none visits)
  | left + 1, requests, visits, state =>
      match state.targetIds[state.targetIndex]? with
      | none => .ok (returned state.finish requests none visits)
      | some pack =>
          match ask reading call requests pack state with
          | .error error => .error error
          | .ok (.stop next blocked requests) =>
              .ok (returned next requests (some blocked) visits)
          | .ok (.again next ended) =>
              loop reading call left (requests + 1)
                (if ended then visits ++ [pack] else visits) next

/-- `_identifier` of every target. -/
def identifiers (targets : List String) : Except SourceError (List String) :=
  if targets.all fun target => (identifier (.string target)).isSome then .ok targets.eraseDups
  else .error (.value "invalid source identity")

/-- `collect_pack_messages`. -/
def collectPackMessages (reading : Reading) (sellerId : String) (targets : List String)
    (start stop : Int) (checkpoint : Option MessageState) (call : Call) :
    Except SourceError Returned := do
  raiseIf (¬ (1 ≤ call.maxRequests ∧ call.maxRequests ≤ 100 ∧ 1 ≤ call.pageSize ∧
    call.pageSize ≤ 50)) (.value "invalid message request budget")
  let base ← sourceState sellerId "messages" start stop (checkpoint.map (·.toSourceState))
  let packs ← identifiers ((checkpoint.map (·.targetIds)).getD targets)
  raiseIf (10000 < packs.length)
    (.value "pack inventory exceeds the local 10000-pack batch budget")
  raiseIf (packs.all isNumeric = false) (.value "numeric pack/order IDs required")
  loop reading call call.maxRequests 0 [] { toSourceState := base, targetIds := packs }

/-! ### What a call visits -/

/-- The targets and the window of a state are frozen. -/
structure Frozen (state next : MessageState) : Prop where
  targetIds : next.targetIds = state.targetIds
  start : next.start = state.start
  stop : next.stop = state.stop
  discoveryComplete : next.discoveryComplete = state.discoveryComplete

theorem Frozen.refl (state : MessageState) : Frozen state state := ⟨rfl, rfl, rfl, rfl⟩

theorem Frozen.trans {state next last : MessageState} (h : Frozen state next)
    (h' : Frozen next last) : Frozen state last :=
  ⟨h'.targetIds.trans h.targetIds, h'.start.trans h.start, h'.stop.trans h.stop,
    h'.discoveryComplete.trans h.discoveryComplete⟩

section

variable {reading : Reading} {call : Call} {pack : String} {request requests : Nat}
  {state next : MessageState}

theorem applyRow_frozen {row : Nat} {raw : Value}
    (h : applyRow reading call pack request row raw state = .ok next) :
    Frozen state next ∧ next.targetIndex = state.targetIndex := by
  rw [applyRow] at h
  split at h
  case h_1 =>
      obtain rfl := Except.ok.inj h
      exact ⟨⟨rfl, rfl, rfl, rfl⟩, rfl⟩
  case h_2 =>
      split at h
      case isTrue =>
          split at h
          case h_1 => cases h
          case h_2 =>
              obtain rfl := Except.ok.inj h
              exact ⟨⟨rfl, rfl, rfl, rfl⟩, rfl⟩
          case h_3 =>
              obtain rfl := Except.ok.inj h
              exact ⟨⟨rfl, rfl, rfl, rfl⟩, rfl⟩
      case isFalse =>
          obtain rfl := Except.ok.inj h
          exact ⟨.refl _, rfl⟩

theorem applyRows_frozen {row : Nat} {rows : List Value}
    (h : applyRows reading call pack request row rows state = .ok next) :
    Frozen state next ∧ next.targetIndex = state.targetIndex := by
  induction rows generalizing row state with
  | nil =>
      obtain rfl : state = next := Except.ok.inj h
      exact ⟨.refl _, rfl⟩
  | cons raw rest ih =>
      obtain ⟨middle, hmiddle, hrest⟩ := bind_ok h
      obtain ⟨hfrozen, hindex⟩ := applyRow_frozen hmiddle
      obtain ⟨hfrozen', hindex'⟩ := ih hrest
      exact ⟨hfrozen.trans hfrozen', hindex'.trans hindex⟩

/-- The place among the targets moves on exactly when a pack ended. -/
theorem ask_again {ended : Bool}
    (h : ask reading call requests pack state = .ok (.again next ended)) :
    Frozen state next ∧ next.targetIndex = state.targetIndex + if ended then 1 else 0 := by
  rw [ask] at h
  split at h
  case h_1 =>
      split at h
      case isTrue =>
          obtain ⟨rfl, rfl⟩ : _ = next ∧ true = ended := by
            simpa only [Except.ok.injEq, PageTurn.again.injEq] using h
          exact ⟨⟨rfl, rfl, rfl, rfl⟩, rfl⟩
      case isFalse => cases h
  case h_2 => cases h
  case h_3 =>
      split at h
      case isTrue => cases h
      case isFalse => cases h
  case h_4 => cases h
  case h_5 => cases h
  case h_6 =>
      split at h
      case h_1 => cases h
      case h_2 rows total _ =>
          split at h
          case h_1 => cases h
          case h_2 applied happlied =>
              obtain ⟨hfrozen, hindex⟩ := applyRows_frozen happlied
              rw [Except.ok.injEq, MessageState.afterPage] at h
              split at h
              case isTrue =>
                  obtain ⟨rfl, rfl⟩ : _ = next ∧ true = ended := by
                    simpa only [PageTurn.again.injEq] using h
                  exact ⟨hfrozen.trans ⟨rfl, rfl, rfl, rfl⟩, congrArg (· + 1) hindex⟩
              case isFalse =>
                  split at h
                  case isTrue => cases h
                  case isFalse =>
                      obtain ⟨rfl, rfl⟩ : _ = next ∧ false = ended := by
                        simpa only [PageTurn.again.injEq] using h
                      exact ⟨hfrozen.trans ⟨rfl, rfl, rfl, rfl⟩, hindex⟩

theorem afterPage_stop {rows : List Value} {total : Int} {blocked : String} {used : Nat}
    (h : state.afterPage requests rows total = .stop next blocked used) :
    Frozen state next ∧ next.targetIndex = state.targetIndex := by
  rw [MessageState.afterPage] at h
  split at h
  case isTrue => cases h
  case isFalse =>
      split at h
      case isTrue =>
          obtain ⟨rfl, -, -⟩ := PageTurn.stop.inj h
          exact ⟨⟨rfl, rfl, rfl, rfl⟩, rfl⟩
      case isFalse => cases h

/-- A call that is blocked stays where it is. -/
theorem ask_stop {blocked : String} {used : Nat}
    (h : ask reading call requests pack state = .ok (.stop next blocked used)) :
    Frozen state next ∧ next.targetIndex = state.targetIndex := by
  have failed (error : String) : Frozen state (state.failed error) ∧
      (state.failed error).targetIndex = state.targetIndex := ⟨⟨rfl, rfl, rfl, rfl⟩, rfl⟩
  rw [ask] at h
  split at h
  case h_1 =>
      split at h
      case isTrue => cases h
      case isFalse =>
          obtain ⟨rfl, -, -⟩ := PageTurn.stop.inj (Except.ok.inj h)
          exact failed _
  case h_2 =>
      obtain ⟨rfl, -, -⟩ := PageTurn.stop.inj (Except.ok.inj h)
      exact failed _
  case h_3 =>
      split at h
      case isTrue =>
          obtain ⟨rfl, -, -⟩ := PageTurn.stop.inj (Except.ok.inj h)
          exact failed _
      case isFalse => cases h
  case h_4 => cases h
  case h_5 =>
      obtain ⟨rfl, -, -⟩ := PageTurn.stop.inj (Except.ok.inj h)
      exact failed _
  case h_6 =>
      split at h
      case h_1 =>
          obtain ⟨rfl, -, -⟩ := PageTurn.stop.inj (Except.ok.inj h)
          exact failed _
      case h_2 =>
          split at h
          case h_1 => cases h
          case h_2 applied happlied =>
              obtain ⟨hfrozen, hindex⟩ := applyRows_frozen happlied
              obtain ⟨hfrozen', hindex'⟩ := afterPage_stop (Except.ok.inj h)
              exact ⟨hfrozen.trans hfrozen', hindex'.trans hindex⟩

/-- What a call returns: the packs between its old place and its new one were visited. -/
structure Moved (state : MessageState) (visits : List String) (result : Returned) : Prop where
  targetIds : result.checkpoint.targetIds = state.targetIds
  start : result.checkpoint.start = state.start
  stop : result.checkpoint.stop = state.stop
  index : result.checkpoint.targetIndex ≤ state.targetIds.length
  visits : result.visits ++ state.targetIds.drop result.checkpoint.targetIndex =
    visits ++ state.targetIds.drop state.targetIndex
  complete : result.checkpoint.discoveryComplete = true →
    result.checkpoint.targetIndex = state.targetIds.length
  reported : result.report.discoveryComplete = result.checkpoint.discoveryComplete

theorem Moved.finish {visits : List String} (index : state.targetIndex ≤ state.targetIds.length) :
    Moved state visits (returned state.finish requests none visits) where
  targetIds := rfl
  start := rfl
  stop := rfl
  index := index
  visits := rfl
  complete h := of_decide_eq_true h
  reported := rfl

theorem loop_moved {left : Nat} {visits : List String} {result : Returned}
    (index : state.targetIndex ≤ state.targetIds.length)
    (unfinished : state.discoveryComplete = false)
    (h : loop reading call left requests visits state = .ok result) :
    Moved state visits result := by
  induction left generalizing requests visits state with
  | zero =>
      obtain rfl := Except.ok.inj h
      exact .finish index
  | succ left ih =>
      rw [loop] at h
      split at h
      case h_1 =>
          obtain rfl := Except.ok.inj h
          exact .finish index
      case h_2 pack hpack =>
          obtain ⟨hlt, hget⟩ := List.getElem?_eq_some_iff.mp hpack
          split at h
          case h_1 => cases h
          case h_2 next blocked used hstop =>
              obtain ⟨hfrozen, hindex⟩ := ask_stop hstop
              obtain rfl := Except.ok.inj h
              refine ⟨hfrozen.targetIds, hfrozen.start, hfrozen.stop, ?_, ?_, fun hcomplete => ?_,
                rfl⟩
              · exact hindex.le.trans index
              · exact congrArg (fun n => visits ++ state.targetIds.drop n) hindex
              · rw [returned, hfrozen.discoveryComplete, unfinished] at hcomplete
                cases hcomplete
          case h_3 next ended hagain =>
              obtain ⟨hfrozen, hindex⟩ := ask_again hagain
              have hle : next.targetIndex ≤ next.targetIds.length := by
                rw [hindex, hfrozen.targetIds]
                split <;> omega
              have hmoved := ih hle (hfrozen.discoveryComplete.trans unfinished) h
              refine ⟨hmoved.targetIds.trans hfrozen.targetIds, hmoved.start.trans hfrozen.start,
                hmoved.stop.trans hfrozen.stop, hfrozen.targetIds ▸ hmoved.index, ?_,
                fun hcomplete => hfrozen.targetIds ▸ hmoved.complete hcomplete, hmoved.reported⟩
              have hvisits := hmoved.visits
              rw [hfrozen.targetIds, hindex] at hvisits
              rw [hvisits]
              cases ended with
              | false => rfl
              | true =>
                  rw [if_pos rfl, if_pos rfl, List.drop_eq_getElem_cons hlt, hget,
                    List.append_assoc, List.singleton_append]

theorem sourceState_fresh {sellerId source : String} {start stop : Int} {base : SourceState}
    (h : sourceState sellerId source start stop none = .ok base) :
    base.targetIndex = 0 ∧ base.discoveryComplete = false ∧ base.start = start ∧
      base.stop = stop := by
  rw [sourceState] at h
  split at h
  case isTrue => cases h
  case isFalse =>
      split at h
      case isTrue => cases h
      case isFalse =>
          obtain rfl := Except.ok.inj h
          exact ⟨rfl, rfl, rfl, rfl⟩

theorem sourceState_resumed {sellerId source : String} {start stop : Int}
    {checkpoint base : SourceState}
    (h : sourceState sellerId source start stop (some checkpoint) = .ok base) :
    base.targetIndex = checkpoint.targetIndex ∧
      base.discoveryComplete = checkpoint.discoveryComplete ∧ base.start = start ∧
      base.stop = stop := by
  rw [sourceState] at h
  split at h
  case isTrue => cases h
  case isFalse =>
      split at h
      case isTrue => cases h
      case isFalse =>
          split at h
          case isTrue => cases h
          case isFalse hsame =>
              split at h
              case isTrue => cases h
              case isFalse =>
                  obtain rfl := Except.ok.inj h
                  rw [not_not, Prod.mk.injEq, Prod.mk.injEq, Prod.mk.injEq] at hsame
                  exact ⟨rfl, rfl, hsame.2.2.1, hsame.2.2.2⟩

theorem identifiers_ok {targets packs : List String} (h : identifiers targets = .ok packs)
    (once : targets.Nodup) : packs = targets := by
  rw [identifiers] at h
  split at h
  case isTrue =>
      obtain rfl := Except.ok.inj h
      exact eraseDups_of_nodup once
  case isFalse => cases h

/-- A first call visits a first part of its targets, and freezes them. -/
theorem collect_fresh {sellerId : String} {targets : List String} {start stop : Int}
    {result : Returned} (once : targets.Nodup)
    (h : collectPackMessages reading sellerId targets start stop none call = .ok result) :
    result.checkpoint.targetIds = targets ∧ result.checkpoint.start = start ∧
      result.checkpoint.stop = stop ∧ result.checkpoint.targetIndex ≤ targets.length ∧
      result.visits ++ targets.drop result.checkpoint.targetIndex = targets ∧
      (result.checkpoint.discoveryComplete = true →
        result.checkpoint.targetIndex = targets.length) ∧
      result.report.discoveryComplete = result.checkpoint.discoveryComplete := by
  obtain ⟨-, hrequests⟩ := raiseIf_ok h
  obtain ⟨base, hbase, hstate⟩ := bind_ok hrequests
  obtain ⟨packs, hpacks, hidentifiers⟩ := bind_ok hstate
  obtain ⟨-, hfew⟩ := raiseIf_ok hidentifiers
  obtain ⟨-, hloop⟩ := raiseIf_ok hfew
  obtain rfl : packs = targets := identifiers_ok hpacks once
  obtain ⟨hindex, hfalse, rfl, rfl⟩ := sourceState_fresh hbase
  have hmoved := loop_moved (hindex.le.trans (Nat.zero_le _)) hfalse hloop
  have hvisits := hmoved.visits
  rw [show base.targetIndex = 0 from hindex] at hvisits
  exact ⟨hmoved.targetIds, hmoved.start, hmoved.stop, hmoved.index, hvisits, hmoved.complete,
    hmoved.reported⟩

/-- A call goes on where its checkpoint stands. -/
theorem collect_resumed {sellerId : String} {targets : List String} {start stop : Int}
    {checkpoint : MessageState} {result : Returned} (once : checkpoint.targetIds.Nodup)
    (index : checkpoint.targetIndex ≤ checkpoint.targetIds.length)
    (unfinished : checkpoint.discoveryComplete = false)
    (h : collectPackMessages reading sellerId targets start stop (some checkpoint) call =
      .ok result) :
    result.checkpoint.targetIds = checkpoint.targetIds ∧ result.checkpoint.start = start ∧
      result.checkpoint.stop = stop ∧
      result.checkpoint.targetIndex ≤ checkpoint.targetIds.length ∧
      result.visits ++ checkpoint.targetIds.drop result.checkpoint.targetIndex =
        checkpoint.targetIds.drop checkpoint.targetIndex ∧
      (result.checkpoint.discoveryComplete = true →
        result.checkpoint.targetIndex = checkpoint.targetIds.length) ∧
      result.report.discoveryComplete = result.checkpoint.discoveryComplete := by
  obtain ⟨-, hrequests⟩ := raiseIf_ok h
  obtain ⟨base, hbase, hstate⟩ := bind_ok hrequests
  obtain ⟨packs, hpacks, hidentifiers⟩ := bind_ok hstate
  obtain ⟨-, hfew⟩ := raiseIf_ok hidentifiers
  obtain ⟨-, hloop⟩ := raiseIf_ok hfew
  obtain rfl : packs = checkpoint.targetIds := identifiers_ok hpacks once
  obtain ⟨hindex, hfalse, rfl, rfl⟩ := sourceState_resumed hbase
  have hmoved := loop_moved (hindex.le.trans index) (hfalse.trans unfinished) hloop
  have hvisits := hmoved.visits
  rw [show base.targetIndex = checkpoint.targetIndex from hindex] at hvisits
  exact ⟨hmoved.targetIds, hmoved.start, hmoved.stop, hmoved.index, hvisits, hmoved.complete,
    hmoved.reported⟩

end

end ZelerPlatform.Sheets.Messages
