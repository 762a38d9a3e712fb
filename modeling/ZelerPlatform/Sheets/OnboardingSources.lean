import ZelerPlatform.Library.Mongo.Document

/-!
# The state of an onboarding collector

A collector is called again and again with the checkpoint that its last call returned. The
checkpoint counts the issues that were met, and keeps the first of them.
-/

namespace ZelerPlatform.Sheets.Sources

open Mongo

/-- Where a call raises. -/
inductive SourceError
  | value (message : String)
  | policyWait
  | other
  deriving DecidableEq, Repr

/-- `_MAX_PENDING`. -/
def maxPending : Nat := 128

structure Issue where
  code : String
  id : Option String
  deriving DecidableEq, Repr

/-- The fields that `_state` gives every collector. -/
structure SourceState where
  sellerId : String
  source : String
  start : Int
  stop : Int
  targetIndex : Nat
  typeIndex : Nat
  offset : Nat
  pending : List Issue
  issueCount : Nat
  persisted : Nat
  discoveryComplete : Bool
  lastError : Option String
  deriving DecidableEq, Repr

/-- `seller_id.isascii() and seller_id.isdecimal()`. -/
def isNumeric (text : String) : Bool := text ≠ "" && text.toList.all Char.isDigit

/-- The text of a string or an integer. -/
def identityText : Value → String
  | .string s => s
  | .int n | .long n => toString n
  | _ => ""

/-- `_identifier`. -/
def identifier (value : Value) : Option String :=
  if identityText value = "" ∨ 128 < (identityText value).length ∨
      '/' ∈ (identityText value).toList then none
  else some (identityText value)

/-- What `_state` makes of a seller, an interval and a checkpoint. -/
def sourceState (sellerId source : String) (start stop : Int) (checkpoint : Option SourceState) :
    Except SourceError SourceState :=
  if isNumeric sellerId = false then .error (.value "numeric seller required")
  else if stop ≤ start then .error (.value "invalid interval")
  else match checkpoint with
    | none => .ok ⟨sellerId, source, start, stop, 0, 0, 0, [], 0, 0, false, none⟩
    | some state =>
        if (state.sellerId, state.source, state.start, state.stop) ≠
            (sellerId, source, start, stop) then
          .error (.value "checkpoint identity mismatch")
        else if maxPending < state.pending.length then
          .error (.value "invalid checkpoint pending budget")
        else .ok { state with lastError := none }

namespace SourceState

variable (state : SourceState)

/-- `_pending`. -/
def pend (code : String) (id : Option String) : SourceState :=
  { state with
    issueCount := state.issueCount + 1
    pending := if state.pending.length < maxPending then state.pending ++ [⟨code, id⟩]
      else state.pending }

/-- An issue is kept, or counted when as many as can be kept were met before it. -/
def Recorded (issue : Issue) : Prop :=
  issue ∈ state.pending ∨ maxPending < state.issueCount

/-- No more issues are kept than were counted, nor than can be kept. -/
structure Counted : Prop where
  few : state.pending.length ≤ maxPending
  all : min state.issueCount maxPending = state.pending.length

variable {state}

theorem Counted.pend (h : state.Counted) (code : String) (id : Option String) :
    (state.pend code id).Counted := by
  obtain ⟨hfew, hall⟩ := h
  rw [SourceState.pend]
  split
  · constructor
    · simp only [List.length_append, List.length_singleton]
      omega
    · simp only [List.length_append, List.length_singleton]
      omega
  · exact ⟨hfew, by simp only; omega⟩

theorem recorded_pend (h : state.Counted) (code : String) (id : Option String) :
    (state.pend code id).Recorded ⟨code, id⟩ := by
  have hall := h.all
  rw [Recorded, SourceState.pend]
  split
  · left
    simp
  · right
    simp only
    omega

theorem Recorded.pend {issue : Issue} (h : state.Recorded issue) (code : String)
    (id : Option String) : (state.pend code id).Recorded issue := by
  rw [Recorded, SourceState.pend] at *
  refine h.imp (fun mem => ?_) fun hlt => hlt.trans (Nat.lt_succ_self _)
  simp only
  split
  · exact List.mem_append_left _ mem
  · exact mem

theorem Recorded.issueCount_pos {issue : Issue} (h : state.Recorded issue)
    (counted : state.Counted) : 0 < state.issueCount := by
  have hall := counted.all
  obtain mem | hlt := h
  · have := List.length_pos_of_mem mem
    omega
  · omega

/-- Issues were added, and rows were stored. -/
structure Noted (state next : SourceState) : Prop where
  sellerId : next.sellerId = state.sellerId
  typeIndex : next.typeIndex = state.typeIndex
  discoveryComplete : next.discoveryComplete = state.discoveryComplete
  counted : state.Counted → next.Counted
  recorded : ∀ issue, state.Recorded issue → next.Recorded issue

theorem Noted.refl (state : SourceState) : state.Noted state := ⟨rfl, rfl, rfl, id, fun _ => id⟩

theorem Noted.trans {next last : SourceState} (h : state.Noted next) (h' : next.Noted last) :
    state.Noted last where
  sellerId := h'.sellerId.trans h.sellerId
  typeIndex := h'.typeIndex.trans h.typeIndex
  discoveryComplete := h'.discoveryComplete.trans h.discoveryComplete
  counted := h'.counted ∘ h.counted
  recorded issue := h'.recorded issue ∘ h.recorded issue

theorem noted_pend (state : SourceState) (code : String) (id : Option String) :
    state.Noted (state.pend code id) :=
  ⟨rfl, rfl, rfl, fun h => h.pend code id, fun _ h => h.pend code id⟩

end SourceState

/-- `_report`. -/
structure Report where
  requests : Nat
  discoveryComplete : Bool
  coverageComplete : Bool
  issueCount : Nat
  persisted : Nat
  pending : List Issue
  blocked : Option String
  deriving DecidableEq, Repr

def report (state : SourceState) (requests : Nat) (blocked : Option String) : Report where
  requests := requests
  discoveryComplete := state.discoveryComplete
  coverageComplete := state.discoveryComplete && state.issueCount = 0 && blocked.isNone
  issueCount := state.issueCount
  persisted := state.persisted
  pending := state.pending
  blocked := blocked

end ZelerPlatform.Sheets.Sources
