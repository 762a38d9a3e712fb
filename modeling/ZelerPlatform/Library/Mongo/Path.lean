import Mathlib.Data.List.Basic
import ZelerPlatform.Library.Mongo.Document
import ZelerPlatform.Library.Mongo.Python

/-!
# Dotted paths

A query follows a path through documents and through the documents in arrays, so it may reach
no value, one or several. Python code that follows the path key by key reaches a value only
through documents. Parts that are positions in an array are not considered.
-/

namespace Mongo

/-- The parts of a dotted path. -/
def pathParts (path : String) : List String :=
  (path.toList.splitOn '.').map String.ofList

namespace Value

/-- The values a query reaches. -/
def reach : List String → Value → List Value
  | [], v => [v]
  | part :: rest, document fields => (fields.lookup part).elim [] (reach rest)
  | part :: rest, array xs => xs.flatMap fun x =>
      match x with
      | document fields => (fields.lookup part).elim [] (reach rest)
      | _ => []
  | _ :: _, _ => []

/-- The value reached through documents alone. -/
def follow : List String → Value → Option Value
  | [], v => some v
  | part :: rest, document fields => (fields.lookup part).bind (follow rest)
  | _ :: _, _ => none

/-- An array on the way, from which a query goes on into its elements. -/
def throughArray : List String → Value → Bool
  | [], _ => false
  | _ :: _, array _ => true
  | part :: rest, document fields => (fields.lookup part).any (throughArray rest)
  | _ :: _, _ => false

/-- `{path: {$exists: true}}` over the values reached. -/
def existsMatches (reached : List Value) : Bool := !reached.isEmpty

/-- Whether a value is a date at or before an instant. -/
def isDateBy (t : Int) : Value → Bool
  | date s => s ≤ t
  | _ => false

/-- `{path: {$lte: date}}` over the values reached, which looks into arrays as well. -/
def lteDateMatches (reached : List Value) (t : Int) : Bool :=
  reached.any fun v => (candidates (some v)).any (isDateBy t)

/-- `{path: value}` over the values reached, for a value other than null. -/
def equalMatches (reached : List Value) (value : Value) : Bool :=
  reached.any fun v => (candidates (some v)).any fun w => w.compare value == .eq

variable {path : List String} {v w : Value}

/-- Where no array lies on the way, a query reaches what Python does. -/
theorem reach_of_not_throughArray (h : v.throughArray path = false) :
    v.reach path = (v.follow path).toList := by
  induction path generalizing v with
  | nil => rfl
  | cons part rest ih =>
      cases v with
      | document fields =>
          simp only [throughArray] at h
          simp only [reach, follow]
          cases hlookup : fields.lookup part with
          | none => rfl
          | some next =>
              rw [hlookup] at h
              exact ih h
      | array xs => cases h
      | _ => rfl

theorem follow_of_throughArray (h : v.throughArray path = true) : v.follow path = none := by
  induction path generalizing v with
  | nil => cases h
  | cons part rest ih =>
      cases v with
      | document fields =>
          simp only [throughArray] at h
          simp only [follow]
          cases hlookup : fields.lookup part with
          | none => rfl
          | some next =>
              rw [hlookup] at h
              exact ih h
      | array xs => rfl
      | _ => cases h

/-- What a stored value holds at the end of a path is stored as well. -/
theorem stored_of_follow (hv : v.stored = v) (h : v.follow path = some w) : w.stored = w := by
  induction path generalizing v with
  | nil =>
      obtain rfl := Option.some.inj h
      exact hv
  | cons part rest ih =>
      cases v with
      | document fields =>
          obtain ⟨next, hnext, hrest⟩ := Option.bind_eq_some_iff.mp h
          refine ih ?_ hrest
          have hfields : storedFields fields = fields := document.inj hv
          have hstored : Doc.get? (storedFields fields) part = (Doc.get? fields part).map stored :=
            Doc.get?_storedFields
          rw [hfields] at hstored
          rw [show fields.lookup part = Doc.get? fields part from rfl] at hnext
          rw [hnext, Option.map_some] at hstored
          exact (Option.some.inj hstored).symm
      | _ => cases h

/-- Of a stored date the milliseconds are whole. -/
theorem floorMs_of_stored_date {t : Int} (h : (date t).stored = date t) : floorMs t = t :=
  date.inj h

end Value

end Mongo
