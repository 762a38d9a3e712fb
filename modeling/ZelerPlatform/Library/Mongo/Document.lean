import ZelerPlatform.Library.Mongo.Python

/-!
# Documents: fields, filters and canonical BSON

A document read by the driver is a dictionary. Its canonical form sorts the keys on every
level; with the values as they are stored it stands for the canonical BSON bytes, which
determine it and are determined by it. `StoredDoc` is a document as a collection holds it:
storing it again changes nothing, and `_id` comes first.
-/

namespace Mongo

namespace Value

/-! ### Canonical values -/

/-- Put a field in front of the first one whose key is not smaller. -/
def insertField (key : String) (value : Value) : List (String × Value) → List (String × Value)
  | [] => [(key, value)]
  | (k, v) :: rest =>
      if key ≤ k then (key, value) :: (k, v) :: rest else (k, v) :: insertField key value rest

mutual

/-- Sort the keys of a document and of all documents in it. -/
def canonical : Value → Value
  | array xs => array (canonicalList xs)
  | document fields => document (canonicalFields fields)
  | v => v

def canonicalList : List Value → List Value
  | [] => []
  | x :: xs => canonical x :: canonicalList xs

def canonicalFields : List (String × Value) → List (String × Value)
  | [] => []
  | (k, x) :: rest => insertField k (canonical x) (canonicalFields rest)

end

/-! ### What Python asks of a value -/

/-- `isinstance(value, str)`. -/
def str? : Value → Option String
  | string s => some s
  | _ => none

/-- `type(value) is int`, which a boolean and an `Int64` are not. -/
def int? : Value → Option Int
  | int n => some n
  | _ => none

/-- `isinstance(value, datetime)`; the driver's datetimes are in UTC. -/
def date? : Value → Option Int
  | date us => some us
  | _ => none

/-- `isinstance(value, Mapping)`. -/
def document? : Value → Option Doc
  | document fields => some fields
  | _ => none

def isDate (v : Value) : Bool := v.date?.isSome

end Value

namespace Doc

/-! ### Fields -/

/-- `document.get(key)`, which does not tell a missing field from a null. -/
def getD (doc : Doc) (key : String) : Value := (doc.get? key).getD .null

/-- `{**document, key: value}`, and `$set` of one field. -/
def set : Doc → String → Value → Doc
  | [], key, value => [(key, value)]
  | (k, v) :: rest, key, value =>
      if k == key then (key, value) :: rest else (k, v) :: set rest key value

/-- `{**document, **fields}`, and `$set` of several fields. -/
def setAll (doc : Doc) (fields : Doc) : Doc := fields.foldl (fun d field => d.set field.1 field.2) doc

def keys (doc : Doc) : List String := doc.map Prod.fst

/-- `set(document) == set(names)`. -/
def hasKeys (doc : Doc) (names : List String) : Bool :=
  doc.keys.all (· ∈ names) && names.all (· ∈ doc.keys)

/-- `document.get(key) == value` for every field of `expected`. -/
def agrees (doc expected : Doc) : Bool :=
  expected.all fun (k, v) => (doc.getD k).pyEq v

/-- A filter of field equalities, written into the query as BSON. -/
def matchesAll (filter doc : Doc) : Bool :=
  filter.all fun (k, v) => eqMatches (doc.get? k) v.stored

/-- The document `_canonical_bson_document` returns. -/
def canonical (doc : Doc) : Doc := Value.canonicalFields doc

/-- The canonical document with the values BSON holds: the canonical BSON bytes. -/
def canonicalBson (doc : Doc) : Doc := Value.canonicalFields (Value.storedFields doc)

variable {doc : Doc} {key k : String} {value : Value}

@[simp] theorem get?_nil : get? [] k = none := rfl

theorem get?_cons {v : Value} :
    get? ((key, v) :: doc) k = if k = key then some v else doc.get? k := by
  show List.lookup k ((key, v) :: doc) = _
  rw [List.lookup_cons]
  by_cases h : k = key
  · simp [h]
  · rw [if_neg h, beq_false_of_ne h]
    rfl

theorem get?_set : (doc.set key value).get? k = if k = key then some value else doc.get? k := by
  induction doc with
  | nil => simp [set, get?_cons]
  | cons field rest ih =>
      obtain ⟨k', v⟩ := field
      unfold set
      by_cases hk : k' = key
      · subst hk
        by_cases h : k = k' <;> simp [get?_cons, h]
      · by_cases h : k = k'
        · subst h
          simp [get?_cons, hk]
        · simp [get?_cons, hk, h, ih]

theorem getD_set :
    (doc.set key value).getD k = if k = key then value else doc.getD k := by
  unfold getD
  rw [get?_set]
  split <;> rfl

/-- Fields that are not set keep their values. -/
theorem get?_setAll_of_not_mem {fields : Doc} (h : k ∉ fields.keys) :
    (doc.setAll fields).get? k = doc.get? k := by
  induction fields generalizing doc with
  | nil => rfl
  | cons field rest ih =>
      simp only [keys, List.map_cons, List.mem_cons, not_or] at h
      show ((doc.set field.1 field.2).setAll rest).get? k = _
      rw [ih h.2, get?_set, if_neg h.1]

/-- Fields that are set have their new values. -/
theorem get?_setAll {fields : Doc} (once : fields.keys.Nodup) :
    (doc.setAll fields).get? k = (fields.get? k).or (doc.get? k) := by
  induction fields generalizing doc with
  | nil => rfl
  | cons field rest ih =>
      obtain ⟨hnew, hrest⟩ := List.nodup_cons.mp once
      show ((doc.set field.1 field.2).setAll rest).get? k = _
      rw [ih hrest, get?_set, get?_cons]
      by_cases hk : k = field.1
      · have hnone : get? rest k = none := by
          rw [get?, List.lookup_eq_none_iff]
          intro other mem
          rw [hk]
          exact bne_iff_ne.mpr fun heq => hnew (heq ▸ List.mem_map_of_mem mem)
        rw [if_pos hk, if_pos hk, hnone]
        rfl
      · rw [if_neg hk, if_neg hk]

theorem getD_setAll_of_not_mem {fields : Doc} (h : k ∉ fields.keys) :
    (doc.setAll fields).getD k = doc.getD k := by
  unfold getD
  rw [get?_setAll_of_not_mem h]

end Doc

/-! ### Stored documents -/

/-- A field of a stored document is the stored field. -/
theorem Doc.get?_storedFields {doc : Doc} {k : String} :
    Doc.get? (Value.storedFields doc) k = (doc.get? k).map Value.stored := by
  induction doc with
  | nil => rfl
  | cons field rest ih =>
      obtain ⟨key, v⟩ := field
      show Doc.get? ((key, v.stored) :: Value.storedFields rest) k = _
      rw [Doc.get?_cons, Doc.get?_cons, ih]
      split <;> rfl

namespace Value

theorem stored_eq_string {v : Value} {s : String} (h : v.stored = .string s) : v = .string s := by
  cases v with
  | string s' => exact h
  | int n =>
      simp only [stored, ofInt] at h
      split at h <;> cases h
  | _ => simp [stored] at h

/-- Only a datetime is stored as one, at its millisecond. -/
theorem stored_eq_date {v : Value} {t : Int} (h : v.stored = .date t) :
    ∃ us, v = .date us ∧ floorMs us = t := by
  cases v with
  | date us => exact ⟨us, rfl, by simpa [stored] using h⟩
  | int n =>
      simp only [stored, ofInt] at h
      split at h <;> cases h
  | _ => simp [stored] at h

mutual

@[simp] theorem stored_stored : ∀ v : Value, v.stored.stored = v.stored
  | null | bool _ | long _ | double _ | string _ | other _ _ => by simp [stored]
  | int n => by
      simp only [stored, ofInt]
      split
      · next h => simp [stored, ofInt, h]
      · simp [stored]
  | date us => by simp [stored]
  | array xs => by simp [stored, storedList_storedList xs]
  | document fields => by simp [stored, storedFields_storedFields fields]

theorem storedList_storedList : ∀ xs : List Value, storedList (storedList xs) = storedList xs
  | [] => rfl
  | x :: xs => by simp [storedList, stored_stored x, storedList_storedList xs]

@[simp] theorem storedFields_storedFields :
    ∀ fields : List (String × Value), storedFields (storedFields fields) = storedFields fields
  | [] => rfl
  | (k, x) :: rest => by simp [storedFields, stored_stored x, storedFields_storedFields rest]

end

end Value

namespace Doc

/-- Move `_id` to the front, as the server does. -/
def idFirst (doc : Doc) : Doc :=
  match doc.get? "_id" with
  | some id => ("_id", id) :: doc.filter fun field => field.1 != "_id"
  | none => doc

end Doc

/-- A document as a collection holds it. -/
structure StoredDoc where
  doc : Doc
  fixed : Value.storedFields doc = doc

namespace StoredDoc

instance : DecidableEq StoredDoc := fun a b =>
  decidable_of_iff (a.doc = b.doc) ⟨fun h => by cases a; cases b; simpa using h, fun h => h ▸ rfl⟩

/-- What the server makes of a document it is sent. -/
def ofDoc (doc : Doc) : StoredDoc := ⟨Value.storedFields doc.idFirst, by simp⟩

def id (d : StoredDoc) : Option Value := d.doc.get? "_id"

/-- A pipeline of one `$set` stage. -/
def set (d : StoredDoc) (fields : Doc) : StoredDoc :=
  ⟨Value.storedFields (d.doc.setAll fields), by simp⟩

end StoredDoc

end Mongo
