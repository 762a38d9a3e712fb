import ZelerPlatform.Library.Mongo.Canonical

/-!
# Equal bytes and equal values

What is read from a collection is equal, to Python, to the value that was encoded into the same
canonical bytes, provided that no NaN and no part of a millisecond is in that value.
-/

namespace Mongo

namespace Value

mutual

/-- No NaN, and every datetime at its millisecond. -/
def exact : Value → Bool
  | double bits => decide (ofBits bits ≠ .nan)
  | date us => decide (floorMs us = us)
  | array xs => exactList xs
  | document fields => exactFields fields
  | _ => true

def exactList : List Value → Bool
  | [] => true
  | x :: xs => exact x && exactList xs

def exactFields : List (String × Value) → Bool
  | [] => true
  | (_, x) :: rest => exact x && exactFields rest

end

variable {v w : Value} {fields fields' : List (String × Value)} {key : String}

theorem exactFields_iff :
    exactFields fields = true ↔ ∀ field ∈ fields, field.2.exact = true := by
  induction fields with
  | nil => simp [exactFields]
  | cons field rest ih => simp [exactFields, ih]

theorem pyNumEq_of_num {q : Num} (hv : v.pyNum? = some q) (hw : w.pyNum? = some q)
    (number : q ≠ .nan) : pyNumEq v w = true := by
  simp [pyNumEq, hv, hw, number]

theorem eq_date_of_pyEq {t : Int} (h : v.pyEq (date t) = true) : v = date t := by
  cases v with
  | date us => exact congrArg date (beq_iff_eq.mp (show (us == t) = true from h))
  | _ => cases h

theorem eq_string_of_pyEq {s : String} (h : v.pyEq (string s) = true) : v = string s := by
  cases v with
  | string s' => exact congrArg string (beq_iff_eq.mp (show (s' == s) = true from h))
  | _ => cases h

theorem mem_keys_of_pyEqFields (h : pyEqFields fields fields' = true)
    (mem : key ∈ fields.map Prod.fst) :
    ∃ x y, (key, x) ∈ fields ∧ fields'.lookup key = some y ∧ x.pyEq y = true := by
  induction fields with
  | nil => cases mem
  | cons field rest ih =>
      obtain ⟨k, x⟩ := field
      rw [pyEqFields, Bool.and_eq_true] at h
      obtain rfl | mem := List.mem_cons.mp mem
      · cases hy : fields'.lookup key with
        | none =>
            rw [hy] at h
            cases h.1
        | some y =>
            rw [hy] at h
            exact ⟨x, y, List.mem_cons_self, rfl, h.1⟩
      · obtain ⟨x', y, mem', hy, hxy⟩ := ih h.2 mem
        exact ⟨x', y, List.mem_cons_of_mem _ mem', hy, hxy⟩

/-! ### What the bytes determine -/

theorem bytes_int (n : Int) : Doc.bytesOf (int n) = ofInt n := rfl

theorem ofInt_inj {m n : Int} (h : ofInt m = ofInt n) : m = n := by
  have hsame := congrArg integer? h
  rw [integer?_ofInt, integer?_ofInt] at hsame
  exact Option.some.inj hsame

/-- The bytes of a value that is no integer show its kind. -/
theorem ofInt_ne (n : Int) (h : ∀ m, v ≠ int m) (h' : ∀ m, v ≠ long m) : ofInt n ≠ v := by
  rw [ofInt]
  split
  case isTrue => exact (h n).symm
  case isFalse => exact (h' n).symm

theorem integer_of_bytes {n : Int} (h : (Doc.bytesOf w).integer? = some n) :
    w.pyNum? = some (.fin n) := by
  cases w with
  | int m =>
      rw [bytes_int, integer?_ofInt] at h
      obtain rfl := Option.some.inj h
      rfl
  | long m =>
      obtain rfl : m = n := Option.some.inj h
      rfl
  | _ => cases h

theorem eq_null_of_bytes (h : Doc.bytesOf w = null) : w = null := by
  cases w with
  | null => rfl
  | int n => exact absurd h (ofInt_ne n (by simp) (by simp))
  | _ => cases h

theorem eq_bool_of_bytes {b : Bool} (h : Doc.bytesOf w = bool b) : w = bool b := by
  cases w with
  | bool c => exact h
  | int n => exact absurd h (ofInt_ne n (by simp) (by simp))
  | _ => cases h

theorem eq_double_of_bytes {bits : BitVec 64} (h : Doc.bytesOf w = double bits) :
    w = double bits := by
  cases w with
  | double bits' => exact h
  | int n => exact absurd h (ofInt_ne n (by simp) (by simp))
  | _ => cases h

theorem eq_string_of_bytes {s : String} (h : Doc.bytesOf w = string s) : w = string s := by
  cases w with
  | string s' => exact h
  | int n => exact absurd h (ofInt_ne n (by simp) (by simp))
  | _ => cases h

theorem eq_other_of_bytes {r : Nat} {payload : String} (h : Doc.bytesOf w = other r payload) :
    w = other r payload := by
  cases w with
  | other r' payload' => exact h
  | int n => exact absurd h (ofInt_ne n (by simp) (by simp))
  | _ => cases h

theorem eq_date_of_bytes {t : Int} (h : Doc.bytesOf w = date t) (exact : w.exact = true) :
    w = date t := by
  cases w with
  | date us =>
      have hus : floorMs us = us := of_decide_eq_true exact
      have hdate : date (floorMs us) = date t := h
      rw [← hdate, hus]
  | int n => exact absurd h (ofInt_ne n (by simp) (by simp))
  | _ => cases h

theorem eq_array_of_bytes {xs : List Value} (h : Doc.bytesOf w = array xs) :
    ∃ ys, w = array ys ∧ storedList (canonicalList ys) = xs := by
  cases w with
  | array ys => exact ⟨ys, rfl, array.inj h⟩
  | int n => exact absurd h (ofInt_ne n (by simp) (by simp))
  | _ => cases h

theorem eq_document_of_bytes {fields : Doc} (h : Doc.bytesOf w = document fields) :
    ∃ doc : Doc, w = document doc ∧ storedFields doc.canonical = fields := by
  cases w with
  | document doc => exact ⟨doc, rfl, document.inj h⟩
  | int n => exact absurd h (ofInt_ne n (by simp) (by simp))
  | _ => cases h

/-- Documents with the same canonical bytes have as many fields. -/
theorem length_of_bytes {doc doc' : Doc} (h : storedFields doc.canonical = storedFields doc'.canonical) :
    doc.length = doc'.length := by
  have hlength (d : Doc) : (storedFields d.canonical).length = d.length := by
    rw [← List.length_map (f := Prod.fst), keys_storedFields, List.length_map]
    exact canonicalFields_perm.length_eq.trans (List.length_map _)
  rw [← hlength, h, hlength]

mutual

/-- A value that was read is equal to an exact one with the same canonical bytes. -/
theorem pyEq_of_bytes : ∀ {v w : Value}, v.keysOnce = true → w.keysOnce = true → v.stored = v →
    w.exact = true → Doc.bytesOf v = Doc.bytesOf w → v.pyEq w = true
  | null, w, _, _, _, _, h => by
      rw [eq_null_of_bytes h.symm]
      rfl
  | bool b, w, _, _, _, _, h => by
      rw [eq_bool_of_bytes h.symm]
      show pyNumEq (bool b) (bool b) = true
      exact pyNumEq_of_num rfl rfl (by simp)
  | int n, w, _, _, _, _, h => by
      have hw : w.pyNum? = some (.fin n) :=
        integer_of_bytes (by rw [← h, bytes_int, integer?_ofInt])
      exact pyNumEq_of_num rfl hw (by simp)
  | long n, w, _, _, _, _, h => by
      have hw : w.pyNum? = some (.fin n) := integer_of_bytes (by rw [← h]; rfl)
      exact pyNumEq_of_num rfl hw (by simp)
  | double bits, w, _, _, _, exact, h => by
      have hw := eq_double_of_bytes h.symm
      rw [hw] at exact ⊢
      show pyNumEq (double bits) (double bits) = true
      exact pyNumEq_of_num rfl rfl (of_decide_eq_true exact)
  | string s, w, _, _, _, _, h => by
      rw [eq_string_of_bytes h.symm]
      exact beq_self_eq_true s
  | date us, w, _, _, fixed, exact, h => by
      have hus : floorMs us = us := date.inj fixed
      have hdate : Doc.bytesOf w = date us := by
        rw [← h]
        exact congrArg date hus
      rw [eq_date_of_bytes hdate exact]
      exact beq_self_eq_true us
  | other r payload, w, _, _, _, _, h => by
      rw [eq_other_of_bytes h.symm]
      show (r == r && payload == payload) = true
      rw [beq_self_eq_true, beq_self_eq_true]
      rfl
  | array xs, w, once, once', fixed, exact, h => by
      obtain ⟨ys, rfl, hys⟩ := eq_array_of_bytes h.symm
      exact pyEqList_of_bytes once once' (array.inj fixed) exact hys.symm
  | document xs, w, once, once', fixed, exact, h => by
      obtain ⟨doc, rfl, hdoc⟩ := eq_document_of_bytes h.symm
      have hsame := (Doc.canonicalBson_eq_iff (fieldsOnce_iff.mp once).1 (fieldsOnce_iff.mp once').1).mp
        (by rw [Doc.canonicalBson_eq, Doc.canonicalBson_eq]; exact hdoc.symm)
      have hfields : pyEqFields xs doc = true :=
        pyEqFields_of_bytes once once' (document.inj fixed) exact fun field mem => by
          rw [← hsame]
          exact congrArg (Option.map Doc.bytesOf)
            ((lookup_eq_some_iff (fieldsOnce_iff.mp once).1).mpr mem).symm
      have hlength : xs.length = doc.length := length_of_bytes hdoc.symm
      show (xs.length == doc.length && pyEqFields xs doc) = true
      rw [hlength, beq_self_eq_true, hfields]
      rfl

theorem pyEqList_of_bytes : ∀ {xs ys : List Value}, listOnce xs = true → listOnce ys = true →
    storedList xs = xs → exactList ys = true →
      storedList (canonicalList xs) = storedList (canonicalList ys) → pyEqList xs ys = true
  | [], [], _, _, _, _, _ => rfl
  | [], y :: ys, _, _, _, _, h => by cases h
  | x :: xs, [], _, _, _, _, h => by cases h
  | x :: xs, y :: ys, once, once', fixed, exact, h => by
      obtain ⟨hx, hxs⟩ := Bool.and_eq_true_iff.mp once
      obtain ⟨hy, hys⟩ := Bool.and_eq_true_iff.mp once'
      obtain ⟨hexact, hexacts⟩ := Bool.and_eq_true_iff.mp exact
      obtain ⟨hfixed, hfixeds⟩ := List.cons.inj fixed
      obtain ⟨hsame, hsames⟩ := List.cons.inj h
      rw [pyEqList, pyEq_of_bytes hx hy hfixed hexact hsame,
        pyEqList_of_bytes hxs hys hfixeds hexacts hsames]
      rfl

theorem pyEqFields_of_bytes : ∀ {xs : List (String × Value)} {doc : Doc}, fieldsOnce xs = true →
    fieldsOnce doc = true → storedFields xs = xs → exactFields doc = true →
      (∀ field ∈ xs, some (Doc.bytesOf field.2) = (doc.get? field.1).map Doc.bytesOf) →
        pyEqFields xs doc = true
  | [], _, _, _, _, _, _ => rfl
  | (k, x) :: rest, doc, once, once', fixed, exact, h => by
      obtain ⟨⟨-, hx⟩, hrest⟩ := (Bool.and_eq_true_iff.mp once).imp_left Bool.and_eq_true_iff.mp
      obtain ⟨hfixed, hfixeds⟩ := List.cons.inj fixed
      obtain ⟨y, hy, hsame⟩ := Option.map_eq_some_iff.mp (h (k, x) List.mem_cons_self).symm
      have mem : (k, y) ∈ doc := (lookup_eq_some_iff (fieldsOnce_iff.mp once').1).mp hy
      have hx' : x.pyEq y = true :=
        pyEq_of_bytes hx ((fieldsOnce_iff.mp once').2 _ mem) (Prod.mk.inj hfixed).2
          (exactFields_iff.mp exact _ mem) hsame.symm
      have hlookup : doc.lookup k = some y := hy
      rw [pyEqFields, hlookup]
      show (x.pyEq y && pyEqFields rest doc) = true
      rw [hx', pyEqFields_of_bytes hrest once' hfixeds exact fun field mem =>
        h field (List.mem_cons_of_mem _ mem)]
      rfl

end

end Value

/-- A document that was read is equal to an exact one with the same canonical bytes. -/
theorem Doc.pyEq_of_canonicalBson {doc doc' : Doc} (once : doc.Once) (once' : doc'.Once)
    (fixed : Value.storedFields doc = doc) (exact : Value.exactFields doc' = true)
    (same : doc.canonicalBson = doc'.canonicalBson) : doc.pyEq doc' = true := by
  refine Value.pyEq_of_bytes once once' (congrArg Value.document fixed) exact ?_
  rw [Doc.canonicalBson_eq, Doc.canonicalBson_eq] at same
  exact congrArg Value.document same

/-- Equal documents agree in each field of the second. -/
theorem Doc.pyEq_field {doc doc' : Doc} {k : String} {y : Value} (once : doc.Once)
    (once' : doc'.Once) (h : doc.pyEq doc' = true) (hy : doc'.get? k = some y) :
    ∃ x, doc.get? k = some x ∧ x.pyEq y = true := by
  obtain ⟨hlength, hfields⟩ := Bool.and_eq_true_iff.mp
    (show (doc.length == doc'.length && Value.pyEqFields doc doc') = true from h)
  have hkeys : doc.map Prod.fst ⊆ doc'.map Prod.fst := fun key mem => by
    obtain ⟨x, z, -, hz, -⟩ := Value.mem_keys_of_pyEqFields hfields mem
    exact List.mem_map_of_mem (f := Prod.fst) ((lookup_eq_some_iff once'.keys).mp hz)
  have hperm : (doc.map Prod.fst).Perm (doc'.map Prod.fst) := by
    refine (List.subperm_of_subset once.keys hkeys).perm_of_length_le ?_
    rw [List.length_map, List.length_map, beq_iff_eq.mp hlength]
  have hmem : k ∈ doc.map Prod.fst := hperm.mem_iff.mpr
    (List.mem_map_of_mem (f := Prod.fst) ((lookup_eq_some_iff once'.keys).mp hy))
  obtain ⟨x, z, mem, hz, hxz⟩ := Value.mem_keys_of_pyEqFields hfields hmem
  obtain rfl : z = y := Option.some.inj (hz.symm.trans hy)
  exact ⟨x, (lookup_eq_some_iff once.keys).mpr mem, hxz⟩

/-- Equal documents agree in each field of the first. -/
theorem Doc.get?_of_pyEq {doc doc' : Doc} {k : String} {x : Value} (h : doc.pyEq doc' = true)
    (hx : doc.get? k = some x) : ∃ y, doc'.get? k = some y ∧ x.pyEq y = true := by
  obtain ⟨-, hfields⟩ := Bool.and_eq_true_iff.mp
    (show (doc.length == doc'.length && Value.pyEqFields doc doc') = true from h)
  clear h
  induction doc with
  | nil => cases hx
  | cons field rest ih =>
      obtain ⟨key, v⟩ := field
      obtain ⟨hfirst, hrest⟩ := Bool.and_eq_true_iff.mp hfields
      rw [Doc.get?_cons] at hx
      by_cases hkey : k = key
      · rw [if_pos hkey] at hx
        obtain rfl := Option.some.inj hx
        cases hlookup : doc'.lookup key with
        | none =>
            rw [hlookup] at hfirst
            cases hfirst
        | some y =>
            rw [hlookup] at hfirst
            exact ⟨y, hkey ▸ hlookup, hfirst⟩
      · rw [if_neg hkey] at hx
        exact ih hx hrest

theorem Value.eq_string_of_string_pyEq {s : String} {v : Value}
    (h : (Value.string s).pyEq v = true) : v = .string s := by
  cases v with
  | string t => exact congrArg Value.string (beq_iff_eq.mp (show (s == t) = true from h)).symm
  | _ => cases h

end Mongo
