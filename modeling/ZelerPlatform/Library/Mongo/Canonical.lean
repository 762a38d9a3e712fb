import Mathlib.Data.List.Sort
import ZelerPlatform.Library.Mongo.Document

/-!
# The canonical form of documents

The canonical form does not depend on the order of the keys, on any level, as long as no
document has a key twice; dictionaries never do. Documents have the same canonical BSON just
when they have the same fields, up to the order of the keys below.
-/

namespace Mongo

/-! ### Lists with keys -/

section Keyed

variable {κ α : Type*} {xs ys : List (κ × α)} {k : κ} {a : α}

theorem lookup_eq_some_iff [DecidableEq κ] (once : (xs.map Prod.fst).Nodup) :
    xs.lookup k = some a ↔ (k, a) ∈ xs := by
  induction xs with
  | nil => simp
  | cons x xs ih =>
      obtain ⟨k', b⟩ := x
      rw [List.map_cons, List.nodup_cons] at once
      rw [List.lookup_cons, List.mem_cons, Prod.mk.injEq]
      by_cases h : k = k'
      · subst h
        have hrest : (k, a) ∉ xs := fun mem => once.1 (List.mem_map.mpr ⟨(k, a), mem, rfl⟩)
        simp [hrest, eq_comm]
      · rw [beq_false_of_ne h]
        simp [h, ih once.2]

theorem lookup_perm [DecidableEq κ] (once : (xs.map Prod.fst).Nodup) (perm : xs.Perm ys) :
    xs.lookup k = ys.lookup k := by
  have honce : (ys.map Prod.fst).Nodup := (perm.map Prod.fst).nodup_iff.mp once
  ext a
  rw [lookup_eq_some_iff once, lookup_eq_some_iff honce, perm.mem_iff]

theorem lookup_map_values [BEq κ] {β : Type*} {f : α → β} :
    (xs.map fun entry => (entry.1, f entry.2)).lookup k = (xs.lookup k).map f := by
  induction xs with
  | nil => rfl
  | cons x xs ih =>
      rw [List.map_cons, List.lookup_cons, List.lookup_cons]
      cases k == x.1 with
      | true => rfl
      | false => exact ih

/-- Lists with the same entry for each key are permutations. -/
theorem perm_of_lookup [DecidableEq κ] (hxs : (xs.map Prod.fst).Nodup)
    (hys : (ys.map Prod.fst).Nodup) (same : ∀ k, xs.lookup k = ys.lookup k) : xs.Perm ys := by
  refine (List.perm_ext_iff_of_nodup hxs.of_map hys.of_map).mpr ?_
  rintro ⟨k, a⟩
  rw [← lookup_eq_some_iff hxs, ← lookup_eq_some_iff hys, same]

/-- Sorted by distinct keys, permutations are equal. -/
theorem eq_of_perm_of_keys [LE κ] [Std.IsLinearOrder κ] (once : (xs.map Prod.fst).Nodup) (perm : xs.Perm ys)
    (hxs : xs.Pairwise fun a b => a.1 ≤ b.1) (hys : ys.Pairwise fun a b => a.1 ≤ b.1) :
    xs = ys := by
  refine List.Perm.eq_of_pairwise ?_ hxs hys perm
  intro a b ha hb hab hba
  exact List.inj_on_of_nodup_map once ha (perm.symm.subset hb) (Std.le_antisymm hab hba)

end Keyed

namespace Value

mutual

/-- No document has a key twice. -/
def keysOnce : Value → Bool
  | document fields => fieldsOnce fields
  | array xs => listOnce xs
  | _ => true

def listOnce : List Value → Bool
  | [] => true
  | x :: xs => keysOnce x && listOnce xs

def fieldsOnce : List (String × Value) → Bool
  | [] => true
  | (key, v) :: rest => decide (key ∉ rest.map Prod.fst) && keysOnce v && fieldsOnce rest

end

variable {fields fields' : List (String × Value)} {xs ys : List Value} {v w : Value} {key : String}

theorem listOnce_iff : listOnce xs = true ↔ ∀ v ∈ xs, v.keysOnce = true := by
  induction xs with
  | nil => simp [listOnce]
  | cons x xs ih => simp [listOnce, ih]

theorem fieldsOnce_iff : fieldsOnce fields = true ↔
    (fields.map Prod.fst).Nodup ∧ ∀ field ∈ fields, field.2.keysOnce = true := by
  induction fields with
  | nil => simp [fieldsOnce]
  | cons field rest ih =>
      obtain ⟨key, v⟩ := field
      simp only [fieldsOnce, Bool.and_eq_true, decide_eq_true_eq, ih, List.map_cons,
        List.nodup_cons, List.forall_mem_cons]
      tauto

/-! ### Sorted keys -/

theorem insertField_perm : (insertField key v fields).Perm ((key, v) :: fields) := by
  induction fields with
  | nil => exact .refl _
  | cons field rest ih =>
      obtain ⟨k, x⟩ := field
      rw [insertField]
      split
      · exact .refl _
      · exact (ih.cons _).trans (.swap _ _ _)

theorem insertField_sorted (h : fields.Pairwise fun a b => a.1 ≤ b.1) :
    (insertField key v fields).Pairwise fun a b => a.1 ≤ b.1 := by
  induction fields with
  | nil => exact List.pairwise_singleton _ _
  | cons field rest ih =>
      obtain ⟨k, x⟩ := field
      obtain ⟨hhead, hrest⟩ := List.pairwise_cons.mp h
      rw [insertField]
      split
      · next hle =>
          refine List.pairwise_cons.mpr ⟨fun field mem => ?_, h⟩
          obtain rfl | mem := List.mem_cons.mp mem
          · exact hle
          · exact String.le_trans hle (hhead field mem)
      · next hlt =>
          refine List.pairwise_cons.mpr ⟨fun field mem => ?_, ih hrest⟩
          obtain rfl | mem := List.mem_cons.mp (insertField_perm.subset mem)
          · exact (String.le_total key k).resolve_left hlt
          · exact hhead field mem

theorem canonicalFields_perm :
    (canonicalFields fields).Perm (fields.map fun field => (field.1, field.2.canonical)) := by
  induction fields with
  | nil => exact .refl _
  | cons field rest ih => exact insertField_perm.trans (ih.cons _)

theorem canonicalFields_sorted : (canonicalFields fields).Pairwise fun a b => a.1 ≤ b.1 := by
  induction fields with
  | nil => exact .nil
  | cons field rest ih => exact insertField_sorted ih

theorem keys_canonicalFields :
    ((canonicalFields fields).map Prod.fst).Perm (fields.map Prod.fst) := by
  refine (canonicalFields_perm.map Prod.fst).trans ?_
  rw [List.map_map]
  exact .refl _

/-- The canonical form depends on the canonical values only, in any order. -/
theorem canonicalFields_congr (once : (fields.map Prod.fst).Nodup)
    (perm : (fields.map fun field => (field.1, field.2.canonical)).Perm
      (fields'.map fun field => (field.1, field.2.canonical))) :
    canonicalFields fields = canonicalFields fields' :=
  eq_of_perm_of_keys (keys_canonicalFields.nodup_iff.mpr once)
    (canonicalFields_perm.trans (perm.trans canonicalFields_perm.symm)) canonicalFields_sorted
    canonicalFields_sorted

/-! ### Storing and sorting -/

theorem storedFields_insertField :
    storedFields (insertField key v fields) = insertField key v.stored (storedFields fields) := by
  induction fields with
  | nil => rfl
  | cons field rest ih =>
      obtain ⟨k, x⟩ := field
      rw [insertField, storedFields, insertField]
      split
      · rfl
      · rw [storedFields, ih]

mutual

/-- What is stored is sorted as it was. -/
theorem stored_canonical : ∀ v : Value, v.canonical.stored = v.stored.canonical
  | null | bool _ | long _ | double _ | string _ | date _ | other _ _ => rfl
  | int n => by
      show ofInt n = (ofInt n).canonical
      rw [ofInt]
      split <;> rfl
  | array xs => by
      rw [canonical, stored, stored, canonical, storedList_canonical xs]
  | document fields => by
      rw [canonical, stored, stored, canonical, storedFields_canonical fields]

theorem storedList_canonical :
    ∀ xs : List Value, storedList (canonicalList xs) = canonicalList (storedList xs)
  | [] => rfl
  | x :: xs => by
      rw [canonicalList, storedList, storedList, canonicalList, stored_canonical x,
        storedList_canonical xs]

theorem storedFields_canonical : ∀ fields : List (String × Value),
    storedFields (canonicalFields fields) = canonicalFields (storedFields fields)
  | [] => rfl
  | (k, x) :: rest => by
      rw [canonicalFields, storedFields_insertField, storedFields, canonicalFields,
        stored_canonical x, storedFields_canonical rest]

end

theorem keys_storedFields : (storedFields fields).map Prod.fst = fields.map Prod.fst := by
  induction fields with
  | nil => rfl
  | cons field rest ih =>
      obtain ⟨k, x⟩ := field
      rw [storedFields, List.map_cons, List.map_cons, ih]

mutual

/-- Sorting twice changes nothing more. -/
theorem canonical_canonical : ∀ v : Value, v.keysOnce = true → v.canonical.canonical = v.canonical
  | null, _ | bool _, _ | int _, _ | long _, _ | double _, _ | string _, _ | date _, _
  | other _ _, _ => rfl
  | array xs, h => by
      rw [canonical, canonical, canonicalList_canonical xs h]
  | document fields, h => by
      obtain ⟨once, hvalues⟩ := fieldsOnce_iff.mp h
      have hsame := canonical_canonicalFields fields h
      rw [canonical, canonical]
      congr 1
      refine canonicalFields_congr (keys_canonicalFields.nodup_iff.mpr once) ?_
      refine (canonicalFields_perm.map _).trans ?_
      rw [List.map_map]
      exact .of_eq hsame

theorem canonicalList_canonical :
    ∀ xs : List Value, listOnce xs = true → canonicalList (canonicalList xs) = canonicalList xs
  | [], _ => rfl
  | x :: xs, h => by
      obtain ⟨hx, hxs⟩ := Bool.and_eq_true_iff.mp h
      rw [canonicalList, canonicalList, canonical_canonical x hx, canonicalList_canonical xs hxs]

theorem canonical_canonicalFields : ∀ fields : List (String × Value), fieldsOnce fields = true →
    (fields.map fun field => (field.1, field.2.canonical.canonical)) =
      fields.map fun field => (field.1, field.2.canonical)
  | [], _ => rfl
  | (k, x) :: rest, h => by
      obtain ⟨⟨-, hx⟩, hrest⟩ := (Bool.and_eq_true_iff.mp h).imp_left Bool.and_eq_true_iff.mp
      rw [List.map_cons, List.map_cons, canonical_canonical x hx,
        canonical_canonicalFields rest hrest]

end

mutual

theorem keysOnce_canonical : ∀ v : Value, v.keysOnce = true → v.canonical.keysOnce = true
  | null, _ | bool _, _ | int _, _ | long _, _ | double _, _ | string _, _ | date _, _
  | other _ _, _ => rfl
  | array xs, h => by
      rw [canonical]
      exact listOnce_canonical xs h
  | document fields, h => by
      obtain ⟨once, -⟩ := fieldsOnce_iff.mp h
      rw [canonical]
      refine fieldsOnce_iff.mpr ⟨keys_canonicalFields.nodup_iff.mpr once, fun field mem => ?_⟩
      obtain ⟨field', mem', rfl⟩ := List.mem_map.mp (canonicalFields_perm.subset mem)
      exact keysOnce_values fields h field' mem'

theorem listOnce_canonical :
    ∀ xs : List Value, listOnce xs = true → listOnce (canonicalList xs) = true
  | [], _ => rfl
  | x :: xs, h => by
      obtain ⟨hx, hxs⟩ := Bool.and_eq_true_iff.mp h
      rw [canonicalList, listOnce, keysOnce_canonical x hx, listOnce_canonical xs hxs]
      rfl

theorem keysOnce_values : ∀ fields : List (String × Value), fieldsOnce fields = true →
    ∀ field ∈ fields, field.2.canonical.keysOnce = true
  | [], _, _, mem => by cases mem
  | (k, x) :: rest, h, field, mem => by
      obtain ⟨⟨-, hx⟩, hrest⟩ := (Bool.and_eq_true_iff.mp h).imp_left Bool.and_eq_true_iff.mp
      cases mem with
      | head => exact keysOnce_canonical x hx
      | tail _ mem => exact keysOnce_values rest hrest field mem

end

mutual

theorem keysOnce_stored : ∀ v : Value, v.keysOnce = true → v.stored.keysOnce = true
  | null, _ | bool _, _ | long _, _ | double _, _ | string _, _ | date _, _ | other _ _, _ => rfl
  | int n, _ => by
      rw [stored, ofInt]
      split <;> rfl
  | array xs, h => by
      rw [stored]
      exact listOnce_stored xs h
  | document fields, h => by
      rw [stored]
      exact fieldsOnce_stored fields h

theorem listOnce_stored :
    ∀ xs : List Value, listOnce xs = true → listOnce (storedList xs) = true
  | [], _ => rfl
  | x :: xs, h => by
      obtain ⟨hx, hxs⟩ := Bool.and_eq_true_iff.mp h
      rw [storedList, listOnce, keysOnce_stored x hx, listOnce_stored xs hxs]
      rfl

theorem fieldsOnce_stored : ∀ fields : List (String × Value), fieldsOnce fields = true →
    fieldsOnce (storedFields fields) = true
  | [], _ => rfl
  | (k, x) :: rest, h => by
      obtain ⟨⟨hk, hx⟩, hrest⟩ := (Bool.and_eq_true_iff.mp h).imp_left Bool.and_eq_true_iff.mp
      rw [storedFields, fieldsOnce, keys_storedFields, hk, keysOnce_stored x hx,
        fieldsOnce_stored rest hrest]
      rfl

end

/-! ### Rearranged keys -/

/-- The same value but for the order of keys, on any level. -/
inductive Rearranged : Value → Value → Prop
  | refl (v : Value) : Rearranged v v
  | trans {u v w : Value} (first : Rearranged u v) (second : Rearranged v w) : Rearranged u w
  | keys {fields fields' : List (String × Value)} (perm : fields.Perm fields') :
      Rearranged (document fields) (document fields')
  | field {v w : Value} (pre post : List (String × Value)) (key : String) (below : Rearranged v w) :
      Rearranged (document (pre ++ (key, v) :: post)) (document (pre ++ (key, w) :: post))
  | item {v w : Value} (pre post : List Value) (below : Rearranged v w) :
      Rearranged (array (pre ++ v :: post)) (array (pre ++ w :: post))

theorem canonicalList_eq_map : canonicalList xs = xs.map canonical := by
  induction xs with
  | nil => rfl
  | cons x xs ih => rw [canonicalList, List.map_cons, ih]

/-- The order of keys is not seen in the canonical form, nor in whether keys are distinct. -/
theorem Rearranged.canonical_eq (h : Rearranged v w) :
    (v.keysOnce = true ↔ w.keysOnce = true) ∧ (v.keysOnce = true → v.canonical = w.canonical) := by
  induction h with
  | refl v => exact ⟨Iff.rfl, fun _ => rfl⟩
  | trans _ _ first second =>
      exact ⟨first.1.trans second.1, fun h => (first.2 h).trans (second.2 (first.1.mp h))⟩
  | @keys fields fields' perm =>
      refine ⟨?_, fun h => ?_⟩
      · rw [keysOnce, keysOnce, fieldsOnce_iff, fieldsOnce_iff, (perm.map Prod.fst).nodup_iff]
        exact and_congr_right fun _ => ⟨fun h f mem => h f (perm.symm.subset mem),
          fun h f mem => h f (perm.subset mem)⟩
      · rw [canonical, canonical,
          canonicalFields_congr (fieldsOnce_iff.mp h).1 (perm.map _)]
  | @field v w pre post key below ih =>
      have hvalues : (∀ f ∈ pre ++ (key, v) :: post, f.2.keysOnce = true) ↔
          ∀ f ∈ pre ++ (key, w) :: post, f.2.keysOnce = true := by
        simp only [List.forall_mem_append, List.forall_mem_cons, ih.1]
      refine ⟨?_, fun h => ?_⟩
      · rw [keysOnce, keysOnce, fieldsOnce_iff, fieldsOnce_iff, hvalues]
        simp only [List.map_append, List.map_cons]
      · obtain ⟨once, hall⟩ := fieldsOnce_iff.mp h
        have hv : v.keysOnce = true := hall (key, v) (by simp)
        rw [canonical, canonical]
        congr 1
        refine canonicalFields_congr once ?_
        simp only [List.map_append, List.map_cons, ih.2 hv]
        exact .refl _
  | @item v w pre post below ih =>
      refine ⟨?_, fun h => ?_⟩
      · rw [keysOnce, keysOnce, listOnce_iff, listOnce_iff]
        simp only [List.forall_mem_append, List.forall_mem_cons, ih.1]
      · have hv : v.keysOnce = true := listOnce_iff.mp h v (by simp)
        rw [canonical, canonical, canonicalList_eq_map, canonicalList_eq_map]
        simp only [List.map_append, List.map_cons, ih.2 hv]

end Value

namespace Doc

variable {doc doc' : Doc} {k : String} {v : Value}

/-- A dictionary: no key twice, on any level. -/
def Once (doc : Doc) : Prop := (Value.document doc).keysOnce = true

/-- The dictionary with its keys in another order, on any level. -/
def Rearranged (doc doc' : Doc) : Prop := (Value.document doc).Rearranged (.document doc')

/-- A value as it stands in the canonical bytes. -/
def bytesOf (v : Value) : Value := v.canonical.stored

theorem Once.keys (h : doc.Once) : (doc.map Prod.fst).Nodup := (Value.fieldsOnce_iff.mp h).1

theorem Once.value (h : doc.Once) (hv : doc.get? k = some v) : v.keysOnce = true :=
  (Value.fieldsOnce_iff.mp h).2 (k, v) ((lookup_eq_some_iff h.keys).mp hv)

theorem canonicalBson_eq : doc.canonicalBson = Value.storedFields doc.canonical :=
  (Value.storedFields_canonical doc).symm

theorem Rearranged.canonical (h : doc.Rearranged doc') (once : doc.Once) :
    doc.canonical = doc'.canonical :=
  Value.document.inj (h.canonical_eq.2 once)

theorem Rearranged.once (h : doc.Rearranged doc') (once : doc.Once) : doc'.Once :=
  h.canonical_eq.1.mp once

/-- A field of the canonical document. -/
theorem get?_canonical (once : (doc.map Prod.fst).Nodup) :
    doc.canonical.get? k = (doc.get? k).map Value.canonical := by
  have hperm : doc.canonical.Perm (doc.map fun field => (field.1, field.2.canonical)) :=
    Value.canonicalFields_perm
  exact (lookup_perm (Value.keys_canonicalFields.nodup_iff.mpr once) hperm).trans
    lookup_map_values

/-- A field in the canonical bytes. -/
theorem get?_canonicalBson (once : (doc.map Prod.fst).Nodup) :
    doc.canonicalBson.get? k = (doc.get? k).map bytesOf := by
  rw [canonicalBson_eq, get?_storedFields, get?_canonical once, Option.map_map]
  rfl

/-- Two documents have the same canonical bytes just when each field has. -/
theorem canonicalBson_eq_iff (once : (doc.map Prod.fst).Nodup)
    (once' : (doc'.map Prod.fst).Nodup) : doc.canonicalBson = doc'.canonicalBson ↔
      ∀ k, (doc.get? k).map bytesOf = (doc'.get? k).map bytesOf := by
  constructor
  · intro h k
    rw [← get?_canonicalBson once, ← get?_canonicalBson once', h]
  · intro h
    have hkeys {d : Doc} (hd : (d.map Prod.fst).Nodup) :
        (d.canonicalBson.map Prod.fst).Nodup := by
      refine Value.keys_canonicalFields.nodup_iff.mpr ?_
      rwa [Value.keys_storedFields]
    refine eq_of_perm_of_keys (hkeys once) ?_ Value.canonicalFields_sorted
      Value.canonicalFields_sorted
    refine perm_of_lookup (hkeys once) (hkeys once') fun k => ?_
    have hsame := h k
    rw [← get?_canonicalBson once, ← get?_canonicalBson once'] at hsame
    exact hsame

theorem bytesOf_canonical (h : v.keysOnce = true) : bytesOf v.canonical = bytesOf v := by
  rw [bytesOf, bytesOf, Value.canonical_canonical v h]

theorem bytesOf_stored : bytesOf v.stored = bytesOf v := by
  rw [bytesOf, bytesOf, ← Value.stored_canonical, Value.stored_stored]

theorem get?_filter {p : String → Bool} :
    get? (doc.filter fun field => p field.1) k = if p k then doc.get? k else none := by
  induction doc with
  | nil => simp
  | cons field rest ih =>
      obtain ⟨key, v⟩ := field
      rw [List.filter_cons]
      by_cases hk : p key
      · rw [if_pos hk, get?_cons, get?_cons, ih]
        by_cases h : k = key
        · subst h
          simp [hk]
        · simp [h]
      · rw [if_neg hk, get?_cons, ih]
        by_cases h : k = key
        · subst h
          simp [hk]
        · simp [h]

theorem get?_idFirst : doc.idFirst.get? k = doc.get? k := by
  unfold idFirst
  split
  · next id hid =>
      rw [get?_cons]
      by_cases h : k = "_id"
      · rw [if_pos h, h, hid]
      · have hfilter : get? (doc.filter fun field => field.1 != "_id") k = doc.get? k := by
          rw [get?_filter (p := (· != "_id"))]
          simp [h]
        rw [if_neg h, hfilter]
  · rfl

theorem Once.canonical (h : doc.Once) : doc.canonical.Once :=
  Value.keysOnce_canonical (.document doc) h

theorem mem_keys_set {key : String} (mem : k ∈ (doc.set key v).map Prod.fst) :
    k = key ∨ k ∈ doc.map Prod.fst := by
  induction doc with
  | nil => exact .inl (List.mem_singleton.mp mem)
  | cons field rest ih =>
      obtain ⟨key', x⟩ := field
      rw [Doc.set] at mem
      split at mem
      · exact (List.mem_cons.mp mem).imp_right (List.mem_cons_of_mem _)
      · obtain rfl | mem := List.mem_cons.mp mem
        · exact .inr List.mem_cons_self
        · exact (ih mem).imp_right (List.mem_cons_of_mem _)

theorem Once.set {key : String} (h : doc.Once) (hv : v.keysOnce = true) : (doc.set key v).Once := by
  induction doc with
  | nil => simpa [Once, Doc.set, Value.keysOnce, Value.fieldsOnce] using hv
  | cons field rest ih =>
      obtain ⟨key', x⟩ := field
      obtain ⟨⟨hkey, hx⟩, hrest⟩ := (Bool.and_eq_true_iff.mp h).imp_left Bool.and_eq_true_iff.mp
      rw [decide_eq_true_iff] at hkey
      rw [Doc.set]
      split
      · next heq =>
          rw [beq_iff_eq] at heq
          subst heq
          exact Value.fieldsOnce_iff.mpr ⟨h.keys, List.forall_mem_cons.mpr
            ⟨hv, (Value.fieldsOnce_iff.mp hrest).2⟩⟩
      · next hne =>
          have hset : Once (Doc.set rest key v) := ih hrest
          refine Value.fieldsOnce_iff.mpr ⟨List.nodup_cons.mpr ⟨fun mem => ?_, hset.keys⟩,
            List.forall_mem_cons.mpr ⟨hx, (Value.fieldsOnce_iff.mp hset).2⟩⟩
          obtain heq | mem := mem_keys_set mem
          · exact hne (beq_iff_eq.mpr heq)
          · exact hkey mem

theorem Once.idFirst (h : doc.Once) : doc.idFirst.Once := by
  unfold Doc.idFirst
  split
  · next id hid =>
      have hfilter : ((doc.filter fun field => field.1 != "_id").map Prod.fst).Nodup :=
        h.keys.sublist (List.filter_sublist.map Prod.fst)
      refine Value.fieldsOnce_iff.mpr ⟨List.nodup_cons.mpr ⟨fun mem => ?_, hfilter⟩,
        List.forall_mem_cons.mpr ⟨h.value hid, fun field mem => ?_⟩⟩
      · obtain ⟨field, mem, heq⟩ := List.mem_map.mp mem
        simpa [heq] using (List.mem_filter.mp mem).2
      · exact (Value.fieldsOnce_iff.mp h).2 field (List.mem_filter.mp mem).1
  · exact h

/-- What the server keeps of a dictionary is one. -/
theorem Once.ofDoc (h : doc.Once) : (StoredDoc.ofDoc doc).doc.Once :=
  Value.keysOnce_stored (.document doc.idFirst) h.idFirst

end Doc

end Mongo
