import Mathlib

/-!
# Dictionaries in the order of insertion

A dictionary is the list of its entries. Setting a key that is there changes its value in place;
of the values that a comprehension gives to one key the last one stays.
-/

namespace Dict

variable {κ β : Type} [DecidableEq κ] {dict pairs : List (κ × β)} {key : κ} {value : β}

/-- `dict[key] = value`. -/
def set : List (κ × β) → κ → β → List (κ × β)
  | [], key, value => [(key, value)]
  | entry :: rest, key, value =>
      if entry.1 = key then (key, value) :: rest else entry :: set rest key value

/-- `{key: value for ...}`. -/
def ofPairs (pairs : List (κ × β)) : List (κ × β) :=
  pairs.foldl (fun dict pair => set dict pair.1 pair.2) []

theorem lookup_set (dict : List (κ × β)) (key other : κ) (value : β) :
    (set dict key value).lookup other = if other = key then some value else dict.lookup other := by
  induction dict with
  | nil =>
      by_cases h : other = key
      · simp [set, h]
      · simp [set, h, List.lookup, beq_false_of_ne h]
  | cons entry rest ih =>
      obtain ⟨k, v⟩ := entry
      rw [set]
      split
      case isTrue hkey =>
          obtain rfl : k = key := hkey
          by_cases h : other = k
          · simp [h]
          · simp [List.lookup, beq_false_of_ne h, h]
      case isFalse hkey =>
          by_cases h : other = k
          · subst h
            simp [List.lookup, show ¬ other = key from hkey]
          · rw [List.lookup_cons, List.lookup_cons, beq_false_of_ne h]
            exact ih

theorem lookup_foldl_set (absent : ∀ pair ∈ pairs, pair.1 ≠ key) :
    (pairs.foldl (fun dict pair => set dict pair.1 pair.2) dict).lookup key =
      dict.lookup key := by
  induction pairs generalizing dict with
  | nil => rfl
  | cons pair rest ih =>
      obtain ⟨hpair, hrest⟩ := List.forall_mem_cons.mp absent
      rw [List.foldl_cons, ih hrest, lookup_set, if_neg hpair.symm]

/-- The last value that a key is given stays. -/
theorem lookup_ofPairs {before after : List (κ × β)} (absent : ∀ pair ∈ after, pair.1 ≠ key) :
    (ofPairs (before ++ (key, value) :: after)).lookup key = some value := by
  rw [ofPairs, List.foldl_append, List.foldl_cons, lookup_foldl_set absent, lookup_set, if_pos rfl]

/-- The value of a key is the last one it is given. -/
theorem lookup_ofPairs_reverse : (ofPairs pairs).lookup key = pairs.reverse.lookup key := by
  induction pairs using List.reverseRecOn with
  | nil => rfl
  | append_singleton rest pair ih =>
      rw [ofPairs, List.foldl_concat, ← ofPairs, lookup_set, List.reverse_append,
        List.reverse_singleton, List.singleton_append, List.lookup_cons, ih]
      by_cases h : key = pair.1
      · simp [h]
      · rw [if_neg h, beq_false_of_ne h]

theorem mem_ofPairs_of_lookup (h : (ofPairs pairs).lookup key = some value) :
    (key, value) ∈ pairs := by
  rw [lookup_ofPairs_reverse, List.lookup_eq_some_iff] at h
  obtain ⟨before, after, hpairs, -⟩ := h
  exact List.mem_reverse.mp (hpairs ▸ List.mem_append_right _ List.mem_cons_self)

theorem mem_set {entry : κ × β} (mem : entry ∈ set dict key value) :
    entry = (key, value) ∨ entry ∈ dict := by
  induction dict with
  | nil => exact .inl (List.mem_singleton.mp mem)
  | cons first rest ih =>
      rw [set] at mem
      split at mem
      · exact (List.mem_cons.mp mem).imp_right (List.mem_cons_of_mem _)
      · obtain rfl | mem := List.mem_cons.mp mem
        · exact .inr List.mem_cons_self
        · exact (ih mem).imp_right (List.mem_cons_of_mem _)

theorem mem_ofPairs {entry : κ × β} (mem : entry ∈ ofPairs pairs) : entry ∈ pairs := by
  induction pairs using List.reverseRecOn with
  | nil => exact mem
  | append_singleton rest pair ih =>
      rw [ofPairs, List.foldl_concat, ← ofPairs] at mem
      obtain rfl | mem := mem_set mem
      · exact List.mem_append_right _ (List.mem_singleton.mpr rfl)
      · exact List.mem_append_left _ (ih mem)

/-- A key that is given a value has one. -/
theorem lookup_ofPairs_isSome (mem : (key, value) ∈ pairs) :
    ((ofPairs pairs).lookup key).isSome := by
  rw [lookup_ofPairs_reverse, List.lookup_isSome_iff]
  exact ⟨(key, value), List.mem_reverse.mpr mem, beq_self_eq_true key⟩

theorem set_of_absent (absent : ∀ entry ∈ dict, entry.1 ≠ key) :
    set dict key value = dict ++ [(key, value)] := by
  induction dict with
  | nil => rfl
  | cons entry rest ih =>
      obtain ⟨hentry, hrest⟩ := List.forall_mem_cons.mp absent
      rw [set, if_neg hentry, ih hrest, List.cons_append]

theorem foldl_set_of_nodup (once : ((dict ++ pairs).map Prod.fst).Nodup) :
    pairs.foldl (fun dict pair => set dict pair.1 pair.2) dict = dict ++ pairs := by
  induction pairs generalizing dict with
  | nil => rw [List.foldl_nil, List.append_nil]
  | cons pair rest ih =>
      have hpair : ∀ entry ∈ dict, entry.1 ≠ pair.1 := by
        rw [List.map_append, List.map_cons, List.nodup_append] at once
        intro entry mem heq
        exact once.2.2 entry.1 (List.mem_map_of_mem mem) pair.1 List.mem_cons_self heq
      rw [List.foldl_cons, set_of_absent hpair, ih (by simpa using once), List.append_assoc,
        List.singleton_append]

/-- Distinct keys are kept as they come. -/
theorem ofPairs_of_nodup (once : (pairs.map Prod.fst).Nodup) : ofPairs pairs = pairs :=
  foldl_set_of_nodup (by simpa using once)

theorem lookup_map {α : Type} (f : α → κ) (g : α → β) (xs : List α) (key : κ) :
    (xs.map fun x => (f x, g x)).lookup key = (xs.find? fun x => f x = key).map g := by
  induction xs with
  | nil => rfl
  | cons x rest ih =>
      rw [List.map_cons, List.lookup_cons, List.find?_cons]
      by_cases h : f x = key
      · rw [h, beq_self_eq_true, decide_eq_true rfl]
        rfl
      · rw [beq_false_of_ne (Ne.symm h), decide_eq_false h]
        exact ih

end Dict
