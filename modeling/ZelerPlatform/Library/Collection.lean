import Mathlib.Data.List.Forall2
import Mathlib.Data.List.MinMax
import Mathlib.Data.List.Nodup

/-!
# Collections of documents with a unique key

A collection lists its documents in natural order, no two of them under one key. An
update changes every document a filter selects and keeps its key; an update whose filter
names a key changes one document at most. An insertion takes a key that is not there yet.
The writes of one document report what they did, as those of a driver do.
-/

universe u v

/-- The order of sort keys, which computes also where Mathlib's other orders are in scope. -/
instance (priority := 2000) intPreorder : Preorder Int := Int.instLinearOrder.toPreorder

/-- Documents of type `α`, no two of which have the same key. -/
structure Collection {α : Type u} {κ : Type v} (key : α → κ) where
  docs : List α
  nodup : (docs.map key).Nodup

namespace Collection

variable {α : Type u} {κ : Type v} {key : α → κ} {c : Collection key} {p q : α → Bool}

/-- The collection without documents. -/
def empty : Collection key := ⟨[], List.nodup_nil⟩

@[simp] theorem docs_empty : (empty : Collection key).docs = [] := rfl

@[ext] theorem ext {c d : Collection key} (h : c.docs = d.docs) : c = d := by
  cases c
  cases d
  simpa using h

def findOne (c : Collection key) (p : α → Bool) : Option α := c.docs.find? p

def find (c : Collection key) (p : α → Bool) : List α := c.docs.filter p

def count (c : Collection key) (p : α → Bool) : Nat := c.docs.countP p

/-- The first document of a sorted search. -/
def findFirst {β : Type*} [LinearOrder β] (c : Collection key) (p : α → Bool) (sort : α → β) :
    Option α :=
  (c.find p).argmin sort

theorem findOne_mem {a : α} (h : c.findOne p = some a) : a ∈ c.docs ∧ p a = true :=
  ⟨List.mem_of_find?_eq_some h, List.find?_some h⟩

theorem findOne_none (h : c.findOne p = none) {a : α} (mem : a ∈ c.docs) : p a = false := by
  have := List.find?_eq_none.mp h a mem
  simpa using this

theorem findFirst_mem {β : Type*} [LinearOrder β] {sort : α → β} {a : α}
    (h : c.findFirst p sort = some a) : a ∈ c.docs ∧ p a = true :=
  List.mem_filter.mp (List.argmin_mem h)

theorem find_mem {a : α} : a ∈ c.find p ↔ a ∈ c.docs ∧ p a = true := List.mem_filter

/-- Two documents under one key are the same document. -/
theorem eq_of_key {a b : α} (ha : a ∈ c.docs) (hb : b ∈ c.docs) (h : key a = key b) : a = b :=
  List.inj_on_of_nodup_map c.nodup ha hb h

/-! ### Updates -/

/-- The filter selects a document. -/
def matched (c : Collection key) (p : α → Bool) : Bool := c.docs.any p

/-- Change every document the filter selects. -/
def update (c : Collection key) (p : α → Bool) (f : α → α) (keeps : ∀ a, key (f a) = key a) :
    Collection key where
  docs := c.docs.map fun a => if p a then f a else a
  nodup := by
    have : (c.docs.map fun a => if p a then f a else a).map key = c.docs.map key := by
      rw [List.map_map]
      refine List.map_congr_left fun a _ => ?_
      simp only [Function.comp_apply]
      split
      · exact keeps a
      · rfl
    rw [this]
    exact c.nodup

variable {f : α → α} {keeps : ∀ a, key (f a) = key a}

theorem matched_eq_false : c.matched p = false ↔ ∀ a ∈ c.docs, p a = false := by
  simp [matched]

theorem mem_update {b : α} :
    b ∈ (c.update p f keeps).docs ↔ ∃ a ∈ c.docs, (if p a then f a else a) = b :=
  List.mem_map

/-- An update that selects nothing leaves the collection as it was. -/
theorem update_of_not_matched (h : c.matched p = false) : c.update p f keeps = c := by
  apply ext
  show c.docs.map _ = c.docs
  conv_rhs => rw [← List.map_id c.docs]
  refine List.map_congr_left fun a mem => ?_
  simp [matched_eq_false.mp h a mem]

/-- An update that selects the documents of one key changes one document in its place. -/
theorem docs_update_of_eq {a : α} {before after : List α} (hdocs : c.docs = before ++ a :: after)
    (h : ∀ b ∈ c.docs, p b = true ↔ key b = key a) :
    (c.update p f keeps).docs = before ++ f a :: after := by
  have hnodup := c.nodup
  rw [hdocs, List.map_append, List.map_cons, List.nodup_middle, ← List.map_append] at hnodup
  have hother (b : α) (hb : b ∈ before ++ after) : (if p b then f b else b) = b := by
    refine if_neg fun hp => (List.nodup_cons.mp hnodup).1 ?_
    have hmem : b ∈ c.docs := by
      rw [hdocs]
      exact List.mem_append.mpr ((List.mem_append.mp hb).imp_right (List.mem_cons_of_mem a))
    exact (h b hmem).mp hp ▸ List.mem_map_of_mem hb
  show c.docs.map _ = _
  rw [hdocs, List.map_append, List.map_cons, if_pos ((h a (by simp [hdocs])).mpr rfl)]
  congr 1
  · exact (List.map_congr_left fun b hb => hother b (List.mem_append_left _ hb)).trans
      (List.map_id _)
  · congr 1
    exact (List.map_congr_left fun b hb => hother b (List.mem_append_right _ hb)).trans
      (List.map_id _)

/-- A filter that selects documents of one key only adds at most one to a count. -/
theorem count_or_le_succ {k : κ} (h : ∀ a ∈ c.docs, p a = true → key a = k) :
    (c.count fun a => q a || p a) ≤ c.count q + 1 := by
  have hp : c.docs.countP p ≤ 1 := by
    classical
    calc c.docs.countP p ≤ c.docs.countP (fun a => decide (key a = k)) :=
          List.countP_mono_left fun a mem ha => by simpa using h a mem ha
      _ = (c.docs.map key).count k := by
          rw [List.count, List.countP_map]
          refine List.countP_congr fun a _ => ?_
          simp
      _ ≤ 1 := List.nodup_iff_count_le_one.mp c.nodup k
  have hor : (c.docs.countP fun a => q a || p a) ≤ c.docs.countP q + c.docs.countP p := by
    generalize c.docs = docs
    induction docs with
    | nil => simp
    | cons a docs ih =>
        simp only [List.countP_cons]
        cases q a <;> cases p a <;> simp <;> omega
  show c.docs.countP _ ≤ c.docs.countP q + 1
  omega

/-! ### Documents that change in place

`Moves r c d` says that `d` has the documents of `c` at the same places, each of them moved
on by `r`. Updates in place are moves, and moves compose. -/

/-- The documents of one collection have become those of another, each as `r` allows. -/
def Moves (r : α → α → Prop) (c d : Collection key) : Prop := List.Forall₂ r c.docs d.docs

namespace Moves

variable {r : α → α → Prop} {d e : Collection key}

theorem refl (h : ∀ a, r a a) (c : Collection key) : Moves r c c :=
  List.forall₂_same.mpr fun a _ => h a

theorem trans (htrans : ∀ {a b c}, r a b → r b c → r a c) (first : Moves r c d)
    (second : Moves r d e) : Moves r c e := by
  unfold Moves at *
  generalize c.docs = xs at *
  generalize d.docs = ys at *
  generalize e.docs = zs at *
  induction first generalizing zs with
  | nil => exact second
  | cons hab _ ih =>
      cases second with
      | cons hbc rest => exact .cons (htrans hab hbc) (ih _ rest)

theorem update (keeps : ∀ a, key (f a) = key a) (stays : ∀ a, r a a)
    (h : ∀ a ∈ c.docs, p a = true → r a (f a)) : Moves r c (c.update p f keeps) := by
  show List.Forall₂ r c.docs (c.docs.map _)
  rw [List.forall₂_map_right_iff, List.forall₂_same]
  intro a mem
  split
  · exact h a mem ‹_›
  · exact stays a

theorem mono {r' : α → α → Prop} (h : ∀ a b, r a b → r' a b) (moves : Moves r c d) :
    Moves r' c d := List.Forall₂.imp h moves

/-- Every document there is now has moved on from one that was there before. -/
theorem source (moves : Moves r c d) {b : α} (mem : b ∈ d.docs) : ∃ a ∈ c.docs, r a b := by
  unfold Moves at moves
  generalize c.docs = xs at moves
  generalize d.docs = ys at moves mem
  induction moves with
  | nil => cases mem
  | cons hab _ ih =>
      rcases List.mem_cons.mp mem with rfl | mem
      · exact ⟨_, List.mem_cons_self, hab⟩
      · obtain ⟨a, ha, h⟩ := ih mem
        exact ⟨a, List.mem_cons_of_mem _ ha, h⟩

/-- What moves never make true is counted no more often after them. -/
theorem count_le {q' : α → Bool} (h : ∀ a b, r a b → q b = true → q' a = true)
    (moves : Moves r c d) : d.count q ≤ c.count q' := by
  show d.docs.countP q ≤ c.docs.countP q'
  unfold Moves at moves
  generalize c.docs = xs at moves
  generalize d.docs = ys at moves
  induction moves with
  | nil => simp
  | cons hab _ ih =>
      simp only [List.countP_cons]
      have := h _ _ hab
      split
      · rw [if_pos (this ‹_›)]
        omega
      · omega

end Moves

/-! ### Insertions -/

variable [DecidableEq κ]

/-- Add a document, or nothing if its key is taken. -/
def insert (c : Collection key) (a : α) : Option (Collection key) :=
  if h : key a ∈ c.docs.map key then none
  else some ⟨c.docs ++ [a], by
    rw [List.map_append]
    exact c.nodup.append (List.nodup_singleton _) (by simpa using h)⟩

theorem insert_docs {a : α} {d : Collection key} (h : c.insert a = some d) :
    d.docs = c.docs ++ [a] := by
  unfold insert at h
  split at h
  · simp at h
  · simp only [Option.some.injEq] at h
    rw [← h]

theorem count_insert {a : α} {d : Collection key} (h : c.insert a = some d) :
    d.count q = c.count q + if q a then 1 else 0 := by
  show d.docs.countP q = c.docs.countP q + _
  rw [insert_docs h, List.countP_append, List.countP_singleton]

/-! ### Documents by key -/

/-- The document under a key. -/
def byKey (c : Collection key) (k : κ) : Option α := c.findOne fun a => key a = k

theorem byKey_some {k : κ} {a : α} : c.byKey k = some a ↔ a ∈ c.docs ∧ key a = k := by
  constructor
  · intro h
    obtain ⟨mem, hk⟩ := findOne_mem h
    exact ⟨mem, by simpa using hk⟩
  · rintro ⟨mem, hk⟩
    cases hfind : c.byKey k with
    | none => simpa [hk] using findOne_none hfind mem
    | some b =>
        obtain ⟨hb, hkb⟩ := findOne_mem hfind
        have hkey : key b = k := by simpa using hkb
        rw [eq_of_key mem hb (hk.trans hkey.symm)]

theorem byKey_none {k : κ} : c.byKey k = none ↔ ∀ a ∈ c.docs, key a ≠ k := by
  simp [byKey, findOne]

/-- A filter that asks for a key finds the document under it or nothing. -/
theorem findOne_of_key {k : κ} (h : ∀ a, p a = true → key a = k) :
    c.findOne p = (c.byKey k).filter p := by
  cases hfind : c.findOne p with
  | some a =>
      obtain ⟨mem, hp⟩ := findOne_mem hfind
      rw [byKey_some.mpr ⟨mem, h a hp⟩, Option.filter_some, if_pos hp]
  | none =>
      cases hk : c.byKey k with
      | none => rfl
      | some a => simp [Option.filter_some, findOne_none hfind (byKey_some.mp hk).1]

theorem byKey_update {f : α → α} {keeps : ∀ a, key (f a) = key a} {k : κ} :
    (c.update p f keeps).byKey k = (c.byKey k).map fun a => if p a then f a else a := by
  have hkey : ∀ a, key (if p a then f a else a) = key a := fun a => by
    split
    · exact keeps a
    · rfl
  refine Option.ext fun b => ?_
  rw [byKey_some, mem_update, Option.map_eq_some_iff]
  constructor
  · rintro ⟨⟨a, mem, rfl⟩, hk⟩
    exact ⟨a, byKey_some.mpr ⟨mem, (hkey a).symm.trans hk⟩, rfl⟩
  · rintro ⟨a, ha, rfl⟩
    obtain ⟨mem, hk⟩ := byKey_some.mp ha
    exact ⟨⟨a, mem, rfl⟩, (hkey a).trans hk⟩

/-- Put a document in the place of the one under its key. -/
def replace (c : Collection key) (a : α) : Collection key :=
  c.update (fun b => key b = key a) (fun b => if key b = key a then a else b)
    fun b => by by_cases h : key b = key a <;> simp [h]

theorem mem_replace {a b : α} :
    b ∈ (c.replace a).docs ↔ (b ∈ c.docs ∧ key b ≠ key a) ∨ (b = a ∧ ∃ d ∈ c.docs, key d = key a) := by
  constructor
  · intro h
    obtain ⟨d, mem, rfl⟩ := mem_update.mp h
    by_cases hd : key d = key a
    · exact .inr ⟨by simp [hd], d, mem, hd⟩
    · exact .inl (by simp [hd, mem])
  · rintro (⟨mem, hb⟩ | ⟨rfl, d, mem, hd⟩)
    · exact mem_update.mpr ⟨b, mem, by simp [hb]⟩
    · exact mem_update.mpr ⟨d, mem, by simp [hd]⟩

theorem docs_replace {a : α} :
    (c.replace a).docs = c.docs.map fun b => if key b = key a then a else b := by
  refine List.map_congr_left fun b _ => ?_
  by_cases h : key b = key a <;> simp [h]

theorem docs_replace_of_mem {a b : α} (mem : b ∈ c.docs) (same : key a = key b) :
    ∃ before after, c.docs = before ++ b :: after ∧
      (c.replace a).docs = before ++ a :: after := by
  obtain ⟨before, after, hdocs⟩ := List.append_of_mem mem
  refine ⟨before, after, hdocs, ?_⟩
  rw [replace, docs_update_of_eq hdocs fun d _ => by rw [decide_eq_true_eq, same],
    if_pos same.symm]

/-- A document is found in the place of one that the filter judges alike. -/
theorem find_replace {a : α} (alike : ∀ b ∈ c.docs, key b = key a → p b = p a) :
    (c.replace a).find p = (c.find p).map fun b => if key b = key a then a else b := by
  rw [find, find, docs_replace]
  generalize c.docs = docs at alike
  induction docs with
  | nil => rfl
  | cons b docs ih =>
      obtain ⟨hb, hdocs⟩ := List.forall_mem_cons.mp alike
      have hp : p (if key b = key a then a else b) = p b := by
        by_cases hkey : key b = key a
        · rw [if_pos hkey, hb hkey]
        · rw [if_neg hkey]
      rw [List.map_cons, List.filter_cons, List.filter_cons, hp, ih hdocs]
      cases p b with
      | true => rfl
      | false => rfl

/-- A document in the place of one that a filter judges alike changes no count. -/
theorem length_find_replace {a : α} (alike : ∀ b ∈ c.docs, key b = key a → p b = p a) :
    ((c.replace a).find p).length = (c.find p).length := by
  rw [find_replace alike, List.length_map]

/-- A document in its own place changes nothing. -/
theorem replace_self {a : α} (mem : a ∈ c.docs) : c.replace a = c := by
  apply ext
  rw [docs_replace]
  conv_rhs => rw [← List.map_id c.docs]
  refine List.map_congr_left fun b hb => ?_
  by_cases h : key b = key a
  · rw [if_pos h, eq_of_key hb mem h, id]
  · rw [if_neg h, id]

/-- Take out the document under a key. -/
def erase (c : Collection key) (k : κ) : Collection key where
  docs := c.docs.filter fun a => key a ≠ k
  nodup := c.nodup.sublist (List.filter_sublist.map key)

theorem mem_erase {a : α} {k : κ} : a ∈ (c.erase k).docs ↔ a ∈ c.docs ∧ key a ≠ k := by
  simp [erase]

theorem mem_insert {a b : α} {d : Collection key} (h : c.insert a = some d) :
    b ∈ d.docs ↔ b ∈ c.docs ∨ b = a := by
  rw [insert_docs h, List.mem_append, List.mem_singleton]

theorem insert_eq_none {a : α} : c.insert a = none ↔ ∃ b, c.byKey (key a) = some b := by
  unfold insert
  split
  · next h =>
      obtain ⟨b, mem, hb⟩ := List.mem_map.mp h
      simp only [true_iff]
      exact ⟨b, byKey_some.mpr ⟨mem, hb⟩⟩
  · next h =>
      simp only [reduceCtorEq, false_iff, not_exists]
      intro b hb
      obtain ⟨mem, hkb⟩ := byKey_some.mp hb
      exact h (List.mem_map.mpr ⟨b, mem, hkb⟩)

theorem byKey_replace {a : α} {k : κ} :
    (c.replace a).byKey k = if k = key a then (c.byKey k).map fun _ => a else c.byKey k := by
  refine Option.ext fun b => ?_
  rw [byKey_some, mem_replace]
  by_cases hk : k = key a
  · subst hk
    simp only [if_true, Option.map_eq_some_iff, byKey_some]
    constructor
    · rintro ⟨⟨-, hne⟩ | ⟨rfl, d, mem, hd⟩, hb⟩
      · exact absurd hb hne
      · exact ⟨d, ⟨mem, hd⟩, rfl⟩
    · rintro ⟨d, ⟨mem, hd⟩, rfl⟩
      exact ⟨.inr ⟨rfl, d, mem, hd⟩, rfl⟩
  · rw [if_neg hk, byKey_some]
    constructor
    · rintro ⟨⟨mem, -⟩ | ⟨rfl, -⟩, hb⟩
      · exact ⟨mem, hb⟩
      · exact absurd hb.symm hk
    · rintro ⟨mem, hb⟩
      exact ⟨.inl ⟨mem, hb ▸ hk⟩, hb⟩

theorem byKey_erase {k k' : κ} :
    (c.erase k').byKey k = if k = k' then none else c.byKey k := by
  refine Option.ext fun b => ?_
  rw [byKey_some, mem_erase]
  by_cases hk : k = k'
  · subst hk
    simp only [if_true, reduceCtorEq, iff_false]
    rintro ⟨⟨-, hne⟩, hb⟩
    exact hne hb
  · rw [if_neg hk, byKey_some]
    constructor
    · rintro ⟨⟨mem, -⟩, hb⟩
      exact ⟨mem, hb⟩
    · rintro ⟨mem, hb⟩
      exact ⟨⟨mem, hb ▸ hk⟩, hb⟩

theorem byKey_insert {a : α} {d : Collection key} {k : κ} (h : c.insert a = some d) :
    d.byKey k = if k = key a then some a else c.byKey k := by
  refine Option.ext fun b => ?_
  have hfree : c.byKey (key a) = none := by
    cases hb : c.byKey (key a) with
    | none => rfl
    | some b => rw [insert_eq_none.mpr ⟨b, hb⟩] at h; cases h
  rw [byKey_some, mem_insert h]
  by_cases hk : k = key a
  · subst hk
    simp only [if_true, Option.some.injEq]
    constructor
    · rintro ⟨mem | rfl, hb⟩
      · exact absurd hb (byKey_none.mp hfree b mem)
      · rfl
    · rintro rfl
      exact ⟨.inr rfl, rfl⟩
  · rw [if_neg hk, byKey_some]
    constructor
    · rintro ⟨mem | rfl, hb⟩
      · exact ⟨mem, hb⟩
      · exact absurd hb.symm hk
    · rintro ⟨mem, hb⟩
      exact ⟨.inl mem, hb⟩

/-- Put a document in the place of the one under its key, or add it. -/
def put (c : Collection key) (a : α) : Collection key := (c.insert a).getD (c.replace a)

theorem byKey_put {a : α} {k : κ} :
    (c.put a).byKey k = if k = key a then some a else c.byKey k := by
  unfold put
  cases hinsert : c.insert a with
  | some d => exact byKey_insert hinsert
  | none =>
      obtain ⟨b, hb⟩ := insert_eq_none.mp hinsert
      rw [Option.getD_none, byKey_replace]
      by_cases hk : k = key a
      · rw [if_pos hk, if_pos hk, hk, hb, Option.map_some]
      · rw [if_neg hk, if_neg hk]

/-! ### Writes of one document -/

/-- What a write reports. -/
structure WriteResult (κ : Type v) where
  matched : Nat
  modified : Nat
  upserted : Option κ

inductive WriteError
  | duplicateKey
  | immutableKey
  deriving DecidableEq, Repr

variable [DecidableEq α]

/-- Change the first document the filter selects. -/
def updateOne (c : Collection key) (p : α → Bool) (f : α → α) :
    Except WriteError (WriteResult κ × Collection key) :=
  match c.findOne p with
  | none => .ok (⟨0, 0, none⟩, c)
  | some old =>
      if key (f old) = key old then
        .ok (⟨1, if f old = old then 0 else 1, none⟩, c.replace (f old))
      else .error .immutableKey

/-- Put a document in the place of the first one the filter selects, or add it. -/
def replaceOne (c : Collection key) (p : α → Bool) (new : α) (upsert : Bool) :
    Except WriteError (WriteResult κ × Collection key) :=
  if c.matched p || !upsert then c.updateOne p fun _ => new
  else match c.insert new with
    | some d => .ok (⟨0, 0, some (key new)⟩, d)
    | none => .error .duplicateKey

/-- Take out the first document the filter selects; how many that were. -/
def deleteOne (c : Collection key) (p : α → Bool) : Nat × Collection key :=
  match c.findOne p with
  | none => (0, c)
  | some old => (1, c.erase (key old))

/-- Add documents in order. -/
def insertMany (c : Collection key) (docs : List α) : Except WriteError (Collection key) :=
  docs.foldlM (fun c a => match c.insert a with
    | some d => .ok d
    | none => .error .duplicateKey) c

variable {f : α → α} {d : Collection key} {result : WriteResult κ}

/-- An update that reports a match has changed the document it found. -/
theorem updateOne_matched (h : c.updateOne p f = .ok (result, d)) (hmatched : result.matched = 1) :
    ∃ old, c.findOne p = some old ∧ key (f old) = key old ∧ d = c.replace (f old) ∧
      (result.modified = 1 ↔ f old ≠ old) := by
  unfold updateOne at h
  split at h
  · simp only [Except.ok.injEq, Prod.mk.injEq] at h
    rw [← h.1] at hmatched
    cases hmatched
  · next old hfind =>
      split at h
      · next hkey =>
          simp only [Except.ok.injEq, Prod.mk.injEq] at h
          refine ⟨old, hfind, hkey, h.2.symm, ?_⟩
          rw [← h.1]
          by_cases hf : f old = old <;> simp [hf]
      · cases h

/-- The document under its key after an update that reports a match. -/
theorem byKey_updateOne {k : κ} (h : c.updateOne p f = .ok (result, d))
    (hmatched : result.matched = 1) (hp : ∀ a, p a = true → key a = k) :
    ∃ old, c.byKey k = some old ∧ p old = true ∧ d.byKey k = some (f old) := by
  obtain ⟨old, hfind, hkey, rfl, -⟩ := updateOne_matched h hmatched
  rw [findOne_of_key hp, Option.filter_eq_some_iff] at hfind
  refine ⟨old, hfind.1, hfind.2, ?_⟩
  have hk : k = key (f old) := by rw [hkey, hp old hfind.2]
  rw [byKey_replace, if_pos hk, hfind.1]
  rfl

end Collection
