import Mathlib.Data.List.Sort
import ZelerPlatform.Library.Mongo.Canonical

/-!
# Sorting by a key that can fail

`sorted` with a key calls it once for each element and is stable. A key that raises for one
element leaves no result; with distinct keys the result does not depend on the order of the
elements.
-/

namespace Sorted

variable {α β κ : Type}

/-! ### Calls on every element -/

theorem mapM_eq_some {f : α → Option β} {g : α → β} {xs : List α}
    (h : ∀ x ∈ xs, f x = some (g x)) : xs.mapM f = some (xs.map g) := by
  induction xs with
  | nil => rfl
  | cons x xs ih =>
      rw [List.mapM_cons, h x List.mem_cons_self,
        ih fun x' mem => h x' (List.mem_cons_of_mem x mem)]
      rfl

/-- One call that fails leaves no result. -/
theorem mapM_eq_none {f : α → Option β} {xs : List α} {x : α} (mem : x ∈ xs) (h : f x = none) :
    xs.mapM f = none := by
  induction xs with
  | nil => cases mem
  | cons first rest ih =>
      rw [List.mapM_cons]
      cases mem with
      | head =>
          rw [h]
          rfl
      | tail _ mem =>
          rw [ih mem]
          cases f first <;> rfl

/-! ### First occurrences -/

theorem nodup_eraseDups [BEq α] [LawfulBEq α] (xs : List α) : xs.eraseDups.Nodup := by
  induction h : xs.length using Nat.strong_induction_on generalizing xs with
  | _ n ih =>
      cases xs with
      | nil => exact List.nodup_nil
      | cons x rest =>
          subst h
          rw [List.eraseDups_cons, List.nodup_cons, List.mem_eraseDups, List.mem_filter]
          refine ⟨fun mem => ?_, ih _ ?_ _ rfl⟩
          · simp at mem
          · exact Nat.lt_succ_of_le (List.length_filter_le _ _)

theorem eraseDups_of_nodup [BEq α] [LawfulBEq α] {xs : List α} (once : xs.Nodup) :
    xs.eraseDups = xs := by
  induction xs with
  | nil => rfl
  | cons x rest ih =>
      obtain ⟨hx, hrest⟩ := List.nodup_cons.mp once
      have hfilter : rest.filter (fun b => !(b == x)) = rest := by
        refine List.filter_eq_self.mpr fun b mem => ?_
        have hne : b ≠ x := fun heq => hx (heq ▸ mem)
        simpa using hne
      rw [List.eraseDups_cons, hfilter, ih hrest]

theorem eraseDups_perm [BEq α] [LawfulBEq α] {xs ys : List α} (h : xs.Perm ys) :
    xs.eraseDups.Perm ys.eraseDups := by
  rw [List.perm_ext_iff_of_nodup (nodup_eraseDups xs) (nodup_eraseDups ys)]
  intro x
  rw [List.mem_eraseDups, List.mem_eraseDups, h.mem_iff]

theorem eraseDups_concat [BEq α] [LawfulBEq α] (xs : List α) (x : α) :
    (xs ++ [x]).eraseDups = if x ∈ xs then xs.eraseDups else xs.eraseDups ++ [x] := by
  rw [List.eraseDups_append]
  split
  case isTrue mem => simp [List.cons_removeAll, mem]
  case isFalse mem => simp [List.cons_removeAll, mem, List.eraseDups_cons]

/-- The first different elements, no more than a number of them. -/
def firsts [BEq α] (n : Nat) (xs : List α) : List α := xs.eraseDups.take n

section

variable [BEq α] [LawfulBEq α] {n : Nat} {xs : List α} {x : α}

theorem nodup_firsts : (firsts n xs).Nodup := (nodup_eraseDups xs).sublist (List.take_sublist _ _)

theorem firsts_of_full (h : (firsts n xs).length = n) (ys : List α) :
    firsts n (xs ++ ys) = firsts n xs := by
  rw [firsts, List.length_take] at h
  rw [firsts, List.eraseDups_append, List.take_append_of_le_length (by omega), firsts]

theorem firsts_prefix (n : Nat) (xs ys : List α) : firsts n xs <+: firsts n (xs ++ ys) := by
  rw [firsts, firsts, List.eraseDups_append, List.take_append]
  exact List.prefix_append _ _

omit [LawfulBEq α] in
theorem firsts_of_length_lt (h : (firsts n xs).length < n) : firsts n xs = xs.eraseDups := by
  rw [firsts, List.length_take] at h
  exact List.take_of_length_le (by omega)

theorem firsts_concat_of_mem (h : x ∈ firsts n xs) : firsts n (xs ++ [x]) = firsts n xs := by
  have mem : x ∈ xs := List.mem_eraseDups.mp (List.mem_of_mem_take h)
  rw [firsts, eraseDups_concat, if_pos mem, firsts]

theorem firsts_concat_of_not_mem (h : x ∉ firsts n xs) (short : (firsts n xs).length < n) :
    firsts n (xs ++ [x]) = firsts n xs ++ [x] := by
  have hall := firsts_of_length_lt short
  rw [hall] at h short
  rw [List.mem_eraseDups] at h
  rw [hall, firsts, eraseDups_concat, if_neg h]
  exact List.take_of_length_le (by rw [List.length_append]; exact short)

end

/-! ### The sort -/

section

variable [LinearOrder κ]

/-- `sorted(xs, key=key)`. -/
def sortedOn (key : α → Option κ) (xs : List α) : Option (List α) := do
  let keyed ← xs.mapM fun x => (key x).map fun k => (k, x)
  pure ((keyed.insertionSort fun a b => a.1 ≤ b.1).map Prod.snd)

variable {key : α → Option κ} {total : α → κ} {xs ys : List α}

/-- The elements sorted by keys that do not fail. -/
def sortedBy (total : α → κ) (xs : List α) : List α :=
  ((xs.map fun x => (total x, x)).insertionSort fun a b => a.1 ≤ b.1).map Prod.snd

theorem sortedOn_eq_some (h : ∀ x ∈ xs, key x = some (total x)) :
    sortedOn key xs = some (sortedBy total xs) := by
  have hkeyed : (xs.mapM fun x => (key x).map fun k => (k, x)) =
      some (xs.map fun x => (total x, x)) :=
    mapM_eq_some fun x mem => by rw [h x mem, Option.map_some]
  rw [sortedOn, hkeyed]
  rfl

theorem sortedOn_eq_none {x : α} (mem : x ∈ xs) (h : key x = none) : sortedOn key xs = none := by
  rw [sortedOn, mapM_eq_none mem (by rw [h, Option.map_none])]
  rfl

theorem sortedBy_perm (total : α → κ) (xs : List α) : (sortedBy total xs).Perm xs := by
  have hperm := (List.perm_insertionSort (fun a b : κ × α => a.1 ≤ b.1)
    (xs.map fun x => (total x, x))).map Prod.snd
  rw [List.map_map] at hperm
  exact hperm.trans (List.Perm.of_eq (List.map_id xs))

theorem sortedBy_pairwise (total : α → κ) (xs : List α) :
    (sortedBy total xs).Pairwise fun a b => total a ≤ total b := by
  have hkeyed : ∀ pair ∈ (xs.map fun x => (total x, x)).insertionSort fun a b => a.1 ≤ b.1,
      pair.1 = total pair.2 := by
    intro pair mem
    rw [List.mem_insertionSort] at mem
    obtain ⟨x, -, rfl⟩ := List.mem_map.mp mem
    rfl
  rw [sortedBy, List.pairwise_map]
  refine (List.pairwise_insertionSort (fun a b : κ × α => a.1 ≤ b.1) _).imp_of_mem ?_
  intro a b ha hb hab
  rwa [← hkeyed a ha, ← hkeyed b hb]

/-- With distinct keys the order of the elements does not matter. -/
theorem sortedBy_eq_of_perm (once : (xs.map total).Nodup) (perm : xs.Perm ys) :
    sortedBy total xs = sortedBy total ys := by
  have hkeys : ((xs.map fun x => (total x, x)).map Prod.fst).Nodup := by
    rwa [List.map_map]
  have hsorted (zs : List α) : (List.insertionSort (fun a b : κ × α => a.1 ≤ b.1)
      (zs.map fun x => (total x, x))).Pairwise fun a b => a.1 ≤ b.1 :=
    List.pairwise_insertionSort _ _
  have hperm := (List.perm_insertionSort (fun a b : κ × α => a.1 ≤ b.1) _).trans
    ((perm.map fun x => (total x, x)).trans (List.perm_insertionSort
      (fun a b : κ × α => a.1 ≤ b.1) _).symm)
  refine congrArg (List.map Prod.snd) (Mongo.eq_of_perm_of_keys ?_ hperm (hsorted xs) (hsorted ys))
  exact ((List.perm_insertionSort _ _).map Prod.fst).nodup_iff.mpr hkeys

/-- A list in the order of its keys is what its permutations are sorted to. -/
theorem sortedBy_eq_of_pairwise (sorted : ys.Pairwise fun a b => total a < total b)
    (perm : xs.Perm ys) : sortedBy total xs = ys := by
  have hkeys : (ys.map total).Nodup := by
    rw [List.Nodup, List.pairwise_map]
    exact sorted.imp fun h => h.ne
  have hself : sortedBy total ys = ys := by
    have hkeyed : (ys.map fun y => (total y, y)).Pairwise fun a b => a.1 ≤ b.1 := by
      rw [List.pairwise_map]
      exact sorted.imp fun h => h.le
    rw [sortedBy, hkeyed.insertionSort_eq, List.map_map]
    exact List.map_id ys
  exact (sortedBy_eq_of_perm ((perm.map total).nodup_iff.mpr hkeys) perm).trans hself

/-- Elements of one key stay in their order. -/
theorem pair_sublist_sortedBy {a b : α} (same : total a = total b) (h : [a, b].Sublist xs) :
    [a, b].Sublist (sortedBy total xs) := by
  have hkeyed : [(total a, a), (total b, b)].Sublist (xs.map fun x => (total x, x)) :=
    h.map fun x => (total x, x)
  exact (List.pair_sublist_insertionSort (r := fun p q : κ × α => p.1 ≤ q.1) same.le hkeyed).map
    Prod.snd

end

/-- In a list without duplicates two elements come in one order. -/
theorem eq_of_pair_sublist {xs : List α} {a b : α} (once : xs.Nodup) (hab : [a, b].Sublist xs)
    (hba : [b, a].Sublist xs) : a = b := by
  induction xs with
  | nil => cases hab
  | cons x rest ih =>
      rw [List.nodup_cons] at once
      cases hab with
      | cons _ hab =>
          cases hba with
          | cons _ hba => exact ih once.2 hab hba
          | cons_cons _ hba => exact absurd (hab.subset (by simp)) once.1
      | cons_cons _ hab =>
          cases hba with
          | cons _ hba => exact absurd (hba.subset (by simp)) once.1
          | cons_cons _ hba => rfl

/-- An ascending list has every number from `a` on up to its last exactly when it is that range. -/
theorem eq_range'_iff {a : Nat} {xs : List Nat} (ascending : xs.Pairwise (· < ·))
    (least : ∀ x ∈ xs, a ≤ x) :
    xs = List.range' a xs.length ↔ ∀ x ∈ xs, ∀ n, a ≤ n → n < x → n ∈ xs := by
  induction xs generalizing a with
  | nil => simp
  | cons x rest ih =>
      obtain ⟨hx, hrest⟩ := List.pairwise_cons.mp ascending
      have hax : a ≤ x := least x List.mem_cons_self
      rw [List.length_cons, List.range'_succ, List.cons.injEq]
      constructor
      · rintro ⟨rfl, heq⟩ y mem n hle hlt
        have hdown := (ih hrest fun z hz => hx z hz).mp heq
        obtain rfl | mem := List.mem_cons.mp mem
        · omega
        · obtain rfl | hne := hle.eq_or_lt
          · exact List.mem_cons_self
          · exact List.mem_cons_of_mem _ (hdown y mem n hne hlt)
      · intro down
        have hxa : x = a := by
          by_contra hne
          have hmem := down x List.mem_cons_self a le_rfl (lt_of_le_of_ne hax (Ne.symm hne))
          obtain rfl | hmem := List.mem_cons.mp hmem
          · exact hne rfl
          · exact absurd (hx a hmem) (not_lt.mpr hax)
        subst hxa
        refine ⟨rfl, (ih hrest fun z hz => hx z hz).mpr fun y mem n hle hlt => ?_⟩
        have hmem := down y (List.mem_cons_of_mem _ mem) n (by omega) hlt
        exact (List.mem_cons.mp hmem).resolve_left (by omega)

end Sorted
