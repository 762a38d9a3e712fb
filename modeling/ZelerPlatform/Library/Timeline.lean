import Mathlib.Algebra.Order.BigOperators.Group.Finset
import Mathlib.Data.Int.Interval
import Mathlib.Data.List.MinMax
import ZelerPlatform.Library.Collection

/-!
# Timelines

A timeline lists values with the instants at which they begin to hold, no two of them at one
instant. `stateAt` is the value that holds at an instant: that of the latest entry at or
before it. It does not depend on the order of the list, and entries that repeat the value
before them may be left out.

`ticks p a b` counts the instants of `[a, b)` at which `p` holds. `sweep` adds up the same
number from entries in order, one stretch between two entries at a time.
-/

namespace Timeline

variable {α : Type*} {xs ys : List (ℤ × α)} {p : ℤ × α} {t u : ℤ} {a : α}

/-- No two entries at one instant. -/
def Distinct (xs : List (ℤ × α)) : Prop := (xs.map Prod.fst).Nodup

theorem Distinct.eq (h : Distinct xs) {q : ℤ × α} (hp : p ∈ xs) (hq : q ∈ xs)
    (heq : p.1 = q.1) : p = q := List.inj_on_of_nodup_map h hp hq heq

theorem Distinct.perm (h : Distinct xs) (hperm : xs.Perm ys) : Distinct ys :=
  (hperm.map Prod.fst).nodup_iff.mp h

/-- The latest entry at or before an instant. -/
def latestAt (xs : List (ℤ × α)) (u : ℤ) : Option (ℤ × α) :=
  (xs.filter fun p => p.1 ≤ u).argmax Prod.fst

def stateAt (xs : List (ℤ × α)) (u : ℤ) : Option α := (latestAt xs u).map Prod.snd

theorem latestAt_none : latestAt xs u = none ↔ ∀ q ∈ xs, u < q.1 := by
  simp [latestAt, List.filter_eq_nil_iff]

theorem stateAt_none : stateAt xs u = none ↔ ∀ q ∈ xs, u < q.1 := by
  simp [stateAt, latestAt_none]

theorem latestAt_some (h : latestAt xs u = some p) :
    p ∈ xs ∧ p.1 ≤ u ∧ ∀ q ∈ xs, q.1 ≤ u → q.1 ≤ p.1 := by
  have hmem := List.argmax_mem h
  simp only [List.mem_filter, decide_eq_true_eq] at hmem
  refine ⟨hmem.1, hmem.2, fun q hq hle => ?_⟩
  exact List.le_of_mem_argmax (List.mem_filter.mpr ⟨hq, by simpa using hle⟩) h

theorem latestAt_eq (hdistinct : Distinct xs) (hp : p ∈ xs) (hle : p.1 ≤ u)
    (hmax : ∀ q ∈ xs, q.1 ≤ u → q.1 ≤ p.1) : latestAt xs u = some p := by
  cases h : latestAt xs u with
  | none => exact absurd (latestAt_none.mp h p hp) (not_lt.mpr hle)
  | some q =>
      obtain ⟨hq, hqu, hqmax⟩ := latestAt_some h
      have heq : q.1 = p.1 := le_antisymm (hmax q hq hqu) (hqmax p hp hle)
      rw [hdistinct.eq hq hp heq]

theorem stateAt_eq (hdistinct : Distinct xs) (hp : (t, a) ∈ xs) (hle : t ≤ u)
    (hmax : ∀ q ∈ xs, q.1 ≤ u → q.1 ≤ t) : stateAt xs u = some a := by
  rw [stateAt, latestAt_eq hdistinct hp hle hmax]
  rfl

theorem stateAt_some (h : stateAt xs u = some a) :
    ∃ t, (t, a) ∈ xs ∧ t ≤ u ∧ ∀ q ∈ xs, q.1 ≤ u → q.1 ≤ t := by
  obtain ⟨⟨t, b⟩, hlatest, rfl⟩ := Option.map_eq_some_iff.mp h
  exact ⟨t, latestAt_some hlatest⟩

/-- The state depends on the entries up to the instant alone. -/
theorem stateAt_congr (hdistinct : Distinct ys) (h : ∀ q, q.1 ≤ u → (q ∈ xs ↔ q ∈ ys)) :
    stateAt xs u = stateAt ys u := by
  cases hx : stateAt xs u with
  | none =>
      refine (stateAt_none.mpr fun q hq => ?_).symm
      by_contra hle
      exact absurd (stateAt_none.mp hx q ((h q (not_lt.mp hle)).mpr hq)) hle
  | some a =>
      obtain ⟨t, hmem, hle, hmax⟩ := stateAt_some hx
      exact (stateAt_eq hdistinct ((h _ hle).mp hmem) hle fun q hq hqu =>
        hmax q ((h q hqu).mpr hq) hqu).symm

theorem stateAt_perm (hdistinct : Distinct xs) (hperm : xs.Perm ys) :
    stateAt xs u = stateAt ys u :=
  stateAt_congr (hdistinct.perm hperm) fun _ _ => hperm.mem_iff

/-! ### Newest entries and compression -/

theorem Distinct.concat (h : Distinct xs) (hnew : ∀ q ∈ xs, q.1 < t) :
    Distinct (xs ++ [(t, a)]) := by
  unfold Distinct
  rw [List.map_append, List.nodup_append]
  refine ⟨h, List.nodup_singleton _, ?_⟩
  intro s hs r hr
  obtain ⟨q, hq, rfl⟩ := List.mem_map.mp hs
  obtain rfl : r = t := by simpa using hr
  exact (hnew q hq).ne

theorem stateAt_concat (h : Distinct xs) (hnew : ∀ q ∈ xs, q.1 < t) :
    stateAt (xs ++ [(t, a)]) u = if t ≤ u then some a else stateAt xs u := by
  split
  · next hle =>
      refine stateAt_eq (h.concat hnew) (by simp) hle fun q hq _ => ?_
      rcases List.mem_append.mp hq with hq | hq
      · exact (hnew q hq).le
      · obtain rfl : q = (t, a) := by simpa using hq
        exact le_rfl
  · next hlt =>
      refine stateAt_congr h fun q hq => ?_
      rw [List.mem_append, List.mem_singleton]
      refine or_iff_left ?_
      rintro rfl
      exact hlt hq

/-- Past the newest entry the state stays. -/
theorem stateAt_of_newest (h : Distinct xs) (hnew : ∀ q ∈ xs, q.1 ≤ t) (hle : t ≤ u) :
    stateAt xs u = stateAt xs t :=
  match hs : stateAt xs t with
  | none => stateAt_none.mpr fun q hq =>
      absurd (stateAt_none.mp hs q hq) (not_lt.mpr (hnew q hq))
  | some _ => by
      obtain ⟨s, hmem, hst, hmax⟩ := stateAt_some hs
      exact stateAt_eq h hmem (hst.trans hle) fun q hq _ => hmax q hq (hnew q hq)

/-- A newest entry that repeats the state may be left out. -/
theorem stateAt_concat_same (h : Distinct xs) (hnew : ∀ q ∈ xs, q.1 < t)
    (hsame : stateAt xs t = some a) : stateAt (xs ++ [(t, a)]) u = stateAt xs u := by
  rw [stateAt_concat h hnew]
  split
  · next hle => rw [stateAt_of_newest h (fun q hq => (hnew q hq).le) hle, hsame]
  · rfl

/-- Within a window the state is that of the entries inside, or the one at its start. -/
theorem stateAt_window {start stop : ℤ} (h : Distinct xs) (hstart : start ≤ u) (hstop : u < stop) :
    stateAt xs u = (stateAt (xs.filter fun p => start < p.1 && p.1 < stop) u).or
      (stateAt xs start) := by
  have hsub : (xs.filter fun p => start < p.1 && p.1 < stop).Sublist xs := List.filter_sublist
  cases hin : stateAt (xs.filter fun p => start < p.1 && p.1 < stop) u with
  | some a =>
      obtain ⟨s, hmem, hsu, hmax⟩ := stateAt_some hin
      simp only [List.mem_filter, Bool.and_eq_true, decide_eq_true_eq] at hmem
      refine stateAt_eq h hmem.1 hsu fun q hq hqu => ?_
      by_cases hqs : q.1 ≤ start
      · exact hqs.trans hmem.2.1.le
      · refine hmax q (List.mem_filter.mpr ⟨hq, ?_⟩) hqu
        simp only [Bool.and_eq_true, decide_eq_true_eq]
        omega
  | none =>
      have hout : ∀ q ∈ xs, q.1 ≤ u → q.1 ≤ start := fun q hq hqu => by
        by_contra hqs
        have hmem : q ∈ xs.filter fun p => start < p.1 && p.1 < stop := by
          refine List.mem_filter.mpr ⟨hq, ?_⟩
          simp only [Bool.and_eq_true, decide_eq_true_eq]
          omega
        exact absurd (stateAt_none.mp hin q hmem) (not_lt.mpr hqu)
      cases hs : stateAt xs start with
      | some a =>
          obtain ⟨s, hmem, hss, hmax⟩ := stateAt_some hs
          exact stateAt_eq h hmem (hss.trans hstart) fun q hq hqu => hmax q hq (hout q hq hqu)
      | none =>
          refine stateAt_none.mpr fun q hq => ?_
          by_contra hle
          exact absurd (stateAt_none.mp hs q hq) (not_lt.mpr (hout q hq (not_lt.mp hle)))

/-! ### Counting instants -/

/-- How many instants of `[a, b)` meet a condition. -/
def ticks (p : ℤ → Bool) (a b : ℤ) : ℕ := ((Finset.Ico a b).filter fun u => p u).card

variable {q : ℤ → Bool} {b c : ℤ}

theorem ticks_add {a : ℤ} (hab : a ≤ b) (hbc : b ≤ c) :
    ticks q a b + ticks q b c = ticks q a c := by
  unfold ticks
  rw [← Finset.Ico_union_Ico_eq_Ico hab hbc, Finset.filter_union, Finset.card_union_of_disjoint]
  exact Finset.disjoint_filter_filter (Finset.Ico_disjoint_Ico_consecutive a b c)

theorem ticks_congr {a : ℤ} {q' : ℤ → Bool} (h : ∀ u, a ≤ u → u < b → q u = q' u) :
    ticks q a b = ticks q' a b := by
  unfold ticks
  congr 1
  refine Finset.filter_congr fun u hu => ?_
  obtain ⟨hau, hub⟩ := Finset.mem_Ico.mp hu
  rw [h u hau hub]

theorem ticks_le {a : ℤ} : ticks q a b ≤ (b - a).toNat :=
  calc ticks q a b ≤ (Finset.Ico a b).card := Finset.card_filter_le _ _
    _ = (b - a).toNat := Int.card_Ico a b

theorem ticks_const {a : ℤ} (v : Bool) : ticks (fun _ => v) a b = if v then (b - a).toNat else 0 := by
  cases v <;> simp [ticks]

/-! ### Sweeping a sorted timeline -/

/-- Entries in the order of their instants. -/
abbrev Sorted (xs : List (ℤ × α)) : Prop := xs.Pairwise fun p q => p.1 < q.1

theorem Sorted.distinct (h : Sorted xs) : Distinct xs := by
  unfold Distinct
  rw [List.nodup_iff_pairwise_ne, List.pairwise_map]
  exact h.imp fun hlt => hlt.ne

theorem stateAt_cons (h : Sorted ((t, a) :: xs)) :
    stateAt ((t, a) :: xs) u = if t ≤ u then some ((stateAt xs u).getD a) else none := by
  have hfirst : ∀ q ∈ xs, t < q.1 := fun q hq => (List.pairwise_cons.mp h).1 q hq
  split
  · next hle =>
      cases hs : stateAt xs u with
      | none =>
          refine stateAt_eq h.distinct List.mem_cons_self hle fun q hq hqu => ?_
          rcases List.mem_cons.mp hq with rfl | hq
          · exact le_rfl
          · exact absurd (stateAt_none.mp hs q hq) (not_lt.mpr hqu)
      | some b =>
          obtain ⟨s, hmem, hsu, hmax⟩ := stateAt_some hs
          refine stateAt_eq h.distinct (List.mem_cons_of_mem _ hmem) hsu fun q hq hqu => ?_
          rcases List.mem_cons.mp hq with rfl | hq
          · exact (hfirst _ hmem).le
          · exact hmax q hq hqu
  · next hlt =>
      refine stateAt_none.mpr fun q hq => ?_
      rcases List.mem_cons.mp hq with rfl | hq
      · exact not_le.mp hlt
      · exact (not_le.mp hlt).trans (hfirst q hq)

/-- Add up the stretches of `[start, stop)` that are on. `cursor` is where the stretch that
has the value `state` began. -/
def sweep (start stop : ℤ) : Bool → ℤ → ℤ → List (ℤ × Bool) → ℤ
  | state, cursor, total, [] => if state && cursor < stop then total + (stop - cursor) else total
  | state, cursor, total, (t, a) :: rest =>
      if stop ≤ t then if state && cursor < stop then total + (stop - cursor) else total
      else if start < t then
        sweep start stop a t (if state then total + (t - cursor) else total) rest
      else sweep start stop a cursor total rest

theorem sweep_last {stop cursor total : ℤ} {state : Bool} (hcursor : cursor ≤ stop) :
    (if state && cursor < stop then total + (stop - cursor) else total)
      = total + ticks (fun _ => state) cursor stop := by
  rw [ticks_const]
  cases state with
  | false => simp
  | true =>
      by_cases hlt : cursor < stop
      · simp [hlt]
        omega
      · simp [hlt]
        omega

/-- Sweeping counts the instants at which the timeline, or the state before it, is on. -/
theorem sweep_eq {start stop : ℤ} {entries : List (ℤ × Bool)} {state : Bool} {cursor total : ℤ}
    (hsorted : Sorted entries) (hstart : start ≤ cursor) (hstop : cursor ≤ stop)
    (hcursor : cursor = start ∨ ∀ q ∈ entries, cursor < q.1) :
    sweep start stop state cursor total entries
      = total + ticks (fun u => (stateAt entries u).getD state) cursor stop := by
  induction entries generalizing state cursor total with
  | nil =>
      rw [sweep, sweep_last hstop]
      rfl
  | cons entry rest ih =>
      obtain ⟨t, a⟩ := entry
      have hrest := (List.pairwise_cons.mp hsorted).2
      have hfirst : ∀ q ∈ rest, t < q.1 := (List.pairwise_cons.mp hsorted).1
      unfold sweep
      split
      · next hlast =>
          rw [sweep_last hstop]
          congr 2
          refine ticks_congr fun u _ hu => ?_
          rw [stateAt_cons hsorted, if_neg (by omega)]
          rfl
      · next hlast =>
          split
          · next hinside =>
              have hct : cursor ≤ t := by
                rcases hcursor with rfl | hcursor
                · exact hinside.le
                · exact (hcursor (t, a) List.mem_cons_self).le
              rw [ih hrest hinside.le (by omega) (.inr hfirst), ← ticks_add hct (by omega : t ≤ stop)]
              have hbefore : ticks (fun u => (stateAt ((t, a) :: rest) u).getD state) cursor t
                  = ticks (fun _ => state) cursor t := by
                refine ticks_congr fun u _ hu => ?_
                rw [stateAt_cons hsorted, if_neg (by omega)]
                rfl
              have hafter : ticks (fun u => (stateAt ((t, a) :: rest) u).getD state) t stop
                  = ticks (fun u => (stateAt rest u).getD a) t stop := by
                refine ticks_congr fun u hu _ => ?_
                rw [stateAt_cons hsorted, if_pos hu]
                rfl
              rw [hbefore, hafter, ticks_const]
              cases state <;> simp
              omega
          · next hearly =>
              have hcs : cursor = start := by
                rcases hcursor with rfl | hcursor
                · rfl
                · have := hcursor (t, a) List.mem_cons_self
                  simp only at this
                  omega
              rw [ih hrest hstart hstop (.inl hcs)]
              congr 2
              refine ticks_congr fun u hu _ => ?_
              rw [stateAt_cons hsorted, if_pos (by omega)]
              rfl

/-! ### Adding up stretches -/

/-- The lengths of the stretches with a property: each entry lasts to the next, and the last
one to `stop`. -/
def total (p : α → Bool) (stop : ℤ) : List (ℤ × α) → ℤ
  | [] => 0
  | [(t, a)] => if p a then stop - t else 0
  | (t, a) :: (t', a') :: rest =>
      (if p a then t' - t else 0) + total p stop ((t', a') :: rest)

theorem ticks_stretch {p : α → Bool} (hle : t ≤ u) :
    (ticks (fun _ => p a) t u : ℤ) = if p a then u - t else 0 := by
  rw [ticks_const]
  cases p a with
  | false => rfl
  | true =>
      simp only [if_true]
      omega

/-- The stretches of a sorted timeline add up to the instants at which its state has the
property. -/
theorem total_eq_ticks {p : α → Bool} {stop : ℤ} (hsorted : Sorted ((t, a) :: xs))
    (hstop : ∀ q ∈ (t, a) :: xs, q.1 ≤ stop) :
    total p stop ((t, a) :: xs) =
      ticks (fun u => (stateAt ((t, a) :: xs) u).any p) t stop := by
  induction xs generalizing t a with
  | nil =>
      have hstate : ticks (fun u => (stateAt [(t, a)] u).any p) t stop =
          ticks (fun _ => p a) t stop := ticks_congr fun u htu _ => by
        rw [stateAt_cons hsorted, if_pos htu]
        rfl
      rw [hstate, ticks_stretch (hstop (t, a) List.mem_cons_self)]
      rfl
  | cons next rest ih =>
      obtain ⟨t', a'⟩ := next
      have hrest := (List.pairwise_cons.mp hsorted).2
      have hnext : t < t' := (List.pairwise_cons.mp hsorted).1 (t', a') List.mem_cons_self
      have hle := hstop (t', a') (List.mem_cons_of_mem _ List.mem_cons_self)
      have hbefore : ticks (fun u => (stateAt ((t, a) :: (t', a') :: rest) u).any p) t t' =
          ticks (fun _ => p a) t t' := ticks_congr fun u htu hut => by
        have hnone : stateAt ((t', a') :: rest) u = none := by
          rw [stateAt_cons hrest, if_neg (not_le.mpr hut)]
        rw [stateAt_cons hsorted, if_pos htu, hnone]
        rfl
      have hafter : ticks (fun u => (stateAt ((t, a) :: (t', a') :: rest) u).any p) t' stop =
          ticks (fun u => (stateAt ((t', a') :: rest) u).any p) t' stop :=
        ticks_congr fun u htu _ => by
          rw [stateAt_cons hsorted, if_pos (hnext.le.trans htu), stateAt_cons hrest, if_pos htu]
          rfl
      rw [total, ih hrest fun q mem => hstop q (List.mem_cons_of_mem _ mem),
        ← ticks_add hnext.le hle, hbefore, hafter, Nat.cast_add, ticks_stretch hnext.le]

theorem ticks_mono {a b : ℤ} {q' : ℤ → Bool} (h : ∀ u, q u = true → q' u = true) :
    ticks q a b ≤ ticks q' a b :=
  Finset.card_le_card (Finset.monotone_filter_right _ fun u _ => h u)

end Timeline
