import Mathlib.Data.List.Count
import Mathlib.Data.List.Basic

/-!
# Counters that remember one window

A counter keeps the window it is counting and how often that window was hit. A hit
in the remembered window increments the count; a hit in any other window, earlier or
later, starts the count again at one. `admitted` is the number of hits of one window
that find the count, after their own increment, within the limit.

Such a counter bounds the hits of a window exactly when the window is not hit too
often in the first place, or is never interrupted: `admitted_le_iff`. Windows are
compared for equality only, so nothing is assumed of their type but decidable equality.
-/

namespace WindowCounter

variable {ω : Type*}

/-- The remembered window and its number of hits. -/
structure Counter (ω : Type*) where
  window : ω
  count : Nat
  deriving DecidableEq, Repr

variable [DecidableEq ω]

/-- One hit of window `w`. -/
def tick (counter : Option (Counter ω)) (w : ω) : Counter ω :=
  match counter with
  | some c => if c.window = w then ⟨w, c.count + 1⟩ else ⟨w, 1⟩
  | none => ⟨w, 1⟩

/-- The hits already counted for `w`; none when another window is remembered. -/
def counted (counter : Option (Counter ω)) (w : ω) : Nat :=
  match counter with
  | some c => if c.window = w then c.count else 0
  | none => 0

@[simp] theorem tick_window (counter : Option (Counter ω)) (w : ω) :
    (tick counter w).window = w := by
  unfold tick
  split
  · split <;> rfl
  · rfl

@[simp] theorem tick_count (counter : Option (Counter ω)) (w : ω) :
    (tick counter w).count = counted counter w + 1 := by
  unfold tick counted
  split
  · split <;> simp
  · rfl

@[simp] theorem counted_none (w : ω) : counted none w = 0 := rfl

@[simp] theorem counted_tick_self (counter : Option (Counter ω)) (w : ω) :
    counted (some (tick counter w)) w = counted counter w + 1 := by
  simp [counted]

theorem counted_tick_of_ne {counter : Option (Counter ω)} {v w : ω} (h : v ≠ w) :
    counted (some (tick counter v)) w = 0 := by
  simp [counted, h]

/-- Hits of `w`, in order of arrival, whose count stays within the limit. -/
def admitted (limit : Nat) (w : ω) : Option (Counter ω) → List ω → Nat
  | _, [] => 0
  | counter, v :: rest =>
      let next := tick counter v
      (if v = w ∧ next.count ≤ limit then 1 else 0) + admitted limit w (some next) rest

/-- No other window is hit between two hits of `w`. -/
def Uninterrupted (w : ω) (hits : List ω) : Prop :=
  ∃ before n after, w ∉ before ∧ w ∉ after ∧ hits = before ++ List.replicate n w ++ after

variable {limit : Nat} {w : ω}

@[simp] theorem admitted_nil (counter : Option (Counter ω)) :
    admitted limit w counter [] = 0 := rfl

theorem admitted_cons (counter : Option (Counter ω)) (v : ω) (rest : List ω) :
    admitted limit w counter (v :: rest) =
      (if v = w ∧ (tick counter v).count ≤ limit then 1 else 0) +
        admitted limit w (some (tick counter v)) rest := rfl

theorem admitted_cons_of_ne {v : ω} (h : v ≠ w) (counter : Option (Counter ω))
    (rest : List ω) :
    admitted limit w counter (v :: rest) = admitted limit w (some (tick counter v)) rest := by
  simp [admitted_cons, h]

theorem admitted_cons_self (counter : Option (Counter ω)) (rest : List ω) :
    admitted limit w counter (w :: rest) =
      (if counted counter w < limit then 1 else 0) +
        admitted limit w (some (tick counter w)) rest := by
  simp [admitted_cons, Nat.succ_le_iff]

theorem admitted_le_count (counter : Option (Counter ω)) (hits : List ω) :
    admitted limit w counter hits ≤ hits.count w := by
  induction hits generalizing counter with
  | nil => simp
  | cons v rest ih =>
      have h := ih (some (tick counter v))
      by_cases hv : v = w
      · subst v
        rw [admitted_cons_self, List.count_cons_self]
        split <;> omega
      · rw [admitted_cons_of_ne hv, List.count_cons_of_ne hv]
        exact h

/-- Every hit sees a count no larger than the number of hits so far, so the first
hits up to the limit are always admitted. -/
theorem min_le_admitted (limit : Nat) (w : ω) (counter : Option (Counter ω)) (hits : List ω) :
    min (hits.count w) (limit - counted counter w) ≤ admitted limit w counter hits := by
  induction hits generalizing counter with
  | nil => simp
  | cons v rest ih =>
      by_cases hv : v = w
      · subst v
        have h := ih (some (tick counter w))
        rw [counted_tick_self] at h
        rw [admitted_cons_self, List.count_cons_self]
        split <;> omega
      · have h := ih (some (tick counter v))
        rw [counted_tick_of_ne hv] at h
        rw [admitted_cons_of_ne hv, List.count_cons_of_ne hv]
        omega

theorem admitted_replicate (limit : Nat) (w : ω) (counter : Option (Counter ω)) (n : Nat)
    (rest : List ω) :
    ∃ next, admitted limit w counter (List.replicate n w ++ rest) =
      min n (limit - counted counter w) + admitted limit w next rest := by
  induction n generalizing counter with
  | zero => exact ⟨counter, by simp⟩
  | succ n ih =>
      obtain ⟨next, h⟩ := ih (some (tick counter w))
      refine ⟨next, ?_⟩
      rw [List.replicate_succ, List.cons_append, admitted_cons_self, h, counted_tick_self]
      split <;> omega

theorem admitted_append_of_notMem (limit : Nat) {before : List ω} (h : w ∉ before)
    (counter : Option (Counter ω)) (hcounter : counted counter w = 0) (rest : List ω) :
    ∃ next, counted next w = 0 ∧
      admitted limit w counter (before ++ rest) = admitted limit w next rest := by
  induction before generalizing counter with
  | nil => exact ⟨counter, hcounter, rfl⟩
  | cons v before ih =>
      obtain ⟨hv, hbefore⟩ := not_or.mp (mt List.mem_cons.mpr h)
      have hne : v ≠ w := fun he => hv he.symm
      obtain ⟨next, hnext, heq⟩ := ih hbefore (some (tick counter v)) (counted_tick_of_ne hne)
      exact ⟨next, hnext, by rw [List.cons_append, admitted_cons_of_ne hne, heq]⟩

/-- An uninterrupted window is counted as a whole, so the limit holds. -/
theorem admitted_le_of_uninterrupted {hits : List ω} (h : Uninterrupted w hits) :
    admitted limit w none hits ≤ limit := by
  obtain ⟨before, n, after, hbefore, hafter, rfl⟩ := h
  rw [List.append_assoc]
  obtain ⟨start, hstart, heq⟩ :=
    admitted_append_of_notMem limit hbefore none rfl (List.replicate n w ++ after)
  obtain ⟨next, hblock⟩ := admitted_replicate limit w start n after
  have hrest : admitted limit w next after ≤ 0 :=
    Nat.le_trans (admitted_le_count next after) (Nat.le_of_eq (List.count_eq_zero_of_not_mem hafter))
  rw [heq, hblock, hstart]
  omega

/-- The first maximal block of `w` in a list that hits it at all. -/
theorem exists_first_block {hits : List ω} (h : w ∈ hits) :
    ∃ before n after, w ∉ before ∧ after.head? ≠ some w ∧
      hits = before ++ List.replicate (n + 1) w ++ after := by
  induction hits with
  | nil => exact absurd h (List.not_mem_nil)
  | cons v rest ih =>
      by_cases hv : v = w
      · subst v
        by_cases hhead : rest.head? = some w
        · obtain ⟨tail, rfl⟩ : ∃ tail, rest = w :: tail := by
            cases rest with
            | nil => simp at hhead
            | cons x tail => exact ⟨tail, by simpa using hhead⟩
          obtain ⟨before, n, after, hbefore, hafter, heq⟩ := ih (List.mem_cons_self ..)
          cases before with
          | nil => exact ⟨[], n + 1, after, hbefore, hafter, by
              simp only [List.nil_append] at heq ⊢
              rw [List.replicate_succ, List.cons_append, ← heq]⟩
          | cons x before =>
              simp only [List.cons_append, List.cons.injEq] at heq
              exact absurd (heq.1 ▸ List.mem_cons_self ..) hbefore
        · exact ⟨[], 0, rest, List.not_mem_nil, hhead, by simp⟩
      · have hrest : w ∈ rest := (List.mem_cons.mp h).resolve_left (fun he => hv he.symm)
        obtain ⟨before, n, after, hbefore, hafter, heq⟩ := ih hrest
        refine ⟨v :: before, n, after, ?_, hafter, by simp [heq]⟩
        simp only [List.mem_cons, not_or]
        exact ⟨fun he => hv he.symm, hbefore⟩

/-- Exactly when the counter keeps its promise for one window: either the window is
hit no more often than the limit allows, or its hits arrive without interruption. -/
theorem admitted_le_iff (hlimit : 1 ≤ limit) (hits : List ω) :
    admitted limit w none hits ≤ limit ↔ hits.count w ≤ limit ∨ Uninterrupted w hits := by
  constructor
  · intro hbound
    by_contra hcontra
    obtain ⟨hmany, hbroken⟩ := not_or.mp hcontra
    have hmem : w ∈ hits := List.count_pos_iff.mp (by omega)
    obtain ⟨before, n, after, hbefore, hhead, rfl⟩ := exists_first_block hmem
    -- The block is followed by another window, and `w` comes back after it.
    have hback : w ∈ after := by
      by_contra hafter
      exact hbroken ⟨before, n + 1, after, hbefore, hafter, rfl⟩
    obtain ⟨v, tail, rfl⟩ := List.exists_cons_of_ne_nil (List.ne_nil_of_mem hback)
    have hv : v ≠ w := by simpa using hhead
    rw [List.append_assoc] at hbound
    obtain ⟨start, hstart, heq⟩ := admitted_append_of_notMem limit hbefore none rfl
      (List.replicate (n + 1) w ++ v :: tail)
    obtain ⟨next, hblock⟩ :=
      admitted_replicate limit w start (n + 1) (v :: tail)
    have hagain := min_le_admitted limit w (some (tick next v)) tail
    rw [counted_tick_of_ne hv] at hagain
    rw [heq, hblock, hstart, admitted_cons_of_ne hv] at hbound
    have hpos : 1 ≤ tail.count w :=
      List.count_pos_iff.mpr ((List.mem_cons.mp hback).resolve_left (fun he => hv he.symm))
    have htotal : (before ++ List.replicate (n + 1) w ++ v :: tail).count w =
        (n + 1) + tail.count w := by
      simp [List.count_append, List.count_eq_zero_of_not_mem hbefore, List.count_cons_of_ne hv]
    omega
  · rintro (hfew | hwhole)
    · exact Nat.le_trans (admitted_le_count none hits) hfew
    · exact admitted_le_of_uninterrupted hwhole

end WindowCounter
