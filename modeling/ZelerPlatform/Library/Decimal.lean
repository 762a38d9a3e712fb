import Mathlib.Data.Int.Log
import Mathlib.Algebra.Order.Floor.Ring
import Mathlib.Data.Rat.Floor
import Mathlib.Tactic.Linarith

/-!
# Python's `Decimal`

A `Decimal` counts by its value: the exponent a finite one was written with plays no part in
comparisons. Operations run in the default context, which has 28 digits, rounds half to even
and traps invalid operations and overflow.
-/

/-- A value of the type `Decimal`. -/
inductive Decimal
  | finite (value : ℚ)
  | infinity (negative : Bool)
  | nan (signaling : Bool)
  deriving DecidableEq

namespace Decimal

/-- A trapped signal, raised as an exception. -/
inductive Signal
  | invalidOperation
  | overflow
  deriving DecidableEq, Repr

/-- `a < b`; an ordering of a NaN is an invalid operation. -/
def lt : Decimal → Decimal → Except Signal Bool
  | nan _, _ => .error .invalidOperation
  | _, nan _ => .error .invalidOperation
  | finite a, finite b => .ok (a < b)
  | finite _, infinity negative => .ok !negative
  | infinity negative, finite _ => .ok negative
  | infinity a, infinity b => .ok (a && !b)

/-- `a == b`; a quiet NaN equals nothing, a signaling one is an invalid operation. -/
def eq : Decimal → Decimal → Except Signal Bool
  | nan true, _ => .error .invalidOperation
  | _, nan true => .error .invalidOperation
  | nan false, _ => .ok false
  | _, nan false => .ok false
  | a, b => .ok (a = b)

/-- Python's `min(a, b)`, which keeps the first of two equals. -/
def min (a b : Decimal) : Except Signal Decimal := do
  if ← b.lt a then return b else return a

/-- The integer nearest to a number, an even one in the middle of two. -/
def roundHalfEven (x : ℚ) : ℤ :=
  if x - ⌊x⌋ < 1 / 2 then ⌊x⌋
  else if 1 / 2 < x - ⌊x⌋ then ⌊x⌋ + 1
  else if ⌊x⌋ % 2 = 0 then ⌊x⌋ else ⌊x⌋ + 1

/-- The digits of the context. -/
def precision : ℤ := 28

/-- The largest and the least exponent of the first digit. -/
def exponentMax : ℤ := 999999

def exponentMin : ℤ := -999999

/-- The exponent of the last digit kept of a number other than zero. -/
def lastExponent (x : ℚ) : ℤ := max (Int.log 10 |x|) exponentMin - (precision - 1)

/-- The result of an operation whose exact result is `x`. -/
def fix (x : ℚ) : Except Signal Decimal :=
  if x = 0 then .ok (finite 0)
  else
    let rounded := roundHalfEven (x / 10 ^ lastExponent x) * (10 : ℚ) ^ lastExponent x
    if exponentMax < Int.log 10 |rounded| then .error .overflow else .ok (finite rounded)

/-- `a - b`. -/
def subtract : Decimal → Decimal → Except Signal Decimal
  | nan true, _ => .error .invalidOperation
  | _, nan true => .error .invalidOperation
  | nan false, _ => .ok (nan false)
  | _, nan false => .ok (nan false)
  | finite a, finite b => fix (a - b)
  | infinity negative, finite _ => .ok (infinity negative)
  | finite _, infinity negative => .ok (infinity !negative)
  | infinity a, infinity b => if a = b then .error .invalidOperation else .ok (infinity a)

/-! ### Rounding -/

@[simp] theorem roundHalfEven_intCast (n : ℤ) : roundHalfEven n = n := by
  simp [roundHalfEven]

/-- Rounding stays at or below an integer that the number is not above. -/
theorem roundHalfEven_le {x : ℚ} {n : ℤ} (h : x ≤ n) : roundHalfEven x ≤ n := by
  have hfloor : ⌊x⌋ ≤ n := Int.floor_le_iff.mpr (h.trans_lt (lt_add_one _))
  rcases hfloor.lt_or_eq with hlt | heq
  · unfold roundHalfEven
    split_ifs <;> omega
  · have hx : x = n := le_antisymm h (heq ▸ Int.floor_le x)
    rw [hx, roundHalfEven_intCast]

/-- Rounding stays at or above an integer that the number is not below. -/
theorem le_roundHalfEven {x : ℚ} {n : ℤ} (h : (n : ℚ) ≤ x) : n ≤ roundHalfEven x := by
  have hfloor : n ≤ ⌊x⌋ := Int.le_floor.mpr h
  unfold roundHalfEven
  split_ifs <;> omega

/-- A number nearer than a half to an integer is rounded to it. -/
theorem roundHalfEven_eq {x : ℚ} {n : ℤ} (below : x - n < 1 / 2) (above : n - x < 1 / 2) :
    roundHalfEven x = n := by
  unfold roundHalfEven
  by_cases h : (n : ℚ) ≤ x
  · have hfloor : ⌊x⌋ = n := Int.floor_eq_iff.mpr ⟨h, by linarith⟩
    rw [hfloor, if_pos below]
  · have hfloor : ⌊x⌋ = n - 1 := Int.floor_eq_iff.mpr ⟨by push_cast; linarith, by push_cast; linarith⟩
    rw [hfloor, if_neg (by push_cast; linarith), if_pos (by push_cast; linarith)]
    omega

/-! ### Comparisons with a finite bound -/

/-- The value is a number and not below `bound`. -/
def AtLeast (bound : ℚ) : Decimal → Prop
  | finite a => bound ≤ a
  | infinity negative => negative = false
  | nan _ => False

/-- The value is a number below `bound`. -/
def Below (bound : ℚ) : Decimal → Prop
  | finite a => a < bound
  | infinity negative => negative = true
  | nan _ => False

/-- A value taken down to `bound` if it is above. -/
def capped (bound : ℚ) : Decimal → ℚ
  | finite a => Min.min a bound
  | _ => bound

variable {bound other : ℚ} {a : Decimal}

theorem lt_finite_false_iff : a.lt (finite bound) = .ok false ↔ a.AtLeast bound := by
  cases a with
  | finite x => simp [lt, AtLeast]
  | infinity negative => simp [lt, AtLeast]
  | nan signaling => simp [lt, AtLeast]

theorem lt_finite_true_iff : a.lt (finite bound) = .ok true ↔ a.Below bound := by
  cases a with
  | finite x => simp [lt, Below]
  | infinity negative => simp [lt, Below]
  | nan signaling => simp [lt, Below]

theorem atLeast_or_below (a : Decimal) (bound : Rat) :
    a.AtLeast bound ∨ a.Below bound ∨ ∃ signaling, a = nan signaling := by
  cases a with
  | finite x => exact (le_or_gt bound x).imp_right .inl
  | infinity negative => cases negative <;> simp [AtLeast, Below]
  | nan signaling => exact .inr (.inr ⟨signaling, rfl⟩)

theorem AtLeast.not_below (h : a.AtLeast bound) : ¬ a.Below bound := by
  cases a with
  | finite x => exact not_lt_of_ge h
  | infinity negative => simp_all [AtLeast, Below]
  | nan signaling => exact h.elim

theorem AtLeast.mono (h : a.AtLeast bound) (le : other ≤ bound) : a.AtLeast other := by
  cases a with
  | finite x => exact le_trans le h
  | infinity negative => exact h
  | nan signaling => exact h

theorem min_finite (number : a.AtLeast bound) :
    a.min (finite other) = .ok (finite (a.capped other)) := by
  cases a with
  | finite x =>
      by_cases h : other < x
      · simp [min, lt, capped, h, min_eq_right h.le, bind, Except.bind, pure, Except.pure]
      · simp [min, lt, capped, h, min_eq_left (not_lt.mp h), bind, Except.bind, pure, Except.pure]
  | infinity negative =>
      have : negative = false := number
      subst this
      rfl
  | nan signaling => exact number.elim

theorem capped_le : a.capped bound ≤ bound := by
  cases a with
  | finite x => exact min_le_right x bound
  | infinity negative => exact le_rfl
  | nan signaling => exact le_rfl

/-- A number at or above the cap is taken down to it. -/
theorem capped_eq (h : a.AtLeast bound) (le : other ≤ bound) : a.capped other = other := by
  cases a with
  | finite x =>
      have hx : bound ≤ x := h
      exact min_eq_right (le.trans hx)
  | infinity negative => rfl
  | nan signaling => rfl

/-- A number at or above one bound stays there under a cap exactly if the cap is. -/
theorem le_capped_iff (h : a.AtLeast bound) : bound ≤ a.capped other ↔ bound ≤ other := by
  cases a with
  | finite x => exact ⟨fun h => (le_min_iff.mp h).2, le_min h⟩
  | infinity negative => exact Iff.rfl
  | nan signaling => exact Iff.rfl

theorem finite_eq_false_iff {x : ℚ} :
    (finite x).eq a = .ok false ↔ a ≠ finite x ∧ a ≠ nan true := by
  cases a with
  | finite y => simp [eq, eq_comm]
  | infinity negative => simp [eq]
  | nan signaling => cases signaling <;> simp [eq]

theorem finite_eq_self {x : ℚ} : (finite x).eq (finite x) = .ok true := by
  simp [eq]

end Decimal
