import Mathlib.Data.Rat.Defs
import Mathlib.Algebra.Order.Field.Rat
import Mathlib.Order.Compare
import Mathlib.Data.Int.Cast.Lemmas
import Mathlib.Algebra.Order.Ring.Cast

/-!
# BSON values as a Python driver sees them

`Value` is the part of Python's world that PyMongo reads and writes. A plain integer and
`bson.Int64` are told apart, as Python's types tell them apart; a datetime counts
microseconds. `Value.stored` is what comes back after a value has been written: a plain
integer outside 32 bits returns as an `Int64` and a datetime loses what lies below its
millisecond. BSON types without structure here are kept by their place in the BSON
comparison order together with their contents.

The comparison follows the order of BSON types first and of values of one type second.
Query operators compare within one type and look into arrays; aggregation operators use
the order itself, in which a missing field comes first.
-/

namespace Mongo

inductive Value
  | null
  | bool (b : Bool)
  | int (n : Int)
  | long (n : Int)
  | double (bits : BitVec 64)
  | string (s : String)
  | date (us : Int)
  | array (xs : List Value)
  | document (fields : List (String × Value))
  | other (rank : Nat) (payload : String)
  deriving Repr

/-- A document in field order. -/
abbrev Doc := List (String × Value)

namespace Value

mutual

def beq : Value → Value → Bool
  | null, null => true
  | bool a, bool b => a == b
  | int a, int b => a == b
  | long a, long b => a == b
  | double a, double b => a == b
  | string a, string b => a == b
  | date a, date b => a == b
  | array xs, array ys => beqList xs ys
  | document xs, document ys => beqFields xs ys
  | other r p, other r' p' => r == r' && p == p'
  | _, _ => false

def beqList : List Value → List Value → Bool
  | [], [] => true
  | x :: xs, y :: ys => beq x y && beqList xs ys
  | _, _ => false

def beqFields : List (String × Value) → List (String × Value) → Bool
  | [], [] => true
  | (k, x) :: xs, (k', y) :: ys => k == k' && beq x y && beqFields xs ys
  | _, _ => false

end

mutual

theorem eq_of_beq : ∀ {a b : Value}, beq a b = true → a = b
  | null, b, h => by cases b <;> simp_all [beq]
  | bool _, b, h => by cases b <;> simp_all [beq]
  | int _, b, h => by cases b <;> simp_all [beq]
  | long _, b, h => by cases b <;> simp_all [beq]
  | double _, b, h => by cases b <;> simp_all [beq]
  | string _, b, h => by cases b <;> simp_all [beq]
  | date _, b, h => by cases b <;> simp_all [beq]
  | array xs, b, h => by
      cases b with
      | array ys => exact congrArg array (eq_of_beqList (by simpa [beq] using h))
      | _ => simp [beq] at h
  | document xs, b, h => by
      cases b with
      | document ys => exact congrArg document (eq_of_beqFields (by simpa [beq] using h))
      | _ => simp [beq] at h
  | other _ _, b, h => by cases b <;> simp_all [beq]

theorem eq_of_beqList : ∀ {xs ys : List Value}, beqList xs ys = true → xs = ys
  | [], ys, h => by cases ys <;> simp_all [beqList]
  | x :: xs, [], h => by simp [beqList] at h
  | x :: xs, y :: ys, h => by
      simp only [beqList, Bool.and_eq_true] at h
      rw [eq_of_beq h.1, eq_of_beqList h.2]

theorem eq_of_beqFields :
    ∀ {xs ys : List (String × Value)}, beqFields xs ys = true → xs = ys
  | [], ys, h => by cases ys <;> simp_all [beqFields]
  | (k, x) :: xs, [], h => by simp [beqFields] at h
  | (k, x) :: xs, (k', y) :: ys, h => by
      simp only [beqFields, Bool.and_eq_true, beq_iff_eq] at h
      rw [h.1.1, eq_of_beq h.1.2, eq_of_beqFields h.2]

end

mutual

@[simp] theorem beq_refl : ∀ a : Value, beq a a = true
  | null | bool _ | int _ | long _ | double _ | string _ | date _ | other _ _ => by simp [beq]
  | array xs => by simpa [beq] using beqList_refl xs
  | document xs => by simpa [beq] using beqFields_refl xs

theorem beqList_refl : ∀ xs : List Value, beqList xs xs = true
  | [] => rfl
  | x :: xs => by simp [beqList, beq_refl x, beqList_refl xs]

theorem beqFields_refl : ∀ xs : List (String × Value), beqFields xs xs = true
  | [] => rfl
  | (k, x) :: xs => by simp [beqFields, beq_refl x, beqFields_refl xs]

end

instance : DecidableEq Value := fun a b =>
  if h : beq a b = true then isTrue (eq_of_beq h)
  else isFalse fun he => h (he ▸ beq_refl a)

/-! ### Numbers -/

/-- The value of a BSON number. -/
inductive Num
  | nan
  | negInf
  | fin (q : ℚ)
  | posInf
  deriving DecidableEq

/-- The value of a double from its bit pattern. -/
def ofBits (bits : BitVec 64) : Num :=
  let negative := bits.getLsbD 63
  let exponent : Nat := bits.toNat / 2 ^ 52 % 2 ^ 11
  let mantissa : Nat := bits.toNat % 2 ^ 52
  if exponent = 2047 then
    if mantissa ≠ 0 then .nan else if negative then .negInf else .posInf
  else
    let magnitude : ℚ :=
      if exponent = 0 then mantissa / 2 ^ 1074
      else if 1075 ≤ exponent then (2 ^ 52 + mantissa) * 2 ^ (exponent - 1075)
      else (2 ^ 52 + mantissa) / 2 ^ (1075 - exponent)
    .fin (if negative then -magnitude else magnitude)

def num? : Value → Option Num
  | int n | long n => some (.fin n)
  | double bits => some (ofBits bits)
  | _ => none

/-- NaN is the least number. -/
def Num.compare : Num → Num → Ordering
  | .nan, .nan => .eq
  | .nan, _ => .lt
  | _, .nan => .gt
  | .negInf, .negInf => .eq
  | .negInf, _ => .lt
  | _, .negInf => .gt
  | .posInf, .posInf => .eq
  | .posInf, _ => .gt
  | _, .posInf => .lt
  | .fin p, .fin q => cmp p q

/-- 32 bits, the range in which a plain integer stays one. -/
def fitsInt32 (n : Int) : Bool := -2147483648 ≤ n && n ≤ 2147483647

/-- A plain integer as PyMongo reads it back. -/
def ofInt (n : Int) : Value := if fitsInt32 n then int n else long n

/-- The integer a 32-bit or 64-bit value stands for. -/
def integer? : Value → Option Int
  | int n | long n => some n
  | _ => none

@[simp] theorem integer?_ofInt (n : Int) : (ofInt n).integer? = some n := by
  unfold ofInt
  split <;> rfl

/-! ### Storing -/

/-- A datetime cut to milliseconds. -/
def floorMs (us : Int) : Int := us / 1000 * 1000

mutual

def stored : Value → Value
  | int n => ofInt n
  | date us => date (floorMs us)
  | array xs => array (storedList xs)
  | document fields => document (storedFields fields)
  | v => v

def storedList : List Value → List Value
  | [] => []
  | x :: xs => stored x :: storedList xs

def storedFields : List (String × Value) → List (String × Value)
  | [] => []
  | (k, x) :: xs => (k, stored x) :: storedFields xs

end

theorem floorMs_le (us : Int) : floorMs us ≤ us := by
  unfold floorMs
  omega

theorem floorMs_mono {a b : Int} (h : a ≤ b) : floorMs a ≤ floorMs b := by
  unfold floorMs
  omega

@[simp] theorem floorMs_floorMs (us : Int) : floorMs (floorMs us) = floorMs us := by
  unfold floorMs
  omega

/-! ### Comparison -/

/-- Place of a type in the BSON comparison order. -/
def rank : Value → Nat
  | null => 5
  | int _ | long _ | double _ => 10
  | string _ => 15
  | document _ => 20
  | array _ => 25
  | bool _ => 40
  | date _ => 45
  | other r _ => r

mutual

def compare : Value → Value → Ordering
  | null, null => .eq
  | bool a, bool b => Ord.compare a b
  | string a, string b => Ord.compare a b
  | date a, date b => Ord.compare a b
  | array xs, array ys => compareList xs ys
  | document xs, document ys => compareFields xs ys
  | other r p, other r' p' => (Ord.compare r r').then (Ord.compare p p')
  | a, b =>
      match a.num?, b.num? with
      | some p, some q => p.compare q
      | _, _ => Ord.compare a.rank b.rank

def compareList : List Value → List Value → Ordering
  | [], [] => .eq
  | [], _ :: _ => .lt
  | _ :: _, [] => .gt
  | x :: xs, y :: ys => (compare x y).then (compareList xs ys)

def compareFields : List (String × Value) → List (String × Value) → Ordering
  | [], [] => .eq
  | [], _ :: _ => .lt
  | _ :: _, [] => .gt
  | (k, x) :: xs, (k', y) :: ys =>
      (Ord.compare x.rank y.rank).then
        ((Ord.compare k k').then ((compare x y).then (compareFields xs ys)))

end

/-- Integers of either width compare as integers. -/
theorem compare_integers {a b : Value} {m n : Int} (ha : a.integer? = some m)
    (hb : b.integer? = some n) : compare a b = cmp m n := by
  have hcast : cmp (m : ℚ) (n : ℚ) = cmp m n := Int.cast_strictMono.cmp_map_eq m n
  cases a <;> simp only [integer?, Option.some.injEq, reduceCtorEq] at ha <;> subst ha <;>
    cases b <;> simp only [integer?, Option.some.injEq, reduceCtorEq] at hb <;> subst hb <;>
    exact hcast

end Value

/-! ### Query operators

A field is `none` when the document does not have it. -/

/-- What a query operator looks at: the value and, of an array, its elements. -/
def candidates : Option Value → List Value
  | none => []
  | some (.array xs) => .array xs :: xs
  | some v => [v]

/-- `{field: query}`. A missing field equals null. -/
def eqMatches (field : Option Value) (query : Value) : Bool :=
  (candidates field).any (fun v => v.compare query == .eq) || (field.isNone && query == .null)

/-- `{field: {$gt: query}}`, among values of the query's type. -/
def gtMatches (field : Option Value) (query : Value) : Bool :=
  (candidates field).any fun v => v.rank == query.rank && v.compare query == .gt

/-- `{field: {$gte: query}}`, among values of the query's type. -/
def gteMatches (field : Option Value) (query : Value) : Bool :=
  (candidates field).any fun v => v.rank == query.rank && v.compare query != .lt

/-- `{field: {$type: ["int", "long"]}}`. -/
def integerMatches (field : Option Value) : Bool :=
  (candidates field).any fun v => v.integer?.isSome

/-! ### Aggregation operators -/

/-- `$ifNull`. -/
def ifNull (field : Option Value) (default : Value) : Value :=
  match field with
  | none | some .null => default
  | some v => v

/-- The order of aggregation expressions, in which a missing field comes first. -/
def exprCompare : Option Value → Option Value → Ordering
  | none, none => .eq
  | none, some _ => .lt
  | some _, none => .gt
  | some a, some b => a.compare b

def exprLt (a b : Option Value) : Bool := exprCompare a b == .lt

def exprLe (a b : Option Value) : Bool := exprCompare a b != .gt

variable {a b : Value} {m n : Int}

theorem exprLt_integers (ha : a.integer? = some m) (hb : b.integer? = some n) :
    exprLt (some a) (some b) = true ↔ m < n := by
  have hcompare : exprLt (some a) (some b) = (cmp m n == .lt) :=
    congrArg (· == Ordering.lt) (Value.compare_integers ha hb)
  rw [hcompare, beq_iff_eq, cmp_eq_lt_iff]

theorem exprLe_integers (ha : a.integer? = some m) (hb : b.integer? = some n) :
    exprLe (some a) (some b) = true ↔ m ≤ n := by
  have hcompare : exprLe (some a) (some b) = (cmp m n != .gt) :=
    congrArg (· != Ordering.gt) (Value.compare_integers ha hb)
  rw [hcompare, bne_iff_ne, ne_eq, cmp_eq_gt_iff, not_lt]

theorem gteMatches_integer (ha : a.integer? = some m) (hb : b.integer? = some n) :
    gteMatches (some a) b = true ↔ n ≤ m := by
  have hrank : a.rank = b.rank := by
    cases a <;> simp only [Value.integer?, reduceCtorEq] at ha <;>
      cases b <;> simp only [Value.integer?, reduceCtorEq] at hb <;> rfl
  have hcandidates : candidates (some a) = [a] := by
    cases a <;> simp only [Value.integer?, reduceCtorEq] at ha <;> rfl
  have hlower : gteMatches (some a) b = true ↔ a.compare b ≠ .lt := by
    simp [gteMatches, hcandidates, hrank]
  rw [hlower, Value.compare_integers ha hb, ne_eq, cmp_eq_lt_iff, not_lt]

end Mongo
