import ZelerPlatform.Library.Mongo.Value

/-!
# Python's view of decoded documents

Equality, truth and a few string operations of Python on the values PyMongo decodes. The
values on the two sides of an equality come from two reads: no object is shared, so a NaN
differs from itself. Booleans are integers, and the order of the keys of a dictionary is
immaterial.
-/

namespace Mongo

namespace Value

/-- The number a value is to Python. -/
def pyNum? : Value → Option Num
  | bool b => some (.fin (if b then 1 else 0))
  | v => v.num?

def pyNumEq (a b : Value) : Bool :=
  match a.pyNum?, b.pyNum? with
  | some p, some q => p == q && p != .nan
  | _, _ => false

mutual

/-- `a == b`. -/
def pyEq : Value → Value → Bool
  | null, null => true
  | string a, string b => a == b
  | date a, date b => a == b
  | array xs, array ys => pyEqList xs ys
  | document xs, document ys => xs.length == ys.length && pyEqFields xs ys
  | other r p, other r' p' => r == r' && p == p'
  | bool a, b => pyNumEq (bool a) b
  | int a, b => pyNumEq (int a) b
  | long a, b => pyNumEq (long a) b
  | double a, b => pyNumEq (double a) b
  | _, _ => false

def pyEqList : List Value → List Value → Bool
  | [], [] => true
  | x :: xs, y :: ys => pyEq x y && pyEqList xs ys
  | _, _ => false

/-- Every field of the first document is equal to that of the second. -/
def pyEqFields : List (String × Value) → List (String × Value) → Bool
  | [], _ => true
  | (k, x) :: rest, ys =>
      (match ys.lookup k with
        | some y => pyEq x y
        | none => false) && pyEqFields rest ys

end

/-- `bool(value)`. -/
def truthy : Value → Bool
  | null => false
  | bool b => b
  | int n | long n => n != 0
  | double bits => ofBits bits != .fin 0
  | string s => !s.isEmpty
  | array xs => !xs.isEmpty
  | document fields => !fields.isEmpty
  | date _ | other .. => true

end Value

namespace Doc

/-- `document.get(key)`; a missing key is `none`. -/
def get? (doc : Doc) (key : String) : Option Value := doc.lookup key

/-- `document == other`. -/
def pyEq (a b : Doc) : Bool := (Value.document a).pyEq (.document b)

end Doc

/-- `str.isspace` of one character. -/
def isPySpace (c : Char) : Bool :=
  let n := c.toNat
  (9 ≤ n && n ≤ 13) || (28 ≤ n && n ≤ 32) || n == 0x85 || n == 0xA0 || n == 0x1680 ||
    (0x2000 ≤ n && n ≤ 0x200A) || n == 0x2028 || n == 0x2029 || n == 0x202F || n == 0x205F ||
    n == 0x3000

/-- `str.strip()`. -/
def pyStrip (s : String) : String :=
  String.ofList
    ((s.toList.dropWhile isPySpace).reverse.dropWhile isPySpace).reverse

/-- A text without spaces is its own strip. -/
theorem pyStrip_of_forall {s : String} (h : ∀ c ∈ s.toList, isPySpace c = false) :
    pyStrip s = s := by
  have keep : ∀ {cs : List Char}, (∀ c ∈ cs, isPySpace c = false) → cs.dropWhile isPySpace = cs := by
    intro cs hcs
    cases cs with
    | nil => rfl
    | cons c cs => rw [List.dropWhile_cons_of_neg (by simp [hcs c List.mem_cons_self])]
  rw [pyStrip, keep h, keep fun c mem => h c (List.mem_reverse.mp mem), List.reverse_reverse,
    String.ofList_toList]

end Mongo
