import ZelerPlatform.Library.Decimal
import ZelerPlatform.Library.PyValue

/-!
# Numbers that texts denote

The literals `float` and `Decimal` read: digits of any script with a point and an exponent, the
infinities and the NaNs. `float` takes single underscores between digits and rounds to the
nearest double; `Decimal` drops all underscores and is exact. `str.isdigit` holds of more
characters than these literals are made of.
-/

/-! ### Digits -/

/-- The first and the last code points of the runs of digits that are no decimal digits, such
as superscripts. -/
def otherDigits : List (Nat × Nat) :=
  [(0xB2, 0xB3), (0xB9, 0xB9), (0x1369, 0x1371), (0x19DA, 0x19DA), (0x2070, 0x2070),
    (0x2074, 0x2079), (0x2080, 0x2089), (0x2460, 0x2468), (0x2474, 0x247C), (0x2488, 0x2490),
    (0x24EA, 0x24EA), (0x24F5, 0x24FD), (0x24FF, 0x24FF), (0x2776, 0x277E), (0x2780, 0x2788),
    (0x278A, 0x2792), (0x10A40, 0x10A43), (0x10E60, 0x10E68), (0x11052, 0x1105A),
    (0x1F100, 0x1F10A)]

/-- `c.isdecimal()`. -/
def isDecimalChar (c : Char) : Bool := (decimalDigit c).isSome

/-- `c.isdigit()`. -/
def isDigitChar (c : Char) : Bool :=
  isDecimalChar c || otherDigits.any fun run => run.1 ≤ c.toNat && c.toNat ≤ run.2

/-- `text.isdigit()`. -/
def isDigitText (text : String) : Bool := !text.toList.isEmpty && text.toList.all isDigitChar

/-- `text.isdecimal()`. -/
def isDecimalText (text : String) : Bool := !text.toList.isEmpty && text.toList.all isDecimalChar

/-- The number that digits are. -/
def ofDigits (digits : List Nat) : Nat := digits.foldl (fun n d => 10 * n + d) 0

theorem isDigitText_of_isDecimalText {text : String} (h : isDecimalText text = true) :
    isDigitText text = true := by
  rw [isDecimalText, Bool.and_eq_true, List.all_eq_true] at h
  rw [isDigitText, Bool.and_eq_true, List.all_eq_true]
  refine ⟨h.1, fun c mem => ?_⟩
  rw [isDigitChar, h.2 c mem, Bool.true_or]

/-! ### Literals -/

/-- Digits, or none at all. -/
def digitPart (text : List Char) : Option (List Nat) :=
  if text = [] then some [] else digitsOf text false

/-- What follows the mantissa: nothing, or the letter and an exponent. -/
def exponentPart : List Char → Option Int
  | [] => some 0
  | _ :: '+' :: text => (digitsOf text false).map fun digits => (ofDigits digits : Int)
  | _ :: '-' :: text => (digitsOf text false).map fun digits => -(ofDigits digits : Int)
  | _ :: text => (digitsOf text false).map fun digits => (ofDigits digits : Int)

/-- The coefficient and the exponent of ten of a literal without a sign. -/
def literal (text : List Char) : Option (Nat × Int) := do
  let mantissa := text.takeWhile fun c => c != 'e' && c != 'E'
  let exponent ← exponentPart (text.dropWhile fun c => c != 'e' && c != 'E')
  let whole ← digitPart (mantissa.takeWhile (· != '.'))
  let fraction ← digitPart ((mantissa.dropWhile (· != '.')).drop 1)
  guard (whole ++ fraction ≠ [])
  pure (ofDigits (whole ++ fraction), exponent - fraction.length)

/-- A text without its sign, and whether that is a minus. -/
def signed : List Char → Bool × List Char
  | '+' :: text => (false, text)
  | '-' :: text => (true, text)
  | text => (false, text)

/-- `c.lower()` of an ASCII letter. -/
def lowerAscii (text : List Char) : List Char := text.map Char.toLower

/-- The number of a literal. -/
def literalValue (coefficient : Nat) (exponent : Int) : ℚ := coefficient * 10 ^ exponent

namespace PyFloat

def neg : PyFloat → PyFloat
  | finite value => finite (-value)
  | infinity negative => infinity !negative
  | nan => nan

/-- The double nearest to a number that is not negative. -/
def nearest (x : ℚ) : PyFloat :=
  if x = 0 then finite 0
  else
    let last := max (Int.log 2 x - 52) (-1074)
    let rounded := Decimal.roundHalfEven (x / 2 ^ last) * (2 : ℚ) ^ last
    if 2 ^ 1024 ≤ rounded then infinity false else finite rounded

def ofUnsigned (text : List Char) : Option PyFloat :=
  if lowerAscii text = "inf".toList ∨ lowerAscii text = "infinity".toList then some (infinity false)
  else if lowerAscii text = "nan".toList then some nan
  else (literal text).map fun (coefficient, exponent) => nearest (literalValue coefficient exponent)

/-- `float(text)`; `none` is a `ValueError`. -/
def ofText (text : String) : Option PyFloat :=
  let (negative, rest) := signed (Mongo.pyStrip text).toList
  (ofUnsigned rest).map fun value => if negative then neg value else value

/-- `value <= 0`. -/
def leZero : PyFloat → Bool
  | finite value => value ≤ 0
  | infinity negative => negative
  | nan => false

end PyFloat

namespace Decimal

/-- The largest exponent of the first digit that a `Decimal` can be written with, and the least
of the last. -/
def writtenMax : ℤ := 999999999999999999

def writtenMin : ℤ := -1999999999999999997

def ofUnsigned (text : List Char) : Option Decimal :=
  let lower := lowerAscii text
  if lower = "inf".toList ∨ lower = "infinity".toList then some (infinity false)
  else if "nan".toList.isPrefixOf lower ∧ (digitPart (text.drop 3)).isSome then some (nan false)
  else if "snan".toList.isPrefixOf lower ∧ (digitPart (text.drop 4)).isSome then some (nan true)
  else do
    let (coefficient, exponent) ← literal text
    guard (writtenMin ≤ exponent ∧ exponent + Nat.log 10 coefficient ≤ writtenMax)
    pure (finite (literalValue coefficient exponent))

def neg : Decimal → Decimal
  | finite value => finite (-value)
  | infinity negative => infinity !negative
  | nan signaling => nan signaling

/-- `Decimal(text)`; `none` is an `InvalidOperation`. -/
def ofText (text : String) : Option Decimal :=
  let (negative, rest) := signed ((Mongo.pyStrip text).toList.filter (· != '_'))
  (ofUnsigned rest).map fun value => if negative then neg value else value

/-- The integer that a finite value without a fraction is. -/
def integer? : Decimal → Option Int
  | finite value => if value.den = 1 then some value.num else none
  | _ => none

end Decimal
