import ZelerPlatform.Library.Mongo.Python

/-!
# Python values of messages

The values a JSON text or a table of message headers decodes to, and the conversion `int` of
them.
-/

/-- A Python float. -/
inductive PyFloat
  | finite (value : ℚ)
  | infinity (negative : Bool)
  | nan

/-- A decoded value; `other` stands for a type that is none of these. -/
inductive PyValue
  | none
  | bool (b : Bool)
  | int (n : Int)
  | float (x : PyFloat)
  | text (s : String)
  | list (items : List PyValue)
  | dict (fields : List (String × PyValue))
  | other (repr : String)

/-- The builtin exceptions a conversion may raise. -/
inductive BuiltinError
  | jsonDecode
  | unicodeDecode
  | value
  | key
  | type
  | other (name : String)
  deriving DecidableEq, Repr

namespace BuiltinError

/-- `isinstance(error, ValueError)`. -/
def isValueError : BuiltinError → Bool
  | jsonDecode | unicodeDecode | value => true
  | _ => false

/-- `isinstance(error, (KeyError, TypeError, ValueError, JSONDecodeError, UnicodeDecodeError))`. -/
def isPayloadError : BuiltinError → Bool
  | other _ => false
  | _ => true

end BuiltinError

/-- The code points of the digits zero; each starts a block of ten. -/
def decimalZeros : List Nat :=
  [0x30, 0x660, 0x6F0, 0x7C0, 0x966, 0x9E6, 0xA66, 0xAE6, 0xB66, 0xBE6, 0xC66, 0xCE6, 0xD66,
    0xDE6, 0xE50, 0xED0, 0xF20, 0x1040, 0x1090, 0x17E0, 0x1810, 0x1946, 0x19D0, 0x1A80, 0x1A90,
    0x1B50, 0x1BB0, 0x1C40, 0x1C50, 0xA620, 0xA8D0, 0xA900, 0xA9D0, 0xA9F0, 0xAA50, 0xABF0,
    0xFF10, 0x104A0, 0x10D30, 0x11066, 0x110F0, 0x11136, 0x111D0, 0x112F0, 0x11450, 0x114D0,
    0x11650, 0x116C0, 0x11730, 0x118E0, 0x11950, 0x11C50, 0x11D50, 0x11DA0, 0x11F50, 0x16A60,
    0x16AC0, 0x16B50, 0x1D7CE, 0x1D7D8, 0x1D7E2, 0x1D7EC, 0x1D7F6, 0x1E140, 0x1E2F0, 0x1E4F0,
    0x1E950, 0x1FBF0]

/-- The digit a character stands for. -/
def decimalDigit (c : Char) : Option Nat :=
  (decimalZeros.find? fun start => start ≤ c.toNat && c.toNat < start + 10).map (c.toNat - ·)

/-- Digits with single underscores between them; `afterDigit` is whether a digit came last. -/
def digitsOf : List Char → Bool → Option (List Nat)
  | [], afterDigit => if afterDigit then some [] else none
  | c :: rest, afterDigit =>
      if c = '_' then (if afterDigit then digitsOf rest false else none)
      else match decimalDigit c with
        | some d => (digitsOf rest true).map (d :: ·)
        | none => none

/-- The digits `int` takes at most. -/
def maxStrDigits : Nat := 4300

/-- The number a text without a sign is. -/
def naturalOf (text : List Char) : Option Nat :=
  match digitsOf text false with
  | some digits =>
      if digits.length ≤ maxStrDigits then some (digits.foldl (fun n d => 10 * n + d) 0) else none
  | none => none

/-- `int(text)`; `none` is a `ValueError`. -/
def intOfText (text : String) : Option Int :=
  match (Mongo.pyStrip text).toList with
  | '+' :: rest => (naturalOf rest).map Int.ofNat
  | '-' :: rest => (naturalOf rest).map fun n => -(n : Int)
  | rest => (naturalOf rest).map Int.ofNat

namespace PyValue

/-- `int(value)`. -/
def toInt : PyValue → Except BuiltinError Int
  | bool b => .ok (if b then 1 else 0)
  | int n => .ok n
  | float (.finite x) => .ok (x.num.tdiv x.den)
  | float (.infinity _) => .error (.other "OverflowError")
  | float .nan => .error .value
  | text s => match intOfText s with
      | some n => .ok n
      | Option.none => .error .value
  | _ => .error .type

/-- The integer a value is if it is an instance of `int`. -/
def int? : PyValue → Option Int
  | bool b => some (if b then 1 else 0)
  | int n => some n
  | _ => Option.none

end PyValue

/-- A Python dict with text keys, in insertion order. -/
abbrev PyDict := List (String × PyValue)

namespace PyDict

/-- `fields[key] = value`. -/
def set (fields : PyDict) (key : String) (value : PyValue) : PyDict :=
  if (fields.lookup key).isSome then
    fields.map fun field => if field.1 == key then (key, value) else field
  else fields ++ [(key, value)]

/-- `fields.pop(key, None)`. -/
def drop (fields : PyDict) (key : String) : PyDict := fields.filter fun field => field.1 != key

end PyDict
