/-! # Numerals

Natural numbers as people write them into settings: decimal digits, with at most one plus sign in
front.
-/

namespace SessionStore.Text

namespace Numeral

/-- Why a text is not the numeral of a number up to the limit. -/
inductive Fault
  | empty
  | invalidDigit
  | tooLarge
  deriving DecidableEq, Repr

def Fault.message : Fault → String
  | .empty => "cannot parse integer from empty string"
  | .invalidDigit => "invalid digit found in string"
  | .tooLarge => "number too large to fit in target type"

/-- The value of an ASCII digit. -/
def digit? (c : Char) : Option Nat :=
  if '0' ≤ c ∧ c ≤ '9' then some (c.toNat - '0'.toNat) else none

/-- Reads on after the digits of `value`. The first character that is no digit, or that makes the
number exceed `limit`, decides. -/
def readFrom (limit value : Nat) : List Char → Except Fault Nat
  | [] => .ok value
  | c :: cs =>
    match digit? c with
    | none => .error .invalidDigit
    | some d =>
      if limit < value * 10 + d then .error .tooLarge else readFrom limit (value * 10 + d) cs

def read (limit : Nat) : List Char → Except Fault Nat
  | [] => .error .empty
  | ['+'] => .error .invalidDigit
  | '+' :: cs => readFrom limit 0 cs
  | cs => readFrom limit 0 cs

end Numeral

end SessionStore.Text
