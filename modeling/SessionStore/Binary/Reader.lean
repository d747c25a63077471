import SessionStore.Binary.Format
import SessionStore.Text.Numeral

/-! # Floating-point values from text

Decimal numbers with an optional point and exponent, and the words for what is no finite number.
The value is the nearest one of the format.
-/

namespace SessionStore.Binary

/-- What a text stands for. A magnitude of at least the format's infinity is infinite. -/
inductive Reading
  | notANumber
  | number (negative : Bool) (magnitude : Nat)
  deriving DecidableEq, Repr

/-- The digits at the front as a number, how many they are, and what follows. -/
def leadingDigits (value count : Nat) : List Char → Nat × Nat × List Char
  | [] => (value, count, [])
  | c :: cs =>
    match Text.Numeral.digit? c with
    | some d => leadingDigits (value * 10 + d) (count + 1) cs
    | none => (value, count, c :: cs)

def takeSign : List Char → Bool × List Char
  | '-' :: cs => (true, cs)
  | '+' :: cs => (false, cs)
  | cs => (false, cs)

/-- An exponent up to the end of the text, zero if there is none. -/
def readExponent : List Char → Option Int
  | [] => some 0
  | c :: cs =>
    if c = 'e' ∨ c = 'E' then
      let (negative, cs) := takeSign cs
      match leadingDigits 0 0 cs with
      | (_, 0, _) => none
      | (e, _, []) => some (if negative then -e else e)
      | _ => none
    else none

/-- The magnitude of `digits · 10 ^ e`. Exponents far outside the format need no computation. -/
def Format.readDecimal (f : Format) (digits count : Nat) (e : Int) : Nat :=
  if digits = 0 ∨ e + count < -400 then 0
  else if 400 < e then f.infinity
  else f.nearestDecimal digits e

def Format.readUnsigned (f : Format) (cs : List Char) : Option Nat :=
  let (whole, n, rest) := leadingDigits 0 0 cs
  let (digits, k, rest) :=
    match rest with
    | '.' :: rest => leadingDigits whole 0 rest
    | rest => (whole, 0, rest)
  if n + k = 0 then none
  else (readExponent rest).map fun e => f.readDecimal digits (n + k) (e - k)

def Format.read? (f : Format) (s : String) : Option Reading :=
  let (negative, cs) := takeSign s.toList
  let word := cs.map Char.toLower
  if word = ['n', 'a', 'n'] then some .notANumber
  else if word = ['i', 'n', 'f'] ∨ word = ['i', 'n', 'f', 'i', 'n', 'i', 't', 'y'] then
    some (.number negative f.infinity)
  else (f.readUnsigned cs).map (.number negative)

/-- The pattern of the same magnitude in the wider format, which holds it exactly. -/
def widen (bits : Nat) : Nat :=
  if binary32.infinity ≤ bits then binary64.infinity
  else
    let (m, q) := binary32.value bits
    binary64.nearestScaled m q 1 1

end SessionStore.Binary
