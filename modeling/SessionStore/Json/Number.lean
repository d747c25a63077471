import SessionStore.Binary.Shortest
import SessionStore.Json.Basic
import SessionStore.Text.Numeral

/-! # JSON numbers

A number without fraction and exponent is an integer if it lies between `Json.least` and
`Json.greatest`. Every other number is a double: the leading digits that fit into 64 bits are scaled
by a power of ten, so a number of many digits may miss the nearest double by a little.
-/

namespace SessionStore.Json

open Text Binary

/-- The parts of a number as it is written. -/
structure Numeral where
  negative : Bool
  whole : List Nat
  fraction : List Nat
  /-- Its sign and digits, if there is one. -/
  exponent : Option (Bool × List Nat)

namespace Numeral

/-- The digits at the front and what follows them. -/
def spanDigits : List Char → List Nat × List Char
  | [] => ([], [])
  | c :: cs =>
    match Numeral.digit? c with
    | some d => let (ds, rest) := spanDigits cs; (d :: ds, rest)
    | none => ([], c :: cs)

/-- A fraction, if a point stands in front. -/
def fraction? : List Char → Option (List Nat × List Char)
  | '.' :: cs =>
    match spanDigits cs with
    | ([], _) => none
    | (ds, rest) => some (ds, rest)
  | cs => some ([], cs)

/-- An exponent up to the end. -/
def exponent? : List Char → Option (Option (Bool × List Nat))
  | [] => some none
  | c :: cs =>
    if c = 'e' ∨ c = 'E' then
      let (negative, cs) : Bool × List Char :=
        match cs with
        | '-' :: r => (true, r)
        | '+' :: r => (false, r)
        | r => (false, r)
      match spanDigits cs with
      | ([], _) => none
      | (ds, []) => some (some (negative, ds))
      | _ => none
    else none

/-- A number without its sign: no leading zeros, and digits on both sides of a point. -/
def unsigned? (negative : Bool) (cs : List Char) : Option Numeral :=
  match spanDigits cs with
  | ([], _) => none
  | (0 :: _ :: _, _) => none
  | (whole, rest) => do
    let (fraction, rest) ← fraction? rest
    let exponent ← exponent? rest
    return { negative, whole, fraction, exponent }

def ofChars? : List Char → Option Numeral
  | '-' :: cs => unsigned? true cs
  | cs => unsigned? false cs

/-- The number that the digits write. -/
def value (ds : List Nat) : Nat := ds.foldl (fun n d => n * 10 + d) 0

/-- Digits gathered so far, with the power of ten they count. Once a digit does not fit, `full` is
set. -/
structure Significand where
  digits : Nat
  scale : Int
  full : Bool

def Significand.limit : Nat := 0xFFFFFFFFFFFFFFFF

/-- A digit before the point: one that no longer fits makes all that follow count as zeros. -/
def Significand.pushWhole (s : Significand) (d : Nat) : Significand :=
  if s.full ∨ Significand.limit < s.digits * 10 + d then ⟨s.digits, s.scale + 1, true⟩
  else ⟨s.digits * 10 + d, s.scale, false⟩

/-- A digit after the point: one that no longer fits is dropped with all that follow. -/
def Significand.pushFraction (s : Significand) (d : Nat) : Significand :=
  if s.full ∨ Significand.limit < s.digits * 10 + d then ⟨s.digits, s.scale, true⟩
  else ⟨s.digits * 10 + d, s.scale - 1, false⟩

/-- The magnitude of `m · 10 ^ e`, where `m` is the pattern of a double. It is found by one
multiplication or division with a power of ten that is rounded itself; far below the smallest
double by dividing several times. -/
def scaleBy (m : Nat) (e : Int) : Nat :=
  if 0 ≤ e then
    if m = 0 then 0
    else if 308 < e then binary64.infinity
    else binary64.mul m (binary64.nearest (Nat.pow 10 e.toNat) 1)
  else if e < -308 then
    if m = 0 then 0 else scaleBy (binary64.div m (binary64.nearest (Nat.pow 10 308) 1)) (e + 308)
  else binary64.div m (binary64.nearest (Nat.pow 10 (-e).toNat) 1)
  termination_by (-e).toNat
  decreasing_by omega

/-- The magnitude of a number that is no integer, infinite if it is too large. -/
def magnitude (x : Numeral) : Nat :=
  let s := x.whole.foldl Significand.pushWhole ⟨0, 0, false⟩
  let s := x.fraction.foldl Significand.pushFraction { s with full := false }
  let m := binary64.nearest s.digits 1
  match x.exponent with
  | none => scaleBy m s.scale
  | some (negative, ds) =>
    let e := value ds
    if m = 0 then 0
    else if 0x80000000 ≤ e then (if negative then 0 else binary64.infinity)
    else scaleBy m (if negative then s.scale - e else s.scale + e)

/-- The value of a number; none if it is too large for a double. -/
def toJson? (x : Numeral) : Option Json :=
  let n := value x.whole
  match x.fraction, x.exponent with
  | [], none =>
    if x.negative then
      if n = 0 then some (.double (Double.zero true))
      else if least ≤ -(n : Int) then some (.int (-n))
      else (Double.ofMagnitude? true x.magnitude).map .double
    else if (n : Int) ≤ greatest then some (.int n)
    else (Double.ofMagnitude? false x.magnitude).map .double
  | _, _ => (Double.ofMagnitude? x.negative x.magnitude).map .double

end Numeral

/-- How doubles are laid out: the exponents of the leading digit, from `plainFrom` up to but
without `plainBelow`, that are written without an exponent. -/
structure DoubleLayout where
  plainFrom : Int
  plainBelow : Int

/-- Doubles are written without an exponent from `0.00001` up to but without `10 ^ 16`. -/
def doubleLayout : DoubleLayout := ⟨-5, 16⟩

/-- The digits `ds` of which the first counts `10 ^ e`. -/
def DoubleLayout.write (l : DoubleLayout) (ds : List Char) (e : Int) : List Char :=
  if l.plainFrom ≤ e ∧ e < l.plainBelow then
    if e < 0 then ['0', '.'] ++ List.replicate (-e - 1).toNat '0' ++ ds
    else
      let n := e.toNat + 1
      ds.take n ++ List.replicate (n - ds.length) '0' ++ ['.'] ++
        (if n < ds.length then ds.drop n else ['0'])
  else
    ds.take 1 ++ (if 1 < ds.length then '.' :: ds.drop 1 else []) ++
      ['e', if e < 0 then '-' else '+'] ++ Nat.toDigits 10 e.natAbs

/-- A double with the fewest digits that read back. -/
def writeDouble (d : Double) : List Char :=
  (if d.negative then ['-'] else []) ++
    if d.magnitude = 0 then ['0', '.', '0']
    else
      let s := binary64.shortest d.magnitude
      let ds := Nat.toDigits 10 s.digits
      doubleLayout.write ds (s.exponent + (ds.length - 1 : Nat))

def writeInt : Int → List Char
  | .ofNat n => Nat.toDigits 10 n
  | .negSucc n => '-' :: Nat.toDigits 10 (n + 1)

end SessionStore.Json
