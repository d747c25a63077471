import SessionStore.Binary.Format

/-! # JSON values

Numbers are either integers or doubles, and one is never equal to the other. The fields of an
object are kept in the order of their keys, each key once.
-/

namespace SessionStore

/-- A finite double: its sign and the bit pattern of its magnitude. -/
structure Double where
  negative : Bool
  magnitude : Nat
  finite : magnitude < Binary.binary64.infinity
  deriving DecidableEq

namespace Double

def zero (negative : Bool) : Double := ⟨negative, 0, by decide⟩

/-- The double of that sign and magnitude, unless it is infinite. -/
def ofMagnitude? (negative : Bool) (magnitude : Nat) : Option Double :=
  if h : magnitude < Binary.binary64.infinity then some ⟨negative, magnitude, h⟩ else none

/-- Equality of numbers, for which the two zeros are the same. -/
def same (a b : Double) : Bool :=
  a.magnitude == b.magnitude && (a.negative == b.negative || a.magnitude == 0)

end Double

inductive Json
  | null
  | bool (b : Bool)
  | int (n : Int)
  | double (d : Double)
  | str (s : String)
  | arr (items : List Json)
  | obj (fields : List (String × Json))

namespace Json

/-- The integers that are kept exactly; all others are doubles. -/
def least : Int := -0x8000000000000000

def greatest : Int := 0xFFFFFFFFFFFFFFFF

mutual

/-- Equality of values. -/
def same : Json → Json → Bool
  | .null, .null => true
  | .bool a, .bool b => a == b
  | .int a, .int b => a == b
  | .double a, .double b => a.same b
  | .str a, .str b => a == b
  | .arr xs, .arr ys => sameItems xs ys
  | .obj xs, .obj ys => sameFields xs ys
  | _, _ => false

def sameItems : List Json → List Json → Bool
  | [], [] => true
  | x :: xs, y :: ys => same x y && sameItems xs ys
  | _, _ => false

def sameFields : List (String × Json) → List (String × Json) → Bool
  | [], [] => true
  | (k, x) :: xs, (l, y) :: ys => k == l && same x y && sameFields xs ys
  | _, _ => false

end

mutual

/-- The number of arrays and objects around the innermost value, the value's own included. -/
def depth : Json → Nat
  | .arr xs => depthItems xs + 1
  | .obj fs => depthFields fs + 1
  | _ => 0

def depthItems : List Json → Nat
  | [] => 0
  | x :: xs => max (depth x) (depthItems xs)

def depthFields : List (String × Json) → Nat
  | [] => 0
  | (_, x) :: fs => max (depth x) (depthFields fs)

end

/-- The fields with the value under `key` set, in the order of keys. -/
def insertField (key : String) (value : Json) : List (String × Json) → List (String × Json)
  | [] => [(key, value)]
  | (k, v) :: fs =>
    match compare key k with
    | .lt => (key, value) :: (k, v) :: fs
    | .eq => (key, value) :: fs
    | .gt => (k, v) :: insertField key value fs

def field? (key : String) (fields : List (String × Json)) : Option Json :=
  (fields.find? (·.1 == key)).map (·.2)

end Json

end SessionStore
