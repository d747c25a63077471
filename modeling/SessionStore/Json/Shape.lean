import SessionStore.Json.Number
import SessionStore.Text.Quoted

/-! # Typed access to JSON values

A caller who wants more than a raw value states the shape it must have. `Shape.read` gives the value
in that shape, or the first place where it does not fit.
-/

namespace SessionStore.Json

inductive Shape
  /-- Integers from `low` to `high`. -/
  | integer (name : String) (low high : Int)
  | float
  | boolean
  | text
  /-- Null, or a value of the shape. -/
  | optional (s : Shape)
  | list (s : Shape)
  /-- An object with any keys. -/
  | map (s : Shape)
  /-- An object with the fields named, or a list of their values. -/
  | record (name : String) (fields : List (String × Shape))

namespace Shape

def u8 : Shape := .integer "u8" 0 255
def i8 : Shape := .integer "i8" (-128) 127
def u32 : Shape := .integer "u32" 0 0xFFFFFFFF
def i32 : Shape := .integer "i32" (-0x80000000) 0x7FFFFFFF
def u64 : Shape := .integer "u64" 0 0xFFFFFFFFFFFFFFFF
def i64 : Shape := .integer "i64" (-0x8000000000000000) 0x7FFFFFFFFFFFFFFF

/-- What a message says is wanted. -/
def description : Shape → String
  | .integer name _ _ => name
  | .float => "f64"
  | .boolean => "a boolean"
  | .text => "a string"
  | .optional s => s.description
  | .list _ => "a sequence"
  | .map _ => "a map"
  | .record name _ => "struct " ++ name

end Shape

/-- What a message says was found. -/
def description : Json → String
  | .null => "null"
  | .bool b => "boolean `" ++ toString b ++ "`"
  | .int n => "integer `" ++ String.ofList (writeInt n) ++ "`"
  | .double d => "floating point `" ++ String.ofList (writeDouble d) ++ "`"
  | .str s => "string " ++ Text.quote s
  | .arr _ => "sequence"
  | .obj _ => "map"

/-- Why a value does not have a shape. -/
inductive Mismatch
  | wrongType (found : Json) (want : Shape)
  | outOfRange (n : Int) (want : Shape)
  | missingField (name : String)
  /-- A list of `found` values for a record of `want` fields. -/
  | tooShort (found : Nat) (record : String) (want : Nat)
  | tooLong (found : Nat)

def Mismatch.message : Mismatch → String
  | .wrongType found want =>
    "invalid type: " ++ found.description ++ ", expected " ++ want.description
  | .outOfRange n want =>
    "invalid value: " ++ (Json.int n).description ++ ", expected " ++ want.description
  | .missingField name => "missing field `" ++ name ++ "`"
  | .tooShort found record want =>
    "invalid length " ++ toString found ++ ", expected struct " ++ record ++ " with " ++
      toString want ++ " elements"
  | .tooLong found =>
    "invalid length " ++ toString found ++ ", expected fewer elements in array"

/-- The double nearest to an integer. -/
def nearestDouble (n : Int) : Option Double :=
  Double.ofMagnitude? (n < 0) (Binary.binary64.nearest n.natAbs 1)

namespace Shape

/-- The integers of a shape; a number with a point is none, whatever its value. -/
def readInteger (s : Shape) (low high : Int) : Json → Except Mismatch Json
  | .int n => if low ≤ n ∧ n ≤ high then .ok (.int n) else .error (.outOfRange n s)
  | v => .error (.wrongType v s)

/-- Doubles; an integer becomes the nearest one. -/
def readFloat : Json → Except Mismatch Json
  | .double d => .ok (.double d)
  | .int n =>
    match nearestDouble n with
    | some d => .ok (.double d)
    | none => .error (.outOfRange n .float)
  | v => .error (.wrongType v .float)

/-- The fields of a record in its own order, once all that are present have been read. -/
def collect (present : List (String × Json)) : List String → Except Mismatch (List (String × Json))
  | [] => .ok []
  | name :: names =>
    match field? name present with
    | none => .error (.missingField name)
    | some v => (collect present names).map ((name, v) :: ·)

mutual

def read : Shape → Json → Except Mismatch Json
  | .integer name low high, v => readInteger (.integer name low high) low high v
  | .float, v => readFloat v
  | .boolean, .bool b => .ok (.bool b)
  | .boolean, v => .error (.wrongType v .boolean)
  | .text, .str s => .ok (.str s)
  | .text, v => .error (.wrongType v .text)
  | .optional _, .null => .ok .null
  | .optional s, v => read s v
  | .list s, .arr xs => (xs.mapM (read s)).map .arr
  | .list s, v => .error (.wrongType v (.list s))
  | .map s, .obj fs => (fs.mapM fun e : String × Json => (read s e.2).map (e.1, ·)).map .obj
  | .map s, v => .error (.wrongType v (.map s))
  | .record _ fields, .obj fs => do
    let present ← fs.filterMapM fun e : String × Json =>
      (readNamed e.1 e.2 fields).map (Option.map (e.1, ·))
    return .obj (← collect present (fields.map (·.1)))
  | .record name fields, .arr xs => do
    let values ← readItems name fields.length 0 fields xs
    if fields.length < xs.length then throw (.tooLong xs.length)
    return .obj values
  | .record name fields, v => .error (.wrongType v (.record name fields))

/-- The value of the field `k`, none if the record has no such field. -/
def readNamed (k : String) (v : Json) : List (String × Shape) → Except Mismatch (Option Json)
  | [] => .ok none
  | (name, s) :: fields => if name = k then (read s v).map some else readNamed k v fields

/-- The fields of a record from the values of a list, of which `seen` were used up. -/
def readItems (name : String) (want seen : Nat) :
    List (String × Shape) → List Json → Except Mismatch (List (String × Json))
  | [], _ => .ok []
  | _ :: _, [] => .error (.tooShort seen name want)
  | (k, s) :: fields, v :: vs => do
    let w ← read s v
    let ws ← readItems name want (seen + 1) fields vs
    return (k, w) :: ws

end

end Shape

end SessionStore.Json
