import SessionStore.Binary.Reader
import SessionStore.Error

/-! # Values as callers have them

Callers store values of their own types, which become JSON on the way into a session. Some have no
JSON form: integers that are too large, and maps whose keys are no simple values.
-/

namespace SessionStore

inductive Value
  /-- A number of the given floating-point format, not necessarily finite. -/
  | single (r : Binary.Reading)
  | double (r : Binary.Reading)
  | integer (n : Int)
  | text (s : String)
  | absent
  | list (items : List Value)
  /-- Fields in any order. -/
  | record (fields : List (String × Value))
  | integerMap (entries : List (Int × Value))
  /-- A map whose keys are lists or maps themselves. -/
  | compoundMap

namespace Value

/-- The double of a reading in 64 bits; what is not finite becomes null. -/
def ofReading : Binary.Reading → Json
  | .notANumber => .null
  | .number negative magnitude =>
    match Double.ofMagnitude? negative magnitude with
    | some d => .double d
    | none => .null

/-- A reading in 32 bits as one in 64. -/
def widen : Binary.Reading → Binary.Reading
  | .notANumber => .notANumber
  | .number negative magnitude => .number negative (Binary.widen magnitude)

mutual

def toJson : Value → Except EncodeFault Json
  | .single r => .ok (ofReading (widen r))
  | .double r => .ok (ofReading r)
  | .integer n =>
    if Json.least ≤ n ∧ n ≤ Json.greatest then .ok (.int n) else .error .numberOutOfRange
  | .text s => .ok (.str s)
  | .absent => .ok .null
  | .list items => (itemsToJson items).map .arr
  | .record fields => (fieldsToJson fields).map .obj
  | .integerMap entries => (entriesToJson entries).map .obj
  | .compoundMap => .error .keyNotText

def itemsToJson : List Value → Except EncodeFault (List Json)
  | [] => .ok []
  | v :: vs => do
    let w ← v.toJson
    return w :: (← itemsToJson vs)

def fieldsToJson : List (String × Value) → Except EncodeFault (List (String × Json))
  | [] => .ok []
  | (k, v) :: fs => do
    let w ← v.toJson
    return Json.insertField k w (← fieldsToJson fs)

def entriesToJson : List (Int × Value) → Except EncodeFault (List (String × Json))
  | [] => .ok []
  | (k, v) :: es => do
    let w ← v.toJson
    return Json.insertField (toString k) w (← entriesToJson es)

end

/-- The bytes of a text, as a list of numbers. -/
def ofBytes (bs : Bytes) : Value := .list (bs.map fun b => .integer b.toNat)

end Value

end SessionStore
