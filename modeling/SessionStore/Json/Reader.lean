import SessionStore.Json.Token
import SessionStore.Text.Utf8

/-! # Reading JSON

The tokens of a text drive a machine whose stack holds the arrays and objects that are still open.
A text is read if the machine ends with one complete value; nesting beyond the limit is refused
when it is opened.
-/

namespace SessionStore.Json

/-- An open array or object. -/
inductive Frame
  /-- The items so far, last first. -/
  | arr (items : List Json)
  /-- The fields so far, and the key whose value is being read. -/
  | obj (fields : List (String × Json)) (key : String)

/-- What the machine waits for, with the frames around it. -/
inductive Reader
  | value (stack : List Frame)
  /-- An item, or the end of the array that was just opened. -/
  | firstItem (stack : List Frame)
  | afterItem (items : List Json) (stack : List Frame)
  /-- A key, or the end of the object that was just opened. -/
  | firstKey (stack : List Frame)
  | key (fields : List (String × Json)) (stack : List Frame)
  | colon (fields : List (String × Json)) (key : String) (stack : List Frame)
  | afterField (fields : List (String × Json)) (stack : List Frame)
  | done (v : Json)

namespace Reader

/-- A value is complete. -/
def complete (v : Json) : List Frame → Reader
  | [] => .done v
  | .arr items :: stack => .afterItem (v :: items) stack
  | .obj fields k :: stack => .afterField (insertField k v fields) stack

/-- A token where a value must stand. -/
def startValue (limit : Nat) (stack : List Frame) : Token → Option Reader
  | .openArr => if stack.length < limit then some (.firstItem stack) else none
  | .openObj => if stack.length < limit then some (.firstKey stack) else none
  | .str s => some (complete (.str (String.ofList s)) stack)
  | .atom v => some (complete v stack)
  | _ => none

def step (limit : Nat) : Reader → Token → Option Reader
  | .value stack, t => startValue limit stack t
  | .firstItem stack, .closeArr => some (complete (.arr []) stack)
  | .firstItem stack, t => startValue limit (.arr [] :: stack) t
  | .afterItem items stack, .comma => some (.value (.arr items :: stack))
  | .afterItem items stack, .closeArr => some (complete (.arr items.reverse) stack)
  | .firstKey stack, .closeObj => some (complete (.obj []) stack)
  | .firstKey stack, .str k => some (.colon [] (String.ofList k) stack)
  | .key fields stack, .str k => some (.colon fields (String.ofList k) stack)
  | .colon fields k stack, .colon => some (.value (.obj fields k :: stack))
  | .afterField fields stack, .comma => some (.key fields stack)
  | .afterField fields stack, .closeObj => some (complete (.obj fields) stack)
  | _, _ => none

def run (limit : Nat) : Reader → List Token → Option Json
  | .done v, [] => some v
  | _, [] => none
  | r, t :: ts =>
    match step limit r t with
    | some r => run limit r ts
    | none => none

end Reader

/-- The value of a text with at most `limit` levels of arrays and objects. -/
def ofChars? (limit : Nat) (cs : List Char) : Option Json :=
  (Token.ofChars? cs).bind (Reader.run limit (.value []))

/-- The value of a text given by its bytes. -/
def ofBytes? (limit : Nat) (bs : Bytes) : Option Json :=
  match Utf8.decode bs with
  | .ok cs => ofChars? limit cs
  | .error _ => none

end SessionStore.Json
