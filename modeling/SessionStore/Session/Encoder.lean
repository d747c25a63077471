import SessionStore.Error
import SessionStore.Json.Printer
import SessionStore.Json.Reader
import SessionStore.Session.Data

/-! # Encoders

An encoder turns session data into the bytes that a backend keeps, and back. Decoding gives all of
the data or an error, never a part.
-/

namespace SessionStore

structure Encoder where
  name : String
  encode : SessionData → Except SessionError Bytes
  decode : Bytes → Except SessionError SessionData

namespace Encoder

/-- The bytes of an object with these entries, in their order. -/
def encodeEntries (l : Json.Layout) (entries : List (String × Json)) : Bytes :=
  Utf8.encode (Json.write l 0 (.obj entries))

/-- Arrays and objects may be nested this deep, the object around all counted. -/
def depthLimit : Nat := 127

def decodeJson (bs : Bytes) : Except SessionError SessionData :=
  match (Json.ofBytes? depthLimit bs).bind SessionData.ofJson? with
  | some d => .ok d
  | none => .error (.deserialization .malformed)

/-- Compact JSON. -/
def json : Encoder where
  name := "json"
  encode d := .ok (encodeEntries .compact d.toList)
  decode := decodeJson

/-- Indented JSON, for reading stored sessions by eye. -/
def prettyJson : Encoder where
  name := "json-pretty"
  encode d := .ok (encodeEntries .indented d.toList)
  decode := decodeJson

end Encoder

end SessionStore
