import Std.Data.ExtTreeMap
import SessionStore.Json.Basic

/-! # Session data

What a session holds: a finite map from keys to values. Two of them are equal if they hold equal
values under the same keys.
-/

namespace SessionStore

abbrev SessionData := Std.ExtTreeMap String Json

namespace SessionData

/-- The object with the same entries. -/
def toJson (d : SessionData) : Json := .obj d.toList

/-- The map of an object's fields; where a key occurs twice the later field counts. -/
def ofFields (fields : List (String × Json)) : SessionData :=
  fields.foldl (fun d e => d.insert e.1 e.2) ∅

def ofJson? : Json → Option SessionData
  | .obj fields => some (ofFields fields)
  | _ => none

def same (a b : SessionData) : Bool := Json.sameFields a.toList b.toList

end SessionData

end SessionStore
