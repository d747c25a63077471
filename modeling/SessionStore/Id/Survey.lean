import Std.Data.ExtTreeMap
import SessionStore.Id

/-! # Surveys of ids

What a number of generated ids look like, taken together: how many of them differ, how long they
are, and what kinds of characters occur.
-/

namespace SessionStore.Id

structure Survey where
  /-- The ids drawn, each once. -/
  ids : Std.ExtTreeMap String Unit
  /-- The lengths that occurred. -/
  lengths : Std.ExtTreeMap Nat Unit
  /-- All ids had the length asked for, and only characters of ids. -/
  allValid : Bool
  upper : Bool
  lower : Bool
  digit : Bool

namespace Survey

def none : Survey := ⟨∅, ∅, true, false, false, false⟩

/-- The survey with one more id, which was to have `length` characters. -/
def add (v : Survey) (length : Nat) (id : String) : Survey where
  ids := v.ids.insert id ()
  lengths := v.lengths.insert id.toList.length ()
  allValid := v.allValid && isValid id length
  upper := v.upper || id.toList.any Char.isUpper
  lower := v.lower || id.toList.any Char.isLower
  digit := v.digit || id.toList.any Char.isDigit

/-- Draws ids of `length` characters. -/
def draw (length : Nat) : Nat → Source → Survey → Survey
  | 0, _, v => v
  | n + 1, s, v => let (id, s) := generate length s; draw length n s (v.add length id)

end Survey

end SessionStore.Id
