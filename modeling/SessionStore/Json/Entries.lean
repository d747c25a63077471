import SessionStore.Json.Reader
import SessionStore.Text.Blank
import SessionStore.Text.Utf8

/-! # Entries of an encoded object

The order of an object's entries says nothing. Sorting the entries of an encoded object by their
keys makes texts comparable, and leaves the text of every entry as it is.
-/

namespace SessionStore.Json

/-- Where in a text a character stands: how many brackets are open, and whether a string is. -/
inductive Place
  | between (openBrackets : Nat)
  | quoted (openBrackets : Nat)
  | escaped (openBrackets : Nat)
  deriving DecidableEq, Repr

def Place.next : Place → Char → Place
  | .between n, c =>
    if c = '"' then .quoted n
    else if c = '[' ∨ c = '\x7b' then .between (n + 1)
    else if c = ']' ∨ c = '\x7d' then .between (n - 1)
    else .between n
  | .quoted n, c => if c = '"' then .between n else if c = '\\' then .escaped n else .quoted n
  | .escaped n, _ => .quoted n

/-- A text cut at the commas that stand outside of all brackets and strings. -/
def cutEntries : Place → List Char → List (List Char)
  | _, [] => [[]]
  | p, c :: cs =>
    if p = .between 0 ∧ c = ',' then [] :: cutEntries p cs
    else
      match cutEntries (p.next c) cs with
      | [] => [[c]]
      | e :: es => (c :: e) :: es

/-- A text without the blanks at its ends. -/
def trimBlanks (cs : List Char) : List Char := Text.strip Token.isBlank cs

/-- The key of an entry, with its text. -/
def keyed (nesting : Nat) (entry : List Char) : String × List Char :=
  match ofChars? nesting (['\x7b'] ++ entry ++ ['\x7d']) with
  | some (.obj ((key, _) :: _)) => (key, entry)
  | _ => ("", entry)

/-- Entries between commas, over several lines if the object was written so. -/
def joinEntries (indented : Bool) : List (List Char) → List Char
  | [] => []
  | [e] => e
  | e :: es => e ++ (if indented then [',', '\n', ' ', ' '] else [',']) ++ joinEntries indented es

/-- The text of an object with its entries in the order of their keys; any other text, and one that
is in order, is as it was. -/
def sortEntries (nesting : Nat) (cs : List Char) : List Char :=
  match ofChars? nesting cs with
  | some (.obj _) =>
    let inner := (trimBlanks cs).tail.dropLast
    let entries := (cutEntries (.between 0) inner).map fun e => keyed nesting (trimBlanks e)
    let sorted := entries.mergeSort fun a b => compare a.1 b.1 != .gt
    if sorted.map (·.1) = entries.map (·.1) then cs
    else
      let indented := ['\x7b', '\n'].isPrefixOf cs
      let body := joinEntries indented (sorted.map (·.2))
      if indented then ['\x7b', '\n', ' ', ' '] ++ body ++ ['\n', '\x7d']
      else ['\x7b'] ++ body ++ ['\x7d']
  | _ => cs

/-- The same for contents as they are stored; contents that are no text are as they were. -/
def sortContents (nesting : Nat) (bs : Bytes) : Bytes :=
  match Utf8.decode bs with
  | .ok cs => Utf8.encode (sortEntries nesting cs)
  | .error _ => bs

end SessionStore.Json
