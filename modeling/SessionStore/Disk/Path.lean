import SessionStore.Disk.Fault
import SessionStore.Text.Pieces
import SessionStore.Text.Utf8

/-! # Paths

A path is a text of names with slashes between them. Joining paths never changes their texts; what a
text means is found out when it is used.
-/

namespace SessionStore

structure Path where
  /-- The path begins at the top, not at the directory where it is used. -/
  absolute : Bool
  /-- The names from left to right; single and double dots are names like others. -/
  names : List String
  /-- The text ends in a slash, and so names a directory. -/
  closed : Bool
  deriving DecidableEq, Repr

namespace Path

/-- The text for `name` inside of `dir`. -/
def join (dir name : String) : String :=
  match dir.toList.getLast? with
  | none => name
  | some c => if c = '/' then dir ++ name else dir ++ "/" ++ name

/-- The names of a path, as far as they say anything. -/
def namesOf (cs : List Char) : List String :=
  ((Text.pieces '/' cs).filter (!·.isEmpty)).map String.ofList

/-- A text of this many bytes is too long for a path. -/
def lengthLimit : Nat := 4096

/-- The longest name that a directory can hold, in bytes. -/
def nameLimit : Nat := 255

/-- The path that a text means. -/
def ofText (s : String) : Except IoFault Path :=
  if s.toList.contains '\x00' then .error .nulInPath
  else if s = "" then .error .notFound
  else if lengthLimit ≤ s.utf8ByteSize then .error .nameTooLong
  else .ok ⟨s.toList.head? == some '/', namesOf s.toList, s.toList.getLast? == some '/'⟩

/-- The names to walk along: a path that ends in a slash goes on into what its last name names. -/
def steps (p : Path) : List String := p.names ++ (if p.closed then ["."] else [])

/-- The path ends in dots or is that of the top, so that it does not end in a name. -/
def isNameless (p : Path) : Bool := p.names.getLast?.all fun name => name == "." || name == ".."

/-- The paths that end at the names of a list, which has the last name first. -/
def ending (absolute : Bool) : List String → List Path
  | [] => []
  | name :: before => ⟨absolute, (name :: before).reverse, false⟩ :: ending absolute before

/-- The paths of the directories above, innermost first. Single dots do not count as names here. -/
def above (p : Path) : List Path :=
  ending p.absolute (p.names.filter (· ≠ ".")).reverse.tail

end Path

end SessionStore
