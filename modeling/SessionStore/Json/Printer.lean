import SessionStore.Json.Number

/-! # Writing JSON

One printer serves both layouts. The compact one has no blanks; the indented one puts every item and
field on a line of its own, two blanks deeper for every level.
-/

namespace SessionStore.Json

inductive Layout
  | compact
  | indented
  deriving DecidableEq, Repr

/-- What stands before an item, a field or a closing bracket at that level. -/
def Layout.newline : Layout → Nat → List Char
  | .compact, _ => []
  | .indented, level => '\n' :: List.replicate (2 * level) ' '

def Layout.colon : Layout → List Char
  | .compact => [':']
  | .indented => [':', ' ']

/-- Quotes, backslashes and control characters are escaped, all else stands for itself. -/
def escapeChar (c : Char) : List Char :=
  if c = '"' ∨ c = '\\' then ['\\', c]
  else if c = '\x08' then ['\\', 'b']
  else if c = '\x0c' then ['\\', 'f']
  else if c = '\n' then ['\\', 'n']
  else if c = '\r' then ['\\', 'r']
  else if c = '\t' then ['\\', 't']
  else if c.toNat < 0x20 then
    ['\\', 'u', '0', '0', Nat.digitChar (c.toNat / 16), Nat.digitChar (c.toNat % 16)]
  else [c]

def writeString (s : String) : List Char := '"' :: (s.toList.flatMap escapeChar ++ ['"'])

mutual

def write (l : Layout) (level : Nat) : Json → List Char
  | .null => ['n', 'u', 'l', 'l']
  | .bool true => ['t', 'r', 'u', 'e']
  | .bool false => ['f', 'a', 'l', 's', 'e']
  | .int n => writeInt n
  | .double d => writeDouble d
  | .str s => writeString s
  | .arr [] => ['[', ']']
  | .arr (x :: xs) =>
    '[' :: (l.newline (level + 1) ++ write l (level + 1) x ++ writeItems l (level + 1) xs ++
      l.newline level ++ [']'])
  | .obj [] => ['\x7b', '\x7d']
  | .obj ((k, x) :: fs) =>
    '\x7b' :: (l.newline (level + 1) ++ writeString k ++ l.colon ++ write l (level + 1) x ++
      writeFields l (level + 1) fs ++ l.newline level ++ ['\x7d'])

/-- The items after the first. -/
def writeItems (l : Layout) (level : Nat) : List Json → List Char
  | [] => []
  | x :: xs => ',' :: (l.newline level ++ write l level x ++ writeItems l level xs)

/-- The fields after the first. -/
def writeFields (l : Layout) (level : Nat) : List (String × Json) → List Char
  | [] => []
  | (k, x) :: fs =>
    ',' :: (l.newline level ++ writeString k ++ l.colon ++ write l level x ++
      writeFields l level fs)

end

def text (l : Layout) (v : Json) : String := String.ofList (write l 0 v)

end SessionStore.Json
