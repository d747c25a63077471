import SessionStore.Json.Number

/-! # JSON tokens

A text is first cut into punctuation, strings and words; a word is a maximal run of other
characters and must be a literal or a number. One pass over the characters does it.
-/

namespace SessionStore.Json

inductive Token
  | openArr
  | closeArr
  | openObj
  | closeObj
  | comma
  | colon
  | str (s : List Char)
  /-- A literal or a number. -/
  | atom (v : Json)

namespace Token

/-- Where the reader of characters stands. Characters read so far come last first. -/
inductive Mode
  | between
  | word (read : List Char)
  | text (read : List Char)
  /-- After a backslash. -/
  | escape (read : List Char)
  /-- Inside a code unit of four digits, `left` of which are missing, after the first half `high?`
  of a pair. -/
  | unit (read : List Char) (left value : Nat) (high? : Option Nat)
  /-- After the first half of a pair, before the backslash of the second. -/
  | half (read : List Char) (high : Nat)
  /-- After that backslash. -/
  | halfEscape (read : List Char) (high : Nat)

def isBlank (c : Char) : Bool := c == ' ' || c == '\t' || c == '\n' || c == '\r'

def punctuation? : Char → Option Token
  | '[' => some .openArr
  | ']' => some .closeArr
  | '\x7b' => some .openObj
  | '\x7d' => some .closeObj
  | ',' => some .comma
  | ':' => some .colon
  | _ => none

/-- A character outside strings: the token that it is, if any, and what it begins. -/
def begin (c : Char) : Option Token × Mode :=
  match punctuation? c with
  | some t => (some t, .between)
  | none =>
    if isBlank c then (none, .between)
    else if c = '"' then (none, .text [])
    else (none, .word [c])

def atom? (word : List Char) : Option Json :=
  if word = ['n', 'u', 'l', 'l'] then some .null
  else if word = ['t', 'r', 'u', 'e'] then some (.bool true)
  else if word = ['f', 'a', 'l', 's', 'e'] then some (.bool false)
  else (Numeral.ofChars? word).bind Numeral.toJson?

/-- The character that a backslash and `c` stand for. -/
def escaped? : Char → Option Char
  | '"' => some '"'
  | '\\' => some '\\'
  | '/' => some '/'
  | 'b' => some '\x08'
  | 'f' => some '\x0c'
  | 'n' => some '\n'
  | 'r' => some '\r'
  | 't' => some '\t'
  | _ => none

def hexDigit? (c : Char) : Option Nat :=
  if '0' ≤ c ∧ c ≤ '9' then some (c.toNat - 48)
  else if 'a' ≤ c ∧ c ≤ 'f' then some (c.toNat - 87)
  else if 'A' ≤ c ∧ c ≤ 'F' then some (c.toNat - 55)
  else none

/-- A complete code unit: the second half of a pair after a first one, a first half, or a
character of its own. -/
def closeUnit (read : List Char) (u : Nat) : Option Nat → Option Mode
  | some high =>
    if 0xDC00 ≤ u ∧ u < 0xE000 then
      some (.text (Char.ofNat (0x10000 + (high - 0xD800) * 0x400 + (u - 0xDC00)) :: read))
    else none
  | none =>
    if 0xD800 ≤ u ∧ u < 0xDC00 then some (.half read u)
    else if 0xDC00 ≤ u ∧ u < 0xE000 then none
    else some (.text (Char.ofNat u :: read))

/-- The tokens of the rest of a text. -/
def lex : Mode → List Char → Option (List Token)
  | .between, [] => some []
  | .word w, [] => (atom? w.reverse).map fun v => [.atom v]
  | _, [] => none
  | .between, c :: cs =>
    match begin c with
    | (some t, mode) => (lex mode cs).map (t :: ·)
    | (none, mode) => lex mode cs
  | .word w, c :: cs =>
    match begin c with
    | (none, .word _) => lex (.word (c :: w)) cs
    | (t?, mode) => do
      let v ← atom? w.reverse
      let ts ← lex mode cs
      return .atom v :: (t?.toList ++ ts)
  | .text r, c :: cs =>
    if c = '"' then (lex .between cs).map (.str r.reverse :: ·)
    else if c = '\\' then lex (.escape r) cs
    else if c.toNat < 0x20 then none
    else lex (.text (c :: r)) cs
  | .escape r, c :: cs =>
    if c = 'u' then lex (.unit r 4 0 none) cs
    else
      match escaped? c with
      | some d => lex (.text (d :: r)) cs
      | none => none
  | .unit r left value high?, c :: cs =>
    match hexDigit? c with
    | none => none
    | some d =>
      let value := value * 16 + d
      if left = 1 then
        match closeUnit r value high? with
        | some mode => lex mode cs
        | none => none
      else lex (.unit r (left - 1) value high?) cs
  | .half r high, c :: cs => if c = '\\' then lex (.halfEscape r high) cs else none
  | .halfEscape r high, c :: cs => if c = 'u' then lex (.unit r 4 0 (some high)) cs else none

def ofChars? (cs : List Char) : Option (List Token) := lex .between cs

end Token

end SessionStore.Json
