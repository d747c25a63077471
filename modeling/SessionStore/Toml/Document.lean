import SessionStore.Toml.Text

/-! # TOML documents of settings

A document is a list of lines `key = value` with blank lines and comments between them. Tables,
arrays, floats and dates are never settings, so a document with one of them is refused like a
malformed one.
-/

namespace SessionStore.Toml

inductive Value
  | text (s : String)
  | integer (n : Int)
  | boolean (b : Bool)
  deriving DecidableEq, Repr

/-- The value of a digit in that base. -/
def digit? (base : Nat) (c : Char) : Option Nat := (hexDigit? c).filter (· < base)

/-- The number whose first digits have the value `n`. An underscore may stand between two
digits. -/
def moreDigits? (base n : Nat) : List Char → Option Nat
  | [] => some n
  | '_' :: c :: cs => (digit? base c).bind fun d => moreDigits? base (n * base + d) cs
  | c :: cs => (digit? base c).bind fun d => moreDigits? base (n * base + d) cs

def digits? (base : Nat) : List Char → Option Nat
  | [] => none
  | c :: cs => (digit? base c).bind fun d => moreDigits? base d cs

/-- A decimal number, without leading zeros. -/
def decimal? : List Char → Option Nat
  | ['0'] => some 0
  | '0' :: _ => none
  | cs => digits? 10 cs

def integer? : List Char → Option Int
  | '0' :: 'x' :: cs => (digits? 16 cs).map Int.ofNat
  | '0' :: 'o' :: cs => (digits? 8 cs).map Int.ofNat
  | '0' :: 'b' :: cs => (digits? 2 cs).map Int.ofNat
  | '+' :: cs => (decimal? cs).map Int.ofNat
  | '-' :: cs => (decimal? cs).map fun n => -(n : Int)
  | cs => (decimal? cs).map Int.ofNat

/-- A value without quotes. -/
def word? (cs : List Char) : Option Value :=
  if cs = ['t', 'r', 'u', 'e'] then some (.boolean true)
  else if cs = ['f', 'a', 'l', 's', 'e'] then some (.boolean false)
  else (integer? cs).map .integer

/-- A character that ends a value without quotes. -/
def endsWord (c : Char) : Bool := isBlank c || c == '\r' || c == '\n' || c == '#'

def isBareKey (c : Char) : Bool := c.isAlphanum || c == '_' || c == '-'

def asText (r : List Char × List Char) : Value × List Char := (.text (String.ofList r.1), r.2)

/-- A value at the front, and what follows it. -/
def value? : List Char → Option (Value × List Char)
  | '"' :: '"' :: '"' :: cs => (multiBasic? (dropBreak cs)).map asText
  | '\'' :: '\'' :: '\'' :: cs => (multiLiteral? (dropBreak cs)).map asText
  | '"' :: cs => (basic? cs).map asText
  | '\'' :: cs => (literal? cs).map asText
  | cs =>
    (word? (cs.takeWhile (!endsWord ·))).map fun v => (v, cs.dropWhile (!endsWord ·))

/-- A key at the front, and what follows it. -/
def key? : List Char → Option (String × List Char)
  | '"' :: cs => (basic? cs).map fun (s, r) => (String.ofList s, r)
  | '\'' :: cs => (literal? cs).map fun (s, r) => (String.ofList s, r)
  | cs =>
    match cs.takeWhile isBareKey with
    | [] => none
    | s => some (String.ofList s, cs.dropWhile isBareKey)

/-- What follows the line break at the front, nothing at the end of the document. -/
def break? : List Char → Option (List Char)
  | [] => some []
  | '\n' :: cs => some cs
  | '\r' :: '\n' :: cs => some cs
  | _ => none

/-- The rest of a line after its last value: blanks, then perhaps a comment. -/
def lineEnd? (cs : List Char) : Option (List Char) :=
  match cs.dropWhile isBlank with
  | '#' :: rest => break? (rest.dropWhile isPlain)
  | rest => break? rest

/-- An entry at the front, and what follows it on the line. -/
def entry? (cs : List Char) : Option ((String × Value) × List Char) := do
  let (k, rest) ← key? (cs.dropWhile isBlank)
  match rest.dropWhile isBlank with
  | '=' :: rest =>
    let (v, rest) ← value? (rest.dropWhile isBlank)
    return ((k, v), rest)
  | _ => none

/-- The entries of a document, of which each line takes at least one character. -/
def lines? : List Char → Option (List (String × Value))
  | [] => some []
  | c :: cs =>
    match lineEnd? (c :: cs) with
    | some rest => if rest.length ≤ cs.length then lines? rest else none
    | none =>
      match entry? (c :: cs) with
      | none => none
      | some (e, rest) =>
        match lineEnd? rest with
        | none => none
        | some rest => if rest.length ≤ cs.length then (lines? rest).map (e :: ·) else none
  termination_by cs => cs.length

/-- The entries of a document, in their order. A byte order mark in front is passed over. -/
def parse? (s : String) : Option (List (String × Value)) :=
  match s.toList with
  | '\ufeff' :: cs => lines? cs
  | cs => lines? cs

end SessionStore.Toml
