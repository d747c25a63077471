/-! # Session ids

Ids are strings of ASCII letters and digits. They are drawn from a generator whose whole state is a
number, so that a caller decides where its randomness comes from.
-/

namespace SessionStore.Id

def alphabet : List Char :=
  "ABCDEFGHIJKLMNOPQRSTUVWXYZabcdefghijklmnopqrstuvwxyz0123456789".toList

/-- An ASCII letter or digit. -/
def isIdChar (c : Char) : Bool :=
  ('a' ≤ c && c ≤ 'z') || ('A' ≤ c && c ≤ 'Z') || ('0' ≤ c && c ≤ '9')

/-- The text has `length` characters, all of them letters and digits. -/
def isValid (id : String) (length : Nat) : Bool :=
  id.toList.length == length && id.toList.all isIdChar

/-- A state of the generator; every draw moves it on. -/
structure Source where
  state : UInt64

/-- The next state and its scrambled bits. -/
def Source.next (s : Source) : UInt64 × Source :=
  let state := s.state + 0x9E3779B97F4A7C15
  let x := (state ^^^ (state >>> 30)) * 0xBF58476D1CE4E5B9
  let x := (x ^^^ (x >>> 27)) * 0x94D049BB133111EB
  (x ^^^ (x >>> 31), ⟨state⟩)

def Source.char (s : Source) : Char × Source :=
  let (x, s) := s.next
  (alphabet.getD (x.toNat % alphabet.length) 'A', s)

/-- `n` characters, put in front of those drawn before. -/
def Source.chars : Nat → List Char → Source → List Char × Source
  | 0, drawn, s => (drawn, s)
  | n + 1, drawn, s => let (c, s) := s.char; Source.chars n (c :: drawn) s

/-- An id of `length` characters. -/
def generate (length : Nat) (s : Source) : String × Source :=
  let (cs, s) := s.chars length []
  (String.ofList cs, s)

end SessionStore.Id
