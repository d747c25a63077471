/-! # UTF-8 text

Texts are written as bytes by `encode` and read back by `decode`. Reading stops at the first byte
sequence that is no character and says where the valid text ends, and whether more bytes could
still have made it valid.
-/

namespace SessionStore

/-- Raw contents, as a backend keeps them. -/
abbrev Bytes := List UInt8

namespace Utf8

/-- Why a byte string is not a text. In both cases `index` is the length of its longest valid
beginning. -/
inductive Fault
  /-- The `length` bytes at `index` begin no character. -/
  | invalid (index length : Nat)
  /-- The bytes from `index` on begin a character that the end of input cuts short. -/
  | incomplete (index : Nat)
  deriving DecidableEq, Repr

def Fault.message : Fault → String
  | .invalid index length =>
    "invalid utf-8 sequence of " ++ toString length ++ " bytes from index " ++ toString index
  | .incomplete index => "incomplete utf-8 byte sequence from index " ++ toString index

def encode (cs : List Char) : Bytes := cs.flatMap String.utf8EncodeChar

def encodeText (s : String) : Bytes := encode s.toList

/-- A sequence of which `seen` bytes have been read. `more` bytes are still to come, the next one
between `low` and `high`; `value` holds the bits read so far. -/
structure Partial where
  more : Nat
  low : Nat
  high : Nat
  value : Nat
  seen : Nat

/-- What the first byte of a sequence announces. -/
inductive Lead
  | char (c : Char)
  | opens (p : Partial)
  | stray

/-- The bounds on the second byte exclude overlong forms, surrogates and code points above
U+10FFFF. -/
def lead (b : Nat) : Lead :=
  if b < 0x80 then .char (Char.ofNat b)
  else if b < 0xC2 then .stray
  else if b < 0xE0 then .opens ⟨1, 0x80, 0xBF, b - 0xC0, 1⟩
  else if b = 0xE0 then .opens ⟨2, 0xA0, 0xBF, 0, 1⟩
  else if b = 0xED then .opens ⟨2, 0x80, 0x9F, b - 0xE0, 1⟩
  else if b < 0xF0 then .opens ⟨2, 0x80, 0xBF, b - 0xE0, 1⟩
  else if b = 0xF0 then .opens ⟨3, 0x90, 0xBF, 0, 1⟩
  else if b < 0xF4 then .opens ⟨3, 0x80, 0xBF, b - 0xF0, 1⟩
  else if b = 0xF4 then .opens ⟨3, 0x80, 0x8F, b - 0xF0, 1⟩
  else .stray

/-- The sequence one continuation byte further. -/
def Partial.push (p : Partial) (b : Nat) : Partial :=
  ⟨p.more - 1, 0x80, 0xBF, p.value * 64 + (b - 0x80), p.seen + 1⟩

/-- Reads on from `index`, where the last complete character ended, inside the sequence `open?`. -/
def scan (index : Nat) : Option Partial → Bytes → Except Fault (List Char)
  | none, [] => .ok []
  | some _, [] => .error (.incomplete index)
  | none, b :: bs =>
    match lead b.toNat with
    | .char c => (scan (index + 1) none bs).map (c :: ·)
    | .opens p => scan index (some p) bs
    | .stray => .error (.invalid index 1)
  | some p, b :: bs =>
    if p.low ≤ b.toNat ∧ b.toNat ≤ p.high then
      let q := p.push b.toNat
      if q.more = 0 then (scan (index + q.seen) none bs).map (Char.ofNat q.value :: ·)
      else scan index (some q) bs
    else .error (.invalid index p.seen)

def decode (bs : Bytes) : Except Fault (List Char) := scan 0 none bs

def decodeText (bs : Bytes) : Except Fault String := (decode bs).map String.ofList

end Utf8

end SessionStore
