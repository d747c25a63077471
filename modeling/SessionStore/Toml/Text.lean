/-! # TOML strings

The four kinds of strings. A reader is given the characters after the opening quotes and answers
with the content and what follows the closing ones.
-/

namespace SessionStore.Toml

/-- Characters that stand for themselves: all but controls, the tab excepted. -/
def isPlain (c : Char) : Bool := c == '\t' || (0x20 ≤ c.toNat && c.toNat != 0x7F)

def isBlank (c : Char) : Bool := c == ' ' || c == '\t'

def hexDigit? (c : Char) : Option Nat :=
  if '0' ≤ c ∧ c ≤ '9' then some (c.toNat - 48)
  else if 'a' ≤ c ∧ c ≤ 'f' then some (c.toNat - 87)
  else if 'A' ≤ c ∧ c ≤ 'F' then some (c.toNat - 55)
  else none

/-- The number that hexadecimal digits write. -/
def hexValue? (cs : List Char) : Option Nat :=
  cs.foldlM (fun n c => (hexDigit? c).map (n * 16 + ·)) 0

/-- The character of a code point; surrogates and numbers above U+10FFFF are none. -/
def scalar? (n : Nat) : Option Char := if n.isValidChar then some (Char.ofNat n) else none

/-- The character that a backslash and one more character stand for. -/
def shortEscape? : Char → Option Char
  | 'b' => some '\x08'
  | 't' => some '\t'
  | 'n' => some '\n'
  | 'f' => some '\x0c'
  | 'r' => some '\r'
  | 'e' => some '\x1b'
  | '"' => some '"'
  | '\\' => some '\\'
  | _ => none

/-- The number of hexadecimal digits after the letter of a long escape. -/
def escapeWidth? : Char → Option Nat
  | 'x' => some 2
  | 'u' => some 4
  | 'U' => some 8
  | _ => none

/-- An escape, given the characters after its backslash: its character, and what follows. -/
def escape? : List Char → Option (Char × List Char)
  | [] => none
  | c :: cs =>
    match escapeWidth? c with
    | some width =>
      if cs.length < width then none
      else do
        let n ← hexValue? (cs.take width)
        let d ← scalar? n
        return (d, cs.drop width)
    | none => (shortEscape? c).map (·, cs)

theorem length_of_escape? {cs rest : List Char} {c : Char} (h : escape? cs = some (c, rest)) :
    rest.length < cs.length := by
  unfold escape? at h
  split at h
  · cases h
  · rename_i d ds
    split at h
    · split at h
      · cases h
      · simp only [Option.bind_eq_bind, Option.bind_eq_some_iff, Option.pure_def,
          Option.some.injEq, Prod.mk.injEq] at h
        obtain ⟨_, _, _, _, _, rfl⟩ := h
        simp only [List.length_drop, List.length_cons]
        omega
    · simp only [Option.map_eq_some_iff, Prod.mk.injEq] at h
      obtain ⟨_, _, _, rfl⟩ := h
      simp

/-- A string on one line in double quotes. -/
def basic? : List Char → Option (List Char × List Char)
  | [] => none
  | c :: cs =>
    if c = '"' then some ([], cs)
    else if c = '\\' then
      match h : escape? cs with
      | none => none
      | some (d, rest) =>
        have := length_of_escape? h
        (basic? rest).map fun (s, r) => (d :: s, r)
    else if isPlain c then (basic? cs).map fun (s, r) => (c :: s, r)
    else none
  termination_by cs => cs.length

/-- A string on one line in single quotes, without escapes. -/
def literal? : List Char → Option (List Char × List Char)
  | [] => none
  | c :: cs =>
    if c = '\'' then some ([], cs)
    else if isPlain c then (literal? cs).map fun (s, r) => (c :: s, r)
    else none

/-- A line break at the front is dropped. -/
def dropBreak : List Char → List Char
  | '\n' :: cs => cs
  | '\r' :: '\n' :: cs => cs
  | cs => cs

/-- Blanks and line breaks at the front are dropped. -/
def dropBlankLines : List Char → List Char
  | [] => []
  | '\r' :: '\n' :: cs => dropBlankLines cs
  | c :: cs => if isBlank c || c == '\n' then dropBlankLines cs else c :: cs

/-- What follows a backslash at the end of a line: the first character that is neither blank nor
line break. There must be a line break. -/
def continuation? (cs : List Char) : Option (List Char) :=
  match cs.dropWhile isBlank with
  | '\n' :: rest => some (dropBlankLines rest)
  | '\r' :: '\n' :: rest => some (dropBlankLines rest)
  | _ => none

/-- The end of a string of several lines in quotes `q`, after the first two closing ones: up to two
further quotes belong to the content. -/
def closing? (q : Char) : List Char → Option (List Char × List Char)
  | a :: b :: c :: cs =>
    if a = q then
      if b = q then if c = q then some ([q, q], cs) else some ([q], c :: cs)
      else some ([], b :: c :: cs)
    else none
  | a :: b :: [] =>
    if a = q then if b = q then some ([q], []) else some ([], [b]) else none
  | a :: [] => if a = q then some ([], []) else none
  | [] => none

theorem length_dropBlankLines (cs : List Char) : (dropBlankLines cs).length ≤ cs.length := by
  fun_induction dropBlankLines cs with
  | case1 => simp
  | case2 cs ih => simp only [List.length_cons]; omega
  | case3 c cs _ _ ih => simp only [List.length_cons]; omega
  | case4 => simp

theorem length_of_continuation? {cs rest : List Char} (h : continuation? cs = some rest) :
    rest.length < cs.length := by
  have hd : (cs.dropWhile isBlank).length ≤ cs.length := (List.dropWhile_suffix _).length_le
  unfold continuation? at h
  split at h
  · rename_i r hr
    cases h
    rw [hr] at hd
    have := length_dropBlankLines r
    simp only [List.length_cons] at hd
    omega
  · rename_i r hr
    cases h
    rw [hr] at hd
    have := length_dropBlankLines r
    simp only [List.length_cons] at hd
    omega
  · cases h

/-- A string of several lines in three double quotes. -/
def multiBasic? : List Char → Option (List Char × List Char)
  | [] => none
  | '"' :: '"' :: cs =>
    match closing? '"' cs with
    | some end_ => some end_
    | none => (multiBasic? cs).map fun (s, r) => ('"' :: '"' :: s, r)
  | '\r' :: cs =>
    match cs with
    | '\n' :: cs => (multiBasic? cs).map fun (s, r) => ('\r' :: '\n' :: s, r)
    | _ => none
  | c :: cs =>
    if c = '\\' then
      match h : continuation? cs with
      | some rest =>
        have := length_of_continuation? h
        multiBasic? rest
      | none =>
        match h : escape? cs with
        | none => none
        | some (d, rest) =>
          have := length_of_escape? h
          (multiBasic? rest).map fun (s, r) => (d :: s, r)
    else if isPlain c || c == '\n' then (multiBasic? cs).map fun (s, r) => (c :: s, r)
    else none
  termination_by cs => cs.length

/-- A string of several lines in three single quotes, without escapes. -/
def multiLiteral? : List Char → Option (List Char × List Char)
  | [] => none
  | '\'' :: '\'' :: cs =>
    match closing? '\'' cs with
    | some end_ => some end_
    | none => (multiLiteral? cs).map fun (s, r) => ('\'' :: '\'' :: s, r)
  | '\r' :: '\n' :: cs => (multiLiteral? cs).map fun (s, r) => ('\r' :: '\n' :: s, r)
  | c :: cs =>
    if isPlain c || c == '\n' then (multiLiteral? cs).map fun (s, r) => (c :: s, r)
    else none

end SessionStore.Toml
