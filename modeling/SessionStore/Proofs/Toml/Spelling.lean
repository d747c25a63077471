import Mathlib.Data.List.Forall2
import SessionStore.Proofs.Json.Numerals
import SessionStore.Toml.Document

/-! # Documents of plain lines

A document of lines `key = value` has the entries that its lines spell, in their order. Keys are
bare, numbers are decimal, and a string is in double quotes, with any character escaped that may be.
-/

namespace SessionStore.Toml

/-! ## Strings -/

/-- The characters with a short escape, each with the letter behind the backslash. -/
def shorthands : List (Char × Char) :=
  [('\x08', 'b'), ('\t', 't'), ('\n', 'n'), ('\x0c', 'f'), ('\r', 'r'), ('\x1b', 'e'), ('"', '"'),
    ('\\', '\\')]

/-- The letters of the escapes by number, and how many digits follow them. -/
def numberings : List (Char × Nat) := [('x', 2), ('u', 4), ('U', 8)]

/-- A hexadecimal digit, in either case. -/
def IsHexDigit (d : Nat) (h : Char) : Prop :=
  d < 16 ∧ (h = Nat.digitChar d ∨ h = (Nat.digitChar d).toUpper)

instance (d : Nat) (h : Char) : Decidable (IsHexDigit d h) := inferInstanceAs (Decidable (_ ∧ _))

/-- Hexadecimal digits with that value. -/
def IsHexNumeral (n : Nat) (hs : List Char) : Prop :=
  ∃ ds, List.Forall₂ IsHexDigit ds hs ∧ ds.foldl (fun n d => n * 16 + d) 0 = n

/-- What stands between the quotes for a string. -/
inductive Quotes : List Char → List Char → Prop
  | nil : Quotes [] []
  | plain {c : Char} {s t : List Char} : c ≠ '"' → c ≠ '\\' → c = '\t' ∨ 0x20 ≤ c.toNat →
      c.toNat ≠ 0x7F → Quotes s t → Quotes (c :: s) (c :: t)
  | short {c e : Char} {s t : List Char} : (c, e) ∈ shorthands → Quotes s t →
      Quotes (c :: s) ('\\' :: e :: t)
  | numbered {c e : Char} {width : Nat} {s t hs : List Char} : (e, width) ∈ numberings →
      hs.length = width → IsHexNumeral c.toNat hs → Quotes s t →
      Quotes (c :: s) ('\\' :: e :: (hs ++ t))

variable {c e : Char} {cs hs rest s t : List Char} {n width : Nat}

theorem hexDigit?_of_isHexDigit {d : Nat} (h : IsHexDigit d c) : hexDigit? c = some d := by
  have hdigits : ∀ d < 16, hexDigit? (Nat.digitChar d) = some d ∧
      hexDigit? (Nat.digitChar d).toUpper = some d := by decide
  rcases h with ⟨hd, rfl | rfl⟩
  · exact (hdigits d hd).1
  · exact (hdigits d hd).2

theorem hexValue?_of_isHexNumeral (h : IsHexNumeral n hs) : hexValue? hs = some n := by
  have hfold : ∀ {ds hs : List _}, List.Forall₂ IsHexDigit ds hs → ∀ m,
      hs.foldlM (fun n c => (hexDigit? c).map (n * 16 + ·)) m =
        some (ds.foldl (fun n d => n * 16 + d) m) := by
    intro ds hs hds
    induction hds with
    | nil => exact fun m => rfl
    | cons hd _ ih =>
      intro m
      rw [List.foldlM_cons, hexDigit?_of_isHexDigit hd, Option.map_some, List.foldl_cons]
      exact ih _
  obtain ⟨ds, hds, rfl⟩ := h
  exact hfold hds 0

theorem scalar?_toNat (c : Char) : scalar? c.toNat = some c := by
  have hvalid : c.toNat.isValidChar := c.valid
  rw [scalar?, if_pos hvalid, Char.ofNat_toNat]

theorem escape?_short (h : (c, e) ∈ shorthands) : escape? (e :: rest) = some (c, rest) := by
  have hletters : ∀ p ∈ shorthands, escapeWidth? p.2 = none ∧ shortEscape? p.2 = some p.1 := by
    decide
  obtain ⟨hwidth, hshort⟩ := hletters _ h
  rw [escape?, hwidth]
  simp only [hshort, Option.map_some]

theorem escape?_numbered (he : (e, width) ∈ numberings) (hlength : hs.length = width)
    (h : IsHexNumeral c.toNat hs) : escape? (e :: (hs ++ rest)) = some (c, rest) := by
  have hletters : ∀ p ∈ numberings, escapeWidth? p.1 = some p.2 := by decide
  have hlong : ¬(hs ++ rest).length < width := by
    rw [List.length_append]
    omega
  rw [escape?, hletters _ he]
  simp only [if_neg hlong, List.take_left' hlength, List.drop_left' hlength,
    hexValue?_of_isHexNumeral h, scalar?_toNat, Option.bind_eq_bind, Option.bind_some,
    Option.pure_def]

theorem basic?_escape (h : escape? cs = some (c, rest)) :
    basic? ('\\' :: cs) = (basic? rest).map fun r => (c :: r.1, r.2) := by
  rw [basic?, if_neg (by decide), if_pos rfl]
  split
  case h_1 hnone =>
    rw [h] at hnone
    cases hnone
  case h_2 hsome =>
    rw [h] at hsome
    cases hsome
    rfl

/-- A string is read back from what stands for it, up to the closing quote. -/
theorem basic?_of_quotes (h : Quotes s t) : basic? (t ++ '"' :: rest) = some (s, rest) := by
  induction h with
  | nil => rw [List.nil_append, basic?, if_pos rfl]
  | @plain c s t hquote hescape hlow hdelete _ ih =>
    have hplain : isPlain c := by
      simp only [isPlain, Bool.or_eq_true, beq_iff_eq, Bool.and_eq_true, decide_eq_true_eq,
        bne_iff_ne, ne_eq]
      exact hlow.imp_right fun hlow => ⟨hlow, hdelete⟩
    rw [List.cons_append, basic?, if_neg hquote, if_neg hescape, if_pos hplain, ih, Option.map_some]
  | short he _ ih =>
    rw [List.cons_append, List.cons_append, basic?_escape (escape?_short he), ih, Option.map_some]
  | numbered he hlength hs _ ih =>
    rw [List.cons_append, List.cons_append, List.append_assoc,
      basic?_escape (escape?_numbered he hlength hs), ih, Option.map_some]

/-! ## Numbers -/

open Json (digitOf head_toDigits isDigit_of_mem_toDigits)

/-- An integer is written with its digits, behind a sign if it is negative. -/
theorem toList_toString (n : Int) : (toString n).toList = Json.writeInt n := by
  cases n with
  | ofNat m => exact String.toList_ofList
  | negSucc m =>
    have hsign : toString (Int.negSucc m) = "-" ++ String.ofList (Nat.toDigits 10 (m + 1)) := rfl
    rw [hsign, String.toList_append, String.toList_ofList, String.toList_ofList, Json.writeInt]
    rfl

theorem digit?_of_isDigit (h : c.isDigit) : digit? 10 c = some (digitOf c) := by
  have hc : '0' ≤ c ∧ c ≤ '9' := by simpa [Char.isDigit, Char.le_def] using h
  have hlt : digitOf c < 10 := by
    have hnine : c.toNat ≤ '9'.toNat := hc.2
    have : '9'.toNat = 57 := rfl
    rw [digitOf]
    omega
  rw [digit?, hexDigit?, if_pos hc]
  exact Option.filter_some_pos (decide_eq_true hlt)

theorem moreDigits?_of_isDigit (h : ∀ c ∈ cs, c.isDigit) (n : Nat) :
    moreDigits? 10 n cs = some (Nat.ofDigitChars 10 cs n) := by
  induction cs generalizing n with
  | nil => rfl
  | cons c cs ih =>
    obtain ⟨hc, hcs⟩ := List.forall_mem_cons.mp h
    have hscore : c ≠ '_' := by
      rintro rfl
      cases hc
    have hstep : moreDigits? 10 n (c :: cs) =
        (digit? 10 c).bind fun d => moreDigits? 10 (n * 10 + d) cs := by
      rw [moreDigits?]
      exact fun _ _ h _ => hscore h
    rw [hstep, digit?_of_isDigit hc, Option.bind_some, ih hcs, Nat.ofDigitChars_cons, Nat.mul_comm]
    rfl

/-- A number is read back from its digits. -/
theorem decimal?_toDigits (n : Nat) : decimal? (Nat.toDigits 10 n) = some n := by
  rcases Nat.eq_zero_or_pos n with rfl | hn
  · rfl
  · obtain ⟨c, cs, hcs, hne⟩ := head_toDigits hn
    have hdigits : ∀ d ∈ c :: cs, d.isDigit := by
      intro d hd
      rw [← hcs] at hd
      exact isDigit_of_mem_toDigits hd
    have hzero : c ≠ '0' := by
      rintro rfl
      exact hne rfl
    have hplain : decimal? (c :: cs) = digits? 10 (c :: cs) := by
      unfold decimal?
      split
      case h_1 heq => exact absurd (List.cons.inj heq).1 hzero
      case h_2 heq => exact absurd (List.cons.inj heq).1 hzero
      case h_3 => rfl
    obtain ⟨hc, hcs'⟩ := List.forall_mem_cons.mp hdigits
    have hvalue : Nat.ofDigitChars 10 (c :: cs) 0 = n := by
      rw [← hcs]
      exact Nat.ofDigitChars_ten_toDigits
    rw [hcs, hplain, digits?, digit?_of_isDigit hc, Option.bind_some, moreDigits?_of_isDigit hcs',
      ← hvalue, Nat.ofDigitChars_cons, Nat.mul_zero, Nat.zero_add]
    rfl

theorem integer?_toString (n : Int) : integer? (toString n).toList = some n := by
  rw [toList_toString]
  cases n with
  | negSucc m =>
    have hsigned : integer? (Json.writeInt (.negSucc m)) =
        (decimal? (Nat.toDigits 10 (m + 1))).map fun n => -(n : Int) := rfl
    rw [hsigned, decimal?_toDigits]
    rfl
  | ofNat m =>
    have hunsigned : integer? (Json.writeInt (.ofNat m)) =
        (decimal? (Nat.toDigits 10 m)).map Int.ofNat := by
      rcases Nat.eq_zero_or_pos m with rfl | hm
      · rfl
      · obtain ⟨c, cs, hcs, hne⟩ := head_toDigits hm
        have hhead : c ≠ '0' ∧ c ≠ '+' ∧ c ≠ '-' := by
          refine ⟨?_, ?_, ?_⟩ <;> (rintro rfl; exact hne rfl)
        rw [Json.writeInt, hcs]
        unfold integer?
        split
        case h_6 => rfl
        all_goals
          rename_i heq
          obtain ⟨rfl, -⟩ := List.cons.inj heq
          simp at hhead
    rw [hunsigned, decimal?_toDigits]
    rfl

/-! ## Values -/

/-- Letters, digits, underscores and dashes. -/
def IsBare (c : Char) : Prop := c.isAlphanum ∨ c = '_' ∨ c = '-'

/-- What stands for a value. The zero may have a sign. -/
def IsWritten : Value → List Char → Prop
  | .text s, cs => ∃ t, Quotes s.toList t ∧ cs = '"' :: (t ++ ['"'])
  | .integer n, cs => cs = (toString n).toList ∨ n = 0 ∧ cs = ['-', '0']
  | .boolean b, cs => cs = (toString b).toList

/-- The end of a line: what is left of the document there, and what follows the line. -/
inductive IsBreak : List Char → List Char → Prop
  | done : IsBreak [] []
  | newline {cs : List Char} : IsBreak ('\n' :: cs) cs
  | return {cs : List Char} : IsBreak ('\r' :: '\n' :: cs) cs

variable {v : Value} {ds : List Char}

theorem isBareKey_iff : isBareKey c ↔ IsBare c := by
  simp only [isBareKey, Bool.or_eq_true, beq_iff_eq, or_assoc, IsBare]

theorem isBare_of_all (h : cs.all isBareKey) : ∀ c ∈ cs, IsBare c :=
  fun c hc => isBareKey_iff.mp (List.all_eq_true.mp h c hc)

theorem IsBare.ne (h : IsBare c) {d : Char} (hd : isBareKey d = false) : c ≠ d := by
  rintro rfl
  rw [isBareKey_iff.mpr h] at hd
  cases hd

theorem IsBare.not_isBlank (h : IsBare c) : isBlank c = false := by
  rw [isBlank, beq_eq_false_iff_ne.mpr (h.ne rfl), beq_eq_false_iff_ne.mpr (h.ne rfl)]
  rfl

theorem IsBare.not_endsWord (h : IsBare c) : endsWord c = false := by
  rw [endsWord, h.not_isBlank, beq_eq_false_iff_ne.mpr (h.ne rfl),
    beq_eq_false_iff_ne.mpr (h.ne rfl), beq_eq_false_iff_ne.mpr (h.ne rfl)]
  rfl

theorem isBare_toString (n : Int) : ∀ c ∈ (toString n).toList, IsBare c := by
  have hdigit : ∀ {m : Nat}, ∀ c ∈ Nat.toDigits 10 m, IsBare c := by
    intro m c hc
    refine .inl ?_
    rw [Char.isAlphanum, isDigit_of_mem_toDigits hc, Bool.or_true]
  rw [toList_toString]
  cases n with
  | ofNat m => exact hdigit
  | negSucc m => exact List.forall_mem_cons.mpr ⟨.inr (.inr rfl), hdigit⟩

theorem IsBreak.takeWhile_word (h : IsBreak rest ds) : rest.takeWhile (!endsWord ·) = [] := by
  cases h <;> rfl

theorem IsBreak.dropWhile_word (h : IsBreak rest ds) : rest.dropWhile (!endsWord ·) = rest := by
  cases h <;> rfl

/-- A value without quotes is read back up to the end of its line. -/
theorem value?_word (hcs : ∀ c ∈ cs, IsBare c) (hv : word? cs = some v) (hb : IsBreak rest ds) :
    value? (cs ++ rest) = some (v, rest) := by
  have hword : ∀ c ∈ cs, (!endsWord c) = true := by
    intro c hc
    rw [(hcs c hc).not_endsWord]
    rfl
  cases cs with
  | nil => cases hv
  | cons c cs =>
    have hc := hcs c List.mem_cons_self
    have hplain : value? (c :: cs ++ rest) =
        (word? ((c :: cs ++ rest).takeWhile (!endsWord ·))).map fun v =>
          (v, (c :: cs ++ rest).dropWhile (!endsWord ·)) := by
      rw [List.cons_append]
      unfold value?
      split
      case h_5 => rfl
      all_goals
        rename_i heq
        exact absurd (List.cons.inj heq).1 (hc.ne rfl)
    rw [hplain, List.takeWhile_append_of_pos hword, List.dropWhile_append_of_pos hword,
      hb.takeWhile_word, hb.dropWhile_word, List.append_nil, hv, Option.map_some]

theorem word?_toString (n : Int) : word? (toString n).toList = some (.integer n) := by
  have hletters : ∀ {c : Char} {cs : List Char}, (toString n).toList = c :: cs →
      integer? (c :: cs) = some n := by
    intro c cs h
    rw [← h]
    exact integer?_toString n
  have hinteger := integer?_toString n
  rw [word?, if_neg, if_neg, hinteger, Option.map_some]
  · intro h
    rw [h] at hinteger
    cases hinteger
  · intro h
    rw [h] at hinteger
    cases hinteger

theorem Quotes.head_ne (h : Quotes s (c :: t)) : c ≠ '"' := by
  cases h with
  | plain hquote => exact hquote
  | short => decide
  | numbered => decide

/-- Two quotes in front are not the first of three. -/
theorem value?_quotes (h : Quotes s t) (hb : IsBreak rest ds) :
    value? ('"' :: (t ++ '"' :: rest)) = some (.text (String.ofList s), rest) := by
  have hbasic : value? ('"' :: (t ++ '"' :: rest)) = (basic? (t ++ '"' :: rest)).map asText := by
    unfold value?
    split
    case h_1 heq =>
      obtain ⟨-, heq⟩ := List.cons.inj heq
      cases t with
      | nil =>
        obtain ⟨-, rfl⟩ := List.cons.inj heq
        cases hb
      | cons c t => exact absurd (List.cons.inj heq).1 h.head_ne
    case h_2 heq => cases heq
    case h_3 heq =>
      obtain ⟨-, rfl⟩ := List.cons.inj heq
      rfl
    case h_4 heq => cases heq
    case h_5 hnot _ => exact absurd rfl (hnot _)
  rw [hbasic, basic?_of_quotes h]
  rfl

/-- A value stands in quotes, or is a word. -/
theorem isWritten_cases (h : IsWritten v cs) :
    (∃ s t, v = .text (String.ofList s) ∧ Quotes s t ∧ cs = '"' :: (t ++ ['"'])) ∨
      (∀ c ∈ cs, IsBare c) ∧ word? cs = some v := by
  cases v with
  | text s =>
    obtain ⟨t, ht, rfl⟩ := h
    exact .inl ⟨s.toList, t, by rw [String.ofList_toList], ht, rfl⟩
  | integer n =>
    rcases h with rfl | ⟨rfl, rfl⟩
    · exact .inr ⟨isBare_toString n, word?_toString n⟩
    · exact .inr ⟨isBare_of_all rfl, rfl⟩
  | boolean b =>
    cases h
    cases b with
    | false => exact .inr ⟨isBare_of_all rfl, rfl⟩
    | true => exact .inr ⟨isBare_of_all rfl, rfl⟩

/-- A value is read back up to the end of its line. -/
theorem value?_of_isWritten (h : IsWritten v cs) (hb : IsBreak rest ds) :
    value? (cs ++ rest) = some (v, rest) := by
  rcases isWritten_cases h with ⟨s, t, rfl, ht, rfl⟩ | ⟨hcs, hv⟩
  · rw [List.cons_append, List.append_assoc, List.singleton_append, value?_quotes ht hb]
  · exact value?_word hcs hv hb

/-- No value begins with a blank. -/
theorem dropWhile_isWritten (h : IsWritten v cs) : (cs ++ rest).dropWhile isBlank = cs ++ rest := by
  rcases isWritten_cases h with ⟨s, t, -, -, rfl⟩ | ⟨hcs, hv⟩
  · rfl
  · cases cs with
    | nil => cases hv
    | cons c cs =>
      rw [List.cons_append, List.dropWhile_cons, (hcs c List.mem_cons_self).not_isBlank,
        if_neg (by decide)]

/-! ## Lines -/

/-- What stands on the line of an entry: its bare key, an equals sign between blanks, its value. -/
def IsLine (e : String × Value) (cs : List Char) : Prop :=
  e.1 ≠ "" ∧ (∀ c ∈ e.1.toList, IsBare c) ∧
    ∃ vs, IsWritten e.2 vs ∧ cs = e.1.toList ++ ' ' :: '=' :: ' ' :: vs

/-- The lines of entries, of which the last one may go without a line break. -/
inductive IsDocument : List (String × Value) → List Char → Prop
  | nil : IsDocument [] []
  | cons {e : String × Value} {es : List (String × Value)} {cs rest ds : List Char} :
      IsLine e cs → IsBreak rest ds → IsDocument es ds → IsDocument (e :: es) (cs ++ rest)

variable {e : String × Value} {es : List (String × Value)} {k : String}

theorem IsBreak.lineEnd? (h : IsBreak rest ds) : lineEnd? rest = some ds := by
  cases h <;> rfl

theorem IsBreak.length_le (h : IsBreak rest ds) : ds.length ≤ rest.length := by
  cases h with
  | done => exact Nat.le_refl _
  | newline => exact Nat.le_succ _
  | «return» => exact Nat.le_add_right _ 2

/-- A line is not at its end where a key begins. -/
theorem lineEnd?_bare (h : IsBare c) : lineEnd? (c :: cs) = none := by
  rw [Toml.lineEnd?, List.dropWhile_cons, h.not_isBlank, if_neg (by decide)]
  split
  case h_1 heq => exact absurd (List.cons.inj heq).1 (h.ne rfl)
  case h_2 =>
    unfold break?
    split
    case h_4 => rfl
    case h_1 heq => cases heq
    all_goals
      rename_i heq
      exact absurd (List.cons.inj heq).1 (h.ne rfl)

/-- A word is not empty. -/
theorem exists_bare (hk : k ≠ "") (h : ∀ c ∈ k.toList, IsBare c) :
    ∃ c cs, k.toList = c :: cs ∧ IsBare c := by
  have hne : k.toList ≠ [] := fun hnil => hk (String.toList_eq_nil_iff.mp hnil)
  obtain ⟨c, cs, hcs⟩ := List.exists_cons_of_ne_nil hne
  exact ⟨c, cs, hcs, h c (hcs ▸ List.mem_cons_self)⟩

theorem key?_bare (hk : k ≠ "") (h : ∀ c ∈ k.toList, IsBare c) :
    key? (k.toList ++ ' ' :: rest) = some (k, ' ' :: rest) := by
  have hbare : ∀ c ∈ k.toList, isBareKey c := fun c hc => isBareKey_iff.mpr (h c hc)
  have htake : (k.toList ++ ' ' :: rest).takeWhile isBareKey = k.toList := by
    rw [List.takeWhile_append_of_pos hbare, List.takeWhile_cons_of_neg (by decide), List.append_nil]
  have hdrop : (k.toList ++ ' ' :: rest).dropWhile isBareKey = ' ' :: rest := by
    rw [List.dropWhile_append_of_pos hbare, List.dropWhile_cons_of_neg (by decide)]
  obtain ⟨c, cs, hcs, hc⟩ := exists_bare hk h
  have hplain : key? (k.toList ++ ' ' :: rest) = some (String.ofList k.toList, ' ' :: rest) := by
    unfold key?
    split
    case h_3 => rw [htake, hdrop, hcs]
    all_goals
      rename_i heq
      rw [hcs] at heq
      exact absurd (List.cons.inj heq).1 (hc.ne rfl)
  rw [hplain, String.ofList_toList]

theorem entry?_line (h : IsLine e cs) (hb : IsBreak rest ds) :
    entry? (cs ++ rest) = some (e, rest) := by
  obtain ⟨hk, hbare, vs, hv, rfl⟩ := h
  obtain ⟨c, cs, hcs, hc⟩ := exists_bare hk hbare
  have hstart : (e.1.toList ++ ' ' :: '=' :: ' ' :: (vs ++ rest)).dropWhile isBlank =
      e.1.toList ++ ' ' :: '=' :: ' ' :: (vs ++ rest) := by
    rw [hcs, List.cons_append, List.dropWhile_cons_of_neg (by simp [hc.not_isBlank])]
  have hequals : (' ' :: '=' :: ' ' :: (vs ++ rest)).dropWhile isBlank =
      '=' :: ' ' :: (vs ++ rest) := rfl
  have hvalue : (' ' :: (vs ++ rest)).dropWhile isBlank = vs ++ rest := by
    rw [List.dropWhile_cons_of_pos rfl, dropWhile_isWritten hv]
  have hshape : e.1.toList ++ ' ' :: '=' :: ' ' :: vs ++ rest =
      e.1.toList ++ ' ' :: '=' :: ' ' :: (vs ++ rest) := by simp
  unfold entry?
  rw [hshape, hstart, key?_bare hk hbare]
  simp only [Option.bind_eq_bind, Option.bind_some, hequals, hvalue, value?_of_isWritten hv hb,
    Option.pure_def]

/-- The entries of the lines of a document. -/
theorem lines?_of_isDocument (h : IsDocument es cs) : lines? cs = some es := by
  induction h with
  | nil => rw [lines?]
  | @cons e es cs rest ds hline hb _ ih =>
    have hentry := entry?_line hline hb
    obtain ⟨hk, hbare, vs, -, hcs⟩ := hline
    obtain ⟨c, k, hkey, hc⟩ := exists_bare hk hbare
    obtain ⟨cs', rfl⟩ : ∃ cs', cs = c :: cs' := ⟨_, by rw [hcs, hkey, List.cons_append]⟩
    have hlength : ds.length ≤ (cs' ++ rest).length := by
      rw [List.length_append]
      have := hb.length_le
      omega
    rw [List.cons_append] at hentry ⊢
    rw [lines?, lineEnd?_bare hc]
    simp only [hentry, hb.lineEnd?, if_pos hlength, ih, Option.map_some]

theorem IsDocument.isBare (h : IsDocument es (c :: cs)) : IsBare c := by
  generalize hds : c :: cs = ds at h
  cases h with
  | nil => cases hds
  | cons hline =>
    obtain ⟨hk, hbare, vs, -, rfl⟩ := hline
    obtain ⟨d, k, hkey, hd⟩ := exists_bare hk hbare
    rw [hkey] at hds
    cases hds
    exact hd

theorem parse?_of_isDocument {s : String} (h : IsDocument es s.toList) : parse? s = some es := by
  unfold parse?
  split
  case h_1 heq =>
    rw [heq] at h
    exact absurd rfl (h.isBare.ne rfl)
  case h_2 => exact lines?_of_isDocument h

end SessionStore.Toml
