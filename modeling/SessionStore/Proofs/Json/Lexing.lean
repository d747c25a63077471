import SessionStore.Json.Printer
import SessionStore.Json.Token
import SessionStore.Proofs.Json.Fields
import SessionStore.Proofs.Json.Numerals

/-! # From written values to tokens

Whatever the layout, the text of a value is cut into the tokens of that value. What follows the text
must not continue a word, and in written values it never does.
-/

namespace SessionStore.Json

namespace Token

variable {c : Char} {cs rest w r : List Char} {t : Token} {ts us : List Token}
  {o : Option (List Token)}

/-- The tokens, and after them those that are still to come. -/
def before (ts : List Token) (o : Option (List Token)) : Option (List Token) := o.map (ts ++ ·)

@[simp] theorem before_nil : before [] o = o := by
  cases o <;> rfl

theorem before_before : before ts (before us o) = before (ts ++ us) o := by
  simp [before, Option.map_map, Function.comp_def]

/-- The character can stand in a literal or a number. -/
def IsWordChar (c : Char) : Prop := begin c = (none, .word [c])

theorem isWordChar_iff :
    IsWordChar c ↔ punctuation? c = none ∧ isBlank c = false ∧ c ≠ '"' := by
  unfold IsWordChar begin
  split
  case h_1 t ht => simp [ht]
  case h_2 hn =>
    by_cases hb : isBlank c
    · simp [hb]
    · by_cases hq : c = '"'
      · subst hq
        simp [isBlank]
      · simp [hn, hb, hq]

/-- No word goes on here. -/
def Ends (cs : List Char) : Prop := ∀ c ∈ cs.head?, ¬IsWordChar c

theorem ends_nil : Ends [] := by
  simp [Ends]

theorem ends_cons (h : ¬IsWordChar c) : Ends (c :: cs) := by
  simpa [Ends] using h

/-! ## One character at a time -/

theorem lex_between_cons (c : Char) (cs : List Char) : lex .between (c :: cs) =
    match begin c with
    | (some t, mode) => (lex mode cs).map (t :: ·)
    | (none, mode) => lex mode cs := rfl

theorem lex_word_cons (w : List Char) (c : Char) (cs : List Char) : lex (.word w) (c :: cs) =
    match begin c with
    | (none, .word _) => lex (.word (c :: w)) cs
    | (t?, mode) => do
      let v ← atom? w.reverse
      let ts ← lex mode cs
      return .atom v :: (t?.toList ++ ts) := rfl

theorem lex_text_cons (r : List Char) (c : Char) (cs : List Char) : lex (.text r) (c :: cs) =
    if c = '"' then (lex .between cs).map (.str r.reverse :: ·)
    else if c = '\\' then lex (.escape r) cs
    else if c.toNat < 0x20 then none
    else lex (.text (c :: r)) cs := rfl

theorem lex_unit_cons (r : List Char) (left value : Nat) (high? : Option Nat) (c : Char)
    (cs : List Char) : lex (.unit r left value high?) (c :: cs) =
    match hexDigit? c with
    | none => none
    | some d =>
      if left = 1 then
        match closeUnit r (value * 16 + d) high? with
        | some mode => lex mode cs
        | none => none
      else lex (.unit r (left - 1) (value * 16 + d) high?) cs := rfl

/-! ## One token at a time -/

theorem begin_cases (c : Char) : (∃ t, begin c = (some t, .between)) ∨ begin c = (none, .between) ∨
    begin c = (none, .text []) ∨ IsWordChar c := by
  unfold IsWordChar begin
  split
  · exact .inl ⟨_, rfl⟩
  · split
    · exact .inr (.inl rfl)
    · split
      · exact .inr (.inr (.inl rfl))
      · exact .inr (.inr (.inr rfl))

theorem begin_punctuation (h : punctuation? c = some t) : begin c = (some t, .between) := by
  simp [begin, h]

theorem lex_punctuation (h : punctuation? c = some t) :
    lex .between (c :: cs) = before [t] (lex .between cs) := by
  rw [lex_between_cons, begin_punctuation h]
  rfl

theorem lex_blank (h : begin c = (none, .between)) :
    lex .between (c :: cs) = lex .between cs := by
  rw [lex_between_cons, h]

theorem lex_quote : lex .between ('"' :: cs) = lex (.text []) cs := rfl

theorem lex_word (h : ∀ c ∈ cs, IsWordChar c) :
    lex (.word w) (cs ++ rest) = lex (.word (cs.reverse ++ w)) rest := by
  induction cs generalizing w with
  | nil => rfl
  | cons c cs ih =>
    obtain ⟨hc, hcs⟩ := List.forall_mem_cons.mp h
    have hstep : lex (.word w) (c :: (cs ++ rest)) = lex (.word (c :: w)) (cs ++ rest) := by
      rw [lex_word_cons, hc]
    rw [List.cons_append, hstep, ih hcs]
    simp

theorem lex_word_end {v : Json} (hw : atom? w.reverse = some v) (h : Ends rest) :
    lex (.word w) rest = before [.atom v] (lex .between rest) := by
  cases rest with
  | nil => exact congrArg (Option.map fun v => [Token.atom v]) hw
  | cons c cs =>
    have hc : ¬IsWordChar c := h c rfl
    rcases begin_cases c with ⟨t, hb⟩ | hb | hb | hb
    · simp only [lex_word_cons, lex_between_cons, hb, hw]
      cases lex .between cs <;> rfl
    · simp only [lex_word_cons, lex_between_cons, hb, hw]
      cases lex .between cs <;> rfl
    · simp only [lex_word_cons, lex_between_cons, hb, hw]
      cases lex (.text []) cs <;> rfl
    · exact absurd hb hc

/-- A word is one token. -/
theorem lex_atom {v : Json} (hcs : ∀ c ∈ cs, IsWordChar c) (hv : atom? cs = some v)
    (hne : cs ≠ []) (h : Ends rest) :
    lex .between (cs ++ rest) = before [.atom v] (lex .between rest) := by
  obtain ⟨c, cs, rfl⟩ := List.exists_cons_of_ne_nil hne
  obtain ⟨hc, hcs⟩ := List.forall_mem_cons.mp hcs
  have hstart : lex .between (c :: (cs ++ rest)) = lex (.word [c]) (cs ++ rest) := by
    rw [lex_between_cons, hc]
  have hreverse : (cs.reverse ++ [c]).reverse = c :: cs := by simp
  rw [List.cons_append, hstart, lex_word hcs, lex_word_end (by rwa [hreverse]) h]

/-! ## Strings -/

theorem hexDigit?_digitChar : ∀ n < 16, hexDigit? (Nat.digitChar n) = some n := by
  decide

theorem lex_unit_digit {left value d : Nat} {high? : Option Nat} (hd : hexDigit? c = some d)
    (h : left ≠ 1) : lex (.unit r left value high?) (c :: cs) =
      lex (.unit r (left - 1) (value * 16 + d) high?) cs := by
  rw [lex_unit_cons, hd]
  exact if_neg h

theorem lex_unit_last {value d : Nat} {high? : Option Nat} {mode : Mode} (hd : hexDigit? c = some d)
    (h : closeUnit r (value * 16 + d) high? = some mode) :
    lex (.unit r 1 value high?) (c :: cs) = lex mode cs := by
  rw [lex_unit_cons, hd]
  simp only [h]
  rfl

/-- A control character, written by its number. -/
theorem lex_control (h : c.toNat < 0x20) :
    lex (.text r) (['\\', 'u', '0', '0', Nat.digitChar (c.toNat / 16),
      Nat.digitChar (c.toNat % 16)] ++ cs) = lex (.text (c :: r)) cs := by
  have hzero : hexDigit? '0' = some 0 := by decide
  have hhigh := hexDigit?_digitChar (c.toNat / 16) (by omega)
  have hlow := hexDigit?_digitChar (c.toNat % 16) (by omega)
  have hvalue : (((0 * 16 + 0) * 16 + 0) * 16 + c.toNat / 16) * 16 + c.toNat % 16 = c.toNat := by
    omega
  have hunit : closeUnit r c.toNat none = some (.text (c :: r)) := by
    rw [closeUnit, if_neg (by omega), if_neg (by omega), Char.ofNat_toNat]
  have hstart : lex (.text r) (['\\', 'u', '0', '0', Nat.digitChar (c.toNat / 16),
      Nat.digitChar (c.toNat % 16)] ++ cs) = lex (.unit r 4 0 none) ('0' :: '0' ::
        Nat.digitChar (c.toNat / 16) :: Nat.digitChar (c.toNat % 16) :: cs) := rfl
  rw [hstart, lex_unit_digit hzero (by decide), lex_unit_digit hzero (by decide),
    lex_unit_digit hhigh (by decide), lex_unit_last hlow (by rw [hvalue]; exact hunit)]

theorem lex_escapeChar (c : Char) (r cs : List Char) :
    lex (.text r) (escapeChar c ++ cs) = lex (.text (c :: r)) cs := by
  unfold escapeChar
  split
  case isTrue h =>
    rcases h with rfl | rfl <;> rfl
  split
  case isTrue h => subst h; rfl
  split
  case isTrue h => subst h; rfl
  split
  case isTrue h => subst h; rfl
  split
  case isTrue h => subst h; rfl
  split
  case isTrue h => subst h; rfl
  split
  case isTrue h => exact lex_control h
  case isFalse hquote _ _ _ _ _ h =>
    rw [not_or] at hquote
    rw [List.singleton_append, lex_text_cons, if_neg hquote.1, if_neg hquote.2, if_neg h]

theorem lex_text (s r rest : List Char) :
    lex (.text r) (s.flatMap escapeChar ++ '"' :: rest) =
      before [.str (r.reverse ++ s)] (lex .between rest) := by
  induction s generalizing r with
  | nil => simp [lex_text_cons, before]
  | cons c s ih =>
    rw [List.flatMap_cons, List.append_assoc, lex_escapeChar, ih]
    simp

theorem lex_writeString (s : String) (rest : List Char) :
    lex .between (writeString s ++ rest) = before [.str s.toList] (lex .between rest) := by
  have hshape : writeString s ++ rest = '"' :: (s.toList.flatMap escapeChar ++ '"' :: rest) := by
    simp [writeString]
  rw [hshape, lex_quote, lex_text, List.reverse_nil, List.nil_append]

/-! ## Literals and integers -/

theorem isWordChar_of_isAlphanum (h : c.isAlphanum) : IsWordChar c := by
  refine isWordChar_iff.mpr ⟨?_, ?_, ?_⟩
  · unfold punctuation?
    split <;> first | rfl | (revert h; decide)
  · rw [← Bool.not_eq_true]
    intro hblank
    simp only [isBlank, Bool.or_eq_true, beq_iff_eq, or_assoc] at hblank
    rcases hblank with rfl | rfl | rfl | rfl <;> (revert h; decide)
  · rintro rfl
    revert h
    decide

theorem isWordChar_of_isDigit (h : c.isDigit) : IsWordChar c :=
  isWordChar_of_isAlphanum (by simp [Char.isAlphanum, h])

theorem isWordChar_writeInt (n : Int) : ∀ c ∈ writeInt n, IsWordChar c := by
  intro c hc
  cases n with
  | ofNat m => exact isWordChar_of_isDigit (isDigit_of_mem_toDigits hc)
  | negSucc m =>
    rcases List.mem_cons.mp hc with rfl | hc
    · rfl
    · exact isWordChar_of_isDigit (isDigit_of_mem_toDigits hc)

/-- An integer is one word, which is none of the literals. -/
theorem atom?_writeInt {n : Int} (hleast : least ≤ n) (hgreatest : n ≤ greatest) :
    atom? (writeInt n) = some (.int n) := by
  have hletter : ∀ {c : Char} {cs : List Char}, c.isDigit = false → c ≠ '-' →
      writeInt n ≠ c :: cs := by
    intro c cs hdigit hsign heq
    cases n with
    | ofNat m =>
      have hmem : c ∈ Nat.toDigits 10 m := by
        rw [← writeInt, heq]
        exact List.mem_cons_self
      rw [isDigit_of_mem_toDigits hmem] at hdigit
      cases hdigit
    | negSucc m => exact hsign (List.cons.inj heq).1.symm
  rw [atom?, if_neg (hletter (by decide) (by decide)), if_neg (hletter (by decide) (by decide)),
    if_neg (hletter (by decide) (by decide)), ofChars?_writeInt hleast hgreatest]

theorem lex_literal {v : Json} (hcs : cs.all Char.isAlphanum = true) (hv : atom? cs = some v)
    (hne : cs ≠ []) (h : Ends rest) :
    lex .between (cs ++ rest) = before [.atom v] (lex .between rest) :=
  lex_atom (fun c hc => isWordChar_of_isAlphanum (List.all_eq_true.mp hcs c hc)) hv hne h

theorem lex_writeInt {n : Int} (hleast : least ≤ n) (hgreatest : n ≤ greatest) (h : Ends rest) :
    lex .between (writeInt n ++ rest) = before [.atom (.int n)] (lex .between rest) := by
  refine lex_atom (isWordChar_writeInt n) (atom?_writeInt hleast hgreatest) ?_ h
  cases n with
  | ofNat m => exact Nat.toDigits_ne_nil
  | negSucc m => exact List.cons_ne_nil _ _

end Token

/-! ## Values -/

mutual

/-- What the text of a value is cut into. -/
def tokens : Json → List Token
  | .null => [.atom .null]
  | .bool b => [.atom (.bool b)]
  | .int n => [.atom (.int n)]
  | .double d => [.atom (.double d)]
  | .str s => [.str s.toList]
  | .arr [] => [.openArr, .closeArr]
  | .arr (x :: xs) => .openArr :: (tokens x ++ itemTokens xs ++ [.closeArr])
  | .obj [] => [.openObj, .closeObj]
  | .obj ((k, x) :: fs) =>
    .openObj :: .str k.toList :: .colon :: (tokens x ++ fieldTokens fs ++ [.closeObj])

/-- The items after the first. -/
def itemTokens : List Json → List Token
  | [] => []
  | x :: xs => .comma :: (tokens x ++ itemTokens xs)

/-- The fields after the first. -/
def fieldTokens : List (String × Json) → List Token
  | [] => []
  | (k, x) :: fs => .comma :: .str k.toList :: .colon :: (tokens x ++ fieldTokens fs)

end

namespace Token

variable {l : Layout} {level : Nat} {cs rest : List Char}

theorem lex_spaces (n : Nat) : lex .between (List.replicate n ' ' ++ cs) = lex .between cs := by
  induction n with
  | zero => rfl
  | succ n ih =>
    rw [List.replicate_succ, List.cons_append, lex_blank rfl, ih]

theorem lex_newline (l : Layout) (level : Nat) (cs : List Char) :
    lex .between (l.newline level ++ cs) = lex .between cs := by
  cases l with
  | compact => rfl
  | indented =>
    rw [Layout.newline, List.cons_append, lex_blank rfl, lex_spaces]

theorem lex_colon (l : Layout) (cs : List Char) :
    lex .between (l.colon ++ cs) = before [.colon] (lex .between cs) := by
  cases l with
  | compact => exact lex_punctuation rfl
  | indented =>
    have hcolon : Layout.indented.colon ++ cs = ':' :: ' ' :: cs := rfl
    rw [hcolon, lex_punctuation rfl, lex_blank rfl]

theorem ends_newline (h : Ends cs) : Ends (l.newline level ++ cs) := by
  cases l with
  | compact => exact h
  | indented => exact ends_cons fun hc => by cases hc

theorem ends_punctuation {c : Char} {t : Token} (h : punctuation? c = some t) : Ends (c :: cs) := by
  apply ends_cons
  intro hc
  rw [(isWordChar_iff.mp hc).1] at h
  cases h

theorem ends_writeItems (xs : List Json) (h : Ends rest) :
    Ends (writeItems l level xs ++ rest) := by
  cases xs with
  | nil => exact h
  | cons x xs => exact ends_punctuation rfl

theorem ends_writeFields (fs : List (String × Json)) (h : Ends rest) :
    Ends (writeFields l level fs ++ rest) := by
  cases fs with
  | nil => exact h
  | cons e fs => exact ends_punctuation rfl

mutual

theorem lex_write : ∀ {v : Json} {level : Nat} {rest : List Char}, v.Every IsExact → Ends rest →
    lex .between (write l level v ++ rest) = before v.tokens (lex .between rest)
  | .null, _, _, _, hr => by
    rw [write, tokens]
    exact lex_literal rfl rfl (List.cons_ne_nil _ _) hr
  | .bool true, _, _, _, hr => by
    rw [write, tokens]
    exact lex_literal rfl rfl (List.cons_ne_nil _ _) hr
  | .bool false, _, _, _, hr => by
    rw [write, tokens]
    exact lex_literal rfl rfl (List.cons_ne_nil _ _) hr
  | .int n, _, _, h, hr => by
    rw [write, tokens]
    exact lex_writeInt h.1 h.2 hr
  | .double d, _, _, h, _ => h.elim
  | .str s, _, _, _, _ => by
    rw [write, tokens, lex_writeString]
  | .arr [], level, rest, _, _ => by
    have hshape : write l level (.arr []) ++ rest = '[' :: ']' :: rest := by
      simp [write]
    rw [hshape, lex_punctuation rfl, lex_punctuation rfl, before_before, tokens]
    rfl
  | .arr (x :: xs), level, rest, h, _ => by
    unfold Every EveryItem at h
    have hclose : Ends (l.newline level ++ ']' :: rest) := ends_newline (ends_punctuation rfl)
    have hshape : write l level (.arr (x :: xs)) ++ rest = '[' :: (l.newline (level + 1) ++
        (write l (level + 1) x ++ (writeItems l (level + 1) xs ++
          (l.newline level ++ ']' :: rest)))) := by
      simp [write]
    rw [hshape, lex_punctuation rfl, lex_newline, lex_write h.2.1 (ends_writeItems xs hclose),
      lex_writeItems h.2.2 hclose, lex_newline, lex_punctuation rfl]
    simp [before_before, tokens]
  | .obj fs, level, rest, h, _ => by
    unfold Every at h
    exact lex_writeObject h.2

/-- The text of an object ends with it, whatever follows. -/
theorem lex_writeObject : ∀ {fs : List (String × Json)} {level : Nat} {rest : List Char},
    EveryField IsExact fs →
      lex .between (write l level (.obj fs) ++ rest) = before (obj fs).tokens (lex .between rest)
  | [], level, rest, _ => by
    have hshape : write l level (.obj []) ++ rest = '\x7b' :: '\x7d' :: rest := by
      simp [write]
    rw [hshape, lex_punctuation rfl, lex_punctuation rfl, before_before, tokens]
    rfl
  | (k, x) :: fs, level, rest, h => by
    unfold EveryField at h
    have hclose : Ends (l.newline level ++ '\x7d' :: rest) := ends_newline (ends_punctuation rfl)
    have hshape : write l level (.obj ((k, x) :: fs)) ++ rest = '\x7b' :: (l.newline (level + 1) ++
        (writeString k ++ (l.colon ++ (write l (level + 1) x ++ (writeFields l (level + 1) fs ++
          (l.newline level ++ '\x7d' :: rest)))))) := by
      simp [write]
    rw [hshape, lex_punctuation rfl, lex_newline, lex_writeString, lex_colon,
      lex_write h.1 (ends_writeFields fs hclose), lex_writeFields h.2 hclose, lex_newline,
      lex_punctuation rfl]
    simp [before_before, tokens]

theorem lex_writeItems : ∀ {xs : List Json} {level : Nat} {rest : List Char},
    EveryItem IsExact xs → Ends rest →
      lex .between (writeItems l level xs ++ rest) = before (itemTokens xs) (lex .between rest)
  | [], _, _, _, _ => by
    simp [writeItems, itemTokens]
  | x :: xs, level, rest, h, hr => by
    unfold EveryItem at h
    have hshape : writeItems l level (x :: xs) ++ rest = ',' :: (l.newline level ++
        (write l level x ++ (writeItems l level xs ++ rest))) := by
      simp [writeItems]
    rw [hshape, lex_punctuation rfl, lex_newline, lex_write h.1 (ends_writeItems xs hr),
      lex_writeItems h.2 hr]
    simp [before_before, itemTokens]

theorem lex_writeFields : ∀ {fs : List (String × Json)} {level : Nat} {rest : List Char},
    EveryField IsExact fs → Ends rest →
      lex .between (writeFields l level fs ++ rest) = before (fieldTokens fs) (lex .between rest)
  | [], _, _, _, _ => by
    simp [writeFields, fieldTokens]
  | (k, x) :: fs, level, rest, h, hr => by
    unfold EveryField at h
    have hshape : writeFields l level ((k, x) :: fs) ++ rest = ',' :: (l.newline level ++
        (writeString k ++ (l.colon ++ (write l level x ++ (writeFields l level fs ++ rest))))) := by
      simp [writeFields]
    rw [hshape, lex_punctuation rfl, lex_newline, lex_writeString, lex_colon,
      lex_write h.1 (ends_writeFields fs hr), lex_writeFields h.2 hr]
    simp [before_before, fieldTokens]

end

/-- The text of a value is the tokens of the value. -/
theorem ofChars?_write (l : Layout) {v : Json} (h : v.Every IsExact) :
    ofChars? (write l 0 v) = some v.tokens := by
  have hwrite : lex .between (write l 0 v ++ []) = before v.tokens (lex .between []) :=
    lex_write h ends_nil
  rw [List.append_nil] at hwrite
  rw [ofChars?, hwrite]
  exact congrArg some (List.append_nil v.tokens)

end Token

end SessionStore.Json
