import SessionStore.Proofs.Json.Numerals
import SessionStore.Text.Blank
import SessionStore.Text.Numeral

/-! # Digits as numerals

The texts that are read as a number within the limit are its digits, with zeros in front or not, and
perhaps a plus sign. No blank is among digits, so there is nothing to trim.
-/

namespace SessionStore

namespace Text

theorem not_isBlank_of_isDigit {c : Char} (h : c.isDigit) : isBlank c = false := by
  have hlow : 48 ≤ c.toNat ∧ c.toNat ≤ 57 := by
    simp only [Char.isDigit, Bool.and_eq_true, decide_eq_true_eq, ge_iff_le, UInt32.le_iff_toNat_le]
      at h
    exact h
  simp only [isBlank, Bool.or_eq_false_iff, Bool.and_eq_false_iff, decide_eq_false_iff_not,
    beq_eq_false_iff_ne]
  omega

theorem trimChars_of_not_isBlank {cs : List Char} (h : ∀ c ∈ cs, isBlank c = false) :
    trimChars cs = cs := by
  have hkeep : ∀ {ds : List Char}, (∀ c ∈ ds, isBlank c = false) → ds.dropWhile isBlank = ds := by
    intro ds hds
    cases ds with
    | nil => rfl
    | cons d ds => rw [List.dropWhile_cons, hds d List.mem_cons_self, if_neg (by decide)]
  have hreverse : ∀ c ∈ cs.reverse, isBlank c = false := fun c hc => h c (List.mem_reverse.mp hc)
  rw [trimChars, strip, hkeep h, hkeep hreverse, List.reverse_reverse]

end Text

namespace Text.Numeral

open Json (digitOf isDigit_of_mem_toDigits digit?_of_isDigit)

variable {cs : List Char} {limit n : Nat}

theorem le_ofDigitChars (cs : List Char) (n : Nat) : n ≤ Nat.ofDigitChars 10 cs n := by
  induction cs generalizing n with
  | nil => exact Nat.le_refl n
  | cons c cs ih =>
    rw [Nat.ofDigitChars_cons]
    exact Nat.le_trans (by omega) (ih _)

/-- A number within the limit is read from its digits, at none of which the limit is exceeded. -/
theorem readFrom_of_isDigit (h : ∀ c ∈ cs, c.isDigit) (hlimit : Nat.ofDigitChars 10 cs n ≤ limit) :
    readFrom limit n cs = .ok (Nat.ofDigitChars 10 cs n) := by
  induction cs generalizing n with
  | nil => rfl
  | cons c cs ih =>
    obtain ⟨hc, hcs⟩ := List.forall_mem_cons.mp h
    have hvalue : n * 10 + digitOf c = 10 * n + (c.toNat - '0'.toNat) := by
      rw [Nat.mul_comm]
      rfl
    rw [Nat.ofDigitChars_cons] at hlimit ⊢
    have hstep := le_ofDigitChars cs (10 * n + (c.toNat - '0'.toNat))
    rw [readFrom, digit?_of_isDigit hc]
    simp only [hvalue]
    rw [if_neg (by omega), ih hcs hlimit]

/-- Digits are no plus sign. -/
theorem read_of_isDigit (h : ∀ c ∈ cs, c.isDigit) (hne : cs ≠ []) :
    read limit cs = readFrom limit 0 cs := by
  unfold read
  split
  case h_1 => exact absurd rfl hne
  case h_4 => rfl
  all_goals
    have hplus := h '+' List.mem_cons_self
    cases hplus

theorem read_plus (hne : cs ≠ []) : read limit ('+' :: cs) = readFrom limit 0 cs := by
  cases cs with
  | nil => exact absurd rfl hne
  | cons c cs => rfl

theorem read_toDigits (h : n ≤ limit) : read limit (Nat.toDigits 10 n) = .ok n := by
  have hdigits : ∀ c ∈ Nat.toDigits 10 n, c.isDigit := fun c hc => isDigit_of_mem_toDigits hc
  rw [read_of_isDigit hdigits Nat.toDigits_ne_nil,
    readFrom_of_isDigit hdigits (by rwa [Nat.ofDigitChars_ten_toDigits]),
    Nat.ofDigitChars_ten_toDigits]

/-! ## All numerals -/

/-- Any number of digits that make `n`, behind at most one plus sign. -/
def IsNumeral (cs : List Char) (n : Nat) : Prop :=
  ∃ digits, (cs = digits ∨ cs = '+' :: digits) ∧ digits ≠ [] ∧ (∀ c ∈ digits, c.isDigit) ∧
    n = Nat.ofDigitChars 10 digits 0

theorem isDigit_of_digit? {c : Char} {m : Nat} (h : digit? c = some m) :
    c.isDigit ∧ m = digitOf c := by
  have hc : '0' ≤ c ∧ c ≤ '9' := (Option.ite_none_right_eq_some.mp h).1
  have hdigit : c.isDigit := by simpa [Char.isDigit, Char.le_def] using hc
  rw [digit?_of_isDigit hdigit] at h
  exact ⟨hdigit, (Option.some_inj.mp h).symm⟩

theorem readFrom_eq_ok {m : Nat} (hn : n ≤ limit) (h : readFrom limit n cs = .ok m) :
    (∀ c ∈ cs, c.isDigit) ∧ m = Nat.ofDigitChars 10 cs n ∧ m ≤ limit := by
  induction cs generalizing n with
  | nil =>
    cases h
    exact ⟨nofun, rfl, hn⟩
  | cons c cs ih =>
    rw [readFrom] at h
    split at h
    case h_1 => cases h
    case h_2 d hd =>
      obtain ⟨hc, rfl⟩ := isDigit_of_digit? hd
      split at h
      case isTrue => cases h
      case isFalse hle =>
        obtain ⟨hcs, hm, hlimit⟩ := ih (Nat.not_lt.mp hle) h
        refine ⟨List.forall_mem_cons.mpr ⟨hc, hcs⟩, ?_, hlimit⟩
        rw [hm, Nat.ofDigitChars_cons, Nat.mul_comm 10 n]
        rfl

theorem readFrom_eq_ok_iff : readFrom limit 0 cs = .ok n ↔
    (∀ c ∈ cs, c.isDigit) ∧ n = Nat.ofDigitChars 10 cs 0 ∧ n ≤ limit := by
  constructor
  · exact readFrom_eq_ok (Nat.zero_le limit)
  · rintro ⟨hdigits, rfl, hlimit⟩
    exact readFrom_of_isDigit hdigits hlimit

theorem read_eq_ok_iff : read limit cs = .ok n ↔ IsNumeral cs n ∧ n ≤ limit := by
  constructor
  · intro h
    unfold read at h
    split at h
    case h_1 | h_2 => cases h
    case h_3 hne =>
      obtain ⟨hdigits, hn, hlimit⟩ := readFrom_eq_ok_iff.mp h
      exact ⟨⟨_, .inr rfl, hne, hdigits, hn⟩, hlimit⟩
    case h_4 hne _ _ =>
      obtain ⟨hdigits, hn, hlimit⟩ := readFrom_eq_ok_iff.mp h
      exact ⟨⟨_, .inl rfl, hne, hdigits, hn⟩, hlimit⟩
  · rintro ⟨⟨digits, rfl | rfl, hne, hdigits, hn⟩, hlimit⟩
    · rw [read_of_isDigit hdigits hne]
      exact readFrom_eq_ok_iff.mpr ⟨hdigits, hn, hlimit⟩
    · rw [read_plus hne]
      exact readFrom_eq_ok_iff.mpr ⟨hdigits, hn, hlimit⟩

end Text.Numeral

end SessionStore
