import SessionStore.Json.Number

/-! # Integers in JSON

An integer that is kept exactly is read back from its digits. They begin with no superfluous zero,
and nothing follows them that could be a fraction or an exponent.
-/

namespace SessionStore.Json

/-- The value of a digit. -/
def digitOf (c : Char) : Nat := c.toNat - 48

theorem digit?_of_isDigit {c : Char} (h : c.isDigit) : Text.Numeral.digit? c = some (digitOf c) :=
  if_pos (by simpa [Char.isDigit, Char.le_def] using h)

theorem isDigit_of_mem_toDigits {n : Nat} {c : Char} (h : c ∈ Nat.toDigits 10 n) : c.isDigit :=
  Nat.isDigit_of_mem_toDigits (by decide) (by decide) h

/-- No numeral of more than one digit begins with a zero. -/
theorem head_toDigits {n : Nat} (hn : 0 < n) :
    ∃ c cs, Nat.toDigits 10 n = c :: cs ∧ digitOf c ≠ 0 := by
  induction n using Nat.strongRecOn with
  | ind n ih =>
    rcases Nat.lt_or_ge n 10 with h | h
    · refine ⟨n.digitChar, [], Nat.toDigits_of_lt_base h, ?_⟩
      rw [digitOf, Nat.toNat_digitChar_sub_48_of_lt_ten h]
      omega
    · obtain ⟨c, cs, hc, hne⟩ := ih (n / 10) (by omega) (by omega)
      refine ⟨c, cs ++ [(n % 10).digitChar], ?_, hne⟩
      rw [Nat.toDigits_of_base_le (by decide) h, hc, List.cons_append]

namespace Numeral

theorem spanDigits_of_isDigit : ∀ {cs : List Char}, (∀ c ∈ cs, c.isDigit) →
    spanDigits cs = (cs.map digitOf, [])
  | [], _ => rfl
  | c :: cs, h => by
    obtain ⟨hc, hcs⟩ := List.forall_mem_cons.mp h
    rw [spanDigits, digit?_of_isDigit hc]
    simp only [spanDigits_of_isDigit hcs, List.map_cons]

theorem value_map_digitOf (cs : List Char) : value (cs.map digitOf) = Nat.ofDigitChars 10 cs 0 := by
  rw [value, List.foldl_map, Nat.ofDigitChars_eq_foldl]
  simp only [digitOf, Nat.mul_comm]
  rfl

theorem value_toDigits (n : Nat) : value ((Nat.toDigits 10 n).map digitOf) = n := by
  rw [value_map_digitOf, Nat.ofDigitChars_ten_toDigits]

/-- The numeral of a natural number. -/
theorem unsigned?_toDigits (negative : Bool) (n : Nat) :
    unsigned? negative (Nat.toDigits 10 n) =
      some ⟨negative, (Nat.toDigits 10 n).map digitOf, [], none⟩ := by
  have hspan := spanDigits_of_isDigit fun c hc => isDigit_of_mem_toDigits (n := n) hc
  rcases Nat.eq_zero_or_pos n with rfl | hn
  · rfl
  · obtain ⟨c, cs, hcs, hne⟩ := head_toDigits hn
    unfold unsigned?
    rw [hspan, hcs, List.map_cons]
    split
    case h_1 heq => cases heq
    case h_2 heq => exact absurd (List.cons.inj (Prod.mk.inj heq).1).1 hne
    case h_3 heq =>
      obtain ⟨rfl, rfl⟩ := Prod.mk.inj heq
      rfl

end Numeral

/-- The word that is written for an integer is read as that integer. -/
theorem ofChars?_writeInt {n : Int} (hleast : least ≤ n) (hgreatest : n ≤ greatest) :
    (Numeral.ofChars? (writeInt n)).bind Numeral.toJson? = some (.int n) := by
  cases n with
  | ofNat m =>
    have hplain : Numeral.ofChars? (writeInt (.ofNat m)) =
        Numeral.unsigned? false (Nat.toDigits 10 m) := by
      obtain ⟨c, cs, hcs⟩ := List.exists_cons_of_ne_nil (Nat.toDigits_ne_nil (n := m) (b := 10))
      have hsign : c ≠ '-' := by
        rintro rfl
        have := isDigit_of_mem_toDigits (n := m) (c := '-') (by simp [hcs])
        cases this
      rw [writeInt, hcs]
      unfold Numeral.ofChars?
      split
      case h_1 heq => exact absurd (List.cons.inj heq).1 hsign
      case h_2 => rfl
    rw [hplain, Numeral.unsigned?_toDigits, Option.bind_some]
    simp only [Numeral.toJson?, Numeral.value_toDigits]
    exact if_pos hgreatest
  | negSucc m =>
    have hsigned : Numeral.ofChars? (writeInt (.negSucc m)) =
        Numeral.unsigned? true (Nat.toDigits 10 (m + 1)) := rfl
    have hleast' : least ≤ -((m + 1 : Nat) : Int) := hleast
    rw [hsigned, Numeral.unsigned?_toDigits, Option.bind_some]
    simp only [Numeral.toJson?, Numeral.value_toDigits, if_neg (Nat.succ_ne_zero m), if_pos hleast']
    rfl

end SessionStore.Json
