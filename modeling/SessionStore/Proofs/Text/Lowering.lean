import Mathlib.Data.List.Forall2
import SessionStore.Proofs.Text.Trimming
import SessionStore.Text.Lowercase

/-! # Words in small letters

The full lower-case mapping takes a text to a word of ASCII characters without capitals exactly if
the two differ in the case of ASCII letters at most, provided that the word has no `k`. That letter
is also the image of the Kelvin sign, and no other character beyond ASCII goes into ASCII.
-/

namespace SessionStore.Text

variable {c d : Char} {cs ds before : List Char} {s word : String}

/-! ## Letters up to their case -/

/-- The same character, or a capital letter of ASCII and the small one. -/
def SameLetter (c d : Char) : Prop :=
  c = d ∨ ∃ n < 26, (c.toNat = 0x41 + n ∧ d.toNat = 0x61 + n) ∨
    (c.toNat = 0x61 + n ∧ d.toNat = 0x41 + n)

theorem toNat_toLower (c : Char) :
    c.toLower.toNat = if 0x41 ≤ c.toNat ∧ c.toNat ≤ 0x5A then c.toNat + 32 else c.toNat := by
  by_cases h : 0x41 ≤ c.toNat ∧ c.toNat ≤ 0x5A
  · have hupper : c.val ≥ 'A'.val ∧ c.val ≤ 'Z'.val := h
    have hsmall : c.toLower.val = c.val + ('a'.val - 'A'.val) := congrArg Char.val (dif_pos hupper)
    have hsum : (c.val + ('a'.val - 'A'.val)).toNat = c.toNat + 32 := by
      rw [UInt32.toNat_add]
      exact Nat.mod_eq_of_lt (Nat.lt_of_le_of_lt (Nat.add_le_add_right h.2 32) (by decide))
    rw [if_pos h, ← hsum, ← hsmall]
    rfl
  · have hupper : ¬(c.val ≥ 'A'.val ∧ c.val ≤ 'Z'.val) := h
    rw [if_neg h]
    exact congrArg Char.toNat (dif_neg hupper)

theorem sameLetter_iff : SameLetter c d ↔ c.toLower = d.toLower := by
  rw [← Char.toNat_inj, toNat_toLower, toNat_toLower, SameLetter, ← Char.toNat_inj]
  constructor
  · rintro (h | ⟨n, hn, h⟩)
    · rw [h]
    · split_ifs <;> omega
  · intro h
    split_ifs at h with hc hd hd
    · exact .inl (by omega)
    · exact .inr ⟨c.toNat - 0x41, by omega, .inl (by omega)⟩
    · exact .inr ⟨d.toNat - 0x41, by omega, .inr (by omega)⟩
    · exact .inl h

theorem SameLetter.isAscii_iff (h : SameLetter c d) : c.toNat < 0x80 ↔ d.toNat < 0x80 := by
  rcases h with rfl | ⟨n, hn, h⟩
  · rfl
  · omega

/-- Two texts of the same letters. -/
def SameLetters : List Char → List Char → Prop := List.Forall₂ SameLetter

theorem sameLetters_iff : SameLetters cs ds ↔ cs.map Char.toLower = ds.map Char.toLower := by
  have hletter : SameLetter = fun c d => c.toLower = d.toLower := by
    funext c d
    exact propext sameLetter_iff
  rw [SameLetters, hletter, ← List.forall₂_eq_eq_eq, List.forall₂_map_left_iff,
    List.forall₂_map_right_iff]

/-- A text beyond ASCII is not of the letters of one in ASCII. -/
theorem SameLetters.ascii (h : SameLetters cs ds) (hds : ∀ d ∈ ds, d.toNat < 0x80) :
    ∀ c ∈ cs, c.toNat < 0x80 := by
  induction h with
  | nil => exact hds
  | cons hletter _ ih =>
    obtain ⟨hd, hds⟩ := List.forall_mem_cons.mp hds
    exact List.forall_mem_cons.mpr ⟨hletter.isAscii_iff.mpr hd, ih hds⟩

instance (cs ds : List Char) : Decidable (SameLetters cs ds) :=
  decidable_of_iff _ sameLetters_iff.symm

/-! ## The image of a character -/

theorem CaseRun.bounds_of_holds {r : CaseRun} {n : Nat} (h : r.holds n) :
    r.first ≤ n ∧ n ≤ r.last := by
  simp only [holds, Bool.and_eq_true, decide_eq_true_eq] at h
  exact h.1

/-- The capitals of ASCII are the first run, and all others begin beyond ASCII. -/
theorem lowerRuns_ascii :
    ∃ runs, lowerRuns = ⟨0x41, 0x5A, 1, 0x61⟩ :: runs ∧ ∀ r ∈ runs, 0x80 ≤ r.first :=
  ⟨_, rfl, by decide +kernel⟩

theorem lowerChar_of_ascii (h : c.toNat < 0x80) : lowerChar c = [c.toLower] := by
  obtain ⟨runs, hruns, hfirst⟩ := lowerRuns_ascii
  have hnone : runs.find? (·.holds c.toNat) = none := by
    rw [List.find?_eq_none]
    intro r hr hholds
    have hle := CaseRun.bounds_of_holds hholds
    have := hfirst r hr
    omega
  have hdotted : c.toNat ≠ 0x130 := by omega
  unfold lowerChar
  rw [if_neg hdotted, hruns, List.find?_cons, hnone]
  by_cases hcapital : 0x41 ≤ c.toNat ∧ c.toNat ≤ 0x5A
  · have hholds : CaseRun.holds ⟨0x41, 0x5A, 1, 0x61⟩ c.toNat = true := by
      simp [CaseRun.holds, hcapital, Nat.mod_one]
    have himage : 0x61 + (c.toNat - 0x41) = c.toLower.toNat := by
      rw [toNat_toLower, if_pos hcapital]
      omega
    simp only [hholds, himage, Char.ofNat_toNat]
  · have hholds : CaseRun.holds ⟨0x41, 0x5A, 1, 0x61⟩ c.toNat = false := by
      rw [← Bool.not_eq_true]
      exact fun hholds => hcapital (CaseRun.bounds_of_holds hholds)
    have hsame : c.toLower = c := by rw [← Char.toNat_inj, toNat_toLower, if_neg hcapital]
    simp only [hholds, hsame]

/-- The images of a run of letters beyond ASCII are beyond ASCII too, but for a `k`. -/
theorem lowerRuns_beyond {r : CaseRun} (h : r ∈ lowerRuns) :
    r.last < 0x80 ∨ ∀ n ≤ r.last - r.first,
      0x80 ≤ (Char.ofNat (r.image + n)).toNat ∨ Char.ofNat (r.image + n) = 'k' := by
  revert r
  decide +kernel

/-- No character beyond ASCII becomes a text of ASCII, but for the Kelvin sign, which is a `k`. -/
theorem lowerChar_beyond (h : 0x80 ≤ c.toNat) :
    ∃ d ∈ lowerChar c, 0x80 ≤ d.toNat ∨ d = 'k' := by
  unfold lowerChar
  split
  · exact ⟨Char.ofNat 0x307, by simp, .inl (by decide)⟩
  · split
    case h_1 r hr =>
      have hholds := List.find?_some hr
      obtain ⟨hfirst, hlast⟩ := CaseRun.bounds_of_holds hholds
      rcases lowerRuns_beyond (List.mem_of_find?_eq_some hr) with hascii | hbeyond
      · omega
      · exact ⟨_, List.mem_singleton_self _, hbeyond _ (by omega)⟩
    case h_2 => exact ⟨c, List.mem_singleton_self c, .inl h⟩

/-! ## The image of a text -/

theorem lowerFrom_cons_of_ascii (h : c.toNat < 0x80) :
    lowerFrom before (c :: cs) = c.toLower :: lowerFrom (c :: before) cs := by
  have hsigma : c.toNat ≠ 0x3A3 := by omega
  rw [lowerFrom, if_neg hsigma, lowerChar_of_ascii h, List.singleton_append]

theorem lowerFrom_cons_beyond (h : 0x80 ≤ c.toNat) :
    ∃ d ∈ lowerFrom before (c :: cs), 0x80 ≤ d.toNat ∨ d = 'k' := by
  rw [lowerFrom]
  split
  · refine ⟨_, List.mem_cons_self, .inl ?_⟩
    split <;> decide
  · obtain ⟨d, hd, hbeyond⟩ := lowerChar_beyond h
    exact ⟨d, List.mem_append_left _ hd, hbeyond⟩

/-- A character that only letters of ASCII are taken to: one of ASCII, and neither a capital nor the
image of the Kelvin sign. -/
structure IsUnmistaken (d : Char) : Prop where
  ascii : d.toNat < 0x80
  small : d.toLower = d
  ne : d ≠ 'k'

instance (d : Char) : Decidable (IsUnmistaken d) :=
  decidable_of_iff (d.toNat < 0x80 ∧ d.toLower = d ∧ d ≠ 'k')
    ⟨fun ⟨hascii, hsmall, hne⟩ => ⟨hascii, hsmall, hne⟩,
      fun ⟨hascii, hsmall, hne⟩ => ⟨hascii, hsmall, hne⟩⟩

theorem lowerFrom_eq_iff (h : ∀ d ∈ ds, IsUnmistaken d) :
    lowerFrom before cs = ds ↔ SameLetters cs ds := by
  -- What has been read before matters to a sigma alone, so any text may stand there.
  induction cs generalizing before ds with
  | nil => rw [lowerFrom, eq_comm, SameLetters, List.forall₂_nil_left_iff]
  | cons c cs ih =>
    rcases Nat.lt_or_ge c.toNat 0x80 with hc | hc
    · rw [lowerFrom_cons_of_ascii hc]
      cases ds with
      | nil => simp [SameLetters]
      | cons d ds =>
        obtain ⟨hd, hds⟩ := List.forall_mem_cons.mp h
        rw [List.cons.injEq, ih hds, SameLetters, List.forall₂_cons, sameLetter_iff, hd.small]
    · -- Neither side allows for a character beyond ASCII.
      constructor
      · rintro rfl
        have himage : ∃ d ∈ lowerFrom before (c :: cs), 0x80 ≤ d.toNat ∨ d = 'k' :=
          lowerFrom_cons_beyond hc
        obtain ⟨d, hd, hbeyond | rfl⟩ := himage
        · exact absurd (h d hd).ascii (by omega)
        · exact absurd rfl (h _ hd).ne
      · rintro (_ | ⟨hletter, -⟩)
        have hd := (h _ List.mem_cons_self).ascii
        exact absurd (hletter.isAscii_iff.mpr hd) (by omega)

/-- A text in small letters is the word exactly if it has the letters of the word. -/
theorem lowercase_eq_iff (h : ∀ d ∈ word.toList, IsUnmistaken d) :
    lowercase s = word ↔ SameLetters s.toList word.toList := by
  rw [lowercase, ← String.toList_inj, String.toList_ofList, lowerFrom_eq_iff h]

/-- A word with a `k` is also the image of a text that is not of its letters. -/
example : lowercase "\u212A" = "k" ∧ ¬SameLetters "\u212A".toList "k".toList := by decide

end SessionStore.Text
