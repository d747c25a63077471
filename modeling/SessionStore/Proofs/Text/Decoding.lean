import SessionStore.Proofs.Text.Utf8

/-! # Bytes that are a text

Bytes are decoded to a text only if they are what that text is written as, so a text has one form
in bytes. After a text, decoding goes on as it would from the start.
-/

namespace SessionStore.Utf8

variable {i : Nat} {p : Partial} {b : UInt8} {bs rest : Bytes} {cs : List Char}

/-- Behind a text, reading goes on where a character may begin. -/
theorem scan_encode_append (i : Nat) (cs : List Char) (rest : Bytes) :
    scan i none (encode cs ++ rest) =
      (scan (i + (encode cs).length) none rest).map (cs ++ ·) := by
  induction cs generalizing i with
  | nil =>
    have hnil : scan i none (encode [] ++ rest) = scan i none rest := rfl
    rw [hnil, encode, List.flatMap_nil, List.length_nil, Nat.add_zero]
    cases scan i none rest <;> rfl
  | cons c cs ih =>
    rw [encode, List.flatMap_cons, ← encode, List.append_assoc, scan_encodeChar, ih,
      List.length_append, Nat.add_assoc]
    cases scan (i + ((String.utf8EncodeChar c).length + (encode cs).length)) none rest <;> rfl

/-! ## The bytes of a character -/

section Sequences

variable {b₀ b₁ b₂ b₃ : UInt8}

/-- A code point outside the surrogates is the number of its character. -/
theorem val_ofNat {n : Nat} (h : n < 0xD800 ∨ 0xDFFF < n ∧ n < 0x110000) :
    (Char.ofNat n).val.toNat = n := by
  have hvalid : n.isValidChar := h
  rw [Char.ofNat, dif_pos hvalid]
  rfl

theorem exists_char_one (h : b₀.toNat ≤ 0x7F) : ∃ c, String.utf8EncodeChar c = [b₀] := by
  refine ⟨Char.ofNat b₀.toNat, ?_⟩
  unfold String.utf8EncodeChar
  rw [val_ofNat (by omega), if_pos h, UInt8.ofNat_toNat]

theorem exists_char_two (h : 0xC2 ≤ b₀.toNat) (h' : b₀.toNat < 0xE0) (h₁ : IsTail b₁.toNat) :
    ∃ c, String.utf8EncodeChar c = [b₀, b₁] := by
  obtain ⟨hlow₁, hhigh₁⟩ := h₁
  refine ⟨Char.ofNat ((b₀.toNat - 0xC0) * 64 + (b₁.toNat - 0x80)), ?_⟩
  unfold String.utf8EncodeChar
  rw [val_ofNat (by omega)]
  generalize hv : (b₀.toNat - 0xC0) * 64 + (b₁.toNat - 0x80) = v
  have hb₀ : v / 64 % 0x20 + 0xC0 = b₀.toNat := by omega
  have hb₁ : v % 0x40 + 0x80 = b₁.toNat := by omega
  simp only [if_neg (show ¬v ≤ 0x7F by omega), if_pos (show v ≤ 0x7FF by omega), hb₀, hb₁,
    UInt8.ofNat_toNat]

theorem exists_char_three (h : 0xE0 ≤ b₀.toNat) (h' : b₀.toNat < 0xF0) (h₁ : IsTail b₁.toNat)
    (hfirst : b₀.toNat = 0xE0 → 0xA0 ≤ b₁.toNat) (hlast : b₀.toNat = 0xED → b₁.toNat ≤ 0x9F)
    (h₂ : IsTail b₂.toNat) : ∃ c, String.utf8EncodeChar c = [b₀, b₁, b₂] := by
  obtain ⟨hlow₁, hhigh₁⟩ := h₁
  obtain ⟨hlow₂, hhigh₂⟩ := h₂
  refine ⟨Char.ofNat (((b₀.toNat - 0xE0) * 64 + (b₁.toNat - 0x80)) * 64 + (b₂.toNat - 0x80)), ?_⟩
  unfold String.utf8EncodeChar
  rw [val_ofNat (by omega)]
  generalize hv : ((b₀.toNat - 0xE0) * 64 + (b₁.toNat - 0x80)) * 64 + (b₂.toNat - 0x80) = v
  have hb₀ : v / 4096 % 0x10 + 0xE0 = b₀.toNat := by omega
  have hb₁ : v / 64 % 0x40 + 0x80 = b₁.toNat := by omega
  have hb₂ : v % 0x40 + 0x80 = b₂.toNat := by omega
  simp only [if_neg (show ¬v ≤ 0x7F by omega), if_neg (show ¬v ≤ 0x7FF by omega),
    if_pos (show v ≤ 0xFFFF by omega), hb₀, hb₁, hb₂, UInt8.ofNat_toNat]

theorem exists_char_four (h : 0xF0 ≤ b₀.toNat) (h' : b₀.toNat ≤ 0xF4) (h₁ : IsTail b₁.toNat)
    (hfirst : b₀.toNat = 0xF0 → 0x90 ≤ b₁.toNat) (hlast : b₀.toNat = 0xF4 → b₁.toNat ≤ 0x8F)
    (h₂ : IsTail b₂.toNat) (h₃ : IsTail b₃.toNat) :
    ∃ c, String.utf8EncodeChar c = [b₀, b₁, b₂, b₃] := by
  obtain ⟨hlow₁, hhigh₁⟩ := h₁
  obtain ⟨hlow₂, hhigh₂⟩ := h₂
  obtain ⟨hlow₃, hhigh₃⟩ := h₃
  refine ⟨Char.ofNat ((((b₀.toNat - 0xF0) * 64 + (b₁.toNat - 0x80)) * 64 + (b₂.toNat - 0x80)) * 64 +
    (b₃.toNat - 0x80)), ?_⟩
  unfold String.utf8EncodeChar
  rw [val_ofNat (by omega)]
  generalize hv : (((b₀.toNat - 0xF0) * 64 + (b₁.toNat - 0x80)) * 64 + (b₂.toNat - 0x80)) * 64 +
    (b₃.toNat - 0x80) = v
  have hb₀ : v / 262144 % 0x08 + 0xF0 = b₀.toNat := by omega
  have hb₁ : v / 4096 % 0x40 + 0x80 = b₁.toNat := by omega
  have hb₂ : v / 64 % 0x40 + 0x80 = b₂.toNat := by omega
  have hb₃ : v % 0x40 + 0x80 = b₃.toNat := by omega
  simp only [if_neg (show ¬v ≤ 0x7F by omega), if_neg (show ¬v ≤ 0x7FF by omega),
    if_neg (show ¬v ≤ 0xFFFF by omega), hb₀, hb₁, hb₂, hb₃, UInt8.ofNat_toNat]

end Sequences

/-! ## What begins a text -/

theorem lead_stray {n : Nat} (h : 0x7F < n) (h' : n < 0xC2 ∨ 0xF4 < n) : lead n = .stray := by
  unfold lead
  rw [if_neg (by omega)]
  rcases h' with h' | h'
  · rw [if_pos h']
  · rw [if_neg (by omega), if_neg (by omega), if_neg (by omega), if_neg (by omega),
      if_neg (by omega), if_neg (by omega), if_neg (by omega), if_neg (by omega)]

/-- Inside a sequence, the next byte is within the bounds. -/
theorem exists_of_scan_some (h : scan i (some p) bs = .ok cs) :
    ∃ b rest, bs = b :: rest ∧ p.low ≤ b.toNat ∧ b.toNat ≤ p.high ∧
      (1 < p.more → scan i (some (p.push b.toNat)) rest = .ok cs) := by
  cases bs with
  | nil => cases h
  | cons b rest =>
    by_cases hb : p.low ≤ b.toNat ∧ b.toNat ≤ p.high
    · refine ⟨b, rest, rfl, hb.1, hb.2, fun hmore => ?_⟩
      rwa [scan_more hb.1 hb.2 (by omega) (by omega)] at h
    · rw [scan, if_neg hb] at h
      cases h

/-- Narrower bounds, under whatever conditions, are those of a byte that can follow. -/
theorem isTail_of_le {n low high : Nat} {P Q : Prop} [Decidable P] [Decidable Q] (hl : 0x80 ≤ low)
    (hh : high ≤ 0xBF) (hlow : (if P then low else 0x80) ≤ n)
    (hhigh : n ≤ if Q then high else 0xBF) : IsTail n := by
  constructor
  · split at hlow <;> omega
  · split at hhigh <;> omega

/-- What is read begins with the bytes of a character. -/
theorem exists_char_of_scan (h : scan i none (b :: bs) = .ok cs) :
    ∃ c rest, b :: bs = String.utf8EncodeChar c ++ rest := by
  by_cases hone : b.toNat ≤ 0x7F
  · obtain ⟨c, hc⟩ := exists_char_one hone
    exact ⟨c, bs, by rw [hc]; rfl⟩
  by_cases hstray : b.toNat < 0xC2 ∨ 0xF4 < b.toNat
  · rw [scan, lead_stray (by omega) hstray] at h
    cases h
  by_cases htwo : b.toNat < 0xE0
  · rw [scan_opens (lead_two (by omega) htwo)] at h
    obtain ⟨b₁, rest, rfl, hlow, hhigh, -⟩ := exists_of_scan_some h
    obtain ⟨c, hc⟩ := exists_char_two (by omega) htwo ⟨hlow, hhigh⟩
    exact ⟨c, rest, by rw [hc]; rfl⟩
  by_cases hthree : b.toNat < 0xF0
  · rw [scan_opens (lead_three (by omega) hthree)] at h
    obtain ⟨b₁, bs, rfl, hlow₁, hhigh₁, h⟩ := exists_of_scan_some h
    obtain ⟨b₂, rest, rfl, hlow₂, hhigh₂, -⟩ := exists_of_scan_some (h (Nat.lt_succ_self 1))
    have hb₁ : IsTail b₁.toNat := isTail_of_le (by decide) (by decide) hlow₁ hhigh₁
    obtain ⟨c, hc⟩ := exists_char_three (by omega) hthree hb₁
      (fun hb => by simpa only [if_pos hb] using hlow₁)
      (fun hb => by simpa only [if_pos hb] using hhigh₁) ⟨hlow₂, hhigh₂⟩
    exact ⟨c, rest, by rw [hc]; rfl⟩
  · rw [scan_opens (lead_four (by omega) (by omega))] at h
    obtain ⟨b₁, bs, rfl, hlow₁, hhigh₁, h⟩ := exists_of_scan_some h
    obtain ⟨b₂, bs, rfl, hlow₂, hhigh₂, h⟩ := exists_of_scan_some (h (by simp))
    obtain ⟨b₃, rest, rfl, hlow₃, hhigh₃, -⟩ := exists_of_scan_some (h (Nat.lt_succ_self 1))
    have hb₁ : IsTail b₁.toNat := isTail_of_le (by decide) (by decide) hlow₁ hhigh₁
    obtain ⟨c, hc⟩ := exists_char_four (show 0xF0 ≤ b.toNat by omega) (by omega) hb₁
      (fun hb => by simpa only [if_pos hb] using hlow₁)
      (fun hb => by simpa only [if_pos hb] using hhigh₁) ⟨hlow₂, hhigh₂⟩ ⟨hlow₃, hhigh₃⟩
    exact ⟨c, rest, by rw [hc]; rfl⟩

/-- What is read as a text is what that text is written as. -/
theorem encode_of_scan {n : Nat} (hn : bs.length ≤ n) (h : scan i none bs = .ok cs) :
    encode cs = bs := by
  induction n generalizing i bs cs with
  | zero =>
    cases List.eq_nil_of_length_eq_zero (Nat.le_zero.mp hn)
    cases h
    rfl
  | succ n ih =>
    cases bs with
    | nil =>
      cases h
      rfl
    | cons b bs =>
      obtain ⟨c, rest, hbytes⟩ := exists_char_of_scan h
      have hrest : rest.length ≤ n := by
        have hlength := congrArg List.length hbytes
        have hpos := c.utf8Size_pos
        simp only [List.length_append, List.length_cons, String.length_utf8EncodeChar]
          at hlength hn
        omega
      rw [hbytes, scan_encodeChar] at h
      generalize hr : scan _ none rest = r at h
      cases r with
      | error fault => cases h
      | ok cs =>
        cases h
        rw [hbytes, encode, List.flatMap_cons, ← encode, ih hrest hr]

theorem encode_of_decode (h : decode bs = .ok cs) : encode cs = bs :=
  encode_of_scan (Nat.le_refl _) h

/-- Of a text that is cut in two, the second part is a text if the first one is. -/
theorem exists_of_decode_append {ps : List Char} (hp : decode bs = .ok ps)
    (h : decode (bs ++ rest) = .ok cs) : ∃ qs, encode qs = rest ∧ cs = ps ++ qs := by
  have hbs : bs = encode ps := (encode_of_decode hp).symm
  rw [hbs, decode, scan_encode_append] at h
  generalize hr : scan _ none rest = r at h
  cases r with
  | error fault => cases h
  | ok qs =>
    cases h
    exact ⟨qs, encode_of_scan (Nat.le_refl _) hr, rfl⟩

end SessionStore.Utf8
