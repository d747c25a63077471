import SessionStore.Text.Utf8

/-! # Texts survive as bytes

What `encode` writes, `decode` reads back as the same characters. The reader of bytes is followed
through one character at a time.
-/

namespace SessionStore.Utf8

variable {i : Nat} {p : Partial} {b : UInt8} {bs : Bytes}

theorem scan_char {c : Char} (h : lead b.toNat = .char c) :
    scan i none (b :: bs) = (scan (i + 1) none bs).map (c :: ·) := by
  rw [scan, h]

theorem scan_opens (h : lead b.toNat = .opens p) :
    scan i none (b :: bs) = scan i (some p) bs := by
  rw [scan, h]

theorem scan_more (hlow : p.low ≤ b.toNat) (hhigh : b.toNat ≤ p.high) (h : p.more ≠ 1)
    (h₀ : p.more ≠ 0) : scan i (some p) (b :: bs) = scan i (some (p.push b.toNat)) bs := by
  have hmore : (p.push b.toNat).more ≠ 0 := by
    simp only [Partial.push]
    omega
  rw [scan, if_pos ⟨hlow, hhigh⟩]
  simp only [if_neg hmore]

theorem scan_last (hlow : p.low ≤ b.toNat) (hhigh : b.toNat ≤ p.high) (h : p.more = 1) :
    scan i (some p) (b :: bs) = (scan (i + (p.seen + 1)) none bs).map
      (Char.ofNat (p.value * 64 + (b.toNat - 0x80)) :: ·) := by
  have hmore : (p.push b.toNat).more = 0 := by
    simp only [Partial.push]
    omega
  rw [scan, if_pos ⟨hlow, hhigh⟩]
  simp only [if_pos hmore]
  rfl

/-! ## First bytes -/

theorem lead_one {n : Nat} (h : n ≤ 0x7F) : lead n = .char (Char.ofNat n) := by
  unfold lead
  rw [if_pos (by omega)]

theorem lead_two {n : Nat} (h : 0xC2 ≤ n) (h' : n < 0xE0) :
    lead n = .opens ⟨1, 0x80, 0xBF, n - 0xC0, 1⟩ := by
  unfold lead
  rw [if_neg (by omega), if_neg (by omega), if_pos h']

theorem lead_three {n : Nat} (h : 0xE0 ≤ n) (h' : n < 0xF0) :
    lead n = .opens ⟨2, if n = 0xE0 then 0xA0 else 0x80, if n = 0xED then 0x9F else 0xBF,
      n - 0xE0, 1⟩ := by
  unfold lead
  rw [if_neg (by omega), if_neg (by omega), if_neg (by omega)]
  by_cases hfirst : n = 0xE0
  · subst hfirst
    rfl
  by_cases hlast : n = 0xED
  · subst hlast
    rfl
  simp only [if_neg hfirst, if_neg hlast, if_pos h']

theorem lead_four {n : Nat} (h : 0xF0 ≤ n) (h' : n ≤ 0xF4) :
    lead n = .opens ⟨3, if n = 0xF0 then 0x90 else 0x80, if n = 0xF4 then 0x8F else 0xBF,
      n - 0xF0, 1⟩ := by
  unfold lead
  rw [if_neg (by omega), if_neg (by omega), if_neg (by omega), if_neg (by omega),
    if_neg (by omega), if_neg (by omega)]
  by_cases hfirst : n = 0xF0
  · subst hfirst
    rfl
  by_cases hlast : n = 0xF4
  · subst hlast
    rfl
  simp only [if_neg hfirst, if_neg hlast, if_pos (show n < 0xF4 by omega)]

/-! ## Whole sequences -/

theorem toNat_ofNat_of_lt {n : Nat} (h : n < 256) : (UInt8.ofNat n).toNat = n :=
  UInt8.toNat_ofNat'.trans (Nat.mod_eq_of_lt h)

/-- A byte that can follow the first of a sequence. -/
def IsTail (n : Nat) : Prop := 0x80 ≤ n ∧ n ≤ 0xBF

section Sequences

variable {k m n o : Nat}

theorem scan_one (h : k ≤ 0x7F) : scan i none (UInt8.ofNat k :: bs) =
    (scan (i + 1) none bs).map (Char.ofNat k :: ·) := by
  have hk : (UInt8.ofNat k).toNat = k := toNat_ofNat_of_lt (by omega)
  exact scan_char (by rw [hk, lead_one h])

theorem scan_two (h : 0xC2 ≤ k) (h' : k < 0xE0) (hm : IsTail m) :
    scan i none (UInt8.ofNat k :: UInt8.ofNat m :: bs) =
      (scan (i + 2) none bs).map (Char.ofNat ((k - 0xC0) * 64 + (m - 0x80)) :: ·) := by
  obtain ⟨hm₁, hm₂⟩ := hm
  have hk : (UInt8.ofNat k).toNat = k := toNat_ofNat_of_lt (by omega)
  have hm : (UInt8.ofNat m).toNat = m := toNat_ofNat_of_lt (by omega)
  have hlead := (congrArg lead hk).trans (lead_two h h')
  rw [scan_opens hlead, scan_last (by simpa only [hm]) (by simpa only [hm]) rfl, hm]

theorem scan_three (h : 0xE0 ≤ k) (h' : k < 0xF0) (hm : IsTail m) (hfirst : k = 0xE0 → 0xA0 ≤ m)
    (hlast : k = 0xED → m ≤ 0x9F) (hn : IsTail n) :
    scan i none (UInt8.ofNat k :: UInt8.ofNat m :: UInt8.ofNat n :: bs) =
      (scan (i + 3) none bs).map
        (Char.ofNat (((k - 0xE0) * 64 + (m - 0x80)) * 64 + (n - 0x80)) :: ·) := by
  obtain ⟨hm₁, hm₂⟩ := hm
  obtain ⟨hn₁, hn₂⟩ := hn
  have hk : (UInt8.ofNat k).toNat = k := toNat_ofNat_of_lt (by omega)
  have hm : (UInt8.ofNat m).toNat = m := toNat_ofNat_of_lt (by omega)
  have hn : (UInt8.ofNat n).toNat = n := toNat_ofNat_of_lt (by omega)
  have hlead := (congrArg lead hk).trans (lead_three h h')
  rw [scan_opens hlead, scan_more (by simp only [hm]; split <;> omega)
    (by simp only [hm]; split <;> omega) (by simp) (by simp), hm, Partial.push,
    scan_last (by simpa only [hn]) (by simpa only [hn]) rfl, hn]

theorem scan_four (h : 0xF0 ≤ k) (h' : k ≤ 0xF4) (hm : IsTail m) (hfirst : k = 0xF0 → 0x90 ≤ m)
    (hlast : k = 0xF4 → m ≤ 0x8F) (hn : IsTail n) (ho : IsTail o) :
    scan i none (UInt8.ofNat k :: UInt8.ofNat m :: UInt8.ofNat n :: UInt8.ofNat o :: bs) =
      (scan (i + 4) none bs).map (Char.ofNat
        ((((k - 0xF0) * 64 + (m - 0x80)) * 64 + (n - 0x80)) * 64 + (o - 0x80)) :: ·) := by
  obtain ⟨hm₁, hm₂⟩ := hm
  obtain ⟨hn₁, hn₂⟩ := hn
  obtain ⟨ho₁, ho₂⟩ := ho
  have hk : (UInt8.ofNat k).toNat = k := toNat_ofNat_of_lt (by omega)
  have hm : (UInt8.ofNat m).toNat = m := toNat_ofNat_of_lt (by omega)
  have hn : (UInt8.ofNat n).toNat = n := toNat_ofNat_of_lt (by omega)
  have ho : (UInt8.ofNat o).toNat = o := toNat_ofNat_of_lt (by omega)
  have hlead := (congrArg lead hk).trans (lead_four h h')
  rw [scan_opens hlead, scan_more (by simp only [hm]; split <;> omega)
    (by simp only [hm]; split <;> omega) (by simp) (by simp), hm, Partial.push,
    scan_more (by simpa only [hn]) (by simpa only [hn]) (by simp) (by simp), hn, Partial.push,
    scan_last (by simpa only [ho]) (by simpa only [ho]) rfl, ho]

end Sequences

/-! ## Characters -/

/-- The code points that are characters. -/
theorem valid_toNat (c : Char) : c.val.toNat < 0xD800 ∨ 0xDFFF < c.val.toNat ∧
    c.val.toNat < 0x110000 := c.valid

/-- The bytes of a character are read as that character. -/
theorem scan_encodeChar (i : Nat) (c : Char) (bs : Bytes) :
    scan i none (String.utf8EncodeChar c ++ bs) =
      (scan (i + (String.utf8EncodeChar c).length) none bs).map (c :: ·) := by
  have hvalid := valid_toNat c
  have hc : Char.ofNat c.val.toNat = c := Char.ofNat_toNat c
  unfold String.utf8EncodeChar
  generalize c.val.toNat = v at hvalid hc
  have htail : ∀ x, IsTail (x % 0x40 + 0x80) := by
    intro x
    constructor <;> omega
  by_cases h₁ : v ≤ 0x7F
  · rw [if_pos h₁, List.singleton_append, scan_one h₁, hc]
    rfl
  by_cases h₂ : v ≤ 0x7FF
  · have hvalue : (v / 64 % 0x20 + 0xC0 - 0xC0) * 64 + (v % 0x40 + 0x80 - 0x80) = v := by omega
    rw [if_neg h₁, if_pos h₂, List.cons_append, List.singleton_append,
      scan_two (by omega) (by omega) (htail v), hvalue, hc]
    rfl
  by_cases h₃ : v ≤ 0xFFFF
  · have hvalue : ((v / 4096 % 0x10 + 0xE0 - 0xE0) * 64 + (v / 64 % 0x40 + 0x80 - 0x80)) * 64 +
        (v % 0x40 + 0x80 - 0x80) = v := by omega
    rw [if_neg h₁, if_neg h₂, if_pos h₃, List.cons_append, List.cons_append,
      List.singleton_append, scan_three (by omega) (by omega) (htail _) (by omega) (by omega)
      (htail v), hvalue, hc]
    rfl
  · have hvalue : (((v / 262144 % 0x08 + 0xF0 - 0xF0) * 64 + (v / 4096 % 0x40 + 0x80 - 0x80)) * 64 +
        (v / 64 % 0x40 + 0x80 - 0x80)) * 64 + (v % 0x40 + 0x80 - 0x80) = v := by omega
    rw [if_neg h₁, if_neg h₂, if_neg h₃, List.cons_append, List.cons_append, List.cons_append,
      List.singleton_append, scan_four (by omega) (by omega) (htail _) (by omega) (by omega)
      (htail _) (htail v), hvalue, hc]
    rfl

theorem scan_encode (i : Nat) (cs : List Char) : scan i none (encode cs) = .ok cs := by
  induction cs generalizing i with
  | nil => rfl
  | cons c cs ih =>
    rw [encode, List.flatMap_cons, scan_encodeChar, ← encode, ih]
    rfl

theorem decode_encode (cs : List Char) : decode (encode cs) = .ok cs := scan_encode 0 cs

end SessionStore.Utf8
