import Mathlib.Order.Bounds.Defs
import SessionStore.Proofs.Text.Decoding

/-! # Bytes that are no text

Where bytes are refused, the fault says how long their longest beginning is that is a text, and
whether more bytes could have made the rest a text too.
-/

namespace SessionStore.Utf8

/-- The number of bytes before the fault. -/
def Fault.index : Fault → Nat
  | .invalid index _ => index
  | .incomplete index => index

/-- The end of input is to blame. -/
def Fault.IsIncomplete : Fault → Prop
  | .invalid _ _ => False
  | .incomplete _ => True

/-- The bytes of a text. -/
def IsText (bs : Bytes) : Prop := ∃ text : String, bs = text.toUTF8.data.toList

variable {i n : Nat} {o : Option Partial} {p : Partial} {b : UInt8} {bs : Bytes} {fault : Fault}

theorem map_eq_error {α β ε : Type} {f : α → β} {x : Except ε α} {why : ε} :
    x.map f = .error why ↔ x = .error why := by
  cases x <;> simp [Except.map]

/-! ## One byte -/

theorem scan_stray (h : lead b.toNat = .stray) :
    scan i none (b :: bs) = .error (.invalid i 1) := by
  rw [scan, h]

theorem scan_refused (h : ¬(p.low ≤ b.toNat ∧ b.toNat ≤ p.high)) :
    scan i (some p) (b :: bs) = .error (.invalid i p.seen) := by
  rw [scan, if_neg h]

theorem scan_push (h : p.low ≤ b.toNat ∧ b.toNat ≤ p.high) (hmore : (p.push b.toNat).more ≠ 0) :
    scan i (some p) (b :: bs) = scan i (some (p.push b.toNat)) bs := by
  rw [scan, if_pos h]
  simp only [if_neg hmore]

theorem scan_complete (h : p.low ≤ b.toNat ∧ b.toNat ≤ p.high)
    (hmore : (p.push b.toNat).more = 0) :
    scan i (some p) (b :: bs) = (scan (i + (p.push b.toNat).seen) none bs).map
      (Char.ofNat (p.push b.toNat).value :: ·) := by
  rw [scan, if_pos h]
  simp only [if_pos hmore]

/-- A sequence that can be completed. -/
structure Partial.IsOpen (p : Partial) : Prop where
  more_pos : 0 < p.more
  low_le : p.low ≤ p.high
  low_lt : p.low < 256

theorem Partial.IsOpen.push (hmore : (p.push n).more ≠ 0) : (p.push n).IsOpen where
  more_pos := Nat.pos_of_ne_zero hmore
  low_le := (by decide : 0x80 ≤ 0xBF)
  low_lt := (by decide : 0x80 < 256)

/-- What the first byte opens has one byte so far, and more to come. -/
theorem isOpen_of_lead (h : lead n = .opens p) : p.IsOpen ∧ p.seen = 1 := by
  unfold lead at h
  repeat' split at h
  all_goals
    cases h
    try exact ⟨⟨by simp, by simp, by simp⟩, rfl⟩

/-! ## All bytes -/

/-- Bytes to come cannot mend what is invalid already. -/
theorem scan_append_of_invalid {length : Nat} (h : scan i o bs = .error (.invalid n length))
    (more : Bytes) : scan i o (bs ++ more) = .error (.invalid n length) := by
  fun_induction scan i o bs with
  | case1 i => cases h
  | case2 i p => cases h
  | case3 i b bs c hlead ih =>
    rw [List.cons_append, scan_char hlead, ih (map_eq_error.mp h)]
    rfl
  | case4 i b bs p hlead ih => rw [List.cons_append, scan_opens hlead, ih h]
  | case5 i b bs hlead => rw [List.cons_append, scan_stray hlead, h]
  | case6 i p b bs htakes q hmore ih =>
    rw [List.cons_append, scan_complete htakes hmore, ih (map_eq_error.mp h)]
    rfl
  | case7 i p b bs htakes q hmore ih => rw [List.cons_append, scan_push htakes hmore, ih h]
  | case8 i p b bs hrefused => rw [List.cons_append, scan_refused hrefused, h]

/-- A fault is never found before the place from which bytes are read. -/
theorem le_index (h : scan i o bs = .error fault) : i ≤ fault.index := by
  fun_induction scan i o bs with
  | case1 i => cases h
  | case3 i b bs c hlead ih => exact Nat.le_of_succ_le (ih (map_eq_error.mp h))
  | case4 i b bs p hlead ih | case7 i p b bs htakes q hmore ih => exact ih h
  | case6 i p b bs htakes q hmore ih => exact Nat.le_of_add_right_le (ih (map_eq_error.mp h))
  | case2 | case5 | case8 =>
    cases h
    exact Nat.le_refl _

/-- How many bytes have been read of the sequence. -/
def pending (o : Option Partial) : Nat := o.elim 0 Partial.seen

/-- What stands before the fault can be read, unless the fault is in the sequence that is being
read. -/
theorem exists_scan_take (h : scan i o bs = .error fault) : fault.index = i ∨
    ∃ n cs, fault.index = i + pending o + n ∧ scan i o (bs.take n) = .ok cs := by
  have hfresh : ∀ {i} {bs : Bytes}, (fault.index = i ∨ ∃ n cs,
      fault.index = i + pending none + n ∧ scan i none (bs.take n) = .ok cs) →
      ∃ n cs, fault.index = i + n ∧ scan i none (bs.take n) = .ok cs := by
    rintro i bs (heq | hread)
    · exact ⟨0, [], heq, rfl⟩
    · exact hread
  fun_induction scan i o bs with
  | case1 i => cases h
  | case3 i b bs c hlead ih =>
    obtain ⟨n, cs, hn, hcs⟩ := hfresh (ih (map_eq_error.mp h))
    refine .inr ⟨n + 1, c :: cs, by simp only [pending, Option.elim]; omega, ?_⟩
    rw [List.take_succ_cons, scan_char hlead, hcs]
    rfl
  | case4 i b bs p hlead ih =>
    have hseen : p.seen = 1 := (isOpen_of_lead hlead).2
    rcases ih h with heq | ⟨n, cs, hn, hcs⟩
    · exact .inl heq
    · refine .inr ⟨n + 1, cs, ?_, ?_⟩
      · simp only [pending, Option.elim, hseen] at hn ⊢
        omega
      · rw [List.take_succ_cons, scan_opens hlead, hcs]
  | case6 i p b bs htakes q hmore ih =>
    obtain ⟨n, cs, hn, hcs⟩ := hfresh (ih (map_eq_error.mp h))
    refine .inr ⟨n + 1, Char.ofNat q.value :: cs, ?_, ?_⟩
    · have hseen : q.seen = p.seen + 1 := rfl
      simp only [pending, Option.elim]
      omega
    · rw [List.take_succ_cons, scan_complete htakes hmore, hcs]
      rfl
  | case7 i p b bs htakes q hmore ih =>
    rcases ih h with heq | ⟨n, cs, hn, hcs⟩
    · exact .inl heq
    · refine .inr ⟨n + 1, cs, ?_, ?_⟩
      · have hseen : q.seen = p.seen + 1 := rfl
        simp only [pending, Option.elim] at hn ⊢
        omega
      · rw [List.take_succ_cons, scan_push htakes hmore, hcs]
  | case2 | case5 | case8 =>
    cases h
    exact .inl rfl

/-! ## Completion -/

/-- What is open can be completed. -/
theorem exists_completion {k : Nat} (hk : p.more = k) (hp : p.IsOpen) (i : Nat) :
    ∃ more cs, scan i (some p) more = .ok cs := by
  induction k generalizing p with
  | zero => exact absurd hk (Nat.ne_of_gt hp.more_pos)
  | succ k ih =>
    have hlow : (UInt8.ofNat p.low).toNat = p.low := toNat_ofNat_of_lt hp.low_lt
    have htakes : p.low ≤ (UInt8.ofNat p.low).toNat ∧ (UInt8.ofNat p.low).toNat ≤ p.high := by
      rw [hlow]
      exact ⟨Nat.le_refl _, hp.low_le⟩
    by_cases hmore : (p.push (UInt8.ofNat p.low).toNat).more = 0
    · exact ⟨[UInt8.ofNat p.low], _, scan_complete htakes hmore⟩
    · have hleft : (p.push (UInt8.ofNat p.low).toNat).more = k := by
        rw [Partial.push, hk]
        rfl
      obtain ⟨more, cs, hcs⟩ := ih hleft (.push hmore)
      exact ⟨UInt8.ofNat p.low :: more, cs, (scan_push htakes hmore).trans hcs⟩

/-- Where the end of input is to blame, there are bytes that would have made a text. -/
theorem exists_completion_of_incomplete (ho : ∀ p, o = some p → p.IsOpen)
    (h : scan i o bs = .error (.incomplete n)) : ∃ more cs, scan i o (bs ++ more) = .ok cs := by
  fun_induction scan i o bs with
  | case1 i => cases h
  | case2 i p => exact exists_completion rfl (ho p rfl) i
  | case3 i b bs c hlead ih =>
    obtain ⟨more, cs, hcs⟩ := ih (by simp) (map_eq_error.mp h)
    exact ⟨more, c :: cs, by rw [List.cons_append, scan_char hlead, hcs]; rfl⟩
  | case4 i b bs p hlead ih =>
    obtain ⟨more, cs, hcs⟩ := ih (fun q hq => Option.some_inj.mp hq ▸ (isOpen_of_lead hlead).1) h
    exact ⟨more, cs, by rw [List.cons_append, scan_opens hlead, hcs]⟩
  | case5 i b bs hlead => cases h
  | case6 i p b bs htakes q hmore ih =>
    obtain ⟨more, cs, hcs⟩ := ih (by simp) (map_eq_error.mp h)
    exact ⟨more, _, by rw [List.cons_append, scan_complete htakes hmore, hcs]; rfl⟩
  | case7 i p b bs htakes q hmore ih =>
    obtain ⟨more, cs, hcs⟩ := ih (fun r hr => Option.some_inj.mp hr ▸ .push hmore) h
    exact ⟨more, cs, by rw [List.cons_append, scan_push htakes hmore, hcs]⟩
  | case8 i p b bs hrefused => cases h

/-! ## Texts -/

theorem encodeText_eq (text : String) : encodeText text = text.toUTF8.data.toList := by
  have hbytes : text.toUTF8 = (text.toList.flatMap String.utf8EncodeChar).toByteArray :=
    String.utf8Encode_toList.symm
  rw [hbytes, List.toList_data_toByteArray]
  rfl

theorem isText_iff : IsText bs ↔ ∃ cs, encode cs = bs := by
  constructor
  · rintro ⟨text, rfl⟩
    exact ⟨text.toList, encodeText_eq text⟩
  · rintro ⟨cs, rfl⟩
    refine ⟨String.ofList cs, ?_⟩
    rw [← encodeText_eq, encodeText, String.toList_ofList]

theorem decodeText_eq_ok_iff {text : String} :
    decodeText bs = .ok text ↔ bs = text.toUTF8.data.toList := by
  rw [← encodeText_eq, decodeText]
  constructor
  · intro h
    rcases hdecode : decode bs with fault | cs
    · rw [hdecode] at h
      cases h
    · rw [hdecode] at h
      cases h
      rw [encodeText, String.toList_ofList, encode_of_decode hdecode]
  · rintro rfl
    rw [encodeText, decode_encode, Except.map, String.ofList_toList]

theorem decodeText_eq_error_iff : decodeText bs = .error fault ↔ decode bs = .error fault :=
  map_eq_error

/-- The fault lies behind the longest beginning that is a text, and is that of an incomplete text if
and only if more bytes could have made the rest a text. -/
structure IsBrokenAt (bs : Bytes) (fault : Fault) : Prop where
  isGreatest : IsGreatest {n | n ≤ bs.length ∧ IsText (bs.take n)} fault.index
  incomplete_iff : fault.IsIncomplete ↔ ∃ more, IsText (bs.drop fault.index ++ more)

theorem isBrokenAt_of_decode (h : decode bs = .error fault) : IsBrokenAt bs fault := by
  obtain ⟨cs, hcs⟩ : ∃ cs, encode cs = bs.take fault.index := by
    rcases exists_scan_take h with heq | ⟨n, cs, hn, hcs⟩
    · exact ⟨[], by rw [heq]; rfl⟩
    · obtain rfl : fault.index = n := by simpa [pending] using hn
      exact ⟨cs, encode_of_decode hcs⟩
  have hsplit : bs = encode cs ++ bs.drop fault.index := by rw [hcs, List.take_append_drop]
  have hlength : fault.index ≤ bs.length := by
    refine Nat.le_of_not_lt fun hlt => ?_
    have hall : encode cs = bs := hcs.trans (List.take_of_length_le (Nat.le_of_lt hlt))
    rw [← hall, decode_encode] at h
    cases h
  refine ⟨⟨⟨hlength, isText_iff.mpr ⟨cs, hcs⟩⟩, ?_⟩, fun hincomplete => ?_, ?_⟩
  · rintro n ⟨hn, htext⟩
    obtain ⟨ds, hds⟩ := isText_iff.mp htext
    have hds' : bs = encode ds ++ bs.drop n := by rw [hds, List.take_append_drop]
    rw [hds', decode, scan_encode_append, map_eq_error] at h
    have hle := le_index h
    rwa [hds, List.length_take_of_le hn, Nat.zero_add] at hle
  · cases fault with
    | invalid n length => exact hincomplete.elim
    | incomplete n =>
      obtain ⟨more, ds, hds⟩ := exists_completion_of_incomplete (o := none) (by simp) h
      rw [hsplit, List.append_assoc] at hds
      obtain ⟨qs, hqs, -⟩ := exists_of_decode_append (decode_encode cs) hds
      exact ⟨more, isText_iff.mpr ⟨qs, hqs⟩⟩
  · rintro ⟨more, htext⟩
    obtain ⟨qs, hqs⟩ := isText_iff.mp htext
    cases fault with
    | incomplete n => trivial
    | invalid n length =>
      have hall : bs ++ more = encode (cs ++ qs) := by
        rw [hsplit, List.append_assoc, ← hqs, encode, encode, encode, List.flatMap_append]
      have hread := scan_append_of_invalid h more
      rw [hall, scan_encode] at hread
      cases hread

end SessionStore.Utf8
