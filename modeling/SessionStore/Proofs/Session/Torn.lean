import SessionStore.Proofs.Json.Torn
import SessionStore.Proofs.Session.RoundTrip
import SessionStore.Proofs.Text.Decoding

/-! # Torn and padded contents

Contents that were written only in part, or that something else follows, are no session data. Only
blanks may follow, and they say nothing.
-/

namespace SessionStore

/-- A space, a tab or the end of a line. -/
def IsBlankByte (b : UInt8) : Prop := b = 0x20 ∨ b = 0x09 ∨ b = 0x0A ∨ b = 0x0D

namespace Json

variable {limit : Nat} {l : Layout} {fs : List (String × Json)} {p q bs : Bytes} {cs : List Char}

/-- Blank text has blank bytes. -/
theorem isBlankByte_of_mem_encode (h : ∀ c ∈ cs, Token.isBlank c) {b : UInt8}
    (hb : b ∈ Utf8.encode cs) : IsBlankByte b := by
  obtain ⟨c, hc, hb⟩ := List.mem_flatMap.mp hb
  have hblank := h c hc
  simp only [Token.isBlank, Bool.or_eq_true, beq_iff_eq, or_assoc] at hblank
  rcases hblank with rfl | rfl | rfl | rfl
  · exact .inl (List.mem_singleton.mp hb)
  · exact .inr (.inl (List.mem_singleton.mp hb))
  · exact .inr (.inr (.inl (List.mem_singleton.mp hb)))
  · exact .inr (.inr (.inr (List.mem_singleton.mp hb)))

/-- Blank bytes are blank text. -/
theorem exists_blank_text (h : ∀ b ∈ bs, IsBlankByte b) :
    ∃ cs, Utf8.encode cs = bs ∧ ∀ c ∈ cs, Token.isBlank c := by
  induction bs with
  | nil => exact ⟨[], rfl, nofun⟩
  | cons b bs ih =>
    obtain ⟨hb, hbs⟩ := List.forall_mem_cons.mp h
    obtain ⟨cs, rfl, hcs⟩ := ih hbs
    obtain ⟨c, hc, hblank⟩ : ∃ c, String.utf8EncodeChar c = [b] ∧ Token.isBlank c := by
      rcases hb with rfl | rfl | rfl | rfl
      · exact ⟨' ', rfl, rfl⟩
      · exact ⟨'\t', rfl, rfl⟩
      · exact ⟨'\n', rfl, rfl⟩
      · exact ⟨'\r', rfl, rfl⟩
    refine ⟨c :: cs, ?_, List.forall_mem_cons.mpr ⟨hblank, hcs⟩⟩
    rw [Utf8.encode, List.flatMap_cons, hc]
    rfl

theorem ofBytes?_torn (h : (Json.obj fs).Every IsExact)
    (hpq : p ++ q = Utf8.encode (write l 0 (.obj fs))) (hq : q ≠ []) (gs : List (String × Json)) :
    ofBytes? limit p ≠ some (.obj gs) := by
  unfold ofBytes?
  cases hp : Utf8.decode p with
  | error fault => nofun
  | ok ps =>
    obtain ⟨qs, rfl, hcs⟩ := Utf8.exists_of_decode_append hp
      ((congrArg Utf8.decode hpq).trans (Utf8.decode_encode _))
    refine ofChars?_torn h hcs.symm ?_ gs
    rintro rfl
    exact hq rfl

theorem ofBytes?_spoiled (h : EveryField IsExact fs) {b : UInt8} (hb : b ∈ q)
    (hblank : ¬IsBlankByte b) :
    ofBytes? limit (Utf8.encode (write l 0 (.obj fs)) ++ q) = none := by
  unfold ofBytes?
  cases hdecode : Utf8.decode (Utf8.encode (write l 0 (.obj fs)) ++ q) with
  | error fault => rfl
  | ok cs =>
    obtain ⟨qs, rfl, rfl⟩ := Utf8.exists_of_decode_append (Utf8.decode_encode _) hdecode
    exact ofChars?_spoiled h fun hqs => hblank (isBlankByte_of_mem_encode hqs hb)

theorem ofBytes?_padded (h : EveryField IsExact fs) (hq : ∀ b ∈ q, IsBlankByte b) :
    ofBytes? limit (Utf8.encode (write l 0 (.obj fs)) ++ q) =
      ofBytes? limit (Utf8.encode (write l 0 (.obj fs))) := by
  obtain ⟨qs, rfl, hqs⟩ := exists_blank_text hq
  have happend : Utf8.encode (write l 0 (.obj fs)) ++ Utf8.encode qs =
      Utf8.encode (write l 0 (.obj fs) ++ qs) := List.flatMap_append.symm
  rw [happend, ofBytes?, ofBytes?, Utf8.decode_encode, Utf8.decode_encode]
  exact ofChars?_padded h hqs

end Json

namespace Encoder

variable {d : SessionData} {bs : Bytes}

theorem decodeJson_malformed (h : ∀ fs, Json.ofBytes? depthLimit bs ≠ some (.obj fs)) :
    decodeJson bs = .error (.deserialization .malformed) := by
  have hnone : (Json.ofBytes? depthLimit bs).bind SessionData.ofJson? = none := by
    rw [Option.bind_eq_none_iff]
    intro v hv
    cases v with
    | obj fs => exact absurd hv (h fs)
    | _ => rfl
  rw [decodeJson, hnone]

/-- In whatever order the entries of session data were written, no proper part from the start of the
contents is decoded, nor are the contents with bytes behind them that are not all blank; and blanks
behind them change nothing. -/
theorem decode_torn_or_padded (writer reader : Json.Layout) (hd : d.IsExact) :
    (ofLayout writer).encode d = .ok (encodeEntries writer d.toList) ∧
    ∀ es : List (String × Json), es.Perm d.toList →
      (∀ part rest : Bytes, part ++ rest = encodeEntries writer es → rest ≠ [] →
        (ofLayout reader).decode part = .error (.deserialization .malformed)) ∧
      ∀ extra : Bytes,
        ((∃ b ∈ extra, ¬IsBlankByte b) →
          (ofLayout reader).decode (encodeEntries writer es ++ extra) =
            .error (.deserialization .malformed)) ∧
        ((∀ b ∈ extra, IsBlankByte b) →
          (ofLayout reader).decode (encodeEntries writer es ++ extra) =
            (ofLayout reader).decode (encodeEntries writer es)) := by
  simp only [decode_ofLayout]
  refine ⟨encode_ofLayout writer d, fun es hes => ?_⟩
  have hexact := (hd.of_perm hes).1
  refine ⟨fun part rest hcut hrest => ?_, fun extra => ⟨?_, fun hblank => ?_⟩⟩
  · refine decodeJson_malformed (Json.ofBytes?_torn ?_ hcut hrest)
    unfold Json.Every
    exact ⟨trivial, hexact⟩
  · rintro ⟨b, hb, hblank⟩
    refine decodeJson_malformed fun fs => ?_
    rw [encodeEntries, Json.ofBytes?_spoiled hexact hb hblank]
    exact (Option.some_ne_none _).symm
  · rw [decodeJson, decodeJson, encodeEntries, Json.ofBytes?_padded hexact hblank]

/-- Indented extremes cut before their last bracket, cut down to nothing, with a null byte behind
them, and with an empty line. -/
theorem decode_torn_or_padded_extremes :
    let bytes := encodeEntries .indented (extremes 1).toList
    (extremes 1).IsExact ∧ prettyJson.encode (extremes 1) = .ok bytes ∧
      bytes.getLast? = some 0x7D ∧
      json.decode bytes.dropLast = .error (.deserialization .malformed) ∧
      json.decode [] = .error (.deserialization .malformed) ∧
      json.decode (bytes ++ [0x0A, 0x00]) = .error (.deserialization .malformed) ∧
      json.decode (bytes ++ [0x0D, 0x0A]) = json.decode bytes := by
  intro bytes
  obtain ⟨hencode, hread⟩ := decode_torn_or_padded .indented .compact (isExact_extremes 1)
  obtain ⟨htorn, hextra⟩ := hread _ (.refl _)
  have hlast : bytes.getLast? = some 0x7D := by decide
  have hne : bytes ≠ [] := by
    intro h
    rw [h] at hlast
    cases hlast
  refine ⟨isExact_extremes 1, hencode, hlast, ?_, ?_, ?_, ?_⟩
  · exact htorn bytes.dropLast _ (List.dropLast_concat_getLast hne) (List.cons_ne_nil _ _)
  · exact htorn [] bytes rfl hne
  · exact (hextra _).1 ⟨0x00, by simp, by simp [IsBlankByte]⟩
  · refine (hextra _).2 fun b hb => ?_
    simp only [List.mem_cons, List.not_mem_nil, or_false] at hb
    rcases hb with rfl | rfl <;> simp [IsBlankByte]

end Encoder

end SessionStore
