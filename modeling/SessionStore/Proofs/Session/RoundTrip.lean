import SessionStore.Proofs.Json.Accepted
import SessionStore.Proofs.Session.Encoding

/-! # Encoding and decoding are inverse

Either encoder reads what either of them writes, as long as the data are nested no deeper than the
limit. Whatever is decoded keeps to the limit, so decoded data without doubles survive being written
and read again.
-/

namespace SessionStore

namespace SessionData

variable {d : SessionData} {key : String} {v : Json}

def HasNoDouble (d : SessionData) : Prop :=
  ∀ (key : String) (v : Json), d[key]? = some v → v.Every Json.IsWhole

/-- What is in the map of an object's fields is a field of that object. -/
theorem mem_of_ofFields {fs : List (String × Json)} (h : (ofFields fs)[key]? = some v) :
    (key, v) ∈ fs := by
  have hfold : ∀ (fs : List (String × Json)) (d : SessionData),
      (fs.foldl (fun d e => d.insert e.1 e.2) d)[key]? = some v →
        (key, v) ∈ fs ∨ d[key]? = some v := by
    intro fs
    induction fs with
    | nil => exact fun d hd => .inr hd
    | cons e fs ih =>
      intro d hd
      rcases ih (d.insert e.1 e.2) hd with hmem | hin
      · exact .inl (List.mem_cons_of_mem _ hmem)
      · rw [Std.ExtTreeMap.getElem?_insert] at hin
        split at hin
        case isTrue heq =>
          obtain rfl := Std.LawfulEqCmp.eq_of_compare heq
          cases hin
          exact .inl List.mem_cons_self
        case isFalse => exact .inr hin
  rcases hfold fs ∅ h with hmem | hempty
  · exact hmem
  · simp at hempty

theorem depth_le_succ {n : Nat} (h : ∀ (key : String) (v : Json), d[key]? = some v → v.depth ≤ n) :
    d.depth ≤ n + 1 := by
  rw [depth, toJson, Json.depth]
  refine Nat.succ_le_succ (Json.depthFields_le_iff.mpr ?_)
  rintro ⟨key, v⟩ hmem
  exact h key v (Std.ExtTreeMap.mem_toList_iff_getElem?_eq_some.mp hmem)

/-- Proper data without doubles are exact. -/
theorem isExact_of_proper
    (hp : ∀ (key : String) (v : Json), d[key]? = some v → v.Every Json.IsProper)
    (hw : d.HasNoDouble) : d.IsExact := by
  intro key v hv
  constructor
  · exact Json.Every.imp₂ Json.isExact_of_isProper (hp key v hv) (hw key v hv)
  · exact Json.Every.imp₂ Json.isSorted_of_isProper (hp key v hv) (hw key v hv)

end SessionData

namespace Encoder

variable {d : SessionData} {bs : Bytes}

/-- The encoder that writes that layout. -/
def ofLayout : Json.Layout → Encoder
  | .compact => json
  | .indented => prettyJson

theorem encode_ofLayout (l : Json.Layout) (d : SessionData) :
    (ofLayout l).encode d = .ok (encodeEntries l d.toList) := by
  cases l <;> rfl

theorem decode_ofLayout (l : Json.Layout) (bs : Bytes) :
    (ofLayout l).decode bs = decodeJson bs := by
  cases l <;> rfl

/-- What is decoded is not nested too deep, and its values are proper. -/
theorem proper_of_decodeJson (h : decodeJson bs = .ok d) :
    d.depth ≤ depthLimit ∧
      ∀ (key : String) (v : Json), d[key]? = some v → v.Every Json.IsProper := by
  have hread : (Json.ofBytes? depthLimit bs).bind SessionData.ofJson? = some d := by
    unfold decodeJson at h
    split at h
    case h_1 d' hd' =>
      cases h
      exact hd'
    case h_2 => cases h
  obtain ⟨v, hv, hd⟩ := Option.bind_eq_some_iff.mp hread
  obtain ⟨hdepth, hproper⟩ := Json.fits_of_ofBytes? hv
  cases v with
  | obj fs =>
    cases hd
    unfold Json.Every at hproper
    rw [Nat.zero_add, Json.depth, depthLimit, Nat.succ_le_succ_iff, Json.depthFields_le_iff]
      at hdepth
    constructor
    · exact SessionData.depth_le_succ fun key v hv =>
        hdepth (key, v) (SessionData.mem_of_ofFields hv)
    · intro key v hv
      exact Json.everyField_iff.mp hproper.2 (key, v) (SessionData.mem_of_ofFields hv)
  | _ => cases hd

/-- Decoding inverts encoding, whichever encoder writes and whichever reads, and in whatever order
the entries stand, exactly if the data are nested at most 127 levels. What is decoded from any bytes
is nested no deeper, and without doubles it is restored when it is encoded and decoded again. -/
theorem decode_inverts_encode (writer reader : Json.Layout) :
    (∀ d : SessionData, d.IsExact →
      (ofLayout writer).encode d = .ok (encodeEntries writer d.toList) ∧
      ∀ es : List (String × Json), es.Perm d.toList →
        (d.depth ≤ 127 → (ofLayout reader).decode (encodeEntries writer es) = .ok d) ∧
        (127 < d.depth → (ofLayout reader).decode (encodeEntries writer es) =
          .error (.deserialization .malformed))) ∧
    ∀ (first : Json.Layout) (bs : Bytes) (d : SessionData), (ofLayout first).decode bs = .ok d →
      d.depth ≤ 127 ∧
      (d.HasNoDouble → d.IsExact ∧ ∀ es : List (String × Json), es.Perm d.toList →
        (ofLayout reader).decode (encodeEntries writer es) = .ok d) := by
  simp only [decode_ofLayout]
  constructor
  · intro d hd
    refine ⟨encode_ofLayout writer d, fun es hes => ⟨fun hdepth => ?_, fun hdepth => ?_⟩⟩
    · exact (decodeJson_encodeEntries writer hd hes).trans (if_pos hdepth)
    · exact (decodeJson_encodeEntries writer hd hes).trans (if_neg (Nat.not_le.mpr hdepth))
  · intro _ bs d hread
    obtain ⟨hdepth, hproper⟩ := proper_of_decodeJson hread
    refine ⟨hdepth, fun hwhole => ?_⟩
    have hd : d.IsExact := SessionData.isExact_of_proper hproper hwhole
    refine ⟨hd, fun es hes => ?_⟩
    exact (decodeJson_encodeEntries writer hd hes).trans (if_pos hdepth)

/-- Data with the outermost integers, a control character in a key, and arrays down to level
`n + 2`. -/
def extremes (n : Nat) : SessionData :=
  (((∅ : SessionData).insert "z" (.int Json.greatest)).insert "\x00\"" (.int Json.least)).insert "a"
    (.nested n)

theorem toList_extremes (n : Nat) : (extremes n).toList =
    [("\x00\"", .int Json.least), ("a", .nested n), ("z", .int Json.greatest)] := rfl

theorem depth_extremes (n : Nat) : (extremes n).depth = n + 2 := by
  rw [SessionData.depth, SessionData.toJson, toList_extremes]
  simp [Json.depth, Json.depthFields, Json.depth_nested]

theorem isExact_extremes (n : Nat) : (extremes n).IsExact := by
  intro key v hv
  have hmem := Std.ExtTreeMap.mem_toList_iff_getElem?_eq_some.mpr hv
  rw [toList_extremes] at hmem
  have hint : ∀ m, Json.least ≤ m → m ≤ Json.greatest →
      (Json.int m).Every Json.IsExact ∧ (Json.int m).Every Json.IsSorted := by
    intro m hleast hgreatest
    unfold Json.Every
    exact ⟨⟨hleast, hgreatest⟩, trivial⟩
  simp only [List.mem_cons, Prod.mk.injEq, List.not_mem_nil, or_false] at hmem
  rcases hmem with ⟨-, rfl⟩ | ⟨-, rfl⟩ | ⟨-, rfl⟩
  · exact hint _ (by decide) (by decide)
  · exact ⟨Json.every_nested (fun _ => trivial) n, Json.every_nested (fun _ => trivial) n⟩
  · exact hint _ (by decide) (by decide)

/-- Indented and with their entries turned round, the extremes are read back at the limit and
refused one level deeper. Of two entries under one key the later one is read, and can be written
again. -/
theorem decode_inverts_encode_extremes :
    let data : SessionData := (∅ : SessionData).insert "a" (.arr [.int (-1)])
    (extremes 125).IsExact ∧ (extremes 125).depth ≤ 127 ∧ 127 < (extremes 126).depth ∧
      json.decode (encodeEntries .indented (extremes 125).toList.reverse) = .ok (extremes 125) ∧
      json.decode (encodeEntries .indented (extremes 126).toList.reverse) =
        .error (.deserialization .malformed) ∧
      prettyJson.decode (Utf8.encodeText "\x7b\"a\" : 0,\n\"a\":[-1]\x7d") = .ok data ∧
      json.decode (encodeEntries .indented data.toList) = .ok data := by
  intro data
  have hlimit : (extremes 125).depth ≤ 127 := Nat.le_of_eq (depth_extremes 125)
  have hbeyond : 127 < (extremes 126).depth := by
    rw [depth_extremes]
    decide
  have hwritten := (decode_inverts_encode .indented .compact).1
  have hread : (ofLayout .indented).decode
      (Utf8.encodeText "\x7b\"a\" : 0,\n\"a\":[-1]\x7d") = .ok data := rfl
  have hwhole : data.HasNoDouble := by
    intro key v hv
    have hmem : (key, v) ∈ [("a", Json.arr [.int (-1)])] :=
      Std.ExtTreeMap.mem_toList_iff_getElem?_eq_some.mpr hv
    cases List.mem_singleton.mp hmem
    simp [Json.Every, Json.EveryItem, Json.IsWhole]
  refine ⟨isExact_extremes 125, hlimit, hbeyond, ?_, ?_, hread, ?_⟩
  · exact ((hwritten _ (isExact_extremes 125)).2 _ (List.reverse_perm _)).1 hlimit
  · exact ((hwritten _ (isExact_extremes 126)).2 _ (List.reverse_perm _)).2 hbeyond
  · have hagain := (decode_inverts_encode .indented .compact).2 .indented _ data hread
    exact (hagain.2 hwhole).2 _ (.refl _)

end Encoder

end SessionStore
