import SessionStore.Proofs.Json.Reading
import SessionStore.Session.Encoder

/-! # What encoders write is read back

In whatever order the entries of session data are written, and in either layout, decoding gives the
data again, unless they are nested deeper than the reader goes.
-/

namespace SessionStore

namespace SessionData

variable {d : SessionData}

/-- All numbers are integers that are kept exactly, and all objects are in order. -/
def IsExact (d : SessionData) : Prop :=
  ∀ (key : String) (v : Json), d[key]? = some v →
    v.Every Json.IsExact ∧ v.Every Json.IsSorted

/-- How deep the data are nested, the object around all counted. -/
def depth (d : SessionData) : Nat := d.toJson.depth

theorem sorted_toList (d : SessionData) : Json.Sorted d.toList :=
  Std.ExtTreeMap.ordered_keys_toList

theorem ofFields_toList (d : SessionData) : ofFields d.toList = d := by
  have hlist : ofFields d.toList = Std.ExtTreeMap.ofList d.toList := by
    rw [Std.ExtTreeMap.ofList_eq_foldl]
    rfl
  rw [hlist]
  apply Std.ExtTreeMap.ext_getElem?
  intro key
  rcases hv : d[key]? with _ | v
  · refine Std.ExtTreeMap.getElem?_ofList_of_contains_eq_false ?_
    rw [← Bool.not_eq_true, List.contains_iff_mem, List.mem_map]
    rintro ⟨⟨k, v⟩, hmem, rfl⟩
    rw [Std.ExtTreeMap.mem_toList_iff_getElem?_eq_some] at hmem
    rw [hmem] at hv
    cases hv
  · exact Std.ExtTreeMap.getElem?_ofList_of_mem Std.ReflOrd.compare_self
      Std.ExtTreeMap.distinct_keys_toList (Std.ExtTreeMap.mem_toList_iff_getElem?_eq_some.mpr hv)

/-- Entries of exact data have exact values. -/
theorem IsExact.of_perm (h : d.IsExact) {es : List (String × Json)} (hes : es.Perm d.toList) :
    Json.EveryField Json.IsExact es ∧ Json.EveryField Json.IsSorted es := by
  have hentry : ∀ e ∈ es, e.2.Every Json.IsExact ∧ e.2.Every Json.IsSorted := by
    rintro ⟨key, v⟩ hmem
    exact h key v (Std.ExtTreeMap.mem_toList_iff_getElem?_eq_some.mp (hes.mem_iff.mp hmem))
  rw [Json.everyField_iff, Json.everyField_iff]
  exact ⟨fun e he => (hentry e he).1, fun e he => (hentry e he).2⟩

end SessionData

namespace Encoder

variable {d : SessionData} {es : List (String × Json)}

/-- Decoding what was written of all entries, in any order. -/
theorem decodeJson_encodeEntries (l : Json.Layout) (h : d.IsExact) (hes : es.Perm d.toList) :
    decodeJson (encodeEntries l es) =
      if d.depth ≤ depthLimit then .ok d else .error (.deserialization .malformed) := by
  obtain ⟨hnumbers, hfields⟩ := h.of_perm hes
  have hexact : (Json.obj es).Every Json.IsExact := by
    unfold Json.Every
    exact ⟨trivial, hnumbers⟩
  have hordered : (Json.obj es).ordered = .obj d.toList := by
    rw [Json.ordered, Json.orderedFields_of_sorted hfields,
      Json.insertAll_of_perm d.sorted_toList hes]
  have hdepth : (Json.obj es).depth = d.depth := by
    rw [SessionData.depth, SessionData.toJson, Json.depth, Json.depth, Json.depthFields_perm hes]
  rw [decodeJson, encodeEntries, Json.ofBytes?_encode depthLimit l hexact, hordered, hdepth]
  by_cases hd : d.depth ≤ depthLimit
  · rw [if_pos hd, if_pos hd, Option.bind_some, SessionData.ofJson?]
    simp only [SessionData.ofFields_toList]
  · rw [if_neg hd, if_neg hd]
    rfl

end Encoder

end SessionStore
