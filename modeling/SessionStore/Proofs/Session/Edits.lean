import Mathlib.Logic.Function.Basic
import SessionStore.Session.Basic

/-! # Sessions as maps

Until it is destroyed a session is a map from keys to values, and edits act on the map alone. From
then on it refuses everything, and nothing that is tried changes it any more.
-/

namespace SessionStore

/-- What is under every key, if there is anything. -/
abbrev Fields := String → Option Json

/-- What callers do to a session. -/
inductive Edit
  | set (key : String) (value : Json)
  | delete (key : String)
  | clear
  | destroy

namespace Edit

/-- The map after an edit. -/
def turn : Edit → Fields → Fields
  | .set key value, m => Function.update m key (some value)
  | .delete key, m => Function.update m key none
  | .clear, _ | .destroy, _ => fun _ => none

/-- The map after edits, the first of them made first. -/
def turns (edits : List Edit) (m : Fields) : Fields := edits.foldl (fun m e => e.turn m) m

/-- What an edit of the map answers: a deletion the value that was there, all others nothing. -/
def answer : Edit → Fields → Option Json
  | .delete key, m => m key
  | .set _ _, _ | .clear, _ | .destroy, _ => none

end Edit

namespace Session

/-- The answer to an edit and the session after it, which is as before if the edit fails. -/
def edit (s : Session) : Edit → Except SessionError (Option Json) × Session
  | .set key value =>
    match s.set key (.ok value) with
    | .ok t => (.ok none, t)
    | .error why => (.error why, s)
  | .delete key =>
    match s.delete key with
    | .ok (value?, t) => (.ok value?, t)
    | .error why => (.error why, s)
  | .clear =>
    match s.clear with
    | .ok t => (.ok none, t)
    | .error why => (.error why, s)
  | .destroy => (.ok none, s.destroy)

/-- The session after edits, whether they fail or not. -/
def edited (s : Session) (edits : List Edit) : Session := edits.foldl (fun s e => (s.edit e).2) s

/-- The session is live, and its data are the map. -/
def Holds (s : Session) (m : Fields) : Prop := ∃ d, s.state = .live d ∧ ∀ key, d[key]? = m key

/-- Every look at the session agrees with the map, and every edit of it succeeds. -/
structure Shows (s : Session) (m : Fields) : Prop where
  live : s.isDestroyed = false
  data : s.data = .ok s.persistedData
  persisted : ∀ key, s.persistedData[key]? = m key
  get : ∀ key, s.get? key = .ok (m key)
  has : ∀ key, s.has key = .ok (m key).isSome
  keys : ∃ ks, s.keys = .ok ks ∧ ks.Nodup ∧ (∀ key, key ∈ ks ↔ m key ≠ none) ∧
    s.size = .ok ks.length ∧ s.isEmpty = .ok ks.isEmpty
  edit : ∀ e, (s.edit e).1 = .ok (e.answer m)

/-- Every look at the session and every edit fails, a further destruction apart, and nothing is left
to store. No attempt changes the session. -/
structure Refuses (s : Session) : Prop where
  destroyed : s.isDestroyed = true
  data : s.data = .error (.destroyed s.id)
  get : ∀ key, s.get? key = .error (.destroyed s.id)
  getAs : ∀ key shape, s.getAs? key shape = .error (.destroyed s.id)
  has : ∀ key, s.has key = .error (.destroyed s.id)
  keys : s.keys = .error (.destroyed s.id)
  size : s.size = .error (.destroyed s.id)
  isEmpty : s.isEmpty = .error (.destroyed s.id)
  edit : ∀ e, e ≠ .destroy → s.edit e = (.error (.destroyed s.id), s)
  destroy : s.edit .destroy = (.ok none, s)
  persisted : s.persistedData = ∅

variable {s : Session} {m : Fields} {e : Edit} {edits : List Edit}

theorem holds_withData (id : String) (d : SessionData) :
    (withData id d).Holds fun key => d[key]? :=
  ⟨d, rfl, fun _ => rfl⟩

/-! ## Live sessions -/

namespace Holds

theorem shows (h : s.Holds m) : s.Shows m := by
  obtain ⟨id, state, changed⟩ := s
  obtain ⟨d, rfl, hd⟩ := h
  refine ⟨rfl, rfl, hd, fun key => congrArg Except.ok (hd key), ?has, ?keys, ?edit⟩
  case has =>
    intro key
    rw [← hd key, ← Std.ExtTreeMap.contains_eq_isSome_getElem?]
    rfl
  case keys =>
    refine ⟨d.keys, rfl, Std.ExtTreeMap.nodup_keys, ?_, ?_, ?_⟩
    · intro key
      rw [← hd key, Std.ExtTreeMap.mem_keys, Std.ExtTreeMap.mem_iff_isSome_getElem?,
        Option.isSome_iff_ne_none]
    · exact congrArg Except.ok Std.ExtTreeMap.length_keys.symm
    · exact congrArg Except.ok Std.ExtTreeMap.isEmpty_keys.symm
  case edit =>
    rintro (⟨key, value⟩ | key | _ | _)
    · rfl
    · exact congrArg Except.ok (hd key)
    · rfl
    · rfl

/-- An edit that does not end the session acts on the map. -/
theorem edit (h : s.Holds m) (he : e ≠ .destroy) : (s.edit e).2.Holds (e.turn m) := by
  obtain ⟨id, state, changed⟩ := s
  obtain ⟨d, rfl, hd⟩ := h
  cases e with
  | set key value =>
    refine ⟨d.insert key value, rfl, fun other => ?_⟩
    by_cases hk : other = key
    · simp [Edit.turn, hk]
    · simp [Edit.turn, hk, Ne.symm hk, hd, Std.ExtTreeMap.getElem?_insert]
  | delete key =>
    refine ⟨d.erase key, rfl, fun other => ?_⟩
    by_cases hk : other = key
    · simp [Edit.turn, hk]
    · simp [Edit.turn, hk, Ne.symm hk, hd, Std.ExtTreeMap.getElem?_erase]
  | clear => exact ⟨∅, rfl, fun _ => Std.ExtTreeMap.getElem?_empty⟩
  | destroy => exact absurd rfl he

theorem edited (h : s.Holds m) (hd : .destroy ∉ edits) :
    (s.edited edits).Holds (Edit.turns edits m) := by
  induction edits generalizing s m with
  | nil => exact h
  | cons e edits ih =>
    rw [List.mem_cons, not_or] at hd
    exact ih (h.edit (Ne.symm hd.1)) hd.2

end Holds

/-! ## Destroyed sessions -/

theorem refuses_of_isDestroyed (h : s.isDestroyed = true) : s.Refuses := by
  obtain ⟨id, _ | _, changed⟩ := s
  · cases h
  · refine ⟨rfl, rfl, fun _ => rfl, fun _ _ => rfl, fun _ => rfl, rfl, rfl, rfl, ?_, rfl, rfl⟩
    rintro (⟨key, value⟩ | key | _ | _) he
    · rfl
    · rfl
    · rfl
    · exact absurd rfl he

namespace Refuses

/-- Nothing that is tried brings a destroyed session back, or changes it. -/
theorem edit_eq (h : s.Refuses) (e : Edit) : (s.edit e).2 = s := by
  by_cases he : e = .destroy
  · rw [he, h.destroy]
  · rw [h.edit e he]

theorem edited_eq (h : s.Refuses) (edits : List Edit) : s.edited edits = s := by
  induction edits with
  | nil => rfl
  | cons e edits ih =>
    change (s.edit e).2.edited edits = s
    rw [h.edit_eq e, ih]

end Refuses

theorem isDestroyed_destroy (s : Session) : s.destroy.isDestroyed = true := by
  obtain ⟨id, _ | _, changed⟩ := s <;> rfl

theorem refuses_edited (h : .destroy ∈ edits) : (s.edited edits).Refuses := by
  induction edits generalizing s with
  | nil => cases h
  | cons e edits ih =>
    rcases List.mem_cons.mp h with rfl | h
    · have hs : s.destroy.Refuses := refuses_of_isDestroyed s.isDestroyed_destroy
      change (s.destroy.edited edits).Refuses
      rwa [hs.edited_eq edits]
    · exact ih h

/-! ## Ids and marks -/

theorem id_edit (s : Session) (e : Edit) : (s.edit e).2.id = s.id := by
  obtain ⟨id, _ | _, changed⟩ := s <;> cases e <;> rfl

theorem id_edited (s : Session) (edits : List Edit) : (s.edited edits).id = s.id := by
  induction edits generalizing s with
  | nil => rfl
  | cons e edits ih => exact (ih (s.edit e).2).trans (s.id_edit e)

/-- A live session is marked by any edit, and a mark is never taken away. -/
theorem changed_edit (h : s.isDestroyed = false ∨ s.changed = true) (e : Edit) :
    (s.edit e).2.changed = true := by
  obtain ⟨id, _ | _, changed⟩ := s
  · cases e <;> rfl
  · have hmark : changed = true := h.resolve_left Bool.noConfusion
    cases e <;> exact hmark

theorem changed_edited (h : s.changed = true) (edits : List Edit) :
    (s.edited edits).changed = true := by
  induction edits generalizing s with
  | nil => exact h
  | cons e edits ih => exact ih (changed_edit (.inr h) e)

theorem changed_edited_withData (id : String) (d : SessionData) (edits : List Edit) :
    ((withData id d).edited edits).changed = false ↔ edits = [] := by
  constructor
  · intro h
    cases edits with
    | nil => rfl
    | cons e edits =>
      have hmark := changed_edited (changed_edit (s := withData id d) (.inl rfl) e) edits
      exact absurd (h.symm.trans hmark) Bool.noConfusion
  · rintro rfl
    rfl

/-- Whatever edits a session goes through, it keeps its id, and it is unmarked only if there were
none. Before the first destruction it shows the map that they have made of its data, and from then
on it refuses everything. -/
theorem map_until_destroyed (id : String) (d : SessionData) (edits : List Edit) :
    let s := (withData id d).edited edits
    s.id = id ∧ (s.changed = false ↔ edits = []) ∧ (s.changed = false → s.data = .ok d) ∧
      (.destroy ∉ edits → s.Shows (Edit.turns edits fun key => d[key]?)) ∧
      (.destroy ∈ edits → s.Refuses) := by
  intro s
  have hmark : s.changed = false ↔ edits = [] := changed_edited_withData id d edits
  refine ⟨id_edited _ edits, hmark, ?_, ?_, refuses_edited⟩
  · intro h
    obtain rfl := hmark.mp h
    rfl
  · intro h
    exact ((holds_withData id d).edited h).shows

end Session

end SessionStore
