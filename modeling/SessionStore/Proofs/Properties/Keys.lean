import Mathlib.Data.List.DropRight
import SessionStore.Id
import SessionStore.Properties.Basic

/-! # Keys in a shared store

The key of a session is its id, behind a keyspace and a colon if there is a keyspace. Ids have no
colons, so that the last colon of a key is the end of its keyspace, and keys of different keyspaces
or of different ids are different.
-/

namespace SessionStore

section Ends

variable {α : Type} {kind : α → Bool} {front back : List α}

theorem rdropWhile_append_of_pos (h : ∀ x ∈ back, kind x = true) :
    (front ++ back).rdropWhile kind = front.rdropWhile kind := by
  have hreverse : ∀ x ∈ back.reverse, kind x = true := fun x hx => h x (List.mem_reverse.mp hx)
  rw [List.rdropWhile, List.reverse_append, List.dropWhile_append_of_pos hreverse, List.rdropWhile]

theorem rtakeWhile_append_of_pos (h : ∀ x ∈ back, kind x = true) :
    (front ++ back).rtakeWhile kind = front.rtakeWhile kind ++ back := by
  have hreverse : ∀ x ∈ back.reverse, kind x = true := fun x hx => h x (List.mem_reverse.mp hx)
  rw [List.rtakeWhile, List.reverse_append, List.takeWhile_append_of_pos hreverse,
    List.reverse_append, List.reverse_reverse, List.rtakeWhile]

end Ends

namespace Id

variable {id : String} {length : Nat}

theorem colon_not_mem_of_isValid (h : isValid id length = true) : ':' ∉ id.toList := by
  intro hmem
  simp only [isValid, Bool.and_eq_true, List.all_eq_true] at h
  exact absurd (h.2 ':' hmem) (by decide)

end Id

namespace Properties

variable {p q : Properties} {id a b : String} {m n : Nat}

/-- What stands before the last colon of a key and what stands behind it; a key without colons has
nothing before. -/
def keyParts (key : String) : List Char × List Char :=
  ((key.toList.rdropWhile (· ≠ ':')).dropLast, key.toList.rtakeWhile (· ≠ ':'))

theorem toList_sessionKey (p : Properties) (id : String) : (p.sessionKey id).toList =
    (if p.keyspace = "" then [] else p.keyspace.toList ++ [':']) ++ id.toList := by
  unfold sessionKey
  split
  · rfl
  · rw [String.toList_append, String.toList_append]
    rfl

/-- A key is taken apart into its keyspace and its id. -/
theorem keyParts_sessionKey (p : Properties) (h : ':' ∉ id.toList) :
    keyParts (p.sessionKey id) = (p.keyspace.toList, id.toList) := by
  have hid : ∀ c ∈ id.toList, decide (c ≠ ':') = true :=
    fun c hc => decide_eq_true (ne_of_mem_of_not_mem hc h)
  rw [keyParts, toList_sessionKey, rdropWhile_append_of_pos hid, rtakeWhile_append_of_pos hid]
  split
  case isTrue hempty => simp [hempty]
  case isFalse =>
    rw [List.rdropWhile_concat_neg _ _ _ (by decide), List.dropLast_concat,
      List.rtakeWhile_concat_neg _ _ _ (by decide), List.nil_append]

/-- Keys are the same only if they have the same keyspace and are for the same id, whatever colons
the keyspaces have, and even if one of them is empty. -/
theorem sessionKey_eq_iff (ha : Id.isValid a m = true) (hb : Id.isValid b n = true) :
    p.sessionKey a = q.sessionKey b ↔ p.keyspace = q.keyspace ∧ a = b := by
  constructor
  · intro h
    have hparts := congrArg keyParts h
    rw [keyParts_sessionKey p (Id.colon_not_mem_of_isValid ha),
      keyParts_sessionKey q (Id.colon_not_mem_of_isValid hb), Prod.mk.injEq] at hparts
    exact hparts.imp String.toList_inj.mp String.toList_inj.mp
  · rintro ⟨hkeyspace, rfl⟩
    rw [sessionKey, sessionKey, hkeyspace]

/-- A keyspace that ends in a colon and one that does not, with the shortest id of all. -/
theorem sessionKey_eq_iff_colons :
    let p : Properties := { standard with keyspace := "a:" }
    let q : Properties := { standard with keyspace := "a" }
    Id.isValid "" 0 = true ∧ Id.isValid "b" 1 = true ∧
      (p.sessionKey "" = q.sessionKey "b" ↔ p.keyspace = q.keyspace ∧ "" = "b") ∧
      p.sessionKey "" ≠ q.sessionKey "b" := by
  intro p q
  have hempty : Id.isValid "" 0 = true := by decide
  have hletter : Id.isValid "b" 1 = true := by decide
  have hkeys := sessionKey_eq_iff (p := p) (q := q) hempty hletter
  exact ⟨hempty, hletter, hkeys, fun h => absurd (hkeys.mp h).1 (by decide)⟩

/-- Two keys that are the same, for one of the ids has a colon. -/
example : { standard with keyspace := "a" }.sessionKey "b:c" =
    { standard with keyspace := "a:b" }.sessionKey "c" := by decide

end Properties

end SessionStore
