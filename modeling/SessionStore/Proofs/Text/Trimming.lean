import Mathlib.Data.List.DropRight
import SessionStore.Text.Blank

/-! # Texts without white space around them

A text is trimmed by taking away all white space in front and behind, and none from the rest.
-/

namespace SessionStore.Text

variable {cs core : List Char} {s : String}

/-- `cs` is `core` with white space around it, and none of that belongs to `core`. -/
structure IsTrimmed (cs core : List Char) : Prop where
  around : ∃ before after, cs = before ++ core ++ after ∧ (∀ c ∈ before, isBlank c) ∧
    ∀ c ∈ after, isBlank c
  first : ∀ c, core.head? = some c → ¬isBlank c
  last : ∀ c, core.getLast? = some c → ¬isBlank c

theorem dropWhile_of_head? (h : ∀ c, cs.head? = some c → ¬isBlank c) :
    cs.dropWhile isBlank = cs := by
  cases cs with
  | nil => rfl
  | cons c cs => exact List.dropWhile_cons_of_neg (h c rfl)

theorem trimChars_eq (cs : List Char) :
    trimChars cs = (cs.dropWhile isBlank).rdropWhile isBlank := rfl

theorem isTrimmed_trimChars (cs : List Char) : IsTrimmed cs (trimChars cs) where
  around := by
    refine ⟨cs.takeWhile isBlank, (cs.dropWhile isBlank).rtakeWhile isBlank, ?_,
      fun c hc => List.mem_takeWhile_imp hc, fun c hc => List.mem_rtakeWhile_imp hc⟩
    rw [trimChars_eq, List.append_assoc, List.rdropWhile_append_rtakeWhile,
      List.takeWhile_append_dropWhile]
  first c hc := by
    obtain ⟨rest, hrest⟩ := List.rdropWhile_prefix isBlank (l := cs.dropWhile isBlank)
    rw [← trimChars_eq] at hrest
    have hhead := List.head?_dropWhile_not isBlank cs
    rw [← hrest, List.head?_append, hc] at hhead
    simpa using hhead
  last c hc := by
    have hne : trimChars cs ≠ [] := fun h => by simp [h] at hc
    have hlast := List.rdropWhile_last_not isBlank (cs.dropWhile isBlank) hne
    rw [List.getLast?_eq_some_getLast hne, Option.some_inj] at hc
    exact hc ▸ hlast

/-- There is only one way to trim a text. -/
theorem IsTrimmed.trimChars_eq (h : IsTrimmed cs core) : trimChars cs = core := by
  obtain ⟨before, after, rfl, hbefore, hafter⟩ := h.around
  have hback : ∀ c ∈ after.reverse, isBlank c := fun c hc => hafter c (List.mem_reverse.mp hc)
  have hcore : core.reverse.dropWhile isBlank = core.reverse :=
    dropWhile_of_head? fun c hc => h.last c (List.head?_reverse.symm.trans hc)
  rw [trimChars, strip, List.append_assoc, List.dropWhile_append_of_pos hbefore]
  by_cases hempty : core = []
  · rw [hempty, List.nil_append, List.dropWhile_eq_nil_iff.mpr hafter]
    rfl
  · have hfront : (core ++ after).dropWhile isBlank = core ++ after := by
      refine dropWhile_of_head? fun c hc => h.first c ?_
      rwa [List.head?_append_of_ne_nil _ hempty] at hc
    rw [hfront, List.reverse_append, List.dropWhile_append_of_pos hback, hcore,
      List.reverse_reverse]

theorem trimChars_eq_iff : trimChars cs = core ↔ IsTrimmed cs core :=
  ⟨fun h => h ▸ isTrimmed_trimChars cs, IsTrimmed.trimChars_eq⟩

/-- Nothing is left of white space alone. -/
theorem trim_eq_empty_iff : trim s = "" ↔ ∀ c ∈ s.toList, isBlank c := by
  have htrim : trim s = "" ↔ trimChars s.toList = [] := by
    rw [trim, ← String.toList_inj, String.toList_ofList]
    rfl
  rw [htrim]
  constructor
  · intro h
    obtain ⟨before, after, hs, hbefore, hafter⟩ := (trimChars_eq_iff.mp h).around
    rw [hs, List.append_nil]
    intro c hc
    exact (List.mem_append.mp hc).elim (hbefore c) (hafter c)
  · intro h
    exact trimChars_eq_iff.mpr ⟨⟨s.toList, [], by simp, h, nofun⟩, nofun, nofun⟩

end SessionStore.Text
