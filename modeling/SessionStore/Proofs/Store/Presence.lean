import Mathlib.Logic.ExistsUnique
import SessionStore.Proofs.Disk.Following
import SessionStore.Store.Files

/-! # Absent, present or broken

To look for an entry, to read it and to reset it are three calls on one path. Whatever is on the
disk, they draw the line between what is missing and what is out of order at the same place, and
only a reset changes anything, which is the time of the file at the end of the path.
-/

namespace SessionStore

/-- How an id stands with a store. -/
inductive Presence
  | absent
  | present
  | broken

namespace FileStore

open Disk

variable {f : FileStore} {d : Disk} {id : String}

theorem contains_store (f : FileStore) (now : Instant) (d : Disk) (id : String) :
    (f.perform now d (.contains id)).store = d := by
  unfold perform
  dsimp only
  rcases d.stat (f.pathFor id) with why | n
  · simp only
    split <;> rfl
  · rfl

theorem get_store (f : FileStore) (now : Instant) (d : Disk) (id : String) :
    (f.perform now d (.get id)).store = d := by
  unfold perform
  dsimp only
  rcases d.read (f.pathFor id) with why | contents <;> rfl

/-- What the calls about an id answer at any instant if it stands like this. -/
def Shows (f : FileStore) (d : Disk) (id : String) : Presence → Prop
  | .absent => ∀ now, f.perform now d (.contains id) = .done d false [] ∧
      f.perform now d (.get id) = .failed d (.notFound id) ∧
      f.perform now d (.touch id) = .failed d (.notFound id)
  | .present => ∀ now, f.perform now d (.contains id) = .done d true [] ∧
      (∀ why, (f.perform now d (.get id)).result = .error why → why.isNotFound = false) ∧
      ∀ why, (f.perform now d (.touch id)).result = .error why → why.isNotFound = false
  | .broken => ∃ why, ∀ now, f.perform now d (.contains id) = .failed d (.io why) ∧
      f.perform now d (.get id) = .failed d (.io why) ∧
      f.perform now d (.touch id) = .failed d (.io why)

/-- An id cannot stand in two ways, for each has an answer of its own. -/
theorem Shows.unique {p q : Presence} (hp : f.Shows d id p) (hq : f.Shows d id q) : p = q := by
  cases p <;> cases q
  case absent.absent | present.present | broken.broken => rfl
  case absent.present =>
    have h := (hp 0).1.symm.trans (hq 0).1
    cases congrArg Outcome.result h
  case present.absent =>
    have h := (hp 0).1.symm.trans (hq 0).1
    cases congrArg Outcome.result h
  case broken.absent | broken.present =>
    obtain ⟨why, hp⟩ := hp
    have h := (hp 0).1.symm.trans (hq 0).1
    cases congrArg Outcome.result h
  case absent.broken | present.broken =>
    obtain ⟨why, hq⟩ := hq
    have h := (hp 0).1.symm.trans (hq 0).1
    cases congrArg Outcome.result h

theorem exists_shows (f : FileStore) (d : Disk) (id : String) : ∃ p, f.Shows d id p := by
  rcases d.reaches_or (f.pathFor id) with ⟨l, h⟩ | ⟨why, hstat, hread, hset⟩
  · have hstat := h.stat
    have hread := h.read
    have hset := h.setModified
    rcases hn : d.node? l with _ | ⟨contents, mode, modified⟩ | ⟨mode, modified⟩ | target <;>
      simp only [hn] at hstat hread hset
    · refine ⟨.absent, fun now => ?_⟩
      unfold perform
      dsimp only
      simp only [hstat, hread, hset]
      exact ⟨rfl, rfl, rfl⟩
    · refine ⟨.present, fun now => ?_⟩
      unfold perform
      dsimp only
      simp only [hstat, hread, hset]
      refine ⟨trivial, fun why hwhy => ?_, fun why hwhy => ?_⟩ <;> cases hwhy
    · refine ⟨.present, fun now => ?_⟩
      unfold perform
      dsimp only
      simp only [hstat, hread, hset]
      refine ⟨trivial, fun why hwhy => ?_, fun why hwhy => ?_⟩ <;>
      · cases hwhy
        rfl
    · exact absurd hn (h.not_link target)
  · by_cases hmissing : why.isNotFound = true
    · refine ⟨.absent, fun now => ?_⟩
      unfold perform
      dsimp only
      simp only [hstat, hread, hset, faultFor, if_pos hmissing, and_self]
    · refine ⟨.broken, why, fun now => ?_⟩
      unfold perform
      dsimp only
      simp only [hstat, hread, hset, faultFor, if_neg hmissing, and_self]

theorem touch_of_ok {now : Instant} {e : Disk} (h : d.setModified (f.pathFor id) now = .ok e) :
    (f.perform now d (.touch id)).result = .ok () ∧ (f.perform now d (.touch id)).store = e := by
  unfold perform
  dsimp only
  rw [h]
  exact ⟨rfl, rfl⟩

theorem touch_of_error {now : Instant} {why : IoFault}
    (h : d.setModified (f.pathFor id) now = .error why) :
    (∃ why, (f.perform now d (.touch id)).result = .error why) ∧
      (f.perform now d (.touch id)).store = d := by
  unfold perform
  dsimp only
  rw [h]
  exact ⟨⟨_, rfl⟩, rfl⟩

/-- A reset that succeeds sets the time of one file, and one that fails does nothing. -/
theorem touch_retimes (f : FileStore) (d : Disk) (id : String) (now : Instant) :
    let o := f.perform now d (.touch id)
    o.result = .ok () ∧ Retimed (f.pathFor id) now d o.store ∨
      (∃ why, o.result = .error why) ∧ o.store = d := by
  intro o
  rcases d.reaches_or (f.pathFor id) with ⟨l, h⟩ | ⟨why, -, -, hset⟩
  · have hset := h.setModified now
    rcases hn : d.node? l with _ | ⟨contents, mode, modified⟩ | ⟨mode, modified⟩ | target <;>
      simp only [hn] at hset
    · exact .inr (touch_of_error hset)
    · exact .inl ⟨(touch_of_ok hset).1, (touch_of_ok hset).2 ▸ h.retimed hn now⟩
    · exact .inr (touch_of_error hset)
    · exact absurd hn (h.not_link target)
  · exact .inr (touch_of_error (hset now))

/-- Whatever is on the disk, an id is absent, present or broken, and all calls about it answer
accordingly. Looking and reading change nothing, and a reset nothing but the time of the file that
the path of the id leads to. -/
theorem lookups_agree (f : FileStore) (d : Disk) (id : String) :
    (∃! p, f.Shows d id p) ∧
      (∀ now, (f.perform now d (.contains id)).store = d ∧ (f.perform now d (.get id)).store = d) ∧
      ∀ now, let o := f.perform now d (.touch id)
        o.result = .ok () ∧ Retimed (f.pathFor id) now d o.store ∨
          (∃ why, o.result = .error why) ∧ o.store = d := by
  obtain ⟨p, hp⟩ := f.exists_shows d id
  refine ⟨⟨p, hp, fun q hq => hq.unique hp⟩, fun now => ⟨?_, ?_⟩, f.touch_retimes d id⟩
  · exact f.contains_store now d id
  · exact f.get_store now d id

end FileStore

end SessionStore
