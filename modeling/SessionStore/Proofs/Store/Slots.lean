import SessionStore.Proofs.Store.Found
import SessionStore.Proofs.Store.Memory

/-! # The place of one entry

In the memory an entry has its place under its id, and in a directory in its file. Calls about one
id find the entry there, reset it or make it, and leave everything else as it is. To reset an entry
twice at one instant is to reset it once.
-/

namespace SessionStore

variable {σ : Type}

/-- The place of one entry in stores. -/
structure Slot (σ : Type) where
  entry? : σ → Option Entry
  /-- The entry can be found there, and made if there is none. -/
  Fine : σ → Prop
  /-- The stores are the same in everything but the entry. -/
  Same : σ → σ → Prop

/-- The entry has become `x`, and nothing else has changed. -/
structure Slot.Turns (S : Slot σ) (x : Entry) (s s' : σ) : Prop where
  entry : S.entry? s' = some x
  fine : S.Fine s'
  same : S.Same s s'

/-- Calls about the id act on this place. -/
structure Slot.Serves (S : Slot σ) (b : Backend σ) (id : String) : Prop where
  trans : ∀ {s₁ s₂ s₃}, S.Same s₁ s₂ → S.Same s₂ s₃ → S.Same s₁ s₃
  contains : ∀ {s} now, S.Fine s → b.perform now s (.contains id) = .done s (S.entry? s).isSome []
  get : ∀ {s x} now, S.Fine s → S.entry? s = some x →
    b.perform now s (.get id) = .done s x.contents []
  touch : ∀ {s x} now, S.Fine s → S.entry? s = some x → ∃ s',
    b.perform now s (.touch id) = .done s' () [] ∧ S.Turns ⟨x.contents, now⟩ s s'
  touch_self : ∀ {s x}, S.Fine s → S.entry? s = some x →
    b.perform x.touched s (.touch id) = .done s () []
  set : ∀ {s} now contents, S.Fine s → S.entry? s = none → ∃ s' events,
    b.perform now s (.set id contents) = .done s' () events ∧ S.Turns ⟨contents, now⟩ s s'

theorem Slot.Serves.finds {S : Slot σ} {b : Backend σ} {id : String} {s : σ} {x : Entry}
    (h : S.Serves b id) (hs : S.Fine s) (hx : S.entry? s = some x) : b.Finds s id x.contents where
  contains now := by rw [h.contains now hs, hx]; rfl
  get now := h.get now hs hx
  touch now := by
    obtain ⟨s', htouch, -⟩ := h.touch now hs hx
    exact congrArg Outcome.result htouch

/-! ## Memory -/

namespace Memory

/-- What is under the id. -/
def slot (id : String) : Slot Memory where
  entry? m := m[id]?
  Fine _ := True
  Same m m' := ∀ k, k ≠ id → m'[k]? = m[k]?

theorem turns_insert (m : Memory) (id : String) (x : Entry) :
    (slot id).Turns x m (m.insert id x) where
  entry := Std.ExtTreeMap.getElem?_insert_self
  fine := trivial
  same k hk := by simp [Std.ExtTreeMap.getElem?_insert, Ne.symm hk]

theorem insert_of_getElem? {m : Memory} {id : String} {x : Entry} (h : m[id]? = some x) :
    m.insert id x = m := by
  apply Std.ExtTreeMap.ext_getElem?
  intro k
  by_cases hk : k = id
  · subst hk
    rw [h, Std.ExtTreeMap.getElem?_insert_self]
  · exact (turns_insert m id x).same k hk

theorem perform_of_getElem? {m : Memory} {id : String} {x : Entry} (h : m[id]? = some x)
    (now : Instant) :
    perform now m (.get id) = .done m x.contents [] ∧
      perform now m (.touch id) = .done (m.insert id ⟨x.contents, now⟩) () [] := by
  constructor <;> simp only [perform, h]

theorem slot_serves (id : String) : (slot id).Serves backend id where
  trans h h' k hk := (h' k hk).trans (h k hk)
  contains {m} now _ := by
    change Outcome.done m (m.contains id) [] = _
    rw [Std.ExtTreeMap.contains_eq_isSome_getElem?]
    rfl
  get now _ hx := (perform_of_getElem? hx now).1
  touch {m x} now _ hx := ⟨_, (perform_of_getElem? hx now).2, turns_insert m id _⟩
  touch_self {m x} _ hx := by
    have htouch := (perform_of_getElem? hx x.touched).2
    rwa [insert_of_getElem? hx] at htouch
  set {m} now contents _ _ := ⟨_, _, rfl, turns_insert m id ⟨contents, now⟩⟩

end Memory

/-! ## Files -/

theorem Disk.put_of_node? {d : Disk} {l : Location} {n : Node} (hl : l ≠ [])
    (h : d.node? l = some n) : d.put l n = d := by
  obtain ⟨nodes⟩ := d
  unfold Disk.put
  congr
  apply Std.ExtTreeMap.ext_getElem?
  intro m
  rw [Std.ExtTreeMap.getElem?_insert]
  split
  · next hm =>
    obtain rfl := Std.LawfulEqCmp.eq_of_compare hm
    simpa [Disk.node?, hl] using h.symm
  · rfl

namespace FileStore

variable {f : FileStore} {l : Location} {d e : Disk} {id : String}

/-- The entry of an id in the directory at `l`. -/
def entryIn? (f : FileStore) (l : Location) (d : Disk) (id : String) : Option Entry :=
  (d.node? (l ++ [f.fileName id])).bind Node.entry?

/-- The directory holds nothing but files, and has room for that of the id. An entry that is there
needs no room for what would be written beside it. -/
structure HasRoom (f : FileStore) (l : Location) (d : Disk) (id : String) : Prop where
  houses : d.Houses f.directory l
  ends : ∀ name, d.IsEnd (l ++ [name])
  fits : Disk.Fits f.directory (f.fileName id)
  fits_temporary : f.entryIn? l d id = none → Disk.Fits f.directory (f.temporaryName id)

/-- What the file of the id is in the directory at `l`. -/
def slot (f : FileStore) (l : Location) (id : String) : Slot Disk where
  entry? d := f.entryIn? l d id
  Fine d := f.HasRoom l d id
  Same := Disk.Within l [f.temporaryName id, f.fileName id]

namespace HasRoom

variable (h : f.HasRoom l d id)
include h

theorem node_of_some {x : Entry} (hx : f.entryIn? l d id = some x) :
    ∃ mode, d.node? (l ++ [f.fileName id]) = some (.file x.contents mode x.touched) := by
  rcases h.ends (f.fileName id) with hn | ⟨contents, mode, modified, hn⟩
  · simp [entryIn?, hn] at hx
  · simp only [entryIn?, hn, Option.bind_some, Node.entry?, Option.some.injEq] at hx
    subst hx
    exact ⟨mode, hn⟩

theorem node_of_none (hx : f.entryIn? l d id = none) :
    d.node? (l ++ [f.fileName id]) = none := by
  rcases h.ends (f.fileName id) with hn | ⟨contents, mode, modified, hn⟩
  · exact hn
  · simp [entryIn?, hn, Node.entry?] at hx

/-- A new file in the place of the entry, with nothing left beside it that was not there. -/
theorem turns {contents : Bytes} {mode : Nat} {now : Instant}
    (hw : Disk.Within l [f.temporaryName id, f.fileName id] d e)
    (ht : e.IsEnd (l ++ [f.temporaryName id]))
    (he : e.node? (l ++ [f.fileName id]) = some (.file contents mode now)) :
    (f.slot l id).Turns ⟨contents, now⟩ d e := by
  have hentry : f.entryIn? l e id = some ⟨contents, now⟩ := by simp [entryIn?, he, Node.entry?]
  have hends : ∀ name ∈ [f.temporaryName id, f.fileName id], d.IsEnd (l ++ [name]) :=
    fun name _ => h.ends name
  refine ⟨hentry, ⟨?_, ?_, h.fits, fun hnone => ?_⟩, hw⟩
  · exact h.houses.of_alike (hw.alike h.houses.isDir hends) (hw.isDir h.houses.isDir)
  · intro name
    by_cases hname : name ∈ [f.temporaryName id, f.fileName id]
    · rcases List.mem_pair.mp hname with rfl | rfl
      · exact ht
      · exact .inr ⟨_, _, _, he⟩
    · rw [Disk.IsEnd, hw.node?_child hname]
      exact h.ends name
  · rw [hentry] at hnone
    cases hnone

end HasRoom

theorem slot_serves (f : FileStore) (l : Location) (id : String) :
    (f.slot l id).Serves f.backend id where
  trans := Disk.Within.trans
  contains {d} now h := by
    change f.perform now d (.contains id) = .done d (f.entryIn? l d id).isSome []
    have hstat := Disk.stat_join h.houses h.fits (h.ends _).not_link
    unfold perform
    rcases h.ends (f.fileName id) with hn | ⟨contents, mode, modified, hn⟩
    · simp only [pathFor, hstat, hn, entryIn?]
      rfl
    · simp only [pathFor, hstat, hn, entryIn?]
      rfl
  get now h hx := by
    obtain ⟨mode, hn⟩ := h.node_of_some hx
    exact (finds_of_file h.houses h.fits hn).get now
  touch {d x} now h hx := by
    obtain ⟨mode, hn⟩ := h.node_of_some hx
    obtain ⟨e, hset, he, hw⟩ := Disk.setModified_join_file h.houses h.fits now hn
    refine ⟨e, ?_, h.turns (hw.mono (by simp)) ?_ he⟩
    · change f.perform now d (.touch id) = _
      unfold perform
      simp only [pathFor, hset]
    · have hother := hw.node?_child (by simpa using f.temporaryName_ne id id)
      rw [Disk.IsEnd, hother]
      exact h.ends _
  touch_self {d x} h hx := by
    obtain ⟨mode, hn⟩ := h.node_of_some hx
    have hset := Disk.setModified_join h.houses h.fits x.touched (h.ends _).not_link
    rw [hn] at hset
    simp only [Disk.put_of_node? (Disk.child_ne_nil l _) hn] at hset
    change f.perform x.touched d (.touch id) = _
    unfold perform
    simp only [pathFor, hset]
  set {d} now contents h hx := by
    obtain ⟨e, mode, hreplace, hw, ht, he⟩ := replace_of_fits h.houses (h.fits_temporary hx) h.fits
      (h.ends _) (h.ends _) now contents
    refine ⟨e, [.storedFile id (f.pathFor id) contents.length], ?_, h.turns hw (.inl ht) he⟩
    change f.perform now d (.set id contents) = _
    unfold perform
    simp only [hreplace]
    rfl

/-- The path of the entry is short enough, and so is that of what is written beside it if there is
no entry yet. -/
def IsRoomy (f : FileStore) (l : Location) (d : Disk) (id : String) : Prop :=
  (f.entryIn? l d id).isSome ∧ (f.pathFor id).utf8ByteSize < Path.lengthLimit ∨
    (temporary (f.pathFor id)).utf8ByteSize < Path.lengthLimit

section Room

variable (hx : f.FitExtension) (h : d.Houses f.directory l) (hends : ∀ name, d.IsEnd (l ++ [name]))
include hx h hends

theorem IsRoomy.hasRoom (hroom : f.IsRoomy l d id) : f.HasRoom l d id := by
  rcases hroom with ⟨hsome, hpath⟩ | htemporary
  · have hsimple := isSimple_fileName hx.no_slash hx.no_nul id
    refine ⟨h, hends, ⟨hsimple, hx.isName_fileName id, hpath⟩, fun hnone => ?_⟩
    rw [hnone] at hsome
    cases hsome
  · exact ⟨h, hends, hx.fits_fileName htemporary, fun _ => hx.fits_temporaryName htemporary⟩

/-- Where there is no room an id cannot be looked for, or is missing and cannot be set. -/
theorem refused_of_not_isRoomy (hroom : ¬f.IsRoomy l d id) (now : Instant) :
    f.perform now d (.contains id) = .failed d (.io .nameTooLong) ∨
      f.perform now d (.contains id) = .done d false [] ∧ ∀ contents,
        (f.perform now d (.set id contents)).result = .error (.io .nameTooLong) ∧
          (f.perform now d (.set id contents)).store = d := by
  rcases h.fits_or_long (isSimple_fileName hx.no_slash hx.no_nul id) (hx.isName_fileName id)
    with hf | hlong
  · right
    have hnone : d.node? (l ++ [f.fileName id]) = none := by
      rcases hends (f.fileName id) with hn | ⟨contents, mode, modified, hn⟩
      · exact hn
      · exact absurd (.inl ⟨by simp [entryIn?, hn, Node.entry?], hf.path_lt⟩) hroom
    have hstat := Disk.stat_join h hf (hends _).not_link
    rw [hnone] at hstat
    refine ⟨?_, fun contents => ?_⟩
    · unfold perform
      simp only [pathFor, hstat]
      rfl
    · rcases h.fits_or_long (hx.isSimple_temporaryName id) (hx.isName_temporaryName id)
        with hf | hlong
      · have hlt := hf.path_lt
        rw [← temporary_pathFor] at hlt
        exact absurd (.inr hlt) hroom
      · rw [← temporary_pathFor] at hlong
        exact perform_set_of_long hlong now contents
  · left
    have hstat : d.stat (f.pathFor id) = .error .nameTooLong := by
      rw [pathFor]
      simp [Disk.stat, hlong, bind, Except.bind]
    unfold perform
    simp only [hstat]
    rfl

end Room

end FileStore

end SessionStore
