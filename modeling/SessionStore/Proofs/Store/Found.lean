import SessionStore.Proofs.Store.Files

/-! # What is set is found

Contents that a store has taken for an id are there at every later instant, until the next call that
changes them. A file backend needs for this that no link stands where it puts the file.
-/

namespace SessionStore

variable {σ : Type}

/-- The store has the contents under the id, now and at any instant. -/
structure Backend.Finds (b : Backend σ) (s : σ) (id : String) (contents : Bytes) : Prop where
  contains : ∀ now, b.perform now s (.contains id) = .done s true []
  get : ∀ now, b.perform now s (.get id) = .done s contents []
  touch : ∀ now, (b.perform now s (.touch id)).result = .ok ()

/-- The memory takes everything. -/
theorem Memory.finds_set (m : Memory) (now : Instant) (id : String) (contents : Bytes) :
    Memory.backend.Finds (Memory.backend.perform now m (.set id contents)).store id contents := by
  change Memory.backend.Finds (m.insert id ⟨contents, now⟩) id contents
  have hentry : (m.insert id ⟨contents, now⟩)[id]? = some ⟨contents, now⟩ :=
    Std.ExtTreeMap.getElem?_insert_self
  constructor
  · intro later
    simp only [backend, perform]
    rw [Std.ExtTreeMap.contains_eq_isSome_getElem?, hentry]
    rfl
  · intro later
    simp only [backend, perform]
    rw [hentry]
  · intro later
    simp only [backend, perform]
    rw [hentry]
    rfl

namespace FileStore

variable {f : FileStore} {l : Location} {d : Disk} {id : String}

/-- The directory is there, and no link takes the place of the file of an id or of what is written
before it becomes that file. -/
structure InOrder (f : FileStore) (l : Location) (d : Disk) (id : String) : Prop where
  leads : d.LeadsTo f.directory l
  no_slash : '/' ∉ f.extension.toList
  no_link : ∀ target, d.node? (l ++ [f.fileName id]) ≠ some (.link target)
  no_link_temporary : ∀ target, d.node? (l ++ [f.temporaryName id]) ≠ some (.link target)

/-- A directory that stands for a ledger is in order. -/
theorem Holds.inOrder {used : String → Prop} {g : Ledger} (h : f.Holds used l d g)
    (hx : f.HasExtension) (id : String) : f.InOrder l d id where
  leads := h.leads
  no_slash := hx.no_slash
  no_link := (h.ends _).not_link
  no_link_temporary := (h.ends _).not_link

/-- Where the file of an id is, its contents are found. -/
theorem finds_of_file (h : d.Houses f.directory l) (hf : Disk.Fits f.directory (f.fileName id))
    {contents : Bytes} {mode : Nat} {modified : Instant}
    (hn : d.node? (l ++ [f.fileName id]) = some (.file contents mode modified)) :
    f.backend.Finds d id contents := by
  constructor
  · intro now
    unfold backend perform
    simp only [pathFor, Disk.stat_join h hf (Disk.IsEnd.not_link (.inr ⟨_, _, _, hn⟩)), hn]
  · intro now
    unfold backend perform
    simp only [pathFor, Disk.read_join_file h hf hn]
  · intro now
    obtain ⟨e, hset, -, -⟩ := Disk.setModified_join_file h hf now hn
    unfold backend perform
    simp only [pathFor, hset]
    rfl

/-- If contents are put in place, they could be written before, and moved then. -/
theorem replace_eq_ok {now : Instant} {path : String} {contents : Bytes}
    (hok : (replace now d path contents).result = .ok ()) :
    ∃ e e', d.write now 0o600 (temporary path) contents = .ok e ∧
      e.rename now (temporary path) path = .ok e' := by
  have hdiscard : ∀ e why, (discard now e (temporary path) why).result ≠ .ok () := by
    intro e why
    unfold discard
    split <;> simp [Outcome.failed]
  unfold replace at hok
  rcases hw : d.write now 0o600 (temporary path) contents with why | e
  · rw [hw] at hok
    exact absurd hok (hdiscard _ _)
  rcases hr : e.rename now (temporary path) path with why | e'
  · simp only [hw, hr] at hok
    exact absurd hok (hdiscard _ _)
  exact ⟨e, e', rfl, hr⟩

theorem replace_of_set {now : Instant} {contents : Bytes}
    (hok : (f.perform now d (.set id contents)).result = .ok ()) :
    (replace now d (f.pathFor id) contents).result = .ok () := by
  rwa [(perform_set_eq f now d id contents).1] at hok

namespace InOrder

variable {now : Instant} {contents : Bytes}

/-- What could be written had a usable name, at which there was no directory. -/
theorem of_write (h : f.InOrder l d id) {e : Disk}
    (hw : d.write now 0o600 (temporary (f.pathFor id)) contents = .ok e) :
    Disk.Fits f.directory (f.temporaryName id) ∧ d.IsEnd (l ++ [f.temporaryName id]) := by
  obtain ⟨q, m, hq, hloc, hdir⟩ := Disk.write_eq_ok hw
  obtain ⟨p, hp, -⟩ := h.leads.walk
  have hne := f.fileName_append_ne id ".tmp"
  rw [temporary_pathFor] at hq
  have ht : Disk.Fits f.directory (f.temporaryName id) :=
    Disk.fits_of_locate hp (f.fileName_append_ne_empty id ".tmp")
      (slash_not_mem_temporaryName h.no_slash id) hne.1 hne.2 hq hloc
  obtain ⟨q', hq', -, hloc'⟩ := h.leads.houses.locate ht true fun _ => h.no_link_temporary
  rw [hq] at hq'
  cases hq'
  rw [hloc] at hloc'
  cases hloc'
  exact ⟨ht, Disk.isEnd_of_not hdir h.no_link_temporary⟩

/-- What could be moved to the file of an id met no directory there. -/
theorem of_rename (h : f.InOrder l d id) (hf : Disk.Fits f.directory (f.fileName id)) {e : Disk}
    {source : String} (hr : d.rename now source (f.pathFor id) = .ok e) :
    d.IsEnd (l ++ [f.fileName id]) := by
  obtain ⟨q, m, hq, hloc, hdir, -⟩ := Disk.rename_eq_ok hr
  obtain ⟨q', hq', hclosed, hloc'⟩ := h.leads.houses.locate hf false fun hfalse => by cases hfalse
  rw [pathFor, hq'] at hq
  cases hq
  have hopen : ({ q with closed := false } : Path) = q := by rw [← hclosed]
  rw [hopen, hloc'] at hloc
  cases hloc
  exact Disk.isEnd_of_not hdir h.no_link

/-- New contents beside the file change nothing in the order. -/
theorem of_within (h : f.InOrder l d id) {e : Disk}
    (hw : Disk.Within l [f.temporaryName id] d e) (hd : d.IsEnd (l ++ [f.temporaryName id]))
    (he : e.IsEnd (l ++ [f.temporaryName id])) : f.InOrder l e id where
  leads := h.leads.of_within hw (by simpa using hd)
  no_slash := h.no_slash
  no_link := by
    rw [hw.node?_child (by simpa using (f.temporaryName_ne id id).symm)]
    exact h.no_link
  no_link_temporary := he.not_link

end InOrder

/-- A file backend that is in order finds what it has taken. -/
theorem finds_set (h : f.InOrder l d id) {now : Instant} {contents : Bytes}
    (hok : (f.perform now d (.set id contents)).result = .ok ()) :
    f.backend.Finds (f.perform now d (.set id contents)).store id contents := by
  obtain ⟨e, e', hw, hr⟩ := replace_eq_ok (replace_of_set hok)
  obtain ⟨ht, hte⟩ := h.of_write hw
  have hf := fits_of_temporaryName ht
  have hfe : d.IsEnd (l ++ [f.fileName id]) := by
    obtain ⟨e₁, mode, hwrite, hnode, hwithin⟩ :=
      Disk.write_join h.leads.houses ht now hte 0o600 contents
    rw [← temporary_pathFor, hw] at hwrite
    cases hwrite
    have he := (h.of_within hwithin hte (.inr ⟨_, _, _, hnode⟩)).of_rename hf hr
    unfold Disk.IsEnd at he ⊢
    rwa [hwithin.node?_child (by simpa using (f.temporaryName_ne id id).symm)] at he
  obtain ⟨e₂, mode, hreplace, hwithin, -, hplaced⟩ :=
    replace_of_fits h.leads.houses ht hf hte hfe now contents
  have hleads : e₂.LeadsTo f.directory l := h.leads.of_within hwithin (by simp [hte, hfe])
  unfold perform
  simp only [hreplace]
  exact finds_of_file hleads.houses hf hplaced

end FileStore

end SessionStore
