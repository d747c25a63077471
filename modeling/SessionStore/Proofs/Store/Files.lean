import SessionStore.Proofs.Store.FileName
import SessionStore.Proofs.Store.Ledger

/-! # The file backend as a ledger

A directory with one file for each entry stands for the ledger of these entries. Every call on the
file backend finds the directory like this and leaves it like this.
-/

namespace SessionStore

/-- The entry that a file holds. -/
def Node.entry? : Node → Option Entry
  | .file contents _ modified => some ⟨contents, modified⟩
  | .directory _ _ | .link _ => none

namespace FileStore

/-- The ids can be used together: there is room for their files, and their digests differ. -/
structure CanUse (f : FileStore) (used : String → Prop) : Prop where
  room : ∀ id, used id → (temporary (f.pathFor id)).utf8ByteSize < Path.lengthLimit
  digests : ∀ id₁ id₂, used id₁ → used id₂ →
    Digest.sha256 (Utf8.encodeText id₁) = Digest.sha256 (Utf8.encodeText id₂) → id₁ = id₂

/-- The directory at `l` holds the files of the ledger's entries, and nothing else. -/
structure Holds (f : FileStore) (used : String → Prop) (l : Location) (d : Disk) (g : Ledger) :
    Prop where
  leads : d.LeadsTo f.directory l
  ends : ∀ name, d.IsEnd (l ++ [name])
  entry : ∀ id, used id → (d.node? (l ++ [f.fileName id])).bind Node.entry? = g id
  only : ∀ name, d.node? (l ++ [name]) ≠ none → ∃ id, used id ∧ name = f.fileName id
  unused : ∀ id, ¬used id → g id = none

variable {f : FileStore} {used : String → Prop} {l : Location} {d e : Disk} {g g' : Ledger}
  {id : String}

namespace Holds

variable (h : f.Holds used l d g)
include h

/-- An entry is a file. -/
theorem node_of_some (hu : used id) {x : Entry} (hx : g id = some x) :
    ∃ mode, d.node? (l ++ [f.fileName id]) = some (.file x.contents mode x.touched) := by
  have hentry := h.entry id hu
  rw [hx] at hentry
  rcases h.ends (f.fileName id) with he | ⟨contents, mode, modified, he⟩
  · rw [he] at hentry
    cases hentry
  · rw [he] at hentry
    cases hentry
    exact ⟨mode, he⟩

theorem node_of_none (hu : used id) (hx : g id = none) :
    d.node? (l ++ [f.fileName id]) = none := by
  have hentry := h.entry id hu
  rw [hx] at hentry
  rcases h.ends (f.fileName id) with he | ⟨contents, mode, modified, he⟩
  · exact he
  · rw [he] at hentry
    cases hentry

theorem temporary_none (id : String) :
    d.node? (l ++ [f.temporaryName id]) = none := by
  by_cases hn : d.node? (l ++ [f.temporaryName id]) = none
  · exact hn
  · obtain ⟨id', -, hid'⟩ := h.only _ hn
    exact absurd hid' (f.temporaryName_ne id id')

/-- A change to the file of one id and what was beside it changes the entry of that id alone. -/
theorem change (hc : f.CanUse used) (hu : used id)
    (hw : Disk.Within l [f.temporaryName id, f.fileName id] d e)
    (ht : e.node? (l ++ [f.temporaryName id]) = none) (he : e.IsEnd (l ++ [f.fileName id]))
    (hid : (e.node? (l ++ [f.fileName id])).bind Node.entry? = g' id)
    (hother : ∀ k, k ≠ id → g' k = g k) : f.Holds used l e g' := by
  have hchild : ∀ name, name ≠ f.temporaryName id → name ≠ f.fileName id →
      e.node? (l ++ [name]) = d.node? (l ++ [name]) := by
    intro name h₁ h₂
    exact hw.node?_child (by simpa using ⟨h₁, h₂⟩)
  constructor
  · exact h.leads.of_within hw fun name _ => h.ends name
  · intro name
    by_cases h₁ : name = f.temporaryName id
    · rw [h₁]
      exact .inl ht
    by_cases h₂ : name = f.fileName id
    · rw [h₂]
      exact he
    · unfold Disk.IsEnd
      rw [hchild name h₁ h₂]
      exact h.ends name
  · intro k hk
    by_cases hkid : k = id
    · rw [hkid]
      exact hid
    · have hname : f.fileName k ≠ f.fileName id := fun heq =>
        hkid (fileName_inj (hc.digests k id hk hu) heq)
      rw [hchild _ (f.temporaryName_ne id k).symm hname, hother k hkid]
      exact h.entry k hk
  · intro name hn
    by_cases h₁ : name = f.temporaryName id
    · rw [h₁] at hn
      exact absurd ht hn
    by_cases h₂ : name = f.fileName id
    · exact ⟨id, hu, h₂⟩
    · rw [hchild name h₁ h₂] at hn
      exact h.only name hn
  · intro k hk
    have hne : k ≠ id := by
      rintro rfl
      exact hk hu
    rw [hother k hne]
    exact h.unused k hk

/-- A change to the file of one id alone. -/
theorem change_file (hc : f.CanUse used) (hu : used id)
    (hw : Disk.Within l [f.fileName id] d e) (he : e.IsEnd (l ++ [f.fileName id]))
    (hid : (e.node? (l ++ [f.fileName id])).bind Node.entry? = g' id)
    (hother : ∀ k, k ≠ id → g' k = g k) : f.Holds used l e g' := by
  have htemporary : e.node? (l ++ [f.temporaryName id]) = none := by
    rw [hw.node?_child (by simpa using f.temporaryName_ne id id)]
    exact h.temporary_none id
  exact h.change hc hu (hw.mono (by simp)) htemporary he hid hother

end Holds

/-- New contents are put in place, and an event tells of it. -/
theorem perform_set_eq (f : FileStore) (now : Instant) (d : Disk) (id : String) (contents : Bytes) :
    (f.perform now d (.set id contents)).result =
        (replace now d (f.pathFor id) contents).result ∧
      (f.perform now d (.set id contents)).store =
        (replace now d (f.pathFor id) contents).store := by
  unfold perform
  dsimp only
  rcases replace now d (f.pathFor id) contents with ⟨why | _, e, events⟩
  · exact ⟨rfl, rfl⟩
  · exact ⟨rfl, rfl⟩

/-- Where the path for unfinished contents is too long, nothing can be set. -/
theorem perform_set_of_long
    (hlong : Path.ofText (temporary (f.pathFor id)) = .error .nameTooLong) (now : Instant)
    (contents : Bytes) :
    (f.perform now d (.set id contents)).result = .error (.io .nameTooLong) ∧
      (f.perform now d (.set id contents)).store = d := by
  have hwrite : d.write now 0o600 (temporary (f.pathFor id)) contents = .error .nameTooLong := by
    simp [Disk.write, hlong, bind, Except.bind]
  have hremove : d.remove now (temporary (f.pathFor id)) = .error .nameTooLong := by
    simp [Disk.remove, hlong, bind, Except.bind]
  have hreplace : (replace now d (f.pathFor id) contents).result = .error (.io .nameTooLong) ∧
      (replace now d (f.pathFor id) contents).store = d := by
    constructor <;> simp only [replace, hwrite, discard, hremove]
  obtain ⟨hresult, hstore⟩ := perform_set_eq f now d id contents
  exact ⟨hresult.trans hreplace.1, hstore.trans hreplace.2⟩

/-- Where there is no room for unfinished contents, nothing can be set. -/
theorem perform_set_of_no_room (hx : f.HasExtension) {p : Path}
    (hp : Path.ofText f.directory = .ok p)
    (hroom : Path.lengthLimit ≤ (temporary (f.pathFor id)).utf8ByteSize) (now : Instant)
    (contents : Bytes) :
    (f.perform now d (.set id contents)).result = .error (.io .nameTooLong) ∧
      (f.perform now d (.set id contents)).store = d := by
  refine perform_set_of_long ?_ now contents
  rw [temporary_pathFor] at hroom ⊢
  exact Path.ofText_join_of_le hp (hx.fit.isSimple_temporaryName id) hroom

/-- New contents are written beside the file and take its place. -/
theorem replace_of_fits (h : d.Houses f.directory l)
    (ht : Disk.Fits f.directory (f.temporaryName id)) (hf : Disk.Fits f.directory (f.fileName id))
    (hte : d.IsEnd (l ++ [f.temporaryName id])) (hfe : d.IsEnd (l ++ [f.fileName id]))
    (now : Instant) (contents : Bytes) :
    ∃ e mode, replace now d (f.pathFor id) contents = .done e () [] ∧
      Disk.Within l [f.temporaryName id, f.fileName id] d e ∧
      e.node? (l ++ [f.temporaryName id]) = none ∧
      e.node? (l ++ [f.fileName id]) = some (.file contents mode now) := by
  have hne := f.temporaryName_ne id id
  obtain ⟨e₁, mode, hwrite, hnode, hw₁⟩ := Disk.write_join h ht now hte 0o600 contents
  have hends : ∀ name ∈ [f.temporaryName id], d.IsEnd (l ++ [name]) := by
    simpa using hte
  have hend : e₁.IsEnd (l ++ [f.fileName id]) := by
    unfold Disk.IsEnd
    rw [hw₁.node?_child (by simpa using hne.symm)]
    exact hfe
  obtain ⟨e₂, hrename, hgone, hplaced, hw₂⟩ :=
    Disk.rename_join (h.of_alike (hw₁.alike h.isDir hends) (hw₁.isDir h.isDir)) hf now ht hne hnode
      hend
  refine ⟨e₂, mode, ?_, (hw₁.mono (by simp)).trans hw₂, hgone, hplaced⟩
  rw [replace, temporary_pathFor, hwrite]
  simp only
  rw [pathFor, hrename]

/-! ## Single calls -/

section Calls

variable (hx : f.HasExtension) (hc : f.CanUse used) (h : f.Holds used l d g) (hu : used id)
  (now : Instant)
include hx hc h hu

theorem stat_pathFor :
    d.stat (f.pathFor id) = match d.node? (l ++ [f.fileName id]) with
      | none => .error .notFound
      | some n => .ok n :=
  Disk.stat_join h.leads.houses (hx.fit.fits_fileName (hc.room id hu)) (h.ends _).not_link

theorem perform_contains :
    f.perform now d (.contains id) = .done d (g id).isSome [] := by
  unfold perform
  simp only [stat_pathFor hx hc h hu]
  rcases hg : g id with _ | x
  · rw [h.node_of_none hu hg]
    rfl
  · obtain ⟨mode, hn⟩ := h.node_of_some hu hg
    rw [hn]
    rfl

theorem perform_get :
    (f.perform now d (.get id)).result = g.answer now (.get id) ∧
      (f.perform now d (.get id)).store = d := by
  have hf := hx.fit.fits_fileName (hc.room id hu)
  unfold perform
  simp only [Ledger.answer]
  rcases hg : g id with _ | x
  · rw [pathFor, Disk.read_join_none h.leads.houses hf (h.node_of_none hu hg)]
    exact ⟨rfl, rfl⟩
  · obtain ⟨mode, hn⟩ := h.node_of_some hu hg
    rw [pathFor, Disk.read_join_file h.leads.houses hf hn]
    exact ⟨rfl, rfl⟩

theorem replace_pathFor (contents : Bytes) :
    ∃ e mode, replace now d (f.pathFor id) contents = .done e () [] ∧
      Disk.Within l [f.temporaryName id, f.fileName id] d e ∧
      e.node? (l ++ [f.temporaryName id]) = none ∧
      e.node? (l ++ [f.fileName id]) = some (.file contents mode now) :=
  replace_of_fits h.leads.houses (hx.fit.fits_temporaryName (hc.room id hu))
    (hx.fit.fits_fileName (hc.room id hu)) (h.ends _) (h.ends _) now contents

theorem perform_set (contents : Bytes) :
    (f.perform now d (.set id contents)).result = .ok () ∧
      f.Holds used l (f.perform now d (.set id contents)).store
        (g.after now (.set id contents)) := by
  obtain ⟨e, mode, hreplace, hw, hgone, hplaced⟩ := replace_pathFor hx hc h hu now contents
  unfold perform
  simp only [hreplace]
  refine ⟨rfl, h.change (e := e) hc hu hw hgone (.inr ⟨_, _, _, hplaced⟩) ?_ ?_⟩
  · rw [hplaced]
    simp [Node.entry?, Ledger.after, Call.turn]
  · intro k hk
    simp [Ledger.after, Call.turn, hk.symm]

theorem perform_delete :
    (f.perform now d (.delete id)).result = .ok () ∧
      f.Holds used l (f.perform now d (.delete id)).store (g.after now (.delete id)) := by
  have hf := hx.fit.fits_fileName (hc.room id hu)
  have hother : ∀ k, k ≠ id → g.after now (.delete id) k = g k := by
    intro k hk
    simp [Ledger.after, Call.turn, hk.symm]
  have hid : g.after now (.delete id) id = none := by simp [Ledger.after, Call.turn]
  rcases hg : g id with _ | x
  · have hn := h.node_of_none hu hg
    unfold perform
    simp only [pathFor, Disk.remove_join_none h.leads.houses hf now hn]
    refine ⟨rfl, h.change_file (e := d) hc hu (.refl l _ d) (.inl hn) ?_ hother⟩
    rw [hid, hn]
    rfl
  · obtain ⟨mode, hn⟩ := h.node_of_some hu hg
    obtain ⟨e, hremove, hgone, hw⟩ := Disk.remove_join_file h.leads.houses hf now hn
    unfold perform
    simp only [pathFor, hremove]
    refine ⟨rfl, h.change_file (e := e) hc hu hw (.inl hgone) ?_ hother⟩
    rw [hid, hgone]
    rfl

theorem perform_touch :
    (f.perform now d (.touch id)).result = g.answer now (.touch id) ∧
      f.Holds used l (f.perform now d (.touch id)).store (g.after now (.touch id)) := by
  have hf := hx.fit.fits_fileName (hc.room id hu)
  have hother : ∀ k, k ≠ id → g.after now (.touch id) k = g k := by
    intro k hk
    simp [Ledger.after, Call.turn, hk.symm]
  have hid : g.after now (.touch id) id = (g id).map fun x => ⟨x.contents, now⟩ := by
    simp [Ledger.after, Call.turn]
  rcases hg : g id with _ | x
  · have hn := h.node_of_none hu hg
    unfold perform
    simp only [pathFor, Disk.setModified_join_none h.leads.houses hf now hn, Ledger.answer, hg]
    refine ⟨rfl, h.change_file (e := d) hc hu (.refl l _ d) (.inl hn) ?_ hother⟩
    rw [hid, hg, hn]
    rfl
  · obtain ⟨mode, hn⟩ := h.node_of_some hu hg
    obtain ⟨e, hset, hplaced, hw⟩ := Disk.setModified_join_file h.leads.houses hf now hn
    unfold perform
    simp only [pathFor, hset, Ledger.answer, hg]
    refine ⟨rfl, h.change_file (e := e) hc hu hw (.inr ⟨_, _, _, hplaced⟩) ?_ hother⟩
    rw [hid, hg, hplaced]
    rfl

end Calls

/-! ## Sweeping -/

/-- The name is that of an entry or of unfinished contents. -/
def isSwept (f : FileStore) (name : String) : Bool :=
  f.isEntry name.toList || f.isTemporary name.toList

section Sweep

variable {now : Instant} {maxAge : Duration} {name : String} {names : List String}

theorem sweep_cons_of_not_swept (hswept : f.isSwept name = false)
    (removed : Nat) (d : Disk) :
    f.sweep now maxAge removed d (name :: names) = f.sweep now maxAge removed d names := by
  rw [isSwept] at hswept
  rw [sweep, hswept]
  rfl

theorem sweep_cons_of_error {why : IoFault} (hswept : f.isSwept name = true)
    (hexpire : expire now maxAge d (Path.join f.directory name) = .error why) (removed : Nat) :
    f.sweep now maxAge removed d (name :: names) =
      ⟨.error (.io why), d, [.expiredLeft (Path.join f.directory name) why]⟩ := by
  rw [isSwept] at hswept
  rw [sweep, hswept]
  simp only [hexpire, if_true]

theorem sweep_cons_of_ok {gone : Bool} (hswept : f.isSwept name = true)
    (hexpire : expire now maxAge d (Path.join f.directory name) = .ok (gone, e)) (removed : Nat) :
    f.sweep now maxAge removed d (name :: names) =
      f.sweep now maxAge (if gone && f.isEntry name.toList then removed + 1 else removed) e
        names := by
  rw [isSwept] at hswept
  rw [sweep, hswept]
  simp only [hexpire, if_true]

/-- A purge goes through all names in the directory. -/
theorem purge_eq_sweep (h : d.LeadsTo f.directory l) (now : Instant) (maxAge : Duration) :
    (f.purge now maxAge d).result = (f.sweep now maxAge 0 d (d.namesIn l)).result ∧
      (f.purge now maxAge d).store = (f.sweep now maxAge 0 d (d.namesIn l)).store := by
  rw [purge, h.list]
  simp only
  rcases hr : (f.sweep now maxAge 0 d (d.namesIn l)).result with why | removed
  · exact ⟨hr, rfl⟩
  · simp only
    split
    · exact ⟨hr, rfl⟩
    · exact ⟨rfl, rfl⟩

end Sweep

/-! ## Purging -/

/-- The entry has been idle for longer than `maxAge`. -/
def isStale (now : Instant) (maxAge : Duration) (e? : Option Entry) : Bool :=
  e?.any fun e => decide (maxAge < Instant.elapsed now e.touched)

/-- The ledger without what is stale under the given ids. -/
def swept (now : Instant) (maxAge : Duration) (ids : List String) (g : Ledger) : Ledger :=
  fun k => if k ∈ ids then (Call.purge maxAge).turn now k (g k) else g k

section Swept

variable {now : Instant} {maxAge : Duration} {ids : List String}

theorem swept_of_mem (h : id ∈ ids) :
    swept now maxAge ids g id = (Call.purge maxAge).turn now id (g id) := if_pos h

theorem swept_of_not_mem (h : id ∉ ids) : swept now maxAge ids g id = g id := if_neg h

theorem swept_nil : swept now maxAge [] g = g := by
  funext k
  exact swept_of_not_mem List.not_mem_nil

theorem swept_singleton {k : String} (h : id ∉ ids) (hk : k ∈ ids) :
    swept now maxAge [id] g k = g k := by
  apply swept_of_not_mem
  intro heq
  rw [List.mem_singleton.mp heq] at hk
  exact h hk

/-- Ids can be swept one after the other. -/
theorem swept_cons (h : id ∉ ids) :
    swept now maxAge ids (swept now maxAge [id] g) = swept now maxAge (id :: ids) g := by
  funext k
  by_cases hk : k ∈ ids
  · rw [swept_of_mem hk, swept_singleton h hk, swept_of_mem (List.mem_cons_of_mem _ hk)]
  · rw [swept_of_not_mem hk]
    by_cases heq : k = id
    · subst heq
      rw [swept_of_mem List.mem_cons_self, swept_of_mem List.mem_cons_self]
    · rw [swept_of_not_mem (by simp [heq]), swept_of_not_mem (by simp [heq, hk])]

/-- A purge sweeps the ids of all entries. -/
theorem swept_eq_after (h : ∀ k, (g k).isSome → k ∈ ids) :
    swept now maxAge ids g = g.after now (.purge maxAge) := by
  funext k
  by_cases hk : k ∈ ids
  · exact swept_of_mem hk
  · have hnone : g k = none := by simpa using mt (h k) hk
    rw [swept_of_not_mem hk, Ledger.after, hnone]
    rfl

end Swept

theorem turn_purge_of_stale {now : Instant} {maxAge : Duration} {e? : Option Entry}
    (h : isStale now maxAge e? = true) : (Call.purge maxAge).turn now id e? = none := by
  rcases e? with _ | e
  · rfl
  · have hlt : maxAge < Instant.elapsed now e.touched := by simpa [isStale] using h
    have hle : ¬Instant.elapsed now e.touched ≤ maxAge := Nat.not_le.mpr hlt
    simp [Call.turn, hle]

theorem turn_purge_of_not_stale {now : Instant} {maxAge : Duration} {e? : Option Entry}
    (h : isStale now maxAge e? = false) : (Call.purge maxAge).turn now id e? = e? := by
  rcases e? with _ | e
  · rfl
  · have hlt : ¬maxAge < Instant.elapsed now e.touched := by simpa [isStale] using h
    have hle : Instant.elapsed now e.touched ≤ maxAge := Nat.not_lt.mp hlt
    simp [Call.turn, hle]

theorem mem_stale {now : Instant} {maxAge : Duration} :
    id ∈ g.stale now maxAge ↔ isStale now maxAge (g id) = true := by
  rcases hg : g id with _ | x <;> simp [Ledger.stale, isStale, hg]

/-- The directory lists the files of the entries, each once. -/
theorem exists_namesIn (hc : f.CanUse used) (h : f.Holds used l d g) :
    ∃ ids : List String, d.namesIn l = ids.map f.fileName ∧ ids.Nodup ∧
      (∀ id ∈ ids, used id) ∧ ∀ id, id ∈ ids ↔ (g id).isSome := by
  have hnames : ∀ name ∈ d.namesIn l, ∃ id, used id ∧ name = f.fileName id :=
    fun name hname => h.only name (Disk.mem_namesIn.mp hname)
  choose! idOf hidOf using hnames
  have hmap : d.namesIn l = ((d.namesIn l).map idOf).map f.fileName := by
    rw [List.map_map]
    exact (List.map_id _).symm.trans (List.map_congr_left fun name hname => (hidOf name hname).2)
  have hused : ∀ id ∈ (d.namesIn l).map idOf, used id := by
    intro id hid
    obtain ⟨name, hname, rfl⟩ := List.mem_map.mp hid
    exact (hidOf name hname).1
  refine ⟨(d.namesIn l).map idOf, hmap, ?_, hused, ?_⟩
  · have hnodup := Disk.nodup_namesIn d l
    rw [hmap] at hnodup
    exact hnodup.of_map
  · intro id
    constructor
    · intro hid
      have hname : f.fileName id ∈ d.namesIn l := by
        rw [hmap]
        exact List.mem_map_of_mem hid
      by_contra hnone
      exact Disk.mem_namesIn.mp hname
        (h.node_of_none (hused id hid) (Option.not_isSome_iff_eq_none.mp hnone))
    · intro hsome
      obtain ⟨x, hx⟩ := Option.isSome_iff_exists.mp hsome
      have hu : used id := by
        by_contra hu
        rw [h.unused id hu] at hx
        cases hx
      obtain ⟨mode, hnode⟩ := h.node_of_some hu hx
      have hname : f.fileName id ∈ d.namesIn l := by
        rw [Disk.mem_namesIn, hnode]
        simp
      rw [hmap] at hname
      obtain ⟨id', hid', heq⟩ := List.mem_map.mp hname
      rwa [← fileName_inj (hc.digests id' id (hused id' hid') hu) heq]

section Purge

variable (hx : f.HasExtension) (hc : f.CanUse used)
include hx hc

/-- The file of an entry goes exactly if the entry is stale. -/
theorem expire_pathFor (h : f.Holds used l d g) (hu : used id) (now : Instant) (maxAge : Duration)
    {x : Entry} (hg : g id = some x) :
    ∃ e, expire now maxAge d (f.pathFor id) = .ok (isStale now maxAge (g id), e) ∧
      f.Holds used l e (swept now maxAge [id] g) := by
  have hf := hx.fit.fits_fileName (hc.room id hu)
  obtain ⟨mode, hn⟩ := h.node_of_some hu hg
  have hother : ∀ k, k ≠ id → swept now maxAge [id] g k = g k := by
    intro k hk
    exact swept_of_not_mem (by simpa using hk)
  have hid : swept now maxAge [id] g id = (Call.purge maxAge).turn now id (g id) :=
    swept_of_mem List.mem_cons_self
  by_cases hle : Instant.elapsed now x.touched ≤ maxAge
  · have hstale : isStale now maxAge (g id) = false := by
      have hlt : ¬maxAge < Instant.elapsed now x.touched := Nat.not_lt.mpr hle
      simp [isStale, hg, hlt]
    refine ⟨d, ?_, ?_⟩
    · simp only [expire, stat_pathFor hx hc h hu, hn, if_pos hle, hstale]
    · refine h.change_file hc hu (.refl l _ d) (h.ends _) ?_ hother
      rw [hid, turn_purge_of_not_stale hstale]
      exact h.entry id hu
  · have hstale : isStale now maxAge (g id) = true := by
      have hlt : maxAge < Instant.elapsed now x.touched := Nat.not_le.mp hle
      simp [isStale, hg, hlt]
    obtain ⟨e, hremove, hgone, hw⟩ := Disk.remove_join_file h.leads.houses hf now hn
    refine ⟨e, ?_, ?_⟩
    · have hremove' : d.remove now (f.pathFor id) = .ok e := hremove
      simp only [expire, stat_pathFor hx hc h hu, hn, if_neg hle, hstale, hremove']
    · refine h.change_file hc hu hw (.inl hgone) ?_ hother
      rw [hid, turn_purge_of_stale hstale, hgone]
      rfl

theorem sweep_files (now : Instant) (maxAge : Duration) {ids : List String} (hn : ids.Nodup)
    (h : f.Holds used l d g) (hids : ∀ id ∈ ids, used id ∧ (g id).isSome) (removed : Nat) :
    (f.sweep now maxAge removed d (ids.map f.fileName)).result =
        .ok (removed + (ids.filter fun id => isStale now maxAge (g id)).length) ∧
      f.Holds used l (f.sweep now maxAge removed d (ids.map f.fileName)).store
        (swept now maxAge ids g) := by
  induction ids generalizing d g removed with
  | nil =>
    rw [swept_nil]
    exact ⟨rfl, h⟩
  | cons id ids ih =>
    obtain ⟨hu, hsome⟩ := hids id (by simp)
    obtain ⟨x, hg⟩ := Option.isSome_iff_exists.mp hsome
    obtain ⟨e, hexpire, h'⟩ := expire_pathFor hx hc h hu now maxAge hg
    have hexpire : expire now maxAge d (Path.join f.directory (f.fileName id)) =
        .ok (isStale now maxAge (g id), e) := hexpire
    obtain ⟨hfresh, hn⟩ := List.nodup_cons.mp hn
    have hsame : ∀ k ∈ ids, swept now maxAge [id] g k = g k := fun k hk =>
      swept_singleton hfresh hk
    have hids' : ∀ k ∈ ids, used k ∧ (swept now maxAge [id] g k).isSome := by
      intro k hk
      rw [hsame k hk]
      exact hids k (List.mem_cons_of_mem _ hk)
    have hstep : f.sweep now maxAge removed d ((id :: ids).map f.fileName) =
        f.sweep now maxAge (if isStale now maxAge (g id) then removed + 1 else removed) e
          (ids.map f.fileName) := by
      have hentry := isEntry_fileName hx.no_dot id
      have hswept : f.isSwept (f.fileName id) = true := by rw [isSwept, hentry, Bool.true_or]
      rw [List.map_cons, sweep_cons_of_ok hswept hexpire, hentry, Bool.and_true]
    have hcount : ids.filter (fun k => isStale now maxAge (swept now maxAge [id] g k)) =
        ids.filter fun k => isStale now maxAge (g k) := by
      apply List.filter_congr
      intro k hk
      rw [hsame k hk]
    obtain ⟨hresult, hstore⟩ :=
      ih hn h' hids' (if isStale now maxAge (g id) then removed + 1 else removed)
    rw [hstep, hresult, hcount, ← swept_cons hfresh]
    refine ⟨?_, hstore⟩
    rw [List.filter_cons]
    split
    · rw [List.length_cons]
      congr 1
      omega
    · rfl

theorem perform_purge (h : f.Holds used l d g) (now : Instant) (maxAge : Duration) :
    (f.perform now d (.purge maxAge)).result = g.answer now (.purge maxAge) ∧
      f.Holds used l (f.perform now d (.purge maxAge)).store (g.after now (.purge maxAge)) := by
  obtain ⟨ids, hnames, hn, hused, hmem⟩ := exists_namesIn hc h
  obtain ⟨hresult, hstore⟩ := sweep_files hx hc now maxAge hn h
    (fun id hid => ⟨hused id hid, (hmem id).mp hid⟩) 0
  have hafter : swept now maxAge ids g = g.after now (.purge maxAge) :=
    swept_eq_after fun id => (hmem id).mpr
  have hcount : (g.stale now maxAge).ncard =
      (ids.filter fun id => isStale now maxAge (g id)).length := by
    apply Ledger.ncard_stale (hn.filter _)
    intro id
    rw [List.mem_filter, mem_stale, hmem]
    apply and_iff_right_of_imp
    intro hstale
    rcases hg : g id with _ | x
    · rw [hg] at hstale
      cases hstale
    · rfl
  obtain ⟨hpurge, hleft⟩ := purge_eq_sweep (f := f) h.leads now maxAge
  rw [hnames] at hpurge hleft
  rw [Nat.zero_add] at hresult
  rw [hafter, ← hleft] at hstore
  exact ⟨hpurge.trans (hresult.trans (congrArg Except.ok hcount.symm)), hstore⟩

end Purge

/-- A started store whose directory has not been touched by others follows the ledger of its
entries. -/
theorem backend_follows (hx : f.HasExtension) (hc : f.CanUse used) (l : Location) :
    f.backend.Follows used (f.Holds used l) := by
  intro now d g c hids h
  change (f.perform now d c).result = g.answer now c ∧
    f.Holds used l (f.perform now d c).store (g.after now c)
  cases c with
  | start =>
    obtain ⟨mode, modified, hstat⟩ := h.leads.stat
    have hstart : f.perform now d .start = .done d () [.directoryReady f.directory] := by
      unfold perform
      simp only [prepare, hstat]
    rw [hstart]
    exact ⟨rfl, h⟩
  | stop => exact ⟨rfl, h⟩
  | contains id =>
    have hcontains := perform_contains hx hc h (hids id (by simp [Call.ids])) now
    rw [hcontains]
    exact ⟨rfl, h⟩
  | get id =>
    obtain ⟨hresult, hstore⟩ := perform_get hx hc h (hids id (by simp [Call.ids])) now
    refine ⟨hresult, ?_⟩
    rw [hstore]
    exact h
  | set id contents => exact perform_set hx hc h (hids id (by simp [Call.ids])) now contents
  | delete id => exact perform_delete hx hc h (hids id (by simp [Call.ids])) now
  | touch id => exact perform_touch hx hc h (hids id (by simp [Call.ids])) now
  | purge maxAge => exact perform_purge hx hc h now maxAge

end FileStore

end SessionStore
