import SessionStore.Proofs.Disk.Plain
import SessionStore.Proofs.Engine.Histories
import SessionStore.Proofs.Store.Sweeping

/-! # Foreign files

Whatever is asked of a file store, and whether or not it succeeds, a file is changed only right
inside of the directory, under a name that entries or unfinished contents can have. Every other file
stays as it is, and so does every directory.
-/

namespace SessionStore

namespace FileStore

variable {f : FileStore} {d e : Disk} {name id : String} {now : Instant} {maxAge : Duration}

/-- The location that the path of the directory means. -/
def home (f : FileStore) : Location := Disk.homeOf f.directory

/-- A name with the extension of entries, or with that of unfinished contents behind it. -/
def IsOwnName (f : FileStore) (name : String) : Prop :=
  ∃ stem, stem ≠ "" ∧
    (name = stem ++ "." ++ f.extension ∨ name = stem ++ "." ++ f.extension ++ ".tmp")

/-- The location is right inside of the directory, under such a name. -/
def Owns (f : FileStore) (l : Location) : Prop := ∃ name, f.IsOwnName name ∧ l = f.home ++ [name]

/-! ## Names of the store's own -/

theorem stem_ne_empty (id : String) : stem id ≠ "" := by
  intro h
  exact stem_ne_nil id (by rw [h]; rfl)

theorem isOwnName_fileName (f : FileStore) (id : String) : f.IsOwnName (f.fileName id) :=
  ⟨stem id, stem_ne_empty id, .inl rfl⟩

theorem isOwnName_temporaryName (f : FileStore) (id : String) :
    f.IsOwnName (f.temporaryName id) :=
  ⟨stem id, stem_ne_empty id, .inr rfl⟩

theorem cut?_eq_some {cs before ext : List Char} (h : cut? cs = some (before, ext)) :
    cs = before ++ '.' :: ext ∧ before ≠ [] := by
  unfold cut? at h
  split at h
  · cases h
  · split at h
    · cases h
    · cases h
    · next dot rest hnil hdrop =>
      simp only [Option.some.injEq, Prod.mk.injEq] at h
      obtain ⟨rfl, rfl⟩ := h
      have hdot : dot = '.' := by
        have hhead := List.head?_dropWhile_not (· ≠ '.') cs.reverse
        rw [hdrop] at hhead
        simpa using hhead
      have hsplit := List.takeWhile_append_dropWhile (p := (· ≠ '.')) (l := cs.reverse)
      rw [hdrop, hdot] at hsplit
      refine ⟨?_, fun heq => hnil (List.reverse_eq_nil_iff.mp heq)⟩
      have htext := congrArg List.reverse hsplit
      rw [List.reverse_append, List.reverse_cons, List.append_assoc, List.reverse_reverse] at htext
      exact htext.symm

theorem of_isEntry {cs : List Char} (h : f.isEntry cs = true) :
    ∃ before, before ≠ [] ∧ cs = before ++ '.' :: f.extension.toList := by
  rcases hc : cut? cs with _ | ⟨before, ext⟩
  · simp [isEntry, hc] at h
  · obtain ⟨hcs, hne⟩ := cut?_eq_some hc
    obtain rfl : ext = f.extension.toList := by simpa [isEntry, hc] using h
    exact ⟨before, hne, hcs⟩

/-- What a purge may take has a name of the store's own. -/
theorem isOwnName_of_isSwept (h : f.isSwept name = true) : f.IsOwnName name := by
  rcases Bool.or_eq_true_iff.mp h with h | h
  · obtain ⟨before, hne, htext⟩ := of_isEntry h
    refine ⟨String.ofList before, by simpa using hne, .inl ?_⟩
    apply String.toList_inj.mp
    simp [htext]
  · rcases hc : cut? name.toList with _ | ⟨cs, ext⟩
    · simp [isTemporary, hc] at h
    · obtain ⟨hext, hentry⟩ : ext = "tmp".toList ∧ f.isEntry cs = true := by
        simpa [isTemporary, hc] using h
      obtain ⟨before, hne, hcs⟩ := of_isEntry hentry
      refine ⟨String.ofList before, by simpa using hne, .inr ?_⟩
      apply String.toList_inj.mp
      simp [(cut?_eq_some hc).1, hcs, hext]

/-! ## Single calls -/

section Calls

variable (hslash : '/' ∉ f.extension.toList) (hnul : '\x00' ∉ f.extension.toList)
include hslash hnul

theorem isOrdinary_fileName (id : String) : Path.IsOrdinary (f.fileName id) := by
  have hne := f.fileName_append_ne id ""
  rw [String.append_empty] at hne
  exact ⟨isSimple_fileName hslash hnul id, hne.1, hne.2⟩

theorem isOrdinary_temporaryName (id : String) : Path.IsOrdinary (f.temporaryName id) where
  nonempty := f.fileName_append_ne_empty id ".tmp"
  no_slash := slash_not_mem_temporaryName hslash id
  no_nul := by simp [temporaryName, (isSimple_fileName hslash hnul id).no_nul]
  ne_dot := (f.fileName_append_ne id ".tmp").1
  ne_dots := (f.fileName_append_ne id ".tmp").2

theorem discard_spares (hd : d.IsPlain) (id : String) (why : IoFault) :
    d.Spares f.Owns (discard now d (temporary (f.pathFor id)) why).store := by
  rw [discard, temporary_pathFor]
  rcases hremove : d.remove now (Path.join f.directory (f.temporaryName id)) with left | e
  · exact .refl _ d
  · exact Disk.remove_spares hd (isOrdinary_temporaryName hslash hnul id)
      ⟨_, f.isOwnName_temporaryName id, rfl⟩ hremove

theorem replace_spares (hd : d.IsPlain) (id : String) (contents : Bytes) :
    d.Spares f.Owns (replace now d (f.pathFor id) contents).store := by
  have htemporary : f.Owns (Disk.homeOf f.directory ++ [f.temporaryName id]) :=
    ⟨_, f.isOwnName_temporaryName id, rfl⟩
  have hordinary := isOrdinary_temporaryName hslash hnul id
  rw [replace]
  rcases hwrite : d.write now 0o600 (temporary (f.pathFor id)) contents with why | e
  · exact discard_spares hslash hnul hd id why
  · rw [temporary_pathFor] at hwrite
    have he := Disk.write_spares hd hordinary htemporary hwrite
    simp only
    rcases hrename : e.rename now (temporary (f.pathFor id)) (f.pathFor id) with why | e'
    · exact he.trans (discard_spares hslash hnul (he.plain hd) id why)
    · rw [temporary_pathFor] at hrename
      exact he.trans (Disk.rename_spares (he.plain hd) (isOrdinary_fileName hslash hnul id)
        ⟨_, f.isOwnName_fileName id, rfl⟩ hordinary htemporary hrename)

end Calls

/-- Nothing but directories is made in preparation. -/
theorem prepare_spares (P : Location → Prop) (f : FileStore) (now : Instant) (d : Disk) :
    d.Spares P (f.prepare now d).2 := by
  have hmake := d.makeDirectories_spares P now 0o700 f.directory
  rw [prepare]
  split
  · exact .refl P d
  · exact .refl P d
  · split
    · rcases hm : d.makeDirectories now 0o700 f.directory with ⟨_ | _, e⟩ <;>
      · rw [hm] at hmake
        exact hmake
    · exact .refl P d

theorem start_spares (P : Location → Prop) (f : FileStore) (now : Instant) (d : Disk) :
    d.Spares P (f.perform now d .start).store := by
  have hprepare := f.prepare_spares P now d
  unfold perform
  rcases hp : f.prepare now d with ⟨_ | _, e⟩ <;>
    · rw [hp] at hprepare
      exact hprepare

/-- What is tried on a path removes what is there, or nothing. -/
theorem of_expire_eq_ok {path : String} {gone : Bool}
    (h : expire now maxAge d path = .ok (gone, e)) : e = d ∨ d.remove now path = .ok e := by
  rcases hremove : d.remove now path with why | e'
  · left
    simp only [expire, hremove] at h
    repeat' split at h
    all_goals first | (cases h; rfl) | cases h
  · simp only [expire, hremove] at h
    repeat' split at h
    all_goals first | (cases h; simp) | cases h

theorem expire_spares {gone : Bool} (hd : d.IsPlain) (hn : Path.IsOrdinary name)
    (hswept : f.isSwept name = true)
    (h : expire now maxAge d (Path.join f.directory name) = .ok (gone, e)) :
    d.Spares f.Owns e := by
  rcases of_expire_eq_ok h with rfl | hremove
  · exact .refl _ e
  · exact Disk.remove_spares hd hn ⟨name, isOwnName_of_isSwept hswept, rfl⟩ hremove

/-- A sweep goes by the names that were listed before it. -/
theorem sweep_spares {names : List String} (hd : d.IsPlain)
    (hn : ∀ name ∈ names, Path.IsOrdinary name) (removed : Nat) :
    d.Spares f.Owns (f.sweep now maxAge removed d names).store := by
  induction names generalizing d removed with
  | nil => exact .refl _ d
  | cons name names ih =>
    obtain ⟨hname, hnames⟩ := List.forall_mem_cons.mp hn
    rcases hswept : f.isSwept name with _ | _
    · rw [sweep_cons_of_not_swept hswept]
      exact ih hd hnames removed
    · rcases hexpire : expire now maxAge d (Path.join f.directory name) with why | ⟨gone, e⟩
      · rw [sweep_cons_of_error hswept hexpire]
        exact .refl _ d
      · rw [sweep_cons_of_ok hswept hexpire]
        have he := expire_spares hd hname hswept hexpire
        exact he.trans (ih (he.plain hd) hnames _)

theorem purge_spares (hd : d.IsPlain) : d.Spares f.Owns (f.purge now maxAge d).store := by
  rcases hlist : d.list f.directory with why | names
  · rw [purge, hlist]
    simp only
    split <;> exact .refl _ d
  · obtain ⟨l, hl⟩ := Disk.list_eq_ok hlist
    rw [(purge_eq_sweep hl now maxAge).2]
    exact sweep_spares hd (fun name hname => hd.named l name (Disk.mem_namesIn.mp hname)) 0

/-! ## Whole runs -/

theorem perform_spares (hslash : '/' ∉ f.extension.toList) (hnul : '\x00' ∉ f.extension.toList)
    (hd : d.IsPlain) (now : Instant) (c : Call) :
    d.Spares f.Owns (f.perform now d c).store := by
  cases c with
  | start => exact f.start_spares f.Owns now d
  | stop => exact .refl _ d
  | contains id =>
    unfold perform
    dsimp only
    rcases d.stat (f.pathFor id) with why | n
    · simp only
      split <;> exact .refl _ d
    · exact .refl _ d
  | get id =>
    unfold perform
    dsimp only
    rcases d.read (f.pathFor id) with why | contents <;> exact .refl _ d
  | set id contents =>
    rw [(perform_set_eq f now d id contents).2]
    exact replace_spares hslash hnul hd id contents
  | delete id =>
    unfold perform
    dsimp only
    rcases hremove : d.remove now (f.pathFor id) with why | e
    · simp only
      split <;> exact .refl _ d
    · exact Disk.remove_spares hd (isOrdinary_fileName hslash hnul id)
        ⟨_, f.isOwnName_fileName id, rfl⟩ hremove
  | touch id =>
    unfold perform
    dsimp only
    rcases hset : d.setModified (f.pathFor id) now with why | e
    · exact .refl _ d
    · exact Disk.setModified_spares hd (isOrdinary_fileName hslash hnul id)
        ⟨_, f.isOwnName_fileName id, rfl⟩ hset
  | purge maxAge => exact purge_spares hd

theorem replay_spares (hslash : '/' ∉ f.extension.toList) (hnul : '\x00' ∉ f.extension.toList)
    (hd : d.IsPlain) (history : List (Instant × Call)) :
    d.Spares f.Owns (f.backend.replay d history) := by
  induction history with
  | nil => exact .refl _ d
  | cons x past ih => exact ih.trans (perform_spares hslash hnul (ih.plain hd) x.1 x.2)

/-- After any calls at any instants, a file that is not right inside of the directory under a name
of the store's own is as it was before. A file that is new is right there under such a name, every
directory is there still, and the directory of the store is nowhere else than its path says. -/
theorem replay_keeps_foreign (hslash : '/' ∉ f.extension.toList)
    (hnul : '\x00' ∉ f.extension.toList) (hd : d.IsPlain) (history : List (Instant × Call)) :
    let e := f.backend.replay d history
    (∀ m contents mode modified, d.node? m = some (.file contents mode modified) → ¬f.Owns m →
        e.node? m = some (.file contents mode modified)) ∧
      (∀ m, e.IsFile m → ¬d.IsFile m → f.Owns m) ∧
      (∀ m, d.IsDir m → e.IsDir m) ∧
      ∀ l, e.LeadsTo f.directory l → l = f.home := by
  intro e
  have hspares := replay_spares hslash hnul hd history
  refine ⟨?_, ?_, hspares.isDir, fun l hl => hl.eq_homeOf (hspares.plain hd)⟩
  · intro m contents mode modified hfile hm
    rcases hspares.node? m hm with hsame | ⟨hnot, -⟩
    · exact hsame.trans hfile
    · exact absurd ⟨_, _, _, hfile⟩ hnot
  · intro m hfile hnot
    by_contra hm
    rcases hspares.node? m hm with hsame | ⟨-, hdir⟩
    · refine hnot ?_
      rw [Disk.IsFile, ← hsame]
      exact hfile
    · exact hdir.not_isFile hfile

/-- A directory with an entry and a file of somebody else's, and another such file beside it. -/
def shared : Disk :=
  (interrupted.put ["s", "notes.txt"] (.file [0x6e] 0o644 0)).put ["x"] (.file [0x78] 0o644 0)

theorem shared_isPlain : shared.IsPlain := by
  have hempty : (⟨∅⟩ : Disk).IsPlain := by
    refine ⟨?_, ?_⟩
    · intro l name h
      simp [Disk.node?] at h
    · intro l target h
      by_cases hl : l = [] <;> simp [Disk.node?, hl, Disk.top] at h
  have hput : ∀ {d : Disk} {l : Location} {name : String} {n : Node}, d.IsPlain →
      Path.IsOrdinary name → (∀ target, n ≠ .link target) → (d.put (l ++ [name]) n).IsPlain := by
    intro d l name n hd hn hlink
    refine Disk.Spares.put_plain hd (by simp) ?_ hlink
    intro front other heq
    obtain rfl : name = other := (by simpa using heq : l = front ∧ name = other).2
    exact hn
  have hs : Path.IsOrdinary "s" := ⟨⟨by decide, by decide, by decide⟩, by decide, by decide⟩
  have hk : Path.IsOrdinary "k.sess" :=
    ⟨⟨by decide, by decide, by decide⟩, by decide, by decide⟩
  have ht : Path.IsOrdinary "k.sess.tmp" :=
    ⟨⟨by decide, by decide, by decide⟩, by decide, by decide⟩
  have hnotes : Path.IsOrdinary "notes.txt" :=
    ⟨⟨by decide, by decide, by decide⟩, by decide, by decide⟩
  have hx : Path.IsOrdinary "x" := ⟨⟨by decide, by decide, by decide⟩, by decide, by decide⟩
  have hdir : ((⟨∅⟩ : Disk).put ["s"] (.directory 0o700 0)).IsPlain :=
    hput (l := []) hempty hs fun _ => Node.noConfusion
  exact hput (l := []) (hput (l := ["s"]) (hput (l := ["s"]) (hput (l := ["s"]) hdir hk
    fun _ => Node.noConfusion) ht fun _ => Node.noConfusion) hnotes fun _ => Node.noConfusion) hx
    fun _ => Node.noConfusion

/-- Ids that climb to a file beside the directory do not reach it, and a purge takes no file of
somebody else's. -/
theorem replay_keeps_foreign_shared :
    let f : FileStore := ⟨"s", "sess"⟩
    let history : List (Instant × Call) := [(90, .purge ⟨5⟩), (3, .touch "../x"),
      (2, .set "../x" [0x21]), (1, .delete "../x"), (0, .start)]
    let e := f.backend.replay shared history
    '/' ∉ f.extension.toList ∧ '\x00' ∉ f.extension.toList ∧ shared.IsPlain ∧
      e.node? ["x"] = some (.file [0x78] 0o644 0) ∧
      e.node? ["s", "notes.txt"] = some (.file [0x6e] 0o644 0) := by
  intro f history e
  have hslash : '/' ∉ f.extension.toList := by decide
  have hnul : '\x00' ∉ f.extension.toList := by decide
  have hhome : f.home = ["s"] := by decide
  obtain ⟨hkept, -⟩ := replay_keeps_foreign hslash hnul shared_isPlain history
  refine ⟨hslash, hnul, shared_isPlain, hkept _ _ _ _ ?_ ?_, hkept _ _ _ _ ?_ ?_⟩
  · rw [shared, Disk.node?_put (by simp), if_pos rfl]
  · rintro ⟨name, -, heq⟩
    simpa [hhome] using congrArg List.length heq
  · rw [shared, Disk.node?_put (by simp), if_neg (by simp), Disk.node?_put (by simp), if_pos rfl]
  · rintro ⟨name, ⟨stem, -, hname⟩, heq⟩
    obtain rfl : "notes.txt" = name := by simpa [hhome] using heq
    rcases hname with hname | hname <;>
    · have hlast := congrArg (List.getLast? ∘ String.toList) hname
      simp [f] at hlast

end FileStore

end SessionStore
