import SessionStore.Proofs.Store.Files

/-! # What a purge sweeps away

A purge goes by names. It takes a name apart at the last dot, while the names of entries are put
together with whatever extension there is, so that both agree only on extensions without a dot.
-/

namespace SessionStore

namespace FileStore

variable {f : FileStore} {l : Location} {d e : Disk} {name : String} {now : Instant}
  {maxAge : Duration} {n : Nat}

/-! ## Names that are known again -/

theorem dot_not_mem_of_cut? {cs before ext : List Char} (h : cut? cs = some (before, ext)) :
    '.' ∉ ext := by
  intro hmem
  unfold cut? at h
  split at h
  · cases h
  · split at h
    · cases h
    · cases h
    · simp only [Option.some.injEq, Prod.mk.injEq] at h
      rw [← h.2, List.mem_reverse] at hmem
      have hdot := List.all_eq_true.mp List.all_takeWhile _ hmem
      simp at hdot

theorem isEntry_of_dot (h : '.' ∈ f.extension.toList) (cs : List Char) : f.isEntry cs = false := by
  rcases hc : cut? cs with _ | ⟨before, ext⟩
  · simp [isEntry, hc]
  · have hne : ext ≠ f.extension.toList := by
      rintro rfl
      exact dot_not_mem_of_cut? hc h
    simp [isEntry, hc, hne]

theorem isSwept_of_dot (h : '.' ∈ f.extension.toList) (name : String) :
    f.isSwept name = false := by
  have hentry := isEntry_of_dot h
  rcases hc : cut? name.toList with _ | ⟨before, ext⟩ <;> simp [isSwept, isTemporary, hc, hentry]

theorem cut?_temporaryName (f : FileStore) (id : String) :
    cut? (f.temporaryName id).toList = some ((f.fileName id).toList, "tmp".toList) := by
  have htext : (f.temporaryName id).toList = (f.fileName id).toList ++ '.' :: "tmp".toList := by
    simp [temporaryName]
  have hdots : (f.temporaryName id).toList ≠ ['.', '.'] := fun heq =>
    (f.fileName_append_ne id ".tmp").2 (String.toList_inj.mp heq)
  rw [htext] at hdots ⊢
  exact cut?_append (Path.toList_ne_nil (f.fileName_ne_empty id)) (by decide) hdots

theorem isEntry_fileName_iff (id : String) :
    f.isEntry (f.fileName id).toList = true ↔ '.' ∉ f.extension.toList := by
  constructor
  · intro h hdot
    rw [isEntry_of_dot hdot] at h
    cases h
  · intro h
    exact isEntry_fileName h id

theorem isEntry_temporaryName_iff (id : String) :
    f.isEntry (f.temporaryName id).toList = true ↔ f.extension = "tmp" := by
  simp only [isEntry, cut?_temporaryName, beq_iff_eq, String.toList_inj]
  exact eq_comm

theorem isSwept_fileName_iff (id : String) :
    f.isSwept (f.fileName id) = true ↔ '.' ∉ f.extension.toList := by
  constructor
  · intro h hdot
    rw [isSwept_of_dot hdot] at h
    cases h
  · intro h
    rw [isSwept, isEntry_fileName h, Bool.true_or]

theorem isSwept_temporaryName_iff (id : String) :
    f.isSwept (f.temporaryName id) = true ↔ '.' ∉ f.extension.toList := by
  constructor
  · intro h hdot
    rw [isSwept_of_dot hdot] at h
    cases h
  · intro h
    have htemporary : f.isTemporary (f.temporaryName id).toList = true := by
      simp [isTemporary, cut?_temporaryName, isEntry_fileName h]
    rw [isSwept, htemporary, Bool.or_true]

/-! ## One name after the other -/

/-- What has a name to be swept in the directory at `l` is found under that name, and is no link. -/
structure Tidy (f : FileStore) (l : Location) (d : Disk) : Prop where
  proper : ∀ name, f.isSwept name = true → d.node? (l ++ [name]) ≠ none →
    Path.IsSimple name ∧ Disk.IsName name
  no_link : ∀ name, f.isSwept name = true → ∀ target, d.node? (l ++ [name]) ≠ some (.link target)

/-- What disappears does not make a directory less tidy. -/
theorem Tidy.of_gone (h : f.Tidy l d)
    (hgone : ∀ name, e.node? (l ++ [name]) = none ∨ e.node? (l ++ [name]) = d.node? (l ++ [name])) :
    f.Tidy l e where
  proper name hswept hn := by
    rcases hgone name with hnone | hsame
    · exact absurd hnone hn
    · exact h.proper name hswept (hsame ▸ hn)
  no_link name hswept target hn := by
    rcases hgone name with hnone | hsame
    · rw [hnone] at hn
      cases hn
    · exact h.no_link name hswept target (hsame ▸ hn)

/-- What is tried on a name goes by what is under it. -/
theorem expire_join (now : Instant) (maxAge : Duration) (h : d.Houses f.directory l)
    (hf : Disk.Fits f.directory name)
    (hlink : ∀ target, d.node? (l ++ [name]) ≠ some (.link target)) :
    expire now maxAge d (Path.join f.directory name) = match d.node? (l ++ [name]) with
      | none | some (.link _) => .ok (false, d)
      | some (.file _ _ modified) =>
        if Instant.elapsed now modified ≤ maxAge then .ok (false, d)
        else .ok (true, (d.erase (l ++ [name])).stamp l now)
      | some (.directory _ modified) =>
        if Instant.elapsed now modified ≤ maxAge then .ok (false, d) else .error .isDirectory := by
  rw [expire, Disk.stat_join h hf hlink, Disk.remove_join h hf]
  rcases d.node? (l ++ [name]) with _ | ⟨_, _, _⟩ | ⟨_, _⟩ | _ <;> rfl

theorem expire_of_long (hlong : Path.ofText (Path.join f.directory name) = .error .nameTooLong) :
    expire now maxAge d (Path.join f.directory name) = .error .nameTooLong := by
  have hstat : d.stat (Path.join f.directory name) = .error .nameTooLong := by
    simp [Disk.stat, hlong, bind, Except.bind]
  rw [expire, hstat]
  rfl

/-- There is a file that has been idle for too long. -/
def isOld (now : Instant) (maxAge : Duration) (d : Disk) (l : Location) (name : String) : Bool :=
  isStale now maxAge ((d.node? (l ++ [name])).bind Node.entry?)

theorem isOld_file (now : Instant) (maxAge : Duration) {contents : Bytes} {mode : Nat}
    {modified : Instant}
    (hn : d.node? (l ++ [name]) = some (.file contents mode modified)) :
    isOld now maxAge d l name = true ↔ ¬Instant.elapsed now modified ≤ maxAge := by
  have hle : maxAge < Instant.elapsed now modified ↔ ¬Instant.elapsed now modified ≤ maxAge :=
    Nat.not_le.symm
  simp [isOld, isStale, hn, Node.entry?, hle]

/-- Among the names, those of old files that are to be swept. -/
def expired (f : FileStore) (now : Instant) (maxAge : Duration) (d : Disk) (l : Location)
    (names : List String) : List String :=
  names.filter fun name => f.isSwept name && isOld now maxAge d l name

/-- The names have gone from the directory at `l`, and nothing else in it has changed. -/
structure Clears (l : Location) (names : List String) (d e : Disk) : Prop where
  within : Disk.Within l names d e
  gone : ∀ name ∈ names, e.node? (l ++ [name]) = none

namespace Clears

variable {names names' : List String}

theorem refl (l : Location) (d : Disk) : Clears l [] d d := ⟨.refl l [] d, by simp⟩

theorem trans {e' : Disk} (h : Clears l names d e) (h' : Clears l names' e e')
    (hdisjoint : ∀ name ∈ names, name ∉ names') : Clears l (names ++ names') d e' where
  within := (h.within.mono (List.subset_append_left ..)).trans
    (h'.within.mono (List.subset_append_right ..))
  gone name hname := by
    rcases List.mem_append.mp hname with hname | hname
    · rw [h'.within.node?_child (hdisjoint name hname)]
      exact h.gone name hname
    · exact h'.gone name hname

theorem node? (h : Clears l names d e) (name : String) :
    e.node? (l ++ [name]) = if name ∈ names then none else d.node? (l ++ [name]) := by
  split
  case isTrue hname => exact h.gone name hname
  case isFalse hname => exact h.within.node?_child hname

theorem tidy (h : Clears l names d e) (ht : f.Tidy l d) : f.Tidy l e := by
  apply ht.of_gone
  intro name
  by_cases hname : name ∈ names
  · exact .inl (h.gone name hname)
  · exact .inr (h.within.node?_child hname)

end Clears

theorem clears_erase (l : Location) (name : String) (d : Disk) (now : Instant) :
    Clears l [name] d ((d.erase (l ++ [name])).stamp l now) where
  within := ((Disk.Within.refl l [name] d).erase (by simp)).stamp now
  gone other hother := by
    obtain rfl := List.mem_singleton.mp hother
    rw [Disk.node?_stamp_of_ne (Disk.ne_child l other).symm,
      Disk.node?_erase (Disk.child_ne_nil l other), if_pos rfl]

/-- If an attempt on a name succeeds, an old file has gone and anything else has stayed. -/
theorem expire_eq_ok {gone : Bool} (h : d.Houses f.directory l) (ht : f.Tidy l d)
    (hswept : f.isSwept name = true) (hn : d.node? (l ++ [name]) ≠ none)
    (hok : expire now maxAge d (Path.join f.directory name) = .ok (gone, e)) :
    gone = isOld now maxAge d l name ∧ Clears l (if gone then [name] else []) d e ∧
      e.Houses f.directory l := by
  obtain ⟨hsimple, hname⟩ := ht.proper name hswept hn
  rcases h.fits_or_long hsimple hname with hf | hlong
  · have hexpire := expire_join now maxAge h hf (ht.no_link name hswept)
    rw [hok] at hexpire
    rcases hnode : d.node? (l ++ [name]) with _ | ⟨contents, mode, modified⟩ | ⟨mode, modified⟩ | _
    · exact absurd hnode hn
    · have hold := isOld_file now maxAge hnode
      simp only [hnode] at hexpire
      split at hexpire
      case isTrue hle =>
        cases hexpire
        exact ⟨(Bool.eq_false_iff.mpr fun h => hold.mp h hle).symm, .refl l d, h⟩
      case isFalse hle =>
        cases hexpire
        have hclears := clears_erase l name d now
        have hend : d.IsEnd (l ++ [name]) := .inr ⟨contents, mode, modified, hnode⟩
        have halike := hclears.within.alike h.isDir (by simpa using hend)
        exact ⟨(hold.mpr hle).symm, hclears, h.of_alike halike (hclears.within.isDir h.isDir)⟩
    · have hold : isOld now maxAge d l name = false := by
        simp [isOld, isStale, hnode, Node.entry?]
      simp only [hnode] at hexpire
      split at hexpire
      · cases hexpire
        exact ⟨hold.symm, .refl l d, h⟩
      · cases hexpire
    · exact absurd hnode (ht.no_link name hswept _)
  · rw [expire_of_long hlong] at hok
    cases hok

/-- The first step of a sweep that succeeds. -/
theorem sweep_cons_eq_ok {names : List String} (h : d.Houses f.directory l) (ht : f.Tidy l d)
    (hn : d.node? (l ++ [name]) ≠ none) {removed : Nat}
    (hok : (f.sweep now maxAge removed d (name :: names)).result = .ok n) :
    ∃ e, f.sweep now maxAge removed d (name :: names) =
        f.sweep now maxAge (removed +
          (f.expired now maxAge d l [name]).countP (f.isEntry ·.toList)) e names ∧
      Clears l (f.expired now maxAge d l [name]) d e ∧ e.Houses f.directory l := by
  rcases hswept : f.isSwept name with _ | _
  · refine ⟨d, ?_, ?_, h⟩
    · simp [sweep_cons_of_not_swept hswept, expired, hswept]
    · simpa [expired, hswept] using .refl l d
  · rcases hexpire : expire now maxAge d (Path.join f.directory name) with why | ⟨gone, e⟩
    · rw [sweep_cons_of_error hswept hexpire] at hok
      cases hok
    · obtain ⟨rfl, hclears, hhouses⟩ := expire_eq_ok h ht hswept hn hexpire
      refine ⟨e, ?_, ?_, hhouses⟩
      · rw [sweep_cons_of_ok hswept hexpire]
        rcases hold : isOld now maxAge d l name with _ | _ <;>
          rcases hentry : f.isEntry name.toList with _ | _ <;>
          simp [expired, hswept, hold, hentry]
      · rcases hold : isOld now maxAge d l name with _ | _ <;>
          simpa [expired, hswept, hold] using hclears

/-- A sweep that succeeds has cleared away what is expired, and counted the entries. -/
theorem sweep_eq_ok {names : List String} (h : d.Houses f.directory l) (ht : f.Tidy l d)
    (hnodup : names.Nodup) (hn : ∀ name ∈ names, d.node? (l ++ [name]) ≠ none) {removed : Nat}
    (hok : (f.sweep now maxAge removed d names).result = .ok n) :
    n = removed + (f.expired now maxAge d l names).countP (f.isEntry ·.toList) ∧
      Clears l (f.expired now maxAge d l names) d (f.sweep now maxAge removed d names).store := by
  induction names generalizing d removed with
  | nil =>
    cases hok
    exact ⟨rfl, .refl l d⟩
  | cons name names ih =>
    obtain ⟨hfresh, hnodup⟩ := List.nodup_cons.mp hnodup
    obtain ⟨hname, hn⟩ := List.forall_mem_cons.mp hn
    obtain ⟨e, hstep, hclears, he⟩ := sweep_cons_eq_ok h ht hname hok
    have hothers : ∀ other ∈ names, other ∉ f.expired now maxAge d l [name] := by
      intro other hother hmem
      obtain rfl := List.mem_singleton.mp (List.mem_of_mem_filter hmem)
      exact hfresh hother
    have hsame : ∀ other ∈ names, e.node? (l ++ [other]) = d.node? (l ++ [other]) :=
      fun other hother => hclears.within.node?_child (hothers other hother)
    have hexpired : f.expired now maxAge e l names = f.expired now maxAge d l names := by
      apply List.filter_congr
      intro other hother
      rw [isOld, isOld, hsame other hother]
    have hsplit : f.expired now maxAge d l (name :: names) =
        f.expired now maxAge d l [name] ++ f.expired now maxAge d l names :=
      List.filter_append [name] names
    rw [hstep] at hok ⊢
    obtain ⟨hcount, hrest⟩ :=
      ih he (hclears.tidy ht) hnodup (fun other hother => hsame other hother ▸ hn other hother) hok
    rw [hexpired] at hcount hrest
    rw [hsplit, List.countP_append]
    refine ⟨by omega, hclears.trans hrest ?_⟩
    intro other hother hmem
    exact hothers other (List.mem_of_mem_filter hmem) hother

/-- A purge that succeeds has cleared away what is expired, and counted the entries. -/
theorem purge_eq_ok (h : d.LeadsTo f.directory l) (ht : f.Tidy l d)
    (hok : (f.purge now maxAge d).result = .ok n) :
    n = (f.expired now maxAge d l (d.namesIn l)).countP (f.isEntry ·.toList) ∧
      Clears l (f.expired now maxAge d l (d.namesIn l)) d (f.purge now maxAge d).store := by
  rw [(purge_eq_sweep h now maxAge).1] at hok
  rw [(purge_eq_sweep h now maxAge).2]
  have hsweep := sweep_eq_ok h.houses ht (Disk.nodup_namesIn d l)
    (fun name hname => Disk.mem_namesIn.mp hname) hok
  rwa [Nat.zero_add] at hsweep

/-! ## The files of an id -/

theorem mem_expired {names : List String} :
    name ∈ f.expired now maxAge d l names ↔
      name ∈ names ∧ f.isSwept name = true ∧ isOld now maxAge d l name = true := by
  rw [expired, List.mem_filter, Bool.and_eq_true]

theorem mem_namesIn_of_isOld (h : isOld now maxAge d l name = true) : name ∈ d.namesIn l := by
  rw [Disk.mem_namesIn]
  intro hnone
  rw [isOld, hnone] at h
  cases h

/-- Nothing is listed where the path is empty. -/
theorem purge_unnamed (h : f.directory = "") (now : Instant) (maxAge : Duration) (d : Disk) :
    f.purge now maxAge d = .done d 0 [.directoryMissing ""] := by
  have hlist : d.list "" = .error .notFound := rfl
  rw [purge, h, hlist]
  rfl

/-- Of what is old, a purge that succeeds clears away the entry of an id and its unfinished contents
if the extension has no dot, and neither of them if it has one. It counts the entry, and also the
unfinished contents if the extension is theirs. Where the path is empty everything stays. -/
theorem purge_of_own (f : FileStore) (now : Instant) (maxAge : Duration) (d : Disk) :
    (f.directory = "" → f.purge now maxAge d = .done d 0 [.directoryMissing ""]) ∧
      ∀ l n, d.LeadsTo f.directory l → f.Tidy l d → (f.purge now maxAge d).result = .ok n →
        ∃ gone : List String, gone.Nodup ∧ Clears l gone d (f.purge now maxAge d).store ∧
          n = gone.countP (f.isEntry ·.toList) ∧
          ∀ id,
            (isOld now maxAge d l (f.fileName id) = true →
              (f.fileName id ∈ gone ↔ '.' ∉ f.extension.toList)) ∧
            (isOld now maxAge d l (f.temporaryName id) = true →
              (f.temporaryName id ∈ gone ↔ '.' ∉ f.extension.toList)) ∧
            (f.isEntry (f.fileName id).toList = true ↔ '.' ∉ f.extension.toList) ∧
            (f.isEntry (f.temporaryName id).toList = true ↔ f.extension = "tmp") := by
  refine ⟨fun h => purge_unnamed h now maxAge d, ?_⟩
  intro l n h ht hok
  obtain ⟨hcount, hclears⟩ := purge_eq_ok h ht hok
  refine ⟨f.expired now maxAge d l (d.namesIn l), (Disk.nodup_namesIn d l).filter _, hclears,
    hcount, ?_⟩
  intro id
  refine ⟨?_, ?_, isEntry_fileName_iff id, isEntry_temporaryName_iff id⟩
  · intro hold
    have hmem := mem_namesIn_of_isOld hold
    rw [mem_expired, isSwept_fileName_iff, hold]
    simpa using fun _ => hmem
  · intro hold
    have hmem := mem_namesIn_of_isOld hold
    rw [mem_expired, isSwept_temporaryName_iff, hold]
    simpa using fun _ => hmem

/-- A directory with the entry of one id and contents for it that were never finished. -/
def interrupted : Disk :=
  (((⟨∅⟩ : Disk).put ["s"] (.directory 0o700 0)).put ["s", "k.sess"] (.file [0x6b] 0o600 0)).put
    ["s", "k.sess.tmp"] (.file [] 0o600 0)

theorem node?_interrupted (m : Location) :
    interrupted.node? m = if m = ["s", "k.sess.tmp"] then some (.file [] 0o600 0)
      else if m = ["s", "k.sess"] then some (.file [0x6b] 0o600 0)
      else if m = ["s"] then some (.directory 0o700 0)
      else if m = [] then some Disk.top else none := by
  rw [interrupted, Disk.node?_put (by simp), Disk.node?_put (by simp), Disk.node?_put (by simp)]
  simp [Disk.node?]

theorem interrupted_leadsTo : interrupted.LeadsTo "s" ["s"] := by
  have hdir : interrupted.IsDir ["s"] := ⟨0o700, 0, by simp [node?_interrupted]⟩
  have hname : Disk.IsName "s" := ⟨by decide, by decide, by decide⟩
  refine ⟨⟨⟨false, ["s"], false⟩, rfl, ?_⟩, hdir⟩
  exact Disk.walkWith_isDir hname hdir

theorem interrupted_tidy (f : FileStore) : f.Tidy ["s"] interrupted where
  proper name _ hn := by
    rw [node?_interrupted] at hn
    have hname : name = "k.sess.tmp" ∨ name = "k.sess" := by
      by_contra hne
      rw [not_or] at hne
      simp [hne] at hn
    rcases hname with rfl | rfl
    · exact ⟨⟨by decide, by decide, by decide⟩, ⟨by decide, by decide, by decide⟩⟩
    · exact ⟨⟨by decide, by decide, by decide⟩, ⟨by decide, by decide, by decide⟩⟩
  no_link name _ target := by
    rw [node?_interrupted]
    split
    · simp
    · split <;> simp

theorem purge_of_own_interrupted :
    let f : FileStore := ⟨"s", "sess"⟩
    let e := (f.purge 10 ⟨5⟩ interrupted).store
    interrupted.LeadsTo "s" ["s"] ∧ f.Tidy ["s"] interrupted ∧
      (f.purge 10 ⟨5⟩ interrupted).result = .ok 1 ∧
      e.node? ["s", "k.sess"] = none ∧ e.node? ["s", "k.sess.tmp"] = none := by
  intro f e
  have hok : (f.purge 10 ⟨5⟩ interrupted).result = .ok 1 := ok_of_toOption (by decide +kernel)
  have hname : f.fileName "k" = "k.sess" := by
    rw [fileName, stem_of_isPlain (by decide)]
    rfl
  have htemporary : f.temporaryName "k" = "k.sess.tmp" := by
    rw [temporaryName, hname]
    rfl
  obtain ⟨gone, -, hclears, -, hown⟩ := (purge_of_own f 10 ⟨5⟩ interrupted).2 ["s"] 1
    interrupted_leadsTo (interrupted_tidy f) hok
  obtain ⟨hentry, hunfinished, -, -⟩ := hown "k"
  rw [hname] at hentry
  rw [htemporary] at hunfinished
  have hold : isOld 10 ⟨5⟩ interrupted ["s"] "k.sess" = true := by
    rw [isOld, node?_interrupted]
    rfl
  have hold' : isOld 10 ⟨5⟩ interrupted ["s"] "k.sess.tmp" = true := by
    rw [isOld, node?_interrupted]
    rfl
  exact ⟨interrupted_leadsTo, interrupted_tidy f, hok,
    hclears.gone _ ((hentry hold).mpr (by decide)),
    hclears.gone _ ((hunfinished hold').mpr (by decide))⟩

/-- The store with an entry that was set ten instants ago, after a purge of what is older than
five. -/
def aged (f : FileStore) : Outcome Disk Nat :=
  f.purge 10 ⟨5⟩ (f.perform 0 (f.perform 0 ⟨∅⟩ .start).store (.set "k" [])).store

/-- A dot in the extension, and an empty path, keep an entry for ever. -/
theorem purge_passes_over :
    (∀ f ∈ [(⟨"s", "a.b"⟩ : FileStore), ⟨"", "sess"⟩], f.aged.result = .ok 0 ∧
      (f.perform 10 f.aged.store (.contains "k")).result = .ok true) ∧
      (FileStore.purge ⟨"s", "tmp"⟩ 10 ⟨5⟩
        (((⟨∅⟩ : Disk).put ["s"] (.directory 0o700 0)).put ["s", "k.tmp.tmp"]
          (.file [] 0o600 0))).result = .ok 1 := by
  refine ⟨?_, ok_of_toOption (by decide +kernel)⟩
  intro f hf
  simp only [List.mem_cons, List.not_mem_nil, or_false] at hf
  rcases hf with rfl | rfl
  · exact ⟨ok_of_toOption (by decide +kernel), @ok_of_toOption Bool _ true (by decide +kernel)⟩
  · exact ⟨ok_of_toOption (by decide +kernel), @ok_of_toOption Bool _ true (by decide +kernel)⟩

end FileStore

end SessionStore
