import SessionStore.Proofs.Disk.Ends
import SessionStore.Proofs.Store.Files

/-! # Whole or not at all

New contents are written beside a file and then take its place. If either fails, what was written
is cleared away again, and the failure that is reported is that of the step and not of the clearing.
The file is then as it was, and so is everything else but what had been left where contents are
written.
-/

namespace SessionStore

namespace FileStore

open Disk

variable {d e : Disk} {dir name path : String} {l : Location} {now : Instant} {contents : Bytes}

/-- The contents are at the path, nothing is where they were written, and nothing else has
changed. -/
structure Replaced (now : Instant) (path : String) (contents : Bytes) (d e : Disk) : Prop where
  file : ∃ mode, e.stat path = .ok (.file contents mode now)
  unfinished : e.stat (temporary path) = .error .notFound
  keeps : d.Keeps (fun m => d.Reaches path m ∨ d.Reaches (temporary path) m) e

/-- Nothing has changed, except that a file which was where contents are written may be gone. -/
structure Spared (path : String) (d e : Disk) : Prop where
  keeps : d.Keeps (d.Reaches (temporary path)) e
  unfinished : ∀ m, d.Reaches (temporary path) m →
    e.node? m = none ∨ d.IsDir m ∧ e.node? m = d.node? m
  no_file : ∀ contents mode modified,
    e.stat (temporary path) ≠ .ok (.file contents mode modified)
  read : e.read path = d.read path

/-- The fault is that of writing the contents, or of moving them to the path. -/
def StepFails (now : Instant) (path : String) (contents : Bytes) (d : Disk) (why : IoFault) :
    Prop :=
  d.write now 0o600 (temporary path) contents = .error why ∨
    ∃ e, d.write now 0o600 (temporary path) contents = .ok e ∧
      e.rename now (temporary path) path = .error why

/-- What came of putting contents at the path: all of it, or nothing. -/
def IsWhole (now : Instant) (path : String) (contents : Bytes) (d : Disk) (o : Outcome Disk Unit) :
    Prop :=
  o.result = .ok () ∧ Replaced now path contents d o.store ∨
    (∃ why, o.result = .error (.io why) ∧ StepFails now path contents d why) ∧
      Spared path d o.store

/-! ## Where nothing can be written -/

theorem discard_result (now : Instant) (d : Disk) (temp : String) (why : IoFault) :
    (discard now d temp why).result = .error (.io why) := by
  unfold discard
  split <;> rfl

theorem discard_store (now : Instant) (d : Disk) (temp : String) (why : IoFault) :
    (discard now d temp why).store = d ∧ (∃ left, d.remove now temp = .error left) ∨
      d.remove now temp = .ok (discard now d temp why).store := by
  unfold discard
  rcases d.remove now temp with left | e
  · exact .inl ⟨rfl, left, rfl⟩
  · exact .inr rfl

/-- What changes nothing and leaves no file where contents are written has spared everything. -/
theorem spared_self (h : ∀ m, d.Reaches (temporary path) m → d.node? m = none ∨ d.IsDir m) :
    Spared path d d where
  keeps := .refl _ d
  unfinished m hm := (h m hm).imp id fun hdir => ⟨hdir, rfl⟩
  no_file contents mode modified hstat := by
    rcases hq : Path.ofText (temporary path) with why | q
    · simp [Disk.stat, hq, bind, Except.bind] at hstat
    rcases hm : d.locate true q with why | m
    · simp [Disk.stat, find, hq, hm, bind, Except.bind] at hstat
    have hreach : d.Reaches (temporary path) m := ⟨q, hq, hm⟩
    rw [hreach.stat] at hstat
    rcases h m hreach with hnone | ⟨_, _, hdir⟩
    · simp [hnone] at hstat
    · simp [hdir] at hstat
  read := rfl

theorem isWhole_of_nowhere
    (h : ∀ q follow m, Path.ofText (temporary path) = .ok q → d.locate follow q ≠ .ok m) :
    IsWhole now path contents d (replace now d path contents) := by
  have hspared : Spared path d d := by
    apply spared_self
    rintro m ⟨q, hq, hm⟩
    exact absurd hm (h q true m hq)
  right
  rcases hwrite : d.write now 0o600 (temporary path) contents with why | e
  · rw [replace, hwrite]
    refine ⟨⟨why, discard_result .., .inl hwrite⟩, ?_⟩
    rcases discard_store now d (temporary path) why with ⟨hstore, -⟩ | hremove
    · rwa [hstore]
    · obtain ⟨q, m, hq, hm⟩ := remove_eq_ok hremove
      exact absurd hm (h q false m hq)
  · obtain ⟨q, m, hq, hm, -⟩ := write_eq_ok hwrite
    exact absurd hm (h q true m hq)

/-! ## In a directory -/

theorem temporary_join (dir name : String) :
    temporary (Path.join dir name) = Path.join dir (name ++ ".tmp") :=
  (Path.join_append dir name ".tmp").symm

theorem temporary_ne_self (name : String) : name ++ ".tmp" ≠ name := by
  intro heq
  have hsize := congrArg String.utf8ByteSize heq
  rw [String.utf8ByteSize_append] at hsize
  exact absurd (Nat.add_eq_left.mp hsize) (by decide)

/-- The name for unfinished contents is longer than dots, so it fits where it leads somewhere. -/
theorem exists_fits_temporary {q : Path} {follow : Bool} {m : Location}
    (hslash : '/' ∉ name.toList) (hq : Path.ofText (Path.join dir (name ++ ".tmp")) = .ok q)
    (hm : d.locate follow q = .ok m) : Fits dir (name ++ ".tmp") ∧ ∃ l, d.Houses dir l := by
  have hlonger : ∀ other : String, other.utf8ByteSize ≤ 2 → name ++ ".tmp" ≠ other := by
    rintro other hother rfl
    have htmp : ".tmp".utf8ByteSize = 4 := by decide
    rw [String.utf8ByteSize_append, htmp] at hother
    omega
  exact exists_fits (hlonger "" (by decide)) (by simp [hslash]) (hlonger "." (by decide))
    (hlonger ".." (by decide)) hq hm

/-- What happens to ends in the directory makes no difference to where it is. -/
theorem houses_of_within {names : List String} (hd : d.NoLinks) (h : d.Houses dir l)
    (hw : Within l names d e) (hends : ∀ name ∈ names, d.IsEnd (l ++ [name]))
    (he : ∀ name ∈ names, e.IsEnd (l ++ [name])) : e.Houses dir l ∧ e.NoLinks :=
  ⟨h.of_alike (hw.alike h.isDir hends) (hw.isDir h.isDir),
    hw.noLinks hd h.isDir fun name hname => (he name hname).not_link⟩

theorem houses_of_gone (hd : d.NoLinks) (h : d.Houses dir l) (hw : Within l [name] d e)
    (hend : d.IsEnd (l ++ [name])) (he : e.node? (l ++ [name]) = none) :
    e.Houses dir l ∧ e.NoLinks :=
  houses_of_within hd h hw (by simpa using hend) (by simpa using .inl he)

section Inside

variable (hd : d.NoLinks) (h : d.Houses dir l) (ht : Fits dir (name ++ ".tmp"))
include hd h ht

theorem reaches_temporary {m : Location} :
    d.Reaches (temporary (Path.join dir name)) m ↔ m = l ++ [name ++ ".tmp"] := by
  obtain ⟨q, hq, -, hloc⟩ := h.locate ht true fun _ => hd _
  rw [temporary_join]
  have hreach : d.Reaches (Path.join dir (name ++ ".tmp")) (l ++ [name ++ ".tmp"]) := ⟨q, hq, hloc⟩
  constructor
  · intro hm
    exact hm.unique hreach
  · rintro rfl
    exact hreach

variable (hopen : Path.IsOpen dir) (hw : Within l [name ++ ".tmp"] d e)
  (he : e.node? (l ++ [name ++ ".tmp"]) = none) (hend : d.IsEnd (l ++ [name ++ ".tmp"]))
include hopen hw he hend

/-- What has gone from where contents are written is not noticed at the path itself. -/
theorem read_of_within : e.read (Path.join dir name) = d.read (Path.join dir name) := by
  obtain ⟨hhouses, hlinks⟩ := houses_of_gone hd h hw hend he
  by_cases hpath : Path.join dir name = ""
  · rw [hpath]
    rfl
  have hd' := (h.reaches_landing hopen ht (hd _) hpath).read
  have he' := (hhouses.reaches_landing hopen ht (hlinks _) hpath).read
  rw [hd', he']
  by_cases hl : landing l name = l
  · obtain ⟨_, _, hdir⟩ := h.isDir
    obtain ⟨_, _, hdir'⟩ := hw.isDir h.isDir
    rw [hl, hdir, hdir']
  · rw [hw.node? _ hl (by simpa using landing_ne l (by decide))]

theorem spared_of_within : Spared (Path.join dir name) d e := by
  have hreach := @reaches_temporary d dir name l hd h ht
  refine ⟨?_, ?_, ?_, read_of_within hd h ht hopen hw he hend⟩
  · apply hw.keeps h.isDir (by simpa using hend)
    simpa using hreach.mpr rfl
  · intro m hm
    rw [hreach.mp hm]
    exact .inl he
  · obtain ⟨hhouses, hlinks⟩ := houses_of_gone hd h hw hend he
    intro contents mode modified
    rw [temporary_join, stat_join hhouses ht (hlinks _), he]
    simp

end Inside

/-- Contents can be moved only to a name that fits, at which there is no directory. -/
theorem fits_of_rename {e' : Disk} {source : String} (h : e.Houses dir l)
    (hopen : Path.IsOpen dir) (hslash : '/' ∉ name.toList)
    (hrename : e.rename now source (Path.join dir name) = .ok e') :
    Fits dir name ∧ ¬e.IsDir (l ++ [name]) := by
  obtain ⟨q, m, hq, hloc, hdir, hnamed, hclosed⟩ := rename_eq_ok hrename
  have hloc : e.locate false q = .ok m := by
    rw [← hloc]
    congr
    exact hclosed.symm ▸ rfl
  obtain ⟨hnul, hpath, hlen, htext⟩ := Path.ofText_eq_ok hq
  have hne : name ≠ "" := by
    rintro rfl
    rw [hopen.join_eq, String.append_empty] at hpath htext
    rcases hopen with hempty | hlast
    · exact hpath hempty
    · simp [htext, hlast] at hclosed
  have hsimple : Path.IsSimple name := by
    obtain ⟨front, hfront⟩ := Path.exists_toList_join dir
    rw [hfront] at hnul
    exact ⟨hne, hslash, fun hmem => hnul (List.mem_append_right _ hmem)⟩
  have hdots : name ≠ "." ∧ name ≠ ".." := by
    simpa [htext, Path.isNameless, Path.namesOf_join dir hsimple] using hnamed
  obtain ⟨hfits, -⟩ := exists_fits hne hslash hdots.1 hdots.2 hq hloc
  obtain ⟨q', hq', -, hloc'⟩ := h.locate hfits false (by simp)
  rw [hq] at hq'
  cases hq'
  rw [hloc] at hloc'
  cases hloc'
  exact ⟨hfits, hdir⟩

/-- What has been moved is found, and what has not is as it was. -/
theorem replaced_of_within (hd : d.NoLinks) (h : d.Houses dir l)
    (ht : Fits dir (name ++ ".tmp")) (hf : Fits dir name)
    (hw : Within l [name ++ ".tmp", name] d e) (hend : d.IsEnd (l ++ [name ++ ".tmp"]))
    (hfree : d.IsEnd (l ++ [name])) {mode : Nat} (hgone : e.node? (l ++ [name ++ ".tmp"]) = none)
    (hplaced : e.node? (l ++ [name]) = some (.file contents mode now)) :
    Replaced now (Path.join dir name) contents d e := by
  have hends : ∀ other ∈ [name ++ ".tmp", name], d.IsEnd (l ++ [other]) := by
    simpa using ⟨hend, hfree⟩
  have hends' : ∀ other ∈ [name ++ ".tmp", name], e.IsEnd (l ++ [other]) := by
    simpa using ⟨.inl hgone, .inr ⟨contents, mode, now, hplaced⟩⟩
  obtain ⟨hhouses, hlinks⟩ := houses_of_within hd h hw hends hends'
  obtain ⟨q, hq, -, hloc⟩ := h.locate hf true fun _ => hd _
  refine ⟨⟨mode, ?_⟩, ?_, hw.keeps h.isDir hends ?_⟩
  · rw [stat_join hhouses hf (hlinks _), hplaced]
  · rw [temporary_join, stat_join hhouses ht (hlinks _), hgone]
  · have hreach : d.Reaches (Path.join dir name) (l ++ [name]) := ⟨q, hq, hloc⟩
    simpa using ⟨.inr ((reaches_temporary hd h ht).mpr rfl), .inl hreach⟩

section Whole

variable (hd : d.NoLinks) (h : d.Houses dir l) (ht : Fits dir (name ++ ".tmp"))
include hd h ht

/-- A directory where contents should be written stays there. -/
theorem isWhole_of_isDir (hdir : d.IsDir (l ++ [name ++ ".tmp"])) :
    IsWhole now (Path.join dir name) contents d (replace now d (Path.join dir name) contents) := by
  obtain ⟨mode, modified, hnode⟩ := hdir
  have hwrite : d.write now 0o600 (temporary (Path.join dir name)) contents =
      .error .isDirectory := by
    rw [temporary_join, write_join_eq h ht now (hd _), hnode]
  have hremove : d.remove now (temporary (Path.join dir name)) = .error .isDirectory := by
    rw [temporary_join, remove_join h ht, hnode]
  right
  rw [replace, hwrite]
  refine ⟨⟨_, discard_result .., .inl hwrite⟩, ?_⟩
  rcases discard_store now d (temporary (Path.join dir name)) .isDirectory with ⟨hstore, -⟩ | hok
  · rw [hstore]
    apply spared_self
    intro m hm
    rw [(reaches_temporary hd h ht).mp hm]
    exact .inr ⟨mode, modified, hnode⟩
  · rw [hremove] at hok
    cases hok

variable (hopen : Path.IsOpen dir) (hslash : '/' ∉ name.toList)
  (hend : d.IsEnd (l ++ [name ++ ".tmp"]))
include hopen hslash hend

theorem isWhole_of_isEnd :
    IsWhole now (Path.join dir name) contents d (replace now d (Path.join dir name) contents) := by
  obtain ⟨e, mode, hwrite, hnode, hwithin⟩ := write_join h ht now hend 0o600 contents
  rw [← temporary_join] at hwrite
  obtain ⟨hhouses, hlinks⟩ := houses_of_within hd h hwithin (by simpa using hend)
    (by simpa using .inr ⟨contents, mode, now, hnode⟩)
  rcases hrename : e.rename now (temporary (Path.join dir name)) (Path.join dir name) with why | e'
  · -- Whatever has stopped the move, a file has been written, which can be cleared away.
    obtain ⟨e', hremove, hgone, hwithin'⟩ := remove_join_file hhouses ht now hnode
    rw [← temporary_join] at hremove
    right
    rw [replace, hwrite]
    simp only [hrename]
    refine ⟨⟨why, discard_result .., .inr ⟨e, hwrite, hrename⟩⟩, ?_⟩
    rw [discard, hremove]
    exact spared_of_within hd h ht hopen (hwithin.trans hwithin') hgone hend
  · obtain ⟨hfits, hdir⟩ := fits_of_rename hhouses hopen hslash hrename
    have hfree := isEnd_of_not hdir (hlinks _)
    have hne := temporary_ne_self name
    obtain ⟨e'', hrename', hgone, hplaced, hwithin'⟩ :=
      rename_join hhouses hfits now ht hne hnode hfree
    rw [← temporary_join, hrename] at hrename'
    cases hrename'
    have hreplace : replace now d (Path.join dir name) contents = .done e' () [] := by
      rw [replace, hwrite]
      simp only [hrename]
    rw [hreplace]
    have hfree' : d.IsEnd (l ++ [name]) := by
      unfold IsEnd at hfree ⊢
      rwa [hwithin.node?_child (by simpa using hne.symm)] at hfree
    have hall : Within l [name ++ ".tmp", name] d e' := (hwithin.mono (by simp)).trans hwithin'
    exact .inl ⟨rfl, replaced_of_within hd h ht hfits hall hend hfree' hgone hplaced⟩

end Whole

/-- On a disk without links contents are put in place whole or not at all. -/
theorem replace_isWhole (hd : d.NoLinks) (now : Instant) (path : String) (contents : Bytes) :
    IsWhole now path contents d (replace now d path contents) := by
  by_cases hreach : ∃ q follow m, Path.ofText (temporary path) = .ok q ∧ d.locate follow q = .ok m
  · obtain ⟨q, follow, m, hq, hm⟩ := hreach
    obtain ⟨dir, name, rfl, hopen, hslash⟩ := Path.exists_join path
    rw [temporary_join] at hq
    obtain ⟨ht, l, h⟩ := exists_fits_temporary hslash hq hm
    by_cases hdir : d.IsDir (l ++ [name ++ ".tmp"])
    · exact isWhole_of_isDir hd h ht hdir
    · exact isWhole_of_isEnd hd h ht hopen hslash (isEnd_of_not hdir (hd _))
  · apply isWhole_of_nowhere
    intro q follow m hq hm
    exact hreach ⟨q, follow, m, hq, hm⟩

/-- On a disk without links, whatever the id and the paths, setting contents either puts all of them
in place at the instant and changes no other file, or fails as its first step that did not succeed,
and changes nothing but what was left where contents are written. The id is then read as before. -/
theorem set_whole_or_not (hd : d.NoLinks) (f : FileStore) (now : Instant) (id : String)
    (contents : Bytes) :
    let o := f.perform now d (.set id contents)
    o.result = .ok () ∧ Replaced now (f.pathFor id) contents d o.store ∨
      (∃ why, o.result = .error (.io why) ∧ StepFails now (f.pathFor id) contents d why) ∧
        Spared (f.pathFor id) d o.store ∧
        ∀ later, (f.perform later o.store (.get id)).result =
          (f.perform later d (.get id)).result := by
  intro o
  obtain ⟨hresult, hstore⟩ := perform_set_eq f now d id contents
  have hwhole := replace_isWhole hd now (f.pathFor id) contents
  rw [IsWhole, ← hresult, ← hstore] at hwhole
  rcases hwhole with hdone | ⟨hfailed, hspared⟩
  · exact .inl hdone
  · refine .inr ⟨hfailed, hspared, fun later => ?_⟩
    unfold perform
    simp only [o, hspared.read]
    rcases d.read (f.pathFor id) with why | bytes <;> rfl

/-- A directory in which another one takes the place of an entry, for which contents were left. -/
def blocked : Disk :=
  ((((⟨∅⟩ : Disk).put ["s"] (.directory 0o700 0)).put ["s", "k.sess"] (.directory 0o700 0)).put
    ["s", "k.sess", "inner"] (.file [0x78] 0o600 0)).put ["s", "k.sess.tmp"] (.file [0x79] 0o600 0)

theorem node?_blocked (m : Location) :
    blocked.node? m = if m = ["s", "k.sess.tmp"] then some (.file [0x79] 0o600 0)
      else if m = ["s", "k.sess", "inner"] then some (.file [0x78] 0o600 0)
      else if m = ["s", "k.sess"] then some (.directory 0o700 0)
      else if m = ["s"] then some (.directory 0o700 0)
      else if m = [] then some Disk.top else none := by
  rw [blocked, node?_put (by simp), node?_put (by simp), node?_put (by simp), node?_put (by simp)]
  simp [node?]

/-- Nothing is put in place of a directory, and what was left beside it has been cleared away. -/
theorem set_whole_or_not_blocked :
    let f : FileStore := ⟨"s", "sess"⟩
    let o := f.perform 1 blocked (.set "k" [0x7a])
    blocked.NoLinks ∧ (∃ why, o.result = .error (.io why)) ∧
      o.store.node? ["s", "k.sess.tmp"] = none ∧
      o.store.node? ["s", "k.sess", "inner"] = some (.file [0x78] 0o600 0) := by
  intro f o
  have hd : blocked.NoLinks := by
    intro l target
    rw [node?_blocked]
    repeat' split
    all_goals simp [Disk.top]
  have hreach : blocked.Reaches (temporary (f.pathFor "k")) ["s", "k.sess.tmp"] :=
    ⟨⟨false, ["s", "k.sess.tmp"], false⟩, by decide +kernel, by decide +kernel⟩
  have hfails : o.result.toBool = false := by decide +kernel
  rcases set_whole_or_not hd f 1 "k" [0x7a] with ⟨hok, -⟩ | ⟨⟨why, hresult, -⟩, hspared, -⟩
  · rw [hok] at hfails
    cases hfails
  · refine ⟨hd, ⟨why, hresult⟩, ?_, ?_⟩
    · rcases hspared.unfinished _ hreach with hnone | ⟨⟨_, _, hdir⟩, -⟩
      · exact hnone
      · simp [node?_blocked] at hdir
    · have hother : ¬blocked.Reaches (temporary (f.pathFor "k")) ["s", "k.sess", "inner"] := by
        intro hinner
        exact absurd (hinner.unique hreach) (by decide)
      rcases hspared.keeps.node? _ hother with hsame | ⟨⟨_, _, hdir⟩, -⟩
      · simpa [node?_blocked] using hsame
      · simp [node?_blocked] at hdir

end FileStore

end SessionStore
