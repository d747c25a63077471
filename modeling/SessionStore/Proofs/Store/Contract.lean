import SessionStore.Proofs.Disk.Made
import SessionStore.Proofs.Store.Files

/-! # One contract for both backends

The memory backend and the file backend give the same answers to the same requests, which are those
of a ledger. For the files this needs a directory that is new, room for the paths in use, and
digests that tell the ids in use apart.
-/

namespace SessionStore

namespace FileStore

variable {f : FileStore} {d : Disk} {used : String → Prop}

/-- An empty directory stands for the empty ledger. -/
theorem holds_empty {l : Location} (hl : d.LeadsTo f.directory l)
    (hempty : ∀ name, d.node? (l ++ [name]) = none) : f.Holds used l d .empty where
  leads := hl
  ends name := .inl (hempty name)
  entry id _ := by
    rw [hempty]
    rfl
  only name hn := absurd (hempty name) hn
  unused _ _ := rfl

/-- If nothing is found at a path that is not empty, the path has a meaning all the same, and there
is no directory. -/
theorem path_of_missing {path : String} (h : d.stat path = .error .notFound) (hne : path ≠ "") :
    ∃ p, Path.ofText path = .ok p ∧ d.isDirectory p = false := by
  rcases hp : Path.ofText path with why | p
  · have hwhy : why = .notFound := by simpa [Disk.stat, hp, bind, Except.bind] using h
    subst hwhy
    simp only [Path.ofText, if_neg hne] at hp
    split at hp
    · cases hp
    · split at hp <;> cases hp
  · refine ⟨p, rfl, ?_⟩
    rcases hf : d.find p with why | ⟨l, n⟩
    · simp [Disk.isDirectory, hf]
    · simp [Disk.stat, hp, hf, bind, Except.bind, pure, Except.pure] at h

/-- A store that is started where no directory was makes an empty one, unless its path is empty or
goes up again. -/
theorem start_holds {now : Instant} (ht : d.IsTree)
    (hmissing : d.stat f.directory = .error .notFound) (hd : f.directory ≠ "")
    (hup : ".." ∉ Path.namesOf f.directory.toList)
    (hok : (f.perform now d .start).result = .ok ()) :
    ∃ l, f.Holds used l (f.perform now d .start).store .empty := by
  obtain ⟨p, hp, hdir⟩ := path_of_missing hmissing hd
  have hnames : p.names = Path.namesOf f.directory.toList := by
    rw [(Path.ofText_eq_ok hp).2.2.2]
  rcases hmade : d.makeDirectories now 0o700 f.directory with ⟨why | ⟨⟩, e⟩
  · unfold perform prepare at hok
    simp only [hmissing, hmade] at hok
    cases hok
  · have hstart : f.perform now d .start = .done e () [.directoryReady f.directory] := by
      unfold perform prepare
      simp only [hmissing, hmade]
      rfl
    obtain ⟨l, hw, hl, hempty⟩ :=
      Disk.makeDirectories_fresh ht hp (by rwa [hnames]) hdir hmade
    rw [hstart]
    exact ⟨l, holds_empty ⟨⟨p, hp, hw⟩, hl⟩ hempty⟩

end FileStore

/-- Whatever they are asked, in any order and at any instants, a file backend that has been started
where no directory was and a memory backend that is new answer alike, and as a ledger does. -/
theorem stores_agree {f : FileStore} (hx : f.HasExtension) {d : Disk} (ht : d.IsTree)
    (hmissing : d.stat f.directory = .error .notFound) (hd : f.directory ≠ "")
    (hup : ".." ∉ Path.namesOf f.directory.toList) (start : Instant)
    (hok : (f.backend.perform start d .start).result = .ok ()) (rs : List (Instant × Request))
    (hroom : ∀ x ∈ rs, ∀ id ∈ x.2.ids,
      (FileStore.temporary (f.pathFor id)).utf8ByteSize < Path.lengthLimit)
    (hdigests : ∀ x ∈ rs, ∀ y ∈ rs, ∀ id₁ ∈ x.2.ids, ∀ id₂ ∈ y.2.ids,
      Digest.sha256 (Utf8.encodeText id₁) = Digest.sha256 (Utf8.encodeText id₂) → id₁ = id₂) :
    f.backend.serve (f.backend.perform start d .start).store rs = Memory.backend.serve ∅ rs ∧
      Memory.backend.serve ∅ rs = Ledger.backend.serve .empty rs := by
  have hmemory : Memory.backend.serve ∅ rs = Ledger.backend.serve .empty rs :=
    (Memory.backend_follows fun _ => True).serve (fun _ => Std.ExtTreeMap.getElem?_empty) rs
      fun _ _ _ _ => trivial
  have hc : f.CanUse fun id => ∃ x ∈ rs, id ∈ x.2.ids := by
    constructor
    · rintro id ⟨x, hx, hid⟩
      exact hroom x hx id hid
    · rintro id₁ id₂ ⟨x, hx, hid₁⟩ ⟨y, hy, hid₂⟩
      exact hdigests x hx y hy id₁ hid₁ id₂ hid₂
  obtain ⟨l, hl⟩ := FileStore.start_holds ht hmissing hd hup hok
  have hfiles := (FileStore.backend_follows hx hc l).serve hl rs fun x hx id hid => ⟨x, hx, hid⟩
  exact ⟨hfiles.trans hmemory.symm, hmemory⟩

/-- Nothing but the directory at the top. -/
theorem isTree_empty : Disk.IsTree ⟨∅⟩ := by
  intro l name h
  exact absurd (by simp [Disk.node?]) h

theorem hasExtension_sess (directory : String) : FileStore.HasExtension ⟨directory, "sess"⟩ where
  nonempty := (by decide : "sess" ≠ "")
  short := (by decide : "sess".utf8ByteSize ≤ 50)
  no_dot := (by decide : '.' ∉ "sess".toList)
  no_slash := (by decide : '/' ∉ "sess".toList)
  no_nul := (by decide : '\x00' ∉ "sess".toList)

/-- An id that needs a digest, two purges on either side of the limit, and a text that is gone. -/
theorem stores_agree_capital :
    let f : FileStore := ⟨"s", "sess"⟩
    let rs : List (Instant × Request) :=
      [(0, .call (.set "K" [0x6b])), (4, .call (.touch "K")), (9, .call (.purge ⟨5⟩)),
        (10, .call (.purge ⟨5⟩)), (10, .getText "K")]
    f.backend.serve (f.backend.perform 0 ⟨∅⟩ .start).store rs = Memory.backend.serve ∅ rs := by
  intro f rs
  have hx : f.HasExtension := hasExtension_sess "s"
  have hup : ".." ∉ Path.namesOf f.directory.toList := by decide
  have hids : ∀ x ∈ rs, ∀ id ∈ x.2.ids, id = "K" := by
    simp [rs, Request.ids, Call.ids]
  have hok : (f.perform 0 ⟨∅⟩ .start).result = .ok () :=
    @ok_of_toOption Unit _ () (by decide +kernel)
  have hmissing : (⟨∅⟩ : Disk).stat f.directory = .error .notFound := by
    change (⟨∅⟩ : Disk).stat "s" = .error .notFound
    rfl
  refine (stores_agree hx isTree_empty hmissing (by decide) hup 0 hok rs ?_ ?_).1
  · intro x hx' id hid
    have hname := hx.fit.utf8ByteSize_fileName_le id
    have hjoin := Path.utf8ByteSize_join_le f.directory (f.fileName id)
    have hdir : f.directory.utf8ByteSize = 1 := by decide
    have htmp : ".tmp".utf8ByteSize = 4 := by decide
    rw [FileStore.temporary, FileStore.pathFor, String.utf8ByteSize_append, htmp]
    unfold Path.lengthLimit
    omega
  · intro x hx y hy id₁ h₁ id₂ h₂ _
    rw [hids x hx id₁ h₁, hids y hy id₂ h₂]

/-! ## What the conditions are for -/

/-- Started where no directory was, the store answers a sequence of requests as memory does not. -/
def FileStore.Departs (f : FileStore) (rs : List (Instant × Request)) : Prop :=
  f.HasExtension ∧ (⟨∅⟩ : Disk).stat f.directory = .error .notFound ∧
    (f.backend.perform 0 ⟨∅⟩ .start).result = .ok () ∧
    f.backend.serve (f.backend.perform 0 ⟨∅⟩ .start).store rs ≠ Memory.backend.serve ∅ rs

/-- What can be compared of an answer: whether it is an error, or else a number. -/
def mark : ((r : Request) × Except SessionError r.Reply) → Option Nat
  | ⟨.call (.contains _), .ok b⟩ => some (Bool.toNat b)
  | ⟨.call (.purge _), .ok n⟩ => some n
  | ⟨_, .ok _⟩ => some 0
  | ⟨_, .error _⟩ => none

theorem departs_climbing :
    FileStore.Departs ⟨"a/k.sess/..", "sess"⟩ [(0, .call (.contains "k"))] := by
  refine ⟨hasExtension_sess _, rfl, @ok_of_toOption Unit _ () (by decide +kernel), ?_⟩
  · intro h
    have := congrArg (List.map mark) h
    revert this
    decide +kernel

theorem departs_unnamed :
    FileStore.Departs ⟨"", "sess"⟩ [(0, .call (.set "k" [])), (1, .call (.purge ⟨0⟩))] := by
  refine ⟨hasExtension_sess _, rfl, @ok_of_toOption Unit _ () (by decide +kernel), ?_⟩
  intro h
  have := congrArg (List.map mark) h
  revert this
  decide +kernel

/-- A directory with so many slashes behind its name that no file inside can be written. -/
def slashed (n : Nat) : String := String.ofList ('s' :: List.replicate n '/')

theorem utf8ByteSize_slashed (n : Nat) : (slashed n).utf8ByteSize = n + 1 := by
  have hascii : ∀ c ∈ 's' :: List.replicate n '/', c.utf8Size = 1 := by
    intro c hc
    rcases List.mem_cons.mp hc with rfl | hc
    · decide
    · rw [List.eq_of_mem_replicate hc]
      decide
  rw [slashed, FileStore.utf8ByteSize_ofList_of_ascii hascii]
  simp

theorem namesOf_slashed (n : Nat) : Path.namesOf ('s' :: List.replicate n '/') = ["s"] := by
  induction n with
  | zero => rfl
  | succ n ih => rw [List.replicate_succ', ← List.cons_append, Path.namesOf_concat_slash, ih]

theorem ofText_slashed {n : Nat} (h : n + 2 < Path.lengthLimit) :
    Path.ofText (slashed (n + 1)) = .ok ⟨false, ["s"], true⟩ := by
  have hnul : (slashed (n + 1)).toList.contains '\x00' = false := by
    simp [slashed]
  have hne : slashed (n + 1) ≠ "" := by
    simp [slashed]
  have hshort : ¬Path.lengthLimit ≤ (slashed (n + 1)).utf8ByteSize := by
    rw [utf8ByteSize_slashed]
    omega
  have hlast : ('s' :: List.replicate (n + 1) '/').getLast? = some '/' := by
    rw [List.replicate_succ', ← List.cons_append]
    exact List.getLast?_concat
  rw [Path.ofText, hnul, if_neg (by simp), if_neg hne, if_neg hshort, slashed,
    String.toList_ofList, namesOf_slashed, hlast]
  rfl

theorem leadsTo_slashed {d : Disk} {n : Nat} (h : n + 2 < Path.lengthLimit) (hd : d.IsDir ["s"]) :
    d.LeadsTo (slashed (n + 1)) ["s"] := by
  have hname : Disk.IsName "s" := ⟨by decide, by decide, by decide⟩
  exact ⟨⟨_, ofText_slashed h, Disk.walkWith_isDir hname hd⟩, hd⟩

/-- The directory can be made, but its path leaves no room. -/
theorem departs_slashed {n : Nat} (h : n + 2 < Path.lengthLimit) (hn : Path.lengthLimit ≤ n + 12) :
    FileStore.Departs ⟨slashed (n + 1), "sess"⟩ [(0, .call (.set "k" []))] := by
  have htext := ofText_slashed h
  have hx := hasExtension_sess (slashed (n + 1))
  have hmissing : (⟨∅⟩ : Disk).stat (slashed (n + 1)) = .error .notFound := by
    rw [Disk.stat, htext]
    rfl
  have hok : (FileStore.perform ⟨slashed (n + 1), "sess"⟩ 0 ⟨∅⟩ .start).result = .ok () := by
    have hne : slashed (n + 1) ≠ "" := (Path.ofText_eq_ok htext).2.1
    unfold FileStore.perform FileStore.prepare Disk.makeDirectories
    simp only [hmissing, if_neg hne, htext]
    rfl
  have hroom : Path.lengthLimit ≤
      (FileStore.temporary (FileStore.pathFor ⟨slashed (n + 1), "sess"⟩ "k")).utf8ByteSize := by
    have hname : FileStore.fileName ⟨slashed (n + 1), "sess"⟩ "k" = "k.sess" := by
      rw [FileStore.fileName, FileStore.stem_of_isPlain (by decide)]
      rfl
    have hjoin := Path.le_utf8ByteSize_join (slashed (n + 1)) "k.sess"
    have hsize : "k.sess".utf8ByteSize = 6 := by decide
    have htmp : ".tmp".utf8ByteSize = 4 := by decide
    rw [utf8ByteSize_slashed, hsize] at hjoin
    rw [FileStore.temporary, FileStore.pathFor, hname, String.utf8ByteSize_append, htmp]
    change Path.lengthLimit ≤ (Path.join (slashed (n + 1)) "k.sess").utf8ByteSize + 4
    omega
  refine ⟨hx, hmissing, hok, ?_⟩
  intro hsame
  have hset : ∀ d, (FileStore.perform ⟨slashed (n + 1), "sess"⟩ 0 d (.set "k" [])).result =
      .error (.io .nameTooLong) :=
    fun d => (FileStore.perform_set_of_no_room hx htext hroom 0 []).1
  have hmarks := congrArg (List.map mark) hsame
  simp only [Backend.serve, Backend.respond, FileStore.backend, hset] at hmarks
  cases hmarks

/-- No condition on the directory can be left out. -/
theorem stores_depart :
    FileStore.Departs ⟨"a/k.sess/..", "sess"⟩ [(0, .call (.contains "k"))] ∧
      FileStore.Departs ⟨"", "sess"⟩ [(0, .call (.set "k" [])), (1, .call (.purge ⟨0⟩))] ∧
      FileStore.Departs ⟨slashed 4090, "sess"⟩ [(0, .call (.set "k" []))] :=
  ⟨departs_climbing, departs_unnamed, departs_slashed (by decide) (by decide)⟩

end SessionStore
