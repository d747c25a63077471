import SessionStore.Proofs.Disk.Apart
import SessionStore.Proofs.Engine.Separation
import SessionStore.Proofs.Store.Contract
import SessionStore.Proofs.Store.Preparation
import SessionStore.Proofs.Store.Sweeping

/-! # Sessions do not interfere

In memory an entry depends on the calls about its id and on purges alone. The same holds for the
files of an id whose digest no other id has: the calls about other ids stay within the files of
these, and a purge treats every file by itself.
-/

namespace SessionStore

namespace Memory

variable {m m' : Memory} {k : String} {c : Call}

theorem getElem?_perform_other {j : String} (hc : c.ids = [j]) (hk : j ≠ k) (now : Instant) :
    (perform now m c).store[k]? = m[k]? := by
  rw [getElem?_perform]
  cases c <;> simp_all [Call.ids, Call.turn]

theorem result_perform (h : m[k]? = m'[k]?) (hc : c.ids = [k] ∨ c = .stop) (now : Instant) :
    (perform now m c).result = (perform now m' c).result := by
  cases c with
  | start | stop | set | delete => rfl
  | purge maxAge => simp [Call.ids] at hc
  | contains id =>
    obtain rfl : id = k := by simpa [Call.ids] using hc
    have hcontains : m.contains id = m'.contains id := by
      rw [Std.ExtTreeMap.contains_eq_isSome_getElem?, Std.ExtTreeMap.contains_eq_isSome_getElem?, h]
    exact congrArg Except.ok hcontains
  | get id =>
    obtain rfl : id = k := by simpa [Call.ids] using hc
    rw [perform, perform, h]
    cases m'[id]? <;> rfl
  | touch id =>
    obtain rfl : id = k := by simpa [Call.ids] using hc
    rw [perform, perform, h]
    cases m'[id]? <;> rfl

/-- In memory an entry does not depend on what happens to the others. -/
theorem separates (used : String → Prop) (k : String) :
    backend.Separates used k fun _ m m' => m[k]? = m'[k]? where
  other h _ hk hc now := (getElem?_perform_other hc hk now).trans h
  own {_ m m' c} h hc now := by
    refine ⟨result_perform h hc now, ?_⟩
    change (perform now m c).store[k]? = (perform now m' c).store[k]?
    rw [getElem?_perform, getElem?_perform, h]
  start h _ := ⟨rfl, h⟩
  purge {_ m m'} h now maxAge := by
    change (perform now m _).store[k]? = (perform now m' _).store[k]?
    rw [getElem?_perform, getElem?_perform, h]

end Memory

namespace FileStore

variable {f : FileStore} {l : Location} {d d' e : Disk} {id name : String}
  {P : String → Prop} {now : Instant} {maxAge : Duration} {c : Call}

/-- The directory of the store is at `l`, and nothing strange is in it. -/
structure IsAt (f : FileStore) (l : Location) (d : Disk) : Prop where
  houses : d.Houses f.directory l
  tidy : f.Tidy l d

theorem IsAt.of_sameBut (h : f.IsAt l d) (hs : Disk.SameBut l P d e)
    (hproper : ∀ name, P name → Disk.IsProper name) : f.IsAt l e := by
  refine ⟨hs.houses h.houses, ?_, ?_⟩
  · intro name hswept hn
    rcases hs.node? (l ++ [name]) (Disk.ne_child l name).symm with hsame | ⟨other, hP, heq, -⟩
    · exact h.tidy.proper name hswept (hsame ▸ hn)
    · obtain rfl : name = other := by simpa using heq
      exact hproper name hP
  · intro name hswept target
    rcases hs.node? (l ++ [name]) (Disk.ne_child l name).symm with hsame | ⟨-, -, -, -, hend⟩
    · rw [hsame]
      exact h.tidy.no_link name hswept target
    · exact hend.not_link target

theorem IsAt.isProper_of_listed (h : f.IsAt l d) (name : String) (hname : name ∈ d.namesIn l)
    (hswept : f.isSwept name = true) : Disk.IsProper name :=
  h.tidy.proper name hswept (Disk.mem_namesIn.mp hname)

/-- A name that calls can use, and that a purge goes for. -/
structure IsUsable (f : FileStore) (name : String) : Prop where
  proper : Disk.IsProper name
  swept : f.isSwept name = true

theorem isUsable_fileName (hx : f.FitExtension) (hdot : '.' ∉ f.extension.toList) (id : String) :
    f.IsUsable (f.fileName id) :=
  ⟨⟨isSimple_fileName hx.no_slash hx.no_nul id, hx.isName_fileName id⟩,
    (isSwept_fileName_iff id).mpr hdot⟩

theorem isUsable_temporaryName (hx : f.FitExtension) (hdot : '.' ∉ f.extension.toList)
    (id : String) : f.IsUsable (f.temporaryName id) :=
  ⟨⟨hx.isSimple_temporaryName id, hx.isName_temporaryName id⟩,
    (isSwept_temporaryName_iff id).mpr hdot⟩

/-! ## Calls about other ids -/

theorem discard_sameBut (h : f.IsAt l d) (hu : f.IsUsable name)
    (hP : Disk.Fits f.directory name → P name) (why : IoFault) :
    Disk.SameBut l P d (discard now d (Path.join f.directory name) why).store := by
  rw [discard]
  rcases hr : d.remove now (Path.join f.directory name) with left | e
  · exact .refl P h.houses.isDir
  · exact Disk.remove_sameBut h.houses hu.proper hP (h.tidy.no_link name hu.swept) hr

/-- The files of the id may differ wherever they can be at all. -/
structure Covers (f : FileStore) (P : String → Prop) (id : String) : Prop where
  file : Disk.Fits f.directory (f.fileName id) → P (f.fileName id)
  temporary : Disk.Fits f.directory (f.temporaryName id) → P (f.temporaryName id)

section Other

variable (hx : f.FitExtension) (hdot : '.' ∉ f.extension.toList)
  (hproper : ∀ name, P name → Disk.IsProper name) (h : f.IsAt l d) (hid : f.Covers P id)
include hx hdot hproper h hid

theorem replace_sameBut (contents : Bytes) :
    Disk.SameBut l P d (replace now d (f.pathFor id) contents).store := by
  have hu := isUsable_fileName hx hdot id
  have ht := isUsable_temporaryName hx hdot id
  rw [replace, temporary_pathFor, pathFor]
  rcases hw : d.write now 0o600 (Path.join f.directory (f.temporaryName id)) contents with why | e
  · exact discard_sameBut h ht hid.temporary why
  · have hs := Disk.write_sameBut h.houses ht.proper hid.temporary (h.tidy.no_link _ ht.swept) hw
    have he := h.of_sameBut hs hproper
    simp only
    rcases hr : e.rename now (Path.join f.directory (f.temporaryName id))
      (Path.join f.directory (f.fileName id)) with why | e'
    · exact hs.trans (discard_sameBut he ht hid.temporary why)
    · exact hs.trans (Disk.rename_sameBut he.houses hu.proper hid.file
        (he.tidy.no_link _ hu.swept) ht.proper hid.temporary (he.tidy.no_link _ ht.swept) hr)

/-- A call about an id stays within the files of that id. -/
theorem perform_sameBut (hc : c.ids = [id]) : Disk.SameBut l P d (f.perform now d c).store := by
  have hu := isUsable_fileName hx hdot id
  have hlink := h.tidy.no_link _ hu.swept
  have hrefl : Disk.SameBut l P d d := .refl P h.houses.isDir
  cases c with
  | start | stop | purge => cases hc
  | contains j =>
    unfold perform
    dsimp only
    split
    · exact hrefl
    · split <;> exact hrefl
  | get j =>
    unfold perform
    dsimp only
    split <;> exact hrefl
  | set j contents =>
    obtain rfl : j = id := by simpa [Call.ids] using hc
    rw [(perform_set_eq f now d j contents).2]
    exact replace_sameBut hx hdot hproper h hid contents
  | delete j =>
    obtain rfl : j = id := by simpa [Call.ids] using hc
    unfold perform
    dsimp only
    split
    case h_1 e hr => exact Disk.remove_sameBut h.houses hu.proper hid.file hlink hr
    case h_2 => split <;> exact hrefl
  | touch j =>
    obtain rfl : j = id := by simpa [Call.ids] using hc
    unfold perform
    dsimp only
    split
    case h_1 e hr => exact Disk.setModified_sameBut h.houses hu.proper hid.file hlink hr
    case h_2 => exact hrefl

end Other

/-! ## Calls about the id itself -/

/-- The outcomes have the same result, and leave disks that are the same but for names of `P`. -/
structure Same {α : Type} (l : Location) (P : String → Prop) (o o' : Outcome Disk α) : Prop where
  result : o.result = o'.result
  store : Disk.SameBut l P o.store o'.store

theorem discard_same (h : f.IsAt l d) (hs : Disk.SameBut l P d d') (hu : f.IsUsable name)
    (hP : ¬P name) (why : IoFault) :
    Same l P (discard now d (Path.join f.directory name) why)
      (discard now d' (Path.join f.directory name) why) := by
  have ha := Disk.remove_agree h.houses hs hu.proper (hs.node?_child fun hname => absurd hname hP)
    now
  unfold discard
  rcases ha.cases with ⟨left, hr, hr'⟩ | ⟨e, e', hr, hr', he⟩ <;> rw [hr, hr']
  · exact ⟨rfl, hs⟩
  · exact ⟨rfl, he⟩

section Own

variable (hx : f.FitExtension) (hdot : '.' ∉ f.extension.toList) (h : f.IsAt l d)
  (hs : Disk.SameBut l P d d') (hfile : ¬P (f.fileName id)) (htemporary : ¬P (f.temporaryName id))
include hx hdot h hs hfile htemporary

theorem replace_same (contents : Bytes) :
    Same l P (replace now d (f.pathFor id) contents) (replace now d' (f.pathFor id) contents) := by
  have hu := isUsable_fileName hx hdot id
  have ht := isUsable_temporaryName hx hdot id
  have hsame : ∀ {e e' : Disk}, Disk.SameBut l P e e' → ∀ {name}, ¬P name →
      e'.node? (l ++ [name]) = e.node? (l ++ [name]) :=
    fun hs _ hP => hs.node?_child fun hname => absurd hname hP
  have ha := Disk.write_agree h.houses hs ht.proper (hsame hs htemporary)
    (h.tidy.no_link _ ht.swept) now 0o600 contents
  rw [replace, replace, temporary_pathFor, pathFor]
  rcases ha.cases with ⟨why, hw, hw'⟩ | ⟨e, e', hw, hw', he⟩ <;> rw [hw, hw']
  · exact discard_same h hs ht htemporary why
  · have hkept : f.IsAt l e := by
      refine h.of_sameBut ?_ fun _ hname => hname
      exact Disk.write_sameBut h.houses ht.proper (fun _ => ht.proper)
        (h.tidy.no_link _ ht.swept) hw
    have hb := Disk.rename_agree hkept.houses he hu.proper (hsame he hfile) now ht.proper
      (hsame he htemporary)
    simp only
    rcases hb.cases with ⟨why, hr, hr'⟩ | ⟨e₁, e₁', hr, hr', hmoved⟩ <;> rw [hr, hr']
    · exact discard_same hkept he ht htemporary why
    · exact ⟨rfl, hmoved⟩

/-- A call about an id whose files are the same has the same result. -/
theorem perform_same (hc : c.ids = [id]) : Same l P (f.perform now d c) (f.perform now d' c) := by
  have hu := isUsable_fileName hx hdot id
  have hlink := h.tidy.no_link _ hu.swept
  have hsame := hs.node?_child fun hname => absurd hname hfile
  cases c with
  | start | stop | purge => cases hc
  | contains j =>
    obtain rfl : j = id := by simpa [Call.ids] using hc
    unfold perform
    dsimp only
    rw [pathFor, Disk.stat_agree h.houses hs hu.proper hsame hlink]
    split
    · exact ⟨rfl, hs⟩
    · split <;> exact ⟨rfl, hs⟩
  | get j =>
    obtain rfl : j = id := by simpa [Call.ids] using hc
    unfold perform
    dsimp only
    rw [pathFor, Disk.read_agree h.houses hs hu.proper hsame hlink]
    split <;> exact ⟨rfl, hs⟩
  | set j contents =>
    obtain rfl : j = id := by simpa [Call.ids] using hc
    obtain ⟨hresult, hstore⟩ := replace_same hx hdot h hs hfile htemporary contents
    obtain ⟨hd, he⟩ := perform_set_eq f now d j contents
    obtain ⟨hd', he'⟩ := perform_set_eq f now d' j contents
    exact ⟨hd.trans (hresult.trans hd'.symm), by rwa [he, he']⟩
  | delete j =>
    obtain rfl : j = id := by simpa [Call.ids] using hc
    have ha := Disk.remove_agree h.houses hs hu.proper hsame now
    unfold perform
    dsimp only
    rw [pathFor]
    rcases ha.cases with ⟨why, hr, hr'⟩ | ⟨e, e', hr, hr', he⟩ <;> rw [hr, hr']
    · simp only
      split <;> exact ⟨rfl, hs⟩
    · exact ⟨rfl, he⟩
  | touch j =>
    obtain rfl : j = id := by simpa [Call.ids] using hc
    have ha := Disk.setModified_agree h.houses hs hu.proper hsame hlink now
    unfold perform
    dsimp only
    rw [pathFor]
    rcases ha.cases with ⟨why, hr, hr'⟩ | ⟨e, e', hr, hr', he⟩ <;> rw [hr, hr']
    · exact ⟨rfl, hs⟩
    · exact ⟨rfl, he⟩

end Own

/-! ## Purges -/

theorem expire_sameBut (h : f.IsAt l d) (hu : f.IsUsable name)
    (hP : Disk.Fits f.directory name → P name) {gone : Bool}
    (hok : expire now maxAge d (Path.join f.directory name) = .ok (gone, e)) :
    Disk.SameBut l P d e := by
  have hrefl : Disk.SameBut l P d d := .refl P h.houses.isDir
  have hlink := h.tidy.no_link name hu.swept
  rcases h.houses.fits_or_long hu.proper.1 hu.proper.2 with hf | hlong
  · rw [expire_join now maxAge h.houses hf hlink] at hok
    rcases hn : d.node? (l ++ [name]) with _ | ⟨_, _, modified⟩ | ⟨_, modified⟩ | target
    · rw [hn] at hok
      cases hok
      exact hrefl
    · simp only [hn] at hok
      split at hok <;> cases hok
      · exact hrefl
      · exact (hrefl.erase_right (hP hf) (.inr ⟨_, _, _, hn⟩)).stamp_right now
    · simp only [hn] at hok
      split at hok <;> cases hok
      exact hrefl
    · exact absurd hn (hlink target)
  · rw [expire_of_long hlong] at hok
    cases hok

theorem sweep_isAt {names : List String}
    (hnames : ∀ name ∈ names, f.isSwept name = true → Disk.IsProper name) (h : f.IsAt l d)
    (now : Instant) (maxAge : Duration) (removed : Nat) :
    f.IsAt l (f.sweep now maxAge removed d names).store := by
  induction names generalizing d removed with
  | nil => exact h
  | cons name names ih =>
    obtain ⟨hname, hnames⟩ := List.forall_mem_cons.mp hnames
    rcases hswept : f.isSwept name with _ | _
    · rw [sweep_cons_of_not_swept hswept]
      exact ih hnames h removed
    rcases hexpire : expire now maxAge d (Path.join f.directory name) with why | ⟨gone, e⟩
    · rw [sweep_cons_of_error hswept hexpire]
      exact h
    · have he := expire_sameBut h ⟨hname hswept, hswept⟩ (fun _ => hname hswept) hexpire
      rw [sweep_cons_of_ok hswept hexpire]
      exact ih hnames (h.of_sameBut he fun _ hproper => hproper) _

theorem purge_isAt (h : f.IsAt l d) (now : Instant) (maxAge : Duration) :
    f.IsAt l (f.purge now maxAge d).store := by
  rcases h.houses with hleads | ⟨hdir, -⟩
  · rw [(purge_eq_sweep hleads now maxAge).2]
    exact sweep_isAt h.isProper_of_listed h now maxAge 0
  · rw [purge_unnamed hdir]
    exact h

/-- An attempt on a file, or on nothing, does not fail. -/
theorem expire_isEnd (h : f.IsAt l d) (hf : Disk.Fits f.directory name)
    (hend : d.IsEnd (l ++ [name])) (now : Instant) (maxAge : Duration) :
    ∃ gone e, expire now maxAge d (Path.join f.directory name) = .ok (gone, e) := by
  rw [expire_join now maxAge h.houses hf hend.not_link]
  rcases hend with hn | ⟨contents, mode, modified, hn⟩
  · rw [hn]
    exact ⟨false, d, rfl⟩
  · simp only [hn]
    split
    · exact ⟨false, d, rfl⟩
    · exact ⟨true, _, rfl⟩

theorem expire_agree (h : f.IsAt l d) (hs : Disk.SameBut l P d d') (hu : f.IsUsable name)
    (hsame : d'.node? (l ++ [name]) = d.node? (l ++ [name])) (now : Instant) (maxAge : Duration) :
    Disk.Agree (fun x x' => Disk.SameBut l P x.2 x'.2)
      (expire now maxAge d (Path.join f.directory name))
      (expire now maxAge d' (Path.join f.directory name)) := by
  have hlink := h.tidy.no_link name hu.swept
  rcases h.houses.fits_or_long hu.proper.1 hu.proper.2 with hf | hlong
  · rw [expire_join now maxAge h.houses hf hlink,
      expire_join now maxAge (hs.houses h.houses) hf (hsame ▸ hlink), hsame]
    rcases d.node? (l ++ [name]) with _ | ⟨_, _, _⟩ | ⟨_, _⟩ | _
    · exact .ok hs
    · dsimp only
      split
      · exact .ok hs
      · exact .ok ((hs.erase name).stamp now)
    · dsimp only
      split
      · exact .ok hs
      · exact .error _
    · exact .ok hs
  · rw [expire_of_long hlong, expire_of_long hlong]
    exact .error _

/-- What may differ is passed over by a purge without harm to the rest: it makes no difference if
these names are left out. -/
theorem sweep_filter (hfits : ∀ name, P name → Disk.Fits f.directory name) {skip : String → Bool}
    {names : List String} (hnames : ∀ name ∈ names, f.isSwept name = true → Disk.IsProper name)
    (h : f.IsAt l d) (hskip : ∀ name, skip name = true ↔ P name ∧ d.IsEnd (l ++ [name]))
    (hs : Disk.SameBut l P d d') (now : Instant) (maxAge : Duration) (removed removed' : Nat) :
    Disk.SameBut l P (f.sweep now maxAge removed d names).store
      (f.sweep now maxAge removed' d' (names.filter (!skip ·))).store := by
  induction names generalizing d d' removed removed' with
  | nil => exact hs
  | cons name names ih =>
    obtain ⟨hname, hnames⟩ := List.forall_mem_cons.mp hnames
    rcases hswept : f.isSwept name with _ | _
    · rw [sweep_cons_of_not_swept hswept, List.filter_cons]
      split
      · rw [sweep_cons_of_not_swept hswept]
        exact ih hnames h hskip hs removed removed'
      · exact ih hnames h hskip hs removed removed'
    have hu : f.IsUsable name := ⟨hname hswept, hswept⟩
    -- What goes on from a disk that the attempt on this name has left.
    have hrest : ∀ {e e' : Disk} {gone : Bool},
        expire now maxAge d (Path.join f.directory name) = .ok (gone, e) →
        Disk.SameBut l P e e' → ∀ removed removed',
        Disk.SameBut l P (f.sweep now maxAge removed e names).store
          (f.sweep now maxAge removed' e' (names.filter (!skip ·))).store := by
      intro e e' gone hok he
      have hkept := expire_sameBut h hu (fun _ => hu.proper) hok
      refine ih hnames (h.of_sameBut hkept fun _ hname => hname) ?_ he
      intro other
      rw [hskip, hkept.isEnd (Disk.ne_child l other).symm]
    rcases hcase : skip name with _ | _
    · have hsame := hs.node?_child fun hP hend => by
        rw [(hskip name).mpr ⟨hP, hend⟩] at hcase
        cases hcase
      have ha := expire_agree h hs hu hsame now maxAge
      rw [List.filter_cons_of_pos (by simp [hcase])]
      rcases ha.cases with ⟨why, hexpire, hexpire'⟩ |
        ⟨⟨gone, e⟩, ⟨gone', e'⟩, hexpire, hexpire', he⟩
      · rw [sweep_cons_of_error hswept hexpire, sweep_cons_of_error hswept hexpire']
        exact hs
      · rw [sweep_cons_of_ok hswept hexpire, sweep_cons_of_ok hswept hexpire']
        exact hrest hexpire he _ _
    · obtain ⟨hP, hend⟩ := (hskip name).mp hcase
      obtain ⟨gone, e, hexpire⟩ := expire_isEnd h (hfits name hP) hend now maxAge
      have hgone := expire_sameBut h hu (fun _ => hP) hexpire
      rw [sweep_cons_of_ok hswept hexpire, List.filter_cons_of_neg (by simp [hcase])]
      exact hrest hexpire (hgone.symm.trans hs) _ _

open Classical in
theorem purge_sameBut (hfits : ∀ name, P name → Disk.Fits f.directory name) (h : f.IsAt l d)
    (hs : Disk.SameBut l P d d') (now : Instant) (maxAge : Duration) :
    Disk.SameBut l P (f.purge now maxAge d).store (f.purge now maxAge d').store := by
  by_cases hdir : f.directory = ""
  · rw [purge_unnamed hdir, purge_unnamed hdir]
    exact hs
  have h' := h.of_sameBut hs fun name hname => (hfits name hname).isProper
  have hleads := h.houses.resolve_right fun hempty => hdir hempty.1
  have hleads' := h'.houses.resolve_right fun hempty => hdir hempty.1
  let skip : String → Bool := fun name => decide (P name ∧ d.IsEnd (l ++ [name]))
  have hskip : ∀ name, skip name = true ↔ P name ∧ d.IsEnd (l ++ [name]) := fun name =>
    decide_eq_true_iff
  have hskip' : ∀ name, skip name = true ↔ P name ∧ d'.IsEnd (l ++ [name]) := by
    intro name
    rw [hskip, hs.isEnd (Disk.ne_child l name).symm]
  have hlist : (d'.namesIn l).filter (!skip ·) = (d.namesIn l).filter (!skip ·) := by
    apply hs.filter_namesIn
    intro name hname hP hend
    simp [(hskip name).mpr ⟨hP, hend⟩] at hname
  -- Both purges are compared with one that is given the names on which the disks agree.
  have hleft := sweep_filter hfits h.isProper_of_listed h hskip (.refl P h.houses.isDir) now
    maxAge 0 0
  have hright := sweep_filter hfits h'.isProper_of_listed h' hskip' hs.symm now maxAge 0 0
  rw [hlist] at hright
  rw [(purge_eq_sweep hleads now maxAge).2, (purge_eq_sweep hleads' now maxAge).2]
  exact hleft.trans hright.symm

/-! ## Calls without a directory -/

section Missing

variable (hno : ∀ l, ¬d.Houses f.directory l)
include hno

theorem perform_of_missing (hx : f.FitExtension) (hc : c.ids = [id]) (now : Instant) :
    (f.perform now d c).store = d := by
  have hlost : ∀ {name follow q m}, Path.IsSimple name →
      Path.ofText (Path.join f.directory name) = .ok q → d.locate follow q ≠ .ok m := by
    intro name follow q m hname hq hm
    obtain ⟨l, hl⟩ := Disk.exists_houses hname hq hm
    exact hno l hl
  have hfile := isSimple_fileName hx.no_slash hx.no_nul
  cases c with
  | start | stop | purge => cases hc
  | contains j =>
    unfold perform
    dsimp only
    split
    · rfl
    · split <;> rfl
  | get j =>
    unfold perform
    dsimp only
    split <;> rfl
  | set j contents =>
    rw [(perform_set_eq f now d j contents).2, replace, temporary_pathFor]
    rcases hw : d.write now 0o600 (Path.join f.directory (f.temporaryName j)) contents with why | e
    · simp only [discard]
      rcases hr : d.remove now (Path.join f.directory (f.temporaryName j)) with left | e
      · rfl
      · obtain ⟨q, m, hq, hm⟩ := Disk.remove_eq_ok hr
        exact absurd hm (hlost (hx.isSimple_temporaryName j) hq)
    · obtain ⟨q, m, hq, hm, -⟩ := Disk.write_eq_ok hw
      exact absurd hm (hlost (hx.isSimple_temporaryName j) hq)
  | delete j =>
    unfold perform
    dsimp only
    split
    case h_1 e hr =>
      obtain ⟨q, m, hq, hm⟩ := Disk.remove_eq_ok hr
      exact absurd hm (hlost (hfile j) hq)
    case h_2 => split <;> rfl
  | touch j =>
    unfold perform
    dsimp only
    split
    case h_1 e hr =>
      obtain ⟨q, m, hq, hm⟩ := Disk.setModified_eq_ok hr
      exact absurd hm (hlost (hfile j) hq)
    case h_2 => rfl

theorem purge_of_missing (now : Instant) (maxAge : Duration) :
    (f.purge now maxAge d).store = d := by
  rw [purge]
  rcases hlist : d.list f.directory with why | names
  · simp only
    split <;> rfl
  · obtain ⟨l, hl⟩ := Disk.list_eq_ok hlist
    exact absurd hl.houses (hno l)

end Missing

/-! ## The files of one id -/

/-- Started at any instant, the store finds or makes a directory that is tidy. -/
def StartsTidy (f : FileStore) (d : Disk) : Prop :=
  ∀ now l, (f.perform now d .start).store.Houses f.directory l →
    f.Tidy l (f.perform now d .start).store

/-- A directory that was missing and can be made is tidy. -/
theorem startsTidy_of_missing (ht : d.IsTree) (hmissing : d.stat f.directory = .error .notFound)
    (hd : f.directory ≠ "") (hup : ".." ∉ Path.namesOf f.directory.toList)
    (hok : ∀ now, (f.perform now d .start).result = .ok ()) : f.StartsTidy d := by
  intro now l hl
  obtain ⟨l', h⟩ : ∃ l', f.Holds (fun _ => False) l' (f.perform now d .start).store .empty :=
    start_holds ht hmissing hd hup (hok now)
  obtain rfl : l = l' := (hl.resolve_right fun hempty => hd hempty.1).unique h.leads
  constructor
  · intro name _ hn
    obtain ⟨id, hid, -⟩ := h.only name hn
    exact hid.elim
  · intro name _ target
    exact (h.ends name).not_link target

/-- Names that the files of other ids in use than `k` can have. -/
def OfOthers (f : FileStore) (used : String → Prop) (k name : String) : Prop :=
  Disk.Fits f.directory name ∧
    ∃ j, used j ∧ j ≠ k ∧ (name = f.fileName j ∨ name = f.temporaryName j)

/-- Either there is no directory, and both disks are the same, or they differ in the files of other
ids. -/
inductive Related (f : FileStore) (used : String → Prop) (k : String) : Bool → Disk → Disk → Prop
  | missing {begun : Bool} {d : Disk} (hno : ∀ l, ¬d.Houses f.directory l)
      (hstart : begun = false → f.StartsTidy d) : Related f used k begun d d
  | found {begun : Bool} {d d' : Disk} (l : Location) (h : f.IsAt l d)
      (hs : Disk.SameBut l (f.OfOthers used k) d d') : Related f used k begun d d'

theorem related_self (h : f.StartsTidy d) (used : String → Prop) (k : String) :
    f.Related used k false d d := by
  by_cases hl : ∃ l, d.Houses f.directory l
  · obtain ⟨l, hl⟩ := hl
    have htidy := h 0 l
    rw [start_of_houses hl] at htidy
    exact .found l ⟨hl, htidy hl⟩ (.refl _ hl.isDir)
  · exact .missing (not_exists.mp hl) fun _ => h

section Separates

variable {used : String → Prop} {k : String}

theorem not_ofOthers (hdigest : ∀ j, used j → SameDigest j k → j = k) :
    ¬f.OfOthers used k (f.fileName k) ∧ ¬f.OfOthers used k (f.temporaryName k) := by
  have hfile : ∀ j, used j → j ≠ k → f.fileName k ≠ f.fileName j := by
    intro j hj hk heq
    rcases fileName_eq_iff.mp heq.symm with hjk | hsame
    · exact hk hjk
    · exact hk (hdigest j hj hsame)
  constructor
  · rintro ⟨-, j, hj, hk, heq | heq⟩
    · exact hfile j hj hk heq
    · exact f.temporaryName_ne j k heq.symm
  · rintro ⟨-, j, hj, hk, heq | heq⟩
    · exact f.temporaryName_ne k j heq
    · have htext := congrArg String.toList heq
      rw [temporaryName, temporaryName, String.toList_append, String.toList_append] at htext
      exact hfile j hj hk (String.toList_inj.mp (List.append_cancel_right htext))

theorem isProper_of_ofOthers (name : String) (h : f.OfOthers used k name) :
    Disk.IsProper name := h.1.isProper

theorem covers_isProper (hx : f.FitExtension) (hdot : '.' ∉ f.extension.toList) (id : String) :
    f.Covers Disk.IsProper id where
  file _ := (isUsable_fileName hx hdot id).proper
  temporary _ := (isUsable_temporaryName hx hdot id).proper

theorem ofOthers_covers {j : String} (hj : used j) (hk : j ≠ k) :
    f.Covers (f.OfOthers used k) j where
  file hf := ⟨hf, j, hj, hk, .inl rfl⟩
  temporary hf := ⟨hf, j, hj, hk, .inr rfl⟩

/-- On disk the files of an id do not depend on what happens to the others. -/
theorem separates (hx : f.FitExtension) (hdot : '.' ∉ f.extension.toList)
    (hdigest : ∀ j, used j → SameDigest j k → j = k) :
    f.backend.Separates used k (f.Related used k) where
  other {begun d d' j c} hr hj hk hc now := by
    change f.Related used k begun (f.perform now d c).store d'
    rcases hr with ⟨hno, hstart⟩ | ⟨l, h, hs⟩
    · rw [perform_of_missing hno hx hc]
      exact .missing hno hstart
    · have hcall : Disk.SameBut l (f.OfOthers used k) d (f.perform now d c).store :=
        perform_sameBut hx hdot isProper_of_ofOthers h (ofOthers_covers hj hk) hc
      exact .found l (h.of_sameBut hcall isProper_of_ofOthers) (hcall.symm.trans hs)
  own {begun d d' c} hr hc now := by
    change (f.perform now d c).result = (f.perform now d' c).result ∧
      f.Related used k begun (f.perform now d c).store (f.perform now d' c).store
    rcases hc with hc | rfl
    · rcases hr with ⟨hno, hstart⟩ | ⟨l, h, hs⟩
      · rw [perform_of_missing hno hx hc]
        exact ⟨rfl, .missing hno hstart⟩
      · obtain ⟨hfile, htemporary⟩ := not_ofOthers hdigest
        have hsame : Same l (f.OfOthers used k) (f.perform now d c) (f.perform now d' c) :=
          perform_same hx hdot h hs hfile htemporary hc
        have hkept : Disk.SameBut l Disk.IsProper d (f.perform now d c).store :=
          perform_sameBut hx hdot (fun _ hname => hname) h (covers_isProper hx hdot k) hc
        exact ⟨hsame.result, .found l (h.of_sameBut hkept fun _ hname => hname) hsame.store⟩
    · exact ⟨rfl, hr⟩
  start {d d'} hr now := by
    change (f.perform now d .start).result = (f.perform now d' .start).result ∧
      f.Related used k true (f.perform now d .start).store (f.perform now d' .start).store
    rcases hr with ⟨-, hstart⟩ | ⟨l, h, hs⟩
    · -- Both disks are the same, so the start makes the same of them, be it the directory or not.
      refine ⟨rfl, ?_⟩
      by_cases hl : ∃ l, (f.perform now d .start).store.Houses f.directory l
      · obtain ⟨l, hl⟩ := hl
        exact .found l ⟨hl, hstart rfl now l hl⟩ (.refl _ hl.isDir)
      · exact .missing (not_exists.mp hl) fun hbegun => by cases hbegun
    · rw [start_of_houses h.houses, start_of_houses (hs.houses h.houses)]
      exact ⟨rfl, .found l h hs⟩
  purge {begun d d'} hr now maxAge := by
    change f.Related used k begun (f.purge now maxAge d).store (f.purge now maxAge d').store
    rcases hr with ⟨hno, hstart⟩ | ⟨l, h, hs⟩
    · rw [purge_of_missing hno]
      exact .missing hno hstart
    · exact .found l (purge_isAt h now maxAge)
        (purge_sameBut (fun _ hname => hname.1) h hs now maxAge)

theorem Related.stat_eq (hx : f.FitExtension) (hdot : '.' ∉ f.extension.toList)
    (hdigest : ∀ j, used j → SameDigest j k → j = k) {begun : Bool}
    (h : f.Related used k begun d d') : d.stat (f.pathFor k) = d'.stat (f.pathFor k) := by
  rcases h with ⟨-, -⟩ | ⟨l, h, hs⟩
  · rfl
  · have hu := isUsable_fileName hx hdot k
    exact (Disk.stat_agree h.houses hs hu.proper
      (hs.node?_child fun hP => absurd hP (not_ofOthers hdigest).1)
      (h.tidy.no_link _ hu.swept)).symm

end Separates

end FileStore

namespace Host

/-- What two runs of an engine do differently about other ids makes no difference to one session.
Over files this takes an id whose digest no other id in use has, an extension that fits and has no
dot, and a directory in which no link goes by such names. -/
theorem sessions_apart {e : Engine} (he : e.phase = .unstarted) (start : Instant) {k : String}
    {cs cs' : List Command} (hsame : cs.filter (·.concerns k) = cs'.filter (·.concerns k)) :
    (∀ m : Memory, (fresh e m start).SameFor Memory.backend k (·[k]?) cs cs') ∧
      ∀ (f : FileStore) (d : Disk), f.FitExtension → '.' ∉ f.extension.toList → f.StartsTidy d →
        (∀ c ∈ cs ++ cs', ∀ id, c.subject? = some id → FileStore.SameDigest id k → id = k) →
        (fresh e d start).SameFor f.backend k (·.stat (f.pathFor k)) cs cs' := by
  constructor
  · intro m
    exact sameFor_of_separates (Memory.separates (fun _ => True) k) id ⟨rfl, rfl, rfl, rfl⟩
      (fresh_settled he m start) (fun _ _ _ _ => trivial) hsame
  · intro f d hx hdot htidy hdigest
    let used : String → Prop := fun id => ∃ c ∈ cs ++ cs', c.subject? = some id
    have hapart : ∀ j, used j → FileStore.SameDigest j k → j = k := by
      rintro j ⟨c, hc, hj⟩ hsame
      exact hdigest c hc j hj hsame
    have hself : Beside (f.Related used k) (fresh e d start) (fresh e d start) := by
      have hunstarted : (fresh e d start).begun = false := by
        rw [begun, fresh, he]
        rfl
      refine ⟨rfl, rfl, rfl, ?_⟩
      rw [hunstarted]
      exact FileStore.related_self htidy used k
    exact sameFor_of_separates (FileStore.separates hx hdot hapart)
      (fun hr => hr.stat_eq hx hdot hapart) hself (fresh_settled he d start)
      (fun c hc id hid => ⟨c, hc, hid⟩) hsame

/-- The other sessions of one run have ids that look like the names of files. -/
theorem sessions_apart_likenesses :
    let e := Engine.ofProperties .standard
    let f : FileStore := ⟨"s", "sess"⟩
    let cs : List Command := [.start, .getSession "k", .getSession "k.sess.tmp", .sleep ⟨5⟩,
      .deleteSession "../k", .touchSession "k.tmp", .purge, .sessionExists "k"]
    let cs' : List Command := [.start, .getSession "k", .sleep ⟨5⟩, .purge, .sessionExists "k"]
    cs.filter (·.concerns "k") = cs'.filter (·.concerns "k") ∧
      (fresh e (∅ : Memory) 0).SameFor Memory.backend "k" (·["k"]?) cs cs' ∧
      (fresh e (⟨∅⟩ : Disk) 0).SameFor f.backend "k" (·.stat (f.pathFor "k")) cs cs' := by
  intro e f cs cs'
  have hsame : cs.filter (·.concerns "k") = cs'.filter (·.concerns "k") := rfl
  have hmissing : (⟨∅⟩ : Disk).stat "s" = .error .notFound := rfl
  have htext : Path.ofText "s" = .ok ⟨false, ["s"], false⟩ := rfl
  have hok : ∀ now, (f.perform now ⟨∅⟩ .start).result = .ok () := by
    intro now
    unfold FileStore.perform FileStore.prepare Disk.makeDirectories
    simp only [f, hmissing, htext, if_neg (by decide : "s" ≠ "")]
    rfl
  have htidy : f.StartsTidy ⟨∅⟩ :=
    FileStore.startsTidy_of_missing isTree_empty hmissing (by decide) (by decide) hok
  obtain ⟨hmemory, hfiles⟩ := sessions_apart (e := e) rfl 0 hsame
  refine ⟨hsame, hmemory ∅, hfiles f ⟨∅⟩ (hasExtension_sess "s").fit (by decide) htidy ?_⟩
  rintro c - id - ⟨-, hplain, -⟩
  exact absurd hplain (by decide)

end Host

end SessionStore
