import SessionStore.Proofs.Store.Contract
import SessionStore.Proofs.Store.Foreign

/-! # Purging what is overdue

What a purge may take is told by the end of a name and by an age. A purge that succeeds has taken
all of it and nothing else, in whatever order the names were listed, and one that fails has taken
nothing else. It fails only at what cannot be removed as a file, or has too long a path to be looked
at.
-/

namespace SessionStore

/-- The time of the last change of a file or a directory. -/
def Node.modified? : Node → Option Instant
  | .file _ _ modified | .directory _ modified => some modified
  | .link _ => none

namespace FileStore

/-- The text behind the last dot of a name, which is not its first character. -/
def HasEnding (name ending : String) : Prop :=
  '.' ∉ ending.toList ∧ ∃ front, front ≠ "" ∧ name = front ++ "." ++ ending

/-- The extension is the ending of the name. -/
def IsEntryName (f : FileStore) (name : String) : Prop := HasEnding name f.extension

/-- The name is one of an entry with `.tmp` behind it. -/
def IsUnfinishedName (f : FileStore) (name : String) : Prop :=
  ∃ entry, f.IsEntryName entry ∧ name = entry ++ ".tmp"

def IsCandidate (f : FileStore) (name : String) : Prop :=
  f.IsEntryName name ∨ f.IsUnfinishedName name

/-- In the directory at `l` there is a candidate of this name that is older than `maxAge`. -/
def IsOverdue (f : FileStore) (now : Instant) (maxAge : Duration) (l : Location) (d : Disk)
    (name : String) : Prop :=
  f.IsCandidate name ∧
    ∃ t, (d.node? (l ++ [name])).bind Node.modified? = some t ∧ maxAge < Instant.elapsed now t

/-- The candidate of this name stops a purge: it is an overdue directory, or its path is too long to
find out. -/
def Obstructs (f : FileStore) (now : Instant) (maxAge : Duration) (l : Location) (d : Disk)
    (name : String) (why : IoFault) : Prop :=
  f.IsOverdue now maxAge l d name ∧ d.IsDir (l ++ [name]) ∧ why = .isDirectory ∨
    f.IsCandidate name ∧ d.node? (l ++ [name]) ≠ none ∧
      Path.lengthLimit ≤ (Path.join f.directory name).utf8ByteSize ∧ why = .nameTooLong

variable {f : FileStore} {l : Location} {d e : Disk} {name : String} {names : List String}
  {now : Instant} {maxAge : Duration} {removed n : Nat} {why : IoFault}

/-! ## Candidates -/

theorem isEntry_iff (h : f.extension ≠ "") (name : String) :
    f.isEntry name.toList = true ↔ f.IsEntryName name := by
  constructor
  · intro hentry
    rcases hc : cut? name.toList with _ | ⟨before, ext⟩
    · simp [isEntry, hc] at hentry
    · obtain rfl : ext = f.extension.toList := by simpa [isEntry, hc] using hentry
      obtain ⟨htext, hne⟩ := cut?_eq_some hc
      refine ⟨dot_not_mem_of_cut? hc, String.ofList before, by simpa using hne, ?_⟩
      apply String.toList_inj.mp
      simp [htext]
  · rintro ⟨hdot, front, hfront, rfl⟩
    have hext : f.extension.toList ≠ [] := Path.toList_ne_nil h
    have hdots : front.toList ++ '.' :: f.extension.toList ≠ ['.', '.'] := by
      intro heq
      have hlength := congrArg List.length heq
      have hfront := List.length_pos_of_ne_nil (Path.toList_ne_nil hfront)
      have hext := List.length_pos_of_ne_nil hext
      simp only [List.length_append, List.length_cons, List.length_nil] at hlength
      omega
    simp [isEntry, cut?_append (Path.toList_ne_nil hfront) hdot hdots]

theorem isTemporary_iff (h : f.extension ≠ "") (name : String) :
    f.isTemporary name.toList = true ↔ f.IsUnfinishedName name := by
  constructor
  · intro htemporary
    rcases hc : cut? name.toList with _ | ⟨before, ext⟩
    · simp [isTemporary, hc] at htemporary
    · obtain ⟨rfl, hentry⟩ : ext = "tmp".toList ∧ f.isEntry before = true := by
        simpa [isTemporary, hc] using htemporary
      refine ⟨String.ofList before, (isEntry_iff h _).mp (by simpa using hentry), ?_⟩
      apply String.toList_inj.mp
      simp [(cut?_eq_some hc).1]
  · rintro ⟨entry, hentry, rfl⟩
    have hne : entry.toList ≠ [] := by
      obtain ⟨-, front, -, rfl⟩ := hentry
      simp
    have hdots : entry.toList ++ '.' :: "tmp".toList ≠ ['.', '.'] := by
      intro heq
      simpa using congrArg List.length heq
    have hcut : cut? (entry ++ ".tmp").toList = some (entry.toList, "tmp".toList) := by
      rw [String.toList_append]
      exact cut?_append hne (by decide) hdots
    simp only [isTemporary, hcut, (isEntry_iff h entry).mpr hentry]
    rfl

theorem isSwept_iff (h : f.extension ≠ "") : f.isSwept name = true ↔ f.IsCandidate name := by
  rw [isSwept, Bool.or_eq_true_iff, isEntry_iff h, isTemporary_iff h, IsCandidate]

/-- What is overdue is an old file, to which a purge helps itself, or an old directory. -/
theorem isOverdue_iff (h : f.extension ≠ "") (now : Instant) (maxAge : Duration) (l : Location)
    (d : Disk) (name : String) :
    f.IsOverdue now maxAge l d name ↔ f.isSwept name = true ∧
      (isOld now maxAge d l name = true ∨ ∃ mode modified,
        d.node? (l ++ [name]) = some (.directory mode modified) ∧
          maxAge < Instant.elapsed now modified) := by
  rw [IsOverdue, isSwept_iff h]
  apply and_congr_right
  intro _
  rcases hn : d.node? (l ++ [name]) with _ | ⟨contents, mode, modified⟩ | ⟨mode, modified⟩ | target
  all_goals simp [hn, isOld, isStale, Node.modified?, Node.entry?]

/-! ## One listing after the other -/

/-- A sweep goes on where it has come to. -/
theorem sweep_append (removed : Nat) (d : Disk) (names names' : List String) :
    f.sweep now maxAge removed d (names ++ names') =
      match f.sweep now maxAge removed d names with
      | ⟨.ok n, e, _⟩ => f.sweep now maxAge n e names'
      | failed => failed := by
  induction names generalizing removed d with
  | nil => rfl
  | cons name names ih =>
    rw [List.cons_append]
    rcases hswept : f.isSwept name with _ | _
    · rw [sweep_cons_of_not_swept hswept, sweep_cons_of_not_swept hswept, ih]
    · rcases hexpire : expire now maxAge d (Path.join f.directory name) with why | ⟨gone, e⟩
      · rw [sweep_cons_of_error hswept hexpire, sweep_cons_of_error hswept hexpire]
      · rw [sweep_cons_of_ok hswept hexpire, sweep_cons_of_ok hswept hexpire, ih]

/-- A sweep that fails has got through the names before the one that it fails at. -/
theorem sweep_eq_error {fault : SessionError}
    (h : (f.sweep now maxAge removed d names).result = .error fault) :
    ∃ before name after n why, names = before ++ name :: after ∧ f.isSwept name = true ∧
      (f.sweep now maxAge removed d before).result = .ok n ∧
      (f.sweep now maxAge removed d names).store = (f.sweep now maxAge removed d before).store ∧
      expire now maxAge (f.sweep now maxAge removed d before).store
        (Path.join f.directory name) = .error why ∧ fault = .io why := by
  induction names generalizing removed d with
  | nil => cases h
  | cons name names ih =>
    -- The first name lets the sweep go on alike, whatever names come after it, or ends it.
    have hstep : (∃ removed' e, ∀ names, f.sweep now maxAge removed d (name :: names) =
        f.sweep now maxAge removed' e names) ∨ f.isSwept name = true ∧
          ∃ why, expire now maxAge d (Path.join f.directory name) = .error why := by
      rcases hswept : f.isSwept name with _ | _
      · exact .inl ⟨removed, d, fun _ => sweep_cons_of_not_swept hswept removed d⟩
      · rcases hexpire : expire now maxAge d (Path.join f.directory name) with why | ⟨gone, e⟩
        · exact .inr ⟨rfl, why, rfl⟩
        · exact .inl ⟨_, e, fun _ => sweep_cons_of_ok hswept hexpire removed⟩
    rcases hstep with ⟨removed', e, hstep⟩ | ⟨hswept, why, hexpire⟩
    · rw [hstep names] at h ⊢
      obtain ⟨before, last, after, n, why, rfl, hlast, hok, hstore, hfail, rfl⟩ := ih h
      refine ⟨name :: before, last, after, n, why, rfl, hlast, ?_, ?_, ?_, rfl⟩
      · rwa [hstep before]
      · rwa [hstep before]
      · rwa [hstep before]
    · rw [sweep_cons_of_error hswept hexpire] at h ⊢
      cases h
      exact ⟨[], name, names, removed, why, rfl, hswept, rfl, rfl, hexpire, rfl⟩

/-- A sweep in which nothing goes changes nothing. -/
theorem sweep_of_still (h : ∀ name ∈ names, f.isSwept name = true →
    expire now maxAge d (Path.join f.directory name) = .ok (false, d)) :
    f.sweep now maxAge removed d names = .done d removed [] := by
  induction names with
  | nil => rfl
  | cons name names ih =>
    obtain ⟨hname, hnames⟩ := List.forall_mem_cons.mp h
    rcases hswept : f.isSwept name with _ | _
    · rw [sweep_cons_of_not_swept hswept, ih hnames]
    · rw [sweep_cons_of_ok hswept (hname hswept)]
      exact ih hnames

/-! ## What stops a sweep -/

theorem Obstructs.of_node?_eq (h : f.Obstructs now maxAge l e name why)
    (hsame : e.node? (l ++ [name]) = d.node? (l ++ [name])) :
    f.Obstructs now maxAge l d name why := by
  unfold Obstructs IsOverdue Disk.IsDir at h ⊢
  rwa [hsame] at h

theorem Obstructs.present (h : f.Obstructs now maxAge l d name why) :
    d.node? (l ++ [name]) ≠ none := by
  rcases h with ⟨⟨-, t, ht, -⟩, -⟩ | ⟨-, h, -⟩
  · rintro hnone
    simp [hnone] at ht
  · exact h

theorem Obstructs.candidate (h : f.Obstructs now maxAge l d name why) : f.IsCandidate name := by
  rcases h with ⟨h, -⟩ | ⟨h, -⟩
  · exact h.1
  · exact h

section Expire

variable (h : d.Houses f.directory l) (ht : f.Tidy l d) (hswept : f.isSwept name = true)
  (hn : d.node? (l ++ [name]) ≠ none)
include h ht hswept hn

theorem obstructs_of_expire (hext : f.extension ≠ "")
    (hfail : expire now maxAge d (Path.join f.directory name) = .error why) :
    f.Obstructs now maxAge l d name why := by
  obtain ⟨hsimple, hname⟩ := ht.proper name hswept hn
  rcases Nat.lt_or_ge (Path.join f.directory name).utf8ByteSize Path.lengthLimit with hlt | hle
  · left
    rw [expire_join now maxAge h ⟨hsimple, hname, hlt⟩ (ht.no_link name hswept)] at hfail
    rcases hnode : d.node? (l ++ [name]) with _ | ⟨_, _, modified⟩ | ⟨mode, modified⟩ | _
    · exact absurd hnode hn
    · simp only [hnode] at hfail
      split at hfail <;> cases hfail
    · simp only [hnode] at hfail
      split at hfail
      · cases hfail
      · next hold =>
        cases hfail
        have hlt : maxAge < Instant.elapsed now modified := Nat.not_le.mp hold
        exact ⟨(isOverdue_iff hext ..).mpr ⟨hswept, .inr ⟨mode, modified, hnode, hlt⟩⟩,
          ⟨mode, modified, hnode⟩, rfl⟩
    · exact absurd hnode (ht.no_link name hswept _)
  · right
    rcases h.fits_or_long hsimple hname with hf | hlong
    · exact absurd hf.path_lt (Nat.not_lt.mpr hle)
    · rw [expire_of_long hlong] at hfail
      cases hfail
      exact ⟨(isSwept_iff hext).mp hswept, hn, hle, rfl⟩

/-- What obstructs is not removed, whatever the reason. -/
theorem expire_of_obstructs (ho : f.Obstructs now maxAge l d name why) (gone : Bool) (e : Disk) :
    expire now maxAge d (Path.join f.directory name) ≠ .ok (gone, e) := by
  intro hok
  obtain ⟨hsimple, hname⟩ := ht.proper name hswept hn
  rcases h.fits_or_long hsimple hname with hf | hlong
  · rcases ho with ⟨hover, ⟨mode, modified, hnode⟩, -⟩ | ⟨-, -, hle, -⟩
    · obtain ⟨-, t, htime, hlt⟩ := hover
      obtain rfl : modified = t := by simpa [hnode, Node.modified?] using htime
      have hold : ¬Instant.elapsed now modified ≤ maxAge := Nat.not_le.mpr hlt
      rw [expire_join now maxAge h hf (ht.no_link name hswept)] at hok
      simp only [hnode, if_neg hold] at hok
      cases hok
    · exact absurd hf.path_lt (Nat.not_lt.mpr hle)
  · rw [expire_of_long hlong] at hok
    cases hok

/-- What neither is overdue nor obstructs stays where it is. -/
theorem expire_of_young (hext : f.extension ≠ "") (hover : ¬f.IsOverdue now maxAge l d name)
    (hclear : ∀ why, ¬f.Obstructs now maxAge l d name why) :
    expire now maxAge d (Path.join f.directory name) = .ok (false, d) := by
  obtain ⟨hsimple, hname⟩ := ht.proper name hswept hn
  have hlt : (Path.join f.directory name).utf8ByteSize < Path.lengthLimit := by
    by_contra hle
    exact hclear .nameTooLong
      (.inr ⟨(isSwept_iff hext).mp hswept, hn, Nat.not_lt.mp hle, rfl⟩)
  have hyoung : ∀ t, (d.node? (l ++ [name])).bind Node.modified? = some t →
      Instant.elapsed now t ≤ maxAge := by
    intro t htime
    by_contra hold
    exact hover ⟨(isSwept_iff hext).mp hswept, t, htime, Nat.not_le.mp hold⟩
  rw [expire_join now maxAge h ⟨hsimple, hname, hlt⟩ (ht.no_link name hswept)]
  rcases hnode : d.node? (l ++ [name]) with _ | ⟨_, _, modified⟩ | ⟨_, modified⟩ | _
  · rfl
  · exact if_pos (hyoung modified (by rw [hnode]; rfl))
  · exact if_pos (hyoung modified (by rw [hnode]; rfl))
  · rfl

end Expire

/-! ## Whole sweeps -/

theorem Clears.houses (hc : Clears l names d e) (h : d.Houses f.directory l)
    (hends : ∀ name ∈ names, d.IsEnd (l ++ [name])) : e.Houses f.directory l :=
  h.of_alike (hc.within.alike h.isDir hends) (hc.within.isDir h.isDir)

theorem isEnd_of_isOld (h : isOld now maxAge d l name = true) : d.IsEnd (l ++ [name]) := by
  rcases hn : d.node? (l ++ [name]) with _ | ⟨_, _, _⟩ | ⟨_, _⟩ | _
  · exact .inl hn
  · exact .inr ⟨_, _, _, hn⟩
  · simp [isOld, isStale, hn, Node.entry?] at h
  · simp [isOld, isStale, hn, Node.entry?] at h

theorem isEnd_of_mem_expired (h : name ∈ f.expired now maxAge d l names) :
    d.IsEnd (l ++ [name]) :=
  isEnd_of_isOld (mem_expired.mp h).2.2

section Sweeps

variable (h : d.Houses f.directory l) (ht : f.Tidy l d) (hnodup : names.Nodup)
  (hmem : ∀ name, name ∈ names ↔ d.node? (l ++ [name]) ≠ none)
include h ht hnodup hmem

/-- When a sweep comes to a name, nothing has happened to it yet. -/
theorem reach_name {before after : List String} (hsplit : names = before ++ name :: after)
    (hok : (f.sweep now maxAge removed d before).result = .ok n) :
    let e := (f.sweep now maxAge removed d before).store
    Clears l (f.expired now maxAge d l before) d e ∧ e.Houses f.directory l ∧ f.Tidy l e ∧
      e.node? (l ++ [name]) = d.node? (l ++ [name]) := by
  intro e
  subst hsplit
  obtain ⟨hbefore, -, hdisjoint⟩ := List.nodup_append.mp hnodup
  have hpresent : ∀ other ∈ before, d.node? (l ++ [other]) ≠ none :=
    fun other hother => (hmem other).mp (List.mem_append_left _ hother)
  obtain ⟨-, hclears⟩ := sweep_eq_ok h ht hbefore hpresent hok
  refine ⟨hclears, hclears.houses h fun _ => isEnd_of_mem_expired, hclears.tidy ht, ?_⟩
  apply hclears.within.node?_child
  intro hexpired
  exact hdisjoint name (mem_expired.mp hexpired).1 name List.mem_cons_self rfl

/-- A sweep that succeeds has met nothing that obstructs. -/
theorem not_obstructs_of_sweep (hext : f.extension ≠ "")
    (hok : (f.sweep now maxAge removed d names).result = .ok n) (name : String) (why : IoFault) :
    ¬f.Obstructs now maxAge l d name why := by
  intro ho
  -- What obstructs is there, so that it is listed, and the sweep has had to come to it.
  obtain ⟨before, after, hsplit⟩ := List.append_of_mem ((hmem name).mpr ho.present)
  rw [hsplit, sweep_append] at hok
  rcases hbefore : f.sweep now maxAge removed d before with ⟨fault | k, e, events⟩
  · rw [hbefore] at hok
    cases hok
  · have hreached : (f.sweep now maxAge removed d before).result = .ok k := by rw [hbefore]
    obtain ⟨-, hhouses, htidy, hsame⟩ := reach_name h ht hnodup hmem hsplit hreached
    rw [hbefore] at hok hhouses htidy hsame
    have ho' : f.Obstructs now maxAge l e name why := ho.of_node?_eq hsame.symm
    have hswept := (isSwept_iff hext).mpr ho.candidate
    rcases hexpire : expire now maxAge e (Path.join f.directory name) with why' | ⟨gone, e'⟩
    · simp only [sweep_cons_of_error hswept hexpire] at hok
      cases hok
    · exact expire_of_obstructs hhouses htidy hswept ho'.present ho' gone e' hexpire

/-- A sweep that fails has cleared away old files, and comes to something that obstructs. -/
theorem obstructs_of_sweep (hext : f.extension ≠ "") {fault : SessionError}
    (hfail : (f.sweep now maxAge removed d names).result = .error fault) :
    (∃ gone, Clears l (f.expired now maxAge d l gone) d
        (f.sweep now maxAge removed d names).store) ∧
      ∃ name why, f.Obstructs now maxAge l d name why ∧ fault = .io why := by
  obtain ⟨before, name, after, n, why, hsplit, hswept, hok, hstore, hexpire, rfl⟩ :=
    sweep_eq_error hfail
  obtain ⟨hclears, hhouses, htidy, hsame⟩ := reach_name h ht hnodup hmem hsplit hok
  have hpresent : d.node? (l ++ [name]) ≠ none := by
    rw [← hmem, hsplit]
    simp
  rw [hstore]
  refine ⟨⟨before, hclears⟩, name, why, ?_, rfl⟩
  have ho := obstructs_of_expire hhouses htidy hswept (hsame ▸ hpresent) hext hexpire
  exact ho.of_node?_eq hsame

end Sweeps

/-! ## What a purge takes -/

/-- What came of a purge has taken what is overdue and nothing else, and all of it unless something
obstructs. -/
structure Takes (f : FileStore) (now : Instant) (maxAge : Duration) (l : Location) (d : Disk)
    (o : Outcome Disk Nat) : Prop where
  keeps : ∀ m, m ≠ l → o.store.node? m = d.node? m ∨
    ∃ name, m = l ++ [name] ∧ f.IsOverdue now maxAge l d name ∧ d.IsFile m ∧
      o.store.node? m = none
  isDir : o.store.IsDir l
  count : ∀ n, o.result = .ok n → (∀ name, f.IsOverdue now maxAge l d name →
      o.store.node? (l ++ [name]) = none) ∧
    n = {name | f.IsEntryName name ∧ f.IsOverdue now maxAge l d name}.ncard
  again : ∀ n, o.result = .ok n → f.purge now maxAge o.store = .done o.store 0 [] ∧
    ∀ names : List String, names.Perm (o.store.namesIn l) →
      f.sweep now maxAge 0 o.store names = .done o.store 0 []
  failure : ∀ fault, o.result = .error fault →
    ∃ name why, f.Obstructs now maxAge l d name why ∧ fault = .io why
  succeeds : (∃ n, o.result = .ok n) ↔ ∀ name why, ¬f.Obstructs now maxAge l d name why

namespace Takes

variable {o o' : Outcome Disk Nat}

/-- What was reported meanwhile does not matter. -/
theorem of_eq (h : f.Takes now maxAge l d o) (hresult : o'.result = o.result)
    (hstore : o'.store = o.store) : f.Takes now maxAge l d o' := by
  obtain ⟨result, store, events⟩ := o
  obtain ⟨result', store', events'⟩ := o'
  subst hresult hstore
  exact ⟨h.keeps, h.isDir, h.count, h.again, h.failure, h.succeeds⟩

end Takes

theorem Clears.keeps {gone : List String} (hext : f.extension ≠ "")
    (hc : Clears l (f.expired now maxAge d l gone) d e) {m : Location} (hm : m ≠ l) :
    e.node? m = d.node? m ∨ ∃ name, m = l ++ [name] ∧ f.IsOverdue now maxAge l d name ∧
      d.IsFile m ∧ e.node? m = none := by
  by_cases hgone : ∃ name ∈ f.expired now maxAge d l gone, m = l ++ [name]
  · right
    obtain ⟨name, hname, rfl⟩ := hgone
    obtain ⟨-, hswept, hold⟩ := mem_expired.mp hname
    refine ⟨name, rfl, (isOverdue_iff hext ..).mpr ⟨hswept, .inl hold⟩, ?_, hc.gone name hname⟩
    rcases isEnd_of_isOld hold with hnone | hfile
    · simp [isOld, isStale, hnone] at hold
    · exact hfile
  · left
    exact hc.within.node? m hm fun name hname heq => hgone ⟨name, hname, heq⟩

/-- What is not there any more cannot be overdue, and nothing has become so. -/
theorem Clears.isOverdue {gone : List String} (hc : Clears l gone d e)
    (h : f.IsOverdue now maxAge l e name) : f.IsOverdue now maxAge l d name := by
  obtain ⟨hcandidate, t, ht, hlt⟩ := h
  have hname : name ∉ gone := by
    intro hname
    simp [hc.gone name hname] at ht
  rw [hc.within.node?_child hname] at ht
  exact ⟨hcandidate, t, ht, hlt⟩

/-- Where nothing obstructs, what is expired is what is overdue. -/
theorem mem_expired_iff (hext : f.extension ≠ "")
    (hmem : ∀ name, name ∈ names ↔ d.node? (l ++ [name]) ≠ none)
    (hclear : ∀ name why, ¬f.Obstructs now maxAge l d name why) :
    name ∈ f.expired now maxAge d l names ↔ f.IsOverdue now maxAge l d name := by
  rw [mem_expired, isOverdue_iff hext]
  constructor
  · rintro ⟨-, hswept, hold⟩
    exact ⟨hswept, .inl hold⟩
  · intro hover
    obtain ⟨hswept, hold | ⟨mode, modified, hnode, hlt⟩⟩ := hover
    · exact ⟨(hmem name).mpr (Disk.mem_namesIn.mp (mem_namesIn_of_isOld hold)), hswept, hold⟩
    · have hover' := (isOverdue_iff hext now maxAge l d name).mpr
        ⟨hswept, .inr ⟨mode, modified, hnode, hlt⟩⟩
      exact absurd (.inl ⟨hover', ⟨mode, modified, hnode⟩, rfl⟩) (hclear name .isDirectory)

/-- What is counted are the entries among what is overdue. -/
theorem countP_expired (hext : f.extension ≠ "") (hnodup : names.Nodup)
    (hmem : ∀ name, name ∈ names ↔ d.node? (l ++ [name]) ≠ none)
    (hclear : ∀ name why, ¬f.Obstructs now maxAge l d name why) :
    (f.expired now maxAge d l names).countP (f.isEntry ·.toList) =
      {name | f.IsEntryName name ∧ f.IsOverdue now maxAge l d name}.ncard := by
  have hset : {name | f.IsEntryName name ∧ f.IsOverdue now maxAge l d name} =
      (((f.expired now maxAge d l names).filter (f.isEntry ·.toList)).toFinset : Set String) := by
    ext name
    simp only [Set.mem_ofPred_eq, List.coe_toFinset, List.mem_filter, isEntry_iff hext]
    rw [and_comm]
    apply and_congr_left
    intro _
    exact (mem_expired_iff hext hmem hclear).symm
  have hfiltered : (f.expired now maxAge d l names).Nodup := hnodup.filter _
  rw [hset, Set.ncard_coe_finset, List.toFinset_card_of_nodup (hfiltered.filter _),
    List.countP_eq_length_filter]

/-- Where nothing is overdue and nothing obstructs, a sweep does nothing, nor does a purge. -/
theorem sweep_of_none_overdue (hext : f.extension ≠ "") (h : d.LeadsTo f.directory l)
    (ht : f.Tidy l d) (hnone : ∀ name, ¬f.IsOverdue now maxAge l d name)
    (hclear : ∀ name why, ¬f.Obstructs now maxAge l d name why) :
    f.purge now maxAge d = .done d 0 [] ∧ ∀ names : List String, names.Perm (d.namesIn l) →
      f.sweep now maxAge 0 d names = .done d 0 [] := by
  have hsweep : ∀ names : List String, names.Perm (d.namesIn l) →
      f.sweep now maxAge 0 d names = .done d 0 [] := by
    intro names hperm
    apply sweep_of_still
    intro name hname hswept
    exact expire_of_young h.houses ht hswept (Disk.mem_namesIn.mp (hperm.mem_iff.mp hname)) hext
      (hnone name) (hclear name)
  refine ⟨?_, hsweep⟩
  rw [purge, h.list]
  simp only [hsweep _ (.refl _)]
  rfl

section Takes

variable {o : Outcome Disk Nat} {gone : List String} (hext : f.extension ≠ "")
  (h : d.LeadsTo f.directory l) (hc : Clears l (f.expired now maxAge d l gone) d o.store)
include hext h hc

theorem takes_of_error (hresult : o.result = .error (.io why))
    (ho : f.Obstructs now maxAge l d name why) : f.Takes now maxAge l d o where
  keeps _ := hc.keeps hext
  isDir := hc.within.isDir h.isDir
  count n hok := by simp [hresult] at hok
  again n hok := by simp [hresult] at hok
  failure fault hfail := by
    obtain rfl : SessionError.io why = fault := by simpa [hresult] using hfail
    exact ⟨name, why, ho, rfl⟩
  succeeds := by
    simp only [hresult, reduceCtorEq, exists_false, false_iff, not_forall, not_not]
    exact ⟨name, why, ho⟩

/-- When all that is overdue has gone, nothing has come to be overdue or to obstruct. -/
theorem takes_of_ok (ht : f.Tidy l d) (hresult : o.result = .ok n)
    (hgone : ∀ name, f.IsOverdue now maxAge l d name → o.store.node? (l ++ [name]) = none)
    (hcount : n = {name | f.IsEntryName name ∧ f.IsOverdue now maxAge l d name}.ncard)
    (hclear : ∀ name why, ¬f.Obstructs now maxAge l d name why) : f.Takes now maxAge l d o where
  keeps _ := hc.keeps hext
  isDir := hc.within.isDir h.isDir
  count k hok := by
    obtain rfl : n = k := by simpa [hresult] using hok
    exact ⟨hgone, hcount⟩
  again k _ := by
    have hleads := h.of_within hc.within fun _ => isEnd_of_mem_expired
    refine sweep_of_none_overdue hext hleads (hc.tidy ht) ?_ ?_
    · intro name hover
      obtain ⟨-, t, ht, -⟩ := id hover
      simp [hgone name (hc.isOverdue hover)] at ht
    · intro name why ho
      apply hclear name why
      apply ho.of_node?_eq
      rcases hc.keeps hext (Disk.ne_child l name).symm with hsame | ⟨_, -, -, -, hnone⟩
      · exact hsame
      · exact absurd hnone ho.present
  failure fault hfail := by simp [hresult] at hfail
  succeeds := by simpa [hresult] using hclear

end Takes

theorem sweep_takes (hext : f.extension ≠ "") (h : d.LeadsTo f.directory l) (ht : f.Tidy l d)
    (hperm : names.Perm (d.namesIn l)) :
    f.Takes now maxAge l d (f.sweep now maxAge 0 d names) := by
  have hnodup : names.Nodup := hperm.nodup_iff.mpr (Disk.nodup_namesIn d l)
  have hmem : ∀ name, name ∈ names ↔ d.node? (l ++ [name]) ≠ none :=
    fun name => hperm.mem_iff.trans Disk.mem_namesIn
  rcases hresult : (f.sweep now maxAge 0 d names).result with fault | n
  · obtain ⟨⟨gone, hclears⟩, name, why, ho, rfl⟩ :=
      obstructs_of_sweep h.houses ht hnodup hmem hext hresult
    exact takes_of_error hext h hclears hresult ho
  · have hclear := not_obstructs_of_sweep h.houses ht hnodup hmem hext hresult
    obtain ⟨hcount, hclears⟩ :=
      sweep_eq_ok h.houses ht hnodup (fun name hname => (hmem name).mp hname) hresult
    have hgone : ∀ name, f.IsOverdue now maxAge l d name →
        (f.sweep now maxAge 0 d names).store.node? (l ++ [name]) = none :=
      fun name hover => hclears.gone name ((mem_expired_iff hext hmem hclear).mpr hover)
    rw [Nat.zero_add, countP_expired hext hnodup hmem hclear] at hcount
    exact takes_of_ok hext h hclears ht hresult hgone hcount hclear

/-- In whatever order the names come, a purge that succeeds has taken the files that are overdue,
and nothing else, and has counted the entries among them; a second one has nothing left to do. It
succeeds if nothing obstructs, and otherwise has taken nothing that is not overdue. Where the path
is empty everything stays. -/
theorem purge_takes_overdue (hext : f.extension ≠ "") (now : Instant) (maxAge : Duration)
    (d : Disk) :
    (f.directory = "" → f.purge now maxAge d = .done d 0 [.directoryMissing ""]) ∧
      ∀ l, d.LeadsTo f.directory l → f.Tidy l d →
        f.Takes now maxAge l d (f.purge now maxAge d) ∧
          ∀ names : List String, names.Perm (d.namesIn l) →
            f.Takes now maxAge l d (f.sweep now maxAge 0 d names) := by
  constructor
  · intro hempty
    exact purge_unnamed hempty now maxAge d
  · intro l h ht
    obtain ⟨hresult, hstore⟩ := purge_eq_sweep h now maxAge
    constructor
    · exact (sweep_takes hext h ht (.refl _)).of_eq hresult hstore
    · intro names hperm
      exact sweep_takes hext h ht hperm

theorem hasEnding_sess : HasEnding "k.sess" "sess" := ⟨by decide, "k", by decide, by decide⟩

theorem purge_takes_overdue_interrupted :
    let f : FileStore := ⟨"s", "sess"⟩
    let o := f.sweep 10 ⟨5⟩ 0 interrupted (interrupted.namesIn ["s"]).reverse
    f.extension ≠ "" ∧ interrupted.LeadsTo f.directory ["s"] ∧ f.Tidy ["s"] interrupted ∧
      (∃ n, o.result = .ok n) ∧ o.store.node? ["s", "k.sess"] = none ∧
      o.store.node? ["s", "k.sess.tmp"] = none := by
  intro f o
  have hext : f.extension ≠ "" := by decide
  have htakes : f.Takes 10 ⟨5⟩ ["s"] interrupted o :=
    ((purge_takes_overdue hext 10 ⟨5⟩ interrupted).2 ["s"] interrupted_leadsTo
      (interrupted_tidy f)).2 _ (List.reverse_perm _)
  have hclear : ∀ name why, ¬f.Obstructs 10 ⟨5⟩ ["s"] interrupted name why := by
    intro name why ho
    have hname : name = "k.sess.tmp" ∨ name = "k.sess" := by
      by_contra hne
      rw [not_or] at hne
      exact ho.present (by simp [node?_interrupted, hne])
    rcases ho with ⟨-, ⟨mode, modified, hdir⟩, -⟩ | ⟨-, -, hlong, -⟩
    · rcases hname with rfl | rfl <;> simp [node?_interrupted] at hdir
    · rcases hname with rfl | rfl <;> revert hlong <;> decide
  have hentry : f.IsEntryName "k.sess" := hasEnding_sess
  obtain ⟨n, hok⟩ := htakes.succeeds.mpr hclear
  obtain ⟨hgone, -⟩ := htakes.count n hok
  refine ⟨hext, interrupted_leadsTo, interrupted_tidy f, ⟨n, hok⟩, ?_, ?_⟩
  · refine hgone "k.sess" ⟨.inl hentry, 0, ?_, by decide⟩
    rw [node?_interrupted]
    rfl
  · refine hgone "k.sess.tmp" ⟨.inr ⟨"k.sess", hentry, by decide⟩, 0, ?_, by decide⟩
    rw [node?_interrupted]
    rfl

theorem interrupted_young (f : FileStore) (name : String) :
    ¬f.IsOverdue 0 ⟨5⟩ ["s"] interrupted name := by
  rintro ⟨-, t, ht, hlt⟩
  have hzero : t = 0 := by
    rw [List.singleton_append, node?_interrupted] at ht
    split at ht
    · exact (Option.some.inj ht).symm
    · split at ht
      · exact (Option.some.inj ht).symm
      · simp at ht
  subst hzero
  exact absurd hlt (by decide)

/-- Where the path of the directory leaves no room for a file, nothing need be overdue for a purge
to fail, and where it is empty what is overdue stays. -/
theorem purge_stops_at_young :
    let f : FileStore := ⟨slashed 4090, "sess"⟩
    let d := (⟨∅⟩ : Disk).put ["k.sess"] (.file [0x6b] 0o600 0)
    (f.extension ≠ "" ∧ interrupted.LeadsTo f.directory ["s"] ∧ f.Tidy ["s"] interrupted ∧
      (f.purge 0 ⟨5⟩ interrupted).result = .error (.io .nameTooLong) ∧
      ∀ name, ¬f.IsOverdue 0 ⟨5⟩ ["s"] interrupted name) ∧
    FileStore.IsOverdue ⟨"", "sess"⟩ 10 ⟨5⟩ [] d "k.sess" ∧
      FileStore.purge ⟨"", "sess"⟩ 10 ⟨5⟩ d = .done d 0 [.directoryMissing ""] := by
  intro f d
  have hext : f.extension ≠ "" := by decide
  have hleads : interrupted.LeadsTo f.directory ["s"] :=
    leadsTo_slashed (by decide) interrupted_leadsTo.isDir
  have htidy : f.Tidy ["s"] interrupted := interrupted_tidy f
  have hlong : Path.lengthLimit ≤ (Path.join f.directory "k.sess").utf8ByteSize := by
    have hjoin := Path.le_utf8ByteSize_join (slashed 4090) "k.sess"
    rw [utf8ByteSize_slashed] at hjoin
    exact le_trans (by decide) hjoin
  have ho : f.Obstructs 0 ⟨5⟩ ["s"] interrupted "k.sess" .nameTooLong :=
    .inr ⟨.inl hasEnding_sess, by simp [node?_interrupted], hlong, rfl⟩
  have hmem : ∀ name, name ∈ interrupted.namesIn ["s"] ↔
      interrupted.node? (["s"] ++ [name]) ≠ none := fun name => Disk.mem_namesIn
  have hnodup := Disk.nodup_namesIn interrupted ["s"]
  have hover : FileStore.IsOverdue ⟨"", "sess"⟩ 10 ⟨5⟩ [] d "k.sess" := by
    refine ⟨.inl hasEnding_sess, 0, ?_, by decide⟩
    rw [List.nil_append, Disk.node?_put (by simp), if_pos rfl]
    rfl
  refine ⟨⟨hext, hleads, htidy, ?_, interrupted_young f⟩, hover, purge_unnamed rfl 10 ⟨5⟩ d⟩
  rw [(purge_eq_sweep hleads 0 ⟨5⟩).1]
  rcases hresult : (f.sweep 0 ⟨5⟩ 0 interrupted (interrupted.namesIn ["s"])).result with fault | n
  · obtain ⟨-, name, why, ho' | ho', rfl⟩ :=
      obstructs_of_sweep hleads.houses htidy hnodup hmem hext hresult
    · exact absurd ho'.1 (interrupted_young f name)
    · rw [ho'.2.2.2]
  · exact absurd ho
      (not_obstructs_of_sweep hleads.houses htidy hnodup hmem hext hresult "k.sess" _)

end FileStore

end SessionStore
