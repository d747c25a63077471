import SessionStore.Proofs.Disk.Directory

/-! # Making directories

A directory that was missing and has been made, with all those above it that were missing too, is
empty. This takes a path that does not go up again: the directories made on the way down would
otherwise lie where it ends.
-/

namespace SessionStore.Disk

variable {d e : Disk} {now : SessionStore.Instant} {mode : Nat} {p : Path} {l : Location}

/-- The path leads to a directory with nothing in it. -/
def IsFresh (d : Disk) (p : Path) : Prop :=
  ∃ l, d.walk true linkLimit [] p.names = .ok l ∧ d.IsDir l ∧
    ∀ name, d.node? (l ++ [name]) = none

theorem isDirectory_iff :
    d.isDirectory p = true ↔ ∃ m, d.walk true linkLimit [] p.names = .ok m ∧ d.IsDir m := by
  have hsteps : ∀ {m}, d.IsDir m →
      (d.walk true linkLimit [] p.steps = .ok m ↔ d.walk true linkLimit [] p.names = .ok m) := by
    intro m hm
    have hfilter : p.steps.filter (· ≠ ".") = p.names.filter (· ≠ ".") := by
      rw [Path.steps]
      split <;> simp
    exact ⟨walk_undotted hm hfilter, walk_undotted hm hfilter.symm⟩
  constructor
  · intro h
    simp only [isDirectory, find, locate, bind, Except.bind] at h
    rcases hw : d.walk true linkLimit [] p.steps with why | m
    · simp [hw] at h
    · rcases hn : d.node? m with _ | _ | ⟨mode, modified⟩ | _ <;>
        simp [hw, hn, pure, Except.pure, throw, throwThe, MonadExceptOf.throw] at h
      have hm : d.IsDir m := ⟨mode, modified, hn⟩
      exact ⟨m, (hsteps hm).mp hw, hm⟩
  · rintro ⟨m, hw, hm⟩
    have hw := (hsteps hm).mpr hw
    obtain ⟨mode, modified, hn⟩ := hm
    simp [isDirectory, find, locate, hw, hn, bind, Except.bind, pure, Except.pure]

/-- What is there cannot be made. -/
theorem makeAt_of_isDirectory (h : d.isDirectory p = true) :
    d.makeAt now mode p = .error .alreadyExists := by
  obtain ⟨m, hw, hm⟩ := isDirectory_iff.mp h
  obtain ⟨l, hl, hn⟩ := walk_nofollow hm hw
  obtain ⟨n, hn⟩ := Option.ne_none_iff_exists'.mp hn
  have hloc : d.locate false { p with closed := false } = .ok l := by
    simpa [locate, Path.steps] using hl
  simp [makeAt, hloc, hn, bind, Except.bind, throw, throwThe, MonadExceptOf.throw]

/-- A directory is new where nothing was. -/
structure IsNew (d e : Disk) (front : Location) (last : String) : Prop where
  parent : d.IsDir front
  missing : d.node? (front ++ [last]) = none
  within : Within front [last] d e
  new : e.IsDir (front ++ [last])

namespace IsNew

variable {front k : Location} {last : String} (h : d.IsNew e front last)
include h

theorem node? (h₁ : k ≠ front) (h₂ : k ≠ front ++ [last]) : e.node? k = d.node? k :=
  h.within.node? k h₁ (by simpa using h₂)

theorem isDir (hk : d.IsDir k) : e.IsDir k := by
  by_cases h₁ : k = front
  · rw [h₁]
    exact h.within.isDir h.parent
  by_cases h₂ : k = front ++ [last]
  · rw [h₂]
    exact h.new
  · unfold IsDir
    rw [h.node? h₁ h₂]
    exact hk

theorem isTree (ht : d.IsTree) : e.IsTree := by
  intro k name hk
  by_cases h₁ : k ++ [name] = front
  · have hparent := h.parent.dropLast ht
    rw [← h₁, List.dropLast_concat] at hparent
    exact h.isDir hparent
  by_cases h₂ : k ++ [name] = front ++ [last]
  · rw [(List.append_inj' h₂ rfl).1]
    exact h.isDir h.parent
  · rw [h.node? h₁ h₂] at hk
    exact h.isDir (ht k name hk)

theorem isEmpty (ht : d.IsTree) (name : String) :
    e.node? (front ++ [last] ++ [name]) = none := by
  have hne : front ++ [last] ++ [name] ≠ front := by
    intro heq
    simpa using congrArg List.length heq
  rw [h.node? hne (ne_child _ name).symm]
  rcases hchild : d.node? (front ++ [last] ++ [name]) with _ | n
  · rfl
  · obtain ⟨_, _, hdir⟩ := ht (front ++ [last]) name (by rw [hchild]; simp)
    simp [h.missing] at hdir

theorem walk (hw : d.walk false linkLimit [] p.names = .ok (front ++ [last])) :
    e.walk true linkLimit [] p.names = .ok (front ++ [last]) := by
  refine walk_transfer ?_ (.inr ⟨rfl, by simp [h.missing]⟩) hw
  intro k
  by_cases h₁ : k = front
  · subst h₁
    exact .inl ((isDir_iff.mp (h.isDir h.parent)).trans (isDir_iff.mp h.parent).symm)
  by_cases h₂ : k = front ++ [last]
  · subst h₂
    obtain ⟨mode, modified, hnew⟩ := h.new
    exact .inr ⟨.inl h.missing, fun _ target => by simp [hnew]⟩
  · exact .inl (by rw [h.node? h₁ h₂])

theorem isFresh (ht : d.IsTree) (hw : d.walk false linkLimit [] p.names = .ok (front ++ [last])) :
    e.IsFresh p := ⟨front ++ [last], h.walk hw, h.new, h.isEmpty ht⟩

end IsNew

theorem put_isNew {front : Location} {last : String} (now : SessionStore.Instant) (mode : Nat)
    (hparent : d.IsDir front) (hn : d.node? (front ++ [last]) = none) :
    d.IsNew ((d.put (front ++ [last]) (.directory mode now)).stamp front now) front last := by
  refine ⟨hparent, hn, ((Within.refl front [last] d).put (by simp) _).stamp now, mode, now, ?_⟩
  rw [node?_stamp_of_ne (ne_child front last).symm, node?_put (child_ne_nil front last), if_pos rfl]

/-- A directory that has been made is empty. -/
theorem makeAt_fresh (ht : d.IsTree) (h : d.makeAt now mode p = .ok e) :
    e.IsTree ∧ e.IsFresh p := by
  simp only [makeAt, bind, Except.bind] at h
  rcases hloc : d.locate false { p with closed := false } with why | l
  · simp [hloc] at h
  · rcases hn : d.node? l with _ | n
    · have hw : d.walk false linkLimit [] p.names = .ok l := by
        simpa [locate, Path.steps] using hloc
      have hl : l ≠ [] := by
        rintro rfl
        simp [node?] at hn
      obtain ⟨front, last, rfl⟩ := (List.eq_nil_or_concat l).resolve_left hl
      have hparent : d.IsDir front := by
        simpa using walk_parent ht (isDir_top d) hw
      simp only [hloc, hn, pure, Except.pure, Except.ok.injEq] at h
      rw [← h, List.concat_eq_append, List.dropLast_concat]
      rw [List.concat_eq_append] at hn hw
      have hnew := put_isNew now mode hparent hn
      exact ⟨hnew.isTree ht, hnew.isFresh ht hw⟩
    · simp [hloc, hn, throw, throwThe, MonadExceptOf.throw] at h

/-- What making a directory and those above it does: nothing if it is there, and else it is new. -/
structure Makes (d e : Disk) (p : Path) : Prop where
  tree : e.IsTree
  same : d.isDirectory p = true → e = d
  fresh : d.isDirectory p = false → e.IsFresh p

/-- In an empty directory no other can be found. -/
theorem IsFresh.not_isDirectory {q : Path} {name : String} (h : d.IsFresh q)
    (hp : p.names.filter (· ≠ ".") = q.names.filter (· ≠ ".") ++ [name]) (hn : name ≠ "..") :
    d.isDirectory p = false := by
  obtain ⟨l, hq, hl, hempty⟩ := h
  rcases hdir : d.isDirectory p with _ | _
  · rfl
  · obtain ⟨m, hw, hm⟩ := isDirectory_iff.mp hdir
    have hdot : name ≠ "." := by
      have hmem : name ∈ p.names.filter (· ≠ ".") := by
        rw [hp]
        exact List.mem_append_right _ List.mem_cons_self
      simpa using (List.mem_filter.mp hmem).2
    have hnames : p.names.filter (· ≠ ".") = (q.names ++ [name]).filter (· ≠ ".") := by
      rw [hp, List.filter_append]
      simp [hdot]
    have hw := walk_undotted hm hnames hw
    have hname : IsName name := ⟨hdot, hn, walk_short hw name (by simp)⟩
    have hlast : d.walk true linkLimit [] (q.names ++ [name]) = .ok (l ++ [name]) :=
      walk_append hl (by simp) (fun k => walk_last hname (fun _ => by simp [hempty]) k) hq
    rw [hlast] at hw
    cases hw
    obtain ⟨_, _, hm⟩ := hm
    simp [hempty] at hm

theorem eq_of_made (ht : d.IsTree) {result : Except IoFault Disk}
    (hr : result = d.makeAt now mode p) (h : d.made p result = (.ok (), e)) :
    d.Makes e p := by
  subst hr
  rcases hmake : d.makeAt now mode p with why | e'
  · rw [hmake, made] at h
    split at h
    · next hdir =>
      cases h
      exact ⟨ht, fun _ => rfl, fun hfalse => absurd hdir (by simp [hfalse])⟩
    · cases h
  · rw [hmake, made] at h
    cases h
    obtain ⟨htree, hfresh⟩ := makeAt_fresh ht hmake
    refine ⟨htree, ?_, fun _ => hfresh⟩
    intro hdir
    rw [makeAt_of_isDirectory hdir] at hmake
    cases hmake

/-- The first of a chain, if the rest of the chain makes the directory above it. -/
theorem makeChain_cons {q : Path} {name : String} {above : List Path} (ht : d.IsTree)
    (hp : p.names.filter (· ≠ ".") = q.names.filter (· ≠ ".") ++ [name]) (hn : name ≠ "..")
    (hq : ∀ e, d.makeChain now mode above = (.ok (), e) → d.Makes e q)
    (h : d.makeChain now mode (p :: above) = (.ok (), e)) : d.Makes e p := by
  rw [makeChain] at h
  split at h
  · next hmissing =>
    have hdir : d.isDirectory p = false := by
      rcases hdir : d.isDirectory p with _ | _
      · rfl
      · rw [makeAt_of_isDirectory hdir] at hmissing
        cases hmissing
    split at h
    · next e₁ habove =>
      have hq := hq e₁ habove
      have he := eq_of_made hq.tree rfl h
      refine ⟨he.tree, fun htrue => absurd htrue (by simp [hdir]), fun _ => he.fresh ?_⟩
      rcases hqdir : d.isDirectory q with _ | _
      · exact (hq.fresh hqdir).not_isDirectory hp hn
      · rw [hq.same hqdir]
        exact hdir
    · next hfailed =>
      exact absurd h (hfailed e)
  · exact eq_of_made ht rfl h

/-- The chain of the directories above. -/
theorem makeChain_ending {absolute : Bool} {names : List String} (ht : d.IsTree)
    (hn : ∀ name ∈ names, name ≠ "." ∧ name ≠ "..")
    (h : d.makeChain now mode (Path.ending absolute names) = (.ok (), e)) :
    d.Makes e ⟨absolute, names.reverse, false⟩ := by
  induction names generalizing e with
  | nil =>
    have htop : d.isDirectory ⟨absolute, [], false⟩ = true :=
      isDirectory_iff.mpr ⟨[], rfl, isDir_top d⟩
    cases h
    exact ⟨ht, fun _ => rfl, fun hfalse => absurd htop (by simpa using hfalse)⟩
  | cons name names ih =>
    obtain ⟨⟨hdot, hdots⟩, hnames⟩ := List.forall_mem_cons.mp hn
    have hall : ∀ x ∈ names.reverse, decide (x ≠ ".") = true := by
      intro x hx
      simpa using (hnames x (List.mem_reverse.mp hx)).1
    refine makeChain_cons (q := ⟨absolute, names.reverse, false⟩) ht ?_ hdots
      (fun e he => ih hnames he) h
    rw [List.reverse_cons, List.filter_append, List.filter_eq_self.mpr hall]
    simp [hdot]

/-- A directory that was missing is new after it has been made. -/
theorem makeDirectories_fresh {path : String} (ht : d.IsTree) (hp : Path.ofText path = .ok p)
    (hup : ".." ∉ p.names) (hmissing : d.isDirectory p = false)
    (h : d.makeDirectories now mode path = (.ok (), e)) : e.IsFresh p := by
  have hne : path ≠ "" := (Path.ofText_eq_ok hp).2.1
  rw [makeDirectories, if_neg hne, hp] at h
  have h : d.makeChain now mode (p :: p.above) = (.ok (), e) := h
  have hnames : p.names.filter (· ≠ ".") ≠ [] := by
    intro hnil
    have hdots : ([] : List String).filter (· ≠ ".") = p.names.filter (· ≠ ".") := hnil.symm
    have htop : d.isDirectory p = true := isDirectory_iff.mpr
      ⟨[], walk_undotted (isDir_top d) hdots rfl, isDir_top d⟩
    rw [hmissing] at htop
    cases htop
  obtain ⟨above, name, hsplit⟩ := (List.eq_nil_or_concat _).resolve_left hnames
  rw [List.concat_eq_append] at hsplit
  have hmem : ∀ x ∈ above ++ [name], x ≠ "." ∧ x ≠ ".." := by
    intro x hx
    rw [← hsplit, List.mem_filter] at hx
    refine ⟨by simpa using hx.2, ?_⟩
    rintro rfl
    exact hup hx.1
  have habove : p.above = Path.ending p.absolute above.reverse := by
    rw [Path.above, hsplit, List.reverse_append]
    rfl
  rw [habove] at h
  have hfilter : p.names.filter (· ≠ ".") =
      (⟨p.absolute, above.reverse.reverse, false⟩ : Path).names.filter (· ≠ ".") ++ [name] := by
    have hall : ∀ x ∈ above, decide (x ≠ ".") = true := by
      intro x hx
      simpa using (hmem x (by simp [hx])).1
    rw [hsplit, List.reverse_reverse, List.filter_eq_self.mpr hall]
  have habove' : ∀ x ∈ above.reverse, x ≠ "." ∧ x ≠ ".." := by
    intro x hx
    exact hmem x (List.mem_append_left _ (List.mem_reverse.mp hx))
  exact (makeChain_cons ht hfilter (hmem name (by simp)).2
    (fun e he => makeChain_ending ht habove' he) h).fresh hmissing

end SessionStore.Disk
