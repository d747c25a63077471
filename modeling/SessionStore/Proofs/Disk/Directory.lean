import SessionStore.Proofs.Disk.Paths
import SessionStore.Proofs.Disk.Walk

/-! # Calls in one directory

Where a path leads to a directory, the calls on a name inside act on the node of that name alone.
Nothing but the contents of the directory changes, so the path leads there still.
-/

namespace SessionStore.Disk

variable {d e : Disk} {dir name : String} {l m : Location} {names : List String}

/-- The path leads to the directory at `l`. -/
structure LeadsTo (d : Disk) (dir : String) (l : Location) : Prop where
  walk : ∃ p, Path.ofText dir = .ok p ∧ d.walk true linkLimit [] p.names = .ok l
  isDir : d.IsDir l

/-- A name that can be used in a directory. -/
structure Fits (dir name : String) : Prop extends Path.IsSimple name, IsName name where
  path_lt : (Path.join dir name).utf8ByteSize < Path.lengthLimit

/-- Names put behind the path are looked up in the directory at `l`. The empty path stands for the
directory at the top here, though it leads nowhere itself. -/
def Houses (d : Disk) (dir : String) (l : Location) : Prop :=
  d.LeadsTo dir l ∨ dir = "" ∧ l = []

/-- From `d` to `e` nothing changes but what is in the directory at `l` under the names. -/
structure Within (l : Location) (names : List String) (d e : Disk) : Prop where
  node? : ∀ m, m ≠ l → (∀ name ∈ names, m ≠ l ++ [name]) → e.node? m = d.node? m
  isDir : d.IsDir l → e.IsDir l

theorem ne_child (l : Location) (name : String) : l ≠ l ++ [name] := by
  intro h
  simpa using congrArg List.length h

theorem child_ne_nil (l : Location) (name : String) : l ++ [name] ≠ [] := by
  simp

namespace Within

theorem refl (l : Location) (names : List String) (d : Disk) : Within l names d d :=
  ⟨fun _ _ _ => rfl, id⟩

theorem trans {d' : Disk} (h : Within l names d e) (h' : Within l names e d') :
    Within l names d d' where
  node? m hm hn := (h'.node? m hm hn).trans (h.node? m hm hn)
  isDir hd := h'.isDir (h.isDir hd)

theorem mono {more : List String} (h : Within l names d e) (hs : names ⊆ more) :
    Within l more d e where
  node? m hm hn := h.node? m hm fun name hname => hn name (hs hname)
  isDir := h.isDir

theorem stamp (h : Within l names d e) (now : SessionStore.Instant) :
    Within l names d (e.stamp l now) where
  node? m hm hn := by
    rw [node?_stamp_of_ne hm]
    exact h.node? m hm hn
  isDir hd := isDir_stamp.mpr (h.isDir hd)

theorem put (h : Within l names d e) (hn : name ∈ names) (n : Node) :
    Within l names d (e.put (l ++ [name]) n) where
  node? m hm hns := by
    rw [node?_put (child_ne_nil l name), if_neg (hns name hn)]
    exact h.node? m hm hns
  isDir hd := by
    unfold IsDir
    rw [node?_put (child_ne_nil l name), if_neg (ne_child l name)]
    exact h.isDir hd

theorem erase (h : Within l names d e) (hn : name ∈ names) :
    Within l names d (e.erase (l ++ [name])) where
  node? m hm hns := by
    rw [node?_erase (child_ne_nil l name), if_neg (hns name hn)]
    exact h.node? m hm hns
  isDir hd := by
    unfold IsDir
    rw [node?_erase (child_ne_nil l name), if_neg (ne_child l name)]
    exact h.isDir hd

/-- What else is in the directory stays as it is. -/
theorem node?_child (h : Within l names d e) (hn : name ∉ names) :
    e.node? (l ++ [name]) = d.node? (l ++ [name]) := by
  apply h.node? _ (ne_child l name).symm
  intro other hother heq
  obtain rfl : name = other := by simpa using heq
  exact hn hother

end Within

/-- What happens to the ends in a directory is not noticed on the way to it. -/
theorem Within.alike (hw : Within l names d e) (hd : d.IsDir l)
    (hends : ∀ name ∈ names, d.IsEnd (l ++ [name])) : Alike d e l := by
  intro m
  by_cases hm : m = l
  · subst hm
    exact .inl ((isDir_iff.mp (hw.isDir hd)).trans (isDir_iff.mp hd).symm)
  · by_cases hn : ∃ name ∈ names, m = l ++ [name]
    · obtain ⟨name, hname, rfl⟩ := hn
      exact .inr ⟨hends name hname, fun heq => absurd heq hm⟩
    · left
      rw [hw.node? m hm fun name hname heq => hn ⟨name, hname, heq⟩]

theorem LeadsTo.of_within (h : d.LeadsTo dir l) (hw : Within l names d e)
    (hends : ∀ name ∈ names, d.IsEnd (l ++ [name])) : e.LeadsTo dir l := by
  obtain ⟨p, hp, hwalk⟩ := h.walk
  exact ⟨⟨p, hp, walk_transfer (hw.alike h.isDir hends) (.inl rfl) hwalk⟩, hw.isDir h.isDir⟩

theorem LeadsTo.unique (h : d.LeadsTo dir l) (h' : d.LeadsTo dir m) : l = m := by
  obtain ⟨p, hp, hwalk⟩ := h.walk
  obtain ⟨p', hp', hwalk'⟩ := h'.walk
  cases hp.symm.trans hp'
  cases hwalk.symm.trans hwalk'
  rfl

theorem LeadsTo.houses (h : d.LeadsTo dir l) : d.Houses dir l := .inl h

namespace Houses

theorem isDir (h : d.Houses dir l) : d.IsDir l := by
  rcases h with h | ⟨-, rfl⟩
  · exact h.isDir
  · exact d.isDir_top

theorem of_alike (h : d.Houses dir l) (ha : Alike d e l) (he : e.IsDir l) : e.Houses dir l := by
  rcases h with ⟨⟨p, hp, hwalk⟩, -⟩ | h
  · exact .inl ⟨⟨p, hp, walk_transfer ha (.inl rfl) hwalk⟩, he⟩
  · exact .inr h

/-- The way to the directory, from which all paths go on by one name. -/
theorem exists_walk (h : d.Houses dir l) :
    ∃ absolute names, d.walk true linkLimit [] names = .ok l ∧ ∀ name, Path.IsSimple name →
      Path.ofText (Path.join dir name) =
        if (Path.join dir name).utf8ByteSize < Path.lengthLimit
          then .ok ⟨absolute, names ++ [name], false⟩ else .error .nameTooLong := by
  rcases h with ⟨⟨p, hp, hwalk⟩, -⟩ | ⟨rfl, rfl⟩
  · refine ⟨p.absolute, p.names, hwalk, ?_⟩
    intro name hname
    split
    case isTrue hlen => exact Path.ofText_join hp hname hlen
    case isFalse hlen => exact Path.ofText_join_of_le hp hname (Nat.not_lt.mp hlen)
  · refine ⟨false, [], rfl, ?_⟩
    intro name hname
    rw [Path.join_empty]
    exact Path.ofText_of_isSimple hname

/-- The path of a name in a directory, and where it leads. -/
theorem locate (h : d.Houses dir l) (hf : Fits dir name) (follow : Bool)
    (hlink : follow = true → ∀ target, d.node? (l ++ [name]) ≠ some (.link target)) :
    ∃ q, Path.ofText (Path.join dir name) = .ok q ∧ q.closed = false ∧
      d.locate follow q = .ok (l ++ [name]) := by
  obtain ⟨absolute, names, hwalk, htext⟩ := h.exists_walk
  refine ⟨⟨absolute, names ++ [name], false⟩, ?_, rfl, ?_⟩
  · rw [htext name hf.toIsSimple, if_pos hf.path_lt]
  · rw [Disk.locate, Path.steps]
    simp only [Bool.false_eq_true, if_false, List.append_nil]
    exact walk_append h.isDir (by simp) (fun k => walk_last hf.toIsName hlink k) hwalk

/-- A name that does not fit for its length alone has no path. -/
theorem fits_or_long (h : d.Houses dir l) (hname : Path.IsSimple name) (hn : IsName name) :
    Fits dir name ∨ Path.ofText (Path.join dir name) = .error .nameTooLong := by
  obtain ⟨absolute, names, -, htext⟩ := h.exists_walk
  by_cases hlen : (Path.join dir name).utf8ByteSize < Path.lengthLimit
  · exact .inl ⟨hname, hn, hlen⟩
  · right
    rw [htext name hname, if_neg hlen]

end Houses

theorem IsEnd.not_link (h : d.IsEnd l) (target : String) : d.node? l ≠ some (.link target) := by
  rcases h with h | ⟨_, _, _, h⟩ <;> simp [h]

/-- The directory is found, whether or not the path ends in a slash. -/
theorem LeadsTo.find (h : d.LeadsTo dir l) :
    ∃ p mode modified, Path.ofText dir = .ok p ∧ d.find p = .ok (l, .directory mode modified) := by
  obtain ⟨p, hp, hwalk⟩ := h.walk
  obtain ⟨mode, modified, hl⟩ := h.isDir
  have hloc : d.locate true p = .ok l := by
    rw [Disk.locate, Path.steps]
    split
    · exact walk_append h.isDir (by simp) (fun k => walk_dot d true l k) hwalk
    · rw [List.append_nil]
      exact hwalk
  exact ⟨p, mode, modified, hp,
    by simp [Disk.find, hloc, hl, bind, Except.bind, pure, Except.pure]⟩

theorem LeadsTo.stat (h : d.LeadsTo dir l) :
    ∃ mode modified, d.stat dir = .ok (.directory mode modified) := by
  obtain ⟨p, mode, modified, hp, hfind⟩ := h.find
  exact ⟨mode, modified, by simp [Disk.stat, hp, hfind, bind, Except.bind, pure, Except.pure]⟩

/-- The names in the directory that a path leads to. -/
theorem LeadsTo.list (h : d.LeadsTo dir l) : d.list dir = .ok (d.namesIn l) := by
  obtain ⟨p, mode, modified, hp, hfind⟩ := h.find
  simp [Disk.list, hp, hfind, bind, Except.bind, pure, Except.pure]

/-- The name of a location in the directory at `l`. -/
def childOf? (l k : Location) : Option String :=
  match k.getLast? with
  | none => none
  | some name => if k.dropLast = l then some name else none

theorem childOf?_eq_some {k : Location} : childOf? l k = some name ↔ k = l ++ [name] := by
  rcases List.eq_nil_or_concat k with rfl | ⟨front, last, rfl⟩
  · simp [childOf?]
  · simp [childOf?]

theorem mem_namesIn : name ∈ d.namesIn l ↔ d.node? (l ++ [name]) ≠ none := by
  have hnames : name ∈ d.namesIn l ↔ ∃ k, k ∈ d.nodes.keys ∧ childOf? l k = some name :=
    List.mem_filterMap
  simp only [hnames, childOf?_eq_some, exists_eq_right, Std.ExtTreeMap.mem_keys, Disk.node?,
    child_ne_nil, if_false]
  rw [Std.ExtTreeMap.mem_iff_isSome_getElem?, ne_eq, ← Option.not_isSome_iff_eq_none,
    Bool.not_eq_true, Bool.not_eq_false]

theorem nodup_namesIn (d : Disk) (l : Location) : (d.namesIn l).Nodup := by
  have hkeys : d.nodes.keys.Nodup := Std.ExtTreeMap.nodup_keys
  refine List.pairwise_filterMap.mpr (hkeys.imp ?_)
  rintro k k' hne name hk name' hk' rfl
  have hk : childOf? l k = some name := hk
  have hk' : childOf? l k' = some name := hk'
  rw [childOf?_eq_some] at hk hk'
  exact hne (hk.trans hk'.symm)

section Calls

variable (h : d.Houses dir l) (hf : Fits dir name) (now : SessionStore.Instant)
include h hf

theorem find_join (hlink : ∀ target, d.node? (l ++ [name]) ≠ some (.link target)) :
    ∃ q, Path.ofText (Path.join dir name) = .ok q ∧
      d.find q = match d.node? (l ++ [name]) with
        | none => .error .notFound
        | some n => .ok (l ++ [name], n) := by
  obtain ⟨q, hq, -, hloc⟩ := h.locate hf true fun _ => hlink
  refine ⟨q, hq, ?_⟩
  simp only [find, hloc, bind, Except.bind]
  cases d.node? (l ++ [name]) <;> rfl

theorem stat_join (hlink : ∀ target, d.node? (l ++ [name]) ≠ some (.link target)) :
    d.stat (Path.join dir name) = match d.node? (l ++ [name]) with
      | none => .error .notFound
      | some n => .ok n := by
  obtain ⟨q, hq, hfind⟩ := find_join h hf hlink
  simp only [stat, hq, hfind, bind, Except.bind]
  cases d.node? (l ++ [name]) <;> rfl

theorem read_join (hlink : ∀ target, d.node? (l ++ [name]) ≠ some (.link target)) :
    d.read (Path.join dir name) = match d.node? (l ++ [name]) with
      | some (.file contents _ _) => .ok contents
      | some (.directory _ _) => .error .isDirectory
      | none | some (.link _) => .error .notFound := by
  rw [read, stat_join h hf hlink]
  rcases d.node? (l ++ [name]) with _ | ⟨_, _, _⟩ | ⟨_, _⟩ | _ <;> rfl

theorem read_join_none (he : d.node? (l ++ [name]) = none) :
    d.read (Path.join dir name) = .error .notFound := by
  rw [read_join h hf (IsEnd.not_link (.inl he)), he]

theorem read_join_file {contents : Bytes} {mode : Nat} {modified : SessionStore.Instant}
    (he : d.node? (l ++ [name]) = some (.file contents mode modified)) :
    d.read (Path.join dir name) = .ok contents := by
  rw [read_join h hf (IsEnd.not_link (.inr ⟨_, _, _, he⟩)), he]

theorem write_join_eq (hlink : ∀ target, d.node? (l ++ [name]) ≠ some (.link target)) (mode : Nat)
    (contents : Bytes) :
    d.write now mode (Path.join dir name) contents = match d.node? (l ++ [name]) with
      | none => .ok ((d.put (l ++ [name]) (.file contents mode now)).stamp l now)
      | some (.file _ old _) => .ok (d.put (l ++ [name]) (.file contents old now))
      | some (.directory _ _) => .error .isDirectory
      | some (.link _) => .error .notFound := by
  obtain ⟨q, hq, -, hloc⟩ := h.locate hf true fun _ => hlink
  simp only [write, hq, hloc, bind, Except.bind]
  rcases d.node? (l ++ [name]) with _ | ⟨_, _, _⟩ | ⟨_, _⟩ | _ <;>
    simp [throw, throwThe, MonadExceptOf.throw, pure, Except.pure]

theorem write_join (he : d.IsEnd (l ++ [name])) (mode : Nat) (contents : Bytes) :
    ∃ e mode', d.write now mode (Path.join dir name) contents = .ok e ∧
      e.node? (l ++ [name]) = some (.file contents mode' now) ∧ Within l [name] d e := by
  have hwrite := write_join_eq h hf now he.not_link mode contents
  have hne := child_ne_nil l name
  rcases he with he | ⟨_, old, _, he⟩
  · refine ⟨((d.put (l ++ [name]) (.file contents mode now)).stamp l now), mode, ?_, ?_, ?_⟩
    · rw [hwrite, he]
    · rw [node?_stamp_of_ne (ne_child l name).symm, node?_put hne, if_pos rfl]
    · exact ((Within.refl l [name] d).put (by simp) _).stamp now
  · refine ⟨d.put (l ++ [name]) (.file contents old now), old, ?_, ?_, ?_⟩
    · rw [hwrite, he]
    · rw [node?_put hne, if_pos rfl]
    · exact (Within.refl l [name] d).put (by simp) _

theorem remove_join :
    d.remove now (Path.join dir name) = match d.node? (l ++ [name]) with
      | none => .error .notFound
      | some (.directory _ _) => .error .isDirectory
      | some _ => .ok ((d.erase (l ++ [name])).stamp l now) := by
  obtain ⟨q, hq, -, hloc⟩ := h.locate hf false fun hfalse => by cases hfalse
  simp only [remove, hq, hloc, bind, Except.bind]
  rcases d.node? (l ++ [name]) with _ | ⟨_, _, _⟩ | ⟨_, _⟩ | _ <;>
    simp [throw, throwThe, MonadExceptOf.throw, pure, Except.pure]

theorem remove_join_none (he : d.node? (l ++ [name]) = none) :
    d.remove now (Path.join dir name) = .error .notFound := by
  rw [remove_join h hf, he]

theorem remove_join_file {contents : Bytes} {mode : Nat} {modified : SessionStore.Instant}
    (he : d.node? (l ++ [name]) = some (.file contents mode modified)) :
    ∃ e, d.remove now (Path.join dir name) = .ok e ∧ e.node? (l ++ [name]) = none ∧
      Within l [name] d e := by
  refine ⟨(d.erase (l ++ [name])).stamp l now, ?_, ?_, ?_⟩
  · rw [remove_join h hf, he]
  · rw [node?_stamp_of_ne (ne_child l name).symm, node?_erase (child_ne_nil l name), if_pos rfl]
  · exact ((Within.refl l [name] d).erase (by simp)).stamp now

theorem setModified_join (hlink : ∀ target, d.node? (l ++ [name]) ≠ some (.link target)) :
    d.setModified (Path.join dir name) now = match d.node? (l ++ [name]) with
      | some (.file contents mode _) => .ok (d.put (l ++ [name]) (.file contents mode now))
      | some (.directory _ _) => .error .isDirectory
      | none | some (.link _) => .error .notFound := by
  obtain ⟨q, hq, hfind⟩ := find_join h hf hlink
  simp only [setModified, hq, hfind, bind, Except.bind]
  rcases d.node? (l ++ [name]) with _ | ⟨_, _, _⟩ | ⟨_, _⟩ | _ <;>
    simp [throw, throwThe, MonadExceptOf.throw, pure, Except.pure]

theorem setModified_join_none (he : d.node? (l ++ [name]) = none) :
    d.setModified (Path.join dir name) now = .error .notFound := by
  rw [setModified_join h hf now (IsEnd.not_link (.inl he)), he]

theorem setModified_join_file {contents : Bytes} {mode : Nat} {modified : SessionStore.Instant}
    (he : d.node? (l ++ [name]) = some (.file contents mode modified)) :
    ∃ e, d.setModified (Path.join dir name) now = .ok e ∧
      e.node? (l ++ [name]) = some (.file contents mode now) ∧ Within l [name] d e := by
  refine ⟨d.put (l ++ [name]) (.file contents mode now), ?_, ?_, ?_⟩
  · rw [setModified_join h hf now (IsEnd.not_link (.inr ⟨_, _, _, he⟩)), he]
  · rw [node?_put (child_ne_nil l name), if_pos rfl]
  · exact (Within.refl l [name] d).put (by simp) _

theorem rename_join_eq {other : String} (ho : Fits dir other) :
    d.rename now (Path.join dir other) (Path.join dir name) = match d.node? (l ++ [other]) with
      | none => .error .notFound
      | some (.directory _ _) => .error .isDirectory
      | some n => match d.node? (l ++ [name]) with
        | some (.directory _ _) => .error .isDirectory
        | _ => .ok ((((d.erase (l ++ [other])).put (l ++ [name]) n).stamp l now).stamp l now) := by
  obtain ⟨q, hq, hclosed, hloc⟩ := h.locate hf false fun hfalse => by cases hfalse
  obtain ⟨r, hr, -, hloc'⟩ := h.locate ho false fun hfalse => by cases hfalse
  have hq' : ({ q with closed := false } : Path) = q := by rw [← hclosed]
  have hnamed : q.isNameless = false :=
    Path.isNameless_join hq hf.toIsSimple hf.toIsName.ne_dot hf.toIsName.ne_dots
  have hnamed' : r.isNameless = false :=
    Path.isNameless_join hr ho.toIsSimple ho.toIsName.ne_dot ho.toIsName.ne_dots
  simp only [rename, hq, hr, hq', hloc, hloc', hclosed, hnamed, hnamed', bind, Except.bind,
    Bool.or_false, Bool.false_eq_true, if_false]
  rcases d.node? (l ++ [other]) with _ | ⟨_, _, _⟩ | ⟨_, _⟩ | _ <;>
    rcases d.node? (l ++ [name]) with _ | ⟨_, _, _⟩ | ⟨_, _⟩ | _ <;>
    simp [throw, throwThe, MonadExceptOf.throw, pure, Except.pure]

theorem rename_join {other : String} (ho : Fits dir other) (hne : other ≠ name) {contents : Bytes}
    {mode : Nat} {modified : SessionStore.Instant}
    (hs : d.node? (l ++ [other]) = some (.file contents mode modified))
    (he : d.IsEnd (l ++ [name])) :
    ∃ e, d.rename now (Path.join dir other) (Path.join dir name) = .ok e ∧
      e.node? (l ++ [other]) = none ∧
      e.node? (l ++ [name]) = some (.file contents mode modified) ∧
      Within l [other, name] d e := by
  refine ⟨(((d.erase (l ++ [other])).put (l ++ [name])
    (.file contents mode modified)).stamp l now).stamp l now, ?_, ?_, ?_, ?_⟩
  · rw [rename_join_eq h hf now ho, hs]
    rcases he with he | ⟨_, _, _, he⟩ <;> rw [he]
  · rw [node?_stamp_of_ne (ne_child l other).symm, node?_stamp_of_ne (ne_child l other).symm,
      node?_put (child_ne_nil l name), if_neg (by simpa using hne),
      node?_erase (child_ne_nil l other), if_pos rfl]
  · rw [node?_stamp_of_ne (ne_child l name).symm, node?_stamp_of_ne (ne_child l name).symm,
      node?_put (child_ne_nil l name), if_pos rfl]
  · exact ((((Within.refl l [other, name] d).erase (by simp)).put (by simp) _).stamp now).stamp now

end Calls

/-! ## Calls that succeed -/

theorem write_eq_ok {now : SessionStore.Instant} {mode : Nat} {path : String} {contents : Bytes}
    (h : d.write now mode path contents = .ok e) :
    ∃ q m, Path.ofText path = .ok q ∧ d.locate true q = .ok m ∧ ¬d.IsDir m := by
  rcases hq : Path.ofText path with why | q
  · simp [write, hq, bind, Except.bind] at h
  rcases hm : d.locate true q with why | m
  · simp [write, hq, hm, bind, Except.bind] at h
  refine ⟨q, m, rfl, hm, ?_⟩
  rintro ⟨mode, modified, hdir⟩
  simp [write, hq, hm, hdir, bind, Except.bind] at h

/-- What is moved gets a name of its own, at which there is no directory. -/
theorem rename_eq_ok {now : SessionStore.Instant} {source target : String}
    (h : d.rename now source target = .ok e) :
    ∃ q m, Path.ofText target = .ok q ∧ d.locate false { q with closed := false } = .ok m ∧
      ¬d.IsDir m ∧ q.isNameless = false ∧ q.closed = false := by
  rcases ha : Path.ofText source with why | a
  · simp [rename, ha, bind, Except.bind] at h
  rcases hq : Path.ofText target with why | q
  · simp [rename, ha, hq, bind, Except.bind] at h
  rcases hl : d.locate false a with why | l
  · simp [rename, ha, hq, hl, bind, Except.bind] at h
  rcases hm : d.locate false { q with closed := false } with why | m
  · simp [rename, ha, hq, hl, hm, bind, Except.bind] at h
  rcases hnamed : a.isNameless || q.isNameless with _ | _
  · rw [Bool.or_eq_false_iff] at hnamed
    refine ⟨q, m, rfl, hm, ?_⟩
    rcases hn : d.node? l with _ | ⟨_, _, _⟩ | ⟨_, _⟩ | _ <;>
      rcases hclosed : q.closed with _ | _ <;>
      simp [rename, ha, hq, hl, hm, hnamed, hn, hclosed, bind, Except.bind, throw, throwThe,
        MonadExceptOf.throw] at h
    all_goals
      refine ⟨?_, hnamed.2, rfl⟩
      rintro ⟨mode, modified, hdir⟩
      simp [hdir] at h
  · rw [Bool.or_eq_true_iff] at hnamed
    simp [rename, ha, hq, hl, hm, hnamed, bind, Except.bind, throw, throwThe,
      MonadExceptOf.throw] at h

theorem remove_eq_ok {now : SessionStore.Instant} {path : String}
    (h : d.remove now path = .ok e) :
    ∃ q m, Path.ofText path = .ok q ∧ d.locate false q = .ok m := by
  rcases hq : Path.ofText path with why | q
  · simp [remove, hq, bind, Except.bind] at h
  rcases hm : d.locate false q with why | m
  · simp [remove, hq, hm, bind, Except.bind] at h
  exact ⟨q, m, rfl, hm⟩

theorem setModified_eq_ok {path : String} {time : SessionStore.Instant}
    (h : d.setModified path time = .ok e) :
    ∃ q m, Path.ofText path = .ok q ∧ d.locate true q = .ok m := by
  rcases hq : Path.ofText path with why | q
  · simp [setModified, hq, bind, Except.bind] at h
  rcases hm : d.locate true q with why | m
  · simp [setModified, find, hq, hm, bind, Except.bind] at h
  exact ⟨q, m, rfl, hm⟩

theorem list_eq_ok {listed : List String} (h : d.list dir = .ok listed) :
    ∃ l, d.LeadsTo dir l := by
  rcases hp : Path.ofText dir with why | p
  · simp [list, hp, bind, Except.bind] at h
  rcases hl : d.locate true p with why | l
  · simp [list, find, hp, hl, bind, Except.bind] at h
  have hdir : d.IsDir l := by
    rcases hn : d.node? l with _ | ⟨_, _, _⟩ | ⟨mode, modified⟩ | _
    · simp [list, find, hp, hl, hn, bind, Except.bind, throw, throwThe, MonadExceptOf.throw] at h
    · simp [list, find, hp, hl, hn, bind, Except.bind, pure, Except.pure, throw, throwThe,
        MonadExceptOf.throw] at h
    · exact ⟨mode, modified, hn⟩
    · simp [list, find, hp, hl, hn, bind, Except.bind, pure, Except.pure, throw, throwThe,
        MonadExceptOf.throw] at h
  have hsteps : p.steps.filter (· ≠ ".") = p.names.filter (· ≠ ".") := by
    rw [Path.steps]
    split <;> simp
  exact ⟨l, ⟨p, hp, walk_undotted hdir hsteps hl⟩, hdir⟩

/-- A name is found behind a path only if the path leads to a directory. -/
theorem exists_houses {q : Path} {follow : Bool} (hname : Path.IsSimple name)
    (hq : Path.ofText (Path.join dir name) = .ok q) (hloc : d.locate follow q = .ok m) :
    ∃ l, d.Houses dir l := by
  by_cases hd : dir = ""
  · exact ⟨[], .inr ⟨hd, rfl⟩⟩
  obtain ⟨-, -, hlen, -⟩ := Path.ofText_eq_ok hq
  obtain ⟨p, hp⟩ := Path.ofText_of_join hd hq
  rw [Path.ofText_join hp hname hlen] at hq
  cases hq
  rw [locate, Path.steps] at hloc
  simp only [Bool.false_eq_true, if_false, List.append_nil] at hloc
  obtain ⟨l, hl, hdir⟩ := walk_init (isReached_top d) hloc
  exact ⟨l, .inl ⟨⟨p, hp, hl⟩, hdir⟩⟩

/-- A path that leads somewhere has a usable name at its end. -/
theorem fits_of_locate {p q : Path} {follow : Bool} (hp : Path.ofText dir = .ok p)
    (hne : name ≠ "") (hslash : '/' ∉ name.toList) (hdot : name ≠ ".") (hdots : name ≠ "..")
    (hq : Path.ofText (Path.join dir name) = .ok q) (hloc : d.locate follow q = .ok m) :
    Fits dir name := by
  obtain ⟨hnul, -, hlen, -⟩ := Path.ofText_eq_ok hq
  have hd : dir ≠ "" := (Path.ofText_eq_ok hp).2.1
  obtain ⟨cs, hjoin, -⟩ := Path.toList_join hd name
  have hsimple : Path.IsSimple name := by
    refine ⟨hne, hslash, ?_⟩
    intro hmem
    rw [hjoin] at hnul
    exact hnul (List.mem_append_right _ (List.mem_cons_of_mem _ hmem))
  rw [Path.ofText_join hp hsimple hlen] at hq
  cases hq
  refine ⟨hsimple, ⟨hdot, hdots, ?_⟩, hlen⟩
  rw [locate, Path.steps] at hloc
  exact walk_short hloc name (by simp)

/-- What is neither a directory nor a link is an end. -/
theorem isEnd_of_not (hdir : ¬d.IsDir l) (hlink : ∀ target, d.node? l ≠ some (.link target)) :
    d.IsEnd l := by
  rcases node_cases d l with h | h | ⟨target, h⟩
  · exact absurd h hdir
  · exact h
  · exact absurd h (hlink target)

end SessionStore.Disk
