import SessionStore.Disk.Path

/-! # Names inside of paths

A name put behind a path is the last of the names that the new path means.
-/

namespace SessionStore

namespace Text

variable {separator : Char} {xs ys : List Char}

theorem pieces_of_not_mem (h : separator ∉ xs) : pieces separator xs = [xs] := by
  induction xs with
  | nil => rfl
  | cons x xs ih =>
    have hx : x ≠ separator := fun hx => h (by simp [hx])
    rw [pieces, if_neg hx, ih fun hxs => h (List.mem_cons_of_mem _ hxs)]

theorem pieces_append_cons (separator : Char) (xs ys : List Char) :
    pieces separator (xs ++ separator :: ys) = pieces separator xs ++ pieces separator ys := by
  induction xs with
  | nil => simp [pieces]
  | cons x xs ih =>
    by_cases hx : x = separator
    · simp [pieces, hx, ih]
    · simp only [List.cons_append, pieces, if_neg hx, ih]
      rcases h : pieces separator xs with _ | ⟨p, ps⟩
      · cases xs with
        | nil => simp [pieces] at h
        | cons y xs =>
          simp only [pieces] at h
          split at h
          · cases h
          · split at h <;> cases h
      · simp

end Text

namespace Path

/-- A name as a file has it: it says something, and goes neither up nor down. -/
structure IsSimple (name : String) : Prop where
  nonempty : name ≠ ""
  no_slash : '/' ∉ name.toList
  no_nul : '\x00' ∉ name.toList

variable {dir name : String} {p : Path}

theorem toList_ne_nil (h : name ≠ "") : name.toList ≠ [] := by
  simpa using h

theorem namesOf_append {cs : List Char} (hname : IsSimple name) :
    namesOf (cs ++ '/' :: name.toList) = namesOf cs ++ [name] := by
  have hne := toList_ne_nil hname.nonempty
  unfold namesOf
  rw [Text.pieces_append_cons, Text.pieces_of_not_mem hname.no_slash]
  simp [hne]

/-- What a joined text is made of: the directory without a closing slash, a slash and the name. -/
theorem toList_join (hd : dir ≠ "") (name : String) :
    ∃ cs, (join dir name).toList = cs ++ '/' :: name.toList ∧
      (dir.toList = cs ∨ dir.toList = cs ++ ['/']) := by
  unfold join
  rcases h : dir.toList.getLast? with _ | c
  · exact absurd (List.getLast?_eq_none_iff.mp h) (toList_ne_nil hd)
  · obtain ⟨cs, hcs⟩ := List.getLast?_eq_some_iff.mp h
    by_cases hc : c = '/'
    · subst hc
      exact ⟨cs, by simp [hcs], .inr hcs⟩
    · exact ⟨dir.toList, by simp [hc], .inl rfl⟩

theorem ofText_eq_ok (h : ofText dir = .ok p) :
    '\x00' ∉ dir.toList ∧ dir ≠ "" ∧ dir.utf8ByteSize < lengthLimit ∧
      p = ⟨dir.toList.head? == some '/', namesOf dir.toList, dir.toList.getLast? == some '/'⟩ := by
  unfold ofText at h
  split at h
  · cases h
  · split at h
    · cases h
    · split at h
      · cases h
      · next h₁ h₂ h₃ =>
        cases h
        exact ⟨by simpa using h₁, h₂, by omega, rfl⟩

theorem namesOf_concat_slash (cs : List Char) : namesOf (cs ++ ['/']) = namesOf cs := by
  unfold namesOf
  rw [Text.pieces_append_cons, Text.pieces]
  simp

theorem join_ne_empty (hd : dir ≠ "") : join dir name ≠ "" := by
  obtain ⟨cs, hjoin, -⟩ := toList_join hd name
  intro h
  simp [h] at hjoin

theorem nul_not_mem_join (hd : dir ≠ "") (hnul : '\x00' ∉ dir.toList) (hname : IsSimple name) :
    '\x00' ∉ (join dir name).toList := by
  obtain ⟨cs, hjoin, hcs⟩ := toList_join hd name
  have hcs' : '\x00' ∉ cs := by
    rcases hcs with hcs | hcs <;> simp_all
  rw [hjoin]
  simp [hcs', hname.no_nul]

@[simp] theorem join_empty (name : String) : join "" name = name := rfl

/-- A name is joined at the end, whatever it is. -/
theorem join_append (dir name ending : String) :
    join dir (name ++ ending) = join dir name ++ ending := by
  unfold join
  rcases dir.toList.getLast? with _ | c
  · rfl
  · simp only
    split <;> simp only [String.append_assoc]

/-- What stands before the name depends on the directory alone. -/
theorem exists_toList_join (dir : String) :
    ∃ front, ∀ name, (join dir name).toList = front ++ name.toList := by
  unfold join
  rcases dir.toList.getLast? with _ | c
  · exact ⟨[], fun name => rfl⟩
  · by_cases hc : c = '/'
    · exact ⟨dir.toList, fun name => by simp [hc]⟩
    · exact ⟨dir.toList ++ ['/'], fun name => by simp [hc]⟩

theorem join_inj {name' : String} : join dir name = join dir name' ↔ name = name' := by
  obtain ⟨front, hfront⟩ := exists_toList_join dir
  rw [← String.toList_inj, hfront, hfront, List.append_cancel_left_eq, String.toList_inj]

theorem le_utf8ByteSize_join (dir name : String) :
    dir.utf8ByteSize + name.utf8ByteSize ≤ (join dir name).utf8ByteSize := by
  unfold join
  rcases h : dir.toList.getLast? with _ | c
  · have hnil : dir = "" := by simpa using List.getLast?_eq_none_iff.mp h
    subst hnil
    simp
  · simp only
    split <;> simp only [String.utf8ByteSize_append] <;> omega

theorem utf8ByteSize_join_le (dir name : String) :
    (join dir name).utf8ByteSize ≤ dir.utf8ByteSize + 1 + name.utf8ByteSize := by
  have hslash : "/".utf8ByteSize = 1 := by decide
  unfold join
  rcases dir.toList.getLast? with _ | c
  · simp only
    omega
  · simp only
    split <;> simp only [String.utf8ByteSize_append, hslash] <;> omega

theorem head?_join (hd : dir ≠ "") : (join dir name).toList.head? = dir.toList.head? := by
  obtain ⟨cs, hjoin, hcs⟩ := toList_join hd name
  rw [hjoin]
  rcases hcs with hcs | hcs
  · rw [← hcs]
    cases hdir : dir.toList with
    | nil => exact absurd hdir (toList_ne_nil hd)
    | cons c cs => rfl
  · rw [hcs]
    cases cs <;> rfl

theorem namesOf_join (dir : String) (h : IsSimple name) :
    namesOf (join dir name).toList = namesOf dir.toList ++ [name] := by
  by_cases hd : dir = ""
  · subst hd
    rw [join_empty]
    simp [namesOf, Text.pieces, Text.pieces_of_not_mem h.no_slash, h.nonempty]
  · obtain ⟨cs, hjoin, hcs⟩ := toList_join hd name
    rw [hjoin, namesOf_append h]
    rcases hcs with hcs | hcs
    · rw [hcs]
    · rw [hcs, namesOf_concat_slash]

theorem isNameless_join (h : ofText (join dir name) = .ok p) (hname : IsSimple name)
    (hdot : name ≠ ".") (hdots : name ≠ "..") : p.isNameless = false := by
  obtain ⟨-, -, -, rfl⟩ := ofText_eq_ok h
  simp [isNameless, namesOf_join dir hname, hdot, hdots]

theorem getLast?_join (dir : String) (h : IsSimple name) :
    (join dir name).toList.getLast? ≠ some '/' := by
  have hlast : name.toList.getLast? ≠ some '/' := fun heq =>
    h.no_slash (List.mem_of_getLast? heq)
  by_cases hd : dir = ""
  · subst hd
    exact hlast
  · obtain ⟨cs, hjoin, -⟩ := toList_join hd name
    rwa [hjoin, List.getLast?_append, List.getLast?_cons_of_ne_nil (toList_ne_nil h.nonempty),
      Option.or_of_isSome (by simpa using toList_ne_nil h.nonempty)]

/-- A path that is too long means nothing. -/
theorem ofText_join_of_le (hp : ofText dir = .ok p) (hname : IsSimple name)
    (hlen : lengthLimit ≤ (join dir name).utf8ByteSize) :
    ofText (join dir name) = .error .nameTooLong := by
  obtain ⟨hnul, hd, -, -⟩ := ofText_eq_ok hp
  have hnul' := nul_not_mem_join hd hnul hname
  unfold ofText
  rw [if_neg (by simpa using hnul'), if_neg (join_ne_empty hd), if_pos hlen]

/-- A path that is not too long means the names of its directory, and its own after them. -/
theorem ofText_join (hp : ofText dir = .ok p) (hname : IsSimple name)
    (hlen : (join dir name).utf8ByteSize < lengthLimit) :
    ofText (join dir name) = .ok ⟨p.absolute, p.names ++ [name], false⟩ := by
  obtain ⟨hnul, hd, -, rfl⟩ := ofText_eq_ok hp
  have hnul' := nul_not_mem_join hd hnul hname
  have hlast : ((join dir name).toList.getLast? == some '/') = false := by
    simpa using getLast?_join dir hname
  unfold ofText
  rw [if_neg (by simpa using hnul'), if_neg (join_ne_empty hd), if_neg (by omega),
    head?_join hd, hlast, namesOf_join dir hname]

/-- Where a joined text means something, so does the directory. -/
theorem ofText_of_join {q : Path} (hd : dir ≠ "") (h : ofText (join dir name) = .ok q) :
    ∃ p, ofText dir = .ok p := by
  obtain ⟨hnul, -, hlen, -⟩ := ofText_eq_ok h
  obtain ⟨cs, hjoin, hcs⟩ := toList_join hd name
  have hnul' : '\x00' ∉ dir.toList := by
    rw [hjoin] at hnul
    rcases hcs with hcs | hcs <;> rw [hcs] <;> simp_all
  have hlen' := le_utf8ByteSize_join dir name
  unfold ofText
  rw [if_neg (by simpa using hnul'), if_neg hd, if_neg (by omega)]
  exact ⟨_, rfl⟩

/-- A name alone is a path as well. -/
theorem ofText_of_isSimple (h : IsSimple name) :
    ofText name = if name.utf8ByteSize < lengthLimit then .ok ⟨false, [name], false⟩
      else .error .nameTooLong := by
  have hhead : (name.toList.head? == some '/') = false := by
    simpa using fun heq => h.no_slash (List.mem_of_head? heq)
  have hlast : (name.toList.getLast? == some '/') = false := by
    simpa using fun heq => h.no_slash (List.mem_of_getLast? heq)
  have hnames : namesOf name.toList = [name] := namesOf_join "" h
  unfold ofText
  rw [if_neg (by simpa using h.no_nul), if_neg h.nonempty, hhead, hlast, hnames]
  by_cases hlen : name.utf8ByteSize < lengthLimit
  · rw [if_neg (Nat.not_le.mpr hlen), if_pos hlen]
  · rw [if_pos (Nat.not_lt.mp hlen), if_neg hlen]

/-- The path is that of `name` right inside of the directory. -/
structure IsChild (dir name path : String) : Prop extends IsSimple name where
  ne_dot : name ≠ "."
  ne_dots : name ≠ ".."
  text : path = join dir name
  names : namesOf path.toList = namesOf dir.toList ++ [name]
  absolute : path.toList.head? = some '/' ↔ dir.toList.head? = some '/'

theorem isChild_join (dir : String) (h : IsSimple name) (hdot : name ≠ ".") (hdots : name ≠ "..") :
    IsChild dir name (join dir name) := by
  refine ⟨h, hdot, hdots, rfl, namesOf_join dir h, ?_⟩
  by_cases hd : dir = ""
  · subst hd
    have hhead : name.toList.head? ≠ some '/' := fun heq => h.no_slash (List.mem_of_head? heq)
    simpa using hhead
  · rw [head?_join hd]

end Path

end SessionStore
