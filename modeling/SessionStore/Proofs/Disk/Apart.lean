import SessionStore.Proofs.Disk.Directory

/-! # Disks that differ in one directory

Two disks may differ in what they hold under some names of one directory, as long as a walk ends
there on both. A call on any other name does the same on both disks, and a call on such a name leads
to a disk that differs from the one before in this way only.
-/

namespace SessionStore.Disk

variable {d d' e : Disk} {dir name : String} {l m : Location} {P Q : String → Prop}

/-- A name that is looked up in its directory as it is. -/
def IsProper (name : String) : Prop := Path.IsSimple name ∧ IsName name

theorem Fits.isProper (h : Fits dir name) : IsProper name := ⟨h.toIsSimple, h.toIsName⟩

/-- The disks are the same but for what is in the directory at `l` under names of `P`, which is a
file or nothing on both, and for the time of the directory's last change. -/
structure SameBut (l : Location) (P : String → Prop) (d e : Disk) : Prop where
  node? : ∀ m, m ≠ l → e.node? m = d.node? m ∨
    ∃ name, P name ∧ m = l ++ [name] ∧ d.IsEnd m ∧ e.IsEnd m
  left : d.IsDir l
  right : e.IsDir l

namespace SameBut

theorem refl (P : String → Prop) (h : d.IsDir l) : SameBut l P d d := ⟨fun _ _ => .inl rfl, h, h⟩

theorem symm (h : SameBut l P d e) : SameBut l P e d where
  node? m hm := by
    rcases h.node? m hm with hsame | ⟨name, hP, hname, hd, he⟩
    · exact .inl hsame.symm
    · exact .inr ⟨name, hP, hname, he, hd⟩
  left := h.right
  right := h.left

theorem isEnd (h : SameBut l P d e) (hm : m ≠ l) : e.IsEnd m ↔ d.IsEnd m := by
  rcases h.node? m hm with hsame | ⟨-, -, -, hd, he⟩
  · rw [IsEnd, IsEnd, hsame]
  · exact iff_of_true he hd

theorem trans (h : SameBut l P d e) (h' : SameBut l P e d') : SameBut l P d d' where
  node? m hm := by
    rcases h'.node? m hm with hsame' | ⟨name, hP, hname, he, hd'⟩
    · rcases h.node? m hm with hsame | ⟨name, hP, hname, hd, he⟩
      · exact .inl (hsame'.trans hsame)
      · refine .inr ⟨name, hP, hname, hd, ?_⟩
        rw [IsEnd, hsame']
        exact he
    · exact .inr ⟨name, hP, hname, (h.isEnd hm).mp he, hd'⟩
  left := h.left
  right := h'.right

theorem mono (h : SameBut l P d e) (hPQ : ∀ name, P name → Q name) : SameBut l Q d e where
  node? m hm := (h.node? m hm).imp_right fun ⟨name, hP, hrest⟩ => ⟨name, hPQ name hP, hrest⟩
  left := h.left
  right := h.right

theorem node?_child (h : SameBut l P d e) (hP : P name → ¬d.IsEnd (l ++ [name])) :
    e.node? (l ++ [name]) = d.node? (l ++ [name]) := by
  rcases h.node? _ (ne_child l name).symm with hsame | ⟨other, hother, heq, hend, -⟩
  · exact hsame
  · obtain rfl : name = other := by simpa using heq
    exact absurd hend (hP hother)

/-- The way to the directory is the same on both disks. -/
theorem houses (h : SameBut l P d e) (hd : d.Houses dir l) : e.Houses dir l := by
  refine hd.of_alike ?_ h.right
  intro m
  by_cases hm : m = l
  · subst hm
    exact .inl ((isDir_iff.mp h.right).trans (isDir_iff.mp h.left).symm)
  · rcases h.node? m hm with hsame | ⟨-, -, -, hend, -⟩
    · exact .inl (congrArg _ hsame)
    · exact .inr ⟨hend, fun heq => absurd heq hm⟩

/-! ## Changes to both disks -/

theorem stamp_right (h : SameBut l P d e) (now : SessionStore.Instant) :
    SameBut l P d (e.stamp l now) where
  node? m hm := by
    rw [IsEnd, IsEnd, node?_stamp_of_ne hm]
    exact h.node? m hm
  left := h.left
  right := isDir_stamp.mpr h.right

theorem stamp (h : SameBut l P d e) (now : SessionStore.Instant) :
    SameBut l P (d.stamp l now) (e.stamp l now) := (h.stamp_right now).symm.stamp_right now |>.symm

theorem put (h : SameBut l P d e) (name : String) (n : Node) :
    SameBut l P (d.put (l ++ [name]) n) (e.put (l ++ [name]) n) where
  node? m hm := by
    rw [IsEnd, IsEnd, node?_put (child_ne_nil l name), node?_put (child_ne_nil l name)]
    split
    · exact .inl rfl
    · exact h.node? m hm
  left := ((Within.refl l [name] d).put (by simp) n).isDir h.left
  right := ((Within.refl l [name] e).put (by simp) n).isDir h.right

theorem erase (h : SameBut l P d e) (name : String) :
    SameBut l P (d.erase (l ++ [name])) (e.erase (l ++ [name])) where
  node? m hm := by
    rw [IsEnd, IsEnd, node?_erase (child_ne_nil l name), node?_erase (child_ne_nil l name)]
    split
    · exact .inl rfl
    · exact h.node? m hm
  left := ((Within.refl l [name] d).erase (by simp)).isDir h.left
  right := ((Within.refl l [name] e).erase (by simp)).isDir h.right

/-! ## Changes to one of them -/

/-- Changes within ends that stay ends. -/
theorem of_within {names : List String} (hw : Within l names d e) (hd : d.IsDir l)
    (hP : ∀ name ∈ names, P name)
    (hends : ∀ name ∈ names, d.IsEnd (l ++ [name]) ∧ e.IsEnd (l ++ [name])) :
    SameBut l P d e where
  node? m hm := by
    by_cases hn : ∃ name ∈ names, m = l ++ [name]
    · obtain ⟨name, hname, rfl⟩ := hn
      exact .inr ⟨name, hP name hname, rfl, hends name hname⟩
    · exact .inl (hw.node? m hm fun name hname heq => hn ⟨name, hname, heq⟩)
  left := hd
  right := hw.isDir hd

theorem put_right (h : SameBut l P d e) (hP : P name) (he : e.IsEnd (l ++ [name]))
    (contents : Bytes) (mode : Nat) (modified : SessionStore.Instant) :
    SameBut l P d (e.put (l ++ [name]) (.file contents mode modified)) := by
  refine h.trans (of_within ((Within.refl l [name] e).put (by simp) _) h.right (by simpa using hP)
    ?_)
  simp only [List.mem_singleton, forall_eq]
  refine ⟨he, .inr ⟨contents, mode, modified, ?_⟩⟩
  rw [node?_put (child_ne_nil l name), if_pos rfl]

theorem erase_right (h : SameBut l P d e) (hP : P name) (he : e.IsEnd (l ++ [name])) :
    SameBut l P d (e.erase (l ++ [name])) := by
  refine h.trans (of_within ((Within.refl l [name] e).erase (by simp)) h.right (by simpa using hP)
    ?_)
  simp only [List.mem_singleton, forall_eq]
  refine ⟨he, .inl ?_⟩
  rw [node?_erase (child_ne_nil l name), if_pos rfl]

end SameBut

/-! ## Listing -/

theorem pairwise_namesIn (d : Disk) (l : Location) :
    (d.namesIn l).Pairwise fun a b => compare (l ++ [a]) (l ++ [b]) = .lt := by
  have hkeys : d.nodes.keys.Pairwise fun a b => compare a b = .lt := Std.ExtTreeMap.ordered_keys
  refine List.pairwise_filterMap.mpr (hkeys.imp ?_)
  intro k k' hlt name hk name' hk'
  have hk : childOf? l k = some name := hk
  have hk' : childOf? l k' = some name' := hk'
  rw [childOf?_eq_some] at hk hk'
  rwa [← hk, ← hk']

/-- Apart from the names that may differ, both disks list the same in the same order. -/
theorem SameBut.filter_namesIn (h : SameBut l P d e) {p : String → Bool}
    (hp : ∀ name, p name = true → P name → ¬d.IsEnd (l ++ [name])) :
    (e.namesIn l).filter p = (d.namesIn l).filter p := by
  refine List.Perm.eq_of_pairwise ?_ ((pairwise_namesIn e l).filter _)
    ((pairwise_namesIn d l).filter _) ?_
  · intro a b _ _ hlt hgt
    exact absurd hgt (Std.OrientedCmp.not_lt_of_lt hlt)
  · rw [List.perm_ext_iff_of_nodup ((nodup_namesIn e l).filter _) ((nodup_namesIn d l).filter _)]
    intro name
    rw [List.mem_filter, List.mem_filter, mem_namesIn, mem_namesIn]
    apply and_congr_left
    intro hname
    rw [h.node?_child (hp name hname)]

/-! ## Calls on the other names -/

/-- Both failed alike, or both succeeded with what is related. -/
inductive Agree {ε α : Type} (R : α → α → Prop) : Except ε α → Except ε α → Prop
  | error (why : ε) : Agree R (.error why) (.error why)
  | ok {x y : α} : R x y → Agree R (.ok x) (.ok y)

theorem Agree.cases {ε α : Type} {R : α → α → Prop} {x y : Except ε α} (h : Agree R x y) :
    (∃ why, x = .error why ∧ y = .error why) ∨ ∃ a b, x = .ok a ∧ y = .ok b ∧ R a b := by
  rcases h with why | hab
  · exact .inl ⟨why, rfl, rfl⟩
  · exact .inr ⟨_, _, rfl, rfl, hab⟩

section Other

variable (hd : d.Houses dir l) (h : SameBut l P d e) (hname : IsProper name)
  (hsame : e.node? (l ++ [name]) = d.node? (l ++ [name]))
  (hlink : ∀ target, d.node? (l ++ [name]) ≠ some (.link target)) (now : SessionStore.Instant)
include hd h hname hsame

theorem remove_agree :
    Agree (SameBut l P) (d.remove now (Path.join dir name))
      (e.remove now (Path.join dir name)) := by
  rcases hd.fits_or_long hname.1 hname.2 with hf | hlong
  · rw [remove_join hd hf, remove_join (h.houses hd) hf, hsame]
    rcases d.node? (l ++ [name]) with _ | ⟨_, _, _⟩ | ⟨_, _⟩ | _
    · exact .error _
    · exact .ok ((h.erase name).stamp now)
    · exact .error _
    · exact .ok ((h.erase name).stamp now)
  · simp only [remove, hlong, bind, Except.bind]
    exact .error _

theorem rename_agree {other : String} (hother : IsProper other)
    (hsame' : e.node? (l ++ [other]) = d.node? (l ++ [other])) :
    Agree (SameBut l P) (d.rename now (Path.join dir other) (Path.join dir name))
      (e.rename now (Path.join dir other) (Path.join dir name)) := by
  have hmoved : ∀ n, @Agree IoFault Disk (SameBut l P)
      (.ok ((((d.erase (l ++ [other])).put (l ++ [name]) n).stamp l now).stamp l now))
      (.ok ((((e.erase (l ++ [other])).put (l ++ [name]) n).stamp l now).stamp l now)) :=
    fun n => .ok ((((h.erase other).put name n).stamp now).stamp now)
  rcases hd.fits_or_long hother.1 hother.2 with ho | hlong
  · rcases hd.fits_or_long hname.1 hname.2 with hf | hlong
    · rw [rename_join_eq hd hf now ho, rename_join_eq (h.houses hd) hf now ho, hsame, hsame']
      rcases d.node? (l ++ [other]) with _ | n | _ | n
      · exact .error _
      · rcases d.node? (l ++ [name]) with _ | _ | _ | _
        · exact hmoved _
        · exact hmoved _
        · exact .error _
        · exact hmoved _
      · exact .error _
      · rcases d.node? (l ++ [name]) with _ | _ | _ | _
        · exact hmoved _
        · exact hmoved _
        · exact .error _
        · exact hmoved _
    · obtain ⟨q, hq, -, -⟩ := hd.locate ho false fun hfalse => by cases hfalse
      simp only [rename, hq, hlong, bind, Except.bind]
      exact .error _
  · simp only [rename, hlong, bind, Except.bind]
    exact .error _

include hlink

theorem stat_agree : e.stat (Path.join dir name) = d.stat (Path.join dir name) := by
  rcases hd.fits_or_long hname.1 hname.2 with hf | hlong
  · rw [stat_join hd hf hlink, stat_join (h.houses hd) hf (hsame ▸ hlink), hsame]
  · simp [stat, hlong, bind, Except.bind]

theorem read_agree : e.read (Path.join dir name) = d.read (Path.join dir name) := by
  rw [read, read, stat_agree hd h hname hsame hlink]

theorem write_agree (mode : Nat) (contents : Bytes) :
    Agree (SameBut l P) (d.write now mode (Path.join dir name) contents)
      (e.write now mode (Path.join dir name) contents) := by
  rcases hd.fits_or_long hname.1 hname.2 with hf | hlong
  · rw [write_join_eq hd hf now hlink, write_join_eq (h.houses hd) hf now (hsame ▸ hlink), hsame]
    rcases d.node? (l ++ [name]) with _ | ⟨_, _, _⟩ | ⟨_, _⟩ | _
    · exact .ok ((h.put name _).stamp now)
    · exact .ok (h.put name _)
    · exact .error _
    · exact .error _
  · simp only [write, hlong, bind, Except.bind]
    exact .error _

theorem setModified_agree :
    Agree (SameBut l P) (d.setModified (Path.join dir name) now)
      (e.setModified (Path.join dir name) now) := by
  rcases hd.fits_or_long hname.1 hname.2 with hf | hlong
  · rw [setModified_join hd hf now hlink, setModified_join (h.houses hd) hf now (hsame ▸ hlink),
      hsame]
    rcases d.node? (l ++ [name]) with _ | ⟨_, _, _⟩ | ⟨_, _⟩ | _
    · exact .error _
    · exact .ok (h.put name _)
    · exact .error _
    · exact .error _
  · simp only [setModified, hlong, bind, Except.bind]
    exact .error _

end Other

/-! ## Calls on the names that differ -/

section Own

variable (hd : d.Houses dir l) (hname : IsProper name)
  (hP : Fits dir name → P name)
  (hlink : ∀ target, d.node? (l ++ [name]) ≠ some (.link target)) {now : SessionStore.Instant}
include hd hname hP hlink

theorem write_sameBut {mode : Nat} {contents : Bytes}
    (hok : d.write now mode (Path.join dir name) contents = .ok e) : SameBut l P d e := by
  rcases hd.fits_or_long hname.1 hname.2 with hf | hlong
  · rw [write_join_eq hd hf now hlink] at hok
    rcases hn : d.node? (l ++ [name]) with _ | ⟨_, _, _⟩ | ⟨_, _⟩ | _ <;> rw [hn] at hok <;>
      cases hok
    · exact ((SameBut.refl P hd.isDir).put_right (hP hf) (.inl hn) _ _ _).stamp_right now
    · exact (SameBut.refl P hd.isDir).put_right (hP hf) (.inr ⟨_, _, _, hn⟩) _ _ _
  · simp [write, hlong, bind, Except.bind] at hok

theorem remove_sameBut (hok : d.remove now (Path.join dir name) = .ok e) : SameBut l P d e := by
  rcases hd.fits_or_long hname.1 hname.2 with hf | hlong
  · rw [remove_join hd hf] at hok
    rcases hn : d.node? (l ++ [name]) with _ | ⟨_, _, _⟩ | ⟨_, _⟩ | target <;> rw [hn] at hok <;>
      cases hok
    · exact ((SameBut.refl P hd.isDir).erase_right (hP hf) (.inr ⟨_, _, _, hn⟩)).stamp_right now
    · exact absurd hn (hlink target)
  · simp [remove, hlong, bind, Except.bind] at hok

theorem setModified_sameBut (hok : d.setModified (Path.join dir name) now = .ok e) :
    SameBut l P d e := by
  rcases hd.fits_or_long hname.1 hname.2 with hf | hlong
  · rw [setModified_join hd hf now hlink] at hok
    rcases hn : d.node? (l ++ [name]) with _ | ⟨_, _, _⟩ | ⟨_, _⟩ | _ <;> rw [hn] at hok <;>
      cases hok
    exact (SameBut.refl P hd.isDir).put_right (hP hf) (.inr ⟨_, _, _, hn⟩) _ _ _
  · simp [setModified, hlong, bind, Except.bind] at hok

theorem rename_sameBut {other : String} (hother : IsProper other)
    (hP' : Fits dir other → P other)
    (hlink' : ∀ target, d.node? (l ++ [other]) ≠ some (.link target))
    (hok : d.rename now (Path.join dir other) (Path.join dir name) = .ok e) : SameBut l P d e := by
  rcases hd.fits_or_long hother.1 hother.2 with ho | hlong
  · rcases hd.fits_or_long hname.1 hname.2 with hf | hlong
    · rw [rename_join_eq hd hf now ho] at hok
      rcases hn : d.node? (l ++ [other]) with _ | ⟨contents, mode, modified⟩ | _ | target
      · rw [hn] at hok
        cases hok
      · have hplaced : d.IsEnd (l ++ [name]) ∧ e = (((d.erase (l ++ [other])).put (l ++ [name])
            (.file contents mode modified)).stamp l now).stamp l now := by
          rw [hn] at hok
          rcases hm : d.node? (l ++ [name]) with _ | _ | _ | target <;> rw [hm] at hok <;> cases hok
          · exact ⟨.inl hm, rfl⟩
          · exact ⟨.inr ⟨_, _, _, hm⟩, rfl⟩
          · exact absurd hm (hlink target)
        obtain ⟨hend, rfl⟩ := hplaced
        have herased := (SameBut.refl P hd.isDir).erase_right (hP' ho) (.inr ⟨_, _, _, hn⟩)
        have hend' := (herased.isEnd (ne_child l name).symm).mpr hend
        exact ((herased.put_right (hP hf) hend' contents mode modified).stamp_right now).stamp_right
          now
      · rw [hn] at hok
        cases hok
      · exact absurd hn (hlink' target)
    · obtain ⟨q, hq, -, -⟩ := hd.locate ho false fun hfalse => by cases hfalse
      simp [rename, hq, hlong, bind, Except.bind] at hok
  · simp [rename, hlong, bind, Except.bind] at hok

end Own

end SessionStore.Disk
