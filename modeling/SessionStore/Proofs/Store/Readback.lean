import SessionStore.Proofs.Disk.Detours
import SessionStore.Proofs.Store.Replacing

/-! # What is set is read back

Contents that have been moved to their place are read from there, links or not, if and only if the
way to where they were written does not lead through that place.
-/

namespace SessionStore

namespace Disk

variable {d e e' : Disk} {dir name other path : String} {l m t : Location}
  {now : SessionStore.Instant} {mode : Nat} {contents : Bytes}

/-- The path is that of the entry at `m`, which may be a link. -/
def EntryAt (d : Disk) (path : String) (m : Location) : Prop :=
  ∃ q, Path.ofText path = .ok q ∧ d.locate false q = .ok m

/-- The way to the path, links followed, leads neither through `m` nor there. -/
def Avoids (d : Disk) (path : String) (m : Location) : Prop :=
  ∃ t, t ≠ m ∧ (d.erase m).Reaches path t

/-- What happens at an end, where there is no link then either, is not noticed. -/
theorem alike_of_isEnd (hd : d.IsEnd t) (he : e.IsEnd t)
    (h : ∀ x, x ≠ t → (e.node? x).map Node.bare = (d.node? x).map Node.bare) : Alike d e m := by
  intro x
  by_cases hx : x = t
  · subst hx
    exact .inr ⟨hd, fun _ => he.not_link⟩
  · exact .inl (h x hx)

/-- What is written is where the path leads. -/
theorem Reaches.of_write (h : d.Reaches path t)
    (hwrite : d.write now mode path contents = .ok e) :
    d.IsEnd t ∧ (∃ mode', e.node? t = some (.file contents mode' now)) ∧
      ∀ x, x ≠ t → (e.node? x).map Node.bare = (d.node? x).map Node.bare := by
  obtain ⟨q, hq, hloc⟩ := h
  have ht : t ≠ [] := by
    rintro rfl
    obtain ⟨q', m, hq', hm, hdir⟩ := write_eq_ok hwrite
    cases hq.symm.trans hq'
    cases hloc.symm.trans hm
    exact hdir d.isDir_top
  have hdrop : t ≠ t.dropLast := by
    intro heq
    have hlength := congrArg List.length heq
    rw [List.length_dropLast] at hlength
    have hpos := List.length_pos_iff.mpr ht
    omega
  simp only [write, hq, hloc, bind, Except.bind] at hwrite
  rcases hn : d.node? t with _ | ⟨old, mode', modified⟩ | ⟨_, _⟩ | target <;>
    rw [hn] at hwrite <;> cases hwrite
  · refine ⟨.inl hn, ⟨mode, ?_⟩, fun x hx => ?_⟩
    · rw [node?_stamp_of_ne hdrop, node?_put ht, if_pos rfl]
    · rw [bare_node?_stamp, node?_put ht, if_neg hx]
  · refine ⟨.inr ⟨_, _, _, hn⟩, ⟨mode', ?_⟩, fun x hx => ?_⟩
    · rw [node?_put ht, if_pos rfl]
    · rw [node?_put ht, if_neg hx]

/-- What is moved is where it has been moved to, and no longer where it was. -/
theorem Houses.of_rename (h : d.Houses dir l) (hf : Fits dir name) (ho : Fits dir other)
    (hne : other ≠ name)
    (hrename : d.rename now (Path.join dir other) (Path.join dir name) = .ok e) :
    e.node? (l ++ [name]) = d.node? (l ++ [other]) ∧ e.node? (l ++ [other]) = none ∧
      Within l [other, name] d e := by
  have hmoved : ∃ n, d.node? (l ++ [other]) = some n ∧
      e = (((d.erase (l ++ [other])).put (l ++ [name]) n).stamp l now).stamp l now := by
    rw [rename_join_eq h hf now ho] at hrename
    rcases hn : d.node? (l ++ [other]) with _ | ⟨_, _, _⟩ | ⟨_, _⟩ | _ <;>
      rcases hm : d.node? (l ++ [name]) with _ | ⟨_, _, _⟩ | ⟨_, _⟩ | _ <;>
      rw [hn, hm] at hrename <;> cases hrename <;> exact ⟨_, rfl, rfl⟩
  obtain ⟨n, hn, rfl⟩ := hmoved
  refine ⟨?_, ?_, ?_⟩
  · rw [node?_stamp_of_ne (ne_child l name).symm, node?_stamp_of_ne (ne_child l name).symm,
      node?_put (child_ne_nil l name), if_pos rfl, hn]
  · rw [node?_stamp_of_ne (ne_child l other).symm, node?_stamp_of_ne (ne_child l other).symm,
      node?_put (child_ne_nil l name), if_neg (by simpa using hne),
      node?_erase (child_ne_nil l other), if_pos rfl]
  · exact ((((Within.refl l [other, name] d).erase (by simp)).put (by simp) n).stamp now).stamp now

/-- From `d` to `e` contents have been written at `t`, where the other name in the directory at `l`
leads, and what stood under that name, be it the file or a link to it, has been moved to the
name. -/
structure Moved (l : Location) (name other : String) (t : Location) (contents : Bytes)
    (d e : Disk) : Prop where
  isEnd : d.IsEnd t
  gone : e.node? (l ++ [other]) = none
  node? : ∀ x, x ≠ l ++ [name] → x ≠ l ++ [other] → x ≠ t →
    (e.node? x).map Node.bare = (d.node? x).map Node.bare
  moved : (t = l ++ [other] ∧
      ∃ mode now, e.node? (l ++ [name]) = some (.file contents mode now)) ∨
    t ≠ l ++ [other] ∧ ∃ target mode now, d.node? (l ++ [other]) = some (.link target) ∧
      e.node? (l ++ [name]) = some (.link target) ∧
      (t ≠ l ++ [name] → e.node? t = some (.file contents mode now))

namespace Moved

section Alike

variable (hm : Moved l name other t contents d e)
include hm

theorem isEnd_after (ht : t ≠ l ++ [name]) : e.IsEnd t := by
  rcases hm.moved with ⟨rfl, -⟩ | ⟨-, _, mode, now, -, -, hfile⟩
  · exact .inl hm.gone
  · exact .inr ⟨_, _, _, hfile ht⟩

theorem isReached_after (h : d.IsReached l) : e.IsReached l := by
  intro n
  have hshort : ∀ last, l.take n ≠ l ++ [last] := by
    intro last heq
    have hlength := congrArg List.length heq
    have hle := List.length_take_le' n l
    rw [heq, List.length_append, List.length_singleton] at hle
    omega
  have ht : l.take n ≠ t := fun heq => (h n).not_isEnd (heq ▸ hm.isEnd)
  exact isDir_of_bare (hm.node? _ (hshort name) (hshort other) ht) (h n)

theorem ne : l ++ [other] ≠ l ++ [name] := by
  intro heq
  have hgone := heq ▸ hm.gone
  rcases hm.moved with ⟨-, _, _, hplaced⟩ | ⟨-, _, _, _, -, hplaced, -⟩ <;>
    cases hgone.symm.trans hplaced

theorem not_isDir : ¬e.IsDir (l ++ [name]) := by
  rintro ⟨mode, modified, hdir⟩
  rcases hm.moved with ⟨-, _, _, hplaced⟩ | ⟨-, _, _, _, -, hplaced, -⟩ <;>
    cases hdir.symm.trans hplaced

/-- A walk that comes neither through what is moved nor through where it is moved does not notice
the move. -/
theorem alike (ht : t ≠ l ++ [name]) (hx : m ≠ l ++ [name]) (hx' : m ≠ l ++ [other]) :
    Alike ((d.erase (l ++ [name])).erase (l ++ [other])) e m := by
  have hl := child_ne_nil l name
  have hl' := child_ne_nil l other
  intro x
  by_cases hother : x = l ++ [other]
  · subst hother
    exact .inr ⟨isEnd_erase_self hl', fun heq => absurd heq.symm hx'⟩
  by_cases hname : x = l ++ [name]
  · subst hname
    exact .inr ⟨(isEnd_erase_self hl).erase hl', fun heq => absurd heq.symm hx⟩
  by_cases hxt : x = t
  · subst hxt
    exact .inr ⟨(hm.isEnd.erase hl).erase hl', fun _ => (hm.isEnd_after ht).not_link⟩
  · rw [node?_erase hl', if_neg hother, node?_erase hl, if_neg hname]
    exact .inl (hm.node? x hname hother hxt)

/-- Nor has such a walk noticed it afterwards. -/
theorem alike_back (hx : m ≠ l ++ [other]) :
    Alike (e.erase (l ++ [name])) (d.erase (l ++ [name])) m := by
  have hl := child_ne_nil l name
  intro x
  by_cases hname : x = l ++ [name]
  · subst hname
    exact .inl (by rw [node?_erase hl, node?_erase hl, if_pos rfl, if_pos rfl])
  by_cases hother : x = l ++ [other]
  · subst hother
    exact .inr ⟨IsEnd.erase (.inl hm.gone) hl, fun heq => absurd heq.symm hx⟩
  by_cases hxt : x = t
  · subst hxt
    exact .inr ⟨(hm.isEnd_after hname).erase hl, fun _ => (hm.isEnd.erase hl).not_link⟩
  · rw [node?_erase hl, node?_erase hl, if_neg hname, if_neg hname]
    exact .inl (hm.node? x hname hother hxt).symm

end Alike

section Walks

variable {names : List String} {n k : Nat} {u : Location}

/-- What is found under a name that is a link is where the link leads. -/
theorem exists_target {target : String} (hdir : d.IsDir l) (hway : d.walk true n [] names = .ok l)
    (ho : IsName other) (hlink : d.node? (l ++ [other]) = some (.link target))
    (ht : d.walk true n [] (names ++ [other]) = .ok t) :
    ∃ p j, Path.ofText target = .ok p ∧
      d.walk true j (if p.absolute then [] else l) p.steps = .ok t := by
  obtain ⟨k, hk⟩ := walk_continued hdir hway
  rw [hk d (fun _ => .inl rfl) true [other] (by simp), walk_link ho hlink] at ht
  obtain ⟨p, j, -, hp, htarget⟩ := ht
  exact ⟨p, j, hp, htarget⟩

variable (hm : Moved l name other t contents d e)
include hm

/-- The link that has been moved does not lead to a directory then, for it has not before. -/
theorem walk_ne_of_link {target : String} {p : Path} {rest : List String} {y : Location}
    (hreached : d.IsReached l) (hlink : e.node? (l ++ [name]) = some (.link target))
    (hp : Path.ofText target = .ok p)
    (htarget : d.walk true k (if p.absolute then [] else l) p.steps = .ok t) (hy : e.IsDir y) :
    e.walk true n (if p.absolute then [] else l) (p.steps ++ rest) ≠ .ok y := by
  have hstart : e.IsReached (if p.absolute then [] else l) := by
    split
    · exact isReached_top e
    · exact hm.isReached_after hreached
  induction n using Nat.strongRecOn generalizing rest y with
  | ind n ih =>
    intro h
    obtain ⟨y', hwalk, hy'⟩ : ∃ y',
        e.walk true n (if p.absolute then [] else l) p.steps = .ok y' ∧ e.IsDir y' := by
      by_cases hrest : rest = []
      · subst hrest
        rw [List.append_nil] at h
        exact ⟨y, h, hy⟩
      · exact walk_before hstart hrest h
    rcases walk_erase hlink hp hwalk with hwalk' | ⟨j, hj, rest', hrest⟩
    · have hname : y' ≠ l ++ [name] := fun heq => hy'.not_link target (heq ▸ hlink)
      have hother : y' ≠ l ++ [other] := fun heq => hy'.not_isEnd (.inl (heq ▸ hm.gone))
      have hbefore := walk_transfer (erase_alike (child_ne_nil l name) hname) (.inl rfl)
        (walk_transfer (hm.alike_back hother) (.inl rfl) hwalk')
      obtain rfl := walk_unique hbefore htarget
      exact hy'.not_isEnd (hm.isEnd_after hname)
    · exact ih j hj hy' hrest

variable (hdir : d.IsDir l) (hway : d.walk true n [] names = .ok l)
  (ht : d.walk true n [] (names ++ [other]) = .ok t) (ho : IsName other)
include hdir hway ht ho

/-- The way to the directory does not lead through the place to which something is moved if it leads
to a directory afterwards. -/
theorem way_after {l' : Location} (h : e.walk true n [] names = .ok l') (hdir' : e.IsDir l') :
    l' = l ∧ (e.erase (l ++ [name])).walk true n [] names = .ok l := by
  have hl := child_ne_nil l name
  have hreached : d.IsReached l :=
    (walk_ends (isReached_top d) hway).resolve_right hdir.not_isEnd
  have hlater : (e.erase (l ++ [name])).walk true n [] names = .ok l' := by
    rcases hm.moved with ⟨-, _, _, hplaced⟩ | ⟨-, target, _, _, hlink, hplaced, -⟩
    · exact walk_transfer (alike_erase hl (.inr ⟨_, _, _, hplaced⟩)) (.inl rfl) h
    · obtain ⟨p, j, hp, htarget⟩ := exists_target hdir hway ho hlink ht
      exact (walk_erase hplaced hp h).resolve_right fun ⟨_, _, _, hrest⟩ =>
        hm.walk_ne_of_link hreached hplaced hp htarget hdir' hrest
  have hname : l' ≠ l ++ [name] := fun heq => hm.not_isDir (heq ▸ hdir')
  have hother : l' ≠ l ++ [other] := fun heq => hdir'.not_isEnd (.inl (heq ▸ hm.gone))
  have hbefore := walk_transfer (hm.alike_back hother) (.inl rfl) hlater
  obtain rfl := walk_unique (walk_transfer (erase_alike hl hname) (.inl rfl) hbefore) hway
  exact ⟨rfl, hlater⟩

/-- What can be read after the move has been written on a way that does not lead through the place
to which it was moved. -/
theorem exists_walk_other (hn : IsName name) (h : e.walk true n [] (names ++ [name]) = .ok u)
    (hu : ∃ bs mode modified, e.node? u = some (.file bs mode modified)) :
    ∃ v, v ≠ l ++ [name] ∧ (d.erase (l ++ [name])).walk true n [] (names ++ [other]) = .ok v := by
  have hl := child_ne_nil l name
  have hreached : d.IsReached l :=
    (walk_ends (isReached_top d) hway).resolve_right hdir.not_isEnd
  obtain ⟨l', hl', hdir'⟩ := walk_before (isReached_top e) (by simp) h
  obtain ⟨rfl, hway'⟩ := hm.way_after hdir hway ht ho hl' hdir'
  -- From the directory both ways go on with the same number of links to follow.
  obtain ⟨k, hk⟩ := walk_continued (hdir'.erase hl (ne_child l' name)) hway'
  rw [hk e (erase_alike hl (ne_child l' name)) true [name] (by simp)] at h
  rw [hk _ (hm.alike_back (ne_child l' other)) true [other] (by simp)]
  rcases hm.moved with ⟨rfl, -⟩ | ⟨-, target, _, _, hlink, hplaced, -⟩
  · exact ⟨l' ++ [other], hm.ne, walk_last ho (fun _ => (hm.isEnd.erase hl).not_link) k⟩
  · obtain ⟨p, j, rfl, hp, hj⟩ := (walk_link hn hplaced).mp h
    have hend : e.IsEnd u := .inr hu
    have hname : u ≠ l' ++ [name] := fun heq => hend.not_link target (heq ▸ hplaced)
    have hother : u ≠ l' ++ [other] := by
      rintro rfl
      obtain ⟨_, _, _, hu⟩ := hu
      cases hm.gone.symm.trans hu
    have hj' := walk_transfer (hm.alike_back hother) (.inl rfl)
      (walk_erase_target hplaced hp (hm.isReached_after hreached) hend hj hj)
    refine ⟨u, hname, (walk_link ho ?_).mpr ⟨p, j, rfl, hp, hj'⟩⟩
    rw [node?_erase hl, if_neg hm.ne, hlink]

/-- What has been written on a way that does not lead through the place to which it was moved can be
read after the move. -/
theorem exists_walk_name (hn : IsName name)
    (h : (d.erase (l ++ [name])).walk true n [] (names ++ [other]) = .ok u) (hu : u ≠ l ++ [name]) :
    ∃ v mode now, e.walk true n [] (names ++ [name]) = .ok v ∧
      e.node? v = some (.file contents mode now) := by
  have hl := child_ne_nil l name
  obtain rfl := walk_unique (walk_transfer (erase_alike hl hu) (.inl rfl) h) ht
  obtain ⟨l', hl', hdir'⟩ := walk_before (isReached_top _) (by simp) h
  have hname : l' ≠ l ++ [name] := by
    rintro rfl
    exact hdir'.not_isEnd (isEnd_erase_self hl)
  obtain rfl := walk_unique (walk_transfer (erase_alike hl hname) (.inl rfl) hl') hway
  have hreached := (walk_ends (isReached_top _) hl').resolve_right hdir'.not_isEnd
  have hend := hm.isEnd.erase hl
  have hother : (d.erase (l' ++ [name])).node? (l' ++ [other]) = d.node? (l' ++ [other]) := by
    rw [node?_erase hl, if_neg hm.ne]
  -- The way to the directory does not lead through what is moved either.
  have hl₂ := child_ne_nil l' other
  have hway' :
      ((d.erase (l' ++ [name])).erase (l' ++ [other])).walk true n [] names = .ok l' := by
    rcases hm.moved with ⟨rfl, -⟩ | ⟨-, target, _, _, hlink, -⟩
    · exact walk_transfer (alike_erase hl₂ hend) (.inl rfl) hl'
    · obtain ⟨p, j, hp, htarget⟩ := exists_target hdir' hl' ho (hother.trans hlink) h
      exact walk_erase_isDir (hother.trans hlink) hp hreached hend htarget hdir' hl'
  -- From the directory both ways go on with the same number of links to follow.
  obtain ⟨k, hk⟩ := walk_continued (hdir'.erase hl₂ (ne_child l' other)) hway'
  rw [hk _ (erase_alike hl₂ (ne_child l' other)) true [other] (by simp)] at h
  rw [hk e (hm.alike hu (ne_child l' name) (ne_child l' other)) true [name] (by simp)]
  rcases hm.moved with ⟨-, mode, now, hplaced⟩ | ⟨hto, target, mode, now, hlink, hplaced, hfile⟩
  · have hfile : e.IsEnd (l' ++ [name]) := .inr ⟨_, _, _, hplaced⟩
    exact ⟨_, mode, now, walk_last hn (fun _ => hfile.not_link) k, hplaced⟩
  · obtain ⟨p, j, rfl, hp, hj⟩ := (walk_link ho (hother.trans hlink)).mp h
    have hj' := walk_transfer (hm.alike hu hu hto) (.inl rfl)
      (walk_erase_target (hother.trans hlink) hp hreached hend hj hj)
    exact ⟨u, mode, now, (walk_link hn hplaced).mpr ⟨p, j, rfl, hp, hj'⟩, hfile hu⟩

end Walks

end Moved

/-- One way leads to all paths with a name that fits, on any disk. -/
theorem Houses.exists_way (h : d.Houses dir l) : ∃ names,
    d.walk true linkLimit [] names = .ok l ∧ ∀ name, Fits dir name → ∀ e u,
      Reaches e (Path.join dir name) u ↔ e.walk true linkLimit [] (names ++ [name]) = .ok u := by
  obtain ⟨absolute, names, hway, htext⟩ := h.exists_walk
  refine ⟨names, hway, fun name hf e u => ?_⟩
  rw [Reaches, htext name hf.toIsSimple, if_pos hf.path_lt]
  simp [Disk.locate, Path.steps]

/-- To write what a path leads to leaves the directory where it is. -/
theorem Houses.of_write (h : d.Houses dir l) (hreach : d.Reaches path t)
    (hwrite : d.write now mode path contents = .ok e) : e.Houses dir l := by
  obtain ⟨hend, ⟨_, hfile⟩, hsame⟩ := hreach.of_write hwrite
  have hlt : l ≠ t := fun heq => h.isDir.not_isEnd (heq ▸ hend)
  exact h.of_alike (alike_of_isEnd hend (.inr ⟨_, _, _, hfile⟩) hsame)
    (isDir_of_bare (hsame l hlt) h.isDir)

/-- Contents that have been written and moved. -/
theorem Houses.moved {e' : Disk} {later : SessionStore.Instant} (h : d.Houses dir l)
    (hf : Fits dir name) (ho : Fits dir other) (hne : other ≠ name)
    (hreach : d.Reaches (Path.join dir other) t)
    (hwrite : d.write now mode (Path.join dir other) contents = .ok e)
    (hrename : e.rename later (Path.join dir other) (Path.join dir name) = .ok e') :
    Moved l name other t contents d e' := by
  obtain ⟨hend, ⟨mode', hfile⟩, hsame⟩ := hreach.of_write hwrite
  have hlt : l ≠ t := fun heq => h.isDir.not_isEnd (heq ▸ hend)
  have hhouses : e.Houses dir l := h.of_write hreach hwrite
  obtain ⟨hplaced, hgone, hwithin⟩ := hhouses.of_rename hf ho hne hrename
  refine ⟨hend, hgone, fun x hx hx' ht => ?_, ?_⟩
  · rw [← hsame x ht]
    by_cases hxl : x = l
    · subst hxl
      exact (isDir_iff.mp (hwithin.isDir hhouses.isDir)).trans (isDir_iff.mp hhouses.isDir).symm
    · rw [hwithin.node? x hxl (by simpa using ⟨hx', hx⟩)]
  · rw [hplaced]
    by_cases hlink : ∃ target, d.node? (l ++ [other]) = some (.link target)
    · obtain ⟨target, hlink⟩ := hlink
      have hto : t ≠ l ++ [other] := by
        rintro rfl
        exact hend.not_link target hlink
      refine .inr ⟨hto, target, mode', now, hlink, link_of_bare (hsame _ hto.symm) hlink,
        fun htn => ?_⟩
      rw [hwithin.node? t hlt.symm (by simpa using ⟨hto, htn⟩), hfile]
    · obtain ⟨q, hq, -, hloc⟩ := h.locate ho true fun _ target hn => hlink ⟨target, hn⟩
      obtain rfl := hreach.unique ⟨q, hq, hloc⟩
      exact .inl ⟨rfl, mode', now, hfile⟩

/-- What is written and moved is read at the place to which it has been moved if and only if the way
to where it was written does not lead through that place. -/
theorem read_of_rename_iff {later : SessionStore.Instant} (hopen : Path.IsOpen dir)
    (hslash : '/' ∉ name.toList)
    (hwrite : d.write now mode (Path.join dir (name ++ ".tmp")) contents = .ok e)
    (hrename : e.rename later (Path.join dir (name ++ ".tmp")) (Path.join dir name) = .ok e') :
    e'.read (Path.join dir name) = .ok contents ↔ ∀ m, d.EntryAt (Path.join dir name) m →
      d.Avoids (Path.join dir (name ++ ".tmp")) m := by
  obtain ⟨r, t, hr, hloc, -⟩ := write_eq_ok hwrite
  obtain ⟨ho, l, h⟩ := FileStore.exists_fits_temporary hslash hr hloc
  have hreach : d.Reaches (Path.join dir (name ++ ".tmp")) t := ⟨r, hr, hloc⟩
  obtain ⟨hf, -⟩ := FileStore.fits_of_rename (h.of_write hreach hwrite) hopen hslash hrename
  have hm := h.moved hf ho (FileStore.temporary_ne_self name) hreach hwrite hrename
  obtain ⟨q, hq, -, hentry⟩ := h.locate hf false (by simp)
  have hwhere : (∀ m, d.EntryAt (Path.join dir name) m →
      d.Avoids (Path.join dir (name ++ ".tmp")) m) ↔
        d.Avoids (Path.join dir (name ++ ".tmp")) (l ++ [name]) := by
    refine ⟨fun hall => hall _ ⟨q, hq, hentry⟩, ?_⟩
    rintro havoids m ⟨q', hq', hm'⟩
    cases hq.symm.trans hq'
    cases hentry.symm.trans hm'
    exact havoids
  obtain ⟨names, hway, hpaths⟩ := h.exists_way
  have ht := (hpaths _ ho d t).mp hreach
  rw [hwhere, read_eq_ok_iff]
  simp only [Avoids, hpaths _ hf, hpaths _ ho]
  constructor
  · rintro ⟨u, mode, modified, hu, hfile⟩
    exact hm.exists_walk_other h.isDir hway ht ho.toIsName hf.toIsName hu ⟨_, _, _, hfile⟩
  · rintro ⟨u, hne, hu⟩
    obtain ⟨v, mode, modified, hv, hfile⟩ :=
      hm.exists_walk_name h.isDir hway ht ho.toIsName hf.toIsName hu hne
    exact ⟨v, mode, modified, hv, hfile⟩

end Disk

namespace FileStore

/-- The way to where the contents of an id are written does not lead through the id's own entry. -/
def IsClear (f : FileStore) (d : Disk) (id : String) : Prop :=
  ∀ m, d.EntryAt (f.pathFor id) m → d.Avoids (temporary (f.pathFor id)) m

variable {f : FileStore} {d : Disk} {id : String} {now : Instant} {contents : Bytes}

theorem get_eq_ok_iff : (f.perform now d (.get id)).result = .ok contents ↔
    d.read (f.pathFor id) = .ok contents := by
  unfold perform
  dsimp only
  rcases d.read (f.pathFor id) with why | bs <;> constructor <;> intro hread <;> cases hread <;>
    rfl

/-- What has been set is read back at any time if and only if the way to where it was written did
not lead through its own place. -/
theorem get_of_set_iff (h : (f.perform now d (.set id contents)).result = .ok ())
    (later : Instant) :
    (f.perform later (f.perform now d (.set id contents)).store (.get id)).result = .ok contents ↔
      f.IsClear d id := by
  obtain ⟨hresult, hstore⟩ := perform_set_eq f now d id contents
  rw [hresult] at h
  rw [hstore, get_eq_ok_iff, IsClear]
  obtain ⟨dir, name, hpath, hopen, hslash⟩ := Path.exists_join (f.pathFor id)
  rw [hpath, replace, temporary_join] at h
  rw [hpath, replace, temporary_join]
  rcases hwrite : d.write now 0o600 (Path.join dir (name ++ ".tmp")) contents with why | e
  · rw [hwrite] at h
    cases (discard_result now d _ why).symm.trans h
  · rw [hwrite] at h
    simp only at h ⊢
    rcases hrename : e.rename now (Path.join dir (name ++ ".tmp")) (Path.join dir name) with
      why | e'
    · rw [hrename] at h
      cases (discard_result now e _ why).symm.trans h
    · exact Disk.read_of_rename_iff hopen hslash hwrite hrename

/-- Without links no way leads through the place of an id that can be set. -/
theorem isClear_of_noLinks (hd : d.NoLinks)
    (h : (f.perform now d (.set id contents)).result = .ok ()) : f.IsClear d id := by
  obtain ⟨hresult, hstore⟩ := perform_set_eq f now d id contents
  refine (get_of_set_iff h now).mp ?_
  rw [hstore, get_eq_ok_iff]
  rcases replace_isWhole hd now (f.pathFor id) contents with ⟨-, hdone⟩ | ⟨⟨why, hfails, -⟩, -⟩
  · obtain ⟨mode, hstat⟩ := hdone.file
    simp only [Disk.read, hstat, bind, Except.bind]
    rfl
  · cases (hresult.symm.trans h).symm.trans hfails

end FileStore

end SessionStore
