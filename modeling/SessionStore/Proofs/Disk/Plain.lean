import SessionStore.Proofs.Disk.Directory

/-! # Trees without links

Where no link is met, a path leads where its names say, whatever else is on the disk. Calls on names
in one directory therefore leave everything else alone, and a directory that is made takes no
other's place.
-/

namespace SessionStore

namespace Path

/-- A name that a file or a directory can have. -/
structure IsOrdinary (name : String) : Prop extends IsSimple name where
  ne_dot : name ≠ "."
  ne_dots : name ≠ ".."

variable {name : String} {p : Path}

theorem mem_pieces {separator c : Char} {piece cs : List Char}
    (hp : piece ∈ Text.pieces separator cs) (hc : c ∈ piece) : c ∈ cs ∧ c ≠ separator := by
  induction cs generalizing piece with
  | nil =>
    obtain rfl := List.mem_singleton.mp hp
    cases hc
  | cons x cs ih =>
    rw [Text.pieces] at hp
    split at hp
    · rcases List.mem_cons.mp hp with rfl | hp
      · cases hc
      · exact (ih hp hc).imp_left (List.mem_cons_of_mem _)
    · next hx =>
      split at hp
      · obtain rfl := List.mem_singleton.mp hp
        obtain rfl := List.mem_singleton.mp hc
        exact ⟨List.mem_cons_self, hx⟩
      · next first rest heq =>
        rcases List.mem_cons.mp hp with rfl | hp
        · rcases List.mem_cons.mp hc with rfl | hc
          · exact ⟨List.mem_cons_self, hx⟩
          · exact (ih (by rw [heq]; exact List.mem_cons_self) hc).imp_left (List.mem_cons_of_mem _)
        · exact (ih (by rw [heq]; exact List.mem_cons_of_mem _ hp) hc).imp_left
            (List.mem_cons_of_mem _)

/-- The names of a path can be those of files, dots apart. -/
theorem isSimple_of_mem_names {dir : String} (hp : ofText dir = .ok p) (hn : name ∈ p.names) :
    IsSimple name := by
  obtain ⟨hnul, -, -, rfl⟩ := ofText_eq_ok hp
  simp only [namesOf, List.mem_map, List.mem_filter] at hn
  obtain ⟨piece, ⟨hpiece, hne⟩, rfl⟩ := hn
  refine ⟨?_, ?_, ?_⟩
  · intro h
    rw [String.ofList_eq_empty_iff.mp h] at hne
    cases hne
  · rw [String.toList_ofList]
    exact fun h => (mem_pieces hpiece h).2 rfl
  · rw [String.toList_ofList]
    exact fun h => hnul (mem_pieces hpiece h).1

end Path

/-- Where names lead from a location as long as no link is met. -/
def Location.descend : Location → List String → Location
  | here, [] => here
  | here, name :: names =>
    if name = "." then descend here names
    else if name = ".." then descend here.dropLast names
    else descend (here ++ [name]) names

namespace Location

variable {here : Location} {name : String} {xs ys : List String}

theorem descend_append (here : Location) (xs ys : List String) :
    descend here (xs ++ ys) = descend (descend here xs) ys := by
  induction xs generalizing here with
  | nil => rfl
  | cons name xs ih =>
    rw [List.cons_append, descend, descend]
    split
    · exact ih here
    · split
      · exact ih here.dropLast
      · exact ih (here ++ [name])

theorem descend_ordinary (hn : Path.IsOrdinary name) (here : Location) (xs : List String) :
    descend here (xs ++ [name]) = descend here xs ++ [name] := by
  rw [descend_append, descend, if_neg hn.ne_dot, if_neg hn.ne_dots, descend]

theorem mem_descend (h : name ∈ descend here xs) :
    name ∈ here ∨ name ∈ xs ∧ name ≠ "." ∧ name ≠ ".." := by
  induction xs generalizing here with
  | nil => exact .inl h
  | cons x xs ih =>
    rw [descend] at h
    split at h
    · exact (ih h).imp_right fun h => ⟨List.mem_cons_of_mem _ h.1, h.2⟩
    · split at h
      · exact (ih h).imp (List.dropLast_subset _ ·) fun h => ⟨List.mem_cons_of_mem _ h.1, h.2⟩
      · next hdot hdots =>
        rcases ih h with h | h
        · rcases List.mem_append.mp h with h | h
          · exact .inl h
          · obtain rfl := List.mem_singleton.mp h
            exact .inr ⟨List.mem_cons_self, hdot, hdots⟩
        · exact .inr ⟨List.mem_cons_of_mem _ h.1, h.2⟩

end Location

namespace Disk

variable {d e : Disk} {dir name : String} {l m : Location} {P : Location → Prop}
  {now : SessionStore.Instant} {mode : Nat}

def IsFile (d : Disk) (l : Location) : Prop :=
  ∃ contents mode modified, d.node? l = some (.file contents mode modified)

/-- The disk is without links, and everything on it has a name that it can have. -/
structure IsPlain (d : Disk) : Prop where
  named : ∀ l name, d.node? (l ++ [name]) ≠ none → Path.IsOrdinary name
  no_link : ∀ l target, d.node? l ≠ some (.link target)

/-! ## Where paths lead -/

theorem walkWith_descend {follow : Bool} {here : Location} {names : List String}
    {J : Location → List String → Except IoFault Location} (hd : d.IsPlain)
    (h : d.walkWith follow J here names = .ok m) : m = here.descend names := by
  induction names generalizing here with
  | nil => simpa [Location.descend] using h.symm
  | cons name names ih =>
    rcases name_cases name with rfl | rfl | hlong | hn
    · rw [walkWith_dot] at h
      exact ih h
    · rw [walkWith_dots] at h
      exact ih h
    · rw [walkWith_long hlong] at h
      cases h
    · rw [Location.descend, if_neg hn.ne_dot, if_neg hn.ne_dots]
      rcases d.node_cases (here ++ [name]) with hdir | hend | ⟨target, hlink⟩
      · rw [walkWith_isDir hn hdir] at h
        exact ih h
      · obtain ⟨rfl, rfl⟩ := walkWith_isEnd hn hend h
        rfl
      · exact absurd hlink (hd.no_link _ _)

theorem walk_descend {follow : Bool} {n : Nat} {here : Location} {names : List String}
    (hd : d.IsPlain) (h : d.walk follow n here names = .ok m) : m = here.descend names := by
  cases n <;> exact walkWith_descend hd h

/-- A path leads where its names say. -/
theorem locate_descend {follow : Bool} {p : Path} (hd : d.IsPlain)
    (h : d.locate follow p = .ok m) : m = Location.descend [] p.names := by
  rw [walk_descend hd h, Path.steps, Location.descend_append]
  split <;> rfl

/-- The location that a directory's path means. -/
def homeOf (dir : String) : Location := Location.descend [] (Path.namesOf dir.toList)

/-- The path of a name in a directory leads to that name in the directory's own location. -/
theorem locate_join {follow : Bool} {q : Path} (hd : d.IsPlain) (hn : Path.IsOrdinary name)
    (hq : Path.ofText (Path.join dir name) = .ok q) (h : d.locate follow q = .ok m) :
    m = homeOf dir ++ [name] := by
  obtain ⟨-, -, -, rfl⟩ := Path.ofText_eq_ok hq
  rw [locate_descend hd h, Path.namesOf_join dir hn.toIsSimple, Location.descend_ordinary hn]
  rfl

/-- Wherever the directory is, it is where its path says. -/
theorem LeadsTo.eq_homeOf (hd : d.IsPlain) (h : d.LeadsTo dir l) : l = homeOf dir := by
  obtain ⟨p, hp, hwalk⟩ := h.walk
  obtain ⟨-, -, -, rfl⟩ := Path.ofText_eq_ok hp
  exact walk_descend hd hwalk

/-! ## Changes at some locations -/

/-- From `d` to `e` nothing changes but what is at locations of `P`, directories that are new, and
the times of directories. No directory goes away. -/
structure Spares (P : Location → Prop) (d e : Disk) : Prop where
  node? : ∀ m, ¬P m → e.node? m = d.node? m ∨ ¬d.IsFile m ∧ e.IsDir m
  isDir : ∀ m, d.IsDir m → e.IsDir m
  plain : d.IsPlain → e.IsPlain

theorem IsDir.not_isFile (h : d.IsDir l) : ¬d.IsFile l := fun hf => h.not_isEnd (.inr hf)

theorem IsDir.of_node? (h : d.IsDir l) (heq : e.node? l = d.node? l) : e.IsDir l := by
  rw [IsDir, heq]
  exact h

theorem ne_nil_of_not_isDir (h : ¬d.IsDir l) : l ≠ [] := by
  rintro rfl
  exact h d.isDir_top

theorem node?_stamp (d : Disk) (l : Location) (now : SessionStore.Instant) (m : Location) :
    (d.stamp l now).node? m = d.node? m ∨ d.IsDir m ∧ (d.stamp l now).IsDir m := by
  by_cases hm : m = l
  · subst hm
    by_cases hdir : d.IsDir m
    · exact .inr ⟨hdir, isDir_stamp.mpr hdir⟩
    · left
      have hnode : d.nodes[m]? = d.node? m := (if_neg (ne_nil_of_not_isDir hdir)).symm
      unfold stamp
      split
      · next hsome => exact absurd ⟨_, _, hnode ▸ hsome⟩ hdir
      · rfl
  · exact .inl (node?_stamp_of_ne hm)

namespace Spares

theorem refl (P : Location → Prop) (d : Disk) : Spares P d d :=
  ⟨fun _ _ => .inl rfl, fun _ => id, id⟩

theorem trans {d' : Disk} (h : Spares P d e) (h' : Spares P e d') : Spares P d d' where
  node? m hm := by
    rcases h'.node? m hm with hsame' | ⟨hfile', hdir'⟩
    · rcases h.node? m hm with hsame | ⟨hfile, hdir⟩
      · exact .inl (hsame'.trans hsame)
      · exact .inr ⟨hfile, hdir.of_node? hsame'⟩
    · rcases h.node? m hm with hsame | ⟨hfile, -⟩
      · refine .inr ⟨fun hfile => hfile' ?_, hdir'⟩
        rw [IsFile, hsame]
        exact hfile
      · exact .inr ⟨hfile, hdir'⟩
  isDir m hm := h'.isDir m (h.isDir m hm)
  plain hd := h'.plain (h.plain hd)

theorem stamp (h : Spares P d e) (l : Location) (now : SessionStore.Instant) :
    Spares P d (e.stamp l now) := by
  refine h.trans ⟨?_, fun _ => isDir_stamp.mpr, ?_⟩
  · intro m _
    exact (e.node?_stamp l now m).imp_right fun hm => ⟨hm.1.not_isFile, hm.2⟩
  · intro he
    refine ⟨?_, ?_⟩
    · intro k name hk
      rcases e.node?_stamp l now (k ++ [name]) with hsame | ⟨⟨_, _, hdir⟩, -⟩
      · exact he.named k name (hsame ▸ hk)
      · exact he.named k name (by simp [hdir])
    · intro k target hk
      rcases e.node?_stamp l now k with hsame | ⟨-, _, _, hdir⟩
      · exact he.no_link k target (hsame ▸ hk)
      · rw [hdir] at hk
        cases hk

theorem put_plain {n : Node} (he : e.IsPlain) (hl : l ≠ [])
    (hn : ∀ front name, l = front ++ [name] → Path.IsOrdinary name)
    (hlink : ∀ target, n ≠ .link target) : (e.put l n).IsPlain where
  named k name hk := by
    rw [node?_put hl] at hk
    split at hk
    · next heq => exact hn k name heq.symm
    · exact he.named k name hk
  no_link k target hk := by
    rw [node?_put hl] at hk
    split at hk
    · exact hlink target (Option.some.inj hk)
    · exact he.no_link k target hk

theorem put_file (h : Spares P d e) (hP : P (l ++ [name])) (hn : Path.IsOrdinary name)
    (hl : ¬e.IsDir (l ++ [name])) (contents : Bytes) (mode : Nat)
    (modified : SessionStore.Instant) :
    Spares P d (e.put (l ++ [name]) (.file contents mode modified)) := by
  have hne := child_ne_nil l name
  refine h.trans ⟨?_, ?_, fun he => put_plain he hne ?_ (fun _ => Node.noConfusion)⟩
  · intro m hm
    left
    rw [node?_put hne, if_neg]
    rintro rfl
    exact hm hP
  · intro m hm
    refine hm.of_node? ?_
    rw [node?_put hne, if_neg]
    rintro rfl
    exact hl hm
  · intro front other heq
    obtain rfl : name = other := (by simpa using heq : l = front ∧ name = other).2
    exact hn

theorem erase (h : Spares P d e) (hP : P l) (hl : ¬e.IsDir l) : Spares P d (e.erase l) := by
  have hne := ne_nil_of_not_isDir hl
  refine h.trans ⟨?_, ?_, fun he => ⟨?_, ?_⟩⟩
  · intro m hm
    left
    rw [node?_erase hne, if_neg]
    rintro rfl
    exact hm hP
  · intro m hm
    refine hm.of_node? ?_
    rw [node?_erase hne, if_neg]
    rintro rfl
    exact hl hm
  · intro k name hk
    rw [node?_erase hne] at hk
    split at hk
    · exact absurd rfl hk
    · exact he.named k name hk
  · intro k target hk
    rw [node?_erase hne] at hk
    split at hk
    · cases hk
    · exact he.no_link k target hk

/-- A new directory takes nothing's place. -/
theorem put_directory (hl : d.node? l = none)
    (hn : d.IsPlain → ∀ front name, l = front ++ [name] → Path.IsOrdinary name) (mode : Nat)
    (modified : SessionStore.Instant) : Spares P d (d.put l (.directory mode modified)) := by
  have hne : l ≠ [] := by
    rintro rfl
    cases hl
  refine ⟨?_, ?_, fun hd => put_plain hd hne (hn hd) (fun _ => Node.noConfusion)⟩
  · intro m _
    rw [node?_put hne]
    by_cases hm : m = l
    · subst hm
      refine .inr ⟨?_, mode, modified, by rw [node?_put hne, if_pos rfl]⟩
      rintro ⟨_, _, _, hfile⟩
      rw [hl] at hfile
      cases hfile
    · exact .inl (if_neg hm)
  · intro m hm
    refine hm.of_node? ?_
    rw [node?_put hne, if_neg]
    rintro rfl
    obtain ⟨_, _, hm⟩ := hm
    rw [hl] at hm
    cases hm

end Spares

/-! ## Calls on one name -/

section Calls

variable (hd : d.IsPlain) (hn : Path.IsOrdinary name) (hP : P (homeOf dir ++ [name]))
include hd hn hP

theorem write_spares {contents : Bytes}
    (h : d.write now mode (Path.join dir name) contents = .ok e) : Spares P d e := by
  rcases hq : Path.ofText (Path.join dir name) with why | q
  · simp [write, hq, bind, Except.bind] at h
  rcases hm : d.locate true q with why | m
  · simp [write, hq, hm, bind, Except.bind] at h
  obtain rfl := locate_join hd hn hq hm
  rcases hnode : d.node? (homeOf dir ++ [name]) with _ | ⟨_, old, _⟩ | ⟨_, _⟩ | _ <;>
    simp [write, hq, hm, hnode, bind, Except.bind, pure, Except.pure, throw, throwThe,
      MonadExceptOf.throw] at h
  · subst h
    have hl : ¬d.IsDir (homeOf dir ++ [name]) := fun hdir => hdir.not_isEnd (.inl hnode)
    exact ((Spares.refl P d).put_file hP hn hl contents mode now).stamp _ now
  · subst h
    have hl : ¬d.IsDir (homeOf dir ++ [name]) := fun hdir => hdir.not_isFile ⟨_, _, _, hnode⟩
    exact (Spares.refl P d).put_file hP hn hl contents old now

theorem remove_spares (h : d.remove now (Path.join dir name) = .ok e) : Spares P d e := by
  rcases hq : Path.ofText (Path.join dir name) with why | q
  · simp [remove, hq, bind, Except.bind] at h
  rcases hm : d.locate false q with why | m
  · simp [remove, hq, hm, bind, Except.bind] at h
  obtain rfl := locate_join hd hn hq hm
  rcases hnode : d.node? (homeOf dir ++ [name]) with _ | ⟨_, _, _⟩ | ⟨_, _⟩ | target
  · simp [remove, hq, hm, hnode, bind, Except.bind, throw, throwThe, MonadExceptOf.throw] at h
  · simp [remove, hq, hm, hnode, bind, Except.bind, pure, Except.pure] at h
    subst h
    have hl : ¬d.IsDir (homeOf dir ++ [name]) := fun hdir => hdir.not_isFile ⟨_, _, _, hnode⟩
    exact ((Spares.refl P d).erase hP hl).stamp _ now
  · simp [remove, hq, hm, hnode, bind, Except.bind, throw, throwThe, MonadExceptOf.throw] at h
  · exact absurd hnode (hd.no_link _ target)

theorem setModified_spares {time : SessionStore.Instant}
    (h : d.setModified (Path.join dir name) time = .ok e) : Spares P d e := by
  rcases hq : Path.ofText (Path.join dir name) with why | q
  · simp [setModified, hq, bind, Except.bind] at h
  rcases hm : d.locate true q with why | m
  · simp [setModified, find, hq, hm, bind, Except.bind] at h
  obtain rfl := locate_join hd hn hq hm
  rcases hnode : d.node? (homeOf dir ++ [name]) with _ | ⟨contents, mode, modified⟩ | ⟨_, _⟩ | _ <;>
    simp [setModified, find, hq, hm, hnode, bind, Except.bind, pure, Except.pure, throw, throwThe,
      MonadExceptOf.throw] at h
  subst h
  have hl : ¬d.IsDir (homeOf dir ++ [name]) := fun hdir => hdir.not_isFile ⟨_, _, _, hnode⟩
  exact (Spares.refl P d).put_file hP hn hl contents mode time

theorem rename_spares {other : String} (ho : Path.IsOrdinary other)
    (hPo : P (homeOf dir ++ [other]))
    (h : d.rename now (Path.join dir other) (Path.join dir name) = .ok e) : Spares P d e := by
  rcases ha : Path.ofText (Path.join dir other) with why | a
  · simp [rename, ha, bind, Except.bind] at h
  rcases hb : Path.ofText (Path.join dir name) with why | b
  · simp [rename, ha, hb, bind, Except.bind] at h
  have hb' : ({ b with closed := false } : Path) = b := by
    obtain ⟨-, -, -, rfl⟩ := Path.ofText_eq_ok hb
    have hlast := Path.getLast?_join dir hn.toIsSimple
    simpa using hlast
  have hclosed : b.closed = false := by rw [← hb']
  have hnamed : a.isNameless = false :=
    Path.isNameless_join ha ho.toIsSimple ho.ne_dot ho.ne_dots
  have hnamed' : b.isNameless = false :=
    Path.isNameless_join hb hn.toIsSimple hn.ne_dot hn.ne_dots
  rcases hl : d.locate false a with why | l
  · simp [rename, ha, hb, hl, bind, Except.bind] at h
  rcases hm : d.locate false b with why | m
  · simp [rename, ha, hb, hb', hl, hm, bind, Except.bind] at h
  obtain rfl := locate_join hd ho ha hl
  obtain rfl := locate_join hd hn hb hm
  rcases hs : d.node? (homeOf dir ++ [other]) with _ | ⟨contents, mode, modified⟩ | ⟨_, _⟩ | target
  · simp [rename, ha, hb, hb', hl, hm, hs, hnamed, hnamed', bind, Except.bind, throw, throwThe,
      MonadExceptOf.throw] at h
  · have hsource : ¬d.IsDir (homeOf dir ++ [other]) := fun hdir =>
      hdir.not_isFile ⟨_, _, _, hs⟩
    have herase := (Spares.refl P d).erase hPo hsource
    by_cases ht : d.IsDir (homeOf dir ++ [name])
    · obtain ⟨_, _, ht⟩ := ht
      simp [rename, ha, hb, hb', hl, hm, hs, ht, hclosed, hnamed, hnamed', bind, Except.bind,
        throw, throwThe, MonadExceptOf.throw] at h
    · have htarget : ¬(d.erase (homeOf dir ++ [other])).IsDir (homeOf dir ++ [name]) := by
        rintro ⟨_, _, hdir⟩
        rw [node?_erase (child_ne_nil _ _)] at hdir
        split at hdir
        · cases hdir
        · exact ht ⟨_, _, hdir⟩
      have hput := ((herase.put_file hP hn htarget contents mode modified).stamp
        (homeOf dir ++ [other]).dropLast now).stamp (homeOf dir ++ [name]).dropLast now
      rcases hnode : d.node? (homeOf dir ++ [name]) with _ | ⟨_, _, _⟩ | ⟨_, _⟩ | _ <;>
        simp [rename, ha, hb, hb', hl, hm, hs, hnode, hclosed, hnamed, hnamed', bind, Except.bind,
          throw, throwThe, MonadExceptOf.throw, pure, Except.pure] at h
      all_goals
        subst h
        simpa using hput
  · simp [rename, ha, hb, hb', hl, hm, hs, hnamed, hnamed', bind, Except.bind, throw, throwThe,
      MonadExceptOf.throw] at h
  · exact absurd hs (hd.no_link _ target)

end Calls

/-! ## Making directories -/

theorem makeAt_spares {p : Path} (hp : ∀ name ∈ p.names, Path.IsSimple name)
    (h : d.makeAt now mode p = .ok e) : Spares P d e := by
  rcases hl : d.locate false { p with closed := false } with why | l
  · simp [makeAt, hl, bind, Except.bind] at h
  rcases hn : d.node? l with _ | n
  · simp only [makeAt, hl, hn, bind, Except.bind, pure, Except.pure, Except.ok.injEq] at h
    subst h
    refine (Spares.put_directory hn ?_ mode now).stamp _ now
    intro hd front name heq
    have hmem : name ∈ Location.descend [] p.names := by
      rw [← locate_descend hd hl, heq]
      simp
    obtain ⟨hmem, hdot, hdots⟩ := (Location.mem_descend hmem).resolve_left List.not_mem_nil
    exact ⟨hp name hmem, hdot, hdots⟩
  · simp [makeAt, hl, hn, bind, Except.bind, throw, throwThe, MonadExceptOf.throw] at h

theorem made_spares {p : Path} {result : Except IoFault Disk}
    (h : ∀ e, result = .ok e → Spares P d e) : Spares P d (d.made p result).2 := by
  rcases result with why | e
  · rw [made]
    split <;> exact .refl P d
  · exact h e rfl

theorem makeChain_spares {ps : List Path}
    (hp : ∀ p ∈ ps, ∀ name ∈ p.names, Path.IsSimple name) :
    Spares P d (d.makeChain now mode ps).2 := by
  induction ps with
  | nil => exact .refl P d
  | cons p ps ih =>
    obtain ⟨hp, hps⟩ := List.forall_mem_cons.mp hp
    have habove := ih hps
    rw [makeChain]
    split
    · rcases hchain : d.makeChain now mode ps with ⟨_ | _, e⟩
      · simpa [hchain] using habove
      · rw [hchain] at habove
        exact habove.trans (made_spares fun e' he => makeAt_spares hp he)
    · exact made_spares fun e he => makeAt_spares hp he

theorem mem_names_of_mem_ending {absolute : Bool} {names : List String} {p : Path}
    (hp : p ∈ Path.ending absolute names) (hn : name ∈ p.names) : name ∈ names := by
  induction names with
  | nil => cases hp
  | cons x names ih =>
    rcases List.mem_cons.mp hp with rfl | hp
    · exact List.mem_reverse.mp hn
    · exact List.mem_cons_of_mem _ (ih hp)

/-- Making directories leaves alone whatever is there. -/
theorem makeDirectories_spares (P : Location → Prop) (d : Disk) (now : SessionStore.Instant)
    (mode : Nat) (path : String) : Spares P d (d.makeDirectories now mode path).2 := by
  rw [makeDirectories]
  split
  · exact .refl P d
  · rcases hp : Path.ofText path with why | p
    · exact .refl P d
    · refine makeChain_spares ?_
      intro q hq name hname
      refine Path.isSimple_of_mem_names hp ?_
      rcases List.mem_cons.mp hq with rfl | hq
      · exact hname
      · have hmem := List.mem_of_mem_tail (mem_names_of_mem_ending hq hname)
        exact (List.mem_filter.mp (List.mem_reverse.mp hmem)).1

end Disk

end SessionStore
