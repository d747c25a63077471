import Mathlib.Data.List.Induction
import SessionStore.Proofs.Disk.Ends
import SessionStore.Proofs.Disk.Made

/-! # Straight ways down

On a tree without links, a path of plain names goes down through directories until something else
is in the way, or nothing. If nothing is, then all directories that are missing on the path can be
made, each in the one before.
-/

namespace SessionStore

/-- The text of a path that goes down by names alone. -/
structure Path.IsStraight (path : String) : Prop where
  nonempty : path ≠ ""
  no_nul : '\x00' ∉ path.toList
  short : path.utf8ByteSize < Path.lengthLimit
  names : ∀ name ∈ Path.namesOf path.toList, Disk.IsName name

theorem Path.IsStraight.ofText {path : String} (h : Path.IsStraight path) :
    ∃ p, Path.ofText path = .ok p ∧ p.names = Path.namesOf path.toList := by
  unfold Path.ofText
  rw [if_neg (by simpa using h.no_nul), if_neg h.nonempty, if_neg (Nat.not_le.mpr h.short)]
  exact ⟨_, rfl, rfl⟩

namespace Disk

variable {d e : Disk} {l m front here : Location} {name : String} {xs ys rest : List String}
  {p : Path} {now : SessionStore.Instant} {mode : Nat}

/-! ## What is on the way -/

/-- Above a directory there are directories. -/
theorem IsTree.isDir_left (ht : d.IsTree) (h : d.IsDir (l ++ xs)) : d.IsDir l := by
  induction xs using List.reverseRecOn with
  | nil => simpa using h
  | append_singleton xs x ih =>
    rw [← List.append_assoc] at h
    apply ih
    simpa using h.dropLast ht

/-- Below nothing there is nothing. -/
theorem IsTree.missing_below (ht : d.IsTree) (h : d.node? l = none) (xs : List String) :
    d.node? (l ++ xs) = none := by
  induction xs using List.reverseRecOn with
  | nil => simpa using h
  | append_singleton xs x ih =>
    rw [← List.append_assoc]
    rcases hn : d.node? (l ++ xs ++ [x]) with _ | n
    · rfl
    · obtain ⟨_, _, hdir⟩ := ht (l ++ xs) x (by rw [hn]; simp)
      simp [ih] at hdir

/-- The way to a location ends there in a directory, or before it at something else or nothing. -/
theorem isDir_or_isEnd (hlinks : d.NoLinks) (l : Location) :
    d.IsDir l ∨ ∃ front name rest, l = front ++ name :: rest ∧ d.IsDir front ∧
      d.IsEnd (front ++ [name]) := by
  induction l using List.reverseRecOn with
  | nil => exact .inl d.isDir_top
  | append_singleton l x ih =>
    rcases ih with hdir | ⟨front, name, rest, rfl, hfront, hend⟩
    · rcases d.node_cases (l ++ [x]) with h | h | ⟨target, h⟩
      · exact .inl h
      · exact .inr ⟨l, x, [], rfl, hdir, h⟩
      · exact absurd h (hlinks _ target)
    · exact .inr ⟨front, name, rest ++ [x], by simp, hfront, hend⟩

/-! ## Walks down -/

theorem walkWith_down {follow : Bool} {J : Location → List String → Except IoFault Location}
    (ht : d.IsTree) (hxs : ∀ name ∈ xs, IsName name) (hdir : d.IsDir (here ++ xs)) :
    d.walkWith follow J here (xs ++ ys) = d.walkWith follow J (here ++ xs) ys := by
  induction xs generalizing here with
  | nil => simp
  | cons x xs ih =>
    obtain ⟨hx, hxs⟩ := List.forall_mem_cons.mp hxs
    rw [List.append_cons] at hdir ⊢
    rw [List.cons_append, walkWith_isDir hx (ht.isDir_left hdir), ih hxs hdir]

theorem walk_down {follow : Bool} (ht : d.IsTree) (hxs : ∀ name ∈ xs, IsName name)
    (hdir : d.IsDir xs) (n : Nat) (ys : List String) :
    d.walk follow n [] (xs ++ ys) = d.walk follow n xs ys := by
  cases n <;> exact walkWith_down ht hxs hdir

theorem leadsTo_down {path : String} (ht : d.IsTree) (hp : Path.IsStraight path)
    (hdir : d.IsDir (Path.namesOf path.toList)) :
    d.LeadsTo path (Path.namesOf path.toList) := by
  obtain ⟨p, hok, hnames⟩ := hp.ofText
  refine ⟨⟨p, hok, ?_⟩, hdir⟩
  have hwalk : d.walk true linkLimit [] (Path.namesOf path.toList ++ []) =
      d.walk true linkLimit (Path.namesOf path.toList) [] := walk_down ht hp.names hdir linkLimit []
  rw [List.append_nil] at hwalk
  rw [hnames, hwalk]
  rfl

section Stopped

variable (ht : d.IsTree) (hp : ∀ name ∈ p.names, IsName name)
  (hnames : p.names = front ++ name :: rest) (hfront : d.IsDir front)
include ht hp hnames hfront

/-- What is left to walk from the last directory on the way. -/
theorem locate_front (follow : Bool) :
    d.locate follow p =
      d.walk follow linkLimit front (name :: (rest ++ if p.closed then ["."] else [])) := by
  have hall : ∀ x ∈ front, IsName x := fun x hx => hp x (by simp [hnames, hx])
  have hsteps : p.steps = front ++ name :: (rest ++ if p.closed then ["."] else []) := by
    simp [Path.steps, hnames]
  rw [locate, hsteps, walk_down ht hall hfront]

/-- A walk to what is missing succeeds only if its directory is there. -/
theorem locate_missing (hnone : d.node? (front ++ [name]) = none) (follow : Bool) :
    d.locate follow p = if rest = [] ∧ p.closed = false then .ok p.names
      else .error .notFound := by
  have hname : IsName name := hp name (by simp [hnames])
  have hwalk := (locate_front ht hp hnames hfront follow).trans (walkWith_isName hname)
  rw [hnone] at hwalk
  rw [hwalk]
  cases p.closed
  · by_cases hrest : rest = []
    · simp [hnames, hrest]
    · simp [hrest]
  · simp

/-- A walk does not go through a file. -/
theorem locate_file {contents : Bytes} {mode : Nat} {modified : SessionStore.Instant}
    (hfile : d.node? (front ++ [name]) = some (.file contents mode modified)) (follow : Bool) :
    d.locate follow p = if rest = [] ∧ p.closed = false then .ok p.names
      else .error .notDirectory := by
  have hname : IsName name := hp name (by simp [hnames])
  have hwalk := (locate_front ht hp hnames hfront follow).trans (walkWith_isName hname)
  rw [hfile] at hwalk
  rw [hwalk]
  cases p.closed
  · by_cases hrest : rest = []
    · simp [hnames, hrest]
    · simp [hrest]
  · simp

end Stopped

theorem stat_of_locate {path : String} {why : IoFault} (hp : Path.ofText path = .ok p)
    (hloc : d.locate true p = .error why) : d.stat path = .error why := by
  simp [stat, find, hp, hloc, bind, Except.bind]

section Path

variable {path : String} (ht : d.IsTree) (hp : Path.IsStraight path)
  (hnames : Path.namesOf path.toList = front ++ name :: rest) (hfront : d.IsDir front)
include ht hp hnames hfront

theorem stat_missing (hnone : d.node? (front ++ [name]) = none) :
    d.stat path = .error .notFound := by
  obtain ⟨p, hok, hpnames⟩ := hp.ofText
  have hloc := locate_missing ht (by rw [hpnames]; exact hp.names) (hpnames.trans hnames) hfront
    hnone true
  split at hloc
  · have hmissing : d.node? p.names = none := by
      rw [hpnames, hnames, List.append_cons]
      exact ht.missing_below hnone rest
    have hreach : d.Reaches path p.names := ⟨p, hok, hloc⟩
    rw [hreach.stat, hmissing]
  · exact stat_of_locate hok hloc

/-- A file on the way is found at its end, and else it is no directory. -/
theorem stat_file {contents : Bytes} {mode : Nat} {modified : SessionStore.Instant}
    (hfile : d.node? (front ++ [name]) = some (.file contents mode modified)) :
    d.stat path = .ok (.file contents mode modified) ∨ d.stat path = .error .notDirectory := by
  obtain ⟨p, hok, hpnames⟩ := hp.ofText
  have hloc := locate_file ht (by rw [hpnames]; exact hp.names) (hpnames.trans hnames) hfront
    hfile true
  split at hloc
  · next hlast =>
    left
    have hreach : d.Reaches path p.names := ⟨p, hok, hloc⟩
    have hat : p.names = front ++ [name] := by rw [hpnames, hnames, hlast.1]
    rw [hreach.stat, hat, hfile]
  · exact .inr (stat_of_locate hok hloc)

end Path

/-! ## Making directories -/

/-- The directory at `l` is there, and nothing has changed but on the way to it: what was missing is
a new directory, and a directory that has got a new one has the time of that. -/
structure Provides (now : SessionStore.Instant) (mode : Nat) (l : Location) (d e : Disk) :
    Prop where
  isDir : e.IsDir l
  node? : ∀ m, e.node? m = d.node? m ∨ m <+: l ∧
    (d.node? m = none ∧ e.node? m = some (.directory mode now) ∨
      ∃ old modified, d.node? m = some (.directory old modified) ∧
        e.node? m = some (.directory old now))

theorem Provides.refl (h : d.IsDir l) : Provides now mode l d d := ⟨h, fun _ => .inl rfl⟩

theorem node?_stamp_self {old : Nat} {modified : SessionStore.Instant}
    (h : d.node? l = some (.directory old modified)) (now : SessionStore.Instant) :
    (d.stamp l now).node? l = d.node? l ∨ (d.stamp l now).node? l = some (.directory old now) := by
  by_cases hl : l = []
  · subst hl
    exact .inl rfl
  · right
    rw [node?, if_neg hl] at h
    rw [stamp, h, node?_put hl, if_pos rfl]

/-- One more directory in the one that is there. -/
theorem Provides.child (h : Provides now mode l d e) (hd : d.node? (l ++ [name]) = none) :
    Provides now mode (l ++ [name]) d
      ((e.put (l ++ [name]) (.directory mode now)).stamp l now) := by
  have hchild := child_ne_nil l name
  have hne := ne_child l name
  refine ⟨⟨mode, now, ?_⟩, fun m => ?_⟩
  · rw [node?_stamp_of_ne hne.symm, node?_put hchild, if_pos rfl]
  by_cases hm : m = l ++ [name]
  · subst hm
    rw [node?_stamp_of_ne hne.symm, node?_put hchild, if_pos rfl]
    exact .inr ⟨List.prefix_rfl, .inl ⟨hd, rfl⟩⟩
  by_cases hml : m = l
  · subst hml
    obtain ⟨old, modified, hdir⟩ := h.isDir
    have hput : (e.put (m ++ [name]) (.directory mode now)).node? m =
        some (.directory old modified) := by
      rw [node?_put hchild, if_neg hm, hdir]
    rcases node?_stamp_self hput now with hsame | hstamped
    · rw [hsame, hput, ← hdir]
      exact (h.node? m).imp_right fun hchange => ⟨List.prefix_append m [name], hchange.2⟩
    · rw [hstamped]
      refine .inr ⟨List.prefix_append m [name], ?_⟩
      rcases h.node? m with hsame | ⟨-, ⟨hnone, hnew⟩ | ⟨old', modified', hold, hnew⟩⟩
      · exact .inr ⟨old, modified, hsame ▸ hdir, rfl⟩
      · rw [hdir] at hnew
        cases hnew
        exact .inl ⟨hnone, rfl⟩
      · rw [hdir] at hnew
        cases hnew
        exact .inr ⟨_, _, hold, rfl⟩
  · rw [node?_stamp_of_ne hml, node?_put hchild, if_neg hm]
    exact (h.node? m).imp_right fun hchange =>
      ⟨hchange.1.trans (List.prefix_append l [name]), hchange.2⟩

theorem ending_reverse {absolute : Bool} (hl : l ≠ []) :
    Path.ending absolute l.reverse =
      ⟨absolute, l, false⟩ :: Path.ending absolute l.reverse.tail := by
  rcases h : l.reverse with _ | ⟨x, xs⟩
  · exact absurd (List.reverse_eq_nil_iff.mp h) hl
  · rw [Path.ending, ← h, List.reverse_reverse, h]
    rfl

/-- A directory can be made in one that is there. -/
theorem makeAt_child (ht : e.IsTree) (hp : ∀ name ∈ p.names, IsName name)
    (hnames : p.names = l ++ [name]) (hl : e.IsDir l) (hnone : e.node? (l ++ [name]) = none)
    (now : SessionStore.Instant) (mode : Nat) :
    e.makeAt now mode p =
      .ok ((e.put (l ++ [name]) (.directory mode now)).stamp l now) := by
  have hloc : e.locate false { p with closed := false } = .ok (l ++ [name]) :=
    (locate_missing (p := { p with closed := false }) ht hp hnames hl hnone
      false).trans (congrArg _ hnames)
  simp only [makeAt, hloc, hnone, bind, Except.bind, List.dropLast_concat]
  rfl

/-- The directories that are missing on the way down can be made. -/
theorem makeChain_provides (ht : d.IsTree) (hfront : d.IsDir front)
    (hnone : d.node? (front ++ [name]) = none) (hp : ∀ x ∈ p.names, IsName x)
    (hnames : p.names = front ++ name :: rest) :
    ∃ e, d.makeChain now mode (p :: Path.ending p.absolute p.names.reverse.tail) = (.ok (), e) ∧
      e.IsTree ∧ Provides now mode p.names d e := by
  induction rest using List.reverseRecOn generalizing p with
  | nil =>
    refine ⟨_, ?_, (put_isNew now mode hfront hnone).isTree ht, ?_⟩
    · rw [makeChain, makeAt_child ht hp hnames hfront hnone now mode]
      rfl
    · rw [hnames]
      exact (Provides.refl hfront).child hnone
  | append_singleton rest last ih =>
    obtain ⟨above, habove⟩ : ∃ above, above = front ++ name :: rest := ⟨_, rfl⟩
    have hsplit : p.names = above ++ [last] := by simp [hnames, habove]
    have hd : d.node? (above ++ [last]) = none := by
      simpa [habove] using ht.missing_below hnone (rest ++ [last])
    have hmake : d.makeAt now mode p = .error .notFound := by
      have hloc := locate_missing (p := { p with closed := false }) ht hp hnames hfront hnone false
      rw [if_neg (by simp)] at hloc
      simp [makeAt, hloc, bind, Except.bind]
    have hending : Path.ending p.absolute p.names.reverse.tail =
        ⟨p.absolute, above, false⟩ :: Path.ending p.absolute above.reverse.tail := by
      rw [hsplit, List.reverse_append]
      exact ending_reverse (by simp [habove])
    obtain ⟨e, hchain, htree, hprovides⟩ := ih (p := ⟨p.absolute, above, false⟩)
      (fun x hx => hp x (by simp [hsplit, hx])) habove
    have hlast : e.node? (above ++ [last]) = none := by
      rcases hprovides.node? (above ++ [last]) with hsame | ⟨hbegins, -⟩
      · rw [hsame, hd]
      · have hlength : (above ++ [last]).length ≤ above.length := hbegins.length_le
        rw [List.length_append, List.length_singleton] at hlength
        omega
    have hdone := makeAt_child htree hp hsplit hprovides.isDir hlast now mode
    refine ⟨_, ?_, (put_isNew now mode hprovides.isDir hlast).isTree htree, ?_⟩
    · rw [hending, makeChain, hmake]
      simp only [IoFault.notFound, hchain, hdone]
      rfl
    · rw [hsplit]
      exact hprovides.child hd

theorem makeDirectories_provides {path : String} (ht : d.IsTree) (hp : Path.IsStraight path)
    (hnames : Path.namesOf path.toList = front ++ name :: rest) (hfront : d.IsDir front)
    (hnone : d.node? (front ++ [name]) = none) (now : SessionStore.Instant) (mode : Nat) :
    ∃ e, d.makeDirectories now mode path = (.ok (), e) ∧ e.IsTree ∧
      Provides now mode (Path.namesOf path.toList) d e := by
  obtain ⟨p, hok, hpnames⟩ := hp.ofText
  have hall : ∀ x ∈ p.names, IsName x := by
    rw [hpnames]
    exact hp.names
  have habove : p.above = Path.ending p.absolute p.names.reverse.tail := by
    rw [Path.above, List.filter_eq_self.mpr fun x hx => by simpa using (hall x hx).ne_dot]
  rw [makeDirectories, if_neg hp.nonempty, hok]
  simp only [habove, ← hpnames]
  exact makeChain_provides ht hfront hnone hall (hpnames.trans hnames)

end Disk

end SessionStore
