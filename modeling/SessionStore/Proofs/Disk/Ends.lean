import SessionStore.Proofs.Disk.Directory

/-! # The ends of paths

Every path is a directory with something put behind it, which may be nothing or dots. What stands
there can be looked for where the directory is, and if anything longer can be found there, then so
can this.
-/

namespace SessionStore

namespace Path

variable {dir name : String}

/-- The text needs no slash before a name that is put behind it. -/
def IsOpen (dir : String) : Prop := dir = "" ∨ dir.toList.getLast? = some '/'

theorem IsOpen.join_eq (h : IsOpen dir) (name : String) : join dir name = dir ++ name := by
  rcases h with rfl | h
  · simp
  · simp [join, h]

theorem exists_split (cs : List Char) :
    ∃ front back, cs = front ++ back ∧ '/' ∉ back ∧ (front = [] ∨ front.getLast? = some '/') := by
  induction cs with
  | nil => exact ⟨[], [], rfl, by simp, .inl rfl⟩
  | cons c cs ih =>
    obtain ⟨front, back, rfl, hback, hfront⟩ := ih
    rcases hfront with rfl | hfront
    · by_cases hc : c = '/'
      · exact ⟨[c], back, rfl, hback, .inr (by simp [hc])⟩
      · exact ⟨[], c :: back, rfl, by simp [hback, Ne.symm hc], .inl rfl⟩
    · refine ⟨c :: front, back, rfl, hback, .inr ?_⟩
      rw [List.getLast?_cons, hfront]
      rfl

/-- A path up to its last slash, and what is behind that. -/
theorem exists_join (path : String) :
    ∃ dir name, path = join dir name ∧ IsOpen dir ∧ '/' ∉ name.toList := by
  obtain ⟨front, back, htext, hback, hfront⟩ := exists_split path.toList
  have hopen : IsOpen (String.ofList front) := by
    rcases hfront with rfl | hfront
    · exact .inl rfl
    · exact .inr (by simpa using hfront)
  refine ⟨String.ofList front, String.ofList back, ?_, hopen, by simpa using hback⟩
  rw [hopen.join_eq, ← String.ofList_append, ← htext, String.ofList_toList]

end Path

namespace Disk

variable {d e : Disk} {dir name path : String} {l m : Location} {names : List String}
  {P : Location → Prop}

def NoLinks (d : Disk) : Prop := ∀ l target, d.node? l ≠ some (.link target)

/-- The path means the location, links followed. -/
def Reaches (d : Disk) (path : String) (l : Location) : Prop :=
  ∃ q, Path.ofText path = .ok q ∧ d.locate true q = .ok l

theorem Reaches.unique (h : d.Reaches path l) (h' : d.Reaches path m) : l = m := by
  obtain ⟨q, hq, hl⟩ := h
  obtain ⟨q', hq', hm⟩ := h'
  rw [hq] at hq'
  cases hq'
  rw [hl] at hm
  cases hm
  rfl

theorem Reaches.stat (h : d.Reaches path l) :
    d.stat path = match d.node? l with
      | none => .error .notFound
      | some n => .ok n := by
  obtain ⟨q, hq, hl⟩ := h
  simp only [Disk.stat, hq, find, hl, bind, Except.bind]
  cases d.node? l <;> rfl

theorem Reaches.read (h : d.Reaches path l) :
    d.read path = match d.node? l with
      | some (.file contents _ _) => .ok contents
      | some (.directory _ _) => .error .isDirectory
      | none | some (.link _) => .error .notFound := by
  have hstat := h.stat
  rcases hn : d.node? l with _ | ⟨_, _, _⟩ | ⟨_, _⟩ | _ <;> rw [hn] at hstat <;>
    simp only [Disk.read, hstat, bind, Except.bind] <;> rfl

/-- A name that leads somewhere is a usable name in a directory. -/
theorem exists_fits {q : Path} {follow : Bool} (hne : name ≠ "") (hslash : '/' ∉ name.toList)
    (hdot : name ≠ ".") (hdots : name ≠ "..") (hq : Path.ofText (Path.join dir name) = .ok q)
    (hloc : d.locate follow q = .ok m) : Fits dir name ∧ ∃ l, d.Houses dir l := by
  obtain ⟨hnul, -, hlen, -⟩ := Path.ofText_eq_ok hq
  have hsimple : Path.IsSimple name := by
    refine ⟨hne, hslash, ?_⟩
    obtain ⟨front, hfront⟩ := Path.exists_toList_join dir
    rw [hfront] at hnul
    exact fun hmem => hnul (List.mem_append_right _ hmem)
  refine ⟨?_, exists_houses hsimple hq hloc⟩
  by_cases hd : dir = ""
  · subst hd
    rw [Path.join_empty] at hq hlen
    rw [Path.ofText_of_isSimple hsimple, if_pos hlen] at hq
    cases hq
    rw [locate, Path.steps] at hloc
    exact ⟨hsimple, ⟨hdot, hdots, walk_short hloc name (by simp)⟩, hlen⟩
  · obtain ⟨p, hp⟩ := Path.ofText_of_join hd hq
    exact fits_of_locate hp hne hslash hdot hdots hq hloc

/-- Where something behind the path of the directory at `l` leads. -/
def landing (l : Location) (name : String) : Location :=
  if name = "" ∨ name = "." then l else if name = ".." then l.dropLast else l ++ [name]

/-- No ending leads as far as a longer name. -/
theorem landing_ne (l : Location) {name ending : String} (hne : ending ≠ "") :
    landing l name ≠ l ++ [name ++ ending] := by
  have hlength : ∀ k : Location, k.length ≤ l.length → k ≠ l ++ [name ++ ending] := by
    rintro k hk rfl
    rw [List.length_append, List.length_singleton] at hk
    omega
  unfold landing
  split
  · exact hlength l (Nat.le_refl _)
  · split
    · exact hlength _ (by simp)
    · intro heq
      have hname : name = name ++ ending := by simpa using heq
      have hsize := congrArg String.utf8ByteSize hname
      rw [String.utf8ByteSize_append] at hsize
      exact hne (String.utf8ByteSize_eq_zero_iff.mp (by omega))

theorem LeadsTo.reaches (h : d.LeadsTo dir l) : d.Reaches dir l := by
  obtain ⟨q, mode, modified, hq, hfind⟩ := h.find
  refine ⟨q, hq, ?_⟩
  rcases hloc : d.locate true q with why | k
  · simp [Disk.find, hloc, bind, Except.bind] at hfind
  · rcases hn : d.node? k with _ | n <;>
      simp [Disk.find, hloc, hn, bind, Except.bind, pure, Except.pure, throw, throwThe,
        MonadExceptOf.throw] at hfind
    rw [hfind.1]

/-- A walk from a directory by one name, dots or not. -/
theorem walk_landing (hne : name ≠ "") (hshort : name.utf8ByteSize ≤ Path.nameLimit)
    (hlink : ∀ target, d.node? (l ++ [name]) ≠ some (.link target)) (k : Nat) :
    d.walk true k l [name] = .ok (landing l name) := by
  rw [landing]
  by_cases hdot : name = "."
  · subst hdot
    exact walk_dot d true l k
  · rw [if_neg (by simp [hne, hdot])]
    by_cases hdots : name = ".."
    · subst hdots
      rw [if_pos rfl]
      cases k <;> simp [walk]
    · rw [if_neg hdots]
      exact walk_last ⟨hdot, hdots, hshort⟩ (fun _ => hlink) k

/-- Where a name fits, what is no longer leads to where it says. -/
theorem Houses.reaches_landing (h : d.Houses dir l) (hopen : Path.IsOpen dir) {ending : String}
    (hf : Fits dir (name ++ ending)) (hlink : ∀ target, d.node? (l ++ [name]) ≠ some (.link target))
    (hpath : Path.join dir name ≠ "") : d.Reaches (Path.join dir name) (landing l name) := by
  by_cases hempty : name = ""
  · subst hempty
    rw [hopen.join_eq, String.append_empty] at hpath ⊢
    rcases h with h | ⟨h, -⟩
    · exact h.reaches
    · exact absurd h hpath
  · have hsize : name.utf8ByteSize ≤ (name ++ ending).utf8ByteSize := by
      rw [String.utf8ByteSize_append]
      omega
    have hsimple : Path.IsSimple name := by
      refine ⟨hempty, fun hmem => hf.no_slash ?_, fun hmem => hf.no_nul ?_⟩ <;>
      · rw [String.toList_append]
        exact List.mem_append_left _ hmem
    have hlt : (Path.join dir name).utf8ByteSize < Path.lengthLimit := by
      have hlonger := hf.path_lt
      rw [Path.join_append, String.utf8ByteSize_append] at hlonger
      omega
    obtain ⟨absolute, names, hwalk, htext⟩ := h.exists_walk
    refine ⟨⟨absolute, names ++ [name], false⟩, ?_, ?_⟩
    · rw [htext name hsimple, if_pos hlt]
    · rw [Disk.locate, Path.steps]
      simp only [Bool.false_eq_true, if_false, List.append_nil]
      exact walk_append h.isDir (by simp)
        (walk_landing hempty (Nat.le_trans hsize hf.short) hlink) hwalk

/-- From `d` to `e` nothing changes but what is at locations of `P`, and the times of
directories. -/
structure Keeps (P : Location → Prop) (d e : Disk) : Prop where
  node? : ∀ m, ¬P m → e.node? m = d.node? m ∨ d.IsDir m ∧ e.IsDir m
  isDir : ∀ m, d.IsDir m → e.IsDir m

theorem Keeps.refl (P : Location → Prop) (d : Disk) : Keeps P d d :=
  ⟨fun _ _ => .inl rfl, fun _ h => h⟩

theorem Within.keeps (h : Within l names d e) (hl : d.IsDir l)
    (hends : ∀ name ∈ names, d.IsEnd (l ++ [name])) (hP : ∀ name ∈ names, P (l ++ [name])) :
    Keeps P d e := by
  have hcases : ∀ m, (∃ name ∈ names, m = l ++ [name]) ∨ e.node? m = d.node? m ∨
      d.IsDir m ∧ e.IsDir m := by
    intro m
    by_cases hm : m = l
    · subst hm
      exact .inr (.inr ⟨hl, h.isDir hl⟩)
    · by_cases hname : ∃ name ∈ names, m = l ++ [name]
      · exact .inl hname
      · exact .inr (.inl (h.node? m hm fun name hn heq => hname ⟨name, hn, heq⟩))
  refine ⟨?_, ?_⟩
  · intro m hm
    rcases hcases m with ⟨name, hname, rfl⟩ | hsame
    · exact absurd (hP name hname) hm
    · exact hsame
  · intro m hm
    rcases hcases m with ⟨name, hname, rfl⟩ | hsame | ⟨-, he⟩
    · exact absurd (hends name hname) hm.not_isEnd
    · rw [IsDir, hsame]
      exact hm
    · exact he

theorem Within.noLinks (h : Within l names d e) (hd : d.NoLinks) (hl : d.IsDir l)
    (hnames : ∀ name ∈ names, ∀ target, e.node? (l ++ [name]) ≠ some (.link target)) :
    e.NoLinks := by
  intro m target
  by_cases hm : m = l
  · subst hm
    obtain ⟨mode, modified, he⟩ := h.isDir hl
    simp [he]
  · by_cases hname : ∃ name ∈ names, m = l ++ [name]
    · obtain ⟨name, hn, rfl⟩ := hname
      exact hnames name hn target
    · rw [h.node? m hm fun name hn heq => hname ⟨name, hn, heq⟩]
      exact hd m target

end Disk

end SessionStore
