import SessionStore.Disk.Calls

/-! # Walks

What a walk finds depends only on the directories and links that it meets. A walk that ends in a
directory can be continued there, and a change that touches nothing on the way leaves it as it is.
-/

namespace SessionStore

/-- A node without what walks do not look at. -/
def Node.bare : Node → Node
  | .file _ _ _ => .file [] 0 0
  | .directory _ _ => .directory 0 0
  | .link target => .link target

namespace Disk

variable {d e : Disk} {here l m : Location} {xs ys : List String} {follow follow' : Bool}

/-- A directory is at the location itself. -/
def IsDir (d : Disk) (l : Location) : Prop :=
  ∃ mode modified, d.node? l = some (.directory mode modified)

/-- A walk that comes to the location goes no further: nothing is there, or a file. -/
def IsEnd (d : Disk) (l : Location) : Prop :=
  d.node? l = none ∨ ∃ contents mode modified, d.node? l = some (.file contents mode modified)

theorem isDir_top (d : Disk) : d.IsDir [] := ⟨0o755, 0, rfl⟩

/-! ## The nodes after a change -/

theorem node?_put (hl : l ≠ []) (n : Node) (m : Location) :
    (d.put l n).node? m = if m = l then some n else d.node? m := by
  unfold node? put
  by_cases hm : m = []
  · subst hm
    simp [hl.symm]
  · by_cases h : m = l
    · simp [h, hl]
    · simp [hm, h, Std.ExtTreeMap.getElem?_insert, Ne.symm h]

theorem node?_erase (hl : l ≠ []) (m : Location) :
    (d.erase l).node? m = if m = l then none else d.node? m := by
  unfold node? erase
  by_cases hm : m = []
  · subst hm
    simp [hl.symm]
  · by_cases h : m = l
    · simp [h, hl]
    · simp [hm, h, Std.ExtTreeMap.getElem?_erase, Ne.symm h]

theorem node?_stamp_of_ne {now : Instant} (h : m ≠ l) : (d.stamp l now).node? m = d.node? m := by
  unfold stamp
  split
  · by_cases hl : l = []
    · subst hl
      simp [node?, put, h, Std.ExtTreeMap.getElem?_insert, Ne.symm h]
    · rw [node?_put hl, if_neg h]
  · rfl

theorem bare_node?_stamp (d : Disk) (l : Location) (now : Instant) (m : Location) :
    ((d.stamp l now).node? m).map Node.bare = (d.node? m).map Node.bare := by
  by_cases h : m = l
  · subst h
    unfold stamp
    split
    · next mode old hn =>
      by_cases hm : m = []
      · subst hm
        rfl
      · rw [node?_put hm, if_pos rfl]
        simp [node?, hm, hn, Node.bare]
    · rfl
  · rw [node?_stamp_of_ne h]

theorem bare_eq_directory {o : Option Node} :
    o.map Node.bare = some (.directory 0 0) ↔
      ∃ mode modified, o = some (.directory mode modified) := by
  rcases o with _ | _ | _ | _ <;> simp [Node.bare]

theorem isDir_iff : d.IsDir l ↔ (d.node? l).map Node.bare = some (.directory 0 0) :=
  bare_eq_directory.symm

theorem isDir_stamp {now : Instant} : (d.stamp l now).IsDir m ↔ d.IsDir m := by
  rw [isDir_iff, isDir_iff, bare_node?_stamp]

/-! ## One name of a walk -/

/-- A name that is looked up, not stepped over. -/
structure IsName (name : String) : Prop where
  ne_dot : name ≠ "."
  ne_dots : name ≠ ".."
  short : name.utf8ByteSize ≤ Path.nameLimit

theorem name_cases (name : String) :
    name = "." ∨ name = ".." ∨ Path.nameLimit < name.utf8ByteSize ∨ IsName name := by
  by_cases h₁ : name = "."
  · exact .inl h₁
  by_cases h₂ : name = ".."
  · exact .inr (.inl h₂)
  by_cases h₃ : Path.nameLimit < name.utf8ByteSize
  · exact .inr (.inr (.inl h₃))
  · exact .inr (.inr (.inr ⟨h₁, h₂, Nat.not_lt.mp h₃⟩))

section Steps

variable {J : Location → List String → Except IoFault Location} {name : String}

@[simp] theorem walkWith_nil : d.walkWith follow J here [] = .ok here := rfl

@[simp] theorem walkWith_dot :
    d.walkWith follow J here ("." :: xs) = d.walkWith follow J here xs := by
  simp [walkWith]

@[simp] theorem walkWith_dots :
    d.walkWith follow J here (".." :: xs) = d.walkWith follow J here.dropLast xs := by
  simp [walkWith]

theorem walkWith_long (h : Path.nameLimit < name.utf8ByteSize) :
    d.walkWith follow J here (name :: xs) = .error .nameTooLong := by
  have h₁ : name ≠ "." := by
    rintro rfl
    exact absurd h (by decide)
  have h₂ : name ≠ ".." := by
    rintro rfl
    exact absurd h (by decide)
  simp [walkWith, h₁, h₂, h]

theorem walkWith_isName (hn : IsName name) :
    d.walkWith follow J here (name :: xs) =
      match d.node? (here ++ [name]) with
      | none => if xs = [] then .ok (here ++ [name]) else .error .notFound
      | some (.directory _ _) => d.walkWith follow J (here ++ [name]) xs
      | some (.file _ _ _) => if xs = [] then .ok (here ++ [name]) else .error .notDirectory
      | some (.link target) =>
        if xs = [] ∧ ¬follow then .ok (here ++ [name])
        else
          match Path.ofText target with
          | .error why => .error why
          | .ok p => J (if p.absolute then [] else here) (p.steps ++ xs) :=
  (if_neg hn.ne_dot).trans ((if_neg hn.ne_dots).trans (if_neg (Nat.not_lt.mpr hn.short)))

theorem walkWith_isDir (hn : IsName name) (h : d.IsDir (here ++ [name])) :
    d.walkWith follow J here (name :: xs) = d.walkWith follow J (here ++ [name]) xs := by
  obtain ⟨_, _, h⟩ := h
  rw [walkWith_isName hn, h]

theorem walkWith_isEnd (hn : IsName name) (h : d.IsEnd (here ++ [name]))
    (hw : d.walkWith follow J here (name :: xs) = .ok m) : xs = [] ∧ here ++ [name] = m := by
  rw [walkWith_isName hn] at hw
  rcases h with h | ⟨_, _, _, h⟩
  · rw [h] at hw
    simp only at hw
    split at hw <;> simp_all
  · rw [h] at hw
    simp only at hw
    split at hw <;> simp_all

theorem walkWith_link {target : String} (hn : IsName name)
    (h : d.node? (here ++ [name]) = some (.link target)) (hx : ¬(xs = [] ∧ follow = false)) :
    d.walkWith follow J here (name :: xs) =
      (Path.ofText target).bind fun p =>
        J (if p.absolute then [] else here) (p.steps ++ xs) := by
  rw [walkWith_isName hn, h]
  simp only [Bool.not_eq_true, if_neg hx]
  cases Path.ofText target <;> rfl

theorem walkWith_last (hn : IsName name)
    (h : follow = true → ∀ target, d.node? (here ++ [name]) ≠ some (.link target)) :
    d.walkWith follow J here [name] = .ok (here ++ [name]) := by
  rw [walkWith_isName hn]
  rcases hd : d.node? (here ++ [name]) with _ | _ | _ | target
  · simp
  · simp
  · simp
  · cases follow with
    | true => exact absurd hd (h rfl target)
    | false => simp

/-- At a name there is a directory, an end or a link. -/
theorem node_cases (d : Disk) (l : Location) :
    d.IsDir l ∨ d.IsEnd l ∨ ∃ target, d.node? l = some (.link target) := by
  rcases hd : d.node? l with _ | ⟨_, _, _⟩ | ⟨_, _⟩ | target
  · exact .inr (.inl (.inl hd))
  · exact .inr (.inl (.inr ⟨_, _, _, hd⟩))
  · exact .inl ⟨_, _, hd⟩
  · exact .inr (.inr ⟨target, rfl⟩)

theorem IsDir.not_isEnd (h : d.IsDir l) : ¬d.IsEnd l := by
  obtain ⟨_, _, h⟩ := h
  rintro (he | ⟨_, _, _, he⟩) <;> simp [h] at he

end Steps

/-! ## Walking on -/

theorem walkWith_append {J J' : Location → List String → Except IoFault Location}
    (hl : d.IsDir l) (hys : ys ≠ [])
    (hJ : ∀ here xs, J here xs = .ok l → J' here (xs ++ ys) = .ok m)
    (hend : d.walkWith follow J' l ys = .ok m)
    (h : d.walkWith true J here xs = .ok l) :
    d.walkWith follow J' here (xs ++ ys) = .ok m := by
  induction xs generalizing here with
  | nil =>
    obtain rfl : here = l := by simpa using h
    exact hend
  | cons name xs ih =>
    rw [List.cons_append]
    rcases name_cases name with rfl | rfl | hlong | hn
    · rw [walkWith_dot] at h ⊢
      exact ih h
    · rw [walkWith_dots] at h ⊢
      exact ih h
    · rw [walkWith_long hlong] at h
      cases h
    · rcases d.node_cases (here ++ [name]) with hd | he | ⟨target, ht⟩
      · rw [walkWith_isDir hn hd] at h ⊢
        exact ih h
      · obtain ⟨-, rfl⟩ := walkWith_isEnd hn he h
        exact absurd he hl.not_isEnd
      · rw [walkWith_link hn ht (by simp)] at h
        rw [walkWith_link hn ht (by simp [hys])]
        rcases hp : Path.ofText target with why | p
        · rw [hp] at h
          cases h
        · rw [hp] at h
          simp only [Except.bind] at h ⊢
          rw [← List.append_assoc]
          exact hJ _ _ h

/-- A walk that ends in a directory can be continued from there. -/
theorem walk_append {n : Nat} (hl : d.IsDir l) (hys : ys ≠ [])
    (hend : ∀ k, d.walk follow k l ys = .ok m) (h : d.walk true n here xs = .ok l) :
    d.walk follow n here (xs ++ ys) = .ok m := by
  induction n generalizing here xs with
  | zero => exact walkWith_append hl hys (fun _ _ h => by cases h) (hend 0) h
  | succ n ih => exact walkWith_append hl hys (fun _ _ h => ih h) (hend (n + 1)) h

theorem walk_last {name : String} (hn : IsName name)
    (h : follow = true → ∀ target, d.node? (here ++ [name]) ≠ some (.link target)) (k : Nat) :
    d.walk follow k here [name] = .ok (here ++ [name]) := by
  cases k <;> exact walkWith_last hn h

theorem walk_dot (d : Disk) (follow : Bool) (here : Location) (k : Nat) :
    d.walk follow k here ["."] = .ok here := by
  cases k <;> simp [walk]

/-- Every directory above the location is there, and so is the one at it. -/
def IsReached (d : Disk) (l : Location) : Prop := ∀ n, d.IsDir (l.take n)

theorem IsReached.isDir (h : d.IsReached l) : d.IsDir l := by
  simpa using h l.length

theorem IsReached.dropLast (h : d.IsReached l) : d.IsReached l.dropLast := by
  intro n
  rw [List.dropLast_eq_take, List.take_take]
  exact h _

theorem IsReached.child {name : String} (h : d.IsReached l) (hd : d.IsDir (l ++ [name])) :
    d.IsReached (l ++ [name]) := by
  intro n
  rcases Nat.lt_or_ge l.length n with hlt | hle
  · rwa [List.take_of_length_le (by rw [List.length_append]; exact hlt)]
  · rw [List.take_append_of_le_length hle]
    exact h n

theorem isReached_top (d : Disk) : d.IsReached [] := by
  intro n
  simpa using isDir_top d

theorem walkWith_init {J J' : Location → List String → Except IoFault Location} {name : String}
    (hJ : ∀ here xs, d.IsReached here → J here (xs ++ [name]) = .ok m →
      ∃ l, J' here xs = .ok l ∧ d.IsDir l)
    (hh : d.IsReached here) (h : d.walkWith follow J here (xs ++ [name]) = .ok m) :
    ∃ l, d.walkWith true J' here xs = .ok l ∧ d.IsDir l := by
  induction xs generalizing here with
  | nil => exact ⟨here, rfl, hh.isDir⟩
  | cons x xs ih =>
    rw [List.cons_append] at h
    rcases name_cases x with rfl | rfl | hlong | hn
    · rw [walkWith_dot] at h ⊢
      exact ih hh h
    · rw [walkWith_dots] at h ⊢
      exact ih hh.dropLast h
    · rw [walkWith_long hlong] at h
      cases h
    · rcases d.node_cases (here ++ [x]) with hd | he | ⟨target, ht⟩
      · rw [walkWith_isDir hn hd] at h ⊢
        exact ih (hh.child hd) h
      · have hnil := (walkWith_isEnd hn he h).1
        simp at hnil
      · rw [walkWith_link hn ht (by simp)] at h ⊢
        rcases hp : Path.ofText target with why | p
        · rw [hp] at h
          cases h
        · rw [hp] at h
          have h : J (if p.absolute then [] else here) (p.steps ++ (xs ++ [name])) = .ok m := h
          rw [← List.append_assoc] at h
          refine hJ _ _ ?_ h
          split
          · exact isReached_top d
          · exact hh

/-- The way to the last name of a walk leads to a directory. -/
theorem walk_init {n : Nat} {name : String} (hh : d.IsReached here)
    (h : d.walk follow n here (xs ++ [name]) = .ok m) :
    ∃ l, d.walk true n here xs = .ok l ∧ d.IsDir l := by
  induction n generalizing here xs with
  | zero => exact walkWith_init (fun _ _ _ h => by cases h) hh h
  | succ n ih => exact walkWith_init (fun _ _ hh h => ih hh h) hh h

/-! ## What a walk went through -/

section Through

variable {J J' : Location → List String → Except IoFault Location}

theorem walkWith_short
    (hJ : ∀ here xs, J here xs = .ok m → ∀ name ∈ xs, name.utf8ByteSize ≤ Path.nameLimit)
    (h : d.walkWith follow J here xs = .ok m) :
    ∀ name ∈ xs, name.utf8ByteSize ≤ Path.nameLimit := by
  induction xs generalizing here with
  | nil => simp
  | cons name xs ih =>
    suffices hxs : name.utf8ByteSize ≤ Path.nameLimit ∧
        ∀ name ∈ xs, name.utf8ByteSize ≤ Path.nameLimit by
      simpa using hxs
    rcases name_cases name with rfl | rfl | hlong | hn
    · rw [walkWith_dot] at h
      exact ⟨by decide, ih h⟩
    · rw [walkWith_dots] at h
      exact ⟨by decide, ih h⟩
    · rw [walkWith_long hlong] at h
      cases h
    · refine ⟨hn.short, ?_⟩
      rcases d.node_cases (here ++ [name]) with hd | he | ⟨target, ht⟩
      · rw [walkWith_isDir hn hd] at h
        exact ih h
      · obtain ⟨rfl, -⟩ := walkWith_isEnd hn he h
        simp
      · by_cases hx : xs = [] ∧ follow = false
        · simp [hx.1]
        · rw [walkWith_link hn ht hx] at h
          rcases hp : Path.ofText target with why | p
          · rw [hp] at h
            cases h
          · rw [hp] at h
            intro name' hname'
            exact hJ _ _ h name' (List.mem_append_right _ hname')

/-- No name of a walk that succeeds is too long. -/
theorem walk_short {n : Nat} (h : d.walk follow n here xs = .ok m) :
    ∀ name ∈ xs, name.utf8ByteSize ≤ Path.nameLimit := by
  induction n generalizing here xs with
  | zero => exact walkWith_short (fun _ _ h => by cases h) h
  | succ n ih => exact walkWith_short (fun _ _ h => ih h) h

theorem walkWith_nofollow
    (hJ : ∀ here xs, J here xs = .ok m → ∃ l, J' here xs = .ok l ∧ d.node? l ≠ none)
    (hm : d.IsDir m) (h : d.walkWith true J here xs = .ok m) :
    ∃ l, d.walkWith false J' here xs = .ok l ∧ d.node? l ≠ none := by
  induction xs generalizing here with
  | nil =>
    obtain rfl : here = m := by simpa using h
    obtain ⟨_, _, hm⟩ := hm
    exact ⟨here, rfl, by simp [hm]⟩
  | cons name xs ih =>
    rcases name_cases name with rfl | rfl | hlong | hn
    · rw [walkWith_dot] at h ⊢
      exact ih h
    · rw [walkWith_dots] at h ⊢
      exact ih h
    · rw [walkWith_long hlong] at h
      cases h
    · rcases d.node_cases (here ++ [name]) with hd | he | ⟨target, ht⟩
      · rw [walkWith_isDir hn hd] at h ⊢
        exact ih h
      · obtain ⟨-, rfl⟩ := walkWith_isEnd hn he h
        exact absurd he hm.not_isEnd
      · by_cases hx : xs = []
        · subst hx
          exact ⟨here ++ [name], walkWith_last hn (fun hfalse => by cases hfalse), by simp [ht]⟩
        · rw [walkWith_link hn ht (by simp)] at h
          rw [walkWith_link hn ht (by simp [hx])]
          rcases hp : Path.ofText target with why | p
          · rw [hp] at h
            cases h
          · rw [hp] at h
            exact hJ _ _ h

/-- Where a walk finds a directory there is something, even if the last link is not followed. -/
theorem walk_nofollow {n : Nat} (hm : d.IsDir m) (h : d.walk true n here xs = .ok m) :
    ∃ l, d.walk false n here xs = .ok l ∧ d.node? l ≠ none := by
  induction n generalizing here xs with
  | zero => exact walkWith_nofollow (fun _ _ h => by cases h) hm h
  | succ n ih => exact walkWith_nofollow (fun _ _ h => ih h) hm h

/-- Single dots do not matter on the way to a directory. -/
theorem walkWith_undotted
    (hJ : ∀ here xs ys, xs.filter (· ≠ ".") = ys.filter (· ≠ ".") →
      J here xs = .ok m → J here ys = .ok m)
    (hm : d.IsDir m) :
    d.walkWith true J here xs = .ok m ↔ d.walkWith true J here (xs.filter (· ≠ ".")) = .ok m := by
  induction xs generalizing here with
  | nil => rfl
  | cons name xs ih =>
    rcases name_cases name with rfl | rfl | hlong | hn
    · rw [walkWith_dot, ih]
      rfl
    · have hkeep : (".." :: xs).filter (· ≠ ".") = ".." :: xs.filter (· ≠ ".") := by simp
      rw [hkeep, walkWith_dots, walkWith_dots, ih]
    · have hkeep : (name :: xs).filter (· ≠ ".") = name :: xs.filter (· ≠ ".") := by
        apply List.filter_cons_of_pos
        have hne : name ≠ "." := by
          rintro rfl
          exact absurd hlong (by decide)
        simpa using hne
      rw [hkeep, walkWith_long hlong, walkWith_long hlong]
    · have hkeep : (name :: xs).filter (· ≠ ".") = name :: xs.filter (· ≠ ".") :=
        List.filter_cons_of_pos (by simpa using hn.ne_dot)
      rw [hkeep]
      rcases d.node_cases (here ++ [name]) with hd | he | ⟨target, ht⟩
      · rw [walkWith_isDir hn hd, walkWith_isDir hn hd, ih]
      · constructor
        · intro h
          obtain ⟨-, rfl⟩ := walkWith_isEnd hn he h
          exact absurd he hm.not_isEnd
        · intro h
          obtain ⟨-, rfl⟩ := walkWith_isEnd hn he h
          exact absurd he hm.not_isEnd
      · rw [walkWith_link hn ht (by simp), walkWith_link hn ht (by simp)]
        rcases hp : Path.ofText target with why | p
        · rfl
        · have hfilter : (p.steps ++ xs).filter (· ≠ ".") =
              (p.steps ++ xs.filter (· ≠ ".")).filter (· ≠ ".") := by
            simp [List.filter_append, List.filter_filter]
          exact ⟨hJ _ _ _ hfilter, hJ _ _ _ hfilter.symm⟩

theorem walk_undotted {n : Nat} (hm : d.IsDir m)
    (hxs : xs.filter (· ≠ ".") = ys.filter (· ≠ ".")) (h : d.walk true n here xs = .ok m) :
    d.walk true n here ys = .ok m := by
  induction n generalizing here xs ys with
  | zero =>
    have herror : ∀ (here : Location) (xs ys : List String), xs.filter (· ≠ ".") =
        ys.filter (· ≠ ".") → Except.error IoFault.tooManyLinks = Except.ok m →
        Except.error IoFault.tooManyLinks = Except.ok m := fun _ _ _ _ h => h
    have hx := (walkWith_undotted herror hm).mp h
    rw [hxs] at hx
    exact (walkWith_undotted herror hm).mpr hx
  | succ n ih =>
    have hJ : ∀ (here : Location) (xs ys : List String), xs.filter (· ≠ ".") =
        ys.filter (· ≠ ".") → d.walk true n here xs = .ok m → d.walk true n here ys = .ok m :=
      fun _ _ _ hf h => ih hf h
    have hx := (walkWith_undotted hJ hm).mp h
    rw [hxs] at hx
    exact (walkWith_undotted hJ hm).mpr hx

end Through

/-- The disk is a tree: what is there lies in a directory. -/
def IsTree (d : Disk) : Prop := ∀ l name, d.node? (l ++ [name]) ≠ none → d.IsDir l

theorem IsDir.dropLast (ht : d.IsTree) (h : d.IsDir l) : d.IsDir l.dropLast := by
  rcases List.eq_nil_or_concat l with rfl | ⟨front, last, rfl⟩
  · exact h
  · obtain ⟨_, _, h⟩ := h
    rw [List.concat_eq_append] at h ⊢
    rw [List.dropLast_concat]
    exact ht front last (by simp [h])

/-- A walk through a tree ends in a directory, or at a name in one. -/
theorem walkWith_parent {J : Location → List String → Except IoFault Location} (ht : d.IsTree)
    (hJ : ∀ here xs, d.IsDir here → J here xs = .ok m → d.IsDir m.dropLast) (hh : d.IsDir here)
    (h : d.walkWith follow J here xs = .ok m) : d.IsDir m.dropLast := by
  induction xs generalizing here with
  | nil =>
    obtain rfl : here = m := by simpa using h
    exact hh.dropLast ht
  | cons name xs ih =>
    rcases name_cases name with rfl | rfl | hlong | hn
    · rw [walkWith_dot] at h
      exact ih hh h
    · rw [walkWith_dots] at h
      exact ih (hh.dropLast ht) h
    · rw [walkWith_long hlong] at h
      cases h
    · rcases d.node_cases (here ++ [name]) with hd | he | ⟨target, htarget⟩
      · rw [walkWith_isDir hn hd] at h
        exact ih hd h
      · obtain ⟨-, rfl⟩ := walkWith_isEnd hn he h
        simpa using hh
      · by_cases hx : xs = [] ∧ follow = false
        · obtain ⟨rfl, rfl⟩ := hx
          rw [walkWith_last hn (fun hfalse => by cases hfalse)] at h
          cases h
          simpa using hh
        · rw [walkWith_link hn htarget hx] at h
          rcases hp : Path.ofText target with why | p
          · rw [hp] at h
            cases h
          · rw [hp] at h
            refine hJ _ _ ?_ h
            split
            · exact isDir_top d
            · exact hh

theorem walk_parent {n : Nat} (ht : d.IsTree) (hh : d.IsDir here)
    (h : d.walk follow n here xs = .ok m) : d.IsDir m.dropLast := by
  induction n generalizing here xs with
  | zero => exact walkWith_parent ht (fun _ _ _ h => by cases h) hh h
  | succ n ih => exact walkWith_parent ht (fun _ _ hh h => ih hh h) hh h

/-! ## Walks on two disks -/

/-- Where the disks differ, a walk to `m` on `d` does not come by, or ends there. -/
def Alike (d e : Disk) (m : Location) : Prop :=
  ∀ l, (e.node? l).map Node.bare = (d.node? l).map Node.bare ∨
    d.IsEnd l ∧ (l = m → ∀ target, e.node? l ≠ some (.link target))

theorem isDir_of_bare (hb : (e.node? l).map Node.bare = (d.node? l).map Node.bare)
    (h : d.IsDir l) : e.IsDir l := by
  rw [isDir_iff] at h ⊢
  rw [hb, h]

theorem link_of_bare {target : String}
    (hb : (e.node? l).map Node.bare = (d.node? l).map Node.bare)
    (h : d.node? l = some (.link target)) : e.node? l = some (.link target) := by
  rw [h] at hb
  rcases he : e.node? l with _ | _ | _ | _ <;> simp_all [Node.bare]

theorem walkWith_transfer {J J' : Location → List String → Except IoFault Location}
    (ha : Alike d e m)
    (hf : follow = follow' ∨ follow = false ∧ ∀ target, d.node? m ≠ some (.link target))
    (hJ : ∀ here xs, J here xs = .ok m → J' here xs = .ok m)
    (h : d.walkWith follow J here xs = .ok m) : e.walkWith follow' J' here xs = .ok m := by
  induction xs generalizing here with
  | nil => exact h
  | cons name xs ih =>
    rcases name_cases name with rfl | rfl | hlong | hn
    · rw [walkWith_dot] at h ⊢
      exact ih h
    · rw [walkWith_dots] at h ⊢
      exact ih h
    · rw [walkWith_long hlong] at h
      cases h
    · rcases d.node_cases (here ++ [name]) with hd | he | ⟨target, ht⟩
      · rcases ha (here ++ [name]) with hb | ⟨he, -⟩
        · rw [walkWith_isDir hn hd] at h
          rw [walkWith_isDir hn (isDir_of_bare hb hd)]
          exact ih h
        · exact absurd he hd.not_isEnd
      · obtain ⟨rfl, rfl⟩ := walkWith_isEnd hn he h
        apply walkWith_last hn
        intro _
        rcases ha (here ++ [name]) with hb | ⟨-, hlink⟩
        · intro target ht
          have := link_of_bare hb.symm ht
          rcases he with he | ⟨_, _, _, he⟩ <;> simp [he] at this
        · exact hlink rfl
      · have ht' : e.node? (here ++ [name]) = some (.link target) := by
          rcases ha (here ++ [name]) with hb | ⟨he, -⟩
          · exact link_of_bare hb ht
          · rcases he with he | ⟨_, _, _, he⟩ <;> simp [he] at ht
        by_cases hx : xs = [] ∧ follow = false
        · obtain ⟨rfl, rfl⟩ := hx
          rw [walkWith_last hn (fun hfalse => by cases hfalse)] at h
          cases h
          rcases hf with rfl | ⟨-, hm⟩
          · exact walkWith_last hn fun hfalse => by cases hfalse
          · exact absurd ht (hm target)
        · have hx' : ¬(xs = [] ∧ follow' = false) := by
            rintro ⟨rfl, rfl⟩
            rcases hf with rfl | ⟨rfl, -⟩ <;> exact hx ⟨rfl, rfl⟩
          rw [walkWith_link hn ht hx] at h
          rw [walkWith_link hn ht' hx']
          rcases hp : Path.ofText target with why | p
          · rw [hp] at h
            cases h
          · rw [hp] at h
            exact hJ _ _ h

/-- A walk does not notice changes where it does not come by. -/
theorem walk_transfer {n : Nat} (ha : Alike d e m)
    (hf : follow = follow' ∨ follow = false ∧ ∀ target, d.node? m ≠ some (.link target))
    (h : d.walk follow n here xs = .ok m) : e.walk follow' n here xs = .ok m := by
  induction n generalizing here xs with
  | zero => exact walkWith_transfer ha hf (fun _ _ h => by cases h) h
  | succ n ih => exact walkWith_transfer ha hf (fun _ _ h => ih h) h

end Disk

end SessionStore
