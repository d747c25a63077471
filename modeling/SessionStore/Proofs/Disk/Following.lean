import SessionStore.Proofs.Disk.Ends

/-! # Links followed to their end

A walk that follows every link never ends at one, for what it has walked through are directories. A
path therefore leads to a file, to a directory or to nothing, and where it does not lead anywhere
all calls that follow it fail alike.
-/

namespace SessionStore.Disk

variable {d e : Disk} {path : String} {here l m : Location} {xs : List String}

theorem IsDir.not_link (h : d.IsDir l) (target : String) : d.node? l ≠ some (.link target) := by
  obtain ⟨_, _, h⟩ := h
  simp [h]

theorem walkWith_ends {J : Location → List String → Except IoFault Location}
    (hJ : ∀ here xs, d.IsReached here → J here xs = .ok m → d.IsReached m ∨ d.IsEnd m)
    (hh : d.IsReached here) (h : d.walkWith true J here xs = .ok m) :
    d.IsReached m ∨ d.IsEnd m := by
  induction xs generalizing here with
  | nil =>
    obtain rfl : here = m := by simpa using h
    exact .inl hh
  | cons name xs ih =>
    rcases name_cases name with rfl | rfl | hlong | hn
    · rw [walkWith_dot] at h
      exact ih hh h
    · rw [walkWith_dots] at h
      exact ih hh.dropLast h
    · rw [walkWith_long hlong] at h
      cases h
    · rcases d.node_cases (here ++ [name]) with hd | he | ⟨text, ht⟩
      · rw [walkWith_isDir hn hd] at h
        exact ih (hh.child hd) h
      · obtain ⟨-, rfl⟩ := walkWith_isEnd hn he h
        exact .inr he
      · rw [walkWith_link hn ht (by simp)] at h
        rcases hp : Path.ofText text with why | p
        · rw [hp] at h
          cases h
        · rw [hp] at h
          refine hJ _ _ ?_ h
          split
          · exact isReached_top d
          · exact hh

/-- A walk that follows all links ends in a directory of the tree, or where it goes no further. -/
theorem walk_ends {n : Nat} (hh : d.IsReached here) (h : d.walk true n here xs = .ok m) :
    d.IsReached m ∨ d.IsEnd m := by
  induction n generalizing here xs with
  | zero => exact walkWith_ends (fun _ _ _ h => by cases h) hh h
  | succ n ih => exact walkWith_ends (fun _ _ hh h => ih hh h) hh h

theorem walk_not_link {n : Nat} (hh : d.IsReached here) (h : d.walk true n here xs = .ok m)
    (target : String) : d.node? m ≠ some (.link target) := by
  rcases walk_ends hh h with hreached | hend
  · exact hreached.isDir.not_link target
  · exact hend.not_link target

/-- At the end of a path there is no link. -/
theorem Reaches.not_link (h : d.Reaches path l) (target : String) :
    d.node? l ≠ some (.link target) := by
  obtain ⟨q, -, hloc⟩ := h
  exact walk_not_link (isReached_top d) hloc target

theorem Reaches.setModified (h : d.Reaches path l) (time : SessionStore.Instant) :
    d.setModified path time = match d.node? l with
      | some (.file contents mode _) => .ok (d.put l (.file contents mode time))
      | some (.directory _ _) => .error .isDirectory
      | none | some (.link _) => .error .notFound := by
  obtain ⟨q, hq, hl⟩ := h
  simp only [Disk.setModified, hq, find, hl, bind, Except.bind]
  rcases d.node? l with _ | ⟨_, _, _⟩ | ⟨_, _⟩ | _ <;> rfl

/-- The path can be followed, or it is for one fault that nothing can be done with it. -/
theorem reaches_or (d : Disk) (path : String) :
    (∃ l, d.Reaches path l) ∨ ∃ why, d.stat path = .error why ∧ d.read path = .error why ∧
      ∀ time, d.setModified path time = .error why := by
  rcases hq : Path.ofText path with why | q
  · right
    refine ⟨why, ?_, ?_, fun time => ?_⟩ <;>
      simp [Disk.stat, Disk.read, Disk.setModified, hq, bind, Except.bind]
  rcases hl : d.locate true q with why | l
  · right
    refine ⟨why, ?_, ?_, fun time => ?_⟩ <;>
      simp [Disk.stat, Disk.read, Disk.setModified, find, hq, hl, bind, Except.bind]
  · exact .inl ⟨l, q, hq, hl⟩

theorem read_eq_ok_iff {contents : Bytes} : d.read path = .ok contents ↔
    ∃ l mode modified, d.Reaches path l ∧ d.node? l = some (.file contents mode modified) := by
  constructor
  · intro h
    rcases d.reaches_or path with ⟨l, hl⟩ | ⟨why, -, hread, -⟩
    · rw [hl.read] at h
      rcases hn : d.node? l with _ | ⟨_, mode, modified⟩ | ⟨_, _⟩ | _ <;> rw [hn] at h <;> cases h
      exact ⟨l, mode, modified, hl, hn⟩
    · rw [hread] at h
      cases h
  · rintro ⟨l, mode, modified, hl, hn⟩
    rw [hl.read, hn]

/-- The file that the path leads to has got the time, and nothing else has changed. -/
def Retimed (path : String) (time : SessionStore.Instant) (d e : Disk) : Prop :=
  ∃ l contents mode modified, d.Reaches path l ∧
    d.node? l = some (.file contents mode modified) ∧
    e.node? l = some (.file contents mode time) ∧ ∀ m, m ≠ l → e.node? m = d.node? m

theorem Reaches.retimed {contents : Bytes} {mode : Nat} {modified : SessionStore.Instant}
    (h : d.Reaches path l) (hn : d.node? l = some (.file contents mode modified))
    (time : SessionStore.Instant) :
    Retimed path time d (d.put l (.file contents mode time)) := by
  have hl : l ≠ [] := by
    rintro rfl
    simp [node?, top] at hn
  refine ⟨l, contents, mode, modified, h, hn, ?_, fun m hm => ?_⟩
  · rw [node?_put hl, if_pos rfl]
  · rw [node?_put hl, if_neg hm]

end SessionStore.Disk
