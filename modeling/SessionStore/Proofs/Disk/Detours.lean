import Mathlib.Data.List.Induction
import SessionStore.Proofs.Disk.Following

/-! # Ways through links

A walk that succeeds does so with any greater number of links to follow. Where it comes through a
link, it does what the link's target says and goes on from there; a walk that ends at a file
therefore comes through no link twice whose target leads to the file.
-/

namespace SessionStore.Disk

variable {d e : Disk} {follow : Bool} {n k : Nat} {here l m t : Location} {xs ys : List String}

/-! ## The number of links -/

theorem walk_succ (h : d.walk follow n here xs = .ok m) :
    d.walk follow (n + 1) here xs = .ok m := by
  have hsame : Alike d d m := fun _ => .inl rfl
  induction n generalizing here xs with
  | zero => exact walkWith_transfer hsame (.inl rfl) (fun _ _ h => by cases h) h
  | succ n ih => exact walkWith_transfer hsame (.inl rfl) (fun _ _ h => ih h) h

theorem walk_mono (hk : n ≤ k) (h : d.walk follow n here xs = .ok m) :
    d.walk follow k here xs = .ok m := by
  induction hk with
  | refl => exact h
  | step _ ih => exact walk_succ ih

/-- Where a walk ends does not depend on how many links it may follow. -/
theorem walk_unique (h : d.walk follow n here xs = .ok l) (h' : d.walk follow k here xs = .ok m) :
    l = m := by
  have hl := walk_mono (Nat.le_max_left n k) h
  have hm := walk_mono (Nat.le_max_right n k) h'
  rw [hl] at hm
  cases hm
  rfl

/-! ## Walks in two parts -/

/-- A walk that goes on comes to a directory first. -/
theorem walk_before (hh : d.IsReached here) (hys : ys ≠ [])
    (h : d.walk follow n here (xs ++ ys) = .ok m) :
    ∃ l, d.walk true n here xs = .ok l ∧ d.IsDir l := by
  induction ys using List.reverseRecOn generalizing follow m with
  | nil => exact absurd rfl hys
  | append_singleton ys y ih =>
    rw [← List.append_assoc] at h
    obtain ⟨l, hl, hdir⟩ := walk_init hh h
    by_cases hempty : ys = []
    · rw [hempty, List.append_nil] at hl
      exact ⟨l, hl, hdir⟩
    · exact ih hempty hl

theorem walkWith_continued {J : Disk → Bool → Location → List String → Except IoFault Location}
    (hn : ∀ e follow here xs, walkWith e follow (J e follow) here xs = walk e follow n here xs)
    (hJ : ∀ here xs, J d true here xs = .ok l → ∃ k, ∀ e, Alike d e l → ∀ follow ys, ys ≠ [] →
      J e follow here (xs ++ ys) = e.walk follow k l ys)
    (hl : d.IsDir l) (h : d.walkWith true (J d true) here xs = .ok l) :
    ∃ k, ∀ e, Alike d e l → ∀ follow ys, ys ≠ [] →
      e.walkWith follow (J e follow) here (xs ++ ys) = e.walk follow k l ys := by
  induction xs generalizing here with
  | nil =>
    obtain rfl : here = l := by simpa using h
    exact ⟨n, fun e _ follow ys _ => hn e follow here ys⟩
  | cons name xs ih =>
    simp only [List.cons_append]
    rcases name_cases name with rfl | rfl | hlong | hname
    · rw [walkWith_dot] at h
      simpa only [walkWith_dot] using ih h
    · rw [walkWith_dots] at h
      simpa only [walkWith_dots] using ih h
    · rw [walkWith_long hlong] at h
      cases h
    · rcases d.node_cases (here ++ [name]) with hd | he | ⟨target, ht⟩
      · rw [walkWith_isDir hname hd] at h
        obtain ⟨k, hk⟩ := ih h
        refine ⟨k, fun e he follow ys hys => ?_⟩
        have hdir : e.IsDir (here ++ [name]) := by
          rcases he (here ++ [name]) with hb | ⟨hend, -⟩
          · exact isDir_of_bare hb hd
          · exact absurd hend hd.not_isEnd
        rw [walkWith_isDir hname hdir, hk e he follow ys hys]
      · obtain ⟨-, rfl⟩ := walkWith_isEnd hname he h
        exact absurd he hl.not_isEnd
      · rw [walkWith_link hname ht (by simp)] at h
        rcases hp : Path.ofText target with why | p
        · rw [hp] at h
          cases h
        · rw [hp] at h
          obtain ⟨k, hk⟩ := hJ _ _ h
          refine ⟨k, fun e he follow ys hys => ?_⟩
          have hlink : e.node? (here ++ [name]) = some (.link target) := by
            rcases he (here ++ [name]) with hb | ⟨hend, -⟩
            · exact link_of_bare hb ht
            · exact absurd ht (hend.not_link target)
          rw [walkWith_link hname hlink (by simp [hys]), hp]
          simpa only [Except.bind, List.append_assoc] using hk e he follow ys hys

/-- From the directory to which a walk comes it goes on with a number of links that is the same on
all disks on which it comes there the same way. -/
theorem walk_continued (hl : d.IsDir l) (h : d.walk true n here xs = .ok l) :
    ∃ k, ∀ e, Alike d e l → ∀ follow ys, ys ≠ [] →
      e.walk follow n here (xs ++ ys) = e.walk follow k l ys := by
  induction n generalizing here xs with
  | zero =>
    exact walkWith_continued (n := 0) (J := fun _ _ _ _ => .error .tooManyLinks)
      (fun _ _ _ _ => rfl) (fun _ _ h => by cases h) hl h
  | succ n ih =>
    exact walkWith_continued (n := n + 1) (J := fun e follow => e.walk follow n)
      (fun _ _ _ _ => rfl) (fun _ _ h => ih h) hl h

/-! ## Coming through a link -/

/-- A walk to a link goes on from there, with one link less to follow. -/
theorem walk_link {name target : String} (hn : IsName name)
    (hlink : d.node? (here ++ [name]) = some (.link target)) :
    d.walk true n here [name] = .ok m ↔ ∃ p j, n = j + 1 ∧ Path.ofText target = .ok p ∧
      d.walk true j (if p.absolute then [] else here) p.steps = .ok m := by
  cases n with
  | zero =>
    rw [walk, walkWith_link hn hlink (by simp)]
    constructor
    · intro h
      cases hp : Path.ofText target <;> rw [hp] at h <;> cases h
    · rintro ⟨p, j, hj, -⟩
      cases hj
  | succ n =>
    rw [walk, walkWith_link hn hlink (by simp)]
    rcases hp : Path.ofText target with why | p
    · constructor
      · intro h
        cases h
      · rintro ⟨p, j, -, hp, -⟩
        cases hp
    · simp only [Except.bind, List.append_nil]
      constructor
      · exact fun h => ⟨p, n, rfl, rfl, h⟩
      · rintro ⟨q, j, hj, hq, h⟩
        cases hj
        cases hq
        exact h

/-- Behind the target of a link, if that is no directory, no walk goes on. -/
theorem nothing_behind {p : Path} {rest : List String} (hreached : d.IsReached l)
    (hend : d.IsEnd t) (ht : d.walk true k (if p.absolute then [] else l) p.steps = .ok t)
    (h : d.walk true n (if p.absolute then [] else l) (p.steps ++ rest) = .ok m) :
    rest = [] ∧ m = t := by
  have hstart : d.IsReached (if p.absolute then [] else l) := by
    split
    · exact isReached_top d
    · exact hreached
  by_cases hrest : rest = []
  · subst hrest
    rw [List.append_nil] at h
    exact ⟨rfl, walk_unique h ht⟩
  · obtain ⟨l', hl', hdir⟩ := walk_before hstart hrest h
    exact absurd hend (walk_unique hl' ht ▸ hdir).not_isEnd

/-! ## Without an entry -/

theorem IsDir.erase (h : d.IsDir m) (hl : l ≠ []) (hm : m ≠ l) : (d.erase l).IsDir m := by
  unfold IsDir
  rwa [node?_erase hl, if_neg hm]

theorem IsEnd.erase (h : d.IsEnd m) (hl : l ≠ []) : (d.erase l).IsEnd m := by
  unfold IsEnd
  rw [node?_erase hl]
  split
  · exact .inl rfl
  · exact h

theorem isEnd_erase_self (hl : l ≠ []) : (d.erase l).IsEnd l :=
  .inl (by rw [node?_erase hl, if_pos rfl])

/-- What a walk finds without an entry it finds with the entry too. -/
theorem erase_alike (hl : l ≠ []) (hm : m ≠ l) : Alike (d.erase l) d m := by
  intro x
  by_cases hx : x = l
  · subst hx
    exact .inr ⟨isEnd_erase_self hl, fun heq => absurd heq.symm hm⟩
  · exact .inl (by rw [node?_erase hl, if_neg hx])

/-- What a walk finds it finds without an end through which it does not come either. -/
theorem alike_erase (hl : l ≠ []) (h : d.IsEnd l) : Alike d (d.erase l) m := by
  intro x
  by_cases hx : x = l
  · subst hx
    exact .inr ⟨h, fun _ => (isEnd_erase_self hl).not_link⟩
  · exact .inl (by rw [node?_erase hl, if_neg hx])

section Link

variable {name target : String} {p : Path} (hlink : d.node? (l ++ [name]) = some (.link target))
  (hp : Path.ofText target = .ok p)
include hlink hp

theorem walkWith_erase {J J' : Location → List String → Except IoFault Location} {P : Prop}
    (hJ : ∀ here xs, J here xs = .ok m → J' here xs = .ok m ∨ P)
    (hthrough : ∀ rest, J (if p.absolute then [] else l) (p.steps ++ rest) = .ok m → P)
    (h : d.walkWith true J here xs = .ok m) :
    (d.erase (l ++ [name])).walkWith true J' here xs = .ok m ∨ P := by
  induction xs generalizing here with
  | nil => exact .inl h
  | cons x xs ih =>
    rcases name_cases x with rfl | rfl | hlong | hn
    · rw [walkWith_dot] at h ⊢
      exact ih h
    · rw [walkWith_dots] at h ⊢
      exact ih h
    · rw [walkWith_long hlong] at h
      cases h
    by_cases hl : here ++ [x] = l ++ [name]
    · obtain rfl : here = l := (List.append_inj' hl rfl).1
      rw [walkWith_link hn (hl ▸ hlink) (by simp), hp] at h
      exact .inr (hthrough xs h)
    have hsame : (d.erase (l ++ [name])).node? (here ++ [x]) = d.node? (here ++ [x]) := by
      rw [node?_erase (by simp), if_neg hl]
    rcases d.node_cases (here ++ [x]) with hd | he | ⟨other, ht⟩
    · rw [walkWith_isDir hn hd] at h
      rw [walkWith_isDir hn (hd.erase (child_ne_nil l name) hl)]
      exact ih h
    · obtain ⟨rfl, rfl⟩ := walkWith_isEnd hn he h
      exact .inl (walkWith_last hn fun _ other => hsame ▸ he.not_link other)
    · rw [walkWith_link hn ht (by simp)] at h
      rw [walkWith_link hn (hsame.trans ht) (by simp)]
      rcases hq : Path.ofText other with why | q
      · rw [hq] at h
        cases h
      · rw [hq] at h
        exact hJ _ _ h

/-- A walk does not come through the link, or it goes on as the link's target says. -/
theorem walk_erase (h : d.walk true n here xs = .ok m) :
    (d.erase (l ++ [name])).walk true n here xs = .ok m ∨ ∃ k < n, ∃ rest,
      d.walk true k (if p.absolute then [] else l) (p.steps ++ rest) = .ok m := by
  induction n generalizing here xs with
  | zero =>
    exact walkWith_erase hlink hp (fun _ _ h => by cases h) (fun _ h => by cases h) h
  | succ n ih =>
    refine walkWith_erase hlink hp (fun here xs h => ?_)
      (fun rest h => ⟨n, Nat.lt_succ_self n, rest, h⟩) h
    exact (ih h).imp_right fun ⟨k, hk, hrest⟩ => ⟨k, Nat.lt_succ_of_lt hk, hrest⟩

variable (hreached : d.IsReached l) (hend : d.IsEnd t)
  (ht : d.walk true k (if p.absolute then [] else l) p.steps = .ok t)
include hreached hend ht

/-- No way to a directory comes through the link. -/
theorem walk_erase_isDir (hm : d.IsDir m) (h : d.walk true n here xs = .ok m) :
    (d.erase (l ++ [name])).walk true n here xs = .ok m := by
  rcases walk_erase hlink hp h with hsame | ⟨j, -, rest, hrest⟩
  · exact hsame
  · obtain ⟨-, rfl⟩ := nothing_behind hreached hend ht hrest
    exact absurd hend hm.not_isEnd

/-- The way from the link to the end of its target does not come through the link again. -/
theorem walk_erase_target (h : d.walk true n (if p.absolute then [] else l) p.steps = .ok t) :
    (d.erase (l ++ [name])).walk true n (if p.absolute then [] else l) p.steps = .ok t := by
  induction n using Nat.strongRecOn with
  | ind n ih =>
    rcases walk_erase hlink hp h with hsame | ⟨j, hj, rest, hrest⟩
    · exact hsame
    · obtain ⟨rfl, -⟩ := nothing_behind hreached hend ht hrest
      rw [List.append_nil] at hrest
      exact walk_mono (Nat.le_of_lt hj) (ih j hj hrest)

end Link

end SessionStore.Disk
