import SessionStore.Json.Basic

/-! # Fields in the order of their keys

Objects keep their fields sorted. However the fields of an object come in, once each, setting them
one after the other sorts them. So a value can be put in order from the inside out, and one that is
in order stays what it is.
-/

namespace SessionStore.Json

variable {key : String} {value : Json} {fs es : List (String × Json)}

/-- The fields are in the order of their keys, and no key occurs twice. -/
def Sorted (fs : List (String × Json)) : Prop := fs.Pairwise fun a b => compare a.1 b.1 = .lt

/-- The fields after others have been set, in turn. -/
def insertAll (fs es : List (String × Json)) : List (String × Json) :=
  es.foldl (fun fs e => insertField e.1 e.2 fs) fs

@[simp] theorem insertAll_nil : insertAll fs [] = fs := rfl
@[simp] theorem insertAll_cons :
    insertAll fs ((key, value) :: es) = insertAll (insertField key value fs) es := rfl

theorem Sorted.distinct (h : Sorted fs) : (fs.map (·.1)).Nodup := by
  rw [List.Nodup, List.pairwise_map]
  apply h.imp
  rintro a b hlt heq
  rw [heq, Std.ReflOrd.compare_self] at hlt
  cases hlt

theorem mem_insertField : ∀ {fs : List (String × Json)} {e : String × Json},
    e ∈ insertField key value fs → e = (key, value) ∨ e ∈ fs
  | [], e, h => .inl (by simpa [insertField] using h)
  | (k, v) :: fs, e, h => by
    unfold insertField at h
    split at h
    · exact List.mem_cons.mp h
    · rcases List.mem_cons.mp h with h | h
      · exact .inl h
      · exact .inr (List.mem_cons_of_mem _ h)
    · rcases List.mem_cons.mp h with rfl | h
      · exact .inr List.mem_cons_self
      · exact (mem_insertField h).imp_right (List.mem_cons_of_mem _)

theorem sorted_insertField : ∀ {fs : List (String × Json)}, Sorted fs →
    Sorted (insertField key value fs)
  | [], _ => List.pairwise_singleton _ _
  | (k, v) :: fs, h => by
    obtain ⟨hhead, htail⟩ := List.pairwise_cons.mp h
    unfold insertField
    split
    case h_1 hlt =>
      refine List.pairwise_cons.mpr ⟨?_, h⟩
      intro e he
      rcases List.mem_cons.mp he with rfl | he
      · exact hlt
      · exact Std.TransCmp.lt_trans hlt (hhead e he)
    case h_2 heq =>
      obtain rfl := Std.LawfulEqCmp.eq_of_compare heq
      exact List.pairwise_cons.mpr ⟨hhead, htail⟩
    case h_3 hgt =>
      refine List.pairwise_cons.mpr ⟨?_, sorted_insertField htail⟩
      intro e he
      rcases mem_insertField he with rfl | he
      · exact Std.OrientedCmp.lt_of_gt hgt
      · exact hhead e he

theorem perm_insertField : ∀ {fs : List (String × Json)}, key ∉ fs.map (·.1) →
    (insertField key value fs).Perm ((key, value) :: fs)
  | [], _ => .refl _
  | (k, v) :: fs, h => by
    rw [List.map_cons, List.mem_cons, not_or] at h
    unfold insertField
    split
    case h_1 => exact .refl _
    case h_2 heq => exact absurd (Std.LawfulEqCmp.eq_of_compare heq) h.1
    case h_3 => exact ((perm_insertField h.2).cons _).trans (.swap ..)

theorem sorted_insertAll (h : Sorted fs) : Sorted (insertAll fs es) := by
  induction es generalizing fs with
  | nil => exact h
  | cons e es ih => exact ih (sorted_insertField h)

theorem perm_insertAll (h : ((fs ++ es).map (·.1)).Nodup) : (insertAll fs es).Perm (fs ++ es) := by
  induction es generalizing fs with
  | nil => simp
  | cons e es ih =>
    have hmiddle : (fs ++ e :: es).Perm (e :: fs ++ es) := List.perm_middle
    have hnodup := (hmiddle.map (·.1)).nodup_iff.mp h
    have hnew : e.1 ∉ fs.map (·.1) := by
      rw [List.cons_append, List.map_cons, List.nodup_cons, List.map_append, List.mem_append,
        not_or] at hnodup
      exact hnodup.1.1
    have hinsert : (insertField e.1 e.2 fs ++ es).Perm (e :: fs ++ es) :=
      (perm_insertField hnew).append_right es
    have hrest := ih (((hinsert.map (·.1)).nodup_iff).mpr hnodup)
    exact (hrest.trans hinsert).trans hmiddle.symm

/-- The fields of an object, set in any order, are those fields. -/
theorem insertAll_of_perm (hs : Sorted fs) (h : es.Perm fs) : insertAll [] es = fs := by
  have hnodup : (es.map (·.1)).Nodup := (h.map (·.1)).nodup_iff.mpr hs.distinct
  have hall : (insertAll [] es).Perm ([] ++ es) := perm_insertAll hnodup
  have hperm : (insertAll [] es).Perm fs := hall.trans h
  refine hperm.eq_of_pairwise ?_ (sorted_insertAll List.Pairwise.nil) hs
  intro a b _ _ hlt hgt
  rw [Std.OrientedCmp.gt_of_lt hlt] at hgt
  cases hgt

/-! ## Conditions on values -/

variable {p : Json → Prop}

mutual

/-- The condition holds of the value and of all that are inside it. -/
def Every (p : Json → Prop) : Json → Prop
  | .arr xs => p (.arr xs) ∧ EveryItem p xs
  | .obj fs => p (.obj fs) ∧ EveryField p fs
  | v => p v

def EveryItem (p : Json → Prop) : List Json → Prop
  | [] => True
  | x :: xs => Every p x ∧ EveryItem p xs

def EveryField (p : Json → Prop) : List (String × Json) → Prop
  | [] => True
  | (_, x) :: fs => Every p x ∧ EveryField p fs

end

theorem everyField_iff : ∀ {fs : List (String × Json)}, EveryField p fs ↔ ∀ e ∈ fs, Every p e.2
  | [] => by simp [EveryField]
  | (k, x) :: fs => by rw [EveryField, everyField_iff, List.forall_mem_cons]

/-- No double, and no integer that would have to be one. -/
def IsExact : Json → Prop
  | .int n => least ≤ n ∧ n ≤ greatest
  | .double _ => False
  | _ => True

def IsSorted : Json → Prop
  | .obj fs => Sorted fs
  | _ => True

mutual

/-- The value with the fields of all objects in order. -/
def ordered : Json → Json
  | .arr xs => .arr (orderedItems xs)
  | .obj fs => .obj (insertAll [] (orderedFields fs))
  | v => v

def orderedItems : List Json → List Json
  | [] => []
  | x :: xs => ordered x :: orderedItems xs

def orderedFields : List (String × Json) → List (String × Json)
  | [] => []
  | (k, x) :: fs => (k, ordered x) :: orderedFields fs

end

mutual

theorem ordered_of_sorted : ∀ {v : Json}, v.Every IsSorted → v.ordered = v
  | .null, _ | .bool _, _ | .int _, _ | .double _, _ | .str _, _ => by simp [ordered]
  | .arr xs, h => by
    unfold Every at h
    rw [ordered, orderedItems_of_sorted h.2]
  | .obj fs, h => by
    unfold Every at h
    rw [ordered, orderedFields_of_sorted h.2, insertAll_of_perm h.1 (.refl fs)]

theorem orderedItems_of_sorted : ∀ {xs : List Json}, EveryItem IsSorted xs → orderedItems xs = xs
  | [], _ => by simp [orderedItems]
  | x :: xs, h => by
    unfold EveryItem at h
    rw [orderedItems, ordered_of_sorted h.1, orderedItems_of_sorted h.2]

theorem orderedFields_of_sorted : ∀ {fs : List (String × Json)}, EveryField IsSorted fs →
    orderedFields fs = fs
  | [], _ => by simp [orderedFields]
  | (k, x) :: fs, h => by
    unfold EveryField at h
    rw [orderedFields, ordered_of_sorted h.1, orderedFields_of_sorted h.2]

end

theorem depthFields_perm (h : es.Perm fs) : depthFields es = depthFields fs := by
  induction h with
  | nil => rfl
  | cons e _ ih => rw [depthFields, depthFields, ih]
  | swap a b fs => simp only [depthFields, Nat.max_left_comm]
  | trans _ _ ih₁ ih₂ => exact ih₁.trans ih₂

/-! ## Deep values -/

/-- Arrays, each the only item of the one around it. -/
def nested : Nat → Json
  | 0 => .arr []
  | n + 1 => .arr [nested n]

theorem depth_nested (n : Nat) : (nested n).depth = n + 1 := by
  induction n with
  | zero => rfl
  | succ n ih => simp [nested, depth, depthItems, ih]

theorem every_nested (h : ∀ xs, p (.arr xs)) (n : Nat) :
    (nested n).Every p := by
  induction n with
  | zero => simp [nested, Every, EveryItem, h]
  | succ n ih => simp [nested, Every, EveryItem, h, ih]

end SessionStore.Json
