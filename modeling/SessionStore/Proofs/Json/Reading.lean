import Mathlib.Logic.Basic
import SessionStore.Json.Reader
import SessionStore.Proofs.Json.Lexing
import SessionStore.Proofs.Text.Utf8

/-! # From tokens back to values

The machine that reads tokens takes those of a value to that value, its fields in order, and goes on
from there. It does so exactly if the value and what is open around it stay within the limit.
-/

namespace SessionStore.Json

namespace Reader

variable {limit : Nat} {stack : List Frame} {t : Token} {ts : List Token} {r s : Reader}

theorem run_step (h : step limit r t = some s) : run limit r (t :: ts) = run limit s ts := by
  rw [run]
  simp only [h]

theorem run_stuck (h : step limit r t = none) : run limit r (t :: ts) = none := by
  rw [run]
  simp only [h]

/-- The first item of an array begins like any value. -/
theorem step_firstItem (h : t ≠ .closeArr) :
    step limit (.firstItem stack) t = startValue limit (.arr [] :: stack) t := by
  cases t with
  | closeArr => exact absurd rfl h
  | _ => rfl

theorem run_firstItem (h : t ≠ .closeArr) : run limit (.firstItem stack) (t :: ts) =
    run limit (.value (.arr [] :: stack)) (t :: ts) := by
  rw [run, run, step_firstItem h, step]

theorem tokens_eq_cons (v : Json) : ∃ t ts, v.tokens = t :: ts ∧ t ≠ .closeArr := by
  unfold tokens
  split <;> exact ⟨_, _, rfl, by simp⟩

/-- What opens an array or object is refused where the limit is reached. -/
theorem run_open {next : Reader}
    (h : step limit r t = if stack.length < limit then some next else none) :
    run limit r (t :: ts) = if stack.length < limit then run limit next ts else none := by
  by_cases hl : stack.length < limit
  · rw [if_pos hl] at h ⊢
    exact run_step h
  · rw [if_neg hl] at h ⊢
    exact run_stuck h

mutual

/-- A value is read from its tokens, where a value must stand. -/
theorem run_tokens : ∀ (v : Json) (stack : List Frame) (ts : List Token), stack.length ≤ limit →
    run limit (.value stack) (v.tokens ++ ts) =
      if stack.length + v.depth ≤ limit then run limit (complete v.ordered stack) ts else none
  | .null, stack, ts, h | .bool _, stack, ts, h | .int _, stack, ts, h
  | .double _, stack, ts, h => by
    rw [tokens, depth, ordered, if_pos (by simpa using h)]
    · exact run_step rfl
    all_goals simp
  | .str s, stack, ts, h => by
    have hstep : step limit (.value stack) (.str s.toList) = some (complete (.str s) stack) := by
      rw [step, startValue, String.ofList_toList]
    rw [tokens, depth, ordered, if_pos (by simpa using h)]
    · exact run_step hstep
    all_goals simp
  | .arr [], stack, ts, h => by
    have hshape : (Json.arr []).tokens ++ ts = .openArr :: .closeArr :: ts := by
      simp [tokens]
    rw [hshape, run_open rfl, run_step rfl, depth, depthItems, ordered, orderedItems]
    rfl
  | .arr (x :: xs), stack, ts, h => by
    have hshape : (Json.arr (x :: xs)).tokens ++ ts =
        .openArr :: (x.tokens ++ (itemTokens xs ++ .closeArr :: ts)) := by
      simp [tokens]
    rw [hshape, run_open rfl, depth, depthItems, ordered, orderedItems]
    by_cases hl : stack.length < limit
    · obtain ⟨t, us, ht, hne⟩ := tokens_eq_cons x
      have hx := run_tokens x (.arr [] :: stack) (itemTokens xs ++ .closeArr :: ts) hl
      rw [ht, List.cons_append] at hx ⊢
      rw [if_pos hl, run_firstItem hne, hx, complete, run_itemTokens xs [x.ordered] ts hl,
        ← ite_and]
      refine if_congr ?_ rfl rfl
      simp only [List.length_cons]
      omega
    · rw [if_neg hl, if_neg (by omega)]
  | .obj [], stack, ts, h => by
    have hshape : (Json.obj []).tokens ++ ts = .openObj :: .closeObj :: ts := by
      simp [tokens]
    rw [hshape, run_open rfl, run_step rfl, depth, depthFields, ordered, orderedFields,
      insertAll_nil]
    rfl
  | .obj ((k, x) :: fs), stack, ts, h => by
    have hshape : (Json.obj ((k, x) :: fs)).tokens ++ ts =
        .openObj :: .str k.toList :: .colon ::
          (x.tokens ++ (fieldTokens fs ++ .closeObj :: ts)) := by
      simp [tokens]
    rw [hshape, run_open rfl, depth, depthFields, ordered, orderedFields, insertAll_cons]
    by_cases hl : stack.length < limit
    · have hx := run_tokens x (.obj [] k :: stack) (fieldTokens fs ++ .closeObj :: ts) hl
      rw [if_pos hl, run_step rfl, String.ofList_toList, run_step rfl, hx, complete,
        run_fieldTokens fs (insertField k x.ordered []) ts hl, ← ite_and]
      refine if_congr ?_ rfl rfl
      simp only [List.length_cons]
      omega
    · rw [if_neg hl, if_neg (by omega)]

theorem run_itemTokens : ∀ (xs items : List Json) {stack : List Frame} (ts : List Token),
    stack.length < limit →
      run limit (.afterItem items stack) (itemTokens xs ++ .closeArr :: ts) =
        if stack.length + 1 + depthItems xs ≤ limit then
          run limit (complete (.arr (items.reverse ++ orderedItems xs)) stack) ts
        else none
  | [], items, stack, ts, h => by
    rw [itemTokens, List.nil_append, run_step rfl, depthItems, if_pos (by omega), orderedItems,
      List.append_nil]
  | x :: xs, items, stack, ts, h => by
    have hx := run_tokens x (.arr items :: stack) (itemTokens xs ++ .closeArr :: ts) h
    have hitems : (x.ordered :: items).reverse ++ orderedItems xs =
        items.reverse ++ x.ordered :: orderedItems xs := by
      simp
    rw [itemTokens, List.cons_append, List.append_assoc, run_step rfl, hx, complete,
      run_itemTokens xs (x.ordered :: items) ts h, depthItems, orderedItems, hitems, ← ite_and]
    refine if_congr ?_ rfl rfl
    simp only [List.length_cons]
    omega

theorem run_fieldTokens : ∀ (es fs : List (String × Json)) {stack : List Frame} (ts : List Token),
    stack.length < limit →
      run limit (.afterField fs stack) (fieldTokens es ++ .closeObj :: ts) =
        if stack.length + 1 + depthFields es ≤ limit then
          run limit (complete (.obj (insertAll fs (orderedFields es))) stack) ts
        else none
  | [], fs, stack, ts, h => by
    rw [fieldTokens, List.nil_append, run_step rfl, depthFields, if_pos (by omega), orderedFields,
      insertAll_nil]
  | (k, x) :: es, fs, stack, ts, h => by
    have hx := run_tokens x (.obj fs k :: stack) (fieldTokens es ++ .closeObj :: ts) h
    have hshape : fieldTokens ((k, x) :: es) ++ .closeObj :: ts =
        .comma :: .str k.toList :: .colon :: (x.tokens ++ (fieldTokens es ++ .closeObj :: ts)) := by
      simp [fieldTokens]
    rw [hshape, run_step rfl, run_step rfl, String.ofList_toList, run_step rfl, hx, complete,
      run_fieldTokens es (insertField k x.ordered fs) ts h, depthFields, orderedFields,
      insertAll_cons, ← ite_and]
    refine if_congr ?_ rfl rfl
    simp only [List.length_cons]
    omega

end

end Reader

/-- What is written is read back, with all fields in order, if it is not nested too deep. -/
theorem ofChars?_write (limit : Nat) (l : Layout) {v : Json} (h : v.Every IsExact) :
    ofChars? limit (write l 0 v) = if v.depth ≤ limit then some v.ordered else none := by
  have hrun := Reader.run_tokens v [] [] (Nat.zero_le limit)
  rw [List.append_nil, List.length_nil, Nat.zero_add] at hrun
  rw [ofChars?, Token.ofChars?_write l h, Option.bind_some, hrun]
  rfl

theorem ofBytes?_encode (limit : Nat) (l : Layout) {v : Json} (h : v.Every IsExact) :
    ofBytes? limit (Utf8.encode (write l 0 v)) =
      if v.depth ≤ limit then some v.ordered else none := by
  rw [ofBytes?, Utf8.decode_encode]
  exact ofChars?_write limit l h

end SessionStore.Json
