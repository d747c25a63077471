import SessionStore.Json.Reader
import SessionStore.Proofs.Json.Fields

/-! # What a reader gives

Whatever the text, the value that is read from it is nested no deeper than the limit, its integers
are kept exactly, and its objects are in order. The machine keeps this of everything that is open.
-/

namespace SessionStore.Json

variable {p q r : Json → Prop} {limit n : Nat} {v : Json}

mutual

theorem Every.imp₂ (h : ∀ v, p v → q v → r v) : ∀ {v : Json}, v.Every p → v.Every q → v.Every r
  | .null, hp, hq | .bool _, hp, hq | .int _, hp, hq | .double _, hp, hq | .str _, hp, hq => by
    unfold Every at *
    exact h _ hp hq
  | .arr _, hp, hq => by
    unfold Every at *
    exact ⟨h _ hp.1 hq.1, EveryItem.imp₂ h hp.2 hq.2⟩
  | .obj _, hp, hq => by
    unfold Every at *
    exact ⟨h _ hp.1 hq.1, EveryField.imp₂ h hp.2 hq.2⟩

theorem EveryItem.imp₂ (h : ∀ v, p v → q v → r v) : ∀ {xs : List Json}, EveryItem p xs →
    EveryItem q xs → EveryItem r xs
  | [], _, _ => by simp [EveryItem]
  | _ :: _, hp, hq => by
    unfold EveryItem at *
    exact ⟨Every.imp₂ h hp.1 hq.1, EveryItem.imp₂ h hp.2 hq.2⟩

theorem EveryField.imp₂ (h : ∀ v, p v → q v → r v) : ∀ {fs : List (String × Json)},
    EveryField p fs → EveryField q fs → EveryField r fs
  | [], _, _ => by simp [EveryField]
  | _ :: _, hp, hq => by
    unfold EveryField at *
    exact ⟨Every.imp₂ h hp.1 hq.1, EveryField.imp₂ h hp.2 hq.2⟩

end

theorem everyItem_iff : ∀ {xs : List Json}, EveryItem p xs ↔ ∀ x ∈ xs, x.Every p
  | [] => by simp [EveryItem]
  | x :: xs => by rw [EveryItem, everyItem_iff, List.forall_mem_cons]

theorem depthItems_le_iff : ∀ {xs : List Json}, depthItems xs ≤ n ↔ ∀ x ∈ xs, x.depth ≤ n
  | [] => by simp [depthItems]
  | x :: xs => by rw [depthItems, Nat.max_le, depthItems_le_iff, List.forall_mem_cons]

theorem depthFields_le_iff : ∀ {fs : List (String × Json)},
    depthFields fs ≤ n ↔ ∀ e ∈ fs, e.2.depth ≤ n
  | [] => by simp [depthFields]
  | (k, x) :: fs => by rw [depthFields, Nat.max_le, depthFields_le_iff, List.forall_mem_cons]

/-- An integer is one that is kept exactly, and an object is in order. -/
def IsProper : Json → Prop
  | .int n => least ≤ n ∧ n ≤ greatest
  | .obj fs => Sorted fs
  | _ => True

/-- The value is no double. -/
def IsWhole : Json → Prop
  | .double _ => False
  | _ => True

theorem isExact_of_isProper : ∀ v : Json, IsProper v → IsWhole v → IsExact v
  | .int _, hp, _ => hp
  | .double _, _, hw => hw
  | .null, _, _ | .bool _, _, _ | .str _, _, _ | .arr _, _, _ | .obj _, _, _ => trivial

theorem isSorted_of_isProper : ∀ v : Json, IsProper v → IsWhole v → IsSorted v
  | .obj _, hp, _ => hp
  | .null, _, _ | .bool _, _, _ | .int _, _, _ | .double _, _, _ | .str _, _, _ | .arr _, _, _ =>
    trivial

/-- The value is proper throughout, and fits below the limit with `n` levels around it. -/
structure Fits (limit n : Nat) (v : Json) : Prop where
  depth_le : n + v.depth ≤ limit
  proper : v.Every IsProper

theorem fits_arr {xs : List Json} (hn : n < limit) (h : ∀ x ∈ xs, Fits limit (n + 1) x) :
    Fits limit n (.arr xs) where
  depth_le := by
    have hxs : depthItems xs ≤ limit - (n + 1) := by
      rw [depthItems_le_iff]
      intro x hx
      have := (h x hx).depth_le
      omega
    rw [depth]
    omega
  proper := by
    unfold Every
    exact ⟨trivial, everyItem_iff.mpr fun x hx => (h x hx).proper⟩

theorem fits_obj {fs : List (String × Json)} (hn : n < limit) (hs : Sorted fs)
    (h : ∀ e ∈ fs, Fits limit (n + 1) e.2) : Fits limit n (.obj fs) where
  depth_le := by
    have hfs : depthFields fs ≤ limit - (n + 1) := by
      rw [depthFields_le_iff]
      intro e he
      have := (h e he).depth_le
      omega
    rw [depth]
    omega
  proper := by
    unfold Every
    exact ⟨hs, everyField_iff.mpr fun e he => (h e he).proper⟩

/-! ## Words -/

/-- A number that is no double is an integer between the limits. -/
theorem Numeral.toJson?_cases {x : Numeral} (h : x.toJson? = some v) :
    (∃ m, v = .int m ∧ least ≤ m ∧ m ≤ greatest) ∨ ∃ d, v = .double d := by
  have hdouble : ∀ {o : Option Double}, o.map Json.double = some v → ∃ d, v = .double d := by
    intro o ho
    obtain ⟨d, -, rfl⟩ := Option.map_eq_some_iff.mp ho
    exact ⟨d, rfl⟩
  unfold Numeral.toJson? at h
  dsimp only at h
  split at h
  · split at h
    · split at h
      · cases h
        exact .inr ⟨_, rfl⟩
      · split at h
        case isTrue hleast =>
          cases h
          refine .inl ⟨_, rfl, hleast, ?_⟩
          simp only [greatest]
          omega
        case isFalse => exact .inr (hdouble h)
    · split at h
      case isTrue hgreatest =>
        cases h
        refine .inl ⟨_, rfl, ?_, hgreatest⟩
        simp only [least]
        omega
      case isFalse => exact .inr (hdouble h)
  · exact .inr (hdouble h)

namespace Token

/-- Words stand for values without items and fields. -/
def IsProper : Token → Prop
  | .atom v => v.depth = 0 ∧ v.Every Json.IsProper
  | _ => True

theorem isProper_atom? {w : List Char} (h : atom? w = some v) : (Token.atom v).IsProper := by
  have hint : ∀ m, least ≤ m → m ≤ greatest → (Token.atom (.int m)).IsProper := by
    intro m hleast hgreatest
    simp only [IsProper, depth, Every, Json.IsProper]
    exact ⟨trivial, hleast, hgreatest⟩
  unfold atom? at h
  split at h
  · cases h
    simp [IsProper, depth, Every, Json.IsProper]
  split at h
  · cases h
    simp [IsProper, depth, Every, Json.IsProper]
  split at h
  · cases h
    simp [IsProper, depth, Every, Json.IsProper]
  · obtain ⟨x, -, hx⟩ := Option.bind_eq_some_iff.mp h
    rcases Numeral.toJson?_cases hx with ⟨m, rfl, hleast, hgreatest⟩ | ⟨d, rfl⟩
    · exact hint m hleast hgreatest
    · simp [IsProper, depth, Every, Json.IsProper]

theorem isProper_begin {c : Char} {t : Token} {mode : Mode} (h : begin c = (some t, mode)) :
    t.IsProper := by
  unfold begin at h
  split at h
  case h_1 t' ht =>
    cases h
    unfold punctuation? at ht
    split at ht <;> cases ht <;> trivial
  case h_2 =>
    split at h
    · cases h
    · split at h <;> cases h

theorem isProper_lex {mode : Mode} {cs : List Char} {ts : List Token} (h : lex mode cs = some ts) :
    ∀ t ∈ ts, t.IsProper := by
  -- Tokens come from words and punctuation, and from the quotes that end strings. All other
  -- characters leave them to the rest of the text, or make it void.
  fun_induction lex mode cs generalizing ts with
  | case1 =>
    cases h
    simp
  | case2 w =>
    obtain ⟨v, hv, rfl⟩ := Option.map_eq_some_iff.mp h
    simpa using isProper_atom? hv
  | case4 c cs t mode hb ih =>
    obtain ⟨us, hus, rfl⟩ := Option.map_eq_some_iff.mp h
    exact List.forall_mem_cons.mpr ⟨isProper_begin hb, ih hus⟩
  | case7 w c cs t? mode hword hb ih =>
    simp only [Option.bind_eq_bind, Option.bind_eq_some_iff, Option.pure_def,
      Option.some.injEq] at h
    obtain ⟨v, hv, us, hus, rfl⟩ := h
    refine List.forall_mem_cons.mpr ⟨isProper_atom? hv, ?_⟩
    intro t ht
    rcases List.mem_append.mp ht with ht | ht
    · rw [Option.mem_toList] at ht
      subst ht
      exact isProper_begin hb
    · exact ih hus t ht
  | case8 r cs ih =>
    obtain ⟨us, hus, rfl⟩ := Option.map_eq_some_iff.mp h
    exact List.forall_mem_cons.mpr ⟨trivial, ih hus⟩
  | case5 | case6 | case9 | case11 | case12 | case13 | case16 | case18 | case19 | case21 =>
    rename_i ih
    exact ih h
  | _ => cases h

theorem isProper_ofChars? {cs : List Char} {ts : List Token} (h : ofChars? cs = some ts) :
    ∀ t ∈ ts, t.IsProper :=
  isProper_lex h

end Token

/-! ## The machine -/

/-- What is inside an open array or object with `n` levels around it. -/
def Frame.Fits (limit n : Nat) : Frame → Prop
  | .arr items => ∀ v ∈ items, Json.Fits limit (n + 1) v
  | .obj fields _ => Sorted fields ∧ ∀ e ∈ fields, Json.Fits limit (n + 1) e.2

namespace Reader

variable {stack : List Frame} {t : Token} {ts : List Token} {r s : Reader}

/-- All that is open is within the limit, and so is what is inside. -/
def StackFits (limit : Nat) : List Frame → Prop
  | [] => True
  | f :: stack => stack.length < limit ∧ f.Fits limit stack.length ∧ StackFits limit stack

/-- All that was read so far is within the limit. -/
def Sound (limit : Nat) : Reader → Prop
  | .value stack => StackFits limit stack
  | .firstItem stack => stack.length < limit ∧ StackFits limit stack
  | .afterItem items stack => StackFits limit (.arr items :: stack)
  | .firstKey stack => stack.length < limit ∧ StackFits limit stack
  | .key fields stack => StackFits limit (.obj fields "" :: stack)
  | .colon fields k stack => StackFits limit (.obj fields k :: stack)
  | .afterField fields stack => StackFits limit (.obj fields "" :: stack)
  | .done v => Fits limit 0 v

theorem StackFits.length_le (h : StackFits limit stack) : stack.length ≤ limit := by
  cases stack with
  | nil => exact Nat.zero_le limit
  | cons f stack => exact h.1

theorem sound_complete (hv : Fits limit stack.length v) (h : StackFits limit stack) :
    (complete v stack).Sound limit := by
  cases stack with
  | nil => exact hv
  | cons f stack =>
    obtain ⟨hl, hf, hstack⟩ := h
    cases f with
    | arr items => exact ⟨hl, List.forall_mem_cons.mpr ⟨hv, hf⟩, hstack⟩
    | obj fields k =>
      refine ⟨hl, ⟨sorted_insertField hf.1, ?_⟩, hstack⟩
      intro e he
      rcases mem_insertField he with rfl | he
      · exact hv
      · exact hf.2 e he

/-- A string or a word is complete by itself. -/
theorem sound_startValue (ht : t.IsProper) (h : StackFits limit stack)
    (hs : startValue limit stack t = some s) : s.Sound limit := by
  have hscalar : ∀ {v : Json}, v.depth = 0 → v.Every IsProper → (complete v stack).Sound limit := by
    intro v hdepth hv
    refine sound_complete ⟨?_, hv⟩ h
    rw [hdepth]
    exact h.length_le
  cases t with
  | openArr | openObj =>
    obtain ⟨hl, heq⟩ := Option.ite_none_right_eq_some.mp hs
    cases heq
    exact ⟨hl, h⟩
  | str s =>
    cases hs
    exact hscalar (by simp [depth]) (by simp [Every, IsProper])
  | atom v =>
    cases hs
    exact hscalar ht.1 ht.2
  | closeArr | closeObj | comma | colon => cases hs

theorem sound_step (ht : t.IsProper) (h : r.Sound limit) (hs : step limit r t = some s) :
    s.Sound limit := by
  unfold step at hs
  split at hs
  -- Where an array or object ends, it has one level less around it than what was inside.
  case h_1 => exact sound_startValue ht h hs
  case h_2 =>
    cases hs
    exact sound_complete (fits_arr h.1 (by simp)) h.2
  case h_3 stack _ =>
    have hopen : StackFits limit (.arr [] :: stack) := ⟨h.1, by simp [Frame.Fits], h.2⟩
    exact sound_startValue ht hopen hs
  case h_5 =>
    cases hs
    exact sound_complete (fits_arr h.1 fun v hv => h.2.1 v (List.mem_reverse.mp hv)) h.2.2
  case h_6 =>
    cases hs
    exact sound_complete (fits_obj h.1 .nil (by simp)) h.2
  case h_7 =>
    cases hs
    exact ⟨h.1, ⟨.nil, by simp⟩, h.2⟩
  case h_11 =>
    cases hs
    exact sound_complete (fits_obj h.1 h.2.1.1 h.2.1.2) h.2.2
  case h_4 | h_8 | h_9 | h_10 =>
    cases hs
    exact h
  case h_12 => cases hs

theorem fits_of_run (hts : ∀ t ∈ ts, t.IsProper) (h : r.Sound limit)
    (hv : run limit r ts = some v) : Fits limit 0 v := by
  fun_induction run limit r ts with
  | case1 u =>
    cases hv
    exact h
  | case2 => cases hv
  | case3 r t ts s hs ih =>
    obtain ⟨ht, hts⟩ := List.forall_mem_cons.mp hts
    exact ih hts (sound_step ht h hs) hv
  | case4 => cases hv

end Reader

/-- What is read from a text fits below the limit. -/
theorem fits_of_ofBytes? {bs : Bytes} (h : ofBytes? limit bs = some v) : Fits limit 0 v := by
  unfold ofBytes? at h
  split at h
  · obtain ⟨ts, hts, hv⟩ := Option.bind_eq_some_iff.mp h
    have hempty : (Reader.value []).Sound limit := trivial
    exact Reader.fits_of_run (Token.isProper_ofChars? hts) hempty hv
  · cases h

end SessionStore.Json
