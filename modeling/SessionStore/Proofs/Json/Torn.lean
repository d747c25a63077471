import SessionStore.Proofs.Json.Accepted
import SessionStore.Proofs.Json.Reading

/-! # Texts that stop early or go on

A reader that has come through the first part of a text goes on with the second from where it
stands. So no proper part from the start of a written object is read as an object, and behind a
written object there may be blanks but nothing else.
-/

namespace SessionStore.Json

namespace Token

variable {m m' : Mode} {c : Char} {p q w r : List Char} {ts us : List Token}

/-! ## Tokens of a part -/

/-- The character completes `ts` and leads to `m'`; to a place between tokens only if it was there
before or completes one. -/
structure Steps (m : Mode) (c : Char) (ts : List Token) (m' : Mode) : Prop where
  lex_eq : ∀ q, lex m (c :: q) = before ts (lex m' q)
  between : m' = .between → m = .between ∨ ts ≠ []

/-- No text goes on with the character. -/
def Stops (m : Mode) (c : Char) : Prop := ∀ q, lex m (c :: q) = none

theorem Steps.of_eq (h : ∀ q, lex m (c :: q) = lex m' q) (hm : m' ≠ .between) :
    Steps m c [] m' :=
  ⟨fun q => (h q).trans before_nil.symm, fun hb => absurd hb hm⟩

theorem closeUnit_ne_between {u : Nat} {high? : Option Nat} (h : closeUnit r u high? = some m) :
    m ≠ .between := by
  rintro rfl
  unfold closeUnit at h
  split at h <;> split at h <;> simp_all

theorem steps_between (c : Char) : Steps .between c (begin c).1.toList (begin c).2 := by
  refine ⟨fun q => ?_, fun _ => .inl rfl⟩
  rw [lex_between_cons]
  rcases begin c with ⟨_ | t, m⟩
  · exact before_nil.symm
  · rfl

theorem stops_or_steps_word (w : List Char) (c : Char) :
    Stops (.word w) c ∨ ∃ ts m', Steps (.word w) c ts m' := by
  have hend : (∀ q, lex (.word w) (c :: q) = (atom? w.reverse).bind fun v =>
      (lex (begin c).2 q).bind fun ts => some (.atom v :: ((begin c).1.toList ++ ts))) →
      Stops (.word w) c ∨ ∃ ts m', Steps (.word w) c ts m' := by
    intro h
    cases hw : atom? w.reverse with
    | none =>
      left
      intro q
      rw [h, hw]
      rfl
    | some v =>
      refine .inr ⟨.atom v :: (begin c).1.toList, (begin c).2, fun q => ?_, fun _ => .inr (by simp)⟩
      rw [h, hw]
      cases lex (begin c).2 q <;> rfl
  rcases begin_cases c with ⟨t, hb⟩ | hb | hb | hb
  · exact hend fun q => by rw [lex_word_cons, hb]; rfl
  · exact hend fun q => by rw [lex_word_cons, hb]; rfl
  · exact hend fun q => by rw [lex_word_cons, hb]; rfl
  · exact .inr ⟨[], .word (c :: w), .of_eq (fun q => by rw [lex_word_cons, hb]) nofun⟩

theorem stops_or_steps_text (r : List Char) (c : Char) :
    Stops (.text r) c ∨ ∃ ts m', Steps (.text r) c ts m' := by
  by_cases hquote : c = '"'
  · refine .inr ⟨[.str r.reverse], .between, fun q => ?_, fun _ => .inr (by simp)⟩
    rw [lex_text_cons, if_pos hquote]
    rfl
  by_cases hescape : c = '\\'
  · refine .inr ⟨[], .escape r, .of_eq (fun q => ?_) nofun⟩
    rw [lex_text_cons, if_neg hquote, if_pos hescape]
  by_cases hcontrol : c.toNat < 0x20
  · refine .inl fun q => ?_
    rw [lex_text_cons, if_neg hquote, if_neg hescape, if_pos hcontrol]
  · refine .inr ⟨[], .text (c :: r), .of_eq (fun q => ?_) nofun⟩
    rw [lex_text_cons, if_neg hquote, if_neg hescape, if_neg hcontrol]

theorem stops_or_steps_escape (r : List Char) (c : Char) :
    Stops (.escape r) c ∨ ∃ ts m', Steps (.escape r) c ts m' := by
  by_cases hu : c = 'u'
  · refine .inr ⟨[], .unit r 4 0 none, .of_eq (fun q => ?_) nofun⟩
    rw [lex, if_pos hu]
  · cases hd : escaped? c with
    | none =>
      refine .inl fun q => ?_
      rw [lex, if_neg hu, hd]
    | some d =>
      refine .inr ⟨[], .text (d :: r), .of_eq (fun q => ?_) nofun⟩
      rw [lex, if_neg hu, hd]

theorem stops_or_steps_unit (r : List Char) (left value : Nat) (high? : Option Nat) (c : Char) :
    Stops (.unit r left value high?) c ∨ ∃ ts m', Steps (.unit r left value high?) c ts m' := by
  cases hd : hexDigit? c with
  | none =>
    refine .inl fun q => ?_
    rw [lex_unit_cons, hd]
  | some d =>
    by_cases hleft : left = 1
    · subst hleft
      cases hclose : closeUnit r (value * 16 + d) high? with
      | none =>
        refine .inl fun q => ?_
        rw [lex_unit_cons, hd]
        simp only [hclose]
        rfl
      | some m' =>
        exact .inr ⟨[], m', .of_eq (fun _ => lex_unit_last hd hclose) (closeUnit_ne_between hclose)⟩
    · exact .inr ⟨[], _, .of_eq (fun _ => lex_unit_digit hd hleft) nofun⟩

theorem stops_or_steps (m : Mode) (c : Char) : Stops m c ∨ ∃ ts m', Steps m c ts m' := by
  cases m with
  | between => exact .inr ⟨_, _, steps_between c⟩
  | word w => exact stops_or_steps_word w c
  | text r => exact stops_or_steps_text r c
  | escape r => exact stops_or_steps_escape r c
  | unit r left value high? => exact stops_or_steps_unit r left value high? c
  | half r high =>
    by_cases hc : c = '\\'
    · exact .inr ⟨[], .halfEscape r high, .of_eq (fun q => by rw [lex, if_pos hc]) nofun⟩
    · exact .inl fun q => by rw [lex, if_neg hc]
  | halfEscape r high =>
    by_cases hc : c = 'u'
    · exact .inr ⟨[], .unit r 4 0 (some high), .of_eq (fun q => by rw [lex, if_pos hc]) nofun⟩
    · exact .inl fun q => by rw [lex, if_neg hc]

/-- A text with tokens leads through its tokens to where the rest of a longer text is read from:
between two tokens, or inside the word that would be the last token. -/
theorem lex_append (h : lex m p = some us) :
    ∃ ts m', (∀ q, lex m (p ++ q) = before ts (lex m' q)) ∧
      (m' = .between ∧ us = ts ∨
        ∃ v w, m' = .word w ∧ atom? w.reverse = some v ∧ us = ts ++ [.atom v]) := by
  induction p generalizing m us with
  | nil =>
    refine ⟨[], m, fun q => before_nil.symm, ?_⟩
    cases m with
    | between =>
      cases h
      exact .inl ⟨rfl, rfl⟩
    | word w =>
      obtain ⟨v, hv, rfl⟩ := Option.map_eq_some_iff.mp h
      exact .inr ⟨v, w, rfl, hv, rfl⟩
    | _ => cases h
  | cons c p ih =>
    rcases stops_or_steps m c with hstop | ⟨ts, m₁, hstep⟩
    · rw [hstop] at h
      cases h
    · rw [hstep.lex_eq] at h
      obtain ⟨us, hus, rfl⟩ := Option.map_eq_some_iff.mp h
      obtain ⟨ts', m', hrest, hend⟩ := ih hus
      refine ⟨ts ++ ts', m', fun q => ?_, ?_⟩
      · rw [List.cons_append, hstep.lex_eq, hrest, before_before]
      · rcases hend with ⟨hm, rfl⟩ | ⟨v, w, hm, hv, rfl⟩
        · exact .inl ⟨hm, rfl⟩
        · exact .inr ⟨v, w, hm, hv, (List.append_assoc ..).symm⟩

/-! ## Texts without tokens -/

theorem begin_blank (h : isBlank c) : begin c = (none, .between) := by
  simp only [isBlank, Bool.or_eq_true, beq_iff_eq, or_assoc] at h
  rcases h with rfl | rfl | rfl | rfl <;> rfl

theorem isBlank_of_begin (h : begin c = (none, .between)) : isBlank c := by
  unfold begin at h
  split at h
  · cases h
  · by_cases hb : isBlank c
    · exact hb
    · rw [if_neg hb] at h
      split at h <;> cases h

theorem eq_between_of_lex_nil (h : lex m p = some []) : m = .between := by
  induction p generalizing m with
  | nil =>
    cases m with
    | between => rfl
    | word w =>
      obtain ⟨v, -, hv⟩ := Option.map_eq_some_iff.mp h
      cases hv
    | _ => cases h
  | cons c p ih =>
    rcases stops_or_steps m c with hstop | ⟨ts, m', hstep⟩
    · rw [hstop] at h
      cases h
    · rw [hstep.lex_eq] at h
      obtain ⟨us, hus, hnil⟩ := Option.map_eq_some_iff.mp h
      obtain ⟨rfl, rfl⟩ := List.append_eq_nil_iff.mp hnil
      exact (hstep.between (ih hus)).resolve_right (fun hts => hts rfl)

/-- A text without tokens is blank. -/
theorem lex_eq_nil_iff : lex .between p = some [] ↔ ∀ c ∈ p, isBlank c := by
  constructor
  · intro h
    induction p with
    | nil => simp
    | cons c p ih =>
      rw [(steps_between c).lex_eq] at h
      obtain ⟨us, hus, hnil⟩ := Option.map_eq_some_iff.mp h
      obtain ⟨htoken, rfl⟩ := List.append_eq_nil_iff.mp hnil
      have hmode := eq_between_of_lex_nil hus
      have hbegin : begin c = (none, .between) :=
        Prod.ext (Option.toList_eq_nil_iff.mp htoken) hmode
      rw [hmode] at hus
      exact List.forall_mem_cons.mpr ⟨isBlank_of_begin hbegin, ih hus⟩
  · intro h
    induction p with
    | nil => rfl
    | cons c p ih =>
      obtain ⟨hc, hp⟩ := List.forall_mem_cons.mp h
      rw [lex_blank (begin_blank hc), ih hp]

/-- No word is an object. -/
theorem atom?_ne_obj {fs : List (String × Json)} : atom? w ≠ some (.obj fs) := by
  intro h
  have hdepth := (isProper_atom? h).1
  rw [depth] at hdepth
  cases hdepth

end Token

namespace Reader

variable {limit limit' : Nat} {r s : Reader} {t : Token} {ts us : List Token} {v : Json}

/-- Reading goes on from where the first tokens lead. -/
theorem run_append (h : run limit r (ts ++ us) = some v) :
    ∃ s, ∀ us, run limit r (ts ++ us) = run limit s us := by
  induction ts generalizing r with
  | nil => exact ⟨r, fun _ => rfl⟩
  | cons t ts ih =>
    cases hs : step limit r t with
    | none =>
      rw [List.cons_append, run_stuck hs] at h
      cases h
    | some s =>
      rw [List.cons_append, run_step hs] at h
      obtain ⟨s', hs'⟩ := ih h
      exact ⟨s', fun us => by rw [List.cons_append, run_step hs, hs']⟩

theorem run_done (v : Json) (t : Token) (ts : List Token) : run limit (.done v) (t :: ts) = none :=
  run_stuck (by cases t <;> rfl)

theorem eq_done_of_run_nil (h : run limit r [] = some v) : r = .done v := by
  cases r with
  | done w =>
    cases h
    rfl
  | _ => cases h

/-- Behind a complete value there is no further token. -/
theorem run_extend (h : run limit r ts = some v) (hus : us ≠ []) :
    run limit r (ts ++ us) = none := by
  rw [← List.append_nil ts] at h
  obtain ⟨s, hs⟩ := run_append h
  rw [hs] at h
  rw [hs, eq_done_of_run_nil h]
  obtain ⟨t, us, rfl⟩ := List.exists_cons_of_ne_nil hus
  exact run_done v t us

theorem startValue_mono (stack : List Frame) (hl : limit ≤ limit')
    (h : startValue limit stack t = some s) : startValue limit' stack t = some s := by
  cases t with
  | openArr | openObj =>
    obtain ⟨hstack, hs⟩ := Option.ite_none_right_eq_some.mp h
    exact (if_pos (Nat.lt_of_lt_of_le hstack hl)).trans hs
  | _ => exact h

theorem step_mono (hl : limit ≤ limit') (h : step limit r t = some s) :
    step limit' r t = some s := by
  cases r with
  | value stack => exact startValue_mono stack hl h
  | firstItem stack =>
    by_cases ht : t = .closeArr
    · subst ht
      exact h
    · rw [step_firstItem ht] at h ⊢
      exact startValue_mono _ hl h
  | _ => cases t <;> exact h

/-- What is read stays so where deeper nesting is allowed. -/
theorem run_mono (hl : limit ≤ limit') (h : run limit r ts = some v) :
    run limit' r ts = some v := by
  induction ts generalizing r with
  | nil =>
    rw [eq_done_of_run_nil h]
    rfl
  | cons t ts ih =>
    cases hs : step limit r t with
    | none =>
      rw [run_stuck hs] at h
      cases h
    | some s =>
      rw [run_step hs] at h
      rw [run_step (step_mono hl hs)]
      exact ih h

/-- A value whose last token is a word is that word's. -/
theorem eq_of_run_atom {w : Json} (h : run limit r (ts ++ [.atom w]) = some v) : v = w := by
  obtain ⟨s, hs⟩ := run_append h
  rw [hs] at h
  cases hstep : step limit s (.atom w) with
  | none =>
    rw [run_stuck hstep] at h
    cases h
  | some s' =>
    rw [run_step hstep] at h
    cases eq_done_of_run_nil h
    cases s with
    | value stack =>
      cases stack with
      | nil =>
        cases hstep
        rfl
      | cons f stack => cases f <;> cases hstep
    | _ => cases hstep

end Reader

/-! ## Written objects -/

variable {limit : Nat} {l : Layout} {fs : List (String × Json)} {p q : List Char}

theorem write_obj_eq_append (l : Layout) (level : Nat) (fs : List (String × Json)) :
    ∃ cs, write l level (.obj fs) = cs ++ ['\x7d'] := by
  cases fs with
  | nil => exact ⟨['\x7b'], by simp [write]⟩
  | cons e fs => exact ⟨_, by rw [write, ← List.cons_append]⟩

/-- The last character of a written object is in every part up to its end. -/
theorem mem_of_append_eq_write (hpq : p ++ q = write l 0 (.obj fs)) (hq : q ≠ []) : '\x7d' ∈ q := by
  obtain ⟨cs, hcs⟩ := write_obj_eq_append l 0 fs
  rw [hcs, ← List.dropLast_concat_getLast hq, ← List.append_assoc] at hpq
  rw [← List.singleton_inj.mp (List.append_inj_right' hpq rfl)]
  exact List.getLast_mem hq

/-- No proper part from the start of a written object is read as an object. -/
theorem ofChars?_torn (h : (Json.obj fs).Every IsExact) (hpq : p ++ q = write l 0 (.obj fs))
    (hq : q ≠ []) (gs : List (String × Json)) : ofChars? limit p ≠ some (.obj gs) := by
  intro hread
  obtain ⟨us, hlex, hrun⟩ := Option.bind_eq_some_iff.mp hread
  obtain ⟨ts, m, hrest, hend⟩ := Token.lex_append hlex
  rcases hend with ⟨rfl, rfl⟩ | ⟨v, w, rfl, hv, rfl⟩
  · -- The part ends between two tokens, and those of the other part come behind a whole object.
    have hwhole : Token.before us (Token.lex .between q) = some (Json.obj fs).tokens := by
      rw [← hrest, hpq]
      exact Token.ofChars?_write l h
    obtain ⟨ws, hws, htokens⟩ := Option.map_eq_some_iff.mp hwhole
    have hne : ws ≠ [] := by
      rintro rfl
      have hblank := Token.lex_eq_nil_iff.mp hws _ (mem_of_append_eq_write hpq hq)
      cases hblank
    have hextend := Reader.run_extend (Reader.run_mono (Nat.le_max_left _ (Json.obj fs).depth) hrun)
      hne
    have htokens' := Reader.run_tokens (.obj fs) [] [] (Nat.zero_le (max limit (Json.obj fs).depth))
    rw [List.append_nil, List.length_nil, Nat.zero_add, if_pos (Nat.le_max_right _ _), ← htokens,
      hextend] at htokens'
    cases htokens'
  · -- The part ends in a word, which would be the object.
    cases Reader.eq_of_run_atom hrun
    exact Token.atom?_ne_obj hv

/-- Reading a written object and what follows it. -/
theorem ofChars?_write_append (h : EveryField IsExact fs) (q : List Char) :
    ofChars? limit (write l 0 (.obj fs) ++ q) = (Token.lex .between q).bind fun us =>
      Reader.run limit (.value []) ((Json.obj fs).tokens ++ us) := by
  rw [ofChars?, Token.ofChars?, Token.lex_writeObject h]
  cases Token.lex .between q <;> rfl

/-- Behind a written object, blanks say nothing. -/
theorem ofChars?_padded (h : EveryField IsExact fs) (hq : ∀ c ∈ q, Token.isBlank c) :
    ofChars? limit (write l 0 (.obj fs) ++ q) = ofChars? limit (write l 0 (.obj fs)) := by
  have hnil : ofChars? limit (write l 0 (.obj fs) ++ []) = _ := ofChars?_write_append h []
  rw [List.append_nil] at hnil
  rw [ofChars?_write_append h, Token.lex_eq_nil_iff.mpr hq, hnil]
  rfl

/-- Behind a written object, nothing but blanks may stand. -/
theorem ofChars?_spoiled (h : EveryField IsExact fs) (hq : ¬∀ c ∈ q, Token.isBlank c) :
    ofChars? limit (write l 0 (.obj fs) ++ q) = none := by
  rw [ofChars?_write_append h]
  cases hlex : Token.lex .between q with
  | none => rfl
  | some us =>
    have hne : us ≠ [] := by
      rintro rfl
      exact hq (Token.lex_eq_nil_iff.mp hlex)
    obtain ⟨t, us, rfl⟩ := List.exists_cons_of_ne_nil hne
    rw [Option.bind_some, Reader.run_tokens _ _ _ (Nat.zero_le limit), Reader.complete,
      Reader.run_done, ite_self]

end SessionStore.Json
