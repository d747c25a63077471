import SessionStore.Logging.Config
import SessionStore.Proofs.Properties.Usable
import SessionStore.Proofs.Text.Lowering

/-! # Words in settings

Switches, log levels and log formats are named by words. A text names what a word stands for if it
is the word with white space around it, in any case of ASCII letters, and else it names nothing. Log
settings are the same whether a variable that names nothing is set or not.
-/

namespace SessionStore

namespace Text

variable {s word : String}

/-- The text is the word, with white space around it and in any case of ASCII letters. -/
def Spells (s word : String) : Prop :=
  ∃ core, IsTrimmed s.toList core ∧ SameLetters core word.toList

theorem spells_iff : Spells s word ↔ SameLetters (trim s).toList word.toList := by
  simp only [Spells, ← trimChars_eq_iff, exists_eq_left', trim, String.toList_ofList]

instance (s word : String) : Decidable (Spells s word) := decidable_of_iff _ spells_iff.symm

end Text

/-! ## Glossaries -/

/-- Words, each with what it stands for. -/
abbrev Glossary (α : Type) := List (String × α)

namespace Glossary

variable {α : Type} {g : Glossary α} {vars : Variables} {s name other : String} {x : α}
  {read : String → Option α}

/-- The text spells a word for `x`. -/
def Means (g : Glossary α) (s : String) (x : α) : Prop :=
  ∃ word, (word, x) ∈ g ∧ Text.Spells s word

/-- The text spells a word. -/
def Knows (g : Glossary α) (s : String) : Prop := ∃ e ∈ g, Text.Spells s e.1

instance (g : Glossary α) (s : String) : Decidable (g.Knows s) :=
  inferInstanceAs (Decidable (∃ e ∈ g, Text.Spells s e.1))

theorem knows_iff : g.Knows s ↔ ∃ x, g.Means s x := by
  simp only [Knows, Means, Prod.exists]
  exact exists_comm

/-- The texts that are read are those that spell a word, and they give what it stands for. -/
def IsReadBy (g : Glossary α) (read : String → Option α) : Prop :=
  ∀ s x, read s = some x ↔ g.Means s x

/-- No character beyond ASCII becomes a letter of a word when it is made small. -/
def IsUnmistaken (g : Glossary α) : Prop := ∀ e ∈ g, ∀ d ∈ e.1.toList, Text.IsUnmistaken d

theorem isUnmistaken_of_all (h : g.all fun e => e.1.toList.all (Text.IsUnmistaken ·)) :
    g.IsUnmistaken := by
  simpa only [IsUnmistaken, List.all_eq_true, decide_eq_true_eq] using h

/-- A reader of words that trims a text and makes it small reads the texts that spell a word. -/
theorem isReadBy_lowercase (ofWord? : String → Option α)
    (hword : ∀ word x, ofWord? word = some x ↔ (word, x) ∈ g) (hg : g.IsUnmistaken) :
    g.IsReadBy fun s => ofWord? (Text.lowercase (Text.trim s)) := by
  intro s x
  rw [hword]
  constructor
  · intro h
    exact ⟨_, h, Text.spells_iff.mpr ((Text.lowercase_eq_iff (hg _ h)).mp rfl)⟩
  · rintro ⟨word, hmem, hspells⟩
    rwa [(Text.lowercase_eq_iff (hg _ hmem)).mpr (Text.spells_iff.mp hspells)]

theorem IsReadBy.eq_none (h : g.IsReadBy read) (hs : ¬g.Knows s) : read s = none :=
  Option.eq_none_iff_forall_ne_some.mpr fun x hx => hs (knows_iff.mpr ⟨x, (h s x).mp hx⟩)

theorem ascii_of_knows (hg : g.IsUnmistaken) (h : g.Knows s) :
    ∀ c ∈ (Text.trim s).toList, c.toNat < 0x80 := by
  obtain ⟨e, he, hspells⟩ := h
  exact (Text.spells_iff.mp hspells).ascii fun d hd => (hg e he d hd).ascii

/-- The variable is set to a text that spells a word for `x`. -/
def Picks (g : Glossary α) (vars : Variables) (name : String) (x : α) : Prop :=
  ∃ s, vars name = some s ∧ g.Means s x

theorem IsReadBy.bind_eq_some_iff (h : g.IsReadBy read) :
    (vars name).bind read = some x ↔ g.Picks vars name x := by
  rw [Option.bind_eq_some_iff]
  exact exists_congr fun s => and_congr_right fun _ => h s x

theorem IsReadBy.bind_eq_none (h : g.IsReadBy read) (hnone : ∀ x, ¬g.Picks vars name x) :
    (vars name).bind read = none :=
  Option.eq_none_iff_forall_ne_some.mpr fun x hx => hnone x (h.bind_eq_some_iff.mp hx)

/-- The variables with that name unset if its text spells no word. -/
def sift (g : Glossary α) (name : String) (vars : Variables) : Variables :=
  Function.update vars name ((vars name).filter (g.Knows ·))

theorem sift_of_ne (h : other ≠ name) : g.sift name vars other = vars other :=
  Function.update_of_ne h _ _

theorem IsReadBy.bind_sift (h : g.IsReadBy read) :
    (g.sift name vars name).bind read = (vars name).bind read := by
  rw [sift, Function.update_self]
  rcases vars name with _ | s
  · rfl
  · by_cases hs : g.Knows s
    · rw [Option.filter_some_pos (by simpa using hs)]
    · rw [Option.filter_some_neg (by simpa using hs)]
      exact (h.eq_none hs).symm

end Glossary

namespace Properties

variable {vars : Variables} {setting s word : String} {b : Bool}

/-- The words for the two positions of a switch. -/
def switchWords : Glossary Bool := (words true).map (·, true) ++ (words false).map (·, false)

theorem mem_switchWords : (word, b) ∈ switchWords ↔ word ∈ words b := by
  cases b <;> simp [switchWords]

theorem switchWords_isUnmistaken : switchWords.IsUnmistaken :=
  Glossary.isUnmistaken_of_all (by decide)

theorem switchWords_isReadBy :
    switchWords.IsReadBy fun s => switchWord? (Text.lowercase (Text.trim s)) :=
  Glossary.isReadBy_lowercase switchWord?
    (fun _ _ => switchWord?_eq_some_iff.trans mem_switchWords.symm) switchWords_isUnmistaken

theorem switchVariable_of_set (h : vars (variableName setting) = some s) :
    (∀ b, switchVariable vars setting = .ok (some b) ↔ switchWords.Means s b) ∧
      (¬switchWords.Knows s → switchVariable vars setting =
        .error (.badBoolean (variableName setting) (Text.lowercase (Text.trim s)))) := by
  simp only [switchVariable, h]
  refine ⟨fun b => ?_, fun hs => ?_⟩
  · have hread : switchWord? (Text.lowercase (Text.trim s)) = some b ↔ switchWords.Means s b :=
      switchWords_isReadBy s b
    rw [← hread]
    rcases switchWord? (Text.lowercase (Text.trim s)) with _ | found <;> simp
  · rw [switchWords_isReadBy.eq_none hs]

end Properties

namespace Logging

namespace Level

/-- The words for levels; two of them have a second one. -/
def words : Glossary Level :=
  [("trace", .trace), ("debug", .debug), ("info", .info), ("warn", .warn), ("warning", .warn),
    ("error", .error), ("off", .off), ("none", .off)]

theorem ofWord?_eq_some_iff {word : String} {l : Level} :
    ofWord? word = some l ↔ (word, l) ∈ words := by
  constructor
  · intro h
    unfold ofWord? at h
    split_ifs at h <;> cases h <;> simp_all [words]
  · have hall : ∀ e ∈ words, ofWord? e.1 = some e.2 := by decide
    exact hall (word, l)

theorem words_isUnmistaken : words.IsUnmistaken :=
  Glossary.isUnmistaken_of_all (by decide)

theorem words_isReadBy : words.IsReadBy parse? :=
  Glossary.isReadBy_lowercase ofWord? (fun _ _ => ofWord?_eq_some_iff) words_isUnmistaken

end Level

namespace Format

def words : Glossary Format := [("pretty", .pretty), ("compact", .compact), ("json", .json)]

theorem ofWord?_eq_some_iff {word : String} {f : Format} :
    ofWord? word = some f ↔ (word, f) ∈ words := by
  constructor
  · intro h
    unfold ofWord? at h
    split_ifs at h <;> cases h <;> simp_all [words]
  · have hall : ∀ e ∈ words, ofWord? e.1 = some e.2 := by decide
    exact hall (word, f)

theorem words_isUnmistaken : words.IsUnmistaken :=
  Glossary.isUnmistaken_of_all (by decide)

theorem words_isReadBy : words.IsReadBy parse? :=
  Glossary.isReadBy_lowercase ofWord? (fun _ _ => ofWord?_eq_some_iff) words_isUnmistaken

end Format

namespace Config

variable {vars : Variables} {s : String}

/-- The debug switch is set: its text is the digit one, or the word in any case of ASCII letters,
and there is no white space around it. -/
def IsDebugging (vars : Variables) : Prop :=
  ∃ s, vars "LAPSE_DEBUG" = some s ∧ (s = "1" ∨ Text.SameLetters s.toList "true".toList)

theorem isSet_iff : isSet s = true ↔ s = "1" ∨ Text.SameLetters s.toList "true".toList := by
  rw [isSet, Bool.or_eq_true, beq_iff_eq, beq_iff_eq, Text.sameLetters_iff]
  rfl

theorem fallbackLevel_eq (vars : Variables) :
    (IsDebugging vars → fallbackLevel vars = .debug) ∧
      (¬IsDebugging vars → fallbackLevel vars = .info) := by
  simp only [IsDebugging, ← isSet_iff, fallbackLevel]
  rcases vars "LAPSE_DEBUG" with _ | s
  · exact ⟨nofun, fun _ => rfl⟩
  · rcases hs : isSet s <;> simp [hs, standard]

/-- The settings are those that the variables name, and where they name none the format is compact
and the level depends on the debug switch. -/
structure Follows (c : Config) (vars : Variables) : Prop where
  level : ∀ l, Level.words.Picks vars "LAPSE_LOG_LEVEL" l → c.level = l
  debug : (∀ l, ¬Level.words.Picks vars "LAPSE_LOG_LEVEL" l) → IsDebugging vars → c.level = .debug
  info : (∀ l, ¬Level.words.Picks vars "LAPSE_LOG_LEVEL" l) → ¬IsDebugging vars → c.level = .info
  format : ∀ f, Format.words.Picks vars "LAPSE_LOG_FORMAT" f → c.format = f
  compact : (∀ f, ¬Format.words.Picks vars "LAPSE_LOG_FORMAT" f) → c.format = .compact

theorem ofVariables_follows (vars : Variables) : (ofVariables vars).Follows vars where
  level l h := by rw [ofVariables, Level.words_isReadBy.bind_eq_some_iff.mpr h, Option.getD_some]
  debug hnone h := by
    rw [ofVariables, Level.words_isReadBy.bind_eq_none hnone, Option.getD_none,
      (fallbackLevel_eq vars).1 h]
  info hnone h := by
    rw [ofVariables, Level.words_isReadBy.bind_eq_none hnone, Option.getD_none,
      (fallbackLevel_eq vars).2 h]
  format f h := by rw [ofVariables, Format.words_isReadBy.bind_eq_some_iff.mpr h, Option.getD_some]
  compact hnone := by
    rw [ofVariables, Format.words_isReadBy.bind_eq_none hnone, Option.getD_none]
    rfl

/-- The variables without texts for the level and the format that name none. -/
def sifted (vars : Variables) : Variables :=
  Level.words.sift "LAPSE_LOG_LEVEL" (Format.words.sift "LAPSE_LOG_FORMAT" vars)

theorem ofVariables_sifted (vars : Variables) : ofVariables (sifted vars) = ofVariables vars := by
  have hother : ∀ name, name ≠ "LAPSE_LOG_LEVEL" → name ≠ "LAPSE_LOG_FORMAT" →
      sifted vars name = vars name := fun name hlevel hformat =>
    (Glossary.sift_of_ne hlevel).trans (Glossary.sift_of_ne hformat)
  have hlevel : (sifted vars "LAPSE_LOG_LEVEL").bind Level.parse? =
      (vars "LAPSE_LOG_LEVEL").bind Level.parse? := by
    rw [sifted, Level.words_isReadBy.bind_sift, Glossary.sift_of_ne (by decide)]
  have hformat : (sifted vars "LAPSE_LOG_FORMAT").bind Format.parse? =
      (vars "LAPSE_LOG_FORMAT").bind Format.parse? := by
    rw [sifted, Glossary.sift_of_ne (by decide), Format.words_isReadBy.bind_sift]
  rw [ofVariables, ofVariables, fallbackLevel, fallbackLevel, hlevel, hformat,
    hother "LAPSE_DEBUG" (by decide) (by decide)]

end Config

/-- Switches, levels and formats are read from the texts that spell one of their words, and from no
others; a text with a character beyond ASCII that is not white space around it spells none. So log
settings follow the words in the variables, and are the same without the texts that name nothing. -/
theorem words_up_to_case :
    (∀ vars s, vars (Properties.variableName "ENABLED") = some s →
      (∀ b, Properties.switchVariable vars "ENABLED" = .ok (some b) ↔
        Properties.switchWords.Means s b) ∧
      (¬Properties.switchWords.Knows s → Properties.switchVariable vars "ENABLED" =
        .error (.badBoolean (Properties.variableName "ENABLED")
          (Text.lowercase (Text.trim s))))) ∧
      Level.words.IsReadBy Level.parse? ∧ Format.words.IsReadBy Format.parse? ∧
      (∀ s, Properties.switchWords.Knows s ∨ Level.words.Knows s ∨ Format.words.Knows s →
        ∀ c ∈ (Text.trim s).toList, c.toNat < 0x80) ∧
      ∀ vars, (Config.ofVariables vars).Follows vars ∧
        Config.ofVariables (Config.sifted vars) = Config.ofVariables vars := by
  refine ⟨fun vars s h => Properties.switchVariable_of_set h, Level.words_isReadBy,
    Format.words_isReadBy, ?_,
    fun vars => ⟨Config.ofVariables_follows vars, Config.ofVariables_sifted vars⟩⟩
  rintro s (h | h | h)
  · exact Glossary.ascii_of_knows Properties.switchWords_isUnmistaken h
  · exact Glossary.ascii_of_knows Level.words_isUnmistaken h
  · exact Glossary.ascii_of_knows Format.words_isUnmistaken h

/-- A wide space is trimmed, and a dotted capital does not stand for its letter. -/
example : Level.parse? "\u3000WARNing\n" = some .warn ∧ Level.parse? "\u0130nfo" = none := by
  decide

end Logging

end SessionStore
