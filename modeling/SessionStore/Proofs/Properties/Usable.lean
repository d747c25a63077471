import SessionStore.Proofs.Text.Numerals
import SessionStore.Proofs.Text.Trimming
import SessionStore.Properties.Variables

/-! # Variables that configure an engine

Variables give properties exactly when those among them that stand for numbers and switches can be
read, and the properties are of an engine that can work. If not, the first of them that cannot be
read is reported, and else the first fault of the properties.
-/

namespace SessionStore

/-! ## The first unmet demand -/

/-- `a` belongs to the first of the demands that is not met. -/
def FirstUnmet {α : Type} (demands : List (α × Prop)) (a : α) : Prop :=
  ∃ before p after, demands = before ++ (a, p) :: after ∧ (∀ d ∈ before, d.2) ∧ ¬p

section Demands

variable {α : Type} {a b : α} {p q : Prop} {demands : List (α × Prop)} {o : Option α}

theorem not_firstUnmet_nil : ¬FirstUnmet [] a := by
  rintro ⟨_ | _, _, _, h, -⟩ <;> cases h

theorem FirstUnmet.here (hp : ¬p) : FirstUnmet ((a, p) :: demands) a :=
  ⟨[], p, demands, rfl, nofun, hp⟩

theorem FirstUnmet.there (hp : p) (h : FirstUnmet demands b) :
    FirstUnmet ((a, p) :: demands) b := by
  obtain ⟨before, q, after, rfl, hbefore, hq⟩ := h
  exact ⟨(a, p) :: before, q, after, rfl, List.forall_mem_cons.mpr ⟨hp, hbefore⟩, hq⟩

theorem firstUnmet_cons_iff :
    FirstUnmet ((a, p) :: demands) b ↔ ¬p ∧ b = a ∨ p ∧ FirstUnmet demands b := by
  constructor
  · rintro ⟨before, q, after, h, hbefore, hq⟩
    cases before with
    | nil =>
      cases h
      exact .inl ⟨hq, rfl⟩
    | cons d before =>
      cases h
      obtain ⟨hp, hbefore⟩ := List.forall_mem_cons.mp hbefore
      exact .inr ⟨hp, before, q, after, rfl, hbefore, hq⟩
  · rintro (⟨hp, rfl⟩ | ⟨hp, h⟩)
    · exact .here hp
    · exact .there hp h

/-- `o` reports the first demand that is not met, and nothing if all are. -/
structure Reports (o : Option α) (demands : List (α × Prop)) : Prop where
  none_iff : o = none ↔ ∀ d ∈ demands, d.2
  some_iff : ∀ a, o = some a ↔ FirstUnmet demands a

theorem reports_nil : Reports none ([] : List (α × Prop)) where
  none_iff := by simp
  some_iff _ := iff_of_false nofun not_firstUnmet_nil

theorem reports_cons [Decidable q] (hq : q ↔ ¬p) (h : Reports o demands) :
    Reports (if q then some a else o) ((a, p) :: demands) := by
  by_cases hp : p
  · rw [if_neg (by simp [hq, hp])]
    exact ⟨by simp [h.none_iff, hp], fun b => by simp [firstUnmet_cons_iff, h.some_iff, hp]⟩
  · rw [if_pos (hq.mpr hp)]
    exact ⟨by simp [hp], fun b => by simp [firstUnmet_cons_iff, hp, eq_comm]⟩

end Demands

namespace Properties

variable {α : Type} {p : Properties} {s : Settings} {why : ConfigFault} {vars : Variables}
  {setting t word : String}

/-- What is demanded of the properties, each with the fault that they have if it is not met. -/
def demands (p : Properties) : List (ConfigFault × Prop) :=
  [(.zeroAgeLimit, p.ageLimit ≠ ⟨0⟩), (.zeroPurgeInterval, p.purgeInterval ≠ ⟨0⟩),
    (.blankName, ∃ c ∈ p.name.toList, ¬Text.isBlank c), (.shortIds 16, 16 ≤ p.idLength)]

theorem fault?_reports (p : Properties) : Reports p.fault? p.demands := by
  have hduration : ∀ d : Duration, d.nanos = 0 ↔ ¬d ≠ ⟨0⟩ := by
    rintro ⟨n⟩
    simp
  have hname : Text.trim p.name = "" ↔ ¬∃ c ∈ p.name.toList, ¬Text.isBlank c := by
    rw [Text.trim_eq_empty_iff]
    simp
  exact reports_cons (hduration _) <| reports_cons (hduration _) <| reports_cons hname <|
    reports_cons Nat.not_le.symm reports_nil

theorem check_eq_ok_iff {q : Properties} : p.check = .ok q ↔ q = p ∧ ∀ d ∈ p.demands, d.2 := by
  rw [← (fault?_reports p).none_iff, check]
  cases p.fault? <;> simp [eq_comm]

theorem check_eq_error_iff {error : SessionError} :
    p.check = .error error ↔ ∃ why, error = .config why ∧ FirstUnmet p.demands why := by
  simp only [← (fault?_reports p).some_iff, check]
  cases p.fault? <;> simp [eq_comm]

/-! ## Texts of variables -/

/-- The text of a number: its digits, perhaps behind a plus sign, with white space around them. -/
def IsNumber (t : String) (n : Nat) : Prop :=
  ∃ core, Text.IsTrimmed t.toList core ∧ Text.Numeral.IsNumeral core n ∧ n ≤ 0xFFFFFFFFFFFFFFFF

/-- The words for the two positions of a switch. -/
def words : Bool → List String
  | true => ["1", "true", "yes", "on"]
  | false => ["0", "false", "no", "off"]

/-- The text of a switch: a word for its position in any case, with white space around it. -/
def IsSwitch (t : String) (b : Bool) : Prop :=
  ∃ core, Text.IsTrimmed t.toList core ∧ Text.lowercase (String.ofList core) ∈ words b

/-- The text of a duration: that of the number of its seconds. -/
def IsSeconds (t : String) (d : Duration) : Prop := ∃ n, IsNumber t n ∧ d = .ofSeconds n

theorem isNumber_iff {n : Nat} : IsNumber t n ↔
    Text.Numeral.read Settings.numberLimit (Text.trimChars t.toList) = .ok n := by
  simp only [IsNumber, ← Text.trimChars_eq_iff, exists_eq_left', Text.Numeral.read_eq_ok_iff,
    Settings.numberLimit]

theorem switchWord?_eq_some_iff {b : Bool} : switchWord? word = some b ↔ word ∈ words b := by
  constructor
  · intro h
    unfold switchWord? at h
    split at h
    case isTrue hmem =>
      cases h
      exact hmem
    case isFalse =>
      obtain ⟨hmem, h⟩ := Option.ite_none_right_eq_some.mp h
      cases h
      exact hmem
  · have hall : ∀ b, ∀ word ∈ words b, switchWord? word = some b := by decide
    exact hall b word

theorem isSwitch_iff {b : Bool} :
    IsSwitch t b ↔ switchWord? (Text.lowercase (Text.trim t)) = some b := by
  simp only [IsSwitch, ← Text.trimChars_eq_iff, exists_eq_left', switchWord?_eq_some_iff]
  rfl

/-! ## Reading one variable -/

/-- What the variable for a setting says if it is set, and the default if it is not. -/
def Says (vars : Variables) (setting : String) (Means : String → α → Prop) (default x : α) : Prop :=
  (∀ t, vars (variableName setting) = some t → Means t x) ∧
    (vars (variableName setting) = none → x = default)

/-- The variable for a setting has a meaning if it is set. -/
def IsReadable (vars : Variables) (Means : String → α → Prop) (setting : String) : Prop :=
  ∀ t, vars (variableName setting) = some t → ∃ x, Means t x

/-- The message of the fault begins with the variable for the setting. -/
def Names (why : ConfigFault) (setting : String) : Prop :=
  ∃ rest, why.message = variableName setting ++ ": " ++ rest

/-- A reading of the variable for a setting gives the one thing that it means, or a fault that names
it if it means nothing. -/
inductive IsReading (vars : Variables) (Means : String → α → Prop) (setting : String) :
    Except ConfigFault (Option α) → Prop
  | absent (h : vars (variableName setting) = none) : IsReading vars Means setting (.ok none)
  | read {t : String} {x : α} (h : vars (variableName setting) = some t)
      (hx : ∀ y, Means t y ↔ y = x) : IsReading vars Means setting (.ok (some x))
  | refused {t : String} {why : ConfigFault} (h : vars (variableName setting) = some t)
      (hx : ∀ y, ¬Means t y) (hwhy : Names why setting) : IsReading vars Means setting (.error why)

section IsReading

variable {Means : String → α → Prop} {r : Except ConfigFault (Option α)} {o : Option α}

theorem IsReading.rel (h : IsReading vars Means setting (.ok o)) :
    Option.Rel Means (vars (variableName setting)) o := by
  cases h with
  | absent h => exact h ▸ .none
  | read h hx => exact h ▸ .some ((hx _).mpr rfl)

theorem isReadable_of_rel (h : Option.Rel Means (vars (variableName setting)) o) :
    IsReadable vars Means setting := by
  intro t ht
  rw [ht] at h
  cases h with
  | some hx => exact ⟨_, hx⟩

theorem IsReading.eq_ok (h : IsReading vars Means setting r)
    (ho : Option.Rel Means (vars (variableName setting)) o) : r = .ok o := by
  cases h with
  | absent h =>
    rw [h] at ho
    cases ho
    rfl
  | read h hx =>
    rw [h] at ho
    cases ho with
    | some hy => rw [(hx _).mp hy]
  | refused h hx =>
    rw [h] at ho
    cases ho with
    | some hy => exact absurd hy (hx _)

theorem IsReading.not_readable (h : IsReading vars Means setting (.error why)) :
    ¬IsReadable vars Means setting := by
  cases h with
  | refused h hx => exact fun hreadable => (hreadable _ h).elim hx

theorem IsReading.names (h : IsReading vars Means setting (.error why)) : Names why setting := by
  cases h with
  | refused _ _ hwhy => exact hwhy

end IsReading

theorem numberVariable_isReading (vars : Variables) (setting : String) :
    IsReading vars IsNumber setting (numberVariable vars setting) := by
  unfold numberVariable
  rcases h : vars (variableName setting) with _ | t
  · exact .absent h
  · rcases hread : Text.Numeral.read Settings.numberLimit (Text.trimChars t.toList) with fault | n
    · simp only [hread]
      exact .refused h (fun m hm => by simp [isNumber_iff, hread] at hm) ⟨_, rfl⟩
    · simp only [hread]
      exact .read h fun m => by simp [isNumber_iff, hread, eq_comm]

theorem names_badBoolean (setting word : String) :
    Names (.badBoolean (variableName setting) word) setting := by
  have hcolon : ": invalid boolean " = ": " ++ "invalid boolean " := by decide
  refine ⟨"invalid boolean " ++ Text.quote word, ?_⟩
  calc (ConfigFault.badBoolean (variableName setting) word).message
    _ = variableName setting ++ ": invalid boolean " ++ Text.quote word := rfl
    _ = variableName setting ++ (": " ++ "invalid boolean ") ++ Text.quote word := by rw [hcolon]
    _ = _ := by rw [String.append_assoc, String.append_assoc, String.append_assoc]

theorem switchVariable_isReading (vars : Variables) (setting : String) :
    IsReading vars IsSwitch setting (switchVariable vars setting) := by
  unfold switchVariable
  rcases h : vars (variableName setting) with _ | t
  · exact .absent h
  · rcases hword : switchWord? (Text.lowercase (Text.trim t)) with _ | b
    · simp only [hword]
      have hno : ∀ b, ¬IsSwitch t b := fun b hb => by simp [isSwitch_iff, hword] at hb
      exact .refused h hno (names_badBoolean setting _)
    · simp only [hword]
      exact .read h fun c => by simp [isSwitch_iff, hword, eq_comm]

/-! ## Reading all variables -/

/-- The properties have the values that the variables say, and the defaults for those that are not
set. -/
structure ConfiguredBy (vars : Variables) (p : Properties) : Prop where
  ageLimit : Says vars "AGE_LIMIT_SECS" IsSeconds standard.ageLimit p.ageLimit
  enabled : Says vars "ENABLED" IsSwitch standard.enabled p.enabled
  name : Says vars "NAME" Eq standard.name p.name
  keyspace : Says vars "PREFIX" Eq standard.keyspace p.keyspace
  purgeInterval : Says vars "PURGE_INTERVAL_SECS" IsSeconds standard.purgeInterval p.purgeInterval
  idLength : Says vars "ID_LENGTH" IsNumber standard.idLength p.idLength

/-- The variables that must be readable, in the order in which they are read. -/
def readings (vars : Variables) : List (String × Prop) :=
  [("AGE_LIMIT_SECS", IsReadable vars IsNumber "AGE_LIMIT_SECS"),
    ("ENABLED", IsReadable vars IsSwitch "ENABLED"),
    ("PURGE_INTERVAL_SECS", IsReadable vars IsNumber "PURGE_INTERVAL_SECS"),
    ("ID_LENGTH", IsReadable vars IsNumber "ID_LENGTH")]

/-- The settings that the variables give. -/
structure GivenBy (vars : Variables) (s : Settings) : Prop where
  ageLimit : Option.Rel IsNumber (vars (variableName "AGE_LIMIT_SECS")) s.ageLimit?
  enabled : Option.Rel IsSwitch (vars (variableName "ENABLED")) s.enabled?
  name : vars (variableName "NAME") = s.name?
  keyspace : vars (variableName "PREFIX") = s.keyspace?
  purgeInterval : Option.Rel IsNumber (vars (variableName "PURGE_INTERVAL_SECS")) s.purgeInterval?
  idLength : Option.Rel IsNumber (vars (variableName "ID_LENGTH")) s.idLength?

theorem settingsOfVariables_of_givenBy (h : GivenBy vars s) : settingsOfVariables vars = .ok s := by
  rw [settingsOfVariables, (numberVariable_isReading vars _).eq_ok h.ageLimit,
    (switchVariable_isReading vars _).eq_ok h.enabled,
    (numberVariable_isReading vars _).eq_ok h.purgeInterval,
    (numberVariable_isReading vars _).eq_ok h.idLength, h.name, h.keyspace]
  rfl

/-- The variables give settings, or one of them is refused that cannot be read while all that are
read before it can. -/
theorem settingsOfVariables_cases (vars : Variables) :
    (∃ s, settingsOfVariables vars = .ok s ∧ GivenBy vars s) ∨
      ∃ why setting, settingsOfVariables vars = .error why ∧
        FirstUnmet (readings vars) setting ∧ Names why setting := by
  have age := numberVariable_isReading vars "AGE_LIMIT_SECS"
  have enabled := switchVariable_isReading vars "ENABLED"
  have interval := numberVariable_isReading vars "PURGE_INTERVAL_SECS"
  have length := numberVariable_isReading vars "ID_LENGTH"
  unfold settingsOfVariables
  generalize numberVariable vars "AGE_LIMIT_SECS" = r at age ⊢
  generalize switchVariable vars "ENABLED" = r₁ at enabled ⊢
  generalize numberVariable vars "PURGE_INTERVAL_SECS" = r₂ at interval ⊢
  generalize numberVariable vars "ID_LENGTH" = r₃ at length ⊢
  rcases r with why | age?
  · exact .inr ⟨why, _, rfl, .here age.not_readable, age.names⟩
  have hage := isReadable_of_rel age.rel
  rcases r₁ with why | enabled?
  · exact .inr ⟨why, _, rfl, .there hage (.here enabled.not_readable), enabled.names⟩
  have henabled := isReadable_of_rel enabled.rel
  rcases r₂ with why | interval?
  · exact .inr ⟨why, _, rfl, .there hage (.there henabled (.here interval.not_readable)),
      interval.names⟩
  have hinterval := isReadable_of_rel interval.rel
  rcases r₃ with why | length?
  · exact .inr ⟨why, _, rfl,
      .there hage (.there henabled (.there hinterval (.here length.not_readable))), length.names⟩
  exact .inl ⟨_, rfl, age.rel, enabled.rel, rfl, rfl, interval.rel, length.rel⟩

/-! ## Settings and properties -/

section Says

variable {Means : String → α → Prop} {default x : α} {v : Option String}

theorem says_iff : Says vars setting Means default x ↔
    ∃ o, Option.Rel Means (vars (variableName setting)) o ∧ o.getD default = x := by
  unfold Says
  generalize vars (variableName setting) = v
  constructor
  · rintro ⟨hsome, hnone⟩
    cases v with
    | none => exact ⟨none, .none, (hnone rfl).symm⟩
    | some t => exact ⟨some x, .some (hsome t rfl), rfl⟩
  · rintro ⟨o, ho, rfl⟩
    cases ho with
    | none => exact ⟨nofun, fun _ => rfl⟩
    | some hx => exact ⟨fun t ht => Option.some_inj.mp ht ▸ hx, nofun⟩

theorem rel_isSeconds_iff {o : Option Duration} : Option.Rel IsSeconds v o ↔
    ∃ n?, Option.Rel IsNumber v n? ∧ n?.map .ofSeconds = o := by
  constructor
  · rintro (⟨n, hn, rfl⟩ | _)
    · exact ⟨some n, .some hn, rfl⟩
    · exact ⟨none, .none, rfl⟩
  · rintro ⟨n?, hn | _, rfl⟩
    · exact .some ⟨_, hn, rfl⟩
    · exact .none

theorem rel_eq_iff {o : Option String} : Option.Rel Eq v o ↔ v = o := by
  constructor
  · rintro (rfl | _) <;> rfl
  · rintro rfl
    cases v with
    | none => exact .none
    | some t => exact .some rfl

end Says

theorem configuredBy_iff : ConfiguredBy vars p ↔ ∃ s, GivenBy vars s ∧ s.toProperties = p := by
  constructor
  · intro h
    obtain ⟨age?, hage, hage'⟩ := says_iff.mp h.ageLimit
    obtain ⟨enabled?, henabled, henabled'⟩ := says_iff.mp h.enabled
    obtain ⟨name?, hname, hname'⟩ := says_iff.mp h.name
    obtain ⟨keyspace?, hkeyspace, hkeyspace'⟩ := says_iff.mp h.keyspace
    obtain ⟨interval?, hinterval, hinterval'⟩ := says_iff.mp h.purgeInterval
    obtain ⟨length?, hlength, hlength'⟩ := says_iff.mp h.idLength
    obtain ⟨seconds?, hseconds, rfl⟩ := rel_isSeconds_iff.mp hage
    obtain ⟨pause?, hpause, rfl⟩ := rel_isSeconds_iff.mp hinterval
    refine ⟨⟨seconds?, enabled?, name?, keyspace?, pause?, length?⟩, ⟨hseconds, henabled,
      rel_eq_iff.mp hname, rel_eq_iff.mp hkeyspace, hpause, hlength⟩, ?_⟩
    cases p
    simp only [Settings.toProperties]
    simp_all
  · rintro ⟨s, h, rfl⟩
    exact {
      ageLimit := says_iff.mpr ⟨_, rel_isSeconds_iff.mpr ⟨_, h.ageLimit, rfl⟩, rfl⟩
      enabled := says_iff.mpr ⟨_, h.enabled, rfl⟩
      name := says_iff.mpr ⟨_, rel_eq_iff.mpr h.name, rfl⟩
      keyspace := says_iff.mpr ⟨_, rel_eq_iff.mpr h.keyspace, rfl⟩
      purgeInterval := says_iff.mpr ⟨_, rel_isSeconds_iff.mpr ⟨_, h.purgeInterval, rfl⟩, rfl⟩
      idLength := says_iff.mpr ⟨_, h.idLength, rfl⟩ }

/-! ## Accepted variables -/

/-- The variables for settings, and no others. -/
def ownVariables (vars : Variables) : Variables := fun name =>
  if name ∈ ["AGE_LIMIT_SECS", "ENABLED", "NAME", "PREFIX", "PURGE_INTERVAL_SECS",
    "ID_LENGTH"].map variableName then vars name else none

theorem ofVariables_ownVariables (vars : Variables) :
    ofVariables (ownVariables vars) = ofVariables vars := by
  have hown : ∀ setting ∈ ["AGE_LIMIT_SECS", "ENABLED", "NAME", "PREFIX", "PURGE_INTERVAL_SECS",
      "ID_LENGTH"], ownVariables vars (variableName setting) = vars (variableName setting) :=
    fun setting h => if_pos (List.mem_map_of_mem h)
  simp only [List.forall_mem_cons] at hown
  obtain ⟨hage, henabled, hname, hkeyspace, hinterval, hlength, -⟩ := hown
  simp only [ofVariables, settingsOfVariables, numberVariable, switchVariable, hage, henabled,
    hname, hkeyspace, hinterval, hlength]

theorem ofVariables_of_configuredBy (h : ConfiguredBy vars p) : ofVariables vars = p.check := by
  obtain ⟨s, hgiven, rfl⟩ := configuredBy_iff.mp h
  rw [ofVariables, settingsOfVariables_of_givenBy hgiven]

theorem ofVariables_cases (vars : Variables) :
    (∃ p, ConfiguredBy vars p ∧ ofVariables vars = p.check) ∨
      ∃ why setting, ofVariables vars = .error (.config why) ∧
        FirstUnmet (readings vars) setting ∧ Names why setting := by
  rcases settingsOfVariables_cases vars with ⟨s, hs, hgiven⟩ | ⟨why, setting, hs, hwhy⟩
  · exact .inl ⟨_, configuredBy_iff.mpr ⟨s, hgiven, rfl⟩, by rw [ofVariables, hs]⟩
  · exact .inr ⟨why, setting, by rw [ofVariables, hs], hwhy⟩

/-- Variables are accepted exactly if there are properties with the values that they say and these
meet all demands; there is only one way to have them. Otherwise the first variable that cannot be
read is named, or, where all can be read, the first demand decides that the properties do not meet.
Variables of other names do not matter. -/
theorem ofVariables_accepts (vars : Variables) :
    (∀ p, ofVariables vars = .ok p ↔ ConfiguredBy vars p ∧ ∀ d ∈ p.demands, d.2) ∧
      (∀ p, ofVariables vars = .ok p → p.check = .ok p) ∧
      (∀ error, ofVariables vars = .error error → ∃ why, error = .config why ∧
        ((∃ setting, FirstUnmet (readings vars) setting ∧ Names why setting) ∨
          ∃ p, ConfiguredBy vars p ∧ FirstUnmet p.demands why)) ∧
      ofVariables (ownVariables vars) = ofVariables vars := by
  have hok : ∀ {p}, ofVariables vars = .ok p → ConfiguredBy vars p ∧ ∀ d ∈ p.demands, d.2 := by
    intro p h
    rcases ofVariables_cases vars with ⟨q, hq, hcheck⟩ | ⟨why, setting, herror, -⟩
    · rw [hcheck] at h
      obtain ⟨rfl, hdemands⟩ := check_eq_ok_iff.mp h
      exact ⟨hq, hdemands⟩
    · rw [herror] at h
      cases h
  refine ⟨fun p => ⟨hok, fun ⟨hp, hdemands⟩ => ?_⟩, fun p h => ?_, fun error h => ?_,
    ofVariables_ownVariables vars⟩
  · rw [ofVariables_of_configuredBy hp]
    exact check_eq_ok_iff.mpr ⟨rfl, hdemands⟩
  · exact check_eq_ok_iff.mpr ⟨rfl, (hok h).2⟩
  · rcases ofVariables_cases vars with ⟨p, hp, hcheck⟩ | ⟨why, setting, herror, hwhy⟩
    · rw [hcheck] at h
      obtain ⟨why, rfl, hfirst⟩ := check_eq_error_iff.mp h
      exact ⟨why, rfl, .inr ⟨p, hp, hfirst⟩⟩
    · rw [herror] at h
      cases h
      exact ⟨why, rfl, .inl ⟨setting, hwhy⟩⟩

end Properties

end SessionStore
