import SessionStore.Proofs.Properties.Schema
import SessionStore.Proofs.Text.Numerals
import SessionStore.Proofs.Toml.Spelling
import SessionStore.Properties.Variables

/-! # Documents and variables configure alike

A document of plain lines either is no document of settings, or gives the properties that variables
with the same values give, and the same fault if they have one.
-/

namespace SessionStore

namespace Properties

open Settings (number_mem_schema switch_mem_schema text_mem_schema)

variable {vars : Variables} {setting : String} {es : List (String × Toml.Value)}

theorem numberVariable_of_toString {o : Option Nat}
    (h : vars (variableName setting) = o.map fun n : Nat => toString (n : Int))
    (hlimit : ∀ n, o = some n → n ≤ Settings.numberLimit) :
    numberVariable vars setting = .ok o := by
  cases o with
  | none =>
    rw [numberVariable, h]
    rfl
  | some n =>
    have hdigits : (toString (n : Int)).toList = Nat.toDigits 10 n := Toml.toList_toString n
    have hblank : ∀ c ∈ Nat.toDigits 10 n, Text.isBlank c = false := fun c hc =>
      Text.not_isBlank_of_isDigit (Json.isDigit_of_mem_toDigits hc)
    rw [numberVariable, h]
    simp only [Option.map_some, hdigits, Text.trimChars_of_not_isBlank hblank,
      Text.Numeral.read_toDigits (hlimit n rfl)]

theorem switchVariable_of_toString {o : Option Bool}
    (h : vars (variableName setting) = o.map toString) : switchVariable vars setting = .ok o := by
  rw [switchVariable, h]
  rcases o with _ | _ | _ <;> rfl

/-! ## Variables with the values of entries -/

/-- The full name of the variable for a key: the key in capitals behind the common beginning. -/
def variableOf (key : String) : String := variableName (String.ofList (key.toList.map Char.toUpper))

/-- A value as the text of a variable: numbers in decimal, texts as they are. -/
def textOf : Toml.Value → String
  | .integer n => toString n
  | .boolean b => toString b
  | .text s => s

/-- Every entry has a variable with its value, and known keys without an entry have none. -/
structure Carries (vars : Variables) (es : List (String × Toml.Value)) : Prop where
  given : ∀ k v, (k, v) ∈ es → vars (variableOf k) = some (textOf v)
  absent : ∀ k kind, (k, kind) ∈ Settings.schema → (∀ v, (k, v) ∉ es) → vars (variableOf k) = none

variable {s : Settings} {k : String} {kind : Settings.Kind}

theorem Carries.eq (h : Carries vars es) (hs : Settings.ofEntries? es = some s)
    (hk : (k, kind) ∈ Settings.schema) : vars (variableOf k) = (s.held? k).map textOf := by
  cases hv : s.held? k with
  | none =>
    refine h.absent k kind hk fun v hmem => ?_
    rw [(Settings.held?_of_ofEntries? hs).mpr hmem] at hv
    cases hv
  | some v => exact h.given k v ((Settings.held?_of_ofEntries? hs).mp hv)

theorem numberVariable_of_carries (h : Carries vars es) (hs : Settings.ofEntries? es = some s)
    (hk : (k, .number) ∈ Settings.schema) {o : Option Nat}
    (ho : s.held? k = o.map fun n : Nat => .integer n)
    (hname : variableOf k = variableName setting) :
    numberVariable vars setting = .ok o := by
  refine numberVariable_of_toString ?_ fun n hn => ?_
  · rw [← hname, h.eq hs hk, ho, Option.map_map]
    rfl
  · rw [hn] at ho
    have hmem := (Settings.held?_of_ofEntries? hs).mp ho
    cases (Settings.exists_ofEntries?_iff.mp ⟨s, hs⟩).1 _ hmem with
    | number _ _ hhigh => exact Int.ofNat_le.mp hhigh

theorem textVariable_of_carries (h : Carries vars es) (hs : Settings.ofEntries? es = some s)
    (hk : (k, .text) ∈ Settings.schema) {o : Option String} (ho : s.held? k = o.map .text) :
    vars (variableOf k) = o := by
  rw [h.eq hs hk, ho, Option.map_map]
  exact Option.map_id'

/-- The variables give the settings that the entries give. -/
theorem settingsOfVariables_of_carries (h : Carries vars es)
    (hs : Settings.ofEntries? es = some s) : settingsOfVariables vars = .ok s := by
  have hage : numberVariable vars "AGE_LIMIT_SECS" = .ok s.ageLimit? :=
    numberVariable_of_carries h hs (number_mem_schema.mpr (.inl rfl)) s.held?_ageLimit rfl
  have hinterval : numberVariable vars "PURGE_INTERVAL_SECS" = .ok s.purgeInterval? :=
    numberVariable_of_carries h hs (number_mem_schema.mpr (.inr (.inl rfl)))
      s.held?_purgeInterval rfl
  have hlength : numberVariable vars "ID_LENGTH" = .ok s.idLength? :=
    numberVariable_of_carries h hs (number_mem_schema.mpr (.inr (.inr rfl))) s.held?_idLength rfl
  have henabled : switchVariable vars "ENABLED" = .ok s.enabled? := by
    have hvar := h.eq hs (switch_mem_schema.mpr rfl)
    rw [s.held?_enabled, Option.map_map] at hvar
    exact switchVariable_of_toString hvar
  have hname : vars (variableName "NAME") = s.name? :=
    textVariable_of_carries h hs (text_mem_schema.mpr (.inl rfl)) s.held?_name
  have hkeyspace : vars (variableName "PREFIX") = s.keyspace? :=
    textVariable_of_carries h hs (text_mem_schema.mpr (.inr rfl)) s.held?_keyspace
  rw [settingsOfVariables, hage, henabled, hinterval, hlength, hname, hkeyspace]
  rfl

/-- The variables of entries and no others. -/
def variablesOf (es : List (String × Toml.Value)) : Variables := fun name =>
  (es.find? fun e => variableOf e.1 == name).map fun e => textOf e.2

theorem variableOf_inj {l : String} {kind' : Settings.Kind} (hk : (k, kind) ∈ Settings.schema)
    (hl : (l, kind') ∈ Settings.schema) (h : variableOf k = variableOf l) : k = l := by
  have hkeys : ∀ a ∈ Settings.schema, ∀ b ∈ Settings.schema, variableOf a.1 = variableOf b.1 →
      a.1 = b.1 := by decide
  exact hkeys _ hk _ hl h

theorem carries_variables (hfits : ∀ e ∈ es, Settings.Fits e.1 e.2)
    (hdistinct : (es.map (·.1)).Nodup) : Carries (variablesOf es) es := by
  have hkey : ∀ {k kind}, (k, kind) ∈ Settings.schema → ∀ e ∈ es,
      (variableOf e.1 == variableOf k) = true → e.1 = k := by
    intro k kind hk e he heq
    obtain ⟨kind', hk', -⟩ := (hfits e he).exists_kind
    exact variableOf_inj hk' hk (eq_of_beq heq)
  constructor
  · intro k v hmem
    obtain ⟨kind, hk, -⟩ := (hfits _ hmem).exists_kind
    have hsome : (es.find? fun e => variableOf e.1 == variableOf k).isSome :=
      List.find?_isSome.mpr ⟨_, hmem, beq_self_eq_true _⟩
    obtain ⟨e, hfind⟩ := Option.isSome_iff_exists.mp hsome
    have he := List.mem_of_find?_eq_some hfind
    have hname := List.find?_some hfind
    have heq : e = (k, v) := List.inj_on_of_nodup_map hdistinct he hmem (hkey hk e he hname)
    rw [variablesOf, hfind, Option.map_some, heq]
  · intro k kind hk hmissing
    rw [variablesOf, Option.map_eq_none_iff, List.find?_eq_none]
    intro e he heq
    exact hmissing e.2 (hkey hk e he heq ▸ he)

theorem Carries.of_perm {es' : List (String × Toml.Value)} (h : Carries vars es)
    (hp : es'.Perm es) : Carries vars es' where
  given k v hmem := h.given k v (hp.mem_iff.mp hmem)
  absent k kind hk hmissing :=
    h.absent k kind hk fun v hmem => hmissing v (hp.mem_iff.mpr hmem)

/-! ## Properties with the values of entries -/

/-- The value under the key is read as `x`, which is the default if there is none. -/
def Gives {α : Type} (es : List (String × Toml.Value)) (key : String)
    (read : Toml.Value → Option α) (default x : α) : Prop :=
  (∀ v, (key, v) ∈ es → read v = some x) ∧ ((∀ v, (key, v) ∉ es) → x = default)

def duration? : Toml.Value → Option Duration
  | .integer n => some (.ofSeconds n.toNat)
  | _ => none

def count? : Toml.Value → Option Nat
  | .integer n => some n.toNat
  | _ => none

def switch? : Toml.Value → Option Bool
  | .boolean b => some b
  | _ => none

def text? : Toml.Value → Option String
  | .text s => some s
  | _ => none

/-- The properties have the values of the entries, and the defaults where there are none. -/
structure Describes (es : List (String × Toml.Value)) (p : Properties) : Prop where
  ageLimit : Gives es "age_limit_secs" duration? standard.ageLimit p.ageLimit
  enabled : Gives es "enabled" switch? standard.enabled p.enabled
  name : Gives es "name" text? standard.name p.name
  keyspace : Gives es "prefix" text? standard.keyspace p.keyspace
  purgeInterval : Gives es "purge_interval_secs" duration? standard.purgeInterval p.purgeInterval
  idLength : Gives es "id_length" count? standard.idLength p.idLength

theorem gives_of_held? {α β : Type} {o : Option β} {f : β → Toml.Value}
    {read : Toml.Value → Option α} {default x : α} (hs : Settings.ofEntries? es = some s)
    (ho : s.held? k = o.map f) (hsome : ∀ b, o = some b → read (f b) = some x)
    (hnone : o = none → x = default) : Gives es k read default x := by
  constructor
  · intro v hv
    rw [← Settings.held?_of_ofEntries? hs, ho] at hv
    obtain ⟨b, hb, rfl⟩ := Option.map_eq_some_iff.mp hv
    exact hsome b hb
  · intro hmissing
    cases o with
    | none => exact hnone rfl
    | some b => exact absurd ((Settings.held?_of_ofEntries? hs).mp ho) (hmissing (f b))

theorem describes_toProperties (hs : Settings.ofEntries? es = some s) :
    Describes es s.toProperties where
  ageLimit := gives_of_held? hs s.held?_ageLimit
    (fun n h => by simp [Settings.toProperties, duration?, h])
    fun h => by simp [Settings.toProperties, h]
  enabled := gives_of_held? hs s.held?_enabled
    (fun b h => by simp [Settings.toProperties, switch?, h])
    fun h => by simp [Settings.toProperties, h]
  name := gives_of_held? hs s.held?_name
    (fun t h => by simp [Settings.toProperties, text?, h])
    fun h => by simp [Settings.toProperties, h]
  keyspace := gives_of_held? hs s.held?_keyspace
    (fun t h => by simp [Settings.toProperties, text?, h])
    fun h => by simp [Settings.toProperties, h]
  purgeInterval := gives_of_held? hs s.held?_purgeInterval
    (fun n h => by simp [Settings.toProperties, duration?, h])
    fun h => by simp [Settings.toProperties, h]
  idLength := gives_of_held? hs s.held?_idLength
    (fun n h => by simp [Settings.toProperties, count?, h])
    fun h => by simp [Settings.toProperties, h]

theorem fault?_cases {p : Properties} {why : ConfigFault} (h : p.fault? = some why) :
    why = .zeroAgeLimit ∨ why = .zeroPurgeInterval ∨ why = .blankName ∨
      why = .shortIds leastIdLength := by
  unfold fault? at h
  split at h
  · exact .inl (Option.some_inj.mp h).symm
  split at h
  · exact .inr (.inl (Option.some_inj.mp h).symm)
  split at h
  · exact .inr (.inr (.inl (Option.some_inj.mp h).symm))
  split at h
  · exact .inr (.inr (.inr (Option.some_inj.mp h).symm))
  · cases h

/-- No fault of properties is taken for one of a document. -/
theorem message_of_fault? {p : Properties} {why : ConfigFault} (h : p.fault? = some why)
    (rest : String) : why.message ≠ "TOML parse error: " ++ rest := by
  have hdocument : ("TOML parse error: " ++ rest).toList.head? = some 'T' := by
    have hletters : "TOML parse error: ".toList = 'T' :: "OML parse error: ".toList := by decide
    rw [String.toList_append, hletters]
    rfl
  have hfault : why.message.toList.head? ≠ some 'T' := by
    rcases fault?_cases h with rfl | rfl | rfl | rfl <;> decide
  intro heq
  exact hfault (heq ▸ hdocument)

/-! ## Documents -/

variable {text : String}

theorem ofDocument_of_some (h : Toml.IsDocument es text.toList)
    (hs : Settings.ofEntries? es = some s) : ofDocument text = s.toProperties.check := by
  rw [ofDocument, Toml.parse?_of_isDocument h, Option.bind_some, hs]

theorem ofDocument_of_none (h : Toml.IsDocument es text.toList)
    (hs : Settings.ofEntries? es = none) :
    ofDocument text = .error (.config .malformedDocument) := by
  rw [ofDocument, Toml.parse?_of_isDocument h, Option.bind_some, hs]

theorem ofVariables_of_carries (h : Toml.IsDocument es text.toList)
    (hs : Settings.ofEntries? es = some s) (hc : Carries vars es) :
    ofVariables vars = ofDocument text := by
  rw [ofVariables, settingsOfVariables_of_carries hc hs, ofDocument_of_some h hs]

/-- A document of plain lines is malformed exactly if its entries are not of settings, whatever else
is wrong with their values. Otherwise it gives what variables with the same values give: the
properties with these values, and the defaults for absent keys, unless they have a fault. The order
of the lines does not matter. -/
theorem document_like_variables (h : Toml.IsDocument es text.toList) :
    ((∃ why rest, ofDocument text = .error (.config why) ∧
        why.message = "TOML parse error: " ++ rest) ↔ Settings.IsRefused es) ∧
      (¬Settings.IsRefused es →
        (∃ p, Describes es p ∧ ofDocument text = p.check) ∧
        Carries (variablesOf es) es ∧
        (∀ vars, Carries vars es → ofVariables vars = ofDocument text) ∧
        ∀ es' text', es'.Perm es → Toml.IsDocument es' text'.toList →
          ofDocument text' = ofDocument text) := by
  rw [Settings.isRefused_iff]
  cases hs : Settings.ofEntries? es with
  | none =>
    refine ⟨⟨fun _ => rfl, fun _ => ?_⟩, fun hne => absurd rfl hne⟩
    exact ⟨.malformedDocument, "not a document of session settings", ofDocument_of_none h hs,
      by decide⟩
  | some s =>
    obtain ⟨hfits, hdistinct⟩ := Settings.exists_ofEntries?_iff.mp ⟨s, hs⟩
    have hcheck : ofDocument text = s.toProperties.check := ofDocument_of_some h hs
    refine ⟨⟨?_, nofun⟩, fun _ => ⟨⟨_, describes_toProperties hs, hcheck⟩,
      carries_variables hfits hdistinct, fun vars hc => ofVariables_of_carries h hs hc, ?_⟩⟩
    · rintro ⟨why, rest, herror, hmessage⟩
      rw [hcheck, check] at herror
      cases hfault : s.toProperties.fault? with
      | none =>
        rw [hfault] at herror
        cases herror
      | some why' =>
        rw [hfault] at herror
        cases herror
        exact absurd hmessage (message_of_fault? hfault rest)
    · intro es' text' hp h'
      have hc := carries_variables hfits hdistinct
      obtain ⟨s', hs'⟩ := Settings.exists_ofEntries?_iff.mpr
        ⟨fun e he => hfits e (hp.mem_iff.mp he), (hp.map _).nodup_iff.mpr hdistinct⟩
      rw [← ofVariables_of_carries h hs hc, ofVariables_of_carries h' hs' (hc.of_perm hp)]

/-- Three lines with all kinds of values, an escaped letter and an escaped quote among them, then
the same lines turned round, and a number too small for its key beside a limit of zero. -/
theorem document_like_variables_escaped :
    let es : List (String × Toml.Value) :=
      [("name", .text "aé\""), ("age_limit_secs", .integer 7), ("enabled", .boolean false)]
    let text := "name = \"a\\u00E9\\\"\"\r\nage_limit_secs = 7\nenabled = false"
    let turned := "enabled = false\nage_limit_secs = 7\nname = \"aé\\\"\"\n"
    ofDocument text = ofVariables (variablesOf es) ∧ ofDocument turned = ofDocument text ∧
      (∃ p : Properties, ofDocument text = p.check ∧ p.name = "aé\"" ∧
        p.idLength = standard.idLength) ∧
      ∃ why rest, ofDocument "id_length = -1\nage_limit_secs = 0" = .error (.config why) ∧
        why.message = "TOML parse error: " ++ rest := by
  intro es text turned
  have hquote : Toml.Quotes ['"'] ['\\', '"'] := .short (by decide) .nil
  have hdigits : Toml.IsHexNumeral 'é'.toNat ['0', '0', 'E', '9'] :=
    ⟨[0, 0, 14, 9], by decide, by decide⟩
  have hnumbered : Toml.Quotes ['é', '"'] ('\\' :: 'u' :: (['0', '0', 'E', '9'] ++ ['\\', '"'])) :=
    .numbered (show ('u', 4) ∈ Toml.numberings by decide) rfl hdigits hquote
  have hletters : "aé\"".toList = ['a', 'é', '"'] := by decide
  have hname : ∀ t, Toml.Quotes ['é', '"'] t →
      Toml.IsLine ("name", .text "aé\"") ("name = \"a".toList ++ t ++ ['"']) := by
    intro t ht
    refine ⟨by decide, Toml.isBare_of_all (by decide), _, ⟨'a' :: t, ?_, rfl⟩, by simp⟩
    rw [hletters]
    exact .plain (by decide) (by decide) (by decide) (by decide) ht
  have hage : Toml.IsLine ("age_limit_secs", .integer 7) "age_limit_secs = 7".toList :=
    ⟨by decide, Toml.isBare_of_all (by decide), _, .inl rfl, by decide⟩
  have henabled : Toml.IsLine ("enabled", .boolean false) "enabled = false".toList :=
    ⟨by decide, Toml.isBare_of_all (by decide), _, rfl, by decide⟩
  have htext : Toml.IsDocument es text.toList := by
    have hshape : text.toList = "name = \"a".toList ++ '\\' :: 'u' :: (['0', '0', 'E', '9'] ++
        ['\\', '"']) ++ ['"'] ++ '\r' :: '\n' :: ("age_limit_secs = 7".toList ++
          '\n' :: ("enabled = false".toList ++ [])) := by decide
    rw [hshape]
    exact .cons (hname _ hnumbered) .return (.cons hage .newline (.cons henabled .done .nil))
  have hturned : Toml.IsDocument es.reverse turned.toList := by
    have hshape : turned.toList = "enabled = false".toList ++
        '\n' :: ("age_limit_secs = 7".toList ++
          '\n' :: ("name = \"a".toList ++ ['é', '\\', '"'] ++ ['"'] ++ ['\n'])) := by decide
    have hplain : Toml.Quotes ['é', '"'] ['é', '\\', '"'] :=
      .plain (by decide) (by decide) (by decide) (by decide) hquote
    rw [hshape]
    exact .cons henabled .newline (.cons hage .newline (.cons (hname _ hplain) .newline .nil))
  have hbad : Toml.IsDocument [("id_length", .integer (-1)), ("age_limit_secs", .integer 0)]
      "id_length = -1\nage_limit_secs = 0".toList := by
    have hshape : "id_length = -1\nage_limit_secs = 0".toList =
        "id_length = -1".toList ++ '\n' :: ("age_limit_secs = 0".toList ++ []) := by decide
    rw [hshape]
    exact .cons ⟨by decide, Toml.isBare_of_all (by decide), _, .inl rfl, by decide⟩ .newline
      (.cons ⟨by decide, Toml.isBare_of_all (by decide), _, .inl rfl, by decide⟩ .done .nil)
  have hfine : ¬Settings.IsRefused es := by
    rw [Settings.isRefused_iff]
    decide
  obtain ⟨⟨p, hp, hcheck⟩, hcarries, hvariables, hperm⟩ := (document_like_variables htext).2 hfine
  refine ⟨(hvariables _ hcarries).symm, hperm _ _ (List.reverse_perm es) hturned,
    ⟨p, hcheck, (Option.some_inj.mp (hp.name.1 _ List.mem_cons_self)).symm, hp.idLength.2 ?_⟩, ?_⟩
  · simp [es]
  · exact (document_like_variables hbad).1.mpr
      (.inr (.inr (.inr ⟨_, List.mem_cons_self, -1, rfl, .inl (by decide)⟩)))

end Properties

end SessionStore
