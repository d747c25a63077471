import SessionStore.Properties.Basic
import SessionStore.Text.Lowercase

/-! # Settings from variables

Settings can be given by variables of the environment. Numbers and switches may be surrounded by
white space; names are taken as they are.
-/

namespace SessionStore

/-- The variables that are set, with their texts. -/
abbrev Variables := String → Option String

namespace Properties

/-- The full name of a variable for a setting. -/
def variableName (setting : String) : String := "LAPSE_SESSION_" ++ setting

/-- The number in a variable, if it is set. -/
def numberVariable (vars : Variables) (setting : String) : Except ConfigFault (Option Nat) :=
  match vars (variableName setting) with
  | none => .ok none
  | some s =>
    match Text.Numeral.read Settings.numberLimit (Text.trimChars s.toList) with
    | .ok n => .ok (some n)
    | .error why => .error (.badNumeral (variableName setting) why)

/-- The words for the two positions of a switch. -/
def switchWord? (word : String) : Option Bool :=
  if word ∈ ["1", "true", "yes", "on"] then some true
  else if word ∈ ["0", "false", "no", "off"] then some false
  else none

/-- The switch in a variable, if it is set. -/
def switchVariable (vars : Variables) (setting : String) : Except ConfigFault (Option Bool) :=
  match vars (variableName setting) with
  | none => .ok none
  | some s =>
    let word := Text.lowercase (Text.trim s)
    match switchWord? word with
    | some b => .ok (some b)
    | none => .error (.badBoolean (variableName setting) word)

/-- The settings that the variables give; of several bad variables the first in this order is
reported. -/
def settingsOfVariables (vars : Variables) : Except ConfigFault Settings := do
  let ageLimit? ← numberVariable vars "AGE_LIMIT_SECS"
  let enabled? ← switchVariable vars "ENABLED"
  let purgeInterval? ← numberVariable vars "PURGE_INTERVAL_SECS"
  let idLength? ← numberVariable vars "ID_LENGTH"
  return {
    ageLimit?, enabled?, purgeInterval?, idLength?
    name? := vars (variableName "NAME")
    keyspace? := vars (variableName "PREFIX") }

def ofVariables (vars : Variables) : Except SessionError Properties :=
  match settingsOfVariables vars with
  | .error why => .error (.config why)
  | .ok s => s.toProperties.check

end Properties

end SessionStore
