import SessionStore.Logging.Level
import SessionStore.Properties.Variables

/-! # Log settings

What is logged and how it is laid out, as variables of the environment say it. Texts that mean
nothing count as missing.
-/

namespace SessionStore.Logging

/-- How log lines are laid out. -/
inductive Format
  | pretty
  | compact
  | json
  deriving DecidableEq, Repr

namespace Format

/-- The format of a word in lower case. -/
def ofWord? (word : String) : Option Format :=
  if word = "pretty" then some .pretty
  else if word = "compact" then some .compact
  else if word = "json" then some .json
  else none

/-- The format that a setting names, in any case and with white space around it. -/
def parse? (s : String) : Option Format := ofWord? (Text.lowercase (Text.trim s))

end Format

structure Config where
  level : Level
  format : Format
  deriving DecidableEq, Repr

namespace Config

def standard : Config := ⟨.info, .compact⟩

/-- The text of a set switch: the digit one, or the word in any case. -/
def isSet (s : String) : Bool :=
  s == "1" || s.toList.map Char.toLower == ['t', 'r', 'u', 'e']

/-- The level where none is named: the debug switch lowers it. -/
def fallbackLevel (vars : Variables) : Level :=
  if ((vars "LAPSE_DEBUG").map isSet).getD false then .debug else standard.level

def ofVariables (vars : Variables) : Config where
  level := ((vars "LAPSE_LOG_LEVEL").bind Level.parse?).getD (fallbackLevel vars)
  format := ((vars "LAPSE_LOG_FORMAT").bind Format.parse?).getD standard.format

end Config

end SessionStore.Logging
