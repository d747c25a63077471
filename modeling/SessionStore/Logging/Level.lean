import SessionStore.Text.Blank
import SessionStore.Text.Lowercase

/-! # Log levels

Levels in order of weight. As the weight of an event a level says how grave the event is; as a
threshold it lets every event pass that weighs at least as much, and `off` lets none pass.
-/

namespace SessionStore.Logging

inductive Level
  | trace
  | debug
  | info
  | warn
  | error
  | off
  deriving DecidableEq, Repr

namespace Level

def weight : Level → Nat
  | .trace => 0
  | .debug => 1
  | .info => 2
  | .warn => 3
  | .error => 4
  | .off => 5

instance : Ord Level := ⟨fun a b => compare a.weight b.weight⟩

instance : LE Level := ⟨fun a b => a.weight ≤ b.weight⟩

instance (a b : Level) : Decidable (a ≤ b) := inferInstanceAs (Decidable (a.weight ≤ b.weight))

/-- The word for a level. -/
def word : Level → String
  | .trace => "trace"
  | .debug => "debug"
  | .info => "info"
  | .warn => "warn"
  | .error => "error"
  | .off => "off"

/-- The level of a word in lower case. -/
def ofWord? (word : String) : Option Level :=
  if word = "trace" then some .trace
  else if word = "debug" then some .debug
  else if word = "info" then some .info
  else if word = "warn" ∨ word = "warning" then some .warn
  else if word = "error" then some .error
  else if word = "off" ∨ word = "none" then some .off
  else none

/-- The level that a setting names, in any case and with white space around it. -/
def parse? (s : String) : Option Level := ofWord? (Text.lowercase (Text.trim s))

/-- The weights that an event can have, lightest first. -/
def all : List Level := [.trace, .debug, .info, .warn, .error]

end Level

end SessionStore.Logging
