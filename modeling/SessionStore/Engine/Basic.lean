import SessionStore.Id
import SessionStore.Properties.Basic
import SessionStore.Session.Encoder

/-! # Engines

An engine turns a backend into an interface for sessions. It is started once and stopped once; while
it runs over a backend that does not expire by itself, it purges that backend periodically.
-/

namespace SessionStore

inductive Phase
  | unstarted
  | started
  | stopped
  deriving DecidableEq, Repr

/-- The periodic purge of an engine. -/
inductive Sweep
  | absent
  | waiting (due : Instant)
  /-- No instant could be found for the next purge. -/
  | broken
  deriving DecidableEq, Repr

structure Engine where
  properties : Properties
  encoder : Encoder
  enabled : Bool
  phase : Phase
  sweep : Sweep

namespace Engine

def ofProperties (p : Properties) : Engine := ⟨p, .json, p.enabled, .unstarted, .absent⟩

/-- An engine with these properties, if they are fit for one. -/
def make (p : Properties) : Except SessionError Engine := p.check.map ofProperties

def withEncoder (e : Engine) (encoder : Encoder) : Engine := { e with encoder }

def setEnabled (e : Engine) (on : Bool) : Engine := { e with enabled := on }

/-- The periodic purge is alive. -/
def purging (e : Engine) : Bool :=
  match e.sweep with
  | .waiting _ => true
  | .absent | .broken => false

/-- An id that no session has yet. -/
def newId (e : Engine) (s : Id.Source) : String × Id.Source := Id.generate e.properties.idLength s

/-- Operations on sessions need an enabled engine. -/
def checkEnabled (e : Engine) : Except SessionError Unit :=
  if e.enabled then .ok () else .error .disabled

/-- Operations on one session need an id as well. -/
def checkId (e : Engine) (id : String) : Except SessionError Unit := do
  e.checkEnabled
  if id = "" then throw (.invalidArgument .emptyId)

/-- A line that shows the engine. -/
def describe (e : Engine) : String :=
  "StoreEngine \x7b properties: " ++ e.properties.describe ++ ", encoder: " ++
    Text.quote e.encoder.name ++ ", enabled: " ++ toString e.enabled ++ ", .. \x7d"

end Engine

end SessionStore
