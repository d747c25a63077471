import SessionStore.Duration
import SessionStore.Error
import SessionStore.Text.Blank

/-! # Engine properties

The settings of an engine, their defaults, and the check that they describe an engine that can work.
-/

namespace SessionStore

structure Properties where
  /-- How long a session may be idle before a purge removes it. -/
  ageLimit : Duration
  /-- Whether the engine begins enabled. -/
  enabled : Bool
  name : String
  /-- Put in front of ids where several applications share one store. -/
  keyspace : String
  purgeInterval : Duration
  idLength : Nat
  deriving DecidableEq, Repr

namespace Properties

def standard : Properties where
  ageLimit := .ofSeconds 1800
  enabled := true
  name := "LAPSESESSID"
  keyspace := "lapse:session"
  purgeInterval := .ofSeconds 120
  idLength := 64

/-- The shortest ids that are accepted. -/
def leastIdLength : Nat := 16

/-- The first fault of the properties, if they have one. -/
def fault? (p : Properties) : Option ConfigFault :=
  if p.ageLimit.nanos = 0 then some .zeroAgeLimit
  else if p.purgeInterval.nanos = 0 then some .zeroPurgeInterval
  else if Text.trim p.name = "" then some .blankName
  else if p.idLength < leastIdLength then some (.shortIds leastIdLength)
  else none

/-- The properties, unless they have a fault. -/
def check (p : Properties) : Except SessionError Properties :=
  match p.fault? with
  | some why => .error (.config why)
  | none => .ok p

/-- The key of a session in a store that several applications share. -/
def sessionKey (p : Properties) (id : String) : String :=
  if p.keyspace = "" then id else p.keyspace ++ ":" ++ id

/-- A line that shows all properties. -/
def describe (p : Properties) : String :=
  "EngineProperties \x7b age_limit: " ++ p.ageLimit.short ++ ", enabled: " ++ toString p.enabled ++
    ", name: " ++ Text.quote p.name ++ ", prefix: " ++ Text.quote p.keyspace ++
    ", purge_interval: " ++ p.purgeInterval.short ++ ", id_length: " ++ toString p.idLength ++
    " \x7d"

end Properties

/-- Settings as they are given: any of them may be missing, and durations are whole seconds. -/
structure Settings where
  ageLimit? : Option Nat := none
  enabled? : Option Bool := none
  name? : Option String := none
  keyspace? : Option String := none
  purgeInterval? : Option Nat := none
  idLength? : Option Nat := none
  deriving DecidableEq, Repr

namespace Settings

/-- The greatest number that a setting can hold. -/
def numberLimit : Nat := 0xFFFFFFFFFFFFFFFF

/-- The properties with these settings, and the defaults for those that are missing. -/
def toProperties (s : Settings) : Properties where
  ageLimit := (s.ageLimit?.map .ofSeconds).getD Properties.standard.ageLimit
  enabled := s.enabled?.getD Properties.standard.enabled
  name := s.name?.getD Properties.standard.name
  keyspace := s.keyspace?.getD Properties.standard.keyspace
  purgeInterval := (s.purgeInterval?.map .ofSeconds).getD Properties.standard.purgeInterval
  idLength := s.idLength?.getD Properties.standard.idLength

end Settings

end SessionStore
