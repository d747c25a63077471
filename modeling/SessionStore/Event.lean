import SessionStore.Duration
import SessionStore.Error
import SessionStore.Logging.Level

/-! # Events

What backends and engines report while they work. An event keeps what it is about; its level, its
message and its fields follow from that.
-/

namespace SessionStore

inductive Event
  | storingEntry (key : String) (size : Nat)
  | purgedEntries (removed remaining : Nat)
  | directoryReady (path : String)
  | storedFile (key path : String) (size : Nat)
  | deletedFile (key : String)
  | directoryMissing (path : String)
  | temporaryLeft (path : String) (why : IoFault)
  | expiredLeft (path : String) (why : IoFault)
  | purgedFiles (removed : Nat) (path : String)
  | startFailed (why : SessionError)
  | started (name encoder : String) (ageLimit : Duration) (sweeps : Bool)
  | stopped (name : String)
  | created (id : String)
  | saved (id : String) (changed : Bool)
  | deleted (id : String)
  | swept (removed : Nat)
  | sweepSkipped
  | sweepFailed (why : SessionError)
  /-- The periodic purge turned out to have broken down when the engine stopped. -/
  | sweepBroken
  /-- The periodic purge has come to its end. -/
  | sweepStopped

namespace Event

def level : Event → Logging.Level
  | storingEntry _ _ | storedFile _ _ _ => .trace
  | purgedEntries _ _ | deletedFile _ | directoryMissing _ | purgedFiles _ _ => .debug
  | created _ | saved _ _ | deleted _ | sweepSkipped | sweepStopped => .debug
  | directoryReady _ | started _ _ _ _ | stopped _ | swept _ => .info
  | temporaryLeft _ _ | expiredLeft _ _ | sweepBroken => .warn
  | startFailed _ | sweepFailed _ => .error

def message : Event → String
  | storingEntry _ _ => "Storing entry"
  | purgedEntries _ _ => "Purged expired memory entries"
  | directoryReady _ => "Initialized file session store"
  | storedFile _ _ _ => "Stored session file"
  | deletedFile _ => "Deleted session file"
  | directoryMissing _ => "Session directory missing, nothing to purge"
  | temporaryLeft _ _ => "Failed to remove temporary session file"
  | expiredLeft _ _ => "Failed to remove expired session file"
  | purgedFiles _ _ => "Purged expired session files"
  | startFailed _ => "Failed to start session store"
  | started _ _ _ _ => "Session engine started"
  | stopped _ => "Session engine stopped"
  | created _ => "Created session"
  | saved _ _ => "Saved session"
  | deleted _ => "Deleted session"
  | swept _ => "Purged expired sessions"
  | sweepSkipped => "Skipping purge, engine disabled"
  | sweepFailed _ => "Periodic purge failed"
  | sweepBroken => "Purge task ended abnormally"
  | sweepStopped => "Periodic purge stopped"

/-- The fields of an event by name. Paths are quoted, other texts are as they are. -/
def fields : Event → List (String × String)
  | storingEntry key size => [("key", key), ("size", toString size)]
  | purgedEntries removed remaining =>
    [("removed", toString removed), ("remaining", toString remaining)]
  | directoryReady path => [("path", Text.quote path)]
  | storedFile key path size =>
    [("key", key), ("path", Text.quote path), ("size", toString size)]
  | deletedFile key => [("key", key)]
  | directoryMissing path => [("path", Text.quote path)]
  | temporaryLeft path why => [("path", Text.quote path), ("error", why.message)]
  | expiredLeft path why => [("path", Text.quote path), ("error", why.message)]
  | purgedFiles removed path => [("removed", toString removed), ("path", Text.quote path)]
  | startFailed why => [("error", why.message)]
  | started name encoder ageLimit sweeps =>
    [("name", name), ("encoder", encoder), ("age_limit", ageLimit.short),
      ("periodic_purge", toString sweeps)]
  | stopped name => [("name", name)]
  | created id => [("session", id)]
  | saved id changed => [("session", id), ("changed", toString changed)]
  | deleted id => [("session", id)]
  | swept removed => [("removed", toString removed)]
  | sweepSkipped => []
  | sweepFailed why => [("error", why.message)]
  | sweepBroken => [("error", "the instant of the first purge is out of range")]
  | sweepStopped => []

end Event

end SessionStore
