import SessionStore.Disk.Fault
import SessionStore.Json.Shape
import SessionStore.Text.Utf8

/-! # Session errors

Every error carries its cause; `SessionError.message` is the one place where causes become text.
Callers of a backend may announce failures of their own, whose causes are plain texts.
-/

namespace SessionStore

inductive ArgumentFault
  | emptyId
  | other (text : String)

/-- Why a value cannot be stored. -/
inductive EncodeFault
  | numberOutOfRange
  | keyNotText
  | other (text : String)

/-- Why stored bytes or a stored value cannot be had in the form asked for. -/
inductive DecodeFault
  /-- The bytes are not the text of a JSON object. -/
  | malformed
  | notText (why : Utf8.Fault)
  | mismatch (why : Json.Mismatch)
  | other (text : String)

/-- Why a storage medium does not work. -/
inductive BackendFault
  | notDirectory (path : String)
  | directoryNotCreated (path : String) (why : IoFault)
  | directoryUnknown (path : String) (why : IoFault)
  | other (text : String)

/-- Why settings are refused. -/
inductive ConfigFault
  | zeroAgeLimit
  | zeroPurgeInterval
  | blankName
  | shortIds (least : Nat)
  | badNumeral (setting : String) (why : Text.Numeral.Fault)
  | badBoolean (setting word : String)
  /-- The document does not parse, or does not hold settings of the right names and types. -/
  | malformedDocument
  | unreadable (path : String) (why : IoFault)
  | other (text : String)

inductive SessionError
  | notFound (id : String)
  | alreadyStarted
  | notStarted
  | disabled
  | invalidArgument (why : ArgumentFault)
  | serialization (why : EncodeFault)
  | deserialization (why : DecodeFault)
  | io (why : IoFault)
  | backend (why : BackendFault)
  | config (why : ConfigFault)
  | destroyed (id : String)

def ArgumentFault.message : ArgumentFault → String
  | .emptyId => "session id is empty"
  | .other text => text

def EncodeFault.message : EncodeFault → String
  | .numberOutOfRange => "number out of range"
  | .keyNotText => "key must be a string"
  | .other text => text

def DecodeFault.message : DecodeFault → String
  | .malformed => "not the text of a JSON object"
  | .notText why => why.message
  | .mismatch why => why.message
  | .other text => text

def BackendFault.message : BackendFault → String
  | .notDirectory path => path ++ " exists and is not a directory"
  | .directoryNotCreated path why =>
    "Failed to create session directory " ++ path ++ ": " ++ why.message
  | .directoryUnknown path why =>
    "Failed to stat session directory " ++ path ++ ": " ++ why.message
  | .other text => text

def ConfigFault.message : ConfigFault → String
  | .zeroAgeLimit => "age_limit must be greater than zero"
  | .zeroPurgeInterval => "purge_interval must be greater than zero"
  | .blankName => "name must not be empty"
  | .shortIds least => "id_length must be at least " ++ toString least
  | .badNumeral setting why => setting ++ ": " ++ why.message
  | .badBoolean setting word => setting ++ ": invalid boolean " ++ Text.quote word
  | .malformedDocument => "TOML parse error: not a document of session settings"
  | .unreadable path why => "Failed to read " ++ path ++ ": " ++ why.message
  | .other text => text

namespace SessionError

def message : SessionError → String
  | .notFound id => "Session not found: " ++ id
  | .alreadyStarted => "Store engine already started"
  | .notStarted => "Store engine not started"
  | .disabled => "Session engine is disabled"
  | .invalidArgument why => "Invalid argument: " ++ why.message
  | .serialization why => "Serialization error: " ++ why.message
  | .deserialization why => "Deserialization error: " ++ why.message
  | .io why => "I/O error: " ++ why.message
  | .backend why => "Backend error: " ++ why.message
  | .config why => "Configuration error: " ++ why.message
  | .destroyed id =>
    "Session " ++ id ++ " is already destroyed, renew the session before using it"

/-- A key is missing. -/
def isNotFound : SessionError → Bool
  | .notFound _ => true
  | _ => false

/-- The encoder failed. -/
def isEncoding : SessionError → Bool
  | .serialization _ => true
  | .deserialization _ => true
  | _ => false

/-- The storage medium failed. -/
def isBackend : SessionError → Bool
  | .io _ => true
  | .backend _ => true
  | _ => false

end SessionError

end SessionStore
