import SessionStore.Properties.Basic
import SessionStore.Toml.Document

/-! # Settings from a document

Settings can be given by a TOML document, each at most once and with a value of its type.
-/

namespace SessionStore

namespace Settings

/-- The settings with one more entry; none if the key is unknown or already there, or if the value
is not of the key's type. -/
def put? (s : Settings) (key : String) (v : Toml.Value) : Option Settings :=
  match key, v with
  | "age_limit_secs", .integer n =>
    if s.ageLimit? = none ∧ 0 ≤ n ∧ n ≤ numberLimit then some { s with ageLimit? := n.toNat }
    else none
  | "enabled", .boolean b => if s.enabled? = none then some { s with enabled? := b } else none
  | "name", .text t => if s.name? = none then some { s with name? := t } else none
  | "prefix", .text t => if s.keyspace? = none then some { s with keyspace? := t } else none
  | "purge_interval_secs", .integer n =>
    if s.purgeInterval? = none ∧ 0 ≤ n ∧ n ≤ numberLimit then
      some { s with purgeInterval? := n.toNat }
    else none
  | "id_length", .integer n =>
    if s.idLength? = none ∧ 0 ≤ n ∧ n ≤ numberLimit then some { s with idLength? := n.toNat }
    else none
  | _, _ => none

/-- The settings of a list of entries. -/
def ofEntries? (entries : List (String × Toml.Value)) : Option Settings :=
  entries.foldlM (fun s e => s.put? e.1 e.2) {}

end Settings

namespace Properties

def ofDocument (s : String) : Except SessionError Properties :=
  match (Toml.parse? s).bind Settings.ofEntries? with
  | none => .error (.config .malformedDocument)
  | some settings => settings.toProperties.check

/-- The properties in the document at `path`, given what reading the file gave. -/
def ofFile (path : String) (contents : Except IoFault Bytes) : Except SessionError Properties :=
  match contents with
  | .error why => .error (.config (.unreadable path why))
  | .ok bs =>
    match Utf8.decodeText bs with
    | .error _ => .error (.config (.unreadable path .notUtf8))
    | .ok s => ofDocument s

end Properties

end SessionStore
