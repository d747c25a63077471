import SessionStore.Error
import SessionStore.Session.Data

/-! # Sessions

The working copy of one session: its data and whether they were changed since they were loaded. A
destroyed session has no data any more and refuses every access for good.
-/

namespace SessionStore

inductive SessionState
  | live (data : SessionData)
  | destroyed

structure Session where
  id : String
  state : SessionState
  changed : Bool

namespace Session

/-- A session that holds what was loaded for it. -/
def withData (id : String) (data : SessionData) : Session := ⟨id, .live data, false⟩

def empty (id : String) : Session := withData id ∅

def isDestroyed (s : Session) : Bool :=
  match s.state with
  | .live _ => false
  | .destroyed => true

def data (s : Session) : Except SessionError SessionData :=
  match s.state with
  | .live d => .ok d
  | .destroyed => .error (.destroyed s.id)

def get? (s : Session) (key : String) : Except SessionError (Option Json) :=
  s.data.map (·[key]?)

/-- The value under a key in the shape asked for; none if there is no value. -/
def getAs? (s : Session) (key : String) (shape : Json.Shape) :
    Except SessionError (Option Json) := do
  match ← s.get? key with
  | none => return none
  | some v =>
    match shape.read v with
    | .ok w => return some w
    | .error why => throw (.deserialization (.mismatch why))

def has (s : Session) (key : String) : Except SessionError Bool := s.data.map (·.contains key)

def keys (s : Session) : Except SessionError (List String) := s.data.map (·.keys)

def size (s : Session) : Except SessionError Nat := s.data.map (·.size)

def isEmpty (s : Session) : Except SessionError Bool := s.data.map (·.isEmpty)

/-- The session with other data, which count as changed. -/
def update (s : Session) (d : SessionData) : Session := { s with state := .live d, changed := true }

/-- Stores a value. The value is made first, so a failure to make it shows even on a destroyed
session. -/
def set (s : Session) (key : String) (value : Except EncodeFault Json) :
    Except SessionError Session := do
  match value with
  | .error why => throw (.serialization why)
  | .ok v => return s.update ((← s.data).insert key v)

/-- Removes a key; the answer is the value that was there. -/
def delete (s : Session) (key : String) : Except SessionError (Option Json × Session) := do
  let d ← s.data
  return (d[key]?, s.update (d.erase key))

def clear (s : Session) : Except SessionError Session := do
  let _ ← s.data
  return s.update ∅

def destroy (s : Session) : Session :=
  match s.state with
  | .live _ => { s with state := .destroyed, changed := true }
  | .destroyed => s

/-- What is stored when the session is saved. -/
def persistedData (s : Session) : SessionData :=
  match s.state with
  | .live d => d
  | .destroyed => ∅

/-- Equality of id, state and change mark. -/
def same (a b : Session) : Bool :=
  a.id == b.id && a.changed == b.changed &&
    match a.state, b.state with
    | .live d, .live e => d.same e
    | .destroyed, .destroyed => true
    | _, _ => false

end Session

end SessionStore
