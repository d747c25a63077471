import SessionStore.Engine.Access
import SessionStore.Engine.Basic
import SessionStore.Session.Basic

/-! # Operations on sessions

Loading, saving and the like. Loading a session always touches its entry, so a session that is read
again and again never expires; one that is not there yet comes into being empty.
-/

namespace SessionStore.Engine

variable {σ : Type}

/-- Makes an entry for a session that has none. -/
def create (e : Engine) (b : Backend σ) (now : Instant) (id : String) : Access σ Unit := do
  let contents ← Access.ofExcept (e.encoder.encode ∅)
  Access.call b now (.set id contents)
  Access.note (.created id)

def getSession (e : Engine) (b : Backend σ) (now : Instant) (id : String) : Access σ Session := do
  Access.ofExcept (e.checkId id)
  let present : Bool ← Access.call b now (.contains id)
  if !present then e.create b now id
  let contents : Bytes ← Access.call b now (.get id)
  Access.call b now (.touch id)
  let data ← Access.ofExcept (e.encoder.decode contents)
  return Session.withData id data

/-- Stores the data of a session under an id, which need not be its own. -/
def saveSession (e : Engine) (b : Backend σ) (now : Instant) (id : String) (s : Session) :
    Access σ Unit := do
  Access.ofExcept (e.checkId id)
  let contents ← Access.ofExcept (e.encoder.encode s.persistedData)
  Access.call b now (.set id contents)
  Access.note (.saved id s.changed)

def sessionExists (e : Engine) (b : Backend σ) (now : Instant) (id : String) : Access σ Bool := do
  Access.ofExcept e.checkEnabled
  Access.call b now (.contains id)

def deleteSession (e : Engine) (b : Backend σ) (now : Instant) (id : String) : Access σ Unit := do
  Access.ofExcept (e.checkId id)
  Access.call b now (.delete id)
  Access.note (.deleted id)

def touchSession (e : Engine) (b : Backend σ) (now : Instant) (id : String) : Access σ Unit := do
  Access.ofExcept (e.checkId id)
  Access.call b now (.touch id)

/-- Removes the sessions that have been idle for longer than the age limit, and counts them. -/
def purge (e : Engine) (b : Backend σ) (now : Instant) : Access σ Nat := do
  Access.ofExcept e.checkEnabled
  Access.call b now (.purge e.properties.ageLimit)

end SessionStore.Engine
