import SessionStore.Duration
import SessionStore.Event
import SessionStore.Text.Utf8

/-! # Backends

A backend keeps contents under ids and answers calls. It is given by how it performs a call on its
store at an instant; what it reports meanwhile stands beside the result.
-/

namespace SessionStore

inductive Call
  | start
  | stop
  | contains (id : String)
  | get (id : String)
  | set (id : String) (contents : Bytes)
  | delete (id : String)
  | touch (id : String)
  /-- Removes what has been idle for longer than `maxAge`, and counts it. -/
  | purge (maxAge : Duration)
  deriving DecidableEq, Repr

namespace Call

/-- What a call answers if it does not fail. -/
def Reply : Call → Type
  | start => Unit
  | stop => Unit
  | contains _ => Bool
  | get _ => Bytes
  | set _ _ => Unit
  | delete _ => Unit
  | touch _ => Unit
  | purge _ => Nat

/-- A call without its arguments. -/
inductive Kind
  | start
  | stop
  | contains
  | get
  | set
  | delete
  | touch
  | purge
  deriving DecidableEq, Repr

def kind : Call → Kind
  | start => .start
  | stop => .stop
  | contains _ => .contains
  | get _ => .get
  | set _ _ => .set
  | delete _ => .delete
  | touch _ => .touch
  | purge _ => .purge

/-- The id that a call is about, empty if it is about none. -/
def subject : Call → String
  | contains id | get id | set id _ | delete id | touch id => id
  | start | stop | purge _ => ""

def Kind.name : Kind → String
  | .start => "start"
  | .stop => "stop"
  | .contains => "exists"
  | .get => "get"
  | .set => "set"
  | .delete => "delete"
  | .touch => "touch"
  | .purge => "purge"

/-- A call with its arguments, contents given by their length alone. -/
def describe (c : Call) : String :=
  match c with
  | start | stop => c.kind.name
  | contains id | get id | delete id | touch id => c.kind.name ++ ":" ++ id
  | set id contents => c.kind.name ++ ":" ++ id ++ ":" ++ toString contents.length
  | purge maxAge => c.kind.name ++ ":" ++ maxAge.plain

end Call

/-- What came of an operation on a store. -/
structure Outcome (σ α : Type) where
  result : Except SessionError α
  store : σ
  events : List Event

namespace Outcome

variable {σ τ α : Type}

/-- The outcome of an operation that finds everything in order. -/
def done (store : σ) (value : α) (events : List Event) : Outcome σ α := ⟨.ok value, store, events⟩

def failed (store : σ) (why : SessionError) : Outcome σ α := ⟨.error why, store, []⟩

/-- The same outcome with another store. -/
def withStore (o : Outcome σ α) (f : σ → τ) : Outcome τ α := ⟨o.result, f o.store, o.events⟩

end Outcome

structure Backend (σ : Type) where
  /-- Nothing expires by itself, so that an engine has to purge now and then. -/
  requiresPurge : Bool
  perform : Instant → σ → (c : Call) → Outcome σ c.Reply

namespace Backend

variable {σ τ : Type}

/-- The backend on a part of a larger store. -/
def within (b : Backend σ) (part : τ → σ) (replace : τ → σ → τ) : Backend τ where
  requiresPurge := b.requiresPurge
  perform now t c := (b.perform now (part t) c).withStore (replace t)

/-- The backend with its clock standing still. -/
def frozen (b : Backend σ) (instant : Instant) : Backend σ :=
  { b with perform := fun _ => b.perform instant }

/-- The backend as it looks if its medium removes what is old by itself. -/
def expiring (b : Backend σ) : Backend σ := { b with requiresPurge := false }

/-- The backend with some calls refused, which then never reach the store. -/
def refusing (b : Backend σ) (refusal? : Call → Option SessionError) : Backend σ :=
  { b with
    perform := fun now s c =>
      match refusal? c with
      | some why => .failed s why
      | none => b.perform now s c }

/-- Reads contents that are text. -/
def getText (b : Backend σ) (now : Instant) (s : σ) (id : String) : Outcome σ String :=
  let o := b.perform now s (.get id)
  { o with
    result := o.result.bind fun (bs : Bytes) =>
      match Utf8.decodeText bs with
      | .ok t => .ok t
      | .error why => .error (.deserialization (.notText why)) }

def setText (b : Backend σ) (now : Instant) (s : σ) (id text : String) : Outcome σ Unit :=
  b.perform now s (.set id (Utf8.encodeText text))

end Backend

end SessionStore
