import SessionStore.Store.Backend

/-! # Access to a store

An operation of an engine is a sequence of calls to its backend that ends with the first failure. It
leaves behind the store, the calls that it made and the events that occurred.
-/

namespace SessionStore

/-- A store at work, with its calls and events so far, the latest first. -/
structure Work (σ : Type) where
  store : σ
  /-- The calls with the instants at which they were made. -/
  calls : List (Instant × Call)
  events : List Event

namespace Work

variable {σ : Type}

def fresh (store : σ) : Work σ := ⟨store, [], []⟩

def note (w : Work σ) (e : Event) : Work σ := { w with events := e :: w.events }

/-- What is there after a call and its outcome. -/
def after {α : Type} (w : Work σ) (now : Instant) (c : Call) (o : Outcome σ α) : Work σ :=
  ⟨o.store, (now, c) :: w.calls, o.events.reverse ++ w.events⟩

end Work

abbrev Access (σ α : Type) := ExceptT SessionError (StateM (Work σ)) α

namespace Access

variable {σ α : Type}

def call (b : Backend σ) (now : Instant) (c : Call) : Access σ c.Reply :=
  ExceptT.mk fun w =>
    let o := b.perform now w.store c
    (o.result, w.after now c o)

def note (e : Event) : Access σ Unit := ExceptT.mk fun w => (.ok (), w.note e)

/-- A step that involves no call. -/
def ofExcept (x : Except SessionError α) : Access σ α := ExceptT.mk fun w => (x, w)

/-- The result of an operation and what it leaves behind. -/
def perform (a : Access σ α) (w : Work σ) : Except SessionError α × Work σ := a.run w

end Access

end SessionStore
