import SessionStore.Disk.Tree
import SessionStore.Engine.Command
import SessionStore.Session.Value
import SessionStore.Store.FileName

/-! # Steps of a scenario

A scenario exercises one store, with at most one engine over it, and sessions in named slots. Its
steps are data, and so are their answers.
-/

namespace SessionStore.Scenario

/-- How a backend call that is made to fail fails. -/
inductive Refusal
  | backend
  | io
  | missing
  deriving DecidableEq, Repr

/-- What is done to the store without an engine. -/
inductive StoreStep
  | call (c : Call)
  | getText (id : String)
  | setText (id text : String)
  /-- The contents, with the entries of an encoded object in order. -/
  | getSorted (id : String)
  | requiresPurge
  | size
  | isEmpty
  | idle (id : String)
  | wasTouched (id : String)
  | pathFor (id : String)
  | directory

/-- A place on the disk: a path, or the file for an id. -/
inductive Place
  | path (relative : String)
  | entry (id : String)

inductive DiskStep
  | write (place : Place) (contents : Bytes)
  | makeDirectory (place : Place)
  | makeLink (place : Place) (target : String)
  | remove (place : Place)
  | read (place : Place)
  /-- Makes a file look as if it was changed that many seconds ago. -/
  | age (place : Place) (seconds : Int)
  | list (place : Place)

inductive EngineStep
  | make (properties? : Option Properties) (encoder? : Option Encoder)
  | drop
  | start
  | startPair
  | stop
  | shutDown
  | setEnabled (on : Bool)
  | isEnabled
  | purge
  | get (id slot : String)
  | save (id slot : String)
  | contains (id : String)
  | delete (id : String)
  | touch (id : String)
  | newId
  | properties
  | sessionKey (id : String)
  | encoderName
  /-- The stored contents, by way of the engine, with their entries in order. -/
  | contents (id : String)
  | describe

/-- What is done to the session in a slot. -/
inductive SessionStep
  | create (id : String) (data? : Option SessionData)
  | copy (target : String)
  | same (other : String)
  | id
  | data
  | get (key : String)
  | getAs (key : String) (shape : Json.Shape)
  | has (key : String)
  | keys
  | size
  | isEmpty
  | set (key : String) (value : Except EncodeFault Json)
  | delete (key : String)
  | clear
  | destroy

inductive Step
  | store (s : StoreStep)
  | disk (s : DiskStep)
  | engine (s : EngineStep)
  | session (slot : String) (s : SessionStep)
  | sleep (d : Duration)
  | jump (d : Duration)
  /-- From now on calls of this kind fail when an engine makes them, or fail no longer. -/
  | fault (kind : Call.Kind) (refusal? : Option Refusal)

inductive Answer
  | nothing
  | flag (b : Bool)
  | count (n : Nat)
  | count? (n? : Option Nat)
  | text (s : String)
  | texts (ss : List String)
  | bytes (bs : Bytes)
  | value? (v? : Option Json)
  | data (d : SessionData)
  | session (s : Session)
  | pair (first second : Except SessionError Unit)
  /-- A new id, by its length and whether it is one. -/
  | newId (length : Nat) (valid : Bool)
  | properties (p : Properties)
  | nodes (entries : List (String × Node))

/-- What a step shows: its answer, the calls that the engine made and what was reported. -/
structure Report where
  answer : Except SessionError Answer
  calls : List Call
  events : List Event

namespace Report

/-- The report of a step in which no engine and no backend had a part. -/
def plain (answer : Except SessionError Answer) : Report := ⟨answer, [], []⟩

end Report

end SessionStore.Scenario
