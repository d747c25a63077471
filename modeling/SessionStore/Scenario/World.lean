import SessionStore.Scenario.Step
import SessionStore.Store.Files
import SessionStore.Store.Memory

/-! # The world of a scenario

Everything that steps act on. The clock of the world moves only when a step says so; the disk has a
clock of its own, which stands still, so that files age only when a step makes them.
-/

namespace SessionStore.Scenario

/-- Where contents can be. -/
structure Media where
  memory : Memory
  disk : Disk

structure World where
  /-- The file store, unless the store is in memory. -/
  files? : Option FileStore
  /-- To an engine the store looks as if it removed by itself what is old. -/
  expiring : Bool
  media : Media
  clock : Instant
  diskClock : Instant
  shutdown : Bool
  engine? : Option Engine
  refusals : List (Call.Kind × Refusal)
  slots : Std.ExtTreeMap String Session
  ids : Id.Source

/-- The error of a refused call. -/
def Refusal.error (r : Refusal) (c : Call) : SessionError :=
  match r with
  | .backend => .backend (.other (c.kind.name ++ " failed"))
  | .io => .io (.custom false (c.kind.name ++ " failed"))
  | .missing => .notFound c.subject

namespace World

/-- The directory that all paths of a scenario lie in. -/
def root : String := "<root>"

/-- A world with an empty directory, some time after its clock began. -/
def initial (files? : Option FileStore) (expiring : Bool) : World where
  files? := files?
  expiring := expiring
  media := ⟨∅, ⟨(∅ : Std.ExtTreeMap Location Node).insert [root] (.directory 0o700 0)⟩⟩
  clock := Instant.after 0 (.ofSeconds 86400)
  diskClock := 0
  shutdown := false
  engine? := none
  refusals := []
  slots := ∅
  ids := ⟨0⟩

/-- The store itself. -/
def store (w : World) : Backend Media :=
  match w.files? with
  | none => Memory.backend.within Media.memory fun m memory => { m with memory }
  | some f => (f.backend.within Media.disk fun m disk => { m with disk }).frozen w.diskClock

def refusal? (w : World) (c : Call) : Option SessionError :=
  (w.refusals.lookup c.kind).map (·.error c)

/-- The store as an engine sees it. -/
def backend (w : World) : Backend Media :=
  (if w.expiring then w.store.expiring else w.store).refusing w.refusal?

/-- An engine at work in the world. -/
def host (w : World) (e : Engine) : Host Media := ⟨e, .fresh w.media, w.clock, w.shutdown⟩

/-- The world after an engine has worked in it. -/
def absorb (w : World) (h : Host Media) : World :=
  { w with
    engine? := some h.engine, media := h.work.store, clock := h.clock, shutdown := h.shutdown }

end World

/-- The report of what an engine did. -/
def Report.ofHost {σ : Type} (answer : Except SessionError Answer) (h : Host σ) : Report :=
  ⟨answer, (h.work.calls.map (·.2)).reverse, h.work.events.reverse⟩

/-- The report of what a backend did without an engine. -/
def Report.ofOutcome {σ α : Type} (o : Outcome σ α) (f : α → Answer) : Report :=
  ⟨o.result.map f, [], o.events⟩

end SessionStore.Scenario
