import SessionStore.Engine.Schedule
import SessionStore.Engine.Sessions

/-! # Engines at work

An engine with its store, its clock and the token by which its surroundings announce their shutdown.
Time passes only in `sleep` and `jump`, and the periodic purge ticks where it falls due.
-/

namespace SessionStore

structure Host (σ : Type) where
  engine : Engine
  work : Work σ
  clock : Instant
  /-- The shutdown has been announced. -/
  shutdown : Bool

namespace Host

variable {σ α : Type}

/-- An operation of the engine on its store. -/
def access (h : Host σ) (a : Access σ α) : Except SessionError α × Host σ :=
  let (result, work) := a.perform h.work
  (result, { h with work })

def note (h : Host σ) (e : Event) : Host σ := { h with work := h.work.note e }

def withSweep (h : Host σ) (s : Sweep) : Host σ := { h with engine := { h.engine with sweep := s } }

def withPhase (h : Host σ) (p : Phase) : Host σ := { h with engine := { h.engine with phase := p } }

/-! ## Starting and stopping -/

/-- The periodic purge as it begins: one interval from now, if the clock gets there at all. -/
def firstSweep (now : Instant) (interval : Duration) : Sweep :=
  if now.after interval ≤ Instant.last then .waiting (now.after interval) else .broken

/-- Starts the engine, which is possible once. The backend is started last; if that fails the engine
is stopped. -/
def start (b : Backend σ) (h : Host σ) : Except SessionError Unit × Host σ :=
  if h.engine.phase ≠ .unstarted then (.error .alreadyStarted, h)
  else
    let p := h.engine.properties
    let sweep := if b.requiresPurge then firstSweep h.clock p.purgeInterval else .absent
    let h := (h.withPhase .started).withSweep sweep
    match h.access (Access.call b h.clock .start) with
    | (.ok _, h) =>
      (.ok (), h.note (.started p.name h.engine.encoder.name p.ageLimit b.requiresPurge))
    | (.error why, h) => (.error why, (h.note (.startFailed why)).withPhase .stopped)

/-- Stops the engine, and its backend every time. -/
def stop (b : Backend σ) (h : Host σ) : Except SessionError Unit × Host σ :=
  match h.engine.phase with
  | .unstarted => (.error .notStarted, h)
  | .started =>
    let h := if h.engine.sweep = .broken then (h.withSweep .absent).note .sweepBroken else h
    let h := (h.note (.stopped h.engine.properties.name)).withPhase .stopped
    h.access (Access.call b h.clock .stop)
  | .stopped => h.access (Access.call b h.clock .stop)

/-- Ends the periodic purge if it is alive. -/
def endSweep (h : Host σ) : Host σ :=
  if h.engine.purging then (h.withSweep .absent).note .sweepStopped else h

/-- Lets the periodic purge notice that its end has come. -/
def settle (h : Host σ) : Host σ :=
  if h.shutdown ∨ h.engine.phase = .stopped then h.endSweep else h

/-! ## Time -/

/-- Runs one tick: purges, and reports only what is worth it. -/
def tick (b : Backend σ) (h : Host σ) : Host σ :=
  match h.access (h.engine.purge b h.clock) with
  | (.ok removed, h) => if removed = 0 then h else h.note (.swept removed)
  | (.error .disabled, h) => h.note .sweepSkipped
  | (.error why, h) => h.note (.sweepFailed why)

/-- Runs a tick at each of the instants. -/
def tickAt (b : Backend σ) (h : Host σ) (times : List Instant) : Host σ :=
  times.foldl (fun h t => { h with clock := t }.tick b) h

/-- Lets time pass until a timer wakes, with a stop at every tick. -/
def sleep (b : Backend σ) (h : Host σ) (d : Duration) : Host σ :=
  let awake := h.clock.wake (h.clock.after d)
  let limit := (h.clock.after d).roundUp
  let interval := h.engine.properties.purgeInterval
  match h.engine.sweep with
  | .waiting due =>
    let next := Schedule.later due interval (Schedule.dueCount due limit interval)
    { (h.tickAt b ((Schedule.punctual due limit interval).map h.clock.wake)).withSweep
        (.waiting next) with
      clock := awake }
  | .absent | .broken => { h with clock := awake }

/-- The periodic purge after the ticks that run at `now`, if nothing ran since the one at `due`
became due. -/
def overdueSweep (due now : Instant) (interval : Duration) : Sweep :=
  if Schedule.isStranded due now interval then .broken
  else .waiting (Schedule.afterOverdue due now interval)

/-- Moves the clock in one go; ticks that fell due run afterwards. -/
def jump (b : Backend σ) (h : Host σ) (d : Duration) : Host σ :=
  let now := h.clock.after d
  let interval := h.engine.properties.purgeInterval
  let h := { h with clock := now }
  match h.engine.sweep with
  | .waiting due =>
    (h.tickAt b (List.replicate (Schedule.overdueCount due now interval) now)).withSweep
      (overdueSweep due now interval)
  | .absent | .broken => h

end Host

end SessionStore
