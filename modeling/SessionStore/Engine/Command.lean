import SessionStore.Engine.Host

/-! # Commands to an engine

All that can happen to an engine at work, as data. After every command the periodic purge gets to
notice whether its end has come.
-/

namespace SessionStore

inductive Command
  | getSession (id : String)
  | saveSession (id : String) (s : Session)
  | sessionExists (id : String)
  | deleteSession (id : String)
  | touchSession (id : String)
  | purge
  | setEnabled (on : Bool)
  | start
  | stop
  /-- Announces the shutdown, for good. -/
  | shutDown
  /-- Gives the engine up. -/
  | drop
  | sleep (d : Duration)
  | jump (d : Duration)

/-- What a command answers if it does not fail. -/
def Command.Answer : Command → Type
  | getSession _ => Session
  | saveSession _ _ => Unit
  | sessionExists _ => Bool
  | deleteSession _ => Unit
  | touchSession _ => Unit
  | purge => Nat
  | setEnabled _ => Unit
  | start => Unit
  | stop => Unit
  | shutDown => Unit
  | drop => Unit
  | sleep _ => Unit
  | jump _ => Unit

namespace Host

variable {σ : Type}

def obey (b : Backend σ) (h : Host σ) : (c : Command) → Except SessionError c.Answer × Host σ
  | .getSession id => h.access (h.engine.getSession b h.clock id)
  | .saveSession id s => h.access (h.engine.saveSession b h.clock id s)
  | .sessionExists id => h.access (h.engine.sessionExists b h.clock id)
  | .deleteSession id => h.access (h.engine.deleteSession b h.clock id)
  | .touchSession id => h.access (h.engine.touchSession b h.clock id)
  | .purge => h.access (h.engine.purge b h.clock)
  | .setEnabled on => (.ok (), { h with engine := h.engine.setEnabled on })
  | .start => h.start b
  | .stop => h.stop b
  | .shutDown => (.ok (), { h with shutdown := true })
  | .drop => (.ok (), h.endSweep)
  | .sleep d => (.ok (), h.sleep b d)
  | .jump d => (.ok (), h.jump b d)

/-- A command and what it entails. -/
def step (b : Backend σ) (h : Host σ) (c : Command) : Except SessionError c.Answer × Host σ :=
  let (answer, h) := h.obey b c
  (answer, h.settle)

end Host

end SessionStore
