import SessionStore.Duration

/-! # The schedule of the periodic purge

Ticks are due one interval apart, and run when their timer goes off, at a whole millisecond. A tick
that comes too late counts as missed, and puts off those after it; as long as none is missed, the
next one is due where it would have been.
-/

namespace SessionStore.Schedule

/-- A tick that is later than this counts as missed. -/
def lateness : Duration := .ofMillis 5

/-- How many ticks are due up to `limit`, if the first is due at `due` and none is missed. -/
def dueCount (due limit : Instant) (interval : Duration) : Nat :=
  if limit < due then 0 else (limit - due).toNat / interval.nanos + 1

/-- The instant of the tick that is `k` intervals after the one at `due`. -/
def later (due : Instant) (interval : Duration) (k : Nat) : Instant :=
  due.after ⟨k * interval.nanos⟩

/-- The instants up to `limit` at which ticks are due, if none is missed. -/
def punctual (due limit : Instant) (interval : Duration) : List Instant :=
  (List.range (dueCount due limit interval)).map (later due interval)

/-- The first tick due at `due` is missed if nothing runs before `now`. -/
def isMissed (due now : Instant) : Prop := due.after lateness < now

instance (due now : Instant) : Decidable (isMissed due now) :=
  inferInstanceAs (Decidable (_ < _))

/-- The tick due at `due` is missed at an instant from which the clock does not get to the next. -/
def isStranded (due now : Instant) (interval : Duration) : Prop :=
  isMissed due now ∧ Instant.last < now.after interval

instance (due now : Instant) (interval : Duration) : Decidable (isStranded due now interval) :=
  inferInstanceAs (Decidable (_ ∧ _))

/-- How many ticks run at `now`, if nothing ran since the one at `due` became due. A missed tick
stands for all that would have followed it; it does not run if it is stranded. -/
def overdueCount (due now : Instant) (interval : Duration) : Nat :=
  if isStranded due now interval then 0
  else if isMissed due now then 1
  else dueCount due now.roundDown interval

/-- When the next tick is due after those that run at `now`. -/
def afterOverdue (due now : Instant) (interval : Duration) : Instant :=
  if isMissed due now then now.after interval
  else later due interval (dueCount due now.roundDown interval)

end SessionStore.Schedule
