/-! # Durations and instants

Time is counted in whole nanoseconds. Idle times are differences of instants and never negative: an
instant that lies ahead counts as now.
-/

namespace SessionStore

structure Duration where
  nanos : Nat
  deriving DecidableEq, Repr

namespace Duration

def perSecond : Nat := 1000000000

def ofSeconds (s : Nat) : Duration := ⟨s * perSecond⟩

def ofMillis (ms : Nat) : Duration := ⟨ms * 1000000⟩

def ofParts (seconds nanos : Nat) : Duration := ⟨seconds * perSecond + nanos⟩

def seconds (d : Duration) : Nat := d.nanos / perSecond

def millis (d : Duration) : Nat := d.nanos / 1000000

instance : LE Duration := ⟨fun a b => a.nanos ≤ b.nanos⟩

instance : LT Duration := ⟨fun a b => a.nanos < b.nanos⟩

instance (a b : Duration) : Decidable (a ≤ b) := inferInstanceAs (Decidable (a.nanos ≤ b.nanos))

instance (a b : Duration) : Decidable (a < b) := inferInstanceAs (Decidable (a.nanos < b.nanos))

/-- A number with zeros in front, `width` digits wide. -/
def padded (width n : Nat) : List Char :=
  let ds := Nat.toDigits 10 n
  List.replicate (width - ds.length) '0' ++ ds

/-- Seconds with all nine decimal places. -/
def plain (d : Duration) : String :=
  toString d.seconds ++ "." ++ String.ofList (padded 9 (d.nanos % perSecond))

/-- A number of units of which one is `10 ^ places` of the next smaller kind, with as many decimal
places as it needs. -/
def inUnit (places n : Nat) (unit : String) : String :=
  let fraction := ((padded places (n % Nat.pow 10 places)).reverse.dropWhile (· == '0')).reverse
  toString (n / Nat.pow 10 places) ++
    (if fraction = [] then "" else "." ++ String.ofList fraction) ++ unit

/-- The duration in the largest unit of which it holds at least one. -/
def short (d : Duration) : String :=
  if 1000000000 ≤ d.nanos then inUnit 9 d.nanos "s"
  else if 1000000 ≤ d.nanos then inUnit 6 d.nanos "ms"
  else if 1000 ≤ d.nanos then inUnit 3 d.nanos "µs"
  else inUnit 0 d.nanos "ns"

end Duration

/-- A reading of a clock, in nanoseconds from its origin. -/
abbrev Instant := Int

namespace Instant

/-- Clocks count at most 2^63 - 1 whole seconds. -/
def last : Instant := 0x8000000000000000 * (Duration.perSecond : Int) - 1

def after (t : Instant) (d : Duration) : Instant := t + d.nanos

/-- The time from `t` to `now`, zero if `t` lies ahead. -/
def elapsed (now t : Instant) : Duration := ⟨(now - t).toNat⟩

/-- The last whole millisecond up to `t`. -/
def roundDown (t : Instant) : Instant := t / 1000000 * 1000000

/-- The first whole millisecond from `t` on. -/
def roundUp (t : Instant) : Instant := (t + 999999) / 1000000 * 1000000

/-- When a timer for `due` wakes one who sleeps from `now` on. Timers count whole milliseconds: they
wait for the first one from `due` on, and take the last one up to `now` for the present. -/
def wake (now due : Instant) : Instant := now + (due.roundUp - now.roundDown)

end Instant

end SessionStore
