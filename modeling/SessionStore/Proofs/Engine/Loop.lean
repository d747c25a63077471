import SessionStore.Proofs.Engine.Phases

/-! # The loop of the periodic purge

The periodic purge runs its ticks one after the other. When one has run, the next is due an interval
after it was due, or an interval from now if it came too late; where the clock does not get to that,
the loop breaks before the tick. Both ways for time to pass are runs of this loop.
-/

namespace SessionStore

variable {σ : Type} {b : Backend σ}

namespace Schedule

/-- When the next tick is due after the one due at `due` has run at `now`. -/
def next (due now : Instant) (interval : Duration) : Instant :=
  if isMissed due now then now.after interval else due.after interval

end Schedule

namespace Host

variable {h : Host σ} {due : Instant} {interval : Duration}

/-! ## The loop of the periodic purge -/

/-- The periodic purge at work while time passes until `stop` and timers go off for what is due by
`limit`: from one host to another, with the instants of the ticks. A timer that is set at `t` for
`u` goes off at `runsAt t u`. -/
inductive Ticking (b : Backend σ) (limit stop : Instant) (runsAt : Instant → Instant → Instant) :
    Host σ → List Instant → Host σ → Prop
  | rest {h : Host σ} {due : Instant} : h.engine.sweep = .waiting due → limit < due →
      Ticking b limit stop runsAt h [] { h with clock := stop }
  | strand {h : Host σ} {due : Instant} : h.engine.sweep = .waiting due → due ≤ limit →
      Schedule.isStranded due (runsAt h.clock due) h.engine.properties.purgeInterval →
      Ticking b limit stop runsAt h [] { h.withSweep .broken with clock := stop }
  | tick {h g : Host σ} {due : Instant} {times : List Instant} :
      h.engine.sweep = .waiting due → due ≤ limit →
      ¬Schedule.isStranded due (runsAt h.clock due) h.engine.properties.purgeInterval →
      Ticking b limit stop runsAt (({ h with clock := runsAt h.clock due }.tick b).withSweep
        (.waiting (Schedule.next due (runsAt h.clock due) h.engine.properties.purgeInterval)))
        times g →
      Ticking b limit stop runsAt h (runsAt h.clock due :: times) g

/-- As long as no tick is missed, they run one after the other as their timers go off. -/
theorem ticking_unmissed (b : Backend σ) (limit stop : Instant)
    (runsAt : Instant → Instant → Instant) (hs : h.engine.sweep = .waiting due)
    (hp : h.engine.properties.purgeInterval = interval) (hi : 0 < interval.nanos)
    (hsame : ∀ t u, runsAt (runsAt h.clock t) u = runsAt h.clock u)
    (hr : ∀ t, due ≤ t → t ≤ limit → ¬Schedule.isMissed t (runsAt h.clock t)) :
    Ticking b limit stop runsAt h ((Schedule.punctual due limit interval).map (runsAt h.clock))
      (h.tickedTo b ((Schedule.punctual due limit interval).map (runsAt h.clock))
        (.waiting (Schedule.later due interval (Schedule.dueCount due limit interval))) stop) := by
  induction hn : Schedule.dueCount due limit interval generalizing h due with
  | zero =>
    have hlt : limit < due := Int.not_le.mp fun hle => by
      have hpos : 0 < Schedule.dueCount due limit interval := Schedule.dueCount_pos hle
      lia
    rw [Schedule.punctual_of_lt hlt, List.map_nil, Schedule.later_zero, tickedTo_nil hs]
    exact .rest hs hlt
  | succ n ih =>
    have hle : due ≤ limit := Schedule.le_of_dueCount_pos (Nat.lt_of_lt_of_eq n.succ_pos hn.symm)
    have hmissed := hr due (Int.le_refl _) hle
    have hnext : Schedule.next due (runsAt h.clock due) interval = due.after interval :=
      if_neg hmissed
    rw [Schedule.dueCount_succ hi hle] at hn
    rw [Schedule.punctual_cons hi hle, List.map_cons]
    refine .tick hs hle (fun hstrand => hmissed hstrand.1) ?_
    rw [hp, hnext]
    let g : Host σ := ({ h with clock := runsAt h.clock due }.tick b).withSweep
      (.waiting (due.after interval))
    have hkeeps := tick_keeps b { h with clock := runsAt h.clock due }
    have hg : g.engine.properties.purgeInterval = interval := by
      rw [← hp]
      exact congrArg (·.properties.purgeInterval) hkeeps.engine
    have hat : runsAt g.clock = runsAt h.clock := by
      funext u
      have hclock : g.clock = runsAt h.clock due := hkeeps.clock
      rw [hclock, hsame]
    have hrest := ih (h := g) rfl hg (fun t u => by rw [hat, hsame])
      (fun t ht => by rw [hat]; exact hr t (Int.le_trans (due.le_after interval) ht))
      (Nat.succ.inj hn)
    rw [Schedule.later_after, hat] at hrest
    rw [← tick_tickedTo]
    exact hrest

/-- In a sleep every tick runs when its timer goes off, and none is missed. -/
theorem ticking_sleep (hs : h.engine.sweep = .waiting due)
    (hi : 0 < h.engine.properties.purgeInterval.nanos) (d : Duration) :
    Ticking b (h.clock.after d).roundUp (Schedule.clockAfter h.clock (.sleep d)) Instant.wake h
      (h.ticks (.sleep d)) (h.sleep b d) := by
  rw [sleep_eq, ticks, nextSweep, hs]
  refine ticking_unmissed b _ _ _ hs rfl hi (fun t u => h.clock.wake_wake t u) fun t _ _ hlate => ?_
  have := h.clock.wake_lt t
  simp only [Schedule.isMissed, Instant.after, Schedule.lateness, Duration.ofMillis] at hlate
  lia

/-- In a jump the first tick is late. If it is missed, the next is put off and the loop ends. -/
theorem ticking_jump (hs : h.engine.sweep = .waiting due)
    (hi : 0 < h.engine.properties.purgeInterval.nanos) (d : Duration) :
    Ticking b (h.clock.after d).roundDown (h.clock.after d) (fun _ _ => h.clock.after d) h
      (h.ticks (.jump d)) (h.jump b d) := by
  rw [jump_eq, ticks, nextSweep, hs]
  simp only [Schedule.ticks, Schedule.nextSweep, Schedule.clockAfter, overdueSweep,
    Schedule.overdueCount, Schedule.afterOverdue]
  generalize h.clock.after d = now
  by_cases hstrand : Schedule.isStranded due now h.engine.properties.purgeInterval
  · rw [if_pos hstrand, if_pos hstrand, List.replicate_zero]
    exact .strand hs (Schedule.le_of_isMissed hstrand.1) hstrand
  rw [if_neg hstrand, if_neg hstrand]
  by_cases hlate : Schedule.isMissed due now
  · rw [if_pos hlate, if_pos hlate, List.replicate_one]
    refine .tick hs (Schedule.le_of_isMissed hlate) hstrand ?_
    rw [Schedule.next, if_pos hlate, ← tick_tickedTo]
    refine .rest rfl ?_
    have := now.roundDown_le
    simp only [Instant.after]
    lia
  · rw [if_neg hlate, if_neg hlate]
    have hrun := ticking_unmissed b now.roundDown now (fun _ _ => now) hs rfl hi
      (fun _ _ => rfl) fun t ht _ hmissed => hlate <| by
        simp only [Schedule.isMissed, Instant.after] at hmissed ⊢
        lia
    rw [List.map_const', Schedule.punctual, List.length_map, List.length_range] at hrun
    exact hrun

end Host

end SessionStore
