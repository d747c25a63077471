import SessionStore.Engine.Command

/-! # The instants of ticks

The periodic purge always waits for an instant that lies ahead of its timer. Time that passes up to
a limit runs the ticks that are due by then, in order, and leaves the next one at most one interval
after the last that ran.
-/

namespace SessionStore

/-! ## Whole milliseconds -/

def Duration.IsWhole (d : Duration) : Prop := d.nanos % 1000000 = 0

instance (d : Duration) : Decidable d.IsWhole := inferInstanceAs (Decidable (_ = _))

namespace Instant

variable {now t u : Instant}

def IsWhole (t : Instant) : Prop := t % 1000000 = 0

theorem roundDown_le (t : Instant) : t.roundDown ≤ t := by
  simp only [roundDown]
  lia

theorem lt_roundDown (t : Instant) : t < t.roundDown + 1000000 := by
  simp only [roundDown]
  lia

theorem le_roundUp (t : Instant) : t ≤ t.roundUp := by
  simp only [roundUp]
  lia

theorem IsWhole.roundDown_eq (h : t.IsWhole) : t.roundDown = t := by
  simp only [IsWhole, roundDown] at *
  lia

theorem IsWhole.roundUp_eq (h : t.IsWhole) : t.roundUp = t := by
  simp only [IsWhole, roundUp] at *
  lia

theorem isWhole_roundUp (t : Instant) : t.roundUp.IsWhole := by
  simp only [IsWhole, roundUp]
  lia

theorem isWhole_after {d : Duration} (h : t.IsWhole) (hd : d.IsWhole) : (t.after d).IsWhole := by
  simp only [IsWhole, Duration.IsWhole, after] at *
  lia

/-- A whole millisecond is over the rounded instant where it is over the instant. -/
theorem roundUp_le_roundUp_iff : t.roundUp ≤ u.roundUp ↔ t ≤ u.roundUp := by
  simp only [roundUp]
  lia

theorem le_after (t : Instant) (d : Duration) : t ≤ t.after d := by
  simp only [after]
  lia

theorem after_after (t : Instant) (d d' : Duration) :
    (t.after d).after d' = t.after ⟨d.nanos + d'.nanos⟩ := by
  simp only [after]
  lia

theorem after_mono (h : t ≤ u) (d : Duration) : t.after d ≤ u.after d := by
  simp only [after]
  lia

/-- One who wakes takes for the present what the timer has waited for. -/
theorem roundDown_wake (now t : Instant) : (now.wake t).roundDown = t.roundUp := by
  simp only [wake, roundDown, roundUp]
  lia

theorem lt_wake_iff : now < now.wake t ↔ now.roundDown < t := by
  simp only [wake, roundDown, roundUp]
  lia

theorem le_wake (h : now.roundDown ≤ t) : now ≤ now.wake t := by
  simp only [wake, roundDown, roundUp] at *
  lia

/-- A timer goes off at most a millisecond late by its own reckoning, and at most two by the
clock. -/
theorem wake_lt (now t : Instant) : now.wake t < t + 2000000 := by
  simp only [wake, roundDown, roundUp]
  lia

theorem le_wake_self (now t : Instant) : t ≤ now.wake t := by
  simp only [wake, roundDown, roundUp]
  lia

theorem wake_le_wake (h : t ≤ u.roundUp) : now.wake t ≤ now.wake u := by
  have := roundUp_le_roundUp_iff.mpr h
  simp only [wake]
  lia

theorem wake_mono (h : t ≤ u) : now.wake t ≤ now.wake u :=
  wake_le_wake (Int.le_trans h (le_roundUp u))

/-- Timers go off at the same instants for one who has slept meanwhile. -/
theorem wake_wake (now t u : Instant) : (now.wake t).wake u = now.wake u := by
  simp only [wake, roundDown, roundUp]
  lia

/-- At a whole millisecond timers are exact up to the next one. -/
theorem IsWhole.wake_eq (h : now.IsWhole) (t : Instant) : now.wake t = t.roundUp := by
  rw [wake, h.roundDown_eq]
  lia

end Instant

/-- The command takes a whole number of milliseconds. -/
def Command.IsWhole : Command → Prop
  | .sleep d | .jump d => d.IsWhole
  | _ => True

namespace Schedule

variable {due limit now : Instant} {interval : Duration}

theorem dueCount_of_lt (h : limit < due) : dueCount due limit interval = 0 := if_pos h

theorem dueCount_pos (h : due ≤ limit) : 0 < dueCount due limit interval := by
  rw [dueCount, if_neg (by lia)]
  lia

/-- The first tick that does not run lies after the limit. -/
theorem lt_later_dueCount (hi : 0 < interval.nanos) :
    limit < later due interval (dueCount due limit interval) := by
  simp only [later, Instant.after, dueCount]
  split
  · lia
  · have h := Nat.lt_div_mul_add (a := (limit - due).toNat) hi
    push_cast
    rw [Int.add_mul, Int.one_mul]
    lia

/-- The ticks that run are due by the limit. -/
theorem later_le {k : Nat} (hk : k < dueCount due limit interval) :
    later due interval k ≤ limit := by
  simp only [later, Instant.after, dueCount] at hk ⊢
  split at hk
  · lia
  · have h : k ≤ (limit - due).toNat / interval.nanos := by lia
    have h' := Nat.mul_le_of_le_div _ _ _ h
    push_cast
    lia

theorem later_succ (k : Nat) :
    later due interval (k + 1) = (later due interval k).after interval := by
  simp only [later, Instant.after]
  push_cast
  rw [Int.add_mul]
  lia

theorem later_mono {j k : Nat} (h : j ≤ k) : later due interval j ≤ later due interval k := by
  simp only [later, Instant.after]
  have := Nat.mul_le_mul_right interval.nanos h
  lia

/-- A timer has gone off for a tick that is missed. -/
theorem le_of_isMissed (h : isMissed due now) : due ≤ now.roundDown := by
  have := now.lt_roundDown
  simp only [isMissed, Instant.after, lateness, Duration.ofMillis] at h
  lia

/-- No tick is stranded as long as the clock gets an interval further. -/
theorem not_isStranded (h : now.after interval ≤ Instant.last) :
    ¬isStranded due now interval := fun hs => Int.not_le.mpr hs.2 h

/-- No tick is overdue before it is due. -/
theorem overdueCount_of_lt (h : now.roundDown < due) : overdueCount due now interval = 0 := by
  have hmissed : ¬isMissed due now := fun hm => Int.not_le.mpr h (le_of_isMissed hm)
  rw [overdueCount, if_neg fun hs => hmissed hs.1, if_neg hmissed, dueCount_of_lt h]

theorem overdueCount_pos (h : due ≤ now.roundDown) (hs : ¬isStranded due now interval) :
    0 < overdueCount due now interval := by
  rw [overdueCount, if_neg hs]
  split
  · exact Nat.one_pos
  · exact dueCount_pos h

theorem lt_afterOverdue (hi : 0 < interval.nanos) :
    now.roundDown < afterOverdue due now interval := by
  rw [afterOverdue]
  split
  · have := now.roundDown_le
    simp only [Instant.after]
    lia
  · exact lt_later_dueCount hi

theorem afterOverdue_of_lt (h : now.roundDown < due) : afterOverdue due now interval = due := by
  rw [afterOverdue, if_neg fun hm => Int.not_le.mpr h (le_of_isMissed hm), dueCount_of_lt h]
  simp [later, Instant.after]

/-- After ticks have run at `now`, the next one is due within one interval. -/
theorem afterOverdue_le (h : due ≤ now.roundDown) :
    afterOverdue due now interval ≤ now.after interval := by
  rw [afterOverdue]
  split
  · exact Int.le_refl _
  · have hpos : 0 < dueCount due now.roundDown interval := dueCount_pos h
    obtain ⟨k, hk⟩ := Nat.exists_eq_add_of_lt hpos
    rw [Nat.zero_add] at hk
    have hlast : later due interval k ≤ now.roundDown := later_le (by lia)
    rw [hk, later_succ]
    exact Instant.after_mono (Int.le_trans hlast now.roundDown_le) interval

/-! ## Ticks one after the other -/

theorem le_of_dueCount_pos (h : 0 < dueCount due limit interval) : due ≤ limit :=
  Int.not_lt.mp fun hlt => by
    rw [dueCount_of_lt hlt] at h
    exact Nat.lt_irrefl 0 h

theorem later_zero : later due interval 0 = due := by simp [later, Instant.after]

theorem later_later (j k : Nat) :
    later (later due interval j) interval k = later due interval (j + k) := by
  simp only [later, Instant.after]
  push_cast
  rw [Int.add_mul]
  lia

theorem later_after (k : Nat) :
    later (due.after interval) interval k = later due interval (k + 1) := by
  have hone : due.after interval = later due interval 1 := by rw [later_succ, later_zero]
  rw [hone, later_later, Nat.add_comm]

/-- One tick less is due an interval later. -/
theorem dueCount_succ (hi : 0 < interval.nanos) (h : due ≤ limit) :
    dueCount due limit interval = dueCount (due.after interval) limit interval + 1 := by
  simp only [dueCount, if_neg (Int.not_lt.mpr h)]
  by_cases hnext : limit < due.after interval
  · rw [if_pos hnext, Nat.div_eq_of_lt]
    simp only [Instant.after] at hnext
    lia
  · rw [if_neg hnext]
    simp only [Instant.after] at hnext ⊢
    have hsub : (limit - due).toNat = (limit - (due + interval.nanos)).toNat + interval.nanos := by
      lia
    rw [hsub, Nat.add_div_right _ hi]

/-- Time that passes in two parts makes the ticks due that it makes due in one. -/
theorem dueCount_add (hi : 0 < interval.nanos) {limit' : Instant} (h : limit ≤ limit') :
    dueCount due limit' interval = dueCount due limit interval +
      dueCount (later due interval (dueCount due limit interval)) limit' interval := by
  induction hn : dueCount due limit interval generalizing due with
  | zero => rw [later_zero, Nat.zero_add]
  | succ n ih =>
    have hdue : due ≤ limit := le_of_dueCount_pos (Nat.lt_of_lt_of_eq n.succ_pos hn.symm)
    rw [dueCount_succ hi hdue] at hn
    have hrest := ih (Nat.succ.inj hn)
    rw [dueCount_succ hi (Int.le_trans hdue h), hrest, later_after, Nat.add_right_comm]

/-- Whole intervals that have passed since an interval before the first tick. -/
theorem dueCount_first (hi : 0 < interval.nanos) (d : Duration) :
    dueCount (now.after interval) (now.after d) interval = d.nanos / interval.nanos := by
  by_cases hd : d.nanos < interval.nanos
  · rw [dueCount_of_lt, Nat.div_eq_of_lt hd]
    simp only [Instant.after]
    lia
  · have hle : now.after interval ≤ now.after d := by
      simp only [Instant.after]
      lia
    have hsub : (now.after d - now.after interval).toNat = d.nanos - interval.nanos := by
      simp only [Instant.after]
      lia
    rw [dueCount, if_neg (Int.not_lt.mpr hle), hsub, ← Nat.div_eq_sub_div hi (Nat.not_lt.mp hd)]

theorem punctual_of_lt (h : limit < due) : punctual due limit interval = [] := by
  rw [punctual, dueCount_of_lt h, List.range_zero, List.map_nil]

theorem punctual_cons (hi : 0 < interval.nanos) (h : due ≤ limit) :
    punctual due limit interval = due :: punctual (due.after interval) limit interval := by
  rw [punctual, dueCount_succ hi h, List.range_succ_eq_map, List.map_cons, later_zero, List.map_map,
    punctual]
  congr 2
  funext k
  exact (later_after k).symm

theorem punctual_append (hi : 0 < interval.nanos) {limit' : Instant} (h : limit ≤ limit') :
    punctual due limit' interval = punctual due limit interval ++
      punctual (later due interval (dueCount due limit interval)) limit' interval := by
  rw [punctual, dueCount_add hi h, List.range_add, List.map_append, List.map_map, punctual,
    punctual]
  congr 2
  funext k
  exact (later_later _ _).symm

/-- If the lateness that makes a tick count as missed is less than an interval, no more than one
tick is overdue. -/
theorem overdueCount_eq (hi : lateness < interval) (hs : ¬isStranded due now interval) :
    overdueCount due now interval = if due ≤ now.roundDown then 1 else 0 := by
  split
  case isTrue h =>
    rw [overdueCount, if_neg hs]
    split
    case isTrue => rfl
    case isFalse hmissed =>
      have hdown := now.roundDown_le
      change lateness.nanos < interval.nanos at hi
      have hnext : now.roundDown < due.after interval := by
        simp only [isMissed, Instant.after] at hmissed ⊢
        lia
      rw [dueCount_succ (Nat.zero_lt_of_lt hi) h, dueCount_of_lt hnext]
  case isFalse h => exact overdueCount_of_lt (Int.not_le.mp h)

/-! ## Commands -/

/-- The instants of the ticks that run during a command. -/
def ticks (interval : Duration) (now : Instant) : Sweep → Command → List Instant
  | .waiting due, .sleep d => (punctual due (now.after d).roundUp interval).map now.wake
  | .waiting due, .jump d =>
    List.replicate (overdueCount due (now.after d) interval) (now.after d)
  | _, _ => []

/-- What a command makes of the periodic purge by the time it takes. -/
def nextSweep (interval : Duration) (now : Instant) : Sweep → Command → Sweep
  | .waiting due, .sleep d =>
    .waiting (later due interval (dueCount due (now.after d).roundUp interval))
  | .waiting due, .jump d => Host.overdueSweep due (now.after d) interval
  | s, _ => s

/-- The clock after a command. -/
def clockAfter (now : Instant) : Command → Instant
  | .sleep d => now.wake (now.after d)
  | .jump d => now.after d
  | _ => now

theorem le_clockAfter (now : Instant) (c : Command) : now ≤ clockAfter now c := by
  cases c with
  | sleep d => exact Int.le_trans (now.le_after d) (now.le_wake_self _)
  | jump d => exact now.le_after d
  | _ => exact Int.le_refl now

theorem clockAfter_isWhole {c : Command} (hnow : now.IsWhole) (hc : c.IsWhole) :
    (clockAfter now c).IsWhole := by
  cases c with
  | sleep d =>
    rw [clockAfter, hnow.wake_eq]
    exact (now.after d).isWhole_roundUp
  | jump d => exact Instant.isWhole_after hnow hc
  | _ => exact hnow

/-- No time runs backwards. -/
theorem le_foldl_clockAfter (now : Instant) (cs : List Command) :
    now ≤ cs.foldl clockAfter now := by
  induction cs generalizing now with
  | nil => exact Int.le_refl now
  | cons c cs ih => exact Int.le_trans (le_clockAfter now c) (ih _)

theorem foldl_clockAfter_isWhole (hnow : now.IsWhole) {cs : List Command}
    (hcs : ∀ c ∈ cs, c.IsWhole) : (cs.foldl clockAfter now).IsWhole := by
  induction cs generalizing now with
  | nil => exact hnow
  | cons c cs ih =>
    exact ih (clockAfter_isWhole hnow (hcs c (by simp))) fun c hc => hcs c (by simp [hc])

/-- A sleep of whole milliseconds takes no longer than it is meant to. -/
theorem clockAfter_sleep (hnow : now.IsWhole) {d : Duration} (hd : d.IsWhole) :
    clockAfter now (.sleep d) = now.after d := by
  rw [clockAfter, hnow.wake_eq, (Instant.isWhole_after hnow hd).roundUp_eq]

end Schedule

end SessionStore
