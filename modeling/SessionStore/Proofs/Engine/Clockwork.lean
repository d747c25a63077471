import SessionStore.Proofs.Engine.Timetable

/-! # The clockwork of an engine

The phase of an engine at work, its periodic purge, the clock and the announced shutdown go on by
themselves: they follow from the commands that start, stop and end the engine or let time pass, and
from whether the backend starts. Sessions, the store and the switch have no part in it.
-/

namespace SessionStore

variable {σ : Type} {b : Backend σ}

structure Clockwork where
  phase : Phase
  sweep : Sweep
  interval : Duration
  clock : Instant
  shutdown : Bool

/-- The commands that start, stop and end an engine, or let time pass. -/
def Command.IsLifecycle : Command → Prop
  | .start | .stop | .shutDown | .drop | .sleep _ | .jump _ => True
  | _ => False

instance : DecidablePred Command.IsLifecycle
  | .start | .stop | .shutDown | .drop | .sleep _ | .jump _ => isTrue trivial
  | .getSession _ | .saveSession _ _ | .sessionExists _ | .deleteSession _ | .touchSession _
  | .purge | .setEnabled _ => isFalse id

namespace Clockwork

/-- The end of a periodic purge that is alive. -/
def ended (k : Clockwork) : Clockwork :=
  match k.sweep with
  | .waiting _ => { k with sweep := .absent }
  | .absent | .broken => k

/-- The periodic purge has noticed whether its end has come. -/
def settled (k : Clockwork) : Clockwork :=
  if k.shutdown ∨ k.phase = .stopped then k.ended else k

/-- The clockwork after a command, over a backend that starts or does not. -/
def after (requiresPurge starts : Bool) (k : Clockwork) : Command → Clockwork
  | .start =>
    if k.phase = .unstarted then
      { k with
        phase := if starts then .started else .stopped
        sweep := if requiresPurge then Host.firstSweep k.clock k.interval else .absent }
    else k
  | .stop =>
    match k.phase with
    | .unstarted | .stopped => k
    | .started =>
      { k with phase := .stopped, sweep := if k.sweep = .broken then .absent else k.sweep }
  | .shutDown => { k with shutdown := true }
  | .drop => k.ended
  | c =>
    { k with
      sweep := Schedule.nextSweep k.interval k.clock k.sweep c
      clock := Schedule.clockAfter k.clock c }

def run (requiresPurge starts : Bool) : Clockwork → List Command → Clockwork :=
  List.foldl fun k c => (k.after requiresPurge starts c).settled

/-- The instants of the ticks during a command. -/
def ticks (k : Clockwork) (c : Command) : List Instant :=
  Schedule.ticks k.interval k.clock k.sweep c

def ticksOf (requiresPurge starts : Bool) : Clockwork → List Command → List Instant
  | _, [] => []
  | k, c :: cs =>
    k.ticks c ++ ticksOf requiresPurge starts (k.after requiresPurge starts c).settled cs

variable {k : Clockwork} {c : Command} {r s : Bool}

@[simp] theorem ended_phase (k : Clockwork) : k.ended.phase = k.phase := by
  rw [ended]
  split <;> rfl

@[simp] theorem ended_shutdown (k : Clockwork) : k.ended.shutdown = k.shutdown := by
  rw [ended]
  split <;> rfl

theorem ended_ended (k : Clockwork) : k.ended.ended = k.ended := by
  rcases k with ⟨phase, _ | _ | _, interval, clock, shutdown⟩ <;> rfl

theorem settled_settled (k : Clockwork) : k.settled.settled = k.settled := by
  by_cases hend : k.shutdown ∨ k.phase = .stopped
  · have hsettled : k.settled = k.ended := if_pos hend
    rw [hsettled, settled, ended_phase, ended_shutdown, if_pos hend, ended_ended]
  · have hsettled : k.settled = k := if_neg hend
    rw [hsettled, hsettled]

/-- Nothing else drives the clockwork. -/
theorem after_of_not (hc : ¬c.IsLifecycle) : k.after r s c = k ∧ k.ticks c = [] := by
  rcases k with ⟨phase, _ | _ | _, interval, clock, shutdown⟩ <;>
    · cases c with
      | start | stop | shutDown | drop | sleep | jump => exact absurd trivial hc
      | _ => exact ⟨rfl, rfl⟩

/-- Once an engine has begun to start, it does not matter any more whether the backend starts. -/
theorem after_of_begun (hk : k.phase ≠ .unstarted) (s s' : Bool) (c : Command) :
    k.after r s c = k.after r s' c := by
  cases c with
  | start => simp only [after, if_neg hk]
  | _ => rfl

theorem run_filter (hk : k.settled = k) (cs : List Command) :
    k.run r s (cs.filter (·.IsLifecycle)) = k.run r s cs ∧
      k.ticksOf r s (cs.filter (·.IsLifecycle)) = k.ticksOf r s cs := by
  induction cs generalizing k with
  | nil => exact ⟨rfl, rfl⟩
  | cons c cs ih =>
    obtain ⟨hrun, hticks⟩ := ih (settled_settled (k.after r s c))
    by_cases hc : c.IsLifecycle
    · rw [List.filter_cons_of_pos (by simpa using hc), ticksOf, ticksOf, hticks]
      exact ⟨hrun, rfl⟩
    · obtain ⟨hsame, hnone⟩ := after_of_not (k := k) (r := r) (s := s) hc
      have hstep : (k.after r s c).settled = k := by rw [hsame, hk]
      rw [List.filter_cons_of_neg (by simpa using hc), ticksOf, hnone, hstep]
      rw [hstep] at hrun hticks
      refine ⟨hrun.trans ?_, hticks⟩
      rw [run, List.foldl_cons, hstep]

end Clockwork

namespace Host

variable {h g : Host σ} {c : Command} {starts : Bool}

def clockwork (h : Host σ) : Clockwork :=
  ⟨h.engine.phase, h.engine.sweep, h.engine.properties.purgeInterval, h.clock, h.shutdown⟩

/-- The backend would start now. -/
def starting (b : Backend σ) (h : Host σ) : Bool :=
  (b.perform h.clock h.work.store .start).result.toBool

theorem ticks_eq_clockwork (h : Host σ) (c : Command) : h.ticks c = h.clockwork.ticks c := rfl

theorem endSweep_clockwork (h : Host σ) : h.endSweep.clockwork = h.clockwork.ended := by
  rcases h with ⟨⟨p, encoder, on, phase, _ | _ | _⟩, w, t, down⟩ <;> rfl

theorem settle_clockwork (h : Host σ) : h.settle.clockwork = h.clockwork.settled := by
  by_cases hend : h.shutdown ∨ h.engine.phase = .stopped
  · have hsettled : h.clockwork.settled = h.clockwork.ended := if_pos hend
    rw [settle, if_pos hend, hsettled, endSweep_clockwork]
  · have hsettled : h.clockwork.settled = h.clockwork := if_neg hend
    rw [settle, if_neg hend, hsettled]

theorem start_clockwork (b : Backend σ) (h : Host σ) :
    (h.start b).2.clockwork = h.clockwork.after b.requiresPurge (h.starting b) .start := by
  by_cases hu : h.engine.phase = .unstarted
  · obtain ⟨-, he, hclock, hdown, -⟩ := start_of_unstarted b hu
    have hbegins : h.clockwork.phase = .unstarted := hu
    rw [Clockwork.after, if_pos hbegins, clockwork, hclock, hdown, starting]
    rcases hr : (b.perform h.clock h.work.store .start).result with why | x <;>
      · rw [hr] at he
        rw [he]
        rfl
  · have hphase : h.clockwork.phase ≠ .unstarted := hu
    simp only [start_of_begun b hu, Clockwork.after, if_neg hphase]

theorem stop_clockwork (b : Backend σ) (h : Host σ) :
    (h.stop b).2.clockwork = h.clockwork.after b.requiresPurge (h.starting b) .stop := by
  rcases h with ⟨⟨p, encoder, on, _ | _ | _, sweep⟩, w, t, down⟩
  · rfl
  · cases sweep <;> rfl
  · rfl

/-- A host moves its clockwork on, and nothing else of it has a say in this. -/
theorem obey_clockwork (b : Backend σ) (h : Host σ) (c : Command) :
    (h.obey b c).2.clockwork = h.clockwork.after b.requiresPurge (h.starting b) c := by
  by_cases hc : c.IsLifecycle
  · cases c with
    | start => exact start_clockwork b h
    | stop => exact stop_clockwork b h
    | shutDown => rfl
    | drop => exact endSweep_clockwork h
    | sleep | jump =>
      simp only [obey, sleep_eq, jump_eq]
      rfl
    | _ => exact hc.elim
  · rw [(Clockwork.after_of_not hc).1]
    cases c with
    | start | stop | shutDown | drop | sleep | jump => exact absurd trivial hc
    | _ => rfl

theorem step_clockwork (b : Backend σ) (h : Host σ) (c : Command) :
    (h.step b c).2.clockwork =
      (h.clockwork.after b.requiresPurge (h.starting b) c).settled := by
  rw [← obey_clockwork]
  exact settle_clockwork _

/-- The clockwork of a run follows from its beginning and the commands, if it is settled before
whether the backend starts. -/
theorem run_clockwork (hs : h.engine.phase ≠ .unstarted ∨
      ∀ t s, (b.perform t s .start).result.toBool = starts) (cs : List Command) :
    (h.run b cs).clockwork = h.clockwork.run b.requiresPurge starts cs ∧
      h.ticksOf b cs = h.clockwork.ticksOf b.requiresPurge starts cs := by
  induction cs generalizing h with
  | nil => exact ⟨rfl, rfl⟩
  | cons c cs ih =>
    have hafter : h.clockwork.after b.requiresPurge (h.starting b) c =
        h.clockwork.after b.requiresPurge starts c := by
      rcases hs with hu | hall
      · exact Clockwork.after_of_begun hu _ _ c
      · rw [starting, hall]
    have hnext := ih (h := (h.step b c).2) (hs.imp_left fun hu => step_begun hu b c)
    rw [step_clockwork, hafter] at hnext
    refine ⟨hnext.1, ?_⟩
    rw [ticksOf, Clockwork.ticksOf, hnext.2, ticks_eq_clockwork]

theorem settled_clockwork (hh : h.Settled) : h.clockwork.settled = h.clockwork := by
  rw [← settle_clockwork, settle_of_settled hh]

/-- Two runs that start alike and share their lifecycle have the same clockwork, whatever happens to
sessions and to the switch. -/
theorem run_clockwork_congr (hh : h.Settled) (heq : g.clockwork = h.clockwork)
    (hs : h.engine.phase ≠ .unstarted ∨ ∀ t s, (b.perform t s .start).result.toBool = starts)
    {cs cs' : List Command}
    (hcs : cs'.filter (·.IsLifecycle) = cs.filter (·.IsLifecycle)) :
    (g.run b cs').clockwork = (h.run b cs).clockwork ∧ g.ticksOf b cs' = h.ticksOf b cs := by
  have hphase : g.engine.phase = h.engine.phase := congrArg Clockwork.phase heq
  obtain ⟨hrun, hticks⟩ := run_clockwork hs cs
  obtain ⟨hrun', hticks'⟩ := run_clockwork (hphase ▸ hs) cs'
  have hk := settled_clockwork hh
  obtain ⟨hfilter, htimes⟩ := Clockwork.run_filter (r := b.requiresPurge) (s := starts) hk cs
  obtain ⟨hfilter', htimes'⟩ := Clockwork.run_filter (r := b.requiresPurge) (s := starts) hk cs'
  rw [hrun, hrun', hticks, hticks', heq, ← hfilter, ← hfilter', ← htimes, ← htimes', hcs]
  exact ⟨rfl, rfl⟩

end Host

end SessionStore
