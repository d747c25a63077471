import SessionStore.Proofs.Engine.Alive
import SessionStore.Proofs.Engine.Loop

/-! # The timetable of the periodic purge

Between its start and its end the periodic purge ticks at instants that follow from the first of
them, the interval and the passing of time alone. A sleep stops at every tick, at the first whole
millisecond from when it is due; after a jump one tick stands for all that were missed.
-/

namespace SessionStore

variable {σ τ : Type} {b : Backend σ}

/-- The time that durations take together. -/
def Duration.total (ds : List Duration) : Duration := ⟨ds.foldr (fun d n => d.nanos + n) 0⟩

theorem Duration.isWhole_total {ds : List Duration} (h : ∀ d ∈ ds, d.IsWhole) :
    (Duration.total ds).IsWhole := by
  induction ds with
  | nil => rfl
  | cons d ds ih =>
    have hd := h d (by simp)
    have hrest := ih fun d' hd' => h d' (by simp [hd'])
    simp only [IsWhole, total, List.foldr_cons] at *
    lia

namespace Schedule

/-- The instants of the ticks that run during a sequence of commands. -/
def timetable (interval : Duration) : Instant → Sweep → List Command → List Instant
  | _, _, [] => []
  | now, s, c :: cs => ticks interval now s c ++
      timetable interval (clockAfter now c) (nextSweep interval now s c) cs

variable {interval : Duration} {due now : Instant} {s : Sweep} {c : Command}

theorem still (interval : Duration) (now : Instant) (s : Sweep) (hc : ¬c.TakesTime) :
    ticks interval now s c = [] ∧ nextSweep interval now s c = s ∧ clockAfter now c = now := by
  cases c with
  | sleep | jump => exact absurd trivial hc
  | _ => cases s <;> exact ⟨rfl, rfl, rfl⟩

/-- Commands that take no time do not matter. -/
theorem timetable_filter (cs : List Command) :
    timetable interval now s (cs.filter (·.TakesTime)) = timetable interval now s cs := by
  induction cs generalizing s now with
  | nil => rfl
  | cons c cs ih =>
    by_cases hc : c.TakesTime
    · rw [List.filter_cons_of_pos (by simpa using hc), timetable, timetable, ih]
    · obtain ⟨hticks, hsweep, hnow⟩ := still interval now s hc
      rw [List.filter_cons_of_neg (by simpa using hc), timetable, hticks, hsweep, hnow, ih]
      rfl

/-- A sleep in two parts has the ticks of both. -/
theorem sleep_add (due : Instant) (hnow : now.IsWhole) (hi : 0 < interval.nanos) {d : Duration}
    (hd : d.IsWhole) (d' : Duration) :
    ticks interval now (.waiting due) (.sleep ⟨d.nanos + d'.nanos⟩) =
        ticks interval now (.waiting due) (.sleep d) ++ ticks interval (now.after d)
          (nextSweep interval now (.waiting due) (.sleep d)) (.sleep d') ∧
      nextSweep interval now (.waiting due) (.sleep ⟨d.nanos + d'.nanos⟩) =
        nextSweep interval (now.after d) (nextSweep interval now (.waiting due) (.sleep d))
          (.sleep d') := by
  have hafter := Instant.isWhole_after hnow hd
  have hle : now.after d ≤ ((now.after d).after d').roundUp :=
    Int.le_trans ((now.after d).le_after d') (Instant.le_roundUp _)
  have hwake : (now.after d).wake = now.wake := by
    funext t
    rw [hnow.wake_eq, hafter.wake_eq]
  simp only [ticks, nextSweep]
  rw [← Instant.after_after, hafter.roundUp_eq, hwake, ← List.map_append]
  exact ⟨congrArg _ (punctual_append hi hle), by rw [dueCount_add hi hle, later_later]⟩

/-- Sleeps one after the other are one long sleep. -/
theorem timetable_sleeps (hnow : now.IsWhole) (hi : 0 < interval.nanos) (h : now < due)
    {ds : List Duration} (hds : ∀ d ∈ ds, d.IsWhole) :
    timetable interval now (.waiting due) (ds.map .sleep) =
      ticks interval now (.waiting due) (.sleep (.total ds)) := by
  induction ds generalizing due now with
  | nil =>
    have hzero : now.after (.total []) = now := by simp [Instant.after, Duration.total]
    rw [ticks, hzero, hnow.roundUp_eq, punctual_of_lt h]
    rfl
  | cons d ds ih =>
    have hd := hds d (by simp)
    have hnext : now.after d < later due interval (dueCount due (now.after d).roundUp interval) :=
      Int.lt_of_le_of_lt (Instant.le_roundUp _) (lt_later_dueCount hi)
    rw [List.map_cons, timetable, clockAfter_sleep hnow hd]
    have hrest := ih (Instant.isWhole_after hnow hd) hnext fun d' hd' => hds d' (by simp [hd'])
    simp only [nextSweep] at hrest ⊢
    rw [hrest]
    exact (sleep_add due hnow hi hd (.total ds)).1.symm

/-- By the end of sleeps alone, as many ticks have run as whole intervals have passed. -/
theorem length_timetable_sleeps (hnow : now.IsWhole) (hi : 0 < interval.nanos)
    {ds : List Duration} (hds : ∀ d ∈ ds, d.IsWhole) :
    (timetable interval now (.waiting (now.after interval)) (ds.map .sleep)).length =
      (Duration.total ds).nanos / interval.nanos := by
  have hahead : now < now.after interval := by
    simp only [Instant.after]
    lia
  have hend := Instant.isWhole_after hnow (Duration.isWhole_total hds)
  rw [timetable_sleeps hnow hi hahead hds, ticks, hend.roundUp_eq, List.length_map, punctual,
    List.length_map, List.length_range, dueCount_first hi]

end Schedule

namespace Host

variable {h : Host σ} {c : Command} {due : Instant}

/-! ## Keeping time -/

/-- The instants of the ticks during a run. -/
def ticksOf (b : Backend σ) : Host σ → List Command → List Instant
  | _, [] => []
  | h, c :: cs => h.ticks c ++ ticksOf b (h.step b c).2 cs

/-- Time calls the backend at every tick of one that is switched on. -/
theorem step_time_calls (b : Backend σ) (h : Host σ) (hc : c.TakesTime) :
    (h.step b c).2.work.calls =
      (if h.engine.enabled then
        (h.ticks c).reverse.map (·, .purge h.engine.properties.ageLimit) else []) ++
        h.work.calls := by
  change (h.obey b c).2.settle.work.calls = _
  rw [settle_calls, obey_time b h hc]
  exact foldl_swept_calls b h.engine h.work _

/-- The ticks of a run follow from the periodic purge, the interval and the passing of time. -/
theorem Lasting.ticksOf_eq (l : h.Lasting) {cs : List Command} (hcs : ∀ c ∈ cs, ¬c.EndsSweep) :
    h.ticksOf b cs = Schedule.timetable h.engine.properties.purgeInterval h.clock h.engine.sweep
      (cs.filter (·.TakesTime)) := by
  rw [Schedule.timetable_filter]
  induction cs generalizing h with
  | nil => rfl
  | cons c cs ih =>
    obtain ⟨l', hsweep⟩ := l.step (b := b) (hcs c (by simp))
    rw [ticksOf, ih l' fun c hc => hcs c (by simp [hc]), hsweep, step_clock, step_properties]
    rfl

/-- What the passing of time brings while the next tick is due at `due`. -/
structure KeepsTime (b : Backend σ) (h : Host σ) (due : Instant) : Prop where
  waiting : h.engine.sweep = .waiting due
  ahead : h.clock < h.clock.wake due
  sleep : ∀ d, Ticking b (h.clock.after d).roundUp (h.clock.wake (h.clock.after d)) Instant.wake h
    (h.ticks (.sleep d)) (h.step b (.sleep d)).2
  jump : ∀ d, Ticking b (h.clock.after d).roundDown (h.clock.after d) (fun _ _ => h.clock.after d)
    h (h.ticks (.jump d)) (h.step b (.jump d)).2
  calls : ∀ c : Command, c.TakesTime →
    (h.step b c).2.work.calls =
      (if h.engine.enabled then
        (h.ticks c).reverse.map (·, .purge h.engine.properties.ageLimit) else []) ++
        h.work.calls
  /-- In a sleep the ticks are due one interval apart, and so is the next one; each runs at the
  first whole millisecond from then on. -/
  even : h.clock.IsWhole → ∀ d : Duration, d.IsWhole →
    (h.step b (.sleep d)).2.clock = h.clock.after d ∧
      ∃ n, h.ticks (.sleep d) = (List.range n).map
          (fun k => (Schedule.later due h.engine.properties.purgeInterval k).roundUp) ∧
        (h.step b (.sleep d)).2.engine.sweep =
          .waiting (Schedule.later due h.engine.properties.purgeInterval n)
  sleep_add : h.clock.IsWhole → ∀ d d' : Duration, d.IsWhole →
    (h.step b (.sleep ⟨d.nanos + d'.nanos⟩)).2 =
        ((h.step b (.sleep d)).2.step b (.sleep d')).2 ∧
      h.ticks (.sleep ⟨d.nanos + d'.nanos⟩) =
        h.ticks (.sleep d) ++ (h.step b (.sleep d)).2.ticks (.sleep d')
  jump_once : Schedule.lateness < h.engine.properties.purgeInterval → h.clock.IsWhole →
    ∀ d : Duration, d.IsWhole →
      (h.clock.after d).after h.engine.properties.purgeInterval ≤ Instant.last →
      h.ticks (.jump d) = if due ≤ h.clock.after d then [h.clock.after d] else []

/-- Nothing is about to end the periodic purge, and it waits for an instant that lies ahead. -/
structure Scheduled (due : Instant) (h : Host σ) : Prop where
  lasting : h.Lasting
  waiting : h.engine.sweep = .waiting due
  interval_pos : 0 < h.engine.properties.purgeInterval.nanos
  ahead : h.clock.roundDown < due

namespace Scheduled

theorem sleep_add (s : Scheduled due h) (hh : h.clock.IsWhole) {d : Duration} (hd : d.IsWhole)
    (d' : Duration) : (h.step b (.sleep ⟨d.nanos + d'.nanos⟩)).2 =
        ((h.step b (.sleep d)).2.step b (.sleep d')).2 ∧
      h.ticks (.sleep ⟨d.nanos + d'.nanos⟩) =
        h.ticks (.sleep d) ++ (h.step b (.sleep d)).2.ticks (.sleep d') := by
  let g := (h.step b (.sleep d)).2
  obtain ⟨hticks, hsweep⟩ := Schedule.sleep_add due hh s.interval_pos hd d'
  rw [← s.waiting] at hticks hsweep
  have hclock : g.clock = h.clock.after d :=
    (step_clock b h _).trans (Schedule.clockAfter_sleep hh hd)
  have hnext : g.engine.sweep = h.nextSweep (.sleep d) := (s.lasting.step (c := .sleep d) id).2
  have happend : h.ticks (.sleep ⟨d.nanos + d'.nanos⟩) =
      h.ticks (.sleep d) ++ g.ticks (.sleep d') := by
    simp only [ticks, hclock, hnext, g, step_properties]
    exact hticks
  refine ⟨?_, happend⟩
  have hsleep (d : Duration) := s.lasting.step_time (b := b) (c := .sleep d) trivial
  have hsecond := (s.lasting.step (b := b) (c := .sleep d) id).1.step_time (b := b)
    (c := .sleep d') trivial
  have hend : Schedule.clockAfter h.clock (.sleep ⟨d.nanos + d'.nanos⟩) =
      Schedule.clockAfter g.clock (.sleep d') := by
    rw [hclock, Schedule.clockAfter, Schedule.clockAfter, Instant.after_after, hh.wake_eq,
      (Instant.isWhole_after hh hd).wake_eq]
  have hlast : h.nextSweep (.sleep ⟨d.nanos + d'.nanos⟩) = g.nextSweep (.sleep d') := by
    simp only [nextSweep, hclock, hnext, g, step_properties]
    exact hsweep
  rw [hsecond, hsleep, happend, hlast, hend, ← tickedTo_tickedTo, ← hsleep]

theorem jump_once (s : Scheduled due h) (hi : Schedule.lateness < h.engine.properties.purgeInterval)
    (hh : h.clock.IsWhole) {d : Duration} (hd : d.IsWhole)
    (hlast : (h.clock.after d).after h.engine.properties.purgeInterval ≤ Instant.last) :
    h.ticks (.jump d) = if due ≤ h.clock.after d then [h.clock.after d] else [] := by
  rw [ticks, s.waiting, Schedule.ticks,
    Schedule.overdueCount_eq hi (Schedule.not_isStranded hlast),
    (Instant.isWhole_after hh hd).roundDown_eq]
  split <;> rfl

theorem keepsTime (s : Scheduled due h) : KeepsTime b h due where
  waiting := s.waiting
  ahead := Instant.lt_wake_iff.mpr s.ahead
  sleep d := by
    rw [s.lasting.step_eq id]
    exact ticking_sleep s.waiting s.interval_pos d
  jump d := by
    rw [s.lasting.step_eq id]
    exact ticking_jump s.waiting s.interval_pos d
  calls _ hc := step_time_calls b h hc
  even hh d hd := by
    refine ⟨(step_clock b h _).trans (Schedule.clockAfter_sleep hh hd),
      Schedule.dueCount due (h.clock.after d).roundUp h.engine.properties.purgeInterval, ?_, ?_⟩
    · rw [ticks, s.waiting, Schedule.ticks, Schedule.punctual, List.map_map]
      exact List.map_congr_left fun k _ => hh.wake_eq _
    · rw [(s.lasting.step (b := b) (c := .sleep d) id).2, nextSweep, s.waiting]
      rfl
  sleep_add hh _ d' hd := s.sleep_add hh hd d'
  jump_once hi hh _ hd hlast := s.jump_once hi hh hd hlast

end Scheduled

/-- After a start at an instant from which the clock reaches the first tick, that is the next
one. -/
theorem waiting_of_start (hr : b.requiresPurge = true) (hd : h.shutdown = false)
    (hlast : h.clock.after h.engine.properties.purgeInterval ≤ Instant.last)
    (hok : (h.step b .start).1 = .ok ()) : (h.step b .start).2.engine.sweep =
      .waiting (h.clock.after h.engine.properties.purgeInterval) := by
  rw [(started_of_start hr hd hok).2.2]
  exact if_pos hlast

/-- While the clock gets an interval further, there is a next tick. -/
theorem scheduled_of_start (hr : b.requiresPurge = true) (hd : h.shutdown = false)
    (hf : h.engine.properties.fault? = none) (hok : (h.step b .start).1 = .ok ())
    {cs : List Command} (hcs : ∀ c ∈ cs, ¬c.EndsSweep)
    (hlast : ((h.step b .start).2.run b cs).clock.after h.engine.properties.purgeInterval ≤
      Instant.last) :
    ∃ due, Scheduled due ((h.step b .start).2.run b cs) := by
  obtain ⟨l, hclock, he⟩ := started_of_start hr hd hok
  have hi := Properties.purgeInterval_pos hf
  have hstart : h.clock.after h.engine.properties.purgeInterval ≤ Instant.last :=
    Int.le_trans (Instant.after_mono (hclock ▸ clock_le_run b _ cs) _) hlast
  have hwaiting := waiting_of_start hr hd hstart hok
  have hi' : 0 < (h.step b .start).2.engine.properties.purgeInterval.nanos := by
    rw [step_properties]
    exact hi
  have hahead : (h.step b .start).2.Ahead := fun due hdue => by
    rw [hwaiting] at hdue
    rw [hclock, ← Sweep.waiting.inj hdue]
    have := h.clock.roundDown_le
    simp only [Instant.after]
    lia
  have halive : ((h.step b .start).2.run b cs).engine.purging = true := by
    refine (l.run_purging hcs).mpr ⟨purging_iff.mpr ⟨_, hwaiting⟩, fun past c hc => ?_⟩
    exact not_strands_of_prefix (by rw [run_properties, step_properties]) hlast hc
  obtain ⟨due, hdue⟩ := purging_iff.mp halive
  refine ⟨due, l.run hcs, hdue, ?_, (run_passes b hahead hi' cs).1 due hdue⟩
  rw [run_properties]
  exact hi'

/-- The periodic purge keeps its times: the first tick is due one interval after the start, sleeps
alone make one tick for every whole interval, at every later moment time brings the ticks that are
due, and nothing but the start, the interval and the passing of time decides when they run. Timers
count whole milliseconds, so that a tick runs at the first of them from when it is due. -/
theorem ticks_on_time (hr : b.requiresPurge = true) (hd : h.shutdown = false)
    (hf : h.engine.properties.fault? = none)
    (hlast : h.clock.after h.engine.properties.purgeInterval ≤ Instant.last)
    (hok : (h.step b .start).1 = .ok ()) :
    let started := (h.step b .start).2
    started.engine.sweep = .waiting (h.clock.after h.engine.properties.purgeInterval) ∧
    (h.clock.IsWhole → ∀ ds : List Duration, (∀ d ∈ ds, d.IsWhole) →
      (started.ticksOf b (ds.map .sleep)).length =
        (Duration.total ds).nanos / h.engine.properties.purgeInterval.nanos) ∧
    (∀ cs : List Command, (∀ c ∈ cs, ¬c.EndsSweep) →
      (h.clock.IsWhole → (∀ c ∈ cs, c.IsWhole) → (started.run b cs).clock.IsWhole) ∧
      ((started.run b cs).clock.after h.engine.properties.purgeInterval ≤ Instant.last →
        ∃ due, KeepsTime b (started.run b cs) due)) ∧
    ∀ (τ : Type) (b' : Backend τ) (h' : Host τ), b'.requiresPurge = true → h'.shutdown = false →
      h'.engine.properties.purgeInterval = h.engine.properties.purgeInterval →
      h'.clock = h.clock → (h'.step b' .start).1 = .ok () →
      ∀ cs cs' : List Command, (∀ c ∈ cs, ¬c.EndsSweep) → (∀ c ∈ cs', ¬c.EndsSweep) →
        cs.filter (·.TakesTime) = cs'.filter (·.TakesTime) →
        started.ticksOf b cs = (h'.step b' .start).2.ticksOf b' cs' := by
  intro started
  have hi := Properties.purgeInterval_pos hf
  obtain ⟨l, hclock, -⟩ := started_of_start hr hd hok
  have hwaiting := waiting_of_start hr hd hlast hok
  refine ⟨hwaiting, ?_, ?_, ?_⟩
  · intro hwhole ds hds
    have hsleeps : ∀ c ∈ ds.map Command.sleep, ¬c.EndsSweep := by
      intro c hc
      obtain ⟨d, -, rfl⟩ := List.mem_map.mp hc
      exact id
    rw [l.ticksOf_eq hsleeps, Schedule.timetable_filter, hclock, hwaiting, step_properties]
    exact Schedule.length_timetable_sleeps hwhole hi hds
  · intro cs hcs
    refine ⟨fun hwhole hmoves => ?_, fun hend => ?_⟩
    · rw [run_clock, hclock]
      exact Schedule.foldl_clockAfter_isWhole hwhole hmoves
    · obtain ⟨due, s⟩ := scheduled_of_start hr hd hf hok hcs hend
      exact ⟨due, s.keepsTime⟩
  · intro τ b' h' hr' hd' hinterval hnow hok' cs cs' hcs hcs' hmoves
    obtain ⟨l', hclock', -⟩ := started_of_start hr' hd' hok'
    have hwaiting' := waiting_of_start hr' hd' (by rwa [hinterval, hnow]) hok'
    rw [l.ticksOf_eq hcs, l'.ticksOf_eq hcs', hmoves, hclock, hclock', hwaiting, hwaiting',
      step_properties, step_properties, hinterval, hnow]

/-- With the standard properties a sleep of five minutes has two ticks, a jump over five more
intervals has one, and switching the engine off in between changes no instant. -/
theorem ticks_on_time_standard :
    let h := fresh (Engine.ofProperties .standard) ∅ 0
    let started := (h.step Memory.backend .start).2
    let cs : List Command := [.sleep (.ofSeconds 300)]
    (h.step Memory.backend .start).1 = .ok () ∧
      (started.ticksOf Memory.backend cs).length = 2 ∧
      started.ticksOf Memory.backend cs = [120000000000, 240000000000] ∧
      (∃ due, KeepsTime Memory.backend (started.run Memory.backend cs) due ∧
        (started.run Memory.backend cs).ticks (.jump (.ofSeconds 600)) = [900000000000]) ∧
      started.ticksOf Memory.backend cs =
        started.ticksOf Memory.backend [.setEnabled false, .sleep (.ofSeconds 300), .purge] := by
  intro h started cs
  have hlast : h.clock.after Properties.standard.purgeInterval ≤ Instant.last := by decide
  have hf : Properties.standard.fault? = none := rfl
  have hok : (h.step Memory.backend .start).1 = .ok () := rfl
  have hcs : ∀ c ∈ cs, ¬c.EndsSweep := by simp [cs, Command.EndsSweep]
  obtain ⟨-, hcount, hkeeps, hsame⟩ := ticks_on_time rfl rfl hf hlast hok
  have hsleeps : ∀ d ∈ [Duration.ofSeconds 300], d.IsWhole := by decide +kernel
  obtain ⟨due, hdue⟩ := (hkeeps cs hcs).2 (by decide +kernel)
  refine ⟨hok, (hcount rfl _ hsleeps).trans (by decide +kernel), by decide +kernel,
    ⟨due, hdue, by decide +kernel⟩, ?_⟩
  exact hsame Memory Memory.backend h rfl rfl rfl rfl hok cs _ hcs (by simp [Command.EndsSweep]) rfl

/-- A tick that is due after a millisecond and a half runs at two milliseconds, and takes a session
that was not too old when it was due. Sleeps of a fraction of a millisecond take longer than they
are meant to and come to more together than one long sleep, and a jump to a point between two
milliseconds meets no tick that is due between the same two. -/
theorem tick_after_due :
    let p := { Properties.standard with ageLimit := ⟨1700000⟩, purgeInterval := ⟨1500000⟩ }
    let h := fresh (Engine.ofProperties p) ∅ 0
    let started := (h.step Memory.backend .start).2
    let cs : List Command := [.saveSession "k" (.empty "k"), .sleep (.ofMillis 2)]
    let slow := fresh (Engine.ofProperties { p with purgeInterval := ⟨6500000⟩ }) ∅ 0
    Engine.make p = .ok (.ofProperties p) ∧ (h.step Memory.backend .start).1 = .ok () ∧
      started.engine.sweep = .waiting 1500000 ∧
      started.ticksOf Memory.backend cs = [2000000] ∧
      (started.run Memory.backend cs).work.store["k"]? = none ∧
      started.ticksOf Memory.backend [.sleep ⟨100000⟩, .sleep ⟨100000⟩] = [2000000] ∧
      started.ticksOf Memory.backend [.sleep ⟨200000⟩] = [] ∧
      (slow.step Memory.backend .start).2.engine.sweep = .waiting 6500000 ∧
      (slow.step Memory.backend .start).2.ticks (.jump ⟨6900000⟩) = [] := by
  intro p h started cs slow
  refine ⟨Engine.make_eq_ok_iff.mpr ⟨by decide, rfl⟩, rfl, ?_⟩
  decide +kernel

end Host

end SessionStore
