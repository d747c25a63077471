import SessionStore.Proofs.Engine.Alive
import SessionStore.Proofs.Store.Memory

/-! # Bounded staleness

While an engine purges its memory periodically, the next tick lies ahead and at most one interval
after the last purge that ran. Therefore no entry is ever idle for as long as the age limit and one
interval together, whatever calls fail, as long as the purges do not.
-/

namespace SessionStore

/-- The commands after which a periodic purge goes on. -/
def Command.KeepsSweeping : Command → Prop
  | .stop | .shutDown | .drop => False
  | .setEnabled on => on = true
  | _ => True

/-- Purges are not among the calls that are refused. -/
def SparesPurges (refusal? : Call → Option SessionError) : Prop :=
  ∀ maxAge, refusal? (.purge maxAge) = none

namespace Host

/-- The host after commands during each of which some calls are refused. -/
def runRefusing {σ : Type} (b : Backend σ) (h : Host σ)
    (steps : List ((Call → Option SessionError) × Command)) : Host σ :=
  steps.foldl (fun h x => (h.step (b.refusing x.1) x.2).2) h

variable {p : Properties} {h h' : Host Memory} {start due last : Instant}
  {refusal? : Call → Option SessionError} {steps : List ((Call → Option SessionError) × Command)}

theorem runRefusing_clock (h : Host Memory)
    (steps : List ((Call → Option SessionError) × Command)) :
    (h.runRefusing Memory.backend steps).clock =
      (steps.map (·.2)).foldl Schedule.clockAfter h.clock := by
  induction steps generalizing h with
  | nil => rfl
  | cons x steps ih =>
    rw [List.map_cons, List.foldl_cons, ← step_clock (Memory.backend.refusing x.1) h x.2]
    exact ih _

theorem clock_le_runRefusing (h : Host Memory)
    (steps : List ((Call → Option SessionError) × Command)) :
    h.clock ≤ (h.runRefusing Memory.backend steps).clock := by
  rw [runRefusing_clock]
  exact Schedule.le_foldl_clockAfter h.clock _

/-- What a started engine keeps as long as it is enabled and left to run. It was started at `start`,
its periodic purge waits for `due`, and nothing was too old at `last`: the last tick, or the start
if there was none. What is older than the start may be of any age before the first tick. -/
structure Sweeping (p : Properties) (start due last : Instant) (h : Host Memory) : Prop where
  properties : h.engine.properties = p
  enabled : h.engine.enabled = true
  phase : h.engine.phase = .started
  shutdown : h.shutdown = false
  interval_pos : 0 < p.purgeInterval.nanos
  sweep : h.engine.sweep = .waiting due
  ahead : h.clock.roundDown < due
  due_le : due ≤ last.after p.purgeInterval
  start_le : start ≤ last
  last_le : last ≤ h.clock
  young : ∀ (id : String) (e : Entry), h.work.store[id]? = some e →
    last ≤ e.touched.after p.ageLimit ∨ e.touched < start ∧ due = start.after p.purgeInterval

/-! ## Ticks -/

/-- A tick of an enabled engine leaves what is young enough. -/
theorem tick_store (hr : SparesPurges refusal?) (hon : h.engine.enabled = true) :
    (h.tick (Memory.backend.refusing refusal?)).work.store =
      Memory.fresh h.work.store h.clock h.engine.properties.ageLimit := by
  rw [store_tick, if_pos hon]
  simp only [Backend.refusing, hr h.engine.properties.ageLimit]
  rfl

/-- After ticks, the last of them at `t`, nothing is older than the age limit was then. -/
theorem tickAt_young (hr : SparesPurges refusal?) (hon : h.engine.enabled = true)
    (times : List Instant) (t : Instant) {id : String} {e : Entry}
    (he : (h.tickAt (Memory.backend.refusing refusal?) (times ++ [t])).work.store[id]? = some e) :
    t ≤ e.touched.after h.engine.properties.ageLimit := by
  let b := Memory.backend.refusing refusal?
  have hlast : h.tickAt b (times ++ [t]) =
      ({ h.tickAt b times with clock := t } : Host Memory).tick b := by
    rw [tickAt, List.foldl_append]
    rfl
  have hengine := tickAt_engine b times h
  rw [hlast, tick_store hr (by rw [hengine]; exact hon), hengine, Memory.getElem?_fresh] at he
  exact Instant.elapsed_le_iff.mp (by simpa using (Option.filter_eq_some_iff.mp he).2)

/-! ## Steps -/

namespace Sweeping

/-- Entries that were reset at present are young. -/
theorem young_of_reset (s : Sweeping p start due last h) {e : Entry} (he : e.touched = h.clock) :
    last ≤ e.touched.after p.ageLimit := by
  have := s.last_le
  simp only [he, Instant.after]
  lia

theorem access {α : Type} {P : Call → Prop} (s : Sweeping p start due last h)
    {a : Access Memory α} (ha : a.Consists (Memory.backend.refusing refusal?) h.clock P) :
    Sweeping p start due last (h.access a).2 := by
  obtain ⟨made, hp, -⟩ := access_passes ha
  constructor
  case young =>
    intro id e he
    rw [hp.leads.store, Backend.replay_refusing] at he
    rcases Memory.entry_of_replay he with he | ⟨x, hx, hex⟩
    · exact s.young id e he
    · have hnow := hp.instants x (List.mem_filter.mp hx).1
      refine .inl (s.young_of_reset ?_)
      rw [hex]
      exact Int.le_antisymm hnow.2 hnow.1
  all_goals cases s; assumption

/-- Time passes without a tick. -/
theorem idle (s : Sweeping p start due last h) (he : h'.engine = h.engine)
    (hs : h'.shutdown = h.shutdown) (hw : h'.work.store = h.work.store) (hc : h.clock ≤ h'.clock)
    (ha : h'.clock.roundDown < due) : Sweeping p start due last h' where
  properties := he ▸ s.properties
  enabled := he ▸ s.enabled
  phase := he ▸ s.phase
  shutdown := hs ▸ s.shutdown
  interval_pos := s.interval_pos
  sweep := he ▸ s.sweep
  ahead := ha
  due_le := s.due_le
  start_le := s.start_le
  last_le := Int.le_trans s.last_le hc
  young := by
    rw [hw]
    exact s.young

/-- Time passes with ticks, the last of them at `t`. -/
theorem ticked (s : Sweeping p start due last h) (hr : SparesPurges refusal?) {g : Host Memory}
    {times : List Instant} {t next : Instant} (hg : g.engine = h.engine)
    (he : h'.engine = { h.engine with sweep := .waiting next }) (hs : h'.shutdown = h.shutdown)
    (hw : h'.work.store =
      (g.tickAt (Memory.backend.refusing refusal?) (times ++ [t])).work.store)
    (hd : h.clock ≤ t) (hc : t ≤ h'.clock) (ha : h'.clock.roundDown < next)
    (hn : next ≤ t.after p.purgeInterval) : Sweeping p start next t h' where
  properties := by rw [he, ← s.properties]
  enabled := by rw [he, ← s.enabled]
  phase := by rw [he, ← s.phase]
  shutdown := hs ▸ s.shutdown
  interval_pos := s.interval_pos
  sweep := by rw [he]
  ahead := ha
  due_le := hn
  start_le := Int.le_trans s.start_le (Int.le_trans s.last_le hd)
  last_le := hc
  young := by
    intro id e hid
    rw [hw] at hid
    have hyoung := tickAt_young hr (hg ▸ s.enabled) times t hid
    rw [hg, s.properties] at hyoung
    exact .inl hyoung

theorem sleep (s : Sweeping p start due last h) (hr : SparesPurges refusal?) (d : Duration) :
    ∃ due' last', Sweeping p start due' last'
      (h.sleep (Memory.backend.refusing refusal?) d) := by
  have hclock : h.clock ≤ h.clock.wake (h.clock.after d) :=
    Schedule.le_clockAfter h.clock (.sleep d)
  have hahead : (h.clock.wake (h.clock.after d)).roundDown < Schedule.later due p.purgeInterval
      (Schedule.dueCount due (h.clock.after d).roundUp p.purgeInterval) := by
    rw [Instant.roundDown_wake]
    exact Schedule.lt_later_dueCount s.interval_pos
  rw [Host.sleep, s.sweep, s.properties]
  dsimp only
  rw [Schedule.punctual]
  rcases hn : Schedule.dueCount due (h.clock.after d).roundUp p.purgeInterval with _ | n
  · rw [hn, Schedule.later_zero] at hahead
    refine ⟨due, last, s.idle ?_ rfl rfl hclock hahead⟩
    rw [Schedule.later_zero, ← s.sweep]
    rfl
  · have hfirst : h.clock.roundDown ≤ Schedule.later due p.purgeInterval n := by
      have := s.ahead
      simp only [Schedule.later, Instant.after]
      lia
    have hlast : Schedule.later due p.purgeInterval n ≤ (h.clock.after d).roundUp :=
      Schedule.later_le (by lia)
    rw [hn] at hahead
    rw [List.range_succ, List.map_append, List.map_append, List.map_singleton, List.map_singleton]
    refine ⟨_, _, s.ticked hr rfl ?_ ?_ rfl (Instant.le_wake hfirst) (Instant.wake_le_wake hlast)
      hahead ?_⟩
    · simp only [withSweep, tickAt_engine]
    · simp only [withSweep, tickAt_shutdown]
    · rw [Schedule.later_succ]
      exact Instant.after_mono (h.clock.le_wake_self _) p.purgeInterval

theorem jump (s : Sweeping p start due last h) (hr : SparesPurges refusal?) {d : Duration}
    (hlast : (h.clock.after d).after p.purgeInterval ≤ Instant.last) :
    ∃ due' last', Sweeping p start due' last'
      (h.jump (Memory.backend.refusing refusal?) d) := by
  have hclock := h.clock.le_after d
  have hahead : (h.clock.after d).roundDown <
      Schedule.afterOverdue due (h.clock.after d) p.purgeInterval :=
    Schedule.lt_afterOverdue s.interval_pos
  have hstrand : ¬Schedule.isStranded due (h.clock.after d) p.purgeInterval :=
    Schedule.not_isStranded hlast
  rw [Host.jump, s.sweep, s.properties]
  dsimp only
  rw [overdueSweep, if_neg hstrand]
  by_cases hd : (h.clock.after d).roundDown < due
  · rw [Schedule.afterOverdue_of_lt hd] at hahead ⊢
    rw [Schedule.overdueCount_of_lt hd]
    refine ⟨due, last, s.idle ?_ rfl rfl hclock hahead⟩
    rw [← s.sweep]
    rfl
  · have hd : due ≤ (h.clock.after d).roundDown := Int.not_lt.mp hd
    have hpos : 0 < Schedule.overdueCount due (h.clock.after d) p.purgeInterval :=
      Schedule.overdueCount_pos hd hstrand
    obtain ⟨n, hn⟩ := Nat.exists_eq_add_of_lt hpos
    rw [hn, Nat.zero_add, List.replicate_succ']
    have hnow : ∀ t ∈ List.replicate n (h.clock.after d) ++ [h.clock.after d],
        t = h.clock.after d := by
      rw [← List.replicate_succ']
      exact fun t ht => List.eq_of_mem_replicate ht
    have hstill := tickAt_clock (Memory.backend.refusing refusal?)
      (h := { h with clock := h.clock.after d }) hnow
    refine ⟨_, h.clock.after d, s.ticked hr (g := { h with clock := h.clock.after d }) rfl ?_ ?_
      rfl hclock ?_ ?_ (Schedule.afterOverdue_le hd)⟩
    · simp only [withSweep, tickAt_engine]
    · simp only [withSweep, tickAt_shutdown]
    · exact Int.le_of_eq hstill.symm
    · simp only [withSweep, hstill]
      exact hahead

theorem settle_eq (s : Sweeping p start due last h) : h.settle = h := by
  rw [settle, if_neg]
  simp [s.shutdown, s.phase]

theorem obey (s : Sweeping p start due last h) (hr : SparesPurges refusal?) {c : Command}
    (hc : c.KeepsSweeping)
    (hlast : (Schedule.clockAfter h.clock c).after p.purgeInterval ≤ Instant.last) :
    ∃ due' last', Sweeping p start due' last'
      (h.obey (Memory.backend.refusing refusal?) c).2 := by
  cases c with
  | getSession id => exact ⟨due, last, s.access (h.engine.getSession_consists _ h.clock id)⟩
  | saveSession id v => exact ⟨due, last, s.access (h.engine.saveSession_consists _ h.clock id v)⟩
  | sessionExists id => exact ⟨due, last, s.access (h.engine.sessionExists_consists _ h.clock id)⟩
  | deleteSession id => exact ⟨due, last, s.access (h.engine.deleteSession_consists _ h.clock id)⟩
  | touchSession id => exact ⟨due, last, s.access (h.engine.touchSession_consists _ h.clock id)⟩
  | purge => exact ⟨due, last, s.access (h.engine.purge_consists _ h.clock)⟩
  | setEnabled on =>
    obtain rfl : on = true := hc
    exact ⟨due, last, { s with enabled := rfl }⟩
  | start =>
    have hbegun : h.engine.phase ≠ .unstarted := by simp [s.phase]
    simp only [Host.obey, start_of_begun _ hbegun]
    exact ⟨due, last, s⟩
  | sleep d => exact s.sleep hr d
  | jump d => exact s.jump hr hlast
  | stop | shutDown | drop => exact hc.elim

theorem step (s : Sweeping p start due last h) (hr : SparesPurges refusal?) {c : Command}
    (hc : c.KeepsSweeping)
    (hlast : (h.step (Memory.backend.refusing refusal?) c).2.clock.after p.purgeInterval ≤
      Instant.last) :
    ∃ due' last', Sweeping p start due' last'
      (h.step (Memory.backend.refusing refusal?) c).2 := by
  rw [step_clock] at hlast
  obtain ⟨due', last', s'⟩ := s.obey hr hc hlast
  refine ⟨due', last', ?_⟩
  change Sweeping p start due' last' (h.obey (Memory.backend.refusing refusal?) c).2.settle
  rw [s'.settle_eq]
  exact s'

theorem run (s : Sweeping p start due last h)
    (hsteps : ∀ x ∈ steps, SparesPurges x.1 ∧ x.2.KeepsSweeping)
    (hlast : (h.runRefusing Memory.backend steps).clock.after p.purgeInterval ≤ Instant.last) :
    ∃ due' last', Sweeping p start due' last' (h.runRefusing Memory.backend steps) := by
  induction steps generalizing h due last with
  | nil => exact ⟨due, last, s⟩
  | cons x steps ih =>
    obtain ⟨hr, hc⟩ := hsteps x (by simp)
    let g := (h.step (Memory.backend.refusing x.1) x.2).2
    have hle : g.clock ≤ (g.runRefusing Memory.backend steps).clock :=
      clock_le_runRefusing g steps
    obtain ⟨due', last', s'⟩ := s.step hr hc (Int.le_trans (Instant.after_mono hle _) hlast)
    exact ih s' (fun y hy => hsteps y (by simp [hy])) hlast

end Sweeping

end Host

end SessionStore
