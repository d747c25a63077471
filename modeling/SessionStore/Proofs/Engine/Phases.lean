import SessionStore.Proofs.Engine.Runs

/-! # Phases and the periodic purge

A start and a stop move the phase of an engine, and nothing else does. A periodic purge comes into
being in the first start alone; every other command leaves it, puts it off or ends it. Once it is
not alive any more, time passes without a tick.
-/

namespace SessionStore

variable {σ : Type} {b : Backend σ}

/-- How far an engine has come. -/
def Phase.rank : Phase → Nat
  | .unstarted => 0
  | .started => 1
  | .stopped => 2

/-- What may become of a periodic purge when none begins: it stays, is put off, ends, or breaks. -/
inductive Sweep.Continues : Sweep → Sweep → Prop
  | same (s : Sweep) : Continues s s
  | ended (s : Sweep) : Continues s .absent
  | later (due next : Instant) : Continues (.waiting due) (.waiting next)
  | broken (due : Instant) : Continues (.waiting due) .broken

theorem Sweep.Continues.trans {r s t : Sweep} (h : r.Continues s) (h' : s.Continues t) :
    r.Continues t := by
  cases h' with
  | same => exact h
  | ended => exact .ended r
  | later due next =>
    cases h with
    | same => exact .later due next
    | later first due => exact .later first next
  | broken due =>
    cases h with
    | same => exact .broken due
    | later first due => exact .broken first

theorem Sweep.Continues.eq_absent {s : Sweep} (h : Sweep.absent.Continues s) : s = .absent := by
  cases h <;> rfl

/-- A command for which the engine must still be there. -/
def Command.NeedsEngine : Command → Prop
  | .sleep _ | .jump _ | .shutDown => False
  | _ => True

/-- The commands during which time passes. -/
def Command.TakesTime : Command → Prop
  | .sleep _ | .jump _ => True
  | _ => False

instance : DecidablePred Command.TakesTime
  | .sleep _ | .jump _ => isTrue trivial
  | .getSession _ | .saveSession _ _ | .sessionExists _ | .deleteSession _ | .touchSession _
  | .purge | .setEnabled _ | .start | .stop | .shutDown | .drop => isFalse id

/-- The commands that end the periodic purge. -/
def Command.EndsSweep : Command → Prop
  | .stop | .shutDown | .drop => True
  | _ => False

namespace Host

variable {h h' : Host σ} {c : Command}

theorem purging_iff : h.engine.purging = true ↔ ∃ due, h.engine.sweep = .waiting due := by
  unfold Engine.purging
  cases h.engine.sweep <;> simp

theorem not_purging_of_absent (hs : h.engine.sweep = .absent) : h.engine.purging = false := by
  simp [Engine.purging, hs]

/-- The phase after a command. -/
def nextPhase (b : Backend σ) (h : Host σ) : Command → Phase
  | .start =>
    if h.engine.phase = .unstarted then
      match (b.perform h.clock h.work.store .start).result with
      | .ok _ => .started
      | .error _ => .stopped
    else h.engine.phase
  | .stop => if h.engine.phase = .unstarted then .unstarted else .stopped
  | _ => h.engine.phase

theorem rank_le_nextPhase (b : Backend σ) (h : Host σ) (c : Command) :
    h.engine.phase.rank ≤ (h.nextPhase b c).rank := by
  unfold nextPhase
  split
  · split
    case isTrue hu => simp [hu, Phase.rank]
    case isFalse => exact Nat.le_refl _
  · split
    case isTrue hu => simp [hu]
    case isFalse => cases h.engine.phase <;> simp [Phase.rank]
  · exact Nat.le_refl _

/-! ## Ticks -/

/-- What a tick at `t` leaves behind. -/
def swept (b : Backend σ) (e : Engine) (w : Work σ) (t : Instant) : Work σ :=
  match (e.purge b t).perform w with
  | (.ok removed, w) => if removed = 0 then w else w.note (.swept removed)
  | (.error .disabled, w) => w.note .sweepSkipped
  | (.error why, w) => w.note (.sweepFailed why)

theorem tick_eq (b : Backend σ) (h : Host σ) :
    h.tick b = { h with work := swept b h.engine h.work h.clock } := by
  rw [tick, swept, access]
  rcases (h.engine.purge b h.clock).perform h.work with ⟨why | removed, w⟩
  · cases why <;> rfl
  · dsimp only
    split <;> rfl

/-- A tick calls the backend exactly if the engine is enabled. -/
theorem swept_calls (b : Backend σ) (e : Engine) (w : Work σ) (t : Instant) :
    (swept b e w t).calls =
      if e.enabled then (t, .purge e.properties.ageLimit) :: w.calls else w.calls := by
  have hpurge : ((e.purge b t).perform w).2.calls =
      if e.enabled then (t, .purge e.properties.ageLimit) :: w.calls else w.calls := by
    rcases e with ⟨p, encoder, _ | _, phase, sweep⟩ <;> rfl
  rw [← hpurge, swept]
  rcases (e.purge b t).perform w with ⟨why | removed, v⟩
  · cases why <;> rfl
  · dsimp only
    split <;> rfl

theorem foldl_swept_calls (b : Backend σ) (e : Engine) (w : Work σ) (times : List Instant) :
    (times.foldl (swept b e) w).calls =
      (if e.enabled then times.reverse.map (·, .purge e.properties.ageLimit) else []) ++
        w.calls := by
  induction times generalizing w with
  | nil => simp
  | cons t times ih =>
    rw [List.foldl_cons, ih, swept_calls]
    split <;> simp

/-- The host at the instant `t`, after ticks at `times` and with this periodic purge. -/
def tickedTo (b : Backend σ) (h : Host σ) (times : List Instant) (s : Sweep) (t : Instant) :
    Host σ :=
  ⟨{ h.engine with sweep := s }, times.foldl (swept b h.engine) h.work, t, h.shutdown⟩

theorem tickedTo_nil {s : Sweep} (hs : h.engine.sweep = s) (t : Instant) :
    h.tickedTo b [] s t = { h with clock := t } := by
  rw [tickedTo, ← hs]
  rfl

theorem tick_tickedTo (b : Backend σ) (h : Host σ) (now : Instant) (times : List Instant)
    (s : Sweep) (t : Instant) :
    ({ h with clock := now }.tick b).tickedTo b times s t = h.tickedTo b (now :: times) s t := by
  rw [tick_eq]
  rfl

theorem tickedTo_tickedTo (b : Backend σ) (h : Host σ) (times times' : List Instant)
    (s s' : Sweep) (t t' : Instant) :
    (h.tickedTo b times s t).tickedTo b times' s' t' = h.tickedTo b (times ++ times') s' t' := by
  simp only [tickedTo, List.foldl_append]
  rfl

theorem tickAt_tickedTo (b : Backend σ) (h : Host σ) (times : List Instant) (s : Sweep)
    (t : Instant) :
    { (h.tickAt b times).withSweep s with clock := t } = h.tickedTo b times s t := by
  induction times generalizing h with
  | nil => rfl
  | cons now times ih => exact (ih _).trans (tick_tickedTo b h now times s t)

/-- The instants of the ticks during a command. -/
def ticks (h : Host σ) (c : Command) : List Instant :=
  Schedule.ticks h.engine.properties.purgeInterval h.clock h.engine.sweep c

/-- The periodic purge after the time that a command takes. -/
def nextSweep (h : Host σ) (c : Command) : Sweep :=
  Schedule.nextSweep h.engine.properties.purgeInterval h.clock h.engine.sweep c

theorem sleep_eq (b : Backend σ) (h : Host σ) (d : Duration) :
    h.sleep b d = h.tickedTo b (h.ticks (.sleep d)) (h.nextSweep (.sleep d))
      (Schedule.clockAfter h.clock (.sleep d)) := by
  rw [← tickAt_tickedTo, sleep, ticks, nextSweep]
  rcases h with ⟨⟨p, encoder, on, phase, _ | due | _⟩, w, t, down⟩ <;> rfl

/-- Ticks that all run at one instant leave the clock there. -/
theorem tickAt_at (b : Backend σ) (h : Host σ) (n : Nat) (s : Sweep) (t : Instant) :
    ({ h with clock := t }.tickAt b (List.replicate n t)).withSweep s =
      h.tickedTo b (List.replicate n t) s t := by
  have hclock : ({ h with clock := t }.tickAt b (List.replicate n t)).clock = t :=
    tickAt_clock b fun u hu => List.eq_of_mem_replicate hu
  refine Eq.trans ?_ (tickAt_tickedTo b { h with clock := t } (List.replicate n t) s t)
  generalize { h with clock := t }.tickAt b (List.replicate n t) = g at hclock ⊢
  subst hclock
  rfl

theorem jump_eq (b : Backend σ) (h : Host σ) (d : Duration) :
    h.jump b d = h.tickedTo b (h.ticks (.jump d)) (h.nextSweep (.jump d))
      (Schedule.clockAfter h.clock (.jump d)) := by
  rw [jump, ticks, nextSweep]
  rcases hs : h.engine.sweep with _ | due | _
  · exact (tickedTo_nil hs _).symm
  · exact tickAt_at b h _ _ _
  · exact (tickedTo_nil hs _).symm

/-- What time does to a host. -/
theorem obey_time (b : Backend σ) (h : Host σ) (hc : c.TakesTime) :
    (h.obey b c).2 = h.tickedTo b (h.ticks c) (h.nextSweep c)
      (Schedule.clockAfter h.clock c) := by
  cases c with
  | sleep d => exact sleep_eq b h d
  | jump d => exact jump_eq b h d
  | _ => exact hc.elim

/-- A periodic purge that is not alive stays as it is. -/
theorem time_of_idle (hp : h.engine.purging = false) (c : Command) :
    h.ticks c = [] ∧ h.nextSweep c = h.engine.sweep := by
  unfold ticks nextSweep
  unfold Engine.purging at hp
  cases hs : h.engine.sweep with
  | absent | broken => exact ⟨rfl, rfl⟩
  | waiting due => simp [hs] at hp

/-- Where no periodic purge is alive, time does nothing but pass. -/
theorem obey_time_of_idle (b : Backend σ) (hp : h.engine.purging = false) (hc : c.TakesTime) :
    (h.obey b c).2 = { h with clock := Schedule.clockAfter h.clock c } := by
  obtain ⟨hticks, hsweep⟩ := time_of_idle hp c
  rw [obey_time b h hc, hticks, hsweep]
  exact tickedTo_nil rfl _

/-- Time puts off a periodic purge that is alive, or breaks it. -/
theorem continues_nextSweep (h : Host σ) (c : Command) :
    h.engine.sweep.Continues (h.nextSweep c) := by
  unfold nextSweep
  cases h.engine.sweep with
  | absent | broken => exact .same _
  | waiting due =>
    cases c with
    | sleep => exact .later due _
    | jump =>
      simp only [Schedule.nextSweep, overdueSweep]
      split
      · exact .broken due
      · exact .later due _
    | _ => exact .same _

/-! ## Settling -/

/-- Where a shutdown was announced or the engine is stopped, no periodic purge is alive. -/
def Settled (h : Host σ) : Prop :=
  h.shutdown = true ∨ h.engine.phase = .stopped → h.engine.purging = false

theorem endSweep_of_idle (hp : h.engine.purging = false) : h.endSweep = h := by
  simp [endSweep, hp]

theorem endSweep_idle (h : Host σ) : h.endSweep.engine.purging = false := by
  rw [endSweep]
  split
  · rfl
  · simp_all

theorem endSweep_clock (h : Host σ) : h.endSweep.clock = h.clock := by
  rw [endSweep]
  split <;> rfl

theorem endSweep_shutdown (h : Host σ) : h.endSweep.shutdown = h.shutdown := by
  rw [endSweep]
  split <;> rfl

/-- The end of a periodic purge leaves the rest of the engine as it is. -/
theorem endSweep_engine (h : Host σ) : ∃ s, h.engine.sweep.Continues s ∧
    h.endSweep.engine = { h.engine with sweep := s } := by
  rw [endSweep]
  split
  · exact ⟨.absent, .ended _, rfl⟩
  · exact ⟨h.engine.sweep, .same _, rfl⟩

theorem settle_of_settled (hs : h.Settled) : h.settle = h := by
  rw [settle]
  split
  case isTrue hend => exact endSweep_of_idle (hs hend)
  case isFalse => rfl

theorem settle_of_idle (hp : h.engine.purging = false) : h.settle = h :=
  settle_of_settled fun _ => hp

theorem settle_engine (h : Host σ) : ∃ s, h.engine.sweep.Continues s ∧
    h.settle.engine = { h.engine with sweep := s } := by
  rw [settle]
  split
  · exact endSweep_engine h
  · exact ⟨h.engine.sweep, .same _, rfl⟩

theorem settle_phase (h : Host σ) : h.settle.engine.phase = h.engine.phase := by
  obtain ⟨s, -, he⟩ := settle_engine h
  rw [he]

theorem settle_clock (h : Host σ) : h.settle.clock = h.clock := by
  rw [settle]
  split
  · exact endSweep_clock h
  · rfl

theorem settle_shutdown (h : Host σ) : h.settle.shutdown = h.shutdown := by
  rw [settle]
  split
  · exact endSweep_shutdown h
  · rfl

theorem settle_settled (h : Host σ) : h.settle.Settled := by
  intro hend
  rw [settle_shutdown, settle_phase] at hend
  rw [settle, if_pos hend]
  exact endSweep_idle h

/-! ## Commands -/

/-- Whether the engine is switched on after a command. -/
def nextEnabled (h : Host σ) : Command → Bool
  | .setEnabled on => on
  | _ => h.engine.enabled

/-- What a command makes of a host, its store and its periodic purge left aside. -/
structure Follows (b : Backend σ) (h : Host σ) (c : Command) (h' : Host σ) : Prop where
  engine : ∃ s, h'.engine =
    { h.engine with enabled := h.nextEnabled c, phase := h.nextPhase b c, sweep := s }
  clock : h'.clock = Schedule.clockAfter h.clock c
  shutdown : h'.shutdown = true ↔ h.shutdown = true ∨ c = .shutDown

namespace Follows

theorem phase (f : Follows b h c h') : h'.engine.phase = h.nextPhase b c := by
  obtain ⟨s, he⟩ := f.engine
  rw [he]

theorem enabled (f : Follows b h c h') : h'.engine.enabled = h.nextEnabled c := by
  obtain ⟨s, he⟩ := f.engine
  rw [he]

theorem properties (f : Follows b h c h') : h'.engine.properties = h.engine.properties := by
  obtain ⟨s, he⟩ := f.engine
  rw [he]

theorem settle (f : Follows b h c h') : Follows b h c h'.settle where
  engine := by
    obtain ⟨s, -, hsettle⟩ := settle_engine h'
    obtain ⟨s', he⟩ := f.engine
    exact ⟨s, by rw [hsettle, he]⟩
  clock := (settle_clock h').trans f.clock
  shutdown := by rw [settle_shutdown, f.shutdown]

end Follows

theorem obey_follows (b : Backend σ) (h : Host σ) (c : Command) : Follows b h c (h.obey b c).2 := by
  cases c with
  | getSession | saveSession | sessionExists | deleteSession | touchSession | purge =>
    exact ⟨⟨h.engine.sweep, rfl⟩, rfl, by simp [obey, access]⟩
  | setEnabled | shutDown => exact ⟨⟨h.engine.sweep, rfl⟩, rfl, by simp [obey]⟩
  | start =>
    by_cases hu : h.engine.phase = .unstarted
    · obtain ⟨-, he, hclock, hs, -⟩ := start_of_unstarted b hu
      refine ⟨⟨(h.start b).2.engine.sweep, ?_⟩, hclock, by simp [obey, hs]⟩
      rw [nextPhase, if_pos hu, obey, he]
      rfl
    · rw [obey, start_of_begun b hu]
      refine ⟨⟨h.engine.sweep, ?_⟩, rfl, by simp⟩
      rw [nextPhase, if_neg hu]
      rfl
  | stop =>
    by_cases hu : h.engine.phase = .unstarted
    · rw [obey, stop_of_unstarted b hu]
      refine ⟨⟨h.engine.sweep, ?_⟩, rfl, by simp⟩
      rw [nextPhase, if_pos hu, ← hu]
      rfl
    · obtain ⟨-, ⟨s, he, -⟩, hclock, hs, -⟩ := stop_of_begun b hu
      refine ⟨⟨s, ?_⟩, hclock, by simp [obey, hs]⟩
      rw [nextPhase, if_neg hu]
      exact he
  | drop =>
    obtain ⟨s, -, he⟩ := endSweep_engine h
    refine ⟨⟨s, he⟩, endSweep_clock h, ?_⟩
    rw [obey, endSweep_shutdown]
    simp
  | sleep | jump =>
    simp only [obey, sleep_eq, jump_eq]
    exact ⟨⟨_, rfl⟩, rfl, by simp [tickedTo]⟩

/-- While the clock stands still, no command but the first start does more to the periodic purge
than end it. -/
theorem obey_sweep (b : Backend σ) (hc : c = .start → h.engine.phase ≠ .unstarted)
    (htime : ¬c.TakesTime) : (h.obey b c).2.engine.sweep = h.engine.sweep ∨
      (h.obey b c).2.engine.sweep = .absent := by
  cases c with
  | getSession | saveSession | sessionExists | deleteSession | touchSession | purge =>
    exact .inl (congrArg Engine.sweep (access_keeps h _).engine)
  | setEnabled | shutDown => exact .inl rfl
  | start =>
    left
    simp only [obey, start_of_begun b (hc rfl)]
  | stop =>
    by_cases hu : h.engine.phase = .unstarted
    · left
      simp only [obey, stop_of_unstarted b hu]
    · obtain ⟨-, ⟨s, he, hs⟩, -⟩ := stop_of_begun b hu
      simpa only [obey, he] using hs
  | drop =>
    rw [obey, endSweep]
    split
    · exact .inr rfl
    · exact .inl rfl
  | sleep | jump => exact absurd trivial htime

/-- No command but the first start begins a periodic purge. -/
theorem obey_continues (b : Backend σ) (hc : c = .start → h.engine.phase ≠ .unstarted) :
    h.engine.sweep.Continues (h.obey b c).2.engine.sweep := by
  by_cases htime : c.TakesTime
  · rw [obey_time b h htime]
    exact continues_nextSweep h c
  · rcases obey_sweep b hc htime with hs | hs <;> rw [hs]
    · exact .same _
    · exact .ended _

/-! ## Starts of the backend -/

/-- How often the backend has been started. -/
def starts (h : Host σ) : Nat := h.work.calls.countP fun x => x.2 = .start

theorem Passes.starts_eq {made : List (Instant × Call)} (p : Passes b made h h')
    (hmade : ∀ x ∈ made, x.2 ≠ .start) : h'.starts = h.starts := by
  have hnone : made.countP (fun x => x.2 = .start) = 0 := by
    rw [List.countP_eq_zero]
    simpa using hmade
  rw [starts, p.leads.calls, List.countP_append, hnone, Nat.zero_add, starts]

theorem tickedTo_starts (b : Backend σ) (h : Host σ) (times : List Instant) (s : Sweep)
    (t : Instant) : (h.tickedTo b times s t).starts = h.starts := by
  have hnone : ((times.reverse.map (·, Call.purge h.engine.properties.ageLimit)).countP
      fun x => x.2 = .start) = 0 := by
    rw [List.countP_eq_zero]
    simp
  rw [starts, tickedTo, foldl_swept_calls, List.countP_append]
  split
  · rw [hnone, Nat.zero_add, starts]
  · rw [List.countP_nil, Nat.zero_add, starts]

/-- Only a start of the engine starts the backend. -/
theorem obey_starts (b : Backend σ) (hc : c ≠ .start) : (h.obey b c).2.starts = h.starts := by
  have haccess : ∀ {α : Type} {a : Access σ α},
      a.Consists b h.clock (c.Permits h.engine.properties.ageLimit) →
        (h.access a).2.starts = h.starts := by
    intro α a ha
    obtain ⟨made, hp, hmade⟩ := access_passes ha
    refine hp.starts_eq ?_
    intro x hx hstart
    have hown := hmade x hx
    rw [hstart] at hown
    exact hc (Command.permits_start hown)
  cases c with
  | getSession id => exact haccess (h.engine.getSession_consists b h.clock id)
  | saveSession id s => exact haccess (h.engine.saveSession_consists b h.clock id s)
  | sessionExists id => exact haccess (h.engine.sessionExists_consists b h.clock id)
  | deleteSession id => exact haccess (h.engine.deleteSession_consists b h.clock id)
  | touchSession id => exact haccess (h.engine.touchSession_consists b h.clock id)
  | purge => exact haccess (h.engine.purge_consists b h.clock)
  | setEnabled | shutDown => rfl
  | start => exact absurd rfl hc
  | stop =>
    obtain ⟨made, hp, hmade⟩ := stop_passes b h
    refine hp.starts_eq ?_
    intro x hx
    simp [hmade x hx]
  | drop => exact (endSweep_passes b h).starts_eq (by simp)
  | sleep | jump =>
    simp only [obey, sleep_eq, jump_eq]
    exact tickedTo_starts b h _ _ _

/-- A start that is not refused starts the backend. -/
theorem obey_start_starts (b : Backend σ) (hu : h.engine.phase = .unstarted) :
    (h.obey b .start).2.starts = h.starts + 1 := by
  obtain ⟨-, -, -, -, hw⟩ := start_of_unstarted b hu
  rw [starts, obey, hw.calls, List.singleton_append, List.countP_cons_of_pos (by simp), starts]

theorem settle_calls (h : Host σ) : h.settle.work.calls = h.work.calls := by
  rw [settle]
  split
  · rw [endSweep]
    split <;> rfl
  · rfl

theorem settle_starts (h : Host σ) : h.settle.starts = h.starts := by
  rw [starts, settle_calls, starts]

/-! ## Steps and runs -/

theorem step_follows (b : Backend σ) (h : Host σ) (c : Command) : Follows b h c (h.step b c).2 :=
  (obey_follows b h c).settle

theorem step_phase (b : Backend σ) (h : Host σ) (c : Command) :
    (h.step b c).2.engine.phase = h.nextPhase b c := (step_follows b h c).phase

theorem step_clock (b : Backend σ) (h : Host σ) (c : Command) :
    (h.step b c).2.clock = Schedule.clockAfter h.clock c := (step_follows b h c).clock

theorem step_shutdown (b : Backend σ) (h : Host σ) (c : Command) :
    (h.step b c).2.shutdown = true ↔ h.shutdown = true ∨ c = .shutDown :=
  (step_follows b h c).shutdown

theorem step_properties (b : Backend σ) (h : Host σ) (c : Command) :
    (h.step b c).2.engine.properties = h.engine.properties := (step_follows b h c).properties

/-- An engine that has once begun to start never looks new again. -/
theorem step_begun (hu : h.engine.phase ≠ .unstarted) (b : Backend σ) (c : Command) :
    (h.step b c).2.engine.phase ≠ .unstarted := by
  rw [step_phase]
  unfold nextPhase
  split
  · rwa [if_neg hu]
  · simp [if_neg hu]
  · exact hu

theorem step_start_begun (b : Backend σ) (h : Host σ) :
    (h.step b .start).2.engine.phase ≠ .unstarted := by
  rw [step_phase, nextPhase]
  split
  · split <;> simp
  · assumption

theorem step_unstarted_iff (b : Backend σ) (hc : c = .start → h.engine.phase ≠ .unstarted) :
    (h.step b c).2.engine.phase = .unstarted ↔ h.engine.phase = .unstarted := by
  constructor
  · intro hu
    by_cases hne : h.engine.phase = .unstarted
    · exact hne
    · exact absurd hu (step_begun hne b c)
  · intro hu
    rw [step_phase]
    unfold nextPhase
    split
    · exact absurd hu (hc rfl)
    · exact if_pos hu
    · exact hu

theorem run_begun (hu : h.engine.phase ≠ .unstarted) (b : Backend σ) (cs : List Command) :
    (h.run b cs).engine.phase ≠ .unstarted := by
  induction cs generalizing h with
  | nil => exact hu
  | cons c cs ih => exact ih (step_begun hu b c)

theorem step_settled (b : Backend σ) (h : Host σ) (c : Command) : (h.step b c).2.Settled :=
  settle_settled (h.obey b c).2

theorem step_continues (b : Backend σ) (hc : c = .start → h.engine.phase ≠ .unstarted) :
    h.engine.sweep.Continues (h.step b c).2.engine.sweep := by
  obtain ⟨s, hs, he⟩ := settle_engine (h.obey b c).2
  have hsweep : (h.step b c).2.engine.sweep = s := congrArg Engine.sweep he
  rw [hsweep]
  exact (obey_continues b hc).trans hs

/-- No phase comes back. -/
theorem rank_le_run (b : Backend σ) (h : Host σ) (cs : List Command) :
    h.engine.phase.rank ≤ (h.run b cs).engine.phase.rank := by
  induction cs generalizing h with
  | nil => exact Nat.le_refl _
  | cons c cs ih =>
    refine Nat.le_trans ?_ (ih (h.step b c).2)
    rw [step_phase]
    exact rank_le_nextPhase b h c

end Host

end SessionStore
