import SessionStore.Proofs.Engine.Phases
import SessionStore.Properties.Document
import SessionStore.Store.Memory

/-! # Keeping the periodic purge alive

A start that succeeds leaves a periodic purge alive if the clock reaches the instant of its first
tick, and none otherwise. From then on nothing but a stop, a shutdown or the end of the engine
changes that, as long as the clock gets an interval further: no operation on a session, no switch,
no purge that fails and no passing of time.
-/

namespace SessionStore

variable {σ : Type} {b : Backend σ}

namespace Host

variable {h : Host σ} {c : Command}

/-- The engine is started, and no end of it is in sight. -/
structure Lasting (h : Host σ) : Prop where
  phase : h.engine.phase = .started
  shutdown : h.shutdown = false

theorem Lasting.settle_eq (l : h.Lasting) : h.settle = h := by
  refine settle_of_settled fun hend => ?_
  rcases hend with hs | hp
  · rw [l.shutdown] at hs
    cases hs
  · rw [l.phase] at hp
    cases hp

theorem Lasting.obey (l : h.Lasting) (hc : ¬c.EndsSweep) : (h.obey b c).2.Lasting := by
  constructor
  · rw [(obey_follows b h c).phase]
    unfold nextPhase
    split
    · rw [l.phase, if_neg (by simp)]
    · exact absurd trivial hc
    · exact l.phase
  · rw [Bool.eq_false_iff, ne_eq, (obey_follows b h c).shutdown, l.shutdown]
    rintro (hs | rfl)
    · cases hs
    · exact hc trivial

/-- Only time does anything to a periodic purge that is not told to end. -/
theorem Lasting.obey_sweep (l : h.Lasting) (hc : ¬c.EndsSweep) :
    (h.obey b c).2.engine.sweep = h.nextSweep c := by
  have hstill : ¬c.TakesTime → h.nextSweep c = h.engine.sweep := fun ht => by
    unfold nextSweep
    cases h.engine.sweep <;> cases c <;> first | rfl | exact absurd trivial ht
  cases c with
  | getSession | saveSession | sessionExists | deleteSession | touchSession | purge =>
    exact (congrArg Engine.sweep (access_keeps h _).engine).trans (hstill id).symm
  | setEnabled => exact (hstill id).symm
  | start =>
    have hu : h.engine.phase ≠ .unstarted := by simp [l.phase]
    simp only [Host.obey, start_of_begun b hu]
    exact (hstill id).symm
  | stop | shutDown | drop => exact absurd trivial hc
  | sleep | jump =>
    simp only [Host.obey, sleep_eq, jump_eq]
    rfl

theorem run_clock (b : Backend σ) (h : Host σ) (cs : List Command) :
    (h.run b cs).clock = cs.foldl Schedule.clockAfter h.clock := by
  induction cs generalizing h with
  | nil => rfl
  | cons c cs ih =>
    rw [List.foldl_cons, ← step_clock b h c]
    exact ih _

theorem clock_le_run (b : Backend σ) (h : Host σ) (cs : List Command) :
    h.clock ≤ (h.run b cs).clock := by
  rw [run_clock]
  exact Schedule.le_foldl_clockAfter h.clock cs

theorem Lasting.step_eq (l : h.Lasting) (hc : ¬c.EndsSweep) :
    (h.step b c).2 = (h.obey b c).2 := (l.obey hc).settle_eq

/-- What a command does to an engine of which no end is in sight. -/
theorem Lasting.step (l : h.Lasting) (hc : ¬c.EndsSweep) :
    (h.step b c).2.Lasting ∧ (h.step b c).2.engine.sweep = h.nextSweep c := by
  rw [l.step_eq hc]
  exact ⟨l.obey hc, l.obey_sweep hc⟩

/-- What time does to a host with such an engine. -/
theorem Lasting.step_time (l : h.Lasting) (hc : c.TakesTime) : (h.step b c).2 =
    h.tickedTo b (h.ticks c) (h.nextSweep c) (Schedule.clockAfter h.clock c) := by
  have hend : ¬c.EndsSweep := by
    cases c with
    | sleep | jump => exact id
    | _ => exact hc.elim
  exact (l.step_eq hend).trans (obey_time b h hc)

/-! ## Ticks without a successor -/

/-- The command is a jump that finds the next tick late, at an instant from which the clock does not
get an interval further. -/
def Strands (h : Host σ) : Command → Prop
  | .jump d => ∃ due, h.engine.sweep = .waiting due ∧
      Schedule.isStranded due (h.clock.after d) h.engine.properties.purgeInterval
  | _ => False

/-- Time keeps alive what is alive, unless it strands the next tick, and revives nothing. -/
theorem nextSweep_isWaiting_iff (h : Host σ) (c : Command) :
    (∃ due, h.nextSweep c = .waiting due) ↔ h.engine.purging = true ∧ ¬h.Strands c := by
  unfold nextSweep Engine.purging
  cases hs : h.engine.sweep with
  | absent | broken => simp [Schedule.nextSweep]
  | waiting due =>
    cases c with
    | jump d =>
      simp only [Schedule.nextSweep, overdueSweep, Strands, hs, Sweep.waiting.injEq,
        exists_eq_left']
      split
      case isTrue hstrand => simp [hstrand]
      case isFalse hstrand => simp [hstrand]
    | _ => simp [Schedule.nextSweep, Strands]

theorem Lasting.step_purging (l : h.Lasting) (hc : ¬c.EndsSweep) :
    (h.step b c).2.engine.purging = true ↔ h.engine.purging = true ∧ ¬h.Strands c := by
  rw [purging_iff, (l.step hc).2, nextSweep_isWaiting_iff]

theorem Lasting.run (l : h.Lasting) {cs : List Command} (hcs : ∀ c ∈ cs, ¬c.EndsSweep) :
    (h.run b cs).Lasting := by
  induction cs generalizing h with
  | nil => exact l
  | cons c cs ih => exact ih (l.step (hcs c (by simp))).1 fun c hc => hcs c (by simp [hc])

/-- A periodic purge that is alive stays so as long as no command strands a tick. -/
theorem Lasting.run_purging (l : h.Lasting) {cs : List Command} (hcs : ∀ c ∈ cs, ¬c.EndsSweep) :
    (h.run b cs).engine.purging = true ↔ h.engine.purging = true ∧
      ∀ past c, past ++ [c] <+: cs → ¬(h.run b past).Strands c := by
  induction cs generalizing h with
  | nil => simp [Host.run]
  | cons c cs ih =>
    have hc := hcs c (by simp)
    have hrest := ih (l.step (b := b) hc).1 fun c hc => hcs c (by simp [hc])
    change ((h.step b c).2.run b cs).engine.purging = true ↔ _
    rw [hrest, l.step_purging hc, and_assoc]
    refine and_congr_right fun _ => ⟨fun ⟨hfirst, hlater⟩ past c' hpast => ?_, fun hall => ?_⟩
    · cases past with
      | nil =>
        obtain ⟨rfl, -⟩ := List.cons_prefix_cons.mp hpast
        exact hfirst
      | cons c'' past =>
        obtain ⟨rfl, hmore⟩ := List.cons_prefix_cons.mp hpast
        exact hlater past c' hmore
    · refine ⟨hall [] c (List.prefix_append [c] cs), fun past c' hpast => ?_⟩
      exact hall (c :: past) c' (List.cons_prefix_cons.mpr ⟨rfl, hpast⟩)

/-- As long as the clock gets an interval further, no tick was stranded. -/
theorem not_strands_of_prefix {interval : Duration} {cs past : List Command}
    (hi : (h.run b past).engine.properties.purgeInterval = interval)
    (hlast : (h.run b cs).clock.after interval ≤ Instant.last) (hc : past ++ [c] <+: cs) :
    ¬(h.run b past).Strands c := by
  obtain ⟨rest, rfl⟩ := hc
  intro hs
  cases c with
  | jump d =>
    obtain ⟨due, -, hstrand⟩ := hs
    rw [hi] at hstrand
    refine Schedule.not_isStranded (Int.le_trans (Instant.after_mono ?_ interval) hlast) hstrand
    have hclock : ((h.run b past).step b (.jump d)).2.clock = (h.run b past).clock.after d :=
      step_clock b _ _
    have hrun : h.run b (past ++ [.jump d] ++ rest) =
        ((h.run b past).step b (.jump d)).2.run b rest := by
      simp only [Host.run, List.foldl_append, List.foldl_cons, List.foldl_nil]
    rw [← hclock, hrun]
    exact clock_le_run b _ rest
  | _ => exact hs

/-- A start that succeeds was the first. -/
theorem unstarted_of_start (hok : (h.step b .start).1 = .ok ()) : h.engine.phase = .unstarted := by
  by_cases hu : h.engine.phase = .unstarted
  · exact hu
  · have hstart : (h.start b).1 = .ok () := hok
    rw [start_of_begun b hu] at hstart
    cases hstart

/-- What a start that succeeds makes of the engine. -/
theorem started_of_start (hr : b.requiresPurge = true) (hd : h.shutdown = false)
    (hok : (h.step b .start).1 = .ok ()) : (h.step b .start).2.Lasting ∧
      (h.step b .start).2.clock = h.clock ∧
      (h.step b .start).2.engine = { h.engine with
        phase := .started, sweep := firstSweep h.clock h.engine.properties.purgeInterval } := by
  have hstart : (h.start b).1 = .ok () := hok
  obtain ⟨hresult, he, hclock, hs, -⟩ := start_of_unstarted b (unstarted_of_start hok)
  rw [← hresult, hstart, if_pos hr] at he
  have l : (h.start b).2.Lasting := ⟨by rw [he], hs.trans hd⟩
  have hsettle : (h.step b .start).2 = (h.start b).2 := l.settle_eq
  rw [hsettle]
  exact ⟨l, hclock, he⟩

theorem run_properties (b : Backend σ) (h : Host σ) (cs : List Command) :
    (h.run b cs).engine.properties = h.engine.properties := by
  induction cs generalizing h with
  | nil => rfl
  | cons c cs ih => exact (ih _).trans (step_properties b h c)

/-- The periodic purge is alive until the engine is told to end it, exactly if the clock reaches its
first tick and no jump strands one. As long as the clock gets an interval further, it is. -/
theorem purging_while_lasting (hr : b.requiresPurge = true) (hd : h.shutdown = false)
    (hok : (h.step b .start).1 = .ok ()) {cs : List Command} (hcs : ∀ c ∈ cs, ¬c.EndsSweep) :
    let started := (h.step b .start).2
    let interval := h.engine.properties.purgeInterval
    ((started.run b cs).engine.purging = true ↔ h.clock.after interval ≤ Instant.last ∧
      ∀ past c, past ++ [c] <+: cs → ¬(started.run b past).Strands c) ∧
    ((started.run b cs).clock.after interval ≤ Instant.last →
      (started.run b cs).engine.purging = true) := by
  intro started interval
  obtain ⟨l, hclock, he⟩ := started_of_start hr hd hok
  have hfirst : started.engine.purging = true ↔ h.clock.after interval ≤ Instant.last := by
    rw [purging_iff, he]
    simp only [firstSweep]
    split
    case isTrue hlast => exact iff_of_true ⟨_, rfl⟩ hlast
    case isFalse hlast => exact iff_of_false (by simp) hlast
  have hiff := l.run_purging (b := b) hcs
  rw [hfirst] at hiff
  refine ⟨hiff, fun hlast => hiff.mpr ⟨?_, fun past c hc => ?_⟩⟩
  · refine Int.le_trans (Instant.after_mono ?_ interval) hlast
    rw [← hclock]
    exact clock_le_run b started cs
  · refine not_strands_of_prefix ?_ hlast hc
    rw [run_properties, he]

/-- With the standard properties the first tick comes after two minutes, and neither a switch nor
time does any harm. -/
theorem purging_while_lasting_standard :
    let h := fresh (Engine.ofProperties .standard) ∅ 0
    let cs : List Command := [.setEnabled false, .sleep (.ofSeconds 300), .jump (.ofSeconds 1000)]
    (h.step Memory.backend .start).1 = .ok () ∧ (∀ c ∈ cs, ¬c.EndsSweep) ∧
      ((h.step Memory.backend .start).2.run Memory.backend cs).engine.purging = true := by
  intro h cs
  have hok : (h.step Memory.backend .start).1 = .ok () := rfl
  have hcs : ∀ c ∈ cs, ¬c.EndsSweep := by simp [cs, Command.EndsSweep]
  exact ⟨hok, hcs, (purging_while_lasting rfl rfl hok hcs).2 (by decide +kernel)⟩

/-- An interval that settings can give is accepted and puts the first tick where no clock gets: the
start succeeds, and no periodic purge is alive. -/
theorem start_without_purge :
    let p := { Properties.standard with purgeInterval := .ofSeconds 0xFFFFFFFFFFFFFFFF }
    let h := fresh (Engine.ofProperties p) ∅ 0
    Properties.ofDocument "purge_interval_secs = 18446744073709551615" = .ok p ∧
      Engine.make p = .ok (.ofProperties p) ∧ Memory.backend.requiresPurge = true ∧
      h.shutdown = false ∧ (h.step Memory.backend .start).1 = .ok () ∧
      (h.step Memory.backend .start).2.engine.purging = false := by
  intro p h
  have hsettings : (Toml.parse? "purge_interval_secs = 18446744073709551615").bind
      Settings.ofEntries? = some { purgeInterval? := some 0xFFFFFFFFFFFFFFFF } := by
    decide +kernel
  have hdocument : Properties.ofDocument "purge_interval_secs = 18446744073709551615" = .ok p := by
    rw [Properties.ofDocument, hsettings]
    rfl
  have hmake : Engine.make p = .ok (.ofProperties p) := Engine.make_eq_ok_iff.mpr ⟨by cbv, rfl⟩
  exact ⟨hdocument, hmake, rfl, rfl, rfl, by decide +kernel⟩

end Host

end SessionStore
