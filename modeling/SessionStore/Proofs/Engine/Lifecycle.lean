import SessionStore.Proofs.Engine.Contention
import SessionStore.Store.Memory

/-! # The life of an engine

Whatever happens to an engine, and however its backend fails, it is started once, its periodic purge
begins in that start or never, and once it has ended nothing ticks any more.
-/

namespace SessionStore

variable {σ : Type} {b : Backend σ}

namespace Host

variable {h h' : Host σ} {c : Command}

/-! ## Idle engines -/

/-- No periodic purge is alive, and time passes without a tick. -/
structure Quiet (b : Backend σ) (h : Host σ) : Prop where
  idle : h.engine.purging = false
  sleep : ∀ d, (h.step b (.sleep d)).2.work = h.work
  jump : ∀ d, (h.step b (.jump d)).2.work = h.work

theorem quiet_of_idle (hi : h.engine.purging = false) : Quiet b h := by
  have htime : ∀ c : Command, c.TakesTime → (h.step b c).2.work = h.work := by
    intro c hc
    change (h.obey b c).2.settle.work = h.work
    rw [obey_time_of_idle b hi hc, settle_of_idle (by exact hi)]
  exact ⟨hi, fun d => htime (.sleep d) trivial, fun d => htime (.jump d) trivial⟩

theorem idle_of_continues (hc : h.engine.sweep.Continues h'.engine.sweep)
    (hi : h.engine.purging = false) : h'.engine.purging = false := by
  unfold Engine.purging at hi ⊢
  revert hi
  generalize h.engine.sweep = s at hc
  generalize h'.engine.sweep = s' at hc
  cases hc with
  | same | later => exact id
  | ended | broken => exact fun _ => rfl

/-- Nothing more is to be expected of this engine. -/
def Over (h : Host σ) : Prop := h.shutdown = true ∨ h.engine.phase = .stopped

theorem Over.step (ho : h.Over) (b : Backend σ) (c : Command) : (h.step b c).2.Over := by
  rcases ho with hs | hp
  · exact .inl ((step_shutdown b h c).mpr (.inl hs))
  · right
    rw [step_phase]
    unfold nextPhase
    split <;> simp [hp]

theorem Over.idle_run (ho : h.Over) (hs : h.Settled) (cs : List Command) :
    (h.run b cs).engine.purging = false := by
  induction cs generalizing h with
  | nil => exact hs ho
  | cons c cs ih => exact ih (ho.step b c) (step_settled b h c)

/-- Without a start, a periodic purge that is not alive stays so. -/
theorem idle_run (hi : h.engine.purging = false) {cs : List Command}
    (hcs : ∀ c ∈ cs, ¬c.NeedsEngine) : (h.run b cs).engine.purging = false := by
  induction cs generalizing h with
  | nil => exact hi
  | cons c cs ih =>
    have hstart : c ≠ .start := by
      rintro rfl
      exact hcs .start (by simp) trivial
    refine ih ?_ fun c hc => hcs c (by simp [hc])
    exact idle_of_continues (step_continues b fun heq => absurd heq hstart) hi

theorem drop_idle (b : Backend σ) (h : Host σ) :
    (h.step b .drop).2.engine.purging = false := by
  change h.endSweep.settle.engine.purging = false
  rw [settle_of_idle (endSweep_idle h)]
  exact endSweep_idle h

/-- The commands that end the work of an engine. -/
def Ends (b : Backend σ) (h : Host σ) : Command → Prop
  | .stop => h.engine.phase ≠ .unstarted
  | .shutDown => True
  | .start => h.engine.phase = .unstarted ∧ ∃ why, (h.step b .start).1 = .error why
  | _ => False

theorem Ends.over (hc : h.Ends b c) : (h.step b c).2.Over := by
  cases c with
  | stop =>
    right
    rw [step_phase, nextPhase, if_neg hc]
  | shutDown => exact .inl ((step_shutdown b h .shutDown).mpr (.inr rfl))
  | start =>
    obtain ⟨hu, why, hwhy⟩ := hc
    have hresult : (h.start b).1 = .error why := hwhy
    rw [(start_of_unstarted b hu).1] at hresult
    right
    rw [step_phase, nextPhase, if_pos hu, hresult]
  | _ => exact hc.elim

/-! ## How a periodic purge begins -/

/-- A command is the start that is not refused, or it is none such. -/
theorem first_start_or (h : Host σ) (c : Command) :
    c = .start ∧ h.engine.phase = .unstarted ∨ (c = .start → h.engine.phase ≠ .unstarted) :=
  (Classical.em _).imp id not_and.mp

/-- With a command a periodic purge begins: afterwards there is one that was not there before, and
it is not what time has made of the one before. -/
def Begins (b : Backend σ) (h : Host σ) (c : Command) : Prop :=
  (h.obey b c).2.engine.sweep ≠ .absent ∧ (h.obey b c).2.engine.sweep ≠ h.engine.sweep ∧
    ¬(c.TakesTime ∧ h.engine.purging = true)

instance : Decidable (h.Begins b c) := inferInstanceAs (Decidable (_ ∧ _ ∧ ¬(_ ∧ _)))

/-- What holds between any two commands. -/
structure Coherent (b : Backend σ) (h : Host σ) : Prop where
  settled : h.Settled
  unstarted : h.engine.phase = .unstarted → h.engine.sweep = .absent
  native : b.requiresPurge = false → h.engine.sweep = .absent
  starts : h.starts = if h.engine.phase = .unstarted then 0 else 1

theorem coherent_fresh (b : Backend σ) (p : Properties) (encoder : Encoder) (s : σ) (t : Instant) :
    Coherent b (fresh ((Engine.ofProperties p).withEncoder encoder) s t) where
  settled := fun _ => rfl
  unstarted := fun _ => rfl
  native := fun _ => rfl
  starts := rfl

theorem begins_first (hs : h.engine.sweep = .absent) (hu : h.engine.phase = .unstarted)
    (hr : b.requiresPurge = true) : h.Begins b .start := by
  obtain ⟨-, he, -⟩ := start_of_unstarted b hu
  have hthere : (h.obey b .start).2.engine.sweep ≠ .absent := by
    simp only [obey, he, if_pos hr, firstSweep]
    split <;> simp
  exact ⟨hthere, by rwa [hs], fun hlate => hlate.1⟩

/-- A periodic purge begins exactly in the start that is not refused, over a backend that needs
one. -/
theorem Coherent.begins_iff (k : Coherent b h) :
    h.Begins b c ↔ c = .start ∧ h.engine.phase = .unstarted ∧ b.requiresPurge = true := by
  constructor
  · rintro ⟨hthere, hnew, hnot⟩
    rcases first_start_or h c with ⟨rfl, hu⟩ | hc
    · refine ⟨rfl, hu, ?_⟩
      by_contra hr
      obtain ⟨-, he, -⟩ := start_of_unstarted b hu
      apply hthere
      simp only [obey, he, if_neg hr]
    · by_cases htime : c.TakesTime
      · -- time ends no periodic purge and leaves what is not alive as it is
        have hcont := obey_continues b hc
        exfalso
        apply hnot
        refine ⟨htime, ?_⟩
        unfold Engine.purging
        revert hthere hnew
        generalize h.engine.sweep = s at hcont
        generalize (h.obey b c).2.engine.sweep = s' at hcont
        cases hcont <;> simp
      · rcases obey_sweep b hc htime with hs | hs
        · exact absurd hs hnew
        · exact absurd hs hthere
  · rintro ⟨rfl, hu, hr⟩
    exact begins_first (k.unstarted hu) hu hr

theorem Coherent.step (k : Coherent b h) (c : Command) : Coherent b (h.step b c).2 := by
  have hstarts : (h.step b c).2.starts = (h.obey b c).2.starts := settle_starts _
  rcases first_start_or h c with ⟨rfl, hu⟩ | hc
  · have hbegun := step_start_begun b h
    constructor
    case settled => exact step_settled b h .start
    case unstarted => exact fun hu' => absurd hu' hbegun
    case native =>
      intro hr
      obtain ⟨s, hs, he⟩ := settle_engine (h.obey b .start).2
      obtain ⟨-, hobey, -⟩ := start_of_unstarted b hu
      have habsent : (h.obey b .start).2.engine.sweep = .absent := by
        simp only [obey, hobey, if_neg (Bool.eq_false_iff.mp hr)]
      have hsweep : (h.step b .start).2.engine.sweep = s := congrArg Engine.sweep he
      rw [habsent] at hs
      rw [hsweep, hs.eq_absent]
    case starts => rw [hstarts, obey_start_starts b hu, k.starts, if_pos hu, if_neg hbegun]
  · have hcont := step_continues b hc
    constructor
    case settled => exact step_settled b h c
    case unstarted =>
      intro hu
      rw [k.unstarted ((step_unstarted_iff b hc).mp hu)] at hcont
      exact hcont.eq_absent
    case native =>
      intro hr
      rw [k.native hr] at hcont
      exact hcont.eq_absent
    case starts =>
      have hsame : (h.obey b c).2.starts = h.starts := by
        by_cases heq : c = .start
        · subst heq
          simp only [obey, start_of_begun b (hc rfl)]
        · exact obey_starts b heq
      rw [hstarts, hsame, k.starts]
      simp only [step_unstarted_iff b hc]

theorem Coherent.run (k : Coherent b h) (cs : List Command) : Coherent b (h.run b cs) := by
  induction cs generalizing h with
  | nil => exact k
  | cons c cs ih => exact ih (k.step c)

/-- How many periodic purges begin in a run. -/
def sweeps (b : Backend σ) : Host σ → List Command → Nat
  | _, [] => 0
  | h, c :: cs => (if h.Begins b c then 1 else 0) + sweeps b (h.step b c).2 cs

/-- One periodic purge begins while an engine leaves its first phase, and no other. -/
theorem Coherent.sweeps_eq (k : Coherent b h) (cs : List Command) :
    h.sweeps b cs = if h.engine.phase = .unstarted ∧ (h.run b cs).engine.phase ≠ .unstarted ∧
      b.requiresPurge = true then 1 else 0 := by
  induction cs generalizing h with
  | nil =>
    rw [sweeps, if_neg]
    exact fun ⟨hu, hnot, _⟩ => hnot hu
  | cons c cs ih =>
    have hrun : h.run b (c :: cs) = (h.step b c).2.run b cs := rfl
    rw [sweeps, ih (k.step c), hrun]
    rcases first_start_or h c with ⟨rfl, hu⟩ | hc
    · have hbegun := step_start_begun b h
      simp only [hbegun, false_and, if_false, Nat.add_zero]
      refine if_congr (k.begins_iff.trans ?_) rfl rfl
      simp [hu, run_begun hbegun b cs]
    · have hnot : ¬h.Begins b c := fun hb => by
        obtain ⟨hstart, hu, -⟩ := k.begins_iff.mp hb
        exact hc hstart hu
      rw [if_neg hnot, Nat.zero_add]
      simp only [step_unstarted_iff b hc]

example : (fresh (Engine.ofProperties .standard) ∅ 0).sweeps Memory.backend
    [.stop, .start, .start, .sleep (.ofSeconds 300), .stop, .start] = 1 := by
  decide +kernel

/-! ## Safety -/

/-- What can be relied on at every moment of an engine's life. -/
structure Safe (b : Backend σ) (h : Host σ) : Prop where
  phase : ∀ c, (h.step b c).2.engine.phase = h.nextPhase b c
  forward : ∀ cs, h.engine.phase.rank ≤ (h.run b cs).engine.phase.rank
  starts : h.starts = if h.engine.phase = .unstarted then 0 else 1
  begins : ∀ c, h.Begins b c ↔
    c = .start ∧ h.engine.phase = .unstarted ∧ b.requiresPurge = true
  restart : h.engine.phase ≠ .unstarted → h.step b .start = (.error .alreadyStarted, h)
  early_stop : h.engine.phase = .unstarted → h.step b .stop = (.error .notStarted, h)
  stop : h.engine.phase ≠ .unstarted →
    (h.step b .stop).1 = (b.perform h.clock h.work.store .stop).result ∧
      (h.step b .stop).2.work.calls = (h.clock, .stop) :: h.work.calls
  alive : h.engine.purging = true → h.engine.phase = .started
  native : b.requiresPurge = false → h.engine.sweep = .absent
  ended : ∀ c, h.Ends b c → ∀ cs, Quiet b ((h.step b c).2.run b cs)
  dropped : ∀ cs : List Command, (∀ c ∈ cs, ¬c.NeedsEngine) →
    Quiet b ((h.step b .drop).2.run b cs)
  /-- A start is made of the two halves between which others may come. -/
  halves : h.engine.phase = .unstarted → h.start b = (h.enter b).leave b
  /-- However many start it at once, and whatever else happens meanwhile, one of them gets past. -/
  contest : h.engine.phase = .unstarted → ∀ (ι : Type) [DecidableEq ι] (g : Contest σ ι),
    Contest.Reaches b h g →
      (∀ i j, (g.caller i).Past → (g.caller j).Past → i = j) ∧ g.host.starts ≤ 1 ∧
        (∀ i, ¬(g.caller i).Over → ∃ g' : Contest σ ι, g.Step b g' ∧ g'.caller ≠ g.caller) ∧
        (Nonempty ι → (∀ i, (g.caller i).Over) →
          ∃ i, (g.caller i).Answered ∧ (∀ j ≠ i, g.caller j = .refused) ∧ g.host.starts = 1)

theorem Coherent.safe (k : Coherent b h) : Safe b h where
  phase := step_phase b h
  forward := rank_le_run b h
  starts := k.starts
  begins _ := k.begins_iff
  restart hu := by
    have hobey : h.obey b .start = (.error .alreadyStarted, h) := start_of_begun b hu
    simp only [Host.step, hobey, settle_of_settled k.settled]
  early_stop hu := by
    have hobey : h.obey b .stop = (.error .notStarted, h) := stop_of_unstarted b hu
    simp only [Host.step, hobey, settle_of_settled k.settled]
  stop hu := by
    obtain ⟨hresult, -, -, -, hw⟩ := stop_of_begun b hu
    refine ⟨hresult, ?_⟩
    have hcalls : (h.stop b).2.settle.work.calls = (h.stop b).2.work.calls := settle_calls _
    exact hcalls.trans hw.calls
  alive hp := by
    rcases hphase : h.engine.phase with _ | _ | _
    · rw [not_purging_of_absent (k.unstarted hphase)] at hp
      cases hp
    · rfl
    · rw [k.settled (.inr hphase)] at hp
      cases hp
  native := k.native
  ended c hc cs := quiet_of_idle (hc.over.idle_run (step_settled b h c) cs)
  dropped _ hcs := quiet_of_idle (idle_run (drop_idle b h) hcs)
  halves := start_eq
  contest hu ι _ g hg := by
    have hsound := Contest.sound_of_reaches hu hg
    rw [k.starts, if_pos hu] at hsound
    exact ⟨fun i j => hsound.eq_of_past, hsound.starts_le, fun _ hi => Contest.exists_step b g hi,
      fun _ hover => hsound.exists_answered hover⟩

/-- Over every run of a new engine, and over every backend, its life is safe at every moment, and at
most one periodic purge begins. -/
theorem lifecycle_safe (b : Backend σ) (p : Properties) (encoder : Encoder) (s : σ) (t : Instant)
    (cs : List Command) :
    let h := fresh ((Engine.ofProperties p).withEncoder encoder) s t
    Safe b (h.run b cs) ∧ h.sweeps b cs ≤ 1 := by
  intro h
  have hfresh : Coherent b h := coherent_fresh b p encoder s t
  refine ⟨(hfresh.run cs).safe, ?_⟩
  rw [hfresh.sweeps_eq]
  split <;> simp

end Host

end SessionStore
