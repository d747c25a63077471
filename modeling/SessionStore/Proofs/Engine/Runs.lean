import SessionStore.Proofs.Engine.Histories
import SessionStore.Proofs.Engine.Ticks

/-! # Runs of an engine

A command makes only the calls that belong to it, at instants between those at which it begins and
ends, and leaves the settings alone. What a run does to its store is the sum of what its commands
do.
-/

namespace SessionStore

variable {σ α : Type} {b : Backend σ}

theorem Properties.purgeInterval_pos {p : Properties} (h : p.fault? = none) :
    0 < p.purgeInterval.nanos := by
  have hne : p.purgeInterval.nanos ≠ 0 := by
    intro hzero
    unfold Properties.fault? at h
    split at h <;> simp_all
  omega

/-- An engine is made from properties without fault. -/
theorem Engine.make_eq_ok_iff {p : Properties} {e : Engine} :
    Engine.make p = .ok e ↔ p.fault? = none ∧ Engine.ofProperties p = e := by
  unfold Engine.make Properties.check
  cases p.fault? with
  | none => simp [Except.map]
  | some why => simp [Except.map]

/-- The calls that belong to a command. -/
def Command.Permits (ageLimit : Duration) : Command → Call → Prop
  | .getSession id, .contains k => k = id
  | .getSession id, .set k _ => k = id
  | .getSession id, .get k => k = id
  | .getSession id, .touch k => k = id
  | .saveSession id _, .set k _ => k = id
  | .sessionExists id, .contains k => k = id
  | .deleteSession id, .delete k => k = id
  | .touchSession id, .touch k => k = id
  | .purge, .purge maxAge => maxAge = ageLimit
  | .sleep _, .purge maxAge => maxAge = ageLimit
  | .jump _, .purge maxAge => maxAge = ageLimit
  | .start, .start => True
  | .stop, .stop => True
  | _, _ => False

namespace Command

variable {ageLimit : Duration} {c : Command}

theorem permits_delete {id : String} (h : c.Permits ageLimit (.delete id)) :
    c = .deleteSession id := by
  cases c <;> simp_all [Permits]

theorem permits_start (h : c.Permits ageLimit .start) : c = .start := by
  cases c <;> simp_all [Permits]

theorem permits_purge {maxAge : Duration} (h : c.Permits ageLimit (.purge maxAge)) :
    maxAge = ageLimit := by
  cases c <;> simp_all [Permits]

end Command

namespace Engine

open Access

variable (e : Engine) (b : Backend σ) (now : Instant) (id : String)

/-- The second half of loading a session, which is there by now. -/
def load : Access σ Session := do
  let contents : Bytes ← call b now (.get id)
  call b now (.touch id)
  let data ← Access.ofExcept (e.encoder.decode contents)
  return Session.withData id data

theorem getSession_eq :
    e.getSession b now id = (do
      Access.ofExcept (e.checkId id)
      let present : Bool ← call b now (.contains id)
      if !present then e.create b now id >>= fun _ => e.load b now id else e.load b now id) :=
  rfl

theorem load_consists :
    (e.load b now id).Consists b now
      ((Command.getSession id).Permits e.properties.ageLimit) := by
  apply Consists.bind
  · exact .call rfl
  intro contents
  apply Consists.bind
  · exact .call rfl
  intro _
  exact .bind (.ofExcept _) fun data => .pure _

theorem create_consists :
    (e.create b now id).Consists b now
      ((Command.getSession id).Permits e.properties.ageLimit) := by
  apply Consists.bind
  · exact .ofExcept _
  intro contents
  exact .bind (.call rfl) fun _ => .note _

theorem getSession_consists :
    (e.getSession b now id).Consists b now
      ((Command.getSession id).Permits e.properties.ageLimit) := by
  rw [getSession_eq]
  apply Consists.bind
  · exact .ofExcept _
  intro _
  apply Consists.bind
  · exact .call rfl
  intro present
  split
  · exact .bind (e.create_consists b now id) fun _ => e.load_consists b now id
  · exact e.load_consists b now id

theorem saveSession_consists (s : Session) :
    (e.saveSession b now id s).Consists b now
      ((Command.saveSession id s).Permits e.properties.ageLimit) := by
  apply Consists.bind
  · exact .ofExcept _
  intro _
  apply Consists.bind
  · exact .ofExcept _
  intro contents
  exact .bind (.call rfl) fun _ => .note _

theorem sessionExists_consists :
    (e.sessionExists b now id).Consists b now
      ((Command.sessionExists id).Permits e.properties.ageLimit) :=
  .bind (.ofExcept _) fun _ => .call rfl

theorem deleteSession_consists :
    (e.deleteSession b now id).Consists b now
      ((Command.deleteSession id).Permits e.properties.ageLimit) := by
  apply Consists.bind
  · exact .ofExcept _
  intro _
  exact .bind (.call rfl) fun _ => .note _

theorem touchSession_consists :
    (e.touchSession b now id).Consists b now
      ((Command.touchSession id).Permits e.properties.ageLimit) :=
  .bind (.ofExcept _) fun _ => .call rfl

theorem purge_consists :
    (e.purge b now).Consists b now (Command.purge.Permits e.properties.ageLimit) :=
  .bind (.ofExcept _) fun _ => .call rfl

end Engine

namespace Host

/-- From `h` on, the calls `made` lead to `h'`, and no time runs backwards meanwhile. -/
structure Passes (b : Backend σ) (made : List (Instant × Call)) (h h' : Host σ) : Prop where
  leads : Work.Leads b made h.work h'.work
  clock_le : h.clock ≤ h'.clock
  instants : ∀ x ∈ made, h.clock ≤ x.1 ∧ x.1 ≤ h'.clock
  properties : h'.engine.properties = h.engine.properties
  encoder : h'.engine.encoder = h.engine.encoder

variable {h h' h'' : Host σ} {made more : List (Instant × Call)}

namespace Passes

theorem refl (h : Host σ) : Passes b [] h h := ⟨.refl _, Int.le_refl _, by simp, rfl, rfl⟩

theorem trans (p : Passes b made h h') (q : Passes b more h' h'') :
    Passes b (more ++ made) h h'' where
  leads := p.leads.trans q.leads
  clock_le := Int.le_trans p.clock_le q.clock_le
  instants := by
    have hp := p.clock_le
    have hq := q.clock_le
    intro x hx
    rcases List.mem_append.mp hx with hx | hx
    · have := q.instants x hx
      lia
    · have := p.instants x hx
      lia
  properties := q.properties.trans p.properties
  encoder := q.encoder.trans p.encoder

theorem note (p : Passes b made h h') (e : Event) : Passes b made h (h'.note e) :=
  { p with leads := p.leads.note e }

theorem withSweep (p : Passes b made h h') (s : Sweep) : Passes b made h (h'.withSweep s) :=
  { p with }

theorem withPhase (p : Passes b made h h') (ph : Phase) : Passes b made h (h'.withPhase ph) :=
  { p with }

end Passes

theorem passes_clock {t : Instant} (ht : h.clock ≤ t) : Passes b [] h { h with clock := t } :=
  ⟨.refl _, ht, by simp, rfl, rfl⟩

/-- What is left of a host by operations that do not touch the schedule. -/
structure Keeps (h h' : Host σ) : Prop where
  engine : h'.engine = h.engine
  clock : h'.clock = h.clock
  shutdown : h'.shutdown = h.shutdown

theorem access_keeps (h : Host σ) (a : Access σ α) : Keeps h (h.access a).2 := ⟨rfl, rfl, rfl⟩

theorem access_passes {P : Call → Prop} {a : Access σ α} (ha : a.Consists b h.clock P) :
    ∃ made, Passes b made h (h.access a).2 ∧ ∀ x ∈ made, P x.2 := by
  obtain ⟨cs, hcs, hw⟩ := ha.makes h.work
  refine ⟨cs.map (h.clock, ·), ⟨hw, Int.le_refl _, ?_, rfl, rfl⟩, ?_⟩
  · intro x hx
    obtain ⟨c, _, rfl⟩ := List.mem_map.mp hx
    exact ⟨Int.le_refl _, Int.le_refl _⟩
  · intro x hx
    obtain ⟨c, hc, rfl⟩ := List.mem_map.mp hx
    exact hcs c hc

/-! ## Ticks -/

theorem tick_passes (b : Backend σ) (h : Host σ) :
    ∃ made, Passes b made h (h.tick b) ∧ ∀ x ∈ made, x.2 = .purge h.engine.properties.ageLimit := by
  obtain ⟨made, hp, hmade⟩ := access_passes (h := h) (h.engine.purge_consists b h.clock)
  refine ⟨made, ?_, ?_⟩
  · rw [tick]
    rcases hr : h.access (h.engine.purge b h.clock) with ⟨why | removed, g⟩
    · rw [hr] at hp
      cases why <;> exact hp.note _
    · rw [hr] at hp
      simp only
      split
      · exact hp
      · exact hp.note _
  · intro x hx
    have := hmade x hx
    rcases x with ⟨t, c⟩
    cases c <;> simp_all [Command.Permits]

theorem tick_keeps (b : Backend σ) (h : Host σ) : Keeps h (h.tick b) := by
  rw [tick]
  have hk := access_keeps h (h.engine.purge b h.clock)
  rcases hr : h.access (h.engine.purge b h.clock) with ⟨why | removed, g⟩
  · rw [hr] at hk
    cases why <;> exact ⟨hk.engine, hk.clock, hk.shutdown⟩
  · rw [hr] at hk
    simp only
    split <;> exact ⟨hk.engine, hk.clock, hk.shutdown⟩

/-- A purge does so to the store, unless the engine is disabled. -/
theorem store_purge (b : Backend σ) (h : Host σ) :
    (h.access (h.engine.purge b h.clock)).2.work.store =
      if h.engine.enabled then
        (b.perform h.clock h.work.store (.purge h.engine.properties.ageLimit)).store
      else h.work.store := by
  rcases h with ⟨⟨p, encoder, _ | _, phase, sweep⟩, w, t, down⟩ <;> rfl

theorem store_tick (b : Backend σ) (h : Host σ) :
    (h.tick b).work.store =
      if h.engine.enabled then
        (b.perform h.clock h.work.store (.purge h.engine.properties.ageLimit)).store
      else h.work.store := by
  rw [← store_purge, tick]
  rcases h.access (h.engine.purge b h.clock) with ⟨why | removed, g⟩
  · cases why <;> rfl
  · simp only
    split <;> rfl

theorem tickAt_engine (b : Backend σ) (times : List Instant) (h : Host σ) :
    (h.tickAt b times).engine = h.engine := by
  induction times generalizing h with
  | nil => rfl
  | cons t times ih => exact (ih _).trans (tick_keeps b { h with clock := t }).engine

theorem tickAt_shutdown (b : Backend σ) (times : List Instant) (h : Host σ) :
    (h.tickAt b times).shutdown = h.shutdown := by
  induction times generalizing h with
  | nil => rfl
  | cons t times ih => exact (ih _).trans (tick_keeps b { h with clock := t }).shutdown

theorem tickAt_clock (b : Backend σ) {times : List Instant} {h : Host σ}
    (ht : ∀ t ∈ times, t = h.clock) : (h.tickAt b times).clock = h.clock := by
  induction times generalizing h with
  | nil => rfl
  | cons t times ih =>
    obtain rfl : t = h.clock := ht t (by simp)
    have hk := tick_keeps b h
    exact (ih (h := h.tick b) fun t ht' => by rw [hk.clock]; exact ht t (by simp [ht'])).trans
      hk.clock

theorem tickAt_passes (b : Backend σ) {times : List Instant} {h : Host σ} {limit : Instant}
    (hc : h.clock ≤ limit) (ht : (h.clock :: times).Pairwise (· ≤ ·))
    (hl : ∀ t ∈ times, t ≤ limit) :
    ∃ made, Passes b made h { h.tickAt b times with clock := limit } ∧
      ∀ x ∈ made, x.2 = .purge h.engine.properties.ageLimit := by
  induction times generalizing h with
  | nil => exact ⟨[], passes_clock hc, by simp⟩
  | cons t times ih =>
    obtain ⟨hct, ht⟩ := List.pairwise_cons.mp ht
    have hmoved : Passes b [] h { h with clock := t } := passes_clock (hct t (by simp))
    obtain ⟨made, hp, hmade⟩ := tick_passes b { h with clock := t }
    have hk := tick_keeps b { h with clock := t }
    have hkc : ({ h with clock := t }.tick b).clock = t := hk.clock
    obtain ⟨more, hq, hmore⟩ := ih (h := { h with clock := t }.tick b)
      (by rw [hkc]; exact hl t (by simp)) (by rw [hkc]; exact ht)
      (fun t' ht' => hl t' (by simp [ht']))
    have hall := (hmoved.trans hp).trans hq
    rw [List.append_nil] at hall
    refine ⟨more ++ made, hall, ?_⟩
    intro x hx
    rcases List.mem_append.mp hx with hx | hx
    · rw [hmore x hx, hk.engine]
    · exact hmade x hx

/-- The periodic purge never waits for an instant that its timer takes for past. -/
def Ahead (h : Host σ) : Prop := ∀ due, h.engine.sweep = .waiting due → h.clock.roundDown < due

theorem punctual_pairwise {now due : Instant} (limit : Instant) (interval : Duration)
    (h : now.roundDown ≤ due) :
    (now :: (Schedule.punctual due limit interval).map now.wake).Pairwise (· ≤ ·) := by
  refine List.pairwise_cons.mpr ⟨?_, ?_⟩
  · intro t ht
    obtain ⟨_, hdue, rfl⟩ := List.mem_map.mp ht
    obtain ⟨k, -, rfl⟩ := List.mem_map.mp hdue
    have hfirst : Schedule.later due interval 0 ≤ Schedule.later due interval k :=
      Schedule.later_mono (Nat.zero_le k)
    rw [Schedule.later_zero] at hfirst
    exact Instant.le_wake (Int.le_trans h hfirst)
  · refine List.pairwise_map.mpr (List.pairwise_map.mpr (List.pairwise_le_range.imp ?_))
    exact fun hjk => Instant.wake_mono (Schedule.later_mono hjk)

theorem sleep_passes (b : Backend σ) {h : Host σ} (ha : h.Ahead) (d : Duration) :
    ∃ made, Passes b made h (h.sleep b d) ∧
      ∀ x ∈ made, x.2 = .purge h.engine.properties.ageLimit := by
  have hlimit := Schedule.le_clockAfter h.clock (.sleep d)
  rw [sleep]
  rcases hs : h.engine.sweep with _ | due | _
  · exact ⟨[], passes_clock hlimit, by simp⟩
  · obtain ⟨made, hp, hmade⟩ := tickAt_passes b hlimit
      (punctual_pairwise (h.clock.after d).roundUp h.engine.properties.purgeInterval
        (Int.le_of_lt (ha due hs)))
      (by
        intro t ht
        obtain ⟨_, hdue, rfl⟩ := List.mem_map.mp ht
        obtain ⟨k, hk, rfl⟩ := List.mem_map.mp hdue
        exact Instant.wake_le_wake (Schedule.later_le (List.mem_range.mp hk)))
    exact ⟨made, hp.withSweep _, hmade⟩
  · exact ⟨[], passes_clock hlimit, by simp⟩

/-- Ticks that run at the present instant take no time. -/
theorem tickAt_replicate_passes (b : Backend σ) (h : Host σ) (n : Nat) :
    ∃ made, Passes b made h (h.tickAt b (List.replicate n h.clock)) ∧
      ∀ x ∈ made, x.2 = .purge h.engine.properties.ageLimit := by
  have heq : ∀ t ∈ List.replicate n h.clock, t = h.clock := fun t ht =>
    List.eq_of_mem_replicate ht
  have hpairs : (h.clock :: List.replicate n h.clock).Pairwise (· ≤ ·) :=
    List.pairwise_cons.mpr ⟨fun t ht => Int.le_of_eq (heq t ht).symm,
      List.pairwise_replicate.mpr (.inr (Int.le_refl _))⟩
  obtain ⟨made, hp, hmade⟩ := tickAt_passes b (Int.le_refl h.clock) hpairs
    fun t ht => Int.le_of_eq (heq t ht)
  have hset : ∀ g : Host σ, g.clock = h.clock → { g with clock := h.clock } = g := by
    rintro ⟨_, _, _, _⟩ rfl
    rfl
  rw [hset _ (tickAt_clock b heq)] at hp
  exact ⟨made, hp, hmade⟩

theorem jump_passes (b : Backend σ) (h : Host σ) (d : Duration) :
    ∃ made, Passes b made h (h.jump b d) ∧
      ∀ x ∈ made, x.2 = .purge h.engine.properties.ageLimit := by
  have hmoved : Passes b [] h { h with clock := h.clock.after d } :=
    passes_clock (h.clock.le_after d)
  rw [jump]
  rcases hs : h.engine.sweep with _ | due | _
  · exact ⟨[], hmoved, by simp⟩
  · obtain ⟨made, hp, hmade⟩ := tickAt_replicate_passes b { h with clock := h.clock.after d }
      (Schedule.overdueCount due (h.clock.after d) h.engine.properties.purgeInterval)
    have hall := hmoved.trans hp
    rw [List.append_nil] at hall
    exact ⟨made, hall.withSweep _, hmade⟩
  · exact ⟨[], hmoved, by simp⟩

/-! ## Commands -/

theorem endSweep_passes (b : Backend σ) (h : Host σ) : Passes b [] h h.endSweep := by
  rw [endSweep]
  split
  · exact ((Passes.refl h).withSweep _).note _
  · exact .refl h

theorem settle_passes (b : Backend σ) (h : Host σ) : Passes b [] h h.settle := by
  rw [settle]
  split
  · exact endSweep_passes b h
  · exact .refl h

theorem access_call (b : Backend σ) (h : Host σ) (now : Instant) (c : Call) :
    h.access (Access.call b now c) =
      ((b.perform now h.work.store c).result,
        { h with work := h.work.after now c (b.perform now h.work.store c) }) := rfl

theorem after_leads (w : Work σ) (now : Instant) (c : Call) :
    Work.Leads b [(now, c)] w (w.after now c (b.perform now w.store c)) := ⟨rfl, rfl⟩

/-- A start that is not refused calls the backend once. The engine is started or, if that fails,
stopped; its periodic purge is the first one either way. -/
theorem start_of_unstarted (b : Backend σ) {h : Host σ} (hu : h.engine.phase = .unstarted) :
    (h.start b).1 = (b.perform h.clock h.work.store .start).result ∧
      (h.start b).2.engine =
        { h.engine with
          phase := match (b.perform h.clock h.work.store .start).result with
            | .ok _ => .started
            | .error _ => .stopped
          sweep := if b.requiresPurge then firstSweep h.clock h.engine.properties.purgeInterval
            else .absent } ∧
      (h.start b).2.clock = h.clock ∧ (h.start b).2.shutdown = h.shutdown ∧
      Work.Leads b [(h.clock, .start)] h.work (h.start b).2.work := by
  have hl := after_leads (b := b) h.work h.clock .start
  rw [start, if_neg (not_not_intro hu)]
  dsimp only
  rw [access_call]
  dsimp only [withSweep, withPhase]
  cases (b.perform h.clock h.work.store .start).result with
  | error why => exact ⟨rfl, rfl, rfl, rfl, hl.note _⟩
  | ok x => exact ⟨rfl, rfl, rfl, rfl, hl.note _⟩

theorem start_of_begun (b : Backend σ) {h : Host σ} (hu : h.engine.phase ≠ .unstarted) :
    h.start b = (.error .alreadyStarted, h) := by
  rw [start, if_pos hu]

theorem start_passes (b : Backend σ) (h : Host σ) :
    ∃ made, Passes b made h (h.start b).2 ∧ ∀ x ∈ made, x.2 = .start := by
  by_cases hu : h.engine.phase = .unstarted
  · obtain ⟨-, he, hc, -, hw⟩ := start_of_unstarted b hu
    refine ⟨[(h.clock, .start)], ⟨hw, Int.le_of_eq hc.symm, ?_, ?_, ?_⟩, by simp⟩
    · simp [hc]
    · rw [he]
    · rw [he]
  · rw [start_of_begun b hu]
    exact ⟨[], .refl h, by simp⟩

/-- A stop that is not refused calls the backend once and answers what that answers. Afterwards the
engine is stopped, and a broken periodic purge is gone. -/
theorem stop_of_begun (b : Backend σ) {h : Host σ} (hu : h.engine.phase ≠ .unstarted) :
    (h.stop b).1 = (b.perform h.clock h.work.store .stop).result ∧
      (∃ s, (h.stop b).2.engine = { h.engine with phase := .stopped, sweep := s } ∧
        (s = h.engine.sweep ∨ s = .absent)) ∧
      (h.stop b).2.clock = h.clock ∧ (h.stop b).2.shutdown = h.shutdown ∧
      Work.Leads b [(h.clock, .stop)] h.work (h.stop b).2.work := by
  have hl := after_leads (b := b) h.work h.clock .stop
  rw [stop]
  rcases hp : h.engine.phase with _ | _ | _
  · exact absurd hp hu
  · dsimp only
    split
    · exact ⟨rfl, ⟨.absent, rfl, .inr rfl⟩, rfl, rfl, ⟨hl.calls, hl.store⟩⟩
    · exact ⟨rfl, ⟨h.engine.sweep, rfl, .inl rfl⟩, rfl, rfl, ⟨hl.calls, hl.store⟩⟩
  · exact ⟨rfl, ⟨h.engine.sweep, by simp [access, ← hp], .inl rfl⟩, rfl, rfl, hl⟩

theorem stop_of_unstarted (b : Backend σ) {h : Host σ} (hu : h.engine.phase = .unstarted) :
    h.stop b = (.error .notStarted, h) := by
  rw [stop, hu]

theorem stop_passes (b : Backend σ) (h : Host σ) :
    ∃ made, Passes b made h (h.stop b).2 ∧ ∀ x ∈ made, x.2 = .stop := by
  by_cases hu : h.engine.phase = .unstarted
  · rw [stop_of_unstarted b hu]
    exact ⟨[], .refl h, by simp⟩
  · obtain ⟨-, ⟨s, he, -⟩, hc, -, hw⟩ := stop_of_begun b hu
    refine ⟨[(h.clock, .stop)], ⟨hw, Int.le_of_eq hc.symm, ?_, ?_, ?_⟩, by simp⟩
    · simp [hc]
    · rw [he]
    · rw [he]

/-- A command makes no calls but its own. -/
theorem obey_passes (b : Backend σ) {h : Host σ} (ha : h.Ahead) (c : Command) :
    ∃ made, Passes b made h (h.obey b c).2 ∧
      ∀ x ∈ made, c.Permits h.engine.properties.ageLimit x.2 := by
  cases c with
  | getSession id => exact access_passes (h.engine.getSession_consists b h.clock id)
  | saveSession id s => exact access_passes (h.engine.saveSession_consists b h.clock id s)
  | sessionExists id => exact access_passes (h.engine.sessionExists_consists b h.clock id)
  | deleteSession id => exact access_passes (h.engine.deleteSession_consists b h.clock id)
  | touchSession id => exact access_passes (h.engine.touchSession_consists b h.clock id)
  | purge => exact access_passes (h.engine.purge_consists b h.clock)
  | setEnabled on => exact ⟨[], ⟨.refl _, Int.le_refl _, by simp, rfl, rfl⟩, by simp⟩
  | start =>
    obtain ⟨made, hp, hmade⟩ := start_passes b h
    exact ⟨made, hp, fun x hx => by rw [hmade x hx]; trivial⟩
  | stop =>
    obtain ⟨made, hp, hmade⟩ := stop_passes b h
    exact ⟨made, hp, fun x hx => by rw [hmade x hx]; trivial⟩
  | shutDown => exact ⟨[], ⟨.refl _, Int.le_refl _, by simp, rfl, rfl⟩, by simp⟩
  | drop => exact ⟨[], endSweep_passes b h, by simp⟩
  | sleep d =>
    obtain ⟨made, hp, hmade⟩ := sleep_passes b ha d
    exact ⟨made, hp, fun x hx => by rw [hmade x hx]; rfl⟩
  | jump d =>
    obtain ⟨made, hp, hmade⟩ := jump_passes b h d
    exact ⟨made, hp, fun x hx => by rw [hmade x hx]; rfl⟩

theorem step_passes (b : Backend σ) {h : Host σ} (ha : h.Ahead) (c : Command) :
    ∃ made, Passes b made h (h.step b c).2 ∧
      ∀ x ∈ made, c.Permits h.engine.properties.ageLimit x.2 := by
  obtain ⟨made, hp, hmade⟩ := obey_passes b ha c
  exact ⟨made, hp.trans (settle_passes b _), hmade⟩

/-! ## The schedule during a run -/

theorem Keeps.ahead (k : Keeps h h') (ha : h.Ahead) : h'.Ahead := by
  intro due hd
  rw [k.engine] at hd
  rw [k.clock]
  exact ha due hd

theorem endSweep_ahead (ha : h.Ahead) : h.endSweep.Ahead := by
  rw [endSweep]
  split
  · intro due hd
    simp [note, withSweep] at hd
  · exact ha

theorem settle_ahead (ha : h.Ahead) : h.settle.Ahead := by
  rw [settle]
  split
  · exact endSweep_ahead ha
  · exact ha

theorem sleep_ahead (b : Backend σ) (hi : 0 < h.engine.properties.purgeInterval.nanos)
    (d : Duration) : (h.sleep b d).Ahead := by
  intro due hd
  rw [sleep] at hd ⊢
  rcases hs : h.engine.sweep with _ | first | _
  · simp [hs] at hd
  · simp only [hs, withSweep, Sweep.waiting.injEq] at hd ⊢
    rw [← hd, Instant.roundDown_wake]
    exact Schedule.lt_later_dueCount hi
  · simp [hs] at hd

theorem jump_ahead (b : Backend σ) (hi : 0 < h.engine.properties.purgeInterval.nanos)
    (d : Duration) : (h.jump b d).Ahead := by
  intro due hd
  rw [jump] at hd ⊢
  rcases hs : h.engine.sweep with _ | first | _
  · simp [hs] at hd
  · simp only [hs, withSweep, overdueSweep] at hd ⊢
    split at hd
    · simp at hd
    · rw [← Sweep.waiting.inj hd, tickAt_clock b fun t ht => List.eq_of_mem_replicate ht]
      exact Schedule.lt_afterOverdue hi
  · simp [hs] at hd

theorem obey_ahead (b : Backend σ) (ha : h.Ahead)
    (hi : 0 < h.engine.properties.purgeInterval.nanos) (c : Command) : (h.obey b c).2.Ahead := by
  cases c with
  | getSession | saveSession | sessionExists | deleteSession | touchSession | purge =>
    exact (access_keeps h _).ahead ha
  | setEnabled | shutDown => exact ha
  | start =>
    by_cases hu : h.engine.phase = .unstarted
    · obtain ⟨-, he, hc, -⟩ := start_of_unstarted b hu
      intro due hd
      simp only [obey, he, hc] at hd ⊢
      split at hd
      · simp only [firstSweep] at hd
        split at hd
        · have hdown := h.clock.roundDown_le
          simp only [Sweep.waiting.injEq, Instant.after] at hd
          lia
        · simp at hd
      · simp at hd
    · simp only [obey, start_of_begun b hu]
      exact ha
  | stop =>
    by_cases hu : h.engine.phase = .unstarted
    · simp only [obey, stop_of_unstarted b hu]
      exact ha
    · obtain ⟨-, ⟨s, he, hs⟩, hc, -⟩ := stop_of_begun b hu
      intro due hd
      simp only [obey, he, hc] at hd ⊢
      rcases hs with rfl | rfl
      · exact ha due hd
      · simp at hd
  | drop => exact endSweep_ahead ha
  | sleep d => exact sleep_ahead b hi d
  | jump d => exact jump_ahead b hi d

theorem step_ahead (b : Backend σ) (ha : h.Ahead)
    (hi : 0 < h.engine.properties.purgeInterval.nanos) (c : Command) : (h.step b c).2.Ahead :=
  settle_ahead (obey_ahead b ha hi c)

/-! ## Runs -/

/-- An engine that has just been made, over a store to which nothing has happened. -/
def fresh (e : Engine) (s : σ) (t : Instant) : Host σ := ⟨e, .fresh s, t, false⟩

theorem fresh_ahead {e : Engine} (he : e.sweep = .absent) (s : σ) (t : Instant) :
    (fresh e s t).Ahead := by
  intro due hd
  simp [fresh, he] at hd

/-- The host after a sequence of commands. -/
def run (b : Backend σ) (h : Host σ) (cs : List Command) : Host σ :=
  cs.foldl (fun h c => (h.step b c).2) h

theorem run_passes (b : Backend σ) {h : Host σ} (ha : h.Ahead)
    (hi : 0 < h.engine.properties.purgeInterval.nanos) (cs : List Command) :
    (h.run b cs).Ahead ∧ ∃ made, Passes b made h (h.run b cs) ∧
      ∀ x ∈ made, ∃ c ∈ cs, c.Permits h.engine.properties.ageLimit x.2 := by
  induction cs generalizing h with
  | nil => exact ⟨ha, [], .refl h, by simp⟩
  | cons c cs ih =>
    obtain ⟨made, hp, hmade⟩ := step_passes b ha c
    obtain ⟨ha', more, hq, hmore⟩ := ih (step_ahead b ha hi c) (by rw [hp.properties]; exact hi)
    refine ⟨ha', more ++ made, hp.trans hq, ?_⟩
    intro x hx
    rcases List.mem_append.mp hx with hx | hx
    · obtain ⟨c', hc', h'⟩ := hmore x hx
      rw [hp.properties] at h'
      exact ⟨c', by simp [hc'], h'⟩
    · exact ⟨c, by simp, hmade x hx⟩

end Host

end SessionStore
