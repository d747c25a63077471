import SessionStore.Proofs.Engine.Clockwork
import SessionStore.Proofs.Engine.Separation
import SessionStore.Proofs.Store.Foreign

/-! # Engines that are switched off

While an engine is switched off, every operation on sessions is refused before it does anything, and
a tick of the periodic purge leaves the store alone. Starting, stopping and the passing of time go
on as ever, so that nothing has been lost when the engine is switched on again.
-/

namespace SessionStore

variable {σ : Type} {b : Backend σ}

/-- The operations on sessions, with the purge of all of them. -/
def Command.IsGuarded : Command → Prop
  | .getSession _ | .saveSession _ _ | .sessionExists _ | .deleteSession _ | .touchSession _
  | .purge => True
  | _ => False

/-- The backend is called because the engine is started or stopped. -/
def Call.Belongs (cs : List Command) (c : Call) : Prop :=
  c = .start ∧ Command.start ∈ cs ∨ c = .stop ∧ Command.stop ∈ cs

/-- What is seen of the store is left alone by a start and a stop of the backend. -/
def Backend.Rests {α : Type} (b : Backend σ) (view : σ → α) : Prop :=
  ∀ t s, view (b.perform t s .start).store = view s ∧ view (b.perform t s .stop).store = view s

theorem Backend.Rests.replay {α : Type} {view : σ → α} (hb : b.Rests view) {cs : List Command}
    {made : List (Instant × Call)} (hmade : ∀ x ∈ made, x.2.Belongs cs) (s : σ) :
    view (b.replay s made) = view s := by
  induction made with
  | nil => rfl
  | cons x made ih =>
    obtain ⟨t, c⟩ := x
    obtain ⟨hlast, hbefore⟩ := List.forall_mem_cons.mp hmade
    rw [Backend.replay, ← ih hbefore]
    rcases hlast with ⟨rfl, -⟩ | ⟨rfl, -⟩
    · exact (hb t _).1
    · exact (hb t _).2

/-- All entries in memory, with the instants from which their idle times count. -/
theorem Memory.rests : Memory.backend.Rests fun m => m := fun _ _ => ⟨rfl, rfl⟩

/-- All files, with the instants of their last changes. -/
theorem FileStore.rests (f : FileStore) :
    f.backend.Rests fun d l => (d.node? l).bind Node.entry? := by
  refine fun now d => ⟨?_, rfl⟩
  funext l
  have hspares := f.start_spares (fun _ => False) now d
  change ((f.perform now d .start).store.node? l).bind Node.entry? = (d.node? l).bind Node.entry?
  rcases hspares.node? l id with hsame | ⟨hfile, _, _, hdir⟩
  · rw [hsame]
  · rw [hdir]
    rcases hn : d.node? l with _ | ⟨contents, mode, modified⟩ | _ | _
    · rfl
    · exact absurd ⟨contents, mode, modified, hn⟩ hfile
    · rfl
    · rfl

namespace Host

variable {h g : Host σ} {c : Command}

/-- The host with its engine switched on or off, and nothing else done to it. -/
def switch (h : Host σ) (on : Bool) : Host σ := { h with engine := h.engine.setEnabled on }

/-! ## Single commands -/

theorem obey_refused (hoff : h.engine.enabled = false) (hc : c.IsGuarded) :
    (h.obey b c).1 = .error .disabled ∧ (h.obey b c).2 = h := by
  rcases h with ⟨⟨p, encoder, on, phase, sweep⟩, w, t, down⟩
  obtain rfl : on = false := hoff
  cases c with
  | setEnabled | start | stop | shutDown | drop | sleep | jump => exact hc.elim
  | _ => exact ⟨rfl, rfl⟩

theorem swept_off {e : Engine} (hoff : e.enabled = false) (w : Work σ) (t : Instant) :
    swept b e w t = w.note .sweepSkipped := by
  rcases e with ⟨p, encoder, on, phase, sweep⟩
  obtain rfl : on = false := hoff
  rfl

/-- Ticks come and go, and the store is not called. -/
theorem foldl_swept_off {e : Engine} (hoff : e.enabled = false) (w : Work σ)
    (times : List Instant) : Work.Leads b [] w (times.foldl (swept b e) w) := by
  induction times generalizing w with
  | nil => exact .refl w
  | cons t times ih =>
    rw [List.foldl_cons, swept_off hoff]
    exact ((Work.Leads.refl w).note .sweepSkipped).trans (ih _)

theorem endSweep_leads (b : Backend σ) (h : Host σ) : Work.Leads b [] h.work h.endSweep.work :=
  (endSweep_passes b h).leads

theorem step_off (b : Backend σ) (hoff : h.engine.enabled = false) (hc : c ≠ .setEnabled true) :
    (h.step b c).2.engine.enabled = false := by
  rw [(step_follows b h c).enabled]
  unfold nextEnabled
  split
  case h_1 on =>
    cases on with
    | false => rfl
    | true => exact absurd rfl hc
  case h_2 => exact hoff

/-- While the engine is switched off, only its start and its stop call the backend. -/
theorem step_calls_off (b : Backend σ) (hoff : h.engine.enabled = false) (c : Command) :
    ∃ made, Work.Leads b made h.work (h.step b c).2.work ∧ ∀ x ∈ made, x.2.Belongs [c] := by
  suffices hobey : ∃ made, Work.Leads b made h.work (h.obey b c).2.work ∧
      ∀ x ∈ made, x.2.Belongs [c] by
    obtain ⟨made, hleads, hmade⟩ := hobey
    exact ⟨made, hleads.trans (settle_passes b _).leads, hmade⟩
  by_cases hc : c.IsGuarded
  · rw [(obey_refused hoff hc).2]
    exact ⟨[], .refl _, by simp⟩
  cases c with
  | start =>
    obtain ⟨made, hp, hmade⟩ := start_passes b h
    exact ⟨made, hp.leads, fun x hx => .inl ⟨hmade x hx, by simp⟩⟩
  | stop =>
    obtain ⟨made, hp, hmade⟩ := stop_passes b h
    exact ⟨made, hp.leads, fun x hx => .inr ⟨hmade x hx, by simp⟩⟩
  | setEnabled | shutDown => exact ⟨[], .refl _, by simp⟩
  | drop => exact ⟨[], endSweep_leads b h, by simp⟩
  | sleep | jump =>
    refine ⟨[], ?_, by simp⟩
    simp only [obey, sleep_eq, jump_eq]
    exact foldl_swept_off hoff h.work _
  | getSession | saveSession | sessionExists | deleteSession | touchSession | purge =>
    exact absurd trivial hc

/-! ## What does not depend on the switch -/

theorem endSweep_switch (h : Host σ) (on : Bool) :
    (h.switch on).endSweep = h.endSweep.switch on := by
  rcases h with ⟨⟨p, encoder, en, phase, _ | _ | _⟩, w, t, down⟩ <;> rfl

theorem settle_switch (h : Host σ) (on : Bool) : (h.switch on).settle = h.settle.switch on := by
  by_cases hend : h.shutdown ∨ h.engine.phase = .stopped
  · have hend' : (h.switch on).shutdown ∨ (h.switch on).engine.phase = .stopped := hend
    rw [settle, if_pos hend', settle, if_pos hend, endSweep_switch]
  · have hend' : ¬((h.switch on).shutdown ∨ (h.switch on).engine.phase = .stopped) := hend
    rw [settle, if_neg hend', settle, if_neg hend]

theorem start_switch (b : Backend σ) (h : Host σ) (on : Bool) :
    (h.switch on).start b = ((h.start b).1, (h.start b).2.switch on) := by
  rcases h with ⟨⟨p, encoder, en, _ | _ | _, sweep⟩, w, t, down⟩
  · have hu : ∀ en, (⟨⟨p, encoder, en, .unstarted, sweep⟩, w, t, down⟩ : Host σ).engine.phase =
        .unstarted := fun _ => rfl
    simp only [start, switch, Engine.setEnabled, ne_eq, not_true_eq_false, if_false, withPhase,
      withSweep, access_call]
    cases (b.perform t w.store .start).result <;> rfl
  · rfl
  · rfl

theorem stop_switch (b : Backend σ) (h : Host σ) (on : Bool) :
    (h.switch on).stop b = ((h.stop b).1, (h.stop b).2.switch on) := by
  rcases h with ⟨⟨p, encoder, en, _ | _ | _, _ | _ | _⟩, w, t, down⟩ <;> rfl

/-- A start and a stop do the same whether or not the engine is switched on. -/
theorem step_switch (b : Backend σ) (h : Host σ) (on : Bool) :
    (h.switch on).step b .start = ((h.step b .start).1, (h.step b .start).2.switch on) ∧
      (h.switch on).step b .stop = ((h.step b .stop).1, (h.step b .stop).2.switch on) := by
  simp only [step, obey, start_switch, stop_switch, settle_switch, and_self]

/-! ## Switched on again -/

theorem step_enable (b : Backend σ) (hh : h.Settled) :
    (h.step b (.setEnabled true)).2 = h.switch true :=
  settle_of_settled hh

theorem run_settled (hh : h.Settled) (cs : List Command) : (h.run b cs).Settled := by
  induction cs generalizing h with
  | nil => exact hh
  | cons c cs ih => exact ih (step_settled b h c)

/-- What a stretch of commands comes to on an engine that is switched off. -/
structure Closed (b : Backend σ) (h : Host σ) (cs : List Command) : Prop where
  off : (h.run b cs).engine.enabled = false
  /-- Operations on sessions are refused, whatever their arguments are, and leave no trace. -/
  refused : ∀ c : Command, c.IsGuarded →
    ((h.run b cs).step b c).1 = .error .disabled ∧ ((h.run b cs).step b c).2 = h.run b cs
  /-- The backend is started and stopped, and not called otherwise. -/
  calls : ∃ made, Work.Leads b made h.work (h.run b cs).work ∧ ∀ x ∈ made, x.2.Belongs cs
  stored : ∀ {α : Type} (view : σ → α), b.Rests view →
    view (h.run b cs).work.store = view h.work.store
  start : ((h.run b cs).switch true).step b .start =
    (((h.run b cs).step b .start).1, ((h.run b cs).step b .start).2.switch true)
  stop : ((h.run b cs).switch true).step b .stop =
    (((h.run b cs).step b .stop).1, ((h.run b cs).step b .stop).2.switch true)
  /-- Any other run that starts alike and shares the lifecycle has the same clockwork, whatever the
  switch and the store are in it, if it has the same outcome of a start. -/
  schedule : ∀ (g : Host σ) (cs' : List Command), g.clockwork = h.clockwork →
    cs'.filter (·.IsLifecycle) = cs.filter (·.IsLifecycle) →
    (h.engine.phase ≠ .unstarted ∨
      ∃ starts, ∀ t s, (b.perform t s .start).result.toBool = starts) →
    (g.run b cs').clockwork = (h.run b cs).clockwork ∧ g.ticksOf b cs' = h.ticksOf b cs
  /-- Once the engine is switched on, time makes a purge of every tick. -/
  resumed : ∀ c : Command, c.TakesTime →
    (((h.run b cs).step b (.setEnabled true)).2.step b c).2.work.calls =
      ((h.run b cs).ticks c).reverse.map
        (·, .purge (h.run b cs).engine.properties.ageLimit) ++ (h.run b cs).work.calls
  /-- The first of the ticks is the one that was due, and its timer has not gone off yet. -/
  due : ∀ due, (h.run b cs).engine.sweep = .waiting due →
    (h.run b cs).clock < (h.run b cs).clock.wake due ∧
      ((h.run b cs).step b (.setEnabled true)).2.engine.sweep = .waiting due ∧
      ∀ d, due ≤ ((h.run b cs).clock.after d).roundUp →
        ((h.run b cs).ticks (.sleep d)).head? = some ((h.run b cs).clock.wake due)

theorem run_off (b : Backend σ) (hoff : h.engine.enabled = false) {cs : List Command}
    (hcs : .setEnabled true ∉ cs) :
    (h.run b cs).engine.enabled = false ∧
      ∃ made, Work.Leads b made h.work (h.run b cs).work ∧ ∀ x ∈ made, x.2.Belongs cs := by
  induction cs generalizing h with
  | nil => exact ⟨hoff, [], .refl _, by simp⟩
  | cons c cs ih =>
    rw [List.mem_cons, not_or] at hcs
    obtain ⟨hc, hcs⟩ := hcs
    obtain ⟨made, hfirst, hmade⟩ := step_calls_off b hoff c
    obtain ⟨hend, more, hrest, hmore⟩ := ih (step_off b hoff (Ne.symm hc)) hcs
    refine ⟨hend, more ++ made, hfirst.trans hrest, ?_⟩
    intro x hx
    rcases List.mem_append.mp hx with hx | hx
    · exact (hmore x hx).imp (fun hstart => ⟨hstart.1, List.mem_cons_of_mem _ hstart.2⟩)
        fun hstop => ⟨hstop.1, List.mem_cons_of_mem _ hstop.2⟩
    · refine (hmade x hx).imp (fun hstart => ⟨hstart.1, ?_⟩) fun hstop => ⟨hstop.1, ?_⟩
      · rw [List.mem_singleton.mp hstart.2]
        exact List.mem_cons_self
      · rw [List.mem_singleton.mp hstop.2]
        exact List.mem_cons_self

theorem closed_of_off (b : Backend σ) (hoff : h.engine.enabled = false) (hh : h.Settled)
    (ha : h.Ahead) (hi : 0 < h.engine.properties.purgeInterval.nanos) {cs : List Command}
    (hcs : .setEnabled true ∉ cs) : Closed b h cs := by
  obtain ⟨hend, hcalls⟩ := run_off b hoff hcs
  have hsettled := run_settled (b := b) hh cs
  obtain ⟨hahead, made, hpasses, -⟩ := run_passes b ha hi cs
  refine ⟨hend, ?_, hcalls, ?_, (step_switch b _ true).1, (step_switch b _ true).2, ?_, ?_, ?_⟩
  · intro c hc
    obtain ⟨hanswer, hhost⟩ := obey_refused (b := b) hend hc
    refine ⟨hanswer, ?_⟩
    change ((h.run b cs).obey b c).2.settle = _
    rw [hhost, settle_of_settled hsettled]
  · intro α view hview
    obtain ⟨made, hleads, hmade⟩ := hcalls
    rw [hleads.store]
    exact hview.replay hmade _
  · intro g cs' heq hfilter hstart
    rcases hstart with hu | ⟨starts, hstarts⟩
    · have hbegun : h.engine.phase ≠ .unstarted ∨
          ∀ t s, (b.perform t s .start).result.toBool = true := .inl hu
      exact run_clockwork_congr hh heq hbegun hfilter
    · exact run_clockwork_congr hh heq (.inr hstarts) hfilter
  · intro c hc
    rw [step_enable b hsettled, step_time_calls b _ hc]
    rfl
  · intro due hdue
    refine ⟨Instant.lt_wake_iff.mpr (hahead due hdue), ?_, ?_⟩
    · rw [step_enable b hsettled]
      exact hdue
    · intro d hd
      have hinterval : 0 < (h.run b cs).engine.properties.purgeInterval.nanos := by
        rw [hpasses.properties]
        exact hi
      rw [ticks, hdue]
      simp only [Schedule.ticks]
      rw [Schedule.punctual_cons hinterval hd, List.map_cons, List.head?_cons]

/-- At whatever moment of a run the engine is found switched off, until it is switched on again
everything asked about sessions is refused, the store is left alone, and the rest goes on as ever.
Neither of the two stores has entries that a start or a stop would change. -/
theorem closed_while_disabled {p : Properties} {e : Engine} (he : Engine.make p = .ok e)
    (encoder : Encoder) (b : Backend σ) (s : σ) (t : Instant) (past cs : List Command)
    (hoff : ((fresh (e.withEncoder encoder) s t).run b past).engine.enabled = false)
    (hcs : .setEnabled true ∉ cs) :
    Closed b ((fresh (e.withEncoder encoder) s t).run b past) cs ∧
      (Memory.backend.Rests fun m => m) ∧
      ∀ f : FileStore, f.backend.Rests fun d l => (d.node? l).bind Node.entry? := by
  obtain ⟨hf, rfl⟩ := Engine.make_eq_ok_iff.mp he
  let h := fresh ((Engine.ofProperties p).withEncoder encoder) s t
  have hi : 0 < h.engine.properties.purgeInterval.nanos := Properties.purgeInterval_pos hf
  have hh : h.Settled := fresh_settled rfl s t
  have hfresh : h.Ahead := fresh_ahead rfl s t
  obtain ⟨ha, made, hpasses, -⟩ := run_passes b hfresh hi past
  have hi' : 0 < (h.run b past).engine.properties.purgeInterval.nanos := by
    rw [hpasses.properties]
    exact hi
  exact ⟨closed_of_off b hoff (run_settled hh past) ha hi' hcs, Memory.rests, FileStore.rests⟩

/-- An engine is switched off over an entry that has long been too old. The ticks at two, four and
six minutes leave it, and the one at eight minutes, after the engine is switched on, comes as a
purge. -/
theorem closed_while_disabled_standard :
    let h := (fresh ((Engine.ofProperties .standard).withEncoder .json) (∅ : Memory) 0).run
      Memory.backend [.start, .saveSession "k" (Session.withData "k" ∅), .setEnabled false]
    let cs : List Command := [.getSession "", .sleep (.ofSeconds 400), .purge, .deleteSession "k"]
    let on := ((h.run Memory.backend cs).step Memory.backend (.setEnabled true)).2
    Engine.make .standard = .ok (.ofProperties .standard) ∧ h.engine.enabled = false ∧
      ((h.run Memory.backend cs).step Memory.backend (.getSession "")).1 = .error .disabled ∧
      (h.run Memory.backend cs).work.store = h.work.store ∧
      (on.step Memory.backend (.sleep (.ofSeconds 100))).2.work.calls =
        (480000000000, .purge Properties.standard.ageLimit) :: h.work.calls := by
  intro h cs on
  have hmake : Engine.make .standard = .ok (.ofProperties .standard) := rfl
  have hoff : h.engine.enabled = false := rfl
  obtain ⟨hstretch, hmemory, -⟩ := closed_while_disabled hmake .json Memory.backend ∅ 0
    [.start, .saveSession "k" (Session.withData "k" ∅), .setEnabled false] cs hoff (by simp [cs])
  have hclosed : Closed Memory.backend h cs := hstretch
  have hcalls : (h.run Memory.backend cs).work.calls = h.work.calls := by
    obtain ⟨made, hleads, hmade⟩ := hclosed.calls
    obtain rfl : made = [] := List.eq_nil_iff_forall_not_mem.mpr fun x hx => by
      rcases hmade x hx with ⟨-, hmem⟩ | ⟨-, hmem⟩ <;> simp [cs] at hmem
    exact hleads.calls
  have hticks : (h.run Memory.backend cs).ticks (.sleep (.ofSeconds 100)) = [480000000000] := by
    decide +kernel
  have hlimit : (h.run Memory.backend cs).engine.properties.ageLimit =
      Properties.standard.ageLimit := by decide +kernel
  refine ⟨hmake, hoff, (hclosed.refused (.getSession "") trivial).1,
    hclosed.stored (fun m => m) hmemory, ?_⟩
  refine (hclosed.resumed (.sleep (.ofSeconds 100)) trivial).trans ?_
  rw [hticks, hcalls, hlimit]
  rfl

end Host

end SessionStore
