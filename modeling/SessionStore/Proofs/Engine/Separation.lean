import SessionStore.Proofs.Engine.Phases
import SessionStore.Proofs.Store.Ledger

/-! # Two runs that agree on one id

Let two runs of an engine differ in what they do about other ids only. If a backend can be related
to itself so that calls about one id keep apart from those about the others, then the two runs give
the same answers about that id and leave the same under it.
-/

namespace SessionStore

variable {σ : Type}

/-- A call about any of the ids in use other than `k` stays within what is related, and the calls
that both sides make have the same result and keep the relation. What is related may be another
thing once the backend has been started. -/
structure Backend.Separates (b : Backend σ) (used : String → Prop) (k : String)
    (R : Bool → σ → σ → Prop) : Prop where
  other : ∀ {begun s t j c}, R begun s t → used j → j ≠ k → c.ids = [j] → ∀ now,
    R begun (b.perform now s c).store t
  own : ∀ {begun s t c}, R begun s t → c.ids = [k] ∨ c = .stop → ∀ now,
    (b.perform now s c).result = (b.perform now t c).result ∧
      R begun (b.perform now s c).store (b.perform now t c).store
  start : ∀ {s t}, R false s t → ∀ now,
    (b.perform now s .start).result = (b.perform now t .start).result ∧
      R true (b.perform now s .start).store (b.perform now t .start).store
  purge : ∀ {begun s t}, R begun s t → ∀ now maxAge,
    R begun (b.perform now s (.purge maxAge)).store (b.perform now t (.purge maxAge)).store

theorem Backend.Separates.replay {b : Backend σ} {used : String → Prop} {k : String}
    {R : Bool → σ → σ → Prop} (hb : b.Separates used k R) {begun : Bool} {s t : σ}
    (h : R begun s t) {made : List Call} {j : String} (hj : used j) (hk : j ≠ k)
    (hmade : ∀ c ∈ made, c.ids = [j]) (now : Instant) :
    R begun (b.replay s (made.map (now, ·))) t := by
  induction made with
  | nil => exact h
  | cons c made ih =>
    have hrest := ih fun c' hc' => hmade c' (List.mem_cons_of_mem _ hc')
    exact hb.other hrest hj hk (hmade c List.mem_cons_self) now

namespace Command

/-- The id of the session that a command is about. -/
def subject? : Command → Option String
  | .getSession id | .saveSession id _ | .sessionExists id | .deleteSession id
  | .touchSession id => some id
  | _ => none

/-- The command is about this session, or about none. -/
def concerns (k : String) (c : Command) : Bool :=
  match c.subject? with
  | some id => id == k
  | none => true

theorem ids_of_permits {ageLimit : Duration} {c : Command} {id : String} {call : Call}
    (hc : c.subject? = some id) (h : c.Permits ageLimit call) : call.ids = [id] := by
  cases c <;> cases call <;> simp_all [subject?, Permits, Call.ids]

end Command

namespace Access

variable {α β : Type} {b : Backend σ} {now : Instant} {P : Call → Prop} {R : σ → σ → Prop}

/-- From stores that are related the operation has the same result, and leads to stores that are. -/
def Parallel (R : σ → σ → Prop) (a : Access σ α) : Prop :=
  ∀ w v, R w.store v.store → (a.perform w).1 = (a.perform v).1 ∧
    R (a.perform w).2.store (a.perform v).2.store

theorem parallel_bind {a : Access σ α} {f : α → Access σ β} (ha : Parallel R a)
    (hf : ∀ x, Parallel R (f x)) : Parallel R (a >>= f) := by
  intro w v h
  obtain ⟨hresult, hstore⟩ := ha w v h
  rw [perform_bind, perform_bind]
  rcases hw : a.perform w with ⟨why | x, w'⟩ <;> rcases hv : a.perform v with ⟨why' | y, v'⟩ <;>
    simp only [hw, hv] at hresult hstore
  · exact ⟨congrArg Except.error (Except.error.inj hresult), hstore⟩
  · cases hresult
  · cases hresult
  · cases hresult
    exact hf x w' v' hstore

/-- An operation runs in parallel if its calls do. -/
theorem Consists.parallel {a : Access σ α} (h : Consists b now P a)
    (hP : ∀ c, P c → Parallel R (Access.call b now c)) : Parallel R a := by
  induction h with
  | pure x => exact fun w v h => ⟨rfl, h⟩
  | ofExcept x => exact fun w v h => ⟨rfl, h⟩
  | note e => exact fun w v h => ⟨rfl, h⟩
  | call hc => exact hP _ hc
  | bind _ _ ha hf => exact parallel_bind ha hf

end Access

namespace Host

/-- There was an attempt to start the engine. -/
def begun (h : Host σ) : Bool := h.engine.phase != .unstarted

/-- The hosts are in the same state, and their stores are related. -/
structure Beside (R : Bool → σ → σ → Prop) (h g : Host σ) : Prop where
  engine : h.engine = g.engine
  clock : h.clock = g.clock
  shutdown : h.shutdown = g.shutdown
  store : R h.begun h.work.store g.work.store

variable {b : Backend σ} {used : String → Prop} {k : String} {R : Bool → σ → σ → Prop}
  {h g : Host σ} {c : Command}

/-- A command about a session is an operation with calls about its id alone, which depends on the
engine and the time and on nothing else. -/
theorem exists_access (b : Backend σ) (e : Engine) (now : Instant) {id : String}
    (hc : c.subject? = some id) :
    ∃ a : Access σ c.Answer, a.Consists b now (fun call => call.ids = [id]) ∧
      ∀ h : Host σ, h.engine = e → h.clock = now → h.obey b c = h.access a := by
  have hids : ∀ call, c.Permits e.properties.ageLimit call → call.ids = [id] :=
    fun call => Command.ids_of_permits hc
  cases c with
  | getSession j =>
    refine ⟨_, (e.getSession_consists b now j).mono hids, ?_⟩
    rintro h rfl rfl
    rfl
  | saveSession j s =>
    refine ⟨_, (e.saveSession_consists b now j s).mono hids, ?_⟩
    rintro h rfl rfl
    rfl
  | sessionExists j =>
    refine ⟨_, (e.sessionExists_consists b now j).mono hids, ?_⟩
    rintro h rfl rfl
    rfl
  | deleteSession j =>
    refine ⟨_, (e.deleteSession_consists b now j).mono hids, ?_⟩
    rintro h rfl rfl
    rfl
  | touchSession j =>
    refine ⟨_, (e.touchSession_consists b now j).mono hids, ?_⟩
    rintro h rfl rfl
    rfl
  | purge | setEnabled | start | stop | shutDown | drop | sleep | jump => cases hc

namespace Beside

/-! ## What is done about one session -/

/-- What is done about another id on one side makes no difference. -/
theorem obey_other (hb : b.Separates used k R) (hs : Beside R h g) {j : String} (hj : used j)
    (hk : j ≠ k) (hc : c.subject? = some j) : Beside R (h.obey b c).2 g := by
  obtain ⟨a, ha, hobey⟩ := exists_access b h.engine h.clock hc
  obtain ⟨made, hmade, hw⟩ := ha.makes h.work
  have hstore : (h.access a).2.work.store = b.replay h.work.store (made.map (h.clock, ·)) :=
    hw.store
  rw [hobey h rfl rfl]
  refine ⟨hs.engine, hs.clock, hs.shutdown, ?_⟩
  rw [hstore]
  exact hb.replay hs.store hj hk hmade h.clock

/-- What is done about the id itself has the same answer on both sides. -/
theorem obey_own (hb : b.Separates used k R) (hs : Beside R h g) (hc : c.subject? = some k) :
    (h.obey b c).1 = (g.obey b c).1 ∧ Beside R (h.obey b c).2 (g.obey b c).2 := by
  obtain ⟨a, ha, hobey⟩ := exists_access b h.engine h.clock hc
  have hparallel : Access.Parallel (R h.begun) a := ha.parallel fun call hcall w v hw =>
    hb.own hw (.inl hcall) _
  obtain ⟨hanswer, hstore⟩ := hparallel h.work g.work hs.store
  rw [hobey h rfl rfl, hobey g hs.engine.symm hs.clock.symm]
  exact ⟨hanswer, hs.engine, hs.clock, hs.shutdown, hstore⟩

/-! ## What is done about none -/

theorem endSweep (hs : Beside R h g) : Beside R h.endSweep g.endSweep := by
  rcases h with ⟨e, w, t, down⟩
  rcases g with ⟨_, v, _, _⟩
  obtain ⟨rfl, rfl, rfl, hstore⟩ := hs
  unfold Host.endSweep
  dsimp only
  split
  · exact ⟨rfl, rfl, rfl, hstore⟩
  · exact ⟨rfl, rfl, rfl, hstore⟩

theorem settle (hs : Beside R h g) : Beside R h.settle g.settle := by
  rw [Host.settle, Host.settle, ← hs.shutdown, ← hs.engine]
  split
  · exact hs.endSweep
  · exact hs

theorem purge (hb : b.Separates used k R) (hs : Beside R h g) :
    Beside R (h.access (h.engine.purge b h.clock)).2 (g.access (g.engine.purge b g.clock)).2 := by
  refine ⟨hs.engine, hs.clock, hs.shutdown, ?_⟩
  change R h.begun _ _
  rw [store_purge, store_purge, ← hs.engine, ← hs.clock]
  split
  · exact hb.purge hs.store h.clock h.engine.properties.ageLimit
  · exact hs.store

theorem tick (hb : b.Separates used k R) (hs : Beside R h g) : Beside R (h.tick b) (g.tick b) := by
  have hh := tick_keeps b h
  have hg := tick_keeps b g
  refine ⟨?_, ?_, ?_, ?_⟩
  · rw [hh.engine, hg.engine, hs.engine]
  · rw [hh.clock, hg.clock, hs.clock]
  · rw [hh.shutdown, hg.shutdown, hs.shutdown]
  · rw [store_tick, store_tick, begun, hh.engine, ← store_purge, ← store_purge]
    exact (hs.purge hb).store

theorem at_clock (hs : Beside R h g) (t : Instant) :
    Beside R { h with clock := t } { g with clock := t } :=
  ⟨hs.engine, rfl, hs.shutdown, hs.store⟩

theorem withSweep (hs : Beside R h g) (s : Sweep) : Beside R (h.withSweep s) (g.withSweep s) where
  engine := by rw [Host.withSweep, Host.withSweep, hs.engine]
  clock := hs.clock
  shutdown := hs.shutdown
  store := hs.store

theorem tickAt (hb : b.Separates used k R) (hs : Beside R h g) (times : List Instant) :
    Beside R (h.tickAt b times) (g.tickAt b times) := by
  induction times generalizing h g with
  | nil => exact hs
  | cons t times ih => exact ih ((hs.at_clock t).tick hb)

theorem sleep (hb : b.Separates used k R) (hs : Beside R h g) (d : Duration) :
    Beside R (h.sleep b d) (g.sleep b d) := by
  rcases h with ⟨e, w, t, down⟩
  rcases g with ⟨_, v, _, _⟩
  obtain ⟨rfl, rfl, rfl, -⟩ := id hs
  unfold Host.sleep
  dsimp only
  split
  · exact ((hs.tickAt hb _).withSweep _).at_clock _
  · exact hs.at_clock _
  · exact hs.at_clock _

theorem jump (hb : b.Separates used k R) (hs : Beside R h g) (d : Duration) :
    Beside R (h.jump b d) (g.jump b d) := by
  rcases h with ⟨e, w, t, down⟩
  rcases g with ⟨_, v, _, _⟩
  obtain ⟨rfl, rfl, rfl, -⟩ := id hs
  have hlate := hs.at_clock (t.after d)
  unfold Host.jump
  dsimp only
  split
  · exact (hlate.tickAt hb _).withSweep _
  · exact hlate
  · exact hlate

theorem start (hb : b.Separates used k R) (hs : Beside R h g) :
    Beside R (h.start b).2 (g.start b).2 := by
  by_cases hu : h.engine.phase = .unstarted
  · have hstore := hs.store
    rw [begun, hu] at hstore
    obtain ⟨hresult, hstore⟩ := hb.start hstore h.clock
    obtain ⟨-, he, hclock, hdown, hw⟩ := start_of_unstarted b hu
    obtain ⟨-, he', hclock', hdown', hw'⟩ := start_of_unstarted b (hs.engine ▸ hu)
    refine ⟨?_, ?_, ?_, ?_⟩
    · rw [he, he', ← hs.engine, ← hs.clock, hresult]
    · rw [hclock, hclock', hs.clock]
    · rw [hdown, hdown', hs.shutdown]
    · have hbegun : (h.start b).2.begun = true := by
        rw [begun, he]
        cases (b.perform h.clock h.work.store .start).result <;> rfl
      rw [hbegun, hw.store, hw'.store, ← hs.clock]
      exact hstore
  · rw [start_of_begun b hu, start_of_begun b (hs.engine ▸ hu)]
    exact hs

theorem stop (hb : b.Separates used k R) (hs : Beside R h g) :
    Beside R (h.stop b).2 (g.stop b).2 := by
  obtain ⟨-, hstore⟩ := hb.own hs.store (.inr rfl) h.clock
  rcases h with ⟨⟨p, encoder, on, phase, sweep⟩, w, t, down⟩
  rcases g with ⟨_, v, _, _⟩
  obtain ⟨rfl, rfl, rfl, -⟩ := id hs
  cases phase with
  | unstarted => exact hs
  | started =>
    unfold Host.stop
    dsimp only
    split
    · exact ⟨rfl, rfl, rfl, hstore⟩
    · exact ⟨rfl, rfl, rfl, hstore⟩
  | stopped => exact ⟨rfl, rfl, rfl, hstore⟩

/-- What is done about no session goes on side by side. -/
theorem obey_common (hb : b.Separates used k R) (hs : Beside R h g) (hc : c.subject? = none) :
    Beside R (h.obey b c).2 (g.obey b c).2 := by
  cases c with
  | getSession | saveSession | sessionExists | deleteSession | touchSession => cases hc
  | purge => exact hs.purge hb
  | setEnabled on =>
    exact ⟨congrArg (·.setEnabled on) hs.engine, hs.clock, hs.shutdown, hs.store⟩
  | start => exact hs.start hb
  | stop => exact hs.stop hb
  | shutDown => exact ⟨hs.engine, hs.clock, rfl, hs.store⟩
  | drop => exact hs.endSweep
  | sleep d => exact hs.sleep hb d
  | jump d => exact hs.jump hb d

/-! ## Steps -/

theorem step_other (hb : b.Separates used k R) (hs : Beside R h g) (hh : h.Settled) {j : String}
    (hj : used j) (hk : j ≠ k) (hc : c.subject? = some j) : Beside R (h.step b c).2 g := by
  have hobey := hs.obey_other hb hj hk hc
  have hsettled : (h.obey b c).2.Settled := by
    obtain ⟨a, -, ha⟩ := exists_access b h.engine h.clock hc
    rw [ha h rfl rfl]
    exact hh
  change Beside R (h.obey b c).2.settle g
  rw [settle_of_settled hsettled]
  exact hobey

theorem step_own (hb : b.Separates used k R) (hs : Beside R h g) (hc : c.subject? = some k) :
    (h.step b c).1 = (g.step b c).1 ∧ Beside R (h.step b c).2 (g.step b c).2 := by
  obtain ⟨hanswer, hobey⟩ := hs.obey_own hb hc
  exact ⟨hanswer, hobey.settle⟩

theorem step_common (hb : b.Separates used k R) (hs : Beside R h g) (hc : c.subject? = none) :
    Beside R (h.step b c).2 (g.step b c).2 := (hs.obey_common hb hc).settle

end Beside

/-! ## Runs -/

/-- What the commands about one session are answered. -/
def answersOn (b : Backend σ) (k : String) (h : Host σ) :
    List Command → List ((c : Command) × Except SessionError c.Answer)
  | [] => []
  | c :: cs =>
    let (answer, h') := h.step b c
    if c.subject? = some k then ⟨c, answer⟩ :: h'.answersOn b k cs else h'.answersOn b k cs

theorem answersOn_cons_own (hc : c.subject? = some k) (cs : List Command) :
    h.answersOn b k (c :: cs) = ⟨c, (h.step b c).1⟩ :: (h.step b c).2.answersOn b k cs :=
  if_pos hc

theorem answersOn_cons (hc : c.subject? ≠ some k) (cs : List Command) :
    h.answersOn b k (c :: cs) = (h.step b c).2.answersOn b k cs := if_neg hc

/-- A run goes on beside one without the commands about other sessions. -/
theorem run_filter (hb : b.Separates used k R) (hs : Beside R h g) (hh : h.Settled)
    {cs : List Command} (hused : ∀ c ∈ cs, ∀ id, c.subject? = some id → used id) :
    h.answersOn b k cs = g.answersOn b k (cs.filter (·.concerns k)) ∧
      Beside R (h.run b cs) (g.run b (cs.filter (·.concerns k))) := by
  induction cs generalizing h g with
  | nil => exact ⟨rfl, hs⟩
  | cons c cs ih =>
    obtain ⟨hc, hused⟩ := List.forall_mem_cons.mp hused
    have hnext := step_settled b h c
    rcases hsubject : c.subject? with _ | id
    · have hkeep : c.concerns k = true := by simp [Command.concerns, hsubject]
      rw [List.filter_cons_of_pos hkeep, answersOn_cons (by simp [hsubject]),
        answersOn_cons (by simp [hsubject])]
      exact ih (hs.step_common hb hsubject) hnext hused
    by_cases hid : id = k
    · subst hid
      have hkeep : c.concerns id = true := by simp [Command.concerns, hsubject]
      obtain ⟨hanswer, hstep⟩ := hs.step_own hb hsubject
      obtain ⟨hrest, hrun⟩ := ih hstep hnext hused
      rw [List.filter_cons_of_pos hkeep, answersOn_cons_own hsubject, answersOn_cons_own hsubject,
        hanswer, hrest]
      exact ⟨rfl, hrun⟩
    · -- The command is left out on the right, which waits.
      have hdrop : ¬c.concerns k = true := by simp [Command.concerns, hsubject, hid]
      rw [List.filter_cons_of_neg hdrop, answersOn_cons (by simp [hsubject, hid])]
      exact ih (hs.step_other hb hh (hc id hsubject) hid hsubject) hnext hused

theorem fresh_settled {e : Engine} (he : e.phase = .unstarted) (s : σ) (t : Instant) :
    (fresh e s t).Settled := by
  rintro (hdown | hstopped)
  · cases hdown
  · cases he.symm.trans hstopped

/-- Two sequences of commands are the same for one session: the answers about it, the time that has
passed, and what is seen of it in the end. -/
structure SameFor {α : Type} (b : Backend σ) (k : String) (view : σ → α) (h : Host σ)
    (cs cs' : List Command) : Prop where
  answers : h.answersOn b k cs = h.answersOn b k cs'
  clock : (h.run b cs).clock = (h.run b cs').clock
  seen : view (h.run b cs).work.store = view (h.run b cs').work.store

/-- Runs that differ in what they do about other ids only are the same for this one. -/
theorem sameFor_of_separates {α : Type} (hb : b.Separates used k R) {view : σ → α}
    (hview : ∀ {begun s t}, R begun s t → view s = view t) (hs : Beside R h h) (hh : h.Settled)
    {cs cs' : List Command} (hused : ∀ c ∈ cs ++ cs', ∀ id, c.subject? = some id → used id)
    (hsame : cs.filter (·.concerns k) = cs'.filter (·.concerns k)) :
    h.SameFor b k view cs cs' := by
  obtain ⟨hanswers, hrun⟩ :=
    run_filter hb hs hh fun c hc => hused c (List.mem_append_left _ hc)
  obtain ⟨hanswers', hrun'⟩ :=
    run_filter hb hs hh fun c hc => hused c (List.mem_append_right _ hc)
  rw [hsame] at hanswers hrun
  exact ⟨hanswers.trans hanswers'.symm, hrun.clock.trans hrun'.clock.symm,
    (hview hrun.store).trans (hview hrun'.store).symm⟩

end Host

end SessionStore
