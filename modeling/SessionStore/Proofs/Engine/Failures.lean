import SessionStore.Proofs.Engine.Runs
import SessionStore.Store.Memory

/-! # Failures

An operation of an engine has a plan: tasks for its store, some of which need the encoder first. It
carries them out one after the other, and the first failure ends it and is what it answers. What has
happened before a failure stays, and nothing happens after it.
-/

namespace SessionStore

variable {σ : Type} {b : Backend σ}

/-- What an operation has to do. -/
inductive Task
  | call (c : Call)
  /-- Sets what the encoder makes of the data. -/
  | write (id : String) (data : SessionData)

/-- The call by which a task is carried out. -/
def Encoder.prepare (e : Encoder) : Task → Except SessionError Call
  | .call c => .ok c
  | .write id data => (e.encode data).map (.set id)

/-- A call that has succeeded, with its reply. -/
structure Exchange where
  call : Call
  reply : call.Reply

namespace Backend

/-- From `s` on the tasks are carried out one after the other at `now`, every call succeeds, and the
exchanges lead to the store in the end. -/
inductive Achieves (b : Backend σ) (e : Encoder) (now : Instant) :
    σ → List Task → List Exchange → σ → Prop
  | nothing (s : σ) : Achieves b e now s [] [] s
  | task {s s' : σ} {t : Task} {x : Exchange} {tasks : List Task} {done : List Exchange}
      (ht : e.prepare t = .ok x.call) (hx : (b.perform now s x.call).result = .ok x.reply)
      (rest : Achieves b e now (b.perform now s x.call).store tasks done s') :
      Achieves b e now s (t :: tasks) (x :: done) s'

/-- A call that fails leaves the store as it is. -/
def FailsCleanly (b : Backend σ) : Prop :=
  ∀ now s c why, (b.perform now s c).result = .error why → (b.perform now s c).store = s

variable {e : Encoder} {now : Instant} {s s' : σ} {t : Task} {x : Exchange} {tasks : List Task}
  {done : List Exchange}

theorem Achieves.concat (h : b.Achieves e now s tasks done s') (ht : e.prepare t = .ok x.call)
    (hx : (b.perform now s' x.call).result = .ok x.reply) :
    b.Achieves e now s (tasks ++ [t]) (done ++ [x]) (b.perform now s' x.call).store := by
  induction h with
  | nothing => exact .task ht hx (.nothing _)
  | task ht' hx' _ ih => exact .task ht' hx' (ih hx)

/-- Carries out tasks until one fails: the calls that are made, the store they leave, and the first
failure or all exchanges. -/
def attempt (b : Backend σ) (e : Encoder) (now : Instant) :
    σ → List Task → List Call × σ × Except SessionError (List Exchange)
  | s, [] => ([], s, .ok [])
  | s, t :: tasks =>
    match e.prepare t with
    | .error why => ([], s, .error why)
    | .ok c =>
      let o := b.perform now s c
      match o.result with
      | .error why => ([c], o.store, .error why)
      | .ok reply =>
        let (made, s', last) := attempt b e now o.store tasks
        (c :: made, s', last.map (⟨c, reply⟩ :: ·))

/-- An attempt gets past what can be achieved. -/
theorem Achieves.attempt_append (h : b.Achieves e now s tasks done s') (rest : List Task) :
    b.attempt e now s (tasks ++ rest) =
      (done.map (·.call) ++ (b.attempt e now s' rest).1, (b.attempt e now s' rest).2.1,
        (b.attempt e now s' rest).2.2.map (done ++ ·)) := by
  induction h with
  | nothing s =>
    rcases hlast : b.attempt e now s rest with ⟨made, s', why | more⟩ <;> simp [hlast, Except.map]
  | @task s s' t x tasks done ht hx _ ih =>
    simp only [List.cons_append, attempt, ht, hx, ih, List.map_cons]
    rcases b.attempt e now s' rest with ⟨made, s'', why | more⟩ <;> rfl

/-- What is achieved is all that an attempt comes to. -/
theorem Achieves.attempt_eq (h : b.Achieves e now s tasks done s') :
    b.attempt e now s tasks = (done.map (·.call), s', .ok done) := by
  have happend := h.attempt_append []
  simpa [attempt, Except.map] using happend

end Backend

/-- What an engine is asked to do, as opposed to what its surroundings do. -/
def Command.IsOperation : Command → Prop
  | .setEnabled _ | .shutDown | .drop | .sleep _ | .jump _ => False
  | _ => True

/-- What an operation answers after these exchanges, which are all that it planned. It fails only if
it cannot decode what it has read, and by then the entry has been touched. -/
def Command.Answers (e : Encoder) (done : List Exchange) :
    (c : Command) → Except SessionError c.Answer → Prop
  | .getSession id, answer => ∃ before contents touched,
      done = before ++ [⟨.get id, contents⟩, ⟨.touch id, touched⟩] ∧
      answer = (e.decode contents).map (Session.withData id)
  | .sessionExists id, answer => ∃ present, done = [⟨.contains id, present⟩] ∧ answer = .ok present
  | .purge, answer => ∃ limit removed, done = [⟨.purge limit, removed⟩] ∧ answer = .ok removed
  | .saveSession _ _, answer | .deleteSession _, answer | .touchSession _, answer | .start, answer
  | .stop, answer | .setEnabled _, answer | .shutDown, answer | .drop, answer | .sleep _, answer
  | .jump _, answer => answer = .ok ()

theorem Command.Answers.unique {e : Encoder} {done : List Exchange} {c : Command}
    {answer answer' : Except SessionError c.Answer} (ha : c.Answers e done answer)
    (ha' : c.Answers e done answer') : answer = answer' := by
  cases c with
  | getSession id =>
    obtain ⟨before, contents, touched, hdone, rfl⟩ := ha
    obtain ⟨before', contents', touched', hdone', rfl⟩ := ha'
    have hlast := (List.append_inj' (hdone.symm.trans hdone') rfl).2
    cases hlast
    rfl
  | sessionExists id =>
    obtain ⟨present, rfl, rfl⟩ := ha
    obtain ⟨present', hdone, rfl⟩ := ha'
    cases hdone
    rfl
  | purge =>
    obtain ⟨limit, removed, rfl, rfl⟩ := ha
    obtain ⟨limit', removed', hdone, rfl⟩ := ha'
    cases hdone
    rfl
  | _ => exact ha.trans ha'.symm

namespace Host

/-- Why an operation is refused before it makes any call. -/
def refusal? (h : Host σ) : Command → Option SessionError
  | .getSession id | .saveSession id _ | .deleteSession id | .touchSession id =>
    if !h.engine.enabled then some .disabled
    else if id = "" then some (.invalidArgument .emptyId) else none
  | .sessionExists _ | .purge => if !h.engine.enabled then some .disabled else none
  | .start => if h.engine.phase = .unstarted then none else some .alreadyStarted
  | .stop => if h.engine.phase = .unstarted then some .notStarted else none
  | _ => none

/-- A session is made, with no data, if the store answers that it has none. -/
def making (b : Backend σ) (h : Host σ) (id : String) : List Task :=
  match (b.perform h.clock h.work.store (.contains id)).result with
  | .ok false => [.write id ∅]
  | .ok true | .error _ => []

/-- All that an operation has to do. -/
def plan (b : Backend σ) (h : Host σ) : Command → List Task
  | .getSession id =>
    [.call (.contains id)] ++ h.making b id ++ [.call (.get id), .call (.touch id)]
  | .saveSession id s => [.write id s.persistedData]
  | .sessionExists id => [.call (.contains id)]
  | .deleteSession id => [.call (.delete id)]
  | .touchSession id => [.call (.touch id)]
  | .purge => [.call (.purge h.engine.properties.ageLimit)]
  | .start => [.call .start]
  | .stop => [.call .stop]
  | _ => []

/-- How an operation ends: the calls that it has made, the store that they leave, and its answer. -/
inductive Ending (b : Backend σ) (h : Host σ) (c : Command) :
    List Call → σ → Except SessionError c.Answer → Prop
  /-- It is refused, and makes no call. -/
  | refused {why : SessionError} (hr : h.refusal? c = some why) :
      Ending b h c [] h.work.store (.error why)
  /-- The encoder fails, and the call that needs its bytes is not made. -/
  | unencoded {tasks : List Task} {t : Task} {done : List Exchange} {s : σ} {why : SessionError}
      (hr : h.refusal? c = none) (hplan : tasks ++ [t] <+: h.plan b c)
      (hdone : b.Achieves h.engine.encoder h.clock h.work.store tasks done s)
      (hfail : h.engine.encoder.prepare t = .error why) :
      Ending b h c (done.map (·.call)) s (.error why)
  /-- A call fails, and is the last. -/
  | failed {tasks : List Task} {t : Task} {done : List Exchange} {s : σ} {call : Call}
      {why : SessionError} (hr : h.refusal? c = none) (hplan : tasks ++ [t] <+: h.plan b c)
      (hdone : b.Achieves h.engine.encoder h.clock h.work.store tasks done s)
      (ht : h.engine.encoder.prepare t = .ok call)
      (hfail : (b.perform h.clock s call).result = .error why) :
      Ending b h c (done.map (·.call) ++ [call]) (b.perform h.clock s call).store (.error why)
  /-- All is done that was planned, and the answer comes from the replies. -/
  | completed {done : List Exchange} {s : σ} {answer : Except SessionError c.Answer}
      (hr : h.refusal? c = none)
      (hdone : b.Achieves h.engine.encoder h.clock h.work.store (h.plan b c) done s)
      (ha : c.Answers h.engine.encoder done answer) : Ending b h c (done.map (·.call)) s answer

/-- The operation ends with an answer and with what it leaves behind. -/
def EndsWith (b : Backend σ) (h : Host σ) (c : Command)
    (last : Except SessionError c.Answer × Work σ) : Prop :=
  ∃ made, last.2.calls = (made.map (h.clock, ·)).reverse ++ h.work.calls ∧
    Ending b h c made last.2.store last.1

/-- So far the tasks of an operation have been carried out. -/
structure Reached (b : Backend σ) (h : Host σ) (tasks : List Task) (done : List Exchange)
    (w : Work σ) : Prop where
  calls : w.calls = ((done.map (·.call)).map (h.clock, ·)).reverse ++ h.work.calls
  achieves : b.Achieves h.engine.encoder h.clock h.work.store tasks done w.store

variable {h : Host σ} {c : Command} {tasks : List Task} {t : Task} {done : List Exchange}
  {w : Work σ}

namespace Reached

variable {call : Call}

theorem begun (b : Backend σ) (h : Host σ) : Reached b h [] [] h.work := ⟨rfl, .nothing _⟩

theorem step (r : Reached b h tasks done w) (ht : h.engine.encoder.prepare t = .ok call)
    {reply : call.Reply} (hok : (b.perform h.clock w.store call).result = .ok reply) :
    Reached b h (tasks ++ [t]) (done ++ [⟨call, reply⟩])
      (w.after h.clock call (b.perform h.clock w.store call)) where
  calls := by simp [Work.after, r.calls]
  achieves := r.achieves.concat ht hok

theorem note (r : Reached b h tasks done w) (e : Event) : Reached b h tasks done (w.note e) :=
  ⟨r.calls, r.achieves⟩

theorem fails (r : Reached b h tasks done w) (hr : h.refusal? c = none)
    (hplan : tasks ++ [t] <+: h.plan b c) (ht : h.engine.encoder.prepare t = .ok call)
    {why : SessionError} (hfail : (b.perform h.clock w.store call).result = .error why) :
    h.EndsWith b c (.error why, w.after h.clock call (b.perform h.clock w.store call)) :=
  ⟨done.map (·.call) ++ [call], by simp [Work.after, r.calls],
    .failed hr hplan r.achieves ht hfail⟩

theorem completes (r : Reached b h tasks done w) (hr : h.refusal? c = none)
    (hplan : h.plan b c = tasks) {answer : Except SessionError c.Answer}
    (ha : c.Answers h.engine.encoder done answer) : h.EndsWith b c (answer, w) := by
  subst hplan
  exact ⟨done.map (·.call), r.calls, .completed hr r.achieves ha⟩

end Reached

theorem ends_of_refusal {why : SessionError} (hr : h.refusal? c = some why) :
    h.EndsWith b c (.error why, h.work) :=
  ⟨[], rfl, .refused hr⟩

/-! ## The operations -/

section Operations

open Access

/-- An operation begins by finding out whether it is refused. -/
theorem ends_of_guard {x : Except SessionError Unit}
    (hx : x = match h.refusal? c with
      | some why => .error why
      | none => .ok ()) {f : Unit → Access σ c.Answer}
    (hf : h.refusal? c = none → h.EndsWith b c ((f ()).perform h.work)) :
    h.EndsWith b c ((Access.ofExcept x >>= f).perform h.work) := by
  subst hx
  rcases hr : h.refusal? c with _ | why
  · exact hf hr
  · exact ends_of_refusal hr

/-- At a call an operation ends, or goes on with the reply. -/
theorem ends_of_call {call : Call} (r : Reached b h tasks done w) (hr : h.refusal? c = none)
    (hplan : tasks ++ [t] <+: h.plan b c) (ht : h.engine.encoder.prepare t = .ok call)
    {f : call.Reply → Access σ c.Answer}
    (hf : ∀ x v, (b.perform h.clock w.store call).result = .ok x →
      Reached b h (tasks ++ [t]) (done ++ [⟨call, x⟩]) v → h.EndsWith b c ((f x).perform v)) :
    h.EndsWith b c ((Access.call b h.clock call >>= f).perform w) := by
  rw [perform_bind, perform_call]
  rcases hresult : (b.perform h.clock w.store call).result with why | x
  · exact r.fails hr hplan ht hresult
  · exact hf x _ hresult (r.step ht hresult)

/-- Where data are written, an operation ends in the encoder or at the call that sets its bytes, or
goes on. -/
theorem ends_of_write {id : String} {data : SessionData} (r : Reached b h tasks done w)
    (hr : h.refusal? c = none) (hplan : tasks ++ [.write id data] <+: h.plan b c)
    {f : Unit → Access σ c.Answer}
    (hf : ∀ x v, Reached b h (tasks ++ [.write id data]) (done ++ [x]) v →
      h.EndsWith b c ((f ()).perform v)) :
    h.EndsWith b c ((Access.ofExcept (h.engine.encoder.encode data) >>= fun contents =>
      Access.call b h.clock (.set id contents) >>= f).perform w) := by
  rw [perform_bind, perform_ofExcept]
  rcases hencode : h.engine.encoder.encode data with why | contents
  · have hfail : h.engine.encoder.prepare (.write id data) = .error why := by
      rw [Encoder.prepare, hencode]
      rfl
    exact ⟨_, r.calls, .unencoded hr hplan r.achieves hfail⟩
  · have ht : h.engine.encoder.prepare (.write id data) = .ok (.set id contents) := by
      rw [Encoder.prepare, hencode]
      rfl
    exact ends_of_call r hr hplan ht fun _ v _ rv => hf _ v rv

theorem checkEnabled_eq (h : Host σ) :
    h.engine.checkEnabled = match h.refusal? .purge with
      | some why => .error why
      | none => .ok () := by
  rcases he : h.engine.enabled with _ | _ <;> simp [Engine.checkEnabled, refusal?, he]

theorem checkId_eq (h : Host σ) (id : String) :
    h.engine.checkId id = match h.refusal? (.deleteSession id) with
      | some why => .error why
      | none => .ok () := by
  rcases he : h.engine.enabled with _ | _
  · simp [Engine.checkId, Engine.checkEnabled, refusal?, he, bind, Except.bind]
  · by_cases hid : id = ""
    · simp [Engine.checkId, Engine.checkEnabled, refusal?, he, hid, bind, Except.bind, throw,
        throwThe, MonadExceptOf.throw]
    · simp [Engine.checkId, Engine.checkEnabled, refusal?, he, hid, bind, Except.bind, pure,
        Except.pure]

/-- Loading ends with the first failure, be it in the store or in the encoder. -/
theorem load_ends {id : String} (r : Reached b h tasks done w)
    (hr : h.refusal? (.getSession id) = none)
    (hplan : h.plan b (.getSession id) = tasks ++ [.call (.get id), .call (.touch id)]) :
    h.EndsWith b (.getSession id) ((h.engine.load b h.clock id).perform w) := by
  have hget : tasks ++ [.call (.get id)] <+: h.plan b (.getSession id) := by
    rw [hplan]
    exact (List.prefix_append_right_inj tasks).mpr ⟨[.call (.touch id)], rfl⟩
  have hfull : h.plan b (.getSession id) = tasks ++ [.call (.get id)] ++ [.call (.touch id)] := by
    rw [hplan, List.append_assoc]
    rfl
  have htouch : tasks ++ [.call (.get id)] ++ [.call (.touch id)] <+: h.plan b (.getSession id) :=
    hfull ▸ List.prefix_rfl
  refine ends_of_call r hr hget rfl fun (contents : Bytes) v _ rv => ?_
  refine ends_of_call rv hr htouch rfl fun touched u _ ru => ?_
  have hlast : (Access.ofExcept (h.engine.encoder.decode contents) >>= fun data =>
      (pure (Session.withData id data) : Access σ Session)).perform u =
      ((h.engine.encoder.decode contents).map (Session.withData id), u) := by
    rw [perform_bind, perform_ofExcept]
    rcases h.engine.encoder.decode contents with why | data <;> rfl
  refine hlast ▸ ru.completes hr hfull ⟨done, contents, touched, ?_, rfl⟩
  rw [List.append_assoc]
  rfl

theorem getSession_ends (h : Host σ) (id : String) :
    h.EndsWith b (.getSession id) ((h.engine.getSession b h.clock id).perform h.work) := by
  rw [Engine.getSession_eq]
  have hfirst : [] ++ [.call (.contains id)] <+: h.plan b (.getSession id) := by
    rw [plan, List.append_assoc]
    exact List.prefix_append _ _
  refine ends_of_guard (c := .getSession id) (h.checkId_eq id) fun hr => ?_
  refine ends_of_call (Reached.begun b h) hr hfirst rfl fun (present : Bool) v hcontains rv => ?_
  rcases present with _ | _
  · have hplan : h.plan b (.getSession id) =
        [.call (.contains id)] ++ [.write id ∅] ++ [.call (.get id), .call (.touch id)] := by
      simp only [plan, making, hcontains]
    let f : Unit → Access σ Session := fun _ =>
      Access.note (.created id) >>= fun _ => h.engine.load b h.clock id
    have hcreate : (h.engine.create b h.clock id >>= fun _ => h.engine.load b h.clock id) =
        (Access.ofExcept (h.engine.encoder.encode ∅) >>= fun contents =>
          Access.call b h.clock (.set id contents) >>= f) := by
      rw [Engine.create, bind_assoc]
      congr 1
      funext contents
      exact bind_assoc _ _ _
    have hwrite : [.call (.contains id)] ++ [.write id ∅] <+: h.plan b (.getSession id) :=
      hplan ▸ List.prefix_append _ _
    simp only [Bool.not_false, if_true]
    rw [hcreate]
    refine ends_of_write (f := f) rv hr hwrite fun _ u ru => ?_
    exact load_ends (ru.note _) hr hplan
  · have hplan : h.plan b (.getSession id) =
        [.call (.contains id)] ++ [.call (.get id), .call (.touch id)] := by
      simp only [plan, making, hcontains, List.append_nil]
    exact load_ends rv hr hplan

theorem saveSession_ends (h : Host σ) (id : String) (data : Session) :
    h.EndsWith b (.saveSession id data)
      ((h.engine.saveSession b h.clock id data).perform h.work) := by
  refine ends_of_guard (c := .saveSession id data) (h.checkId_eq id) fun hr => ?_
  refine ends_of_write (Reached.begun b h) hr List.prefix_rfl fun _ v rv => ?_
  exact (rv.note _).completes hr rfl rfl

theorem deleteSession_ends (h : Host σ) (id : String) :
    h.EndsWith b (.deleteSession id) ((h.engine.deleteSession b h.clock id).perform h.work) := by
  refine ends_of_guard (c := .deleteSession id) (h.checkId_eq id) fun hr => ?_
  refine ends_of_call (Reached.begun b h) hr List.prefix_rfl rfl fun _ v _ rv => ?_
  exact (rv.note _).completes hr rfl rfl

/-- An operation that is nothing but a call ends as that call does. -/
theorem ends_of_single {call : Call} (hr : h.refusal? c = none)
    (hplan : h.plan b c = [.call call]) {last : Except SessionError c.Answer × Work σ}
    (hw : Work.Leads b [(h.clock, call)] h.work last.2)
    (hfail : ∀ why, (b.perform h.clock h.work.store call).result = .error why →
      last.1 = .error why)
    (hok : ∀ x, (b.perform h.clock h.work.store call).result = .ok x →
      c.Answers h.engine.encoder [⟨call, x⟩] last.1) : h.EndsWith b c last := by
  have hstore : last.2.store = (b.perform h.clock h.work.store call).store := hw.store
  have hfirst : [] ++ [.call call] <+: h.plan b c := hplan ▸ List.prefix_rfl
  refine ⟨[call], hw.calls, ?_⟩
  rw [hstore]
  rcases hresult : (b.perform h.clock h.work.store call).result with why | x
  · rw [hfail why hresult]
    exact .failed hr hfirst (.nothing _) rfl hresult
  · have hdone : b.Achieves h.engine.encoder h.clock h.work.store (h.plan b c) [⟨call, x⟩]
        (b.perform h.clock h.work.store call).store :=
      hplan ▸ .task rfl hresult (.nothing _)
    exact .completed hr hdone (hok x hresult)

theorem sessionExists_ends (h : Host σ) (id : String) :
    h.EndsWith b (.sessionExists id) ((h.engine.sessionExists b h.clock id).perform h.work) :=
  ends_of_guard (c := .sessionExists id) h.checkEnabled_eq fun hr =>
    ends_of_single hr rfl (after_leads _ _ _) (fun _ hfail => hfail) fun x hok => ⟨x, rfl, hok⟩

theorem touchSession_ends (h : Host σ) (id : String) :
    h.EndsWith b (.touchSession id) ((h.engine.touchSession b h.clock id).perform h.work) :=
  ends_of_guard (c := .touchSession id) (h.checkId_eq id) fun hr =>
    ends_of_single hr rfl (after_leads _ _ _) (fun _ hfail => hfail) fun _ hok => hok

theorem purge_ends (h : Host σ) :
    h.EndsWith b .purge ((h.engine.purge b h.clock).perform h.work) :=
  ends_of_guard (c := .purge) h.checkEnabled_eq fun hr =>
    ends_of_single hr rfl (after_leads _ _ _) (fun _ hfail => hfail) fun x hok => ⟨_, x, rfl, hok⟩

theorem start_ends (h : Host σ) : h.EndsWith b .start ((h.start b).1, (h.start b).2.work) := by
  by_cases hu : h.engine.phase = .unstarted
  · obtain ⟨hresult, -, -, -, hw⟩ := start_of_unstarted b hu
    refine ends_of_single (c := .start) (if_pos hu) rfl hw ?_ ?_
    · exact fun why hfail => hresult.trans hfail
    · exact fun _ hok => hresult.trans hok
  · rw [start_of_begun b hu]
    exact ends_of_refusal (if_neg hu)

theorem stop_ends (h : Host σ) : h.EndsWith b .stop ((h.stop b).1, (h.stop b).2.work) := by
  by_cases hu : h.engine.phase = .unstarted
  · rw [stop_of_unstarted b hu]
    exact ends_of_refusal (if_pos hu)
  · obtain ⟨hresult, -, -, -, hw⟩ := stop_of_begun b hu
    refine ends_of_single (c := .stop) (if_neg hu) rfl hw ?_ ?_
    · exact fun why hfail => hresult.trans hfail
    · exact fun _ hok => hresult.trans hok

end Operations

/-- Every operation ends in one of the ways there are. -/
theorem obey_ends (b : Backend σ) (h : Host σ) (hc : c.IsOperation) :
    h.EndsWith b c ((h.obey b c).1, (h.obey b c).2.work) := by
  cases c with
  | getSession id => exact h.getSession_ends id
  | saveSession id data => exact h.saveSession_ends id data
  | sessionExists id => exact h.sessionExists_ends id
  | deleteSession id => exact h.deleteSession_ends id
  | touchSession id => exact h.touchSession_ends id
  | purge => exact h.purge_ends
  | start => exact h.start_ends
  | stop => exact h.stop_ends
  | setEnabled | shutDown | drop | sleep | jump => exact hc.elim

/-! ## No other ending -/

variable {made made' : List Call} {s s' : σ} {answer answer' : Except SessionError c.Answer}

/-- An operation that is not refused ends as an attempt at its plan does. -/
theorem Ending.attempt_eq (he : Ending b h c made s answer) (hr : h.refusal? c = none) :
    ∃ last, b.attempt h.engine.encoder h.clock h.work.store (h.plan b c) = (made, s, last) ∧
      (∀ why, last = .error why → answer = .error why) ∧
      ∀ done, last = .ok done → c.Answers h.engine.encoder done answer := by
  cases he with
  | refused hr' => simp [hr] at hr'
  | @unencoded tasks t done s why _ hplan hdone hfail =>
    obtain ⟨rest, hrest⟩ := hplan
    refine ⟨.error why, ?_, by simp, by simp⟩
    rw [← hrest, List.append_assoc, hdone.attempt_append]
    simp [Backend.attempt, hfail, Except.map]
  | @failed tasks t done s call why _ hplan hdone ht hfail =>
    obtain ⟨rest, hrest⟩ := hplan
    refine ⟨.error why, ?_, by simp, by simp⟩
    rw [← hrest, List.append_assoc, hdone.attempt_append]
    simp [Backend.attempt, ht, hfail, Except.map]
  | @completed done s answer _ hdone ha =>
    refine ⟨.ok done, hdone.attempt_eq, by simp, ?_⟩
    rintro done' ⟨⟩
    exact ha

theorem Ending.of_refusal (he : Ending b h c made s answer) {why : SessionError}
    (hr : h.refusal? c = some why) : made = [] ∧ s = h.work.store ∧ answer = .error why := by
  cases he with
  | refused hr' =>
    rw [hr] at hr'
    cases hr'
    exact ⟨rfl, rfl, rfl⟩
  | unencoded hr' | failed hr' | completed hr' => simp [hr] at hr'

/-- There is one way in which an operation ends. -/
theorem Ending.unique (he : Ending b h c made s answer) (he' : Ending b h c made' s' answer') :
    made' = made ∧ s' = s ∧ answer' = answer := by
  rcases hr : h.refusal? c with _ | why
  · obtain ⟨last, hlast, hfail, hok⟩ := he.attempt_eq hr
    obtain ⟨last', hlast', hfail', hok'⟩ := he'.attempt_eq hr
    rw [hlast] at hlast'
    cases hlast'
    refine ⟨rfl, rfl, ?_⟩
    cases last with
    | error why => rw [hfail why rfl, hfail' why rfl]
    | ok done => exact Command.Answers.unique (hok' done rfl) (hok done rfl)
  · obtain ⟨rfl, rfl, rfl⟩ := he.of_refusal hr
    exact he'.of_refusal hr

end Host

/-! ## What failures leave behind -/

theorem Memory.failsCleanly : Memory.backend.FailsCleanly := by
  intro now m c why h
  cases c with
  | get id | touch id =>
    simp only [backend, perform] at h ⊢
    split at h
    · cases h
    · rfl
  | start | stop | contains | set | delete | purge => cases h

namespace Backend

variable {refusal? : Call → Option SessionError} {e : Encoder} {now : Instant} {s s' : σ}
  {tasks : List Task} {done : List Exchange}

/-- A call that succeeds has reached the store. -/
theorem Achieves.of_refusing (h : (b.refusing refusal?).Achieves e now s tasks done s') :
    b.Achieves e now s tasks done s' := by
  induction h with
  | nothing => exact .nothing _
  | task ht hx _ ih =>
    have hsame := perform_refusing_of_ok hx
    rw [hsame] at hx ih
    exact .task ht hx ih

end Backend

namespace Host

variable {h : Host σ} {c : Command} {made : List Call} {s' : σ}
  {answer : Except SessionError c.Answer} {refusal? : Call → Option SessionError}

/-- What an operation leaves is the work of the calls that have succeeded, if the one that has not
was refused or does not do things by half. -/
theorem Ending.effects (he : Ending (b.refusing refusal?) h c made s' answer) :
    ∃ tasks done s, b.Achieves h.engine.encoder h.clock h.work.store tasks done s ∧
      (made = done.map (·.call) ∨ ∃ call, made = done.map (·.call) ++ [call]) ∧
      (b.FailsCleanly ∨ (∀ call, made = done.map (·.call) ++ [call] → refusal? call ≠ none) →
        s' = s) := by
  cases he with
  | refused hr => exact ⟨[], [], _, .nothing _, .inl rfl, fun _ => rfl⟩
  | @failed tasks t done s call why hr hplan hdone ht hfail =>
    refine ⟨tasks, done, s, hdone.of_refusing, .inr ⟨call, rfl⟩, ?_⟩
    simp only [Backend.refusing] at hfail ⊢
    rcases hrefusal : refusal? call with _ | why'
    · simp only [hrefusal] at hfail ⊢
      rintro (hclean | hrefused)
      · exact hclean _ _ _ _ hfail
      · exact absurd hrefusal (hrefused call rfl)
    · exact fun _ => rfl
  | unencoded hr hplan hdone hfail =>
    exact ⟨_, _, _, hdone.of_refusing, .inl rfl, fun _ => rfl⟩
  | completed hr hdone ha => exact ⟨_, _, _, hdone.of_refusing, .inl rfl, fun _ => rfl⟩

/-- A tick is a purge that nobody has asked for: if it fails, that is noted and nothing more. -/
theorem tick_work (b : Backend σ) (h : Host σ) :
    (h.tick b).work.calls = (h.obey b .purge).2.work.calls ∧
      (h.tick b).work.store = (h.obey b .purge).2.work.store ∧
      ∀ why, (h.obey b .purge).1 = .error why →
        ∃ e, (h.tick b).work = (h.obey b .purge).2.work.note e := by
  have hpurge : h.obey b .purge = h.access (h.engine.purge b h.clock) := rfl
  rw [tick, hpurge]
  rcases h.access (h.engine.purge b h.clock) with ⟨why | removed, g⟩
  · cases why <;> exact ⟨rfl, rfl, fun _ _ => ⟨_, rfl⟩⟩
  · simp only
    split <;> refine ⟨rfl, rfl, ?_⟩ <;> intro _ hfail <;> cases hfail

/-- Whatever the store or the encoder refuses, an operation makes its planned calls up to the first
failure and answers that failure; only if there is none it answers what the replies come to. It ends
in no other way, and what it leaves behind is the work of the calls that succeeded. Only in a tick
does the failure of a purge go no further. -/
theorem failures_surface (b : Backend σ) (refusal? : Call → Option SessionError) (h : Host σ)
    (hc : c.IsOperation) :
    let faulty := b.refusing refusal?
    let h' := (h.obey faulty c).2
    (∃ made, h'.work.calls = (made.map (h.clock, ·)).reverse ++ h.work.calls ∧
      Ending faulty h c made h'.work.store (h.obey faulty c).1 ∧
      (∀ made' s answer, Ending faulty h c made' s answer →
        made' = made ∧ s = h'.work.store ∧ answer = (h.obey faulty c).1) ∧
      ∃ tasks done s, b.Achieves h.engine.encoder h.clock h.work.store tasks done s ∧
        (made = done.map (·.call) ∨ ∃ call, made = done.map (·.call) ++ [call]) ∧
        (b.FailsCleanly ∨ (∀ call, made = done.map (·.call) ++ [call] → refusal? call ≠ none) →
          h'.work.store = s)) ∧
      Keeps h (h.tick faulty) ∧
      (h.tick faulty).work.calls = (h.obey faulty .purge).2.work.calls ∧
      (h.tick faulty).work.store = (h.obey faulty .purge).2.work.store ∧
      ∀ why, (h.obey faulty .purge).1 = .error why →
        ∃ e, (h.tick faulty).work = (h.obey faulty .purge).2.work.note e := by
  intro faulty h'
  obtain ⟨made, hcalls, he⟩ := obey_ends faulty h hc
  exact ⟨⟨made, hcalls, he, fun _ _ _ he' => he.unique he', he.effects⟩, tick_keeps faulty h,
    tick_work faulty h⟩

/-- A new session has been made, and cannot be touched. -/
theorem failures_surface_untouched :
    let refusal? : Call → Option SessionError
      | .touch _ => some (.backend (.other "touch failed"))
      | _ => none
    let h := fresh (Engine.ofProperties .standard) (∅ : Memory) 0
    let h' := (h.obey (Memory.backend.refusing refusal?) (.getSession "k")).2
    (Command.getSession "k").IsOperation ∧
      (h.obey (Memory.backend.refusing refusal?) (.getSession "k")).1 =
        .error (.backend (.other "touch failed")) ∧
      h'.work.calls.map (·.2.kind) = [.touch, .get, .set, .contains] ∧
      ∃ tasks done, Memory.backend.Achieves .json 0 ∅ tasks done h'.work.store := by
  intro refusal? h h'
  obtain ⟨⟨made, -, -, -, tasks, done, s, hdone, -, hstore⟩, -⟩ :=
    failures_surface Memory.backend refusal? h (c := .getSession "k") trivial
  have hs : h'.work.store = s := hstore (.inl Memory.failsCleanly)
  exact ⟨trivial, rfl, rfl, tasks, done, hs ▸ hdone⟩

end Host

end SessionStore
