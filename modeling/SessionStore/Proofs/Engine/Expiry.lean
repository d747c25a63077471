import SessionStore.Proofs.Engine.Runs
import SessionStore.Proofs.Store.Memory

/-! # Sliding expiration

An entry that an engine keeps in memory goes when its session is deleted, or by the first purge that
comes later than the age limit after its last reset. Until then it holds what was last set.
-/

namespace SessionStore

/-- The commands that reset the idle time of an id when they succeed. -/
def Command.Resets (id : String) : Command → Prop
  | .getSession k | .saveSession k _ | .touchSession k => k = id
  | _ => False

namespace Memory

open Access

variable {now : Instant} {id : String}

/-- The idle time of the id counts from `now`. -/
def ResetAt (now : Instant) (id : String) (m : Memory) : Prop :=
  ∃ e, m[id]? = some e ∧ e.touched = now

theorem leaves_set (contents : Bytes) :
    Leaves (ResetAt now id) (call backend now (.set id contents)) := by
  refine leaves_call fun m _ _ => ⟨⟨contents, now⟩, ?_, rfl⟩
  exact (getElem?_perform now m _ id).trans (if_pos rfl)

theorem leaves_touch : Leaves (ResetAt now id) (call backend now (.touch id)) := by
  apply leaves_call
  intro m x hx
  rcases hm : m[id]? with _ | e
  · simp only [backend, perform, hm] at hx
    cases hx
  · refine ⟨⟨e.contents, now⟩, ?_, rfl⟩
    refine (getElem?_perform now m _ id).trans ?_
    rw [hm, Call.turn, if_pos rfl]
    rfl

end Memory

namespace Engine

open Access Memory

variable (e : Engine) (now : Instant) (id : String)

theorem getSession_leaves : Leaves (ResetAt now id) (e.getSession backend now id) := by
  have hload : Leaves (ResetAt now id) (e.load backend now id) := by
    apply leaves_bind
    intro contents
    apply leaves_bind_left leaves_touch
    intro _ w
    rw [perform_bind, perform_ofExcept]
    cases e.encoder.decode contents <;> rfl
  rw [getSession_eq]
  apply leaves_bind
  intro _
  apply leaves_bind
  intro present
  split
  · exact leaves_bind fun _ => hload
  · exact hload

theorem saveSession_leaves (s : Session) :
    Leaves (ResetAt now id) (e.saveSession backend now id s) := by
  apply leaves_bind
  intro _
  apply leaves_bind
  intro contents
  exact leaves_bind_left (leaves_set contents) fun _ w => rfl

theorem touchSession_leaves : Leaves (ResetAt now id) (e.touchSession backend now id) :=
  leaves_bind fun _ => leaves_touch

/-- In memory a deletion that is not refused at once succeeds. -/
theorem deleteSession_of_calls {w : Work Memory}
    (h : ((e.deleteSession backend now id).perform w).2.calls ≠ w.calls) :
    ((e.deleteSession backend now id).perform w).1 = .ok () := by
  rw [deleteSession, perform_bind, perform_ofExcept] at h ⊢
  rcases hc : e.checkId id with why | ⟨⟩
  · rw [hc] at h
    exact absurd rfl h
  · rfl

end Engine

namespace Host

variable {σ : Type}

/-- While the command `c` is carried out, `call` is made at `t`, after the calls `past`. -/
def Calls (b : Backend σ) (h : Host σ) (c : Command) (t : Instant) (call : Call)
    (past : List (Instant × Call)) : Prop :=
  ∃ later earlier, (h.step b c).2.work.calls = later ++ (t, call) :: past ∧
    past = earlier ++ h.work.calls

/-- In a run that has led to `h`, the calls made by the moment `now` are `past`. -/
structure At (h : Host σ) (now : Instant) (past : List (Instant × Call)) : Prop where
  later : ∃ later, h.work.calls = later ++ past ∧ ∀ x ∈ later, now ≤ x.1
  past_le : ∀ x ∈ past, x.1 ≤ now
  le_clock : now ≤ h.clock

/-- What a run of a new engine over an empty memory keeps. -/
structure Recorded (p : Properties) (h : Host Memory) : Prop where
  store : h.work.store = Memory.after h.work.calls
  calls_le : ∀ x ∈ h.work.calls, x.1 ≤ h.clock
  properties : h.engine.properties = p
  ahead : h.Ahead
  interval_pos : 0 < p.purgeInterval.nanos

variable {p : Properties} {h h' : Host Memory} {made : List (Instant × Call)}

theorem Recorded.passes (r : Recorded p h) (q : Passes Memory.backend made h h') (ha : h'.Ahead) :
    Recorded p h' where
  store := by
    rw [q.leads.store, q.leads.calls, r.store, Memory.after_append]
  calls_le := by
    intro x hx
    rw [q.leads.calls] at hx
    rcases List.mem_append.mp hx with hx | hx
    · exact (q.instants x hx).2
    · exact Int.le_trans (r.calls_le x hx) q.clock_le
  properties := q.properties.trans r.properties
  ahead := ha
  interval_pos := r.interval_pos

theorem Recorded.step (r : Recorded p h) (c : Command) :
    Recorded p (h.step Memory.backend c).2 := by
  obtain ⟨made, hp, -⟩ := step_passes Memory.backend r.ahead c
  exact r.passes hp (step_ahead _ r.ahead (by rw [r.properties]; exact r.interval_pos) c)

theorem Recorded.run (r : Recorded p h) (cs : List Command) :
    Recorded p (h.run Memory.backend cs) := by
  induction cs generalizing h with
  | nil => exact r
  | cons c cs ih => exact ih (r.step c)

theorem recorded_fresh {e : Engine} (he : Engine.make p = .ok e) (encoder : Encoder) (t : Instant) :
    Recorded p (fresh (e.withEncoder encoder) ∅ t) := by
  obtain ⟨hf, rfl⟩ := Engine.make_eq_ok_iff.mp he
  constructor
  · rfl
  · rintro x ⟨⟩
  · rfl
  · exact fresh_ahead rfl ∅ t
  · exact Properties.purgeInterval_pos hf

/-- A successful reset leaves an entry whose idle time counts from the present. -/
theorem obey_resets {r : Command} {id : String} (hr : r.Resets id) {a : r.Answer}
    (ha : (h.obey Memory.backend r).1 = .ok a) :
    Memory.ResetAt h.clock id (h.obey Memory.backend r).2.work.store := by
  cases r with
  | getSession k =>
    obtain rfl : k = id := hr
    exact h.engine.getSession_leaves h.clock k h.work a ha
  | saveSession k s =>
    obtain rfl : k = id := hr
    exact h.engine.saveSession_leaves h.clock k s h.work a ha
  | touchSession k =>
    obtain rfl : k = id := hr
    exact h.engine.touchSession_leaves h.clock k h.work a ha
  | _ => exact hr.elim

theorem step_work (b : Backend σ) (h : Host σ) (c : Command) :
    (h.step b c).2.work.calls = (h.obey b c).2.work.calls ∧
      (h.step b c).2.work.store = (h.obey b c).2.work.store := by
  have hp := settle_passes b (h.obey b c).2
  exact ⟨hp.leads.calls, hp.leads.store⟩

/-- An entry goes during a command exactly if the command deletes its session, or purges later than
the age limit after its last reset. -/
theorem Recorded.gone_iff (r : Recorded p h) {c : Command} {t : Instant} {call : Call}
    {past : List (Instant × Call)} (hc : h.Calls Memory.backend c t call past) :
    (h.clock ≤ t ∧ t ≤ (h.step Memory.backend c).2.clock) ∧
      ∀ id entry, (Memory.after past)[id]? = some entry →
        ((Memory.after ((t, call) :: past))[id]? = none ↔
          (c = .deleteSession id ∧ call = .delete id ∧
            (h.step Memory.backend (.deleteSession id)).1 = .ok ()) ∨
          ((∃ maxAge, call = .purge maxAge) ∧ entry.touched.after p.ageLimit < t)) := by
  obtain ⟨later, earlier, hcalls, rfl⟩ := hc
  obtain ⟨made, hp, hmade⟩ := step_passes Memory.backend r.ahead c
  have hmem : (t, call) ∈ made := by
    rw [hp.leads.calls, ← List.cons_append, ← List.append_assoc] at hcalls
    rw [List.append_cancel_right hcalls]
    simp
  have hown : c.Permits p.ageLimit call := r.properties ▸ hmade (t, call) hmem
  refine ⟨hp.instants (t, call) hmem, ?_⟩
  intro id entry hentry
  rw [Memory.getElem?_after_cons, hentry, Memory.turn_eq_none_iff]
  constructor
  · rintro (rfl | ⟨maxAge, rfl, hlate⟩)
    · obtain rfl := Command.permits_delete hown
      refine .inl ⟨rfl, rfl, ?_⟩
      apply h.engine.deleteSession_of_calls
      intro hnone
      have hsame := hp.leads.calls
      rw [(step_work Memory.backend h _).1] at hsame
      rw [List.self_eq_append_left.mp (hnone.symm.trans hsame)] at hmem
      cases hmem
    · obtain rfl := Command.permits_purge hown
      exact .inr ⟨⟨_, rfl⟩, hlate⟩
  · rintro (⟨-, rfl, -⟩ | ⟨⟨maxAge, rfl⟩, hlate⟩)
    · exact .inl rfl
    · obtain rfl := Command.permits_purge hown
      exact .inr ⟨_, rfl, hlate⟩

/-- A session that was reset successfully and not deleted since is there until the age limit has
passed, with what was last set for it. -/
theorem Recorded.kept (r : Recorded p h) {c : Command} {id : String} (hc : c.Resets id)
    {answer : c.Answer} (ha : (h.step Memory.backend c).1 = .ok answer) {ds : List Command}
    (hds : .deleteSession id ∉ ds) {now : Instant} {past : List (Instant × Call)}
    (hat : ((h.step Memory.backend c).2.run Memory.backend ds).At now past)
    (hpast : (h.step Memory.backend c).2.work.calls <:+ past)
    (hnow : now ≤ h.clock.after p.ageLimit) :
    ∃ entry, (Memory.after past)[id]? = some entry ∧
      Memory.lastSet? id past = some entry.contents := by
  have r' := r.step c
  obtain ⟨mid, rfl⟩ := hpast
  obtain ⟨-, made, hp, hmade⟩ := run_passes Memory.backend r'.ahead
    (by rw [r'.properties]; exact r'.interval_pos) ds
  obtain ⟨later, hlater, -⟩ := hat.later
  rw [hp.leads.calls, ← List.append_assoc] at hlater
  obtain rfl := List.append_cancel_right hlater
  obtain ⟨entry, hentry, htouched⟩ := obey_resets hc ha
  rw [← (step_work Memory.backend h c).2, r'.store] at hentry
  have hdelete : ∀ x ∈ mid, x.2 ≠ .delete id := by
    intro x hx hdel
    obtain ⟨d, hd, hown⟩ := hmade x (by simp [hx])
    rw [hdel] at hown
    rw [Command.permits_delete hown] at hd
    exact hds hd
  have hbetween : ∀ x ∈ mid, h.clock ≤ x.1 ∧ x.1 ≤ now := by
    intro x hx
    obtain ⟨_, hq, -⟩ := step_passes Memory.backend r.ahead c
    have hle := (hp.instants x (by simp [hx])).1
    exact ⟨Int.le_trans hq.clock_le hle, hat.past_le x (by simp [hx])⟩
  have hpurge : ∀ x ∈ mid, ∀ a, x.2 = .purge a → a = p.ageLimit := by
    intro x hx a ha
    obtain ⟨d, -, hown⟩ := hmade x (by simp [hx])
    rw [ha] at hown
    rw [Command.permits_purge hown, r'.properties]
  obtain ⟨entry', hentry', -⟩ := Memory.exists_of_replay
    ⟨entry, hentry, Int.le_of_eq htouched.symm⟩ hdelete hbetween hpurge hnow
  rw [← Memory.after_append] at hentry'
  exact ⟨entry', hentry', (Memory.last_of_getElem?_after hentry').1⟩

/-- Sliding expiration is exact, over every run of a new engine on an empty memory and at every
moment of it. -/
theorem expires_exactly {p : Properties} {e : Engine} (he : Engine.make p = .ok e)
    (encoder : Encoder) (start : Instant) (cs : List Command) :
    let h := (fresh (e.withEncoder encoder) ∅ start).run Memory.backend cs
    (h.work.store = Memory.after h.work.calls ∧ h.At h.clock h.work.calls) ∧
    (∀ past id entry, (Memory.after past)[id]? = some entry →
      Memory.lastSet? id past = some entry.contents ∧
        Memory.lastReset? id past = some entry.touched) ∧
    (∀ c t call past, h.Calls Memory.backend c t call past →
      (h.clock ≤ t ∧ t ≤ (h.step Memory.backend c).2.clock) ∧
      ∀ id entry, (Memory.after past)[id]? = some entry →
        ((Memory.after ((t, call) :: past))[id]? = none ↔
          (c = .deleteSession id ∧ call = .delete id ∧
            (h.step Memory.backend (.deleteSession id)).1 = .ok ()) ∨
          ((∃ maxAge, call = .purge maxAge) ∧ entry.touched.after p.ageLimit < t))) ∧
    ∀ c id, c.Resets id → (∃ answer, (h.step Memory.backend c).1 = .ok answer) →
      ∀ ds, .deleteSession id ∉ ds → ∀ now past,
        ((h.step Memory.backend c).2.run Memory.backend ds).At now past →
        (h.step Memory.backend c).2.work.calls <:+ past → now ≤ h.clock.after p.ageLimit →
        ∃ entry, (Memory.after past)[id]? = some entry ∧
          Memory.lastSet? id past = some entry.contents := by
  intro h
  have hrec : Recorded p h := (recorded_fresh he encoder start).run cs
  refine ⟨⟨hrec.store, ⟨[], rfl, by simp⟩, hrec.calls_le, Int.le_refl _⟩, ?_, ?_, ?_⟩
  · intro past id entry hentry
    exact Memory.last_of_getElem?_after hentry
  · intro c t call past hc
    exact hrec.gone_iff hc
  · rintro c id hc ⟨answer, ha⟩ ds hds now past hat hpast hnow
    exact hrec.kept hc ha hds hat hpast hnow

/-- With the standard properties two ticks find a session young that was saved four minutes ago. -/
theorem expires_exactly_standard :
    let e : Engine := (Engine.ofProperties .standard).withEncoder .json
    let save : Command := .saveSession "a" (.empty "a")
    let wait : Command := .sleep (.ofSeconds 240)
    let h := (fresh e ∅ 0).run Memory.backend [.start, save, wait]
    Engine.make .standard = .ok (.ofProperties .standard) ∧
      h.work.calls.map (·.2.kind) = [.purge, .purge, .set, .start] ∧
      ∃ entry, h.work.store["a"]? = some entry ∧
        Memory.lastSet? "a" h.work.calls = some entry.contents := by
  intro e save wait h
  have hmake : Engine.make .standard = .ok (.ofProperties .standard) := rfl
  have hend := (expires_exactly hmake .json 0 [.start, save, wait]).1
  refine ⟨hmake, by decide +kernel, ?_⟩
  have hticks : ((fresh e ∅ 0).run Memory.backend [.start, save]).work.calls <:+ h.work.calls :=
    ⟨[(240000000000, .purge (.ofSeconds 1800)), (120000000000, .purge (.ofSeconds 1800))],
      by decide +kernel⟩
  obtain ⟨entry, hentry, hset⟩ := (expires_exactly hmake .json 0 [.start]).2.2.2 save "a" rfl
    ⟨(), rfl⟩ [wait] (by simp [wait]) h.clock h.work.calls hend.2 hticks (by decide +kernel)
  exact ⟨entry, by rw [hend.1]; exact hentry, hset⟩

end Host

end SessionStore
