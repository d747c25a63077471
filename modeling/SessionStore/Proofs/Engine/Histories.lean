import SessionStore.Engine.Command

/-! # Histories of calls

An operation of an engine changes its store by calls alone, and every call is recorded with its
instant. The record of a run therefore determines the store at every moment of it.
-/

namespace SessionStore

variable {σ α β : Type}

/-- The store after the calls of a history, the latest first, have been made on `s`. -/
def Backend.replay (b : Backend σ) (s : σ) : List (Instant × Call) → σ
  | [] => s
  | (t, c) :: past => (b.perform t (b.replay s past) c).store

theorem Backend.replay_append (b : Backend σ) (s : σ) (later past : List (Instant × Call)) :
    b.replay s (later ++ past) = b.replay (b.replay s past) later := by
  induction later with
  | nil => rfl
  | cons x later ih =>
    simp only [List.cons_append, Backend.replay]
    rw [ih]

/-- A call that succeeds has not been refused. -/
theorem Backend.perform_refusing_of_ok {b : Backend σ} {refusal? : Call → Option SessionError}
    {now : Instant} {s : σ} {c : Call} {x : c.Reply}
    (h : ((b.refusing refusal?).perform now s c).result = .ok x) :
    (b.refusing refusal?).perform now s c = b.perform now s c := by
  simp only [refusing] at h ⊢
  split at h
  · cases h
  · rfl

/-- Calls that are refused might as well not have been made. -/
theorem Backend.replay_refusing (b : Backend σ) (refusal? : Call → Option SessionError) (s : σ)
    (history : List (Instant × Call)) : (b.refusing refusal?).replay s history =
      b.replay s (history.filter fun x => (refusal? x.2).isNone) := by
  induction history with
  | nil => rfl
  | cons x past ih =>
    obtain ⟨t, c⟩ := x
    rw [Backend.replay, ih]
    rcases hc : refusal? c with _ | why
    · rw [List.filter_cons_of_pos (by simp [hc])]
      simp only [refusing, hc]
      rfl
    · rw [List.filter_cons_of_neg (by simp [hc])]
      simp only [refusing, hc]
      rfl

/-- The calls `made`, the latest first, lead from `w` to `v`. -/
structure Work.Leads (b : Backend σ) (made : List (Instant × Call)) (w v : Work σ) : Prop where
  calls : v.calls = made ++ w.calls
  store : v.store = b.replay w.store made

namespace Work.Leads

variable {b : Backend σ} {w v u : Work σ} {made more : List (Instant × Call)}

theorem refl (w : Work σ) : Leads b [] w w := ⟨rfl, rfl⟩

theorem trans (h : Leads b made w v) (h' : Leads b more v u) : Leads b (more ++ made) w u where
  calls := by rw [h'.calls, h.calls, List.append_assoc]
  store := by rw [h'.store, h.store, Backend.replay_append]

theorem note (h : Leads b made w v) (e : Event) : Leads b made w (v.note e) := ⟨h.calls, h.store⟩

end Work.Leads

namespace Access

variable {b : Backend σ} {now : Instant} {P Q : Call → Prop}

theorem perform_bind (a : Access σ α) (f : α → Access σ β) (w : Work σ) :
    (a >>= f).perform w =
      match a.perform w with
      | (.ok x, v) => (f x).perform v
      | (.error why, v) => (.error why, v) := by
  change ExceptT.bindCont f (a.perform w).1 (a.perform w).2 = _
  rcases a.perform w with ⟨why | x, v⟩ <;> rfl

@[simp] theorem perform_ofExcept (x : Except SessionError α) (w : Work σ) :
    (ofExcept x : Access σ α).perform w = (x, w) := rfl

@[simp] theorem perform_call (c : Call) (w : Work σ) :
    (call b now c).perform w =
      ((b.perform now w.store c).result, w.after now c (b.perform now w.store c)) := rfl

/-- An operation goes on from the answer of its first call. -/
theorem perform_bind_call {c : Call} {f : c.Reply → Access σ α} {x : c.Reply} {w : Work σ}
    (h : (b.perform now w.store c).result = .ok x) :
    (call b now c >>= f).perform w = (f x).perform (w.after now c (b.perform now w.store c)) := by
  rw [perform_bind, perform_call, h]

/-- Whatever it starts from, the operation makes its calls at `now`, and only calls that satisfy
`P`. -/
def Makes (b : Backend σ) (now : Instant) (P : Call → Prop) (a : Access σ α) : Prop :=
  ∀ w, ∃ made : List Call, (∀ c ∈ made, P c) ∧
    Work.Leads b (made.map (now, ·)) w (a.perform w).2

theorem makes_pure (x : α) : Makes b now P (pure x) := fun w =>
  ⟨[], by simp, .refl w⟩

theorem makes_ofExcept (x : Except SessionError α) : Makes b now P (ofExcept x) := fun w =>
  ⟨[], by simp, .refl w⟩

theorem makes_note (e : Event) : Makes b now P (note e) := fun w =>
  ⟨[], by simp, (Work.Leads.refl w).note e⟩

theorem makes_call {c : Call} (hc : P c) : Makes b now P (call b now c) := fun w =>
  ⟨[c], by simpa using hc, rfl, rfl⟩

theorem makes_bind {a : Access σ α} {f : α → Access σ β} (ha : Makes b now P a)
    (hf : ∀ x, Makes b now P (f x)) : Makes b now P (a >>= f) := by
  intro w
  obtain ⟨made, hmade, hw⟩ := ha w
  rw [perform_bind]
  rcases hr : a.perform w with ⟨why | x, v⟩
  · exact ⟨made, hmade, by simpa [hr] using hw⟩
  · obtain ⟨more, hmore, hv⟩ := hf x v
    rw [hr] at hw
    refine ⟨more ++ made, ?_, ?_⟩
    · intro c hc
      rcases List.mem_append.mp hc with hc | hc
      · exact hmore c hc
      · exact hmade c hc
    · rw [List.map_append]
      exact hw.trans hv

/-- The operation is put together from calls at `now` that satisfy `P` and from steps without
any. -/
inductive Consists (b : Backend σ) (now : Instant) (P : Call → Prop) :
    {α : Type} → Access σ α → Prop
  | pure {α : Type} (x : α) : Consists b now P (Pure.pure x : Access σ α)
  | ofExcept {α : Type} (x : Except SessionError α) : Consists b now P (ofExcept x : Access σ α)
  | note (e : Event) : Consists b now P (note e : Access σ Unit)
  | call {c : Call} (hc : P c) : Consists b now P (call b now c)
  | bind {α β : Type} {a : Access σ α} {f : α → Access σ β} (ha : Consists b now P a)
      (hf : ∀ x, Consists b now P (f x)) : Consists b now P (a >>= f)

theorem Consists.mono {a : Access σ α} (h : Consists b now P a) (hPQ : ∀ c, P c → Q c) :
    Consists b now Q a := by
  induction h with
  | pure x => exact .pure x
  | ofExcept x => exact .ofExcept x
  | note e => exact .note e
  | call hc => exact .call (hPQ _ hc)
  | bind _ _ ha hf => exact .bind ha hf

theorem Consists.makes {a : Access σ α} (h : Consists b now P a) : Makes b now P a := by
  induction h with
  | pure x => exact makes_pure x
  | ofExcept x => exact makes_ofExcept x
  | note e => exact makes_note e
  | call hc => exact makes_call hc
  | bind _ _ ha hf => exact makes_bind ha hf

/-- Whatever it starts from, if the operation succeeds then it leaves a store that satisfies `S`. -/
def Leaves (S : σ → Prop) (a : Access σ α) : Prop :=
  ∀ w, ∀ x, (a.perform w).1 = .ok x → S (a.perform w).2.store

variable {S : σ → Prop}

theorem leaves_call {c : Call} (h : ∀ s x, (b.perform now s c).result = .ok x →
    S (b.perform now s c).store) : Leaves S (call b now c) := fun w x hx => h w.store x hx

theorem leaves_bind {a : Access σ α} {f : α → Access σ β} (hf : ∀ x, Leaves S (f x)) :
    Leaves S (a >>= f) := by
  intro w y hy
  rw [perform_bind] at hy ⊢
  rcases hr : a.perform w with ⟨why | x, v⟩
  · rw [hr] at hy
    cases hy
  · rw [hr] at hy
    exact hf x v y hy

/-- What follows without a call leaves the store as it is. -/
theorem leaves_bind_left {a : Access σ α} {f : α → Access σ β} (ha : Leaves S a)
    (hf : ∀ x w, ((f x).perform w).2.store = w.store) : Leaves S (a >>= f) := by
  intro w y hy
  rw [perform_bind] at hy ⊢
  rcases hr : a.perform w with ⟨why | x, v⟩
  · rw [hr] at hy
    cases hy
  · have hv : S v.store := by simpa [hr] using ha w x (by rw [hr])
    rw [← hf x v] at hv
    exact hv

end Access

end SessionStore
