import Mathlib.Logic.Function.Basic
import Mathlib.Logic.Relation
import SessionStore.Proofs.Engine.Phases

/-! # Starts at once

Several callers may start an engine at the same time. The first to look at its phase keeps the phase
to itself until its start is over, and the others wait; meanwhile sessions are served and time
passes. In whatever order all this happens, one caller gets past and the backend is started once.
-/

namespace SessionStore

variable {σ ι : Type} {b : Backend σ}

namespace Host

variable {h : Host σ}

/-- A start that is not refused, up to the start of the backend. -/
def enter (b : Backend σ) (h : Host σ) : Host σ :=
  (h.withPhase .started).withSweep
    (if b.requiresPurge then firstSweep h.clock h.engine.properties.purgeInterval else .absent)

/-- The start of the backend, and what follows from its answer. -/
def leave (b : Backend σ) (h : Host σ) : Except SessionError Unit × Host σ :=
  match h.access (Access.call b h.clock .start) with
  | (.ok _, g) =>
    (.ok (), g.note (.started g.engine.properties.name g.engine.encoder.name
      g.engine.properties.ageLimit b.requiresPurge))
  | (.error why, g) => (.error why, (g.note (.startFailed why)).withPhase .stopped)

/-- A start with nothing in between. -/
theorem start_eq (hu : h.engine.phase = .unstarted) : h.start b = (h.enter b).leave b := by
  rw [start, if_neg (not_not_intro hu)]
  dsimp only
  rw [leave, access_call, access_call]
  dsimp only [enter, withSweep, withPhase]
  cases (b.perform h.clock h.work.store .start).result <;> rfl

theorem leave_phase (hp : h.engine.phase ≠ .unstarted) :
    (h.leave b).2.engine.phase ≠ .unstarted := by
  rw [leave, access_call]
  cases (b.perform h.clock h.work.store .start).result with
  | ok x => exact hp
  | error why => simp [withPhase, note]

theorem leave_starts (b : Backend σ) (h : Host σ) : (h.leave b).2.starts = h.starts + 1 := by
  rw [leave, access_call]
  cases (b.perform h.clock h.work.store .start).result <;>
    exact List.countP_cons_of_pos (by simp)

end Host

/-- The commands that wait while a start is under way. -/
def Command.Waits : Command → Prop
  | .start | .stop | .drop => True
  | _ => False

/-- Somebody who starts the engine. -/
inductive Caller
  | waiting
  /-- The start is under way, and the phase belongs to this caller. -/
  | inside
  | refused
  | answered (result : Except SessionError Unit)

namespace Caller

/-- The engine was unstarted when this caller looked. -/
def Past : Caller → Prop
  | .inside | .answered _ => True
  | .waiting | .refused => False

def Over : Caller → Prop
  | .refused | .answered _ => True
  | .waiting | .inside => False

def Answered : Caller → Prop
  | .answered _ => True
  | .waiting | .inside | .refused => False

end Caller

/-- An engine at work, and those who start it. -/
structure Contest (σ ι : Type) where
  host : Host σ
  caller : ι → Caller

namespace Contest

/-- Before anything has happened. -/
def begin (ι : Type) (h : Host σ) : Contest σ ι := ⟨h, fun _ => .waiting⟩

/-- Nobody keeps the phase. -/
def Free (g : Contest σ ι) : Prop := ∀ i, g.caller i ≠ .inside

/-- What may happen next. -/
inductive Step [DecidableEq ι] (b : Backend σ) : Contest σ ι → Contest σ ι → Prop
  | refuse {g : Contest σ ι} {i : ι} : g.caller i = .waiting → g.Free →
      g.host.engine.phase ≠ .unstarted →
      Step b g ⟨g.host, Function.update g.caller i .refused⟩
  | enter {g : Contest σ ι} {i : ι} : g.caller i = .waiting → g.Free →
      g.host.engine.phase = .unstarted →
      Step b g ⟨(g.host.enter b).settle, Function.update g.caller i .inside⟩
  | leave {g : Contest σ ι} {i : ι} : g.caller i = .inside →
      Step b g ⟨(g.host.leave b).2.settle,
        Function.update g.caller i (.answered (g.host.leave b).1)⟩
  | meanwhile {g : Contest σ ι} {c : Command} : c ≠ .start → (c.Waits → g.Free) →
      Step b g ⟨(g.host.step b c).2, g.caller⟩

/-- What holds at any time, if the backend had been started `n` times before. -/
inductive Sound (n : Nat) (g : Contest σ ι) : Prop
  | untouched : g.host.engine.phase = .unstarted → (∀ i, g.caller i = .waiting) →
      g.host.starts = n → Sound n g
  /-- The caller `i` got past. -/
  | taken (i : ι) : g.host.engine.phase ≠ .unstarted → (∀ j ≠ i, ¬(g.caller j).Past) →
      g.caller i = .inside ∧ g.host.starts = n ∨
        (g.caller i).Answered ∧ g.host.starts = n + 1 → Sound n g

variable {n : Nat} {g g' : Contest σ ι} {h : Host σ}

theorem sound_step [DecidableEq ι] (hs : g.Step b g') (h : g.Sound n) : g'.Sound n := by
  cases hs with
  | @refuse i hw hfree hp =>
    cases h with
    | untouched hu => exact absurd hu hp
    | taken j hu hothers hj =>
      have hij : j ≠ i := by
        rintro rfl
        rcases hj with ⟨hj, -⟩ | ⟨hj, -⟩ <;> rw [hw] at hj <;> cases hj
      refine .taken j hu ?_ ?_
      · intro k hk
        by_cases hki : k = i
        · simp [hki, Caller.Past]
        · simpa [Function.update_of_ne hki] using hothers k hk
      · simpa [Function.update_of_ne hij] using hj
  | @enter i hw hfree hp =>
    cases h with
    | untouched hu hall hn =>
      refine .taken i ?_ ?_ (.inl ⟨by simp, ?_⟩)
      · simp [Host.settle_phase, Host.enter, Host.withSweep, Host.withPhase]
      · intro j hj
        simp [Function.update_of_ne hj, hall j, Caller.Past]
      · rw [← hn]
        exact Host.settle_starts _
    | taken j hu => exact absurd hp hu
  | @leave i hi =>
    cases h with
    | untouched hu hall =>
      rw [hall i] at hi
      cases hi
    | taken j hu hothers hj =>
      obtain rfl : i = j := by
        by_contra hne
        exact hothers i hne (by rw [hi]; trivial)
      have hn : g.host.starts = n := by
        rcases hj with ⟨-, hn⟩ | ⟨hj, -⟩
        · exact hn
        · rw [hi] at hj
          cases hj
      refine .taken i ?_ ?_ (.inr ⟨by simp [Caller.Answered], ?_⟩)
      · rw [Host.settle_phase]
        exact Host.leave_phase hu
      · intro j hj
        simpa [Function.update_of_ne hj] using hothers j hj
      · rw [Host.settle_starts, Host.leave_starts, hn]
  | @meanwhile c hc _ =>
    have hstarts : (g.host.step b c).2.starts = g.host.starts :=
      (Host.settle_starts _).trans (Host.obey_starts b hc)
    cases h with
    | untouched hu hall hn =>
      have hphase := (Host.step_unstarted_iff b fun heq => absurd heq hc).mpr hu
      exact .untouched hphase hall (hstarts.trans hn)
    | taken i hu hothers hi =>
      refine .taken i (Host.step_begun hu b c) hothers ?_
      rwa [hstarts]

/-- From an engine that nobody has started, with everybody waiting, things have come to `g`. -/
def Reaches [DecidableEq ι] (b : Backend σ) (h : Host σ) (g : Contest σ ι) : Prop :=
  Relation.ReflTransGen (Step b) (begin ι h) g

theorem sound_of_reaches [DecidableEq ι] (hu : h.engine.phase = .unstarted) (hg : Reaches b h g) :
    g.Sound h.starts := by
  induction hg with
  | refl => exact .untouched hu (fun _ => rfl) rfl
  | tail _ hs ih => exact sound_step hs ih

theorem update_ne [DecidableEq ι] {i : ι} {c : Caller} (hc : g.caller i ≠ c) :
    Function.update g.caller i c ≠ g.caller := by
  intro heq
  apply hc
  rw [← heq, Function.update_self]

/-- Until all is over, some caller can go on. -/
theorem exists_step [DecidableEq ι] (b : Backend σ) (g : Contest σ ι) {i : ι}
    (hi : ¬(g.caller i).Over) : ∃ g' : Contest σ ι, g.Step b g' ∧ g'.caller ≠ g.caller := by
  by_cases hfree : g.Free
  · have hw : g.caller i = .waiting := by
      cases hc : g.caller i with
      | waiting => rfl
      | inside => exact absurd hc (hfree i)
      | refused | answered =>
        rw [hc] at hi
        exact absurd trivial hi
    by_cases hu : g.host.engine.phase = .unstarted
    · exact ⟨_, .enter hw hfree hu, update_ne (by simp [hw])⟩
    · exact ⟨_, .refuse hw hfree hu, update_ne (by simp [hw])⟩
  · obtain ⟨j, hj⟩ : ∃ j, g.caller j = .inside := by
      by_contra hnone
      exact hfree fun j hj => hnone ⟨j, hj⟩
    exact ⟨_, .leave hj, update_ne (by simp [hj])⟩

/-- At any time at most one caller got past. -/
theorem Sound.eq_of_past (h : g.Sound n) {i j : ι} (hi : (g.caller i).Past)
    (hj : (g.caller j).Past) : i = j := by
  cases h with
  | untouched _ hall =>
    rw [hall i] at hi
    exact hi.elim
  | taken k _ hothers _ =>
    have hik : i = k := by
      by_contra hne
      exact hothers i hne hi
    have hjk : j = k := by
      by_contra hne
      exact hothers j hne hj
    rw [hik, hjk]

theorem Sound.starts_le (h : g.Sound n) : g.host.starts ≤ n + 1 := by
  cases h with
  | untouched _ _ hn => exact hn ▸ Nat.le_succ _
  | taken _ _ _ hi =>
    rcases hi with ⟨-, hn⟩ | ⟨-, hn⟩
    · exact hn ▸ Nat.le_succ _
    · exact Nat.le_of_eq hn

/-- When all is over, one caller has the answer of the backend's only start, and the others were
refused. -/
theorem Sound.exists_answered [Nonempty ι] (h : g.Sound n) (hover : ∀ i, (g.caller i).Over) :
    ∃ i, (g.caller i).Answered ∧ (∀ j ≠ i, g.caller j = .refused) ∧ g.host.starts = n + 1 := by
  cases h with
  | untouched _ hall =>
    obtain ⟨i⟩ := ‹Nonempty ι›
    have hi := hover i
    rw [hall i] at hi
    exact hi.elim
  | taken i _ hothers hi =>
    rcases hi with ⟨hi, -⟩ | ⟨hi, hn⟩
    · have hend := hover i
      rw [hi] at hend
      exact hend.elim
    · refine ⟨i, hi, ?_, hn⟩
      intro j hj
      have hend := hover j
      have hnot := hothers j hj
      cases hc : g.caller j with
      | refused => rfl
      | waiting | inside =>
        rw [hc] at hend
        exact hend.elim
      | answered r =>
        rw [hc] at hnot
        exact absurd trivial hnot

end Contest

end SessionStore
