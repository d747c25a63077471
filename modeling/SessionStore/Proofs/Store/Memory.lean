import SessionStore.Proofs.Engine.Histories
import SessionStore.Store.Memory

/-! # The memory backend entry by entry

A call turns every entry of the memory into what the call says about its id, and leaves the entries
of other ids alone. An entry that is there tells when it was last reset and what was last set.
-/

namespace SessionStore

theorem Instant.elapsed_le_iff {now t : Instant} {d : Duration} :
    Instant.elapsed now t ≤ d ↔ now ≤ t.after d := by
  change (now - t).toNat ≤ d.nanos ↔ now ≤ t + d.nanos
  lia

/-- What a call at `now` makes of the entry under `id`, if there is one. -/
def Call.turn (now : Instant) (id : String) : Call → Option Entry → Option Entry
  | .set k contents, e? => if k = id then some ⟨contents, now⟩ else e?
  | .delete k, e? => if k = id then none else e?
  | .touch k, e? => if k = id then e?.map fun e => ⟨e.contents, now⟩ else e?
  | .purge maxAge, e? => e?.filter fun e => Instant.elapsed now e.touched ≤ maxAge
  | .start, e? | .stop, e? | .contains _, e? | .get _, e? => e?

namespace Memory

theorem getElem?_fresh (m : Memory) (now : Instant) (maxAge : Duration) (id : String) :
    (fresh m now maxAge)[id]? =
      m[id]?.filter fun e => Instant.elapsed now e.touched ≤ maxAge :=
  Std.ExtTreeMap.getElem?_filter'

theorem store_touch (now : Instant) (m : Memory) (k : String) :
    (perform now m (.touch k)).store =
      match m[k]? with
      | some e => m.insert k ⟨e.contents, now⟩
      | none => m := by
  rw [perform]
  cases m[k]? <;> rfl

theorem getElem?_perform (now : Instant) (m : Memory) (c : Call) (id : String) :
    (perform now m c).store[id]? = c.turn now id m[id]? := by
  cases c with
  | start | stop | contains => rfl
  | get k =>
    rw [perform]
    split <;> rfl
  | set k contents =>
    simp [perform, Outcome.done, Call.turn, Std.ExtTreeMap.getElem?_insert]
  | delete k =>
    simp [perform, Outcome.done, Call.turn, Std.ExtTreeMap.getElem?_erase]
  | touch k =>
    rw [store_touch, Call.turn]
    by_cases hk : k = id
    · subst hk
      rcases h : m[k]? with _ | e
      · simp [h]
      · simp
    · rcases h : m[k]? with _ | e
      · simp [hk]
      · simp [Std.ExtTreeMap.getElem?_insert, hk]
  | purge maxAge => exact getElem?_fresh m now maxAge id

/-! ## Entries and the history of calls -/

/-- Calls leave no entry but those that were there and those that were reset meanwhile. -/
theorem entry_of_replay {m : Memory} {history : List (Instant × Call)} {id : String} {e : Entry}
    (h : (backend.replay m history)[id]? = some e) :
    m[id]? = some e ∨ ∃ x ∈ history, e.touched = x.1 := by
  induction history generalizing e with
  | nil => exact .inl h
  | cons x past ih =>
    obtain ⟨t, c⟩ := x
    have hturn : c.turn t id (backend.replay m past)[id]? = some e :=
      (getElem?_perform t _ c id).symm.trans h
    have hpast : (backend.replay m past)[id]? = some e →
        m[id]? = some e ∨ ∃ x ∈ (t, c) :: past, e.touched = x.1 := by
      intro he
      rcases ih he with hm | ⟨y, hy, hey⟩
      · exact .inl hm
      · exact .inr ⟨y, List.mem_cons_of_mem _ hy, hey⟩
    cases c with
    | start | stop | contains | get => exact hpast hturn
    | set k contents =>
      simp only [Call.turn] at hturn
      split at hturn
      · cases hturn
        exact .inr ⟨_, List.mem_cons_self, rfl⟩
      · exact hpast hturn
    | delete k =>
      simp only [Call.turn] at hturn
      split at hturn
      · cases hturn
      · exact hpast hturn
    | touch k =>
      simp only [Call.turn] at hturn
      split at hturn
      · obtain ⟨_, -, rfl⟩ := Option.map_eq_some_iff.mp hturn
        exact .inr ⟨_, List.mem_cons_self, rfl⟩
      · exact hpast hturn
    | purge maxAge => exact hpast (Option.filter_eq_some_iff.mp hturn).1

/-- The memory after a history of calls, the latest first, which began with nothing. -/
def after (history : List (Instant × Call)) : Memory := backend.replay ∅ history

theorem after_append (later past : List (Instant × Call)) :
    after (later ++ past) = backend.replay (after past) later :=
  backend.replay_append ∅ later past

@[simp] theorem getElem?_after_nil (id : String) : (after [])[id]? = none :=
  Std.ExtTreeMap.getElem?_empty

theorem getElem?_after_cons (t : Instant) (c : Call) (past : List (Instant × Call)) (id : String) :
    (after ((t, c) :: past))[id]? = c.turn t id (after past)[id]? :=
  getElem?_perform t (after past) c id

/-- The contents that were last set under an id. -/
def lastSet? (id : String) : List (Instant × Call) → Option Bytes
  | [] => none
  | (_, .set k contents) :: past => if k = id then some contents else lastSet? id past
  | _ :: past => lastSet? id past

/-- The instant at which the idle time of an id was last reset, by a set or a touch. -/
def lastReset? (id : String) : List (Instant × Call) → Option Instant
  | [] => none
  | (t, .set k _) :: past => if k = id then some t else lastReset? id past
  | (t, .touch k) :: past => if k = id then some t else lastReset? id past
  | _ :: past => lastReset? id past

/-- An entry holds what was last set, and is idle since it was last reset. -/
theorem last_of_getElem?_after {id : String} {history : List (Instant × Call)} {e : Entry}
    (h : (after history)[id]? = some e) :
    lastSet? id history = some e.contents ∧ lastReset? id history = some e.touched := by
  induction history generalizing e with
  | nil => simp at h
  | cons x past ih =>
    obtain ⟨t, c⟩ := x
    rw [getElem?_after_cons] at h
    cases c with
    | start | stop | contains | get => exact ih h
    | set k contents =>
      simp only [Call.turn] at h
      simp only [lastSet?, lastReset?]
      split
      · next hk =>
        rw [if_pos hk] at h
        cases h
        exact ⟨rfl, rfl⟩
      · next hk =>
        rw [if_neg hk] at h
        exact ih h
    | delete k =>
      simp only [Call.turn] at h
      split at h
      · cases h
      · exact ih h
    | touch k =>
      simp only [Call.turn] at h
      simp only [lastSet?, lastReset?]
      split
      · next hk =>
        rw [if_pos hk] at h
        obtain ⟨e', he', rfl⟩ := Option.map_eq_some_iff.mp h
        exact ⟨(ih he').1, rfl⟩
      · next hk =>
        rw [if_neg hk] at h
        exact ih h
    | purge maxAge => exact ih (Option.filter_eq_some_iff.mp h).1

/-- An entry goes only by a deletion of its id or by a purge that finds it too old. -/
theorem turn_eq_none_iff (now : Instant) (id : String) (c : Call) (e : Entry) :
    c.turn now id (some e) = none ↔
      c = .delete id ∨ ∃ maxAge, c = .purge maxAge ∧ e.touched.after maxAge < now := by
  cases c with
  | start | stop | contains | get => simp [Call.turn]
  | set k contents =>
    simp only [Call.turn]
    split <;> simp
  | delete k => simp [Call.turn]
  | touch k =>
    simp only [Call.turn]
    split <;> simp
  | purge maxAge =>
    simp [Call.turn, Option.filter_eq_none_iff, Instant.elapsed_le_iff]

/-- Calls that neither delete the id nor purge later than `limit` keep an entry that was reset at
`t`, if they purge nothing younger than the time between. -/
theorem exists_of_replay {t limit : Instant} {maxAge : Duration} {id : String} {m : Memory}
    {history : List (Instant × Call)} (hm : ∃ e, m[id]? = some e ∧ t ≤ e.touched)
    (hd : ∀ x ∈ history, x.2 ≠ .delete id) (ht : ∀ x ∈ history, t ≤ x.1 ∧ x.1 ≤ limit)
    (hp : ∀ x ∈ history, ∀ a, x.2 = .purge a → a = maxAge) (hlimit : limit ≤ t.after maxAge) :
    ∃ e, (backend.replay m history)[id]? = some e ∧ t ≤ e.touched := by
  induction history with
  | nil => exact hm
  | cons x past ih =>
    obtain ⟨now, c⟩ := x
    obtain ⟨e, he, hte⟩ := ih (fun x hx => hd x (by simp [hx])) (fun x hx => ht x (by simp [hx]))
      (fun x hx => hp x (by simp [hx]))
    obtain ⟨hle, hnow⟩ := ht (now, c) (by simp)
    have hturn : (backend.replay m ((now, c) :: past))[id]? = c.turn now id (some e) :=
      (getElem?_perform now _ c id).trans (by rw [he])
    rw [hturn]
    cases c with
    | start | stop | contains | get => exact ⟨e, rfl, hte⟩
    | set k contents =>
      simp only [Call.turn]
      split
      · exact ⟨_, rfl, hle⟩
      · exact ⟨e, rfl, hte⟩
    | delete k =>
      have hk : k ≠ id := fun hk => hd (now, .delete k) (by simp) (by rw [hk])
      exact ⟨e, by simp [Call.turn, hk], hte⟩
    | touch k =>
      simp only [Call.turn]
      split
      · exact ⟨_, rfl, hle⟩
      · exact ⟨e, rfl, hte⟩
    | purge a =>
      obtain rfl : a = maxAge := hp (now, .purge a) (by simp) a rfl
      have hyoung : Instant.elapsed now e.touched ≤ a := by
        rw [Instant.elapsed_le_iff]
        simp only [Instant.after] at hlimit ⊢
        lia
      exact ⟨e, by simp [Call.turn, hyoung], hte⟩

end Memory

end SessionStore
