import Mathlib.Data.Set.Card
import SessionStore.Proofs.Store.Memory

/-! # The contract of stores

What a store promises does not depend on how it keeps its contents. A ledger is a store at its
plainest: the contents under every id and the instant of their last reset. A backend that follows a
ledger call by call gives the same answers to any sequence of requests.
-/

namespace SessionStore

variable {σ τ : Type}

abbrev Ledger := String → Option Entry

namespace Ledger

/-- The ids that have been idle for longer than `maxAge`. -/
def stale (l : Ledger) (now : Instant) (maxAge : Duration) : Set String :=
  {id | ∃ e, l id = some e ∧ maxAge < Instant.elapsed now e.touched}

noncomputable def answer (now : Instant) (l : Ledger) : (c : Call) → Except SessionError c.Reply
  | .start => .ok ()
  | .stop => .ok ()
  | .contains id => .ok (l id).isSome
  | .get id =>
    match l id with
    | some e => .ok e.contents
    | none => .error (.notFound id)
  | .set _ _ => .ok ()
  | .delete _ => .ok ()
  | .touch id => if (l id).isSome then .ok () else .error (.notFound id)
  | .purge maxAge => .ok (l.stale now maxAge).ncard

def after (now : Instant) (l : Ledger) (c : Call) : Ledger := fun id => c.turn now id (l id)

/-- The ledger as a backend of its own. -/
noncomputable def backend : Backend Ledger :=
  ⟨true, fun now l c => ⟨l.answer now c, l.after now c, []⟩⟩

def empty : Ledger := fun _ => none

/-- The number of stale ids, if they are listed without repetition. -/
theorem ncard_stale {l : Ledger} {now : Instant} {maxAge : Duration} {ids : List String}
    (hn : ids.Nodup) (hids : ∀ id, id ∈ ids ↔ id ∈ l.stale now maxAge) :
    (l.stale now maxAge).ncard = ids.length := by
  have hset : l.stale now maxAge = ↑ids.toFinset := by
    ext id
    simp [hids]
  rw [hset, Set.ncard_coe_finset, List.toFinset_card_of_nodup hn]

end Ledger

theorem ok_of_toOption {α : Type} {x : Except SessionError α} {a : α}
    (h : x.toOption = some a) : x = .ok a := by
  cases x with
  | error why => cases h
  | ok b => exact congrArg Except.ok (Option.some.inj h)

/-! ## Requests -/

/-- What stores can be asked to do: the calls, and reading and writing of texts. -/
inductive Request
  | call (c : Call)
  | getText (id : String)
  | setText (id text : String)

/-- The ids that a call is about. -/
def Call.ids : Call → List String
  | .contains id | .get id | .set id _ | .delete id | .touch id => [id]
  | .start | .stop | .purge _ => []

namespace Request

def Reply : Request → Type
  | call c => c.Reply
  | getText _ => String
  | setText _ _ => Unit

def ids : Request → List String
  | call c => c.ids
  | getText id => [id]
  | setText id _ => [id]

end Request

namespace Backend

def respond (b : Backend σ) (now : Instant) (s : σ) : (r : Request) → Outcome σ r.Reply
  | .call c => b.perform now s c
  | .getText id => b.getText now s id
  | .setText id text => b.setText now s id text

/-- The answers to requests that come in one after the other, each at its instant. -/
def serve (b : Backend σ) :
    σ → List (Instant × Request) → List ((r : Request) × Except SessionError r.Reply)
  | _, [] => []
  | s, (now, r) :: rs =>
    ⟨r, (b.respond now s r).result⟩ :: b.serve (b.respond now s r).store rs

/-- A store that stands for a ledger answers a call about the given ids as the ledger does, and
stands for the ledger afterwards. -/
def Follows (b : Backend σ) (used : String → Prop) (R : σ → Ledger → Prop) : Prop :=
  ∀ now s l c, (∀ id ∈ c.ids, used id) → R s l →
    (b.perform now s c).result = l.answer now c ∧ R (b.perform now s c).store (l.after now c)

variable {b : Backend σ} {used : String → Prop} {R : σ → Ledger → Prop} {s : σ} {l : Ledger}

theorem Follows.respond (h : b.Follows used R) (hR : R s l) (now : Instant) (r : Request)
    (hr : ∀ id ∈ r.ids, used id) :
    (b.respond now s r).result = (Ledger.backend.respond now l r).result ∧
      R (b.respond now s r).store (Ledger.backend.respond now l r).store := by
  cases r with
  | call c => exact h now s l c hr hR
  | getText id =>
    obtain ⟨hresult, hstore⟩ := h now s l (.get id) hr hR
    refine ⟨?_, hstore⟩
    simp only [Backend.respond, Backend.getText]
    rw [hresult]
    rfl
  | setText id text => exact h now s l (.set id (Utf8.encodeText text)) hr hR

/-- Whatever it is asked, in any order and at any instants, a store that stands for a ledger answers
as the ledger does. -/
theorem Follows.serve (h : b.Follows used R) (hR : R s l) (rs : List (Instant × Request))
    (hrs : ∀ x ∈ rs, ∀ id ∈ x.2.ids, used id) : b.serve s rs = Ledger.backend.serve l rs := by
  induction rs generalizing s l with
  | nil => rfl
  | cons x rs ih =>
    obtain ⟨now, r⟩ := x
    obtain ⟨hresult, hstore⟩ := h.respond hR now r (hrs (now, r) (by simp))
    simp only [Backend.serve]
    rw [hresult, ih hstore fun x hx => hrs x (by simp [hx])]

end Backend

/-! ## The memory backend -/

namespace Memory

/-- The memory stands for the ledger of its entries. -/
def Holds (m : Memory) (l : Ledger) : Prop := ∀ id, m[id]? = l id

/-- A purge counts what it removes. -/
theorem size_sub_size_fresh (m : Memory) (now : Instant) (maxAge : Duration) :
    m.size - (fresh m now maxAge).size =
      (Ledger.stale (fun id => m[id]?) now maxAge).ncard := by
  let young : String × Entry → Bool := fun e =>
    decide (Instant.elapsed now e.2.touched ≤ maxAge)
  have hids : ∀ id, id ∈ (m.toList.filter (!young ·)).map Prod.fst ↔
      id ∈ Ledger.stale (fun id => m[id]?) now maxAge := by
    intro id
    simp only [List.mem_map, List.mem_filter, Prod.exists, exists_and_right, exists_eq_right,
      Std.ExtTreeMap.mem_toList_iff_getElem?_eq_some, Ledger.stale, Set.mem_ofPred_eq]
    apply exists_congr
    intro e
    apply and_congr_right
    intro _
    simp only [young, Bool.not_eq_true', decide_eq_false_iff_not]
    exact Nat.not_le
  have hnodup : ((m.toList.filter (!young ·)).map Prod.fst).Nodup := by
    have hkeys : (m.toList.map Prod.fst).Nodup := by
      rw [Std.ExtTreeMap.map_fst_toList_eq_keys]
      exact Std.ExtTreeMap.nodup_keys
    exact hkeys.sublist (List.filter_sublist.map Prod.fst)
  have hlength := List.length_eq_length_filter_add (l := m.toList) young
  rw [Ledger.ncard_stale hnodup hids, List.length_map, ← Std.ExtTreeMap.length_toList,
    ← Std.ExtTreeMap.length_toList, fresh, Std.ExtTreeMap.toList_filter]
  exact Nat.sub_eq_of_eq_add' hlength

theorem backend_follows (used : String → Prop) : backend.Follows used Holds := by
  intro now m l c _ hR
  have hafter : Holds (perform now m c).store (l.after now c) := by
    intro id
    rw [getElem?_perform, hR id]
    rfl
  refine ⟨?_, hafter⟩
  cases c with
  | start | stop | set | delete => rfl
  | contains id =>
    simp only [backend, perform, Ledger.answer, Outcome.done, ← hR id]
    rw [Std.ExtTreeMap.contains_eq_isSome_getElem?]
  | get id =>
    simp only [backend, perform, Ledger.answer, ← hR id]
    cases m[id]? <;> rfl
  | touch id =>
    simp only [backend, perform, Ledger.answer, ← hR id]
    cases m[id]? <;> rfl
  | purge maxAge =>
    obtain rfl : (fun id => m[id]?) = l := funext hR
    exact congrArg Except.ok (size_sub_size_fresh m now maxAge)

end Memory

end SessionStore
