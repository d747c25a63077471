import SessionStore.Proofs.Engine.Loading
import SessionStore.Proofs.Store.Slots
import SessionStore.Proofs.Store.Sweeping

/-! # Visits

To load a session is to visit its entry: one that is there is read and reset, whether or not it can
be decoded, and one that is not comes into being empty. Nothing else changes, and a second visit at
the same instant finds and leaves everything as the first one did.
-/

namespace SessionStore

variable {σ : Type}

namespace Engine

open Access

variable {e : Engine} {b : Backend σ} {now : Instant} {id : String} {w : Work σ} {S : Slot σ}
  {contents : Bytes} {s : σ}

/-- What comes of loading the session `id`, whose entry has its place at `S`. -/
structure Visited (e : Engine) (b : Backend σ) (now : Instant) (id : String) (S : Slot σ)
    (w : Work σ) : Prop where
  present : ∀ x, S.entry? w.store = some x →
    ((e.getSession b now id).perform w).1 =
        (e.encoder.decode x.contents).map (Session.withData id) ∧
      S.Turns ⟨x.contents, now⟩ w.store ((e.getSession b now id).perform w).2.store
  absent : S.entry? w.store = none → ∃ contents, e.encoder.encode ∅ = .ok contents ∧
    ((e.getSession b now id).perform w).1 = .ok (.empty id) ∧
      S.Turns ⟨contents, now⟩ w.store ((e.getSession b now id).perform w).2.store
  session : ∀ s, ((e.getSession b now id).perform w).1 = .ok s →
    s.id = id ∧ s.changed = false ∧ s.isDestroyed = false
  missing : ∀ k, ((e.getSession b now id).perform w).1 = .error (.notFound k) →
    ∃ x, S.entry? w.store = some x ∧ e.encoder.decode x.contents = .error (.notFound k)
  again : ∀ v : Work σ, v.store = ((e.getSession b now id).perform w).2.store →
    ((e.getSession b now id).perform v).1 = ((e.getSession b now id).perform w).1 ∧
      ((e.getSession b now id).perform v).2.store = v.store

theorem checkId_eq_ok (he : e.enabled = true) (hid : id ≠ "") : e.checkId id = .ok () := by
  simp [checkId, checkEnabled, he, hid, bind, Except.bind, pure, Except.pure]

/-- An operation ends with its first call if that fails. -/
theorem perform_bind_call_error {α : Type} {c : Call} {f : c.Reply → Access σ α}
    {fault : SessionError} (h : (b.perform now w.store c).result = .error fault) :
    (call b now c >>= f).perform w =
      (.error fault, w.after now c (b.perform now w.store c)) := by
  rw [perform_bind, perform_call, h]

/-- An entry that is missing is made before it is read. -/
theorem getSession_of_missing (hid : e.checkId id = .ok ())
    (hcontains : b.perform now w.store (.contains id) = .done w.store false [])
    (hencode : e.encoder.encode ∅ = .ok contents) :
    ∃ u : Work σ, u.store = w.store ∧ (e.getSession b now id).perform w =
      ((call b now (.set id contents) >>= fun _ => Access.note (.created id)) >>=
        fun _ => e.load b now id).perform u := by
  obtain ⟨u, hu⟩ : ∃ u, u = w.after now (.contains id) (b.perform now w.store (.contains id)) :=
    ⟨_, rfl⟩
  have hstore : u.store = w.store := by
    rw [hu, hcontains]
    rfl
  have hget : (e.getSession b now id).perform w =
      (e.create b now id >>= fun _ => e.load b now id).perform u := by
    rw [getSession_eq, perform_bind, perform_ofExcept, hid, hu]
    exact perform_bind_call (congrArg Outcome.result hcontains)
  have hcreate : (e.create b now id).perform u =
      (call b now (.set id contents) >>= fun _ => Access.note (.created id)).perform u := by
    rw [create, perform_bind, perform_ofExcept, hencode]
    rfl
  refine ⟨u, hstore, ?_⟩
  rw [hget, perform_bind, perform_bind, hcreate]

theorem getSession_of_made (hid : e.checkId id = .ok ())
    (hcontains : b.perform now w.store (.contains id) = .done w.store false [])
    (hencode : e.encoder.encode ∅ = .ok contents)
    (hset : (b.perform now w.store (.set id contents)).result = .ok ()) :
    ∃ v : Work σ, v.store = (b.perform now w.store (.set id contents)).store ∧
      (e.getSession b now id).perform w = (e.load b now id).perform v := by
  obtain ⟨u, hstore, hget⟩ := getSession_of_missing hid hcontains hencode
  rw [← hstore] at hset ⊢
  refine ⟨(u.after now (.set id contents) (b.perform now u.store (.set id contents))).note
    (.created id), rfl, hget.trans ?_⟩
  rw [perform_bind, perform_bind_call hset]
  rfl

theorem map_withData_eq_error {x : Except SessionError SessionData} {fault : SessionError}
    (h : x.map (Session.withData id) = .error fault) : x = .error fault := by
  rcases x with why | d <;> cases h
  rfl

section Slots

variable (hS : S.Serves b id) (hid : e.checkId id = .ok ()) (hs : S.Fine w.store)
include hS hid hs

/-- An entry that is there is read and reset. -/
theorem getSession_of_present {x : Entry} (hx : S.entry? w.store = some x) :
    ((e.getSession b now id).perform w).1 =
        (e.encoder.decode x.contents).map (Session.withData id) ∧
      S.Turns ⟨x.contents, now⟩ w.store ((e.getSession b now id).perform w).2.store := by
  obtain ⟨v, hv, hget⟩ := getSession_of_finds hid (hS.finds hs hx) now
  obtain ⟨s, htouch, hturns⟩ := hS.touch now hs hx
  rw [hget, hv, htouch]
  exact ⟨rfl, hturns⟩

/-- An entry that was reset at this instant is left as it is. -/
theorem getSession_of_touched {x : Entry} (hx : S.entry? w.store = some x)
    (ht : x.touched = now) : ((e.getSession b now id).perform w).2.store = w.store := by
  obtain ⟨v, hv, hget⟩ := getSession_of_finds hid (hS.finds hs hx) now
  subst ht
  rw [hget, hv, hS.touch_self hs hx]
  rfl

/-- An entry that is missing is made, then read and reset. -/
theorem getSession_of_absent (hx : S.entry? w.store = none)
    (hencode : e.encoder.encode ∅ = .ok contents) (now : Instant) :
    ((e.getSession b now id).perform w).1 =
        (e.encoder.decode contents).map (Session.withData id) ∧
      S.Turns ⟨contents, now⟩ w.store ((e.getSession b now id).perform w).2.store := by
  obtain ⟨s, events, hset, hmade⟩ := hS.set now contents hs hx
  have hcontains := hS.contains now hs
  rw [hx] at hcontains
  obtain ⟨v, hv, hget⟩ :=
    getSession_of_made hid hcontains hencode (congrArg Outcome.result hset)
  have hstore : v.store = s := hv.trans (congrArg Outcome.store hset)
  subst hstore
  obtain ⟨u, hu, hload⟩ := load_of_finds (e := e) (hS.finds hmade.fine hmade.entry) now
  obtain ⟨s', htouch, hturns⟩ := hS.touch now hmade.fine hmade.entry
  rw [hget, hload, hu, htouch]
  exact ⟨rfl, hturns.entry, hturns.fine, hS.trans hmade.same hturns.same⟩

/-- After a visit there is nothing that another one at the same instant would change. -/
theorem visited_of_serves (hencode : e.encoder.encode ∅ = .ok contents)
    (hdecode : e.encoder.decode contents = .ok ∅) : e.Visited b now id S w := by
  -- Found or made, the entry has these contents when it is read.
  obtain ⟨read, hfound, hresult, hturns⟩ : ∃ read,
      (S.entry? w.store = none ∧ read = contents ∨
        ∃ x, S.entry? w.store = some x ∧ read = x.contents) ∧
      ((e.getSession b now id).perform w).1 =
        (e.encoder.decode read).map (Session.withData id) ∧
      S.Turns ⟨read, now⟩ w.store ((e.getSession b now id).perform w).2.store := by
    rcases hx : S.entry? w.store with _ | x
    · exact ⟨contents, .inl ⟨rfl, rfl⟩, getSession_of_absent hS hid hs hx hencode now⟩
    · exact ⟨x.contents, .inr ⟨x, rfl, rfl⟩, getSession_of_present hS hid hs hx⟩
  refine ⟨?_, ?_, ?_, ?_, ?_⟩
  · intro x hx
    exact getSession_of_present hS hid hs hx
  · intro hx
    obtain ⟨hmade, hturns⟩ := getSession_of_absent hS hid hs hx hencode now
    rw [hdecode] at hmade
    exact ⟨contents, hencode, hmade, hturns⟩
  · intro s hok
    rw [hresult] at hok
    rcases hd : e.encoder.decode read with why | d <;> rw [hd] at hok <;> cases hok
    exact ⟨rfl, rfl, rfl⟩
  · intro k hmissing
    have hfault := map_withData_eq_error (hresult.symm.trans hmissing)
    rcases hfound with ⟨-, rfl⟩ | ⟨x, hx, rfl⟩
    · rw [hdecode] at hfault
      cases hfault
    · exact ⟨x, hx, hfault⟩
  · intro v hv
    have hfine : S.Fine v.store := hv ▸ hturns.fine
    have hentry : S.entry? v.store = some ⟨read, now⟩ := hv ▸ hturns.entry
    refine ⟨?_, getSession_of_touched hS hid hfine hentry rfl⟩
    rw [hresult]
    exact (getSession_of_present hS hid hfine hentry).1

end Slots

/-! ## Calls that are refused -/

section Refused

variable {fault : SessionError} (hid : e.checkId id = .ok ())
include hid

theorem getSession_of_contains_error
    (hcontains : b.perform now w.store (.contains id) = .failed w.store fault) :
    ((e.getSession b now id).perform w).1 = .error fault ∧
      ((e.getSession b now id).perform w).2.store = w.store := by
  have hget : (e.getSession b now id).perform w =
      (.error fault, w.after now (.contains id) (b.perform now w.store (.contains id))) := by
    rw [getSession_eq, perform_bind, perform_ofExcept, hid]
    exact perform_bind_call_error (congrArg Outcome.result hcontains)
  rw [hget, hcontains]
  exact ⟨rfl, rfl⟩

theorem getSession_of_set_error
    (hcontains : b.perform now w.store (.contains id) = .done w.store false [])
    (hencode : e.encoder.encode ∅ = .ok contents)
    (hset : (b.perform now w.store (.set id contents)).result = .error fault)
    (hstore : (b.perform now w.store (.set id contents)).store = w.store) :
    ((e.getSession b now id).perform w).1 = .error fault ∧
      ((e.getSession b now id).perform w).2.store = w.store := by
  obtain ⟨u, hsame, hget⟩ := getSession_of_missing hid hcontains hencode
  rw [← hsame] at hset hstore ⊢
  rw [hget, perform_bind, perform_bind_call_error hset]
  exact ⟨rfl, hstore⟩

/-- Where there is no room for its file a session cannot be loaded. -/
theorem getSession_of_not_isRoomy {f : FileStore} {l : Location} {w : Work Disk}
    (hx : f.FitExtension) (h : w.store.Houses f.directory l)
    (hends : ∀ name, w.store.IsEnd (l ++ [name])) (hroom : ¬f.IsRoomy l w.store id)
    (hencode : e.encoder.encode ∅ = .ok contents) (now : Instant) :
    ((e.getSession f.backend now id).perform w).1 = .error (.io .nameTooLong) ∧
      ((e.getSession f.backend now id).perform w).2.store = w.store := by
  rcases FileStore.refused_of_not_isRoomy hx h hends hroom now with hfailed | ⟨hmissing, hset⟩
  · exact getSession_of_contains_error hid hfailed
  · obtain ⟨hrefused, hstore⟩ := hset contents
    exact getSession_of_set_error hid hmissing hencode hrefused hstore

end Refused

end Engine

namespace FileStore

/-- Visits to one id keep the entries of all others whose files have other names. -/
theorem entryIn?_of_turns {f : FileStore} {l : Location} {d d' : Disk} {id k : String} {x : Entry}
    (h : (f.slot l id).Turns x d d') (hk : k ≠ id) (hdigest : ¬SameDigest k id) :
    f.entryIn? l d' k = f.entryIn? l d k := by
  have hw : Disk.Within l [f.temporaryName id, f.fileName id] d d' := h.same
  have hname : f.fileName k ≠ f.fileName id := fun heq =>
    (fileName_eq_iff.mp heq).elim hk hdigest
  have hnot : f.fileName k ∉ [f.temporaryName id, f.fileName id] := by
    simpa using ⟨(f.temporaryName_ne id k).symm, hname⟩
  rw [entryIn?, entryIn?, hw.node?_child hnot]

end FileStore

/-! ## Two directories -/

namespace FileStore

theorem interrupted_isEnd (name : String) : interrupted.IsEnd (["s"] ++ [name]) := by
  rw [Disk.IsEnd, List.singleton_append, node?_interrupted]
  by_cases htemporary : name = "k.sess.tmp"
  · exact .inr ⟨[], 0o600, 0, by simp [htemporary]⟩
  · by_cases hentry : name = "k.sess"
    · exact .inr ⟨[0x6b], 0o600, 0, by simp [hentry]⟩
    · exact .inl (by simp [htemporary, hentry])

theorem fileName_sess (directory : String) : fileName ⟨directory, "sess"⟩ "k" = "k.sess" := by
  rw [fileName, stem_of_isPlain (by decide)]
  rfl

theorem entryIn?_interrupted (directory : String) :
    entryIn? ⟨directory, "sess"⟩ ["s"] interrupted "k" = some ⟨[0x6b], 0⟩ := by
  rw [entryIn?, fileName_sess, node?_interrupted]
  rfl

theorem not_isRoomy_slashed (d : Disk) : ¬IsRoomy ⟨slashed 4090, "sess"⟩ ["s"] d "k" := by
  have hlong : Path.lengthLimit ≤ (pathFor ⟨slashed 4090, "sess"⟩ "k").utf8ByteSize := by
    have hjoin := Path.le_utf8ByteSize_join (slashed 4090) "k.sess"
    rw [utf8ByteSize_slashed] at hjoin
    rw [pathFor, fileName_sess]
    exact Nat.le_trans (by decide) hjoin
  have hlonger : Path.lengthLimit ≤
      (temporary (pathFor ⟨slashed 4090, "sess"⟩ "k")).utf8ByteSize := by
    rw [temporary, String.utf8ByteSize_append]
    exact Nat.le_add_right_of_le hlong
  rintro (⟨-, hlt⟩ | hlt)
  · exact absurd hlt (Nat.not_lt.mpr hlong)
  · exact absurd hlt (Nat.not_lt.mpr hlonger)

end FileStore

theorem Encoder.json_empty :
    Encoder.json.encode ∅ = .ok [0x7b, 0x7d] ∧ Encoder.json.decode [0x7b, 0x7d] = .ok ∅ :=
  ⟨rfl, rfl⟩

namespace Engine

open Access FileStore

/-- Loading a session visits its entry, in the memory and in a directory of files with room for it.
The other entries stay as they are. Without room the system refuses, and nothing changes. -/
theorem getSession_visits (e : Engine) (he : e.enabled = true) (id : String) (hid : id ≠ "")
    {contents : Bytes} (hencode : e.encoder.encode ∅ = .ok contents)
    (hdecode : e.encoder.decode contents = .ok ∅) (now : Instant) :
    (∀ w : Work Memory, e.Visited Memory.backend now id (Memory.slot id) w) ∧
      ∀ (f : FileStore) (l : Location) (w : Work Disk), f.FitExtension →
        w.store.Houses f.directory l → (∀ name, w.store.IsEnd (l ++ [name])) →
          let v := (e.getSession f.backend now id).perform w
          (f.IsRoomy l w.store id → e.Visited f.backend now id (f.slot l id) w ∧
            ∀ k, k ≠ id → ¬SameDigest k id →
              f.entryIn? l v.2.store k = f.entryIn? l w.store k) ∧
          (¬f.IsRoomy l w.store id →
            v.1 = .error (.io .nameTooLong) ∧ v.2.store = w.store) := by
  have hcheck := checkId_eq_ok he hid
  constructor
  · intro w
    exact visited_of_serves (Memory.slot_serves id) hcheck trivial hencode hdecode
  · intro f l w hx h hends v
    constructor
    · intro hroom
      have hfine := hroom.hasRoom hx h hends
      have hvisited : e.Visited f.backend now id (f.slot l id) w :=
        visited_of_serves (f.slot_serves l id) hcheck hfine hencode hdecode
      refine ⟨hvisited, fun k hk hdigest => ?_⟩
      rcases hentry : f.entryIn? l w.store id with _ | x
      · obtain ⟨_, -, -, hturns⟩ := hvisited.absent hentry
        exact entryIn?_of_turns hturns hk hdigest
      · exact entryIn?_of_turns (hvisited.present x hentry).2 hk hdigest
    · intro hroom
      exact getSession_of_not_isRoomy hcheck hx h hends hroom hencode now

/-- An entry that cannot be decoded, and one that is not there yet. -/
theorem getSession_visits_garbled :
    let e := ofProperties .standard
    let f : FileStore := ⟨"s", "sess"⟩
    let inFiles := (e.getSession f.backend 7 "k").perform (.fresh interrupted)
    let inMemory := (e.getSession Memory.backend 7 "k").perform (.fresh ∅)
    e.enabled = true ∧ f.FitExtension ∧ interrupted.Houses f.directory ["s"] ∧
      (∀ name, interrupted.IsEnd (["s"] ++ [name])) ∧ f.IsRoomy ["s"] interrupted "k" ∧
      inFiles.1 = .error (.deserialization .malformed) ∧
      f.entryIn? ["s"] inFiles.2.store "k" = some ⟨[0x6b], 7⟩ ∧
      inMemory.1 = .ok (.empty "k") ∧ inMemory.2.store["k"]? = some ⟨[0x7b, 0x7d], 7⟩ := by
  intro e f inFiles inMemory
  obtain ⟨hencode, hdecode⟩ := Encoder.json_empty
  have hx : f.FitExtension := (hasExtension_sess "s").fit
  have hhouses : interrupted.Houses f.directory ["s"] := interrupted_leadsTo.houses
  have hroom : f.IsRoomy ["s"] interrupted "k" := .inr (by decide +kernel)
  obtain ⟨hmemory, hfiles⟩ := getSession_visits e rfl "k" (by decide) hencode hdecode 7
  obtain ⟨hvisited, -⟩ :=
    (hfiles f ["s"] (.fresh interrupted) hx hhouses interrupted_isEnd).1 hroom
  have hentry : f.entryIn? ["s"] interrupted "k" = some ⟨[0x6b], 0⟩ := entryIn?_interrupted "s"
  obtain ⟨hresult, hturns⟩ := hvisited.present ⟨[0x6b], 0⟩ hentry
  obtain ⟨made, hmade, hempty, hturns'⟩ := (hmemory (.fresh ∅)).absent rfl
  cases hencode.symm.trans hmade
  exact ⟨rfl, hx, hhouses, interrupted_isEnd, hroom, hresult, hturns.entry, hempty, hturns'.entry⟩

/-- Where the path of the directory leaves no room an entry that is there is not found, and a
decoder of one's own can say of an entry that is there that it is not. -/
theorem getSession_refused :
    let e := ofProperties .standard
    let f : FileStore := ⟨slashed 4090, "sess"⟩
    let decode (bs : Bytes) : Except SessionError SessionData :=
      if bs = [] then .ok ∅ else .error (.notFound "j")
    let odd := e.withEncoder ⟨"odd", fun _ => .ok [], decode⟩
    let w : Work Memory := .fresh ((∅ : Memory).insert "k" ⟨[1], 0⟩)
    (e.enabled = true ∧ e.encoder.encode ∅ = .ok [0x7b, 0x7d] ∧
      e.encoder.decode [0x7b, 0x7d] = .ok ∅ ∧ f.FitExtension ∧
      interrupted.Houses f.directory ["s"] ∧ (∀ name, interrupted.IsEnd (["s"] ++ [name])) ∧
      f.entryIn? ["s"] interrupted "k" = some ⟨[0x6b], 0⟩ ∧
      ((e.getSession f.backend 7 "k").perform (.fresh interrupted)).1 =
        .error (.io .nameTooLong)) ∧
    odd.enabled = true ∧ odd.encoder.encode ∅ = .ok [] ∧ odd.encoder.decode [] = .ok ∅ ∧
      ((odd.getSession Memory.backend 7 "k").perform w).1 = .error (.notFound "j") := by
  intro e f decode odd w
  obtain ⟨hencode, hdecode⟩ := Encoder.json_empty
  have hx : f.FitExtension := (hasExtension_sess _).fit
  have hhouses : interrupted.Houses f.directory ["s"] :=
    (leadsTo_slashed (by decide) interrupted_leadsTo.isDir).houses
  have hrefused := getSession_of_not_isRoomy (e := e) (w := .fresh interrupted) rfl hx hhouses
    interrupted_isEnd (not_isRoomy_slashed interrupted) hencode 7
  exact ⟨⟨rfl, hencode, hdecode, hx, hhouses, interrupted_isEnd, entryIn?_interrupted _,
    hrefused.1⟩, rfl, rfl, rfl, rfl⟩

end Engine

end SessionStore
