import SessionStore.Proofs.Engine.Runs
import SessionStore.Proofs.Session.Encoding
import SessionStore.Proofs.Store.Contract
import SessionStore.Proofs.Store.Found

/-! # Saved sessions can be loaded

Saving encodes and stores, loading finds and decodes. Nothing is lost between the two, so whether a
session comes back depends on the encoder alone: data that are nested deeper than it reads are
written all the same, and can never be loaded again.
-/

namespace SessionStore

variable {σ : Type}

namespace Engine

open Access

variable {e : Engine} {b : Backend σ} {now later : Instant} {id : String} {s : Session} {w : Work σ}
  {contents : Bytes}

/-- An entry that is found is read and touched, and its contents are what is decoded. -/
theorem load_of_finds (h : b.Finds w.store id contents) (now : Instant) :
    ∃ v : Work σ, v.store = (b.perform now w.store (.touch id)).store ∧
      (e.load b now id).perform w =
        ((e.encoder.decode contents).map (Session.withData id), v) := by
  obtain ⟨u, hu⟩ : ∃ u, u = w.after now (.get id) (b.perform now w.store (.get id)) := ⟨_, rfl⟩
  have hstore : u.store = w.store := by
    rw [hu]
    exact congrArg Outcome.store (h.get now)
  have htouch := h.touch now
  rw [← hstore] at htouch ⊢
  have hload : (e.load b now id).perform w =
      (Access.ofExcept (e.encoder.decode contents) >>= fun data =>
        pure (Session.withData id data)).perform
          (u.after now (.touch id) (b.perform now u.store (.touch id))) := by
    subst hu
    exact (perform_bind_call (congrArg Outcome.result (h.get now))).trans
      (perform_bind_call htouch)
  refine ⟨u.after now (.touch id) (b.perform now u.store (.touch id)), rfl, ?_⟩
  rw [hload, perform_bind, perform_ofExcept]
  rcases e.encoder.decode contents with why | d <;> rfl

theorem getSession_of_finds (hid : e.checkId id = .ok ()) (h : b.Finds w.store id contents)
    (now : Instant) : ∃ v : Work σ, v.store = (b.perform now w.store (.touch id)).store ∧
      (e.getSession b now id).perform w =
        ((e.encoder.decode contents).map (Session.withData id), v) := by
  obtain ⟨u, hu⟩ : ∃ u, u = w.after now (.contains id) (b.perform now w.store (.contains id)) :=
    ⟨_, rfl⟩
  have hstore : u.store = w.store := by
    rw [hu]
    exact congrArg Outcome.store (h.contains now)
  have hget : (e.getSession b now id).perform w = (e.load b now id).perform u := by
    rw [getSession_eq, perform_bind, perform_ofExcept, hid, hu]
    exact perform_bind_call (congrArg Outcome.result (h.contains now))
  rw [← hstore] at h ⊢
  rw [hget]
  exact load_of_finds h now

/-- A session that is saved was encoded, and the store has taken what came of it. -/
theorem saveSession_eq_ok (h : ((e.saveSession b now id s).perform w).1 = .ok ()) :
    ∃ contents, e.checkId id = .ok () ∧ e.encoder.encode s.persistedData = .ok contents ∧
      (b.perform now w.store (.set id contents)).result = .ok () ∧
      ((e.saveSession b now id s).perform w).2.store =
        (b.perform now w.store (.set id contents)).store := by
  rcases hid : e.checkId id with why | ⟨⟩
  · rw [saveSession, perform_bind, perform_ofExcept, hid] at h
    cases h
  rcases hc : e.encoder.encode s.persistedData with why | contents
  · rw [saveSession, perform_bind, perform_ofExcept, hid] at h
    simp only at h
    rw [perform_bind, perform_ofExcept, hc] at h
    cases h
  have hsave : (e.saveSession b now id s).perform w = (call b now (.set id contents) >>= fun _ =>
      Access.note (.saved id s.changed)).perform w := by
    rw [saveSession, perform_bind, perform_ofExcept, hid]
    simp only
    rw [perform_bind, perform_ofExcept, hc]
    rfl
  rw [hsave, perform_bind, perform_call] at h ⊢
  rcases hr : (b.perform now w.store (.set id contents)).result with why | ⟨⟩
  · rw [hr] at h
    cases h
  · exact ⟨contents, rfl, rfl, hr, rfl⟩

end Engine

/-- What a session comes back as when it is loaded under the id: its data, unless they are nested
deeper than they are read. -/
def Session.restored (s : Session) (id : String) : Except SessionError Session :=
  if s.persistedData.depth ≤ Encoder.depthLimit then .ok (.withData id s.persistedData)
  else .error (.deserialization .malformed)

namespace Engine

open Access

variable {e : Engine} {b : Backend σ} {now later : Instant} {id : String} {s : Session} {w : Work σ}

/-- If the session can be saved under the id, then loading it right afterwards restores it. -/
def Restores (e : Engine) (b : Backend σ) (w : Work σ) (now later : Instant) (id : String)
    (s : Session) : Prop :=
  ((e.saveSession b now id s).perform w).1 = .ok () →
    ((e.getSession b later id).perform ((e.saveSession b now id s).perform w).2).1 = s.restored id

theorem restores_of_finds (he : e.encoder = .json) (hs : s.persistedData.IsExact)
    (hb : ∀ contents, (b.perform now w.store (.set id contents)).result = .ok () →
      b.Finds (b.perform now w.store (.set id contents)).store id contents) :
    e.Restores b w now later id s := by
  intro hsave
  obtain ⟨contents, hid, hencode, hset, hstore⟩ := saveSession_eq_ok hsave
  have hfinds := hb contents hset
  rw [← hstore] at hfinds
  obtain ⟨v, -, hget⟩ := getSession_of_finds hid hfinds later
  rw [hget, Session.restored]
  rw [he] at hencode ⊢
  cases hencode
  have hdecode := Encoder.decodeJson_encodeEntries .compact hs (.refl _)
  change (Encoder.decodeJson _).map _ = _
  rw [hdecode]
  split <;> rfl

theorem restores_memory (he : e.encoder = .json) (hs : s.persistedData.IsExact) (w : Work Memory) :
    e.Restores Memory.backend w now later id s :=
  restores_of_finds he hs fun contents _ => Memory.finds_set w.store now id contents

theorem restores_files {f : FileStore} {l : Location} {w : Work Disk} (he : e.encoder = .json)
    (hs : s.persistedData.IsExact) (h : f.InOrder l w.store id) :
    e.Restores f.backend w now later id s :=
  restores_of_finds he hs fun _ hset => FileStore.finds_set h hset

end Engine

/-! ## Sessions that are lost -/

def Session.nested (n : Nat) : Session := .withData "k" ((∅ : SessionData).insert "a" (.nested n))

theorem Session.depth_nested (n : Nat) : (Session.nested n).persistedData.depth = n + 2 := by
  have hlist : (Session.nested n).persistedData.toList = [("a", .nested n)] := rfl
  rw [SessionData.depth, SessionData.toJson, hlist, Json.depth, Json.depthFields, Json.depth_nested]
  rfl

theorem Session.isExact_nested (n : Nat) : (Session.nested n).persistedData.IsExact := by
  intro key v hv
  have hmem : (key, v) ∈ [("a", Json.nested n)] :=
    Std.ExtTreeMap.mem_toList_iff_getElem?_eq_some.mpr hv
  cases List.mem_singleton.mp hmem
  exact ⟨Json.every_nested (fun _ => trivial) n, Json.every_nested (fun _ => trivial) n⟩

namespace Engine

/-- Every session that is saved can be loaded right afterwards, over memory and over files that are
in order, exactly if its data are not nested deeper than 127 levels. -/
theorem saved_sessions_load (e : Engine) (he : e.encoder = .json) (id : String) (s : Session)
    (hs : s.persistedData.IsExact) (now later : Instant) :
    (∀ w : Work Memory, e.Restores Memory.backend w now later id s) ∧
      ∀ (f : FileStore) (l : Location) (w : Work Disk), f.InOrder l w.store id →
        e.Restores f.backend w now later id s :=
  ⟨restores_memory he hs, fun _ _ _ => restores_files he hs⟩

/-- At the limit a session comes back from memory and from a new directory. -/
theorem saved_sessions_load_nested :
    let e := ofProperties .standard
    let f : FileStore := ⟨"s", "sess"⟩
    let w : Work Disk := .fresh (f.perform 0 ⟨∅⟩ .start).store
    let inMemory := (e.saveSession Memory.backend 0 "k" (.nested 125)).perform (.fresh ∅)
    let inFiles := (e.saveSession f.backend 0 "k" (.nested 125)).perform w
    inMemory.1 = .ok () ∧ inFiles.1 = .ok () ∧
      ((e.getSession Memory.backend 1 "k").perform inMemory.2).1 = .ok (.nested 125) ∧
      ((e.getSession f.backend 1 "k").perform inFiles.2).1 = .ok (.nested 125) := by
  intro e f w inMemory inFiles
  have hx : f.HasExtension := hasExtension_sess "s"
  have hup : ".." ∉ Path.namesOf f.directory.toList := by decide
  have hstart : (f.perform 0 ⟨∅⟩ .start).result = .ok () :=
    @ok_of_toOption Unit _ () (by decide +kernel)
  have hmissing : (⟨∅⟩ : Disk).stat f.directory = .error .notFound := by
    change (⟨∅⟩ : Disk).stat "s" = .error .notFound
    rfl
  obtain ⟨l, hholds⟩ : ∃ l, f.Holds (fun _ => True) l w.store .empty :=
    FileStore.start_holds isTree_empty hmissing (by decide) hup hstart
  have hload := saved_sessions_load e rfl "k" (.nested 125) (Session.isExact_nested 125) 0 1
  have hmemory : inMemory.1 = .ok () := rfl
  have hfiles : inFiles.1 = .ok () := @ok_of_toOption Unit _ () (by decide +kernel)
  have hdepth : (Session.nested 125).persistedData.depth ≤ Encoder.depthLimit := by
    rw [Session.depth_nested]
    decide
  have hrestored : (Session.nested 125).restored "k" = .ok (.nested 125) := if_pos hdepth
  refine ⟨hmemory, hfiles, ?_, ?_⟩
  · exact (hload.1 _ hmemory).trans hrestored
  · exact (hload.2 f l w (hholds.inOrder hx "k") hfiles).trans hrestored

/-- One level deeper a session is saved and then lost: what the store has after it was saved is the
very text that it should have, and the engine does not read it any more. -/
theorem nested_session_lost :
    let e := ofProperties .standard
    let saved := (e.saveSession Memory.backend 0 "k" (.nested 126)).perform (.fresh ∅)
    let text := ['{', '"', 'a', '"', ':'] ++ List.replicate 127 '[' ++ List.replicate 127 ']' ++
      ['}']
    saved.1 = .ok () ∧
      saved.2.store = (Memory.backend.perform 0 ∅ (.set "k" (Utf8.encode text))).store ∧
      ((e.getSession Memory.backend 1 "k").perform saved.2).1 =
        .error (.deserialization .malformed) := by
  intro e saved text
  have hsaved : saved.1 = .ok () := rfl
  obtain ⟨contents, -, hencode, -, hstore⟩ := saveSession_eq_ok hsaved
  have hwrite : Json.write .compact 0 (.obj [("a", .nested 126)]) = text := by decide +kernel
  have hcontents : Utf8.encode text = contents := by
    rw [← hwrite]
    exact Except.ok.inj hencode
  have hdepth : ¬(Session.nested 126).persistedData.depth ≤ Encoder.depthLimit := by
    rw [Session.depth_nested]
    decide
  have hload : e.Restores Memory.backend (.fresh ∅) 0 1 "k" (.nested 126) :=
    restores_memory rfl (Session.isExact_nested 126) (.fresh ∅)
  exact ⟨hsaved, hcontents ▸ hstore, (hload hsaved).trans (if_neg hdepth)⟩

end Engine

end SessionStore
