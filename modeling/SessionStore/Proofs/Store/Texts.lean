import SessionStore.Proofs.Store.Presence
import SessionStore.Proofs.Store.Readback
import SessionStore.Proofs.Text.Broken
import SessionStore.Store.Memory

/-! # Texts in a store

Texts are kept as their bytes in UTF-8 and nothing else. Whatever bytes are stored, they are read as
the text they are, or as broken at the place where they stop to be one.
-/

namespace SessionStore

/-- What the bytes are read as: the text that they are, or a fault that says where they break. -/
structure ReadsAs (bs : Bytes) (r : Except SessionError String) : Prop where
  ok_iff : ∀ text, r = .ok text ↔ bs = text.toUTF8.data.toList
  broken : ∀ why, r = .error why →
    ∃ fault, why = .deserialization (.notText fault) ∧ Utf8.IsBrokenAt bs fault

namespace Backend

variable {σ : Type} {b : Backend σ}

/-- Access to texts is access to their bytes. What is set is read back if and only if the store is
clear. -/
structure KeepsTexts (b : Backend σ) (Clear : σ → String → Prop) : Prop where
  set : ∀ now s id text,
    b.setText now s id text = b.perform now s (.set id text.toUTF8.data.toList)
  get_set : ∀ now later s id text, (b.setText now s id text).result = .ok () →
    ((b.getText later (b.setText now s id text).store id).result = .ok text ↔ Clear s id)
  get_store : ∀ now s id, (b.getText now s id).store = s
  get_error : ∀ now s id why, (b.perform now s (.get id)).result = .error why →
    (b.getText now s id).result = .error why
  get_ok : ∀ now s id (bs : Bytes), (b.perform now s (.get id)).result = .ok bs →
    ReadsAs bs (b.getText now s id).result

theorem getText_readsAs {now : Instant} {s : σ} {id : String} {bs : Bytes}
    (h : (b.perform now s (.get id)).result = .ok bs) : ReadsAs bs (b.getText now s id).result := by
  rcases hdecode : Utf8.decodeText bs with fault | t
  · have hresult : (b.getText now s id).result = .error (.deserialization (.notText fault)) := by
      simp only [getText, h, Except.bind, hdecode]
    refine ⟨fun text => ?_, fun why hwhy => ?_⟩
    · rw [hresult, ← Utf8.decodeText_eq_ok_iff, hdecode]
      simp
    · rw [hresult] at hwhy
      cases hwhy
      exact ⟨fault, rfl, Utf8.isBrokenAt_of_decode (Utf8.decodeText_eq_error_iff.mp hdecode)⟩
  · have hresult : (b.getText now s id).result = .ok t := by
      simp only [getText, h, Except.bind, hdecode]
    refine ⟨fun text => ?_, fun why hwhy => ?_⟩
    · rw [hresult, ← Utf8.decodeText_eq_ok_iff, hdecode, Except.ok.injEq, Except.ok.injEq]
    · rw [hresult] at hwhy
      cases hwhy

/-- A text is read only from the bytes that it has. -/
theorem getText_eq_ok_iff {now : Instant} {s : σ} {id text : String} :
    (b.getText now s id).result = .ok text ↔
      (b.perform now s (.get id)).result = .ok text.toUTF8.data.toList := by
  rcases h : (b.perform now s (.get id)).result with why | bs
  · simp [getText, h, Except.bind]
  · rw [(getText_readsAs h).ok_iff]
    exact ⟨fun heq => congrArg _ heq, fun heq => Except.ok.inj heq⟩

/-- A backend whose contents are read as they have been set keeps texts. -/
theorem keepsTexts {Clear : σ → String → Prop}
    (hstore : ∀ now s id, (b.perform now s (.get id)).store = s)
    (hget : ∀ now later s id contents, (b.perform now s (.set id contents)).result = .ok () →
      ((b.perform later (b.perform now s (.set id contents)).store (.get id)).result =
        .ok contents ↔ Clear s id)) : b.KeepsTexts Clear where
  set now s id text := by rw [setText, Utf8.encodeText_eq]
  get_set now later s id text h := by
    rw [getText_eq_ok_iff, ← Utf8.encodeText_eq]
    exact hget now later s id _ h
  get_store now s id := hstore now s id
  get_error now s id why h := by
    simp only [getText, h]
    rfl
  get_ok now s id bs h := getText_readsAs h

end Backend

namespace Memory

theorem get_store (now : Instant) (m : Memory) (id : String) :
    (perform now m (.get id)).store = m := by
  simp only [perform]
  split <;> rfl

theorem get_of_set (now later : Instant) (m : Memory) (id : String) (contents : Bytes) :
    (perform later (perform now m (.set id contents)).store (.get id)).result = .ok contents := by
  simp [perform, Outcome.done]

end Memory

/-- In memory and in files alike, to set a text is to set its bytes, and what has been set is read
back, from files if and only if the way to where it is written does not lead through its own place,
as it never does without links. Of all stored bytes exactly those of a text are read as that text,
and all others are reported with the length of their longest beginning that is a text. Reading
changes nothing and passes on why there are no bytes. -/
theorem backends_keep_texts : Memory.backend.KeepsTexts (fun _ _ => True) ∧
    ∀ f : FileStore, f.backend.KeepsTexts f.IsClear ∧
      ∀ d : Disk, d.NoLinks → ∀ now id text, (f.backend.setText now d id text).result = .ok () →
        f.IsClear d id := by
  constructor
  · exact Backend.keepsTexts Memory.get_store fun now later m id contents _ =>
      iff_true_intro (Memory.get_of_set now later m id contents)
  · intro f
    refine ⟨Backend.keepsTexts f.get_store fun now later d id contents h =>
      FileStore.get_of_set_iff h later, ?_⟩
    exact fun d hd now id text h => FileStore.isClear_of_noLinks hd h

/-- A directory in which a link stands where the contents of an id are written, and leads to the
place of that id itself. -/
def linked : Disk :=
  ((⟨∅⟩ : Disk).put ["s"] (.directory 0o700 0)).put ["s", "k.sess.tmp"] (.link "k.sess")

/-- The link is moved to the place it leads to. -/
theorem text_lost_behind_link :
    let f : FileStore := ⟨"s", "sess"⟩
    let o := f.backend.setText 1 linked "k" "v"
    o.result = .ok () ∧ (f.backend.getText 2 o.store "k").result = .error (.io .tooManyLinks) :=
  ⟨rfl, rfl⟩

end SessionStore
