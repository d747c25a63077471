import Std.Data.ExtTreeMap
import SessionStore.Store.Backend

/-! # The memory backend

Contents are kept in a map, each with the instant from which its idle time counts.
-/

namespace SessionStore

structure Entry where
  contents : Bytes
  touched : Instant
  deriving DecidableEq, Repr

abbrev Memory := Std.ExtTreeMap String Entry

namespace Memory

/-- What has not been idle for longer than `maxAge`. -/
def fresh (m : Memory) (now : Instant) (maxAge : Duration) : Memory :=
  m.filter fun _ e => decide (Instant.elapsed now e.touched ≤ maxAge)

def perform (now : Instant) (m : Memory) : (c : Call) → Outcome Memory c.Reply
  | .start => .done m () []
  | .stop => .done m () []
  | .contains id => .done m (m.contains id) []
  | .get id =>
    match m[id]? with
    | some e => .done m e.contents []
    | none => .failed m (.notFound id)
  | .set id contents =>
    .done (m.insert id ⟨contents, now⟩) () [.storingEntry id contents.length]
  | .delete id => .done (m.erase id) () []
  | .touch id =>
    match m[id]? with
    | some e => .done (m.insert id ⟨e.contents, now⟩) () []
    | none => .failed m (.notFound id)
  | .purge maxAge =>
    let kept := fresh m now maxAge
    let removed := m.size - kept.size
    .done kept removed (if removed = 0 then [] else [.purgedEntries removed kept.size])

def backend : Backend Memory := ⟨true, perform⟩

/-- How long an entry has been idle, if there is one. -/
def idle? (m : Memory) (now : Instant) (id : String) : Option Duration :=
  m[id]?.map fun e => Instant.elapsed now e.touched

end Memory

end SessionStore
