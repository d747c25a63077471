import SessionStore.Disk.Calls
import SessionStore.Store.Backend
import SessionStore.Store.FileName

/-! # The file backend

Contents are kept in one file for each id, and the time of a file's last change is the instant from
which its idle time counts. New contents are written beside the file and then take its place.
-/

namespace SessionStore

namespace FileStore

/-- The fault of a call that was about one id: what is missing is the id. -/
def faultFor (id : String) (why : IoFault) : SessionError :=
  if why.isNotFound then .notFound id else .io why

/-- Makes sure that the directory is there. -/
def prepare (f : FileStore) (now : Instant) (d : Disk) : Except SessionError Unit × Disk :=
  match d.stat f.directory with
  | .ok (.directory _ _) => (.ok (), d)
  | .ok _ => (.error (.backend (.notDirectory f.directory)), d)
  | .error why =>
    if why.isNotFound then
      match d.makeDirectories now 0o700 f.directory with
      | (.ok (), e) => (.ok (), e)
      | (.error why, e) => (.error (.backend (.directoryNotCreated f.directory why)), e)
    else (.error (.backend (.directoryUnknown f.directory why)), d)

/-- Clears away the contents that could not be put in place because of `why`. -/
def discard (now : Instant) (d : Disk) (temp : String) (why : IoFault) : Outcome Disk Unit :=
  match d.remove now temp with
  | .ok e => .failed e (.io why)
  | .error left =>
    ⟨.error (.io why), d, if left.isNotFound then [] else [.temporaryLeft temp left]⟩

/-- Puts contents at `path`, whole or not at all. -/
def replace (now : Instant) (d : Disk) (path : String) (contents : Bytes) : Outcome Disk Unit :=
  match d.write now 0o600 (temporary path) contents with
  | .error why => discard now d (temporary path) why
  | .ok e =>
    match e.rename now (temporary path) path with
    | .error why => discard now e (temporary path) why
    | .ok e => .done e () []

/-- Removes what is at `path` if it has been idle for longer than `maxAge`, and tells whether it
did. What is gone already is no fault. -/
def expire (now : Instant) (maxAge : Duration) (d : Disk) (path : String) :
    Except IoFault (Bool × Disk) :=
  match d.stat path with
  | .error why => if why.isNotFound then .ok (false, d) else .error why
  | .ok (.link _) => .ok (false, d)
  | .ok (.file _ _ modified) | .ok (.directory _ modified) =>
    if Instant.elapsed now modified ≤ maxAge then .ok (false, d)
    else
      match d.remove now path with
      | .ok e => .ok (true, e)
      | .error why => if why.isNotFound then .ok (false, d) else .error why

/-- Goes through names in the directory after `removed` entries have been removed. The first failure
ends it. -/
def sweep (f : FileStore) (now : Instant) (maxAge : Duration) :
    Nat → Disk → List String → Outcome Disk Nat
  | removed, d, [] => .done d removed []
  | removed, d, name :: names =>
    let isEntry := f.isEntry name.toList
    if isEntry || f.isTemporary name.toList then
      let path := Path.join f.directory name
      match expire now maxAge d path with
      | .error why => ⟨.error (.io why), d, [.expiredLeft path why]⟩
      | .ok (gone, e) =>
        sweep f now maxAge (if gone && isEntry then removed + 1 else removed) e names
    else sweep f now maxAge removed d names

def purge (f : FileStore) (now : Instant) (maxAge : Duration) (d : Disk) : Outcome Disk Nat :=
  match d.list f.directory with
  | .error why =>
    if why.isNotFound then .done d 0 [.directoryMissing f.directory] else .failed d (.io why)
  | .ok names =>
    let o := f.sweep now maxAge 0 d names
    match o.result with
    | .ok removed =>
      if removed = 0 then o else { o with events := o.events ++ [.purgedFiles removed f.directory] }
    | .error _ => o

def perform (f : FileStore) (now : Instant) (d : Disk) : (c : Call) → Outcome Disk c.Reply
  | .start =>
    match f.prepare now d with
    | (.ok (), e) => .done e () [.directoryReady f.directory]
    | (.error why, e) => .failed e why
  | .stop => .done d () []
  | .contains id =>
    match d.stat (f.pathFor id) with
    | .ok _ => .done d true []
    | .error why => if why.isNotFound then .done d false [] else .failed d (.io why)
  | .get id =>
    match d.read (f.pathFor id) with
    | .ok contents => .done d contents []
    | .error why => .failed d (faultFor id why)
  | .set id contents =>
    let path := f.pathFor id
    let o := replace now d path contents
    match o.result with
    | .ok () => { o with events := o.events ++ [.storedFile id path contents.length] }
    | .error _ => o
  | .delete id =>
    match d.remove now (f.pathFor id) with
    | .ok e => .done e () [.deletedFile id]
    | .error why => if why.isNotFound then .done d () [] else .failed d (.io why)
  | .touch id =>
    match d.setModified (f.pathFor id) now with
    | .ok e => .done e () []
    | .error why => .failed d (faultFor id why)
  | .purge maxAge => f.purge now maxAge d

def backend (f : FileStore) : Backend Disk := ⟨true, f.perform⟩

end FileStore

end SessionStore
