import SessionStore.Json.Entries
import SessionStore.Scenario.World

/-! # Running scenarios

What every step does to the world and what it reports. A step that needs an engine, a session or a
kind of store that is not there has no meaning.
-/

namespace SessionStore.Scenario

namespace World

/-! ## Steps on the store -/

/-- The contents of an answer with their entries in order. -/
def sorted (bs : Bytes) : Answer := .bytes (Json.sortContents Encoder.depthLimit bs)

/-- The answer of a call. -/
def callAnswer : (c : Call) → c.Reply → Answer
  | .contains _, b => .flag b
  | .get _, bs => .bytes bs
  | .purge _, n => .count n
  | .start, _ | .stop, _ | .set _ _, _ | .delete _, _ | .touch _, _ => .nothing

/-- The world after an operation on its store, and the report. -/
def afterStore {α : Type} (w : World) (o : Outcome Media α) (f : α → Answer) : Report × World :=
  (.ofOutcome o f, { w with media := o.store })

def storeStep (w : World) : StoreStep → Option (Report × World)
  | .call c => some (w.afterStore (w.store.perform w.clock w.media c) (callAnswer c))
  | .getText id => some (w.afterStore (w.store.getText w.clock w.media id) .text)
  | .setText id text =>
    some (w.afterStore (w.store.setText w.clock w.media id text) fun _ => .nothing)
  | .getSorted id => some (w.afterStore (w.store.perform w.clock w.media (.get id)) sorted)
  | .requiresPurge => some (.plain (.ok (.flag w.store.requiresPurge)), w)
  | .size => some (.plain (.ok (.count w.media.memory.size)), w)
  | .isEmpty => some (.plain (.ok (.flag w.media.memory.isEmpty)), w)
  | .idle id =>
    some (.plain (.ok (.count? ((w.media.memory.idle? w.clock id).map (·.millis)))), w)
  | .wasTouched id => some (.plain (.ok (.flag (w.media.memory.contains id))), w)
  | .pathFor id => w.files?.map fun f => (.plain (.ok (.text (f.pathFor id))), w)
  | .directory => w.files?.map fun f => (.plain (.ok (.text f.directory)), w)

/-! ## Steps on the disk -/

/-- The path of a place. -/
def pathOf? (w : World) : Place → Option String
  | .path relative => some (Path.join root relative)
  | .entry id => w.files?.map (·.pathFor id)

/-- The world after a call to its disk, and the report. -/
def afterDisk (w : World) (result : Except IoFault Disk) : Report × World :=
  match result with
  | .ok disk => (.plain (.ok .nothing), { w with media := { w.media with disk } })
  | .error why => (.plain (.error (.io why)), w)

/-- The report of a look at the disk. -/
def ofDisk {α : Type} (w : World) (result : Except IoFault α) (f : α → Answer) : Report × World :=
  (.plain ((result.mapError SessionError.io).map f), w)

def diskStep (w : World) : DiskStep → Option (Report × World)
  | .write place contents => (w.pathOf? place).map fun path =>
    w.afterDisk (w.media.disk.write w.diskClock 0o644 path contents)
  | .makeDirectory place => (w.pathOf? place).map fun path =>
    w.afterDisk (w.media.disk.makeDirectory w.diskClock 0o755 path)
  | .makeLink place target => (w.pathOf? place).map fun path =>
    w.afterDisk (w.media.disk.makeLink w.diskClock path target)
  | .remove place => (w.pathOf? place).map fun path =>
    w.afterDisk (w.media.disk.removeTree w.diskClock path)
  | .read place => (w.pathOf? place).map fun path => w.ofDisk (w.media.disk.read path) .bytes
  | .age place seconds => (w.pathOf? place).map fun path =>
    w.afterDisk (w.media.disk.age path (w.diskClock - seconds * Duration.perSecond))
  | .list place => (w.pathOf? place).map fun path => w.ofDisk (w.media.disk.entries path) .nodes

/-! ## Steps on the engine -/

/-- The world and the report after an engine has obeyed a command. -/
def command (w : World) (e : Engine) (c : Command) (f : c.Answer → Answer) : Report × World :=
  let (answer, h) := (w.host e).step w.backend c
  (.ofHost (answer.map f) h, w.absorb h)

/-- The world without its engine, and what giving the engine up entails. -/
def dropEngine (w : World) : List Event × World :=
  match w.engine? with
  | none => ([], w)
  | some e =>
    let (report, w) := w.command e .drop fun _ => .nothing
    (report.events, { w with engine? := none })

/-- A new engine. -/
def makeEngine (properties? : Option Properties) (encoder? : Option Encoder) :
    Except SessionError Engine :=
  let made :=
    match properties? with
    | none => .ok (Engine.ofProperties .standard)
    | some p => Engine.make p
  match encoder? with
  | none => made
  | some encoder => made.map (·.withEncoder encoder)

/-- Two starts at once, of which the second waits for the first. -/
def startPair (w : World) (e : Engine) : Report × World :=
  let (first, h) := (w.host e).obey w.backend .start
  let (second, h) := h.obey w.backend .start
  let h := h.settle
  (.ofHost (.ok (.pair first second)) h, w.absorb h)

/-- A look at stored contents through the engine. -/
def contents (w : World) (e : Engine) (id : String) : Report × World :=
  let (result, h) := (w.host e).access (Access.call w.backend w.clock (.get id))
  (.ofHost (result.map sorted) h, w.absorb h)

/-- Loads a session into a slot. -/
def load (w : World) (e : Engine) (id slot : String) : Report × World :=
  let (answer, h) := (w.host e).step w.backend (.getSession id)
  let w := w.absorb h
  match answer with
  | .ok (s : Session) => (.ofHost (.ok (.session s)) h, { w with slots := w.slots.insert slot s })
  | .error why => (.ofHost (.error why) h, w)

/-- Steps on an engine that is there. -/
def withEngine (w : World) (e : Engine) : EngineStep → Option (Report × World)
  | .make _ _ | .drop | .shutDown => none
  | .start => some (w.command e .start fun _ => .nothing)
  | .startPair => some (w.startPair e)
  | .stop => some (w.command e .stop fun _ => .nothing)
  | .setEnabled on => some (w.command e (.setEnabled on) fun _ => .flag on)
  | .isEnabled => some (.plain (.ok (.flag e.enabled)), w)
  | .purge => some (w.command e .purge .count)
  | .get id slot => some (w.load e id slot)
  | .save id slot => w.slots[slot]?.map fun s =>
    w.command e (.saveSession id s) fun _ => .nothing
  | .contains id => some (w.command e (.sessionExists id) .flag)
  | .delete id => some (w.command e (.deleteSession id) fun _ => .nothing)
  | .touch id => some (w.command e (.touchSession id) fun _ => .nothing)
  | .newId =>
    let (id, ids) := e.newId w.ids
    let answer := .newId id.utf8ByteSize (Id.isValid id e.properties.idLength)
    some (.plain (.ok answer), { w with ids })
  | .properties => some (.plain (.ok (.properties e.properties)), w)
  | .sessionKey id => some (.plain (.ok (.text (e.properties.sessionKey id))), w)
  | .encoderName => some (.plain (.ok (.text e.encoder.name)), w)
  | .contents id => some (w.contents e id)
  | .describe => some (.plain (.ok (.text e.describe)), w)

def engineStep (w : World) (s : EngineStep) : Option (Report × World) :=
  match s, w.engine? with
  | .make properties? encoder?, _ =>
    let (events, w) := w.dropEngine
    match makeEngine properties? encoder? with
    | .ok e => some (⟨.ok .nothing, [], events⟩, { w with engine? := some e })
    | .error why => some (⟨.error why, [], events⟩, w)
  | .drop, _ =>
    let (events, w) := w.dropEngine
    some (⟨.ok .nothing, [], events⟩, w)
  | .shutDown, none => some (.plain (.ok .nothing), { w with shutdown := true })
  | .shutDown, some e => some (w.command e .shutDown fun _ => .nothing)
  | s, some e => w.withEngine e s
  | _, none => none

/-! ## Steps on sessions -/

/-- The answer of an operation that only looks at a session. -/
def look {α : Type} (w : World) (result : Except SessionError α) (f : α → Answer) :
    Option (Report × World) :=
  some (.plain (result.map f), w)

/-- The world with the session in a slot changed, if the operation did not fail. -/
def change (w : World) (slot : String) (result : Except SessionError (Answer × Session)) :
    Option (Report × World) :=
  match result with
  | .ok (answer, s) => some (.plain (.ok answer), { w with slots := w.slots.insert slot s })
  | .error why => some (.plain (.error why), w)

/-- Steps on a session that is there. -/
def withSession (w : World) (slot : String) (s : Session) : SessionStep → Option (Report × World)
  | .create _ _ => none
  | .copy target => some (.plain (.ok .nothing), { w with slots := w.slots.insert target s })
  | .same other => w.slots[other]?.map fun t => (.plain (.ok (.flag (s.same t))), w)
  | .id => w.look (.ok s.id) .text
  | .data => w.look s.data .data
  | .get key => w.look (s.get? key) .value?
  | .getAs key shape => w.look (s.getAs? key shape) .value?
  | .has key => w.look (s.has key) .flag
  | .keys => w.look s.keys .texts
  | .size => w.look s.size .count
  | .isEmpty => w.look s.isEmpty .flag
  | .set key value => w.change slot ((s.set key value).map (.nothing, ·))
  | .delete key => w.change slot ((s.delete key).map fun (v?, s) => (.value? v?, s))
  | .clear => w.change slot (s.clear.map (.nothing, ·))
  | .destroy => w.change slot (.ok (.nothing, s.destroy))

def sessionStep (w : World) (slot : String) (step : SessionStep) : Option (Report × World) :=
  match step with
  | .create id data? =>
    let s := match data? with
      | none => Session.empty id
      | some d => Session.withData id d
    some (.plain (.ok .nothing), { w with slots := w.slots.insert slot s })
  | step => w.slots[slot]?.bind fun s => w.withSession slot s step

/-! ## Time and faults -/

/-- Lets time pass, for the engine if there is one, and otherwise moves the clock to `limit`. -/
def pass (w : World) (limit : Instant) (c : Command) (f : c.Answer → Answer) : Report × World :=
  match w.engine? with
  | none => (.plain (.ok .nothing), { w with clock := limit })
  | some e => w.command e c f

def setRefusal (w : World) (kind : Call.Kind) (refusal? : Option Refusal) : World :=
  let others := w.refusals.filter (·.1 ≠ kind)
  match refusal? with
  | none => { w with refusals := others }
  | some r => { w with refusals := (kind, r) :: others }

def step (w : World) : Step → Option (Report × World)
  | .store s => w.storeStep s
  | .disk s => w.diskStep s
  | .engine s => w.engineStep s
  | .session slot s => w.sessionStep slot s
  | .sleep d => some (w.pass (w.clock.wake (w.clock.after d)) (.sleep d) fun _ => .nothing)
  | .jump d => some (w.pass (w.clock.after d) (.jump d) fun _ => .nothing)
  | .fault kind refusal? => some (.plain (.ok .nothing), w.setRefusal kind refusal?)

end World

end SessionStore.Scenario
