import SessionStore.Disk.Tree

/-! # Disk calls

The calls that change or show the tree of files. A call that fails changes nothing, except that
making a directory with all those above it keeps what it has made.
-/

namespace SessionStore.Disk

/-- The node at the end of a path, links followed. -/
def stat (d : Disk) (path : String) : Except IoFault Node := do
  let (_, n) ← d.find (← Path.ofText path)
  return n

/-- The contents of a file. -/
def read (d : Disk) (path : String) : Except IoFault Bytes := do
  match ← d.stat path with
  | .file contents _ _ => return contents
  | .directory _ _ => throw .isDirectory
  | .link _ => throw .notFound

/-- The names in a directory, in order. -/
def list (d : Disk) (path : String) : Except IoFault (List String) := do
  match ← d.find (← Path.ofText path) with
  | (l, .directory _ _) => return d.namesIn l
  | _ => throw .notDirectory

/-- The names in a directory with what they name, links not followed. -/
def entries (d : Disk) (path : String) : Except IoFault (List (String × Node)) := do
  match ← d.find (← Path.ofText path) with
  | (l, .directory _ _) =>
    return (d.namesIn l).filterMap fun name => (d.node? (l ++ [name])).map (name, ·)
  | _ => throw .notDirectory

/-- Gives a file new contents. A new file gets the mode, an old one keeps its own. -/
def write (d : Disk) (now : Instant) (mode : Nat) (path : String) (contents : Bytes) :
    Except IoFault Disk := do
  let l ← d.locate true (← Path.ofText path)
  match d.node? l with
  | none => return (d.put l (.file contents mode now)).stamp l.dropLast now
  | some (.file _ old _) => return d.put l (.file contents old now)
  | some (.directory _ _) => throw .isDirectory
  | some (.link _) => throw .notFound

/-- Sets the time of the last change of a file. -/
def setModified (d : Disk) (path : String) (time : Instant) : Except IoFault Disk := do
  match ← d.find (← Path.ofText path) with
  | (l, .file contents mode _) => return d.put l (.file contents mode time)
  | (_, .directory _ _) => throw .isDirectory
  | (_, .link _) => throw .notFound

/-- Sets the time of the last change of a file or a directory. -/
def age (d : Disk) (path : String) (time : Instant) : Except IoFault Disk := do
  match ← d.find (← Path.ofText path) with
  | (l, .file contents mode _) => return d.put l (.file contents mode time)
  | (l, .directory mode _) => return d.put l (.directory mode time)
  | (_, .link _) => throw .notFound

/-- Removes a file or a link. -/
def remove (d : Disk) (now : Instant) (path : String) : Except IoFault Disk := do
  let l ← d.locate false (← Path.ofText path)
  match d.node? l with
  | none => throw .notFound
  | some (.directory _ _) => throw .isDirectory
  | some _ => return (d.erase l).stamp l.dropLast now

/-- Removes whatever is there, a directory with all that is in it. -/
def removeTree (d : Disk) (now : Instant) (path : String) : Except IoFault Disk := do
  let l ← d.locate false (← Path.ofText path)
  match d.node? l with
  | none => throw .notFound
  | some _ => return (⟨d.nodes.filter fun k _ => !l.isPrefixOf k⟩ : Disk).stamp l.dropLast now

/-- Moves a file or a link to another path, where it replaces any file or link. Both paths have to
end in names. -/
def rename (d : Disk) (now : Instant) (source target : String) : Except IoFault Disk := do
  let a ← Path.ofText source
  let b ← Path.ofText target
  let l ← d.locate false a
  let m ← d.locate false { b with closed := false }
  if a.isNameless || b.isNameless then throw .busy
  match d.node? l with
  | none => throw .notFound
  | some (.directory _ _) => throw .isDirectory
  | some n =>
    if b.closed then throw .notDirectory
    match d.node? m with
    | some (.directory _ _) => throw .isDirectory
    | _ => return (((d.erase l).put m n).stamp l.dropLast now).stamp m.dropLast now

/-- Makes a directory in one that is there. -/
def makeAt (d : Disk) (now : Instant) (mode : Nat) (p : Path) : Except IoFault Disk := do
  let l ← d.locate false { p with closed := false }
  match d.node? l with
  | some _ => throw .alreadyExists
  | none => return (d.put l (.directory mode now)).stamp l.dropLast now

def makeDirectory (d : Disk) (now : Instant) (mode : Nat) (path : String) :
    Except IoFault Disk := do
  d.makeAt now mode (← Path.ofText path)

/-- A directory is there, links followed. -/
def isDirectory (d : Disk) (p : Path) : Bool :=
  match d.find p with
  | .ok (_, .directory _ _) => true
  | _ => false

/-- The outcome of making a directory that may be there already. -/
def made (d : Disk) (p : Path) : Except IoFault Disk → Except IoFault Unit × Disk
  | .ok e => (.ok (), e)
  | .error why => if d.isDirectory p then (.ok (), d) else (.error why, d)

/-- Makes the first directory of the list, which needs those after it. -/
def makeChain (d : Disk) (now : Instant) (mode : Nat) : List Path → Except IoFault Unit × Disk
  | [] => (.ok (), d)
  | p :: above =>
    match d.makeAt now mode p with
    | .error (.system 2) =>
      match d.makeChain now mode above with
      | (.ok (), e) => e.made p (e.makeAt now mode p)
      | failed => failed
    | outcome => d.made p outcome

/-- Makes a directory and all those above it that are missing. The empty path needs none. -/
def makeDirectories (d : Disk) (now : Instant) (mode : Nat) (path : String) :
    Except IoFault Unit × Disk :=
  if path = "" then (.ok (), d)
  else
    match Path.ofText path with
    | .error why => (.error why, d)
    | .ok p => d.makeChain now mode (p :: p.above)

/-- Makes a link; what it leads to need not exist. -/
def makeLink (d : Disk) (now : Instant) (path target : String) : Except IoFault Disk := do
  let _ ← Path.ofText target
  let l ← d.locate false (← Path.ofText path)
  match d.node? l with
  | some _ => throw .alreadyExists
  | none => return (d.put l (.link target)).stamp l.dropLast now

end SessionStore.Disk
