import Std.Data.ExtTreeMap
import SessionStore.Disk.Path
import SessionStore.Duration

/-! # The tree of files

A disk keeps nodes at locations, which are the lists of names that lead there from the top. A walk
along a path gives the location that it means, following links on the way.
-/

namespace SessionStore

abbrev Location := List String

inductive Node
  | file (contents : Bytes) (mode : Nat) (modified : Instant)
  | directory (mode : Nat) (modified : Instant)
  | link (target : String)
  deriving DecidableEq, Repr

/-- All nodes but the directory at the top, which is always there. -/
structure Disk where
  nodes : Std.ExtTreeMap Location Node

namespace Disk

def top : Node := .directory 0o755 0

def node? (d : Disk) (l : Location) : Option Node :=
  if l = [] then some top else d.nodes[l]?

def put (d : Disk) (l : Location) (n : Node) : Disk := ⟨d.nodes.insert l n⟩

def erase (d : Disk) (l : Location) : Disk := ⟨d.nodes.erase l⟩

/-- Marks a directory as changed at `now`. -/
def stamp (d : Disk) (l : Location) (now : Instant) : Disk :=
  match d.nodes[l]? with
  | some (.directory mode _) => d.put l (.directory mode now)
  | _ => d

/-- Walks on from the directory at `here`. At a link that has to be followed `jump` takes over, with
the directory to go on from and the names still to come. The last name need not exist, and with
`follow` off it may be that of a link. -/
def walkWith (d : Disk) (follow : Bool) (jump : Location → List String → Except IoFault Location) :
    Location → List String → Except IoFault Location
  | here, [] => .ok here
  | here, name :: rest =>
    if name = "." then walkWith d follow jump here rest
    else if name = ".." then walkWith d follow jump here.dropLast rest
    else if Path.nameLimit < name.utf8ByteSize then .error .nameTooLong
    else
      match d.node? (here ++ [name]) with
      | none => if rest = [] then .ok (here ++ [name]) else .error .notFound
      | some (.directory _ _) => walkWith d follow jump (here ++ [name]) rest
      | some (.file _ _ _) => if rest = [] then .ok (here ++ [name]) else .error .notDirectory
      | some (.link target) =>
        if rest = [] ∧ ¬follow then .ok (here ++ [name])
        else
          match Path.ofText target with
          | .error why => .error why
          | .ok p => jump (if p.absolute then [] else here) (p.steps ++ rest)

/-- A walk that may follow this many links. -/
def walk (d : Disk) (follow : Bool) : Nat → Location → List String → Except IoFault Location
  | 0 => walkWith d follow fun _ _ => .error .tooManyLinks
  | links + 1 => walkWith d follow (walk d follow links)

/-- The most links that one walk follows. -/
def linkLimit : Nat := 40

/-- The location that a path means. A directory holds it, though nothing need be there. -/
def locate (d : Disk) (follow : Bool) (p : Path) : Except IoFault Location :=
  d.walk follow linkLimit [] p.steps

/-- What is at the end of a path, links followed. -/
def find (d : Disk) (p : Path) : Except IoFault (Location × Node) := do
  let l ← d.locate true p
  match d.node? l with
  | none => throw .notFound
  | some n => return (l, n)

/-- The names in the directory at `l`, in order. -/
def namesIn (d : Disk) (l : Location) : List String :=
  d.nodes.keys.filterMap fun k =>
    match k.getLast? with
    | none => none
    | some name => if k.dropLast = l then some name else none

end Disk

end SessionStore
