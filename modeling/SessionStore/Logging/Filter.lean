import SessionStore.Logging.Config
import SessionStore.Text.Numeral
import SessionStore.Text.Pieces

/-! # Log filters

A filter is a list of directives, each a threshold for the events of some part of a program. The
most exact directive decides, and what no directive covers is not logged.
-/

namespace SessionStore.Logging

/-- A threshold for the targets that begin with `target`. -/
structure Directive where
  target : List Char
  level : Level
  deriving DecidableEq, Repr

namespace Directive

/-- Levels by number, gravest last but for none at all, which is zero. -/
def numberedLevel? : Nat → Option Level
  | 0 => some .off
  | 1 => some .error
  | 2 => some .warn
  | 3 => some .info
  | 4 => some .debug
  | 5 => some .trace
  | _ => none

/-- A level in a directive: a word in any case of ASCII letters, or a number. -/
def level? (cs : List Char) : Option Level :=
  match Text.Numeral.read 5 cs with
  | .ok n => numberedLevel? n
  | .error _ => (Level.all ++ [Level.off]).find? fun l => l.word.toList == cs.map Char.toLower

/-- A letter, a digit or what joins the parts of a target; beyond ASCII every character counts as
a letter. -/
def beginsDirective (c : Char) : Bool :=
  c.isAlphanum || c == '_' || c == ':' || c == '-' || 0x80 ≤ c.toNat

/-- A level for everything, or else a target that is logged in full. -/
def bare (cs : List Char) : Directive :=
  match level? cs with
  | some l => ⟨[], l⟩
  | none => ⟨cs, .trace⟩

/-- Reads a bare level or target, or a target with its level after an equals sign. White space is
never cut off; in front of a target with a level it is refused. -/
def parse? (cs : List Char) : Option Directive :=
  let target := cs.takeWhile (· != '=')
  if !((Text.trimChars cs).head?.map beginsDirective).getD false || target.contains '[' then none
  else
    match cs.dropWhile (· != '=') with
    | [] => some (bare cs)
    | _ :: level =>
      if (target.head?.map Text.isBlank).getD true then none
      else if level = [] then some ⟨target, .trace⟩
      else (level? level).map (⟨target, ·⟩)

end Directive

abbrev Filter := List Directive

namespace Filter

/-- A list of directives between commas; empty pieces say nothing. -/
def parse? (s : String) : Option Filter :=
  ((Text.pieces ',' s.toList).filter (!·.isEmpty)).mapM Directive.parse?

/-- The filter that the configured level gives. -/
def ofLevel (l : Level) : Filter := [⟨[], l⟩]

/-- The threshold for a target: the longest directive that fits decides, and of equal ones the
last. -/
def threshold (f : Filter) (target : List Char) : Level :=
  let fits := f.filter (·.target.isPrefixOf target)
  (fits.foldl (fun best d => if best.target.length ≤ d.target.length then d else best)
    ⟨[], .off⟩).level

/-- An event of this weight is logged. -/
def allows (f : Filter) (target : List Char) (weight : Level) : Bool :=
  decide (f.threshold target ≤ weight)

/-- The variable for filters replaces the configured level if it holds a filter. -/
def ofVariables (vars : Variables) : Filter :=
  ((vars "RUST_LOG").bind parse?).getD (ofLevel (Config.ofVariables vars).level)

end Filter

/-- What comes out of a new logging set-up that one event of each weight is sent to. -/
structure Output where
  /-- The weights that came out, lightest first. -/
  levels : List Level
  /-- The set-up announced itself. -/
  announced : Bool
  /-- How the lines were laid out, if there were any. -/
  format? : Option Format
  deriving DecidableEq, Repr

namespace Output

/-- Where a new set-up announces itself, at the level `debug`. -/
def announcer : List Char := "lapse::logging".toList

def ofVariables (vars : Variables) (target : List Char) : Output :=
  let f := Filter.ofVariables vars
  let levels := Level.all.filter (f.allows target)
  let announced := f.allows announcer .debug
  { levels, announced
    format? := if levels = [] ∧ !announced then none else some (Config.ofVariables vars).format }

end Output

end SessionStore.Logging
