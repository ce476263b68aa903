import PerpRollout.Log
import PerpRollout.Path

/-!
# Where log lines go

Log lines go to the console and, if one is named, to a file.  Both take the
lines from a level up.  Without either no line is looked at.
-/

namespace PerpRollout.Log

/-- Where lines go, and from which level up. -/
structure Settings where
  file : Option String := none
  level : String := "INFO"
  console : Bool := true
  deriving Repr

namespace Settings

/-- The log file; an empty name is none. -/
def path? (s : Settings) : Option Path :=
  (s.file.filter (!·.isEmpty)).map .ofText

def hasSink (s : Settings) : Bool :=
  s.console || s.path?.isSome

def configured (s : Settings) : Line :=
  let file := match s.path? with
    | some p => p.text
    | none => s.file.getD "None"
  line .debug ("Logging configured: level=" ++ s.level ++ ", file=" ++ file)

/-- The level lines are taken from, if there is a place for them. -/
def threshold? (s : Settings) : Except Failure (Option Level) :=
  if s.hasSink then do return some (← Level.parse s.level) else .ok none

end Settings

/-- A line about an environment, at the level of that name. -/
def lineAt (environment : String) (level message : String) : Except Failure Line := do
  return bound environment (← Level.parse level) message

/-- The lines that are taken: the one about the settings and, of the messages,
those from the level up.  Each message is given with its environment and the name
of its level. -/
def Settings.taken (s : Settings) (messages : List (String × String × String)) :
    Except Failure (List Line) := do
  match ← s.threshold? with
  | none => return []
  | some level =>
    let lines ← messages.mapM fun (environment, name, message) => lineAt environment name message
    return atLeast level (s.configured :: lines)

end PerpRollout.Log
