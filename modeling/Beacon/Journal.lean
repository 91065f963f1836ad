/-!
# Journals

What happened, in order, for whoever runs the light. An entry has a level and a message.
-/

namespace Beacon

/-- How much an entry matters. -/
inductive Level
  | debug | info | warn | error
  deriving DecidableEq, Repr

/-- The name of a level. -/
def Level.name : Level → String
  | .debug => "DEBUG"
  | .info => "INFO"
  | .warn => "WARN"
  | .error => "ERROR"

/-- One event. -/
structure Entry where
  level : Level
  message : String
  deriving DecidableEq, Repr

/-- The events so far. -/
abbrev Journal := Array Entry

namespace Entry

/-- The level and the message. -/
def render (e : Entry) : String := e.level.name ++ " " ++ e.message

/-- The form on a terminal: every further line of a message is indented by four blanks. -/
def renderIndented (e : Entry) : String :=
  String.ofList (e.render.toList.flatMap fun c =>
    if c = '\n' then ['\n', ' ', ' ', ' ', ' '] else [c])

end Entry

/-- The entries that are shown when debugging is off. -/
def Journal.coarse (j : Journal) : List Entry := j.toList.filter (·.level ≠ .debug)

end Beacon
