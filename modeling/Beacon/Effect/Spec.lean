import Beacon.Effect
import Beacon.Text.Blank

/-!
# Effect specs

The text of an effect is `name{fields}`, blanks around it aside. A bare colour has the empty name,
`c` or `color`, and the colour inside the braces; the other kinds have three fields between bars.
A text that is refused gets the error of the first check that fails: the braces, the name, the
number of fields, then the fields from left to right.
-/

namespace Beacon

/-- Why the text of an effect is refused; each cause carries the text at fault. -/
inductive SpecError
  | badColor (text : String)
  | badDuration (text : String)
  | badRepeatCount (text : String)
  | unknownEffectName (text : String)
  | malformed (text : String)
  deriving DecidableEq, Repr

namespace SpecError

/-- The text at fault. -/
def text : SpecError → String
  | badColor t | badDuration t | badRepeatCount t | unknownEffectName t | malformed t => t

/-- What is wrong with the text. -/
def complaint : SpecError → String
  | badColor _ => "bad color"
  | badDuration _ => "bad duration"
  | badRepeatCount _ => "bad repeat count"
  | unknownEffectName _ => "unknown effect name"
  | malformed _ => "malformed effect spec"

/-- The error as a message: the complaint, and the text at fault between back quotes. -/
def message (e : SpecError) : String := e.complaint ++ " `" ++ e.text ++ "`"

end SpecError

/-- A written colour, or the complaint about it. -/
def Color.parse (cs : List Char) : Except SpecError Color :=
  match Color.ofChars? cs with
  | some c => .ok c
  | none => .error (.badColor (String.ofList cs))

/-- A written duration, or the complaint about it. -/
def Duration.parse (cs : List Char) : Except SpecError Duration :=
  match Duration.ofChars? cs with
  | some d => .ok d
  | none => .error (.badDuration (String.ofList cs))

namespace Effect

/-- A written count: an integer of 32 bits. -/
def parseCount (cs : List Char) : Except SpecError Int :=
  match Text.integerWithin? (-2147483648) 2147483647 cs with
  | some n => .ok n
  | none => .error (.badRepeatCount (String.ofList cs))

/-- The kind that a name stands for. -/
def Kind.ofName? (name : String) : Option Kind :=
  if name = "" ∨ name = "c" ∨ name = "color" then some .solid
  else if name = "fade" then some .fade
  else if name = "flash" then some .flash
  else if name = "blend" then some .blend
  else if name = "fire" then some .fire
  else none

/-- The three fields of a body; `spec` is the text that a complaint shows. -/
def parseFields (spec body : List Char) :
    Except SpecError (List Char × List Char × List Char) :=
  match Text.fields '|' body with
  | [first, second, third] => .ok (first, second, third)
  | _ => .error (.malformed (String.ofList spec))

/-- The fields of a pattern: its delay, its colour and its count. -/
def parsePattern (spec body : List Char) : Except SpecError Pattern := do
  let (delay, color, count) ← parseFields spec body
  return ⟨← Duration.parse delay, ← Color.parse color, ← parseCount count⟩

/-- A fire must end, so its count must not be negative; the complaint then shows the count in its
plain decimal form. -/
def parseFire (spec body : List Char) : Except SpecError Effect := do
  let pattern ← parsePattern spec body
  if pattern.count < 0 then .error (.badRepeatCount (toString pattern.count))
  else .ok (.fire pattern)

/-- The fields of a blend: the colour it starts from, the one it ends at, and its duration. -/
def parseBlend (spec body : List Char) : Except SpecError Effect := do
  let (start, goal, duration) ← parseFields spec body
  return .blend (← Color.parse start) (← Color.parse goal) (← Duration.parse duration)

/-- The body of a bare colour, which must not hold braces of its own. -/
def parseSolid (spec body : List Char) : Except SpecError Effect :=
  if '{' ∈ body ∨ '}' ∈ body then .error (.malformed (String.ofList spec))
  else (Color.parse body).map .solid

/-- The effect of a kind with a given body. -/
def parseBody (kind : Kind) (spec body : List Char) : Except SpecError Effect :=
  match kind with
  | .solid => parseSolid spec body
  | .fade => (parsePattern spec body).map .fade
  | .flash => (parsePattern spec body).map .flash
  | .blend => parseBlend spec body
  | .fire => parseFire spec body

/-- The effect of a text without blanks around it. -/
def parseTrimmed (spec : List Char) : Except SpecError Effect :=
  match Text.enclosed? '{' '}' spec with
  | none => .error (.malformed (String.ofList spec))
  | some (name, body) =>
    match Kind.ofName? (String.ofList name) with
    | none => .error (.unknownEffectName (String.ofList name))
    | some kind => parseBody kind spec body

/-- The effect that a line describes. -/
def parse (line : String) : Except SpecError Effect :=
  parseTrimmed (Text.trim line.toList)

end Effect

end Beacon
