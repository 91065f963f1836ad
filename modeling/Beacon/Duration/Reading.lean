import Beacon.Effect.Spec

/-!
# Reading durations from left to right

A duration can also be read in one go. Behind its sign the text is used up group by group, and what
the groups come to is added up on the way: a number goes as far as the first character that belongs
to none, and its unit from there to the next character that does. How many groups there are is known
only when the text is used up.
-/

namespace Beacon.Duration

/-- What a reading comes to: a value, or the complaint about the text; nothing if it never ends. -/
abbrev Reading (α : Type) := ExceptT SpecError Option α

/-- A value, or the complaint if there is none. -/
def Reading.found {α : Type} (complaint : SpecError) : Option α → Reading α
  | some a => pure a
  | none => throw complaint

open Reading (found)

/-- Cuts a number off the front of a text. Its unit must follow. -/
def readNumber (complaint : SpecError) (text : List Char) : Reading (Rat × List Char) :=
  match text.findIdx? fun c => !isNumberChar c with
  | none => throw complaint
  | some length => do
    let (number, rest) := text.splitAt length
    if number = [] ∨ number = ['.'] then throw complaint
    return (← found complaint (number? number), rest)

/-- Cuts a unit off the front of a text: as far as the next number, or all of it. -/
def readSpan (complaint : SpecError) (text : List Char) : Reading (Span × List Char) := do
  let (unit, rest) := text.splitAt ((text.findIdx? isNumberChar).getD text.length)
  return (← found complaint (Span.ofChars? unit), rest)

/-- Adds group after group to `total` until the text is used up. -/
def readGroups (complaint : SpecError) (total : Rat) (text : List Char) : Reading Rat := do
  let mut total := total
  let mut rest := text
  while rest ≠ [] do
    let (value, behind) ← readNumber complaint rest
    let (span, behind) ← readSpan complaint behind
    total := Precision.double (total + Precision.double (Precision.double value * span.nanos))
    rest := behind
  return total

/-- Reads a duration. A minus sign is refused before anything behind it is looked at. -/
def read (text : List Char) : Reading Duration := do
  let complaint := SpecError.badDuration (String.ofList text)
  let unsigned ← match text with
    | '-' :: _ => throw complaint
    | '+' :: rest => pure rest
    | _ => pure text
  if unsigned = ['0'] then return zero
  if unsigned = [] then throw complaint
  found complaint (ofTotal? (← readGroups complaint 0 unsigned))

end Beacon.Duration
