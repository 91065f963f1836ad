import Beacon.Text.Field
import Beacon.Text.Numeral

/-!
# Colours

A colour is three channels of eight bits. Its written form in an effect is `R,G,B`, bare or in one
pair of braces; its form for the light is the line `R G B`.
-/

namespace Beacon

/-- The brightness of the three lamps of a light. -/
structure Color where
  red : UInt8
  green : UInt8
  blue : UInt8
  deriving DecidableEq, Repr, Inhabited

namespace Color

/-- All lamps off. -/
def black : Color := ⟨0, 0, 0⟩

/-- The brightest channel. -/
def peak (c : Color) : UInt8 := max (max c.red c.green) c.blue

/-- The same change on each channel. -/
def map (f : UInt8 → UInt8) (c : Color) : Color := ⟨f c.red, f c.green, f c.blue⟩

/-- One channel: one to three digits with a value of at most 255. -/
def channel? (cs : List Char) : Option UInt8 :=
  if cs.length ≤ 3 then
    ((Text.natural? cs).filter (· ≤ 255)).map UInt8.ofNat
  else none

/-- What stands inside the braces of a written colour, or the whole of a bare one. A brace that is
opened must be closed at the very end. -/
def unbraced? : List Char → Option (List Char)
  | '{' :: rest => Text.dropLast? '}' rest
  | cs => some cs

/-- A written colour: exactly three channels between commas. -/
def ofChars? (cs : List Char) : Option Color := do
  match Text.fields ',' (← unbraced? cs) with
  | [r, g, b] => return ⟨← channel? r, ← channel? g, ← channel? b⟩
  | _ => none

/-- The line that shows a colour, without its end: the channels in decimal, one space between. -/
def text (c : Color) : List Char :=
  Nat.toDigits 10 c.red.toNat ++ ' ' :: Nat.toDigits 10 c.green.toNat ++
    ' ' :: Nat.toDigits 10 c.blue.toNat

/-- The line that shows a colour. -/
def line (c : Color) : List Char := c.text ++ ['\n']

end Color

end Beacon
