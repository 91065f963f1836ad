import Beacon.Settings.Word
import Beacon.Text.Numeral

/-!
# The entries of a settings file

A settings file is a list of entries, each a key and a value on a line of its own. Only an array may
go over several lines.
-/

namespace Beacon.Settings

/-- A value that can describe a setting. -/
inductive Value
  | text (text : String)
  | integer (n : Int)
  | truth (b : Bool)
  | texts (texts : List String)
  deriving DecidableEq, Repr

namespace Value

/-- Digits with single underscores between them, without the underscores. -/
def separated? (digits : List Char) : Option (List Char) :=
  let groups := Text.fields '_' digits
  if groups.any (·.isEmpty) then none else some groups.flatten

/-- A number in the digits of a base. -/
def inBase? (base : Nat) (digits : List Char) : Option Nat := do
  let digits ← separated? digits
  digits.foldlM (fun n c => do
    let d ← Word.hexDigit? c
    if d < base then some (base * n + d) else none) 0

/-- A decimal number: no zero in front of other digits. -/
def decimal? (digits : List Char) : Option Nat := do
  let n ← inBase? 10 digits
  if digits.head? = some '0' ∧ digits.length ≠ 1 then none else some n

/-- An integer: with an own mark for the bases 16, 8 and 2, else decimal with an optional sign. -/
def integer? : List Char → Option Int
  | '0' :: 'x' :: digits => (inBase? 16 digits).map Int.ofNat
  | '0' :: 'o' :: digits => (inBase? 8 digits).map Int.ofNat
  | '0' :: 'b' :: digits => (inBase? 2 digits).map Int.ofNat
  | '-' :: digits => (decimal? digits).map fun n => -(n : Int)
  | digits => (decimal? digits).map Int.ofNat

/-- The texts of an array, up to its end. Line ends count for nothing, and a comma may stand behind
the last text. `wanted` says whether the next thing is a text or what may follow one. -/
def texts? (wanted : Bool) : List Word → Option (List String × List Word)
  | .newline :: rest => texts? wanted rest
  | .closing :: rest => some ([], rest)
  | .quoted first _ :: rest =>
    if wanted then (texts? false rest).map fun (others, rest) => (first :: others, rest) else none
  | .comma :: rest => if wanted then none else texts? true rest
  | _ => none

/-- A value, and the words behind it. -/
def ofWords? : List Word → Option (Value × List Word)
  | .quoted t _ :: rest => some (.text t, rest)
  | .opening :: rest => (texts? true rest).map fun (ts, rest) => (.texts ts, rest)
  | .plus number :: rest => (integer? number.toList).map fun n => (.integer n, rest)
  | .plain word :: rest =>
    if word = "true" then some (.truth true, rest)
    else if word = "false" then some (.truth false, rest)
    else (integer? word.toList).map fun n => (.integer n, rest)
  | _ => none

end Value

/-- The key of an entry: a plain word, or a text on one line. -/
def key? : Word → Option String
  | .plain text => some text
  | .quoted text false => some text
  | _ => none

/-- The entries of a file from its words. Every entry takes a line, so there are fewer entries than
words. -/
def entriesWithin : Nat → List Word → Option (List (String × Value))
  | _, [] => some []
  | 0, _ => none
  | fuel + 1, .newline :: rest => entriesWithin fuel rest
  | fuel + 1, w :: .equals :: rest => do
    let key ← key? w
    let (value, rest) ← Value.ofWords? rest
    match rest with
    | [] => return [(key, value)]
    | .newline :: rest => return (key, value) :: (← entriesWithin fuel rest)
    | _ => none
  | _, _ => none

/-- The entries of a file. -/
def entries? (cs : List Char) : Option (List (String × Value)) := do
  let words ← Word.ofChars? cs
  entriesWithin (words.length + 1) words

end Beacon.Settings
