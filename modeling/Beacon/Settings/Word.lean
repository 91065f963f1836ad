import Beacon.Text.Field

/-!
# Words of a settings file

A settings file is written in a small part of TOML: one `key = value` to a line, where a value is a
text, an integer, a truth value or an array of texts. This module cuts the file into words and
marks. Blanks and comments fall away here. Whatever belongs to the rest of TOML (tables, dotted
keys, fractions, dates) can not describe a setting, so a character that only occurs there is an
error.
-/

namespace Beacon.Settings

/-- A word or a mark. A text knows whether it was written between triple quotes. -/
inductive Word
  | newline
  | equals
  | comma
  | opening
  | closing
  | plain (text : String)
  | plus (text : String)
  | quoted (text : String) (triple : Bool)
  deriving DecidableEq, Repr

namespace Word

/-- The characters of plain words. -/
def isPlain (c : Char) : Bool := c.isAlphanum || c == '-' || c == '_'

/-- A carriage return before a line feed does not count. -/
def foldReturns : List Char → List Char
  | '\r' :: '\n' :: rest => '\n' :: foldReturns rest
  | c :: rest => c :: foldReturns rest
  | [] => []

/-- The characters that may stand in texts and comments as they are. -/
def isPrintable (c : Char) : Bool := c == '\t' || 0x20 ≤ c.toNat

/-- The value of a hexadecimal digit. -/
def hexDigit? (c : Char) : Option Nat :=
  if c.isDigit then some (c.toNat - '0'.toNat)
  else if 'a' ≤ c ∧ c ≤ 'f' then some (c.toNat - 'a'.toNat + 10)
  else if 'A' ≤ c ∧ c ≤ 'F' then some (c.toNat - 'A'.toNat + 10)
  else none

/-- The character with a code point written in hexadecimal digits. -/
def codePoint? (digits : List Char) : Option Char := do
  let n ← digits.foldlM (fun n c => (hexDigit? c).map (16 * n + ·)) 0
  if n.isValidChar then some (Char.ofNat n) else none

/-- What a backslash and the text behind it stand for, and the rest of the text. Between triple
quotes it may also end a line, and then takes away the blanks and line ends that follow. -/
def escape? (triple : Bool) : List Char → Option (List Char × List Char)
  | '"' :: rest => some (['"'], rest)
  | '\\' :: rest => some (['\\'], rest)
  | 'b' :: rest => some (['\x08'], rest)
  | 'f' :: rest => some (['\x0c'], rest)
  | 'n' :: rest => some (['\n'], rest)
  | 'r' :: rest => some (['\r'], rest)
  | 't' :: rest => some (['\t'], rest)
  | 'u' :: rest => do
    if rest.length < 4 then none
    else return ([← codePoint? (rest.take 4)], rest.drop 4)
  | 'U' :: rest => do
    if rest.length < 8 then none
    else return ([← codePoint? (rest.take 8)], rest.drop 8)
  | rest =>
    let isSpace (c : Char) : Bool := c == ' ' || c == '\t'
    if triple then
      match rest.dropWhile isSpace with
      | '\n' :: rest => some ([], rest.dropWhile fun c => isSpace c || c == '\n')
      | [] => some ([], [])
      | _ => none
    else none

/-- A text up to its closing quotes, and the rest. In a text between `"` the backslash escapes, in
one between `'` it stands for itself. -/
def quoted? (quote : Char) (triple : Bool) : Nat → List Char → Option (List Char × List Char)
  | 0, _ => none
  | fuel + 1, cs =>
    match triple, cs with
    | _, [] => none
    | false, c :: rest =>
      if c = quote then some ([], rest)
      else if c = '\\' ∧ quote = '"' then do
        let (chars, rest) ← escape? triple rest
        let (text, rest) ← quoted? quote triple fuel rest
        return (chars ++ text, rest)
      else if isPrintable c ∧ c ≠ '\x7f' then
        (quoted? quote triple fuel rest).map fun (text, rest) => (c :: text, rest)
      else none
    | true, c :: rest =>
      if c = quote then
        -- Three quotes end the text; up to two more before the end belong to it.
        let quotes := (rest.takeWhile (· = quote)).length + 1
        if quotes < 3 then
          (quoted? quote triple fuel rest).map fun (text, rest) => (c :: text, rest)
        else
          let inside := min (quotes - 3) 2
          some (List.replicate inside quote, cs.drop (inside + 3))
      else if c = '\\' ∧ quote = '"' then do
        let (chars, rest) ← escape? triple rest
        let (text, rest) ← quoted? quote triple fuel rest
        return (chars ++ text, rest)
      else if c = '\n' ∨ isPrintable c ∧ c ≠ '\x7f' then
        (quoted? quote triple fuel rest).map fun (text, rest) => (c :: text, rest)
      else none

/-- A text that starts behind its first quote. A line end right behind triple quotes is left out. -/
def text? (quote : Char) (cs : List Char) : Option (Word × List Char) :=
  match cs with
  | a :: b :: rest =>
    if a = quote ∧ b = quote then
      let body := match rest with
        | '\n' :: body => body
        | body => body
      (quoted? quote true (body.length + 1) body).map fun (text, rest) =>
        (.quoted (String.ofList text) true, rest)
    else plainText cs
  | _ => plainText cs
where
  /-- A text between single marks. -/
  plainText (cs : List Char) : Option (Word × List Char) :=
    (quoted? quote false (cs.length + 1) cs).map fun (text, rest) =>
      (.quoted (String.ofList text) false, rest)

/-- The words of a file without carriage returns before line feeds. -/
def wordsWithin : Nat → List Char → Option (List Word)
  | _, [] => some []
  | 0, _ => none
  | fuel + 1, c :: rest =>
    let mark (w : Word) := (wordsWithin fuel rest).map (w :: ·)
    if c = '\n' then mark .newline
    else if c = ' ' ∨ c = '\t' then wordsWithin fuel rest
    else if c = '#' then wordsWithin fuel (rest.dropWhile isPrintable)
    else if c = '=' then mark .equals
    else if c = ',' then mark .comma
    else if c = '[' then mark .opening
    else if c = ']' then mark .closing
    else if c = '"' ∨ c = '\'' then do
      let (w, rest) ← text? c rest
      (wordsWithin fuel rest).map (w :: ·)
    else if c = '+' then
      let text := rest.takeWhile isPlain
      if text = [] then none
      else (wordsWithin fuel (rest.drop text.length)).map (.plus (String.ofList text) :: ·)
    else if isPlain c then
      let text := c :: rest.takeWhile isPlain
      (wordsWithin fuel (rest.dropWhile isPlain)).map (.plain (String.ofList text) :: ·)
    else none

/-- The words of a settings file. A byte order mark at its start does not count. -/
def ofChars? (cs : List Char) : Option (List Word) :=
  let cs := match cs with
    | '\ufeff' :: rest => rest
    | cs => cs
  let cs := foldReturns cs
  wordsWithin (cs.length + 1) cs

end Word

end Beacon.Settings
